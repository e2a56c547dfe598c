import Mathlib.Algebra.Ring.Int.Defs
import Mathlib.Algebra.Ring.Nat
import Gras.Lib.ByteMemory

/-!
# Reference-counted slices of memory

`sbuffer.hpp`, `sbuffer.cpp`, `simple_buffer_queue.hpp` and the `ASSERT` of
`debug.hpp`.

An `SBuffer` is a handle: the `SBufferImpl` it refers to, and its own `offset`,
`length` and `last`.  Two handles compare equal when they refer to the same
`SBufferImpl`, so the identity of the impl is a field of the handle and the
configuration behind it is carried by value.  That is faithful because the only
code that changes a configuration after construction is
`BufferQueueCirc::front`, on a buffer no one else holds.

Pointers are numbers and `0` is `NULL`.  Reference counts are not stored: a
buffer is released when the last handle to its impl disappears, and
`SBuffer.released` computes which impls a call let go of from the handles that
existed before it and the ones that exist after it.
-/

namespace Gras

/-! ## Assertions -/

/-- What stops a call: a failed `ASSERT`, an explicit throw, the use of a null
pointer, or a lock that the calling thread never gets. -/
inductive Fault where
  | assertFail (condition : String)
  | runtimeError (what : String)
  | nullPointer (expression : String)
  | deadlock (mutex : String)
  deriving DecidableEq, Repr

/-- A computation that may stop with a fault. -/
abbrev Checked := Except Fault

/-- `ASSERT(x)`: throws unless the condition holds. -/
def assertThat (c : Prop) [Decidable c] (condition : String) : Checked Unit :=
  if c then .ok () else .error (.assertFail condition)

@[simp] theorem assertThat_eq_ok {c : Prop} [Decidable c] {t : String}
    {u : Unit} : assertThat c t = .ok u ↔ c := by
  unfold assertThat
  split <;> simp_all

theorem assertThat_of {c : Prop} [Decidable c] (h : c) (t : String) :
    assertThat c t = .ok () := if_pos h

namespace Checked

variable {α β : Type _}

@[simp] theorem bind_eq_ok {x : Checked α} {f : α → Checked β} {b : β} :
    (x >>= f) = .ok b ↔ ∃ a, x = .ok a ∧ f a = .ok b := by
  cases x <;> simp [bind, Except.bind]

@[simp] theorem pure_eq_ok {a b : α} :
    (pure a : Checked α) = .ok b ↔ a = b := by
  simp [pure, Except.pure]

@[simp] theorem throw_eq_ok {e : Fault} {b : α} :
    ((throw e : Checked α) = .ok b) ↔ False := by
  simp [throw, throwThe, MonadExceptOf.throw]

@[simp] theorem ok_bind (a : α) (f : α → Checked β) :
    ((.ok a : Checked α) >>= f) = f a := rfl

theorem toOption_eq_some {x : Checked α} {a : α} :
    x.toOption = some a ↔ x = .ok a := by
  cases x <;> simp [Except.toOption]

end Checked

/-! ## Buffers -/

/-- A byte of buffer memory. -/
abbrev Byte := UInt8

/-- Buffer memory: bytes behind the address mapping. -/
abbrev Memory := ByteMemory Byte

/-- `size_t(~0)`, the user index of a buffer that has none. -/
def noIndex : Nat := 2 ^ 64 - 1

/-- `a - b` in `size_t`. -/
def sizeSub (a b : Nat) : Nat := (((a : Int) - (b : Int)) % 2 ^ 64).toNat

/-- Without a borrow the subtraction is the plain one. -/
theorem sizeSub_of_le {a b : Nat} (h : b ≤ a) (ha : a < 2 ^ 64) :
    sizeSub a b = a - b := by
  unfold sizeSub
  rw [Int.emod_eq_of_lt (by omega) (by omega)]
  omega

/-- `a * b` in `size_t`. -/
def sizeMul (a b : Nat) : Nat := a * b % 2 ^ 64

/-- A product that fits is the plain one. -/
theorem sizeMul_of_lt {a b : Nat} (h : a * b < 2 ^ 64) : sizeMul a b = a * b :=
  Nat.mod_eq_of_lt h

@[simp] theorem sizeMul_zero (a : Nat) : sizeMul a 0 = 0 := rfl

@[simp] theorem zero_sizeMul (a : Nat) : sizeMul 0 a = 0 := by
  rw [sizeMul, Nat.zero_mul, Nat.zero_mod]

/-- `SBufferConfig`, less the memory deleter. -/
structure SBufferConfig where
  /-- Pointer to the memory start. -/
  memory : Nat
  /-- Length of the memory in bytes. -/
  length : Nat
  /-- Memory affinity. -/
  affinity : Int := -1
  /-- Index number for custom allocation purposes. -/
  userIndex : Nat := noIndex
  /-- The token called when the last reference goes. -/
  token : Nat := 0
  deriving DecidableEq, Repr

/-- A handle to a chunk of reference-counted memory. -/
structure SBuffer where
  /-- Which `SBufferImpl` the pointer refers to. -/
  impl : Nat
  /-- The configuration of that impl. -/
  config : SBufferConfig
  /-- The offset into valid memory in bytes. -/
  offset : Nat := 0
  /-- The number of valid bytes past offset. -/
  length : Nat := 0
  /-- Pointer to the end of the last buffer. -/
  last : Nat := 0
  deriving DecidableEq, Repr

namespace SBuffer

/-- `get(delta_bytes)`: a pointer into valid memory. -/
def get (b : SBuffer) (deltaBytes : Nat) : Nat :=
  b.config.memory + b.offset + deltaBytes

/-- `get_actual_memory()`. -/
def getActualMemory (b : SBuffer) : Nat := b.config.memory

/-- `get_actual_length()`. -/
def getActualLength (b : SBuffer) : Nat := b.config.length

/-- `get_user_index()`. -/
def getUserIndex (b : SBuffer) : Nat := b.config.userIndex

/-- `get_affinity()`. -/
def getAffinity (b : SBuffer) : Int := b.config.affinity

/-- The bytes a slice stands for. -/
def bytes (m : Memory) (b : SBuffer) : List Byte :=
  m.readRange (b.get 0) b.length

/-- What a token callback does to the handle it is given: a released buffer
comes back with offset and length zero and no `last`. -/
def reset (b : SBuffer) : SBuffer :=
  { b with offset := 0, length := 0, last := 0 }

/-- The slice without its first bytes. -/
def skip (bytes : Nat) (b : SBuffer) : SBuffer :=
  { b with offset := b.offset + bytes, length := b.length - bytes }

theorem skip_get (bytes : Nat) (b : SBuffer) :
    (b.skip bytes).get 0 = b.get 0 + bytes := by
  simp only [get, skip]
  omega

@[simp] theorem bytes_length (m : Memory) (b : SBuffer) :
    (b.bytes m).length = b.length := by
  simp [bytes]

@[simp] theorem reset_impl (b : SBuffer) : b.reset.impl = b.impl := rfl

@[simp] theorem reset_config (b : SBuffer) : b.reset.config = b.config := rfl

@[simp] theorem reset_offset (b : SBuffer) : b.reset.offset = 0 := rfl

@[simp] theorem reset_length (b : SBuffer) : b.reset.length = 0 := rfl

@[simp] theorem reset_last (b : SBuffer) : b.reset.last = 0 := rfl

theorem bytes_eq_nil {m : Memory} {b : SBuffer} (h : b.length = 0) :
    b.bytes m = [] := by
  simp [bytes, h]

/-! ### Releases -/

/-- The impls whose last handle a call dropped: one handle for each impl that
was referred to before and is not referred to after, in the order in which the
last handles went. -/
def released : List SBuffer → List SBuffer → List SBuffer
  | [], _ => []
  | b :: before, after =>
      if b.impl ∈ before.map impl ∨ b.impl ∈ after.map impl then
        released before after
      else b.reset :: released before after

theorem mem_released {b : SBuffer} {before after : List SBuffer}
    (h : b ∈ released before after) :
    (∃ b₀ ∈ before, b = b₀.reset) ∧ b.impl ∉ after.map impl := by
  induction before with
  | nil => simp [released] at h
  | cons b₁ before ih =>
      unfold released at h
      split at h
      · obtain ⟨⟨b₀, hmem, rfl⟩, hnot⟩ := ih h
        exact ⟨⟨b₀, List.mem_cons_of_mem _ hmem, rfl⟩, hnot⟩
      · rename_i hnew
        rcases List.mem_cons.mp h with rfl | h
        · exact ⟨⟨b₁, List.mem_cons_self, rfl⟩, fun hc => hnew (.inr hc)⟩
        · obtain ⟨⟨b₀, hmem, rfl⟩, hnot⟩ := ih h
          exact ⟨⟨b₀, List.mem_cons_of_mem _ hmem, rfl⟩, hnot⟩

/-- An impl is released at most once. -/
theorem released_nodup (before after : List SBuffer) :
    ((released before after).map impl).Nodup := by
  induction before with
  | nil => simp [released]
  | cons b before ih =>
      unfold released
      split
      · exact ih
      · rename_i hnew
        rw [List.map_cons, List.nodup_cons]
        refine ⟨fun hmem => ?_, ih⟩
        obtain ⟨b', hb', heq⟩ := List.mem_map.mp hmem
        obtain ⟨⟨b₀, hb₀, rfl⟩, -⟩ := mem_released hb'
        exact hnew (.inl (List.mem_map.mpr ⟨b₀, hb₀, heq⟩))

end SBuffer

/-- What the allocator hands out for a new buffer. -/
structure Allocation where
  impl : Nat
  memory : Nat
  deriving DecidableEq, Repr

/-! ## The queue of auxiliary buffers -/

/-- `SimpleBufferQueue`: a FIFO of buffers whose token puts a released buffer
back at the end of it. -/
structure SimpleBufferQueue where
  token : Nat
  buffers : List SBuffer
  deriving DecidableEq, Repr

namespace SimpleBufferQueue

/-- `push_back(buff)`, the callback behind the token. -/
def pushBack (q : SimpleBufferQueue) (b : SBuffer) : SimpleBufferQueue :=
  { q with buffers := q.buffers ++ [b] }

/-- The buffer `allocate_one(num_bytes)` makes. -/
def newBuffer (q : SimpleBufferQueue) (fresh : Allocation) (numBytes : Nat) :
    SBuffer where
  impl := fresh.impl
  config := { memory := fresh.memory, length := numBytes, token := q.token }

/-- `allocate_one(num_bytes)`: the new buffer is dereferenced at once, and the
token messages it into the queue. -/
def allocateOne (q : SimpleBufferQueue) (fresh : Allocation) (numBytes : Nat) :
    SimpleBufferQueue := q.pushBack (q.newBuffer fresh numBytes)

end SimpleBufferQueue

end Gras
