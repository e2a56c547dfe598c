import Mathlib.Logic.Function.Basic
import Mathlib.Data.List.Basic

/-!
# Byte-addressed memory behind an address mapping

A memory is a store of cells together with the mapping from the addresses a
program uses to the cells behind them; two addresses that map to one cell are
aliases.  The mapping never changes; writing changes cells only.

* `readRange` / `writeRange` / `copy` are the bulk operations;
* `read_writeRange` and `read_writeRange_of_ne` say what a bulk write does to a
  cell inside and outside of it.
-/

universe u

/-- Cells of type `β` behind a fixed address mapping. -/
structure ByteMemory (β : Type u) where
  /-- The cell an address stands for. -/
  phys : Nat → Nat
  /-- The contents. -/
  cell : Nat → β

namespace ByteMemory

variable {β : Type u} (m : ByteMemory β)

/-- The value seen at an address. -/
def read (a : Nat) : β := m.cell (m.phys a)

/-- Store one value. -/
def write (a : Nat) (b : β) : ByteMemory β :=
  { m with cell := Function.update m.cell (m.phys a) b }

/-- The `n` values seen from an address on. -/
def readRange (a n : Nat) : List β := (List.range n).map fun k => m.read (a + k)

/-- Store a list of values from an address on. -/
def writeRange (m : ByteMemory β) : Nat → List β → ByteMemory β
  | _, [] => m
  | a, b :: bs => (m.write a b).writeRange (a + 1) bs

/-- `memcpy`: read the source range, then store it at the destination. -/
def copy (dst src n : Nat) : ByteMemory β :=
  m.writeRange dst (m.readRange src n)

@[simp] theorem phys_write (a : Nat) (b : β) :
    (m.write a b).phys = m.phys := rfl

@[simp] theorem phys_writeRange (a : Nat) (bs : List β) :
    (m.writeRange a bs).phys = m.phys := by
  induction bs generalizing m a with
  | nil => rfl
  | cons b bs ih => rw [writeRange, ih, phys_write]

@[simp] theorem phys_copy (dst src n : Nat) :
    (m.copy dst src n).phys = m.phys :=
  phys_writeRange m dst _

@[simp] theorem readRange_length (a n : Nat) :
    (m.readRange a n).length = n := by
  simp [readRange]

@[simp] theorem readRange_zero (a : Nat) : m.readRange a 0 = [] := rfl

theorem readRange_getElem (a n k : Nat) (h : k < (m.readRange a n).length) :
    (m.readRange a n)[k] = m.read (a + k) := by
  simp [readRange]

/-- A range read in two parts. -/
theorem readRange_add (a n k : Nat) :
    m.readRange a (n + k) = m.readRange a n ++ m.readRange (a + n) k := by
  simp [readRange, List.range_add, Function.comp_def, Nat.add_assoc]

/-- Two ranges agree when they agree cell by cell. -/
theorem readRange_congr {m m' : ByteMemory β} {a a' n : Nat}
    (h : ∀ k, k < n → m.read (a + k) = m'.read (a' + k)) :
    m.readRange a n = m'.readRange a' n := by
  exact List.map_congr_left fun k hk => h k (List.mem_range.mp hk)

theorem readRange_drop (a n k : Nat) :
    (m.readRange a n).drop k = m.readRange (a + k) (n - k) := by
  rcases Nat.le_total k n with h | h
  · obtain ⟨r, rfl⟩ := Nat.exists_eq_add_of_le h
    rw [readRange_add, List.drop_append_of_le_length (by simp)]
    simp
  · simp [Nat.sub_eq_zero_of_le h, List.drop_eq_nil_of_le, h]

/-- A range equals a list when the list is as long and agrees everywhere. -/
theorem readRange_eq_of_getElem {a : Nat} {bs : List β}
    (h : ∀ k (hk : k < bs.length), m.read (a + k) = bs[k]) :
    m.readRange a bs.length = bs := by
  refine List.ext_getElem (by simp) fun k _ hk => ?_
  rw [readRange_getElem]
  exact h k hk

theorem read_write_of_ne {a x : Nat} (b : β) (h : m.phys x ≠ m.phys a) :
    (m.write a b).read x = m.read x := by
  simp [read, write, Function.update_of_ne h]

@[simp] theorem read_write_self (a : Nat) (b : β) :
    (m.write a b).read a = b := by
  simp [read, write]

/-- A bulk write leaves every cell outside of it alone. -/
theorem read_writeRange_of_ne {a x : Nat} {l : List β}
    (h : ∀ k, k < l.length → m.phys x ≠ m.phys (a + k)) :
    (m.writeRange a l).read x = m.read x := by
  induction l generalizing m a with
  | nil => rfl
  | cons b l ih =>
      rw [writeRange, ih]
      · exact read_write_of_ne m b (by simpa using h 0 (by simp))
      · intro k hk
        rw [phys_write, Nat.add_assoc, Nat.add_comm 1 k]
        exact h (k + 1) (by simpa using hk)

/-- A bulk write is read back where it was stored, provided no two addresses of
its range are aliases. -/
theorem read_writeRange {a : Nat} {l : List β}
    (hinj : ∀ j k, j < k → k < l.length → m.phys (a + j) ≠ m.phys (a + k)) :
    ∀ k (hk : k < l.length), (m.writeRange a l).read (a + k) = l[k] := by
  induction l generalizing m a with
  | nil => intro k hk; simp at hk
  | cons b l ih =>
      intro k hk
      cases k with
      | zero =>
          rw [writeRange, read_writeRange_of_ne]
          · simp
          · intro j hj
            rw [phys_write, Nat.add_assoc, Nat.add_comm 1 j]
            exact hinj 0 (j + 1) (by omega) (by simpa using hj)
      | succ k =>
          rw [writeRange, show a + (k + 1) = a + 1 + k by omega, ih]
          · simp
          · intro i j hij hj
            rw [phys_write, Nat.add_assoc, Nat.add_assoc, Nat.add_comm 1 i,
              Nat.add_comm 1 j]
            exact hinj (i + 1) (j + 1) (by omega) (by simpa using hj)
          · simpa using hk

end ByteMemory
