import Gras.Buffers.SBuffer

/-!
# Serialization of buffers and tags

`serialize_types.cpp`, and `default_allocator` of `sbuffer.cpp`.

An archive is the list of the primitive fields that were saved.  A PMC is saved
as a null flag, and unless it is null as the name under which its type was
exported and the fields of its value; loading dispatches on that name.

Loading makes new buffers.  The `Allocator` is what is known of `new char[]`: a
new block has no cell in common with a block that is in use.
-/

namespace Gras

/-! ## Archives -/

/-- A primitive field of an archive. -/
inductive Field where
  | bool (value : Bool)
  | size (value : Nat)
  | byte (value : Byte)
  | index (value : Nat)
  | ticks (value : Int)
  | name (value : String)
  deriving DecidableEq

/-- The address and the length of a block of memory. -/
abbrev Block := Nat × Nat

/-- No address of the one block is an alias of an address of the other. -/
def Block.Apart (phys : Nat → Nat) (s t : Block) : Prop :=
  ∀ j < s.2, ∀ k < t.2, phys (s.1 + j) ≠ phys (t.1 + k)

/-- The default allocator: where it places a block of so many bytes while others
are in use. -/
structure Allocator (phys : Nat → Nat) where
  place : List Block → Nat → Nat
  /-- The new block is apart from those in use. -/
  apart : ∀ live n, ∀ s ∈ live, Block.Apart phys s (place live n, n)
  /-- It is a block of so many bytes indeed. -/
  injective : ∀ live n j k, j < k → k < n →
    phys (place live n + j) ≠ phys (place live n + k)

/-- Behind every block in use. -/
def behind : List Block → Nat
  | [] => 1
  | s :: live => max (s.1 + s.2) (behind live)

theorem le_behind {live : List Block} {s : Block} (hs : s ∈ live) :
    s.1 + s.2 ≤ behind live := by
  induction live with
  | nil => cases hs
  | cons t live ih =>
      rw [behind]
      rcases List.mem_cons.mp hs with rfl | hs
      · exact Nat.le_max_left _ _
      · exact Nat.le_trans (ih hs) (Nat.le_max_right _ _)

/-- The allocator that places a block behind the others. -/
def Allocator.behind : Allocator id where
  place live _ := Gras.behind live
  apart live n s hs j hj k hk := by
    have := le_behind hs
    simp only [id_eq]
    omega
  injective live n j k hjk hk := by
    simp only [id_eq]
    omega

/-- The memory of the process that loads, and the blocks in use. -/
structure Heap (phys : Nat → Nat) where
  cell : Nat → Byte
  live : List Block

/-- The heap as a memory. -/
def Heap.memory {phys : Nat → Nat} (h : Heap phys) : Memory := ⟨phys, h.cell⟩

/-- An input archive: the fields that are left, and the heap. -/
structure Archive (phys : Nat → Nat) where
  fields : List Field
  heap : Heap phys

/-- Loading: it fails where the next field is not of the type asked for. -/
abbrev Loader (phys : Nat → Nat) := StateT (Archive phys) Option

/-! ## The values -/

/-- What a PMC holds: nothing, or a value of one of the exported types.  The
buffers in it are a parameter. -/
inductive Object (β : Type) where
  | null
  | sbuffer (b : β)
  | tag (offset : Nat) (object : Object β)
  | streamTag (key val src : Object β)
  | packetMsg (info : Object β) (buff : β)
  | timeTag (fsecs ticks : Int)
  deriving DecidableEq

namespace Object

variable {β γ : Type}

/-- The same structure around other buffers. -/
def map (f : β → γ) : Object β → Object γ
  | null => null
  | sbuffer b => sbuffer (f b)
  | tag offset object => tag offset (object.map f)
  | streamTag key val src => streamTag (key.map f) (val.map f) (src.map f)
  | packetMsg info buff => packetMsg (info.map f) (f buff)
  | timeTag fsecs ticks => timeTag fsecs ticks

/-- The buffers of an object. -/
def buffers : Object β → List β
  | null => []
  | sbuffer b => [b]
  | tag _ object => object.buffers
  | streamTag key val src => key.buffers ++ val.buffers ++ src.buffers
  | packetMsg info buff => info.buffers ++ [buff]
  | timeTag _ _ => []

/-- How deep PMCs are nested. -/
def depth : Object β → Nat
  | null => 1
  | sbuffer _ => 1
  | tag _ object => object.depth + 1
  | streamTag key val src => max key.depth (max val.depth src.depth) + 1
  | packetMsg info _ => info.depth + 1
  | timeTag _ _ => 1

theorem depth_pos (o : Object β) : 0 < o.depth := by
  cases o <;> simp [depth]

theorem map_congr {f g : β → γ} {o : Object β}
    (h : ∀ b ∈ o.buffers, f b = g b) : o.map f = o.map g := by
  induction o with
  | null => rfl
  | sbuffer b => rw [map, map, h b List.mem_cons_self]
  | tag offset object ih => rw [map, map, ih h]
  | streamTag key val src ihk ihv ihs =>
      simp only [buffers, List.mem_append] at h
      rw [map, map, ihk fun b hb => h b (.inl (.inl hb)),
        ihv fun b hb => h b (.inl (.inr hb)), ihs fun b hb => h b (.inr hb)]
  | packetMsg info buff ih =>
      simp only [buffers, List.mem_append, List.mem_singleton] at h
      rw [map, map, ih fun b hb => h b (.inl hb), h buff (.inr rfl)]
  | timeTag fsecs ticks => rfl

end Object

/-- An `SBuffer` that may be null. -/
abbrev Handle := Option SBuffer

/-- What a buffer means: null, or its bytes. -/
def Handle.contents (m : Memory) (b : Handle) : Option (List Byte) :=
  b.map (·.bytes m)

/-! ## Saving -/

/-- The exported type of a PMC's value. -/
inductive TypeName where
  | sbuffer
  | tag
  | packetMsg
  | streamTag
  | timeTag
  deriving DecidableEq

/-- The name given to `PMC_SERIALIZE_EXPORT`. -/
def TypeName.exported : TypeName → String
  | sbuffer => "PMC<gras::SBuffer>"
  | tag => "PMC<gras::Tag>"
  | packetMsg => "PMC<gras::PacketMsg>"
  | streamTag => "PMC<gras::StreamTag>"
  | timeTag => "PMC<gras::TimeTag>"

/-- The type that was exported under a name. -/
def TypeName.ofExported (s : String) : Option TypeName :=
  [sbuffer, tag, packetMsg, streamTag, timeTag].find? fun t => t.exported == s

@[simp] theorem TypeName.ofExported_exported (t : TypeName) :
    TypeName.ofExported t.exported = some t := by
  cases t <;> decide

/-- `save(ar, b)`. -/
def saveSBuffer (m : Memory) : Handle → List Field
  | none => [.bool true]
  | some b => .bool false :: .size b.length :: (b.bytes m).map .byte

/-- The null flag and the name in front of a value. -/
def saveName (t : TypeName) (fields : List Field) : List Field :=
  .bool false :: .name t.exported :: fields

/-- Saving a PMC: `serialize(ar, t)` of the type that it holds. -/
def saveObject (m : Memory) : Object Handle → List Field
  | .null => [.bool true]
  | .sbuffer b => saveName .sbuffer (saveSBuffer m b)
  | .tag offset object => saveName .tag (.index offset :: saveObject m object)
  | .streamTag key val src =>
      saveName .streamTag
        (saveObject m key ++ saveObject m val ++ saveObject m src)
  | .packetMsg info buff =>
      saveName .packetMsg (saveObject m info ++ saveSBuffer m buff)
  | .timeTag fsecs ticks => saveName .timeTag [.ticks fsecs, .ticks ticks]

/-! ## Loading -/

namespace Loader

variable {phys : Nat → Nat}

/-- Take the next field off the archive. -/
def field : Loader phys Field := fun ar =>
  match ar.fields with
  | [] => none
  | f :: rest => some (f, { ar with fields := rest })

/-- `ar & null`. -/
def bool : Loader phys Bool := do
  match ← field with
  | .bool value => return value
  | _ => failure

/-- `ar & length`. -/
def size : Loader phys Nat := do
  match ← field with
  | .size value => return value
  | _ => failure

/-- `ar & ptr[i]`. -/
def byte : Loader phys Byte := do
  match ← field with
  | .byte value => return value
  | _ => failure

/-- `ar & t.offset`. -/
def index : Loader phys Nat := do
  match ← field with
  | .index value => return value
  | _ => failure

/-- `ar & t._fsecs`. -/
def ticks : Loader phys Int := do
  match ← field with
  | .ticks value => return value
  | _ => failure

/-- The name of a PMC's type. -/
def typeName : Loader phys TypeName := do
  match ← field with
  | .name value =>
      match TypeName.ofExported value with
      | some t => return t
      | none => failure
  | _ => failure

/-- Store a byte. -/
def store (address : Nat) (value : Byte) : Loader phys Unit := fun ar =>
  some ((), { ar with
    heap := { ar.heap with
      cell := (ar.heap.memory.write address value).cell } })

/-- `SBuffer(config)`, where only the length is set: the default allocator
provides the memory.  The new impl is numbered by the blocks that were in
use. -/
def allocate (A : Allocator phys) (length : Nat) :
    Loader phys SBuffer := fun ar =>
  let address := A.place ar.heap.live length
  some (⟨ar.heap.live.length, { memory := address, length }, 0, length, 0⟩,
    { ar with heap :=
      { ar.heap with live := (address, length) :: ar.heap.live } })

/-- The loop over the bytes. -/
def bytes : Nat → Nat → Loader phys Unit
  | 0, _ => return ()
  | n + 1, address => do
      let value ← byte
      store address value
      bytes n (address + 1)

/-- `load(ar, b)`. -/
def sbuffer (A : Allocator phys) : Loader phys Handle := do
  let null ← bool
  if null then return none
  let length ← size
  let b ← allocate A length
  bytes length (b.get 0)
  return some b

/-- Loading the value of a PMC: `load(ar, b)` or `serialize(ar, t)`, where
`object` loads the PMCs in it. -/
def value (A : Allocator phys) (object : Loader phys (Object Handle)) :
    TypeName → Loader phys (Object Handle)
  | .sbuffer => do
      let b ← sbuffer A
      return .sbuffer b
  | .tag => do
      let offset ← index
      let object ← object
      return .tag offset object
  | .packetMsg => do
      let info ← object
      let buff ← sbuffer A
      return .packetMsg info buff
  | .streamTag => do
      let key ← object
      let val ← object
      let src ← object
      return .streamTag key val src
  | .timeTag => do
      let fsecs ← ticks
      let ticks ← ticks
      return .timeTag fsecs ticks

/-- Loading a PMC, with so many levels of nesting at most. -/
def object (A : Allocator phys) : Nat → Loader phys (Object Handle)
  | 0 => failure
  | depth + 1 => do
      let null ← bool
      if null then return .null
      let name ← typeName
      value A (object A depth) name

/-- Loading a PMC.  Every level takes a field, so there are not more levels than
fields. -/
def load (A : Allocator phys) : Loader phys (Object Handle) := fun ar =>
  object A ar.fields.length ar

end Loader

end Gras
