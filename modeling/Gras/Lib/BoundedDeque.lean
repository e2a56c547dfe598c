import Mathlib.Data.List.Basic

/-!
# Bounded double-ended queues

A queue with a fixed capacity that overwrites instead of growing: pushing onto
a full queue evicts the entry at the other end, and only `setCapacity` makes
room.  The bound is part of the type, so a queue that holds more than its
capacity cannot be built.

Every operation is described by what it does to `items` and `capacity`; the
overwriting branches drop out of the simp lemmas once the queue is known not to
be full.
-/

universe u

/-- At most `capacity` items, front first. -/
structure BoundedDeque (α : Type u) where
  capacity : Nat
  items : List α
  size_le : items.length ≤ capacity

namespace BoundedDeque

variable {α : Type u}

/-- A queue with room for `n` items and none in it. -/
def empty (n : Nat) : BoundedDeque α := ⟨n, [], Nat.zero_le n⟩

/-- Is the capacity used up? -/
def full (q : BoundedDeque α) : Prop := q.items.length = q.capacity

instance (q : BoundedDeque α) : Decidable q.full := Nat.decEq _ _

/-- Exchange the items for others that fit. -/
def replace (q : BoundedDeque α) (items : List α)
    (h : items.length ≤ q.capacity) :
    BoundedDeque α := ⟨q.capacity, items, h⟩

/-- Append at the back; a full queue loses its front. -/
def pushBack (q : BoundedDeque α) (a : α) : BoundedDeque α :=
  if h : q.items.length < q.capacity then
    ⟨q.capacity, q.items ++ [a], by simpa using Nat.succ_le_of_lt h⟩
  else if h₀ : 0 < q.capacity then
    ⟨q.capacity, q.items.tail ++ [a], by
      have := q.size_le
      simp only [List.length_append, List.length_tail, List.length_singleton]
      omega⟩
  else q

/-- Prepend at the front; a full queue loses its back. -/
def pushFront (q : BoundedDeque α) (a : α) : BoundedDeque α :=
  if h : q.items.length < q.capacity then
    ⟨q.capacity, a :: q.items, by simpa using Nat.succ_le_of_lt h⟩
  else if h₀ : 0 < q.capacity then
    ⟨q.capacity, a :: q.items.dropLast, by
      have := q.size_le
      simp only [List.length_cons, List.length_dropLast]
      omega⟩
  else q

/-- Remove the front. -/
def popFront (q : BoundedDeque α) : BoundedDeque α :=
  ⟨q.capacity, q.items.tail, by
    have := q.size_le
    simp only [List.length_tail]
    omega⟩

/-- Change the capacity; items that no longer fit go from the back. -/
def setCapacity (q : BoundedDeque α) (n : Nat) : BoundedDeque α :=
  ⟨n, q.items.take n, List.length_take_le n q.items⟩

@[simp] theorem empty_items (n : Nat) :
    (empty n : BoundedDeque α).items = [] := rfl

@[simp] theorem empty_capacity (n : Nat) :
    (empty n : BoundedDeque α).capacity = n := rfl

@[simp] theorem replace_items (q : BoundedDeque α) (items : List α)
    (h : items.length ≤ q.capacity) : (q.replace items h).items = items := rfl

@[simp] theorem replace_capacity (q : BoundedDeque α) (items : List α)
    (h : items.length ≤ q.capacity) :
    (q.replace items h).capacity = q.capacity := rfl

@[simp] theorem popFront_items (q : BoundedDeque α) :
    q.popFront.items = q.items.tail := rfl

@[simp] theorem popFront_capacity (q : BoundedDeque α) :
    q.popFront.capacity = q.capacity := rfl

@[simp] theorem setCapacity_capacity (q : BoundedDeque α) (n : Nat) :
    (q.setCapacity n).capacity = n := rfl

/-- Growing keeps every item. -/
theorem setCapacity_items (q : BoundedDeque α) {n : Nat}
    (h : q.items.length ≤ n) :
    (q.setCapacity n).items = q.items := List.take_of_length_le h

theorem pushBack_items (q : BoundedDeque α) (a : α) (h : ¬ q.full) :
    (q.pushBack a).items = q.items ++ [a] := by
  have hlt : q.items.length < q.capacity := Nat.lt_of_le_of_ne q.size_le h
  simp [pushBack, hlt]

@[simp] theorem pushBack_capacity (q : BoundedDeque α) (a : α) :
    (q.pushBack a).capacity = q.capacity := by
  unfold pushBack
  split
  · rfl
  · split <;> rfl

theorem mem_of_mem_pushBack (q : BoundedDeque α) {a b : α}
    (h : b ∈ (q.pushBack a).items) : b ∈ q.items ∨ b = a := by
  unfold pushBack at h
  split at h
  · simpa using h
  · split at h
    · rw [List.mem_append, List.mem_singleton] at h
      exact h.imp_left List.mem_of_mem_tail
    · exact .inl h

theorem pushFront_items (q : BoundedDeque α) (a : α) (h : ¬ q.full) :
    (q.pushFront a).items = a :: q.items := by
  have hlt : q.items.length < q.capacity := Nat.lt_of_le_of_ne q.size_le h
  simp [pushFront, hlt]

/-- A full queue loses its back. -/
theorem pushFront_items_of_full (q : BoundedDeque α) (a : α) (h : q.full)
    (h₀ : 0 < q.capacity) : (q.pushFront a).items = a :: q.items.dropLast := by
  have hlt : ¬ q.items.length < q.capacity :=
    Nat.not_lt_of_le (Nat.le_of_eq h.symm)
  simp [pushFront, hlt, h₀]

@[simp] theorem pushFront_capacity (q : BoundedDeque α) (a : α) :
    (q.pushFront a).capacity = q.capacity := by
  unfold pushFront
  split
  · rfl
  · split <;> rfl

/-- A queue that is shorter than before is not full. -/
theorem not_full_of_lt {q : BoundedDeque α} (h : q.items.length < q.capacity) :
    ¬ q.full := Nat.ne_of_lt h

end BoundedDeque
