import Mathlib.Logic.Function.Basic
import Mathlib.Logic.Relation
import Mathlib.Order.WellFounded

/-!
# Trees given by their parents

A partial function `parent : α → Option α` is a forest when every way up ends.
`Rooted` says so, as well-foundedness of the step from a parent to its child;
it excludes cycles, and it makes the climb to the root end.

Giving a root a parent keeps the forest exactly when the new parent is not below
that root (`rooted_update_iff`).
-/

namespace ParentTree

universe u

variable {α : Type u}

/-- `y` is the parent of `x`. -/
def Up (parent : α → Option α) (x y : α) : Prop := parent x = some y

/-- `y` is `x` or above it. -/
def AtOrAbove (parent : α → Option α) : α → α → Prop :=
  Relation.ReflTransGen (Up parent)

/-- Every way up ends. -/
def Rooted (parent : α → Option α) : Prop :=
  WellFounded fun y x => Up parent x y

/-- Nobody is above itself. -/
def Acyclic (parent : α → Option α) : Prop :=
  ∀ x, ¬ Relation.TransGen (Up parent) x x

/-- Climb to the root, in at most so many steps. -/
def climb (parent : α → Option α) : Nat → α → Option α
  | 0, _ => none
  | n + 1, x =>
      match parent x with
      | none => some x
      | some y => climb parent n y

variable {parent : α → Option α} {x y child this : α}

/-- **A forest has no cycles.** -/
theorem Rooted.acyclic (h : Rooted parent) : Acyclic parent := by
  intro x
  induction x using h.induction with
  | _ x ih =>
      intro hcycle
      -- The parent of `x` would be above itself too.
      obtain ⟨y, hxy, hyx⟩ := Relation.TransGen.head'_iff.mp hcycle
      exact ih y hxy (.tail' hyx hxy)

/-- **The climb ends** in a forest. -/
theorem Rooted.climb_ends (h : Rooted parent) (x : α) :
    ∃ n r, parent r = none ∧ ∀ m, n ≤ m → climb parent m x = some r := by
  induction x using h.induction with
  | _ x ih =>
      cases hx : parent x with
      | none =>
          refine ⟨1, x, hx, fun m hm => ?_⟩
          obtain ⟨m, rfl⟩ :=
            Nat.exists_eq_succ_of_ne_zero (Nat.one_le_iff_ne_zero.mp hm)
          rw [climb, hx]
      | some y =>
          obtain ⟨n, r, hr, hclimb⟩ := ih y hx
          refine ⟨n + 1, r, hr, fun m hm => ?_⟩
          obtain ⟨m, rfl⟩ :=
            Nat.exists_eq_succ_of_ne_zero (Nat.ne_of_gt (Nat.lt_of_lt_of_le
            (Nat.succ_pos n) hm))
          rw [climb, hx]
          exact hclimb m (Nat.le_of_succ_le_succ hm)

/-- On a cycle the climb does not end. -/
theorem climb_cycle (h : Relation.TransGen (Up parent) x x) (n : Nat) :
    climb parent n x = none := by
  induction n generalizing x with
  | zero => rfl
  | succ n ih =>
      obtain ⟨y, hxy, hyx⟩ := Relation.TransGen.head'_iff.mp h
      rw [climb, show parent x = some y from hxy]
      exact ih (.tail' hyx hxy)

/-! ## The root above an element -/

section Root

variable {r r' : α} {n : Nat}

/-- Nothing is above a root. -/
theorem AtOrAbove.eq_of_root (hr : parent r = none)
    (h : AtOrAbove parent r x) : x = r := by
  rcases h.cases_head with heq | ⟨y, hy, -⟩
  · exact heq.symm
  · rw [Up, hr] at hy
    cases hy

/-- The climb ends at a root above. -/
theorem climb_eq_some (h : climb parent n x = some r) :
    AtOrAbove parent x r ∧ parent r = none := by
  induction n generalizing x with
  | zero => cases h
  | succ n ih =>
      unfold climb at h
      split at h
      · rename_i hx
        cases h
        exact ⟨.refl, hx⟩
      · rename_i y hy
        obtain ⟨habove, hr⟩ := ih h
        exact ⟨.head hy habove, hr⟩

/-- The climb ends at any root above. -/
theorem AtOrAbove.climb_ends (h : AtOrAbove parent x r) (hr : parent r = none) :
    ∃ n, ∀ m, n ≤ m → climb parent m x = some r := by
  induction h using Relation.ReflTransGen.head_induction_on with
  | refl =>
      refine ⟨1, fun m hm => ?_⟩
      obtain ⟨m, rfl⟩ := Nat.exists_eq_add_of_le' hm
      rw [climb, hr]
  | @head x y hxy _ ih =>
      obtain ⟨n, hclimb⟩ := ih
      refine ⟨n + 1, fun m hm => ?_⟩
      obtain ⟨m, rfl⟩ :=
        Nat.exists_eq_add_of_le' (Nat.le_trans (Nat.le_add_left 1 n) hm)
      rw [climb, show parent x = some y from hxy]
      exact hclimb m (Nat.le_of_succ_le_succ hm)

/-- **There is one root above.** -/
theorem root_unique (h : AtOrAbove parent x r) (hr : parent r = none)
    (h' : AtOrAbove parent x r') (hr' : parent r' = none) : r = r' := by
  obtain ⟨n, hclimb⟩ := h.climb_ends hr
  obtain ⟨n', hclimb'⟩ := h'.climb_ends hr'
  have heq := hclimb (max n n') (Nat.le_max_left ..)
  rw [hclimb' (max n n') (Nat.le_max_right ..)] at heq
  exact (Option.some.inj heq).symm

end Root

/-! ## A root gets a parent -/

section Update

variable [DecidableEq α]

/-- A way up that does not meet the child is the same as before. -/
theorem up_update_of_ne (hne : x ≠ child) :
    Up (Function.update parent child (some this)) x y ↔ Up parent x y := by
  rw [Up, Function.update_of_ne hne, Up]

/-- The way up to a root does not change. -/
theorem AtOrAbove.update (this : α) (hroot : parent child = none)
    (h : AtOrAbove parent x child) :
    AtOrAbove (Function.update parent child (some this)) x child := by
  induction h using Relation.ReflTransGen.head_induction_on with
  | refl => exact .refl
  | @head x z hxz _ ih =>
      have hne : x ≠ child := by
        intro heq
        rw [heq, Up, hroot] at hxz
        cases hxz
      exact .head ((up_update_of_ne hne).mpr hxz) ih

/-- **A cycle** comes from a new parent at or below the child. -/
theorem not_acyclic_update (hroot : parent child = none)
    (habove : AtOrAbove parent this child) :
    ¬ Acyclic (Function.update parent child (some this)) := by
  intro hacyclic
  -- From the parent up to the child, and back to the parent.
  have hway := AtOrAbove.update this hroot habove
  have hstep : Up (Function.update parent child (some this)) child this :=
    Function.update_self ..
  exact hacyclic child (.head' hstep hway)

/-- **The forest is kept** exactly when the new parent is not at or below the
child. -/
theorem rooted_update_iff (h : Rooted parent) (hroot : parent child = none) :
    Rooted (Function.update parent child (some this)) ↔
      ¬ AtOrAbove parent this child := by
  constructor
  · intro hupdated habove
    exact not_acyclic_update hroot habove hupdated.acyclic
  · intro hbelow
    have hfree : ∀ x, ¬ AtOrAbove parent x child →
        Acc (fun y x =>
          Up (Function.update parent child (some this)) x y) x := by
      intro x
      induction x using h.induction with
      | _ x ih =>
          intro hx
          have hne : x ≠ child := fun heq => hx (heq ▸ .refl)
          refine ⟨x, fun y hy => ?_⟩
          have hxy := (up_update_of_ne hne).mp hy
          exact ih y hxy fun hyc => hx (.head hxy hyc)
    refine ⟨fun x => ?_⟩
    induction x using h.induction with
    | _ x ih =>
        refine ⟨x, fun y hy => ?_⟩
        by_cases heq : x = child
        · rw [heq, Up, Function.update_self] at hy
          cases hy
          exact hfree this hbelow
        · exact ih y ((up_update_of_ne heq).mp hy)

end Update

end ParentTree
