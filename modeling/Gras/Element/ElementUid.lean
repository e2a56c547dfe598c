import Mathlib.Data.Finset.Card
import Mathlib.Data.Set.Finite.Basic
import Mathlib.Data.Set.Finite.Lattice
import Gras.Lib.TransitionSystem

/-!
# The UIDs of the elements

`element_uid.cpp` and the constructor of `Element`.  The UID of an element is a
shared pointer whose deleter takes the UID out of the set of the process, so a
new UID is stored by freeing the old one last.

An element is a number; it is live while it has a UID.
-/

namespace Gras

/-- The set of the process, and the elements. -/
structure UidRegistry where
  uidSet : Finset String
  /-- What `uid` points to. -/
  uid : Nat → Option String
  /-- `repr`. -/
  repr : Nat → String

/-- What happens to the elements. -/
inductive UidEvent where
  | construct (e : Nat) (name : String)
  | setUid (e : Nat) (uid : String)
  | destroy (e : Nat)

namespace UidRegistry

/-- `alloc_uid(uid)`: the result, and the set afterwards. -/
def allocUid (uid : String) (s : Finset String) :
    Except String String × Finset String :=
  if uid ∈ s then (throw ("Element::set_uid - uid already in use: " ++ uid), s)
  else (return uid, insert uid s)

/-- `free_uid(s)`, if there is a UID. -/
def freeUid (uid : Option String) (s : Finset String) : Finset String :=
  match uid with
  | none => s
  | some uid => s.erase uid

/-- `set_uid(uid)`: the exception, if any, and the registry afterwards. -/
def setUid (e : Nat) (uid : String) (r : UidRegistry) :
    Except String Unit × UidRegistry :=
  match allocUid uid r.uidSet with
  | (.error what, uidSet) => (throw what, { r with uidSet })
  | (.ok uid, uidSet) =>
      -- `reset` stores the new pointer and then releases the old one.
      (return (), { r with
        uid := Function.update r.uid e (some uid)
        uidSet := freeUid (r.uid e) uidSet })

/-- `str(boost::format("%s_%u") % name % which)`. -/
def uidName (name : String) (which : Nat) : String := name ++ "_" ++ which.repr

/-- The loop of the constructor, for so many rounds; `none` when it is still
running then. -/
def constructFrom (e : Nat) (name : String) :
    Nat → Nat → UidRegistry → Option UidRegistry
  | 0, _, _ => none
  | rounds + 1, which, r =>
      match r.setUid e (uidName name which) with
      | (.ok _, r) =>
          some { r with
            repr := Function.update r.repr e
              (name ++ " (" ++ which.repr ++ ")") }
      | (.error _, r) => constructFrom e name rounds (which + 1) r

/-- `Element(name)`, with so many rounds for the loop. -/
def construct (rounds : Nat) (e : Nat) (name : String) (r : UidRegistry) :
    Option UidRegistry :=
  constructFrom e name rounds 0 r

/-- `~ElementImpl`: the UID is released. -/
def destroy (e : Nat) (r : UidRegistry) : UidRegistry :=
  { r with
    uid := Function.update r.uid e none
    uidSet := freeUid (r.uid e) r.uidSet }

/-- One event.  A constructor runs for an element that is not live, and
`set_uid` for one that is; an exception leaves the registry as it is then. -/
def next (r : UidRegistry) : UidEvent → Except String UidRegistry
  | .construct e name =>
      if (r.uid e).isSome then throw "the element is live"
      else
        match r.construct (r.uidSet.card + 1) e name with
        | none => throw "the constructor is still running"
        | some r => return r
  | .setUid e uid =>
      if (r.uid e).isNone then throw "the element is not live"
      else return (r.setUid e uid).2
  | .destroy e => return r.destroy e

/-- No element is live. -/
def Empty (r : UidRegistry) : Prop := r.uidSet = ∅ ∧ ∀ e, r.uid e = none

/-- Any sequence of events. -/
def system : TransitionSystem UidRegistry UidEvent := .ofNext Empty next

/-- **The set of the process is that of the live elements**, which differ in
their UIDs. -/
structure Registered (r : UidRegistry) : Prop where
  mem_iff : ∀ u, u ∈ r.uidSet ↔ ∃ e, r.uid e = some u
  injective : ∀ e e' u, r.uid e = some u → r.uid e' = some u → e = e'

section Registry

variable {r r' : UidRegistry} {e : Nat} {name uid : String} {which : Nat}

/-! ## Names -/

theorem setUid_of_mem (h : uid ∈ r.uidSet) :
    r.setUid e uid =
      (throw ("Element::set_uid - uid already in use: " ++ uid), r) := by
  simp only [setUid, allocUid, if_pos h]
  rfl

theorem setUid_of_not_mem (h : uid ∉ r.uidSet) :
    r.setUid e uid = (return (), { r with
      uid := Function.update r.uid e (some uid)
      uidSet := freeUid (r.uid e) (insert uid r.uidSet) }) := by
  simp only [setUid, allocUid, if_neg h]
  rfl

/-! ## The invariant -/

/-- One element gets another UID, or none. -/
theorem Registered.replace {o : Option String} (hr : r.Registered)
    (ho : ∀ u, o = some u → u ∉ r.uidSet)
    (huid : r'.uid = Function.update r.uid e o)
    (hset : ∀ u, u ∈ r'.uidSet ↔ o = some u ∨ u ∈ r.uidSet ∧ r.uid e ≠ some u) :
    r'.Registered := by
  constructor
  · intro u
    rw [hset, huid]
    constructor
    · rintro (hou | ⟨hu, hne⟩)
      · exact ⟨e, by rw [Function.update_self, hou]⟩
      · obtain ⟨e', he'⟩ := (hr.mem_iff u).mp hu
        have hee : e' ≠ e := fun heq => hne (heq ▸ he')
        exact ⟨e', by rw [Function.update_of_ne hee, he']⟩
    · rintro ⟨e', he'⟩
      by_cases hee : e' = e
      · subst hee
        rw [Function.update_self] at he'
        exact .inl he'
      · rw [Function.update_of_ne hee] at he'
        refine .inr ⟨(hr.mem_iff u).mpr ⟨e', he'⟩, fun hu => hee ?_⟩
        exact hr.injective e' e u he' hu
  · -- The new UID was not in use.
    have hother : ∀ e' u, e' ≠ e → r.uid e' = some u →
        o ≠ some u := fun e' u _ he' hou =>
      ho u hou ((hr.mem_iff u).mpr ⟨e', he'⟩)
    intro e₁ e₂ u h₁ h₂
    rw [huid] at h₁ h₂
    by_cases he₁ : e₁ = e
    · by_cases he₂ : e₂ = e
      · rw [he₁, he₂]
      · rw [he₁, Function.update_self] at h₁
        rw [Function.update_of_ne he₂] at h₂
        exact absurd h₁ (hother e₂ u he₂ h₂)
    · rw [Function.update_of_ne he₁] at h₁
      by_cases he₂ : e₂ = e
      · rw [he₂, Function.update_self] at h₂
        exact absurd h₂ (hother e₁ u he₁ h₁)
      · rw [Function.update_of_ne he₂] at h₂
        exact hr.injective e₁ e₂ u h₁ h₂

theorem mem_freeUid {o : Option String} {s : Finset String} {u : String} :
    u ∈ freeUid o s ↔ u ∈ s ∧ o ≠ some u := by
  cases o with
  | none => simp [freeUid]
  | some old =>
      simp only [freeUid, Finset.mem_erase, ne_eq, Option.some.injEq]
      constructor
      · exact fun h => ⟨h.2, fun heq => h.1 heq.symm⟩
      · exact fun h => ⟨fun heq => h.2 heq.symm, h.1⟩

/-- **`set_uid`** keeps the invariant, whether it throws or not. -/
theorem Registered.setUid (hr : r.Registered) (e : Nat) (uid : String) :
    (r.setUid e uid).2.Registered := by
  by_cases hmem : uid ∈ r.uidSet
  · rw [setUid_of_mem hmem]
    exact hr
  · rw [setUid_of_not_mem hmem]
    refine hr.replace (o := some uid) (fun u hu => ?_) rfl fun u => ?_
    · cases hu
      exact hmem
    · -- The old UID is not the new one.
      have hold : r.uid e ≠ some uid :=
        fun hu => hmem ((hr.mem_iff uid).mpr ⟨e, hu⟩)
      show u ∈ freeUid (r.uid e) (insert uid r.uidSet) ↔ _
      rw [mem_freeUid, Finset.mem_insert, Option.some.injEq]
      constructor
      · rintro ⟨rfl | hu, hne⟩
        · exact .inl rfl
        · exact .inr ⟨hu, hne⟩
      · rintro (rfl | ⟨hu, hne⟩)
        · exact ⟨.inl rfl, hold⟩
        · exact ⟨.inr hu, hne⟩

/-- **A destruction** keeps the invariant. -/
theorem Registered.destroy (hr : r.Registered) (e : Nat) :
    (r.destroy e).Registered := by
  refine hr.replace (o := none) (fun u hu => nomatch hu) rfl fun u => ?_
  show u ∈ freeUid (r.uid e) r.uidSet ↔ _
  rw [mem_freeUid]
  simp

end Registry

/-- Nothing has been constructed. -/
def empty : UidRegistry := ⟨∅, fun _ => none, fun _ => ""⟩

end UidRegistry

end Gras
