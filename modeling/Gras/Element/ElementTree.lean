import Gras.Lib.ParentTree
import Gras.Lib.TransitionSystem

/-!
# The element tree

`adopt_element` and `locate_element` of `element.cpp`.  An element is a number;
the parent of each element and its children are kept beside each other as in the
source, and nothing but `adopt_element` writes to them.

`locate_element` climbs to the root when the path starts with a slash, with a
loop that may not end.  The model is given a bound on the rounds of that loop.
-/

namespace Gras

/-- What the elements know of each other. -/
structure ElementTree where
  /-- `to_string()`. -/
  repr : Nat → String
  parent : Nat → Option Nat
  children : Nat → String → Option Nat

/-- A call of `adopt_element`. -/
structure Adoption where
  this : Nat
  name : String
  child : Nat

namespace ElementTree

open ParentTree

/-- `adopt_element(name, child)`. -/
def adoptElement (call : Adoption) (t : ElementTree) :
    Except String ElementTree :=
  match t.parent call.child with
  | some parent =>
      throw ("Could not register child " ++ t.repr call.child ++ " into " ++
        t.repr call.this ++
        ".\nThe child " ++ t.repr call.child ++ " already has parent " ++
          t.repr parent ++ ".\n")
  | none =>
      if (t.children call.this call.name).isSome then
        throw ("A child of name " ++ t.repr call.child ++
          " already registered to element " ++
          t.repr call.this)
      else
        return { t with
          parent := Function.update t.parent call.child (some call.this)
          children := Function.update t.children call.this
            (Function.update (t.children call.this) call.name
              (some call.child)) }

/-! ### Looking up a path -/

/-- `boost::split(nodes, path, boost::is_any_of("/"))`. -/
def splitPath : List Char → List (List Char)
  | [] => [[]]
  | c :: cs =>
      if c = '/' then [] :: splitPath cs
      else
        match splitPath cs with
        | [] => [[c]]
        | node :: nodes => (c :: node) :: nodes

/-- One node of a path; `none` when the climb to the root is still going on. -/
def locateNode (rounds : Nat) (path : String) (first : Bool) (elem : Nat)
    (node : String) (t : ElementTree) : Option (Except String Nat) :=
  if node = "" ∧ first then (climb t.parent rounds elem).map .ok
  else if node = "." then some (.ok elem)
  else if node = ".." then
    match t.parent elem with
    | none => some (.error ("Element tree lookup fail - null parent: " ++ path))
    | some parent => some (.ok parent)
  else
    match t.children elem node with
    | none => some (.error ("Element tree lookup fail - no such path: " ++ path))
    | some child => some (.ok child)

/-- The nodes of a path, one after the other. -/
def locateNodes (rounds : Nat) (path : String) (t : ElementTree) :
    Bool → Nat → List String → Option (Except String Nat)
  | _, elem, [] => some (.ok elem)
  | first, elem, node :: nodes =>
      match t.locateNode rounds path first elem node with
      | none => none
      | some (.error e) => some (.error e)
      | some (.ok elem) => locateNodes rounds path t false elem nodes

/-- `locate_element(path)`. -/
def locateElement (rounds : Nat) (elem : Nat) (path : String)
    (t : ElementTree) : Option (Except String Nat) :=
  t.locateNodes rounds path true elem
    ((splitPath path.toList).map String.ofList)

/-! ### Runs -/

/-- Elements that nobody has adopted. -/
def Fresh (t : ElementTree) : Prop :=
  (∀ e, t.parent e = none) ∧ ∀ e name, t.children e name = none

/-- One call; when it throws, nothing has changed. -/
def next (t : ElementTree) (call : Adoption) : Except String ElementTree :=
  match t.adoptElement call with
  | .ok t' => .ok t'
  | .error _ => .ok t

/-- Any sequence of calls. -/
def system : TransitionSystem ElementTree Adoption := .ofNext Fresh next

/-- **The adopted element is not the adopting one, nor above it.** -/
def AdoptsOutsider (t : ElementTree) (call : Adoption) : Prop :=
  ∀ t', t.adoptElement call = .ok t' → ¬ AtOrAbove t.parent call.this call.child

section Runs

variable {t t' : ElementTree} {call : Adoption}

/-- What a call does that does not throw. -/
theorem adoptElement_eq_ok (h : t.adoptElement call = .ok t') :
    t.parent call.child = none ∧
      t'.parent = Function.update t.parent call.child (some call.this) := by
  unfold adoptElement at h
  split at h
  · cases h
  · rename_i hparent
    split at h
    · cases h
    · cases h
      exact ⟨hparent, rfl⟩

/-- **A call keeps the forest.** -/
theorem rooted_next (ht : Rooted t.parent) (hcall : t.AdoptsOutsider call)
    (h : t.next call = .ok t') : Rooted t'.parent := by
  unfold next at h
  split at h
  · rename_i t₁ hadopt
    cases h
    obtain ⟨hroot, hparent⟩ := adoptElement_eq_ok hadopt
    rw [hparent]
    exact (rooted_update_iff ht hroot).mpr (hcall t' hadopt)
  · cases h
    exact ht

theorem rooted_of_fresh (h : t.Fresh) : Rooted t.parent := by
  refine ⟨fun e => ⟨e, fun y hy => ?_⟩⟩
  rw [Up, h.1 e] at hy
  cases hy

/-- One node of a path is found, or not found, after so many rounds. -/
theorem locateNode_ends (ht : Rooted t.parent) (path : String) (first : Bool)
    (elem : Nat) (node : String) :
    ∃ n r, ∀ m, n ≤ m → t.locateNode m path first elem node = some r := by
  by_cases hroot : node = "" ∧ first
  · obtain ⟨n, r, -, hclimb⟩ := ht.climb_ends elem
    refine ⟨n, .ok r, fun m hm => ?_⟩
    rw [locateNode, if_pos hroot, hclimb m hm]
    rfl
  · -- Nothing else is a loop.
    refine ⟨0, ?_⟩
    simp only [locateNode, if_neg hroot]
    split
    · exact ⟨_, fun _ _ => rfl⟩
    · split
      · split <;> exact ⟨_, fun _ _ => rfl⟩
      · split <;> exact ⟨_, fun _ _ => rfl⟩

theorem locateNodes_ends (ht : Rooted t.parent) (path : String)
    (nodes : List String) :
    ∀ (first : Bool) (elem : Nat),
      ∃ n r, ∀ m, n ≤ m → t.locateNodes m path first elem nodes = some r := by
  induction nodes with
  | nil => exact fun _ elem => ⟨0, .ok elem, fun _ _ => rfl⟩
  | cons node nodes ih =>
      intro first elem
      obtain ⟨n, r, hnode⟩ := locateNode_ends ht path first elem node
      cases r with
      | error e =>
          exact ⟨n, .error e, fun m hm => by rw [locateNodes, hnode m hm]⟩
      | ok elem' =>
          obtain ⟨k, r, hnodes⟩ := ih false elem'
          refine ⟨max n k, r, fun m hm => ?_⟩
          rw [locateNodes, hnode m (Nat.le_trans (Nat.le_max_left n k) hm)]
          exact hnodes m (Nat.le_trans (Nat.le_max_right n k) hm)

/-- **The element tree stays a forest** and every look-up ends; and an adoption
that is made keeps it so exactly when the element is an outsider. -/
theorem tree_stays_forest (ht : (system.restrict AdoptsOutsider).Reachable t) :
    Acyclic t.parent ∧
      (∀ elem path, ∃ n r, ∀ m, n ≤ m → t.locateElement m elem path = some r) ∧
        ∀ call t', t.adoptElement call = .ok t' →
          (Acyclic t'.parent ↔ ¬ AtOrAbove t.parent call.this call.child) := by
  have hrooted : Rooted t.parent :=
    TransitionSystem.Reachable.invariant (T := system.restrict AdoptsOutsider)
      (fun _ h => rooted_of_fresh h)
      (fun _ _ _ _ ht h => rooted_next ht h.1 h.2) ht
  refine ⟨hrooted.acyclic, fun elem path => ?_, fun call t' hadopt => ?_⟩
  · exact locateNodes_ends hrooted path _ true elem
  · obtain ⟨hroot, hparent⟩ := adoptElement_eq_ok hadopt
    rw [hparent]
    constructor
    · exact fun hacyclic habove => not_acyclic_update hroot habove hacyclic
    · exact fun hbelow => ((rooted_update_iff hrooted hroot).mpr hbelow).acyclic

end Runs

/-- Elements named by their numbers. -/
def fresh : ElementTree :=
  ⟨fun e => "element (" ++ toString e ++ ")", fun _ => none, fun _ _ => none⟩

theorem fresh_reachable {ok : ElementTree → Adoption → Prop} :
    (system.restrict ok).Reachable fresh := .init ⟨fun _ => rfl, fun _ _ => rfl⟩

end ElementTree

/-- A block is adopted by a hierarchical block that a top block has adopted. -/
theorem tree_stays_forest_hier :
    ∃ t : ElementTree,
      (ElementTree.system.restrict ElementTree.AdoptsOutsider).Reachable t ∧
      t.parent 2 = some 1 ∧ t.parent 1 = some 0 ∧
      ParentTree.Acyclic t.parent := by
  obtain ⟨t₁, h₁⟩ : ∃ t₁, ElementTree.fresh.adoptElement ⟨0, "my_hier", 1⟩ =
      .ok t₁ := ⟨_, rfl⟩
  obtain ⟨t₂, h₂⟩ : ∃ t₂, t₁.adoptElement ⟨1, "my_block", 2⟩ = .ok t₂ := by
    cases h₁
    exact ⟨_, rfl⟩
  have hp₁ := (ElementTree.adoptElement_eq_ok h₁).2
  have hp₂ := (ElementTree.adoptElement_eq_ok h₂).2
  have hroot : t₁.parent 0 = none := by rw [hp₁]; rfl
  have hhier : t₁.parent 1 = some 0 := by rw [hp₁]; rfl
  have hout₁ : ElementTree.fresh.AdoptsOutsider ⟨0, "my_hier", 1⟩ := by
    intro t _ habove
    rcases habove.cases_head with heq | ⟨z, hz, -⟩
    · cases heq
    · cases hz
  have hout₂ : t₁.AdoptsOutsider ⟨1, "my_block", 2⟩ := by
    intro t _ habove
    rcases habove.cases_head with heq | ⟨z, hz, habove⟩
    · cases heq
    · obtain rfl : z = 0 := Option.some.inj (hz.symm.trans hhier)
      rcases habove.cases_head with heq | ⟨y, hy, -⟩
      · cases heq
      · cases hy.symm.trans hroot
  have hreach :
      (ElementTree.system.restrict
        ElementTree.AdoptsOutsider).Reachable t₂ := by
    refine .step (.step ElementTree.fresh_reachable ⟨hout₁, ?_⟩) ⟨hout₂, ?_⟩
    · show ElementTree.next _ _ = _
      rw [ElementTree.next, h₁]
    · show ElementTree.next _ _ = _
      rw [ElementTree.next, h₂]
  obtain ⟨hacyclic, -⟩ := ElementTree.tree_stays_forest hreach
  refine ⟨t₂, hreach, ?_, ?_, hacyclic⟩
  · rw [hp₂]
    rfl
  · rw [hp₂]
    exact hhier

/-- **An element that adopts itself** is its own parent, and the climb to the
root does not end. -/
theorem adopted_self_climbs_forever :
    ∃ t : ElementTree, ElementTree.system.Reachable t ∧
      ¬ ParentTree.Acyclic t.parent ∧
      ∀ m, t.locateElement m 0 "/" = none := by
  obtain ⟨t, hadopt⟩ : ∃ t, ElementTree.fresh.adoptElement ⟨0, "self", 0⟩ =
      .ok t := ⟨_, rfl⟩
  have hself : Relation.TransGen (ParentTree.Up t.parent) 0 0 := by
    rw [(ElementTree.adoptElement_eq_ok hadopt).2]
    exact .single rfl
  have hfresh : ElementTree.system.Reachable ElementTree.fresh :=
    .init ⟨fun _ => rfl, fun _ _ => rfl⟩
  refine ⟨t, .step (e := ⟨0, "self", 0⟩) hfresh ?_,
    fun hacyclic => hacyclic 0 hself, fun m => ?_⟩
  · show ElementTree.next _ _ = _
    rw [ElementTree.next, hadopt]
  · have hclimb := ParentTree.climb_cycle hself m
    have hnode : t.locateNode m "/" true 0 "" = none := by
      rw [ElementTree.locateNode, if_pos ⟨rfl, rfl⟩, hclimb]
      rfl
    show t.locateNodes m "/" true 0 ["", ""] = none
    rw [ElementTree.locateNodes, hnode]

end Gras
