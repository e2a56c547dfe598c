import Gras.Element.ElementTree

/-!
# Paths in the element tree

What `locate_element` finds, said by two relations on the names of a tree:

* `Descends`: the names on the way down from an element to another one;
* `Leads`: where a list of nodes leads, with the meaning that `""` has in front,
  and `"."` and `".."` have everywhere.

`locate_element` returns where the nodes of its path lead, and raises when they
stop short.  The path that is made of the names from the root down leads back to
the element exactly when all these names are plain: an adoption takes any name,
but a slash in it is a separator and a dot or two dots are a direction.  The
root itself has no such path at all.
-/

namespace Gras

namespace ElementTree

open ParentTree

/-! ## Both ends of an adoption -/

/-- Parents and children say the same, and a child has one name. -/
structure Linked (t : ElementTree) : Prop where
  parent : ∀ {p name c}, t.children p name = some c → t.parent c = some p
  child : ∀ {p c}, t.parent c = some p → ∃ name, t.children p name = some c
  name : ∀ {p name name' c}, t.children p name = some c →
    t.children p name' = some c →
    name = name'

section Linked

variable {t t' : ElementTree} {call : Adoption}

/-- What a call that does not throw writes. -/
theorem adoptElement_parts (h : t.adoptElement call = .ok t') :
    t.parent call.child = none ∧ t.children call.this call.name = none ∧
      t' = { t with
        parent := Function.update t.parent call.child (some call.this)
        children := Function.update t.children call.this
          (Function.update (t.children call.this) call.name
            (some call.child)) } := by
  unfold adoptElement at h
  split at h
  · cases h
  · rename_i hparent
    split at h
    · cases h
    · rename_i hname
      cases h
      exact ⟨hparent, by simpa using hname, rfl⟩

/-- The children after a call: the adopted one, and those before. -/
theorem adoptElement_children (h : t.adoptElement call = .ok t') (p : Nat)
    (name : String) (c : Nat) : t'.children p name = some c ↔
      (p = call.this ∧ name = call.name ∧ c = call.child) ∨
      t.children p name = some c := by
  obtain ⟨-, hfree, rfl⟩ := adoptElement_parts h
  by_cases hp : p = call.this
  · by_cases hname : name = call.name
    · rw [hp, hname]
      simp [hfree, eq_comm]
    · rw [hp]
      simp [hname]
  · simp [hp]

theorem linked_next (ht : t.Linked) (h : t.next call = .ok t') : t'.Linked := by
  unfold next at h
  split at h
  · rename_i t₁ hadopt
    cases h
    have hchildren := adoptElement_children hadopt
    obtain ⟨hroot, hparent⟩ := adoptElement_eq_ok hadopt
    -- The adopted element had no parent, so nobody had it as a child.
    have hnew : ∀ p name c, t.children p name = some c → c ≠ call.child := by
      intro p name c hc heq
      rw [heq] at hc
      cases (ht.parent hc).symm.trans hroot
    constructor
    · intro p name c hc
      rw [hparent]
      rcases (hchildren p name c).mp hc with ⟨rfl, -, rfl⟩ | hc
      · rw [Function.update_self]
      · rw [Function.update_of_ne (hnew p name c hc)]
        exact ht.parent hc
    · intro p c hc
      rw [hparent] at hc
      by_cases heq : c = call.child
      · rw [heq, Function.update_self] at hc
        cases hc
        exact ⟨call.name, (hchildren _ _ _).mpr (.inl ⟨rfl, rfl, heq⟩)⟩
      · rw [Function.update_of_ne heq] at hc
        obtain ⟨name, hname⟩ := ht.child hc
        exact ⟨name, (hchildren _ _ _).mpr (.inr hname)⟩
    · intro p name name' c hc hc'
      rcases (hchildren p name c).mp hc with ⟨-, hn, hcall⟩ | hc
      · rcases (hchildren p name' c).mp hc' with ⟨-, hn', -⟩ | hc'
        · exact hn.trans hn'.symm
        · exact absurd hcall (hnew p name' c hc')
      · rcases (hchildren p name' c).mp hc' with ⟨-, -, hcall⟩ | hc'
        · exact absurd hcall (hnew p name c hc)
        · exact ht.name hc hc'
  · cases h
    exact ht

theorem linked_of_reachable (ht : system.Reachable t) : t.Linked := by
  refine ht.invariant (P := Linked) (fun t h => ?_) fun _ _ _ _ ht h =>
    linked_next ht h
  constructor
  · intro p name c hc
    cases (h.2 p name).symm.trans hc
  · intro p c hc
    cases (h.1 c).symm.trans hc
  · intro p name name' c hc
    cases (h.2 p name).symm.trans hc

/-- A forest was built by adoptions of outsiders. -/
theorem reachable_of_acyclic (ht : system.Reachable t)
    (hforest : Acyclic t.parent) :
    (system.restrict AdoptsOutsider).Reachable t := by
  induction ht with
  | init h => exact .init h
  | @step t t' call _ h ih =>
      change t.next call = .ok t' at h
      unfold next at h
      cases hadopt : t.adoptElement call with
      | error e =>
          rw [hadopt] at h
          cases h
          exact ih hforest
      | ok t₁ =>
          rw [hadopt] at h
          cases h
          obtain ⟨hroot, hparent⟩ := adoptElement_eq_ok hadopt
          rw [hparent] at hforest
          have houtside : t.AdoptsOutsider call := by
            intro _ _ habove
            exact not_acyclic_update hroot habove hforest
          have hbefore : Acyclic t.parent := by
            intro x hcycle
            refine hforest x
              (Relation.TransGen.mono (fun y z hyz => ?_) x x hcycle)
            have hne : y ≠ call.child := by
              intro heq
              rw [heq, Up, hroot] at hyz
              cases hyz
            exact (up_update_of_ne hne).mpr hyz
          refine .step (ih hbefore) ⟨houtside, ?_⟩
          show t.next call = .ok t'
          rw [next, hadopt]

theorem rooted_of_acyclic (ht : system.Reachable t)
    (hforest : Acyclic t.parent) : Rooted t.parent :=
  TransitionSystem.Reachable.invariant (T := system.restrict AdoptsOutsider)
    (fun _ h => rooted_of_fresh h) (fun _ _ _ _ ht h => rooted_next ht h.1 h.2)
    (reachable_of_acyclic ht hforest)

end Linked

/-! ## Splitting a path -/

theorem splitPath_eq_splitOn (path : List Char) :
    splitPath path = path.splitOn '/' := by
  induction path with
  | nil => rfl
  | cons c cs ih =>
      rw [splitPath, List.splitOn_cons_eq_if_modifyHead, ih]
      by_cases hc : c = '/'
      · simp [hc]
      · rw [if_neg hc, if_neg (by simpa using hc)]
        obtain ⟨node, nodes, hnodes⟩ :=
          List.exists_cons_of_ne_nil (List.splitOn_ne_nil '/' cs)
        rw [hnodes]
        rfl

/-- There is no slash in a node. -/
theorem slash_not_mem_splitPath (path : List Char) :
    ∀ node ∈ splitPath path, '/' ∉ node := by
  induction path with
  | nil => simp [splitPath]
  | cons c cs ih =>
      unfold splitPath
      split
      · simpa using ih
      · rename_i hc
        split
        · simpa [eq_comm] using hc
        · rename_i node nodes hnodes
          rw [hnodes] at ih
          intro node' hnode'
          rcases List.mem_cons.mp hnode' with rfl | hnode'
          · have hrest := ih node List.mem_cons_self
            simpa [eq_comm, hrest] using hc
          · exact ih node' (List.mem_cons_of_mem _ hnode')

/-- The nodes of a path. -/
def nodesOf (path : String) : List String :=
  (splitPath path.toList).map String.ofList

/-- A slash and the names, joined by slashes. -/
def absolutePath (names : List String) : String := "/" ++ "/".intercalate names

theorem slash_not_mem_nodesOf {path node : String} (h : node ∈ nodesOf path) :
    '/' ∉ node.toList := by
  obtain ⟨chars, hchars, rfl⟩ := List.mem_map.mp h
  rw [String.toList_ofList]
  exact slash_not_mem_splitPath _ chars hchars

/-- The first node of an absolute path is empty. -/
theorem nodesOf_absolutePath (names : List String) :
    nodesOf (absolutePath names) = "" :: nodesOf ("/".intercalate names) := by
  have hpath : (absolutePath names).toList =
      '/' :: ("/".intercalate names).toList := by
    simp [absolutePath]
  rw [nodesOf, hpath, splitPath, if_pos rfl]
  rfl

/-- Names without slashes are the nodes of what they are joined to. -/
theorem nodesOf_intercalate {names : List String} (hne : names ≠ [])
    (hslash : ∀ name ∈ names, '/' ∉ name.toList) :
    nodesOf ("/".intercalate names) = names := by
  have hsplit : splitPath ("/".intercalate names).toList =
      names.map String.toList := by
    rw [splitPath_eq_splitOn, String.toList_intercalate]
    refine List.splitOn_intercalate '/' (fun chars hchars => ?_)
      (by simpa using hne)
    obtain ⟨name, hname, rfl⟩ := List.mem_map.mp hchars
    exact hslash name hname
  rw [nodesOf, hsplit, List.map_map]
  simp [Function.comp_def]

/-! ## Where nodes lead -/

/-- Down by these names. -/
inductive Descends (t : ElementTree) : Nat → List String → Nat → Prop where
  | here (x : Nat) : Descends t x [] x
  | down {x y e : Nat} {name : String} {names : List String} :
      t.children x name = some y → Descends t y names e →
        Descends t x (name :: names) e

/-- A node that stands for itself where it stands. -/
structure IsName (first : Bool) (node : String) : Prop where
  notRoot : ¬ (node = "" ∧ first = true)
  notHere : node ≠ "."
  notUp : node ≠ ".."

/-- From an element, by these nodes; the empty node in front leads to the
root. -/
inductive Leads (t : ElementTree) : Bool → Nat → List String → Nat → Prop where
  | stay (first : Bool) (x : Nat) : Leads t first x [] x
  | root {x r e : Nat} {nodes : List String} : AtOrAbove t.parent x r →
    t.parent r = none →
      Leads t false r nodes e → Leads t true x ("" :: nodes) e
  | here {first : Bool} {x e : Nat} {nodes : List String} :
    Leads t false x nodes e →
      Leads t first x ("." :: nodes) e
  | up {first : Bool} {x y e : Nat} {nodes : List String} :
    t.parent x = some y →
      Leads t false y nodes e → Leads t first x (".." :: nodes) e
  | down {first : Bool} {x y e : Nat} {node : String} {nodes : List String} :
      IsName first node → t.children x node = some y → Leads t false y nodes e →
      Leads t first x (node :: nodes) e

/-- The nodes lead to an element from where there is no way on: no child of that
name, or nothing above. -/
def StopsShort (t : ElementTree) (s : Nat) (nodes : List String) : Prop :=
  ∃ before node after x, nodes = before ++ node :: after ∧
    t.Leads true s before x ∧
    ((IsName before.isEmpty node ∧ t.children x node = none) ∨
      (node = ".." ∧ t.parent x = none))

/-- What is looked up is found. -/
def Finds (t : ElementTree) (s : Nat) (path : String) (e : Nat) : Prop :=
  ∃ n, ∀ m, n ≤ m → t.locateElement m s path = some (.ok e)

/-- `invalid_argument` is thrown. -/
def Raises (t : ElementTree) (s : Nat) (path : String) : Prop :=
  ∃ n message, ∀ m, n ≤ m → t.locateElement m s path = some (.error message)

section Lookup

variable {t : ElementTree} {first : Bool} {s x e e' : Nat} {path node : String}
  {nodes before names : List String}

/-- A name leads to the child. -/
theorem locateNode_child {m : Nat} {y : Nat} (path : String)
    (h : IsName first node) (hchild : t.children x node = some y) :
    t.locateNode m path first x node = some (.ok y) := by
  simp only [locateNode, if_neg h.notRoot, if_neg h.notHere,
    if_neg h.notUp, hchild]

/-- There is no child of that name. -/
theorem locateNode_missing {m : Nat} (path : String) (h : IsName first node)
    (hchild : t.children x node = none) : t.locateNode m path first x node =
      some (.error ("Element tree lookup fail - no such path: " ++ path)) := by
  simp only [locateNode, if_neg h.notRoot, if_neg h.notHere,
    if_neg h.notUp, hchild]

theorem locateNode_here (m : Nat) (path : String) (first : Bool) (x : Nat) :
    t.locateNode m path first x "." = some (.ok x) := by
  simp [locateNode]

theorem locateNode_up {m : Nat} {y : Nat} (path : String) (first : Bool)
    (hparent : t.parent x = some y) :
    t.locateNode m path first x ".." = some (.ok y) := by
  simp [locateNode, hparent]

/-- There is nothing above. -/
theorem locateNode_above {m : Nat} (path : String) (first : Bool)
    (hparent : t.parent x = none) :
    t.locateNode m path first x ".." =
      some (.error ("Element tree lookup fail - null parent: " ++ path)) := by
  simp [locateNode, hparent]

theorem locateNode_root (m : Nat) (path : String) (x : Nat) :
    t.locateNode m path true x "" = (climb t.parent m x).map .ok := by
  simp [locateNode]

/-- The look-up follows the nodes as far as they lead. -/
theorem Leads.locateNodes (h : t.Leads first s before x) (path : String) :
    ∃ n, ∀ m, n ≤ m → ∀ after, t.locateNodes m path first s (before ++ after) =
      t.locateNodes m path (first && before.isEmpty) x after := by
  induction h with
  | stay first x =>
      refine ⟨0, fun m _ after => ?_⟩
      simp
  | @root x r e nodes habove hr _ ih =>
      obtain ⟨n, hrest⟩ := ih
      obtain ⟨k, hclimb⟩ := habove.climb_ends hr
      refine ⟨max n k, fun m hm after => ?_⟩
      rw [List.cons_append, ElementTree.locateNodes, locateNode_root,
        hclimb m (Nat.le_trans (Nat.le_max_right n k) hm)]
      simpa using hrest m (Nat.le_trans (Nat.le_max_left n k) hm) after
  | here _ ih =>
      obtain ⟨n, hrest⟩ := ih
      refine ⟨n, fun m hm after => ?_⟩
      rw [List.cons_append, ElementTree.locateNodes, locateNode_here]
      simpa using hrest m hm after
  | up hparent _ ih =>
      obtain ⟨n, hrest⟩ := ih
      refine ⟨n, fun m hm after => ?_⟩
      rw [List.cons_append, ElementTree.locateNodes,
        locateNode_up path _ hparent]
      simpa using hrest m hm after
  | down hname hchild _ ih =>
      obtain ⟨n, hrest⟩ := ih
      refine ⟨n, fun m hm after => ?_⟩
      rw [List.cons_append, ElementTree.locateNodes,
        locateNode_child path hname hchild]
      simpa using hrest m hm after

/-- What the look-up of a list of nodes returns is where they lead. -/
theorem leads_of_locateNodes {m : Nat}
    (h : t.locateNodes m path first s nodes = some (.ok e)) :
    t.Leads first s nodes e := by
  induction nodes generalizing first s with
  | nil =>
      cases h
      exact .stay first _
  | cons node nodes ih =>
      rw [locateNodes] at h
      by_cases hroot : node = "" ∧ first = true
      · rw [hroot.1, hroot.2] at h ⊢
        rw [locateNode_root] at h
        cases hclimb : climb t.parent m s with
        | none => simp [hclimb] at h
        | some r =>
            rw [hclimb] at h
            obtain ⟨habove, hr⟩ := climb_eq_some hclimb
            exact .root habove hr (ih h)
      · by_cases hhere : node = "."
        · rw [hhere, locateNode_here] at h
          exact hhere ▸ .here (ih h)
        · by_cases hup : node = ".."
          · subst hup
            cases hparent : t.parent s with
            | none => simp [locateNode_above path first hparent] at h
            | some y =>
                rw [locateNode_up path first hparent] at h
                exact .up hparent (ih h)
          · have hname : IsName first node := ⟨hroot, hhere, hup⟩
            cases hchild : t.children s node with
            | none => simp [locateNode_missing path hname hchild] at h
            | some y =>
                rw [locateNode_child path hname hchild] at h
                exact .down hname hchild (ih h)

/-- **A path is found where its nodes lead.** -/
theorem finds_iff_leads : t.Finds s path e ↔
      t.Leads true s (nodesOf path) e := by
  constructor
  · rintro ⟨n, h⟩
    exact leads_of_locateNodes (h n (Nat.le_refl n))
  · intro h
    obtain ⟨n, hnodes⟩ := h.locateNodes path
    refine ⟨n, fun m hm => ?_⟩
    have := hnodes m hm []
    rw [List.append_nil] at this
    exact this

/-- **One element is found.** -/
theorem Finds.unique (h : t.Finds s path e) (h' : t.Finds s path e') :
    e = e' := by
  obtain ⟨n, hn⟩ := h
  obtain ⟨k, hk⟩ := h'
  have heq := hn (max n k) (Nat.le_max_left n k)
  rw [hk (max n k) (Nat.le_max_right n k)] at heq
  cases heq
  rfl

/-- **A path that stops short raises.** -/
theorem StopsShort.raises (h : t.StopsShort s (nodesOf path)) :
    t.Raises s path := by
  obtain ⟨before, node, after, x, hnodes, hleads, hstop⟩ := h
  obtain ⟨n, hn⟩ := hleads.locateNodes path
  rcases hstop with ⟨hname, hchild⟩ | ⟨rfl, hparent⟩
  · refine ⟨n, "Element tree lookup fail - no such path: " ++ path,
      fun m hm => ?_⟩
    show t.locateNodes m path true s (nodesOf path) = _
    have hnode : t.locateNode m path (true && before.isEmpty) x node = _ :=
      locateNode_missing path (by simpa using hname) hchild
    rw [hnodes, hn m hm, ElementTree.locateNodes, hnode]
  · refine ⟨n, "Element tree lookup fail - null parent: " ++ path,
      fun m hm => ?_⟩
    show t.locateNodes m path true s (nodesOf path) = _
    rw [hnodes, hn m hm, ElementTree.locateNodes,
      locateNode_above path _ hparent]

/-- In a forest the nodes lead somewhere or stop short. -/
theorem leads_or_stopsShort (ht : Rooted t.parent) (first : Bool) (s : Nat)
    (nodes : List String) : (∃ e, t.Leads first s nodes e) ∨
      ∃ before node after x, nodes = before ++ node :: after ∧
        t.Leads first s before x ∧
        ((IsName (first && before.isEmpty) node ∧ t.children x node = none) ∨
          (node = ".." ∧ t.parent x = none)) := by
  induction nodes generalizing first s with
  | nil => exact .inl ⟨s, .stay first s⟩
  | cons node nodes ih =>
      -- One node that leads on, to where the rest is looked up.
      have hon : ∀ y,
          (∀ {l e}, t.Leads false y l e → t.Leads first s (node :: l) e) →
          (∃ e, t.Leads first s (node :: nodes) e) ∨
            ∃ before node' after x, node :: nodes = before ++ node' :: after ∧
              t.Leads first s before x ∧
                ((IsName (first && before.isEmpty) node' ∧
                  t.children x node' = none) ∨
                  (node' = ".." ∧ t.parent x = none)) := by
        intro y hstep
        rcases ih false y with ⟨e, he⟩ |
          ⟨before, node', after, x, rfl, hx, hstop⟩
        · exact .inl ⟨e, hstep he⟩
        · exact .inr ⟨node :: before, node', after, x, rfl, hstep hx,
            by simpa using hstop⟩
      by_cases hroot : node = "" ∧ first = true
      · obtain ⟨rfl, rfl⟩ := hroot
        obtain ⟨n, r, hr, hclimb⟩ := ht.climb_ends s
        obtain ⟨habove, -⟩ := climb_eq_some (hclimb n (Nat.le_refl n))
        exact hon r fun h => .root habove hr h
      · by_cases hhere : node = "."
        · subst hhere
          exact hon s fun h => .here h
        · by_cases hup : node = ".."
          · subst hup
            cases hparent : t.parent s with
            | none => exact .inr ⟨[], "..", nodes, s, rfl, .stay first s, .inr ⟨rfl, hparent⟩⟩
            | some y => exact hon y fun h => .up hparent h
          · have hname : IsName first node := ⟨hroot, hhere, hup⟩
            cases hchild : t.children s node with
            | none =>
                exact .inr ⟨[], node, nodes, s, rfl, .stay first s,
                  .inl ⟨by simpa using hname, hchild⟩⟩
            | some y => exact hon y fun h => .down hname hchild h

/-- **Exactly the paths that stop short raise.** -/
theorem raises_iff (ht : Rooted t.parent) :
    t.Raises s path ↔ t.StopsShort s (nodesOf path) := by
  refine ⟨fun ⟨n, message, hn⟩ => ?_, StopsShort.raises⟩
  rcases leads_or_stopsShort ht true s (nodesOf path) with ⟨e, he⟩ | hstop
  · obtain ⟨k, hk⟩ := finds_iff_leads.mpr he
    have heq := hn (max n k) (Nat.le_max_left n k)
    rw [hk (max n k) (Nat.le_max_right n k)] at heq
    cases heq
  · simpa [StopsShort] using hstop

end Lookup

/-! ## What is adopted -/

/-- A name that a look-up takes for a name wherever it stands in a path. -/
structure Plain (name : String) : Prop where
  slash : '/' ∉ name.toList
  notHere : name ≠ "."
  notUp : name ≠ ".."

section Adopted

variable {t : ElementTree} {first : Bool} {r s x e : Nat} {name : String}
  {nodes names : List String}

theorem Descends.atOrAbove (ht : t.Linked) (h : t.Descends x names e) :
    AtOrAbove t.parent e x := by
  induction h with
  | here x => exact .refl
  | down hchild _ ih => exact ih.tail (ht.parent hchild)

theorem Descends.snoc {y : Nat} (h : t.Descends x names y)
    (hchild : t.children y name = some e) :
    t.Descends x (names ++ [name]) e := by
  induction h with
  | here x => exact .down hchild (.here e)
  | down hname _ ih => exact .down hname (ih hchild)

/-- Each name is that of an element on the way up. -/
theorem Descends.of_mem (ht : t.Linked) (h : t.Descends x names e)
    (hname : name ∈ names) :
    ∃ p y, t.children p name = some y ∧ AtOrAbove t.parent e y := by
  induction h with
  | here x => cases hname
  | @down x y e _ names hchild hrest ih =>
      rcases List.mem_cons.mp hname with rfl | hname
      · exact ⟨x, y, hchild, hrest.atOrAbove ht⟩
      · exact ih hname

/-- **Every element of a forest has its names.** -/
theorem exists_descends (ht : t.Linked) (hrooted : Rooted t.parent) (e : Nat) :
    ∃ r names, t.parent r = none ∧ t.Descends r names e := by
  induction e using hrooted.induction with
  | _ e ih =>
      cases hparent : t.parent e with
      | none => exact ⟨e, [], hparent, .here e⟩
      | some p =>
          obtain ⟨r, names, hr, hnames⟩ := ih p hparent
          obtain ⟨name, hname⟩ := ht.child hparent
          exact ⟨r, names ++ [name], hr, hnames.snoc hname⟩

/-- Plain names lead down. -/
theorem Descends.leads (h : t.Descends x names e)
    (hplain : ∀ name ∈ names, Plain name) : t.Leads false x names e := by
  induction h with
  | here x => exact .stay false x
  | @down x y e name names hchild _ ih =>
      have hname := hplain name List.mem_cons_self
      refine .down ⟨by simp, hname.notHere, hname.notUp⟩ hchild
        (ih fun name' hname' => ?_)
      exact hplain name' (List.mem_cons_of_mem _ hname')

/-- Where nodes lead, each element on the way up was above the start or has been
entered by its name. -/
theorem Leads.entered (ht : t.Linked) (h : t.Leads first s nodes e)
    (habove : AtOrAbove t.parent e x) : AtOrAbove t.parent s x ∨
      ∃ p name, t.children p name = some x ∧ name ∈ nodes ∧ name ≠ "." ∧
      name ≠ ".." := by
  induction h with
  | stay first x => exact .inl habove
  | root hroot hr _ ih =>
      rcases ih habove with hx | ⟨p, name, hchild, hmem, hdots⟩
      · exact .inl (hx.eq_of_root hr ▸ hroot)
      · exact .inr ⟨p, name, hchild, List.mem_cons_of_mem _ hmem, hdots⟩
  | here _ ih =>
      rcases ih habove with hx | ⟨p, name, hchild, hmem, hdots⟩
      · exact .inl hx
      · exact .inr ⟨p, name, hchild, List.mem_cons_of_mem _ hmem, hdots⟩
  | up hparent _ ih =>
      rcases ih habove with hx | ⟨p, name, hchild, hmem, hdots⟩
      · exact .inl (.head hparent hx)
      · exact .inr ⟨p, name, hchild, List.mem_cons_of_mem _ hmem, hdots⟩
  | @down first s y e node nodes hname hentered _ ih =>
      rcases ih habove with hx | ⟨p, name, hchild, hmem, hdots⟩
      · rcases hx.cases_head with rfl | ⟨z, hz, hx⟩
        · exact .inr ⟨s, node, hentered, List.mem_cons_self, hname.notHere,
            hname.notUp⟩
        · obtain rfl : s = z :=
            Option.some.inj ((ht.parent hentered).symm.trans hz)
          exact .inl hx
      · exact .inr ⟨p, name, hchild, List.mem_cons_of_mem _ hmem, hdots⟩

/-- The empty node in front leads to the root. -/
theorem Leads.from_root (h : t.Leads true s ("" :: nodes) e) :
    ∃ r, AtOrAbove t.parent s r ∧ t.parent r = none ∧
      t.Leads false r nodes e := by
  generalize hlist : "" :: nodes = l at h
  cases h with
  | stay => cases hlist
  | root habove hr hrest =>
      cases hlist
      exact ⟨_, habove, hr, hrest⟩
  | here => simp at hlist
  | up => simp at hlist
  | down hname =>
      cases hlist
      exact absurd ⟨rfl, rfl⟩ hname.notRoot

/-- Elsewhere it is a name. -/
theorem Leads.from_empty (h : t.Leads false x ("" :: nodes) e) :
    ∃ y, t.children x "" = some y ∧ t.Leads false y nodes e := by
  generalize hlist : "" :: nodes = l at h
  cases h with
  | stay => cases hlist
  | here => simp at hlist
  | up => simp at hlist
  | down _ hchild hrest =>
      cases hlist
      exact ⟨_, hchild, hrest⟩

/-- **The absolute path of an element finds it exactly when it is not the root
and its names are plain.** -/
theorem finds_absolutePath_iff (ht : t.Linked) (hr : t.parent r = none)
    (hnames : t.Descends r names e) (hs : AtOrAbove t.parent s r) :
    t.Finds s (absolutePath names) e ↔ names ≠ [] ∧ ∀ name ∈ names,
      Plain name := by
  rw [finds_iff_leads, nodesOf_absolutePath]
  constructor
  · intro h
    obtain ⟨r', hs', hr', hrest⟩ := h.from_root
    obtain rfl := root_unique hs hr hs' hr'
    constructor
    · rintro rfl
      -- Behind the slash of the root's path is the name of a child.
      cases hnames
      have hempty : t.Leads false r [""] r := hrest
      obtain ⟨y, hchild, hrest⟩ := hempty.from_empty
      cases hrest
      cases hr.symm.trans (ht.parent hchild)
    · intro name hname
      obtain ⟨p, y, hchild, habove⟩ := hnames.of_mem ht hname
      rcases hrest.entered ht habove with hy |
        ⟨p', name', hchild', hmem, hhere, hup⟩
      · obtain rfl := hy.eq_of_root hr
        cases hr.symm.trans (ht.parent hchild)
      · obtain rfl : p = p' :=
          Option.some.inj ((ht.parent hchild).symm.trans (ht.parent hchild'))
        obtain rfl := ht.name hchild hchild'
        exact ⟨slash_not_mem_nodesOf hmem, hhere, hup⟩
  · rintro ⟨hne, hplain⟩
    rw [nodesOf_intercalate hne fun name hname => (hplain name hname).slash]
    exact .root hs hr (hnames.leads hplain)

/-- **What is adopted can be found exactly under plain names**: in every forest
that adoptions build each element has its names, the absolute path made of them
finds it from everywhere in its tree exactly when it is not the root and the
names are plain, a path finds one element, and the paths that stop short, and no
others, raise. -/
theorem adopted_found_iff (ht : system.Reachable t)
    (hforest : Acyclic t.parent) :
    (∀ e, ∃ r names, t.parent r = none ∧ t.Descends r names e) ∧
      (∀ r names e s, t.parent r = none → t.Descends r names e →
        AtOrAbove t.parent s r →
        (t.Finds s (absolutePath names) e ↔
          names ≠ [] ∧ ∀ name ∈ names, Plain name)) ∧
      (∀ s path e e', t.Finds s path e → t.Finds s path e' → e = e') ∧
      ∀ s path, t.Raises s path ↔ t.StopsShort s (nodesOf path) := by
  have hlinked := linked_of_reachable ht
  have hrooted := rooted_of_acyclic ht hforest
  refine ⟨exists_descends hlinked hrooted, ?_, ?_, ?_⟩
  · intro r names e s hr hnames hs
    exact finds_absolutePath_iff hlinked hr hnames hs
  · intro s path e e' h h'
    exact h.unique h'
  · intro s path
    exact raises_iff hrooted

/-- A top block with one element, under any name. -/
theorem exists_adopted (name : String) : ∃ t : ElementTree, system.Reachable t ∧
    Acyclic t.parent ∧ t.parent 0 = none ∧ ∀ p n c, t.children p n = some c ↔
      p = 0 ∧ n = name ∧ c = 1 := by
  obtain ⟨t, h⟩ : ∃ t, fresh.adoptElement ⟨0, name, 1⟩ = .ok t := ⟨_, rfl⟩
  have hstep : fresh.next ⟨0, name, 1⟩ = .ok t := by rw [next, h]
  have hparent := (adoptElement_eq_ok h).2
  have hreach : system.Reachable t :=
    .step (.init ⟨fun _ => rfl, fun _ _ => rfl⟩) hstep
  refine ⟨t, hreach, ?_, by rw [hparent]; rfl, fun p n c => ?_⟩
  · have houtside : fresh.AdoptsOutsider ⟨0, name, 1⟩ := by
      intro _ _ habove
      rcases habove.cases_head with heq | ⟨z, hz, -⟩
      · cases heq
      · cases hz
    have hrooted : Rooted fresh.parent :=
      rooted_of_fresh ⟨fun _ => rfl, fun _ _ => rfl⟩
    exact (rooted_next hrooted houtside hstep).acyclic
  · rw [adoptElement_children h]
    simp [fresh]

end Adopted

/-- The element under a plain name is found from itself, and the root is not
found. -/
theorem adopted_found_hier :
    ∃ t : ElementTree, t.children 0 "my_hier" = some 1 ∧
    t.Finds 1 "/my_hier" 1 ∧ ¬ t.Finds 1 "/" 0 := by
  obtain ⟨t, ht, hforest, hroot, hchildren⟩ := exists_adopted "my_hier"
  have hchild : t.children 0 "my_hier" = some 1 :=
    (hchildren 0 "my_hier" 1).mpr ⟨rfl, rfl, rfl⟩
  have habove : AtOrAbove t.parent 1 0 :=
    .single ((linked_of_reachable ht).parent hchild)
  obtain ⟨-, hfound, -⟩ := adopted_found_iff ht hforest
  refine ⟨t, hchild, ?_, fun h => ?_⟩
  · refine (hfound 0 ["my_hier"] 1 1 hroot (.down hchild (.here 1)) habove).mpr
      ⟨by simp, ?_⟩
    intro name hname
    obtain rfl := List.mem_singleton.mp hname
    exact ⟨by decide, by decide, by decide⟩
  · exact ((hfound 0 [] 0 1 hroot (.here 0) habove).mp h).1 rfl

/-- **The path of the root raises**, and so does the path of an element with a
slash in its name: what is adopted is not always found. -/
theorem adopted_not_found :
    ¬ (∀ t : ElementTree, system.Reachable t → Acyclic t.parent →
      ∀ r names e s, t.parent r = none → t.Descends r names e →
        AtOrAbove t.parent s r →
        t.Finds s (absolutePath names) e) ∧
      fresh.Raises 0 "/" ∧
      ∃ t : ElementTree, system.Reachable t ∧ t.children 0 "a/b" = some 1 ∧
        t.Raises 0 "/a/b" := by
  have hfresh : system.Reachable fresh := .init ⟨fun _ => rfl, fun _ _ => rfl⟩
  have hroot : fresh.Raises 0 "/" := by
    refine StopsShort.raises
      ⟨[""], "", [], 0, rfl, .root .refl rfl (.stay _ _), .inl ⟨?_, rfl⟩⟩
    exact ⟨by decide, by decide, by decide⟩
  refine ⟨fun h => ?_, hroot, ?_⟩
  · have hacyclic : Acyclic fresh.parent :=
      (rooted_of_fresh ⟨fun _ => rfl, fun _ _ => rfl⟩).acyclic
    obtain ⟨n, hn⟩ := h fresh hfresh hacyclic 0 [] 0 0 rfl (.here 0) .refl
    obtain ⟨k, message, hk⟩ := hroot
    have heq := hn (max n k) (Nat.le_max_left n k)
    rw [show absolutePath [] = "/" from rfl,
      hk (max n k) (Nat.le_max_right n k)] at heq
    cases heq
  · obtain ⟨t, ht, -, hroot, hchildren⟩ := exists_adopted "a/b"
    refine ⟨t, ht, (hchildren 0 "a/b" 1).mpr ⟨rfl, rfl, rfl⟩, ?_⟩
    have hmissing : t.children 0 "a" = none := by
      cases hc : t.children 0 "a" with
      | none => rfl
      | some c => exact absurd ((hchildren 0 "a" c).mp hc).2.1 (by decide)
    refine StopsShort.raises
      ⟨[""], "a", ["b"], 0, rfl, .root .refl hroot (.stay _ _),
      .inl ⟨?_, hmissing⟩⟩
    exact ⟨by decide, by decide, by decide⟩

end ElementTree

end Gras
