import Mathlib.Data.List.Sort
import Gras.Actor.UserCalls

/-!
# What happens to the tags of an input

The tags of a port are appended as they arrive, sorted before a work, and
trimmed after it: those in front of the consumed items are passed to
`propagate_tags` in one batch and dropped.  `task_tags` says what a task does to
them.

Marking a block done drops the tags of every port.  During a task that is only
harmless when there are none, which `TagsKept` asks of each call.
-/

namespace Gras

/-- Sorted by offset. -/
def SortedTags (l : List Tag) : Prop :=
  l.Pairwise fun s t => s.offset ≤ t.offset

theorem sortedTags_mergeSort (l : List Tag) :
    SortedTags (l.mergeSort fun s t => decide (s.offset ≤ t.offset)) := by
  have hsorted : (l.mergeSort fun s t => decide (s.offset ≤ t.offset)).Pairwise
      fun s t => decide (s.offset ≤ t.offset) = true := by
    apply List.pairwise_mergeSort
    · intro a b c hab hbc
      simp only [decide_eq_true_eq] at *
      omega
    · intro a b
      simp only [Bool.or_eq_true, decide_eq_true_eq]
      omega
  exact hsorted.imp fun h => by simpa using h

/-- In a sorted list the tags in front of an offset come first. -/
theorem SortedTags.takeWhile {l : List Tag} (h : SortedTags l) (n : Nat) :
    l.takeWhile (fun t => decide (t.offset < n)) =
        l.filter (fun t => decide (t.offset < n)) ∧
      l.dropWhile (fun t => decide (t.offset < n)) =
        l.filter (fun t => decide (n ≤ t.offset)) := by
  induction l with
  | nil => exact ⟨rfl, rfl⟩
  | cons t l ih =>
      obtain ⟨hhead, htail⟩ := List.pairwise_cons.mp h
      obtain ⟨ihtake, ihdrop⟩ := ih htail
      by_cases hlt : t.offset < n
      · have hge : ¬ n ≤ t.offset := by omega
        simp [hlt, hge, ihtake, ihdrop]
      · -- Everything behind is not in front of it either.
        have hall : ∀ s ∈ t :: l, ¬ s.offset < n := by
          intro s hs
          rcases List.mem_cons.mp hs with rfl | hs
          · exact hlt
          · have := hhead s hs
            omega
        constructor
        · rw [List.takeWhile_cons_of_neg (by simpa using hlt)]
          refine (List.filter_eq_nil_iff.mpr fun s hs => ?_).symm
          simpa using hall s hs
        · rw [List.dropWhile_cons_of_neg (by simpa using hlt)]
          refine (List.filter_eq_self.mpr fun s hs => ?_).symm
          have := hall s hs
          simpa using this

namespace BlockActor

/-- **A call keeps the tags**: it marks no block done that holds any. -/
def TagsKept (b : BlockActor) (c : Call) : Prop :=
  b.marksDone c = true → ∀ i < b.numInputs, b.inputTags i = []

/-- What a block has of its tags, and how far it has consumed. -/
structure TagData where
  numInputs : Nat
  inputTags : Nat → List Tag
  inputTagsChanged : Nat → Bool
  itemsConsumed : Nat → Nat

/-- The tag data of a block. -/
def tagData (b : BlockActor) : TagData where
  numInputs := b.numInputs
  inputTags := b.inputTags
  inputTagsChanged := b.inputTagsChanged
  itemsConsumed := b.stats.itemsConsumed

/-- Tags stay or are dropped with the whole block; the count of consumed items
grows. -/
structure TagsStay (b b' : BlockActor) : Prop where
  numInputs : b'.numInputs = b.numInputs
  changed : b'.inputTagsChanged = b.inputTagsChanged
  consumed : ∀ i, b.stats.itemsConsumed i ≤ b'.stats.itemsConsumed i
  tags : ∀ i, b'.inputTags i = b.inputTags i ∨ b'.inputTags i = []
  live : b'.blockState = .done ∨
    b'.blockState = b.blockState ∧ b'.inputTags = b.inputTags

section Calls

variable {b b' b'' : BlockActor} {env : Env} {now : Int} {i : Nat}

theorem TagsStay.of_eq (htags : b'.tagData = b.tagData)
    (hstate : b'.blockState = b.blockState) : TagsStay b b' :=
  ⟨congrArg TagData.numInputs htags, congrArg TagData.inputTagsChanged htags,
    fun i => Nat.le_of_eq
      (congrFun (congrArg TagData.itemsConsumed htags) i).symm,
    fun i => .inl (congrFun (congrArg TagData.inputTags htags) i),
    .inr ⟨hstate, congrArg TagData.inputTags htags⟩⟩

theorem TagsStay.refl (b : BlockActor) : TagsStay b b := .of_eq rfl rfl

theorem TagsStay.trans (h : TagsStay b b') (h' : TagsStay b' b'') :
    TagsStay b b'' := by
  refine ⟨h'.numInputs.trans h.numInputs, h'.changed.trans h.changed,
    fun i => Nat.le_trans (h.consumed i) (h'.consumed i), fun i => ?_, ?_⟩
  · rcases h'.tags i with htags | hnil
    · rw [htags]
      exact h.tags i
    · exact .inr hnil
  · rcases h'.live with hdone | ⟨hstate, htags⟩
    · exact .inl hdone
    · rw [hstate, htags]
      exact h.live

/-- **`mark_done`** drops the tags of every port, unless the block was done
before. -/
theorem markDone_tags (h : b.markDone now = .ok b') :
    b' = b ∨ b.blockState ≠ .done ∧ b'.tagData = { b.tagData with
      inputTags := fun i => if i < b.numInputs then []
        else b.inputTags i } := by
  rcases markDone_cases h with ⟨-, rfl⟩ | ⟨hlive, b₁, hout, -, b₂, hin, rfl⟩
  · exact .inl rfl
  · have h₁ : b₁.tagData = b.tagData ∧ b₁.numInputs = b.numInputs :=
      forRange_rule hout
        (P := fun _ s => s.tagData = b.tagData ∧ s.numInputs = b.numInputs)
        ⟨rfl, rfl⟩ fun i _ s s' hs hf => by
          have hnum := congrArg Control.numInputs (flushOutput_control hf)
          refine ⟨?_, hnum.trans hs.2⟩
          rw [← hs.1]
          unfold flushOutput at hf
          split at hf
          · rw [Checked.pure_eq_ok] at hf
            rw [hf]
          · simp only [Checked.bind_eq_ok, Prod.exists] at hf
            obtain ⟨buff, p, -, hf⟩ := hf
            split at hf
            · rw [Checked.pure_eq_ok] at hf
              rw [← hf]
              rfl
            · simp only [Checked.bind_eq_ok, Checked.pure_eq_ok] at hf
              obtain ⟨q, -, rfl⟩ := hf
              rfl
    have h₂ : b₂.tagData = b₁.tagData ∧ b₂.numInputs = b₁.numInputs :=
      forRange_rule hin
        (P := fun _ s => s.tagData = b₁.tagData ∧ s.numInputs = b₁.numInputs)
        ⟨rfl, rfl⟩ fun i _ s s' hs hf => by
          simp only [flushInput, Checked.bind_eq_ok, Checked.pure_eq_ok] at hf
          obtain ⟨p, -, rfl⟩ := hf
          exact hs
    have hdata : b₂.tagData = b.tagData := h₂.1.trans h₁.1
    have hnum : b₂.numInputs = b.numInputs := h₂.2.trans h₁.2
    refine .inr ⟨hlive, ?_⟩
    show { b₂.tagData with
      inputTags := fun i => if i < b₂.numInputs then []
        else b₂.tagData.inputTags i } = _
    rw [hdata, hnum]
    rfl

theorem TagsStay.markDone (h : b.markDone now = .ok b') : TagsStay b b' := by
  have hdone := markDone_blockState h
  rcases markDone_tags h with rfl | ⟨-, hdata⟩
  · exact .refl b'
  · refine ⟨congrArg TagData.numInputs hdata,
      congrArg TagData.inputTagsChanged hdata, fun i =>
        Nat.le_of_eq (congrFun (congrArg TagData.itemsConsumed hdata) i).symm,
      fun i => ?_, .inl hdone⟩
    have htags : b'.inputTags i = if i < b.numInputs then []
        else b.inputTags i :=
      congrFun (congrArg TagData.inputTags hdata) i
    rw [htags]
    split
    · exact .inr rfl
    · exact .inl rfl

/-- Without tags there is nothing to drop. -/
theorem markDone_noTags (h : b.markDone now = .ok b')
    (hnone : b.blockState ≠ .done → ∀ i < b.numInputs, b.inputTags i = []) :
    b'.tagData = b.tagData := by
  rcases markDone_tags h with rfl | ⟨hlive, hdata⟩
  · rfl
  · have htags : (fun i => if i < b.numInputs then [] else b.inputTags i) =
        b.inputTags := by
      funext i
      split
      · rename_i hi
        exact (hnone hlive i hi).symm
      · rfl
    rw [hdata, htags]
    rfl

/-- What a call does to the tags: it consumes, it marks the block done, or
nothing. -/
theorem call_tags {c : Call} (h : b.call now c = .ok b') :
    (∃ i items, c = .consume i items ∧ b' = b.consume i items) ∨
      b.marksDone c = true ∧ b.markDone now = .ok b' ∨
      b'.tagData = b.tagData ∧ b'.blockState = b.blockState := by
  by_cases hdone : b.marksDone c = true
  · exact .inr (.inl ⟨hdone, markDone_of_call hdone h⟩)
  · cases c with
    | consume i items =>
        simp only [call, Checked.bind_eq_ok, Checked.pure_eq_ok] at h
        obtain ⟨-, -, rfl⟩ := h
        exact .inl ⟨i, items, rfl, rfl⟩
    | produce o items =>
        simp only [call, produce, Checked.bind_eq_ok, Checked.pure_eq_ok] at h
        obtain ⟨-, -, p, -, rfl⟩ := h
        exact .inr (.inr ⟨rfl, rfl⟩)
    | popInputMsg i =>
        rw [call, Checked.pure_eq_ok] at h
        subst h
        unfold popInputMsg
        split <;> exact .inr (.inr ⟨rfl, rfl⟩)
    | postOutputTag o tag =>
        rw [call, Checked.pure_eq_ok] at h
        exact h ▸ .inr (.inr ⟨rfl, rfl⟩)
    | postOutputMsg o msg =>
        rw [call, Checked.pure_eq_ok] at h
        exact h ▸ .inr (.inr ⟨rfl, rfl⟩)
    | markInputFail i fresh =>
        simp only [call, inputFail] at h
        split at h
        · simp only [Checked.bind_eq_ok, Checked.pure_eq_ok, Prod.exists] at h
          obtain ⟨p, memory, -, rfl⟩ := h
          unfold taskKicker
          split <;> exact .inr (.inr ⟨rfl, rfl⟩)
        · rename_i haccum
          split at h
          · rename_i hbit
            -- The block was done before.
            have hstate : b.blockState = .done := by
              simpa [marksDone, not_not.mp haccum, hbit] using hdone
            rw [markDone, if_pos hstate, Checked.pure_eq_ok] at h
            exact h ▸ .inr (.inr ⟨rfl, rfl⟩)
          · split at h
            · simp at h
            · rw [Checked.pure_eq_ok] at h
              exact h ▸ .inr (.inr ⟨rfl, rfl⟩)
    | markOutputFail o =>
        simp only [call, outputFail, Checked.bind_eq_ok, Prod.exists] at h
        obtain ⟨buff, p, -, h⟩ := h
        split at h
        · simp at h
        · rw [Checked.pure_eq_ok] at h
          exact h ▸ .inr (.inr ⟨rfl, rfl⟩)
    | markDone =>
        have hstate : b.blockState = .done := by simpa [marksDone] using hdone
        rw [call, markDone, if_pos hstate, Checked.pure_eq_ok] at h
        exact h ▸ .inr (.inr ⟨rfl, rfl⟩)
    | getInputBuffer i fresh =>
        simp only [call, getInputBuffer, Checked.bind_eq_ok, Checked.pure_eq_ok,
          Prod.exists] at h
        obtain ⟨buff, p, memory, -, rfl⟩ := h
        exact .inr (.inr ⟨rfl, rfl⟩)
    | getOutputBuffer o =>
        simp only [call, storeLength, Checked.bind_eq_ok, Checked.pure_eq_ok,
          Prod.exists] at h
        obtain ⟨buff, p, -, rfl⟩ := h
        exact .inr (.inr ⟨rfl, rfl⟩)
    | popOutputBuffer o numBytes =>
        simp only [call, storeLength, Checked.bind_eq_ok, Checked.pure_eq_ok,
          Prod.exists] at h
        obtain ⟨buff, p, -, rfl⟩ := h
        exact .inr (.inr ⟨rfl, rfl⟩)
    | postOutputBuffer o buffer =>
        simp only [call, postOutputBuffer, produce, Checked.bind_eq_ok,
          Checked.pure_eq_ok] at h
        obtain ⟨p, -, -, -, -, -, q, -, rfl⟩ := h
        exact .inr (.inr ⟨rfl, rfl⟩)
    | postInput i message =>
        rw [call, Checked.pure_eq_ok] at h
        exact h ▸ .inr (.inr ⟨rfl, rfl⟩)
    | thread event =>
        rw [call, Checked.pure_eq_ok] at h
        subst h
        refine .inr (.inr ?_)
        cases event with
        | post m => rw [threadStep]; split <;> exact ⟨rfl, rfl⟩
        | prepare m => rw [threadStep]; split <;> exact ⟨rfl, rfl⟩
        | send k => rw [threadStep]; split <;> exact ⟨rfl, rfl⟩
        | _ => exact ⟨rfl, rfl⟩

theorem TagsStay.consume (b : BlockActor) (i items : Nat) :
    TagsStay b (b.consume i items) := by
  refine ⟨rfl, rfl, fun j => ?_, fun j => .inl rfl, .inr ⟨rfl, rfl⟩⟩
  show b.stats.itemsConsumed j ≤ Function.update b.stats.itemsConsumed i _ j
  by_cases hji : j = i
  · subst hji
    rw [Function.update_self]
    omega
  · rw [Function.update_of_ne hji]

theorem TagsStay.call {c : Call} (h : b.call now c = .ok b') :
    TagsStay b b' := by
  rcases call_tags h with ⟨i, items, -, rfl⟩ | ⟨-, hdone⟩ | ⟨htags, hstate⟩
  · exact .consume b i items
  · exact .markDone hdone
  · exact .of_eq htags hstate

/-- A call that meets the condition keeps the tags. -/
theorem TagsKept.call {c : Call} (hkept : b.TagsKept c)
    (h : b.call now c = .ok b') :
    b'.inputTags = b.inputTags ∧
      (c.duringWork = false → b'.tagData = b.tagData) := by
  rcases call_tags h with ⟨i, items, rfl, rfl⟩ | ⟨hmarks, hdone⟩ | ⟨htags, -⟩
  · exact ⟨rfl, fun hwork => nomatch hwork⟩
  · have hdata := markDone_noTags hdone fun _ => hkept hmarks
    exact ⟨congrArg TagData.inputTags hdata, fun _ => hdata⟩
  · exact ⟨congrArg TagData.inputTags htags, fun _ => htags⟩

end Calls

/-! ### A task -/

/-- The tags of a port that has not changed are sorted. -/
def TagsOrdered (b : BlockActor) : Prop :=
  ∀ i, b.inputTagsChanged i = false → SortedTags (b.inputTags i)

/-- What `propagate_tags` is given for a port in the task of a block. -/
def batch (env : Env) (b : BlockActor) (i : Nat) : List Tag :=
  match b.prepare env >>= taskWork env >>= forRange (finishInput env) i with
  | .ok s => (s.trimMsgs i).passed i
  | .error _ => []

section Task

variable {b b' : BlockActor} {env : Env} {now : Int} {i n : Nat}

/-- Before the work: the tags are those of the block, and sorted on so many
ports. -/
structure TagsSorted (n : Nat) (b b' : BlockActor) : Prop where
  perm : ∀ i, (b'.inputTags i).Perm (b.inputTags i)
  sorted : ∀ i < n, SortedTags (b'.inputTags i)
  ordered : b'.TagsOrdered
  consumed : b'.stats.itemsConsumed = b.stats.itemsConsumed

theorem TagsSorted.next {s s' : BlockActor} {j j' : Nat} (hs : TagsSorted n b s)
    (h : prepareInput env n (s, j) = .ok (s', j')) :
    TagsSorted (n + 1) b s' := by
  have hsorted : s'.tagData = (s.sortTags n).tagData := by
    simp only [prepareInput, Checked.bind_eq_ok, Prod.exists] at h
    obtain ⟨-, -, buff, p, memory, -, h⟩ := h
    split at h
    · simp only [Checked.bind_eq_ok, Checked.pure_eq_ok, Prod.mk.injEq] at h
      obtain ⟨q, -, rfl, -⟩ := h
      rfl
    · simp only [Checked.pure_eq_ok, Prod.mk.injEq] at h
      obtain ⟨rfl, -⟩ := h
      rfl
  have htags : s'.inputTags = (s.sortTags n).inputTags :=
    congrArg TagData.inputTags hsorted
  have hchanged : s'.inputTagsChanged = (s.sortTags n).inputTagsChanged :=
    congrArg TagData.inputTagsChanged hsorted
  have hconsumed : s'.stats.itemsConsumed =
      (s.sortTags n).stats.itemsConsumed :=
    congrArg TagData.itemsConsumed hsorted
  unfold sortTags at htags hchanged hconsumed
  split at htags
  · rename_i hsame
    rw [if_pos hsame] at hchanged hconsumed
    have hn : SortedTags (s.inputTags n) := hs.ordered n (by simpa using hsame)
    refine ⟨by rw [htags]; exact hs.perm, fun i hi => ?_, ?_, hconsumed.trans hs.consumed⟩
    · rw [htags]
      by_cases hin : i = n
      · exact hin ▸ hn
      · exact hs.sorted i (by omega)
    · intro i hi
      rw [htags]
      exact hs.ordered i (hchanged ▸ hi)
  · rename_i hsame
    rw [if_neg hsame] at hchanged hconsumed
    have hn := sortedTags_mergeSort (s.inputTags n)
    refine ⟨fun i => ?_, fun i hi => ?_, fun i hi => ?_,
      hconsumed.trans hs.consumed⟩
    · rw [htags]
      by_cases hin : i = n
      · subst hin
        dsimp only
        rw [Function.update_self]
        exact (List.mergeSort_perm _ _).trans (hs.perm i)
      · dsimp only
        rw [Function.update_of_ne hin]
        exact hs.perm i
    · rw [htags]
      by_cases hin : i = n
      · subst hin
        dsimp only
        rw [Function.update_self]
        exact hn
      · dsimp only
        rw [Function.update_of_ne hin]
        exact hs.sorted i (by omega)
    · rw [htags]
      by_cases hin : i = n
      · subst hin
        dsimp only
        rw [Function.update_self]
        exact hn
      · rw [hchanged] at hi
        dsimp only at hi ⊢
        rw [Function.update_of_ne hin] at hi ⊢
        exact hs.ordered i hi

/-- **Before the work** the tags of every port are sorted. -/
theorem prepare_tags (hb : b.TagsOrdered) (h : b.prepare env = .ok b') :
    TagsSorted b.numInputs b b' := by
  simp only [prepare, Checked.bind_eq_ok, Prod.exists] at h
  obtain ⟨b₁, j, hin, hout⟩ := h
  have h₁ := forRange_rule hin (P := fun n s => TagsSorted n b s.1)
    ⟨fun i => .refl _, fun i hi => absurd hi (Nat.not_lt_zero i), hb, rfl⟩
    fun n _ s s' hs hf => hs.next hf
  have h₂ : b'.tagData = b₁.tagData := forRange_rule hout
    (P := fun _ s => s.tagData = b₁.tagData) rfl fun n _ s s' hs hf => by
      simp only [prepareOutput, Checked.bind_eq_ok, Checked.pure_eq_ok,
        Prod.exists] at hf
      obtain ⟨-, -, buff, p, -, -, -, rfl⟩ := hf
      exact hs
  have htags : b'.inputTags = b₁.inputTags := congrArg TagData.inputTags h₂
  have hchanged : b'.inputTagsChanged = b₁.inputTagsChanged :=
    congrArg TagData.inputTagsChanged h₂
  refine ⟨by rw [htags]; exact h₁.perm, by rw [htags]; exact h₁.sorted, fun i hi => ?_,
    (congrArg TagData.itemsConsumed h₂).trans h₁.consumed⟩
  rw [htags]
  exact h₁.ordered i (hchanged ▸ hi)

/-- **The work** keeps the tags when its calls do. -/
theorem taskWork_tags (hmeet : WorkMeets TagsKept env b)
    (h : b.taskWork env = .ok b') :
    b'.inputTags = b.inputTags ∧ TagsStay b b' := by
  simp only [taskWork, Checked.bind_eq_ok, Checked.pure_eq_ok] at h
  obtain ⟨b₁, hcalls, rfl⟩ := h
  have hrun := hmeet.work.rule hcalls
    (R := fun s s' => s'.inputTags = s.inputTags ∧ TagsStay s s')
    (fun s => ⟨rfl, .refl s⟩) (fun h h' => ⟨h'.1.trans h.1, h.2.trans h'.2⟩)
    fun c _ s s' hok hcall => ⟨(hok.call hcall).1, .call hcall⟩
  have hstart : TagsStay b b.atCall := .of_eq rfl rfl
  exact ⟨hrun.1, (hstart.trans hrun.2).trans (.of_eq rfl rfl)⟩

/-- Passing tags on keeps the tags. -/
theorem passTags_tags {tags : List Tag}
    (henv : ∀ overload ∈ env.propagateTags, ∀ i, ∀ c ∈ overload i,
      c.duringWork = false)
    (hmeet : ∀ overload ∈ env.propagateTags,
      CallsMeet TagsKept env.now (overload i) b)
    (h : b.passTags env i tags = .ok b') : b'.tagData = b.tagData := by
  unfold passTags at h
  split at h
  · rw [Checked.pure_eq_ok] at h
    subst h
    unfold propagateTags
    refine List.foldlRecOn
      (motive := fun c : BlockActor => c.tagData = b.tagData) _ _ rfl
      fun c hc o _ => ?_
    exact List.foldlRecOn
      (motive := fun c : BlockActor => c.tagData = b.tagData) _ _ hc
      fun c hc tag _ => hc
  · rename_i overload ho
    exact (hmeet overload ho).rule h (R := fun s s' => s'.tagData = s.tagData)
      (fun _ => rfl) (fun h h' => h'.trans h) fun c hc s s' hok hcall =>
        (hok.call hcall).2 (henv overload ho i c hc)

/-- **After the work** the tags in front of what is consumed are passed on and
dropped. -/
theorem finishInput_tags
    (henv : ∀ overload ∈ env.propagateTags, ∀ i, ∀ c ∈ overload i,
      c.duringWork = false)
    (hmeet : (b.trimMsgs i).passed i ≠ [] → ∀ overload ∈ env.propagateTags,
      CallsMeet TagsKept env.now (overload i) (b.trimMsgs i))
    (hsorted : SortedTags (b.inputTags i)) (h : b.finishInput env i = .ok b') :
    (b.trimMsgs i).passed i =
        (b.inputTags i).filter
        (fun t => decide (t.offset < b.stats.itemsConsumed i)) ∧
      b'.tagData = { b.tagData with
        inputTags := Function.update b.inputTags i
          ((b.inputTags i).filter fun t =>
            decide (b.stats.itemsConsumed i ≤ t.offset)) } := by
  obtain ⟨htake, hdrop⟩ := hsorted.takeWhile (b.stats.itemsConsumed i)
  refine ⟨htake, ?_⟩
  simp only [finishInput, Checked.bind_eq_ok, Checked.pure_eq_ok] at h
  obtain ⟨b₁, htags, b₂, hbuffs, b₃, havail, rfl⟩ := h
  have h₂ : b₂.tagData = b₁.tagData := by
    unfold trimBuffs at hbuffs
    split at hbuffs
    · rw [Checked.pure_eq_ok] at hbuffs
      rw [hbuffs]
    · simp only [Checked.bind_eq_ok, Checked.pure_eq_ok] at hbuffs
      obtain ⟨p, -, rfl⟩ := hbuffs
      rfl
  have h₃ : b₃.tagData = b₂.tagData := by
    simp only [updateInputAvail, Checked.bind_eq_ok,
      Checked.pure_eq_ok] at havail
    obtain ⟨p, -, rfl⟩ := havail
    rfl
  show b₃.tagData = _
  rw [h₃, h₂, ← hdrop]
  have hpassed : (b.trimMsgs i).passed i =
      (b.inputTags i).takeWhile fun t =>
        decide (t.offset < b.stats.itemsConsumed i) := rfl
  have hparts := (b.inputTags i).takeWhile_append_dropWhile
    (p := fun t => decide (t.offset < b.stats.itemsConsumed i))
  rcases trimTags_cases htags with ⟨hnone, rfl⟩ | ⟨hsome, b₀, hpass, rfl⟩
  · -- Nothing is in front.
    rw [← hpassed, hnone, List.nil_append] at hparts
    rw [hparts, Function.update_eq_self]
    rfl
  · have h₀ := passTags_tags henv (hmeet hsome) hpass
    have htags₀ : b₀.inputTags = b.inputTags := congrArg TagData.inputTags h₀
    have hdropped : (b₀.inputTags i).drop ((b.trimMsgs i).passed i).length =
        (b.inputTags i).dropWhile fun t =>
          decide (t.offset < b.stats.itemsConsumed i) := by
      rw [htags₀, ← hparts, hpassed, List.drop_left, hparts]
    rw [hdropped, htags₀]
    have hchanged : b₀.inputTagsChanged = b.inputTagsChanged :=
      congrArg TagData.inputTagsChanged h₀
    have hconsumed : b₀.stats.itemsConsumed = b.stats.itemsConsumed :=
      congrArg TagData.itemsConsumed h₀
    have hnum : b₀.numInputs = b.numInputs := congrArg TagData.numInputs h₀
    simp only [tagData, hnum, hchanged, hconsumed]

/-- The tags of a port after the task, and what was passed on in it. -/
structure TaskTags (env : Env) (b b' : BlockActor) (i : Nat) : Prop where
  perm : (batch env b i ++ b'.inputTags i).Perm (b.inputTags i)
  sorted : SortedTags (batch env b i)
  passed : ∀ t ∈ batch env b i, t.offset < b'.stats.itemsConsumed i
  held : ∀ t ∈ b'.inputTags i, b'.stats.itemsConsumed i ≤ t.offset

/-! ### The whole task -/

/-- The tags once the ports below `n` were trimmed. -/
def TagData.trimmed (d : TagData) (n : Nat) : TagData where
  numInputs := d.numInputs
  inputTags i :=
    if i < n then (d.inputTags i).filter fun t =>
      decide (d.itemsConsumed i ≤ t.offset)
    else d.inputTags i
  inputTagsChanged := d.inputTagsChanged
  itemsConsumed := d.itemsConsumed

theorem TagData.trimmed_zero (d : TagData) : d.trimmed 0 = d := by
  simp [TagData.trimmed]

/-- Trimming one port more. -/
theorem TagData.trimmed_succ (d : TagData) (n : Nat) :
    { d.trimmed n with
      inputTags := Function.update (d.trimmed n).inputTags n
        ((d.inputTags n).filter fun t =>
          decide (d.itemsConsumed n ≤ t.offset)) } =
      d.trimmed (n + 1) := by
  simp only [TagData.trimmed, TagData.mk.injEq, and_true, true_and]
  funext i
  by_cases hin : i = n
  · subst hin
    rw [Function.update_self, if_pos (Nat.lt_succ_self i)]
  · have hlt : i < n + 1 ↔ i < n := by omega
    rw [Function.update_of_ne hin]
    simp only [hlt]

/-- The two parts of the tags of a port. -/
theorem filter_offset_perm (tags : List Tag) (n : Nat) :
    ((tags.filter fun t => decide (t.offset < n)) ++
      tags.filter fun t => decide (n ≤ t.offset)).Perm tags := by
  have hparts : (fun t : Tag => decide (n ≤ t.offset)) =
      fun t => !decide (t.offset < n) := by
    funext t
    by_cases hlt : t.offset < n
    · simp [hlt]
    · simp [hlt, Nat.le_of_not_lt hlt]
  rw [hparts]
  exact List.filter_append_perm _ _

/-- **The loop over the inputs**: what is in front of what is consumed is passed
on and dropped, port by port. -/
theorem finishInputs_tags {b₁ b₂ b₄ : BlockActor}
    (henv : ∀ overload ∈ env.propagateTags, ∀ i, ∀ c ∈ overload i,
      c.duringWork = false)
    (hprepare : b.prepare env = .ok b₁) (hkept : WorkMeets TagsKept env b₁)
    (hwork : b₁.taskWork env = .ok b₂)
    (hsorted : ∀ i < b₂.numInputs, SortedTags (b₂.inputTags i))
    (hloop : forRange (finishInput env) b₂.numInputs b₂ = .ok b₄) :
    b₄.tagData = b₂.tagData.trimmed b₂.numInputs ∧ ∀ i < b₂.numInputs,
      batch env b i =
      (b₂.inputTags i).filter fun t =>
        decide (t.offset < b₂.stats.itemsConsumed i) := by
  have hrounds := forRange_rule hloop
    (P := fun n s => forRange (finishInput env) n b₂ = .ok s ∧
      s.tagData = b₂.tagData.trimmed n ∧ ∀ i < n, batch env b i =
        (b₂.inputTags i).filter fun t =>
          decide (t.offset < b₂.stats.itemsConsumed i))
    ⟨rfl, b₂.tagData.trimmed_zero.symm,
      fun i hi => absurd hi (Nat.not_lt_zero i)⟩
    fun n hn s s' hs hf => by
      obtain ⟨hrun, hdata, hbatch⟩ := hs
      have hconsumed : s.stats.itemsConsumed = b₂.stats.itemsConsumed :=
        congrArg TagData.itemsConsumed hdata
      -- The port itself is not trimmed yet.
      have htag : s.inputTags n = b₂.inputTags n :=
        (congrFun (congrArg TagData.inputTags hdata) n).trans
          (if_neg (Nat.lt_irrefl n))
      obtain ⟨hpassed, hdata'⟩ :=
        finishInput_tags henv (hkept.tags b₂ hwork n hn s hrun)
        (by rw [htag]; exact hsorted n hn) hf
      rw [htag, hconsumed] at hpassed hdata'
      refine ⟨forRange_succ_eq_ok.mpr ⟨s, hrun, hf⟩, ?_, fun i hi => ?_⟩
      · rw [hdata', show s.inputTags = (b₂.tagData.trimmed n).inputTags from
          congrArg TagData.inputTags hdata, hdata]
        exact b₂.tagData.trimmed_succ n
      · by_cases hin : i = n
        · subst hin
          rw [← hpassed]
          simp only [batch, hprepare, Checked.ok_bind, hwork, hrun]
        · exact hbatch i (by omega)
  exact hrounds.2

/-- The loop over the outputs leaves the tags alone. -/
theorem finishOutputs_tagData (h : forRange (finishOutput now) n b = .ok b') :
    b'.tagData = b.tagData :=
  forRange_rule h (P := fun _ s => s.tagData = b.tagData) rfl
      fun n _ s s' hs hf => by
    unfold finishOutput at hf
    split at hf
    · rw [Checked.pure_eq_ok] at hf
      exact hf ▸ hs
    · simp only [Checked.bind_eq_ok, Checked.pure_eq_ok, Prod.exists] at hf
      obtain ⟨buff, p, -, rfl⟩ := hf
      rw [← hs]
      split <;> rfl

theorem taskKicker_tagData (b : BlockActor) :
    b.taskKicker.tagData = b.tagData := by
  unfold taskKicker
  split <;> rfl

/-- **A task** that works. -/
theorem taskMain_tags
    (henv : ∀ overload ∈ env.propagateTags, ∀ i, ∀ c ∈ overload i,
      c.duringWork = false)
    (hb : b.TagsOrdered) (hmeet : TaskMeets TagsKept env b)
    (hallowed : b.isWorkAllowed = true) (h : b.taskMain env = .ok b') :
    (∀ i < b.numInputs, TaskTags env b b' i) ∧
      (∀ i, b.numInputs ≤ i → (b'.inputTags i).Perm (b.inputTags i)) ∧
      b'.TagsOrdered ∧
      (∀ i, b.stats.itemsConsumed i ≤ b'.stats.itemsConsumed i) ∧
      b'.numInputs = b.numInputs := by
  obtain ⟨b₁, b₂, b₃, hprepare, hwork, hfinish, rfl⟩ :=
    taskMain_parts hallowed h
  have hkept := hmeet hallowed b₁ hprepare
  have h₁ := prepare_tags hb hprepare
  obtain ⟨htags₂, h₂⟩ := taskWork_tags hkept hwork
  have hin : b₂.numInputs = b.numInputs :=
    h₂.numInputs.trans (congrArg Control.numInputs (prepare_control hprepare))
  have hsorted : ∀ i < b.numInputs, SortedTags (b₂.inputTags i) := by
    rw [htags₂]
    exact h₁.sorted
  simp only [finish, Checked.bind_eq_ok] at hfinish
  obtain ⟨b₄, hloop, hout⟩ := hfinish
  obtain ⟨h₄, hbatch⟩ := finishInputs_tags henv hprepare hkept hwork
    (fun i hi => hsorted i (hin ▸ hi)) hloop
  have hdata : b₃.taskKicker.tagData = b₂.tagData.trimmed b₂.numInputs :=
    (taskKicker_tagData b₃).trans ((finishOutputs_tagData hout).trans h₄)
  have hconsumed : b₃.taskKicker.stats.itemsConsumed = b₂.stats.itemsConsumed :=
    congrArg TagData.itemsConsumed hdata
  have htags : b₃.taskKicker.inputTags =
      (b₂.tagData.trimmed b₂.numInputs).inputTags :=
    congrArg TagData.inputTags hdata
  have hchanged : b₃.taskKicker.inputTagsChanged = b₁.inputTagsChanged :=
    (congrArg TagData.inputTagsChanged hdata).trans h₂.changed
  refine ⟨fun i hi => ?_, fun i hi => ?_, fun i hi => ?_, fun i => ?_, ?_⟩
  · have hheld : b₃.taskKicker.inputTags i = (b₂.inputTags i).filter fun t =>
        decide (b₂.stats.itemsConsumed i ≤ t.offset) := by
      rw [htags]
      exact if_pos (hin ▸ hi)
    have hpassed := hbatch i (hin ▸ hi)
    refine ⟨?_, ?_, fun t ht => ?_, fun t ht => ?_⟩
    · rw [hpassed, hheld]
      refine (filter_offset_perm _ _).trans ?_
      rw [htags₂]
      exact h₁.perm i
    · rw [hpassed]
      exact (hsorted i hi).filter _
    · rw [hpassed] at ht
      rw [hconsumed]
      simpa using (List.mem_filter.mp ht).2
    · rw [hheld] at ht
      rw [hconsumed]
      simpa using (List.mem_filter.mp ht).2
  · rw [htags, TagData.trimmed]
    dsimp only
    rw [if_neg (by omega)]
    show (b₂.inputTags i).Perm _
    rw [htags₂]
    exact h₁.perm i
  · have hsort : SortedTags (b₂.inputTags i) := by
      rw [htags₂]
      exact h₁.ordered i (hchanged ▸ hi)
    rw [htags, TagData.trimmed]
    dsimp only
    split
    · exact hsort.filter _
    · exact hsort
  · rw [hconsumed, ← h₁.consumed]
    exact h₂.consumed i
  · exact (congrArg TagData.numInputs hdata).trans hin

end Task

end BlockActor

end Gras
