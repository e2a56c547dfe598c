import Gras.Actor.TagPassing

/-!
# Every consumed tag is passed on once

`Tagging` adds to a block the tags that arrived on each input while it was not
done, and the batches that `propagate_tags` was given.  `Accounted` is the
invariant between handlers: what arrived is what was passed on and what is held.

### What the condition is for

Tags are passed on and dropped by `trim_tags`, which runs after a work.  A
`mark_done` inside the work empties the tags before, so those the work has
consumed are lost; and when a block is activated again, or a port is added that
was there before, the counters go on where they stopped while the tags that were
dropped do not come back.  `TagsPass` asks in each case that nothing was held.

Tags may arrive with any offset and at any time.  A tag that comes late, for an
item that was consumed long ago, is passed on by the next task.
-/

namespace Gras

namespace BlockActor

/-! ## What an event adds -/

/-- The block as it starts the task in which it works, if the handler of its
oldest message does. -/
def atTask (env : Env) (b : BlockActor) : Option BlockActor :=
  match b.mailbox with
  | [] => none
  | m :: rest =>
      match (b.receive m rest).enter env m with
      | some (.ok b₀) => if b₀.isWorkAllowed then some b₀ else none
      | _ => none

/-- The block after that task. -/
def afterTask (env : Env) (b : BlockActor) : Option BlockActor :=
  (b.atTask env).bind fun b₀ => (b₀.taskMain env).toOption

/-- The tags that arrive on an input of a block that is not done. -/
def arrived (b : BlockActor) : BlockEvent → Nat → List Tag
  | .actor (.handle _), i =>
      match b.mailbox with
      | .input j (.tag tag) :: _ =>
          if b.blockState ≠ .done ∧ i = j then [tag] else []
      | _ => []
  | _, _ => []

/-- The batches that a task passes on. -/
def taskBatches (env : Env) (b : BlockActor) (i : Nat) : List (List Tag) :=
  if i < b.numInputs ∧ batch env b i ≠ [] then [batch env b i] else []

/-- The batches that are passed on in an event. -/
def batches (b : BlockActor) : BlockEvent → Nat → List (List Tag)
  | .actor (.handle env), i =>
      match b.atTask env with
      | some b₀ => b₀.taskBatches env i
      | none => []
  | _, _ => []

theorem atTask_eq_some {env : Env} {b b₀ : BlockActor}
    (h : b.atTask env = some b₀) :
    ∃ m rest, b.mailbox = m :: rest ∧
      (b.receive m rest).enter env m = some (.ok b₀) ∧
      b₀.isWorkAllowed = true := by
  unfold atTask at h
  split at h
  · cases h
  · rename_i m rest hmail
    split at h
    · rename_i b₁ henter
      split at h
      · rename_i hallowed
        cases h
        exact ⟨m, rest, hmail, henter, hallowed⟩
      · cases h
    · cases h

theorem atTask_of {env : Env} {b b₀ : BlockActor} {m : Message}
    {rest : List Message} (hmail : b.mailbox = m :: rest)
    (henter : (b.receive m rest).enter env m = some (.ok b₀)) :
    b.atTask env = if b₀.isWorkAllowed then some b₀ else none := by
  simp only [atTask, hmail, henter]

theorem atTask_of_none {env : Env} {b : BlockActor} {m : Message}
    {rest : List Message} (hmail : b.mailbox = m :: rest)
    (henter : (b.receive m rest).enter env m = none) :
    b.atTask env = none := by
  simp only [atTask, hmail, henter]

/-! ## The account of the tags -/

/-- The batches are sorted, and no tag is in them before it was consumed. -/
structure BatchesPassed (passed : Nat → List (List Tag))
    (b : BlockActor) : Prop where
  ordered : b.TagsOrdered
  sorted : ∀ i, ∀ l ∈ passed i, SortedTags l
  consumed : ∀ i, ∀ l ∈ passed i, ∀ t ∈ l, t.offset < b.stats.itemsConsumed i

/-- What arrived on a port was passed on or is held. -/
def Balanced (received : Nat → List Tag) (passed : Nat → List (List Tag))
    (b : BlockActor) (i : Nat) : Prop :=
  (received i).Perm ((passed i).flatten ++ b.inputTags i)

/-- **The account of the tags** of a block between two handlers. -/
structure Accounted (received : Nat → List Tag) (passed : Nat → List (List Tag))
    (b : BlockActor) : Prop where
  batches : BatchesPassed passed b
  balanced : b.blockState ≠ .done → ∀ i < b.numInputs,
    Balanced received passed b i

section Handlers

variable {received : Nat → List Tag} {passed : Nat → List (List Tag)}
  {b b' : BlockActor}
  {env : Env} {now : Int} {m : Message} {i : Nat}

theorem TagsStay.ordered (h : TagsStay b b') (hb : b.TagsOrdered) :
    b'.TagsOrdered := by
  intro i hi
  rcases h.tags i with htags | hnil
  · rw [htags]
    rw [h.changed] at hi
    exact hb i hi
  · rw [hnil]
    exact List.Pairwise.nil

/-- Whatever leaves the tags alone or drops them with the block keeps the
account. -/
theorem Accounted.stay (hb : Accounted received passed b) (h : TagsStay b b') :
    Accounted received passed b' := by
  refine ⟨⟨h.ordered hb.batches.ordered, hb.batches.sorted,
    fun i l hl t ht => ?_⟩, fun hlive i hi => ?_⟩
  · exact Nat.lt_of_lt_of_le (hb.batches.consumed i l hl t ht) (h.consumed i)
  · rcases h.live with hdone | ⟨hstate, htags⟩
    · exact absurd hdone hlive
    · rw [Balanced, htags]
      exact hb.balanced (hstate ▸ hlive) i (h.numInputs ▸ hi)

/-- **A task** that works adds one batch for each port, and the account is kept
even when the work marks the block done. -/
theorem Accounted.task (hb : Accounted received passed b)
    (henv : ∀ overload ∈ env.propagateTags, ∀ i, ∀ c ∈ overload i,
      c.duringWork = false)
    (hmeet : TaskMeets TagsKept env b) (hallowed : b.isWorkAllowed = true)
    (h : b.taskMain env = .ok b') :
    BatchesPassed (fun i => passed i ++ b.taskBatches env i) b' ∧
      b'.numInputs = b.numInputs ∧ ∀ i < b'.numInputs,
        Balanced received (fun i => passed i ++ b.taskBatches env i) b' i ∧
          ∀ t ∈ b'.inputTags i, b'.stats.itemsConsumed i ≤ t.offset := by
  obtain ⟨htask, -, hordered, hmono, hports⟩ :=
    taskMain_tags henv hb.batches.ordered hmeet hallowed h
  have hlive : b.blockState ≠ .done := by
    have hstate := (isReady_iff.mp (isWorkAllowed_iff.mp hallowed).2).1
    rw [hstate]
    exact fun h => nomatch h
  -- A new batch is the one of the task.
  have hnew : ∀ i, ∀ l ∈ b.taskBatches env i,
      i < b.numInputs ∧ l = batch env b i := by
    intro i l hl
    unfold taskBatches at hl
    split at hl
    · rename_i hi
      exact ⟨hi.1, List.mem_singleton.mp hl⟩
    · cases hl
  refine ⟨⟨hordered, fun i l hl => ?_, fun i l hl t ht => ?_⟩, hports,
    fun i hi => ?_⟩
  · rcases List.mem_append.mp hl with hold | hl
    · exact hb.batches.sorted i l hold
    · obtain ⟨hi, rfl⟩ := hnew i l hl
      exact (htask i hi).sorted
  · rcases List.mem_append.mp hl with hold | hl
    · exact Nat.lt_of_lt_of_le (hb.batches.consumed i l hold t ht) (hmono i)
    · obtain ⟨hi, rfl⟩ := hnew i l hl
      exact (htask i hi).passed t ht
  · rw [hports] at hi
    have hflat : (b.taskBatches env i).flatten = batch env b i := by
      unfold taskBatches
      by_cases hnone : batch env b i = []
      · rw [if_neg fun h => h.2 hnone, hnone]
        rfl
      · rw [if_pos ⟨hi, hnone⟩, List.flatten_singleton]
    refine ⟨?_, (htask i hi).held⟩
    have hparts := (htask i hi).perm
    rw [Balanced, List.flatten_append, hflat, List.append_assoc]
    exact (hb.balanced hlive i hi).trans (hparts.symm.append_left _)

/-- What a handler does before its task leaves the tags alone. -/
theorem enter_tags {b₀ : BlockActor} (h : b.enter env m = some (.ok b₀)) :
    TagsStay b b₀ := by
  cases m with
  | input i message =>
      cases message with
      | msg msg =>
          simp only [enter] at h
          split at h
          · cases h
          · simp only [Option.some.injEq, storeInputMsg, updateInputAvail,
              Checked.bind_eq_ok, Checked.pure_eq_ok] at h
            obtain ⟨p, -, rfl⟩ := h
            exact .of_eq rfl rfl
      | buffer buffer =>
          simp only [enter] at h
          split at h
          · cases h
          · simp only [Option.some.injEq, storeInputBuffer, updateInputAvail,
              Checked.bind_eq_ok, Checked.pure_eq_ok] at h
            obtain ⟨p, -, q, -, rfl⟩ := h
            exact .of_eq rfl rfl
      | check =>
          simp only [enter, Option.some.injEq, Checked.pure_eq_ok] at h
          exact h ▸ .of_eq rfl rfl
      | _ => cases h
  | output i message =>
      cases message with
      | buffer buffer =>
          simp only [enter] at h
          split at h
          · cases h
          · simp only [Option.some.injEq, storeOutputBuffer, Checked.bind_eq_ok,
              Checked.pure_eq_ok] at h
            obtain ⟨p, -, rfl⟩ := h
            exact .of_eq rfl rfl
      | _ => cases h
  | selfKick =>
      simp only [enter, Option.some.injEq, Checked.pure_eq_ok] at h
      exact h ▸ .refl b
  | _ => cases h

theorem leave_tags (h : b.leave env m = .ok b') : TagsStay b b' := by
  unfold leave at h
  split at h
  · split at h
    · exact .markDone h
    · rw [Checked.pure_eq_ok] at h
      exact h ▸ .refl b
  · rw [Checked.pure_eq_ok] at h
    exact h ▸ .refl b

theorem TagsStay.reply (h : TagsStay b b') (sender : Option Address) :
    TagsStay b (b'.acknowledge sender) := by
  cases sender with
  | none => exact h
  | some a => exact h.trans (.of_eq rfl rfl)

theorem handleInputUpdate_tags (h : b.handleInputUpdate env i = .ok b') :
    TagsStay b b' := by
  unfold handleInputUpdate at h
  split at h
  · rw [Checked.pure_eq_ok] at h
    exact h ▸ .refl b
  · simp only [updateInputAvail, Checked.bind_eq_ok, Checked.pure_eq_ok,
      Prod.exists] at h
    obtain ⟨p, memory, -, q, -, rfl⟩ := h
    exact .of_eq rfl rfl

theorem handleOutputUpdate_tags (h : b.handleOutputUpdate env i = .ok b') :
    TagsStay b b' := by
  unfold handleOutputUpdate at h
  split at h
  · rw [Checked.pure_eq_ok] at h
    exact h ▸ .refl b
  · simp only [Checked.bind_eq_ok, Checked.pure_eq_ok] at h
    obtain ⟨p, -, rfl⟩ := h
    exact .of_eq rfl rfl

/-- **The other handlers** neither take a tag in nor pass one on. -/
theorem handled_tags (h : Handled env b m b') (htask : b.enter env m = none)
    (htag : ∀ i tag, m ≠ .input i (.tag tag))
    (hactive : ∀ prio sender, m ≠ .top .active prio sender) :
    TagsStay b b' := by
  cases h with
  | task henter => simp [htask] at henter
  | tag i tag => exact absurd rfl (htag i tag)
  | inputUpdate h => exact handleInputUpdate_tags h
  | outputUpdate h => exact handleOutputUpdate_tags h
  | outputAlloc h =>
      simp only [handleOutputAlloc, Checked.bind_eq_ok, Checked.pure_eq_ok] at h
      obtain ⟨p, -, rfl⟩ := h
      exact .of_eq rfl rfl
  | topAlloc h =>
      simp only [handleTopAlloc, Checked.bind_eq_ok, Checked.pure_eq_ok] at h
      obtain ⟨b₁, hloop, rfl⟩ := h
      refine TagsStay.reply ?_ _
      refine forRange_relates hloop
        (R := TagsStay) .refl .trans fun i _ s s' hf => ?_
      obtain ⟨config, p, -, rfl⟩ := allocateOutput_cases hf
      exact .of_eq rfl rfl
  | @outputsDone i b' hdone h =>
      have hcheck : TagsStay b (b.recheckOutput env i) := .of_eq rfl rfl
      exact hcheck.trans (.markDone h)
  | inert h => exact (TagsStay.markDone h).reply _
  | active => exact absurd rfl (hactive _ _)
  | callable =>
      have hcalls : TagsStay b (b.attempt env.now env.called) :=
        attempt_rule env.called b .refl .trans fun c _ s s' hcall => .call hcall
      exact hcalls.trans (.of_eq rfl rfl)
  | quiet hstate hdata =>
      refine .of_eq ?_ hstate
      have h := hdata.data
      exact congrArg
        (fun d : Data => (⟨d.numInputs, d.inputTags, d.inputTagsChanged,
        d.itemsConsumed⟩ : TagData)) h

/-- Another thread leaves the tags alone. -/
theorem threadStep_tags (b : BlockActor) (event : ThreadEvent) :
    TagsStay b (b.threadStep event) := by
  cases event with
  | post m => rw [threadStep]; split <;> exact .of_eq rfl rfl
  | prepare m => rw [threadStep]; split <;> exact .of_eq rfl rfl
  | send k => rw [threadStep]; split <;> exact .of_eq rfl rfl
  | _ => exact .of_eq rfl rfl

/-- **A tag arrives.** -/
theorem Accounted.tag (hb : Accounted received passed b) {j : Nat} {tag : Tag}
    (hstate : b.blockState ≠ .done) :
    Accounted (fun i => received i ++ if i = j then [tag] else []) passed
      (b.handleInputTag j tag) := by
  rw [handleInputTag, if_neg hstate]
  refine ⟨⟨fun i hi => ?_, hb.batches.sorted, hb.batches.consumed⟩,
    fun _ i hi => ?_⟩
  · dsimp only at hi ⊢
    by_cases hij : i = j
    · rw [hij, Function.update_self] at hi
      cases hi
    · rw [Function.update_of_ne hij] at hi ⊢
      exact hb.batches.ordered i hi
  · have hbalanced := hb.balanced hstate i hi
    show (received i ++ if i = j then [tag] else []).Perm
      ((passed i).flatten ++ Function.update b.inputTags j _ i)
    by_cases hij : i = j
    · subst hij
      rw [if_pos rfl, Function.update_self, ← List.append_assoc]
      exact hbalanced.append_right _
    · rw [if_neg hij, List.append_nil, Function.update_of_ne hij]
      exact hbalanced

/-- **The block is activated**, again when everything that arrived is accounted
for. -/
theorem Accounted.active (hb : Accounted received passed b)
    (sender : Option Address)
    (hagain : b.blockState = .done → ∀ i < b.numInputs,
      Balanced received passed b i) :
    Accounted received passed (b.handleTopActive env sender) := by
  have hdata : (b.handleTopActive env sender).tagData = b.tagData := by
    obtain ⟨t, hactive⟩ := handleTopActive_eq env sender b
    rw [hactive]
    rfl
  have htags : (b.handleTopActive env sender).inputTags = b.inputTags :=
    congrArg TagData.inputTags hdata
  have hchanged : (b.handleTopActive env sender).inputTagsChanged =
      b.inputTagsChanged :=
    congrArg TagData.inputTagsChanged hdata
  have hconsumed : (b.handleTopActive env sender).stats.itemsConsumed =
      b.stats.itemsConsumed :=
    congrArg TagData.itemsConsumed hdata
  have hports : (b.handleTopActive env sender).numInputs = b.numInputs :=
    congrArg TagData.numInputs hdata
  refine ⟨⟨fun i hi => ?_, hb.batches.sorted, ?_⟩, fun _ i hi => ?_⟩
  · rw [htags]
    rw [hchanged] at hi
    exact hb.batches.ordered i hi
  · rw [hconsumed]
    exact hb.batches.consumed
  · rw [hports] at hi
    rw [Balanced, htags]
    by_cases hdone : b.blockState = .done
    · exact hagain hdone i hi
    · exact hb.balanced hdone i hi

/-- **The topology changes**: on a new port everything that ever arrived was
passed on. -/
theorem Accounted.topology {n k : Nat} {sender : Option Address}
    (hb : Accounted received passed b)
    (hnew : b.blockState ≠ .done → ∀ i < n, b.numInputs ≤ i →
      (received i).Perm (passed i).flatten)
    (h : b.handleTopology env n k sender = .ok b') :
    Accounted received passed b' := by
  simp only [handleTopology, Checked.bind_eq_ok, Checked.pure_eq_ok] at h
  obtain ⟨b₁, hrelease, b₂, hin, b₃, hout, rfl⟩ := h
  have h₀ : Accounted received passed (b.resize env.now n k) := by
    refine ⟨⟨fun i hi => ?_, hb.batches.sorted, hb.batches.consumed⟩,
      fun hlive i hi => ?_⟩
    · show SortedTags (if i < b.numInputs then b.inputTags i else [])
      have hi : (if i < b.numInputs then b.inputTagsChanged i
          else false) = false := hi
      by_cases hold : i < b.numInputs
      · rw [if_pos hold] at hi ⊢
        exact hb.batches.ordered i hi
      · rw [if_neg hold]
        exact List.Pairwise.nil
    · show (received i).Perm
          ((passed i).flatten ++ if i < b.numInputs then b.inputTags i else [])
      by_cases hold : i < b.numInputs
      · rw [if_pos hold]
        exact hb.balanced hlive i hold
      · rw [if_neg hold, List.append_nil]
        exact hnew hlive i hi (Nat.le_of_not_lt hold)
  have h₁ : TagsStay (b.resize env.now n k) b₁ := by
    unfold releaseUnconnected at hrelease
    split at hrelease
    · exact .markDone hrelease
    · rw [Checked.pure_eq_ok] at hrelease
      exact hrelease ▸ .refl _
  have h₂ : TagsStay b₁ b₂ := forRange_relates hin .refl .trans
    fun i _ s s' hf => handleInputUpdate_tags hf
  have h₃ : TagsStay b₂ b₃ := forRange_relates hout .refl .trans
    fun i _ s s' hf => handleOutputUpdate_tags hf
  exact h₀.stay (((h₁.trans h₂).trans h₃).reply sender)

end Handlers

end BlockActor

/-! ## Runs -/

/-- A block, the tags that arrived on each input while it was not done, and the
batches that were passed on. -/
structure Tagging where
  block : BlockActor
  received : Nat → List Tag
  passed : Nat → List (List Tag)

namespace Tagging

open BlockActor

/-- One event. -/
def next (s : Tagging) (e : BlockEvent) : Checked Tagging := do
  let block ← s.block.change e
  return {
    block
    received := fun i => s.received i ++ s.block.arrived e i
    passed := fun i => s.passed i ++ s.block.batches e i }

/-- The lives of a block from its start. -/
def system : TransitionSystem Tagging BlockEvent :=
  .ofNext (fun s => s.block.Started ∧ (s.received = fun _ => []) ∧
    s.passed = fun _ => []) next

/-- **When the tags are kept.**  In a work, no call marks a block done that
still holds tags; a block that is done is only activated again, and a port only
added again, when everything that arrived was passed on. -/
def TagsPass (s : Tagging) : BlockEvent → Prop
  | .actor (.thread _) => True
  | .actor (.handle env) =>
      (∀ overload ∈ env.propagateTags, ∀ i, ∀ c ∈ overload i,
        c.duringWork = false) ∧
      match s.block.mailbox with
      | [] => True
      | m :: rest =>
          (∀ b₀, (s.block.receive m rest).enter env m = some (.ok b₀) →
            TaskMeets TagsKept env b₀) ∧
          ∀ prio sender, m = .top .active prio sender →
            s.block.blockState = .done →
            ∀ i < s.block.numInputs, Balanced s.received s.passed s.block i
  | .topology _ numInputs _ _ => s.block.blockState ≠ .done →
      ∀ i < numInputs, s.block.numInputs ≤ i →
      (s.received i).Perm (s.passed i).flatten

section Runs

variable {s s' : Tagging} {e : BlockEvent} {env : Env}

theorem accounted_init (h : system.init s) :
    Accounted s.received s.passed s.block := by
  obtain ⟨⟨initTime, memory, inputConfigs, outputConfigs, env, n, k, hstart⟩,
      hnone, hbatch⟩ := h
  have hmade : Accounted s.received s.passed
      { made initTime memory with inputConfigs, outputConfigs } := by
    refine ⟨⟨fun i _ => List.Pairwise.nil, fun i l hl => ?_, fun i l hl => ?_⟩,
      fun _ i hi => absurd hi (Nat.not_lt_zero i)⟩
    · rw [hbatch] at hl
      cases hl
    · rw [hbatch] at hl
      cases hl
  refine hmade.topology (fun _ i _ _ => ?_) hstart
  rw [hnone, hbatch]
  exact List.Perm.refl _

/-- Nothing was added to the account. -/
theorem accounted_same {b : BlockActor} (hb : Accounted s.received s.passed b)
    (harrived : ∀ i, s.block.arrived e i = [])
    (hbatches : ∀ i, s.block.batches e i = []) :
    Accounted (fun i => s.received i ++ s.block.arrived e i)
      (fun i => s.passed i ++ s.block.batches e i) b := by
  simp only [harrived, hbatches, List.append_nil]
  exact hb

/-- **The handler of a message** keeps the account. -/
theorem accounted_handle {m : Message} {rest : List Message} {b₁ : BlockActor}
    (hs : Accounted s.received s.passed s.block)
    (hkept : s.TagsPass (.actor (.handle env)))
    (hmail : s.block.mailbox = m :: rest)
    (h : (s.block.receive m rest).handler env m = .ok b₁) :
    Accounted (fun i =>
      s.received i ++ s.block.arrived (.actor (.handle env)) i)
      (fun i => s.passed i ++ s.block.batches (.actor (.handle env)) i) b₁ := by
  obtain ⟨henv, hcondition⟩ := hkept
  simp only [hmail] at hcondition
  obtain ⟨hmeet, hagain⟩ := hcondition
  have hreceive : Accounted s.received s.passed (s.block.receive m rest) :=
    hs.stay (.of_eq rfl rfl)
  by_cases htag : ∃ j tag, m = .input j (.tag tag)
  · -- A tag arrives.
    obtain ⟨j, tag, rfl⟩ := htag
    rw [handler, Checked.pure_eq_ok] at h
    subst h
    have hbatches : ∀ i, s.block.batches (.actor (.handle env)) i = [] := by
      intro i
      rw [batches, atTask_of_none hmail rfl]
    simp only [hbatches, List.append_nil, arrived, hmail]
    by_cases hdone : s.block.blockState = .done
    · have hsame :
          (s.block.receive (.input j (.tag tag)) rest).handleInputTag j tag =
          s.block.receive (.input j (.tag tag)) rest := if_pos hdone
      simp only [hsame, hdone, ne_eq, not_true_eq_false, false_and, if_false,
        List.append_nil]
      exact hreceive
    · simp only [hdone, ne_eq, not_false_eq_true, true_and]
      exact hreceive.tag hdone
  · have harrived : ∀ i, s.block.arrived (.actor (.handle env)) i = [] := by
      intro i
      simp only [arrived, hmail]
      split
      · rename_i j tag _ hcons
        cases hcons
        exact absurd ⟨j, tag, rfl⟩ htag
      · rfl
    by_cases hnone : (s.block.receive m rest).enter env m = none
    · have hbatches : ∀ i, s.block.batches (.actor (.handle env)) i = [] := by
        intro i
        rw [batches, atTask_of_none hmail hnone]
      refine accounted_same ?_ harrived hbatches
      by_cases hactive : ∃ prio sender, m = .top .active prio sender
      · obtain ⟨prio, sender, rfl⟩ := hactive
        rw [handler, Checked.pure_eq_ok] at h
        exact h ▸ hreceive.active sender (hagain prio sender rfl)
      · exact hreceive.stay (handled_tags (handled h) hnone
          (fun j tag hm => htag ⟨j, tag, hm⟩)
          fun prio sender hm => hactive ⟨prio, sender, hm⟩)
    · -- A handler that calls `task_main`.
      obtain ⟨store, henter⟩ := Option.ne_none_iff_exists'.mp hnone
      obtain ⟨b₀, b₂, rfl, htask, hleave⟩ := handler_of_enter henter h
      have h₀ := hreceive.stay (enter_tags henter)
      cases hallowed : b₀.isWorkAllowed with
      | false =>
          have hbatches : ∀ i,
              s.block.batches (.actor (.handle env)) i = [] := by
            intro i
            rw [batches, atTask_of hmail henter, hallowed]
            rfl
          have hidle := taskMain_idle hallowed htask
          subst hidle
          exact (accounted_same h₀ harrived hbatches).stay (leave_tags hleave)
      | true =>
          have hbatches : s.block.batches (.actor (.handle env)) =
              b₀.taskBatches env := by
            funext i
            rw [batches, atTask_of hmail henter, hallowed]
            rfl
          simp only [harrived, hbatches, List.append_nil]
          obtain ⟨hpassed, -, hbalanced⟩ :=
            h₀.task henv (hmeet b₀ henter) hallowed htask
          have h₂ : Accounted s.received
              (fun i => s.passed i ++ b₀.taskBatches env i) b₂ :=
            ⟨hpassed, fun _ i hi => (hbalanced i hi).1⟩
          exact h₂.stay (leave_tags hleave)

/-- **Every event** that meets the condition keeps the account. -/
theorem accounted_next (hs : Accounted s.received s.passed s.block)
    (hkept : s.TagsPass e) (h : s.next e = .ok s') :
    Accounted s'.received s'.passed s'.block := by
  simp only [next, Checked.bind_eq_ok, Checked.pure_eq_ok] at h
  obtain ⟨b', hchange, rfl⟩ := h
  cases e with
  | topology env n k sender =>
      exact accounted_same (hs.topology hkept hchange)
        (fun _ => rfl) fun _ => rfl
  | actor event =>
      rcases next_cases hchange with ⟨thread, rfl, rfl⟩ |
        ⟨env, rfl, hmail, rfl⟩ |
        ⟨env, m, rest, b₁, rfl, hmail, hhandler, rfl⟩
      · exact accounted_same (hs.stay (threadStep_tags _ thread))
          (fun _ => rfl) fun _ => rfl
      · refine accounted_same hs (fun i => ?_) fun i => ?_
        · simp only [arrived, hmail]
        · simp only [batches, atTask, hmail]
      · exact (accounted_handle hs hkept hmail hhandler).stay (.of_eq rfl rfl)

/-- **Every consumed tag is passed on exactly once** in every run whose events
meet the condition: after each task that worked, the tags that arrived on an
input and are in front of what is consumed are those that were passed on, in
sorted batches and none before it was consumed, and the others are held. -/
theorem consumed_tags_passed (hs : (system.restrict TagsPass).Reachable s)
    (hkept : s.TagsPass (.actor (.handle env))) {b₁ : BlockActor}
    (htask : s.block.afterTask env = some b₁) {i : Nat}
    (hi : i < b₁.numInputs) :
    ((s.received i).filter fun t =>
      decide (t.offset < b₁.stats.itemsConsumed i)).Perm
        (s.passed i ++ s.block.batches (.actor (.handle env)) i).flatten ∧
      (∀ l ∈ s.passed i ++ s.block.batches (.actor (.handle env)) i,
        SortedTags l ∧ ∀ t ∈ l, t.offset < b₁.stats.itemsConsumed i) ∧
      (b₁.inputTags i).Perm
        ((s.received i).filter fun t =>
          decide (b₁.stats.itemsConsumed i ≤ t.offset)) := by
  have haccount : Accounted s.received s.passed s.block :=
    TransitionSystem.Reachable.invariant (T := system.restrict TagsPass)
      (fun _ h => accounted_init h)
      (fun _ _ _ _ hs h => accounted_next hs h.1 h.2) hs
  obtain ⟨b₀, hstart, hmain⟩ := Option.bind_eq_some_iff.mp htask
  obtain ⟨m, rest, hmail, henter, hallowed⟩ := atTask_eq_some hstart
  obtain ⟨henv, hcondition⟩ := hkept
  simp only [hmail] at hcondition
  have hbatches : s.block.batches (.actor (.handle env)) i =
      b₀.taskBatches env i := by
    rw [batches, hstart]
  have hrun : b₀.taskMain env = .ok b₁ := by
    cases hmain' : b₀.taskMain env with
    | error e => simp [hmain', Except.toOption] at hmain
    | ok b₂ =>
        rw [hmain'] at hmain
        cases hmain
        rfl
  have hreceive : Accounted s.received s.passed (s.block.receive m rest) :=
    haccount.stay (.of_eq rfl rfl)
  obtain ⟨hpassed, -, hbalanced⟩ :=
    (hreceive.stay (enter_tags henter)).task henv
    (hcondition.1 b₀ henter) hallowed hrun
  obtain ⟨hparts, hheld⟩ := hbalanced i hi
  rw [hbatches]
  have hbefore : ∀ t ∈ (s.passed i ++ b₀.taskBatches env i).flatten,
      t.offset < b₁.stats.itemsConsumed i := by
    intro t ht
    obtain ⟨l, hl, htl⟩ := List.mem_flatten.mp ht
    exact hpassed.consumed i l hl t htl
  refine ⟨?_, fun l hl => ⟨hpassed.sorted i l hl, hpassed.consumed i l hl⟩, ?_⟩
  · -- What was passed on is in front, what is held is not.
    refine (hparts.filter _).trans ?_
    rw [List.filter_append, List.filter_eq_self.mpr, List.filter_eq_nil_iff.mpr,
      List.append_nil]
    · intro t ht
      have := hheld t ht
      simp only [decide_eq_true_eq]
      omega
    · intro t ht
      simpa using hbefore t ht
  · refine ((hparts.filter _).trans ?_).symm
    rw [List.filter_append, List.filter_eq_nil_iff.mpr, List.filter_eq_self.mpr,
      List.nil_append]
    · intro t ht
      simpa using hheld t ht
    · intro t ht
      have := hbefore t ht
      simp only [decide_eq_true_eq]
      omega

end Runs

/-! ### A sink that consumes its tags, and is marked done or not -/

/-- A condition that is simpler to check. -/
def passesPlainly (s : Tagging) : BlockEvent → Bool
  | .actor (.thread _) => true
  | .actor (.handle env) =>
      env.propagateTags.isNone && env.work.all (fun c => !c.marks) &&
      (s.block.blockState != .done)
  | .topology _ _ _ _ => false

theorem tagsPass_of_plainly {s : Tagging} {e : BlockEvent}
    (h : s.passesPlainly e = true) : s.TagsPass e := by
  cases e with
  | topology env n k sender => cases h
  | actor event =>
      cases event with
      | thread event => trivial
      | handle env =>
          simp only [passesPlainly, Bool.and_eq_true, Option.isNone_iff_eq_none,
            List.all_eq_true, Bool.not_eq_true', bne_iff_ne] at h
          obtain ⟨⟨htags, hwork⟩, hstate⟩ := h
          refine ⟨fun f hf => by simp [htags] at hf, ?_⟩
          split
          · trivial
          · refine ⟨fun b₀ _ _ b₁ _ => ?_,
              fun _ _ _ hdone => absurd hdone hstate⟩
            refine ⟨CallsMeet.of_all fun c hc b hmarks => ?_, ?_⟩
            · exact absurd hmarks (by simp [marksDone_of_marks (hwork c hc)])
            · exact fun _ _ _ _ _ _ _ f hf => by simp [htags] at hf

/-- A sink with one port. -/
def sink : Checked BlockActor :=
  (made 0 addressMemory).handleTopology {} 1 0 none

theorem sink_started {b : BlockActor} (h : sink = .ok b) : Started b :=
  ⟨0, addressMemory, fun _ => {}, fun _ => {}, {}, 1, 0, h⟩

/-- The sink is activated, a tag arrives, and then a buffer with four items. -/
def receives : List BlockEvent :=
  [.actor (.thread (.post (.top .active false none))),
    .actor (.handle {}),
    .actor (.handle {}),
    .actor (.thread (.post (.input 0 (.tag ⟨2, 7⟩)))),
    .actor (.handle {}),
    .actor (.thread
      (.post (.input 0
        (.buffer ⟨1, { memory := 100, length := 16 }, 0, 4, 0⟩))))]

/-- Start the sink and perform events that are simple to check. -/
def runSink (es : List BlockEvent) : Option Tagging :=
  sink.toOption.bind fun b =>
    TransitionSystem.runRestricted (fun s e => passesPlainly s e = true) next es
      ⟨b, fun _ => [], fun _ => []⟩

theorem reachable_of_runSink {es : List BlockEvent} {s : Tagging}
    (h : runSink es = some s) : (system.restrict TagsPass).Reachable s := by
  obtain ⟨b₀, hstart, hrun⟩ := Option.bind_eq_some_iff.mp h
  cases hsink : sink with
  | error e => simp [hsink, Except.toOption] at hstart
  | ok b₁ =>
      rw [hsink] at hstart
      cases hstart
      have hinit : (system.restrict fun s e => passesPlainly s e = true).init
          ⟨b₀, fun _ => [], fun _ => []⟩ := ⟨sink_started hsink, rfl, rfl⟩
      have hreach :=
        TransitionSystem.Reachable.of_restricted_events es (.init hinit) hrun
      exact hreach.restrict_mono fun _ _ => tagsPass_of_plainly

/-- What is known of the first input after a task. -/
structure Account where
  isDone : Bool
  numInputs : Nat
  consumed : Nat
  received : List Tag
  passed : List (List Tag)
  deriving DecidableEq

/-- The account after a task with that work, and whether the block was done
before. -/
def account (work : List Call) (s : Tagging) : Option Account :=
  (s.block.afterTask { work }).map fun b => {
    isDone := s.block.blockState == .done
    numInputs := b.numInputs
    consumed := b.stats.itemsConsumed 0
    received := s.received 0
    passed := s.passed 0 ++ s.block.batches (.actor (.handle { work })) 0 }

end Tagging

theorem consumed_tags_passed_sink :
    ∃ s b, Tagging.runSink Tagging.receives = some s ∧
      s.block.afterTask { work := [.consume 0 3] } = some b ∧
      s.received 0 = [⟨2, 7⟩] ∧
      ((s.received 0).filter fun t =>
        decide (t.offset < b.stats.itemsConsumed 0)).Perm
        (s.passed 0 ++
          s.block.batches (.actor (.handle { work := [.consume 0 3] }))
            0).flatten := by
  have hrun : (Tagging.runSink Tagging.receives).bind
      (Tagging.account [.consume 0 3]) =
      some ⟨false, 1, 3, [⟨2, 7⟩], [[⟨2, 7⟩]]⟩ := by decide +kernel
  obtain ⟨s, hs, haccount⟩ := Option.bind_eq_some_iff.mp hrun
  obtain ⟨b, htask, heq⟩ := Option.map_eq_some_iff.mp haccount
  simp only [Tagging.Account.mk.injEq] at heq
  obtain ⟨hdone, hports, -, hreceived, -⟩ := heq
  have hplain :
      s.passesPlainly (.actor (.handle { work := [.consume 0 3] })) = true := by
    simpa [Tagging.passesPlainly, Call.marks] using hdone
  have hpassed := Tagging.consumed_tags_passed (Tagging.reachable_of_runSink hs)
    (Tagging.tagsPass_of_plainly hplain) htask (i := 0) (by omega)
  exact ⟨s, b, hs, htask, hreceived, hpassed.1⟩

/-- **A work that consumes and is marked done**: the tag in front is never
passed on. -/
theorem consumed_tag_dropped_by_markDone :
    ¬ ∀ (s : Tagging) (env : Env) (b₁ : BlockActor),
      Tagging.system.Reachable s →
      s.block.afterTask env = some b₁ → ∀ i < b₁.numInputs,
        ((s.received i).filter fun t =>
          decide (t.offset < b₁.stats.itemsConsumed i)).Perm
          (s.passed i ++ s.block.batches (.actor (.handle env)) i).flatten := by
  intro hall
  have hrun : (Tagging.runSink Tagging.receives).bind
      (Tagging.account [.consume 0 3, .markDone]) =
      some ⟨false, 1, 3, [⟨2, 7⟩], []⟩ := by decide
  obtain ⟨s, hs, haccount⟩ := Option.bind_eq_some_iff.mp hrun
  obtain ⟨b, htask, heq⟩ := Option.map_eq_some_iff.mp haccount
  simp only [Tagging.Account.mk.injEq] at heq
  obtain ⟨-, hports, hconsumed, hreceived, hpassed⟩ := heq
  have hperm :=
    hall s _ b (Tagging.reachable_of_runSink hs).of_restrict htask 0 (by omega)
  rw [hconsumed, hreceived, hpassed] at hperm
  have hlength := hperm.length_eq
  cases hlength

end Gras
