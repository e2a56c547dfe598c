import Gras.Buffers.InputRuns
import Gras.Actor.StreamEnd

/-!
# What an input has of what it received

`InputCount.Fed` is an account of one input of a block that is not done: the
items counted as consumed and the bytes in its queue are the bytes it received,
and it still holds every tag it received that is not in front of the items
consumed.

A task keeps the account when it consumes in its work only, `finishInput_fed`
being the step where the items read are counted; `change_follows` says the same
of every event.  Preloaded bytes are in the queue and were never received, so
the account needs an input without preload.
-/

namespace Gras

namespace BlockActor

/-- What is known of an input besides its messages. -/
structure InputCount where
  consumed : Nat
  total : Nat
  read : Nat
  enqueued : Nat
  itemSize : Nat
  preloaded : Nat
  tags : List Tag

/-- What is known of an input. -/
def inputCount (i : Nat) (b : BlockActor) : InputCount where
  consumed := b.stats.itemsConsumed i
  total := b.totalItemsConsumed i
  read := b.numInputItemsRead i
  enqueued := (b.inputQueues i).enqueuedBytes
  itemSize := (b.inputQueues i).itemsSize
  preloaded := (b.inputQueues i).preloadBytes
  tags := b.inputTags i

/-- **The account of an input** that received these messages and has so many
items read that are not counted yet. -/
structure InputCount.Fed (size : Nat) (received : List InputMessage)
    (uncounted : Nat) (c : InputCount) : Prop where
  noPreload : c.preloaded = 0
  consumed : c.consumed = c.total + uncounted
  bytes : c.total * size + c.enqueued = streamBytes received
  tags : ∀ t, .tag t ∈ received → c.consumed ≤ t.offset → t ∈ c.tags

/-- The account of an input between two tasks, as long as the block is not
done. -/
def IsFed (i size : Nat) (received : List InputMessage)
    (b : BlockActor) : Prop :=
  b.blockState ≠ .done → (b.inputQueues i).itemsSize = size ∧
    (b.inputCount i).Fed size received 0

/-- The account of an input while its block works. -/
def IsReading (i size : Nat) (received : List InputMessage)
    (b : BlockActor) : Prop :=
  b.blockState ≠ .done → (b.inputQueues i).itemsSize = size ∧
    (b.inputCount i).Fed size received (b.numInputItemsRead i)

/-- The input stays as it is, or the block is done. -/
def KeepsInput (i : Nat) (b b' : BlockActor) : Prop :=
  b'.blockState = .done ∨ b'.blockState = b.blockState ∧
    b'.inputCount i = b.inputCount i

/-- Items are read, and nothing else happens to the input, or the block is
done. -/
def ReadsInput (i : Nat) (b b' : BlockActor) : Prop :=
  b'.blockState = .done ∨ b'.blockState = b.blockState ∧ ∃ items,
    b'.inputCount i = { b.inputCount i with
      consumed := (b.inputCount i).consumed + items
      read := (b.inputCount i).read + items }

/-- The call consumes items of the input. -/
def consumesOn (i : Nat) : Call → Bool
  | .consume j _ => decide (j = i)
  | _ => false

section Calls

variable {b b' b'' : BlockActor} {env : Env} {now : Int} {c : Call}
  {i k n size : Nat}
  {received : List InputMessage}

/-! ### Calls -/

theorem KeepsInput.refl (i : Nat) (b : BlockActor) : KeepsInput i b b :=
  .inr ⟨rfl, rfl⟩

theorem KeepsInput.of_eq (hstate : b'.blockState = b.blockState)
    (hcount : b'.inputCount i = b.inputCount i) : KeepsInput i b b' :=
  .inr ⟨hstate, hcount⟩

theorem KeepsInput.trans (h : KeepsInput i b b') (h' : KeepsInput i b' b'') :
    KeepsInput i b b'' := by
  rcases h' with hdone | ⟨hstate', hcount'⟩
  · exact .inl hdone
  · rcases h with hdone | ⟨hstate, hcount⟩
    · exact .inl (hstate'.trans hdone)
    · exact .inr ⟨hstate'.trans hstate, hcount'.trans hcount⟩

/-- An input that is kept keeps its account. -/
theorem IsFed.keeps (hb : b.IsFed i size received) (h : KeepsInput i b b') :
    b'.IsFed i size received := by
  intro hlive
  rcases h with hdone | ⟨hstate, hcount⟩
  · exact absurd hdone hlive
  · have hsize : (b'.inputQueues i).itemsSize = (b.inputQueues i).itemsSize :=
      congrArg InputCount.itemSize hcount
    rw [hcount, hsize]
    exact hb (hstate ▸ hlive)

theorem IsReading.keeps (hb : b.IsReading i size received)
    (h : KeepsInput i b b') : b'.IsReading i size received := by
  intro hlive
  rcases h with hdone | ⟨hstate, hcount⟩
  · exact absurd hdone hlive
  · have hread : b'.numInputItemsRead i = b.numInputItemsRead i :=
      congrArg InputCount.read hcount
    have hsize : (b'.inputQueues i).itemsSize = (b.inputQueues i).itemsSize :=
      congrArg InputCount.itemSize hcount
    rw [hcount, hread, hsize]
    exact hb (hstate ▸ hlive)

theorem ReadsInput.refl (i : Nat) (b : BlockActor) : ReadsInput i b b :=
  .inr ⟨rfl, 0, rfl⟩

theorem ReadsInput.trans (h : ReadsInput i b b') (h' : ReadsInput i b' b'') :
    ReadsInput i b b'' := by
  rcases h' with hdone | ⟨hstate', items', hcount'⟩
  · exact .inl hdone
  · rcases h with hdone | ⟨hstate, items, hcount⟩
    · exact .inl (hstate'.trans hdone)
    · refine .inr ⟨hstate'.trans hstate, items + items', ?_⟩
      rw [hcount', hcount]
      simp only [Nat.add_assoc]

theorem KeepsInput.reads (h : KeepsInput i b b') : ReadsInput i b b' := by
  rcases h with hdone | ⟨hstate, hcount⟩
  · exact .inl hdone
  · exact .inr ⟨hstate, 0, hcount⟩

theorem accumulate_preload {p p' : InputPort} {fresh : Allocation}
    {m m' : Memory} (h : p.accumulate fresh m = .ok (p', m')) :
    p'.preloadBytes = p.preloadBytes := by
  rcases InputPort.accumulate_cases h with ⟨rfl, -⟩ |
    ⟨_, _, _, -, -, -, -, hsame, -⟩
  · rfl
  · exact hsame.preloadBytes

theorem front_preload {p p' : InputPort} {fresh : Allocation} {m m' : Memory}
    {buff : SBuffer} (h : p.front fresh m = .ok (buff, p', m')) :
    p'.preloadBytes = p.preloadBytes := by
  obtain ⟨-, ⟨-, -, rfl, -⟩ | ⟨⟨rfl, -⟩ | haccum, -⟩⟩ := InputPort.front_cases h
  · rfl
  · rfl
  · exact accumulate_preload haccum

/-- A call that marks no block done leaves the preload alone. -/
theorem call_preload (hmarks : b.marksDone c = false)
    (h : b.call now c = .ok b') :
    (b'.inputQueues i).preloadBytes = (b.inputQueues i).preloadBytes := by
  have hset : ∀ {j : Nat} {p : InputPort},
      p.preloadBytes = (b.inputQueues j).preloadBytes →
      (Function.update b.inputQueues j p i).preloadBytes =
        (b.inputQueues i).preloadBytes := by
    intro j p hp
    by_cases hij : i = j
    · subst hij
      rw [Function.update_self, hp]
    · rw [Function.update_of_ne hij]
  cases c with
  | getInputBuffer j fresh =>
      simp only [call, getInputBuffer, Checked.bind_eq_ok, Checked.pure_eq_ok,
        Prod.exists] at h
      obtain ⟨buff, p, memory, hfront, rfl⟩ := h
      exact hset (front_preload hfront)
  | markInputFail j fresh =>
      simp only [call, inputFail] at h
      split at h
      · simp only [Checked.bind_eq_ok, Checked.pure_eq_ok, Prod.exists] at h
        obtain ⟨p, memory, haccum, rfl⟩ := h
        unfold taskKicker
        split <;> exact hset (accumulate_preload haccum)
      · rename_i haccum
        split at h
        · rename_i hbit
          have hstate : b.blockState = .done := by
            simpa [marksDone, not_not.mp haccum, hbit] using hmarks
          rw [BlockActor.markDone, if_pos hstate, Checked.pure_eq_ok] at h
          rw [h]
        · split at h
          · simp at h
          · rw [Checked.pure_eq_ok] at h
            subst h
            exact hset rfl
  | popInputMsg j =>
      rw [call, Checked.pure_eq_ok] at h
      subst h
      unfold popInputMsg
      split <;> rfl
  | consume j items =>
      simp only [call, Checked.bind_eq_ok, Checked.pure_eq_ok] at h
      obtain ⟨-, -, rfl⟩ := h
      rfl
  | produce o items =>
      simp only [call, produce, Checked.bind_eq_ok, Checked.pure_eq_ok] at h
      obtain ⟨-, -, p, -, rfl⟩ := h
      rfl
  | markOutputFail o =>
      simp only [call, outputFail, Checked.bind_eq_ok, Prod.exists] at h
      obtain ⟨buff, p, -, h⟩ := h
      split at h
      · simp at h
      · rw [Checked.pure_eq_ok] at h
        subst h
        rfl
  | markDone =>
      have hstate : b.blockState = .done := by simpa [marksDone] using hmarks
      rw [call, BlockActor.markDone, if_pos hstate, Checked.pure_eq_ok] at h
      rw [h]
  | getOutputBuffer o =>
      simp only [call, storeLength, Checked.bind_eq_ok, Checked.pure_eq_ok,
        Prod.exists] at h
      obtain ⟨buff, p, -, rfl⟩ := h
      rfl
  | popOutputBuffer o numBytes =>
      simp only [call, storeLength, Checked.bind_eq_ok, Checked.pure_eq_ok,
        Prod.exists] at h
      obtain ⟨buff, p, -, rfl⟩ := h
      rfl
  | postOutputBuffer o buffer =>
      simp only [call, postOutputBuffer, produce, Checked.bind_eq_ok,
        Checked.pure_eq_ok] at h
      obtain ⟨p, -, -, -, -, -, q, -, rfl⟩ := h
      rfl
  | thread event =>
      rw [call, Checked.pure_eq_ok] at h
      subst h
      cases event with
      | post m => rw [threadStep]; split <;> rfl
      | prepare m => rw [threadStep]; split <;> rfl
      | send k => rw [threadStep]; split <;> rfl
      | _ => rfl
  | _ =>
      rw [call, Checked.pure_eq_ok] at h
      subst h
      rfl

/-- **A call** that consumes nothing keeps the input. -/
theorem call_keeps (hc : consumesOn i c = false) (h : b.call now c = .ok b') :
    KeepsInput i b b' := by
  cases hmarks : b.marksDone c with
  | true => exact .inl (markDone_blockState (markDone_of_call hmarks h))
  | false =>
      by_cases hconsume : ∃ j items, c = .consume j items
      · -- Another input is consumed from.
        obtain ⟨j, items, rfl⟩ := hconsume
        have hij : i ≠ j := fun hij => by simp [consumesOn, hij] at hc
        simp only [call, Checked.bind_eq_ok, Checked.pure_eq_ok] at h
        obtain ⟨-, -, rfl⟩ := h
        refine .of_eq rfl ?_
        simp only [inputCount, consume, Function.update_of_ne hij]
      · have htotal := (call_unmarked hmarks h).2
        have hstate := call_blockState hmarks h
        have htags : b'.tagData = b.tagData := by
          rcases call_tags h with ⟨j, items, rfl, -⟩ | ⟨hdone, -⟩ | ⟨htags, -⟩
          · exact absurd ⟨j, items, rfl⟩ hconsume
          · rw [hmarks] at hdone
            cases hdone
          · exact htags
        have hconsumed := congrFun (congrArg TagData.itemsConsumed htags) i
        have hheld := congrFun (congrArg TagData.inputTags htags) i
        have hpreload : (b'.inputQueues i).preloadBytes =
            (b.inputQueues i).preloadBytes :=
          call_preload hmarks h
        have hport : (b'.inputQueues i).enqueuedBytes =
              (b.inputQueues i).enqueuedBytes ∧
            (b'.inputQueues i).itemsSize = (b.inputQueues i).itemsSize ∧
            b'.numInputItemsRead = b.numInputItemsRead := by
          rcases call_inputs h with ⟨hdone, -⟩ | ⟨j, -, rfl⟩ |
            ⟨j, items, rfl, -⟩ | hinputs
          · rw [hmarks] at hdone
            cases hdone
          · unfold popInputMsg
            split <;> exact ⟨rfl, rfl, rfl⟩
          · exact absurd ⟨j, items, rfl⟩ hconsume
          · exact ⟨(hinputs.ports i).enqueuedBytes, (hinputs.ports i).itemsSize,
              hinputs.itemsRead⟩
        refine .of_eq hstate ?_
        have hconsumed : b'.stats.itemsConsumed i =
            b.stats.itemsConsumed i := hconsumed
        have hheld : b'.inputTags i = b.inputTags i := hheld
        obtain ⟨henqueued, hsize, hread⟩ := hport
        simp only [inputCount, hconsumed, htotal, hread, henqueued, hsize,
          hpreload, hheld]

/-- **Any call** reads items. -/
theorem call_reads (h : b.call now c = .ok b') : ReadsInput i b b' := by
  cases hc : consumesOn i c with
  | false => exact (call_keeps hc h).reads
  | true =>
      cases c with
      | consume j items =>
          obtain rfl : j = i := of_decide_eq_true hc
          simp only [call, Checked.bind_eq_ok, Checked.pure_eq_ok] at h
          obtain ⟨-, -, rfl⟩ := h
          refine .inr ⟨rfl, items, ?_⟩
          simp only [inputCount, consume, Function.update_self]
      | _ => cases hc

/-- The calls of another thread touch no input. -/
theorem threadStep_keeps (b : BlockActor) (event : ThreadEvent) :
    KeepsInput i b (b.threadStep event) := by
  have hcall : b.call 0 (.thread event) = .ok (b.threadStep event) := by
    rw [call]
    rfl
  exact call_keeps rfl hcall

theorem taskKicker_keeps (b : BlockActor) : KeepsInput i b b.taskKicker := by
  unfold taskKicker
  split <;> exact .of_eq rfl rfl

/-- Marking the block done. -/
theorem markDone_keeps (h : b.markDone now = .ok b') : KeepsInput i b b' :=
  .inl (markDone_blockState h)

/-! ### Before the work -/

/-- The input before the work, when so many inputs are prepared: nothing was
read, and the items that are offered are in the queue. -/
structure PreparedInput (i n : Nat) (b b' : BlockActor) : Prop where
  state : b'.blockState = b.blockState
  configs : b'.inputConfigs = b.inputConfigs
  counted : (b.inputQueues i).Counted → (b'.inputQueues i).Counted
  count : ∃ read tags, b'.inputCount i = { b.inputCount i with read, tags }
  offered : i < n → b'.numInputItemsRead i = 0 ∧
    ((b.inputQueues i).Counted →
      b'.inputItems.size i * (b.inputConfigs i).itemSize ≤
        (b.inputQueues i).enqueuedBytes)

/-- A front has no more bytes than are enqueued. -/
theorem front_enqueued {p p' : InputPort} {fresh : Allocation} {m m' : Memory}
    {buff : SBuffer} (hp : p.Counted)
    (h : p.front fresh m = .ok (buff, p', m')) :
    p'.Counted ∧ buff.length ≤ p.enqueuedBytes := by
  have hheld := InputPort.Held.front h
  obtain ⟨-, ⟨-, rfl, rfl, -⟩ | ⟨hrefill, -, -, rest, hitems⟩⟩ :=
    InputPort.front_cases h
  · exact ⟨hp, Nat.zero_le _⟩
  · have hcounted : p'.Counted := by
      rcases hrefill with ⟨rfl, -⟩ | haccum
      · exact hp
      · exact hp.accumulate haccum
    refine ⟨hcounted, ?_⟩
    rw [← hheld.enqueuedBytes, hcounted, hitems, queueLength_cons]
    exact Nat.le_add_right _ _

theorem PreparedInput.next {s s' : BlockActor} {j j' : Nat}
    (hs : PreparedInput i n b s)
    (h : prepareInput env n (s, j) = .ok (s', j')) :
    PreparedInput i (n + 1) b s' := by
  have hsorted : (s.sortTags n).blockState = s.blockState ∧
      (s.sortTags n).inputConfigs = s.inputConfigs ∧
      (s.sortTags n).inputQueues = s.inputQueues ∧
      (s.sortTags n).inputItems = s.inputItems ∧
      (s.sortTags n).numInputItemsRead = s.numInputItemsRead ∧
      (s.sortTags n).stats = s.stats ∧
      (s.sortTags n).totalItemsConsumed = s.totalItemsConsumed := by
    unfold sortTags
    split <;> exact ⟨rfl, rfl, rfl, rfl, rfl, rfl, rfl⟩
  obtain ⟨hstate, hconfigs, hqueues, hitems, hread, hstats, htotal⟩ := hsorted
  simp only [prepareInput, Checked.bind_eq_ok, Prod.exists] at h
  obtain ⟨-, -, buff, p, memory, hfront, h⟩ := h
  obtain ⟨read, tags, hcount⟩ := hs.count
  -- The port, what it offers, and how often it was read.
  have hport : s'.blockState = s.blockState ∧ s'.inputConfigs = s.inputConfigs ∧
      s'.inputQueues = Function.update s.inputQueues n p ∧
      s'.inputItems.size = Function.update s.inputItems.size n
        (buff.length / (s.inputConfigs n).itemSize) ∧
      s'.numInputItemsRead = Function.update s.numInputItemsRead n 0 ∧
      s'.stats.itemsConsumed = s.stats.itemsConsumed ∧
      s'.totalItemsConsumed = s.totalItemsConsumed := by
    split at h
    · simp only [Checked.bind_eq_ok, Checked.pure_eq_ok, Prod.mk.injEq] at h
      obtain ⟨q, -, rfl, -⟩ := h
      simp only [setInput, setOutput, WorkItems.offer, hstate, hconfigs,
        hqueues, hitems, hread, hstats, htotal, and_self]
    · simp only [Checked.pure_eq_ok, Prod.mk.injEq] at h
      obtain ⟨rfl, -⟩ := h
      simp only [setInput, WorkItems.offer, hstate, hconfigs, hqueues, hitems,
        hread, hstats, htotal, and_self]
  rw [hqueues] at hfront
  obtain ⟨hstate', hconfigs', hqueues', hitems', hread', hstats',
      htotal'⟩ := hport
  have hheld := InputPort.Held.front hfront
  have henqueued : (s'.inputQueues i).enqueuedBytes =
        (s.inputQueues i).enqueuedBytes ∧
      (s'.inputQueues i).itemsSize = (s.inputQueues i).itemsSize ∧
      (s'.inputQueues i).preloadBytes = (s.inputQueues i).preloadBytes := by
    rw [hqueues']
    by_cases hin : i = n
    · subst hin
      rw [Function.update_self]
      exact ⟨hheld.enqueuedBytes, hheld.itemsSize, front_preload hfront⟩
    · rw [Function.update_of_ne hin]
      exact ⟨rfl, rfl, rfl⟩
  have hsame : s.inputCount i = { b.inputCount i with read, tags } := hcount
  refine ⟨hstate'.trans hs.state, hconfigs'.trans hs.configs, fun hp => ?_,
    ⟨s'.numInputItemsRead i, s'.inputTags i, ?_⟩, fun hi => ?_⟩
  · rw [hqueues']
    by_cases hin : i = n
    · subst hin
      rw [Function.update_self]
      exact (front_enqueued (hs.counted hp) hfront).1
    · rw [Function.update_of_ne hin]
      exact hs.counted hp
  · simp only [inputCount, InputCount.mk.injEq] at hsame ⊢
    rw [hstats', htotal', henqueued.1, henqueued.2.1, henqueued.2.2]
    exact ⟨hsame.1, hsame.2.1, trivial, hsame.2.2.2.1, hsame.2.2.2.2.1,
      hsame.2.2.2.2.2.1, trivial⟩
  · rw [hread', hitems']
    by_cases hin : i = n
    · subst hin
      refine ⟨Function.update_self .., fun hp => ?_⟩
      have hlength := (front_enqueued (hs.counted hp) hfront).2
      have hbytes : (s.inputQueues i).enqueuedBytes =
          (b.inputQueues i).enqueuedBytes :=
        congrArg InputCount.enqueued hcount
      rw [Function.update_self, ← hs.configs, ← hbytes]
      exact Nat.le_trans (Nat.div_mul_le_self _ _) hlength
    · rw [Function.update_of_ne hin, Function.update_of_ne hin]
      exact hs.offered (by omega)

/-- **Before the work** nothing is read, and what is offered is in the queue. -/
theorem prepare_preparedInput (h : b.prepare env = .ok b') :
    PreparedInput i b.numInputs b b' := by
  simp only [prepare, Checked.bind_eq_ok, Prod.exists] at h
  obtain ⟨b₁, j, hin, hout⟩ := h
  have h₁ : PreparedInput i b.numInputs b b₁ := forRange_rule hin
    (P := fun n s => PreparedInput i n b s.1)
    ⟨rfl, rfl, id, ⟨_, _, rfl⟩, fun hi => absurd hi (Nat.not_lt_zero i)⟩
    fun n _ s s' hs hf => hs.next hf
  refine forRange_rule hout (P := fun _ s => PreparedInput i b.numInputs b s) ?_
    fun o _ s s' hs hf => ?_
  · exact ⟨h₁.state, h₁.configs, h₁.counted, h₁.count, h₁.offered⟩
  · simp only [prepareOutput, Checked.bind_eq_ok, Checked.pure_eq_ok,
      Prod.exists] at hf
    obtain ⟨-, -, buff, p, -, -, -, rfl⟩ := hf
    exact ⟨hs.state, hs.configs, hs.counted, hs.count, hs.offered⟩

/-! ### After the work -/

/-- What an overload of `propagate_tags` calls consumes nothing of the input. -/
def PropagatesOnly (env : Env) (i : Nat) : Prop :=
  ∀ overload ∈ env.propagateTags, ∀ k, ∀ c ∈ overload k, consumesOn i c = false

theorem updateInputAvail_count (h : b.updateInputAvail now k = .ok b') :
    b'.blockState = b.blockState ∧ b'.inputCount i = b.inputCount i := by
  simp only [updateInputAvail, Checked.bind_eq_ok, Checked.pure_eq_ok] at h
  obtain ⟨p, hupdate, rfl⟩ := h
  have hport : p.enqueuedBytes = (b.inputQueues k).enqueuedBytes ∧
      p.itemsSize = (b.inputQueues k).itemsSize ∧
      p.preloadBytes = (b.inputQueues k).preloadBytes := by
    unfold InputPort.updateHasMsg at hupdate
    split at hupdate
    · rw [Checked.pure_eq_ok] at hupdate
      exact hupdate ▸ ⟨rfl, rfl, rfl⟩
    · exact InputPort.update_eq_ok hupdate ▸ ⟨rfl, rfl, rfl⟩
  refine ⟨rfl, ?_⟩
  simp only [inputCount, setInput_inputQueues]
  by_cases hik : i = k
  · subst hik
    rw [Function.update_self, hport.1, hport.2.1, hport.2.2]
    rfl
  · rw [Function.update_of_ne hik]
    rfl

/-- **Trimming** takes tags in front of the consumed items away, of its own
input. -/
theorem trimTags_keeps (henv : PropagatesOnly env i)
    (h : b.trimTags env k = .ok b') :
    b'.blockState = .done ∨ b'.blockState = b.blockState ∧
      b'.inputCount i = { b.inputCount i with tags := b'.inputTags i } ∧
      (i ≠ k → b'.inputTags i = b.inputTags i) ∧
      ∀ t ∈ b.inputTags i, b.stats.itemsConsumed i ≤ t.offset →
      t ∈ b'.inputTags i := by
  rcases trimTags_cases h with ⟨-, rfl⟩ | ⟨-, b₁, hpass, rfl⟩
  · exact .inr ⟨rfl, rfl, fun _ => rfl, fun t ht _ => ht⟩
  · have hkeeps : KeepsInput i b b₁ :=
      passTags_rule hpass (R := KeepsInput i) (.refl i) .trans
      (fun s o t => .of_eq rfl rfl) fun overload ho c hc s s' hcall =>
        call_keeps (henv overload ho k c hc) hcall
    rcases hkeeps with hdone | ⟨hstate, hcount⟩
    · exact .inl hdone
    · have htags : b₁.inputTags i = b.inputTags i :=
        congrArg InputCount.tags hcount
      refine .inr ⟨hstate, ?_, fun hik => ?_, fun t ht hoffset => ?_⟩
      · simp only [inputCount, InputCount.mk.injEq] at hcount ⊢
        exact ⟨hcount.1, hcount.2.1, hcount.2.2.1, hcount.2.2.2.1,
          hcount.2.2.2.2.1, hcount.2.2.2.2.2.1, trivial⟩
      · exact (Function.update_of_ne hik _ _).trans htags
      · show t ∈ Function.update b₁.inputTags k _ i
        by_cases hik : i = k
        · subst hik
          -- The tags that are passed on are the ones in front.
          have hparts := (b.inputTags i).takeWhile_append_dropWhile
            (p := fun t => decide (t.offset < b.stats.itemsConsumed i))
          have hrest : (b.inputTags i).drop (b.passed i).length =
              (b.inputTags i).dropWhile fun t =>
                decide (t.offset < b.stats.itemsConsumed i) := by
            have hpassed : b.passed i = (b.inputTags i).takeWhile fun t =>
              decide (t.offset < b.stats.itemsConsumed i) := rfl
            rw [← hparts, hpassed, List.drop_left, hparts]
          rw [Function.update_self, htags, hrest]
          rw [← hparts] at ht
          rcases List.mem_append.mp ht with hfront | hbehind
          · have hlt := List.all_eq_true.mp List.all_takeWhile t hfront
            simp only [decide_eq_true_eq] at hlt
            omega
          · exact hbehind
        · rwa [Function.update_of_ne hik, htags]

/-- The post-work tasks of another input. -/
theorem finishInput_keepsInput (henv : PropagatesOnly env i) (hik : i ≠ k)
    (h : b.finishInput env k = .ok b') : KeepsInput i b b' := by
  simp only [finishInput, Checked.bind_eq_ok, Checked.pure_eq_ok] at h
  obtain ⟨s₁, htags, s₂, hbuffs, s₃, havail, rfl⟩ := h
  rcases trimTags_keeps henv htags with hdone | ⟨hstate, hcount, hsame, -⟩
  · left
    have hbuffs' := congrArg Control.blockState (trimBuffs_control hbuffs)
    exact ((updateInputAvail_count (i := i) havail).1.trans hbuffs').trans hdone
  · have h₁ : KeepsInput i b s₁ := by
      refine .of_eq hstate ?_
      rw [hcount, hsame hik]
      rfl
    have h₂ : KeepsInput i s₁ s₂ := by
      unfold trimBuffs at hbuffs
      split at hbuffs
      · rw [Checked.pure_eq_ok] at hbuffs
        exact hbuffs ▸ .refl i s₁
      · simp only [Checked.bind_eq_ok, Checked.pure_eq_ok] at hbuffs
        obtain ⟨p, -, rfl⟩ := hbuffs
        refine .of_eq rfl ?_
        simp only [inputCount, setInput_inputQueues, Function.update_of_ne hik]
        rfl
    have h₃ : KeepsInput i s₂ s₃ :=
      .of_eq (updateInputAvail_count (i := i) havail).1
        (updateInputAvail_count havail).2
    refine ((h₁.trans h₂).trans h₃).trans (.of_eq rfl ?_)
    simp only [inputCount, Function.update_of_ne hik]

/-- Items that are read are accounted for. -/
theorem IsReading.reads (hb : b.IsReading i size received)
    (h : ReadsInput i b b') : b'.IsReading i size received := by
  intro hlive
  rcases h with hdone | ⟨hstate, items, hcount⟩
  · exact absurd hdone hlive
  · obtain ⟨hsize, hfed⟩ := hb (hstate ▸ hlive)
    have hread : b'.numInputItemsRead i = b.numInputItemsRead i + items :=
      congrArg InputCount.read hcount
    have hconsumed : b.stats.itemsConsumed i =
        b.totalItemsConsumed i + b.numInputItemsRead i :=
      hfed.consumed
    rw [hcount, hread]
    refine ⟨(congrArg InputCount.itemSize hcount).trans hsize, hfed.noPreload,
      ?_, hfed.bytes, fun t ht hoffset =>
        hfed.tags t ht (Nat.le_trans (Nat.le_add_right _ _) hoffset)⟩
    show b.stats.itemsConsumed i + items =
        b.totalItemsConsumed i + (b.numInputItemsRead i + items)
    omega

/-- **The post-work tasks of the input** count what was read. -/
theorem finishInput_fed (henv : PropagatesOnly env i)
    (hb : b.IsReading i size received) (h : b.finishInput env i = .ok b') :
    b'.IsFed i size received := by
  intro hlive
  simp only [finishInput, Checked.bind_eq_ok, Checked.pure_eq_ok] at h
  obtain ⟨s₁, htags, s₂, hbuffs, s₃, havail, rfl⟩ := h
  have hstate₂ : s₂.blockState = s₁.blockState :=
    congrArg Control.blockState (trimBuffs_control hbuffs)
  obtain ⟨hstate₃, hcount₃⟩ := updateInputAvail_count (i := i) havail
  rcases trimTags_keeps henv htags with hdone | ⟨hstate, hcount, -, hheld⟩
  · exact absurd ((hstate₃.trans hstate₂).trans hdone) hlive
  · have hstate₁ : s₁.blockState = b.blockState := hstate
    have hlive₁ : b.blockState ≠ .done := by
      intro hdone
      exact hlive ((hstate₃.trans hstate₂).trans (hstate₁.trans hdone))
    obtain ⟨hsize, hfed⟩ := hb hlive₁
    have hcount₁ : s₁.inputCount i =
        { b.inputCount i with tags := s₁.inputTags i } := hcount
    have hread : s₁.numInputItemsRead i = b.numInputItemsRead i :=
      congrArg InputCount.read hcount₁
    have hsize₁ : (s₁.inputQueues i).itemsSize = size :=
      (congrArg InputCount.itemSize hcount₁).trans hsize
    -- The bytes of the items that were read leave the queue.
    have hconsume : ∃ enqueued, enqueued + b.numInputItemsRead i * size =
          (s₁.inputQueues i).enqueuedBytes ∧
        s₂.inputCount i = { s₁.inputCount i with enqueued := enqueued } := by
      rw [← hread]
      unfold trimBuffs at hbuffs
      split at hbuffs
      · rename_i hnone
        rw [Checked.pure_eq_ok] at hbuffs
        subst hbuffs
        exact ⟨_, by rw [hnone, Nat.zero_mul, Nat.add_zero], rfl⟩
      · simp only [Checked.bind_eq_ok, Checked.pure_eq_ok] at hbuffs
        obtain ⟨p, hconsume, rfl⟩ := hbuffs
        obtain ⟨-, hsame, hle, henqueued, -⟩ := InputPort.consume_cases hconsume
        rw [hsize₁] at hle henqueued
        refine ⟨p.enqueuedBytes, by omega, ?_⟩
        simp only [inputCount, setInput_inputQueues, Function.update_self, hsame.itemsSize,
          hsame.preloadBytes]
        rfl
    obtain ⟨enqueued, henqueued, hcount₂⟩ := hconsume
    have hlast : s₃.inputCount i =
        { b.inputCount i with tags := s₁.inputTags i, enqueued := enqueued } := by
      rw [hcount₃, hcount₂, hcount₁]
    have hend : ({ s₃ with
          totalItemsConsumed := Function.update s₃.totalItemsConsumed i
            (s₃.totalItemsConsumed i + s₃.numInputItemsRead i) } :
            BlockActor).inputCount i =
        { s₃.inputCount i with
          total := (s₃.inputCount i).total + (s₃.inputCount i).read } := by
      simp only [inputCount, Function.update_self]
    have hqueue : (s₁.inputQueues i).enqueuedBytes =
        (b.inputQueues i).enqueuedBytes :=
      congrArg InputCount.enqueued hcount₁
    have hbytes : b.totalItemsConsumed i * size +
        (b.inputQueues i).enqueuedBytes =
      streamBytes received := hfed.bytes
    have hsize₃ : (s₃.inputQueues i).itemsSize = size :=
      (congrArg InputCount.itemSize hlast).trans hsize
    refine ⟨hsize₃, ?_⟩
    rw [hend, hlast]
    refine ⟨hfed.noPreload, hfed.consumed, ?_,
      fun t ht hoffset => hheld t (hfed.tags t ht hoffset) hoffset⟩
    show (b.totalItemsConsumed i + b.numInputItemsRead i) * size + enqueued =
        streamBytes received
    rw [Nat.add_mul]
    omega

/-- The post-work tasks of an output. -/
theorem finishOutput_keeps (h : b.finishOutput now k = .ok b') :
    KeepsInput i b b' := by
  unfold finishOutput at h
  split at h
  · rw [Checked.pure_eq_ok] at h
    exact h ▸ .refl i b
  · simp only [Checked.bind_eq_ok, Checked.pure_eq_ok, Prod.exists] at h
    obtain ⟨buff, p, -, rfl⟩ := h
    split <;> exact .of_eq rfl rfl

/-! ### The order of the tags -/

theorem taskWork_stays (h : b.taskWork env = .ok b') : TagsStay b b' := by
  simp only [taskWork, Checked.bind_eq_ok, Checked.pure_eq_ok] at h
  obtain ⟨b₀, hcalls, rfl⟩ := h
  have hstart : TagsStay b b.atCall := .of_eq rfl rfl
  have hcalled : TagsStay b.atCall b₀ := calls_rule hcalls .refl .trans
    fun c _ s s' hcall => .call hcall
  exact (hstart.trans hcalled).trans (.of_eq rfl rfl)

theorem finishInput_ordered (hb : b.TagsOrdered)
    (h : b.finishInput env k = .ok b') : b'.TagsOrdered := by
  simp only [finishInput, Checked.bind_eq_ok, Checked.pure_eq_ok] at h
  obtain ⟨s₁, htags, s₂, hbuffs, s₃, havail, rfl⟩ := h
  have h₁ : s₁.TagsOrdered := by
    have hmsgs : (b.trimMsgs k).TagsOrdered := hb
    rcases trimTags_cases htags with ⟨-, rfl⟩ | ⟨-, s₀, hpass, rfl⟩
    · exact hmsgs
    · have hpassed : TagsStay (b.trimMsgs k) s₀ :=
        passTags_rule hpass .refl .trans
        (fun s o t => .of_eq rfl rfl)
          fun overload _ c _ s s' hcall => .call hcall
      intro j hj
      have hsorted := hpassed.ordered hmsgs j hj
      show SortedTags (Function.update s₀.inputTags k _ j)
      by_cases hjk : j = k
      · subst hjk
        rw [Function.update_self]
        exact hsorted.sublist (List.drop_sublist _ _)
      · rwa [Function.update_of_ne hjk]
  have h₂ : TagsStay s₁ s₂ := by
    unfold trimBuffs at hbuffs
    split at hbuffs
    · rw [Checked.pure_eq_ok] at hbuffs
      exact hbuffs ▸ .refl s₁
    · simp only [Checked.bind_eq_ok, Checked.pure_eq_ok] at hbuffs
      obtain ⟨p, -, rfl⟩ := hbuffs
      exact .of_eq rfl rfl
  have h₃ : TagsStay s₂ s₃ := by
    simp only [updateInputAvail, Checked.bind_eq_ok,
      Checked.pure_eq_ok] at havail
    obtain ⟨p, -, rfl⟩ := havail
    exact .of_eq rfl rfl
  exact h₃.ordered (h₂.ordered h₁)

/-- **A task** leaves the tags of every port that has not changed sorted. -/
theorem taskMain_ordered (hb : b.TagsOrdered) (h : b.taskMain env = .ok b') :
    b'.TagsOrdered := by
  cases hallowed : b.isWorkAllowed with
  | false => exact taskMain_idle hallowed h ▸ hb
  | true =>
      obtain ⟨b₁, b₂, b₃, hprepare, hwork, hfinish, rfl⟩ :=
        taskMain_parts hallowed h
      simp only [finish, Checked.bind_eq_ok] at hfinish
      obtain ⟨b₄, hin, hout⟩ := hfinish
      have h₂ := (taskWork_stays hwork).ordered
        (prepare_tags hb hprepare).ordered
      have h₄ : b₄.TagsOrdered :=
        forRange_rule hin (P := fun _ s => s.TagsOrdered) h₂
        fun n _ s s' hs hf => finishInput_ordered hs hf
      have h₃ : b₃.TagsOrdered :=
        forRange_rule hout (P := fun _ s => s.TagsOrdered) h₄
        fun n _ s s' hs hf => by
          unfold finishOutput at hf
          split at hf
          · rw [Checked.pure_eq_ok] at hf
            exact hf ▸ hs
          · simp only [Checked.bind_eq_ok, Checked.pure_eq_ok,
              Prod.exists] at hf
            obtain ⟨buff, p, -, rfl⟩ := hf
            split <;> exact hs
      unfold taskKicker
      split <;> exact h₃

/-! ### A task -/

/-- The account as the block calls work. -/
theorem prepare_reading (hfed : b.IsFed i size received) (hi : i < b.numInputs)
    (hordered : b.TagsOrdered) (h : b.prepare env = .ok b') :
    b'.IsReading i size received := by
  intro hlive
  have hprepared : PreparedInput i b.numInputs b b' := prepare_preparedInput h
  obtain ⟨read, tags, hcount⟩ := hprepared.count
  have hread := (hprepared.offered hi).1
  have hperm := (prepare_tags hordered h).perm i
  obtain ⟨hsize, hfed⟩ := hfed (hprepared.state ▸ hlive)
  rw [hread, hcount]
  refine ⟨(congrArg InputCount.itemSize hcount).trans hsize, hfed.noPreload,
    hfed.consumed, hfed.bytes, fun t ht hoffset => ?_⟩
  have htags : b'.inputTags i = tags := congrArg InputCount.tags hcount
  exact htags ▸ hperm.mem_iff.mpr (hfed.tags t ht hoffset)

/-- **A task** keeps the account when nothing but its work consumes. -/
theorem taskMain_fed (henv : PropagatesOnly env i)
    (hfed : b.IsFed i size received) (hi : i < b.numInputs)
    (hordered : b.TagsOrdered) (h : b.taskMain env = .ok b') :
    b'.IsFed i size received := by
  cases hallowed : b.isWorkAllowed with
  | false => exact taskMain_idle hallowed h ▸ hfed
  | true =>
      obtain ⟨b₁, b₂, b₃, hprepare, hwork, hfinish, rfl⟩ :=
        taskMain_parts hallowed h
      have h₁ := prepare_reading hfed hi hordered hprepare
      have hnum : b₂.numInputs = b.numInputs := by
        have hports := (taskWork_stays hwork).numInputs
        exact hports.trans
          (congrArg Control.numInputs (prepare_control hprepare))
      have h₂ : b₂.IsReading i size received := by
        simp only [taskWork, Checked.bind_eq_ok, Checked.pure_eq_ok] at hwork
        obtain ⟨b₀, hcalls, rfl⟩ := hwork
        have hreads : ReadsInput i b₁.atCall b₀ :=
          calls_rule hcalls (.refl i) .trans
          fun c _ s s' hcall => call_reads hcall
        have hstart : b₁.atCall.IsReading i size received := h₁
        exact hstart.reads hreads
      simp only [finish, Checked.bind_eq_ok] at hfinish
      obtain ⟨b₄, hin, hout⟩ := hfinish
      -- The inputs before this one leave its account open, those behind it leave it closed.
      have h₄ := forRange_rule hin
        (P := fun n s => if i < n then s.IsFed i size received
          else s.IsReading i size received)
        (by rwa [if_neg (Nat.not_lt_zero i)]) fun k _ s s' hs hf => by
          by_cases hik : i = k
          · subst hik
            rw [if_neg (Nat.lt_irrefl i)] at hs
            rw [if_pos (Nat.lt_succ_self i)]
            exact finishInput_fed henv hs hf
          · have hkeeps := finishInput_keepsInput henv hik hf
            have hnext : i < k + 1 ↔ i < k := by omega
            rw [if_congr hnext rfl rfl]
            split
            · rename_i hlt
              rw [if_pos hlt] at hs
              exact hs.keeps hkeeps
            · rename_i hlt
              rw [if_neg hlt] at hs
              exact hs.keeps hkeeps
      rw [if_pos (hnum ▸ hi)] at h₄
      have h₃ : KeepsInput i b₄ b₃ := forRange_relates hout (.refl i) .trans
        fun o _ s s' hf => finishOutput_keeps hf
      exact (h₄.keeps h₃).keeps (taskKicker_keeps b₃)

end Calls

/-! ## An event -/

section Events

variable {b b' b₀ : BlockActor} {env : Env} {now : Int} {m : Message}
  {i k size : Nat}
  {received : List InputMessage}

/-- What arrives besides tags and buffers keeps the account. -/
theorem InputCount.Fed.more {c : InputCount} {l : List InputMessage}
    (hc : c.Fed size received 0) (hl : ∀ m ∈ l, m.asTag = none ∧ m.bytes = 0) :
    c.Fed size (received ++ l) 0 := by
  refine ⟨hc.noPreload, hc.consumed, ?_, fun t ht hoffset => ?_⟩
  · have hnone : streamBytes l = 0 := List.sum_eq_zero fun n hn => by
      obtain ⟨message, hmessage, rfl⟩ := List.mem_map.mp hn
      exact (hl message hmessage).2
    rw [streamBytes_append, hnone]
    exact hc.bytes
  · rcases List.mem_append.mp ht with ht | ht
    · exact hc.tags t ht hoffset
    · cases (hl _ ht).1

theorem IsFed.more {l : List InputMessage} (hb : b.IsFed i size received)
    (hl : ∀ m ∈ l, m.asTag = none ∧ m.bytes = 0) :
    b.IsFed i size (received ++ l) :=
  fun hlive => ⟨(hb hlive).1, (hb hlive).2.more hl⟩

/-- **A message is stored** before the task. -/
theorem enter_fed (hb : b.IsFed i size received)
    (h : b.enter env m = some (.ok b₀)) :
    b₀.IsFed i size (received ++ messagesOn i m) := by
  cases m with
  | input j message =>
      cases message with
      | msg msg =>
          have hkeeps : KeepsInput i b b₀ := by
            simp only [enter] at h
            split at h
            · cases h
            · simp only [Option.some.injEq, storeInputMsg] at h
              obtain ⟨hstate, hcount⟩ := updateInputAvail_count (i := i) h
              exact .of_eq hstate hcount
          refine (hb.keeps hkeeps).more fun message hmessage => ?_
          simp only [messagesOn, List.mem_ite_nil_right,
            List.mem_singleton] at hmessage
          rw [hmessage.2]
          exact ⟨rfl, rfl⟩
      | buffer buffer =>
          simp only [enter] at h
          split at h
          · cases h
          · simp only [Option.some.injEq, storeInputBuffer,
              Checked.bind_eq_ok] at h
            obtain ⟨p, hpush, h⟩ := h
            obtain ⟨-, hsame, henqueued, -⟩ := InputPort.push_cases hpush
            obtain ⟨hstate, hcount⟩ := updateInputAvail_count (i := i) h
            by_cases hji : j = i
            · subst hji
              intro hlive
              obtain ⟨hsize, hfed⟩ := hb (hstate ▸ hlive)
              have hcount₀ : b₀.inputCount j = { b.inputCount j with
                  enqueued := (b.inputQueues j).enqueuedBytes +
                      buffer.length } := by
                rw [hcount]
                simp only [inputCount, setInput_inputQueues,
                  Function.update_self, henqueued, hsame.itemsSize,
                  hsame.preloadBytes]
                rfl
              refine ⟨(congrArg InputCount.itemSize hcount₀).trans hsize, ?_⟩
              rw [messagesOn, if_pos rfl, hcount₀]
              have hbytes : b.totalItemsConsumed j * size +
                  (b.inputQueues j).enqueuedBytes =
                streamBytes received := hfed.bytes
              refine ⟨hfed.noPreload, hfed.consumed, ?_, fun t ht hoffset => ?_⟩
              · show b.totalItemsConsumed j * size +
                  ((b.inputQueues j).enqueuedBytes + buffer.length) = _
                rw [streamBytes_append]
                show _ = streamBytes received + (buffer.length + 0)
                omega
              · rcases List.mem_append.mp ht with ht | ht
                · exact hfed.tags t ht hoffset
                · cases List.mem_singleton.mp ht
            · rw [messagesOn, if_neg hji, List.append_nil]
              refine hb.keeps (.of_eq hstate ?_)
              rw [hcount]
              simp only [inputCount, setInput_inputQueues,
                Function.update_of_ne (fun hij => hji hij.symm : i ≠ j)]
              rfl
      | check =>
          simp only [enter, Option.some.injEq, Checked.pure_eq_ok] at h
          subst h
          have hkeeps : KeepsInput i b (b.recheckInput env j) := .of_eq rfl rfl
          refine (hb.keeps hkeeps).more fun message hmessage => ?_
          simp only [messagesOn, List.mem_ite_nil_right,
            List.mem_singleton] at hmessage
          rw [hmessage.2]
          exact ⟨rfl, rfl⟩
      | _ => cases h
  | output j message =>
      cases message with
      | buffer buffer =>
          simp only [enter] at h
          split at h
          · cases h
          · simp only [Option.some.injEq, storeOutputBuffer, Checked.bind_eq_ok,
              Checked.pure_eq_ok] at h
            obtain ⟨p, -, rfl⟩ := h
            show IsFed i size (received ++ []) _
            rw [List.append_nil]
            exact hb.keeps (.of_eq rfl rfl)
      | _ => cases h
  | selfKick =>
      simp only [enter, Option.some.injEq, Checked.pure_eq_ok] at h
      subst h
      show IsFed i size (received ++ []) _
      rwa [List.append_nil]
  | _ => cases h

/-- The input has items of that size and no preload. -/
structure PlainInput (i size : Nat) (b : BlockActor) : Prop where
  itemSize : (b.inputConfigs i).itemSize = size
  noPreload : (b.inputConfigs i).preloadItems = 0

/-- **An update of the configuration** that asks for no preload. -/
theorem handleInputUpdate_fed (hplain : b.PlainInput i size)
    (hb : b.blockState ≠ .done → (b.inputCount i).Fed size received 0)
    (h : b.handleInputUpdate env k = .ok b') :
    (b'.blockState ≠ .done → (b'.inputCount i).Fed size received 0) ∧
      b'.blockState = b.blockState ∧ b'.inputConfigs = b.inputConfigs ∧
      (i ≠ k → (b'.inputQueues i).itemsSize = (b.inputQueues i).itemsSize) ∧
      (i = k → i < b.numInputs → (b'.inputQueues i).itemsSize = size) := by
  unfold handleInputUpdate at h
  split at h
  · rename_i hle
    rw [Checked.pure_eq_ok] at h
    subst h
    exact ⟨hb, rfl, rfl, fun _ => rfl, fun hik hi => by omega⟩
  · simp only [Checked.bind_eq_ok, Prod.exists] at h
    obtain ⟨p, memory, hconfig, h⟩ := h
    obtain ⟨hstate, hcount⟩ := updateInputAvail_count (i := i) h
    have hconfigs : b'.inputConfigs = b.inputConfigs :=
      (updateInputAvail_configs h).trans rfl
    have hstate : b'.blockState = b.blockState := hstate
    have hsize : (b'.inputQueues i).itemsSize =
        (Function.update b.inputQueues k p i).itemsSize :=
        congrArg InputCount.itemSize hcount
    by_cases hik : i = k
    · subst hik
      obtain ⟨-, p₁, hpreload, rfl⟩ := InputPort.updateConfig_cases hconfig
      rw [hplain.noPreload, sizeMul_zero] at hpreload
      have hleft : p₁.itemsSize = (b.inputConfigs i).itemSize ∧
          ((b.inputQueues i).preloadBytes = 0 →
            p₁.enqueuedBytes = (b.inputQueues i).enqueuedBytes) := by
        cases hpreload with
        | more hlt => exact absurd hlt (Nat.not_lt_zero _)
        | less hlt hconsume =>
            obtain ⟨-, hsame, -⟩ := InputPort.consume_cases hconsume
            exact ⟨hsame.itemsSize,
              fun hnone => absurd hnone (Nat.ne_of_gt hlt)⟩
        | same heq => exact ⟨rfl, fun _ => rfl⟩
      rw [Function.update_self] at hsize
      refine ⟨fun hlive => ?_, hstate, hconfigs, fun hne => absurd rfl hne,
        fun _ _ => hsize.trans (hleft.1.trans hplain.itemSize)⟩
      have hfed := hb (hstate ▸ hlive)
      have hbytes : b.totalItemsConsumed i * size +
          (b.inputQueues i).enqueuedBytes =
        streamBytes received := hfed.bytes
      rw [hcount]
      refine ⟨?_, hfed.consumed, ?_, hfed.tags⟩
      · show (Function.update b.inputQueues i _ i).preloadBytes = 0
        rw [Function.update_self]
        show sizeMul (b.inputConfigs i).itemSize
            (b.inputConfigs i).preloadItems = 0
        rw [hplain.noPreload, sizeMul_zero]
      · show b.totalItemsConsumed i * size +
            (Function.update b.inputQueues i _ i).enqueuedBytes = _
        rw [Function.update_self, ← hbytes, ← hleft.2 hfed.noPreload]
        rfl
    · rw [Function.update_of_ne hik] at hsize
      refine ⟨fun hlive => ?_, hstate, hconfigs, fun _ => hsize,
        fun heq => absurd heq hik⟩
      have hsame : b'.inputCount i = b.inputCount i := by
        rw [hcount]
        simp only [inputCount, setInput_inputQueues, Function.update_of_ne hik]
        rfl
      rw [hsame]
      exact hb (hstate ▸ hlive)

theorem handleOutputUpdate_keeps (h : b.handleOutputUpdate env k = .ok b') :
    KeepsInput i b b' := by
  unfold handleOutputUpdate at h
  split at h
  · rw [Checked.pure_eq_ok] at h
    exact h ▸ .refl i b
  · simp only [Checked.bind_eq_ok, Checked.pure_eq_ok] at h
    obtain ⟨p, -, rfl⟩ := h
    exact .of_eq rfl rfl

theorem acknowledge_keeps (sender : Option Address) (b : BlockActor) :
    KeepsInput i b (b.acknowledge sender) := by
  cases sender <;> exact .of_eq rfl rfl

/-- A tag arrives. -/
theorem handleInputTag_fed {j : Nat} {tag : Tag}
    (hb : b.IsFed i size received) :
    (b.handleInputTag j tag).IsFed i size
      (received ++ messagesOn i (.input j (.tag tag))) := by
  intro hlive
  by_cases hdone : b.blockState = .done
  · rw [handleInputTag, if_pos hdone] at hlive
    exact absurd hdone hlive
  · obtain ⟨hsize, hfed⟩ := hb hdone
    rw [handleInputTag, if_neg hdone]
    refine ⟨hsize, hfed.noPreload, hfed.consumed, ?_, fun t ht hoffset => ?_⟩
    · have hnone : streamBytes (messagesOn i (.input j (.tag tag))) = 0 := by
        rw [messagesOn]
        split <;> rfl
      rw [streamBytes_append, hnone]
      exact hfed.bytes
    · show t ∈ Function.update b.inputTags j (b.inputTags j ++ [tag]) i
      by_cases hij : i = j
      · subst hij
        rw [messagesOn, if_pos rfl] at ht
        rw [Function.update_self]
        rcases List.mem_append.mp ht with ht | ht
        · exact List.mem_append_left _ (hfed.tags t ht hoffset)
        · cases List.mem_singleton.mp ht
          exact List.mem_append_right _ (List.mem_singleton_self _)
      · rw [messagesOn, if_neg (fun hji => hij hji.symm), List.append_nil] at ht
        rw [Function.update_of_ne hij]
        exact hfed.tags t ht hoffset

/-- What the handler of a message asks for: user code consumes in its work only,
and a done block is not activated. -/
structure HandlesPlainly (env : Env) (i : Nat) (b : BlockActor)
    (m : Message) : Prop where
  propagates : PropagatesOnly env i
  called : ∀ c ∈ env.called, consumesOn i c = false
  again : ∀ prio sender, m = .top .active prio sender → b.blockState ≠ .done

/-- What is no task and no tag keeps the account. -/
theorem handled_fed (hplain : b.PlainInput i size)
    (hhandles : HandlesPlainly env i b m) (hi : i < b.numInputs)
    (hb : b.IsFed i size received) (hidle : b.enter env m = none)
    (htag : ¬ ∃ j tag, m = .input j (.tag tag)) (h : Handled env b m b') :
    b'.IsFed i size (received ++ messagesOn i m) := by
  have hnone (hbuffer : ¬ ∃ j buff, m = .input j (.buffer buff)) :
      ∀ message ∈ messagesOn i m, message.asTag = none ∧ message.bytes = 0 := by
    intro message hmessage
    cases m with
    | input j message' =>
        simp only [messagesOn, List.mem_ite_nil_right,
          List.mem_singleton] at hmessage
        obtain ⟨-, rfl⟩ := hmessage
        cases message with
        | tag tag => exact absurd ⟨j, tag, rfl⟩ htag
        | buffer buff => exact absurd ⟨j, buff, rfl⟩ hbuffer
        | _ => exact ⟨rfl, rfl⟩
    | _ => cases hmessage
  cases h with
  | @task m store b₀ b₁ b' henter =>
      rw [henter] at hidle
      cases hidle
  | tag j tag => exact absurd ⟨j, tag, rfl⟩ htag
  | @inputUpdate j b' hupdate =>
      refine IsFed.more ?_ (hnone (by rintro ⟨_, _, ⟨⟩⟩))
      obtain ⟨hfed, hstate, -, hother, hown⟩ :=
        handleInputUpdate_fed hplain (fun hlive => (hb hlive).2) hupdate
      intro hlive
      refine ⟨?_, hfed hlive⟩
      by_cases hij : i = j
      · exact hown hij hi
      · exact (hother hij).trans (hb (hstate ▸ hlive)).1
  | outputUpdate hupdate =>
      exact (hb.keeps (handleOutputUpdate_keeps hupdate)).more
        (hnone (by rintro ⟨_, _, ⟨⟩⟩))
  | outputAlloc hset =>
      simp only [handleOutputAlloc, Checked.bind_eq_ok,
        Checked.pure_eq_ok] at hset
      obtain ⟨p, -, rfl⟩ := hset
      exact (hb.keeps (.of_eq rfl rfl)).more
        (hnone (by rintro ⟨_, _, ⟨⟩⟩))
  | @topAlloc prio sender b' halloc =>
      simp only [handleTopAlloc, Checked.bind_eq_ok,
        Checked.pure_eq_ok] at halloc
      obtain ⟨b₁, hloop, rfl⟩ := halloc
      have hkeeps : KeepsInput i b b₁ := forRange_relates hloop (.refl i) .trans
        fun o _ s s' hf => by
          obtain ⟨config, p, -, rfl⟩ := allocateOutput_cases hf
          exact .of_eq rfl rfl
      exact ((hb.keeps hkeeps).keeps (acknowledge_keeps sender b₁)).more
        (hnone (by rintro ⟨_, _, ⟨⟩⟩))
  | @outputsDone j b' hall hdone =>
      have hrecheck : KeepsInput i b (b.recheckOutput env j) := .of_eq rfl rfl
      exact (hb.keeps (hrecheck.trans (markDone_keeps hdone))).more
        (hnone (by rintro ⟨_, _, ⟨⟩⟩))
  | @inert prio sender b₁ hdone =>
      exact (hb.keeps
        ((markDone_keeps hdone).trans (acknowledge_keeps sender b₁))).more
        (hnone (by rintro ⟨_, _, ⟨⟩⟩))
  | @active prio sender =>
      have hlive := hhandles.again prio sender rfl
      have hcount : (b.handleTopActive env sender).inputCount i =
          b.inputCount i := by
        obtain ⟨t, hactive⟩ := handleTopActive_eq env sender b
        rw [hactive]
        rfl
      have hsize : ((b.handleTopActive env sender).inputQueues i).itemsSize =
        (b.inputQueues i).itemsSize := congrArg InputCount.itemSize hcount
      refine IsFed.more (fun _ => ?_) (hnone (by rintro ⟨_, _, ⟨⟩⟩))
      rw [hcount, hsize]
      exact hb hlive
  | @callable key sender =>
      have hcalls : KeepsInput i b (b.attempt env.now env.called) :=
        attempt_rule env.called b (.refl i) .trans fun c hc s s' hcall =>
          call_keeps (hhandles.called c hc) hcall
      exact ((hb.keeps hcalls).keeps (.of_eq rfl rfl)).more
        (hnone (by rintro ⟨_, _, ⟨⟩⟩))
  | quiet hstate hdata =>
      by_cases hbuffer : ∃ j buff, m = .input j (.buffer buff)
      · -- A buffer that is not stored was sent to a done block.
        obtain ⟨j, buff, rfl⟩ := hbuffer
        have hdone : b.blockState = .done := by
          by_contra hlive
          simp only [enter, if_neg hlive] at hidle
          cases hidle
        exact fun hlive => absurd (hstate.trans hdone) hlive
      · have hcount :=
          congrArg (fun d : Data => (⟨d.itemsConsumed i, d.totalItemsConsumed i,
          d.numInputItemsRead i, (d.inputQueues i).enqueuedBytes,
          (d.inputQueues i).itemsSize, (d.inputQueues i).preloadBytes,
          d.inputTags i⟩ : InputCount)) hdata.data
        exact (hb.keeps (.of_eq hstate hcount)).more (hnone hbuffer)

/-- **Every handler** keeps the account. -/
theorem handler_fed (hplain : b.PlainInput i size)
    (hhandles : HandlesPlainly env i b m) (hi : i < b.numInputs)
    (hordered : b.TagsOrdered) (hb : b.IsFed i size received)
    (h : b.handler env m = .ok b') :
    b'.IsFed i size (received ++ messagesOn i m) := by
  by_cases htag : ∃ j tag, m = .input j (.tag tag)
  · obtain ⟨j, tag, rfl⟩ := htag
    rw [handler, Checked.pure_eq_ok] at h
    exact h ▸ handleInputTag_fed hb
  · cases htask : b.enter env m with
    | some store =>
        obtain ⟨b₀, b₁, rfl, hmain, hleave⟩ := handler_of_enter htask h
        have hstay := enter_tags htask
        have h₀ := enter_fed hb htask
        have h₁ := taskMain_fed hhandles.propagates h₀ (hstay.numInputs ▸ hi)
          (hstay.ordered hordered) hmain
        refine h₁.keeps ?_
        unfold leave at hleave
        split at hleave
        · split at hleave
          · exact markDone_keeps hleave
          · rw [Checked.pure_eq_ok] at hleave
            exact hleave ▸ .refl i b₁
        · rw [Checked.pure_eq_ok] at hleave
          exact hleave ▸ .refl i b₁
    | none => exact handled_fed hplain hhandles hi hb htask htag (handled h)

/-- **A change of the topology** that keeps the input. -/
theorem topology_fed {n o : Nat} {sender : Option Address}
    (hplain : b.PlainInput i size) (hi : i < n)
    (hb : b.blockState ≠ .done →
      ((b.resize env.now n o).inputCount i).Fed size received 0)
    (h : b.handleTopology env n o sender = .ok b') :
    b'.IsFed i size received := by
  simp only [handleTopology, Checked.bind_eq_ok, Checked.pure_eq_ok] at h
  obtain ⟨b₁, hrelease, b₂, hin, b₃, hout, rfl⟩ := h
  have hconnected : ¬ (n = 0 ∧ o = 0) := by omega
  have hreleased : b₁ = b.resize env.now n o := by
    have hrelease :
        (if n = 0 ∧ o = 0 then (b.resize env.now n o).markDone env.now
      else return b.resize env.now n o) = .ok b₁ := hrelease
    rw [if_neg hconnected, Checked.pure_eq_ok] at hrelease
    exact hrelease.symm
  subst hreleased
  -- The port is configured in its round.
  have h₂ := forRange_rule hin
    (P := fun k s =>
      (s.blockState ≠ .done → (s.inputCount i).Fed size received 0) ∧
      s.blockState = b.blockState ∧ s.inputConfigs = b.inputConfigs ∧
      i < s.numInputs ∧ (i < k → (s.inputQueues i).itemsSize = size))
    ⟨hb, rfl, rfl, hi, fun hi => absurd hi (Nat.not_lt_zero i)⟩
        fun k _ s s' hs hf => by
      obtain ⟨hfed, hstate, hconfigs, hports, hsize⟩ := hs
      have hplain' : s.PlainInput i size :=
        ⟨hconfigs ▸ hplain.itemSize, hconfigs ▸ hplain.noPreload⟩
      obtain ⟨hfed', hstate', hconfigs', hother, hown⟩ :=
        handleInputUpdate_fed hplain' hfed hf
      have hnum : s'.numInputs = s.numInputs :=
        congrArg Control.numInputs (handleInputUpdate_control hf)
      refine ⟨hfed', hstate'.trans hstate, hconfigs'.trans hconfigs,
        hnum ▸ hports, fun hik => ?_⟩
      by_cases heq : i = k
      · exact hown heq hports
      · exact (hother heq).trans (hsize (by omega))
  have hfed₂ : b₂.IsFed i size received :=
    fun hlive => ⟨h₂.2.2.2.2 hi, h₂.1 hlive⟩
  have h₃ : KeepsInput i b₂ b₃ := forRange_relates hout (.refl i) .trans
    fun k _ s s' hf => handleOutputUpdate_keeps hf
  exact (hfed₂.keeps h₃).keeps (acknowledge_keeps sender b₃)

/-! ### The port and the order of the tags -/

/-- Anything may arrive, and any queue may be handed to an output. -/
def anySupply : Supply where
  arrives := fun _ => True
  returns := fun _ => True
  queue := fun _ => True

theorem supplied_any (m : Message) : m.Supplied anySupply := by
  cases m with
  | input i message => cases message <;> trivial
  | output i message => cases message <;> trivial
  | _ => trivial

/-- The byte count of a port stays right. -/
theorem counted_of_steps {S : Supply} {p p' : InputPort} (hp : p.Counted)
    (h : Relation.ReflTransGen (InputPort.Step S now) p p') : p'.Counted := by
  induction h with
  | refl => exact hp
  | tail _ hstep ih =>
      cases hstep with
      | accumulate h => exact ih.accumulate h
      | push _ h => exact ih.push h
      | consume h => exact ih.consume h
      | updateHasMsg h =>
          unfold InputPort.updateHasMsg at h
          split at h
          · rw [Checked.pure_eq_ok] at h
            exact h ▸ ih
          · exact InputPort.update_eq_ok h ▸ ih
      | fail => exact ih
      | flush h => exact InputPort.update_eq_ok h ▸ rfl
      | updateConfig h =>
          obtain ⟨-, p₁, hpreload, rfl⟩ := InputPort.updateConfig_cases h
          have hpreloaded : p₁.Counted := by
            cases hpreload with
            | @more _ aux buff buffers _ _ _ hpush =>
                refine InputPort.Counted.push ?_ hpush
                exact ih
            | less _ hconsume =>
                refine InputPort.Counted.consume ?_ hconsume
                exact ih
            | same _ => exact ih
          exact hpreloaded

/-- The ports of a block count right, and its tags are sorted where nothing
changed. -/
structure Tidy (i : Nat) (b : BlockActor) : Prop where
  counted : (b.inputQueues i).Counted
  ordered : b.TagsOrdered

theorem handler_tidy (hb : b.Tidy i) (h : b.handler env m = .ok b') :
    b'.Tidy i := by
  have hhandled := handled h
  refine ⟨counted_of_steps hb.counted
    ((handled_ports (supplied_any m)
      (fun _ _ _ _ _ _ _ => trivial) hhandled).input i), ?_⟩
  cases htask : b.enter env m with
  | some store =>
      obtain ⟨b₀, b₁, rfl, hmain, hleave⟩ := handler_of_enter htask h
      exact (leave_tags hleave).ordered
        (taskMain_ordered ((enter_tags htask).ordered hb.ordered)
        hmain)
  | none =>
      by_cases htag : ∃ j tag, m = .input j (.tag tag)
      · obtain ⟨j, tag, rfl⟩ := htag
        rw [handler, Checked.pure_eq_ok] at h
        subst h
        unfold handleInputTag
        split
        · exact hb.ordered
        · intro k hk
          by_cases hkj : k = j
          · rw [hkj] at hk
            simp only [Function.update_self, Bool.true_eq_false] at hk
          · have hk : b.inputTagsChanged k = false := by
              simpa only [Function.update_of_ne hkj] using hk
            have hsorted := hb.ordered k hk
            simpa only [Function.update_of_ne hkj] using hsorted
      · by_cases hactive : ∃ prio sender, m = .top .active prio sender
        · obtain ⟨prio, sender, rfl⟩ := hactive
          rw [handler, Checked.pure_eq_ok] at h
          have hdata : b'.tagData = b.tagData := by
            obtain ⟨t, hactive⟩ := handleTopActive_eq env sender b
            rw [← h, hactive]
            rfl
          intro k hk
          have hchanged : b'.inputTagsChanged = b.inputTagsChanged :=
            congrArg TagData.inputTagsChanged hdata
          have htags : b'.inputTags = b.inputTags :=
            congrArg TagData.inputTags hdata
          rw [htags]
          exact hb.ordered k (hchanged ▸ hk)
        · exact (handled_tags hhandled htask (fun j tag hm => htag ⟨j, tag, hm⟩)
            fun prio sender hm => hactive ⟨prio, sender, hm⟩).ordered hb.ordered

theorem topology_tidy {n o : Nat} {sender : Option Address} (hb : b.Tidy i)
    (h : b.handleTopology env n o sender = .ok b') : b'.Tidy i := by
  have hports := topology_ports (S := anySupply) h
  have hresized : (b.resize env.now n o).Tidy i := by
    refine ⟨?_, fun k hk => ?_⟩
    · show (if i < b.numInputs then b.inputQueues i
          else .resized b.initTime env.now).Counted
      split
      · exact hb.counted
      · rfl
    · show SortedTags (if k < b.numInputs then b.inputTags k else [])
      split
      · rename_i hold
        have hk : (if k < b.numInputs then b.inputTagsChanged k
            else false) = false := hk
        rw [if_pos hold] at hk
        exact hb.ordered k hk
      · exact List.Pairwise.nil
  refine ⟨counted_of_steps hresized.counted (hports.input i), ?_⟩
  simp only [handleTopology, Checked.bind_eq_ok, Checked.pure_eq_ok] at h
  obtain ⟨b₁, hrelease, b₂, hin, b₃, hout, rfl⟩ := h
  have h₁ : TagsStay (b.resize env.now n o) b₁ := by
    unfold releaseUnconnected at hrelease
    split at hrelease
    · exact .markDone hrelease
    · rw [Checked.pure_eq_ok] at hrelease
      exact hrelease ▸ .refl _
  have h₂ : TagsStay b₁ b₂ := forRange_relates hin .refl .trans
    fun k _ s s' hf => handleInputUpdate_tags hf
  have h₃ : TagsStay b₂ b₃ := forRange_relates hout .refl .trans
    fun k _ s s' hf => handleOutputUpdate_tags hf
  exact (((h₁.trans h₂).trans h₃).reply sender).ordered hresized.ordered

/-! ### Any event -/

/-- **What a stream of plain items asks for** in an event: the input stays
connected, its items have that size, there is no preload, and a handler handles
its message plainly. -/
structure Streams (i size : Nat) (b : BlockActor) (e : BlockEvent) : Prop where
  connected : i < b.numInputs
  plain : b.PlainInput i size
  event : match e with
    | .actor (.thread _) => True
    | .actor (.handle env) => ∀ m ∈ b.mailbox.head?, HandlesPlainly env i b m
    | .topology _ numInputs _ _ => i < numInputs

/-- **The input follows its stream.** -/
structure Follows (i size : Nat) (received : List InputMessage)
    (b : BlockActor) : Prop where
  tidy : b.Tidy i
  fed : b.IsFed i size received

theorem Follows.receive (m : Message) (rest : List Message)
    (hb : b.Follows i size received) :
    (b.receive m rest).Follows i size received :=
  ⟨⟨hb.tidy.counted, hb.tidy.ordered⟩, hb.fed⟩

/-- **Every event** keeps the account. -/
theorem change_follows {e : BlockEvent} (hstreams : b.Streams i size e)
    (hb : b.Follows i size received) (h : b.change e = .ok b') :
    b'.Follows i size (received ++ b.handledOn i e) := by
  obtain ⟨hi, hplain, hevent⟩ := hstreams
  cases e with
  | topology env n o sender =>
      refine ⟨topology_tidy hb.tidy h, ?_⟩
      show b'.IsFed i size (received ++ [])
      rw [List.append_nil]
      refine topology_fed hplain hevent (fun hlive => ?_) h
      have hcount : (b.resize env.now n o).inputCount i = b.inputCount i := by
        simp only [inputCount, resize, if_pos hi]
      rw [hcount]
      exact (hb.fed hlive).2
  | actor event =>
      rcases next_cases h with ⟨thread, rfl, rfl⟩ | ⟨env, rfl, hmail, rfl⟩ |
        ⟨env, m, rest, b₁, rfl, hmail, hhandler, rfl⟩
      · have hmoves : PortsMove anySupply 0 b (b.threadStep thread) :=
          threadStep_ports b thread
        have hports := hmoves.input i
        show (b.threadStep thread).Follows i size (received ++ [])
        rw [List.append_nil]
        exact ⟨⟨counted_of_steps hb.tidy.counted hports,
          (threadStep_tags b thread).ordered hb.tidy.ordered⟩,
          hb.fed.keeps (threadStep_keeps b thread)⟩
      · simp only [handledOn, hmail, List.append_nil]
        exact hb
      · simp only [handledOn, hmail]
        have hhandles := hevent m (by rw [hmail]; rfl)
        have hreceived := hb.receive m rest
        have hsame : HandlesPlainly env i (b.receive m rest) m :=
          ⟨hhandles.propagates, hhandles.called, hhandles.again⟩
        have hplain' : (b.receive m rest).PlainInput i size :=
          ⟨hplain.itemSize, hplain.noPreload⟩
        have htidy := handler_tidy hreceived.tidy hhandler
        have hfed :=
          handler_fed hplain' hsame hi hreceived.tidy.ordered
            hreceived.fed hhandler
        exact ⟨⟨htidy.counted, htidy.ordered⟩, hfed⟩

theorem topology_configs {n o : Nat} {sender : Option Address}
    (h : b.handleTopology env n o sender = .ok b') :
    b'.inputConfigs = b.inputConfigs := by
  simp only [handleTopology, Checked.bind_eq_ok, Checked.pure_eq_ok] at h
  obtain ⟨b₁, hrelease, b₂, hin, b₃, hout, rfl⟩ := h
  have h₁ : b₁.inputConfigs = b.inputConfigs := by
    unfold releaseUnconnected at hrelease
    split at hrelease
    · exact (markDone_configs hrelease).trans rfl
    · rw [Checked.pure_eq_ok] at hrelease
      exact hrelease ▸ rfl
  have h₂ : b₂.inputConfigs = b₁.inputConfigs := forRange_rule hin
    (P := fun _ s => s.inputConfigs = b₁.inputConfigs) rfl
    fun k _ s s' hs hf => by
      unfold handleInputUpdate at hf
      split at hf
      · rw [Checked.pure_eq_ok] at hf
        exact hf ▸ hs
      · simp only [Checked.bind_eq_ok, Prod.exists] at hf
        obtain ⟨p, memory, -, hf⟩ := hf
        exact (updateInputAvail_configs hf).trans hs
  have h₃ : b₃.inputConfigs = b₂.inputConfigs := forRange_rule hout
    (P := fun _ s => s.inputConfigs = b₂.inputConfigs) rfl
    fun k _ s s' hs hf => by
      unfold handleOutputUpdate at hf
      split at hf
      · rw [Checked.pure_eq_ok] at hf
        exact hf ▸ hs
      · simp only [Checked.bind_eq_ok, Checked.pure_eq_ok] at hf
        obtain ⟨p, -, rfl⟩ := hf
        exact hs
  exact ((acknowledge_configs sender b₃).trans h₃).trans (h₂.trans h₁)

theorem topology_numPorts {n o : Nat} {sender : Option Address}
    (h : b.handleTopology env n o sender = .ok b') : b'.numPorts = (n, o) := by
  simp only [handleTopology, Checked.bind_eq_ok, Checked.pure_eq_ok] at h
  obtain ⟨b₁, hrelease, b₂, hin, b₃, hout, rfl⟩ := h
  have h₁ : b₁.numPorts = (n, o) := by
    unfold releaseUnconnected at hrelease
    split at hrelease
    · exact markDone_numPorts hrelease
    · rw [Checked.pure_eq_ok] at hrelease
      exact hrelease ▸ rfl
  have h₂ : b₂.control = b₁.control :=
    forRange_control hin fun k s s' hf => handleInputUpdate_control hf
  have h₃ : b₃.control = b₂.control :=
    forRange_control hout fun k s s' hf => handleOutputUpdate_control hf
  rw [acknowledge_numPorts, numPorts_of_control (h₃.trans h₂), h₁]

/-- Only the topology changes the number of ports. -/
theorem next_numPorts {event : ActorEvent}
    (h : b.change (.actor event) = .ok b') : b'.numPorts = b.numPorts := by
  rcases next_cases h with ⟨thread, rfl, rfl⟩ | ⟨env, rfl, hempty, rfl⟩ |
    ⟨env, m, rest, b₁, rfl, hcons, hhandler, rfl⟩
  · have hmoves : Moves (fun _ => True) b (b.threadStep thread) :=
      .single (.thread b trivial)
    exact moves_numPorts hmoves
  · rfl
  · have hsame : b₁.numPorts = (b.receive m rest).numPorts :=
      handled_numPorts (handled hhandler)
    exact hsame

/-- **A block that has started** has received nothing. -/
theorem Started.follows (hb : Started b) (hi : i < b.numInputs)
    (hplain : b.PlainInput i size) : b.Follows i size [] := by
  obtain ⟨initTime, memory, inputConfigs, outputConfigs, env, n, o, h⟩ := hb
  have hn : b.numInputs = n := congrArg Prod.fst (topology_numPorts h)
  have hconfigs := topology_configs h
  have hplain' : ({ made initTime memory with inputConfigs, outputConfigs } :
      BlockActor).PlainInput i size :=
    ⟨hconfigs ▸ hplain.itemSize, hconfigs ▸ hplain.noPreload⟩
  have htidy :
      ({ made initTime memory with inputConfigs, outputConfigs } :
        BlockActor).Tidy i :=
    ⟨rfl, fun k _ => List.Pairwise.nil⟩
  refine ⟨topology_tidy htidy h,
    topology_fed hplain' (hn ▸ hi) (fun _ => ?_) h⟩
  exact ⟨by simp [inputCount, resize, made, InputPort.resized], rfl,
    by simp [inputCount, resize, made, InputPort.resized, streamBytes], by simp⟩

end Events

end BlockActor

end Gras
