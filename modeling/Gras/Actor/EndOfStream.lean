import Gras.Actor.SuspendedInputRuns

/-!
# The end of the streams into a block

`handle_input_check` notes that an input is done and asks whether it is
finished, after one more attempt at the task.  An input is finished with the
inputs that it `Concerns`: a sync input with itself, an asynchronous one with
all.

What a task does to that: it leaves alone which inputs are done
(`taskMain_ends`), and an input that is not available after it was `Drained` in
it.
-/

namespace Gras

/-- The thread configures no input. -/
def ThreadEvent.KeepsInputs : ThreadEvent → Prop
  | configureInput _ _ => False
  | _ => True

namespace InputPort

section Ports

variable {p p' : InputPort} {now : Int}

theorem unstitch_eq_nil {q : List SBuffer} (h : unstitch q = []) : q = [] := by
  unfold unstitch at h
  split at h
  · split at h <;> cases h
  · exact h

/-- What is no longer there to work on has been spent. -/
theorem Spent.of_consume {items : Nat} (hitems : items ≠ 0)
    (h : p.consume now items = .ok p') (hnone : p'.hasInputBufs = false) :
    p.Spent items := by
  rw [Spent, if_neg hitems]
  rcases hasInputBufs_eq_false_iff.mp hnone with hnil | hbit
  · obtain ⟨-, -, -, -, front, rest, -, -, hqueue⟩ := consume_cases h
    rw [hnil] at hqueue
    exact .inr (unstitch_eq_nil hqueue.symm)
  · rw [consume_bit h] at hbit
    exact .inl (Nat.lt_of_not_le (of_decide_eq_false hbit))

theorem dropStitched_ne_nil {q : List SBuffer} (h : q ≠ []) :
    dropStitched q ≠ [] := by
  unfold dropStitched
  split
  · split <;> exact List.cons_ne_nil _ _
  · exact List.cons_ne_nil _ _
  · exact absurd rfl h

/-- A buffer that reaches the reserve makes the port ready. -/
theorem hasInputBufs_of_push {buffer : SBuffer} (h : p.push now buffer = .ok p')
    (hreach : if buffer.length = 0 then p.hasInputBufs = true
      else p.reserveBytes ≤ p.enqueuedBytes + buffer.length) :
    p'.hasInputBufs = true := by
  by_contra hnone
  have hnone := hasInputBufs_eq_false_iff.mp (Bool.eq_false_iff.mpr hnone)
  obtain ⟨-, -, -, hqueue⟩ := push_cases h
  simp only [push, Checked.bind_eq_ok] at h
  obtain ⟨-, -, h⟩ := h
  split at h
  · rename_i hlength
    rw [if_pos hlength] at hreach
    rw [Checked.pure_eq_ok] at h
    subst h
    have hsame : p.hasInputBufs = false := by
      refine hasInputBufs_eq_false_iff.mpr ?_
      simpa only [grown_items] using hnone
    rw [hsame] at hreach
    cases hreach
  · rename_i hlength
    rw [if_neg hlength] at hreach
    simp only [Checked.bind_eq_ok] at h
    obtain ⟨p₁, hupdate, h⟩ := h
    have hbit : p'.bit = true := by
      have hbit₁ : p₁.bit =
          decide (p.reserveBytes ≤ p.enqueuedBytes + buffer.length) := by
        rw [update_eq_ok hupdate]
        rfl
      have hsame : p'.bit = p₁.bit := by
        split at h
        · rw [Checked.pure_eq_ok] at h
          rw [h]
        · rw [Checked.pure_eq_ok] at h
          rw [← h]
      rw [hsame, hbit₁]
      exact decide_eq_true hreach
    rcases hnone with hnil | hbit'
    · rcases hqueue with ⟨hzero, -⟩ | ⟨-, hqueue⟩
      · exact hlength hzero
      · refine absurd (hqueue.symm.trans hnil)
          (dropStitched_ne_nil fun hloop => ?_)
        have hlen := congrArg List.length hloop
        rw [stitchLoop_length] at hlen
        simp at hlen
    · rw [hbit] at hbit'
      cases hbit'

end Ports

end InputPort

namespace BlockActor

/-! ## The configurations of the inputs -/

section Configs

variable {b b' : BlockActor} {env : Env} {now : Int} {i o : Nat}

theorem updateInputAvail_configs (h : b.updateInputAvail now i = .ok b') :
    b'.inputConfigs = b.inputConfigs := by
  simp only [updateInputAvail, Checked.bind_eq_ok, Checked.pure_eq_ok] at h
  obtain ⟨p, -, rfl⟩ := h
  rfl

theorem prepare_configs (h : b.prepare env = .ok b') :
    b'.inputConfigs = b.inputConfigs := by
  simp only [prepare, Checked.bind_eq_ok, Prod.exists] at h
  obtain ⟨b₁, l, hin, hout⟩ := h
  have h₁ : b₁.inputConfigs = b.inputConfigs := forRange_rule hin
    (P := fun _ s => s.1.inputConfigs = b.inputConfigs) rfl
    fun k _ s s' hs hf => by
      have hsort : (s.1.sortTags k).inputConfigs = s.1.inputConfigs := by
        unfold sortTags
        split <;> rfl
      simp only [prepareInput, Checked.bind_eq_ok, Prod.exists] at hf
      obtain ⟨-, -, buff, p, memory, -, hf⟩ := hf
      split at hf
      · simp only [Checked.bind_eq_ok, Checked.pure_eq_ok] at hf
        obtain ⟨q, -, rfl⟩ := hf
        exact hsort.trans hs
      · rw [Checked.pure_eq_ok] at hf
        subst hf
        exact hsort.trans hs
  refine (forRange_rule hout
    (P := fun _ s => s.inputConfigs = b₁.inputConfigs) rfl
    fun k _ s s' hs hf => ?_).trans h₁
  simp only [prepareOutput, Checked.bind_eq_ok, Checked.pure_eq_ok,
    Prod.exists] at hf
  obtain ⟨-, -, buff, p, -, -, -, rfl⟩ := hf
  exact hs

theorem flushOutput_configs (h : b.flushOutput now o = .ok b') :
    b'.inputConfigs = b.inputConfigs := by
  unfold flushOutput at h
  split at h
  · rw [Checked.pure_eq_ok] at h
    exact h ▸ rfl
  · simp only [Checked.bind_eq_ok, Prod.exists] at h
    obtain ⟨buff, p, -, h⟩ := h
    split at h
    · rw [Checked.pure_eq_ok] at h
      exact h ▸ rfl
    · simp only [Checked.bind_eq_ok, Checked.pure_eq_ok] at h
      obtain ⟨q, -, rfl⟩ := h
      rfl

theorem markDone_configs (h : b.markDone now = .ok b') :
    b'.inputConfigs = b.inputConfigs := by
  rcases markDone_cases h with ⟨-, rfl⟩ | ⟨-, b₁, hout, -, b₂, hin, rfl⟩
  · exact rfl
  · have h₁ : b₁.inputConfigs = b.inputConfigs := forRange_rule hout
      (P := fun _ s => s.inputConfigs = b.inputConfigs) rfl
      fun o _ s s' hs hf => (flushOutput_configs hf).trans hs
    have h₂ : b₂.inputConfigs = b₁.inputConfigs := forRange_rule hin
      (P := fun _ s => s.inputConfigs = b₁.inputConfigs) rfl
      fun j _ s s' hs hf => by
        simp only [flushInput, Checked.bind_eq_ok, Checked.pure_eq_ok] at hf
        obtain ⟨p, -, rfl⟩ := hf
        exact hs
    exact h₂.trans h₁

theorem threadStep_configs {event : ThreadEvent} (hkeeps : event.KeepsInputs) :
    (b.threadStep event).inputConfigs = b.inputConfigs := by
  cases event with
  | post m => rw [threadStep]; split <;> rfl
  | prepare m => rw [threadStep]; split <;> rfl
  | send k => rw [threadStep]; split <;> rfl
  | configureInput j config => exact absurd hkeeps id
  | _ => rfl

theorem taskKicker_configs (b : BlockActor) :
    b.taskKicker.inputConfigs = b.inputConfigs := by
  unfold taskKicker
  split <;> rfl

theorem produce_configs {items : Nat} (h : b.produce o items = .ok b') :
    b'.inputConfigs = b.inputConfigs := by
  simp only [produce, Checked.bind_eq_ok, Checked.pure_eq_ok] at h
  obtain ⟨p, -, rfl⟩ := h
  rfl

/-- **No call configures an input** when the threads do not. -/
theorem call_configs {c : Call} (hc : CallsWithin ThreadEvent.KeepsInputs [c])
    (h : b.call now c = .ok b') : b'.inputConfigs = b.inputConfigs := by
  cases c with
  | consume j items =>
      simp only [call, Checked.bind_eq_ok, Checked.pure_eq_ok] at h
      obtain ⟨-, -, rfl⟩ := h
      rfl
  | produce j items =>
      simp only [call, Checked.bind_eq_ok] at h
      obtain ⟨-, -, h⟩ := h
      exact produce_configs h
  | popInputMsg j =>
      rw [call, Checked.pure_eq_ok, popInputMsg] at h
      subst h
      split <;> rfl
  | markInputFail j fresh =>
      simp only [call, inputFail] at h
      split at h
      · simp only [Checked.bind_eq_ok, Checked.pure_eq_ok, Prod.exists] at h
        obtain ⟨p, memory, -, rfl⟩ := h
        exact taskKicker_configs _
      · split at h
        · exact markDone_configs h
        · split at h
          · simp at h
          · rw [Checked.pure_eq_ok] at h
            exact h ▸ rfl
  | markOutputFail j =>
      simp only [call, outputFail, Checked.bind_eq_ok, Prod.exists] at h
      obtain ⟨buff, p, -, h⟩ := h
      split at h
      · simp at h
      · rw [Checked.pure_eq_ok] at h
        exact h ▸ rfl
  | markDone => exact markDone_configs h
  | getInputBuffer j fresh =>
      simp only [call, getInputBuffer, Checked.bind_eq_ok, Checked.pure_eq_ok,
        Prod.exists] at h
      obtain ⟨buff, p, memory, -, rfl⟩ := h
      rfl
  | getOutputBuffer j =>
      simp only [call, storeLength, Checked.bind_eq_ok, Checked.pure_eq_ok,
        Prod.exists] at h
      obtain ⟨buff, p, -, rfl⟩ := h
      rfl
  | popOutputBuffer j numBytes =>
      simp only [call, storeLength, Checked.bind_eq_ok, Checked.pure_eq_ok,
        Prod.exists] at h
      obtain ⟨buff, p, -, rfl⟩ := h
      rfl
  | postOutputBuffer j buffer =>
      simp only [call, postOutputBuffer, Checked.bind_eq_ok] at h
      obtain ⟨p, -, -, -, -, -, h⟩ := h
      exact (produce_configs h).trans rfl
  | thread event =>
      rw [call, Checked.pure_eq_ok] at h
      exact h ▸ threadStep_configs (hc event List.mem_cons_self)
  | _ =>
      rw [call, Checked.pure_eq_ok] at h
      exact h ▸ rfl

/-- One of the calls of a list. -/
theorem CallsWithin.mem {ok : ThreadEvent → Prop} {cs : List Call}
    (hcs : CallsWithin ok cs) {c : Call} (hc : c ∈ cs) :
    CallsWithin ok [c] := by
  intro event hevent
  rw [List.mem_singleton] at hevent
  exact hcs event (hevent ▸ hc)

theorem finishInput_configs (henv : env.WorkWithin ThreadEvent.KeepsInputs)
    (h : b.finishInput env i = .ok b') : b'.inputConfigs = b.inputConfigs := by
  simp only [finishInput, Checked.bind_eq_ok, Checked.pure_eq_ok] at h
  obtain ⟨b₁, htags, b₂, hbuffs, b₃, havail, rfl⟩ := h
  have h₁ : b₁.inputConfigs = b.inputConfigs := by
    rcases trimTags_cases htags with ⟨-, rfl⟩ | ⟨-, b₀, hpass, rfl⟩
    · rfl
    · exact passTags_rule hpass
        (R := fun s s' => s'.inputConfigs = s.inputConfigs)
        (fun _ => rfl) (fun h h' => h'.trans h) (fun _ _ _ => rfl)
        fun overload ho c hc s s' hcall =>
          call_configs (CallsWithin.mem (henv.2 overload ho i) hc) hcall
  have h₂ : b₂.inputConfigs = b₁.inputConfigs := by
    unfold trimBuffs at hbuffs
    split at hbuffs
    · rw [Checked.pure_eq_ok] at hbuffs
      exact hbuffs ▸ rfl
    · simp only [Checked.bind_eq_ok, Checked.pure_eq_ok] at hbuffs
      obtain ⟨p, -, rfl⟩ := hbuffs
      rfl
  exact (updateInputAvail_configs havail).trans (h₂.trans h₁)

theorem finishOutput_configs (h : b.finishOutput now o = .ok b') :
    b'.inputConfigs = b.inputConfigs := by
  unfold finishOutput at h
  split at h
  · rw [Checked.pure_eq_ok] at h
    exact h ▸ rfl
  · simp only [Checked.bind_eq_ok, Checked.pure_eq_ok, Prod.exists] at h
    obtain ⟨buff, p, -, rfl⟩ := h
    split <;> rfl

/-- **A task configures no input.** -/
theorem taskMain_configs (henv : env.WorkWithin ThreadEvent.KeepsInputs)
    (h : b.taskMain env = .ok b') : b'.inputConfigs = b.inputConfigs := by
  cases hallowed : b.isWorkAllowed with
  | false => rw [taskMain_idle hallowed h]
  | true =>
      obtain ⟨b₁, b₂, b₃, hprepare, hwork, hfinish, rfl⟩ :=
        taskMain_parts hallowed h
      simp only [taskWork, Checked.bind_eq_ok, Checked.pure_eq_ok] at hwork
      obtain ⟨b₀, hcalls, rfl⟩ := hwork
      simp only [finish, Checked.bind_eq_ok] at hfinish
      obtain ⟨b₄, hin, hout⟩ := hfinish
      have h₁ := prepare_configs hprepare
      have h₀ : b₀.inputConfigs = b₁.atCall.inputConfigs := calls_rule hcalls
        (R := fun s s' => s'.inputConfigs = s.inputConfigs) (fun _ => rfl)
        (fun h h' => h'.trans h)
        fun c hc s s' hcall => call_configs (CallsWithin.mem henv.1 hc) hcall
      have h₄ : b₄.inputConfigs = b₀.inputConfigs := forRange_rule hin
        (P := fun _ s => s.inputConfigs = b₀.inputConfigs) rfl
        fun j _ s s' hs hf => (finishInput_configs henv hf).trans hs
      have h₃ : b₃.inputConfigs = b₄.inputConfigs := forRange_rule hout
        (P := fun _ s => s.inputConfigs = b₄.inputConfigs) rfl
        fun o _ s s' hs hf => (finishOutput_configs hf).trans hs
      calc b₃.taskKicker.inputConfigs = b₃.inputConfigs := taskKicker_configs b₃
        _ = b₄.inputConfigs := h₃
        _ = b₀.inputConfigs := h₄
        _ = b₁.inputConfigs := h₀
        _ = b.inputConfigs := h₁

end Configs

/-! ## What a task does to the end of a stream -/

/-- The inputs that have to be done for input `i` to be finished. -/
def Concerns (b : BlockActor) (i j : Nat) : Prop :=
  if (b.inputConfigs i).reserveItems ≠ 0 then j = i else j < b.numInputs

/-- There is a bit of both kinds for each input. -/
structure EndsSized (b : BlockActor) : Prop where
  done : b.inputsDone.size = b.numInputs
  available : b.inputsAvailable.size = b.numInputs

/-- A check waits that will ask whether input `i` is finished. -/
def CheckWaits (b : BlockActor) (i : Nat) : Prop :=
  ∃ j, b.Concerns i j ∧ .input j .check ∈ b.mailbox

/-- **The end of a stream is noticed**: for a finished input of a block that is
not done, a check waits. -/
def EndsNoticed (b : BlockActor) : Prop :=
  b.blockState ≠ .done → ∀ i < b.numInputs, b.inputFinished i → b.CheckWaits i

/-- When its buffers are trimmed, nothing of the input will be left. -/
def Drained (env : Env) (b : BlockActor) (j : Nat) : Prop :=
  ∀ t ∈ b.atTrim env j,
    t.inputMsgs j = [] ∧ (t.inputQueues j).Spent (t.numInputItemsRead j)

/-- What ends are made of stays, and no check gets lost. -/
structure SameEnds (b b' : BlockActor) : Prop where
  numInputs : b'.numInputs = b.numInputs
  configs : b'.inputConfigs = b.inputConfigs
  done : b'.inputsDone.size = b.inputsDone.size ∧
    ∀ i, b'.inputsDone.bit i = true → b.inputsDone.bit i = true
  mailbox : ∀ m ∈ b.mailbox, m ∈ b'.mailbox
  state : b'.blockState ≠ .done → b.blockState ≠ .done

section Ends

variable {ok : ThreadEvent → Prop} {b b' b'' : BlockActor}
  {env : Env} {now : Int}
  {i j k n : Nat}

theorem SameEnds.refl (b : BlockActor) : SameEnds b b :=
  ⟨rfl, rfl, ⟨rfl, fun _ => id⟩, fun _ => id, id⟩

theorem SameEnds.trans (h : SameEnds b b') (h' : SameEnds b' b'') :
    SameEnds b b'' := by
  constructor
  · exact h'.numInputs.trans h.numInputs
  · exact h'.configs.trans h.configs
  · exact ⟨h'.done.1.trans h.done.1, fun i hi => h.done.2 i (h'.done.2 i hi)⟩
  · exact fun m hm => h'.mailbox m (h.mailbox m hm)
  · exact fun hlive => h.state (h'.state hlive)

/-- Nothing of the control changes. -/
theorem SameEnds.of_control (hcontrol : b'.control = b.control)
    (hconfigs : b'.inputConfigs = b.inputConfigs) : SameEnds b b' := by
  have hdone : b'.inputsDone = b.inputsDone :=
    congrArg Control.inputsDone hcontrol
  have hmail : b'.mailbox = b.mailbox := congrArg Control.mailbox hcontrol
  have hstate : b'.blockState = b.blockState :=
    congrArg Control.blockState hcontrol
  refine ⟨congrArg Control.numInputs hcontrol, hconfigs, ?_,
    fun m hm => hmail ▸ hm, ?_⟩
  · exact ⟨by rw [hdone], fun i hi => hdone ▸ hi⟩
  · exact fun hlive => hstate ▸ hlive

/-- **Moves of the control** change nothing of which inputs are done, and no
message of the mailbox is lost. -/
theorem Moves.ends (h : Moves ok b b') : b'.inputsDone = b.inputsDone ∧
    (∀ m ∈ b.mailbox, m ∈ b'.mailbox) ∧
      (b'.blockState ≠ .done → b.blockState ≠ .done) := by
  refine h.rule (P := fun s t => t.inputsDone = s.inputsDone ∧
      (∀ m ∈ s.mailbox, m ∈ t.mailbox) ∧
      (t.blockState ≠ .done → s.blockState ≠ .done))
    (fun _ => ⟨rfl, fun _ => id, id⟩) (fun h h' => ⟨h'.1.trans h.1,
      fun m hm => h'.2.1 m (h.2.1 m hm), fun hlive => h.2.2 (h'.2.2 hlive)⟩)
        fun s t hmove => ?_
  cases hmove with
  | quiet hcontrol =>
      have hmail : t.mailbox = s.mailbox := congrArg Control.mailbox hcontrol
      have hstate : t.blockState = s.blockState :=
        congrArg Control.blockState hcontrol
      exact ⟨congrArg Control.inputsDone hcontrol, fun m hm => hmail ▸ hm,
        fun hlive => hstate ▸ hlive⟩
  | own hown => exact ⟨rfl, fun m hm => List.mem_append_left _ hm, id⟩
  | @thread event hevent =>
      cases event with
      | post m =>
          rw [threadStep]
          split
          · exact ⟨rfl, fun _ => id, id⟩
          · exact ⟨rfl, fun m hm => List.mem_append_left _ hm, id⟩
      | prepare m => rw [threadStep]; split <;> exact ⟨rfl, fun _ => id, id⟩
      | send l =>
          rw [threadStep]
          split
          · exact ⟨rfl, fun _ => id, id⟩
          · exact ⟨rfl, fun m hm => List.mem_append_left _ hm, id⟩
      | _ => exact ⟨rfl, fun _ => id, id⟩
  | done hdone =>
      have hstate := markDone_blockState hdone
      rcases markDone_control hdone with ⟨-, rfl⟩ | ⟨-, hcontrol⟩
      · exact ⟨rfl, fun _ => id, id⟩
      · have hmail : t.mailbox = s.mailbox := congrArg Control.mailbox hcontrol
        exact ⟨congrArg Control.inputsDone hcontrol, fun m hm => hmail ▸ hm,
          fun hlive => absurd hstate hlive⟩

/-- The same when the configurations of the inputs stay. -/
theorem Moves.sameEnds (h : Moves ok b b')
    (hconfigs : b'.inputConfigs = b.inputConfigs) :
    SameEnds b b' := by
  obtain ⟨hdone, hmail, hstate⟩ := h.ends
  exact ⟨h.ports.1, hconfigs, ⟨by rw [hdone], fun i hi => hdone ▸ hi⟩,
    hmail, hstate⟩

theorem SameEnds.concerns (h : SameEnds b b') :
    b'.Concerns i j ↔ b.Concerns i j := by
  unfold Concerns
  rw [h.configs, h.numInputs]

theorem SameEnds.checkWaits (h : SameEnds b b') (hcheck : b.CheckWaits i) :
    b'.CheckWaits i := by
  obtain ⟨j, hj, hwaits⟩ := hcheck
  exact ⟨j, h.concerns.mpr hj, h.mailbox _ hwaits⟩

/-- An input concerns itself. -/
theorem concerns_self (hi : i < b.numInputs) : b.Concerns i i := by
  unfold Concerns
  split
  · rfl
  · exact hi

theorem Concerns.lt (h : b.Concerns i j) (hi : i < b.numInputs) :
    j < b.numInputs := by
  unfold Concerns at h
  split at h
  · rw [h]
    exact hi
  · exact h

/-- What concerns an input concerns whoever is concerned by it. -/
theorem Concerns.trans (hij : b.Concerns i j) (hi : i < b.numInputs)
    (hjk : b.Concerns j k) : b.Concerns i k := by
  have hk := hjk.lt (hij.lt hi)
  unfold Concerns at hij ⊢
  split at hij
  · subst hij
    rename_i hsync
    rw [if_pos hsync]
    rwa [Concerns, if_pos hsync] at hjk
  · rename_i hasync
    rw [if_neg hasync]
    exact hk

/-- **An input is finished** when all that concern it are done and not
available. -/
theorem inputFinished_iff (hsized : b.EndsSized) : b.inputFinished i ↔
    ∀ j, b.Concerns i j → b.inputsDone.bit j = true ∧
      b.inputsAvailable.bit j = false := by
  unfold inputFinished Concerns
  rw [BitSet.all_iff, BitSet.none_iff, hsized.done, hsized.available]
  by_cases hsync : (b.inputConfigs i).reserveItems = 0
  · simp only [hsync, ne_eq, not_true_eq_false, false_and, true_and,
      false_or, if_false]
    constructor
    · rintro ⟨hdone, hnone⟩ j hj
      exact ⟨hdone j hj, hnone j hj⟩
    · intro h
      exact ⟨fun j hj => (h j hj).1, fun j hj => (h j hj).2⟩
  · simp only [hsync, ne_eq, not_false_eq_true, true_and, false_and, or_false,
      if_true, forall_eq]

/-- **After the check of an input** nothing is finished that it concerns, unless
it is. -/
theorem inputFinished.of_concerns (hfinished : b.inputFinished i)
    (hsized : b.EndsSized) (hi : i < b.numInputs) (hij : b.Concerns i j) :
    b.inputFinished j := by
  rw [inputFinished_iff hsized] at hfinished ⊢
  intro k hk
  exact hfinished k (hij.trans hi hk)

/-! ### A task -/

/-- **An input that is not available** after it is finished was drained. -/
theorem finishInputs_drained (h : forRange (finishInput env) n b = .ok b')
    (hj : j < n) (hbit : b'.inputsAvailable.bit j = false) :
    b.Drained env j := by
  have hloop :=
    forRange_rule h (P := fun k s => forRange (finishInput env) k b = .ok s ∧
    (j < k → s.inputsAvailable.bit j = false → b.Drained env j))
    ⟨rfl, fun hlt => absurd hlt (Nat.not_lt_zero j)⟩ fun k _ s s' hs hf => by
      obtain ⟨hrun, hdrained⟩ := hs
      refine ⟨forRange_succ_eq_ok.mpr ⟨s, hrun, hf⟩, fun hlt hnone => ?_⟩
      obtain ⟨t, p, q, htags, hport, hupdate, hqueues, havailable⟩ :=
        finishInput_parts hf
      rw [havailable] at hnone
      by_cases hjk : j = k
      · subst hjk
        have hat := mem_atTrim hrun htags
        intro t' ht'
        cases Option.mem_unique hat ht'
        rw [BitSet.set_bit_self, Bool.or_eq_false_iff] at hnone
        refine ⟨by simpa using hnone.2, ?_⟩
        rcases hport with ⟨hread, rfl⟩ | ⟨hread, hconsume⟩
        · rw [InputPort.Spent, if_pos hread]
          exact hnone.1
        · exact .of_consume hread hconsume hnone.1
      · rw [BitSet.set_bit_of_ne hjk,
          (trimTags_stable (i := j) InputPort.stable_starved htags).2] at hnone
        exact hdrained (by omega) hnone
  exact hloop.2 hj hbit

/-- The work of a task, from which its ends are known. -/
theorem taskMain_ends (henv : env.WorkWithin ThreadEvent.KeepsInputs)
    (h : b.taskMain env = .ok b') : SameEnds b b' :=
  (taskMain_moves henv h).sameEnds (taskMain_configs henv h)

/-- What is left to do after the work loses no check. -/
theorem finish_ends (henv : env.WorkWithin ThreadEvent.KeepsInputs)
    (h : b.finish env = .ok b') :
    ∀ m ∈ b.mailbox, m ∈ b'.taskKicker.mailbox := by
  have hmoves := (finish_moves henv h).trans (taskKicker_moves b')
  exact hmoves.ends.2.1

/-- **A task that works** drains the inputs that are not available after it. -/
theorem taskMain_drains {b₁ b₂ : BlockActor} (hallowed : b.isWorkAllowed = true)
    (hprepare : b.prepare env = .ok b₁) (hwork : b₁.taskWork env = .ok b₂)
    (henv : env.WorkWithin ThreadEvent.KeepsInputs)
    (h : b.taskMain env = .ok b') (hj : j < b.numInputs)
    (hbit : b'.inputsAvailable.bit j = false) :
    b₂.Drained env j ∧ ∀ m ∈ b₂.mailbox, m ∈ b'.mailbox := by
  obtain ⟨b₁', b₂', b₃, hprepare', hwork', hfinish, rfl⟩ :=
    taskMain_parts hallowed h
  rw [hprepare] at hprepare'
  cases hprepare'
  rw [hwork] at hwork'
  cases hwork'
  have hports : b₂.numInputs = b.numInputs :=
    (taskWork_moves henv hwork).ports.1.trans
      (congrArg Control.numInputs (prepare_control hprepare))
  refine ⟨?_, finish_ends henv hfinish⟩
  simp only [finish, Checked.bind_eq_ok] at hfinish
  obtain ⟨b₄, hin, hout⟩ := hfinish
  rw [(finishOutputs_inputs hout).2] at hbit
  exact finishInputs_drained hin (hports ▸ hj) hbit

end Ends

end BlockActor

end Gras
