import Gras.Actor.EndOfStreamRuns

/-!
# Blocks that the polling loop stops

`TopBlock::wait()` of `top_block.cpp` looks at every block from its own thread.
A block of which some input has been done for longer than a grace period is
sent a `TopInertMessage`, whatever its other inputs are and whatever is left on
them.

An input is `Fed` while there is something to work on, or on its way; it is
`Dead` when it is not, and no producer is left that could feed it.  A block can
work again as long as it has no dead sync input (`CanWork`), and it is really
finished when there is nothing left that it could work on (`ReallyFinished`).

`TaskMeets.rule` says what a task does whose calls meet a condition: it only
`Spends` but for them.
-/

namespace Gras

/-! ## The loop body -/

/-- `TopInertMessage()`, sent by `wait()`: no copy of the priority token, and
the null address as its sender. -/
def Message.waitInert : Message := .top .inert false none

/-- `INPUT_DONE_GRACE_PERIOD`, in microseconds. -/
def inputDoneGracePeriod : Int := 100 * 1000

/-- The message brings an input something to work on. -/
def Message.feeds (j : Nat) : Message → Bool
  | input k (.msg _) => k == j
  | input k (.buffer _) => k == j
  | _ => false

/-- A message with a copy of the priority token feeds no input. -/
theorem Message.feeds_of_carriesToken {m : Message} {j : Nat}
    (h : m.carriesToken = true) : m.feeds j = false := by
  cases m with
  | input i message => cases h
  | _ => rfl

theorem Message.ne_waitInert_of_carriesToken {m : Message}
    (h : m.carriesToken = true) : m ≠ .waitInert := by
  rintro rfl
  cases h

/-- There is no buffer that the port would be ready for. -/
def InputPort.Dry (p : InputPort) : Prop :=
  p.queue.items = [] ∨ p.enqueuedBytes < p.reserveBytes

namespace BlockActor

/-- The grace period of a block with a done input is over. -/
def graceOver (now : Int) (b : BlockActor) : Bool :=
  b.inputsDone.size != 0 && b.inputsDone.any &&
    decide (b.firstInputDoneTime + inputDoneGracePeriod < now)

/-- `wait()` checks the done status of a block, when it does not debug a
lockup. -/
def checkDone (now : Int) (b : BlockActor) : BlockActor :=
  if b.graceOver now then b.sendSelf .waitInert else b

/-! ## What is left to do -/

/-- Nothing of the input is stored that could be worked on. -/
def Idle (j : Nat) (b : BlockActor) : Prop :=
  b.inputMsgs j = [] ∧ (b.inputQueues j).Dry

/-- There is something on the input to work on, or on its way to the input. -/
def Fed (j : Nat) (b : BlockActor) : Prop :=
  ¬ b.Idle j ∨ ∃ m ∈ b.mailbox, m.feeds j = true

/-- **The input is dead**: nothing is left to work on, and each of its producers
is done. -/
def Dead (producers : Nat → Nat) (j : Nat) (b : BlockActor) : Prop :=
  producers j = 0 ∧ ¬ b.Fed j

/-- **The block can work again**: it is not done, and each sync input can be
ready again. -/
def CanWork (producers : Nat → Nat) (b : BlockActor) : Prop :=
  b.blockState ≠ .done ∧
    ∀ j < b.numInputs, (b.inputConfigs j).reserveItems ≠ 0 →
    ¬ b.Dead producers j

/-- **The block is really finished**: no input has anything left that its work
could still consume, or a producer left that could let it work again. -/
def ReallyFinished (producers : Nat → Nat) (b : BlockActor) : Prop :=
  b.CanWork producers → ∀ i < b.numInputs, ¬ b.Fed i ∧ producers i = 0

/-- **The condition on the polling loop**: the block is done, or an input is
finished, as `handle_input_check` asks, and nothing more is on its way. -/
def EndReached (b : BlockActor) : Prop :=
  b.blockState = .done ∨ ∃ i < b.numInputs, ∀ j, b.Concerns i j →
    b.inputsDone.bit j = true ∧ ¬ b.Fed j

/-- Inputs that are done have no producer left. -/
def DoneTruly (producers : Nat → Nat) (b : BlockActor) : Prop :=
  ∀ i, b.inputsDone.bit i = true → producers i = 0

/-- **What holds while the message is on its way**: the block is really
finished.  The messages that other threads have prepared carry the priority
token, so they feed no input. -/
structure Stoppable (producers : Nat → Nat) (b : BlockActor) : Prop where
  truly : b.DoneTruly producers
  prepared : ∀ m ∈ b.holders.prepared, m.carriesToken = true
  finished : .waitInert ∈ b.mailbox → b.ReallyFinished producers

/-- **The condition on what others do**: the polling loop stops no other blocks;
and while its message is on its way, only producers that are not done feed the
block, and no input is configured anew. -/
def ThreadKeeps (producers : Nat → Nat) (b : BlockActor) : ThreadEvent → Prop
  | .post m => (m = .waitInert → b.EndReached) ∧
      (.waitInert ∈ b.mailbox → ∀ j, m.feeds j = true → 0 < producers j)
  | .configureInput _ _ => .waitInert ∉ b.mailbox
  | _ => True

/-- The condition on a call of user code. -/
def CallKeeps (producers : Nat → Nat) (b : BlockActor) : Call → Prop
  | .postInput i m =>
      .waitInert ∈ b.mailbox → ∀ j, (Message.input i m).feeds j = true →
      0 < producers j
  | .thread event => b.ThreadKeeps producers event
  | _ => True

end BlockActor

/-! ## Ports -/

namespace InputPort

section Ports

variable {p p' : InputPort} {now : Int}

theorem stable_dry : Stable Dry := by
  constructor
  · intro p p' hheld hp
    rcases hp with hnil | hless
    · refine .inl ?_
      rw [hheld.short (by simp [hnil]), hnil]
    · refine .inr ?_
      rwa [hheld.enqueuedBytes, hheld.reserveBytes]
  · intro p p' now hflush _
    exact .inl (flush_port hflush).1

/-- Consuming does not fill a port. -/
theorem Dry.consume {items : Nat} (hp : p.Dry)
    (h : p.consume now items = .ok p') : p'.Dry := by
  obtain ⟨-, hsame, -, henq, front, rest, hitems, -, -⟩ := consume_cases h
  rcases hp with hnil | hless
  · rw [hnil] at hitems
    cases hitems
  · refine .inr ?_
    rw [henq, hsame.reserveBytes]
    omega

theorem Dry.updateHasMsg {has : Bool} (hp : p.Dry)
    (h : p.updateHasMsg now has = .ok p') : p'.Dry := by
  unfold InputPort.updateHasMsg at h
  split at h
  · rw [Checked.pure_eq_ok] at h
    exact h ▸ hp
  · rw [update_eq_ok h]
    exact hp

end Ports

end InputPort

namespace BlockActor

/-! ## What a task does to the inputs -/

/-- **The block only spends**: its control and its configurations stay, and so
does an input that has nothing left. -/
structure Spends (b b' : BlockActor) : Prop where
  control : b'.control = b.control
  configs : b'.inputConfigs = b.inputConfigs
  idle : ∀ j, b.Idle j → b'.Idle j

section Spends

variable {ok : BlockActor → Call → Prop} {b b' b'' : BlockActor}
  {env : Env} {now : Int}
  {i j k o : Nat}

theorem Spends.refl (b : BlockActor) : Spends b b := ⟨rfl, rfl, fun _ => id⟩

theorem Spends.trans (h : Spends b b') (h' : Spends b' b'') : Spends b b'' :=
  ⟨h'.control.trans h.control, h'.configs.trans h.configs,
    fun j hj => h'.idle j (h.idle j hj)⟩

/-- The inputs stay. -/
theorem Spends.of_eq (hcontrol : b'.control = b.control)
    (hconfigs : b'.inputConfigs = b.inputConfigs)
    (hqueues : b'.inputQueues = b.inputQueues)
    (hmsgs : b'.inputMsgs = b.inputMsgs) : Spends b b' := by
  refine ⟨hcontrol, hconfigs, fun j hj => ?_⟩
  rw [Idle, hqueues, hmsgs]
  exact hj

/-- One port stays dry when it is. -/
theorem Idle.of_port {p : InputPort} (hj : b.Idle j)
    (hp : (b.inputQueues k).Dry → p.Dry)
    (hqueues : b'.inputQueues = Function.update b.inputQueues k p)
    (hmsgs : b'.inputMsgs j = b.inputMsgs j) : b'.Idle j := by
  refine ⟨hmsgs.trans hj.1, ?_⟩
  rw [hqueues]
  by_cases hjk : j = k
  · subst hjk
    rw [Function.update_self]
    exact hp hj.2
  · rw [Function.update_of_ne hjk]
    exact hj.2

theorem Spends.of_port {p : InputPort} (hcontrol : b'.control = b.control)
    (hconfigs : b'.inputConfigs = b.inputConfigs)
    (hp : (b.inputQueues k).Dry → p.Dry)
    (hqueues : b'.inputQueues = Function.update b.inputQueues k p)
    (hmsgs : b'.inputMsgs = b.inputMsgs) : Spends b b' :=
  ⟨hcontrol, hconfigs, fun j hj => hj.of_port hp hqueues (congrFun hmsgs j)⟩

/-- The inputs are held. -/
theorem Idle.held (hj : b.Idle j) (h : InputsHeld b b') : b'.Idle j :=
  ⟨(congrFun h.msgs j).trans hj.1, InputPort.stable_dry.held (h.ports j) hj.2⟩

theorem updateInputAvail_spends (h : b.updateInputAvail now i = .ok b') :
    Spends b b' := by
  have hcontrol := updateInputAvail_control h
  simp only [updateInputAvail, Checked.bind_eq_ok, Checked.pure_eq_ok] at h
  obtain ⟨p, hupdate, rfl⟩ := h
  exact .of_port hcontrol rfl (fun hp => hp.updateHasMsg hupdate) rfl rfl

theorem prepareInput_spends {l l' : Nat}
    (h : prepareInput env i (b, l) = .ok (b', l')) :
    Spends b b' := by
  have hcontrol := prepareInput_control h
  have hsort : Spends b (b.sortTags i) := by
    unfold sortTags
    split
    · exact .refl b
    · exact .of_eq rfl rfl rfl rfl
  simp only [prepareInput, Checked.bind_eq_ok, Prod.exists] at h
  obtain ⟨-, -, buff, p, memory, hfront, h⟩ := h
  have hp := InputPort.stable_dry.held (.front hfront)
  have hport : ∀ {s : BlockActor}, s.control = b.control →
      s.inputConfigs = (b.sortTags i).inputConfigs →
      s.inputQueues = Function.update (b.sortTags i).inputQueues i p →
      s.inputMsgs = (b.sortTags i).inputMsgs → Spends b s := by
    intro s hcontrol hconfigs hqueues hmsgs
    refine ⟨hcontrol, hconfigs.trans hsort.configs, fun j hj => ?_⟩
    exact (hsort.idle j hj).of_port hp hqueues (congrFun hmsgs j)
  split at h
  · simp only [Checked.bind_eq_ok, Checked.pure_eq_ok, Prod.mk.injEq] at h
    obtain ⟨q, -, rfl, -⟩ := h
    exact hport hcontrol rfl rfl rfl
  · simp only [Checked.pure_eq_ok, Prod.mk.injEq] at h
    obtain ⟨rfl, -⟩ := h
    exact hport hcontrol rfl rfl rfl

/-- **Before the work** nothing is stored. -/
theorem prepare_spends (h : b.prepare env = .ok b') : Spends b b' := by
  simp only [prepare, Checked.bind_eq_ok, Prod.exists] at h
  obtain ⟨b₁, l, hin, hout⟩ := h
  have h₁ : Spends b b₁ := forRange_rule hin (P := fun _ s => Spends b s.1)
    (.of_eq rfl rfl rfl rfl) fun i _ s s' hs hf =>
      hs.trans (prepareInput_spends hf)
  refine h₁.trans
    (forRange_rule hout (P := fun _ s => Spends b₁ s) (.of_eq rfl rfl rfl rfl)
    fun o _ s s' hs hf => hs.trans ?_)
  have hcontrol := prepareOutput_control hf
  simp only [prepareOutput, Checked.bind_eq_ok, Checked.pure_eq_ok,
    Prod.exists] at hf
  obtain ⟨-, -, buff, p, -, -, -, rfl⟩ := hf
  exact .of_eq hcontrol rfl rfl rfl

theorem trimMsgs_spends (i : Nat) (b : BlockActor) :
    Spends b (b.trimMsgs i) := by
  refine ⟨rfl, rfl, fun j hj => ⟨?_, hj.2⟩⟩
  show Function.update b.inputMsgs i
      ((b.inputMsgs i).drop (b.numInputMsgsRead i)) j = []
  by_cases hji : j = i
  · rw [hji, Function.update_self, ← hji, hj.1, List.drop_nil]
  · rw [Function.update_of_ne hji]
    exact hj.1

theorem trimBuffs_spends (h : b.trimBuffs now i = .ok b') : Spends b b' := by
  have hcontrol := trimBuffs_control h
  unfold trimBuffs at h
  split at h
  · rw [Checked.pure_eq_ok] at h
    exact h ▸ .refl b
  · simp only [Checked.bind_eq_ok, Checked.pure_eq_ok] at h
    obtain ⟨p, hconsume, rfl⟩ := h
    exact .of_port hcontrol rfl (fun hp => hp.consume hconsume) rfl rfl

theorem finishOutput_spends (h : b.finishOutput now o = .ok b') :
    Spends b b' := by
  have hcontrol := finishOutput_control h
  unfold finishOutput at h
  split at h
  · rw [Checked.pure_eq_ok] at h
    exact h ▸ .refl b
  · simp only [Checked.bind_eq_ok, Checked.pure_eq_ok, Prod.exists] at h
    obtain ⟨buff, p, -, rfl⟩ := h
    refine .of_eq hcontrol ?_ ?_ ?_
    all_goals
      split <;> rfl

theorem propagateTags_spends (i : Nat) (tags : List Tag) (b : BlockActor) :
    Spends b (b.propagateTags i tags) := by
  unfold propagateTags
  refine List.foldlRecOn (motive := fun c : BlockActor => Spends b c)
    _ _ (.refl b)
    fun c hc o _ => ?_
  exact List.foldlRecOn (motive := fun c : BlockActor => Spends b c) _ _ hc
    fun c hc t _ => hc.trans (.of_eq rfl rfl rfl rfl)

/-- **The rule for a task** whose calls meet a condition: it is made of its
calls, of steps in which nothing is stored, and of a kick. -/
theorem TaskMeets.rule (hmeet : TaskMeets ok env b)
    (h : b.taskMain env = .ok b') {R : BlockActor → BlockActor → Prop}
    (hrefl : ∀ s, R s s) (htrans : ∀ {s t u}, R s t → R t u → R s u)
    (hspends : ∀ s s', Spends s s' → R s s')
    (hcall : ∀ c s s', ok s c → s.call env.now c = .ok s' → R s s')
    (hkick : ∀ s : BlockActor, R s s.taskKicker) : R b b' := by
  cases hallowed : b.isWorkAllowed with
  | false => exact taskMain_idle hallowed h ▸ hrefl _
  | true =>
      obtain ⟨b₁, b₂, b₃, hprepare, hwork, hfinish, rfl⟩ :=
        taskMain_parts hallowed h
      obtain ⟨hcalls, htags⟩ := hmeet hallowed b₁ hprepare
      have hprepared : R b b₁ := hspends _ _ (prepare_spends hprepare)
      have hworked : R b₁ b₂ := by
        simp only [taskWork, Checked.bind_eq_ok, Checked.pure_eq_ok] at hwork
        obtain ⟨b₀, hrun, rfl⟩ := hwork
        have hstart : R b₁ b₁.atCall := hspends _ _ (.of_eq rfl rfl rfl rfl)
        have hcalled : R b₁.atCall b₀ :=
          hcalls.rule hrun hrefl htrans fun c _ s s' hc hs => hcall c s s' hc hs
        exact htrans (htrans hstart hcalled)
          (hspends _ _ (.of_eq rfl rfl rfl rfl))
      have hfinished : R b₂ b₃ := by
        simp only [finish, Checked.bind_eq_ok] at hfinish
        obtain ⟨b₄, hin, hout⟩ := hfinish
        -- An overload of `propagate_tags` is called in the state that the rounds before leave.
        have hinputs := forRange_rule hin
          (P := fun k s => forRange (finishInput env) k b₂ = .ok s ∧ R b₂ s)
          ⟨rfl, hrefl b₂⟩
          fun k hk s s' hs hf => by
            refine ⟨forRange_succ_eq_ok.mpr ⟨s, hs.1, hf⟩, htrans hs.2 ?_⟩
            simp only [finishInput, Checked.bind_eq_ok,
              Checked.pure_eq_ok] at hf
            obtain ⟨s₁, htrim, s₂, hbuffs, s₃, havail, rfl⟩ := hf
            have hmsgs : R s (s.trimMsgs k) := hspends _ _ (trimMsgs_spends k s)
            have htrimmed : R (s.trimMsgs k) s₁ := by
              rcases trimTags_cases htrim with ⟨-, rfl⟩ |
                ⟨hpassed, s₀, hpass, rfl⟩
              · exact hrefl _
              · have hpassing : R (s.trimMsgs k) s₀ := by
                  unfold passTags at hpass
                  split at hpass
                  · rw [Checked.pure_eq_ok] at hpass
                    exact hpass ▸ hspends _ _ (propagateTags_spends k _ _)
                  · rename_i overload ho
                    have hoverload :=
                      htags b₂ hwork k hk s hs.1 hpassed overload ho
                    exact hoverload.rule hpass hrefl htrans
                        fun c _ s s' hc hs =>
                      hcall c s s' hc hs
                exact htrans hpassing (hspends _ _ (.of_eq rfl rfl rfl rfl))
            have htrimBuffs : R s₁ s₂ := hspends _ _ (trimBuffs_spends hbuffs)
            have havailable : R s₂ s₃ :=
              hspends _ _ (updateInputAvail_spends havail)
            exact htrans
              (htrans (htrans (htrans hmsgs htrimmed) htrimBuffs) havailable)
              (hspends _ _ (.of_eq rfl rfl rfl rfl))
        have houtputs :
            R b₄ b₃ := forRange_relates hout hrefl htrans fun o _ s s' hf =>
          hspends _ _ (finishOutput_spends hf)
        exact htrans hinputs.2 houtputs
      exact htrans (htrans (htrans hprepared hworked) hfinished) (hkick b₃)

end Spends

/-! ## What keeps a block stoppable -/

/-- Messages are added to the mailbox; nothing is stored for work, and the ends
of the streams stay as they are. -/
structure Adds (out : List Message) (b b' : BlockActor) : Prop where
  mailbox : b'.mailbox = b.mailbox ++ out
  numInputs : b'.numInputs = b.numInputs
  configs : b'.inputConfigs = b.inputConfigs
  done : ∀ i, b'.inputsDone.bit i = true → b.inputsDone.bit i = true
  state : b.blockState = .done → b'.blockState = .done
  prepared : ∀ m ∈ b'.holders.prepared, m ∈ b.holders.prepared ∨
    m.carriesToken = true
  idle : ∀ j, b.Idle j → b'.Idle j

section Adds

variable {producers : Nat → Nat} {out out' : List Message}
  {b b' b'' : BlockActor} {env : Env}
  {now : Int} {m : Message} {c : Call} {i j : Nat}

theorem Adds.trans (h : Adds out b b') (h' : Adds out' b' b'') :
    Adds (out ++ out') b b'' := by
  constructor
  · rw [h'.mailbox, h.mailbox, List.append_assoc]
  · exact h'.numInputs.trans h.numInputs
  · exact h'.configs.trans h.configs
  · exact fun i hi => h.done i (h'.done i hi)
  · exact fun hdone => h'.state (h.state hdone)
  · exact fun m hm => (h'.prepared m hm).elim (h.prepared m) .inr
  · exact fun j hj => h'.idle j (h.idle j hj)

/-- The control stays. -/
theorem Adds.of_control (hcontrol : b'.control = b.control)
    (hconfigs : b'.inputConfigs = b.inputConfigs)
    (hidle : ∀ j, b.Idle j → b'.Idle j) : Adds [] b b' := by
  have hholders : b'.holders = b.holders := congrArg Control.holders hcontrol
  have hdone : b'.inputsDone = b.inputsDone :=
    congrArg Control.inputsDone hcontrol
  have hstate : b'.blockState = b.blockState :=
    congrArg Control.blockState hcontrol
  constructor
  · rw [List.append_nil]
    exact congrArg Control.mailbox hcontrol
  · exact congrArg Control.numInputs hcontrol
  · exact hconfigs
  · exact fun i hi => hdone ▸ hi
  · exact fun h => hstate.trans h
  · exact fun m hm => .inl (hholders ▸ hm)
  · exact hidle

theorem Spends.adds (h : Spends b b') : Adds [] b b' :=
  .of_control h.control h.configs h.idle

theorem Adds.sendSelf (m : Message) (b : BlockActor) :
    Adds [m] b (b.sendSelf m) :=
  ⟨rfl, rfl, rfl, fun _ => id, id, fun _ => .inl, fun _ => id⟩

theorem Adds.taskKicker (b : BlockActor) :
    ∃ out, Adds out b b.taskKicker ∧ ∀ m ∈ out, m = .selfKick := by
  unfold BlockActor.taskKicker
  split
  · exact ⟨[.selfKick], .sendSelf _ _, by simp⟩
  · exact ⟨[], (Spends.refl b).adds, by simp⟩

theorem markDone_idle (h : b.markDone now = .ok b') (hj : b.Idle j) :
    b'.Idle j := by
  refine ⟨?_, markDone_stable InputPort.stable_dry h hj.2⟩
  rcases markDone_cases h with ⟨-, rfl⟩ | ⟨-, b₁, hout, -, b₂, hin, rfl⟩
  · exact hj.1
  · have h₁ : b₁.inputMsgs = b.inputMsgs := forRange_rule hout
      (P := fun _ s => s.inputMsgs = b.inputMsgs) rfl fun o _ s s' hs hf => by
        unfold flushOutput at hf
        split at hf
        · rw [Checked.pure_eq_ok] at hf
          exact hf ▸ hs
        · simp only [Checked.bind_eq_ok, Prod.exists] at hf
          obtain ⟨buff, p, -, hf⟩ := hf
          split at hf
          · rw [Checked.pure_eq_ok] at hf
            exact hf ▸ hs
          · simp only [Checked.bind_eq_ok, Checked.pure_eq_ok] at hf
            obtain ⟨q, -, rfl⟩ := hf
            exact hs
    have h₂ : b₂.inputMsgs = b₁.inputMsgs := forRange_rule hin
      (P := fun _ s => s.inputMsgs = b₁.inputMsgs) rfl fun i _ s s' hs hf => by
        simp only [flushInput, Checked.bind_eq_ok, Checked.pure_eq_ok] at hf
        obtain ⟨p, -, rfl⟩ := hf
        exact hs
    show (if j < b₂.numInputs then [] else b₂.inputMsgs j) = []
    split
    · rfl
    · rw [h₂, h₁]
      exact hj.1

theorem markDone_adds (h : b.markDone now = .ok b') : Adds [] b b' := by
  rcases markDone_control h with ⟨-, rfl⟩ | ⟨-, hcontrol⟩
  · exact (Spends.refl b').adds
  · have hdone : b'.inputsDone = b.inputsDone :=
      congrArg Control.inputsDone hcontrol
    have hholders : b'.holders = b.holders := congrArg Control.holders hcontrol
    constructor
    · rw [List.append_nil]
      exact congrArg Control.mailbox hcontrol
    · exact congrArg Control.numInputs hcontrol
    · exact markDone_configs h
    · exact fun i hi => hdone ▸ hi
    · exact fun _ => congrArg Control.blockState hcontrol
    · exact fun m hm => .inl (hholders ▸ hm)
    · exact fun j hj => markDone_idle h hj

/-- No call stores anything for work. -/
theorem call_idle (h : b.call now c = .ok b') (hj : b.Idle j) : b'.Idle j := by
  rcases call_inputs h with ⟨-, hdone⟩ | ⟨k, -, rfl⟩ |
    ⟨k, items, -, rfl⟩ | hheld
  · exact markDone_idle hdone hj
  · unfold popInputMsg
    split
    · exact hj
    · exact hj
  · exact hj
  · exact hj.held hheld

/-- **When the end is reached** the block is really finished. -/
theorem EndReached.reallyFinished (h : b.EndReached)
    (htruly : b.DoneTruly producers) : b.ReallyFinished producers := by
  intro hwork k hk
  rcases h with hdone | ⟨i, hi, hall⟩
  · exact absurd hdone hwork.1
  · by_cases hsync : (b.inputConfigs i).reserveItems = 0
    · obtain ⟨hdone, hfed⟩ :=
        hall k (by rwa [Concerns, if_neg (not_not.mpr hsync)])
      exact ⟨hfed, htruly k hdone⟩
    · -- A sync input that is finished is dead.
      obtain ⟨hdone, hfed⟩ := hall i (concerns_self hi)
      exact absurd ⟨htruly i hdone, hfed⟩ (hwork.2 i hi hsync)

/-- **Where dead inputs stay dead** a block that is really finished stays so. -/
theorem ReallyFinished.keep (h : b.ReallyFinished producers)
    (hnum : b'.numInputs = b.numInputs)
    (hconfigs : b'.inputConfigs = b.inputConfigs)
    (hstate : b.blockState = .done → b'.blockState = .done)
    (hdead : ∀ j, b.Dead producers j → b'.Dead producers j) :
    b'.ReallyFinished producers := by
  intro hwork i hi
  have hbefore : b.CanWork producers := by
    refine ⟨fun hdone => hwork.1 (hstate hdone), fun j hj hsync hj' => ?_⟩
    exact hwork.2 j (hnum ▸ hj) (hconfigs ▸ hsync) (hdead j hj')
  obtain ⟨hfed, hnone⟩ := h hbefore i (hnum ▸ hi)
  exact ⟨(hdead i ⟨hnone, hfed⟩).2, hnone⟩

/-- Messages that do not feed a dead input leave it dead. -/
theorem Dead.adds (hj : b.Dead producers j) (h : Adds out b b')
    (hfeeds : ∀ m ∈ out, m.feeds j = true → 0 < producers j) :
    b'.Dead producers j := by
  obtain ⟨hnone, hfed⟩ := hj
  refine ⟨hnone, fun hfed' => hfed ?_⟩
  rcases hfed' with hidle | ⟨m, hm, hfeed⟩
  · exact .inl fun hj => hidle (h.idle j hj)
  · rw [h.mailbox] at hm
    rcases List.mem_append.mp hm with hm | hm
    · exact .inr ⟨m, hm, hfeed⟩
    · have := hfeeds m hm hfeed
      omega

/-- **A block stays stoppable** when the message of the polling loop is only
added where the end is reached, and while it is on its way only producers that
are not done feed the block. -/
theorem Stoppable.adds (hs : b.Stoppable producers) (h : Adds out b b')
    (hinert : .waitInert ∈ out → b.EndReached)
    (hfeeds : .waitInert ∈ b'.mailbox → ∀ m ∈ out, ∀ j, m.feeds j = true →
      0 < producers j) :
    b'.Stoppable producers := by
  constructor
  · exact fun i hdone => hs.truly i (h.done i hdone)
  · exact fun m hm => (h.prepared m hm).elim (hs.prepared m) id
  · intro hmail
    have hfinished : b.ReallyFinished producers := by
      have hmail := hmail
      rw [h.mailbox] at hmail
      rcases List.mem_append.mp hmail with hwaits | hnew
      · exact hs.finished hwaits
      · exact (hinert hnew).reallyFinished hs.truly
    exact hfinished.keep h.numInputs h.configs h.state fun j hj =>
      hj.adds h fun m hm => hfeeds hmail m hm j

/-- While the message is not on its way, only the ends of the streams matter. -/
theorem Stoppable.unsent (hs : b.Stoppable producers)
    (hmail : .waitInert ∉ b'.mailbox)
    (hdone : ∀ i, b'.inputsDone.bit i = true → b.inputsDone.bit i = true)
    (hholders : b'.holders = b.holders) : b'.Stoppable producers :=
  ⟨fun i hi => hs.truly i (hdone i hi), hholders ▸ hs.prepared,
    fun hm => absurd hm hmail⟩

/-- Messages that neither stop a block nor feed one. -/
theorem Stoppable.addsHarmless (hs : b.Stoppable producers) (h : Adds out b b')
    (hout : ∀ m ∈ out, m ≠ .waitInert ∧ ∀ j, m.feeds j = false) :
    b'.Stoppable producers := by
  refine hs.adds h (fun hm => absurd rfl (hout _ hm).1) fun _ m hm j hfeed => ?_
  rw [(hout m hm).2 j] at hfeed
  cases hfeed

/-- The mailbox stays. -/
theorem Stoppable.addsNothing (hs : b.Stoppable producers) (h : Adds [] b b') :
    b'.Stoppable producers := hs.addsHarmless h (by simp)

theorem Stoppable.spends (hs : b.Stoppable producers) (h : Spends b b') :
    b'.Stoppable producers := hs.addsNothing h.adds

theorem selfKick_harmless (h : m = .selfKick) :
    m ≠ .waitInert ∧ ∀ j, m.feeds j = false := by
  subst h
  refine ⟨fun hm => ?_, fun _ => rfl⟩
  cases hm

/-- The block kicks itself. -/
theorem Stoppable.addsKick (hs : b.Stoppable producers)
    (h : Adds [.selfKick] b b') : b'.Stoppable producers :=
  hs.addsHarmless h fun _ hm => selfKick_harmless (List.mem_singleton.mp hm)

theorem Stoppable.taskKicker (hs : b.Stoppable producers) :
    b.taskKicker.Stoppable producers := by
  obtain ⟨out, hadds, hout⟩ := Adds.taskKicker b
  exact hs.addsHarmless hadds fun m hm => selfKick_harmless (hout m hm)

/-- One more message. -/
theorem Stoppable.sendSelf (hs : b.Stoppable producers)
    (hinert : m = .waitInert → b.EndReached)
    (hfeeds : .waitInert ∈ b.mailbox → ∀ j, m.feeds j = true →
      0 < producers j) :
    (b.sendSelf m).Stoppable producers := by
  refine hs.adds (.sendSelf m b)
    (fun hm => hinert (List.mem_singleton.mp hm).symm) ?_
  intro hmail m' hm' j hfeed
  obtain rfl := List.mem_singleton.mp hm'
  rcases List.mem_append.mp hmail with hwaits | hnew
  · exact hfeeds hwaits j hfeed
  · -- The message of the polling loop feeds no input.
    rw [← List.mem_singleton.mp hnew] at hfeed
    cases hfeed

/-- **What other threads do** keeps a block stoppable, under the condition. -/
theorem Stoppable.threadStep {event : ThreadEvent} (hs : b.Stoppable producers)
    (hkeeps : b.ThreadKeeps producers event) :
    (b.threadStep event).Stoppable producers := by
  have hholders : ∀ b' : BlockActor, b'.mailbox = b.mailbox →
      b'.numInputs = b.numInputs →
      b'.inputConfigs = b.inputConfigs → b'.inputsDone = b.inputsDone →
      b'.blockState = b.blockState → b'.inputQueues = b.inputQueues →
      b'.inputMsgs = b.inputMsgs →
      (∀ m ∈ b'.holders.prepared, m ∈ b.holders.prepared ∨
        m.carriesToken = true) →
      b'.Stoppable producers := by
    intro b' hmail hnum hconfigs hdone hstate hqueues hmsgs hprepared
    refine hs.addsNothing ⟨by rw [hmail, List.append_nil], hnum, hconfigs,
      fun i hi => hdone ▸ hi, fun h => hstate.trans h, hprepared,
      fun j hj => ?_⟩
    rw [Idle, hqueues, hmsgs]
    exact hj
  cases event with
  | post m =>
      rw [BlockActor.threadStep]
      split
      · exact hs
      · exact hs.sendSelf hkeeps.1 hkeeps.2
  | prepare m =>
      rw [BlockActor.threadStep]
      split
      · exact hs
      · rename_i hcarries
        refine hholders _ rfl rfl rfl rfl rfl rfl rfl fun m' hm' => ?_
        refine (List.mem_append.mp hm').imp_right fun hnew => ?_
        rw [List.mem_singleton.mp hnew]
        exact not_not.mp hcarries
  | send k =>
      rw [BlockActor.threadStep]
      split
      · exact hs
      · rename_i m hm
        have hcarries := hs.prepared m (List.mem_of_getElem? hm)
        have hsent : (b.sendSelf m).Stoppable producers := by
          refine hs.sendSelf (fun h => ?_) fun _ j hfeed => ?_
          · exact absurd h (Message.ne_waitInert_of_carriesToken hcarries)
          · rw [Message.feeds_of_carriesToken hcarries] at hfeed
            cases hfeed
        refine hsent.addsNothing
          ⟨(List.append_nil _).symm, rfl, rfl, fun _ => id, id,
          fun m' hm' => .inl ?_, fun _ => id⟩
        rw [TokenHolders.keepCopy_prepared] at hm'
        exact List.mem_of_mem_eraseIdx hm'
  | release => exact hholders _ rfl rfl rfl rfl rfl rfl rfl fun m hm => .inl hm
  | «return» => exact hholders _ rfl rfl rfl rfl rfl rfl rfl fun m hm => .inl hm
  | configureInput i config => exact hs.unsent hkeeps (fun _ => id) rfl
  | configureOutput o config =>
      exact hholders _ rfl rfl rfl rfl rfl rfl rfl fun m hm => .inl hm

/-- **A call** keeps a block stoppable, under the condition. -/
theorem call_stoppable (hs : b.Stoppable producers)
    (hkeeps : b.CallKeeps producers c) (h : b.call now c = .ok b') :
    b'.Stoppable producers := by
  have hconfigs : (∀ event, c ≠ .thread event) →
      b'.inputConfigs = b.inputConfigs := by
    intro hother
    refine call_configs (fun event hevent => ?_) h
    exact absurd (List.mem_singleton.mp hevent).symm (hother event)
  rcases call_control h with hcontrol | ⟨b₀, hcontrol, rfl⟩ | ⟨j, m, rfl, rfl⟩ |
    ⟨event, rfl, rfl⟩ | hdone
  · by_cases hthread : ∃ event, c = .thread event
    · obtain ⟨event, rfl⟩ := hthread
      rw [call, Checked.pure_eq_ok] at h
      exact h ▸ hs.threadStep hkeeps
    · have hadds : Adds [] b b' :=
        .of_control hcontrol (hconfigs fun event hc => hthread ⟨event, hc⟩)
          fun j hj => call_idle h hj
      exact hs.addsNothing hadds
  · by_cases hthread : ∃ event, c = .thread event
    · obtain ⟨event, rfl⟩ := hthread
      rw [call, Checked.pure_eq_ok] at h
      exact h ▸ hs.threadStep hkeeps
    · have hconfigs := hconfigs fun event hc => hthread ⟨event, hc⟩
      rw [taskKicker_configs] at hconfigs
      have hidle : ∀ j, b.Idle j → b₀.Idle j := by
        intro j hj
        have hkick := InputsHeld.taskKicker b₀
        obtain ⟨hmsgs, hport⟩ := call_idle h hj
        have hqueues : b₀.taskKicker.inputQueues = b₀.inputQueues := by
          unfold BlockActor.taskKicker
          split <;> rfl
        exact ⟨hkick.msgs ▸ hmsgs, hqueues ▸ hport⟩
      have hadds : Adds [] b b₀ := .of_control hcontrol hconfigs hidle
      exact (hs.addsNothing hadds).taskKicker
  · refine hs.sendSelf (fun hm => ?_) hkeeps
    cases hm
  · exact hs.threadStep hkeeps
  · exact hs.addsNothing (markDone_adds hdone)

/-- **A task** keeps a block stoppable, under the condition on its calls. -/
theorem taskMain_stoppable (hs : b.Stoppable producers)
    (hmeet : TaskMeets (CallKeeps producers) env b)
    (h : b.taskMain env = .ok b') : b'.Stoppable producers :=
  hmeet.rule h (R := fun s s' => s.Stoppable producers → s'.Stoppable producers)
    (fun _ => id) (fun h h' hs => h' (h hs))
    (fun _ _ hspends hs => hs.spends hspends) (fun _ _ _ hc hcall hs =>
      call_stoppable hs hc hcall) (fun _ hs => hs.taskKicker) hs

end Adds

end BlockActor

end Gras
