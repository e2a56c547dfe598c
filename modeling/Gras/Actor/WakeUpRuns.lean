import Gras.Actor.BlockRuns
import Gras.Actor.WakeUp

/-!
# Wake-ups in runs of a block

Every handler keeps the invariant `Awake` as long as `WakeUpKept` holds, and so
does everything that other threads do.  What follows for runs:

* `wakeUp_of_allowed`: while a work is allowed, a message that calls `task_main`
  is in the mailbox.
* `not_allowed_of_idle`: with an empty mailbox and without a copy of the token,
  no work is allowed.
* `wakeUp_lost_by_update`, `wakeUp_swallowed`: the runs that break the
  invariant.

### What the condition is for

`task_main` asks for everything at once and then forgets that it was asked, so a
block that becomes ready must be told once more.  Most handlers do so by calling
`task_main` at their end.  Those of an update and of an allocation do not; and
those that do return early while another thread holds a copy of the priority
token.  `WakeUpsKept` speaks of these handlers only, and asks for another
wake-up, in the mailbox or prepared by the thread that holds the copy, just when
their change was all that had been missing.

The condition is about one message and the state it is handled in.  It is no
condition on what the block does afterwards, and a work may do as it likes
except that other threads prepare, while it runs, only messages that leave a
kick or end the block.
-/

namespace Gras

namespace BlockActor

section Step

variable {b b' : BlockActor} {env : Env} {m : Message} {rest : List Message}

/-- A handler that makes nothing ready may drop a message that wakes nobody
up. -/
theorem awake_of_unsettled (hawake : b.Awake) (hmail : b.mailbox = m :: rest)
    (hm : m.settles = false) (hready : b'.isReady = true → b.isReady = true)
    (hpending : ∀ m' ∈ (b.receive m rest).pending, m' ∈ b'.pending) :
    b'.Awake := by
  intro hready'
  obtain ⟨m', hm', hsettles⟩ := hawake (hready hready')
  refine ⟨m', hpending m' ?_, hsettles⟩
  rw [pending, hmail, List.cons_append] at hm'
  rcases List.mem_cons.mp hm' with rfl | hm'
  · rw [hm] at hsettles
    cases hsettles
  · exact hm'

/-- An update keeps the invariant when what it makes ready is woken up. -/
theorem awake_of_wakes {Wakes : Prop} (hawake : b.Awake)
    (hmail : b.mailbox = m :: rest) (hm : m.settles = false)
    (hkept : Wakes → (b.receive m rest).WakeUpPending)
    (hwakes : b'.isReady = true → (b.receive m rest).isReady = true ∨ Wakes)
    (hpending : ∀ m' ∈ (b.receive m rest).pending, m' ∈ b'.pending) :
    b'.Awake := by
  intro hready
  rcases hwakes hready with hbefore | hw
  · exact awake_of_unsettled hawake hmail hm (fun _ => hbefore) hpending hready
  · obtain ⟨m', hm', hsettles⟩ := hkept hw
    exact ⟨m', hpending m' hm', hsettles⟩

theorem pending_of_control (h : b'.control = b.control) :
    b'.pending = b.pending := by
  rw [pending, pending, show b'.mailbox = b.mailbox
    from congrArg Control.mailbox h,
    show b'.holders = b.holders from congrArg Control.holders h]

/-- A kick wakes the block up. -/
theorem awake_sendSelf_selfKick (b : BlockActor) :
    (b.sendSelf .selfKick).Awake := fun _ =>
  ⟨.selfKick, self_mem_pending_sendSelf _ _, rfl⟩

/-- New tokens for the ports wake nobody up. -/
theorem handleTopToken_quiet (env : Env) (token : Token)
    (sender : Option Address) (b : BlockActor) :
    (b.handleTopToken env token sender).isReady = b.isReady ∧
      (b.handleTopToken env token sender).pending = b.pending := by
  have hin : ∀ l : List Nat,
      (l.foldl (fun b i => b.renewInput env i) b).isReady = b.isReady ∧
        (l.foldl (fun b i => b.renewInput env i) b).pending =
          b.pending := fun l =>
    List.foldlRecOn (motive := fun c : BlockActor =>
      c.isReady = b.isReady ∧ c.pending = b.pending) l _
        ⟨rfl, rfl⟩ fun c hc i _ => hc
  have hout : ∀ (l : List Nat) (b : BlockActor),
      (l.foldl (fun b i => b.renewOutput env i) b).isReady = b.isReady ∧
        (l.foldl (fun b i => b.renewOutput env i) b).pending =
          b.pending := fun l b =>
    List.foldlRecOn (motive := fun c : BlockActor =>
      c.isReady = b.isReady ∧ c.pending = b.pending) l _
        ⟨rfl, rfl⟩ fun c hc i _ => hc
  have h := hout (List.range (((List.range b.numInputs).foldl
    (fun b i => b.renewInput env i) b).numOutputs))
    ((List.range b.numInputs).foldl
    (fun b i => b.renewInput env i) b)
  have h' := hin (List.range b.numInputs)
  cases sender with
  | none => exact ⟨h.1.trans h'.1, h.2.trans h'.2⟩
  | some a => exact ⟨h.1.trans h'.1, h.2.trans h'.2⟩

theorem handleTopConfig_quiet (config : GlobalBlockConfig)
    (sender : Option Address) (b : BlockActor) :
    (b.handleTopConfig config sender).isReady = b.isReady ∧
      (b.handleTopConfig config sender).pending = b.pending := by
  cases sender <;> exact ⟨rfl, rfl⟩

theorem handleTopThreadGroup_quiet (sender : Option Address) (b : BlockActor) :
    (b.handleTopThreadGroup sender).isReady = b.isReady ∧
      (b.handleTopThreadGroup sender).pending = b.pending := by
  cases sender <;> exact ⟨rfl, rfl⟩

/-- What a handler does that calls `task_main` unless the block is done. -/
theorem awake_of_task {store : Checked BlockActor}
    (henv : env.WorkWithin PreparesWakeUps)
    (hheard : ∀ b₁, store = .ok b₁ → b₁.TaskHeard)
    (h : (if b.blockState = .done then return b
      else do
        let b ← store
        b.taskMain env : Checked BlockActor) = .ok b') : b'.Awake := by
  split at h
  · rename_i hdone
    rw [Checked.pure_eq_ok] at h
    exact awake_of_done (h ▸ hdone)
  · rw [Checked.bind_eq_ok] at h
    obtain ⟨b₁, hstore, h⟩ := h
    exact taskMain_awake henv (hheard b₁ hstore) h

/-- **Every handler keeps the invariant** when its condition holds. -/
theorem handler_awake (hawake : b.Awake) (hmail : b.mailbox = m :: rest)
    (hkept : (b.receive m rest).WakeUpKept env m)
    (h : (b.receive m rest).handler env m = .ok b') : b'.Awake := by
  cases htask : (b.receive m rest).enter env m with
  | some store =>
      cases m with
      | input i message =>
          cases message with
          | msg msg => exact awake_of_task hkept.1 hkept.2 h
          | buffer buffer => exact awake_of_task hkept.1 hkept.2 h
          | check =>
              simp only [handler, handleInputCheck, Checked.bind_eq_ok] at h
              obtain ⟨b₁, htask, h⟩ := h
              split at h
              · exact awake_of_done (markDone_blockState h)
              · rw [Checked.pure_eq_ok] at h
                exact h ▸ taskMain_awake hkept.1 hkept.2 htask
          | _ => cases htask
      | output i message =>
          cases message with
          | buffer buffer => exact awake_of_task hkept.1 hkept.2 h
          | _ => cases htask
      | selfKick => exact taskMain_awake hkept.1 hkept.2 h
      | _ => cases htask
  | none =>
      cases reaction htask h with
      | droppedInput i message hdone => exact awake_of_done hdone
      | droppedBuffer i buffer hdone => exact awake_of_done hdone
      | tag | inputToken | outputToken | noInputAlloc | inputAlloc | outputCheck | outputHint =>
          exact awake_of_unsettled hawake hmail rfl (fun h => h) fun _ h => h
      | inputUpdate hup =>
          exact awake_of_wakes hawake hmail rfl hkept
            (handleInputUpdate_wakes hup)
            fun _ hm => (pending_of_control
              (handleInputUpdate_control hup)) ▸ hm
      | outputUpdate hup =>
          exact awake_of_wakes hawake hmail rfl hkept
            (handleOutputUpdate_wakes hup)
            fun _ hm => (pending_of_control
              (handleOutputUpdate_control hup)) ▸ hm
      | outputAlloc hset =>
          exact awake_of_wakes hawake hmail rfl hkept
            (handleOutputAlloc_wakes hset)
            fun _ hm => hm
      | outputsDone _ hdone => exact awake_of_done (markDone_blockState hdone)
      | topAlloc =>
          exact awake_of_wakes hawake hmail
            (by simp [Message.settles, Message.runsTask, Message.kicks]) hkept
            (fun hready => .inr (handleTopAlloc_wakes h hready))
            (handleTopAlloc_allocated h).pending
      | topActive => exact awake_sendSelf_selfKick _
      | @topInert prio sender b₁ hdone =>
          refine awake_of_done ?_
          rw [← markDone_blockState hdone]
          cases sender <;> rfl
      | topToken token prio sender =>
          have hquiet := handleTopToken_quiet env token sender
            (b.receive (.top (.token token) prio sender) rest)
          exact awake_of_unsettled hawake hmail
            (by simp [Message.settles, Message.runsTask, Message.kicks])
            (fun h => hquiet.1 ▸ h) fun _ h => hquiet.2 ▸ h
      | topConfig config prio sender =>
          have hquiet := handleTopConfig_quiet config sender
            (b.receive (.top (.config config) prio sender) rest)
          exact awake_of_unsettled hawake hmail
            (by simp [Message.settles, Message.runsTask, Message.kicks])
            (fun h => hquiet.1 ▸ h) fun _ h => hquiet.2 ▸ h
      | topThreadGroup prio sender =>
          have hquiet := handleTopThreadGroup_quiet sender
            (b.receive (.top .threadGroup prio sender) rest)
          exact awake_of_unsettled hawake hmail
            (by simp [Message.settles, Message.runsTask, Message.kicks])
            (fun h => hquiet.1 ▸ h) fun _ h => hquiet.2 ▸ h
      | callable | getStats => exact awake_sendSelf_selfKick _

/-- What other threads do changes no readiness. -/
theorem threadStep_isReady (b : BlockActor) (event : ThreadEvent) :
    (b.threadStep event).isReady = b.isReady := by
  cases event with
  | post m => rw [threadStep]; split <;> rfl
  | prepare m => rw [threadStep]; split <;> rfl
  | send k => rw [threadStep]; split <;> rfl
  | release => rfl
  | «return» => rfl
  | configureInput j config => rfl
  | configureOutput j config => rfl

theorem threadStep_awake (hawake : b.Awake) (event : ThreadEvent) :
    (b.threadStep event).Awake := by
  intro hready
  rw [threadStep_isReady] at hready
  obtain ⟨m, hm, hsettles⟩ := hawake hready
  exact ⟨m, mem_pending_threadStep event hm, hsettles⟩

/-- **The invariant holds in every run** whose steps meet the condition. -/
theorem awake_of_reachable (h : (system.restrict WakeUpsKept).Reachable b) :
    b.Awake := by
  refine h.invariant (fun s hs hready => ?_) fun s e s' _ hawake hstep => ?_
  · exact absurd (isReady_iff.mp hready).1 hs.not_live
  · obtain ⟨hkept, hnext⟩ := hstep
    rcases next_cases hnext with ⟨event, rfl, rfl⟩ | ⟨env, rfl, -, rfl⟩ |
      ⟨env, m, rest, b₁, rfl, hmail, hhandler, rfl⟩
    · exact threadStep_awake hawake event
    · exact hawake
    · simp only [WakeUpsKept, hmail] at hkept
      have hb₁ : b₁.Awake := handler_awake hawake hmail hkept hhandler
      exact hb₁

end Step

/-! ## What follows -/

/-- Without a copy of the token only a task message can wake the block up. -/
theorem runsTask_of_wakeUpPending {b : BlockActor}
    (hunique : b.prioUnique = true) (h : b.WakeUpPending) :
    ∃ m ∈ b.mailbox, m.runsTask = true := by
  obtain ⟨hmail, -, hprepared, -⟩ := prioUnique_iff.mp hunique
  obtain ⟨m, hm, hsettles⟩ := h
  rw [pending, hprepared, List.append_nil] at hm
  exact ⟨m, hm, Message.runsTask_of_settles hsettles (hmail m hm)⟩

end BlockActor

open BlockActor

/-- **No wake-up is lost**: while a work is allowed, a message that calls
`task_main` is in the mailbox.

The condition speaks of the messages that make the block ready and do not call
`task_main` themselves: the updates of a port, the allocation of an output, and
a message whose call finds the priority token held elsewhere.  Each of them has
to be followed by a wake-up that is on its way already; no handler is excluded
otherwise. -/
theorem wakeUp_of_allowed {b : BlockActor}
    (h : (system.restrict WakeUpsKept).Reachable b)
    (hallowed : b.isWorkAllowed = true) :
    ∃ m ∈ b.mailbox, m.runsTask = true := by
  obtain ⟨hunique, hready⟩ := isWorkAllowed_iff.mp hallowed
  exact runsTask_of_wakeUpPending hunique (awake_of_reachable h hready)

/-- **The priority token swallows no wake-up**: with no message in the mailbox
or on its way there, the block is not ready, so no work is allowed once the
callers that still hold a copy have returned.

The number of callers is not bounded, and each may stand anywhere between taking
its copy of the token and giving it back.  The condition is that of
`wakeUp_of_allowed`; it says nothing of a block at rest. -/
theorem not_allowed_of_idle {b : BlockActor}
    (h : (system.restrict WakeUpsKept).Reachable b) (hmail : b.mailbox = [])
    (hprepared : b.holders.prepared = []) :
    b.isReady = false ∧ b.isWorkAllowed = false := by
  have hready : b.isReady = false := by
    by_contra hready
    obtain ⟨m, hm, -⟩ := awake_of_reachable h (Bool.not_eq_false _ ▸ hready)
    rw [pending, hmail, hprepared] at hm
    cases hm
  exact ⟨hready, by rw [isWorkAllowed, hready, Bool.and_false]⟩

/-! ## Runs -/

namespace BlockActor

/-- A sink with one input port of that configuration. -/
def sink (config : InputPortConfig) : Checked BlockActor :=
  { made 0 addressMemory with inputConfigs := fun _ =>
    config }.handleTopology {} 1 0 none

theorem sink_started {config : InputPortConfig} {b : BlockActor}
    (h : sink config = .ok b) : Started b :=
  ⟨0, addressMemory, fun _ => config, _, {}, 1, 0, h⟩

/-- A caller copies the token into a message and sends it. -/
def sendWithToken (m : Message) : List ActorEvent :=
  [.thread (.prepare m), .thread (.send 0)]

/-- Activate the block, with nobody waiting. -/
def activate : List ActorEvent :=
  sendWithToken (.top .active true none) ++
    [ActorEvent.handle {}, .thread .release]

/-- A message arrives. -/
def arrive (m : Message) : ActorEvent := .thread (.post m)

/-- A simpler condition: no user code, and a message leaves a kick, or it comes
before the block is live, or it is a kick that comes too early. -/
def wakesPlainly (b : BlockActor) : ActorEvent → Bool
  | .thread _ => true
  | .handle env => env.work.isEmpty && env.propagateTags.isNone &&
      match b.mailbox with
      | [] => true
      | .input _ (.msg _) :: _ => b.blockState != .live
      | .selfKick :: _ => !b.isReady
      | m :: _ => m.kicks

theorem wakeUpsKept_of_wakesPlainly {b : BlockActor} {e : ActorEvent}
    (h : b.wakesPlainly e = true) : b.WakeUpsKept e := by
  cases e with
  | thread event => trivial
  | handle env =>
      simp only [wakesPlainly, Bool.and_eq_true, List.isEmpty_iff,
        Option.isNone_iff_eq_none]
        at h
      obtain ⟨⟨hwork, htags⟩, h⟩ := h
      have henv : env.WorkWithin PreparesWakeUps := by
        rw [Env.WorkWithin, hwork, htags]
        exact ⟨fun event hevent => (List.not_mem_nil hevent).elim,
          fun overload ho => nomatch ho⟩
      unfold WakeUpsKept
      split at h
      · rename_i hmail
        simp only [hmail]
      · rename_i i msg rest hmail
        simp only [hmail]
        refine ⟨henv, fun b₁ hstore hready => ?_⟩
        have hlive := (isReady_iff.mp hready).1
        have hstate : b₁.blockState = b.blockState :=
          congrArg Control.blockState (updateInputAvail_control hstore)
        simp [← hstate, hlive] at h
      · rename_i rest hmail
        simp only [hmail]
        refine ⟨henv, fun hready => ?_⟩
        rw [show b.isReady = true from hready] at h
        cases h
      · rename_i m rest _ _ hmail
        simp only [hmail]
        cases m with
        | top message prio sender =>
            cases message with
            | active => trivial
            | _ => cases h
        | callable key sender => trivial
        | getStats sender => trivial
        | _ => cases h

/-- Start a sink and perform events that meet a condition. -/
def runSink (ok : BlockActor → ActorEvent → Bool) (config : InputPortConfig)
    (es : List ActorEvent) : Option BlockActor :=
  (sink config).toOption.bind fun b =>
    TransitionSystem.runRestricted (fun b e => ok b e = true) next es b

theorem reachable_of_runSink {ok : BlockActor → ActorEvent → Bool}
    {config : InputPortConfig} {es : List ActorEvent} {b : BlockActor}
    (h : runSink ok config es = some b) :
    (system.restrict fun b e => ok b e = true).Reachable b := by
  obtain ⟨b₀, hstart, hrun⟩ := Option.bind_eq_some_iff.mp h
  cases hsink : sink config with
  | error e => simp [hsink, Except.toOption] at hstart
  | ok b₁ =>
      rw [hsink] at hstart
      cases hstart
      exact .of_restricted_events es (.init (sink_started hsink)) hrun

/-- A message is there before the block is activated. -/
def earlyMessage : List ActorEvent :=
  [arrive (.input 0 (.msg 7)), .handle {}] ++ activate

/-- The block is activated, and nothing happens. -/
def idleLive : List ActorEvent := activate ++ [ActorEvent.handle {}]

/-- One byte arrives at a live block that wants two; then the reserve is
lowered. -/
def loweredReserve : List ActorEvent :=
  idleLive ++ [arrive
    (.input 0 (.buffer ⟨10, { memory := 200, length := 4 }, 0, 1, 0⟩)),
    .handle {}, .thread (.configureInput 0 { reserveItems := 1 }),
    arrive (.input 0 .update)]

/-- A caller has its reply but has not returned while the block handles a buffer
and the kick that the call left. -/
def sharedToken : List ActorEvent :=
  idleLive ++ sendWithToken (.callable 0 5) ++
    [arrive (.input 0 (.buffer ⟨10, { memory := 200, length := 4 }, 0, 1, 0⟩)),
      .handle {}, .handle {}, .handle {}, .thread .return]

end BlockActor

theorem wakeUp_of_allowed_earlyMessage :
    ∃ b, runSink wakesPlainly {} earlyMessage = some b ∧
      b.isWorkAllowed = true ∧
      ∃ m ∈ b.mailbox, m.runsTask = true := by
  have hrun : (runSink wakesPlainly {} earlyMessage).map isWorkAllowed =
      some true := by
    decide
  obtain ⟨b, hb, hallowed⟩ := Option.map_eq_some_iff.mp hrun
  exact ⟨b, hb, hallowed,
    wakeUp_of_allowed ((reachable_of_runSink hb).restrict_mono
    fun _ _ => wakeUpsKept_of_wakesPlainly) hallowed⟩

theorem not_allowed_of_idle_idleLive :
    ∃ b, runSink wakesPlainly {} idleLive = some b ∧ b.blockState = .live ∧
      b.isReady = false ∧ b.isWorkAllowed = false := by
  have hrun : (runSink wakesPlainly {} idleLive).map (fun b =>
      (b.mailbox.isEmpty, b.holders.prepared.isEmpty, b.blockState))
      = some (true, true, .live) := by decide
  obtain ⟨b, hb, heq⟩ := Option.map_eq_some_iff.mp hrun
  simp only [Prod.mk.injEq, List.isEmpty_iff] at heq
  exact ⟨b, hb, heq.2.2,
    not_allowed_of_idle ((reachable_of_runSink hb).restrict_mono
    fun _ _ => wakeUpsKept_of_wakesPlainly) heq.1 heq.2.1⟩

/-- **An update wakes nobody up.**  The handler makes the only port ready, and
the mailbox stays empty. -/
theorem wakeUp_lost_by_update :
    ∃ b b', system.Reachable b ∧ b.blockState = .live ∧ b.prioUnique = true ∧
      b.handle {} = .ok b' ∧ b'.isWorkAllowed = true ∧ b'.mailbox = [] := by
  have hrun : (runSink (fun _ _ => true)
      { reserveItems := 2 } loweredReserve).map (fun b =>
      (b.blockState, b.prioUnique, (b.handle {}).toOption.map fun b' =>
        (b'.isWorkAllowed, b'.mailbox.isEmpty)))
      = some (.live, true, some (true, true)) := by decide
  obtain ⟨b, hb, heq⟩ := Option.map_eq_some_iff.mp hrun
  simp only [Prod.mk.injEq] at heq
  obtain ⟨hlive, hunique, hhandle⟩ := heq
  cases hb' : b.handle {} with
  | error e => simp [hb', Except.toOption] at hhandle
  | ok b' =>
      simp only [hb', Except.toOption, Option.map_some, Option.some.injEq,
        Prod.mk.injEq, List.isEmpty_iff] at hhandle
      exact ⟨b, b', (reachable_of_runSink hb).of_restrict, hlive, hunique,
        hb', hhandle⟩

/-- **A caller that has not returned swallows the kick.**  When it has, the
block is asleep. -/
theorem wakeUp_swallowed :
    ∃ b, system.Reachable b ∧ b.mailbox = [] ∧ b.holders = .none ∧
      b.isWorkAllowed = true := by
  have hrun : (runSink (fun _ _ => true) {} sharedToken).map (fun b =>
      (b.isWorkAllowed, b.mailbox.isEmpty)) = some (true, true) := by decide
  obtain ⟨b, hb, heq⟩ := Option.map_eq_some_iff.mp hrun
  simp only [Prod.mk.injEq, List.isEmpty_iff] at heq
  obtain ⟨-, -, hprepared, hsent, hwaiting, hreplied⟩ :=
    prioUnique_iff.mp (isWorkAllowed_iff.mp heq.1).1
  refine ⟨b, (reachable_of_runSink hb).of_restrict, heq.2, ?_, heq.1⟩
  cases hholders : b.holders
  simp only [hholders] at hprepared hsent hwaiting hreplied
  rw [hprepared, hsent, hwaiting, hreplied]
  rfl

end Gras
