import Gras.Actor.MsgDelivery
import Gras.Actor.WakeUpRuns

/-!
# The messages of an input are delivered in order

`Delivery` adds to a block the history of each of its inputs: the messages that
were received while the block was not done, and what the user code of the block
popped.  `PopsServed` is the invariant: the history is that of a queue, which
holds what is still to be popped.

Work may pop as it likes.  Elsewhere (`MsgsServed`) the index is of no use: it
is reset, or left where it is, without regard to the messages that are stored.

### What the condition is for

The task erases from a port as many messages as were read since the last time,
and the count of what was read is set to zero at the start of a task only.  So a
registered call that pops between two tasks begins where the last work ended,
behind messages that came since.  The condition lets such a pop be made when
there is nothing it could miss.
-/

namespace Gras

namespace BlockActor

/-! ## What an event adds -/

/-- The message that an input of a block that is not done receives. -/
def received (i : Nat) (b : BlockActor) : Message → List (FifoEvent Pmc)
  | .input j (.msg msg) =>
      if j = i ∧ b.blockState ≠ .done then [.arrive msg] else []
  | _ => []

/-- What is popped in the handler of a message. -/
def handlerTakes (env : Env) (i : Nat) (b : BlockActor) (m : Message) :
    List (FifoEvent Pmc) :=
  match b.enter env m, m with
  | some (.ok b₀), _ => b₀.taskTakes env i
  | none, .callable _ _ => b.callsTake env.now i env.called
  | _, _ => []

/-- What an event adds to the history of an input. -/
def passes (i : Nat) (b : BlockActor) : BlockEvent → List (FifoEvent Pmc)
  | .actor (.handle env) =>
      match b.mailbox with
      | [] => []
      | m :: rest =>
          (b.receive m rest).received i m ++
            (b.receive m rest).handlerTakes env i m
  | _ => []

/-! ## Handlers -/

section Handlers

variable {b b' b₀ : BlockActor} {env : Env} {now : Int} {m : Message} {i : Nat}

/-- **What a handler stores before its task** is to be popped after all that
was. -/
theorem enter_delivers (h : b.enter env m = some (.ok b₀)) :
    Delivers (b.awaiting (fun _ => true) i) (b.received i m)
      (b₀.awaiting (fun _ => true) i) := by
  cases m with
  | input j message =>
      cases message with
      | msg msg =>
          simp only [enter] at h
          split at h
          · cases h
          · rename_i hlive
            simp only [Option.some.injEq, storeInputMsg, updateInputAvail,
              Checked.bind_eq_ok, Checked.pure_eq_ok] at h
            obtain ⟨p, -, rfl⟩ := h
            rw [awaiting_erased hlive, received,
              awaiting_erased (by exact hlive)]
            show Delivers _ _
                (some (Function.update b.inputMsgs j
                  (b.inputMsgs j ++ [msg]) i))
            by_cases hji : j = i
            · subst hji
              rw [if_pos ⟨rfl, hlive⟩, Function.update_self]
              intro q hq
              have hq : q = b.inputMsgs j := hq _ rfl
              subst hq
              exact ⟨_, .arrive (.nil _), fun l hl => Option.some.inj hl⟩
            · rw [if_neg fun h => hji h.1, Function.update_of_ne (Ne.symm hji)]
              exact .refl _
      | buffer buffer =>
          simp only [enter] at h
          split at h
          · cases h
          · simp only [Option.some.injEq, storeInputBuffer, updateInputAvail,
              Checked.bind_eq_ok, Checked.pure_eq_ok] at h
            obtain ⟨p, -, q, -, rfl⟩ := h
            exact .refl _
      | check =>
          simp only [enter, Option.some.injEq, Checked.pure_eq_ok] at h
          exact h ▸ .refl _
      | _ => cases h
  | output j message =>
      cases message with
      | buffer buffer =>
          simp only [enter] at h
          split at h
          · cases h
          · simp only [Option.some.injEq, storeOutputBuffer, Checked.bind_eq_ok,
              Checked.pure_eq_ok] at h
            obtain ⟨p, -, rfl⟩ := h
            exact .refl _
      | _ => cases h
  | selfKick =>
      simp only [enter, Option.some.injEq, Checked.pure_eq_ok] at h
      exact h ▸ .refl _
  | _ => cases h

theorem leave_delivers (h : b.leave env m = .ok b') :
    Delivers (b.awaiting (fun _ => true) i) []
      (b'.awaiting (fun _ => true) i) := by
  unfold leave at h
  split at h
  · split at h
    · exact .markDone h
    · rw [Checked.pure_eq_ok] at h
      exact h ▸ .refl _
  · rw [Checked.pure_eq_ok] at h
    exact h ▸ .refl _

theorem acknowledge_msgData (sender : Option Address) (b : BlockActor) :
    (b.acknowledge sender).msgData = b.msgData := by
  cases sender <;> rfl

theorem handleInputUpdate_msgData (h : b.handleInputUpdate env i = .ok b') :
    b'.msgData = b.msgData := by
  unfold handleInputUpdate at h
  split at h
  · rw [Checked.pure_eq_ok] at h
    rw [h]
  · simp only [updateInputAvail, Checked.bind_eq_ok, Checked.pure_eq_ok,
      Prod.exists] at h
    obtain ⟨p, memory, -, q, -, rfl⟩ := h
    rfl

theorem handleOutputUpdate_msgData (h : b.handleOutputUpdate env i = .ok b') :
    b'.msgData = b.msgData := by
  unfold handleOutputUpdate at h
  split at h
  · rw [Checked.pure_eq_ok] at h
    rw [h]
  · simp only [Checked.bind_eq_ok, Checked.pure_eq_ok] at h
    obtain ⟨p, -, rfl⟩ := h
    rfl

/-- **The other handlers** of a block that is not done: only a registered call
pops. -/
theorem handler_delivers (h : b.handler env m = .ok b')
    (hlive : b.blockState ≠ .done) (htask : b.enter env m = none)
    (hcalled : ∀ key sender, m = .callable key sender →
      CallsMeet (PopsAwaited fun _ => true) env.now env.called b) :
    Delivers (b.awaiting (fun _ => true) i)
      (b.received i m ++ b.handlerTakes env i m)
      (b'.awaiting (fun _ => true) i) := by
  have hnone : ∀ j msg, m ≠ .input j (.msg msg) := by
    intro j msg hm
    subst hm
    simp [enter, hlive] at htask
  have hreceived : b.received i m = [] := by
    unfold received
    split
    · rename_i j msg
      exact absurd rfl (hnone j msg)
    · rfl
  rw [hreceived, List.nil_append]
  have hquiet : (∀ key sender, m ≠ .callable key sender) →
      b.handlerTakes env i m = [] := by
    intro hm
    cases m with
    | callable key sender => exact absurd rfl (hm key sender)
    | _ => simp only [handlerTakes, htask]
  by_cases hcall : ∃ key sender, m = .callable key sender
  · obtain ⟨key, sender, rfl⟩ := hcall
    have htakes : b.handlerTakes env i (.callable key sender) =
        b.callsTake env.now i env.called := rfl
    rw [htakes]
    rw [handler, Checked.pure_eq_ok] at h
    subst h
    show Delivers _ _
        ((b.attempt env.now env.called).awaiting (fun _ => true) i)
    exact attempt_delivers (hcalled key sender rfl)
  · rw [hquiet fun key sender hm => hcall ⟨key, sender, hm⟩]
    cases handled h with
    | task henter => simp [htask] at henter
    | tag j tag =>
        rw [handleInputTag, if_neg hlive]
        exact .refl _
    | inputUpdate hup =>
        exact .of_eq (awaiting_of_msgData (handleInputUpdate_msgData hup))
    | outputUpdate hup =>
        exact .of_eq (awaiting_of_msgData (handleOutputUpdate_msgData hup))
    | outputAlloc hset =>
        simp only [handleOutputAlloc, Checked.bind_eq_ok,
          Checked.pure_eq_ok] at hset
        obtain ⟨p, -, rfl⟩ := hset
        exact .refl _
    | topAlloc halloc =>
        simp only [handleTopAlloc, Checked.bind_eq_ok,
          Checked.pure_eq_ok] at halloc
        obtain ⟨b₁, hloop, rfl⟩ := halloc
        refine .of_eq
          (awaiting_of_msgData ((acknowledge_msgData _ b₁).trans ?_))
        refine forRange_rule hloop (P := fun _ s => s.msgData = b.msgData) rfl
          fun i _ s s' hs hf => ?_
        obtain ⟨config, p, -, rfl⟩ := allocateOutput_cases hf
        exact hs
    | @outputsDone j _ hall hdone =>
        show Delivers ((b.recheckOutput env j).awaiting (fun _ => true) i) _ _
        exact .markDone hdone
    | @inert prio sender b₁ hdone =>
        rw [awaiting_of_msgData (acknowledge_msgData sender b₁)]
        exact .markDone hdone
    | @active prio sender =>
        obtain ⟨t, hactive⟩ := handleTopActive_eq env sender b
        rw [hactive, awaiting_erased hlive,
          awaiting_erased (fun hdone => by cases hdone)]
        exact .refl _
    | callable => exact absurd ⟨_, _, rfl⟩ hcall
    | quiet hstate hdata =>
        refine .of_eq (awaiting_congr hstate ?_ ?_)
        · exact congrFun (congrArg Data.inputMsgs hdata.data) i
        · exact congrFun (congrArg Data.numInputMsgsRead hdata.data) i

/-- **The topology changes**: an old port keeps its messages, a new one has
none. -/
theorem handleTopology_awaiting {n k : Nat} {sender : Option Address}
    {l : List Pmc} (h : b.handleTopology env n k sender = .ok b')
    (hl : l ∈ b'.awaiting (fun _ => true) i) :
    b.blockState ≠ .done ∧ l = if i < b.numInputs then b.inputMsgs i
      else [] := by
  simp only [handleTopology, Checked.bind_eq_ok, Checked.pure_eq_ok] at h
  obtain ⟨b₁, hrelease, b₂, hin, b₃, hout, rfl⟩ := h
  have h₂ : b₂.msgData = b₁.msgData := forRange_rule hin
    (P := fun _ s => s.msgData = b₁.msgData) rfl
    fun i _ s s' hs hf => (handleInputUpdate_msgData hf).trans hs
  have h₃ : b₃.msgData = b₂.msgData := forRange_rule hout
    (P := fun _ s => s.msgData = b₂.msgData) rfl
    fun i _ s s' hs hf => (handleOutputUpdate_msgData hf).trans hs
  rw [awaiting_of_msgData ((acknowledge_msgData sender b₃).trans (h₃.trans h₂))]
    at hl
  unfold releaseUnconnected at hrelease
  split at hrelease
  · rw [awaiting_done (markDone_blockState hrelease)] at hl
    cases hl
  · rw [Checked.pure_eq_ok] at hrelease
    subst hrelease
    by_cases hdone : b.blockState = .done
    · rw [awaiting_done (by exact hdone)] at hl
      cases hl
    · rw [awaiting_erased (by exact hdone)] at hl
      exact ⟨hdone, (Option.some.inj hl).symm⟩

end Handlers

end BlockActor

/-! ## Runs -/

/-- A block, and what was received and popped on each of its inputs while it was
not done. -/
structure Delivery where
  block : BlockActor
  history : Nat → List (FifoEvent Pmc)

namespace Delivery

open BlockActor

/-- The history that goes on after an event; a port that is added has none. -/
def kept (s : Delivery) : BlockEvent → Nat → List (FifoEvent Pmc)
  | .topology _ _ _ _, i => if i < s.block.numInputs then s.history i else []
  | .actor _, i => s.history i

/-- One event. -/
def next (s : Delivery) (e : BlockEvent) : Checked Delivery := do
  let block ← s.block.change e
  return { block, history := fun i => s.kept e i ++ s.block.passes i e }

/-- The lives of a block from its start. -/
def system : TransitionSystem Delivery BlockEvent :=
  .ofNext (fun s => s.block.Started ∧ s.history = fun _ => []) next

/-- The runs of a block that is not done. -/
def liveSystem : TransitionSystem Delivery BlockEvent :=
  system.restrict fun s _ => s.block.blockState ≠ .done

/-- **When the messages are served.**  A registered call, and an overload of
`propagate_tags` on a port that has been finished, pop only what holds no
message. -/
def MsgsServed (s : Delivery) : BlockEvent → Prop
  | .actor (.handle env) =>
      match s.block.mailbox with
      | [] => True
      | m :: rest =>
          (∀ b₀, (s.block.receive m rest).enter env m = some (.ok b₀) →
            TaskPops env b₀) ∧
          ∀ key sender, m = .callable key sender →
            CallsMeet (PopsAwaited fun _ => true) env.now env.called
              (s.block.receive m rest)
  | _ => True

/-- **The invariant**: the history of an input is that of a queue, which holds
what is to be popped. -/
def PopsServed (s : Delivery) : Prop :=
  ∀ i < s.block.numInputs, ∃ q, FifoEvent.Serves [] (s.history i) q ∧
    ∀ l ∈ s.block.awaiting (fun _ => true) i, q = l

section Runs

variable {s s' : Delivery} {e : BlockEvent} {env : Env} {i : Nat}

theorem popsServed_init (h : system.init s) : s.PopsServed := by
  obtain ⟨⟨initTime, memory, inputConfigs, outputConfigs, env, n, k,
      hstart⟩, hnone⟩ := h
  intro i hi
  rw [hnone]
  refine ⟨[], .nil [], fun l hl => ?_⟩
  obtain ⟨-, hl⟩ := handleTopology_awaiting hstart hl
  rw [hl]
  split <;> rfl

/-- **The handler of a message** goes on with the history. -/
theorem handler_served {m : Message} {rest : List Message} {b₁ : BlockActor}
    (hlive : s.block.blockState ≠ .done)
    (hserved : s.MsgsServed (.actor (.handle env)))
    (hmail : s.block.mailbox = m :: rest) (hi : i < s.block.numInputs)
    (h : (s.block.receive m rest).handler env m = .ok b₁) :
    Delivers (s.block.awaiting (fun _ => true) i)
      (s.block.passes i (.actor (.handle env)))
      (b₁.awaiting (fun _ => true) i) := by
  simp only [MsgsServed, hmail] at hserved
  obtain ⟨htasks, hcalled⟩ := hserved
  have hpasses : s.block.passes i (.actor (.handle env)) =
      (s.block.receive m rest).received i m ++
        (s.block.receive m rest).handlerTakes env i m := by
    simp only [passes, hmail]
  rw [hpasses]
  show Delivers ((s.block.receive m rest).awaiting (fun _ => true) i) _ _
  cases henter : (s.block.receive m rest).enter env m with
  | none => exact handler_delivers h hlive henter hcalled
  | some store =>
      obtain ⟨b₀, b₂, rfl, htask, hleave⟩ := handler_of_enter henter h
      have htakes : (s.block.receive m rest).handlerTakes env i m =
          b₀.taskTakes env i := by
        simp only [handlerTakes, henter]
      have hports : b₀.numInputs = (s.block.receive m rest).numInputs :=
        enter_numInputs henter
      have hmain := taskMain_delivers (i := i) (htasks b₀ henter)
        (by rw [hports]; exact hi) htask
      have hlast := hmain.trans (leave_delivers hleave)
      rw [List.append_nil] at hlast
      rw [htakes]
      exact (enter_delivers henter).trans hlast

/-- **Every event** that meets the condition keeps the invariant. -/
theorem popsServed_next (hs : s.PopsServed) (hlive : s.block.blockState ≠ .done)
    (hserved : s.MsgsServed e) (h : s.next e = .ok s') : s'.PopsServed := by
  simp only [next, Checked.bind_eq_ok, Checked.pure_eq_ok] at h
  obtain ⟨b', hchange, rfl⟩ := h
  intro i hi
  cases e with
  | topology env n k sender =>
      show ∃ q,
        FifoEvent.Serves []
          ((if i < s.block.numInputs then s.history i else []) ++ []) q ∧ _
      rw [List.append_nil]
      by_cases hold : i < s.block.numInputs
      · rw [if_pos hold]
        obtain ⟨q, hserves, hq⟩ := hs i hold
        refine ⟨q, hserves, fun l hl => ?_⟩
        obtain ⟨-, rfl⟩ := handleTopology_awaiting hchange hl
        rw [if_pos hold]
        exact hq _ (awaiting_erased hlive)
      · rw [if_neg hold]
        refine ⟨[], .nil [], fun l hl => ?_⟩
        obtain ⟨-, rfl⟩ := handleTopology_awaiting hchange hl
        rw [if_neg hold]
  | actor event =>
      show ∃ q, FifoEvent.Serves []
          (s.history i ++ s.block.passes i (.actor event)) q ∧
        ∀ l ∈ b'.awaiting (fun _ => true) i, q = l
      have hpass : i < s.block.numInputs ∧
          Delivers (s.block.awaiting (fun _ => true) i)
            (s.block.passes i (.actor event))
            (b'.awaiting (fun _ => true) i) := by
        rcases next_cases hchange with ⟨thread, rfl, rfl⟩ |
          ⟨env, rfl, hmail, rfl⟩ |
          ⟨env, m, rest, b₁, rfl, hmail, hhandler, rfl⟩
        · have hheld := InputsHeld.threadStep s.block thread
          refine ⟨hheld.numInputs ▸ hi,
            .of_eq (awaiting_congr hheld.state ?_ ?_)⟩
          · exact congrFun hheld.msgs i
          · exact congrFun hheld.msgsRead i
        · refine ⟨hi, ?_⟩
          have hpasses : s.block.passes i (.actor (.handle env)) = [] := by
            simp only [passes, hmail]
          rw [hpasses]
          exact .refl _
        · have hports : b₁.numInputs = s.block.numInputs :=
            handled_numInputs (b := s.block.receive m rest) (handled hhandler)
          have hi : i < s.block.numInputs := hports ▸ hi
          refine ⟨hi, ?_⟩
          show Delivers _ _ (b₁.awaiting (fun _ => true) i)
          exact handler_served hlive hserved hmail hi hhandler
      obtain ⟨hi, hdelivers⟩ := hpass
      obtain ⟨q, hserves, hq⟩ := hs i hi
      obtain ⟨q', hserves', hq'⟩ := hdelivers q hq
      exact ⟨q', hserves.append hserves', hq'⟩

/-- **Messages are delivered once and in order** in every run of a block that is
not done whose events meet the condition.

The messages of a port are erased by the task that popped them, and the count of
those it popped stays until the next task.  A pop of a registered call between
two tasks therefore begins behind messages it has never seen; the condition
allows it only while none is stored. -/
theorem msgs_in_order (hs : (liveSystem.restrict MsgsServed).Reachable s)
    (hi : i < s.block.numInputs) : FifoEvent.InOrder (s.history i) := by
  have hserved : s.PopsServed := TransitionSystem.Reachable.invariant
    (T := liveSystem.restrict MsgsServed) (P := PopsServed)
    (fun _ h => popsServed_init h)
    (fun _ _ _ _ hs h => popsServed_next hs h.2.1 h.1 h.2.2) hs
  obtain ⟨q, hserves, -⟩ := hserved i hi
  exact hserves.inOrder

end Runs

/-! ### A sink that pops its messages, in work or elsewhere -/

/-- A condition that is simpler to check: only work pops. -/
def servesPlainly (s : Delivery) : BlockEvent → Bool
  | .actor (.thread _) => s.block.blockState != .done
  | .actor (.handle env) => env.propagateTags.isNone && env.called.isEmpty &&
      (s.block.blockState != .done)
  | .topology _ _ _ _ => false

theorem served_of_plainly {s : Delivery} {e : BlockEvent}
    (h : s.servesPlainly e = true) :
    s.block.blockState ≠ .done ∧ s.MsgsServed e := by
  cases e with
  | topology env n k sender => cases h
  | actor event =>
      cases event with
      | thread event => exact ⟨by simpa [servesPlainly] using h, trivial⟩
      | handle env =>
          simp only [servesPlainly, Bool.and_eq_true, Option.isNone_iff_eq_none,
            List.isEmpty_iff, bne_iff_ne] at h
          obtain ⟨⟨htags, hcalled⟩, hstate⟩ := h
          refine ⟨hstate, ?_⟩
          show match s.block.mailbox with
            | [] => True
            | m :: rest => _
          split
          · trivial
          · refine ⟨fun b₀ _ _ b₁ _ b₂ _ k _ t _ _ f hf => ?_,
              fun key sender _ => ?_⟩
            · rw [htags] at hf
              cases hf
            · rw [hcalled]
              trivial

/-- Start a sink with one port and perform events that meet a condition. -/
def runSink (ok : Delivery → BlockEvent → Bool) (es : List ActorEvent) :
    Option Delivery :=
  (sink {}).toOption.bind fun b =>
    TransitionSystem.runRestricted (fun s e => ok s e = true) next
      (es.map BlockEvent.actor)
      ⟨b, fun _ => []⟩

theorem reachable_of_runSink {ok : Delivery → BlockEvent → Bool}
    {es : List ActorEvent} {s : Delivery} (h : runSink ok es = some s) :
    (system.restrict fun s e => ok s e = true).Reachable s := by
  obtain ⟨b₀, hstart, hrun⟩ := Option.bind_eq_some_iff.mp h
  cases hsink : sink {} with
  | error e => simp [hsink, Except.toOption] at hstart
  | ok b₁ =>
      rw [hsink] at hstart
      cases hstart
      exact .of_restricted_events _ (.init ⟨sink_started hsink, rfl⟩) hrun

/-- A run that meets the simpler condition is one of a block that is not
done. -/
theorem reachable_of_plainly {s : Delivery}
    (h : (system.restrict fun s e => servesPlainly s e = true).Reachable s) :
    (liveSystem.restrict MsgsServed).Reachable s := by
  induction h with
  | init hinit => exact .init hinit
  | step _ hstep ih =>
      obtain ⟨hlive, hserved⟩ := served_of_plainly hstep.1
      exact .step ih ⟨hserved, hlive, hstep.2⟩

/-- Two messages arrive at a live sink that does not pop yet; then it does
that. -/
def popsMsgs (work : List Call) : List ActorEvent :=
  activate ++ [ActorEvent.handle {}, arrive (.input 0 (.msg 7)), .handle {},
    arrive (.input 0 (.msg 8)), .handle {}, .handle { work }]

/-- A registered call pops; the kicks before it come while it holds the
token. -/
def callPops : List ActorEvent :=
  sendWithToken (.callable 0 5) ++
    [ActorEvent.handle {}, .handle {}, .handle { called := [.popInputMsg 0] }]

/-- The block is not done, and its first input has this history. -/
def firstHistory (s : Delivery) : Bool × Nat × List (FifoEvent Pmc) :=
  (s.block.blockState != .done, s.block.numInputs, s.history 0)

end Delivery

theorem msgs_in_order_popsMsgs :
    ∃ s, Delivery.runSink Delivery.servesPlainly (Delivery.popsMsgs
        [.popInputMsg 0, .popInputMsg 0, .popInputMsg 0]) = some s ∧
      s.history 0 =
        [.arrive 7, .arrive 8, .take (some 7), .take (some 8), .take none] ∧
      FifoEvent.InOrder (s.history 0) := by
  have hrun : (Delivery.runSink Delivery.servesPlainly (Delivery.popsMsgs
      [.popInputMsg 0, .popInputMsg 0, .popInputMsg 0])).map
      Delivery.firstHistory =
      some (true, 1,
        [.arrive 7, .arrive 8, .take (some 7), .take (some 8),
          .take none]) := by
    decide
  obtain ⟨s, hs, heq⟩ := Option.map_eq_some_iff.mp hrun
  simp only [Delivery.firstHistory, Prod.mk.injEq] at heq
  obtain ⟨-, hports, hhistory⟩ := heq
  have hreach :=
    Delivery.reachable_of_plainly (Delivery.reachable_of_runSink hs)
  exact ⟨s, hs, hhistory, Delivery.msgs_in_order hreach (by omega)⟩

/-- **A registered call after a work that popped.**  The work took the first of
two messages, and the call is told that there is none. -/
theorem msg_withheld_from_call :
    ¬ ∀ s : Delivery, Delivery.liveSystem.Reachable s →
      s.block.blockState ≠ .done →
      ∀ i < s.block.numInputs, FifoEvent.InOrder (s.history i) := by
  intro hall
  have hrun : (Delivery.runSink (fun s _ => s.block.blockState != .done)
      (Delivery.popsMsgs [.popInputMsg 0] ++ Delivery.callPops)).map
      Delivery.firstHistory =
      some (true, 1, [.arrive 7, .arrive 8, .take (some 7), .take none]) := by
    decide
  obtain ⟨s, hs, heq⟩ := Option.map_eq_some_iff.mp hrun
  simp only [Delivery.firstHistory, Prod.mk.injEq, bne_iff_ne] at heq
  obtain ⟨hlive, hports, hhistory⟩ := heq
  have hreach : Delivery.liveSystem.Reachable s :=
    (Delivery.reachable_of_runSink hs).restrict_mono fun _ _ h => by
      simpa using h
  have horder := hall s hreach hlive 0 (by omega)
  rw [hhistory] at horder
  have hall := horder.refused [.arrive 7, .arrive 8, .take (some 7)] [] rfl
  cases hall

end Gras
