import Gras.Lib.TransitionSystem
import Gras.Actor.MarkDone

/-!
# `mark_done` in a whole run

`MarksAt` are the states in which an event comes to a call of `mark_done`: in a
work, in an overload of `propagate_tags`, in a registered call, or in a handler.
`Clocked` adds to a block the last reading of the clock, and in every run with
a clock that does not run backwards `markDone_completes_iff` applies to all of
them.

### The argument

A flush fails in one of three ways: the front of a ring holds bytes, since the
length is still set when the ring is popped; an inline buffer stands before a
front that holds bytes; or the port has failed, so that it is not even looked
at, and the bytes would go with the queue.  None of these is about the call of
`mark_done`, so the condition is read off the ports in the state of the call
(`OutputPort.Flushes`).  The invariant of the runs is what `mark_done` needs
besides: times in order, and buffers that are where their queue believes them to
be.

On the interruptible thread `mark_done` destroys the thread it runs on, and
never returns: the destructor takes a lock that the thread holds and joins it.
The model has the call end in an error there, and `onThread` is part of the
condition.
-/

namespace Gras

/-- The reading of the clock. -/
def BlockEvent.time : BlockEvent → Option Int
  | .actor (.thread _) => none
  | .actor (.handle env) => some env.now
  | .topology env _ _ _ => some env.now

namespace BlockActor

/-! ## Where `mark_done` is called -/

/-- The state in which one of the calls of user code marks the block done. -/
inductive MarksIn (now : Int) : List Call → BlockActor → BlockActor → Prop where
  | here {c : Call} {cs : List Call} {b : BlockActor}
    (h : b.marksDone c = true) :
      MarksIn now (c :: cs) b b
  | later {c : Call} {cs : List Call} {b b₁ b' : BlockActor}
    (hcall : b.call now c = .ok b₁)
      (h : MarksIn now cs b₁ b') : MarksIn now (c :: cs) b b'

/-- The state in which the handler of a message comes to mark the block done. -/
inductive HandlerMarks (env : Env) (b : BlockActor) :
    Message → BlockActor → Prop where
  | work {m : Message} {b₀ b₁ b' : BlockActor}
    (henter : b.enter env m = some (.ok b₀))
      (hallowed : b₀.isWorkAllowed = true) (hprepare : b₀.prepare env = .ok b₁)
      (h : MarksIn env.now env.work b₁.atCall b') : HandlerMarks env b m b'
  | tags {m : Message} {b₀ b₁ b₂ s b' : BlockActor} {i : Nat}
    {overload : Nat → List Call}
      (henter : b.enter env m = some (.ok b₀))
      (hallowed : b₀.isWorkAllowed = true) (hprepare : b₀.prepare env = .ok b₁)
      (hwork : b₁.taskWork env = .ok b₂) (hi : i < b₂.numInputs)
      (hloop : forRange (finishInput env) i b₂ = .ok s)
      (hpassed : (s.trimMsgs i).passed i ≠ [])
        (ho : overload ∈ env.propagateTags)
      (h : MarksIn env.now (overload i) (s.trimMsgs i) b') :
        HandlerMarks env b m b'
  | called {key : Nat} {sender : Address} {b' : BlockActor}
      (h : MarksIn env.now env.called b b') :
        HandlerMarks env b (.callable key sender) b'
  | inputCheck {i : Nat} {b' : BlockActor}
    (htask : (b.recheckInput env i).taskMain env = .ok b')
      (hfinished : b'.inputFinished i) : HandlerMarks env b (.input i .check) b'
  | outputCheck {i : Nat}
    (hdone : (b.recheckOutput env i).outputsDone.all = true) :
      HandlerMarks env b (.output i .check) (b.recheckOutput env i)
  | inert {prio : Bool} {sender : Option Address} :
    HandlerMarks env b (.top .inert prio sender) b

/-- The state in which an event comes to mark the block done. -/
inductive MarksAt (b : BlockActor) : BlockEvent → BlockActor → Prop where
  | handle {env : Env} {m : Message} {rest : List Message} {b' : BlockActor}
      (hmail : b.mailbox = m :: rest)
        (h : HandlerMarks env (b.receive m rest) m b') :
      MarksAt b (.actor (.handle env)) b'
  | topology {env : Env} {sender : Option Address} :
      MarksAt b (.topology env 0 0 sender) (b.resize env.now 0 0)

section Points

variable {S : Supply} {b b' : BlockActor} {env : Env} {m : Message} {now : Int}

theorem MarksIn.ports {cs : List Call} (h : MarksIn now cs b b') :
    PortsMove S now b b' := by
  induction h with
  | here h => exact .refl _
  | later hcall _ ih => exact (call_ports hcall).trans ih

/-- **Up to a call of `mark_done`** the ports move. -/
theorem HandlerMarks.ports (hm : m.Supplied S) (h : HandlerMarks env b m b') :
    PortsMove S env.now b b' := by
  cases h with
  | @work m b₀ b₁ b' henter hallowed hprepare h =>
      have hstart : PortsMove S env.now b₁ b₁.atCall := .of_eq rfl rfl rfl
      exact (((enter_ports hm henter).trans (prepare_ports hprepare)).trans
        hstart).trans
        (MarksIn.ports h)
  | @tags m b₀ b₁ b₂ s b' i overload henter hallowed hprepare hwork hi hloop hpassed ho h =>
      have hfinish : PortsMove S env.now b₂ s :=
        forRange_ports hloop fun _ _ _ hf => finishInput_ports hf
      have htrim : PortsMove S env.now s (s.trimMsgs i) := .of_eq rfl rfl rfl
      exact (((((enter_ports hm henter).trans (prepare_ports hprepare)).trans
        (taskWork_ports hwork)).trans hfinish).trans htrim).trans
        (MarksIn.ports h)
  | called h => exact MarksIn.ports h
  | @inputCheck i b' htask hfinished =>
      have hcheck : PortsMove S env.now b (b.recheckInput env i) :=
        .of_eq rfl rfl rfl
      exact hcheck.trans (taskMain_ports htask)
  | outputCheck hdone => exact .of_eq rfl rfl rfl
  | inert => exact .refl b

end Points

/-! ## Ports on time -/

/-- The ports of a block at that time. -/
structure Steady (now : Int) (b : BlockActor) : Prop where
  initTime : b.initTime ≤ now
  input : ∀ i, (b.inputQueues i).idleTimes.OnTime now
  output : ∀ o, (b.outputQueues o).Sound now

section Steady

variable {b b' : BlockActor} {env : Env} {now t : Int}

theorem Steady.mono (hb : b.Steady t) (hle : t ≤ now) : b.Steady now :=
  ⟨Int.le_trans hb.initTime hle, fun i => (hb.input i).mono hle,
    fun o => (hb.output o).mono hle⟩

/-- **What moves the ports keeps them on time.** -/
theorem Steady.move (hb : b.Steady now)
    (h : PortsMove OutputPort.released now b b') :
    b'.Steady now := by
  refine ⟨h.initTime ▸ hb.initTime, fun i => ?_, fun o => ?_⟩
  · have hsteps := h.input i
    generalize b'.inputQueues i = p at hsteps ⊢
    induction hsteps with
    | refl => exact hb.input i
    | tail _ hstep ih => exact hstep.onTime ih
  · have hsteps := h.output o
    generalize b'.outputQueues o = p at hsteps ⊢
    induction hsteps with
    | refl => exact hb.output o
    | tail _ hstep ih => exact ih.step hstep

/-- The ports that a topology change adds are on time. -/
theorem Steady.resize (hb : b.Steady now) (n k : Nat) :
    (b.resize now n k).Steady now := by
  refine ⟨hb.initTime, fun i => ?_, fun o => ?_⟩
  · show (if i < b.numInputs then b.inputQueues i else _).idleTimes.OnTime now
    split
    · exact hb.input i
    · exact InputPort.resized_onTime hb.initTime
  · show (if o < b.numOutputs then b.outputQueues o else _).Sound now
    split
    · exact hb.output o
    · exact OutputPort.sound_resized hb.initTime

end Steady

end BlockActor

/-! ## Runs -/

/-- A block, and the last reading of its clock. -/
structure Clocked where
  block : BlockActor
  clock : Int

namespace Clocked

open BlockActor

/-- One event. -/
def next (s : Clocked) (e : BlockEvent) : Checked Clocked := do
  let block ← s.block.change e
  return { block, clock := e.time.getD s.clock }

/-- A block that was put into a topology at that time. -/
def StartedAt (now : Int) (b : BlockActor) : Prop :=
  ∃ (initTime : Int) (memory : Memory) (inputConfigs : Nat → InputPortConfig)
    (outputConfigs : Nat → OutputPortConfig) (env : Env)
    (numInputs numOutputs : Nat), env.now = now ∧ initTime ≤ now ∧
    { made initTime memory with inputConfigs, outputConfigs }.handleTopology
    env numInputs
      numOutputs none = .ok b

/-- The lives of a block. -/
def system : TransitionSystem Clocked BlockEvent :=
  .ofNext (fun s => StartedAt s.clock s.block) next

/-- **What the rest of the program sees to**: the clock does not run backwards,
and buffers come back, and rings are made, without offsets. -/
def Regular (s : Clocked) (e : BlockEvent) : Prop :=
  (∀ t ∈ e.time, s.clock ≤ t) ∧
    match e, s.block.mailbox with
    | .actor (.handle env), m :: _ => m.Supplied OutputPort.released ∧
        ∀ prio sender, m = .top .alloc prio sender →
          ∀ o config, ∀ q ∈ (env.outputBufferAllocator o config).1, q.AtStart
    | _, _ => True

section Runs

variable {s s' : Clocked} {e : BlockEvent} {b : BlockActor} {now : Int}

theorem steady_init (h : system.init s) : s.block.Steady s.clock := by
  obtain ⟨initTime, memory, inputConfigs, outputConfigs, env, n, k, hnow, hle,
      hstart⟩ := h
  have hmade :
      ({ made initTime memory with inputConfigs, outputConfigs } :
        BlockActor).Steady
      s.clock :=
    (Steady.mono (t := initTime) ⟨Int.le_refl _,
      fun _ => InputPort.resized_onTime (Int.le_refl _),
      fun _ => OutputPort.sound_resized (Int.le_refl _)⟩ hle)
  rw [← hnow] at hmade ⊢
  exact (hmade.resize n k).move (topology_ports hstart)

/-- **Every event** keeps the ports on time. -/
theorem steady_next (hs : s.block.Steady s.clock) (he : s.Regular e)
    (h : s.next e = .ok s') : s'.block.Steady s'.clock := by
  simp only [next, Checked.bind_eq_ok, Checked.pure_eq_ok] at h
  obtain ⟨b', hchange, rfl⟩ := h
  obtain ⟨hclock, hsupplied⟩ := he
  cases e with
  | topology env n k sender =>
      have hnow : s.block.Steady env.now := hs.mono (hclock env.now rfl)
      exact (hnow.resize n k).move (topology_ports hchange)
  | actor event =>
      rcases next_cases hchange with ⟨thread, rfl, rfl⟩ |
        ⟨env, rfl, hmail, rfl⟩ |
        ⟨env, m, rest, b₁, rfl, hmail, hhandler, rfl⟩
      · exact hs.move (threadStep_ports _ thread)
      · exact hs.mono (hclock env.now rfl)
      · have hnow : (s.block.receive m rest).Steady env.now :=
          (hs.mono (hclock env.now rfl)).move (.of_eq rfl rfl rfl)
        simp only [hmail] at hsupplied
        have h₁ := hnow.move
          (handled_ports hsupplied.1 hsupplied.2 (handled hhandler))
        exact h₁.move (.of_eq rfl rfl rfl)

/-- **`mark_done` completes** wherever it is called, in every run, exactly when
it is not called on the interruptible thread and every output port can be
flushed.  A port cannot be when bytes wait in the front of a ring, behind an
inline buffer, or on a port that has failed. -/
theorem markDone_completes (hs : (system.restrict Regular).Reachable s)
    (he : s.Regular e) (hnow : e.time = some now) (hpoint : s.block.MarksAt e b)
    (hlive : b.blockState ≠ .done) :
    (∃ b', b.markDone now = .ok b' ∧ Completed b b') ↔
      b.onThread = false ∧ ∀ o < b.numOutputs, (b.outputQueues o).Flushes := by
  have hsteady : s.block.Steady s.clock :=
    TransitionSystem.Reachable.invariant (T := system.restrict Regular)
      (fun _ h => steady_init h) (fun _ _ _ _ hs h => steady_next hs h.1 h.2) hs
  have hb : b.Steady now := by
    replace hsteady := hsteady.mono (he.1 now hnow)
    cases hpoint with
    | @handle env m rest b' hmail h =>
        cases hnow
        have hsupplied := he.2
        simp only [hmail] at hsupplied
        have hreceive : (s.block.receive m rest).Steady env.now :=
          hsteady.move (.of_eq rfl rfl rfl)
        exact hreceive.move (HandlerMarks.ports hsupplied.1 h)
    | topology =>
        cases hnow
        exact hsteady.resize 0 0
  exact markDone_completes_iff hlive hb.input hb.output

end Runs

/-! ### A source that produces and is marked done -/

/-- A message that is simple to check. -/
def plainSupply : Message → Bool
  | .output _ (.buffer buff) => buff.offset == 0
  | .output _ (.alloc queue) => queue.isPool
  | .top .alloc _ _ => false
  | _ => true

/-- A condition that is simpler to check. -/
def regularly (s : Clocked) (e : BlockEvent) : Bool :=
  e.time.all (fun t => decide (s.clock ≤ t)) &&
    match e, s.block.mailbox with
    | .actor (.handle _), m :: _ => plainSupply m
    | _, _ => true

theorem regular_of_regularly {s : Clocked} {e : BlockEvent}
    (h : s.regularly e = true) : s.Regular e := by
  simp only [regularly, Bool.and_eq_true, Option.all_eq_true,
    decide_eq_true_eq] at h
  refine ⟨fun t ht => h.1 t ht, ?_⟩
  split
  · rename_i env m rest hmail
    have hm : plainSupply m = true := by
      have hplain := h.2
      rwa [hmail] at hplain
    refine ⟨?_, fun prio sender hcase => ?_⟩
    · cases m with
      | output o message =>
          cases message with
          | buffer buff =>
              show buff.offset = 0
              simpa [plainSupply] using hm
          | alloc queue =>
              cases queue with
              | pool q => trivial
              | circ q => cases hm
          | _ => trivial
      | input i message =>
          cases message <;> trivial
      | _ => trivial
    · subst hcase
      cases hm
  · trivial

/-- A source with one port. -/
def source : Checked BlockActor :=
  (made 0 addressMemory).handleTopology {} 0 1 none

theorem source_startedAt {b : BlockActor} (h : source = .ok b) :
    StartedAt 0 b :=
  ⟨0, addressMemory, fun _ => {}, fun _ => {}, {}, 0, 1, rfl, Int.le_refl 0, h⟩

/-- The source gets a queue and the buffer of the queue, and is activated. -/
def suppliedWith (queue : BufferQueue) (buff : SBuffer) : List BlockEvent :=
  [.actor (.thread (.post (.output 0 (.alloc queue)))),
    .actor (.handle {}),
    .actor (.thread (.post (.output 0 (.buffer buff)))),
    .actor (.handle {}),
    .actor (.thread (.post (.top .active false none))),
    .actor (.handle {})]

/-- Start the source and perform events that meet a condition. -/
def runSource (ok : Clocked → BlockEvent → Bool) (es : List BlockEvent) :
    Option Clocked :=
  source.toOption.bind fun b =>
    TransitionSystem.runRestricted (fun s e => ok s e = true) next es ⟨b, 0⟩

theorem reachable_of_runSource {ok : Clocked → BlockEvent → Bool}
    {es : List BlockEvent} {s : Clocked} (h : runSource ok es = some s) :
    (system.restrict fun s e => ok s e = true).Reachable s := by
  obtain ⟨b₀, hstart, hrun⟩ := Option.bind_eq_some_iff.mp h
  cases hsource : source with
  | error e => simp [hsource, Except.toOption] at hstart
  | ok b₁ =>
      rw [hsource] at hstart
      cases hstart
      have hinit : (system.restrict fun s e => ok s e = true).init ⟨b₀, 0⟩ :=
        source_startedAt hsource
      exact .of_restricted_events es (.init hinit) hrun

/-- A work that produces and is marked done. -/
def producing : Env := { work := [.produce 0 4, .markDone] }

/-- The source when its work marks it done. -/
def atMarkDone (s : Clocked) : Option BlockActor :=
  if s.regularly (.actor (.handle producing)) then
    (s.block.atWork producing).bind fun b =>
      (b.atCall.call 0 (.produce 0 4)).toOption
  else none

theorem marksAt_of_atMarkDone {s : Clocked} {b : BlockActor}
    (h : s.atMarkDone = some b) (hlive : b.blockState ≠ .done) :
    s.Regular (.actor (.handle producing)) ∧
      s.block.MarksAt (.actor (.handle producing)) b := by
  unfold atMarkDone at h
  split at h
  case isFalse => cases h
  rename_i hregular
  refine ⟨regular_of_regularly hregular, ?_⟩
  obtain ⟨b₁, hwork, hcall⟩ := Option.bind_eq_some_iff.mp h
  obtain ⟨m, rest, b₀, hmail, henter, hallowed, hprepare⟩ :=
    atWork_eq_some hwork
  have hproduce : b₁.atCall.call 0 (.produce 0 4) = .ok b := by
    cases hok : b₁.atCall.call 0 (.produce 0 4) with
    | error e => simp [hok, Except.toOption] at hcall
    | ok b₂ =>
        rw [hok] at hcall
        cases hcall
        rfl
  exact .handle hmail (.work henter hallowed hprepare
    (.later hproduce (.here (by simpa [marksDone] using hlive))))

/-- What is known of the port of the source when it is marked done. -/
structure PortReport where
  numOutputs : Nat
  state : BlockState
  ready : Bool
  empty : Bool
  isInline : Bool
  isPool : Option Bool
  onThread : Bool
  completes : Bool
  deriving DecidableEq

/-- The report. -/
def report (b : BlockActor) : PortReport where
  numOutputs := b.numOutputs
  state := b.blockState
  ready := (b.outputQueues 0).ready
  empty := (b.outputQueues 0).empty
  isInline := (b.outputQueues 0).inlineBuffer.isSome
  isPool := (b.outputQueues 0).queue.map (·.isPool)
  onThread := b.onThread
  completes := (b.markDone 0).toOption.isSome

/-- A pool with one buffer, and a ring with one buffer. -/
def onePool : BufferQueue := .pool (.make { memory := 0, length := 16 } 1)

def oneRing : BufferQueue :=
  .circ (.make { memory := 0, length := 16 } 1 1000 16)

end Clocked

theorem markDone_completes_pool :
    ∃ s b b', Clocked.runSource Clocked.regularly
        (Clocked.suppliedWith Clocked.onePool
          ⟨1, { memory := 100, length := 16 }, 0, 0, 0⟩) =
          some s ∧ s.atMarkDone = some b ∧ b.markDone 0 = .ok b' ∧
          BlockActor.Completed b b' := by
  have hrun : ((Clocked.runSource Clocked.regularly
      (Clocked.suppliedWith Clocked.onePool
      ⟨1, { memory := 100, length := 16 }, 0, 0, 0⟩)).bind
        Clocked.atMarkDone).map
      Clocked.report =
        some ⟨1, .live, true, false, false, some true, false, true⟩ := by decide
  obtain ⟨b, hb, hreport⟩ := Option.map_eq_some_iff.mp hrun
  obtain ⟨s, hs, hpoint⟩ := Option.bind_eq_some_iff.mp hb
  simp only [Clocked.report, Clocked.PortReport.mk.injEq] at hreport
  obtain ⟨hports, hstate, hready, hempty, hinline, hpool, hthread, -⟩ := hreport
  have hlive : b.blockState ≠ .done := by
    rw [hstate]
    exact fun h => nomatch h
  obtain ⟨hregular, hmarks⟩ := Clocked.marksAt_of_atMarkDone hpoint hlive
  obtain ⟨b', hdone, hcompleted⟩ := (Clocked.markDone_completes
    ((Clocked.reachable_of_runSource hs).restrict_mono fun _ _ =>
      Clocked.regular_of_regularly)
    hregular rfl hmarks hlive).mpr ⟨hthread, fun o ho => by
      obtain rfl : o = 0 := by omega
      refine ⟨fun _ => hempty, fun _ => ⟨hready, ?_⟩⟩
      have hnone : (b.outputQueues 0).inlineBuffer = none := by
        simpa using hinline
      rw [hnone]
      intro q hq
      have hq : (b.outputQueues 0).queue = some q := hq
      simpa [hq] using hpool⟩
  exact ⟨s, b, b', hs, hpoint, hdone, hcompleted⟩

/-- **A ring** whose front has bytes in it cannot be flushed: an `ASSERT`
fails. -/
theorem markDone_fails_ring :
    ¬ ∀ (s : Clocked) (e : BlockEvent) (b : BlockActor) (now : Int),
      Clocked.system.Reachable s → s.Regular e → e.time = some now →
        s.block.MarksAt e b →
        b.blockState = .live → ∃ b', b.markDone now = .ok b' ∧
        BlockActor.Completed b b' := by
  intro hall
  have hrun : ((Clocked.runSource (fun _ _ => true)
      (Clocked.suppliedWith Clocked.oneRing
      ⟨1, { memory := 1000, length := 16, userIndex := 0 }, 0, 0, 0⟩)).bind
      Clocked.atMarkDone).map Clocked.report =
      some ⟨1, .live, true, false, false, some false, false, false⟩ := by decide
  obtain ⟨b, hb, hreport⟩ := Option.map_eq_some_iff.mp hrun
  obtain ⟨s, hs, hpoint⟩ := Option.bind_eq_some_iff.mp hb
  simp only [Clocked.report, Clocked.PortReport.mk.injEq] at hreport
  obtain ⟨-, hstate, -, -, -, -, -, hfails⟩ := hreport
  have hlive : b.blockState ≠ .done := by
    rw [hstate]
    exact fun h => nomatch h
  obtain ⟨hregular, hmarks⟩ := Clocked.marksAt_of_atMarkDone hpoint hlive
  obtain ⟨b', hdone, -⟩ :=
    hall s _ b 0 (Clocked.reachable_of_runSource hs).of_restrict hregular
    rfl hmarks hstate
  simp [hdone, Except.toOption] at hfails

end Gras
