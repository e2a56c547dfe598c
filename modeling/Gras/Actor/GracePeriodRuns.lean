import Gras.Actor.MarkDoneRuns
import Gras.Actor.GracePeriod

/-!
# What the polling loop stops in runs of a block

A block, the producers upstream of its inputs, and the polling loop of
`TopBlock::wait()`.

* `stops_finished`: in a run whose steps meet the condition, a block that is
  about to handle the message of the polling loop is really finished.
* `stops_unfinished`: a block with a backlog, and with an input that is only
  slow, is stopped as soon as another input has been done for the grace period.

### What the condition is for

The polling loop knows two things of a block: that some input is declared done,
and how long ago the block did something.  It cannot know whether an upstream
that is not done is only slow.  `EndsOnly` asks at the poll for what the loop
takes for granted, `EndReached`; and since the message of the poll is handled
some time later, it asks that until then nothing takes this away again: no
producer that is not done posts, none starts again, no input is configured anew,
and no ports are added.

A producer may start again at other times, but not on an input that is declared
done.  A block forgets its producers only when it is activated, so such an input
would count as finished for good.
-/

namespace Gras

namespace BlockActor

section Handlers

variable {producers : Nat → Nat} {out : List Message}
  {b b' b₀ : BlockActor} {env : Env}
  {m : Message} {i j : Nat}

/-! ## Before and after the task -/

/-- **Before its task** a handler stores at most what its message feeds. -/
theorem enter_idle (h : b.enter env m = some (.ok b₀)) (hm : m.feeds j = false)
    (hj : b.Idle j) : b₀.Idle j := by
  cases m with
  | input k message =>
      cases message with
      | msg msg =>
          simp only [enter] at h
          split at h
          · cases h
          · simp only [Option.some.injEq, storeInputMsg] at h
            have hjk : j ≠ k := fun hjk => by simp [Message.feeds, hjk] at hm
            refine (updateInputAvail_spends h).idle j ⟨?_, hj.2⟩
            show Function.update b.inputMsgs k _ j = []
            rw [Function.update_of_ne hjk]
            exact hj.1
      | buffer buffer =>
          simp only [enter] at h
          split at h
          · cases h
          · simp only [Option.some.injEq, storeInputBuffer,
              Checked.bind_eq_ok] at h
            obtain ⟨p, -, h⟩ := h
            have hjk : j ≠ k := fun hjk => by simp [Message.feeds, hjk] at hm
            refine (updateInputAvail_spends h).idle j ⟨hj.1, ?_⟩
            rw [setInput_inputQueues, Function.update_of_ne hjk]
            exact hj.2
      | check =>
          simp only [enter, Option.some.injEq, Checked.pure_eq_ok] at h
          exact h ▸ hj
      | _ => cases h
  | output o message =>
      cases message with
      | buffer buffer =>
          simp only [enter] at h
          split at h
          · cases h
          · simp only [Option.some.injEq, storeOutputBuffer, Checked.bind_eq_ok,
              Checked.pure_eq_ok] at h
            obtain ⟨p, -, rfl⟩ := h
            exact hj
      | _ => cases h
  | selfKick =>
      simp only [enter, Option.some.injEq, Checked.pure_eq_ok] at h
      exact h ▸ hj
  | _ => cases h

/-- A check notes that an input is done when it is. -/
theorem enter_truly (hcheck : ∀ i, m = .input i .check →
      env.tokenUnique (b.inputTokens i) = decide (producers i = 0))
    (htruly : b.DoneTruly producers) (h : b.enter env m = some (.ok b₀)) :
    b₀.DoneTruly producers := by
  intro k hdone
  by_cases hm : m = .input k .check
  · subst hm
    simp only [enter, Option.some.injEq, Checked.pure_eq_ok] at h
    subst h
    have hbit : (b.inputsDone.set k (env.tokenUnique (b.inputTokens k))).bit k =
        true := hdone
    rw [BitSet.set_bit_self, hcheck k rfl] at hbit
    exact of_decide_eq_true hbit
  · rw [(enter_done h).2 k hm] at hdone
    exact htruly k hdone

/-- **A handler that runs a task** keeps a block stoppable: before it stores
what has arrived, the block was still fed by its message. -/
theorem task_stoppable (hs : b.Stoppable producers) {rest : List Message}
    (hmail : b.mailbox = m :: rest)
    (hcheck : ∀ i, m = .input i .check →
      env.tokenUnique (b.inputTokens i) = decide (producers i = 0))
    (hmeet : HandlerMeets (CallKeeps producers) env (b.receive m rest) m)
    {store : Checked BlockActor}
    (henter : (b.receive m rest).enter env m = some store)
    (h : (b.receive m rest).handler env m = .ok b') :
    b'.Stoppable producers := by
  obtain ⟨b₀, b₁, rfl, htask, hleave⟩ := handler_of_enter henter h
  have hcontrol := (enter_control henter).1
  have hmail₀ : b₀.mailbox = rest := congrArg Control.mailbox hcontrol
  have hstate₀ : b₀.blockState = b.blockState :=
    congrArg Control.blockState hcontrol
  have hs₀ : b₀.Stoppable producers := by
    constructor
    · have hreceived : (b.receive m rest).DoneTruly producers := hs.truly
      exact enter_truly (b := b.receive m rest) hcheck hreceived henter
    · have hholders : b₀.holders = b.holders :=
        congrArg Control.holders hcontrol
      rw [hholders]
      exact hs.prepared
    · intro hwaits
      rw [hmail₀] at hwaits
      have hfinished := hs.finished (hmail ▸ List.mem_cons_of_mem m hwaits)
      have hnum : b₀.numInputs = (b.receive m rest).numInputs :=
        enter_numInputs henter
      have hconfigs : b₀.inputConfigs = (b.receive m rest).inputConfigs :=
        enter_configs henter
      refine hfinished.keep hnum hconfigs
        (fun hdone => hstate₀.trans hdone) fun j hj => ?_
      obtain ⟨hnone, hfed⟩ := hj
      refine ⟨hnone, fun hfed' => hfed ?_⟩
      rcases hfed' with hidle | ⟨m', hm', hfeed⟩
      · by_cases hfeed : m.feeds j = true
        · exact .inr ⟨m, hmail ▸ List.mem_cons_self, hfeed⟩
        · exact .inl fun hj =>
            hidle (enter_idle henter (by simpa using hfeed) hj)
      · rw [hmail₀] at hm'
        exact .inr ⟨m', hmail ▸ List.mem_cons_of_mem m hm', hfeed⟩
  have hs₁ := taskMain_stoppable hs₀ (hmeet.task b₀ henter) htask
  unfold leave at hleave
  split at hleave
  · split at hleave
    · exact hs₁.addsNothing (markDone_adds hleave)
    · rw [Checked.pure_eq_ok] at hleave
      exact hleave ▸ hs₁
  · rw [Checked.pure_eq_ok] at hleave
    exact hleave ▸ hs₁

/-! ## The other handlers -/

theorem Spends.acknowledge (sender : Option Address) (b : BlockActor) :
    Spends b (b.acknowledge sender) := by
  cases sender with
  | none => exact .refl b
  | some a => exact .of_eq rfl rfl rfl rfl

theorem handleTopActive_ends (env : Env) (sender : Option Address)
    (b : BlockActor) :
    (b.handleTopActive env sender).mailbox = b.mailbox ++ [Message.selfKick] ∧
      (b.handleTopActive env sender).inputsDone = b.inputsDone ∧
      (b.handleTopActive env sender).holders = b.holders := by
  obtain ⟨t, hactive⟩ := handleTopActive_eq env sender b
  rw [hactive]
  exact ⟨rfl, rfl, rfl⟩

/-- A change of the topology notes no end of a stream. -/
theorem handleTopology_ends {n k : Nat} {sender : Option Address}
    (h : b.handleTopology env n k sender = .ok b') :
    b'.mailbox = b.mailbox ∧ b'.holders = b.holders ∧
      ∀ i, b'.inputsDone.bit i = true → b.inputsDone.bit i = true := by
  simp only [handleTopology, Checked.bind_eq_ok, Checked.pure_eq_ok] at h
  obtain ⟨b₁, hrelease, b₂, hin, b₃, hout, rfl⟩ := h
  have hreleased : b₁.mailbox = b.mailbox ∧ b₁.holders = b.holders ∧
      b₁.inputsDone = resizeBits n false b.inputsDone := by
    unfold releaseUnconnected at hrelease
    split at hrelease
    · rcases markDone_control hrelease with ⟨-, hsame⟩ | ⟨-, hcontrol⟩
      · rw [hsame]
        exact ⟨rfl, rfl, rfl⟩
      · exact ⟨congrArg Control.mailbox hcontrol,
          congrArg Control.holders hcontrol,
          congrArg Control.inputsDone hcontrol⟩
    · rw [Checked.pure_eq_ok] at hrelease
      exact hrelease ▸ ⟨rfl, rfl, rfl⟩
  have hupdated : b₃.control = b₁.control :=
    (forRange_control hout fun o s s' hf => handleOutputUpdate_control hf).trans
      (forRange_control hin fun i s s' hf => handleInputUpdate_control hf)
  have hreplied : (b₃.acknowledge sender).control = b₁.control := by
    cases sender <;> exact hupdated
  refine ⟨(congrArg Control.mailbox hreplied).trans hreleased.1,
    (congrArg Control.holders hreplied).trans hreleased.2.1, fun i hi => ?_⟩
  have hdone : (b₃.acknowledge sender).inputsDone =
      resizeBits n false b.inputsDone :=
    (congrArg Control.inputsDone hreplied).trans hreleased.2.2
  rw [hdone] at hi
  have hbit : (if i < b.inputsDone.size then b.inputsDone.bit i
      else false) = true := hi
  split at hbit
  · exact hbit
  · cases hbit

/-- **Registered calls** keep a block stoppable. -/
theorem callable_stoppable {key : Nat} {sender : Address}
    (hs : b.Stoppable producers)
    (hmeet : HandlerMeets (CallKeeps producers) env b (.callable key sender)) :
    (b.handleCallable env key sender).Stoppable producers := by
  have hattempt : (b.attempt env.now env.called).Stoppable producers :=
    (hmeet.called key sender rfl).attempt_rule
      (R := fun s s' => s.Stoppable producers → s'.Stoppable producers)
      (fun _ => id) (fun h h' hs => h' (h hs))
      (fun c _ s s' hc hcall hs => call_stoppable hs hc hcall) hs
  exact hattempt.addsKick
    ⟨rfl, rfl, rfl, fun _ => id, id, fun _ => .inl, fun _ => id⟩

/-- **The other handlers of a running block** keep it stoppable. -/
theorem running_stoppable (hs : b.Stoppable producers)
    (htask : b.enter env m = none)
    (hcallable : ∀ key sender, m ≠ .callable key sender) (hruns : b.Runs m)
    (h : b.handler env m = .ok b') : b'.Stoppable producers := by
  have hconfigs := handler_configs
    (fun key sender hm => absurd hm (hcallable key sender)) htask hruns h
  cases handled h with
  | task henter => simp [htask] at henter
  | inputUpdate hup => exact absurd hruns id
  | tag k tag hstate =>
      rw [handleInputTag, if_neg hstate]
      exact hs.spends (.of_eq rfl rfl rfl rfl)
  | outputUpdate hup =>
      refine hs.spends (.of_eq (handleOutputUpdate_control hup) hconfigs ?_ ?_)
      all_goals
        unfold handleOutputUpdate at hup
        split at hup
        · rw [Checked.pure_eq_ok] at hup
          rw [hup]
        · simp only [Checked.bind_eq_ok, Checked.pure_eq_ok] at hup
          obtain ⟨p, -, rfl⟩ := hup
          rfl
  | outputAlloc hset =>
      simp only [handleOutputAlloc, Checked.bind_eq_ok,
        Checked.pure_eq_ok] at hset
      obtain ⟨p, -, rfl⟩ := hset
      exact hs.spends (.of_eq rfl rfl rfl rfl)
  | @topAlloc prio sender _ halloc =>
      simp only [handleTopAlloc, Checked.bind_eq_ok,
        Checked.pure_eq_ok] at halloc
      obtain ⟨b₁, hloop, rfl⟩ := halloc
      refine Stoppable.spends ?_ (.acknowledge sender b₁)
      refine forRange_rule hloop (P := fun _ s => s.Stoppable producers) hs
        fun o _ s s' hs hf => ?_
      obtain ⟨config, p, -, rfl⟩ := allocateOutput_cases hf
      refine hs.addsHarmless
        ⟨rfl, rfl, rfl, fun _ => id, id, fun _ => .inl, fun _ => id⟩
        fun m hm => ?_
      obtain ⟨buff, -, rfl⟩ := List.mem_map.mp hm
      refine ⟨fun hm => ?_, fun _ => rfl⟩
      cases hm
  | @outputsDone o _ hall hdone =>
      have hs₁ : (b.recheckOutput env o).Stoppable producers :=
        hs.addsNothing ⟨(List.append_nil _).symm, rfl, rfl, fun _ => id, id,
          fun _ => .inl, fun _ => id⟩
      exact hs₁.addsNothing (markDone_adds hdone)
  | @inert prio sender b₁ hdone =>
      exact (hs.addsNothing (markDone_adds hdone)).spends
        (.acknowledge sender b₁)
  | @active prio sender =>
      have hlive : b.blockState ≠ .done := hruns
      obtain ⟨t, hactive⟩ := handleTopActive_eq env sender b
      rw [hactive]
      exact hs.addsKick ⟨rfl, rfl, rfl, fun _ => id,
        fun hdone => absurd hdone hlive, fun _ => .inl, fun _ => id⟩
  | @callable key sender => exact absurd rfl (hcallable key sender)
  | quiet hstate hdata hquiet =>
      obtain ⟨kicks, hmail, hkicks⟩ := hquiet.mailbox
      have hqueues : b'.inputQueues = b.inputQueues :=
        congrArg Data.inputQueues hdata.data
      have hmsgs : b'.inputMsgs = b.inputMsgs :=
        congrArg Data.inputMsgs hdata.data
      refine hs.addsHarmless
        ⟨hmail, congrArg Data.numInputs hdata.data, hconfigs,
        hquiet.inputsDone.2, fun hdone => hstate.trans hdone,
        fun m hm => .inl ?_, fun j hj => ?_⟩ fun m hm =>
          selfKick_harmless (hkicks m hm)
      · rwa [hquiet.holders] at hm
      · rw [Idle, hqueues, hmsgs]
        exact hj

/-- **The other handlers** keep a block stoppable: while the message is not on
its way, an input may be configured anew, and a done block may be activated
again. -/
theorem handler_stoppable (hs : b.Stoppable producers)
    (htask : b.enter env m = none) (hruns : .waitInert ∈ b.mailbox → b.Runs m)
    (hmeet : HandlerMeets (CallKeeps producers) env b m)
    (h : b.handler env m = .ok b') : b'.Stoppable producers := by
  by_cases hrunning : b.Runs m
  · by_cases hcallable : ∃ key sender, m = .callable key sender
    · obtain ⟨key, sender, rfl⟩ := hcallable
      rw [handler, Checked.pure_eq_ok] at h
      exact h ▸ callable_stoppable hs hmeet
    · exact running_stoppable hs htask
        (fun key sender hm => hcallable ⟨key, sender, hm⟩)
        hrunning h
  · have hunsent : .waitInert ∉ b.mailbox := fun hmail => hrunning (hruns hmail)
    unfold Runs at hrunning
    split at hrunning
    · rename_i i
      have hcontrol := handleInputUpdate_control h
      have hdone : b'.inputsDone = b.inputsDone :=
        congrArg Control.inputsDone hcontrol
      have hmail : b'.mailbox = b.mailbox := congrArg Control.mailbox hcontrol
      exact hs.unsent (hmail ▸ hunsent) (fun _ hi => hdone ▸ hi)
        (congrArg Control.holders hcontrol)
    · rename_i prio sender
      rw [handler, Checked.pure_eq_ok] at h
      subst h
      obtain ⟨hmail, hdone, hholders⟩ := handleTopActive_ends env sender b
      refine hs.unsent (fun hwaits => ?_) (fun _ hi => hdone ▸ hi) hholders
      rw [hmail] at hwaits
      rcases List.mem_append.mp hwaits with hwaits | hkick
      · exact hunsent hwaits
      · exact absurd (List.mem_singleton.mp hkick).symm
          (selfKick_harmless rfl).1
    · exact absurd trivial hrunning

end Handlers

/-- A block has no message at its start, and no input is done. -/
theorem Started.none_done {b : BlockActor} (h : Started b) :
    b.mailbox = [] ∧ b.holders.prepared = [] ∧ ∀ i,
      b.inputsDone.bit i = false := by
  obtain ⟨initTime, memory, inputConfigs, outputConfigs, env, n, k, h⟩ := h
  obtain ⟨hmail, hholders, hdone⟩ := handleTopology_ends h
  refine ⟨hmail, by rw [hholders]; rfl, fun i => ?_⟩
  by_contra hbit
  have hmade := hdone i (by simpa using hbit)
  cases hmade

end BlockActor

/-! ## A block, its producers and the polling loop -/

/-- A block, how many producers each input has that are not done, and the
time. -/
structure Waited where
  block : BlockActor
  producers : Nat → Nat
  clock : Int

/-- What happens while somebody waits for the blocks. -/
inductive WaitEvent where
  /-- The block does something until that time. -/
  | block (event : BlockEvent) (ended : Int)
  /-- The polling loop looks at the block. -/
  | poll (now : Int)
  | producerDone (i : Nat)
  | producerStarts (i : Nat)

namespace Waited

/-- One event. -/
def next (s : Waited) : WaitEvent → Checked Waited
  | .block event ended => do
      let block ← s.block.change event
      return { s with block, clock := ended }
  | .poll now => return { s with block := s.block.checkDone now, clock := now }
  | .producerDone i =>
      return { s with
        producers := Function.update s.producers i (s.producers i - 1) }
  | .producerStarts i =>
      return { s with
        producers := Function.update s.producers i (s.producers i + 1) }

/-- The runs of a block that somebody waits for. -/
def system : TransitionSystem Waited WaitEvent :=
  .ofNext (fun s => s.block.Started) next

/-- The polling loop looks at the block from its own thread, while a handler
runs: it sends its message only when the grace period is over. -/
def PollsAt (start ended : Int) (b : BlockActor) (c : Call) : Prop :=
  c = .thread (.post .waitInert) → ∃ t, start ≤ t ∧ t ≤ ended ∧
    b.graceOver t = true

/-- **What the program sees to**: the clock does not run backwards, nobody but
the polling loop stops the block, and the token of an input is unique when each
of its producers is done. -/
def Lawful (s : Waited) : WaitEvent → Prop
  | .block event ended =>
      s.clock ≤ ended ∧ (∀ t ∈ event.time, s.clock ≤ t ∧ t ≤ ended) ∧
      match event with
      | .actor (.thread event) => event ≠ .post .waitInert
      | .actor (.handle env) => ∀ m rest, s.block.mailbox = m :: rest →
          BlockActor.HandlerMeets (PollsAt env.now ended) env
            (s.block.receive m rest) m ∧
          ∀ i, m = .input i .check →
            env.tokenUnique (s.block.inputTokens i) = decide (s.producers i = 0)
      | .topology _ _ _ _ => True
  | .poll now => s.clock ≤ now
  | .producerDone i => 0 < s.producers i
  | .producerStarts _ => True

/-- **When only finished blocks are stopped**: when the polling loop finds the
grace period over, the end is reached; and while its message is on its way, the
block is fed by producers only that are not done, nothing is configured anew,
and neither the block nor a producer starts again. -/
def EndsOnly (s : Waited) : WaitEvent → Prop
  | .block (.actor (.thread event)) _ => s.block.ThreadKeeps s.producers event
  | .block (.actor (.handle env)) _ => ∀ m rest, s.block.mailbox = m :: rest →
      (.waitInert ∈ rest → (s.block.receive m rest).Runs m) ∧
        BlockActor.HandlerMeets (BlockActor.CallKeeps s.producers) env
          (s.block.receive m rest) m
  | .block (.topology _ _ _ _) _ => .waitInert ∉ s.block.mailbox
  | .poll now => s.block.graceOver now = true → s.block.EndReached
  | .producerDone _ => True
  | .producerStarts i =>
      .waitInert ∉ s.block.mailbox ∧ s.block.inputsDone.bit i = false

section Runs

variable {s s' : Waited} {e : WaitEvent} {b b' : BlockActor}
  {producers : Nat → Nat} {now : Int}
  {m : Message} {rest : List Message} {i : Nat}

open BlockActor

/-- Taking a message leaves dead inputs dead. -/
theorem stoppable_receive (hs : b.Stoppable producers)
    (hmail : b.mailbox = m :: rest) :
    (b.receive m rest).Stoppable producers := by
  refine ⟨hs.truly, hs.prepared, fun hwaits => ?_⟩
  have hfinished := hs.finished (hmail ▸ List.mem_cons_of_mem m hwaits)
  refine hfinished.keep rfl rfl id fun j hj => ⟨hj.1, fun hfed => hj.2 ?_⟩
  rcases hfed with hidle | ⟨m', hm', hfeed⟩
  · exact .inl hidle
  · exact .inr ⟨m', hmail ▸ List.mem_cons_of_mem m hm', hfeed⟩

/-- A block that the polling loop looks at. -/
theorem stoppable_checkDone (hs : b.Stoppable producers)
    (hend : b.graceOver now = true → b.EndReached) :
    (b.checkDone now).Stoppable producers := by
  unfold checkDone
  split
  · rename_i hover
    refine hs.sendSelf (fun _ => hend hover) fun _ j hfeed => ?_
    cases hfeed
  · exact hs

/-- Fewer producers feed the block. -/
theorem stoppable_producers {producers' : Nat → Nat}
    (hs : b.Stoppable producers) (hle : ∀ i, producers' i ≤ producers i) :
    b.Stoppable producers' := by
  refine ⟨fun i hi => ?_, hs.prepared, fun hwaits hwork i hi => ?_⟩
  · have := hs.truly i hi
    have := hle i
    omega
  · have hbefore : b.CanWork producers := by
      refine ⟨hwork.1, fun j hj hsync hdead => hwork.2 j hj hsync ⟨?_, hdead.2⟩⟩
      have := hdead.1
      have := hle j
      omega
    obtain ⟨hfed, hnone⟩ := hs.finished hwaits hbefore i hi
    have := hle i
    exact ⟨hfed, by omega⟩

/-- **A step keeps the block stoppable.** -/
theorem stoppable_next (hs : s.block.Stoppable s.producers)
    (hlawful : s.Lawful e) (hends : s.EndsOnly e) (h : s.next e = .ok s') :
    s'.block.Stoppable s'.producers := by
  cases e with
  | block event ended =>
      simp only [next, Checked.bind_eq_ok, Checked.pure_eq_ok] at h
      obtain ⟨b', hchange, rfl⟩ := h
      cases event with
      | actor event =>
          rcases next_cases hchange with ⟨event, rfl, rfl⟩ |
            ⟨env, rfl, hmail, rfl⟩ |
            ⟨env, m, rest, b₁, rfl, hmail, hhandler, rfl⟩
          · exact hs.threadStep hends
          · exact hs
          · obtain ⟨hruns, hmeet⟩ := hends m rest hmail
            obtain ⟨-, -, hlaws⟩ := hlawful
            have hcheck := (hlaws m rest hmail).2
            have hkept : b₁.Stoppable s.producers := by
              cases henter : (s.block.receive m rest).enter env m with
              | some store =>
                  exact task_stoppable hs hmail hcheck hmeet henter hhandler
              | none =>
                  exact handler_stoppable
                    (stoppable_receive hs hmail) henter hruns hmeet
                    hhandler
            exact ⟨hkept.truly, hkept.prepared, hkept.finished⟩
      | topology env n k sender =>
          obtain ⟨hmail, hholders, hdone⟩ := handleTopology_ends hchange
          exact hs.unsent (hmail ▸ hends) hdone hholders
  | poll now =>
      rw [next, Checked.pure_eq_ok] at h
      exact h ▸ stoppable_checkDone hs hends
  | producerDone i =>
      rw [next, Checked.pure_eq_ok] at h
      subst h
      refine stoppable_producers hs fun j => ?_
      show Function.update s.producers i (s.producers i - 1) j ≤ s.producers j
      by_cases hji : j = i
      · subst hji
        rw [Function.update_self]
        omega
      · rw [Function.update_of_ne hji]
  | producerStarts i =>
      rw [next, Checked.pure_eq_ok] at h
      subst h
      obtain ⟨hunsent, hopen⟩ := hends
      refine ⟨fun j hj => ?_, hs.prepared, fun hwaits => absurd hwaits hunsent⟩
      have hji : j ≠ i := by
        rintro rfl
        rw [hopen] at hj
        cases hj
      exact (Function.update_of_ne hji _ _).trans (hs.truly j hj)

/-- **Only finished blocks are stopped**: in a run that meets the condition, a
block that is about to handle the message of the polling loop is really
finished.

The grace period counts the time since an input was done, not the producers that
are left, so `EndsOnly` asks at each poll that the inputs of the block are
finished, and that nothing undoes this while the message is on its way: no
producer that is not done posts, no input is configured anew, and nobody starts
again. -/
theorem stops_finished
    (hrun : (system.restrict fun s e => s.Lawful e ∧ s.EndsOnly e).Reachable s)
    (hmail : s.block.mailbox = .waitInert :: rest) :
    s.block.ReallyFinished s.producers := by
  have hs : s.block.Stoppable s.producers := by
    refine TransitionSystem.Reachable.invariant
      (T := system.restrict fun s e => s.Lawful e ∧ s.EndsOnly e)
      (P := fun s => s.block.Stoppable s.producers) (fun s hstart => ?_) ?_ hrun
    · obtain ⟨hempty, hnone, hopen⟩ := hstart.none_done
      refine ⟨fun i hi => ?_, fun m hm => ?_, fun hwaits => ?_⟩
      · rw [hopen] at hi
        cases hi
      · rw [hnone] at hm
        cases hm
      · rw [hempty] at hwaits
        cases hwaits
    · intro s e s' _ hs hstep
      exact stoppable_next hs hstep.1.1 hstep.1.2 hstep.2
  exact hs.finished (hmail ▸ List.mem_cons_self)

end Runs

/-! ### Sinks that somebody waits for -/

/-- User code that posts nothing, and during which no other thread does
anything. -/
def plain (env : Env) : Bool :=
  (env.work.all fun c => match c with | .thread _ => false | .postInput _ _ => false | _ => true) &&
    env.propagateTags.isNone && env.called.isEmpty

theorem handlerMeets_of_plain {ok : BlockActor → Call → Prop} {env : Env}
    {b : BlockActor} {m : Message} (h : plain env = true)
    (hok : ∀ s c, (∀ event, c ≠ .thread event) → (∀ i m, c ≠ .postInput i m) →
      ok s c) :
    BlockActor.HandlerMeets ok env b m := by
  simp only [plain, Bool.and_eq_true, List.all_eq_true, List.isEmpty_iff,
    Option.isNone_iff_eq_none] at h
  obtain ⟨⟨hwork, htags⟩, hcalled⟩ := h
  constructor
  · intro b' _ _ b'' _
    constructor
    · refine BlockActor.CallsMeet.of_all fun c hc s => hok s c ?_ ?_
      · rintro event rfl
        cases hwork _ hc
      · rintro i m rfl
        cases hwork _ hc
    · intro _ _ _ _ _ _ _ overload ho
      rw [htags] at ho
      cases ho
  · intro key sender _
    rw [hcalled]
    trivial

/-- A stronger condition than being lawful: the topology stays, and user code is
plain. -/
def lawfulPlainly (s : Waited) : WaitEvent → Bool
  | .block (.actor (.thread event)) ended => decide (s.clock ≤ ended) &&
      match event with | .post (.top .inert _ _) => false | _ => true
  | .block (.actor (.handle env)) ended =>
      decide (s.clock ≤ env.now) && decide (env.now ≤ ended) && plain env &&
      match s.block.mailbox with
      | .input i .check :: _ =>
          env.tokenUnique (s.block.inputTokens i) == decide (s.producers i = 0)
      | _ => true
  | .block (.topology _ _ _ _) _ => false
  | .poll now => decide (s.clock ≤ now)
  | .producerDone i => decide (0 < s.producers i)
  | .producerStarts _ => true

theorem lawful_of_lawfulPlainly {s : Waited} {e : WaitEvent}
    (h : s.lawfulPlainly e = true) : s.Lawful e := by
  cases e with
  | block event ended =>
      cases event with
      | actor event =>
          cases event with
          | thread event =>
              simp only [lawfulPlainly, Bool.and_eq_true,
                decide_eq_true_eq] at h
              refine ⟨h.1, ?_, ?_⟩
              · intro t ht
                cases ht
              · rintro rfl
                cases h.2
          | handle env =>
              simp only [lawfulPlainly, Bool.and_eq_true,
                decide_eq_true_eq] at h
              obtain ⟨⟨⟨hclock, hended⟩, hplain⟩, hcheck⟩ := h
              refine ⟨hclock.trans hended, fun t ht => ?_, fun m rest hmail =>
                ⟨handlerMeets_of_plain hplain fun _ _ hthread _ hc => ?_,
                  fun i hm => ?_⟩⟩
              · cases ht
                exact ⟨hclock, hended⟩
              · exact absurd hc (hthread _)
              · subst hm
                rw [hmail] at hcheck
                simpa using hcheck
      | topology env n k sender => cases h
  | poll now =>
      have hclock : s.clock ≤ now := of_decide_eq_true h
      exact hclock
  | producerDone i =>
      have hlive : 0 < s.producers i := of_decide_eq_true h
      exact hlive
  | producerStarts i => trivial

/-- The mailbox of a block that is told to stop next. -/
def stopsNext (s : Waited) : Bool :=
  match s.block.mailbox with
  | .top .inert false none :: _ => true
  | _ => false

theorem mailbox_of_stopsNext {s : Waited} (h : s.stopsNext = true) :
    ∃ rest, s.block.mailbox = .waitInert :: rest := by
  unfold stopsNext at h
  split at h
  · rename_i rest hmail
    exact ⟨rest, hmail⟩
  · cases h

/-- Start a sink whose inputs have one producer each, and perform events that
meet a condition. -/
def runWaited (ok : Waited → WaitEvent → Bool) (n : Nat) (es : List WaitEvent) :
    Option Waited :=
  (BlockActor.sinkOf n).toOption.bind fun block =>
    TransitionSystem.runRestricted (fun s e => ok s e = true) next es
      ⟨block, fun _ => 1, 0⟩

theorem reachable_of_runWaited {ok : Waited → WaitEvent → Bool} {n : Nat}
    {es : List WaitEvent} {s : Waited} (h : runWaited ok n es = some s) :
    (system.restrict fun s e => ok s e = true).Reachable s := by
  obtain ⟨b, hstart, hrun⟩ := Option.bind_eq_some_iff.mp h
  cases hsink : BlockActor.sinkOf n with
  | error e => simp [hsink, Except.toOption] at hstart
  | ok b' =>
      rw [hsink] at hstart
      cases hstart
      exact .of_restricted_events es
        (.init (BlockActor.started_of_sinkOf hsink)) hrun

/-- Something happens to the block in no time. -/
def atOnce (e : ActorEvent) : WaitEvent := .block (.actor e) 0

/-- Two inputs: data arrives on the first, whose producer is done then; the
second is slow. -/
def slowSecond : List WaitEvent :=
  (BlockActor.activate ++
    [ActorEvent.handle {}, BlockActor.bytesArrive 0, .handle {}]).map atOnce ++
    [WaitEvent.producerDone 0, atOnce (BlockActor.arrive (.input 0 .check)),
      atOnce BlockActor.upstreamDone, .poll 100001]

/-- One input: its check finds data that is consumed later. -/
def drained : List WaitEvent :=
  (BlockActor.activate ++
    [ActorEvent.handle {}, BlockActor.bytesArrive 0, .handle {}]).map atOnce ++
    [WaitEvent.producerDone 0] ++
    [BlockActor.arrive (.input 0 .check), .handle {}, BlockActor.upstreamDone,
      .handle { work := [.consume 0 4] }, .handle {}].map atOnce ++
        [WaitEvent.poll 100001]

/-- A stronger condition: a message of the polling loop is not on its way, and a
single input is done, and drained, when the grace period is over. -/
def endsPlainly (s : Waited) : WaitEvent → Bool
  | .block (.actor event) _ =>
      (s.block.mailbox.all fun m => match m with | .top .inert _ _ => false | _ => true) &&
        match event with
        | .thread (.post (.top .inert _ _)) => false
        | .thread _ => true
        | .handle env => plain env
  | .block (.topology _ _ _ _) _ => false
  | .poll now =>
      !s.block.graceOver now || s.block.numInputs == 1 &&
        s.block.inputsDone.bit 0 &&
      (s.block.inputMsgs 0).isEmpty &&
        (s.block.inputQueues 0).queue.items.isEmpty &&
      s.block.mailbox.isEmpty
  | .producerDone _ => true
  | .producerStarts _ => false

theorem endsOnly_of_endsPlainly {s : Waited} {e : WaitEvent}
    (h : s.endsPlainly e = true) : s.EndsOnly e := by
  cases e with
  | block event ended =>
      cases event with
      | actor event =>
          simp only [endsPlainly, Bool.and_eq_true, List.all_eq_true] at h
          obtain ⟨hall, hevent⟩ := h
          have hunsent : .waitInert ∉ s.block.mailbox := fun hm => by
            cases hall _ hm
          cases event with
          | thread event =>
              cases event with
              | post m =>
                  refine ⟨fun hm => ?_, fun hwaits => absurd hwaits hunsent⟩
                  subst hm
                  cases hevent
              | configureInput i config => exact hunsent
              | _ => trivial
          | handle env =>
              intro m rest hmail
              refine ⟨fun hwaits => absurd ?_ hunsent, ?_⟩
              · rw [hmail]
                exact List.mem_cons_of_mem m hwaits
              · refine handlerMeets_of_plain hevent fun b c hthread hpost => ?_
                cases c with
                | thread event => exact absurd rfl (hthread event)
                | postInput i m => exact absurd rfl (hpost i m)
                | _ => trivial
      | topology env n k sender => cases h
  | poll now =>
      intro hover
      simp only [endsPlainly, hover, Bool.not_true, Bool.false_or,
        Bool.and_eq_true, beq_iff_eq, List.isEmpty_iff] at h
      obtain ⟨⟨⟨⟨hports, hdone⟩, hmsgs⟩, hitems⟩, hmail⟩ := h
      refine .inr ⟨0, by omega, fun j hj => ?_⟩
      have hlt : j < s.block.numInputs := hj.lt (by omega)
      obtain rfl : j = 0 := by omega
      refine ⟨hdone, ?_⟩
      rintro (hidle | ⟨m, hm, -⟩)
      · exact hidle ⟨hmsgs, .inl hitems⟩
      · rw [hmail] at hm
        cases hm
  | producerDone i => trivial
  | producerStarts i => cases h

/-- **The run of a drained sink**: it is stopped when it is finished. -/
theorem stops_finished_drained :
    ∃ s rest, runWaited (fun s e => s.lawfulPlainly e && s.endsPlainly e) 1
        drained = some s ∧
      s.block.mailbox = .waitInert :: rest ∧
      s.block.ReallyFinished s.producers := by
  have hrun : (runWaited (fun s e => s.lawfulPlainly e && s.endsPlainly e) 1
      drained).map
      stopsNext = some true := by decide
  obtain ⟨s, hs, hstops⟩ := Option.map_eq_some_iff.mp hrun
  obtain ⟨rest, hmail⟩ := mailbox_of_stopsNext hstops
  refine ⟨s, rest, hs, hmail, stops_finished ?_ hmail⟩
  refine (reachable_of_runWaited hs).restrict_mono fun s e hok => ?_
  rw [Bool.and_eq_true] at hok
  exact ⟨lawful_of_lawfulPlainly hok.1, endsOnly_of_endsPlainly hok.2⟩

/-- What is known of the two inputs of a sink that is told to stop next: whether
it is live, and whether there is enough data on the first; the producers of the
second. -/
def bothInputs (s : Waited) : Bool × Bool × Bool × Nat × Nat :=
  (s.stopsNext, s.block.blockState == .live,
    !(s.block.inputQueues 0).queue.items.isEmpty &&
    decide ((s.block.inputQueues 0).reserveBytes ≤
      (s.block.inputQueues 0).enqueuedBytes),
    s.producers 1, s.block.numInputs)

/-- **A block that is stopped too early**: four bytes are left on its first
input, and the producer of the second is not done. -/
theorem stops_unfinished :
    ¬ ∀ (s : Waited) (rest : List Message),
      (system.restrict Lawful).Reachable s →
      s.block.mailbox = .waitInert :: rest →
      s.block.ReallyFinished s.producers := by
  intro hall
  have hrun : (runWaited lawfulPlainly 2 slowSecond).map bothInputs =
      some (true, true, true, 1, 2) := by decide
  obtain ⟨s, hs, hread⟩ := Option.map_eq_some_iff.mp hrun
  simp only [bothInputs, Prod.mk.injEq, beq_iff_eq, Bool.and_eq_true,
    Bool.not_eq_true', List.isEmpty_eq_false_iff, decide_eq_true_eq] at hread
  obtain ⟨hstops, hlive, ⟨hitems, hreserve⟩, hproducers, hports⟩ := hread
  obtain ⟨rest, hmail⟩ := mailbox_of_stopsNext hstops
  have hfed : s.block.Fed 0 := by
    refine .inl fun hidle => ?_
    rcases hidle.2 with hnil | hless
    · exact hitems hnil
    · omega
  have hwork : s.block.CanWork s.producers := by
    refine ⟨fun hdone => ?_, fun j hj _ hdead => ?_⟩
    · rw [hlive] at hdone
      cases hdone
    · obtain rfl | rfl : j = 0 ∨ j = 1 := by omega
      · exact hdead.2 hfed
      · have := hdead.1
        omega
  have hreached := (reachable_of_runWaited hs).restrict_mono
    fun _ _ => lawful_of_lawfulPlainly
  have hnone := (hall s rest hreached hmail hwork 1 (by omega)).2
  omega

end Waited

end Gras
