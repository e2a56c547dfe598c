import Gras.Actor.OutputReserveRuns
import Gras.Actor.SuspendedInputRuns
import Gras.Buffers.InputRuns

/-!
# A block that is stopped and started again

`mark_done` flushes the ports.  The input side forgets its data but not the
preload it was configured with, the output side forgets its reserve.  Until the
block is active again, messages are handled that may configure its ports.

* `BlockActor.StartsAfresh`: the ports of a block that is started the first
  time.
* `Reserving.Restarts`: what may happen in between.
* `InputPort.Emptied`, `BlockActor.Rests`: what is flushed stays flushed.
* `restart_afresh_iff`: when the block starts afresh.
-/

namespace Gras

/-- The bytes of preload that a port of that configuration starts with. -/
def InputPortConfig.preloadBytes (config : InputPortConfig) : Nat :=
  sizeMul config.itemSize config.preloadItems

namespace InputPort

/-- Nothing is enqueued. -/
structure Emptied (p : InputPort) : Prop where
  items : p.queue.items = []
  bytes : p.enqueuedBytes = 0

section Emptied

variable {p p' : InputPort} {now : Int}

/-- User code does not fill an empty port. -/
theorem stable_emptied : Stable Emptied := by
  constructor
  · intro p p' hheld hp
    constructor
    · rw [hheld.short (by simp [hp.items]), hp.items]
    · rw [hheld.enqueuedBytes, hp.bytes]
  · intro p p' now hflush _
    obtain ⟨hitems, hbytes, -⟩ := flush_port hflush
    exact ⟨hitems, hbytes⟩

/-- **An update with an unchanged preload** enqueues nothing. -/
theorem Emptied.updateConfig {fresh : AuxAllocations} {m m' : Memory}
    {itemSize preloadBytes reserveBytes maximumBytes : Nat} (hp : p.Emptied)
    (hsame : preloadBytes = p.preloadBytes)
    (h : p.updateConfig now fresh itemSize preloadBytes reserveBytes
      maximumBytes m
      = .ok (p', m')) : p'.Emptied := by
  obtain ⟨-, p₁, hpre, rfl⟩ := updateConfig_cases h
  cases hpre with
  | more hlt => exact absurd hsame (Nat.ne_of_gt hlt)
  | less hlt => exact absurd hsame (Nat.ne_of_lt hlt)
  | same _ => exact ⟨hp.items, hp.bytes⟩

end Emptied

end InputPort

namespace OutputPort

variable {p p' : OutputPort} {now : Int}

theorem update_reserve (h : p.update now = .ok p') :
    p'.reserveBytes = p.reserveBytes :=
  (update_cases h).2.1

theorem setBufferQueue_reserve {q : Option BufferQueue}
    (h : p.setBufferQueue now q = .ok p') :
    p'.reserveBytes = p.reserveBytes :=
  update_reserve (p := { p with queue := q }) h

theorem setReserveBytes_reserve {numBytes : Nat}
    (h : p.setReserveBytes now numBytes = .ok p') :
    p'.reserveBytes = numBytes := by
  unfold OutputPort.setReserveBytes at h
  split at h
  · rw [Checked.pure_eq_ok] at h
    rw [← h]
  · exact update_reserve (p := { p with reserveBytes := numBytes }) h

end OutputPort

namespace BlockActor

/-- **The ports of a block that starts**: each input has its preload of zeros
enqueued and nothing else, each output asks for its reserve. -/
structure StartsAfresh (b : BlockActor) : Prop where
  preload : ∀ i < b.numInputs,
    (b.inputQueues i).enqueuedBytes = (b.inputConfigs i).preloadBytes ∧
      queueBytes b.memory (b.inputQueues i).queue.items =
        List.replicate (b.inputConfigs i).preloadBytes 0
  reserve : ∀ o < b.numOutputs,
    (b.outputQueues o).reserveBytes = (b.outputConfigs o).reserveBytes

/-- The preload of input `i` is what it was when the port was configured
last. -/
def SamePreload (i : Nat) (b : BlockActor) : Prop :=
  (b.inputConfigs i).preloadBytes = (b.inputQueues i).preloadBytes

/-- Every input is empty. -/
def InputsEmptied (b : BlockActor) : Prop :=
  ∀ i < b.numInputs, (b.inputQueues i).Emptied

/-- **A block at rest** stays done, keeps its number of ports, what is empty and
its reserves. -/
structure Rests (b b' : BlockActor) : Prop where
  state : b'.blockState = .done
  numInputs : b'.numInputs = b.numInputs
  numOutputs : b'.numOutputs = b.numOutputs
  inputs : ∀ i, (b.inputQueues i).Emptied → (b'.inputQueues i).Emptied
  reserves : ∀ o < b.numOutputs,
    (b'.outputQueues o).reserveBytes = (b.outputQueues o).reserveBytes

section Rest

variable {b b' b'' : BlockActor} {env : Env} {now : Int}
  {m : Message} {i o : Nat}

theorem Rests.refl (hdone : b.blockState = .done) : Rests b b :=
  ⟨hdone, rfl, rfl, fun _ h => h, fun _ _ => rfl⟩

theorem Rests.trans (h : Rests b b') (h' : Rests b' b'') : Rests b b'' := by
  refine ⟨h'.state, h'.numInputs.trans h.numInputs,
    h'.numOutputs.trans h.numOutputs, fun i hi => h'.inputs i (h.inputs i hi),
    fun o ho => ?_⟩
  exact (h'.reserves o (h.numOutputs ▸ ho)).trans (h.reserves o ho)

/-- The ports are left alone. -/
theorem Rests.of_eq (hdone : b.blockState = .done)
    (hstate : b'.blockState = b.blockState) (hin : b'.numInputs = b.numInputs)
    (hout : b'.numOutputs = b.numOutputs)
    (hinputs : b'.inputQueues = b.inputQueues)
    (houtputs : b'.outputQueues = b.outputQueues) :
    Rests b b' := by
  refine ⟨hstate.trans hdone, hin, hout, fun i hi => ?_, fun o _ => ?_⟩
  · rwa [hinputs]
  · rw [houtputs]

/-- One output port is written. -/
theorem Rests.setOutput {p : OutputPort} (hdone : b.blockState = .done)
    (hp : p.reserveBytes = (b.outputQueues o).reserveBytes) :
    Rests b (b.setOutput o p) := by
  refine ⟨hdone, rfl, rfl, fun _ h => h, fun k _ => ?_⟩
  rw [setOutput_outputQueues]
  by_cases hko : k = o
  · subst hko
    rw [Function.update_self, hp]
  · rw [Function.update_of_ne hko]

theorem markDone_of_done (hdone : b.blockState = .done) :
    b.markDone now = .ok b := if_pos hdone

/-- **A call of user code** finds the block done and leaves it so. -/
theorem call_rests {c : Call} (hdone : b.blockState = .done)
    (h : b.call now c = .ok b') : Rests b b' := by
  have hmoves : Moves (fun _ => True) b b' := call_moves (fun _ _ => trivial) h
  have hin : b'.numInputs = b.numInputs := hmoves.ports.1
  have hinputs : ∀ i, (b.inputQueues i).Emptied → (b'.inputQueues i).Emptied :=
    fun i => call_stable InputPort.stable_emptied h
  rcases (call_outputs h).kept with hmark | ⟨hstate, hout, hreserves⟩
  · rw [markDone_of_done hdone] at hmark
    cases hmark
    exact .refl hdone
  · exact ⟨hstate.trans hdone, hin, hout, hinputs,
      fun o ho => hreserves o (hout ▸ ho)⟩

theorem attempt_rests (cs : List Call) (hdone : b.blockState = .done) :
    Rests b (b.attempt now cs) := by
  refine attempt_rule cs b (R := fun s s' => s.blockState = .done → Rests s s')
    (fun s hs => .refl hs)
    (fun h h' hs => (h hs).trans (h' (h hs).state)) ?_ hdone
  intro c _ s s' hcall hs
  exact call_rests hs hcall

theorem Rests.acknowledge (h : Rests b b') (sender : Option Address) :
    Rests b (b'.acknowledge sender) := by
  cases sender with
  | none => exact h
  | some a => exact h.trans (.of_eq h.state rfl rfl rfl rfl rfl)

/-- Before its task a handler leaves the ports of a block that is done alone. -/
theorem enter_rests {b₀ : BlockActor} (hdone : b.blockState = .done)
    (h : b.enter env m = some (.ok b₀)) : Rests b b₀ := by
  cases m with
  | input i message =>
      cases message with
      | msg msg => simp [enter, hdone] at h
      | buffer buffer => simp [enter, hdone] at h
      | check =>
          simp only [enter, Option.some.injEq, Checked.pure_eq_ok] at h
          subst h
          exact .of_eq hdone rfl rfl rfl rfl rfl
      | _ => cases h
  | output o message =>
      cases message with
      | buffer buffer => simp [enter, hdone] at h
      | _ => cases h
  | selfKick =>
      simp only [enter, Option.some.injEq, Checked.pure_eq_ok] at h
      subst h
      exact .refl hdone
  | _ => cases h

/-- The task of a block that is done does nothing. -/
theorem taskMain_of_done (hdone : b.blockState = .done)
    (h : b.taskMain env = .ok b') : b' = b := by
  refine taskMain_idle ?_ h
  by_contra hallowed
  rw [Bool.not_eq_false, isWorkAllowed_iff, isReady_iff] at hallowed
  rw [hallowed.2.1] at hdone
  cases hdone

/-- **A handler of a block that is done**, other than that of an update or of
the activation. -/
theorem handled_rests (hdone : b.blockState = .done)
    (hin : ∀ i, m ≠ .input i .update) (hout : ∀ o, m ≠ .output o .update)
    (hactive : ∀ prio sender, m ≠ .top .active prio sender)
    (h : Handled env b m b') : Rests b b' := by
  cases h with
  | @task m store b₀ b₁ b' henter hstore htask hleave =>
      subst hstore
      have hentered := enter_rests hdone henter
      obtain rfl := taskMain_of_done hentered.state htask
      unfold leave at hleave
      split at hleave
      · rw [markDone_of_done hentered.state] at hleave
        split at hleave <;> cases hleave <;> exact hentered
      · rw [Checked.pure_eq_ok] at hleave
        exact hleave ▸ hentered
  | tag i tag hstate => exact absurd hdone hstate
  | inputUpdate h => exact absurd rfl (hin _)
  | outputUpdate h => exact absurd rfl (hout _)
  | outputAlloc h =>
      simp only [handleOutputAlloc, Checked.bind_eq_ok, Checked.pure_eq_ok] at h
      obtain ⟨p, hset, rfl⟩ := h
      exact .setOutput hdone (OutputPort.setBufferQueue_reserve hset)
  | @topAlloc prio sender b' h =>
      simp only [handleTopAlloc, Checked.bind_eq_ok, Checked.pure_eq_ok] at h
      obtain ⟨b₁, hloop, rfl⟩ := h
      refine Rests.acknowledge ?_ sender
      refine forRange_rule hloop (P := fun _ s => Rests b s) (.refl hdone) ?_
      intro o _ s s' hs hf
      obtain ⟨config, p, hset, rfl⟩ := allocateOutput_cases hf
      have hport :=
        Rests.setOutput hs.state (OutputPort.setBufferQueue_reserve hset)
      exact hs.trans ⟨hport.state, hport.numInputs, hport.numOutputs,
        hport.inputs, hport.reserves⟩
  | @outputsDone i b' hall h =>
      rw [markDone_of_done (b := b.recheckOutput env i) hdone] at h
      cases h
      exact .of_eq hdone rfl rfl rfl rfl rfl
  | @inert prio sender b₁ h =>
      rw [markDone_of_done hdone] at h
      cases h
      exact (Rests.refl hdone).acknowledge sender
  | active => exact absurd rfl (hactive _ _)
  | callable =>
      have hcalls : Rests b (b.attempt env.now env.called) :=
        attempt_rests env.called hdone
      exact hcalls.trans (.of_eq hcalls.state rfl rfl rfl rfl rfl)
  | quiet hstate hdata =>
      have h := hdata.data
      exact .of_eq hdone hstate (congrArg Data.numInputs h)
        (congrArg Data.numOutputs h) (congrArg Data.inputQueues h)
        (congrArg Data.outputQueues h)

/-- The activation leaves the ports alone. -/
theorem handleTopActive_ports (env : Env) (sender : Option Address)
    (b : BlockActor) :
    (b.handleTopActive env sender).numInputs = b.numInputs ∧
      (b.handleTopActive env sender).numOutputs = b.numOutputs ∧
      (b.handleTopActive env sender).inputQueues = b.inputQueues ∧
      (b.handleTopActive env sender).outputQueues = b.outputQueues := by
  obtain ⟨t, hactive⟩ := handleTopActive_eq env sender b
  rw [hactive]
  exact ⟨rfl, rfl, rfl, rfl⟩

/-! ### Updates -/

/-- **An update of an input** whose preload is unchanged. -/
theorem handleInputUpdate_rests (hdone : b.blockState = .done)
    (hsame : i < b.numInputs → b.SamePreload i)
    (h : b.handleInputUpdate env i = .ok b') :
    Rests b b' ∧ b'.inputConfigs = b.inputConfigs ∧
      ∀ j, j ≠ i → b'.inputQueues j = b.inputQueues j := by
  unfold handleInputUpdate at h
  split at h
  · rw [Checked.pure_eq_ok] at h
    exact h ▸ ⟨.refl hdone, rfl, fun _ _ => rfl⟩
  · rename_i hport
    simp only [Checked.bind_eq_ok, updateInputAvail, Checked.pure_eq_ok,
      Prod.exists] at h
    obtain ⟨p, memory, hconfig, q, hmsg, rfl⟩ := h
    have hqueues : ({ b with memory }.setInput i p).inputQueues i = p :=
      Function.update_self ..
    refine ⟨⟨hdone, rfl, rfl, fun j hj => ?_, fun _ _ => rfl⟩, rfl,
      fun j hj => ?_⟩
    · by_cases hji : j = i
      · subst hji
        have hp := hj.updateConfig (hsame (Nat.not_le.mp hport)) hconfig
        rw [setInput_inputQueues, Function.update_self]
        unfold InputPort.updateHasMsg at hmsg
        split at hmsg
        · rw [Checked.pure_eq_ok, hqueues] at hmsg
          exact hmsg ▸ ⟨hp.items, hp.bytes⟩
        · rw [hqueues] at hmsg
          have hset := InputPort.update_eq_ok hmsg
          exact hset ▸ ⟨hp.items, hp.bytes⟩
      · rw [setInput_inputQueues, Function.update_of_ne hji]
        show (Function.update b.inputQueues i p j).Emptied
        rwa [Function.update_of_ne hji]
    · rw [setInput_inputQueues, Function.update_of_ne hj]
      exact Function.update_of_ne hj ..

/-- **An update of an output** restores its reserve. -/
theorem handleOutputUpdate_reserve (ho : o < b.numOutputs)
    (h : b.handleOutputUpdate env o = .ok b') :
    ∃ p, p.reserveBytes = (b.outputConfigs o).reserveBytes ∧
      b' = b.setOutput o p := by
  unfold handleOutputUpdate at h
  rw [if_neg (Nat.not_le.mpr ho)] at h
  simp only [Checked.bind_eq_ok, Checked.pure_eq_ok] at h
  obtain ⟨p, hset, rfl⟩ := h
  exact ⟨p, OutputPort.setReserveBytes_reserve hset, rfl⟩

/-- **The topology handler**, for the ports there are and with their preloads
unchanged, leaves the inputs empty and restores every reserve. -/
theorem handleTopology_rests {sender : Option Address}
    (hdone : b.blockState = .done) (hempty : b.InputsEmptied)
    (hsame : ∀ i < b.numInputs, b.SamePreload i)
    (h : b.handleTopology env b.numInputs b.numOutputs sender = .ok b') :
    b'.numOutputs = b.numOutputs ∧ b'.InputsEmptied ∧
      ∀ o < b.numOutputs, (b'.outputQueues o).reserveBytes =
        (b.outputConfigs o).reserveBytes := by
  simp only [handleTopology, Checked.bind_eq_ok, Checked.pure_eq_ok] at h
  obtain ⟨b₁, hrelease, b₂, hin, b₃, hout, rfl⟩ := h
  have hsize : b₁ = b.resize env.now b.numInputs b.numOutputs := by
    unfold releaseUnconnected at hrelease
    split at hrelease
    · rw [markDone_of_done (b := b.resize env.now b.numInputs b.numOutputs)
        hdone] at hrelease
      cases hrelease
      rfl
    · rw [Checked.pure_eq_ok] at hrelease
      exact hrelease.symm
  have hqueue : ∀ i < b.numInputs, b₁.inputQueues i = b.inputQueues i := by
    intro i hi
    rw [hsize]
    exact if_pos hi
  -- The ports that are still to be updated are as they were.
  have h₂ := forRange_rule hin (P := fun n s => s.blockState = .done ∧
      s.numInputs = b.numInputs ∧ s.numOutputs = b.numOutputs ∧
      s.inputConfigs = b.inputConfigs ∧ s.outputConfigs = b.outputConfigs ∧
      s.InputsEmptied ∧ ∀ i < b.numInputs, n ≤ i →
      s.inputQueues i = b.inputQueues i)
    ⟨by rw [hsize]; exact hdone, by rw [hsize]; rfl, by rw [hsize]; rfl, by rw [hsize]; rfl,
      by rw [hsize]; rfl, fun i hi => by
        replace hi : i < b.numInputs := by rwa [hsize] at hi
        rw [hqueue i hi]
        exact hempty i hi, fun i hi _ => hqueue i hi⟩
    fun n hn s s' hs hf => by
      obtain ⟨hstate, hnum, hnum', hconfigs, hconfigs', hemptied, hrest⟩ := hs
      obtain ⟨hrests, hkept, hothers⟩ := handleInputUpdate_rests hstate
          (fun _ => by
        rw [SamePreload, hconfigs, hrest n hn (Nat.le_refl n)]
        exact hsame n hn) hf
      refine ⟨hrests.state, hrests.numInputs.trans hnum,
        hrests.numOutputs.trans hnum', hkept.trans hconfigs,
        (Reserving.handleInputUpdate_outputConfigs hf).trans hconfigs',
        fun i hi => hrests.inputs i (hemptied i (hrests.numInputs ▸ hi)),
        fun i hi hle => ?_⟩
      rw [hothers i (by omega)]
      exact hrest i hi (by omega)
  obtain ⟨-, hnum, hnum', -, hconfigs, hemptied, -⟩ := h₂
  have h₃ := forRange_rule hout (P := fun n s => s.numInputs = b.numInputs ∧
      s.numOutputs = b.numOutputs ∧ s.outputConfigs = b.outputConfigs ∧
      s.inputQueues = b₂.inputQueues ∧ ∀ o < n,
        (s.outputQueues o).reserveBytes = (b.outputConfigs o).reserveBytes)
    ⟨hnum, hnum', hconfigs, rfl, fun o ho => absurd ho (Nat.not_lt_zero o)⟩
    fun n hn s s' hs hf => by
      obtain ⟨hin', hout', hconfigs', hqueues, hreserves⟩ := hs
      obtain ⟨p, hp, rfl⟩ := handleOutputUpdate_reserve (hout' ▸ hn) hf
      refine ⟨hin', hout', hconfigs', hqueues, fun o ho => ?_⟩
      by_cases hon : o = n
      · subst hon
        rw [setOutput_outputQueues, Function.update_self, hp, hconfigs']
      · rw [setOutput_outputQueues, Function.update_of_ne hon]
        exact hreserves o (by omega)
  obtain ⟨hin₃, hout₃, -, hqueues, hreserves⟩ := h₃
  have hemptied₃ : b₃.InputsEmptied := by
    intro i hi
    rw [hqueues]
    exact hemptied i (by rw [hnum, ← hin₃]; exact hi)
  cases sender <;> exact ⟨hout₃, hemptied₃, hreserves⟩

end Rest

end BlockActor

namespace Reserving

open BlockActor

/-- **What may happen between `mark_done` and the start**: anything, as long as
the block is done, has the same ports, and an update of an input finds its
preload unchanged. -/
def Restarts (s : Reserving) (e : BlockEvent) : Prop :=
  s.block.blockState = .done ∧
    match e with
    | .actor (.thread _) => True
    | .actor (.handle _) => ∀ i < s.block.numInputs,
        s.block.mailbox.head? = some (.input i .update) → s.block.SamePreload i
    | .topology _ numInputs numOutputs _ =>
        numInputs = s.block.numInputs ∧ numOutputs = s.block.numOutputs ∧
          ∀ i < s.block.numInputs, s.block.SamePreload i

/-- The runs from `mark_done` on, up to the activation and with it.  No
configuration has been applied yet: the outputs ask for what `resize` makes them
ask for. -/
def restart (b : BlockActor) : TransitionSystem Reserving BlockEvent :=
  (TransitionSystem.ofNext (fun s => s = ⟨b, fun _ => {}⟩)
    next).restrict Restarts

/-- **The invariant.**  The inputs are empty, the outputs ask for what was
applied. -/
structure AtRest (s : Reserving) : Prop where
  inputs : s.block.InputsEmptied
  reserves : ∀ o < s.block.numOutputs,
    (s.block.outputQueues o).reserveBytes = s.need o

section Runs

variable {s s' : Reserving} {b b' : BlockActor} {env : Env} {now : Int}
  {e : BlockEvent}

/-- What a block at rest goes through. -/
theorem AtRest.rests {applied : Nat → OutputPortConfig} (hs : s.AtRest)
    (h : Rests s.block b') (happlied : applied = s.applied) :
    AtRest ⟨b', applied⟩ := by
  constructor
  · intro i hi
    exact h.inputs i (hs.inputs i (h.numInputs ▸ hi))
  · intro o ho
    replace ho : o < s.block.numOutputs := h.numOutputs ▸ ho
    show (b'.outputQueues o).reserveBytes = (applied o).reserveBytes
    rw [happlied, h.reserves o ho]
    exact hs.reserves o ho

/-- **`mark_done`** puts the block at rest. -/
theorem atRest_of_markDone (hlive : b.blockState ≠ .done)
    (h : b.markDone now = .ok b') : AtRest ⟨b', fun _ => {}⟩ := by
  constructor
  · intro i hi
    replace hi : i < b.numInputs := (markDone_numInputs h) ▸ hi
    obtain ⟨b₁, hout, -, b₂, hin, rfl⟩ := markDone_parts hlive h
    have hnum : b₁.numInputs = b.numInputs := forRange_rule hout
      (P := fun _ s => s.numInputs = b.numInputs) rfl fun o _ s s' hs hf =>
        (congrArg Control.numInputs (flushOutput_control hf)).trans hs
    -- Each round flushes its port and leaves the earlier ones as they are.
    have hflushed :=
      forRange_rule hin (P := fun n s => ∀ i < n, (s.inputQueues i).Emptied)
      (fun i hi => absurd hi (Nat.not_lt_zero i)) fun n _ s s' hs hf i hi => by
        simp only [flushInput, Checked.bind_eq_ok, Checked.pure_eq_ok] at hf
        obtain ⟨p, hflush, rfl⟩ := hf
        rw [setInput_inputQueues]
        by_cases hin : i = n
        · subst hin
          rw [Function.update_self]
          obtain ⟨hitems, hbytes, -⟩ := InputPort.flush_port hflush
          exact ⟨hitems, hbytes⟩
        · rw [Function.update_of_ne hin]
          exact hs i (by omega)
    exact hflushed i (hnum ▸ hi)
  · intro o ho
    rcases markDone_outputs h with rfl | ⟨-, hnum, hout⟩
    · exact absurd (markDone_blockState h) hlive
    · obtain ⟨initTime, hport⟩ := hout o (hnum ▸ ho)
      show (b'.outputQueues o).reserveBytes = _
      rw [hport]
      rfl

/-- **A handler** keeps the block at rest. -/
theorem AtRest.of_handler {m : Message} {rest : List Message} (hs : s.AtRest)
    (hmail : s.block.mailbox = m :: rest)
    (he : s.Restarts (.actor (.handle env)))
    (h : (s.block.receive m rest).handler env m = .ok b') :
    AtRest ⟨b', s.applies (.actor (.handle env))⟩ := by
  obtain ⟨hdone, hsame⟩ := he
  have hstart : Rests s.block (s.block.receive m rest) :=
    .of_eq hdone rfl rfl rfl rfl rfl
  by_cases hout : ∃ o, m = .output o .update
  · obtain ⟨o, rfl⟩ := hout
    by_cases ho : o < s.block.numOutputs
    · obtain ⟨p, hp, rfl⟩ := handleOutputUpdate_reserve
        (b := s.block.receive (.output o .update) rest) ho h
      have happlied : s.applies (.actor (.handle env)) =
          Function.update s.applied o (s.block.outputConfigs o) := by
        simp only [applies, hmail, if_pos ho]
      rw [happlied]
      refine ⟨hs.inputs, fun k hk => ?_⟩
      show (Function.update s.block.outputQueues o p k).reserveBytes =
        (Function.update s.applied o (s.block.outputConfigs o) k).reserveBytes
      by_cases hko : k = o
      · subst hko
        rw [Function.update_self, Function.update_self]
        exact hp
      · rw [Function.update_of_ne hko, Function.update_of_ne hko]
        exact hs.reserves k hk
    · have happlied : s.applies (.actor (.handle env)) = s.applied := by
        simp only [applies, hmail, if_neg ho]
      have hbeyond :
          (s.block.receive (.output o .update) rest).numOutputs ≤ o :=
        Nat.le_of_not_lt ho
      rw [handler, handleOutputUpdate, if_pos hbeyond, Checked.pure_eq_ok] at h
      exact hs.rests (h ▸ hstart) happlied
  · have happlied : s.applies (.actor (.handle env)) = s.applied :=
      applies_of_ne hmail fun o hm => hout ⟨o, hm⟩
    by_cases hin : ∃ i, m = .input i .update
    · obtain ⟨i, rfl⟩ := hin
      have hupdated := handleInputUpdate_rests hstart.state
        (fun hi => hsame i hi (by rw [hmail]; rfl)) h
      exact hs.rests (hstart.trans hupdated.1) happlied
    · by_cases hactive : ∃ prio sender, m = .top .active prio sender
      · obtain ⟨prio, sender, rfl⟩ := hactive
        rw [handler, Checked.pure_eq_ok] at h
        obtain ⟨hnum, hnum', hinputs, houtputs⟩ :=
          handleTopActive_ports env sender
            (s.block.receive (.top .active prio sender) rest)
        rw [h] at hnum hnum' hinputs houtputs
        rw [happlied]
        constructor
        · intro i hi
          show (b'.inputQueues i).Emptied
          rw [hinputs]
          exact hs.inputs i (hnum ▸ hi)
        · intro o ho
          show (b'.outputQueues o).reserveBytes = _
          rw [houtputs]
          exact hs.reserves o (hnum' ▸ ho)
      · exact hs.rests
          (hstart.trans (handled_rests hstart.state (fun i hm => hin ⟨i, hm⟩)
          (fun o hm => hout ⟨o, hm⟩)
            (fun prio sender hm => hactive ⟨prio, sender, hm⟩)
          (handled h))) happlied

/-- **Every event** keeps the block at rest. -/
theorem AtRest.next (hs : s.AtRest) (he : s.Restarts e)
    (h : s.next e = .ok s') : s'.AtRest := by
  simp only [Reserving.next, Checked.bind_eq_ok, Checked.pure_eq_ok] at h
  obtain ⟨b', hchange, rfl⟩ := h
  cases e with
  | topology env n k sender =>
      obtain ⟨hdone, rfl, rfl, hsame⟩ := he
      obtain ⟨hnum, hempty, hreserves⟩ :=
        handleTopology_rests hdone hs.inputs hsame hchange
      refine ⟨hempty, fun o ho => ?_⟩
      replace ho : o < s.block.numOutputs := hnum ▸ ho
      show _ = OutputPortConfig.reserveBytes
          (if o < s.block.numOutputs then _ else _)
      rw [if_pos ho]
      exact hreserves o ho
  | actor event =>
      rcases next_cases hchange with ⟨thread, rfl, rfl⟩ |
        ⟨env, rfl, hmail, rfl⟩ |
        ⟨env, m, rest, b₁, rfl, hmail, hhandler, rfl⟩
      · obtain ⟨hout, hnum, hstate⟩ := threadStep_outputs s.block thread
        have hheld := InputsHeld.threadStep s.block thread
        have hrests : Rests s.block (s.block.threadStep thread) := by
          refine ⟨hstate.trans he.1, hheld.numInputs, hnum, ?_, ?_⟩
          · intro i hi
            exact InputPort.stable_emptied.held (hheld.ports i) hi
          · intro o _
            rw [hout]
        exact hs.rests hrests rfl
      · exact hs.rests (.refl he.1) (by simp only [applies, hmail])
      · obtain ⟨hin, hreserves⟩ := hs.of_handler hmail he hhandler
        exact ⟨hin, hreserves⟩

/-- **In every run** from `mark_done` up to the activation. -/
theorem atRest_of_reachable (hlive : b.blockState ≠ .done)
    (hdone : b.markDone now = .ok b') (hs : (restart b').Reachable s) :
    s.AtRest := by
  refine hs.invariant (P := AtRest) ?_ ?_
  · rintro s rfl
    exact atRest_of_markDone hlive hdone
  · intro s e s' _ hrest hstep
    exact hrest.next hstep.1 hstep.2

/-- **A block that is started again**, after `mark_done` and whatever else
happened before it is active, starts afresh exactly when no input is configured
with a preload and every output is configured with the reserve that was applied
last, or that of a new port. -/
theorem restart_afresh_iff (hlive : b.blockState ≠ .done)
    (hdone : b.markDone now = .ok b') (hs : (restart b').Reachable s) :
    s.block.StartsAfresh ↔
      (∀ i < s.block.numInputs, (s.block.inputConfigs i).preloadBytes = 0) ∧
        ∀ o < s.block.numOutputs,
        s.need o = (s.block.outputConfigs o).reserveBytes := by
  obtain ⟨hempty, hreserves⟩ := atRest_of_reachable hlive hdone hs
  constructor
  · intro hfresh
    constructor
    · intro i hi
      rw [← (hfresh.preload i hi).1, (hempty i hi).bytes]
    · intro o ho
      rw [← hreserves o ho]
      exact hfresh.reserve o ho
  · rintro ⟨hpreload, hreserve⟩
    constructor
    · intro i hi
      rw [hpreload i hi, (hempty i hi).bytes, (hempty i hi).items]
      exact ⟨rfl, rfl⟩
    · intro o ho
      rw [hreserves o ho]
      exact hreserve o ho

end Runs

/-! ## A block in a feedback loop -/

/-- A condition that is simpler to check. -/
def restartsPlainly (s : Reserving) (e : BlockEvent) : Bool :=
  s.block.blockState == .done &&
    match e, s.block.mailbox with
    | .actor (.thread _), _ => true
    | .actor (.handle _), .top _ _ _ :: _ => true
    | .actor (.handle _), _ => false
    | .topology _ numInputs numOutputs _, _ =>
        numInputs == s.block.numInputs && numOutputs == s.block.numOutputs &&
          (List.range s.block.numInputs).all fun i =>
            (s.block.inputConfigs i).preloadBytes ==
              (s.block.inputQueues i).preloadBytes

theorem restarts_of_restartsPlainly {s : Reserving} {e : BlockEvent}
    (h : s.restartsPlainly e = true) : s.Restarts e := by
  simp only [restartsPlainly, Bool.and_eq_true, beq_iff_eq] at h
  obtain ⟨hdone, h⟩ := h
  refine ⟨hdone, ?_⟩
  cases e with
  | topology env n k sender =>
      simp only [Bool.and_eq_true, beq_iff_eq, List.all_eq_true,
        List.mem_range] at h
      exact ⟨h.1.1, h.1.2, h.2⟩
  | actor event =>
      cases event with
      | thread event => trivial
      | handle env =>
          intro i hi hhead
          cases hmail : s.block.mailbox with
          | nil => simp [hmail] at hhead
          | cons m rest =>
              rw [hmail] at hhead
              cases hhead
              simp [hmail] at h

/-- The top block sends a message, and it is handled. -/
def broadcast (m : TopMessage) : List BlockEvent :=
  [.actor (.thread (.post (.top m false none))), .actor (.handle {})]

/-- The start, and the kick that comes with it. -/
def startOnce : List BlockEvent :=
  broadcast .active ++ [BlockEvent.actor (.handle {})]

/-- The start after a change of the topology that keeps the ports. -/
def startAgain : List BlockEvent :=
  [BlockEvent.topology {} 1 1 none] ++ broadcast .threadGroup ++
    broadcast (.token 0) ++
    broadcast (.config {}) ++ broadcast .alloc ++ broadcast .active

/-- A block with an input and an output; the input is configured with so many
items of preload, and the output reserves a whole buffer. -/
def feedback (preloadItems : Nat) : Checked BlockActor :=
  { made 0 addressMemory with
    inputConfigs := fun _ => { preloadItems }
    outputConfigs :=
      fun _ => { reserveItems := atLeastBytes } }.handleTopology {} 1 1 none

/-- The block when it is marked done, afterwards, and when it is started
again. -/
def runFeedback (preloadItems : Nat) :
    Option (BlockActor × BlockActor × Reserving) := do
  let b₀ ← (feedback preloadItems).toOption
  let b ← (TransitionSystem.runEvents change startOnce b₀).toOption
  let b' ← (b.markDone 0).toOption
  let s ← TransitionSystem.runRestricted
      (fun s e => s.restartsPlainly e = true) next startAgain
    ⟨b', fun _ => {}⟩
  return (b, b', s)

theorem runFeedback_eq_some {preloadItems : Nat} {b b' : BlockActor}
    {s : Reserving} (h : runFeedback preloadItems = some (b, b', s)) :
    lifetime.Reachable b ∧ b.markDone 0 = .ok b' ∧
      (restart b').Reachable s := by
  simp only [runFeedback, Option.bind_eq_bind, Option.bind_eq_some_iff,
    Option.pure_def, Option.some.injEq, Prod.mk.injEq,
    Checked.toOption_eq_some] at h
  obtain ⟨b₀, hfeedback, b₁, hrun, b₂, hdone, s₁, hagain, rfl, rfl, rfl⟩ := h
  refine ⟨?_, hdone, ?_⟩
  · exact TransitionSystem.Reachable.of_events startOnce
      (.init ⟨0, addressMemory, _, _, {}, 1, 1, hfeedback⟩) hrun
  · have hstart :
        ((TransitionSystem.ofNext
          (fun s => s = ⟨b₂, fun _ => {}⟩) next).restrict
        fun s e => s.restartsPlainly e = true).Reachable
          ⟨b₂, fun _ => {}⟩ := .init rfl
    exact (hstart.of_restricted_events startAgain hagain).restrict_mono
      fun _ _ => restarts_of_restartsPlainly

/-- What is seen of the input in such a run: before `mark_done`, and after the
start. -/
def seen (x : BlockActor × BlockActor × Reserving) : List (BlockState × Nat) :=
  [(x.1.blockState, (x.1.inputQueues 0).enqueuedBytes),
    (x.2.2.block.blockState, (x.2.2.block.inputQueues 0).enqueuedBytes)]

/-- What the condition looks at. -/
def configured (x : BlockActor × BlockActor × Reserving) : Bool :=
  let s := x.2.2
  (List.range s.block.numInputs).all
    (fun i => (s.block.inputConfigs i).preloadBytes == 0) &&
    (List.range s.block.numOutputs).all fun o =>
      s.need o == (s.block.outputConfigs o).reserveBytes

/-- Without a preload the block starts afresh. -/
theorem restart_afresh_iff_plain :
    ∃ b b' s, lifetime.Reachable b ∧ b.blockState = .live ∧
      b.markDone 0 = .ok b' ∧
      (restart b').Reachable s ∧ s.block.blockState = .live ∧
      s.block.StartsAfresh := by
  have hrun : (runFeedback 0).map (fun x => (seen x, configured x)) =
      some ([(.live, 0), (.live, 0)], true) := by decide
  obtain ⟨⟨b, b', s⟩, hx, hseen⟩ := Option.map_eq_some_iff.mp hrun
  simp only [seen, configured, Prod.mk.injEq, List.cons.injEq, and_true,
    Bool.and_eq_true, List.all_eq_true, List.mem_range, beq_iff_eq] at hseen
  obtain ⟨⟨⟨hlive, -⟩, hagain, -⟩, hcond⟩ := hseen
  obtain ⟨hb, hdone, hs⟩ := runFeedback_eq_some hx
  have hbefore : b.blockState ≠ .done := by
    rw [hlive]
    decide
  exact ⟨b, b', s, hb, hlive, hdone, hs, hagain,
    (restart_afresh_iff hbefore hdone hs).mpr hcond⟩

/-- **The preload is gone** when the block is started again, although the
topology sent its updates: nothing is enqueued where eight bytes were. -/
theorem preload_lost_by_restart :
    ∃ b b' s, lifetime.Reachable b ∧ b.blockState = .live ∧
      (b.inputQueues 0).enqueuedBytes = 8 ∧ b.markDone 0 = .ok b' ∧
      (restart b').Reachable s ∧ s.block.blockState = .live ∧
      (s.block.inputQueues 0).enqueuedBytes = 0 ∧ ¬ s.block.StartsAfresh := by
  have hrun : (runFeedback 8).map (fun x => (seen x, x.2.2.block.numInputs,
      (x.2.2.block.inputConfigs 0).preloadBytes)) =
      some ([(.live, 8), (.live, 0)], 1, 8) := by decide
  obtain ⟨⟨b, b', s⟩, hx, hseen⟩ := Option.map_eq_some_iff.mp hrun
  simp only [seen, Prod.mk.injEq, List.cons.injEq, and_true] at hseen
  obtain ⟨⟨⟨hlive, hbytes⟩, hagain, hnone⟩, hnum, hpreload⟩ := hseen
  obtain ⟨hb, hdone, hs⟩ := runFeedback_eq_some hx
  refine ⟨b, b', s, hb, hlive, hbytes, hdone, hs, hagain, hnone, ?_⟩
  intro hfresh
  have henqueued := (hfresh.preload 0 (by omega)).1
  rw [hnone, hpreload] at henqueued
  cases henqueued

end Reserving

end Gras
