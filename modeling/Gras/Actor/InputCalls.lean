import Gras.Buffers.InputBytes
import Gras.Actor.ActorSystem
import Gras.Actor.Moves
import Gras.Actor.UserCalls

/-!
# What a call does to the inputs of its block

A call marks the block done, pops a message, consumes items, or holds the inputs
as they are (`InputsHeld`).  In the last case the most that happens to a port is
that its ready bit is cleared or its front is accumulated.
-/

namespace Gras

namespace InputPort

/-- The bytes of a port stay.  Its ready bit may be cleared, and what is in
several buffers may be accumulated. -/
structure Held (p p' : InputPort) : Prop where
  bit : p'.bit = true → p.bit = true
  itemsSize : p'.itemsSize = p.itemsSize
  reserveBytes : p'.reserveBytes = p.reserveBytes
  enqueuedBytes : p'.enqueuedBytes = p.enqueuedBytes
  short : p.queue.items.length ≤ 1 → p'.queue.items = p.queue.items

section Held

variable {p p' p'' : InputPort} {fresh : Allocation} {m m' : Memory}

theorem Held.refl (p : InputPort) : Held p p :=
  ⟨id, rfl, rfl, rfl, fun _ => rfl⟩

theorem Held.trans (h : Held p p') (h' : Held p' p'') : Held p p'' := by
  refine ⟨fun hbit => h.bit (h'.bit hbit), h'.itemsSize.trans h.itemsSize,
    h'.reserveBytes.trans h.reserveBytes,
    h'.enqueuedBytes.trans h.enqueuedBytes, ?_⟩
  intro hshort
  have hfirst := h.short hshort
  rw [h'.short (by rwa [hfirst]), hfirst]

/-- `accumulate` changes no bit. -/
theorem accumulate_bit (h : p.accumulate fresh m = .ok (p', m')) :
    p'.bit = p.bit := by
  unfold accumulate at h
  split at h
  · simp only [Checked.pure_eq_ok, Prod.mk.injEq] at h
    rw [h.1]
  · split at h
    · simp at h
    · dsimp only at h
      split at h
      · simp at h
      · simp only [Checked.bind_eq_ok, Checked.pure_eq_ok, Prod.mk.injEq] at h
        obtain ⟨-, -, rfl, -⟩ := h
        rfl

theorem Held.accumulate (h : p.accumulate fresh m = .ok (p', m')) :
    Held p p' := by
  have hbit := accumulate_bit h
  rcases accumulate_cases h with ⟨rfl, -⟩ |
    ⟨aux, buff, buffers, hacc, -, -, -, hsame, henq, -⟩
  · exact .refl p'
  · refine ⟨fun hp => hbit ▸ hp, hsame.itemsSize, hsame.reserveBytes, henq, ?_⟩
    intro hshort
    have hdone : p.isAccumulated = true := by simp [isAccumulated, hshort]
    rw [hdone] at hacc
    cases hacc

theorem Held.front {buff : SBuffer} (h : p.front fresh m = .ok (buff, p', m')) :
    Held p p' := by
  obtain ⟨-, hfront⟩ := front_cases h
  rcases hfront with ⟨-, -, rfl, -⟩ | ⟨⟨rfl, -⟩ | haccum, -⟩
  · exact .refl p'
  · exact .refl p'
  · exact .accumulate haccum

theorem Held.fail (now : Int) (p : InputPort) : Held p (p.fail now) := by
  refine ⟨fun h => ?_, rfl, rfl, rfl, fun _ => rfl⟩
  cases h

end Held

end InputPort

namespace BlockActor

/-- **The inputs are held**: nothing arrives, and nothing is read. -/
structure InputsHeld (b b' : BlockActor) : Prop where
  state : b'.blockState = b.blockState
  numInputs : b'.numInputs = b.numInputs
  available : b'.inputsAvailable = b.inputsAvailable
  done : b'.inputsDone = b.inputsDone
  msgs : b'.inputMsgs = b.inputMsgs
  msgsRead : b'.numInputMsgsRead = b.numInputMsgsRead
  itemsRead : b'.numInputItemsRead = b.numInputItemsRead
  ports : ∀ i, InputPort.Held (b.inputQueues i) (b'.inputQueues i)

section Calls

variable {b b' b'' : BlockActor} {env : Env} {now : Int} {i o : Nat}

theorem InputsHeld.refl (b : BlockActor) : InputsHeld b b :=
  ⟨rfl, rfl, rfl, rfl, rfl, rfl, rfl, fun _ => .refl _⟩

theorem InputsHeld.trans (h : InputsHeld b b') (h' : InputsHeld b' b'') :
    InputsHeld b b'' :=
  ⟨h'.state.trans h.state, h'.numInputs.trans h.numInputs,
    h'.available.trans h.available, h'.done.trans h.done, h'.msgs.trans h.msgs,
    h'.msgsRead.trans h.msgsRead, h'.itemsRead.trans h.itemsRead,
    fun i => (h.ports i).trans (h'.ports i)⟩

/-- One port is held, and nothing else of the inputs changes. -/
theorem InputsHeld.setInput {p : InputPort} (memory : Memory)
    (h : InputPort.Held (b.inputQueues i) p) :
    InputsHeld b ({ b with memory }.setInput i p) := by
  refine ⟨rfl, rfl, rfl, rfl, rfl, rfl, rfl, ?_⟩
  intro j
  by_cases hji : j = i
  · subst hji
    rwa [setInput_inputQueues, Function.update_self]
  · rw [setInput_inputQueues, Function.update_of_ne hji]
    exact .refl _

theorem InputsHeld.setOutput (o : Nat) (p : OutputPort) (b : BlockActor) :
    InputsHeld b (b.setOutput o p) :=
  ⟨rfl, rfl, rfl, rfl, rfl, rfl, rfl, fun _ => .refl _⟩

theorem InputsHeld.taskKicker (b : BlockActor) : InputsHeld b b.taskKicker := by
  unfold BlockActor.taskKicker
  split
  · exact ⟨rfl, rfl, rfl, rfl, rfl, rfl, rfl, fun _ => .refl _⟩
  · exact .refl b

theorem InputsHeld.threadStep (b : BlockActor) (event : ThreadEvent) :
    InputsHeld b (b.threadStep event) := by
  have hsame : ∀ b' : BlockActor, b'.data = b.data →
      b'.blockState = b.blockState →
      b'.inputsDone = b.inputsDone → InputsHeld b b' := by
    intro b' hdata hstate hdone
    refine ⟨hstate, congrArg Data.numInputs hdata,
      congrArg Data.inputsAvailable hdata, hdone, congrArg Data.inputMsgs hdata,
      congrArg Data.numInputMsgsRead hdata,
      congrArg Data.numInputItemsRead hdata, fun i => ?_⟩
    have hports : b'.inputQueues = b.inputQueues :=
      congrArg Data.inputQueues hdata
    rw [hports]
    exact .refl _
  cases event with
  | post m => rw [BlockActor.threadStep]; split <;> exact hsame _ rfl rfl rfl
  | prepare m => rw [BlockActor.threadStep]; split <;> exact hsame _ rfl rfl rfl
  | send k => rw [BlockActor.threadStep]; split <;> exact hsame _ rfl rfl rfl
  | configureOutput o config =>
      exact ⟨rfl, rfl, rfl, rfl, rfl, rfl, rfl, fun _ => .refl _⟩
  | _ => exact hsame _ rfl rfl rfl

theorem produce_inputs {items : Nat} (h : b.produce o items = .ok b') :
    InputsHeld b b' := by
  simp only [produce, Checked.bind_eq_ok, Checked.pure_eq_ok] at h
  obtain ⟨p, -, rfl⟩ := h
  exact ⟨rfl, rfl, rfl, rfl, rfl, rfl, rfl, fun _ => .refl _⟩

/-- **What a call does to the inputs.** -/
theorem call_inputs {c : Call} (h : b.call now c = .ok b') :
    b.marksDone c = true ∧ b.markDone now = .ok b' ∨
      (∃ i, c = .popInputMsg i ∧ b' = b.popInputMsg i) ∨
      (∃ i items, c = .consume i items ∧ b' = b.consume i items) ∨
      InputsHeld b b' := by
  by_cases hmarks : b.marksDone c = true
  · exact .inl ⟨hmarks, markDone_of_call hmarks h⟩
  · refine .inr ?_
    cases c with
    | popInputMsg i =>
        rw [call, Checked.pure_eq_ok] at h
        exact .inl ⟨i, rfl, h.symm⟩
    | consume i items =>
        simp only [call, Checked.bind_eq_ok, Checked.pure_eq_ok] at h
        obtain ⟨-, -, h⟩ := h
        exact .inr (.inl ⟨i, items, rfl, h.symm⟩)
    | produce o items =>
        simp only [call, Checked.bind_eq_ok] at h
        obtain ⟨-, -, h⟩ := h
        exact .inr (.inr (produce_inputs h))
    | postOutputTag o tag =>
        rw [call, Checked.pure_eq_ok] at h
        subst h
        exact .inr (.inr ⟨rfl, rfl, rfl, rfl, rfl, rfl, rfl, fun _ => .refl _⟩)
    | postOutputMsg o msg =>
        rw [call, Checked.pure_eq_ok] at h
        subst h
        exact .inr (.inr ⟨rfl, rfl, rfl, rfl, rfl, rfl, rfl, fun _ => .refl _⟩)
    | markInputFail i fresh =>
        refine .inr (.inr ?_)
        simp only [call, inputFail] at h
        split at h
        · simp only [Checked.bind_eq_ok, Checked.pure_eq_ok, Prod.exists] at h
          obtain ⟨p, memory, haccum, rfl⟩ := h
          exact (InputsHeld.setInput memory (.accumulate haccum)).trans
            (.taskKicker _)
        · rename_i haccum
          split at h
          · rename_i hbit
            -- The block was done before.
            have hstate : b.blockState = .done := by
              simpa [marksDone, not_not.mp haccum, hbit] using hmarks
            rw [markDone, if_pos hstate, Checked.pure_eq_ok] at h
            exact h ▸ .refl b
          · split at h
            · simp at h
            · rw [Checked.pure_eq_ok] at h
              exact h ▸ .setInput b.memory (.fail now _)
    | markOutputFail o =>
        simp only [call, outputFail, Checked.bind_eq_ok, Prod.exists] at h
        obtain ⟨buff, p, -, h⟩ := h
        split at h
        · simp at h
        · rw [Checked.pure_eq_ok] at h
          exact h ▸ .inr (.inr (.setOutput o _ b))
    | markDone =>
        have hstate : b.blockState = .done := by simpa [marksDone] using hmarks
        rw [call, markDone, if_pos hstate, Checked.pure_eq_ok] at h
        exact h ▸ .inr (.inr (.refl b))
    | getInputBuffer i fresh =>
        simp only [call, getInputBuffer, Checked.bind_eq_ok, Checked.pure_eq_ok,
          Prod.exists] at h
        obtain ⟨buff, p, memory, hfront, rfl⟩ := h
        exact .inr (.inr (.setInput memory (.front hfront)))
    | getOutputBuffer o =>
        simp only [call, storeLength, Checked.bind_eq_ok, Checked.pure_eq_ok,
          Prod.exists] at h
        obtain ⟨buff, p, -, rfl⟩ := h
        exact .inr (.inr (.setOutput o _ b))
    | popOutputBuffer o numBytes =>
        simp only [call, storeLength, Checked.bind_eq_ok, Checked.pure_eq_ok,
          Prod.exists] at h
        obtain ⟨buff, p, -, rfl⟩ := h
        exact .inr (.inr (.setOutput o _ b))
    | postOutputBuffer o buffer =>
        simp only [call, postOutputBuffer, Checked.bind_eq_ok] at h
        obtain ⟨p, -, -, -, -, -, h⟩ := h
        exact .inr (.inr
          ((InputsHeld.setOutput o p b).trans (produce_inputs h)))
    | postInput i message =>
        rw [call, Checked.pure_eq_ok] at h
        subst h
        exact .inr (.inr ⟨rfl, rfl, rfl, rfl, rfl, rfl, rfl, fun _ => .refl _⟩)
    | thread event =>
        rw [call, Checked.pure_eq_ok] at h
        exact h ▸ .inr (.inr (.threadStep b event))

/-! ### One port -/

theorem flushOutput_inputs (h : b.flushOutput now o = .ok b') :
    b'.inputQueues = b.inputQueues ∧ b'.inputsAvailable =
      b.inputsAvailable := by
  unfold flushOutput at h
  split at h
  · rw [Checked.pure_eq_ok] at h
    exact h ▸ ⟨rfl, rfl⟩
  · simp only [Checked.bind_eq_ok, Prod.exists] at h
    obtain ⟨buff, p, -, h⟩ := h
    split at h
    · rw [Checked.pure_eq_ok] at h
      exact h ▸ ⟨rfl, rfl⟩
    · simp only [Checked.bind_eq_ok, Checked.pure_eq_ok] at h
      obtain ⟨q, -, rfl⟩ := h
      exact ⟨rfl, rfl⟩

/-- **`mark_done`** flushes an input port, or it is none of the block's; what is
available is not looked at. -/
theorem markDone_port (h : b.markDone now = .ok b') (i : Nat) :
    (b'.inputQueues i = b.inputQueues i ∨
        (b.inputQueues i).flush now = .ok (b'.inputQueues i)) ∧
      b'.inputsAvailable = b.inputsAvailable := by
  rcases markDone_cases h with ⟨-, rfl⟩ | ⟨-, b₁, hout, -, b₂, hin, rfl⟩
  · exact ⟨.inl rfl, rfl⟩
  · have h₁ : b₁.inputQueues = b.inputQueues ∧
        b₁.inputsAvailable = b.inputsAvailable :=
      forRange_rule hout (P := fun _ s => s.inputQueues = b.inputQueues ∧
          s.inputsAvailable = b.inputsAvailable)
            ⟨rfl, rfl⟩ fun o _ s s' hs hf => by
        obtain ⟨hqueues, havailable⟩ := flushOutput_inputs hf
        exact ⟨hqueues.trans hs.1, havailable.trans hs.2⟩
    -- A round flushes its own port.
    have h₂ := forRange_rule hin
      (P := fun n s => (n ≤ i → s.inputQueues i = b.inputQueues i) ∧
        (s.inputQueues i = b.inputQueues i ∨
          (b.inputQueues i).flush now = .ok (s.inputQueues i)) ∧
        s.inputsAvailable = b.inputsAvailable)
      ⟨fun _ => congrFun h₁.1 i, .inl (congrFun h₁.1 i), h₁.2⟩
          fun n _ s s' hs hf => by
        obtain ⟨hbefore, hport, havailable⟩ := hs
        simp only [flushInput, Checked.bind_eq_ok, Checked.pure_eq_ok] at hf
        obtain ⟨p, hflush, rfl⟩ := hf
        rw [setInput_inputQueues]
        by_cases hin : i = n
        · subst hin
          rw [Function.update_self]
          refine ⟨fun hle => absurd hle (by omega), .inr ?_, havailable⟩
          rwa [hbefore (Nat.le_refl i)] at hflush
        · rw [Function.update_of_ne hin]
          exact ⟨fun hle => hbefore (by omega), hport, havailable⟩
    exact ⟨h₂.2.1, h₂.2.2⟩

/-- **What a call does to a port**: it is held, or flushed with the block.  What
is available stays as it is. -/
theorem call_port {c : Call} (h : b.call now c = .ok b') (i : Nat) :
    (InputPort.Held (b.inputQueues i) (b'.inputQueues i) ∨
        (b.inputQueues i).flush now = .ok (b'.inputQueues i)) ∧
      b'.inputsAvailable = b.inputsAvailable := by
  rcases call_inputs h with ⟨-, hdone⟩ | ⟨j, -, rfl⟩ |
    ⟨j, items, -, rfl⟩ | hheld
  · obtain ⟨hsame | hflush, havailable⟩ := markDone_port hdone i
    · exact ⟨.inl (hsame ▸ .refl _), havailable⟩
    · exact ⟨.inr hflush, havailable⟩
  · unfold popInputMsg
    split <;> exact ⟨.inl (.refl _), rfl⟩
  · exact ⟨.inl (.refl _), rfl⟩
  · exact ⟨.inl (hheld.ports i), hheld.available⟩

end Calls

/-! ## The number of ports -/

section Ports

variable {b b' b₀ : BlockActor} {env : Env} {now : Int} {m : Message}

/-- The number of inputs and of outputs. -/
def numPorts (b : BlockActor) : Nat × Nat := (b.numInputs, b.numOutputs)

theorem numPorts_of_control (h : b'.control = b.control) :
    b'.numPorts = b.numPorts :=
  Prod.ext (congrArg Control.numInputs h) (congrArg Control.numOutputs h)

theorem markDone_numPorts (h : b.markDone now = .ok b') :
    b'.numPorts = b.numPorts := by
  rcases markDone_control h with ⟨-, rfl⟩ | ⟨-, hcontrol⟩
  · rfl
  · exact Prod.ext (congrArg Control.numInputs hcontrol)
      (congrArg Control.numOutputs hcontrol)

theorem enter_numPorts (h : b.enter env m = some (.ok b₀)) :
    b₀.numPorts = b.numPorts := by
  cases m with
  | input i message =>
      cases message with
      | msg msg =>
          simp only [enter] at h
          split at h
          · cases h
          · simp only [Option.some.injEq, storeInputMsg] at h
            have hcontrol := updateInputAvail_control h
            exact (numPorts_of_control hcontrol).trans rfl
      | buffer buffer =>
          simp only [enter] at h
          split at h
          · cases h
          · simp only [Option.some.injEq, storeInputBuffer,
              Checked.bind_eq_ok] at h
            obtain ⟨p, -, h⟩ := h
            have hcontrol := updateInputAvail_control h
            exact (numPorts_of_control hcontrol).trans rfl
      | check =>
          simp only [enter, Option.some.injEq, Checked.pure_eq_ok] at h
          exact h ▸ rfl
      | _ => cases h
  | output i message =>
      cases message with
      | buffer buffer =>
          simp only [enter] at h
          split at h
          · cases h
          · simp only [Option.some.injEq, storeOutputBuffer, Checked.bind_eq_ok,
              Checked.pure_eq_ok] at h
            obtain ⟨p, -, rfl⟩ := h
            rfl
      | _ => cases h
  | selfKick =>
      simp only [enter, Option.some.injEq, Checked.pure_eq_ok] at h
      exact h ▸ rfl
  | _ => cases h

theorem moves_numPorts {ok : ThreadEvent → Prop} (h : Moves ok b b') :
    b'.numPorts = b.numPorts := Prod.ext h.ports.1 h.ports.2

theorem acknowledge_numPorts (sender : Option Address) (b : BlockActor) :
    (b.acknowledge sender).numPorts = b.numPorts := by
  cases sender <;> rfl

/-- **No handler** of the actor changes the number of ports. -/
theorem handled_numPorts (h : Handled env b m b') :
    b'.numPorts = b.numPorts := by
  cases h with
  | @task _ _ b₀ b₁ b₂ henter hstore htask hleave =>
      subst hstore
      have hlast : b'.numPorts = b₁.numPorts := by
        unfold leave at hleave
        split at hleave
        · split at hleave
          · exact markDone_numPorts hleave
          · rw [Checked.pure_eq_ok] at hleave
            rw [hleave]
        · rw [Checked.pure_eq_ok] at hleave
          rw [hleave]
      rw [hlast, moves_numPorts (taskMain_moves (workWithin_true env) htask),
        enter_numPorts henter]
  | tag i tag hstate =>
      unfold handleInputTag
      split <;> rfl
  | inputUpdate h => exact numPorts_of_control (handleInputUpdate_control h)
  | outputUpdate h => exact numPorts_of_control (handleOutputUpdate_control h)
  | outputAlloc h =>
      simp only [handleOutputAlloc, Checked.bind_eq_ok, Checked.pure_eq_ok] at h
      obtain ⟨p, -, rfl⟩ := h
      rfl
  | topAlloc h =>
      simp only [handleTopAlloc, Checked.bind_eq_ok, Checked.pure_eq_ok] at h
      obtain ⟨b₁, hloop, rfl⟩ := h
      rw [acknowledge_numPorts]
      refine forRange_rule hloop (P := fun _ s => s.numPorts = b.numPorts) rfl
        fun i _ s s' hs hf => ?_
      obtain ⟨config, p, -, rfl⟩ := allocateOutput_cases hf
      exact hs
  | outputsDone hdone h => exact (markDone_numPorts h).trans rfl
  | inert h => exact (acknowledge_numPorts _ _).trans (markDone_numPorts h)
  | @active prio sender =>
      obtain ⟨t, hactive⟩ := handleTopActive_eq env sender b
      rw [hactive]
      rfl
  | callable =>
      have hcalls : Moves (fun _ => True) b (b.attempt env.now env.called) :=
        attempt_moves fun _ _ => trivial
      show (b.attempt env.now env.called).numPorts = b.numPorts
      exact moves_numPorts hcalls
  | quiet hstate hdata =>
      exact Prod.ext (congrArg Data.numInputs hdata.data)
        (congrArg Data.numOutputs hdata.data)

theorem markDone_numInputs (h : b.markDone now = .ok b') :
    b'.numInputs = b.numInputs :=
  congrArg Prod.fst (markDone_numPorts h)

theorem enter_numInputs (h : b.enter env m = some (.ok b₀)) :
    b₀.numInputs = b.numInputs :=
  congrArg Prod.fst (enter_numPorts h)

theorem handled_numInputs (h : Handled env b m b') :
    b'.numInputs = b.numInputs :=
  congrArg Prod.fst (handled_numPorts h)

theorem handled_numOutputs (h : Handled env b m b') :
    b'.numOutputs = b.numOutputs :=
  congrArg Prod.snd (handled_numPorts h)

end Ports

end BlockActor

end Gras
