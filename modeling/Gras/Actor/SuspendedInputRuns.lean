import Gras.Actor.SuspendedInput
import Gras.Actor.WakeUpRuns

/-!
# How long a failed input keeps its block asleep

A block that a task has suspended stays so while nothing is handled that is for
the failed input (`Untouched`), as long as the input is starved or no other
input becomes available (`InputsHeldOff`).

### What the condition is for

`mark_input_fail` clears the ready bit of its input, and the update after the
work sets it again when the reserve is there.  So a failed input keeps the block
asleep by being below its reserve, and otherwise only by the other inputs having
nothing.  The first theorem says when the task goes to sleep; the second how
long it sleeps, until something is handled that is for the failed input or makes
another one available.
-/

namespace Gras

/-- The message brings input `i` a buffer, a message, a check or a
configuration. -/
def Message.touches (i : Nat) : Message → Bool
  | input j (.buffer _) => j == i
  | input j (.msg _) => j == i
  | input j .check => j == i
  | input j .update => j == i
  | _ => false

namespace BlockActor

/-! ## What makes an input available -/

/-- The message makes the input it is for available. -/
def MakesAvailable (b : BlockActor) : Message → Prop
  | .input _ (.msg _) => b.blockState ≠ .done
  | .input j (.buffer buffer) =>
      let p := b.inputQueues j
      b.blockState ≠ .done ∧ (b.inputMsgs j ≠ [] ∨
        if buffer.length = 0 then p.hasInputBufs = true
        else p.reserveBytes ≤ p.enqueuedBytes + buffer.length)
  | .input j .update =>
      let config := b.inputConfigs j
      let p := b.inputQueues j
      let preloadBytes := sizeMul config.itemSize config.preloadItems
      j < b.numInputs ∧ (b.inputMsgs j ≠ [] ∨
        sizeMul config.itemSize config.reserveItems ≤
            p.configuredBytes config.itemSize preloadBytes ∧
          p.ConfiguredBuffer config.itemSize preloadBytes)
  | _ => False

/-- An input port changes, and whether it is available. -/
def TouchesInput (j : Nat) (available : Bool) (b b' : BlockActor) : Prop :=
  ∃ q, b'.inputQueues = Function.update b.inputQueues j q ∧
    b'.inputsAvailable = b.inputsAvailable.set j available

/-- The input ports stay as they are. -/
def SameInputs (b b' : BlockActor) : Prop :=
  b'.inputQueues = b.inputQueues ∧ b'.inputsAvailable = b.inputsAvailable

section Handlers

variable {P : InputPort → Prop} {b b' b₀ : BlockActor} {env : Env} {now : Int}
  {m : Message}
  {i j : Nat}

theorem updateInputAvail_touches (h : b.updateInputAvail now j = .ok b') :
    TouchesInput j
      ((b.inputQueues j).hasInputBufs || !(b.inputMsgs j).isEmpty) b b' := by
  simp only [updateInputAvail, Checked.bind_eq_ok, Checked.pure_eq_ok] at h
  obtain ⟨q, -, rfl⟩ := h
  exact ⟨q, rfl, rfl⟩

/-- Pushing a buffer makes the port ready when its bytes reach the reserve. -/
theorem push_hasInputBufs {p p' : InputPort} {buffer : SBuffer}
    (h : p.push now buffer = .ok p') (hready : p'.hasInputBufs = true) :
    if buffer.length = 0 then p.hasInputBufs = true
      else p.reserveBytes ≤ p.enqueuedBytes + buffer.length := by
  simp only [InputPort.push, Checked.bind_eq_ok] at h
  obtain ⟨-, -, h⟩ := h
  split at h
  · rename_i hlength
    rw [Checked.pure_eq_ok] at h
    subst h
    rw [if_pos hlength]
    simpa only [InputPort.hasInputBufs, InputPort.empty, InputPort.ready,
      InputPort.grown_items] using hready
  · rename_i hlength
    rw [if_neg hlength]
    simp only [Checked.bind_eq_ok] at h
    obtain ⟨p₁, hupdate, h⟩ := h
    have hbit : p₁.bit =
        decide (p.reserveBytes ≤ p.enqueuedBytes + buffer.length) := by
      rw [InputPort.update_eq_ok hupdate]
      rfl
    have hbit' : p'.bit = p₁.bit := by
      split at h
      · rw [Checked.pure_eq_ok] at h
        rw [h]
      · rw [Checked.pure_eq_ok] at h
        rw [← h]
    by_contra hless
    have hnone : p'.hasInputBufs = false := by
      refine InputPort.hasInputBufs_eq_false_iff.mpr (.inr ?_)
      rw [hbit', hbit]
      exact decide_eq_false hless
    rw [hnone] at hready
    cases hready

/-- **Before its task** a handler leaves the inputs alone, or stores what has
arrived on one. -/
theorem enter_inputs (h : b.enter env m = some (.ok b₀))
    (hm : m.touches i = false) :
    SameInputs b b₀ ∨ ∃ j available, j ≠ i ∧ TouchesInput j available b b₀ ∧
      (available = true → b.MakesAvailable m) := by
  cases m with
  | input j message =>
      cases message with
      | msg msg =>
          simp only [enter] at h
          split at h
          · cases h
          · rename_i hlive
            simp only [Option.some.injEq, storeInputMsg] at h
            obtain ⟨q, hqueues, havailable⟩ := updateInputAvail_touches h
            exact .inr ⟨j, _,
              by simpa [Message.touches] using hm, ⟨q, hqueues, havailable⟩,
              fun _ => hlive⟩
      | buffer buffer =>
          simp only [enter] at h
          split at h
          · cases h
          · rename_i hlive
            simp only [Option.some.injEq, storeInputBuffer,
              Checked.bind_eq_ok] at h
            obtain ⟨p, hpush, h⟩ := h
            obtain ⟨q, hqueues, havailable⟩ := updateInputAvail_touches h
            rw [setInput_inputQueues, Function.update_idem] at hqueues
            refine .inr ⟨j, _,
              by simpa [Message.touches] using hm, ⟨q, hqueues, havailable⟩,
              fun hnow => ⟨hlive, ?_⟩⟩
            rw [setInput_inputQueues, Function.update_self,
              Bool.or_eq_true] at hnow
            rcases hnow with hbuffs | hmsgs
            · exact .inr (push_hasInputBufs hpush hbuffs)
            · have hmsgs : (!(b.inputMsgs j).isEmpty) = true := hmsgs
              exact .inl (by simpa using hmsgs)
      | check =>
          simp only [enter, Option.some.injEq, Checked.pure_eq_ok] at h
          exact .inl (h ▸ ⟨rfl, rfl⟩)
      | _ => cases h
  | output o message =>
      cases message with
      | buffer buffer =>
          simp only [enter] at h
          split at h
          · cases h
          · simp only [Option.some.injEq, storeOutputBuffer, Checked.bind_eq_ok,
              Checked.pure_eq_ok] at h
            obtain ⟨p, -, rfl⟩ := h
            exact .inl ⟨rfl, rfl⟩
      | _ => cases h
  | selfKick =>
      simp only [enter, Option.some.injEq, Checked.pure_eq_ok] at h
      exact .inl (h ▸ ⟨rfl, rfl⟩)
  | _ => cases h

/-- **A configuration update** leaves the inputs alone, or configures its
own. -/
theorem handleInputUpdate_inputs (h : b.handleInputUpdate env j = .ok b') :
    SameInputs b b' ∨ ∃ available, TouchesInput j available b b' ∧
      (available = true → b.MakesAvailable (.input j .update)) := by
  unfold handleInputUpdate at h
  split at h
  · rw [Checked.pure_eq_ok] at h
    exact .inl (h ▸ ⟨rfl, rfl⟩)
  · rename_i hport
    simp only [Checked.bind_eq_ok, Prod.exists] at h
    obtain ⟨p, memory, hconfig, h⟩ := h
    obtain ⟨hbit, -, -, hbuffer⟩ := InputPort.updateConfig_outcome hconfig
    obtain ⟨q, hqueues, havailable⟩ := updateInputAvail_touches h
    rw [setInput_inputQueues] at hqueues
    simp only [Function.update_idem] at hqueues
    refine .inr ⟨_, ⟨q, hqueues, havailable⟩,
      fun hnow => ⟨Nat.not_le.mp hport, ?_⟩⟩
    rw [setInput_inputQueues, Function.update_self, Bool.or_eq_true] at hnow
    rcases hnow with hbuffs | hmsgs
    · simp only [InputPort.hasInputBufs, Bool.and_eq_true,
        Bool.not_eq_true'] at hbuffs
      obtain ⟨hempty, hready⟩ := hbuffs
      rw [InputPort.ready, hbit] at hready
      exact .inr ⟨of_decide_eq_true hready, hbuffer hempty⟩
    · have hmsgs : (!(b.inputMsgs j).isEmpty) = true := hmsgs
      exact .inl (by simpa using hmsgs)

/-- What happens to another input. -/
theorem Suspends.touch {available : Bool} (hs : b.Suspends i) (hji : j ≠ i)
    (h : TouchesInput j available b b')
    (hoff : (b.inputQueues i).Starved ∨ available = false) : b'.Suspends i := by
  obtain ⟨q, hqueues, havailable⟩ := h
  have hstays : (b.inputQueues i).Starved → b'.Suspends i := by
    intro hstarved
    refine .inl ?_
    rwa [hqueues, Function.update_of_ne (Ne.symm hji)]
  rcases hoff with hstarved | rfl
  · exact hstays hstarved
  · rcases hs with hstarved | hnone
    · exact hstays hstarved
    · refine .inr ?_
      by_contra hany
      obtain ⟨k, hk, hbit⟩ := (BitSet.any_iff _).mp (by simpa using hany)
      rw [havailable] at hk hbit
      by_cases hkj : k = j
      · rw [hkj, BitSet.set_bit_self] at hbit
        cases hbit
      · rw [BitSet.set_bit_of_ne hkj] at hbit
        have hany' : b.inputsAvailable.any = true :=
          (BitSet.any_iff _).mpr ⟨k, hk, hbit⟩
        rw [hnone] at hany'
        cases hany'

theorem Suspends.same (hs : b.Suspends i) (h : SameInputs b b') :
    b'.Suspends i := by
  unfold Suspends
  rw [h.1, h.2]
  exact hs

/-- What the calls of user code do. -/
theorem Suspends.kept (hs : b.Suspends i)
    (hport : (b.inputQueues i).Starved → (b'.inputQueues i).Starved)
    (havailable : b'.inputsAvailable = b.inputsAvailable) : b'.Suspends i := by
  rcases hs with hstarved | hnone
  · exact .inl (hport hstarved)
  · exact .inr (havailable ▸ hnone)

theorem leave_available (h : b.leave env m = .ok b') :
    b'.inputsAvailable = b.inputsAvailable := by
  unfold BlockActor.leave at h
  split at h
  · split at h
    · exact (markDone_port h 0).2
    · rw [Checked.pure_eq_ok] at h
      rw [h]
  · rw [Checked.pure_eq_ok] at h
    rw [h]

theorem Suspends.leave (hs : b.Suspends i) (h : b.leave env m = .ok b') :
    b'.Suspends i := by
  refine hs.kept (fun hstarved => ?_) (leave_available h)
  unfold BlockActor.leave at h
  split at h
  · split at h
    · exact markDone_stable InputPort.stable_starved h hstarved
    · rw [Checked.pure_eq_ok] at h
      exact h ▸ hstarved
  · rw [Checked.pure_eq_ok] at h
    exact h ▸ hstarved

/-- **Before the task** a suspended block stays suspended. -/
theorem Suspends.enter (hs : b.Suspends i) (hm : m.touches i = false)
    (hoff : (b.inputQueues i).Starved ∨ ¬ b.MakesAvailable m)
    (h : b.enter env m = some (.ok b₀)) : b₀.Suspends i := by
  rcases enter_inputs h hm with hsame | ⟨j, available, hji, htouch, havailable⟩
  · exact hs.same hsame
  · refine hs.touch hji htouch (hoff.imp_right fun hnot => ?_)
    exact Bool.eq_false_iff.mpr fun hnow => hnot (havailable hnow)

/-- **The other handlers** keep a port as the calls of user code do, and leave
what is available alone. -/
theorem handler_stable (hP : InputPort.Stable P) (h : b.handler env m = .ok b')
    (htask : b.enter env m = none) (hupdate : ∀ j, m ≠ .input j .update) :
    (P (b.inputQueues i) → P (b'.inputQueues i)) ∧
      b'.inputsAvailable = b.inputsAvailable := by
  have hsame : SameInputs b b' →
      (P (b.inputQueues i) → P (b'.inputQueues i)) ∧
      b'.inputsAvailable = b.inputsAvailable :=
    fun hsame => ⟨fun hp => hsame.1 ▸ hp, hsame.2⟩
  have hreply : ∀ (sender : Option Address) (s : BlockActor),
      SameInputs s (s.acknowledge sender) := fun sender s => by
    cases sender <;> exact ⟨rfl, rfl⟩
  cases handled h with
  | task henter => simp [htask] at henter
  | inputUpdate hup => exact absurd rfl (hupdate _)
  | tag j tag hstate =>
      rw [handleInputTag, if_neg hstate]
      exact ⟨id, rfl⟩
  | outputUpdate hup =>
      refine hsame ?_
      unfold handleOutputUpdate at hup
      split at hup
      · rw [Checked.pure_eq_ok] at hup
        exact hup ▸ ⟨rfl, rfl⟩
      · simp only [Checked.bind_eq_ok, Checked.pure_eq_ok] at hup
        obtain ⟨p, -, rfl⟩ := hup
        exact ⟨rfl, rfl⟩
  | outputAlloc hset =>
      refine hsame ?_
      simp only [handleOutputAlloc, Checked.bind_eq_ok,
        Checked.pure_eq_ok] at hset
      obtain ⟨p, -, rfl⟩ := hset
      exact ⟨rfl, rfl⟩
  | @topAlloc prio sender _ halloc =>
      refine hsame ?_
      simp only [handleTopAlloc, Checked.bind_eq_ok,
        Checked.pure_eq_ok] at halloc
      obtain ⟨b₁, hloop, rfl⟩ := halloc
      have h₁ : SameInputs b b₁ :=
        forRange_rule hloop (P := fun _ s => SameInputs b s)
        ⟨rfl, rfl⟩ fun o _ s s' hs hf => by
          obtain ⟨config, p, -, rfl⟩ := allocateOutput_cases hf
          exact hs
      obtain ⟨hqueues, havailable⟩ := hreply sender b₁
      exact ⟨hqueues.trans h₁.1, havailable.trans h₁.2⟩
  | @outputsDone o _ hall hdone =>
      exact ⟨markDone_stable (b := b.recheckOutput env o) hP hdone,
        (markDone_port hdone i).2⟩
  | @inert prio sender b₁ hdone =>
      obtain ⟨hqueues, havailable⟩ := hreply sender b₁
      rw [hqueues, havailable]
      exact ⟨markDone_stable hP hdone, (markDone_port hdone i).2⟩
  | @active prio sender =>
      refine hsame ?_
      obtain ⟨t, hactive⟩ := handleTopActive_eq env sender b
      rw [hactive]
      exact ⟨rfl, rfl⟩
  | callable => exact attempt_stable (b := b) hP env.called
  | quiet hstate hdata =>
      exact hsame ⟨congrArg Data.inputQueues hdata.data,
        congrArg Data.inputsAvailable hdata.data⟩

/-- **Every handler** of a message that is not for the failed input. -/
theorem Suspends.handler (hs : b.Suspends i) (hi : i < b.numInputs)
    (hm : m.touches i = false)
    (hoff : (b.inputQueues i).Starved ∨ ¬ b.MakesAvailable m)
    (h : b.handler env m = .ok b') : b'.Suspends i := by
  cases henter : b.enter env m with
  | some store =>
      obtain ⟨b₀, b₁, rfl, htask, hleave⟩ := handler_of_enter henter h
      have h₀ := hs.enter hm hoff henter
      -- The block does not work, so the task does nothing.
      have hports : b₀.numInputs = b.numInputs := enter_numInputs henter
      have hidle : b₀.isWorkAllowed = false := by
        rw [isWorkAllowed, h₀.not_ready (hports ▸ hi), Bool.and_false]
      have hsame := taskMain_idle hidle htask
      subst hsame
      exact h₀.leave hleave
  | none =>
      by_cases hupdate : ∃ j, m = .input j .update
      · obtain ⟨j, rfl⟩ := hupdate
        rcases handleInputUpdate_inputs h with hsame |
          ⟨available, htouch, havailable⟩
        · exact hs.same hsame
        · refine hs.touch (by simpa [Message.touches] using hm) htouch
            (hoff.imp_right fun hnot => ?_)
          exact Bool.eq_false_iff.mpr fun hnow => hnot (havailable hnow)
      · have hkept := handler_stable (i := i) InputPort.stable_starved h henter
          fun j hj => hupdate ⟨j, hj⟩
        exact hs.kept hkept.1 hkept.2

/-! ### The size of `inputs_available` -/

/-- There is a bit for each input. -/
def AvailableSized (b : BlockActor) : Prop :=
  b.numInputs ≠ 0 → b.inputsAvailable.size = b.numInputs

theorem exists_untouched (m : Message) : ∃ i, m.touches i = false := by
  cases m with
  | input j message =>
      refine ⟨j + 1, ?_⟩
      cases message with
      | tag tag => rfl
      | token token => rfl
      | alloc config => rfl
      | _ => simp [Message.touches]
  | _ => exact ⟨0, rfl⟩

theorem enter_availableSize (h : b.enter env m = some (.ok b₀)) :
    b₀.inputsAvailable.size = b.inputsAvailable.size := by
  obtain ⟨i, hm⟩ := exists_untouched m
  rcases enter_inputs h hm with hsame | ⟨j, available, -, ⟨q, -, havailable⟩, -⟩
  · rw [hsame.2]
  · rw [havailable, BitSet.set_size]

/-- **No handler** changes the size of `inputs_available`. -/
theorem handler_availableSize (h : b.handler env m = .ok b') :
    b'.inputsAvailable.size = b.inputsAvailable.size := by
  cases henter : b.enter env m with
  | some store =>
      obtain ⟨b₀, b₁, rfl, htask, hleave⟩ := handler_of_enter henter h
      rw [leave_available hleave, taskMain_availableSize htask,
        enter_availableSize henter]
  | none =>
      by_cases hupdate : ∃ j, m = .input j .update
      · obtain ⟨j, rfl⟩ := hupdate
        rcases handleInputUpdate_inputs h with hsame |
          ⟨available, ⟨q, -, havailable⟩, -⟩
        · rw [hsame.2]
        · rw [havailable, BitSet.set_size]
      · rw [(handler_stable (i := 0) InputPort.stable_starved h henter
          fun j hj => hupdate ⟨j, hj⟩).2]

/-- A topology sizes `inputs_available`. -/
theorem handleTopology_availableSized {n k : Nat} {sender : Option Address}
    (h : b.handleTopology env n k sender = .ok b') : b'.AvailableSized := by
  simp only [handleTopology, Checked.bind_eq_ok, Checked.pure_eq_ok] at h
  obtain ⟨b₁, hrelease, b₂, hin, b₃, hout, rfl⟩ := h
  have h₀ : (b.resize env.now n k).AvailableSized := by
    intro hn
    have hn : n ≠ 0 := hn
    show (if n = 0 then _ else _ : BitSet).size = n
    rw [if_neg hn]
    rfl
  -- Neither the size nor the number of inputs changes afterwards.
  have hkept : ∀ {s s' : BlockActor},
      s'.inputsAvailable.size = s.inputsAvailable.size →
      s'.numInputs = s.numInputs → s.AvailableSized → s'.AvailableSized := by
    intro s s' hsize hports hs hn
    rw [hsize, hports]
    exact hs (hports ▸ hn)
  have h₁ : b₁.AvailableSized := by
    unfold releaseUnconnected at hrelease
    split at hrelease
    · exact hkept (congrArg BitSet.size (markDone_port hrelease 0).2)
        (markDone_numInputs hrelease) h₀
    · rw [Checked.pure_eq_ok] at hrelease
      exact hrelease ▸ h₀
  have h₂ : b₂.AvailableSized :=
    forRange_rule hin (P := fun _ s => s.AvailableSized) h₁
    fun j _ s s' hs hf => by
      have hports : s'.numInputs = s.numInputs :=
        congrArg Control.numInputs (handleInputUpdate_control hf)
      rcases handleInputUpdate_inputs hf with hsame |
        ⟨available, ⟨q, -, havailable⟩, -⟩
      · exact hkept (congrArg BitSet.size hsame.2) hports hs
      · refine hkept ?_ hports hs
        rw [havailable, BitSet.set_size]
  have h₃ : b₃.AvailableSized :=
    forRange_rule hout (P := fun _ s => s.AvailableSized) h₂
    fun o _ s s' hs hf => by
      unfold handleOutputUpdate at hf
      split at hf
      · rw [Checked.pure_eq_ok] at hf
        exact hf ▸ hs
      · simp only [Checked.bind_eq_ok, Checked.pure_eq_ok] at hf
        obtain ⟨p, -, rfl⟩ := hf
        exact hs
  cases sender <;> exact h₃

end Handlers

/-! ## Runs -/

/-- Nothing is handled that is for input `i`. -/
def Untouched (i : Nat) (b : BlockActor) : ActorEvent → Prop
  | .thread _ => True
  | .handle _ => ∀ m ∈ b.mailbox.head?, m.touches i = false

/-- **When the block is left asleep**: the failed input is starved, or nothing
is handled that makes another one available. -/
def InputsHeldOff (i : Nat) (b : BlockActor) : ActorEvent → Prop
  | .thread _ => True
  | .handle _ =>
      ∀ m ∈ b.mailbox.head?, (b.inputQueues i).Starved ∨ ¬ b.MakesAvailable m

/-- The runs that go on from a block. -/
def runsFrom (b : BlockActor) : TransitionSystem BlockActor ActorEvent :=
  .ofNext (· = b) next

section Runs

variable {b b' b₁ c : BlockActor} {env env' : Env} {e : ActorEvent} {i : Nat}

theorem availableSized_of_reachable (h : system.Reachable b) :
    b.AvailableSized := by
  refine h.invariant (P := AvailableSized)
    (fun s hs => ?_) fun s e s' _ hs hstep => ?_
  · obtain ⟨initTime, memory, inputConfigs, outputConfigs, env, n, k,
        hstart⟩ := hs
    exact handleTopology_availableSized hstart
  · rcases next_cases hstep with ⟨event, rfl, rfl⟩ | ⟨env, rfl, hmail, rfl⟩ |
      ⟨env, m, rest, s₁, rfl, hmail, hhandler, rfl⟩
    · have hheld := InputsHeld.threadStep s event
      intro hn
      rw [hheld.available, hheld.numInputs]
      exact hs (hheld.numInputs ▸ hn)
    · exact hs
    · have hsize := handler_availableSize hhandler
      have hports := handled_numInputs (handled hhandler)
      intro hn
      show s₁.inputsAvailable.size = s₁.numInputs
      rw [hsize, hports]
      exact hs (hports ▸ hn)

/-- **A step** that the block sleeps through. -/
theorem Suspends.next (hs : b.Suspends i ∧ i < b.numInputs)
    (hfree : b.Untouched i e) (hoff : b.InputsHeldOff i e)
    (h : b.next e = .ok b') : b'.Suspends i ∧ i < b'.numInputs := by
  obtain ⟨hs, hi⟩ := hs
  rcases next_cases h with ⟨event, rfl, rfl⟩ | ⟨env, rfl, hmail, rfl⟩ |
    ⟨env, m, rest, b₁, rfl, hmail, hhandler, rfl⟩
  · have hheld := InputsHeld.threadStep b event
    refine ⟨hs.kept (InputPort.stable_starved.held (hheld.ports i))
      hheld.available, ?_⟩
    rw [hheld.numInputs]
    exact hi
  · exact ⟨hs, hi⟩
  · have hhead : m ∈ b.mailbox.head? := by rw [hmail]; rfl
    have hsuspends : (b.receive m rest).Suspends i := hs
    have h₁ : b₁.Suspends i :=
      hsuspends.handler hi (hfree m hhead) (hoff m hhead) hhandler
    refine ⟨h₁, ?_⟩
    have hports := handled_numInputs (handled hhandler)
    show i < b₁.numInputs
    rw [hports]
    exact hi

/-- A suspended block does not work in the handler of a message either. -/
theorem Suspends.atWork (hs : b.Suspends i) (hi : i < b.numInputs)
    (hfree : b.Untouched i (.handle env))
    (hoff : b.InputsHeldOff i (.handle env)) : b.atWork env = none := by
  by_contra hwork
  obtain ⟨b₁, hwork⟩ := Option.ne_none_iff_exists'.mp hwork
  obtain ⟨m, rest, b₀, hmail, henter, hallowed, -⟩ := atWork_eq_some hwork
  have hhead : m ∈ b.mailbox.head? := by rw [hmail]; rfl
  have hsuspends : (b.receive m rest).Suspends i := hs
  have h₀ := hsuspends.enter (hfree m hhead) (hoff m hhead) henter
  have hports : b₀.numInputs = (b.receive m rest).numInputs :=
    enter_numInputs henter
  have hidle := h₀.not_ready (by rw [hports]; exact hi)
  rw [isWorkAllowed, hidle, Bool.and_false] at hallowed
  cases hallowed

/-- **The handler in which the input fails** leaves the block suspended. -/
theorem suspends_of_fails (hb : system.Reachable b)
    (hwork : b.atWork env = some b₁) (hi : i < b.numInputs)
    (hfail : b₁.FailsInput env i)
    (hcond : ∀ b₂, b₁.taskWork env = .ok b₂ → b₂.WorkSuspends env i)
    (h : b.next (.handle env) = .ok b') : b'.Suspends i ∧ i < b'.numInputs := by
  obtain ⟨m, rest, b₀, hmail, henter, hallowed, hprepare⟩ :=
    atWork_eq_some hwork
  have hsized := availableSized_of_reachable hb
  simp only [next, handle, hmail, Checked.bind_eq_ok, Checked.pure_eq_ok] at h
  obtain ⟨b₂, hhandler, rfl⟩ := h
  have hports := handled_numInputs (handled hhandler)
  have hi₂ : i < b₂.numInputs := by
    rw [hports]
    exact hi
  obtain ⟨b₀', b₃, hstore, htask, hleave⟩ := handler_of_enter henter hhandler
  cases hstore
  have hports₀ : b₀.numInputs = (b.receive m rest).numInputs :=
    enter_numInputs henter
  have hsize₀ : b₀.inputsAvailable.size =
      (b.receive m rest).inputsAvailable.size :=
    enter_availableSize henter
  have hsuspends : b₃.Suspends i := by
    refine taskMain_suspends hallowed hprepare
      (by rw [hports₀]; exact hi) ?_ hfail hcond htask
    rw [hsize₀, hports₀]
    exact hsized (by omega)
  have h₂ : b₂.Suspends i := hsuspends.leave hleave
  exact ⟨h₂, hi₂⟩

/-- **`mark_input_fail` suspends the block** in every run that meets the
condition: work is not called before a message for the failed input is
handled. -/
theorem suspended_until_touched (hb : system.Reachable b)
    (hwork : b.atWork env = some b₁) (hi : i < b.numInputs)
    (hfail : b₁.FailsInput env i)
    (hcond : ∀ b₂, b₁.taskWork env = .ok b₂ → b₂.WorkSuspends env i)
    (h : b.next (.handle env) = .ok b')
    (hrun : ((runsFrom b').restrict fun c e => c.Untouched i e ∧
      c.InputsHeldOff i e).Reachable c)
    (hfree : c.Untouched i (.handle env'))
    (hoff : c.InputsHeldOff i (.handle env')) : c.atWork env' = none := by
  have hstart := suspends_of_fails hb hwork hi hfail hcond h
  have hc : c.Suspends i ∧ i < c.numInputs :=
    TransitionSystem.Reachable.invariant
    (T := (runsFrom b').restrict fun c e => c.Untouched i e ∧
      c.InputsHeldOff i e)
    (P := fun c => c.Suspends i ∧ i < c.numInputs) (fun s hs => hs ▸ hstart)
    (fun _ _ _ _ hs hstep => Suspends.next hs hstep.1.1 hstep.1.2 hstep.2) hrun
  exact hc.1.atWork hc.2 hfree hoff

end Runs

/-! ### Sinks whose work fails the first input -/

/-- A sink with so many inputs. -/
def sinkOf (n : Nat) : Checked BlockActor :=
  (made 0 addressMemory).handleTopology {} n 0 none

/-- Four bytes arrive on an input. -/
def bytesArrive (i : Nat) : ActorEvent :=
  arrive (.input i (.buffer ⟨10 + i, { memory := 200, length := 4 }, 0, 4, 0⟩))

/-- Start a sink, and perform events. -/
def runSinkOf (n : Nat) (es : List ActorEvent) : Option BlockActor :=
  (sinkOf n).toOption.bind fun b =>
    (TransitionSystem.runEvents next es b).toOption

theorem reachable_of_runSinkOf {n : Nat} {es : List ActorEvent} {b : BlockActor}
    (h : runSinkOf n es = some b) : system.Reachable b := by
  obtain ⟨b₀, hstart, hrun⟩ := Option.bind_eq_some_iff.mp h
  cases hsink : sinkOf n with
  | error e => simp [hsink, Except.toOption] at hstart
  | ok b₁ =>
      rw [hsink] at hstart
      cases hstart
      have hstarted : Started b₀ := ⟨0, addressMemory, _, _, {}, n, 0, hsink⟩
      cases hevents : TransitionSystem.runEvents next es b₀ with
      | error e => simp [hevents, Except.toOption] at hrun
      | ok b₂ =>
          rw [hevents] at hrun
          cases hrun
          exact .of_events es (.init hstarted) hevents

/-- The work does nothing but fail the first input. -/
def failing : Env := { work := [.markInputFail 0 ⟨50, 0⟩] }

/-- It fails the port, nothing of it is consumed, and it has no messages. -/
def failsFirst (b : BlockActor) : Bool :=
  (b.inputQueues 0).isAccumulated && !b.inputsDone.bit 0 &&
    !(b.inputQueues 0).isFrontMaximal &&
    ((b.taskWork failing).toOption.bind fun b' =>
        b'.atTrim failing 0).all fun t =>
      t.numInputItemsRead 0 == 0 && (t.inputMsgs 0).isEmpty

theorem fails_of_failsFirst {b : BlockActor} (h : b.failsFirst = true) :
    b.FailsInput failing 0 ∧
      ∀ b', b.taskWork failing = .ok b' →
      ∀ t ∈ b'.atTrim failing 0, t.inputMsgs 0 = [] := by
  simp only [failsFirst, Bool.and_eq_true, Bool.not_eq_true'] at h
  obtain ⟨⟨⟨haccum, hdone⟩, hmaximal⟩, htrim⟩ := h
  have hall : ∀ b', b.taskWork failing = .ok b' → ∀ t ∈ b'.atTrim failing 0,
      t.numInputItemsRead 0 = 0 ∧ t.inputMsgs 0 = [] := by
    intro b' hwork t ht
    have ht : b'.atTrim failing 0 = some t := ht
    rw [hwork] at htrim
    simpa [Except.toOption, ht] using htrim
  refine ⟨⟨⟨[], ⟨50, 0⟩, [], b.atCall, rfl, rfl, haccum, hdone,
    fun hmax => ?_⟩, ?_⟩, ?_⟩
  · have hmax := hmax.2
    rw [show (b.atCall.inputQueues 0).isFrontMaximal = false
      from hmaximal] at hmax
    cases hmax
  · exact fun b' hwork t ht => (hall b' hwork t ht).1
  · exact fun b' hwork t ht => (hall b' hwork t ht).2

/-- The next message is a kick. -/
def kickedNext (b : BlockActor) : Bool :=
  match b.mailbox with
  | .selfKick :: _ => true
  | _ => false

theorem kick_untouched {b : BlockActor} {env : Env} (i : Nat)
    (h : b.kickedNext = true) :
    b.Untouched i (.handle env) ∧ b.InputsHeldOff i (.handle env) := by
  unfold kickedNext at h
  split at h
  · rename_i rest hmail
    constructor
    · intro m hm
      rw [hmail] at hm
      cases hm
      rfl
    · intro m hm
      rw [hmail] at hm
      cases hm
      exact .inr fun hfalse => hfalse
  · cases h

/-- What is known of a work that fails the first input: whether it is called and
fails it, of how many, whether a kick comes next, and whether that works
again. -/
def firstFailed (b : BlockActor) : Option (Bool × Nat × Nat × Bool × Bool) :=
  (b.atWork failing).bind fun b₁ =>
      (b.next (.handle failing)).toOption.map fun b' =>
    (b₁.failsFirst, b.numInputs, b₁.numInputs, b'.kickedNext,
      (b'.atWork {}).isSome)

/-- A buffer and a kick for a sink with one input. -/
def oneInput : List ActorEvent :=
  activate ++ [ActorEvent.handle {}, bytesArrive 0, arrive .selfKick]

/-- A buffer on each of two inputs. -/
def twoInputs : List ActorEvent :=
  activate ++ [ActorEvent.handle {}, bytesArrive 0, .handle {}, bytesArrive 1]

/-- What `firstFailed` says. -/
theorem firstFailed_eq_some {b : BlockActor}
    {x : Bool × Nat × Nat × Bool × Bool} (h : b.firstFailed = some x) :
    ∃ b₁ b', b.atWork failing = some b₁ ∧ b.next (.handle failing) = .ok b' ∧
      x = (b₁.failsFirst, b.numInputs, b₁.numInputs, b'.kickedNext,
        (b'.atWork {}).isSome) := by
  obtain ⟨b₁, hwork, h⟩ := Option.bind_eq_some_iff.mp h
  obtain ⟨b', hb', rfl⟩ := Option.map_eq_some_iff.mp h
  cases hnext : b.next (.handle failing) with
  | error e => simp [hnext, Except.toOption] at hb'
  | ok b₂ =>
      rw [hnext] at hb'
      cases hb'
      exact ⟨b₁, b', hwork, rfl, rfl⟩

end BlockActor

open BlockActor

theorem suspended_until_touched_oneInput :
    ∃ b b₁ b', runSinkOf 1 oneInput = some b ∧ b.atWork failing = some b₁ ∧
      b₁.FailsInput failing 0 ∧ b.next (.handle failing) = .ok b' ∧
      b'.kickedNext = true ∧
      b'.atWork {} = none := by
  have hrun : (runSinkOf 1 oneInput).bind firstFailed =
      some (true, 1, 1, true, false) := by
    decide
  obtain ⟨b, hb, hfirst⟩ := Option.bind_eq_some_iff.mp hrun
  obtain ⟨b₁, b', hwork, hnext, heq⟩ := firstFailed_eq_some hfirst
  simp only [Prod.mk.injEq] at heq
  obtain ⟨hfails, hports, hports₁, hkick, -⟩ := heq
  obtain ⟨hfail, hpopped⟩ := fails_of_failsFirst hfails.symm
  have hcond : ∀ b₂, b₁.taskWork failing = .ok b₂ →
      b₂.WorkSuspends failing 0 := by
    intro b₂ hb₂
    have hports₂ := (taskWork_moves (workWithin_true failing) hb₂).ports.1
    exact ⟨hpopped b₂ hb₂, .inr fun j hj hne => absurd hj (by omega)⟩
  have hheld : b'.InputsHeldOff 0 (.handle {}) :=
    (kick_untouched 0 hkick.symm).2
  have hnone := suspended_until_touched (reachable_of_runSinkOf hb) hwork
    (by omega) hfail hcond
    hnext (.init rfl) (kick_untouched 0 hkick.symm).1 hheld
  exact ⟨b, b₁, b', hb, hwork, hfail, hnext, hkick.symm, hnone⟩

/-- **A second input keeps the block awake.**  Its work fails the first input,
and the kick that follows calls work again. -/
theorem work_again_after_inputFail :
    ¬ ∀ (b b₁ b' c : BlockActor) (env env' : Env) (i : Nat),
      system.Reachable b →
      b.atWork env = some b₁ → i < b.numInputs → b₁.FailsInput env i →
      b.next (.handle env) = .ok b' →
      ((runsFrom b').restrict (Untouched i)).Reachable c →
      c.Untouched i (.handle env') → c.atWork env' = none := by
  intro hall
  have hrun : (runSinkOf 2 twoInputs).bind firstFailed =
      some (true, 2, 2, true, true) := by
    decide
  obtain ⟨b, hb, hfirst⟩ := Option.bind_eq_some_iff.mp hrun
  obtain ⟨b₁, b', hwork, hnext, heq⟩ := firstFailed_eq_some hfirst
  simp only [Prod.mk.injEq] at heq
  obtain ⟨hfails, hports, -, hkick, hagain⟩ := heq
  have hnone :=
    hall b b₁ b' b' failing {} 0 (reachable_of_runSinkOf hb) hwork (by omega)
    (fails_of_failsFirst hfails.symm).1 hnext (.init rfl)
      (kick_untouched 0 hkick.symm).1
  rw [hnone] at hagain
  cases hagain

end Gras
