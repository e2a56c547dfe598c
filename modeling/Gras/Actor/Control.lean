import Gras.Actor.Handlers

/-!
# What the helpers of a block leave alone

Most of a handler works on the ports, the counters and the tags.  `Control` is
the rest of a block: its state, its tokens, its mailbox.  One lemma for each
helper says that it leaves the control alone, so that only the few places that
change it matter: `markDone`, `taskKicker`, `sendSelf` and the other threads.
-/

namespace Gras

/-- The part of a block that decides what it does next. -/
structure Control where
  initTime : Int
  numInputs : Nat
  numOutputs : Nat
  inputTokens : Nat → Token
  outputTokens : Nat → Token
  inputsDone : BitSet
  outputsDone : BitSet
  tokenPool : List Token
  blockState : BlockState
  outputAllocationHints : Nat → List OutputHint
  mailbox : List Message
  handlesPrio : Bool
  holders : TokenHolders

namespace BlockActor

/-- The control of a block. -/
def control (b : BlockActor) : Control where
  initTime := b.initTime
  numInputs := b.numInputs
  numOutputs := b.numOutputs
  inputTokens := b.inputTokens
  outputTokens := b.outputTokens
  inputsDone := b.inputsDone
  outputsDone := b.outputsDone
  tokenPool := b.tokenPool
  blockState := b.blockState
  outputAllocationHints := b.outputAllocationHints
  mailbox := b.mailbox
  handlesPrio := b.handlesPrio
  holders := b.holders

section Control

variable {b b' : BlockActor} {env : Env} {now : Int} {i o : Nat}

/-- A loop whose rounds leave the control alone. -/
theorem forRange_control {f : Nat → BlockActor → Checked BlockActor} {n : Nat}
    (h : forRange f n b = .ok b')
    (hstep : ∀ i s s', f i s = .ok s' → s'.control = s.control) :
    b'.control = b.control :=
  forRange_relates h (R := fun s s' => s'.control = s.control) (fun _ => rfl)
    (fun h h' => h'.trans h) fun i _ s s' hf => hstep i s s' hf

/-! ### The helpers of `task_main` -/

theorem updateInputAvail_control (h : b.updateInputAvail now i = .ok b') :
    b'.control = b.control := by
  simp only [updateInputAvail, Checked.bind_eq_ok, Checked.pure_eq_ok] at h
  obtain ⟨p, -, rfl⟩ := h
  rfl

theorem sortTags_control (i : Nat) (b : BlockActor) :
    (b.sortTags i).control = b.control := by
  unfold sortTags
  split <;> rfl

theorem prepareInput_control {k k' : Nat}
    (h : prepareInput env i (b, k) = .ok (b', k')) :
    b'.control = b.control := by
  simp only [prepareInput, Checked.bind_eq_ok, Prod.exists] at h
  obtain ⟨-, -, buff, p, memory, -, h⟩ := h
  split at h
  · simp only [Checked.bind_eq_ok, Checked.pure_eq_ok, Prod.mk.injEq] at h
    obtain ⟨q, -, rfl, -⟩ := h
    exact sortTags_control i b
  · simp only [Checked.pure_eq_ok, Prod.mk.injEq] at h
    obtain ⟨rfl, -⟩ := h
    exact sortTags_control i b

theorem prepareOutput_control (h : b.prepareOutput i = .ok b') :
    b'.control = b.control := by
  simp only [prepareOutput, Checked.bind_eq_ok, Checked.pure_eq_ok,
    Prod.exists] at h
  obtain ⟨-, -, buff, p, -, -, -, rfl⟩ := h
  rfl

theorem prepare_control (h : b.prepare env = .ok b') :
    b'.control = b.control := by
  simp only [prepare, Checked.bind_eq_ok, Prod.exists] at h
  obtain ⟨b₁, k, hin, hout⟩ := h
  have h₁ : b₁.control = b.control :=
    forRange_rule hin
      (P := fun _ (s : BlockActor × Nat) => s.1.control = b.control) rfl
      fun i _ s s' hs hf => (prepareInput_control hf).trans hs
  exact (forRange_control hout fun i s s' hf =>
    prepareOutput_control hf).trans h₁

theorem trimBuffs_control (h : b.trimBuffs now i = .ok b') :
    b'.control = b.control := by
  unfold trimBuffs at h
  split at h
  · rw [Checked.pure_eq_ok] at h
    rw [h]
  · simp only [Checked.bind_eq_ok, Checked.pure_eq_ok] at h
    obtain ⟨p, -, rfl⟩ := h
    rfl

theorem propagateTags_control (i : Nat) (tags : List Tag) (b : BlockActor) :
    (b.propagateTags i tags).control = b.control := by
  unfold propagateTags
  refine List.foldlRecOn
    (motive := fun c : BlockActor => c.control = b.control) _ _ rfl
    fun c hc o _ => ?_
  exact List.foldlRecOn
    (motive := fun c : BlockActor => c.control = b.control) _ _ hc
    fun c hc t _ => hc

theorem finishOutput_control (h : b.finishOutput now i = .ok b') :
    b'.control = b.control := by
  unfold finishOutput at h
  split at h
  · rw [Checked.pure_eq_ok] at h
    rw [h]
  · simp only [Checked.bind_eq_ok, Checked.pure_eq_ok, Prod.exists] at h
    obtain ⟨buff, p, -, rfl⟩ := h
    split <;> rfl

/-! ### The helpers of `mark_done` -/

theorem flushOutput_control (h : b.flushOutput now i = .ok b') :
    b'.control = b.control := by
  unfold flushOutput at h
  split at h
  · rw [Checked.pure_eq_ok] at h
    rw [h]
  · simp only [Checked.bind_eq_ok, Prod.exists] at h
    obtain ⟨buff, p, -, h⟩ := h
    split at h
    · rw [Checked.pure_eq_ok] at h
      rw [← h]
      rfl
    · simp only [Checked.bind_eq_ok, Checked.pure_eq_ok] at h
      obtain ⟨q, -, rfl⟩ := h
      rfl

theorem flushInput_control (h : b.flushInput now i = .ok b') :
    b'.control = b.control := by
  simp only [flushInput, Checked.bind_eq_ok, Checked.pure_eq_ok] at h
  obtain ⟨p, -, rfl⟩ := h
  rfl

/-- The thread can be reset by every thread but itself. -/
@[simp] theorem resetThread_eq_ok : b.resetThread = .ok b' ↔
    b.onThread = false ∧ { b with interruptibleThread := false } = b' := by
  unfold resetThread
  split <;> simp_all

/-- **What `mark_done` does** to a block that is not done: the output ports are
flushed, the thread is reset, which returns only on another thread, and the
input ports are flushed. -/
theorem markDone_parts (hlive : b.blockState ≠ .done) (h : b.markDone now = .ok b') :
    ∃ b₁, forRange (flushOutput now) b.numOutputs
        { b with stats := { b.stats with stopTime := now } } = .ok b₁ ∧
      b₁.onThread = false ∧ ∃ b₂, forRange (flushInput now) b₁.numInputs
          { b₁ with interruptibleThread := false, blockState := .done, tokenPool := [] } =
            .ok b₂ ∧
        b' = (b₂.flushRest now).postChecks := by
  rw [markDone, if_neg hlive] at h
  simp only [Checked.bind_eq_ok, Checked.pure_eq_ok, resetThread_eq_ok] at h
  obtain ⟨b₁, hout, _, ⟨hthread, rfl⟩, b₂, hin, rfl⟩ := h
  exact ⟨b₁, hout, hthread, b₂, hin, rfl⟩

/-- Nothing happens to a block that is done. -/
theorem markDone_cases (h : b.markDone now = .ok b') :
    b.blockState = .done ∧ b' = b ∨
      b.blockState ≠ .done ∧ ∃ b₁, forRange (flushOutput now) b.numOutputs
          { b with stats := { b.stats with stopTime := now } } = .ok b₁ ∧
        b₁.onThread = false ∧ ∃ b₂, forRange (flushInput now) b₁.numInputs
            { b₁ with interruptibleThread := false, blockState := .done, tokenPool := [] } =
              .ok b₂ ∧
          b' = (b₂.flushRest now).postChecks := by
  by_cases hdone : b.blockState = .done
  · rw [markDone, if_pos hdone, Checked.pure_eq_ok] at h
    exact .inl ⟨hdone, h.symm⟩
  · exact .inr ⟨hdone, markDone_parts hdone h⟩

/-- **`mark_done` changes the state and empties the token pool.** -/
theorem markDone_control (h : b.markDone now = .ok b') :
    b.blockState = .done ∧ b' = b ∨ b.blockState ≠ .done ∧
      b'.control = { b.control with blockState := .done, tokenPool := [] } := by
  rcases markDone_cases h with hdone | ⟨hlive, b₁, hout, -, b₂, hin, rfl⟩
  · exact .inl hdone
  · refine .inr ⟨hlive, ?_⟩
    have h₁ : b₁.control = b.control :=
      (forRange_control hout fun i s s' hf => flushOutput_control hf).trans rfl
    have h₂ : b₂.control =
        { b₁.control with blockState := .done, tokenPool := [] } :=
      (forRange_control hin fun i s s' hf => flushInput_control hf).trans rfl
    exact h₂.trans (by rw [h₁])

theorem markDone_blockState (h : b.markDone now = .ok b') :
    b'.blockState = .done := by
  rcases markDone_control h with ⟨hdone, rfl⟩ | ⟨-, hcontrol⟩
  · exact hdone
  · exact congrArg Control.blockState hcontrol

/-! ### The calls of user code -/

theorem produce_control {items : Nat} (h : b.produce o items = .ok b') :
    b'.control = b.control := by
  simp only [produce, Checked.bind_eq_ok, Checked.pure_eq_ok] at h
  obtain ⟨p, -, rfl⟩ := h
  rfl

theorem popInputMsg_control (i : Nat) (b : BlockActor) :
    (b.popInputMsg i).control = b.control := by
  unfold popInputMsg
  split <;> rfl

theorem outputFail_control (h : b.outputFail now o = .ok b') :
    b'.control = b.control := by
  simp only [outputFail, Checked.bind_eq_ok, Prod.exists] at h
  obtain ⟨buff, p, -, h⟩ := h
  split at h
  · simp at h
  · rw [Checked.pure_eq_ok] at h
    rw [← h]
    rfl

theorem getInputBuffer_control {fresh : Allocation}
    (h : b.getInputBuffer fresh i = .ok b') : b'.control = b.control := by
  simp only [getInputBuffer, Checked.bind_eq_ok, Checked.pure_eq_ok,
    Prod.exists] at h
  obtain ⟨buff, p, memory, -, rfl⟩ := h
  rfl

theorem storeLength_control {length : SBuffer → Nat}
    (h : b.storeLength o length = .ok b') : b'.control = b.control := by
  simp only [storeLength, Checked.bind_eq_ok, Checked.pure_eq_ok,
    Prod.exists] at h
  obtain ⟨buff, p, -, rfl⟩ := h
  rfl

theorem postOutputBuffer_control {buffer : SBuffer}
    (h : b.postOutputBuffer o buffer = .ok b') : b'.control = b.control := by
  simp only [postOutputBuffer, Checked.bind_eq_ok] at h
  obtain ⟨p, -, -, -, -, -, h⟩ := h
  exact (produce_control h).trans rfl

/-- What one call does to the control: nothing, a kick, another message to the
block itself, what another thread does, or `mark_done`. -/
theorem call_control {c : Call} (h : b.call now c = .ok b') :
    b'.control = b.control ∨
      (∃ b₀ : BlockActor, b₀.control = b.control ∧ b' = b₀.taskKicker) ∨
      (∃ j message, c = .postInput j message ∧
        b' = b.sendSelf (.input j message)) ∨
      (∃ event, c = .thread event ∧ b' = b.threadStep event) ∨
      b.markDone now = .ok b' := by
  cases c with
  | consume j items =>
      simp only [call, Checked.bind_eq_ok, Checked.pure_eq_ok] at h
      obtain ⟨-, -, rfl⟩ := h
      exact .inl rfl
  | produce j items =>
      simp only [call, Checked.bind_eq_ok] at h
      obtain ⟨-, -, h⟩ := h
      exact .inl (produce_control h)
  | popInputMsg j =>
      rw [call, Checked.pure_eq_ok] at h
      exact .inl ((congrArg control h).symm.trans (popInputMsg_control j b))
  | postOutputTag j tag =>
      rw [call, Checked.pure_eq_ok] at h
      exact .inl (congrArg control h).symm
  | postOutputMsg j msg =>
      rw [call, Checked.pure_eq_ok] at h
      exact .inl (congrArg control h).symm
  | markInputFail j fresh =>
      simp only [call, inputFail] at h
      split at h
      · simp only [Checked.bind_eq_ok, Checked.pure_eq_ok, Prod.exists] at h
        obtain ⟨p, memory, -, rfl⟩ := h
        exact .inr (.inl ⟨{ b with memory }.setInput j p, rfl, rfl⟩)
      · split at h
        · exact .inr (.inr (.inr (.inr h)))
        · split at h
          · simp at h
          · rw [Checked.pure_eq_ok] at h
            exact .inl (congrArg control h).symm
  | markOutputFail j => exact .inl (outputFail_control h)
  | markDone => exact .inr (.inr (.inr (.inr h)))
  | getInputBuffer j fresh => exact .inl (getInputBuffer_control h)
  | getOutputBuffer j => exact .inl (storeLength_control h)
  | popOutputBuffer j numBytes =>
      rw [call] at h
      exact .inl (storeLength_control h)
  | postOutputBuffer j buffer => exact .inl (postOutputBuffer_control h)
  | postInput j message =>
      rw [call, Checked.pure_eq_ok] at h
      exact .inr (.inr (.inl ⟨j, message, rfl, h.symm⟩))
  | thread event =>
      rw [call, Checked.pure_eq_ok] at h
      exact .inr (.inr (.inr (.inl ⟨event, rfl, h.symm⟩)))

/-! ### The activation -/

/-- **What an activation does**: the block is live, and there are a reply, if
somebody waits for one, and a kick. -/
theorem handleTopActive_eq (env : Env) (sender : Option Address)
    (b : BlockActor) :
    ∃ startTime, b.handleTopActive env sender = { b with
      stats := { b.stats with startTime }
      blockState := .live
      sent := b.sent ++ sender.toList.map .acknowledge
      mailbox := b.mailbox ++ [Message.selfKick] } := by
  by_cases hlive : b.blockState = .live
  · refine ⟨b.stats.startTime, ?_⟩
    rw [handleTopActive, if_neg (not_not.mpr hlive)]
    cases sender with
    | none => simp [acknowledge, sendSelf]
    | some a => rfl
  · refine ⟨env.now, ?_⟩
    rw [handleTopActive, if_pos hlive]
    cases sender with
    | none => simp [acknowledge, sendSelf]
    | some a => rfl

end Control

end BlockActor

end Gras
