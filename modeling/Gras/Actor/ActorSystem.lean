import Gras.Lib.TransitionSystem
import Gras.Actor.Control

/-!
# Runs of one block

A block with its mailbox, and everybody else: other threads and other blocks put
messages into the mailbox, copy the priority token and change configurations, in
any order, between handlers and while a work runs; the actor handles its
messages one at a time, oldest first.
-/

namespace Gras

namespace BlockActor

/-- A block that has just been constructed. -/
def made (initTime : Int) (memory : Memory) : BlockActor where
  initTime
  numInputs := 0
  numOutputs := 0
  inputConfigs := fun _ => {}
  outputConfigs := fun _ => {}
  globalConfig := {}
  inputItems := {}
  outputItems := {}
  inputTokens := fun _ => 0
  outputTokens := fun _ => 0
  inputsDone := .ofSize 0 false
  outputsDone := .ofSize 0 false
  tokenPool := []
  firstInputDoneTime := 0
  inputQueues := fun _ => .resized initTime initTime
  outputQueues := fun _ => .resized initTime initTime
  inputsAvailable := .ofSize 0 false
  inputTagsChanged := fun _ => false
  inputTags := fun _ => []
  numInputMsgsRead := fun _ => 0
  numInputItemsRead := fun _ => 0
  numOutputItemsRead := fun _ => 0
  totalItemsConsumed := fun _ => 0
  totalItemsProduced := fun _ => 0
  inputMsgs := fun _ => []
  interruptibleThread := false
  blockState := .init
  outputAllocationHints := fun _ => []
  stats := {}
  mailbox := []
  handlesPrio := false
  holders := .none
  sent := []
  memory := memory

/-- Memory in which every byte is its address. -/
def addressMemory : Memory where
  phys := id
  cell := UInt8.ofNat

/-- A block that has been configured and put into a topology. -/
def Started (b : BlockActor) : Prop :=
  ∃ (initTime : Int) (memory : Memory) (inputConfigs : Nat → InputPortConfig)
    (outputConfigs : Nat → OutputPortConfig) (env : Env)
    (numInputs numOutputs : Nat),
      { made initTime memory with inputConfigs, outputConfigs }.handleTopology
      env numInputs
      numOutputs none = .ok b

end BlockActor

/-- What happens to a block. -/
inductive ActorEvent where
  /-- Another thread does something. -/
  | thread (event : ThreadEvent)
  /-- The actor handles its oldest message. -/
  | handle (env : Env)

namespace BlockActor

/-- One event. -/
def next (b : BlockActor) : ActorEvent → Checked BlockActor
  | .thread event => return b.threadStep event
  | .handle env => b.handle env

/-- A step is what another thread does, nothing when there is no message, or the
handler of the oldest message. -/
theorem next_cases {b b' : BlockActor} {e : ActorEvent}
    (h : b.next e = .ok b') :
    (∃ event, e = .thread event ∧ b' = b.threadStep event) ∨
      (∃ env, e = .handle env ∧ b.mailbox = [] ∧ b' = b) ∨
      ∃ env m rest b₁, e = .handle env ∧ b.mailbox = m :: rest ∧
        (b.receive m rest).handler env m = .ok b₁ ∧
        b' = { b₁ with handlesPrio := false } := by
  cases e with
  | thread event =>
      rw [next, Checked.pure_eq_ok] at h
      exact .inl ⟨event, rfl, h.symm⟩
  | handle env =>
      rw [next, handle] at h
      cases hmail : b.mailbox with
      | nil =>
          simp only [hmail, Checked.pure_eq_ok] at h
          exact .inr (.inl ⟨env, rfl, rfl, h.symm⟩)
      | cons m rest =>
          simp only [hmail, Checked.bind_eq_ok, Checked.pure_eq_ok] at h
          obtain ⟨b₁, hhandler, rfl⟩ := h
          exact .inr (.inr ⟨env, m, rest, b₁, rfl, rfl, hhandler, rfl⟩)

/-- The runs of a block. -/
def system : TransitionSystem BlockActor ActorEvent := .ofNext Started next

section Updates

variable {b b' : BlockActor} {env : Env} {i : Nat}

theorem handleInputUpdate_control (h : b.handleInputUpdate env i = .ok b') :
    b'.control = b.control := by
  unfold handleInputUpdate at h
  split at h
  · rw [Checked.pure_eq_ok] at h
    rw [h]
  · simp only [Checked.bind_eq_ok, Prod.exists] at h
    obtain ⟨p, memory, -, h⟩ := h
    exact (updateInputAvail_control h).trans rfl

theorem handleOutputUpdate_control (h : b.handleOutputUpdate env i = .ok b') :
    b'.control = b.control := by
  unfold handleOutputUpdate at h
  split at h
  · rw [Checked.pure_eq_ok] at h
    rw [h]
  · simp only [Checked.bind_eq_ok, Checked.pure_eq_ok] at h
    obtain ⟨p, -, rfl⟩ := h
    rfl

/-- Sending to oneself in a row. -/
theorem foldl_sendSelf {α : Type} (f : α → Message) (l : List α)
    (b : BlockActor) :
    l.foldl (fun b a => b.sendSelf (f a)) b =
      { b with mailbox := b.mailbox ++ l.map f } := by
  induction l generalizing b with
  | nil => rw [List.foldl_nil, List.map_nil, List.append_nil]
  | cons a l ih => rw [List.foldl_cons, ih, sendSelf, List.append_assoc]; rfl

/-- What allocating the buffers of a port does: the port gets the queue, the
block the buffers, and the downstream a request, all with one token. -/
theorem allocateOutput_parts (h : b.allocateOutput env i = .ok b') :
    ∃ config p, config.token = env.bufferToken i ∧
      (b.outputQueues i).setBufferQueue env.now
      (env.outputBufferAllocator i config).1 = .ok p ∧
      b' = { b with
        mailbox := b.mailbox ++ (env.outputBufferAllocator i config).2.map
          fun buff => Message.output i (.buffer buff.reset)
        outputQueues := Function.update b.outputQueues i p
        sent := b.sent ++ [Outgoing.downstream i (.alloc config)] } := by
  unfold allocateOutput at h
  dsimp only at h
  split at h
  · simp at h
  · rename_i bytes _
    simp only [Checked.bind_eq_ok, Checked.pure_eq_ok] at h
    obtain ⟨p, hset, rfl⟩ := h
    rw [foldl_sendSelf] at hset ⊢
    exact ⟨_, p, rfl, hset, rfl⟩

theorem allocateOutput_cases (h : b.allocateOutput env i = .ok b') :
    ∃ config p, (b.outputQueues i).setBufferQueue env.now
        (env.outputBufferAllocator i config).1 = .ok p ∧
      b' = { b with
        mailbox := b.mailbox ++ (env.outputBufferAllocator i config).2.map
          fun buff => Message.output i (.buffer buff.reset)
        outputQueues := Function.update b.outputQueues i p
        sent := b.sent ++ [Outgoing.downstream i (.alloc config)] } := by
  obtain ⟨config, p, -, hset, rfl⟩ := allocateOutput_parts h
  exact ⟨config, p, hset, rfl⟩

/-- A block that has not been activated is not live. -/
theorem Started.not_live (h : Started b) : b.blockState ≠ .live := by
  obtain ⟨initTime, memory, inputConfigs, outputConfigs, env, n, k, h⟩ := h
  simp only [handleTopology, Checked.bind_eq_ok, Checked.pure_eq_ok] at h
  obtain ⟨b₁, hdone, b₂, hin, b₃, hout, rfl⟩ := h
  have h₁ : b₁.blockState ≠ .live := by
    unfold releaseUnconnected at hdone
    split at hdone
    · rw [markDone_blockState hdone]
      intro hlive
      cases hlive
    · rw [Checked.pure_eq_ok] at hdone
      rw [← hdone]
      intro hlive
      cases hlive
  have h₂ := forRange_control hin fun i s s' hf => handleInputUpdate_control hf
  have h₃ := forRange_control hout fun i s s' hf =>
    handleOutputUpdate_control hf
  have hstate : b₃.blockState = b₁.blockState :=
    (congrArg Control.blockState h₃).trans (congrArg Control.blockState h₂)
  show b₃.blockState ≠ .live
  rw [hstate]
  exact h₁

end Updates

end BlockActor

end Gras
