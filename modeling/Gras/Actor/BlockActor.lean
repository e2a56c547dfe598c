import Gras.Lib.ForRange
import Gras.Actor.Messages
import Gras.Buffers.InputBufferQueues
import Gras.Buffers.OutputBufferQueues

/-!
# The state of a block

`block_data.hpp` and `block_actor.hpp`, with the helpers that every handler
uses.

A `BlockActor` is the actor together with its `BlockData`: the vectors are
functions of the port, and only the ports below `numInputs` and `numOutputs`
exist.  The mailbox is part of it, since sending to oneself appends there.  What
is sent to somebody else goes to `sent`, oldest first.

The priority token is shared: copies sit in the messages of the mailbox, in the
message that is being handled, and in the stack frames of other threads
(`TokenHolders`).  `isWorkAllowed` is true only while there is no copy.
-/

namespace Gras

/-- `BlockState`. -/
inductive BlockState where
  | init
  | live
  | done
  deriving DecidableEq, Repr

/-- What a `WorkBuffer` vector offers to work: a pointer and a number of items
for each port, and the bounds over the ports. -/
structure WorkItems where
  mem : Nat → Nat := fun _ => 0
  size : Nat → Nat := fun _ => 0
  min : Nat := 2 ^ 64 - 1
  max : Nat := 0

/-- One more port is offered. -/
def WorkItems.offer (i mem size : Nat) (w : WorkItems) : WorkItems where
  mem := Function.update w.mem i mem
  size := Function.update w.size i size
  min := Min.min w.min size
  max := Max.max w.max size

/-- The copies of the priority token in the stack frames of other threads. -/
structure TokenHolders where
  /-- Messages with a copy, made and not yet sent. -/
  prepared : List Message
  /-- Copies whose message was sent and that go at any time. -/
  sent : Nat
  /-- Callers that wait for the reply. -/
  waiting : Nat
  /-- Callers whose reply was sent and that have not returned. -/
  replied : Nat

/-- Nobody holds a copy. -/
def TokenHolders.none : TokenHolders := ⟨[], 0, 0, 0⟩

/-- The copy that stays with the thread that sent the message: until the reply
has arrived, or until the thread lets go of it. -/
def TokenHolders.keepCopy (m : Message) (h : TokenHolders) : TokenHolders :=
  match m with
  | .callable _ _ => { h with waiting := h.waiting + 1 }
  | _ => { h with sent := h.sent + 1 }

@[simp] theorem TokenHolders.keepCopy_prepared (m : Message)
    (h : TokenHolders) : (h.keepCopy m).prepared = h.prepared := by
  unfold keepCopy
  split <;> rfl

/-- A hint from a downstream block. -/
structure OutputHint where
  reserveBytes : Nat
  token : Token

/-- `BlockActor` and its `BlockData`. -/
structure BlockActor where
  /-- When the buffer queues were constructed. -/
  initTime : Int
  numInputs : Nat
  numOutputs : Nat
  inputConfigs : Nat → InputPortConfig
  outputConfigs : Nat → OutputPortConfig
  globalConfig : GlobalBlockConfig
  inputItems : WorkItems
  outputItems : WorkItems
  inputTokens : Nat → Token
  outputTokens : Nat → Token
  inputsDone : BitSet
  outputsDone : BitSet
  tokenPool : List Token
  firstInputDoneTime : Int
  inputQueues : Nat → InputPort
  outputQueues : Nat → OutputPort
  inputsAvailable : BitSet
  inputTagsChanged : Nat → Bool
  inputTags : Nat → List Tag
  numInputMsgsRead : Nat → Nat
  numInputItemsRead : Nat → Nat
  numOutputItemsRead : Nat → Nat
  totalItemsConsumed : Nat → Nat
  totalItemsProduced : Nat → Nat
  inputMsgs : Nat → List Pmc
  /-- Is there an interruptible thread? -/
  interruptibleThread : Bool
  /-- Does the interruptible thread run user code at this moment? -/
  onThread : Bool := false
  blockState : BlockState
  outputAllocationHints : Nat → List OutputHint
  stats : BlockStats
  /-- The messages to handle, oldest first. -/
  mailbox : List Message
  /-- The message that is being handled carries a copy of the priority token. -/
  handlesPrio : Bool
  holders : TokenHolders
  /-- What was sent to others, oldest first. -/
  sent : List Outgoing
  /-- The memory behind the buffers. -/
  memory : Memory

namespace BlockActor

/-! ### Writing one port -/

/-- Store a port of `input_queues`. -/
def setInput (i : Nat) (p : InputPort) (b : BlockActor) : BlockActor :=
  { b with inputQueues := Function.update b.inputQueues i p }

/-- Store a port of `output_queues`. -/
def setOutput (i : Nat) (p : OutputPort) (b : BlockActor) : BlockActor :=
  { b with outputQueues := Function.update b.outputQueues i p }

@[simp] theorem setInput_inputQueues (i : Nat) (p : InputPort)
    (b : BlockActor) :
    (b.setInput i p).inputQueues = Function.update b.inputQueues i p := rfl

@[simp] theorem setInput_outputQueues (i : Nat) (p : InputPort)
    (b : BlockActor) :
    (b.setInput i p).outputQueues = b.outputQueues := rfl

@[simp] theorem setOutput_outputQueues (i : Nat) (p : OutputPort)
    (b : BlockActor) :
    (b.setOutput i p).outputQueues = Function.update b.outputQueues i p := rfl

@[simp] theorem setOutput_inputQueues (i : Nat) (p : OutputPort)
    (b : BlockActor) :
    (b.setOutput i p).inputQueues = b.inputQueues := rfl

/-- `Send(message, GetAddress())`. -/
def sendSelf (m : Message) (b : BlockActor) : BlockActor :=
  { b with mailbox := b.mailbox ++ [m] }

/-- `worker->post_upstream(i, message)`. -/
def postUpstream (i : Nat) (m : OutputMessage) (b : BlockActor) : BlockActor :=
  { b with sent := b.sent ++ [Outgoing.upstream i m] }

/-- `worker->post_downstream(i, message)`. -/
def postDownstream (i : Nat) (m : InputMessage) (b : BlockActor) : BlockActor :=
  { b with sent := b.sent ++ [Outgoing.downstream i m] }

/-- `Send(reply, from)`. -/
def reply (m : Outgoing) (b : BlockActor) : BlockActor :=
  { b with sent := b.sent ++ [m] }

/-- `token_pool.insert(token)`. -/
def insertToken (t : Token) (b : BlockActor) : BlockActor :=
  { b with tokenPool := if t ∈ b.tokenPool then b.tokenPool
    else b.tokenPool ++ [t] }

/-! ### The helpers -/

/-- `prio_token.unique()`. -/
def prioUnique (b : BlockActor) : Bool :=
  b.mailbox.all (fun m => !m.carriesToken) && !b.handlesPrio &&
    b.holders.prepared.isEmpty && b.holders.sent == 0 &&
      b.holders.waiting == 0 &&
    b.holders.replied == 0

/-- `input_queues.all_ready()`. -/
def inputsReady (b : BlockActor) : Bool :=
  (List.range b.numInputs).all fun i => (b.inputQueues i).ready

/-- `output_queues.all_ready()`. -/
def outputsReady (b : BlockActor) : Bool :=
  (List.range b.numOutputs).all fun i => (b.outputQueues i).ready

/-- What `is_work_allowed` asks for besides the priority token. -/
def isReady (b : BlockActor) : Bool :=
  b.blockState == .live && b.inputsAvailable.any && b.inputsReady &&
    b.outputsReady

/-- `is_work_allowed()`. -/
def isWorkAllowed (b : BlockActor) : Bool := b.prioUnique && b.isReady

/-- `task_kicker()`. -/
def taskKicker (b : BlockActor) : BlockActor :=
  if b.isWorkAllowed then b.sendSelf .selfKick else b

/-- `update_input_avail(i)`. -/
def updateInputAvail (now : Int) (i : Nat) (b : BlockActor) :
    Checked BlockActor := do
  let hasInputBufs := !(b.inputQueues i).empty && (b.inputQueues i).ready
  let hasInputMsgs := !(b.inputMsgs i).isEmpty
  let b := { b with
    inputsAvailable := b.inputsAvailable.set i (hasInputBufs || hasInputMsgs) }
  let p ← (b.inputQueues i).updateHasMsg now hasInputMsgs
  return b.setInput i p

/-! ### What the helpers leave alone -/

section Ready

variable {b : BlockActor}

theorem inputsReady_iff :
    b.inputsReady = true ↔ ∀ i < b.numInputs,
      (b.inputQueues i).ready = true := by
  simp [inputsReady]

theorem outputsReady_iff :
    b.outputsReady = true ↔ ∀ i < b.numOutputs,
      (b.outputQueues i).ready = true := by
  simp [outputsReady]

theorem isReady_iff : b.isReady = true ↔
    b.blockState = .live ∧ b.inputsAvailable.any = true ∧ b.inputsReady = true ∧
      b.outputsReady = true := by
  simp [isReady, and_assoc]

theorem isWorkAllowed_iff :
    b.isWorkAllowed = true ↔ b.prioUnique = true ∧ b.isReady = true := by
  simp [isWorkAllowed]

end Ready

end BlockActor

end Gras
