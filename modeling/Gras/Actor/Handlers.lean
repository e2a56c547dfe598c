import Gras.Actor.TaskMain

/-!
# The message handlers of a block

`input_handlers.cpp`, `output_handlers.cpp`, `block_handlers.cpp`,
`block_calls.cpp`, `block_allocator.cpp` and `topology_handler.cpp`, one
definition for each handler, and `handle`, which takes a message out of the
mailbox and calls the handler registered for it.
-/

namespace Gras

/-! ### Buffer lengths -/

/-- `AT_LEAST_BYTES`. -/
def atLeastBytes : Nat := 32 * 1024

/-- `AHH_TOO_MANY_BYTES`. -/
def ahhTooManyBytes : Nat := 32 * (1024 * 1024)

/-- `my_round_up_mult(num, mult)`. -/
def myRoundUpMult (num mult : Nat) : Nat :=
  (num * mult + mult - 1) % 2 ^ 64 / mult

/-- `while (hint_bytes > Nmin_bytes) Nmin_bytes += min_bytes`, for so many
rounds; `none` when the loop is still running then. -/
def raiseTo (hintBytes minBytes : Nat) : Nat → Nat → Option Nat
  | 0, _ => none
  | rounds + 1, nminBytes =>
      if nminBytes < hintBytes then
        raiseTo hintBytes minBytes rounds ((nminBytes + minBytes) % 2 ^ 64)
      else some nminBytes

/-- `recommend_length(hints, hint_bytes, at_least_bytes, at_most_bytes)`.  A
loop that raises its bound takes at most `hint_bytes` rounds; one that does not
never ends. -/
def recommendLength (hints : List OutputHint) (hintBytes atLeast atMost : Nat) :
    Option Nat :=
  let minBytes := hints.foldl (fun m h => max m h.reserveBytes) atLeast
  (raiseTo hintBytes minBytes (hintBytes + 1) minBytes).map fun nminBytes =>
    if atMost ≠ 0 then min nminBytes atMost else min nminBytes ahhTooManyBytes

namespace BlockActor

/-! ### Input handlers -/

/-- `handle_input_tag`. -/
def handleInputTag (index : Nat) (tag : Tag) (b : BlockActor) : BlockActor :=
  if b.blockState = .done then b
  else
    { b with
      inputTags :=
        Function.update b.inputTags index (b.inputTags index ++ [tag])
      inputTagsChanged := Function.update b.inputTagsChanged index true }

/-- What `handle_input_msg` does before it calls `task_main`. -/
def storeInputMsg (env : Env) (index : Nat) (msg : Pmc) (b : BlockActor) :
    Checked BlockActor :=
  { b with
    inputMsgs := Function.update b.inputMsgs index (b.inputMsgs index ++ [msg])
  }.updateInputAvail env.now index

/-- `handle_input_msg`. -/
def handleInputMsg (env : Env) (index : Nat) (msg : Pmc) (b : BlockActor) :
    Checked BlockActor :=
  if b.blockState = .done then return b
  else do
    let b ← b.storeInputMsg env index msg
    b.taskMain env

/-- What `handle_input_buffer` does before it calls `task_main`. -/
def storeInputBuffer (env : Env) (index : Nat) (buffer : SBuffer)
    (b : BlockActor) : Checked BlockActor := do
  let p ← (b.inputQueues index).push env.now buffer
  (b.setInput index p).updateInputAvail env.now index

/-- `handle_input_buffer`. -/
def handleInputBuffer (env : Env) (index : Nat) (buffer : SBuffer)
    (b : BlockActor) : Checked BlockActor :=
  if b.blockState = .done then return b
  else do
    let b ← b.storeInputBuffer env index buffer
    b.taskMain env

/-- `handle_input_token`. -/
def handleInputToken (index : Nat) (token : Token) (b : BlockActor) :
    Checked BlockActor := do
  assertThat (index < b.numInputs) "message.index < worker->get_num_inputs()"
  return b.insertToken token

/-- Record whether the upstream of the port is done. -/
def recheckInput (env : Env) (index : Nat) (b : BlockActor) : BlockActor :=
  { b with
    firstInputDoneTime := if ¬ b.inputsDone.any then env.now
      else b.firstInputDoneTime
    inputsDone :=
      b.inputsDone.set index (env.tokenUnique (b.inputTokens index)) }

/-- The final test of `handle_input_check`: a sync input that will never be
ready again, or all inputs done with no data. -/
def inputFinished (index : Nat) (b : BlockActor) : Prop :=
  ((b.inputConfigs index).reserveItems ≠ 0 ∧ b.inputsDone.bit index = true ∧
    b.inputsAvailable.bit index = false) ∨
  ((b.inputConfigs index).reserveItems = 0 ∧ b.inputsDone.all = true ∧
    b.inputsAvailable.none = true)

instance (index : Nat) (b : BlockActor) : Decidable (b.inputFinished index) :=
  inferInstanceAs (Decidable (_ ∨ _))

/-- `handle_input_check`. -/
def handleInputCheck (env : Env) (index : Nat) (b : BlockActor) :
    Checked BlockActor := do
  let b ← (b.recheckInput env index).taskMain env
  if b.inputFinished index then b.markDone env.now else return b

/-- `handle_input_alloc`. -/
def handleInputAlloc (env : Env) (index : Nat) (config : SBufferConfig)
    (b : BlockActor) : BlockActor :=
  let config := { config with token := env.bufferToken index }
  match env.inputBufferAllocator index config with
  | none => b
  | some queue => b.postUpstream index (.alloc queue)

/-- `handle_input_update`. -/
def handleInputUpdate (env : Env) (index : Nat) (b : BlockActor) :
    Checked BlockActor :=
  if b.numInputs ≤ index then return b
  else do
    let config := b.inputConfigs index
    let (p, memory) ← (b.inputQueues index).updateConfig env.now
        (env.auxAllocations index)
      config.itemSize (sizeMul config.itemSize config.preloadItems)
      (sizeMul config.itemSize config.reserveItems)
      (sizeMul config.itemSize config.maximumItems) b.memory
    ({ b with memory }.setInput index p).updateInputAvail env.now index

/-! ### Output handlers -/

/-- What `handle_output_buffer` does before it calls `task_main`. -/
def storeOutputBuffer (env : Env) (index : Nat) (buffer : SBuffer)
    (b : BlockActor) : Checked BlockActor := do
  let p ← (b.outputQueues index).push env.now buffer
  return b.setOutput index p

/-- `handle_output_buffer`. -/
def handleOutputBuffer (env : Env) (index : Nat) (buffer : SBuffer)
    (b : BlockActor) : Checked BlockActor :=
  if b.blockState = .done then return b
  else do
    let b ← b.storeOutputBuffer env index buffer
    b.taskMain env

/-- `handle_output_token`. -/
def handleOutputToken (index : Nat) (token : Token) (b : BlockActor) :
    Checked BlockActor := do
  assertThat (index < b.numOutputs) "message.index < worker->get_num_outputs()"
  return b.insertToken token

/-- Record whether the downstream of the port is done. -/
def recheckOutput (env : Env) (index : Nat) (b : BlockActor) : BlockActor :=
  { b with outputsDone := b.outputsDone.set index (env.tokenUnique (b.outputTokens index)) }

/-- `handle_output_check`. -/
def handleOutputCheck (env : Env) (index : Nat) (b : BlockActor) :
    Checked BlockActor :=
  let b := b.recheckOutput env index
  if b.outputsDone.all then b.markDone env.now else return b

/-- `handle_output_hint`. -/
def handleOutputHint (env : Env) (index reserveBytes : Nat) (token : Token)
    (b : BlockActor) : BlockActor :=
  let hints := (b.outputAllocationHints index).filter fun hint =>
    !env.tokenExpired hint.token && hint.token != token
  { b with
    outputAllocationHints := Function.update b.outputAllocationHints index
      (hints ++ [⟨reserveBytes, token⟩]) }

/-- `handle_output_alloc`. -/
def handleOutputAlloc (env : Env) (index : Nat) (queue : BufferQueue)
    (b : BlockActor) : Checked BlockActor := do
  let p ← (b.outputQueues index).setBufferQueue env.now (some queue)
  return b.setOutput index p

/-- `handle_output_update`. -/
def handleOutputUpdate (env : Env) (index : Nat) (b : BlockActor) :
    Checked BlockActor :=
  if b.numOutputs ≤ index then return b
  else do
    let config := b.outputConfigs index
    let p ← (b.outputQueues index).setReserveBytes env.now
      (sizeMul config.itemSize config.reserveItems)
    return b.setOutput index p

/-! ### Handlers of the block -/

/-- Acknowledge a message that has a sender. -/
def acknowledge (sender : Option Address) (b : BlockActor) : BlockActor :=
  match sender with
  | none => b
  | some a => b.reply (.acknowledge a)

/-- The calls of user code up to the first exception, which is caught.  What the
call that throws has done before it throws is left out: its state is the one
before the call. -/
def attempt (now : Int) : List Call → BlockActor → BlockActor
  | [], b => b
  | c :: cs, b =>
      match b.call now c with
      | .ok b => attempt now cs b
      | .error _ => b

/-- `handle_callable`. -/
def handleCallable (env : Env) (key : Nat) (sender : Address) (b : BlockActor) :
    BlockActor :=
  let b := (b.attempt env.now env.called).reply (.returned sender key)
  { b with
    holders := { b.holders with
      waiting := b.holders.waiting - 1
      replied := b.holders.replied + 1 } }.sendSelf .selfKick

/-- `handle_self_kick`. -/
def handleSelfKick (env : Env) (b : BlockActor) : Checked BlockActor :=
  b.taskMain env

/-- The statistics at this moment. -/
def currentStats (b : BlockActor) : BlockStats :=
  { b.stats with
    itemsEnqueued := fun i => (b.inputQueues i).getItemsEnqueued
    tagsEnqueued := fun i => (b.inputTags i).length
    msgsEnqueued := fun i => (b.inputMsgs i).length
    actorQueueDepth := b.mailbox.length
    bytesCopied := fun i => (b.inputQueues i).bytesCopied
    inputsIdle := fun i => (b.inputQueues i).totalIdleTime
    outputsIdle := fun i => (b.outputQueues i).totalIdleTime }

/-- `handle_get_stats`. -/
def handleGetStats (sender : Address) (b : BlockActor) : BlockActor :=
  ({ b with stats := b.currentStats }.reply
    (.stats sender b.currentStats)).sendSelf .selfKick

/-- `handle_top_active`. -/
def handleTopActive (env : Env) (sender : Option Address) (b : BlockActor) :
    BlockActor :=
  let b :=
    if b.blockState ≠ .live then
      { b with stats := { b.stats with startTime := env.now } }
    else b
  ({ b with blockState := .live }.acknowledge sender).sendSelf .selfKick

/-- `handle_top_inert`. -/
def handleTopInert (env : Env) (sender : Option Address) (b : BlockActor) :
    Checked BlockActor := do
  let b ← b.markDone env.now
  return b.acknowledge sender

/-- A new token for an input port, sent upstream with the allocation hint. -/
def renewInput (env : Env) (i : Nat) (b : BlockActor) : BlockActor :=
  let token := env.inputToken i
  let config := b.inputConfigs i
  let b := { b with
    inputTokens := Function.update b.inputTokens i token
    inputsDone := b.inputsDone.set i false }
  (b.postUpstream i (.token token)).postUpstream i
    (.hint (sizeMul config.reserveItems config.itemSize) token)

/-- A new token for an output port, sent downstream. -/
def renewOutput (env : Env) (i : Nat) (b : BlockActor) : BlockActor :=
  let token := env.outputToken i
  let b := { b with
    outputTokens := Function.update b.outputTokens i token
    outputsDone := b.outputsDone.set i false }
  b.postDownstream i (.token token)

/-- `handle_top_token`. -/
def handleTopToken (env : Env) (token : Token) (sender : Option Address)
    (b : BlockActor) : BlockActor :=
  let b := (List.range b.numInputs).foldl (fun b i => b.renewInput env i) b
  let b := (List.range b.numOutputs).foldl (fun b i => b.renewOutput env i) b
  (b.insertToken token).acknowledge sender

/-- `handle_top_config`. -/
def handleTopConfig (config : GlobalBlockConfig) (sender : Option Address)
    (b : BlockActor) : BlockActor :=
  let globalConfig := b.globalConfig.merge config
  { b with
    globalConfig
    outputConfigs := fun i =>
      if (b.outputConfigs i).maximumItems = 0 then
        { b.outputConfigs i with
          maximumItems := globalConfig.maximumOutputItems }
      else b.outputConfigs i }.acknowledge sender

/-- `handle_top_thread_group`. -/
def handleTopThreadGroup (sender : Option Address) (b : BlockActor) :
    BlockActor :=
  { b with interruptibleThread :=
    b.globalConfig.interruptibleWork }.acknowledge sender

/-- Allocate the buffers of an output port.  The new buffers are sent to the
block through their token, and the downstream is asked for an allocation of its
own. -/
def allocateOutput (env : Env) (i : Nat) (b : BlockActor) :
    Checked BlockActor :=
  let config := b.outputConfigs i
  let maximumItems :=
    if config.maximumItems = 0 then b.globalConfig.maximumOutputItems
    else config.maximumItems
  match recommendLength (b.outputAllocationHints i)
      (myRoundUpMult atLeastBytes config.itemSize)
      (config.reserveItems * config.itemSize % 2 ^ 64)
      (maximumItems * config.itemSize % 2 ^ 64) with
  | none => throw (.runtimeError "recommend_length does not end")
  | some bytes => do
      let buffers : SBufferConfig := {
        memory := 0
        length := bytes
        affinity := b.globalConfig.bufferAffinity
        token := env.bufferToken i }
      let (queue, created) := env.outputBufferAllocator i buffers
      let b := created.foldl
        (fun b buff => b.sendSelf (.output i (.buffer buff.reset))) b
      let p ← (b.outputQueues i).setBufferQueue env.now queue
      return (b.setOutput i p).postDownstream i (.alloc buffers)

/-- `handle_top_alloc`. -/
def handleTopAlloc (env : Env) (sender : Option Address) (b : BlockActor) :
    Checked BlockActor := do
  let b ← forRange (allocateOutput env) b.numOutputs b
  return b.acknowledge sender

/-- Grow or shrink a bit set; new bits have that value. -/
def resizeBits (size : Nat) (value : Bool) (s : BitSet) : BitSet :=
  ⟨size, fun i => if i < s.size then s.bit i else value⟩

/-- Grow or shrink the vectors of `BlockData`.  The configurations are as long
as need be: `resize_fill_back` repeats the last one. -/
def resize (now : Int) (numInputs numOutputs : Nat) (b : BlockActor) :
    BlockActor :=
  let available := resizeBits numInputs false b.inputsAvailable
  { b with
    numInputs
    numOutputs
    inputQueues := fun i =>
      if i < b.numInputs then b.inputQueues i else .resized b.initTime now
    outputQueues := fun i =>
      if i < b.numOutputs then b.outputQueues i else .resized b.initTime now
    inputsAvailable := if numInputs = 0 then resizeBits 1 true available
      else available
    totalItemsConsumed := fun i => if i <
      b.numInputs then b.totalItemsConsumed i else 0
    totalItemsProduced := fun i => if i <
      b.numOutputs then b.totalItemsProduced i else 0
    inputsDone := resizeBits numInputs false b.inputsDone
    outputsDone := resizeBits numOutputs false b.outputsDone
    outputAllocationHints := fun i =>
      if i < b.numOutputs then b.outputAllocationHints i else []
    inputTagsChanged := fun i => if i <
      b.numInputs then b.inputTagsChanged i else false
    inputTags := fun i => if i < b.numInputs then b.inputTags i else []
    inputMsgs := fun i => if i < b.numInputs then b.inputMsgs i else []
    numInputMsgsRead := fun i => if i <
      b.numInputs then b.numInputMsgsRead i else 0
    numInputItemsRead := fun i => if i <
      b.numInputs then b.numInputItemsRead i else 0
    numOutputItemsRead := fun i => if i <
      b.numOutputs then b.numOutputItemsRead i else 0 }

/-- A block that loses all connections is done. -/
def releaseUnconnected (now : Int) (b : BlockActor) : Checked BlockActor :=
  if b.numInputs = 0 ∧ b.numOutputs = 0 then b.markDone now else return b

/-- `handle_topology`, when the worker has so many inputs and outputs. -/
def handleTopology (env : Env) (numInputs numOutputs : Nat)
    (sender : Option Address) (b : BlockActor) : Checked BlockActor := do
  let b ← (b.resize env.now numInputs numOutputs).releaseUnconnected env.now
  let b ← forRange (handleInputUpdate env) numInputs b
  let b ← forRange (handleOutputUpdate env) numOutputs b
  return b.acknowledge sender

/-! ### The mailbox -/

/-- The handler registered for a message. -/
def handler (env : Env) (b : BlockActor) : Message → Checked BlockActor
  | .input i (.tag tag) => return b.handleInputTag i tag
  | .input i (.msg msg) => b.handleInputMsg env i msg
  | .input i (.buffer buffer) => b.handleInputBuffer env i buffer
  | .input i (.token token) => b.handleInputToken i token
  | .input i .check => b.handleInputCheck env i
  | .input i (.alloc config) => return b.handleInputAlloc env i config
  | .input i .update => b.handleInputUpdate env i
  | .output i (.buffer buffer) => b.handleOutputBuffer env i buffer
  | .output i (.token token) => b.handleOutputToken i token
  | .output i .check => b.handleOutputCheck env i
  | .output i (.hint reserveBytes token) =>
      return b.handleOutputHint env i reserveBytes token
  | .output i (.alloc queue) => b.handleOutputAlloc env i queue
  | .output i .update => b.handleOutputUpdate env i
  | .top .alloc _ sender => b.handleTopAlloc env sender
  | .top .active _ sender => return b.handleTopActive env sender
  | .top .inert _ sender => b.handleTopInert env sender
  | .top (.token token) _ sender => return b.handleTopToken env token sender
  | .top (.config config) _ sender => return b.handleTopConfig config sender
  | .top .threadGroup _ sender => return b.handleTopThreadGroup sender
  | .callable key sender => return b.handleCallable env key sender
  | .getStats sender => return b.handleGetStats sender
  | .selfKick => b.handleSelfKick env

/-- Take that message out of the mailbox; it is alive until its handler
returns. -/
def receive (m : Message) (rest : List Message) (b : BlockActor) : BlockActor :=
  { b with mailbox := rest, handlesPrio := m.carriesToken }

/-- Handle the oldest message of the mailbox. -/
def handle (env : Env) (b : BlockActor) : Checked BlockActor :=
  match b.mailbox with
  | [] => return b
  | m :: rest => do
      let b ← (b.receive m rest).handler env m
      return { b with handlesPrio := false }

end BlockActor

end Gras
