import Gras.Actor.BlockActor

/-!
# The work of a block

`task_main.cpp`, `task_done.cpp`, `task_fail.cpp`, `block_produce.cpp`,
`block_consume.cpp` and `block_message.cpp`.

What user code does is a list of `Call`s to the block's API, in order; other
threads may run in between (`ThreadEvent`).  `Env` collects what a handler does
not decide itself: the clock, what the allocator hands out, whether a shared
pointer is unique at that moment, and the user code.

`taskMain` is `isWorkAllowed`, then the ports are prepared, the calls of work
run, and the ports are finished; `markDone` may be called from inside.
-/

namespace Gras

/-- What other threads do to a block. -/
inductive ThreadEvent where
  /-- Send a message without a copy of the priority token. -/
  | post (m : Message)
  /-- Copy the priority token into a message. -/
  | prepare (m : Message)
  /-- Send the `k`-th prepared message. -/
  | send (k : Nat)
  /-- Drop the copy that was left after sending. -/
  | release
  /-- Return from a call whose reply has arrived. -/
  | return
  /-- Change the configuration of a port. -/
  | configureInput (i : Nat) (config : InputPortConfig)
  | configureOutput (i : Nat) (config : OutputPortConfig)

/-- The calls of user code into its block, and what happens in between. -/
inductive Call where
  | consume (i items : Nat)
  | produce (o items : Nat)
  | popInputMsg (i : Nat)
  | postOutputTag (o : Nat) (tag : Tag)
  | postOutputMsg (o : Nat) (msg : Pmc)
  | markInputFail (i : Nat) (fresh : Allocation)
  | markOutputFail (o : Nat)
  | markDone
  | getInputBuffer (i : Nat) (fresh : Allocation)
  | getOutputBuffer (o : Nat)
  | popOutputBuffer (o numBytes : Nat)
  | postOutputBuffer (o : Nat) (buffer : SBuffer)
  | postInput (i : Nat) (message : InputMessage)
  | thread (event : ThreadEvent)

/-- What surrounds a handler. -/
structure Env where
  /-- The clock. -/
  now : Int := 0
  /-- What the allocator hands out when `front(i)` accumulates. -/
  fresh : Nat → Allocation := fun i => ⟨i, 0⟩
  /-- What it hands out for the auxiliary buffers of port `i`. -/
  auxAllocations : Nat → InputPort.AuxAllocations :=
    fun i => ⟨⟨i, 0⟩, ⟨i, 0⟩, ⟨i, 0⟩, 0⟩
  /-- `unique()` of a buffer. -/
  bufferUnique : SBuffer → Bool := fun _ => false
  /-- `unique()` and `expired()` of a token. -/
  tokenUnique : Token → Bool := fun _ => false
  tokenExpired : Token → Bool := fun _ => false
  /-- The tokens `Token::make` hands out for the ports. -/
  inputToken : Nat → Token := fun i => i
  outputToken : Nat → Token := fun i => i
  /-- The token of the buffers a port allocates. -/
  bufferToken : Nat → Nat := fun i => i
  /-- `output_buffer_allocator`: a queue and the buffers it creates. -/
  outputBufferAllocator : Nat → SBufferConfig →
      Option BufferQueue × List SBuffer :=
    fun _ _ => (none, [])
  /-- `input_buffer_allocator`: the buffers it creates belong to the upstream. -/
  inputBufferAllocator : Nat → SBufferConfig →
    Option BufferQueue := fun _ _ => none
  /-- What `work` does. -/
  work : List Call := []
  /-- What an overload of `propagate_tags` does. -/
  propagateTags : Option (Nat → List Call) := none
  /-- What the registered call does. -/
  called : List Call := []

namespace BlockActor

/-! ### Other threads -/

/-- One event of another thread. -/
def threadStep (b : BlockActor) : ThreadEvent → BlockActor
  | .post m => if m.carriesToken then b else b.sendSelf m
  | .prepare m =>
      if ¬ m.carriesToken then b
      else { b with
        holders := { b.holders with prepared := b.holders.prepared ++ [m] } }
  | .send k =>
      match b.holders.prepared[k]? with
      | none => b
      | some m =>
          let holders :=
            { b.holders with prepared := b.holders.prepared.eraseIdx k }
          { b.sendSelf m with holders := holders.keepCopy m }
  | .release =>
      { b with holders := { b.holders with sent := b.holders.sent - 1 } }
  | .return =>
      { b with holders := { b.holders with replied := b.holders.replied - 1 } }
  | .configureInput i config =>
      { b with inputConfigs := Function.update b.inputConfigs i config }
  | .configureOutput i config =>
      { b with outputConfigs := Function.update b.outputConfigs i config }

/-! ### Marking done -/

/-- Flush a partial output buffer to the downstream. -/
def flushOutput (now : Int) (i : Nat) (b : BlockActor) : Checked BlockActor :=
  if ¬ (b.outputQueues i).ready then return b
  else do
    let (buff, p) ← (b.outputQueues i).front
    if buff.length = 0 then return b.setOutput i p
    let p ← p.pop now
    return (b.setOutput i p).postDownstream i (.buffer buff)

/-- `flush_all()` of the input queues, at one port. -/
def flushInput (now : Int) (i : Nat) (b : BlockActor) : Checked BlockActor := do
  let p ← (b.inputQueues i).flush now
  return b.setInput i p

/-- The rest of the flush: output queues, tags, messages and counters. -/
def flushRest (now : Int) (b : BlockActor) : BlockActor :=
  { b with
    outputQueues := fun i =>
      if i < b.numOutputs then (b.outputQueues i).flush now
      else b.outputQueues i
    inputMsgs := fun i => if i < b.numInputs then [] else b.inputMsgs i
    inputTags := fun i => if i < b.numInputs then [] else b.inputTags i
    numInputItemsRead := fun i => if i < b.numInputs then 0
      else b.numInputItemsRead i
    numInputMsgsRead := fun i => if i < b.numInputs then 0
      else b.numInputMsgsRead i }

/-- Tell the neighbours to check their tokens again. -/
def postChecks (b : BlockActor) : BlockActor :=
  { b with
    sent := b.sent ++ (List.range b.numInputs).map
      (Outgoing.upstream · .check) ++
      (List.range b.numOutputs).map (Outgoing.downstream · .check) }

/-- `interruptible_thread.reset()`.  The destructor locks the mutex that the
thread holds while it runs user code, and joins the thread: on the thread itself
it never returns. -/
def resetThread (b : BlockActor) : Checked BlockActor :=
  if b.onThread then throw (.deadlock "interruptible_thread->_mutex")
  else return { b with interruptibleThread := false }

/-- `mark_done()`. -/
def markDone (now : Int) (b : BlockActor) : Checked BlockActor :=
  if b.blockState = .done then return b
  else do
    let b := { b with stats := { b.stats with stopTime := now } }
    let b ← forRange (flushOutput now) b.numOutputs b
    let b ← b.resetThread
    let b := { b with
      blockState := .done
      tokenPool := [] }
    let b ← forRange (flushInput now) b.numInputs b
    return (b.flushRest now).postChecks

/-! ### The calls of user code -/

/-- `input_fail(i)`. -/
def inputFail (now : Int) (fresh : Allocation) (i : Nat) (b : BlockActor) :
    Checked BlockActor :=
  let p := b.inputQueues i
  if ¬ p.isAccumulated then do
    let (p, memory) ← p.accumulate fresh b.memory
    return ({ b with memory }.setInput i p).taskKicker
  else if b.inputsDone.bit i then b.markDone now
  else if ¬ p.empty ∧ p.isFrontMaximal then
    throw (.runtimeError "input_fail called on maximum_items buffer")
  else return b.setInput i (p.fail now)

/-- `output_fail(i)`. -/
def outputFail (now : Int) (i : Nat) (b : BlockActor) : Checked BlockActor := do
  let (buff, p) ← (b.outputQueues i).front
  let frontItems := buff.length / (b.outputConfigs i).itemSize
  if (b.outputConfigs i).maximumItems ≤ frontItems then
    throw (.runtimeError "output_fail called on maximum_items buffer")
  else return b.setOutput i (p.fail now)

/-- `produce(i, items)`. -/
def produce (i items : Nat) (b : BlockActor) : Checked BlockActor := do
  let p ← (b.outputQueues i).produce (b.outputConfigs i).itemSize items
  return { b.setOutput i p with
    stats := { b.stats with
      itemsProduced :=
        Function.update b.stats.itemsProduced i
          (b.stats.itemsProduced i + items) }
    numOutputItemsRead :=
      Function.update b.numOutputItemsRead i (b.numOutputItemsRead i + items) }

/-- `consume(i, items)`. -/
def consume (i items : Nat) (b : BlockActor) : BlockActor :=
  { b with
    stats := { b.stats with
      itemsConsumed :=
        Function.update b.stats.itemsConsumed i
          (b.stats.itemsConsumed i + items) }
    numInputItemsRead :=
      Function.update b.numInputItemsRead i (b.numInputItemsRead i + items) }

/-- `pop_input_msg(i)`, without the message it returns. -/
def popInputMsg (i : Nat) (b : BlockActor) : BlockActor :=
  if (b.inputMsgs i).length ≤ b.numInputMsgsRead i then b
  else
    { b with
      numInputMsgsRead :=
        Function.update b.numInputMsgsRead i (b.numInputMsgsRead i + 1)
      stats := { b.stats with
        msgsConsumed :=
          Function.update b.stats.msgsConsumed i
            (b.stats.msgsConsumed i + 1) } }

/-- `post_output_tag(o, tag)`. -/
def postOutputTag (o : Nat) (tag : Tag) (b : BlockActor) : BlockActor :=
  { b with
    stats := { b.stats with
      tagsProduced :=
        Function.update b.stats.tagsProduced o (b.stats.tagsProduced o + 1) }
  }.postDownstream o (.tag tag)

/-- `_post_output_msg(o, msg)`. -/
def postOutputMsg (o : Nat) (msg : Pmc) (b : BlockActor) : BlockActor :=
  { b with
    stats := { b.stats with
      msgsProduced :=
        Function.update b.stats.msgsProduced o (b.stats.msgsProduced o + 1) }
  }.postDownstream o (.msg msg)

/-- `get_input_buffer(i)`, without the buffer it returns. -/
def getInputBuffer (fresh : Allocation) (i : Nat) (b : BlockActor) :
    Checked BlockActor := do
  let (_, p, memory) ← (b.inputQueues i).front fresh b.memory
  return { b with memory }.setInput i p

/-- Store the length of the front output buffer: `get_output_buffer(o)` and
`pop_output_buffer(o, num_bytes)`. -/
def storeLength (o : Nat) (length : SBuffer → Nat) (b : BlockActor) :
    Checked BlockActor := do
  let (buff, p) ← (b.outputQueues o).front
  return b.setOutput o (p.setFront { buff with length := length buff })

/-- `post_output_buffer(o, buffer)`. -/
def postOutputBuffer (o : Nat) (buffer : SBuffer) (b : BlockActor) :
    Checked BlockActor := do
  let p ← (b.outputQueues o).setInline buffer
  let b := b.setOutput o p
  let itemSize := (b.outputConfigs o).itemSize
  assertThat (buffer.length % itemSize = 0) "(buffer.length % item_size) == 0"
  let items := buffer.length / itemSize
  assertThat (items < 2 ^ 63) "long(num_items) >= 0"
  b.produce o items

/-- One call. -/
def call (now : Int) (b : BlockActor) : Call → Checked BlockActor
  | .consume i items => do
      assertThat (items < 2 ^ 63) "long(num_items) >= 0"
      return b.consume i items
  | .produce o items => do
      assertThat (items < 2 ^ 63) "long(num_items) >= 0"
      b.produce o items
  | .popInputMsg i => return b.popInputMsg i
  | .postOutputTag o tag => return b.postOutputTag o tag
  | .postOutputMsg o msg => return b.postOutputMsg o msg
  | .markInputFail i fresh => b.inputFail now fresh i
  | .markOutputFail o => b.outputFail now o
  | .markDone => b.markDone now
  | .getInputBuffer i fresh => b.getInputBuffer fresh i
  | .getOutputBuffer o => b.storeLength o SBuffer.getActualLength
  | .popOutputBuffer o numBytes => b.storeLength o fun _ => numBytes
  | .postOutputBuffer o buffer => b.postOutputBuffer o buffer
  | .postInput i message => return b.sendSelf (.input i message)
  | .thread event => return b.threadStep event

/-- The calls of user code, one after the other. -/
def calls (now : Int) : List Call → BlockActor → Checked BlockActor
  | [], b => return b
  | c :: cs, b => do
      let b ← b.call now c
      calls now cs b

/-! ### The main task -/

/-- `sort_tags(data, i)`. -/
def sortTags (i : Nat) (b : BlockActor) : BlockActor :=
  if ¬ b.inputTagsChanged i then b
  else
    { b with
      inputTags := Function.update b.inputTags i
        ((b.inputTags i).mergeSort fun s t => decide (s.offset ≤ t.offset))
      inputTagsChanged := Function.update b.inputTagsChanged i false }

/-- `propagate_tags(i, iter)` where it is not overloaded. -/
def propagateTags (i : Nat) (tags : List Tag) (b : BlockActor) : BlockActor :=
  (List.range b.numOutputs).foldl (fun b o =>
    tags.foldl (fun b t =>
      b.postOutputTag o { t with
        offset := (sizeSub t.offset (b.totalItemsConsumed i) +
          b.totalItemsProduced o)
          % 2 ^ 64 }) b) b

/-- Call `propagate_tags(i, iter)`, or its overload. -/
def passTags (env : Env) (i : Nat) (tags : List Tag) (b : BlockActor) :
    Checked BlockActor :=
  match env.propagateTags with
  | none => return b.propagateTags i tags
  | some overload => b.calls env.now (overload i)

/-- `trim_tags(data, i)`. -/
def trimTags (env : Env) (i : Nat) (b : BlockActor) : Checked BlockActor :=
  let passed := (b.inputTags i).takeWhile fun t =>
    decide (t.offset < b.stats.itemsConsumed i)
  let last := passed.length
  if last = 0 then return b
  else do
    let b ← b.passTags env i passed
    return { b with
      inputTags := Function.update b.inputTags i ((b.inputTags i).drop last)
      stats := { b.stats with
        tagsConsumed :=
          Function.update b.stats.tagsConsumed i
            (b.stats.tagsConsumed i + last) } }

/-- `trim_msgs(data, i)`. -/
def trimMsgs (i : Nat) (b : BlockActor) : BlockActor :=
  { b with
    inputMsgs := Function.update b.inputMsgs i
      ((b.inputMsgs i).drop (b.numInputMsgsRead i)) }

/-- `trim_buffs(data, i)`. -/
def trimBuffs (now : Int) (i : Nat) (b : BlockActor) : Checked BlockActor :=
  if b.numInputItemsRead i = 0 then return b
  else do
    let p ← (b.inputQueues i).consume now (b.numInputItemsRead i)
    return b.setInput i p

/-- Initialize an input port before work.  The second component is
`output_inline_index`. -/
def prepareInput (env : Env) (i : Nat) :
    BlockActor × Nat → Checked (BlockActor × Nat)
  | (b, inlineIndex) => do
    let b := b.sortTags i
    let b := { b with
      numInputItemsRead := Function.update b.numInputItemsRead i 0
      numInputMsgsRead := Function.update b.numInputMsgsRead i 0 }
    assertThat (b.inputQueues i).ready "data->input_queues.ready(i)"
    let (buff, p, memory) ← (b.inputQueues i).front (env.fresh i) b.memory
    let items := buff.length / (b.inputConfigs i).itemSize
    let b := { b with memory, inputItems := b.inputItems.offer i (buff.get 0) items }.setInput
      i p
    if env.bufferUnique buff ∧ (b.inputConfigs i).inlineBuffer ∧
        inlineIndex < b.numOutputs ∧
        buff.getAffinity = b.globalConfig.bufferAffinity then
      let p ← (b.outputQueues inlineIndex).setInline buff
      return (b.setOutput inlineIndex p, inlineIndex + 1)
    else return (b, inlineIndex)

/-- Initialize an output port before work. -/
def prepareOutput (i : Nat) (b : BlockActor) : Checked BlockActor := do
  let b := { b with
    numOutputItemsRead := Function.update b.numOutputItemsRead i 0 }
  assertThat (b.outputQueues i).ready "data->output_queues.ready(i)"
  let (buff, p) ← (b.outputQueues i).front
  assertThat (buff.length = 0) "buff.length == 0"
  let bytes := sizeSub buff.getActualLength buff.offset
  let items := bytes / (b.outputConfigs i).itemSize
  return { b with
    outputItems := b.outputItems.offer i (buff.get 0) items }.setOutput i p

/-- The post-work tasks of an input port. -/
def finishInput (env : Env) (i : Nat) (b : BlockActor) :
    Checked BlockActor := do
  let b := b.trimMsgs i
  let b ← b.trimTags env i
  let b ← b.trimBuffs env.now i
  let b ← b.updateInputAvail env.now i
  return { b with
    totalItemsConsumed := Function.update b.totalItemsConsumed i
      (b.totalItemsConsumed i + b.numInputItemsRead i) }

/-- The post-work tasks of an output port. -/
def finishOutput (now : Int) (i : Nat) (b : BlockActor) : Checked BlockActor :=
  if (b.outputQueues i).empty then return b
  else do
    let (buff, p) ← (b.outputQueues i).post now
    let b := b.setOutput i p
    let b := if b.numOutputItemsRead i ≠
      0 then b.postDownstream i (.buffer buff) else b
    return { b with
      totalItemsProduced := Function.update b.totalItemsProduced i
        (b.totalItemsProduced i + b.numOutputItemsRead i) }

/-- Before work: the input ports, then the output ports. -/
def prepare (env : Env) (b : BlockActor) : Checked BlockActor := do
  let (b, _) ← forRange (prepareInput env) b.numInputs
      ({ b with inputItems := {} }, 0)
  forRange prepareOutput b.numOutputs { b with outputItems := {} }

/-- The work, on the interruptible thread if there is one. -/
def taskWork (env : Env) (b : BlockActor) : Checked BlockActor := do
  let b := { b with
    stats := { b.stats with workCount := b.stats.workCount + 1 }
    onThread := b.interruptibleThread }
  let b ← b.calls env.now env.work
  return { b with
    stats := { b.stats with timeLastWork := env.now }
    onThread := false }

/-- After work: the input ports, then the output ports. -/
def finish (env : Env) (b : BlockActor) : Checked BlockActor := do
  let b ← forRange (finishInput env) b.numInputs b
  forRange (finishOutput env.now) b.numOutputs b

/-- `task_main()`. -/
def taskMain (env : Env) (b : BlockActor) : Checked BlockActor :=
  if ¬ b.isWorkAllowed then return b
  else do
    let b ← b.prepare env
    let b ← b.taskWork env
    let b ← b.finish env
    return b.taskKicker

end BlockActor

end Gras
