import Gras.Buffers.BufferQueue

/-!
# The buffer queue of an output port

`output_buffer_queues.hpp`, one port at a time: `OutputPort` is one column of
the vectors of `OutputBufferQueues`.

An inline buffer hides the queue: `front`, `consume` and `pop` look at it first.
Looking at the front of a circular queue changes that queue, so every operation
that calls `front` hands the port back.
-/

namespace Gras

/-- One column of `OutputBufferQueues`. -/
structure OutputPort where
  /-- The port's bit of `_bitset`. -/
  bit : Bool
  queue : Option BufferQueue
  reserveBytes : Nat
  inlineBuffer : Option SBuffer
  totalIdleTime : Int
  becameIdleTime : Int
  initTime : Int

namespace OutputPort

/-- A port that `resize` has just added. -/
def resized (initTime now : Int) : OutputPort where
  bit := false
  queue := none
  reserveBytes := 1
  inlineBuffer := none
  totalIdleTime := 0
  becameIdleTime := now
  initTime := initTime

/-- `ready(i)`. -/
def ready (p : OutputPort) : Bool := p.bit

/-- Is there a queue with a buffer in it? -/
def queueEmpty (p : OutputPort) : Bool :=
  match p.queue with
  | none => true
  | some q => q.empty

/-- `empty(i)`. -/
def empty (p : OutputPort) : Bool := p.inlineBuffer.isNone && p.queueEmpty

/-- Set the port's bit and keep the idle times: what `_update` does up to its
`ASSERT`. -/
def setReady (now : Int) (isReady : Bool) (p : OutputPort) : OutputPort :=
  { p with
    bit := isReady
    totalIdleTime :=
      if isReady && !p.bit then p.totalIdleTime + (now - p.becameIdleTime)
      else p.totalIdleTime
    becameIdleTime := if !isReady && p.bit then now else p.becameIdleTime }

/-- The bytes a front buffer has left, in `size_t`. -/
def available (front : SBuffer) : Nat :=
  sizeSub (sizeSub front.getActualLength front.offset) front.length

/-- `_update(i)`. -/
def update (now : Int) (p : OutputPort) : Checked OutputPort := do
  let (isReady, p) ←
    match p.queue with
    | none => pure (false, p)
    | some q =>
        if q.empty then pure (false, p)
        else do
          let (front, q) ← q.front
          pure (decide (p.reserveBytes ≤ available front),
            { p with queue := some q })
  let p := p.setReady now isReady
  assertThat (p.totalIdleTime ≤ now - p.initTime)
    "total_idle_times[i] <= (time_now() - _init_time)"
  return p

/-- `set_buffer_queue(i, queue)`. -/
def setBufferQueue (now : Int) (q : Option BufferQueue) (p : OutputPort) :
    Checked OutputPort :=
  { p with queue := q }.update now

/-- `set_reserve_bytes(i, num_bytes)`. -/
def setReserveBytes (now : Int) (numBytes : Nat) (p : OutputPort) :
    Checked OutputPort :=
  match p.queue with
  | none => return { p with reserveBytes := numBytes }
  | some _ => { p with reserveBytes := numBytes }.update now

/-- `push(i, buff)`. -/
def push (now : Int) (buff : SBuffer) (p : OutputPort) : Checked OutputPort :=
  match p.queue with
  | none => return p
  | some q => do
      let q ← q.push buff
      { p with queue := some q }.update now

/-- `flush_all()` on this port: `resize` to nothing and back. -/
def flush (now : Int) (p : OutputPort) : OutputPort := resized p.initTime now

/-- `front(i)`. -/
def front (p : OutputPort) : Checked (SBuffer × OutputPort) :=
  match p.inlineBuffer with
  | some buff => return (buff, p)
  | none =>
      match p.queue with
      | none => throw (.assertFail "not this->empty(i)")
      | some q => do
          assertThat (q.empty = false) "not this->empty(i)"
          let (buff, q) ← q.front
          return (buff, { p with queue := some q })

/-- Write through the reference `front(i)` returned. -/
def setFront (buff : SBuffer) (p : OutputPort) : OutputPort :=
  match p.inlineBuffer with
  | some _ => { p with inlineBuffer := some buff }
  | none => { p with queue := p.queue.map (·.setFront buff) }

/-- `pop(i)`. -/
def pop (now : Int) (p : OutputPort) : Checked OutputPort :=
  match p.inlineBuffer with
  | some _ => return { p with inlineBuffer := none }
  | none =>
      match p.queue with
      | none => throw (.assertFail "_queues[i]")
      | some q => do
          assertThat (q.empty = false) "not _queues[i]->empty()"
          let q ← q.pop
          { p with queue := some q }.update now

/-- `consume(i)`. -/
def consume (now : Int) (p : OutputPort) : Checked OutputPort :=
  match p.inlineBuffer with
  | some _ => return { p with inlineBuffer := none }
  | none => do
      assertThat (p.empty = false) "not this->empty(i)"
      let (buff, p) ← p.front
      if buff.length = 0 then return p
      let p := p.setFront
        { buff with offset := buff.offset + buff.length, length := 0 }
      p.pop now

/-- `fail(i)`. -/
def fail (now : Int) (p : OutputPort) : OutputPort :=
  { p with bit := false, becameIdleTime := now }

/-- `set_inline(i, inline_buffer)`. -/
def setInline (buff : SBuffer) (p : OutputPort) : Checked OutputPort := do
  assertThat (p.inlineBuffer = none) "not _inline_buffer[i]"
  return { p with inlineBuffer := some { buff with length := 0 }, bit := true }

/-! ### The port in use -/

/-- The length of the front after `produce`, in `size_t`. -/
def producedLength (itemSize items : Nat) (buff : SBuffer) : Nat :=
  (buff.length + sizeMul items itemSize) % 2 ^ 64

/-- What `BlockActor::produce(i, items)` does to the port: the front buffer
holds more items. -/
def produce (itemSize items : Nat) (p : OutputPort) : Checked OutputPort := do
  let (buff, p) ← p.front
  assertThat (buff.length % itemSize = 0)
    "(buff.length % data->output_configs[i].item_size) == 0"
  return p.setFront { buff with length := producedLength itemSize items buff }

/-- Without an overflow the items are added. -/
theorem producedLength_of_lt {itemSize items : Nat} {buff : SBuffer}
    (h : buff.length + items * itemSize < 2 ^ 64) :
    producedLength itemSize items buff = buff.length + items * itemSize := by
  rw [producedLength, sizeMul_of_lt (by omega), Nat.mod_eq_of_lt h]

/-- What the post-work output task of `task_main` does to a port that is not
empty: grab a copy of the front buffer, then consume it. -/
def post (now : Int) (p : OutputPort) : Checked (SBuffer × OutputPort) := do
  let (buff, p) ← p.front
  let p ← p.consume now
  return (buff, p)

end OutputPort

end Gras
