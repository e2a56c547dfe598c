import Gras.Lib.BoundedDeque
import Gras.Buffers.SBuffer

/-!
# The two buffer queues of an output port

`buffer_queue.hpp`, `buffer_queue_pool.cpp` and `buffer_queue_circ.cpp`.

* `BufferQueuePool` owns a pool of individual allocations.  Its `pop` keeps the
  front buffer as long as at most half of it is used, so consecutive chunks can
  come from one buffer.
* `BufferQueueCirc` owns one large double-mapped buffer and hands out pieces of
  it.  The pieces travel in `SBuffer`s numbered by a user index; a returned
  piece is acknowledged only once every earlier one has been returned.

`front` returns a reference in the source.  Here it returns the buffer together
with the queue in which it is stored, and `setFront` writes through the
reference.
-/

namespace Gras

/-! ## The pool -/

/-- `struct BufferQueuePool`. -/
structure BufferQueuePool where
  token : Nat
  queue : BoundedDeque SBuffer

namespace BufferQueuePool

/-- `BufferQueuePool(config, num)`. -/
def make (config : SBufferConfig) (num : Nat) : BufferQueuePool where
  token := config.token
  queue := .empty num

/-- `front()`. -/
def front (q : BufferQueuePool) : Checked SBuffer :=
  match q.queue.items with
  | [] => throw (.assertFail "not _queue.empty()")
  | buff :: _ => return buff

/-- Write through the reference `front()` returned. -/
def setFront (q : BufferQueuePool) (buff : SBuffer) : BufferQueuePool :=
  { q with
    queue := q.queue.replace (q.queue.items.set 0 buff)
      (by simpa using q.queue.size_le) }

/-- `pop()`: a buffer that is at most half used stays at the front, and its
`last` enables stitching. -/
def pop (q : BufferQueuePool) : Checked BufferQueuePool :=
  match q.queue.items with
  | [] => throw (.assertFail "not _queue.empty()")
  | buff :: _ =>
      if buff.getActualLength / 2 < buff.offset then
        return { q with queue := q.queue.popFront }
      else return q.setFront { buff with last := buff.get 0 }

/-- `push(buff)`. -/
def push (q : BufferQueuePool) (buff : SBuffer) : Checked BufferQueuePool :=
  if buff.config.token ≠ q.token then return q
  else do
    assertThat (buff.getUserIndex = noIndex)
      "buff.get_user_index() == size_t(~0)"
    return { q with queue := q.queue.pushBack buff }

/-- `empty()`. -/
def empty (q : BufferQueuePool) : Bool := q.queue.items.isEmpty

end BufferQueuePool

/-! ## The ring -/

/-- `struct BufferQueueCirc`.  `circMemory` and `circLength` are the start and
the length of `_circ_buff`, which is mapped twice in a row. -/
structure BufferQueueCirc where
  token : Nat
  circMemory : Nat
  circLength : Nat
  writePtr : Nat
  lastPtr : Nat
  bytesAvail : Nat
  ackIndex : Nat
  available : BoundedDeque SBuffer
  /-- The common size of the next two tables. -/
  numBuffs : Nat
  returned : Nat → Option SBuffer
  outgone : Nat → Nat

namespace BufferQueueCirc

/-- `BufferQueueCirc(config, num_buffs)` over the circular buffer that
`make_circular_buffer` returned for `config.length * num_buffs` bytes. -/
def make (config : SBufferConfig) (numBuffs circMemory circLength : Nat) :
    BufferQueueCirc where
  token := config.token
  circMemory := circMemory
  circLength := circLength
  writePtr := circMemory
  lastPtr := 0
  bytesAvail := circLength
  ackIndex := 0
  available := .empty numBuffs
  numBuffs := numBuffs
  returned := fun _ => none
  outgone := fun _ => 0

/-- `empty()`. -/
def empty (q : BufferQueueCirc) : Bool :=
  q.bytesAvail = 0 || q.available.items.isEmpty

/-- Write through the reference `front()` returned. -/
def setFront (q : BufferQueueCirc) (buff : SBuffer) : BufferQueueCirc :=
  { q with
    available := q.available.replace (q.available.items.set 0 buff)
      (by simpa using q.available.size_le) }

/-- The front buffer, pointed at the write pointer. -/
def aimed (q : BufferQueueCirc) (buff : SBuffer) : SBuffer :=
  { buff with
    config := { buff.config with memory := q.writePtr }
    last := q.lastPtr }

/-- `front()`: point the front buffer at the write pointer. -/
def front (q : BufferQueueCirc) : Checked (SBuffer × BufferQueueCirc) :=
  match q.available.items with
  | [] => throw (.assertFail "not this->empty()")
  | buff :: _ => do
      assertThat (q.bytesAvail ≠ 0) "not this->empty()"
      let front := q.aimed buff
      assertThat (front.offset = 0) "front.offset == 0"
      assertThat (q.lastPtr = q.writePtr → front.get 0 = front.last)
        "front.get() == front.last"
      return (front, q.setFront front)

/-- What `pop()` does to the queue for a front buffer of that user index holding
so many bytes.  The wrap test is strict: the write pointer may rest on the end
of the ring. -/
def advance (q : BufferQueueCirc) (userIndex numBytes : Nat) :
    BufferQueueCirc :=
  { q with
    outgone := Function.update q.outgone userIndex numBytes
    available := q.available.popFront
    lastPtr := q.writePtr + numBytes
    writePtr :=
      if q.circMemory + q.circLength < q.writePtr + numBytes then
        q.writePtr + numBytes - q.circLength
      else q.writePtr + numBytes
    bytesAvail := q.bytesAvail - numBytes }

/-- `pop()`: account for the used bytes and move the write pointer. -/
def pop (q : BufferQueueCirc) : Checked BufferQueueCirc :=
  match q.available.items with
  | [] => throw (.assertFail "not this->empty()")
  | front :: _ => do
      assertThat (q.bytesAvail ≠ 0) "not this->empty()"
      assertThat (front.length = 0) "front.length == 0"
      assertThat (front.offset ≤ q.bytesAvail) "_bytes_avail >= num_bytes"
      return q.advance front.getUserIndex front.offset

/-- One round of the acknowledge loop, for the buffer held at `_ack_index`. -/
def ack (q : BufferQueueCirc) (buff : SBuffer) : BufferQueueCirc :=
  { q with
    bytesAvail := q.bytesAvail + q.outgone q.ackIndex
    available := q.available.pushBack buff
    returned := Function.update q.returned q.ackIndex none
    ackIndex := if q.ackIndex + 1 = q.numBuffs then 0 else q.ackIndex + 1 }

/-- The acknowledge loop, run for at most so many rounds. -/
def ackLoop : Nat → BufferQueueCirc → BufferQueueCirc
  | 0, q => q
  | rounds + 1, q =>
      match q.returned q.ackIndex with
      | none => q
      | some buff => ackLoop rounds (q.ack buff)

/-- `push(buff)`.  Every round of the loop empties one of the `numBuffs` slots,
so that many rounds are the whole loop. -/
def push (q : BufferQueueCirc) (buff : SBuffer) : Checked BufferQueueCirc :=
  if buff.config.token ≠ q.token then return q
  else do
    assertThat (buff.getUserIndex < q.numBuffs)
      "buff.get_user_index() < _returned_buffers.size()"
    return ackLoop q.numBuffs
      { q with returned := Function.update q.returned buff.getUserIndex (some buff) }

end BufferQueueCirc

/-! ## The interface -/

/-- A queue behind the `BufferQueue` interface. -/
inductive BufferQueue where
  | pool (q : BufferQueuePool)
  | circ (q : BufferQueueCirc)

namespace BufferQueue

/-- The token the queue holds. -/
def token : BufferQueue → Nat
  | pool q => q.token
  | circ q => q.token

/-- `front()`. -/
def front : BufferQueue → Checked (SBuffer × BufferQueue)
  | pool q => do return (← q.front, pool q)
  | circ q => do
      let (buff, q) ← q.front
      return (buff, circ q)

/-- Write through the reference `front()` returned. -/
def setFront (buff : SBuffer) : BufferQueue → BufferQueue
  | pool q => pool (q.setFront buff)
  | circ q => circ (q.setFront buff)

/-- `pop()`. -/
def pop : BufferQueue → Checked BufferQueue
  | pool q => do return pool (← q.pop)
  | circ q => do return circ (← q.pop)

/-- `push(buff)`. -/
def push (buff : SBuffer) : BufferQueue → Checked BufferQueue
  | pool q => do return pool (← q.push buff)
  | circ q => do return circ (← q.push buff)

/-- `empty()`. -/
def empty : BufferQueue → Bool
  | pool q => q.empty
  | circ q => q.empty

/-- The buffers the queue holds a reference to. -/
def buffers : BufferQueue → List SBuffer
  | pool q => q.queue.items
  | circ q => q.available.items ++ (List.range q.numBuffs).filterMap q.returned

end BufferQueue

end Gras
