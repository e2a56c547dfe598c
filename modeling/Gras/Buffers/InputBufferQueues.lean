import Gras.Lib.BoundedDeque
import Gras.Buffers.SBuffer

/-!
# The buffer queue of an input port

`input_buffer_queues.hpp`, one port at a time: the vectors of
`InputBufferQueues` are indexed by the port, and `InputPort` is one column of
them.

* `accumulate` copies the front of the queue into an auxiliary buffer;
* `push` appends a buffer and then *stitches*: a buffer whose `last` is the end
  of its predecessor gives its bytes to the predecessor and stays in the queue
  with length zero to pin its memory;
* `consume` takes bytes off the front and then *un-stitches*: what remains of
  the front goes to its successor when the successor's `last` says that the
  bytes lie below its offset.

A call reads the clock once, as `now`, and gets the buffer the allocator would
hand out as `fresh`.  The auxiliary buffers come back through their token, which
is a step of its own (`SimpleBufferQueue.pushBack`).  Sizes are those of objects
in memory, so their sums do not overflow a `size_t`.
-/

namespace Gras

/-- `MAX_AUX_BUFF_BYTES`. -/
def maxAuxBuffBytes : Nat := 2 ^ 16

/-- `get_null_buff()`: the buffer `front` hands out when there is none. -/
def nullBuff : SBuffer where
  impl := 0
  config := { memory := 0, length := 1 }

/-- One column of `InputBufferQueues`. -/
structure InputPort where
  /-- The port's bit of `_bitset`. -/
  bit : Bool
  itemsSize : Nat
  enqueuedBytes : Nat
  reserveBytes : Nat
  maximumBytes : Nat
  queue : BoundedDeque SBuffer
  preloadBytes : Nat
  auxQueue : Option SimpleBufferQueue
  bytesCopied : Nat
  totalIdleTime : Int
  becameIdleTime : Int
  initTime : Int

namespace InputPort

/-- A port that `resize` has just added. -/
def resized (initTime now : Int) : InputPort where
  bit := false
  itemsSize := 0
  enqueuedBytes := 0
  reserveBytes := 1
  maximumBytes := maxAuxBuffBytes
  queue := .empty 1
  preloadBytes := 0
  auxQueue := none
  bytesCopied := 0
  totalIdleTime := 0
  becameIdleTime := now
  initTime := initTime

/-! ### Readiness -/

/-- `ready(i)`. -/
def ready (p : InputPort) : Bool := p.bit

/-- `empty(i)`. -/
def empty (p : InputPort) : Bool := p.queue.items.isEmpty

/-- Set the port's bit and keep the idle times: what `__update` does up to its
`ASSERT`. -/
def setReady (now : Int) (isReady : Bool) (p : InputPort) : InputPort :=
  { p with
    bit := isReady
    totalIdleTime :=
      if isReady && !p.bit then p.totalIdleTime + (now - p.becameIdleTime)
      else p.totalIdleTime
    becameIdleTime := if !isReady && p.bit then now else p.becameIdleTime }

/-- `__update(i)`. -/
def update (now : Int) (p : InputPort) : Checked InputPort := do
  let p := p.setReady now (decide (p.reserveBytes ≤ p.enqueuedBytes))
  assertThat (p.totalIdleTime ≤ now - p.initTime)
    "total_idle_times[i] <= (time_now() - _init_time)"
  return p

/-- `update_has_msg(i, has)`. -/
def updateHasMsg (now : Int) (has : Bool) (p : InputPort) : Checked InputPort :=
  if has then return { p with bit := true } else p.update now

/-- `fail(i)`. -/
def fail (now : Int) (p : InputPort) : InputPort :=
  { p with bit := false, becameIdleTime := now }

/-- `flush_all()` on this port. -/
def flush (now : Int) (p : InputPort) : Checked InputPort :=
  { p with queue := .empty 1, enqueuedBytes := 0 }.update now

/-- `get_items_enqueued(i)`. -/
def getItemsEnqueued (p : InputPort) : Nat := p.enqueuedBytes / p.itemsSize

/-! ### Accumulation -/

/-- `is_front_maximal(i)`; its callers have checked that there is a front. -/
def isFrontMaximal (p : InputPort) : Bool :=
  match p.queue.items with
  | [] => false
  | front :: _ => decide (p.maximumBytes ≤ front.length)

/-- `is_accumulated(i)`. -/
def isAccumulated (p : InputPort) : Bool :=
  decide (p.queue.items.length ≤ 1) || p.isFrontMaximal

/-- What the loop of `accumulate` works on. -/
structure Gathered where
  queue : List SBuffer
  accum : SBuffer
  memory : Memory

/-- Take so many bytes off the front of a buffer; its `last` becomes the end of
the bytes they were copied behind. -/
def moved (accum front : SBuffer) (bytes : Nat) : SBuffer :=
  { front with
    length := front.length - bytes
    offset := front.offset + bytes
    last := accum.get (accum.length + bytes) }

/-- The loop of `accumulate`: fill the accumulation buffer from the front of the
queue while there are free bytes.  A buffer that does not empty has used the
free bytes up, so the loop ends there. -/
def gather : List SBuffer → SBuffer → Nat → Memory → Gathered
  | [], accum, _, m => ⟨[], accum, m⟩
  | front :: rest, accum, freeBytes, m =>
      if freeBytes = 0 then ⟨front :: rest, accum, m⟩
      else
        let bytes := min front.length freeBytes
        let m' := m.copy (accum.get accum.length) (front.get 0) bytes
        let accum' := { accum with length := accum.length + bytes }
        if front.length ≤ freeBytes then
          gather rest accum' (freeBytes - bytes) m'
        else ⟨moved accum front bytes :: rest, accum', m'⟩

/-- The auxiliary buffers, with one more when there is none. -/
def auxAvailable (fresh : Allocation) (maximumBytes : Nat)
    (aux : SimpleBufferQueue) : SimpleBufferQueue :=
  if aux.buffers.isEmpty then aux.allocateOne fresh maximumBytes else aux

theorem gather_queue_length (q : List SBuffer) (accum : SBuffer)
    (freeBytes : Nat) (m : Memory) :
    (gather q accum freeBytes m).queue.length ≤ q.length := by
  induction q generalizing accum freeBytes m with
  | nil => simp [gather]
  | cons front rest ih =>
      unfold gather
      dsimp only
      split
      · exact Nat.le_refl _
      · split
        · exact Nat.le_trans (ih _ _ _) (Nat.le_succ _)
        · exact Nat.le_refl _

/-- What the loop of `accumulate` makes of this port and that auxiliary
buffer. -/
def gathered (buff : SBuffer) (m : Memory) (p : InputPort) : Gathered :=
  let accum := { buff with offset := 0, length := 0 }
  let freeBytes := accum.getActualLength / p.itemsSize * p.itemsSize
  gather p.queue.items accum freeBytes m

/-- `accumulate(i)`. -/
def accumulate (fresh : Allocation) (m : Memory) (p : InputPort) :
    Checked (InputPort × Memory) :=
  if p.isAccumulated then return (p, m)
  else
    match p.auxQueue with
    | none => throw (.nullPointer "_aux_queues[i]")
    | some aux =>
        let aux := auxAvailable fresh p.maximumBytes aux
        match aux.buffers with
        | [] => throw (.assertFail "not _aux_queues[i]->empty()")
        | buff :: buffers => do
            let g := p.gathered buff m
            let queue := p.queue.replace g.queue
              (Nat.le_trans (gather_queue_length _ _ _ _) p.queue.size_le)
            let p := { p with
              auxQueue := some { aux with buffers }
              bytesCopied := p.bytesCopied + g.accum.length
              queue := queue.pushFront g.accum }
            assertThat p.isAccumulated "this->is_accumulated(i)"
            return (p, g.memory)

/-- The part of `front(i)` that accumulates: there are enough enqueued bytes,
but not in the front buffer. -/
def refill (fresh : Allocation) (m : Memory) (buff : SBuffer) (p : InputPort) :
    Checked (InputPort × Memory) :=
  if buff.length < p.reserveBytes then p.accumulate fresh m else return (p, m)

/-- `front(i)`. -/
def front (fresh : Allocation) (m : Memory) (p : InputPort) :
    Checked (SBuffer × InputPort × Memory) := do
  assertThat p.ready "this->ready(i)"
  assertThat (p.itemsSize ≠ 0) "_items_sizes[i] != 0"
  match p.queue.items with
  | [] => return (nullBuff, p, m)
  | buff :: _ =>
      let (p, m) ← p.refill fresh m buff
      match p.queue.items with
      | [] => throw (.assertFail "not _queues[i].empty()")
      | front :: _ =>
          assertThat (p.reserveBytes ≤ front.length)
            "_queues[i].front().length >= _reserve_bytes[i]"
          assertThat (front.length % p.itemsSize = 0)
            "(_queues[i].front().length % _items_sizes[i]) == 0"
          return (front, p, m)

/-! ### Pushing -/

/-- The stitch test: `last` is the end of the front pointer and the front also
has a `last`, so it is not an accumulation buffer. -/
def Stitches (b0 b1 : SBuffer) : Prop :=
  b1.last = b0.get b0.length ∧ b0.last ≠ 0

instance (b0 b1 : SBuffer) : Decidable (Stitches b0 b1) :=
  inferInstanceAs (Decidable (_ ∧ _))

/-- The front with the bytes of its successor. -/
def taking (b0 b1 : SBuffer) : SBuffer :=
  { b0 with length := b0.length + b1.length }

/-- The successor without them: an empty buffer behind its own bytes. -/
def giving (b0 b1 : SBuffer) : SBuffer :=
  { b1 with
    offset := b1.offset + b1.length
    length := 0
    last := (taking b0 b1).get (taking b0 b1).length }

/-- One round of the stitching loop, at the buffer before the rest. -/
def stitch (b0 : SBuffer) : List SBuffer → List SBuffer
  | [] => [b0]
  | b1 :: rest =>
      if Stitches b0 b1 then taking b0 b1 :: giving b0 b1 :: rest
      else b0 :: b1 :: rest

/-- The stitching loop, from the back of the queue to the front. -/
def stitchLoop : List SBuffer → List SBuffer
  | [] => []
  | b0 :: rest => stitch b0 (stitchLoop rest)

/-- Drop a back that got fully stitched to the same buffer. -/
def dropStitched : List SBuffer → List SBuffer
  | [b0, b1] => if b1.impl = b0.impl ∧ b1.length = 0 then [b0] else [b0, b1]
  | b :: rest => b :: dropStitched rest
  | [] => []

theorem stitchLoop_length (q : List SBuffer) :
    (stitchLoop q).length = q.length := by
  induction q with
  | nil => rfl
  | cons b rest ih =>
      rw [stitchLoop, List.length_cons, ← ih]
      unfold stitch
      split
      · rename_i h
        simp [h]
      · rename_i h
        split <;> simp [h]

theorem dropStitched_length (q : List SBuffer) :
    (dropStitched q).length ≤ q.length := by
  fun_induction dropStitched q with
  | case1 => simp
  | case2 => simp
  | case3 _ _ _ ih => simpa using ih
  | case4 => simp

/-- Make room in a full queue. -/
def grown (q : BoundedDeque SBuffer) : BoundedDeque SBuffer :=
  if q.full then q.setCapacity (q.items.length * 2) else q

/-- `push(i, buffer)`. -/
def push (now : Int) (buffer : SBuffer) (p : InputPort) :
    Checked InputPort := do
  let queue := grown p.queue
  assertThat (¬ queue.full) "not _queues[i].full()"
  if buffer.length = 0 then return { p with queue }
  let queue := queue.pushBack buffer
  let p ← update now
    { p with queue, enqueuedBytes := p.enqueuedBytes + buffer.length }
  if queue.items.length ≤ 1 then return p
  return { p with
    queue := queue.replace (dropStitched (stitchLoop queue.items))
      (Nat.le_trans (dropStitched_length _)
        (Nat.le_trans (Nat.le_of_eq (stitchLoop_length _)) queue.size_le)) }

/-! ### Consuming -/

/-- The un-stitch test: the rest of `b0` fits below the offset of `b1`, whose
`last` is the end of `b0`. -/
def Unstitches (b0 b1 : SBuffer) : Prop :=
  b0.length ≤ b1.offset ∧ b0.get b0.length = b1.last

instance (b0 b1 : SBuffer) : Decidable (Unstitches b0 b1) :=
  inferInstanceAs (Decidable (_ ∧ _))

/-- The successor with the bytes of the front, below its own. -/
def regaining (b0 b1 : SBuffer) : SBuffer :=
  { b1 with offset := b1.offset - b0.length, length := b1.length + b0.length }

/-- Give the rest of the front to its successor. -/
def unstitch : List SBuffer → List SBuffer
  | b0 :: b1 :: rest =>
      if Unstitches b0 b1 then regaining b0 b1 :: rest else b0 :: b1 :: rest
  | q => q

/-- Take so many bytes off the front buffer, which goes when it is empty. -/
def drained (bytes : Nat) : List SBuffer → List SBuffer
  | [] => []
  | front :: rest =>
      if front.length = bytes then rest else front.skip bytes :: rest

theorem unstitch_length (q : List SBuffer) :
    (unstitch q).length ≤ q.length := by
  unfold unstitch
  split
  · split <;> simp
  · exact Nat.le_refl _

theorem drained_length (bytes : Nat) (q : List SBuffer) :
    (drained bytes q).length ≤ q.length := by
  unfold drained
  split
  · exact Nat.le_refl _
  · split <;> simp

/-- `consume(i, items_consumed)`. -/
def consume (now : Int) (itemsConsumed : Nat) (p : InputPort) :
    Checked InputPort :=
  let bytesConsumed := itemsConsumed * p.itemsSize
  match p.queue.items with
  | [] => throw (.assertFail "not _queues[i].empty()")
  | front :: _ => do
      assertThat (bytesConsumed % p.itemsSize = 0)
        "(bytes_consumed % _items_sizes[i]) == 0"
      assertThat (bytesConsumed ≤ front.length) "front.length >= bytes_consumed"
      assertThat ((front.length - bytesConsumed) % p.itemsSize = 0)
        "(_queues[i].front().length % _items_sizes[i]) == 0"
      let queue := p.queue.replace (drained bytesConsumed p.queue.items)
        (Nat.le_trans (drained_length _ _) p.queue.size_le)
      assertThat (bytesConsumed ≤ p.enqueuedBytes)
        "_enqueued_bytes[i] >= bytes_consumed"
      let p ← update now
        { p with queue, enqueuedBytes := p.enqueuedBytes - bytesConsumed }
      return { p with
        queue := queue.replace (unstitch queue.items)
          (Nat.le_trans (unstitch_length _) queue.size_le) }

/-- What `BlockActor::input_fail(i)` does to a port that is not done: accumulate
and try again, or else wait for more. -/
def inputFail (now : Int) (fresh : Allocation) (m : Memory) (p : InputPort) :
    Checked (InputPort × Memory) :=
  if ¬ p.isAccumulated then p.accumulate fresh m
  else if ¬ p.empty ∧ p.isFrontMaximal then
    throw (.runtimeError "input_fail called on maximum_items buffer")
  else return (p.fail now, m)

/-! ### Configuration -/

/-- The allocations of one `update_config`. -/
structure AuxAllocations where
  first : Allocation
  second : Allocation
  third : Allocation
  /-- The token of the new queue. -/
  token : Nat

/-- A new auxiliary queue with three buffers. -/
def AuxAllocations.queue (fresh : AuxAllocations) (maximumBytes : Nat) :
    SimpleBufferQueue :=
  let aux : SimpleBufferQueue := ⟨fresh.token, []⟩
  ((aux.allocateOne fresh.first maximumBytes).allocateOne fresh.second
    maximumBytes).allocateOne fresh.third maximumBytes

/-- The auxiliary queue `update_config` leaves behind for that maximum. -/
def configuredAux (fresh : AuxAllocations) (maximumBytes : Nat)
    (p : InputPort) : SimpleBufferQueue :=
  match p.auxQueue with
  | none => fresh.queue maximumBytes
  | some aux =>
      match aux.buffers with
      | [] => fresh.queue maximumBytes
      | buff :: _ =>
          if buff.getActualLength = maximumBytes then aux
          else fresh.queue maximumBytes

/-- The maximum `update_config` settles on. -/
def configuredMaximum (reserveBytes maximumBytes : Nat) (p : InputPort) : Nat :=
  max (if maximumBytes = 0 then p.maximumBytes else maximumBytes) reserveBytes

/-- More preload than before: enqueue the difference as zeros. -/
def morePreload (now : Int) (preloadBytes : Nat) (m : Memory) (p : InputPort) :
    Checked (InputPort × Memory) :=
  if preloadBytes ≤ p.preloadBytes then return (p, m)
  else
    match p.auxQueue with
    | none => throw (.nullPointer "_aux_queues[i]")
    | some aux =>
        match aux.buffers with
        | [] => throw (.nullPointer "_aux_queues[i]->front()")
        | buff :: buffers => do
            let delta := preloadBytes - p.preloadBytes
            let m := m.writeRange buff.getActualMemory (List.replicate delta 0)
            let p ← { p with auxQueue := some { aux with buffers } }.push now
              { buff with offset := 0, length := delta }
            return (p, m)

/-- Less preload than before: consume the difference, which counts as items. -/
def lessPreload (now : Int) (preloadBytes : Nat) (p : InputPort) :
    Checked InputPort :=
  if preloadBytes < p.preloadBytes then
    p.consume now (min (p.preloadBytes - preloadBytes) p.enqueuedBytes)
  else return p

/-- `update_config(i, item_size, preload_bytes, reserve_bytes,
maximum_bytes)`. -/
def updateConfig (now : Int) (fresh : AuxAllocations)
    (itemSize preloadBytes reserveBytes maximumBytes : Nat) (m : Memory)
    (p : InputPort) : Checked (InputPort × Memory) := do
  assertThat (itemSize ≠ 0) "item_size != 0"
  let maximum := p.configuredMaximum reserveBytes maximumBytes
  let p := { p with
    itemsSize := itemSize
    maximumBytes := maximum
    auxQueue := some (p.configuredAux fresh maximum) }
  let (p, m) ← p.morePreload now preloadBytes m
  let p ← p.lessPreload now preloadBytes
  let p ← { p with preloadBytes, reserveBytes }.update now
  return (p, m)

end InputPort

end Gras
