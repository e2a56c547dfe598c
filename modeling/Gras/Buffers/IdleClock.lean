import Mathlib.Order.Lattice.Nat
import Mathlib.Data.Int.ConditionallyCompleteOrder
import Mathlib.Order.CompletePartialOrder
import Gras.Lib.TimeSpans
import Gras.Buffers.PortSteps

/-!
# The clock of the idle times

The operations of the ports once more, with every call of `time_now()` they
make.  Here the clock is a function: `clock k` is what the call number `k`
returns.  A `Meter` counts the calls, and it keeps the spans that have been
added to `total_idle_times[i]`; nothing else in the operations is new, and with
a clock that stands still they are those of `InputBufferQueues.lean` and
`OutputBufferQueues.lean` (`updateMetered_still` and so on).

Both queues account for being idle in the same way (`IdleTimes.account`), and
what they do to the ready bits elsewhere is to clear one and start to be idle
(`fail`), or to set one without a word (a message, an inline buffer).
-/

namespace Gras

/-! ## Reading the clock -/

/-- What an operation on a port changes beside the port. -/
structure Meter where
  /-- The calls of `time_now()`. -/
  reads : Nat
  /-- What has been added to `total_idle_times[i]`, the last span first. -/
  added : List (Span Int)

/-- A computation that reads the clock. -/
abbrev Metered := StateT Meter Checked

/-- `time_now()`. -/
def timeNow (clock : Nat → Int) : Metered Int :=
  fun m => .ok (clock m.reads, { m with reads := m.reads + 1 })

/-- Take down what `total_idle_times[i] += stop - start` adds. -/
def addSpan (start stop : Int) : Metered Unit :=
  fun m => .ok ((), { m with added := ⟨start, stop⟩ :: m.added })

/-- What the `ASSERT` of `_update` throws. -/
def idleFault : Fault :=
  .assertFail "total_idle_times[i] <= (time_now() - _init_time)"

/-- The end of `_update(i)`, once it is known whether the port is ready. -/
def IdleTimes.account (clock : Nat → Int) (isReady : Bool) (s : IdleTimes) :
    Metered IdleTimes := do
  let wasReady := s.ready
  let s := { s with ready := isReady }
  let s ← if isReady && !wasReady then do
      let now ← timeNow clock
      addSpan s.became now
      pure { s with total := s.total + (now - s.became) }
    else pure s
  let s ← if !isReady && wasReady then do
      let now ← timeNow clock
      pure { s with became := now }
    else pure s
  let now ← timeNow clock
  assertThat (s.total ≤ now - s.init)
    "total_idle_times[i] <= (time_now() - _init_time)"
  return s

/-! ## Input ports -/

namespace InputPort

/-- Write the idle times back. -/
def setIdleTimes (s : IdleTimes) (p : InputPort) : InputPort :=
  { p with
    bit := s.ready
    totalIdleTime := s.total
    becameIdleTime := s.became
    initTime := s.init }

/-- `__update(i)`. -/
def updateMetered (clock : Nat → Int) (p : InputPort) : Metered InputPort := do
  let s ← p.idleTimes.account clock (decide (p.reserveBytes ≤ p.enqueuedBytes))
  return p.setIdleTimes s

/-- `update_has_msg(i, has)`. -/
def updateHasMsgMetered (clock : Nat → Int) (has : Bool) (p : InputPort) :
    Metered InputPort :=
  if has then return { p with bit := true } else p.updateMetered clock

/-- `fail(i)`. -/
def failMetered (clock : Nat → Int) (p : InputPort) : Metered InputPort := do
  let now ← timeNow clock
  return { p with bit := false, becameIdleTime := now }

/-- `flush_all()` on this port. -/
def flushMetered (clock : Nat → Int) (p : InputPort) : Metered InputPort :=
  { p with queue := .empty 1, enqueuedBytes := 0 }.updateMetered clock

theorem stitched_size (q : BoundedDeque SBuffer) :
    (dropStitched (stitchLoop q.items)).length ≤ q.capacity :=
  Nat.le_trans (dropStitched_length _)
    (Nat.le_trans (Nat.le_of_eq (stitchLoop_length _)) q.size_le)

theorem drained_size (bytes : Nat) (q : BoundedDeque SBuffer) :
    (drained bytes q.items).length ≤ q.capacity :=
  Nat.le_trans (drained_length _ _) q.size_le

theorem unstitched_size (q : BoundedDeque SBuffer) :
    (unstitch q.items).length ≤ q.capacity :=
  Nat.le_trans (unstitch_length _) q.size_le

/-- `push(i, buffer)`. -/
def pushMetered (clock : Nat → Int) (buffer : SBuffer) (p : InputPort) :
    Metered InputPort := do
  let queue := grown p.queue
  assertThat (¬ queue.full) "not _queues[i].full()"
  if buffer.length = 0 then return { p with queue }
  let queue := queue.pushBack buffer
  let p ← updateMetered clock
    { p with queue, enqueuedBytes := p.enqueuedBytes + buffer.length }
  if queue.items.length ≤ 1 then return p
  return { p with
    queue := queue.replace (dropStitched (stitchLoop queue.items))
      (stitched_size queue) }

/-- `consume(i, items_consumed)`. -/
def consumeMetered (clock : Nat → Int) (itemsConsumed : Nat) (p : InputPort) :
    Metered InputPort :=
  let bytesConsumed := itemsConsumed * p.itemsSize
  let queue := p.queue
  match queue.items with
  | [] => throw (.assertFail "not _queues[i].empty()")
  | front :: _ => do
      assertThat (bytesConsumed % p.itemsSize = 0)
        "(bytes_consumed % _items_sizes[i]) == 0"
      assertThat (bytesConsumed ≤ front.length) "front.length >= bytes_consumed"
      assertThat ((front.length - bytesConsumed) % p.itemsSize = 0)
        "(_queues[i].front().length % _items_sizes[i]) == 0"
      let queue := queue.replace (drained bytesConsumed queue.items)
        (drained_size bytesConsumed queue)
      assertThat (bytesConsumed ≤ p.enqueuedBytes)
        "_enqueued_bytes[i] >= bytes_consumed"
      let p ← updateMetered clock
        { p with queue, enqueuedBytes := p.enqueuedBytes - bytesConsumed }
      return { p with
        queue := queue.replace (unstitch queue.items) (unstitched_size queue) }

/-- More preload than before. -/
def morePreloadMetered (clock : Nat → Int) (preloadBytes : Nat)
    (p : InputPort) : Metered InputPort :=
  if preloadBytes ≤ p.preloadBytes then return p
  else
    match p.auxQueue with
    | none => throw (.nullPointer "_aux_queues[i]")
    | some aux =>
        match aux.buffers with
        | [] => throw (.nullPointer "_aux_queues[i]->front()")
        | buff :: buffers =>
            { p with auxQueue := some { aux with buffers } }.pushMetered clock
              { buff with offset := 0, length := preloadBytes - p.preloadBytes }

/-- Less preload than before. -/
def lessPreloadMetered (clock : Nat → Int) (preloadBytes : Nat)
    (p : InputPort) : Metered InputPort :=
  if preloadBytes < p.preloadBytes then
    p.consumeMetered clock (min (p.preloadBytes - preloadBytes) p.enqueuedBytes)
  else return p

/-- `update_config(i, item_size, preload_bytes, reserve_bytes, maximum_bytes)`,
less the zeros it writes to memory. -/
def updateConfigMetered (clock : Nat → Int) (fresh : AuxAllocations)
    (itemSize preloadBytes reserveBytes maximumBytes : Nat) (p : InputPort) :
    Metered InputPort := do
  assertThat (itemSize ≠ 0) "item_size != 0"
  let maximum := p.configuredMaximum reserveBytes maximumBytes
  let p := { p with
    itemsSize := itemSize
    maximumBytes := maximum
    auxQueue := some (p.configuredAux fresh maximum) }
  let p ← p.morePreloadMetered clock preloadBytes
  let p ← p.lessPreloadMetered clock preloadBytes
  { p with preloadBytes, reserveBytes }.updateMetered clock

end InputPort

/-! ## Output ports -/

namespace OutputPort

/-- Write the idle times back. -/
def setIdleTimes (s : IdleTimes) (p : OutputPort) : OutputPort :=
  { p with
    bit := s.ready
    totalIdleTime := s.total
    becameIdleTime := s.became
    initTime := s.init }

/-- What `_update` sees: is there space, and the port it has looked at the front
of. -/
def hasSpace (p : OutputPort) : Checked (Bool × OutputPort) :=
  match p.queue with
  | none => pure (false, p)
  | some q =>
      if q.empty then pure (false, p)
      else do
        let (front, q) ← q.front
        pure (decide (p.reserveBytes ≤ available front),
          { p with queue := some q })

/-- `_update(i)`. -/
def updateMetered (clock : Nat → Int) (p : OutputPort) :
    Metered OutputPort := do
  let (isReady, p) ← p.hasSpace
  let s ← p.idleTimes.account clock isReady
  return p.setIdleTimes s

/-- `set_buffer_queue(i, queue)`. -/
def setBufferQueueMetered (clock : Nat → Int) (q : Option BufferQueue)
    (p : OutputPort) : Metered OutputPort :=
  { p with queue := q }.updateMetered clock

/-- `set_reserve_bytes(i, num_bytes)`. -/
def setReserveBytesMetered (clock : Nat → Int) (numBytes : Nat)
    (p : OutputPort) : Metered OutputPort :=
  match p.queue with
  | none => return { p with reserveBytes := numBytes }
  | some _ => { p with reserveBytes := numBytes }.updateMetered clock

/-- `push(i, buff)`. -/
def pushMetered (clock : Nat → Int) (buff : SBuffer) (p : OutputPort) :
    Metered OutputPort :=
  match p.queue with
  | none => return p
  | some q => do
      let q ← q.push buff
      { p with queue := some q }.updateMetered clock

/-- `pop(i)`. -/
def popMetered (clock : Nat → Int) (p : OutputPort) : Metered OutputPort :=
  match p.inlineBuffer with
  | some _ => return { p with inlineBuffer := none }
  | none =>
      match p.queue with
      | none => throw (.assertFail "_queues[i]")
      | some q => do
          assertThat (q.empty = false) "not _queues[i]->empty()"
          let q ← q.pop
          { p with queue := some q }.updateMetered clock

/-- `consume(i)`. -/
def consumeMetered (clock : Nat → Int) (p : OutputPort) : Metered OutputPort :=
  match p.inlineBuffer with
  | some _ => return { p with inlineBuffer := none }
  | none => do
      assertThat (p.empty = false) "not this->empty(i)"
      let (buff, p) ← p.front
      if buff.length = 0 then return p
      let p := p.setFront
        { buff with offset := buff.offset + buff.length, length := 0 }
      p.popMetered clock

/-- `fail(i)`. -/
def failMetered (clock : Nat → Int) (p : OutputPort) : Metered OutputPort := do
  let now ← timeNow clock
  return { p with bit := false, becameIdleTime := now }

end OutputPort

/-! ## A clock that stands still -/

/-- What is left of a computation without its meter. -/
def Metered.Still {α : Type} (x : Metered α) (y : Checked α) : Prop :=
  ∀ m, (x m).map Prod.fst = y

namespace Metered

variable {α β : Type}

theorem still_pure (a : α) : Still (pure a) (pure a) := fun _ => rfl

theorem still_throw (f : Fault) : Still (throw f : Metered α) (throw f) :=
  fun _ => rfl

theorem still_lift (y : Checked α) : Still (liftM y) y := by
  intro m
  cases y <;> rfl

theorem Still.bind {x : Metered α} {y : Checked α} {f : α → Metered β}
    {g : α → Checked β} (h : Still x y) (hf : ∀ a, Still (f a) (g a)) :
    Still (x >>= f) (y >>= g) := by
  intro m
  have hrun : (x >>= f) m = x m >>= fun r => f r.1 r.2 := rfl
  rw [hrun, ← h m]
  cases x m with
  | error e => rfl
  | ok r => exact hf r.1 r.2

end Metered

open Metered

/-- The end of `_update` with one reading. -/
theorem IdleTimes.account_still (now : Int) (isReady : Bool) (s : IdleTimes) :
    Still (s.account (fun _ => now) isReady) (do
      assertThat ((s.setReady now isReady).total ≤ now - s.init)
        "total_idle_times[i] <= (time_now() - _init_time)"
      return s.setReady now isReady) := by
  obtain ⟨ready, total, became, init⟩ := s
  -- The clock is read for the `ASSERT` last, whatever has been read before.
  have hassert : ∀ s' : IdleTimes, Still (do
      let now ← timeNow fun _ => now
      assertThat (s'.total ≤ now - s'.init)
        "total_idle_times[i] <= (time_now() - _init_time)"
      return s' : Metered IdleTimes) (do
        assertThat (s'.total ≤ now - s'.init)
          "total_idle_times[i] <= (time_now() - _init_time)"
        return s') := fun s' m =>
    Still.bind (still_lift _) (fun _ => still_pure s') ⟨m.reads + 1, m.added⟩
  intro m
  cases isReady with
  | true =>
      cases ready with
      | true => exact hassert ⟨true, total, became, init⟩ m
      | false =>
          exact hassert ⟨true, total + (now - became), became, init⟩
            ⟨m.reads + 1, ⟨became, now⟩ :: m.added⟩
  | false =>
      cases ready with
      | true => exact hassert ⟨false, total, now, init⟩ ⟨m.reads + 1, m.added⟩
      | false => exact hassert ⟨false, total, became, init⟩ m

namespace InputPort

variable (now : Int) (p : InputPort)

theorem updateMetered_still :
    Still (p.updateMetered fun _ => now) (p.update now) := by
  refine fun m =>
    (Still.bind (IdleTimes.account_still now _ _)
      (fun s => still_pure _) m).trans ?_
  simp only [bind_assoc, pure_bind]
  rfl

theorem updateHasMsgMetered_still (has : Bool) :
    Still (p.updateHasMsgMetered (fun _ => now) has)
      (p.updateHasMsg now has) := by
  cases has with
  | true => exact still_pure _
  | false => exact p.updateMetered_still now

theorem failMetered_still :
    Still (p.failMetered fun _ => now) (pure (p.fail now)) := fun _ => rfl

theorem flushMetered_still :
    Still (p.flushMetered fun _ => now) (p.flush now) :=
  updateMetered_still now _

theorem pushMetered_still (buffer : SBuffer) :
    Still (p.pushMetered (fun _ => now) buffer) (p.push now buffer) := by
  refine (still_lift _).bind fun _ => ?_
  dsimp only
  split
  · exact still_pure _
  · refine Still.bind (updateMetered_still now _) fun p' => ?_
    split
    · exact still_pure _
    · exact still_pure _

theorem consumeMetered_still (items : Nat) :
    Still (p.consumeMetered (fun _ => now) items) (p.consume now items) := by
  obtain ⟨bit, itemsSize, enqueued, reserve, maximum, queue, preload, aux,
      copied, total, became,
    init⟩ := p
  obtain ⟨capacity, buffers, hsize⟩ := queue
  cases buffers with
  | nil => exact still_throw _
  | cons front rest =>
      refine (still_lift _).bind fun _ => (still_lift _).bind fun _ => ?_
      refine (still_lift _).bind fun _ => (still_lift _).bind fun _ => ?_
      exact Still.bind (updateMetered_still now _) fun p' => still_pure _

/-- The memory that is written has no part in it. -/
theorem morePreloadMetered_still (preload : Nat) (memory : Memory) :
    Still (p.morePreloadMetered (fun _ => now) preload)
      ((p.morePreload now preload memory).map Prod.fst) := by
  unfold morePreloadMetered morePreload
  split
  · exact still_pure _
  · cases p.auxQueue with
    | none => exact still_throw _
    | some aux =>
        obtain ⟨token, buffers⟩ := aux
        cases buffers with
        | nil => exact still_throw _
        | cons buff buffers =>
            intro m
            refine (pushMetered_still now _ _ m).trans ?_
            dsimp only
            cases push now _ _ <;> rfl

theorem lessPreloadMetered_still (preload : Nat) :
    Still (p.lessPreloadMetered (fun _ => now) preload)
      (p.lessPreload now preload) := by
  unfold lessPreloadMetered lessPreload
  split
  · exact p.consumeMetered_still now _
  · exact still_pure _

theorem updateConfigMetered_still (fresh : AuxAllocations)
    (itemSize preload reserve maximum : Nat) (memory : Memory) :
    Still (p.updateConfigMetered (fun _ => now) fresh itemSize preload reserve maximum)
      ((p.updateConfig now fresh itemSize preload reserve maximum memory).map Prod.fst) := by
  have hsplit : (p.updateConfig now fresh itemSize preload reserve maximum memory).map Prod.fst =
      (do
      assertThat (itemSize ≠ 0) "item_size != 0"
      let maximum := p.configuredMaximum reserve maximum
      let p := { p with
        itemsSize := itemSize
        maximumBytes := maximum
        auxQueue := some (p.configuredAux fresh maximum) }
      let p ← (p.morePreload now preload memory).map Prod.fst
      let p ← p.lessPreload now preload
      { p with preloadBytes := preload, reserveBytes := reserve }.update now) := by
    unfold updateConfig
    cases assertThat (itemSize ≠ 0) "item_size != 0" with
    | error f => rfl
    | ok _ =>
        simp only [Checked.ok_bind]
        cases morePreload now preload memory _ with
        | error f => rfl
        | ok r =>
            simp only [Checked.ok_bind, Except.map]
            cases lessPreload now preload r.1 with
            | error f => rfl
            | ok p₂ =>
                simp only [Checked.ok_bind]
                cases update now _ <;> rfl
  rw [hsplit]
  refine (still_lift _).bind fun _ => ?_
  refine Still.bind (morePreloadMetered_still now _ preload memory) fun p₁ => ?_
  refine Still.bind (lessPreloadMetered_still now p₁ preload) fun p₂ => ?_
  exact updateMetered_still now _

end InputPort

namespace OutputPort

variable (now : Int) (p : OutputPort)

theorem update_eq : p.update now = p.hasSpace >>= fun r => do
    let p := r.2.setReady now r.1
    assertThat (p.totalIdleTime ≤ now - p.initTime)
      "total_idle_times[i] <= (time_now() - _init_time)"
    return p := by
  unfold update hasSpace
  cases p.queue with
  | none => rfl
  | some q =>
      dsimp only
      split
      · rfl
      · cases q.front <;> rfl

theorem updateMetered_still :
    Still (p.updateMetered fun _ => now) (p.update now) := by
  rw [update_eq]
  refine Still.bind (still_lift p.hasSpace) fun r => ?_
  refine fun m =>
    (Still.bind (IdleTimes.account_still now _ _)
      (fun s => still_pure _) m).trans ?_
  simp only [bind_assoc, pure_bind]
  rfl

theorem failMetered_still :
    Still (p.failMetered fun _ => now) (pure (p.fail now)) := fun _ => rfl

theorem setBufferQueueMetered_still (q : Option BufferQueue) :
    Still (p.setBufferQueueMetered (fun _ => now) q) (p.setBufferQueue now q) :=
  updateMetered_still now _

theorem setReserveBytesMetered_still (numBytes : Nat) :
    Still (p.setReserveBytesMetered (fun _ => now) numBytes)
      (p.setReserveBytes now numBytes) := by
  unfold setReserveBytesMetered setReserveBytes
  cases p.queue with
  | none => exact still_pure _
  | some q => exact updateMetered_still now _

theorem pushMetered_still (b : SBuffer) :
    Still (p.pushMetered (fun _ => now) b) (p.push now b) := by
  unfold pushMetered push
  cases p.queue with
  | none => exact still_pure _
  | some q => exact (still_lift _).bind fun q' => updateMetered_still now _

theorem popMetered_still : Still (p.popMetered fun _ => now) (p.pop now) := by
  unfold popMetered pop
  cases p.inlineBuffer with
  | some b => exact still_pure _
  | none =>
      cases p.queue with
      | none => exact still_throw _
      | some q =>
          refine (still_lift _).bind fun _ => (still_lift _).bind fun q' => ?_
          exact updateMetered_still now _

theorem consumeMetered_still :
    Still (p.consumeMetered fun _ => now) (p.consume now) := by
  unfold consumeMetered consume
  cases p.inlineBuffer with
  | some b => exact still_pure _
  | none =>
      refine (still_lift _).bind fun _ => (still_lift _).bind fun r => ?_
      dsimp only
      split
      · exact still_pure _
      · exact popMetered_still now _

end OutputPort

/-! ## What a computation does to the meter -/

/-- If the computation succeeds its result is as said, and if it throws it is
not the `ASSERT` on the idle times. -/
def Metered.Meets {α : Type} (x : Metered α) (m : Meter)
    (post : α → Meter → Prop) : Prop :=
  match x m with
  | .ok (a, m') => post a m'
  | .error f => f ≠ idleFault

namespace Metered

variable {α β : Type} {x : Metered α} {m : Meter}
  {post post' : α → Meter → Prop}

theorem Meets.of_ok (h : x.Meets m post) {a : α} {m' : Meter}
    (hx : x m = .ok (a, m')) : post a m' := by
  rw [Meets, hx] at h
  exact h

theorem Meets.ne_idleFault (h : x.Meets m post) : x m ≠ .error idleFault := by
  intro hx
  rw [Meets, hx] at h
  exact h rfl

theorem Meets.mono (h : x.Meets m post)
    (hpost : ∀ a m', post a m' → post' a m') : x.Meets m post' := by
  unfold Meets at h ⊢
  split at h
  · exact hpost _ _ h
  · exact h

theorem meets_pure {a : α} (h : post a m) :
    (pure a : Metered α).Meets m post := h

theorem meets_throw {f : Fault} (h : f ≠ idleFault) :
    (throw f : Metered α).Meets m post := h

theorem meets_bind {f : α → Metered β} {post : β → Meter → Prop}
    (h : x.Meets m fun a m' => (f a).Meets m' post) :
    (x >>= f).Meets m post := by
  have hrun : (x >>= f) m = x m >>= fun r => f r.1 r.2 := rfl
  unfold Meets at h ⊢
  rw [hrun]
  cases hx : x m with
  | error f =>
      rw [hx] at h
      exact h
  | ok r =>
      rw [hx] at h
      exact h

theorem meets_lift {y : Checked α} (hfault : y ≠ .error idleFault)
    (h : ∀ a, y = .ok a → post a m) : (liftM y : Metered α).Meets m post := by
  cases hy : y with
  | error f => exact fun heq => hfault (hy.trans (congrArg _ heq))
  | ok a => exact h a hy

/-- Another `ASSERT`. -/
theorem meets_assertThat {c : Prop} [Decidable c] {text : String}
    {post : Unit → Meter → Prop}
    (htext : text ≠ "total_idle_times[i] <= (time_now() - _init_time)")
    (h : c → post () m) :
    (liftM (assertThat c text) : Metered Unit).Meets m post := by
  refine meets_lift (fun hfault => ?_) fun _ hok => h (assertThat_eq_ok.mp hok)
  unfold assertThat at hfault
  split at hfault
  · cases hfault
  · exact htext (Fault.assertFail.inj (Except.error.inj hfault))

end Metered

/-! ## What has been added -/

/-- The total is what the spans add up to.  They follow each other since the
port was made, until it became idle when it is idle, and until the next reading
of the clock otherwise. -/
structure Accounted (clock : Nat → Int) (s : IdleTimes) (m : Meter) : Prop where
  total : s.total = Span.total m.added
  became : s.became ≤ clock m.reads
  spans : Span.InTurn s.init
    (if s.ready then clock m.reads else s.became) m.added

/-- The times are accounted for, and the clock has not been turned back. -/
structure Keeps (clock : Nat → Int) (s : IdleTimes) (m : Meter) (s' : IdleTimes)
    (m' : Meter) : Prop where
  init : s'.init = s.init
  reads : m.reads ≤ m'.reads
  accounted : Accounted clock s' m'

section Accounted

variable {clock : Nat → Int} {s s' s'' : IdleTimes} {m m' m'' : Meter}

theorem Accounted.keeps (h : Accounted clock s m) : Keeps clock s m s m :=
  ⟨rfl, Nat.le_refl _, h⟩

theorem Keeps.trans (h : Keeps clock s m s' m')
    (h' : Keeps clock s' m' s'' m'') : Keeps clock s m s'' m'' :=
  ⟨h'.init.trans h.init, Nat.le_trans h.reads h'.reads, h'.accounted⟩

/-- Whether idle or not, the spans are over when the clock is read next. -/
theorem Accounted.until_next (h : Accounted clock s m) :
    Span.InTurn s.init (clock m.reads) m.added := by
  have hspans := h.spans
  split at hspans
  · exact hspans
  · exact hspans.mono h.became

/-- What the `ASSERT` asks for. -/
theorem Accounted.total_le (h : Accounted clock s m) :
    s.total ≤ clock m.reads - s.init :=
  h.total ▸ h.until_next.total_le

/-- Ready without a word. -/
theorem Accounted.ready (h : Accounted clock s m) :
    Accounted clock { s with ready := true } m :=
  ⟨h.total, h.became, h.until_next⟩

section Monotone

variable (hclock : Monotone clock)

include hclock

/-- A port is made. -/
theorem accounted_resized {init : Int} {k n : Nat} (hinit : init ≤ clock k)
    (hn : k ≤ n) : Accounted clock ⟨false, 0, clock k, init⟩ ⟨n, []⟩ :=
  ⟨rfl, hclock hn, .none hinit⟩

/-- The clock is read elsewhere. -/
theorem Accounted.later (h : Accounted clock s m) {reads : Nat}
    (hle : m.reads ≤ reads) : Accounted clock s { m with reads := reads } := by
  refine ⟨h.total, h.became.trans (hclock hle), ?_⟩
  have hspans := h.spans
  cases hready : s.ready with
  | true =>
      rw [hready] at hspans
      exact hspans.mono (hclock hle)
  | false =>
      rw [hready] at hspans
      exact hspans

/-- A port that fails, or that is no longer ready, is idle from now on. -/
theorem Accounted.idle (h : Accounted clock s m) :
    Accounted clock { s with ready := false, became := clock m.reads }
      { m with reads := m.reads + 1 } :=
  ⟨h.total, hclock (Nat.le_succ _), h.until_next⟩

/-- A port that was idle is ready. -/
theorem Accounted.busy (h : Accounted clock s m) (hready : s.ready = false) :
    Accounted clock { s with ready := true, total := s.total + (clock m.reads - s.became) }
      ⟨m.reads + 1, ⟨s.became, clock m.reads⟩ :: m.added⟩ := by
  refine ⟨?_, h.became.trans (hclock (Nat.le_succ _)), ?_⟩
  · show s.total + (clock m.reads - s.became) = Span.total (_ :: m.added)
    rw [h.total]
    simp [Span.total, Int.add_comm]
  · have hspans := h.spans
    rw [hready] at hspans
    exact .next hspans h.became (hclock (Nat.le_succ _))

/-- The `ASSERT` reads the clock, and holds. -/
theorem Accounted.assert (h : Accounted clock s' m') (hinit : s'.init = s.init)
    (hreads : m.reads ≤ m'.reads) :
    (do
      let now ← timeNow clock
      assertThat (s'.total ≤ now - s'.init) "total_idle_times[i] <= (time_now() - _init_time)"
      return s' : Metered IdleTimes).Meets m' (Keeps clock s m) := by
  have hrun : (do
      let now ← timeNow clock
      assertThat (s'.total ≤ now - s'.init)
        "total_idle_times[i] <= (time_now() - _init_time)"
      return s' : Metered IdleTimes) m' =
          .ok (s', { m' with reads := m'.reads + 1 }) := by
    have hassert :=
      assertThat_of h.total_le
        "total_idle_times[i] <= (time_now() - _init_time)"
    simp only [bind, StateT.bind, timeNow, liftM, monadLift,
      MonadLift.monadLift, StateT.lift, hassert, Except.bind]
    rfl
  unfold Metered.Meets
  rw [hrun]
  exact ⟨hinit, Nat.le_trans hreads (Nat.le_succ _),
    h.later hclock (Nat.le_succ _)⟩

/-- **The end of `_update` never fails**, and what it adds is accounted for. -/
theorem Accounted.account (h : Accounted clock s m) (isReady : Bool) :
    (s.account clock isReady).Meets m (Keeps clock s m) := by
  cases isReady with
  | true =>
      cases hready : s.ready with
      | true =>
          have hrest := h.ready.assert (s := s) (m := m) hclock rfl (Nat.le_refl _)
          unfold IdleTimes.account
          rw [hready]
          exact hrest
      | false =>
          have hrest := (h.busy hclock hready).assert (s := s) (m := m) hclock rfl (Nat.le_succ _)
          unfold IdleTimes.account
          rw [hready]
          exact hrest
  | false =>
      cases hready : s.ready with
      | true =>
          have hrest :=
            (h.idle hclock).assert (s := s) (m := m) hclock rfl (Nat.le_succ _)
          unfold IdleTimes.account
          rw [hready]
          exact hrest
      | false =>
          have hsame : ({ s with ready := false } : IdleTimes) = s := by
            rw [← hready]
          have hrest :=
            (hsame ▸ h).assert (s := s) (m := m) hclock rfl (Nat.le_refl _)
          unfold IdleTimes.account
          rw [hready]
          exact hrest

end Monotone

end Accounted

/-! ## The operations -/

/-- From a port with these times on, a computation keeps its times accounted
for. -/
def Metered.Accounts {P : Type} (clock : Nat → Int) (times : P → IdleTimes)
    (s : IdleTimes) (x : Metered P) : Prop :=
  ∀ m, Accounted clock s m → x.Meets m fun p m' => Keeps clock s m (times p) m'

namespace Metered

variable {P α : Type} {clock : Nat → Int} {times : P → IdleTimes}
  {s : IdleTimes}

theorem accounts_pure {p : P} (h : times p = s) :
    Accounts clock times s (pure p) := by
  intro m hm
  exact meets_pure (h ▸ hm.keeps)

theorem accounts_throw {f : Fault} (h : f ≠ idleFault) :
    Accounts clock times s (throw f) :=
  fun _ _ => meets_throw h

/-- One computation after the other. -/
theorem Accounts.bind {x : Metered P} {f : P → Metered P}
    (hx : Accounts clock times s x)
    (hf : ∀ p, Accounts clock times (times p) (f p)) :
    Accounts clock times s (x >>= f) := by
  intro m hm
  refine meets_bind ((hx m hm).mono fun p m' hp => ?_)
  exact (hf p m' hp.accounted).mono fun p' m'' hp' => hp.trans hp'

/-- What does not look at the clock comes first. -/
theorem accounts_lift {y : Checked α} {f : α → Metered P}
    (hfault : y ≠ .error idleFault)
    (hf : ∀ a, y = .ok a → Accounts clock times s (f a)) :
    Accounts clock times s (liftM y >>= f) :=
  fun m hm => meets_bind (meets_lift hfault fun a ha => hf a ha m hm)

/-- Another `ASSERT` comes first. -/
theorem accounts_assertThat {c : Prop} [Decidable c] {text : String}
    {f : Unit → Metered P}
    (htext : text ≠ "total_idle_times[i] <= (time_now() - _init_time)")
    (hf : Accounts clock times s (f ())) :
    Accounts clock times s (liftM (assertThat c text) >>= f) :=
  fun m hm => meets_bind (meets_assertThat htext fun _ => hf m hm)

end Metered

namespace InputPort

variable {clock : Nat → Int} {s : IdleTimes} {p : InputPort}
  (hclock : Monotone clock) (hs : p.idleTimes = s)

include hclock hs

theorem updateMetered_accounts :
    Accounts clock idleTimes s (p.updateMetered clock) := by
  subst hs
  intro m hm
  refine meets_bind ((hm.account hclock _).mono fun s m' hs => ?_)
  exact meets_pure hs

theorem updateHasMsgMetered_accounts (has : Bool) :
    Accounts clock idleTimes s (p.updateHasMsgMetered clock has) := by
  unfold updateHasMsgMetered
  split
  · subst hs
    intro m hm
    exact meets_pure ⟨rfl, Nat.le_refl _, hm.ready⟩
  · exact updateMetered_accounts hclock hs

theorem failMetered_accounts :
    Accounts clock idleTimes s (p.failMetered clock) := by
  subst hs
  intro m hm
  show Keeps clock p.idleTimes m _ _
  exact ⟨rfl, Nat.le_succ _, hm.idle hclock⟩

theorem flushMetered_accounts :
    Accounts clock idleTimes s (p.flushMetered clock) :=
  updateMetered_accounts hclock hs

theorem pushMetered_accounts (buffer : SBuffer) :
    Accounts clock idleTimes s (p.pushMetered clock buffer) := by
  refine accounts_assertThat (by decide) ?_
  split
  · exact accounts_pure hs
  · refine Accounts.bind (updateMetered_accounts hclock hs) fun p' => ?_
    split
    · exact accounts_pure rfl
    · exact accounts_pure rfl

theorem consumeMetered_accounts (items : Nat) :
    Accounts clock idleTimes s (p.consumeMetered clock items) := by
  unfold consumeMetered
  dsimp only
  split
  · exact accounts_throw (by decide)
  · refine accounts_assertThat (by decide) (accounts_assertThat (by decide) ?_)
    refine accounts_assertThat (by decide) (accounts_assertThat (by decide) ?_)
    refine Accounts.bind (updateMetered_accounts hclock hs) fun p' => ?_
    exact accounts_pure rfl

theorem morePreloadMetered_accounts (preload : Nat) :
    Accounts clock idleTimes s (p.morePreloadMetered clock preload) := by
  unfold morePreloadMetered
  split
  · exact accounts_pure hs
  · split
    · exact accounts_throw (by decide)
    · split
      · exact accounts_throw (by decide)
      · refine pushMetered_accounts hclock ?_ _
        exact hs

theorem lessPreloadMetered_accounts (preload : Nat) :
    Accounts clock idleTimes s (p.lessPreloadMetered clock preload) := by
  unfold lessPreloadMetered
  split
  · exact consumeMetered_accounts hclock hs _
  · exact accounts_pure hs

theorem updateConfigMetered_accounts (fresh : AuxAllocations)
    (itemSize preload reserve
    maximum : Nat) : Accounts clock idleTimes s
      (p.updateConfigMetered clock fresh itemSize preload reserve maximum) := by
  refine accounts_assertThat (by decide) ?_
  refine Accounts.bind (morePreloadMetered_accounts hclock ?_ preload)
    fun p₁ => ?_
  · exact hs
  · refine Accounts.bind (lessPreloadMetered_accounts hclock rfl preload)
      fun p₂ => ?_
    exact updateMetered_accounts hclock rfl

end InputPort

/-! ### Other faults -/

section Other

variable {α β : Type}

/-- Not the `ASSERT` on the idle times. -/
def OtherFaults (x : Checked α) : Prop := x ≠ .error idleFault

theorem otherFaults_pure (a : α) : OtherFaults (pure a) := fun h => nomatch h

theorem otherFaults_throw {f : Fault} (h : f ≠ idleFault) :
    OtherFaults (throw f : Checked α) :=
  fun heq => h (Except.error.inj heq)

theorem otherFaults_assertThat {c : Prop} [Decidable c] {text : String}
    (htext : text ≠ "total_idle_times[i] <= (time_now() - _init_time)") :
    OtherFaults (assertThat c text) := by
  intro h
  unfold assertThat at h
  split at h
  · cases h
  · exact htext (Fault.assertFail.inj (Except.error.inj h))

theorem OtherFaults.bind {x : Checked α} {f : α → Checked β}
    (hx : OtherFaults x) (hf : ∀ a, OtherFaults (f a)) :
    OtherFaults (x >>= f) := by
  cases x with
  | error fault => exact fun h => hx (congrArg _ (Except.error.inj h))
  | ok a => exact hf a

end Other

namespace BufferQueue

variable (q : BufferQueue) (b : SBuffer)

theorem front_otherFaults : OtherFaults q.front := by
  cases q with
  | pool q =>
      refine OtherFaults.bind ?_ fun _ => otherFaults_pure _
      unfold BufferQueuePool.front
      split
      · exact otherFaults_throw (by decide)
      · exact otherFaults_pure _
  | circ q =>
      refine OtherFaults.bind ?_ fun _ => otherFaults_pure _
      unfold BufferQueueCirc.front
      split
      · exact otherFaults_throw (by decide)
      · refine (otherFaults_assertThat (by decide)).bind fun _ => ?_
        refine (otherFaults_assertThat (by decide)).bind fun _ => ?_
        exact (otherFaults_assertThat (by decide)).bind fun _ =>
          otherFaults_pure _

theorem pop_otherFaults : OtherFaults q.pop := by
  cases q with
  | pool q =>
      refine OtherFaults.bind ?_ fun _ => otherFaults_pure _
      unfold BufferQueuePool.pop
      split
      · exact otherFaults_throw (by decide)
      · split
        · exact otherFaults_pure _
        · exact otherFaults_pure _
  | circ q =>
      refine OtherFaults.bind ?_ fun _ => otherFaults_pure _
      unfold BufferQueueCirc.pop
      split
      · exact otherFaults_throw (by decide)
      · refine (otherFaults_assertThat (by decide)).bind fun _ => ?_
        refine (otherFaults_assertThat (by decide)).bind fun _ => ?_
        exact (otherFaults_assertThat (by decide)).bind fun _ =>
          otherFaults_pure _

theorem push_otherFaults : OtherFaults (q.push b) := by
  cases q with
  | pool q =>
      refine OtherFaults.bind ?_ fun _ => otherFaults_pure _
      unfold BufferQueuePool.push
      split
      · exact otherFaults_pure _
      · exact (otherFaults_assertThat (by decide)).bind fun _ =>
          otherFaults_pure _
  | circ q =>
      refine OtherFaults.bind ?_ fun _ => otherFaults_pure _
      unfold BufferQueueCirc.push
      split
      · exact otherFaults_pure _
      · exact (otherFaults_assertThat (by decide)).bind fun _ =>
          otherFaults_pure _

end BufferQueue

namespace OutputPort

theorem front_otherFaults (p : OutputPort) : OtherFaults p.front := by
  unfold OutputPort.front
  split
  · exact otherFaults_pure _
  · split
    · exact otherFaults_throw (by decide)
    · rename_i q _
      refine (otherFaults_assertThat (by decide)).bind fun _ => ?_
      exact q.front_otherFaults.bind fun _ => otherFaults_pure _

theorem hasSpace_otherFaults (p : OutputPort) : OtherFaults p.hasSpace := by
  unfold hasSpace
  split
  · exact otherFaults_pure _
  · rename_i q _
    split
    · exact otherFaults_pure _
    · exact q.front_otherFaults.bind fun _ => otherFaults_pure _

/-- Looking does not change the times. -/
theorem hasSpace_idleTimes {p p' : OutputPort} {isReady : Bool}
    (h : p.hasSpace = .ok (isReady, p')) : p'.idleTimes = p.idleTimes := by
  unfold hasSpace at h
  split at h
  · simp only [Checked.pure_eq_ok, Prod.mk.injEq] at h
    rw [h.2]
  · split at h
    · simp only [Checked.pure_eq_ok, Prod.mk.injEq] at h
      rw [h.2]
    · simp only [Checked.bind_eq_ok, Checked.pure_eq_ok, Prod.mk.injEq] at h
      obtain ⟨_, _, -, rfl⟩ := h
      rfl

theorem front_idleTimes {p p' : OutputPort} {b : SBuffer}
    (h : p.front = .ok (b, p')) : p'.idleTimes = p.idleTimes := by
  unfold OutputPort.front at h
  split at h
  · simp only [Checked.pure_eq_ok, Prod.mk.injEq] at h
    rw [h.2]
  · split at h
    · simp at h
    · simp only [Checked.bind_eq_ok, Checked.pure_eq_ok, Prod.mk.injEq] at h
      obtain ⟨-, -, _, _, -, rfl⟩ := h
      rfl

theorem setFront_idleTimes (p : OutputPort) (b : SBuffer) :
    (p.setFront b).idleTimes = p.idleTimes := by
  unfold setFront
  split
  · rfl
  · rfl

variable {clock : Nat → Int} {s : IdleTimes} {p : OutputPort}
  (hclock : Monotone clock) (hs : p.idleTimes = s)

include hclock hs

theorem updateMetered_accounts :
    Accounts clock idleTimes s (p.updateMetered clock) := by
  subst hs
  refine accounts_lift p.hasSpace_otherFaults fun r hr => ?_
  obtain ⟨isReady, p'⟩ := r
  rw [← hasSpace_idleTimes hr]
  intro m hm
  refine meets_bind ((hm.account hclock _).mono fun s m' hs => ?_)
  exact meets_pure hs

theorem setBufferQueueMetered_accounts (q : Option BufferQueue) :
    Accounts clock idleTimes s (p.setBufferQueueMetered clock q) :=
  updateMetered_accounts hclock hs

theorem setReserveBytesMetered_accounts (numBytes : Nat) :
    Accounts clock idleTimes s (p.setReserveBytesMetered clock numBytes) := by
  unfold setReserveBytesMetered
  split
  · exact accounts_pure hs
  · exact updateMetered_accounts hclock hs

theorem pushMetered_accounts (b : SBuffer) :
    Accounts clock idleTimes s (p.pushMetered clock b) := by
  unfold pushMetered
  split
  · exact accounts_pure hs
  · rename_i q _
    exact accounts_lift (q.push_otherFaults b) fun q' _ =>
      updateMetered_accounts hclock hs

theorem popMetered_accounts :
    Accounts clock idleTimes s (p.popMetered clock) := by
  unfold popMetered
  split
  · exact accounts_pure hs
  · split
    · exact accounts_throw (by decide)
    · rename_i q _
      refine accounts_assertThat (by decide) ?_
      exact accounts_lift q.pop_otherFaults fun q' _ =>
        updateMetered_accounts hclock hs

theorem consumeMetered_accounts :
    Accounts clock idleTimes s (p.consumeMetered clock) := by
  unfold consumeMetered
  split
  · exact accounts_pure hs
  · refine accounts_assertThat (by decide)
      (accounts_lift p.front_otherFaults fun r hr => ?_)
    obtain ⟨b, p'⟩ := r
    have hp' : p'.idleTimes = s := (front_idleTimes hr).trans hs
    dsimp only
    split
    · exact accounts_pure hp'
    · exact popMetered_accounts hclock ((p'.setFront_idleTimes _).trans hp')

theorem failMetered_accounts :
    Accounts clock idleTimes s (p.failMetered clock) := by
  subst hs
  intro m hm
  show Keeps clock p.idleTimes m _ _
  exact ⟨rfl, Nat.le_succ _, hm.idle hclock⟩

omit hclock in
theorem setInline_accounts (b : SBuffer) :
    Accounts clock idleTimes s
      (liftM (p.setInline b) : Metered OutputPort) := by
  subst hs
  intro m hm
  have hfaults : OtherFaults (p.setInline b) :=
    (otherFaults_assertThat (by decide)).bind fun _ => otherFaults_pure _
  refine meets_lift hfaults fun p' hp' => ?_
  simp only [setInline, Checked.bind_eq_ok, Checked.pure_eq_ok] at hp'
  obtain ⟨-, -, rfl⟩ := hp'
  exact ⟨rfl, Nat.le_refl _, hm.ready⟩

end OutputPort

end Gras
