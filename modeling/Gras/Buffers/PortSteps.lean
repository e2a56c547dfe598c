import Gras.Buffers.InputBufferQueues
import Gras.Buffers.UnusedBuffers

/-!
# The steps of a port

Whatever a block does to a port is one of a few operations (`InputPort.Step`,
`OutputPort.Step`).  Two invariants come from that:

* `IdleTimes.OnTime`: while the clock does not run backwards, a port was never
  idle for longer than it exists, which is the `ASSERT` of `_update`;
* `AtStart`: the buffers in a ring have no offset, which is the `ASSERT` of its
  `front`.
-/

namespace Gras

/-! ## Idle times -/

/-- What a port knows about being idle. -/
structure IdleTimes where
  ready : Bool
  total : Int
  became : Int
  init : Int

namespace IdleTimes

variable {s : IdleTimes} {t now : Int}

/-- The total fits into the time since the port was made. -/
structure OnTime (now : Int) (s : IdleTimes) : Prop where
  init : s.init ≤ now
  became : s.became ≤ now
  total : s.total ≤ now - s.init
  idle : s.ready = false → s.total ≤ s.became - s.init

/-- What `_update` does. -/
def setReady (now : Int) (isReady : Bool) (s : IdleTimes) : IdleTimes where
  ready := isReady
  total := if isReady && !s.ready then s.total + (now - s.became) else s.total
  became := if !isReady && s.ready then now else s.became
  init := s.init

/-- The clock runs on. -/
theorem OnTime.mono (hs : s.OnTime t) (hle : t ≤ now) : s.OnTime now := by
  obtain ⟨hinit, hbecame, htotal, hidle⟩ := hs
  exact ⟨by omega, by omega, by omega, hidle⟩

theorem OnTime.setReady (hs : s.OnTime now) (isReady : Bool) :
    (s.setReady now isReady).OnTime now := by
  obtain ⟨hinit, hbecame, htotal, hidle⟩ := hs
  cases isReady with
  | true =>
      cases hready : s.ready with
      | true => exact ⟨hinit, by simpa [IdleTimes.setReady] using hbecame,
          by simpa [IdleTimes.setReady, hready] using htotal, fun h => nomatch h⟩
      | false =>
          have := hidle hready
          refine ⟨hinit,
            by simpa [IdleTimes.setReady] using hbecame, ?_, fun h => nomatch h⟩
          simp only [IdleTimes.setReady, hready, Bool.not_false,
            Bool.and_self, if_true]
          omega
  | false =>
      cases hready : s.ready with
      | true =>
          refine ⟨hinit, by simp [IdleTimes.setReady, hready],
            by simpa [IdleTimes.setReady] using htotal, fun _ => ?_⟩
          simpa [IdleTimes.setReady, hready] using htotal
      | false =>
          refine ⟨hinit, by simpa [IdleTimes.setReady, hready] using hbecame,
            by simpa [IdleTimes.setReady] using htotal, fun _ => ?_⟩
          simpa [IdleTimes.setReady, hready] using hidle hready

/-- A port that is made ready without `_update`. -/
theorem OnTime.ready (hs : s.OnTime now) :
    ({ s with ready := true } : IdleTimes).OnTime now :=
  ⟨hs.init, hs.became, hs.total, fun h => nomatch h⟩

/-- A port that fails. -/
theorem OnTime.fail (hs : s.OnTime now) :
    ({ s with ready := false, became := now } : IdleTimes).OnTime now :=
  ⟨hs.init, Int.le_refl now, hs.total, fun _ => hs.total⟩

end IdleTimes

/-- What the rest of the program hands to the ports of a block. -/
structure Supply where
  /-- The buffers that arrive on an input. -/
  arrives : SBuffer → Prop
  /-- The buffers that come back to an output. -/
  returns : SBuffer → Prop
  /-- The queues of the outputs. -/
  queue : BufferQueue → Prop

/-! ## Input ports -/

namespace InputPort

/-- What a port knows about being idle. -/
def idleTimes (p : InputPort) : IdleTimes :=
  ⟨p.bit, p.totalIdleTime, p.becameIdleTime, p.initTime⟩

/-- One operation. -/
inductive Step (S : Supply) (now : Int) (p : InputPort) : InputPort → Prop where
  | accumulate {fresh : Allocation} {m m' : Memory} {p' : InputPort}
      (h : p.accumulate fresh m = .ok (p', m')) : Step S now p p'
  | push {buffer : SBuffer} {p' : InputPort} (hbuffer : S.arrives buffer)
      (h : p.push now buffer = .ok p') : Step S now p p'
  | consume {items : Nat} {p' : InputPort} (h : p.consume now items = .ok p') :
    Step S now p p'
  | updateHasMsg {has : Bool} {p' : InputPort}
    (h : p.updateHasMsg now has = .ok p') :
      Step S now p p'
  | fail : Step S now p (p.fail now)
  | flush {p' : InputPort} (h : p.flush now = .ok p') : Step S now p p'
  | updateConfig {fresh : AuxAllocations}
    {itemSize preload reserve maximum : Nat}
      {m m' : Memory} {p' : InputPort}
      (h : p.updateConfig now fresh itemSize preload reserve maximum m =
        .ok (p', m')) :
      Step S now p p'

variable {S : Supply} {p p' : InputPort} {now : Int}

theorem update_idleTimes (h : p.update now = .ok p') :
    ∃ isReady, p'.idleTimes = p.idleTimes.setReady now isReady := by
  simp only [update, Checked.bind_eq_ok, Checked.pure_eq_ok] at h
  obtain ⟨-, -, rfl⟩ := h
  exact ⟨_, rfl⟩

theorem update_onTime (hp : p.idleTimes.OnTime now)
    (h : p.update now = .ok p') : p'.idleTimes.OnTime now := by
  obtain ⟨isReady, heq⟩ := update_idleTimes h
  rw [heq]
  exact hp.setReady isReady

/-- **`__update` succeeds** while the clock does not run backwards. -/
theorem update_total (hp : p.idleTimes.OnTime now) :
    ∃ p', p.update now = .ok p' := by
  have htotal :
      (p.setReady now
        (decide (p.reserveBytes ≤ p.enqueuedBytes))).totalIdleTime ≤
      now - (p.setReady now
        (decide (p.reserveBytes ≤ p.enqueuedBytes))).initTime :=
    (hp.setReady (decide (p.reserveBytes ≤ p.enqueuedBytes))).total
  refine ⟨p.setReady now (decide (p.reserveBytes ≤ p.enqueuedBytes)), ?_⟩
  simp only [update, assertThat_of htotal, Checked.ok_bind]
  rfl

theorem accumulate_idleTimes {fresh : Allocation} {m m' : Memory}
    (h : p.accumulate fresh m = .ok (p', m')) : p'.idleTimes = p.idleTimes := by
  unfold accumulate at h
  split at h
  · simp only [Checked.pure_eq_ok, Prod.mk.injEq] at h
    rw [h.1]
  · split at h
    · simp at h
    · dsimp only at h
      split at h
      · simp at h
      · simp only [Checked.bind_eq_ok, Checked.pure_eq_ok, Prod.mk.injEq] at h
        obtain ⟨-, -, rfl, -⟩ := h
        rfl

theorem push_onTime {buffer : SBuffer} (hp : p.idleTimes.OnTime now)
    (h : p.push now buffer = .ok p') : p'.idleTimes.OnTime now := by
  simp only [push, Checked.bind_eq_ok] at h
  obtain ⟨-, -, h⟩ := h
  split at h
  · rw [Checked.pure_eq_ok] at h
    exact h ▸ hp
  · simp only [Checked.bind_eq_ok] at h
    obtain ⟨p₁, hupdate, h⟩ := h
    have h₁ := update_onTime (p := { p with
      queue := (grown p.queue).pushBack buffer
      enqueuedBytes := p.enqueuedBytes + buffer.length }) hp hupdate
    split at h
    · rw [Checked.pure_eq_ok] at h
      exact h ▸ h₁
    · rw [Checked.pure_eq_ok] at h
      exact h ▸ h₁

theorem consume_onTime {items : Nat} (hp : p.idleTimes.OnTime now)
    (h : p.consume now items = .ok p') : p'.idleTimes.OnTime now := by
  unfold consume at h
  dsimp only at h
  split at h
  · simp at h
  · simp only [Checked.bind_eq_ok, Checked.pure_eq_ok] at h
    obtain ⟨-, -, -, -, -, -, -, -, p₁, hupdate, rfl⟩ := h
    have h₁ := update_onTime (p := { p with
      queue := p.queue.replace (drained (items * p.itemsSize) p.queue.items)
        (Nat.le_trans (drained_length _ _) p.queue.size_le)
      enqueuedBytes := p.enqueuedBytes - items * p.itemsSize }) hp hupdate
    exact h₁

theorem updateConfig_onTime {fresh : AuxAllocations}
    {itemSize preload reserve maximum : Nat} {m m' : Memory}
    (hp : p.idleTimes.OnTime now)
    (h : p.updateConfig now fresh itemSize preload reserve maximum m =
      .ok (p', m')) :
    p'.idleTimes.OnTime now := by
  simp only [updateConfig, Checked.bind_eq_ok, Checked.pure_eq_ok,
    Prod.mk.injEq, Prod.exists] at h
  obtain ⟨-, -, p₁, m₁, hmore, p₂, hless, p₃, hupdate, rfl, -⟩ := h
  have h₁ : p₁.idleTimes.OnTime now := by
    unfold morePreload at hmore
    split at hmore
    · simp only [Checked.pure_eq_ok, Prod.mk.injEq] at hmore
      exact hmore.1 ▸ hp
    · split at hmore
      · simp at hmore
      · split at hmore
        · simp at hmore
        · simp only [Checked.bind_eq_ok, Checked.pure_eq_ok,
            Prod.mk.injEq] at hmore
          obtain ⟨q, hpush, rfl, -⟩ := hmore
          refine push_onTime ?_ hpush
          exact hp
  have h₂ : p₂.idleTimes.OnTime now := by
    unfold lessPreload at hless
    split at hless
    · exact consume_onTime h₁ hless
    · rw [Checked.pure_eq_ok] at hless
      exact hless ▸ h₁
  exact update_onTime
    (p := { p₂ with preloadBytes := preload, reserveBytes := reserve }) h₂
    hupdate

/-- **Every operation** keeps the idle times. -/
theorem Step.onTime (hp : p.idleTimes.OnTime now) (h : Step S now p p') :
    p'.idleTimes.OnTime now := by
  cases h with
  | accumulate h =>
      rw [accumulate_idleTimes h]
      exact hp
  | push _ h => exact push_onTime hp h
  | consume h => exact consume_onTime hp h
  | @updateHasMsg has p' h =>
      unfold InputPort.updateHasMsg at h
      split at h
      · rw [Checked.pure_eq_ok] at h
        exact h ▸ hp.ready
      · exact update_onTime hp h
  | fail => exact hp.fail
  | flush h =>
      exact update_onTime
        (p := { p with queue := .empty 1, enqueuedBytes := 0 }) hp h
  | updateConfig h => exact updateConfig_onTime hp h

/-- Looking at the front accumulates, or does nothing. -/
theorem front_step {fresh : Allocation} {m m' : Memory} {b : SBuffer}
    (h : p.front fresh m = .ok (b, p', m')) : p' = p ∨ Step S now p p' := by
  simp only [front, Checked.bind_eq_ok] at h
  obtain ⟨-, -, -, -, h⟩ := h
  split at h
  · simp only [Checked.pure_eq_ok, Prod.mk.injEq] at h
    exact .inl h.2.1.symm
  · simp only [Checked.bind_eq_ok, Prod.exists] at h
    obtain ⟨p₁, m₁, hrefill, h⟩ := h
    split at h
    · simp at h
    · simp only [Checked.bind_eq_ok, Checked.pure_eq_ok, Prod.mk.injEq] at h
      obtain ⟨-, -, -, -, -, rfl, -⟩ := h
      unfold refill at hrefill
      split at hrefill
      · exact .inr (.accumulate hrefill)
      · simp only [Checked.pure_eq_ok, Prod.mk.injEq] at hrefill
        exact .inl hrefill.1.symm

/-- A port that `resize` has just added. -/
theorem resized_onTime {initTime : Int} (h : initTime ≤ now) :
    (resized initTime now).idleTimes.OnTime now :=
  ⟨h, Int.le_refl now, by simpa [resized, idleTimes] using h,
    fun _ => by simpa [resized, idleTimes] using h⟩

end InputPort

/-! ## Output ports -/

namespace BufferQueue

variable {q q' q'' : BufferQueue} {b c : SBuffer}

/-- The buffers in a ring have no offset. -/
def AtStart : BufferQueue → Prop
  | pool _ => True
  | circ q => (∀ b ∈ q.available.items, b.offset = 0) ∧
      ∀ i b, q.returned i = some b → b.offset = 0

/-- **There is a front** to look at when the queue is not empty. -/
theorem AtStart.front_total (hq : q.AtStart) (hempty : q.empty = false) :
    ∃ b q', q.front = .ok (b, q') := by
  cases q with
  | pool q =>
      cases hitems : q.queue.items with
      | nil => simp [empty, BufferQueuePool.empty, hitems] at hempty
      | cons buff rest =>
          refine ⟨buff, pool q, ?_⟩
          simp only [front, BufferQueuePool.front, hitems]
          rfl
  | circ q =>
      simp only [empty, BufferQueueCirc.empty, Bool.or_eq_false_iff,
        decide_eq_false_iff_not, List.isEmpty_eq_false_iff] at hempty
      obtain ⟨havail, hitems⟩ := hempty
      obtain ⟨buff, rest, hitems⟩ := List.exists_cons_of_ne_nil hitems
      have hoff := hq.1 buff (hitems ▸ List.mem_cons_self)
      refine ⟨q.aimed buff, circ (q.setFront (q.aimed buff)), ?_⟩
      rw [front, BufferQueueCirc.front_of hitems havail hoff]
      rfl

theorem AtStart.front (hq : q.AtStart) (h : q.front = .ok (b, q')) :
    q'.AtStart ∧ ∀ n, (q'.setFront { b with length := n }).AtStart := by
  cases q with
  | pool q =>
      simp only [BufferQueue.front, Checked.bind_eq_ok, Checked.pure_eq_ok,
        Prod.mk.injEq] at h
      obtain ⟨_, _, _, rfl⟩ := h
      exact ⟨trivial, fun _ => trivial⟩
  | circ q =>
      simp only [BufferQueue.front, Checked.bind_eq_ok, Checked.pure_eq_ok,
        Prod.mk.injEq, Prod.exists] at h
      obtain ⟨b₀, q₀, h, rfl, rfl⟩ := h
      obtain ⟨buff, rest, hitems, -, hoff, rfl, rfl⟩ := q.front_eq_ok h
      have hrest : ∀ c ∈ rest, c.offset = 0 := fun c hc =>
        hq.1 c (hitems ▸ List.mem_cons_of_mem _ hc)
      -- A front that is aimed, or written to, starts where it did.
      have hset : ∀ c : SBuffer, c.offset = 0 →
          (circ (q.setFront c)).AtStart := by
        intro c hc
        refine ⟨fun d hd => ?_, hq.2⟩
        rw [BufferQueueCirc.setFront_items hitems] at hd
        rcases List.mem_cons.mp hd with rfl | hd
        · exact hc
        · exact hrest d hd
      refine ⟨hset _ hoff, fun n => ?_⟩
      rw [setFront, BufferQueueCirc.setFront_setFront]
      exact hset _ hoff

theorem AtStart.pop (hq : q.AtStart) (h : q.pop = .ok q') : q'.AtStart := by
  cases q with
  | pool q =>
      simp only [BufferQueue.pop, Checked.bind_eq_ok, Checked.pure_eq_ok] at h
      obtain ⟨_, _, rfl⟩ := h
      trivial
  | circ q =>
      simp only [BufferQueue.pop, Checked.bind_eq_ok, Checked.pure_eq_ok] at h
      obtain ⟨q₀, hpop, rfl⟩ := h
      unfold BufferQueueCirc.pop at hpop
      split at hpop
      · simp at hpop
      · simp only [Checked.bind_eq_ok, Checked.pure_eq_ok] at hpop
        obtain ⟨-, -, -, -, -, -, rfl⟩ := hpop
        exact ⟨fun b hb => hq.1 b (List.mem_of_mem_tail hb), hq.2⟩

/-- The front may have got an offset when it is popped. -/
theorem AtStart.popFront (hq : q.AtStart) (h : q.front = .ok (b, q'))
    (hpop : (q'.setFront c).pop = .ok q'') : q''.AtStart := by
  cases q with
  | pool q =>
      simp only [BufferQueue.front, Checked.bind_eq_ok, Checked.pure_eq_ok,
        Prod.mk.injEq] at h
      obtain ⟨_, _, _, rfl⟩ := h
      simp only [setFront, BufferQueue.pop, Checked.bind_eq_ok,
        Checked.pure_eq_ok] at hpop
      obtain ⟨_, _, rfl⟩ := hpop
      trivial
  | circ q =>
      simp only [BufferQueue.front, Checked.bind_eq_ok, Checked.pure_eq_ok,
        Prod.mk.injEq, Prod.exists] at h
      obtain ⟨b₀, q₀, h, rfl, rfl⟩ := h
      obtain ⟨buff, rest, hitems, -, hoff, rfl, rfl⟩ := q.front_eq_ok h
      rw [setFront, BufferQueueCirc.setFront_setFront] at hpop
      simp only [BufferQueue.pop, Checked.bind_eq_ok,
        Checked.pure_eq_ok] at hpop
      obtain ⟨q₀, hpop, rfl⟩ := hpop
      have hset := BufferQueueCirc.setFront_items hitems c
      unfold BufferQueueCirc.pop at hpop
      rw [hset] at hpop
      simp only [Checked.bind_eq_ok, Checked.pure_eq_ok] at hpop
      obtain ⟨-, -, -, -, -, -, rfl⟩ := hpop
      refine ⟨fun d hd => ?_, hq.2⟩
      replace hd : d ∈ (q.setFront c).available.items.tail := hd
      rw [hset] at hd
      exact hq.1 d (hitems ▸ List.mem_cons_of_mem _ hd)

theorem AtStart.push (hq : q.AtStart) (hb : b.offset = 0)
    (h : q.push b = .ok q') : q'.AtStart := by
  cases q with
  | pool q =>
      simp only [BufferQueue.push, Checked.bind_eq_ok, Checked.pure_eq_ok] at h
      obtain ⟨_, _, rfl⟩ := h
      trivial
  | circ q =>
      simp only [BufferQueue.push, Checked.bind_eq_ok, Checked.pure_eq_ok] at h
      obtain ⟨q₀, hpush, rfl⟩ := h
      unfold BufferQueueCirc.push at hpush
      split at hpush
      · rw [Checked.pure_eq_ok] at hpush
        exact hpush ▸ hq
      · simp only [Checked.bind_eq_ok, Checked.pure_eq_ok] at hpush
        obtain ⟨-, -, rfl⟩ := hpush
        refine BufferQueueCirc.ackLoop_forall
          (p := fun b => b.offset = 0) q.numBuffs
          (q := { q with
            returned := Function.update q.returned b.getUserIndex (some b) })
          hq.1 fun i b' hb' => ?_
        replace hb' : Function.update q.returned b.getUserIndex (some b) i =
          some b' := hb'
        by_cases hi : i = b.getUserIndex
        · rw [hi, Function.update_self] at hb'
          cases hb'
          exact hb
        · rw [Function.update_of_ne hi] at hb'
          exact hq.2 i b' hb'

end BufferQueue

namespace OutputPort

/-- What a port knows about being idle. -/
def idleTimes (p : OutputPort) : IdleTimes :=
  ⟨p.bit, p.totalIdleTime, p.becameIdleTime, p.initTime⟩

/-- One operation.  A write through the reference to the front sets its
length. -/
inductive Step (S : Supply) (now : Int) (p : OutputPort) :
    OutputPort → Prop where
  | look {b : SBuffer} {p' : OutputPort} (h : p.front = .ok (b, p')) :
    Step S now p p'
  | write {b : SBuffer} {p₁ : OutputPort} (n : Nat)
    (h : p.front = .ok (b, p₁)) :
      Step S now p (p₁.setFront { b with length := n })
  | consume {p' : OutputPort} (h : p.consume now = .ok p') : Step S now p p'
  | pop {p' : OutputPort} (h : p.pop now = .ok p') : Step S now p p'
  | push {buffer : SBuffer} {p' : OutputPort} (hbuffer : S.returns buffer)
      (h : p.push now buffer = .ok p') : Step S now p p'
  | setBufferQueue {q : Option BufferQueue} {p' : OutputPort}
    (hqueue : ∀ q₁ ∈ q, S.queue q₁)
      (h : p.setBufferQueue now q = .ok p') : Step S now p p'
  | setReserveBytes {numBytes : Nat} {p' : OutputPort}
      (h : p.setReserveBytes now numBytes = .ok p') : Step S now p p'
  | fail : Step S now p (p.fail now)
  | setInline {buffer : SBuffer} {p' : OutputPort}
    (h : p.setInline buffer = .ok p') :
      Step S now p p'
  | flush : Step S now p (p.flush now)

/-- No `ASSERT` of a port that is ready fails. -/
structure Sound (now : Int) (p : OutputPort) : Prop where
  times : p.idleTimes.OnTime now
  queue : ∀ q, p.queue = some q → q.AtStart

/-- Buffers come back without offset, and a new queue has none in it. -/
def released : Supply where
  arrives := fun _ => True
  returns := fun b => b.offset = 0
  queue := fun q => q.AtStart

variable {p p' : OutputPort} {now : Int} {b : SBuffer}

/-- `_update` looks at the front of a queue that is not empty, and sets the
bit. -/
theorem update_parts (h : p.update now = .ok p') :
    ∃ isReady q,
      p' = ({ p with queue := q } : OutputPort).setReady now isReady ∧
      (q = p.queue ∨ ∃ q₀ b q', p.queue = some q₀ ∧ q₀.front = .ok (b, q') ∧
        q = some q') := by
  unfold OutputPort.update at h
  cases hqueue : p.queue with
  | none =>
      simp only [hqueue, Checked.bind_eq_ok, Checked.pure_eq_ok, Prod.exists,
        Prod.mk.injEq] at h
      obtain ⟨isReady, _, ⟨rfl, rfl⟩, -, -, rfl⟩ := h
      exact ⟨_, none, by rw [← hqueue], .inl rfl⟩
  | some q₀ =>
      rw [hqueue] at h
      dsimp only at h
      split at h
      · simp only [Checked.bind_eq_ok, Checked.pure_eq_ok, Prod.exists,
          Prod.mk.injEq] at h
        obtain ⟨_, _, ⟨rfl, rfl⟩, -, -, rfl⟩ := h
        exact ⟨_, some q₀, by rw [← hqueue], .inl rfl⟩
      · simp only [Checked.bind_eq_ok, Checked.pure_eq_ok, Prod.exists,
          Prod.mk.injEq] at h
        obtain ⟨b, q', hfront, _, _, ⟨rfl, rfl⟩, -, -, rfl⟩ := h
        exact ⟨_, some q', rfl, .inr ⟨q₀, b, q', rfl, hfront, rfl⟩⟩

theorem Sound.update (hp : p.Sound now) (h : p.update now = .ok p') :
    p'.Sound now := by
  obtain ⟨isReady, q, rfl, hcase⟩ := update_parts h
  refine ⟨hp.times.setReady isReady, fun q₁ hq₁ => ?_⟩
  replace hq₁ : q = some q₁ := hq₁
  rcases hcase with rfl | ⟨q₀, b, q', hqueue, hfront, rfl⟩
  · exact hp.queue q₁ hq₁
  · cases hq₁
    exact ((hp.queue q₀ hqueue).front hfront).1

/-- **`_update` succeeds.** -/
theorem Sound.update_total (hp : p.Sound now) :
    ∃ p', p.update now = .ok p' := by
  have hfinish : ∀ isReady (q : Option BufferQueue),
      (({ p with queue := q } : OutputPort).setReady now
        isReady).totalIdleTime ≤
        now - (({ p with queue := q } : OutputPort).setReady now
          isReady).initTime :=
    fun isReady q => (hp.times.setReady isReady).total
  -- Whatever is seen of the queue, the rest is to set the bit.
  have hset : ∀ isReady (q : Option BufferQueue), ∃ p', (do
      let p := ({ p with queue := q } : OutputPort).setReady now isReady
      assertThat (p.totalIdleTime ≤ now - p.initTime)
        "total_idle_times[i] <= (time_now() - _init_time)"
      return p : Checked OutputPort) = .ok p' := fun isReady q =>
    ⟨_, Checked.bind_eq_ok.mpr ⟨(), assertThat_of (hfinish isReady q) _, rfl⟩⟩
  unfold OutputPort.update
  cases hqueue : p.queue with
  | none =>
      obtain ⟨p', h⟩ := hset false none
      rw [← hqueue] at h
      exact ⟨p', Checked.bind_eq_ok.mpr ⟨(false, p), rfl, h⟩⟩
  | some q =>
      by_cases hempty : q.empty = true
      · obtain ⟨p', h⟩ := hset false (some q)
        rw [← hqueue] at h
        refine ⟨p', ?_⟩
        dsimp only
        rw [if_pos hempty]
        exact Checked.bind_eq_ok.mpr ⟨(false, p), rfl, h⟩
      · obtain ⟨b, q', hfront⟩ :=
          (hp.queue q hqueue).front_total (by simpa using hempty)
        obtain ⟨p', h⟩ := hset (decide (p.reserveBytes ≤ available b)) (some q')
        refine ⟨p', ?_⟩
        dsimp only
        rw [if_neg hempty, hfront]
        exact Checked.bind_eq_ok.mpr
          ⟨(b, q'), rfl, Checked.bind_eq_ok.mpr ⟨_, rfl, h⟩⟩

theorem Sound.front (hp : p.Sound now) (h : p.front = .ok (b, p')) :
    p'.Sound now ∧ ∀ n, (p'.setFront { b with length := n }).Sound now := by
  cases hinline : p.inlineBuffer with
  | some buff =>
      simp only [OutputPort.front, hinline, Checked.pure_eq_ok,
        Prod.mk.injEq] at h
      obtain ⟨rfl, rfl⟩ := h
      refine ⟨hp, fun n => ?_⟩
      simp only [setFront, hinline]
      exact ⟨hp.times, hp.queue⟩
  | none =>
      cases hq : p.queue with
      | none => simp [OutputPort.front, hinline, hq] at h
      | some q =>
          obtain ⟨q', hfront, rfl⟩ := front_queue hinline hq h
          obtain ⟨hkept, hset⟩ := (hp.queue q hq).front hfront
          constructor
          · refine ⟨hp.times, fun q₁ hq₁ => ?_⟩
            cases hq₁
            exact hkept
          · intro n
            simp only [setFront, hinline, Option.map_some]
            refine ⟨hp.times, fun q₁ hq₁ => ?_⟩
            cases hq₁
            exact hset n

theorem Sound.pop (hp : p.Sound now) (h : p.pop now = .ok p') :
    p'.Sound now := by
  unfold OutputPort.pop at h
  split at h
  · rw [Checked.pure_eq_ok] at h
    exact h ▸ ⟨hp.times, hp.queue⟩
  · split at h
    · simp at h
    · rename_i q hq
      simp only [Checked.bind_eq_ok] at h
      obtain ⟨-, -, q', hpop, h⟩ := h
      refine Sound.update ⟨?_, fun q₁ hq₁ => ?_⟩ h
      · exact hp.times
      · cases hq₁
        exact (hp.queue q hq).pop hpop

theorem Sound.consume (hp : p.Sound now) (h : p.consume now = .ok p') :
    p'.Sound now := by
  unfold OutputPort.consume at h
  split at h
  · rw [Checked.pure_eq_ok] at h
    exact h ▸ ⟨hp.times, hp.queue⟩
  · rename_i hinline
    simp only [Checked.bind_eq_ok, Prod.exists] at h
    obtain ⟨-, -, b, p₁, hfront, h⟩ := h
    have hp₁ := (hp.front hfront).1
    split at h
    · rw [Checked.pure_eq_ok] at h
      exact h ▸ hp₁
    · cases hq : p.queue with
      | none => simp [OutputPort.front, hinline, hq] at hfront
      | some q =>
          obtain ⟨q', hqfront, rfl⟩ := front_queue hinline hq hfront
          simp only [setFront, hinline, Option.map_some, OutputPort.pop,
            Checked.bind_eq_ok] at h
          obtain ⟨-, -, q'', hpop, h⟩ := h
          refine Sound.update ⟨?_, fun q₁ hq₁ => ?_⟩ h
          · exact hp.times
          · cases hq₁
            exact (hp.queue q hq).popFront hqfront hpop

/-- A port that `resize` has just added. -/
theorem sound_resized {initTime : Int} (h : initTime ≤ now) :
    (resized initTime now).Sound now :=
  ⟨⟨h, Int.le_refl now, by simpa [resized, idleTimes] using h,
    fun _ => by simpa [resized, idleTimes] using h⟩, fun q hq => nomatch hq⟩

/-- The clock runs on. -/
theorem Sound.mono {t : Int} (hp : p.Sound t) (hle : t ≤ now) : p.Sound now :=
  ⟨hp.times.mono hle, hp.queue⟩

/-- **Every operation** keeps a port sound, when what comes back has no
offset. -/
theorem Sound.step (hp : p.Sound now) (h : Step released now p p') :
    p'.Sound now := by
  cases h with
  | look h => exact (hp.front h).1
  | write n h => exact (hp.front h).2 n
  | consume h => exact Sound.consume hp h
  | pop h => exact Sound.pop hp h
  | @push buffer p' hbuffer h =>
      unfold OutputPort.push at h
      split at h
      · rw [Checked.pure_eq_ok] at h
        exact h ▸ hp
      · rename_i q hq
        simp only [Checked.bind_eq_ok] at h
        obtain ⟨q', hpush, h⟩ := h
        refine Sound.update ⟨?_, fun q₁ hq₁ => ?_⟩ h
        · exact hp.times
        · cases hq₁
          exact (hp.queue q hq).push hbuffer hpush
  | @setBufferQueue q p' hqueue h =>
      refine Sound.update (p := { p with queue := q }) ⟨?_, fun q₁ hq₁ => ?_⟩ h
      · exact hp.times
      · exact hqueue q₁ hq₁
  | @setReserveBytes numBytes p' h =>
      unfold OutputPort.setReserveBytes at h
      split at h
      · rw [Checked.pure_eq_ok] at h
        exact h ▸ ⟨hp.times, hp.queue⟩
      · refine Sound.update
          (p := { p with reserveBytes := numBytes }) ⟨?_, ?_⟩ h
        · exact hp.times
        · exact hp.queue
  | fail => exact ⟨hp.times.fail, hp.queue⟩
  | setInline h =>
      simp only [OutputPort.setInline, Checked.bind_eq_ok,
        Checked.pure_eq_ok] at h
      obtain ⟨-, -, rfl⟩ := h
      exact ⟨hp.times.ready, hp.queue⟩
  | flush => exact sound_resized hp.times.init

end OutputPort

end Gras
