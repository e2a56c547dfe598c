import Gras.Buffers.OutputBufferQueues
import Gras.Buffers.RingSafety

/-!
# The front of an output port

What looking at the front of a queue, and writing through the reference, does to
it, and what the operations of a port do to the front of its queue
(`QueueFront`), to its inline buffer and to its ready bit.
-/

namespace Gras

/-- The bytes of a buffer from its offset on. -/
def SBuffer.room (b : SBuffer) : Nat := sizeSub b.getActualLength b.offset

/-! ## Looking at the front -/

/-- Looking again changes nothing. -/
theorem BufferQueue.front_front {q q' : BufferQueue} {b : SBuffer}
    (h : q.front = .ok (b, q')) : q'.front = .ok (b, q') := by
  cases q with
  | pool q =>
      simp only [BufferQueue.front, Checked.bind_eq_ok, Checked.pure_eq_ok,
        Prod.mk.injEq] at h
      obtain ⟨b', hb, rfl, rfl⟩ := h
      simp [BufferQueue.front, hb]
  | circ q =>
      simp only [BufferQueue.front, Checked.bind_eq_ok, Checked.pure_eq_ok,
        Prod.mk.injEq, Prod.exists] at h
      obtain ⟨b, q', h, rfl, rfl⟩ := h
      obtain ⟨buff, rest, hitems, havail, hoff, rfl, rfl⟩ := q.front_eq_ok h
      have hset := BufferQueueCirc.setFront_items hitems (q.aimed buff)
      have hagain := BufferQueueCirc.front_of hset havail hoff
      rw [BufferQueueCirc.setFront_setFront] at hagain
      simp only [BufferQueue.front, hagain, Checked.ok_bind]
      rfl

/-- Storing the front where it came from changes nothing. -/
theorem BufferQueue.setFront_front {q q' : BufferQueue} {b : SBuffer}
    (h : q.front = .ok (b, q')) : q'.setFront b = q' := by
  cases q with
  | pool q =>
      simp only [BufferQueue.front, Checked.bind_eq_ok, Checked.pure_eq_ok,
        Prod.mk.injEq] at h
      obtain ⟨b', hb, rfl, rfl⟩ := h
      unfold BufferQueuePool.front at hb
      split at hb
      · simp at hb
      · rename_i buff rest hitems
        rw [Checked.pure_eq_ok] at hb
        subst hb
        have hset : q.queue.items.set 0 buff = q.queue.items := by simp [hitems]
        simp [BufferQueue.setFront, BufferQueuePool.setFront,
          BoundedDeque.replace, hset]
  | circ q =>
      simp only [BufferQueue.front, Checked.bind_eq_ok, Checked.pure_eq_ok,
        Prod.mk.injEq, Prod.exists] at h
      obtain ⟨b, q', h, rfl, rfl⟩ := h
      obtain ⟨buff, rest, hitems, havail, hoff, rfl, rfl⟩ := q.front_eq_ok h
      rw [BufferQueue.setFront, BufferQueueCirc.setFront_setFront]

/-- There is a front to look at. -/
theorem BufferQueue.empty_of_front {q q' : BufferQueue} {b : SBuffer}
    (h : q.front = .ok (b, q')) : q.empty = false := by
  cases q with
  | pool q =>
      simp only [BufferQueue.front, Checked.bind_eq_ok, Checked.pure_eq_ok,
        Prod.mk.injEq] at h
      obtain ⟨b₀, hb, -⟩ := h
      unfold BufferQueuePool.front at hb
      split at hb
      · simp at hb
      · rename_i buff rest hitems
        simp [BufferQueue.empty, BufferQueuePool.empty, hitems]
  | circ q =>
      simp only [BufferQueue.front, Checked.bind_eq_ok, Checked.pure_eq_ok,
        Prod.mk.injEq, Prod.exists] at h
      obtain ⟨b₀, q₀, h, -⟩ := h
      obtain ⟨buff, rest, hitems, havail, -⟩ := q.front_eq_ok h
      simp [BufferQueue.empty, BufferQueueCirc.empty, hitems, havail]

/-- The front keeps its length and its room when it is pointed at the write
pointer. -/
theorem BufferQueue.front_setFront {q q' q'' : BufferQueue}
    {b b' chunk : SBuffer} (h : q.front = .ok (b, q'))
    (h' : (q'.setFront b').front = .ok (chunk, q'')) :
    chunk.length = b'.length ∧ chunk.room = b'.room := by
  cases q with
  | pool q =>
      simp only [BufferQueue.front, Checked.bind_eq_ok, Checked.pure_eq_ok,
        Prod.mk.injEq] at h
      obtain ⟨b₀, hb, rfl, rfl⟩ := h
      unfold BufferQueuePool.front at hb
      split at hb
      · simp at hb
      · rename_i buff rest hitems
        have hset : (q.queue.items.set 0 b') = b' :: rest := by simp [hitems]
        simp only [BufferQueue.setFront, BufferQueue.front,
          BufferQueuePool.front, BufferQueuePool.setFront,
          BoundedDeque.replace_items, hset, Checked.bind_eq_ok,
          Checked.pure_eq_ok, Prod.mk.injEq] at h'
        obtain ⟨_, rfl, rfl, -⟩ := h'
        exact ⟨rfl, rfl⟩
  | circ q =>
      simp only [BufferQueue.front, Checked.bind_eq_ok, Checked.pure_eq_ok,
        Prod.mk.injEq, Prod.exists] at h
      obtain ⟨b₀, q₀, h, rfl, rfl⟩ := h
      obtain ⟨buff, rest, hitems, -, -, rfl, rfl⟩ := q.front_eq_ok h
      rw [BufferQueue.setFront, BufferQueueCirc.setFront_setFront] at h'
      simp only [BufferQueue.front, Checked.bind_eq_ok, Checked.pure_eq_ok,
        Prod.mk.injEq, Prod.exists] at h'
      obtain ⟨b₁, q₁, h', rfl, rfl⟩ := h'
      obtain ⟨buff', rest', hitems', -, -, rfl, -⟩ :=
        BufferQueueCirc.front_eq_ok h'
      rw [BufferQueueCirc.setFront_items hitems, List.cons.injEq] at hitems'
      rw [← hitems'.1]
      exact ⟨rfl, rfl⟩

namespace OutputPort

variable {p p' p₁ p₂ : OutputPort} {q : BufferQueue} {now : Int}

/-- `_update` may look at the front of the queue. -/
theorem update_queue (hq : p.queue = some q) (h : p.update now = .ok p') :
    p'.inlineBuffer = p.inlineBuffer ∧
      ∃ q', p'.queue = some q' ∧ (q' = q ∨ ∃ b, q.front = .ok (b, q')) := by
  unfold update at h
  rw [hq] at h
  dsimp only at h
  split at h
  · simp only [Checked.bind_eq_ok, Checked.pure_eq_ok, Prod.exists,
      Prod.mk.injEq, assertThat_eq_ok] at h
    obtain ⟨_, _, ⟨rfl, rfl⟩, -, -, rfl⟩ := h
    exact ⟨rfl, q, hq, .inl rfl⟩
  · simp only [Checked.bind_eq_ok, Checked.pure_eq_ok, Prod.exists,
      Prod.mk.injEq, assertThat_eq_ok] at h
    obtain ⟨b, q', hfront, _, _, ⟨rfl, rfl⟩, -, -, rfl⟩ := h
    exact ⟨rfl, q', rfl, .inr ⟨b, hfront⟩⟩

/-- Without an inline buffer the front is that of the queue. -/
theorem front_queue {b : SBuffer} (hinline : p.inlineBuffer = none)
    (hq : p.queue = some q) (h : p.front = .ok (b, p')) :
    ∃ q', q.front = .ok (b, q') ∧ p' = { p with queue := some q' } := by
  simp only [front, hinline, hq, Checked.bind_eq_ok, assertThat_eq_ok,
    Checked.pure_eq_ok, Prod.mk.injEq, Prod.exists] at h
  obtain ⟨-, -, b', q', hfront, rfl, rfl⟩ := h
  exact ⟨q', hfront, by rw [hinline]⟩

/-! ## The front of the queue, the inline buffer and the ready bit -/

/-- The post-work task of a port with an inline buffer: the slot is emptied. -/
theorem post_inline {b : SBuffer} {now : Int}
    (hinline : p.inlineBuffer = some b) :
    p.post now = .ok (b, { p with inlineBuffer := none }) := by
  simp only [post, front, hinline, consume, pure_bind]
  rfl

/-- The front of the queue, whether an inline buffer hides it or not. -/
def QueueFront (p : OutputPort) (b : SBuffer) : Prop :=
  ∃ q q', p.queue = some q ∧ q.front = .ok (b, q')

theorem QueueFront.eq {b b' : SBuffer} (h : p.QueueFront b)
    (h' : p.QueueFront b') : b = b' := by
  obtain ⟨q, q', hq, hfront⟩ := h
  obtain ⟨q₁, q₁', hq₁, hfront₁⟩ := h'
  rw [hq] at hq₁
  cases hq₁
  rw [hfront] at hfront₁
  cases hfront₁
  rfl

/-- **`_update`**: the bit says whether the front of the queue has the
reserve. -/
theorem update_cases (h : p.update now = .ok p') :
    p'.inlineBuffer = p.inlineBuffer ∧ p'.reserveBytes = p.reserveBytes ∧
      (∀ b, p'.QueueFront b → p.QueueFront b) ∧
      (p'.bit = true → ∃ b, p'.QueueFront b ∧
        p.reserveBytes ≤ available b) := by
  unfold update at h
  cases hq : p.queue with
  | none =>
      simp only [hq, Checked.bind_eq_ok, Checked.pure_eq_ok, Prod.exists,
        Prod.mk.injEq] at h
      obtain ⟨_, _, ⟨rfl, rfl⟩, -, -, rfl⟩ := h
      refine ⟨rfl, rfl, fun b hb => hb, fun hbit => ?_⟩
      cases hbit
  | some q =>
      rw [hq] at h
      dsimp only at h
      split at h
      · simp only [Checked.bind_eq_ok, Checked.pure_eq_ok, Prod.exists,
          Prod.mk.injEq] at h
        obtain ⟨_, _, ⟨rfl, rfl⟩, -, -, rfl⟩ := h
        refine ⟨rfl, rfl, fun b hb => hb, fun hbit => ?_⟩
        cases hbit
      · simp only [Checked.bind_eq_ok, Checked.pure_eq_ok, Prod.exists,
          Prod.mk.injEq] at h
        obtain ⟨b, q', hfront, _, _, ⟨rfl, rfl⟩, -, -, rfl⟩ := h
        have hagain := BufferQueue.front_front hfront
        refine ⟨rfl, rfl, fun b' hb' => ?_, fun hbit => ?_⟩
        · obtain ⟨q₁, q₂, hq₁, hb'⟩ := hb'
          cases hq₁
          rw [hagain] at hb'
          cases hb'
          exact ⟨q, q', hq, hfront⟩
        · exact ⟨b, ⟨q', q', rfl, hagain⟩, by simpa [setReady] using hbit⟩

/-- **`front`**: an inline buffer, or else the front of the queue. -/
theorem front_cases {b : SBuffer} (h : p.front = .ok (b, p')) :
    (p.inlineBuffer = some b ∧ p' = p) ∨
      (p.inlineBuffer = none ∧ p.QueueFront b ∧ p'.QueueFront b ∧
        ∃ q, p' = { p with queue := some q }) := by
  cases hinline : p.inlineBuffer with
  | some buff =>
      simp only [front, hinline, Checked.pure_eq_ok, Prod.mk.injEq] at h
      obtain ⟨rfl, rfl⟩ := h
      exact .inl ⟨rfl, rfl⟩
  | none =>
      cases hq : p.queue with
      | none => simp [front, hinline, hq] at h
      | some q =>
          obtain ⟨q', hfront, rfl⟩ := front_queue hinline hq h
          exact .inr ⟨rfl, ⟨q, q', hq, hfront⟩,
            ⟨q', q', rfl, BufferQueue.front_front hfront⟩,
            q', by rw [hinline]⟩

/-- Looking again changes nothing. -/
theorem front_front {b : SBuffer} (h : p.front = .ok (b, p')) :
    p'.front = .ok (b, p') := by
  cases hinline : p.inlineBuffer with
  | some buff =>
      have hkept := h
      simp only [front, hinline, Checked.pure_eq_ok, Prod.mk.injEq] at h
      obtain ⟨-, rfl⟩ := h
      exact hkept
  | none =>
      cases hq : p.queue with
      | none => simp [front, hinline, hq] at h
      | some q =>
          obtain ⟨q', hfront, rfl⟩ := front_queue hinline hq h
          have hagain := BufferQueue.front_front hfront
          have hempty := BufferQueue.empty_of_front hagain
          simp [front, hinline, hempty, assertThat, hagain]

/-- **Writing through the reference**: an inline buffer is replaced, or else the
front of the queue is. -/
theorem setFront_cases {b c : SBuffer} (h : p.front = .ok (b, p')) :
    (p.inlineBuffer = some b ∧ p'.setFront c =
      { p with inlineBuffer := some c }) ∨
      (p.inlineBuffer = none ∧
        (∃ q, p'.setFront c = { p with queue := some q }) ∧
        ∀ b', (p'.setFront c).QueueFront b' →
        b'.length = c.length ∧ b'.room = c.room) := by
  cases hinline : p.inlineBuffer with
  | some buff =>
      simp only [front, hinline, Checked.pure_eq_ok, Prod.mk.injEq] at h
      obtain ⟨rfl, rfl⟩ := h
      exact .inl ⟨rfl, by simp [setFront, hinline]⟩
  | none =>
      cases hq : p.queue with
      | none => simp [front, hinline, hq] at h
      | some q =>
          obtain ⟨q', hfront, rfl⟩ := front_queue hinline hq h
          refine .inr ⟨rfl, ⟨q'.setFront c, by simp [setFront, hinline]⟩,
            fun b' hb' => ?_⟩
          obtain ⟨q₁, q₂, hq₁, hb'⟩ := hb'
          simp only [setFront, hinline, Option.map_some,
            Option.some.injEq] at hq₁
          subst hq₁
          exact BufferQueue.front_setFront hfront hb'

end OutputPort

end Gras
