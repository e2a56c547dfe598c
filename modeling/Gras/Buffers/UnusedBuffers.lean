import Gras.Buffers.OutputPorts
import Gras.Buffers.RingBacking

/-!
# Unused buffers

A buffer in the queue of an output port has no bytes in it, unless a work has
written to it: then it is the front.  `pending` is the number of bytes in the
front.

* `Clean`: a port between two works, with no inline buffer and no bytes in any
  buffer.
* `Carrying bytes`: a port during a work, with so many bytes in the front.

Every operation of a port keeps the one or the other, and `post` leads from
`Carrying` back to `Clean`.
-/

namespace Gras

/-- The buffer, pointed at that memory behind that end of the last buffer. -/
def SBuffer.aim (memory last : Nat) (b : SBuffer) : SBuffer :=
  { b with config := { b.config with memory }, last }

namespace BufferQueue

variable {q q' : BufferQueue} {b c : SBuffer}

/-- The buffers that can become the front, the front first. -/
def items : BufferQueue → List SBuffer
  | pool q => q.queue.items
  | circ q => q.available.items

/-- The buffers that wait for earlier ones to come back. -/
def Waits : BufferQueue → SBuffer → Prop
  | pool _, _ => False
  | circ q, b => ∃ i, q.returned i = some b

/-- The bytes in the front. -/
def pending (q : BufferQueue) : Nat :=
  match q.items with
  | [] => 0
  | b :: _ => b.length

/-- No buffer but the front has bytes in it. -/
structure UnusedBehind (q : BufferQueue) : Prop where
  items : ∀ b ∈ q.items.tail, b.length = 0
  waits : ∀ b, q.Waits b → b.length = 0

/-- No buffer has bytes in it. -/
structure Unused (q : BufferQueue) : Prop where
  items : ∀ b ∈ q.items, b.length = 0
  waits : ∀ b, q.Waits b → b.length = 0

theorem Unused.behind (hq : q.Unused) : q.UnusedBehind :=
  ⟨fun b hb => hq.items b (List.mem_of_mem_tail hb), hq.waits⟩

theorem Unused.pending (hq : q.Unused) : q.pending = 0 := by
  unfold BufferQueue.pending
  cases hitems : q.items with
  | nil => rfl
  | cons b rest => exact hq.items b (hitems ▸ List.mem_cons_self)

theorem UnusedBehind.unused (hq : q.UnusedBehind) (hfront : q.pending = 0) :
    q.Unused := by
  refine ⟨fun b hb => ?_, hq.waits⟩
  have htail := hq.items
  unfold BufferQueue.pending at hfront
  cases hitems : q.items with
  | nil =>
      rw [hitems] at hb
      cases hb
  | cons b₀ rest =>
      rw [hitems] at hb htail hfront
      rcases List.mem_cons.mp hb with rfl | hb
      · exact hfront
      · exact htail b hb

/-- Looking at the front may point it elsewhere. -/
theorem front_items (h : q.front = .ok (b, q')) :
    ∃ b₀ rest, q.items = b₀ :: rest ∧ b = b₀.aim b.config.memory b.last ∧
      q'.items = b :: rest ∧ q'.Waits = q.Waits := by
  cases q with
  | pool q =>
      simp only [front, Checked.bind_eq_ok, Checked.pure_eq_ok,
        Prod.mk.injEq] at h
      obtain ⟨b₀, hb, rfl, rfl⟩ := h
      unfold BufferQueuePool.front at hb
      split at hb
      · simp at hb
      · rename_i buff rest hitems
        rw [Checked.pure_eq_ok] at hb
        subst hb
        exact ⟨buff, rest, hitems, rfl, hitems, rfl⟩
  | circ q =>
      simp only [front, Checked.bind_eq_ok, Checked.pure_eq_ok, Prod.mk.injEq,
        Prod.exists] at h
      obtain ⟨b₀, q₀, h, rfl, rfl⟩ := h
      obtain ⟨buff, rest, hitems, -, -, rfl, rfl⟩ := q.front_eq_ok h
      exact ⟨buff, rest, hitems, rfl,
        BufferQueueCirc.setFront_items hitems _, rfl⟩

theorem front_pending (h : q.front = .ok (b, q')) :
    b.length = q.pending ∧ q'.pending = q.pending := by
  obtain ⟨b₀, rest, hitems, haim, hitems', -⟩ := front_items h
  have hlength : b.length = b₀.length := by
    rw [haim]
    rfl
  simp only [BufferQueue.pending, hitems, hitems']
  exact ⟨hlength, hlength⟩

theorem UnusedBehind.front (hq : q.UnusedBehind) (h : q.front = .ok (b, q')) :
    q'.UnusedBehind := by
  obtain ⟨b₀, rest, hitems, -, hitems', hwaits⟩ := front_items h
  have htail := hq.items
  rw [hitems] at htail
  exact ⟨by rwa [hitems'], by rw [hwaits]; exact hq.waits⟩

theorem Unused.front (hq : q.Unused) (h : q.front = .ok (b, q')) : q'.Unused :=
  (hq.behind.front h).unused ((front_pending h).2.trans hq.pending)

theorem setFront_items (q : BufferQueue) (c : SBuffer) :
    (q.setFront c).items = q.items.set 0 c ∧
      (q.setFront c).Waits = q.Waits := by
  cases q with
  | pool q => exact ⟨rfl, rfl⟩
  | circ q => exact ⟨rfl, rfl⟩

theorem UnusedBehind.setFront (hq : q.UnusedBehind) (c : SBuffer) :
    (q.setFront c).UnusedBehind := by
  obtain ⟨hitems, hwaits⟩ := setFront_items q c
  constructor
  · intro b hb
    rw [hitems] at hb
    refine hq.items b ?_
    cases hcase : q.items with
    | nil => rwa [hcase] at hb
    | cons b₀ rest => rwa [hcase] at hb
  · rw [hwaits]
    exact hq.waits

theorem setFront_pending (h : q.front = .ok (b, q')) (c : SBuffer) :
    (q'.setFront c).pending = c.length := by
  obtain ⟨-, rest, -, -, hitems', -⟩ := front_items h
  rw [BufferQueue.pending, (setFront_items q' c).1, hitems']
  rfl

theorem setFront_empty (h : q.front = .ok (b, q')) (c : SBuffer) :
    (q'.setFront c).empty = false := by
  have hempty := empty_of_front (front_front h)
  cases q' with
  | pool q' =>
      simpa [empty, BufferQueuePool.empty, setFront, BufferQueuePool.setFront]
        using hempty
  | circ q' =>
      simpa [empty, BufferQueueCirc.empty, setFront, BufferQueueCirc.setFront]
        using hempty

/-- Popping a front that was emptied. -/
theorem Unused.pop (hq : q.Unused) (h : q.pop = .ok q') : q'.Unused := by
  cases q with
  | pool q =>
      simp only [BufferQueue.pop, Checked.bind_eq_ok, Checked.pure_eq_ok] at h
      obtain ⟨q₀, hpop, rfl⟩ := h
      unfold BufferQueuePool.pop at hpop
      split at hpop
      · simp at hpop
      · rename_i buff rest hitems
        split at hpop
        · rw [Checked.pure_eq_ok] at hpop
          subst hpop
          exact ⟨fun b hb => hq.items b (List.mem_of_mem_tail hb),
            fun b hb => hb.elim⟩
        · rw [Checked.pure_eq_ok] at hpop
          subst hpop
          have hmem : buff ∈ q.queue.items := hitems ▸ List.mem_cons_self
          have hlength := hq.items buff hmem
          refine ⟨fun b hb => ?_, fun b hb => hb.elim⟩
          replace hb :
            b ∈ q.queue.items.set 0 { buff with last := buff.get 0 } := hb
          rcases List.mem_or_eq_of_mem_set hb with hb | rfl
          · exact hq.items b hb
          · exact hlength
  | circ q =>
      simp only [BufferQueue.pop, Checked.bind_eq_ok, Checked.pure_eq_ok] at h
      obtain ⟨q₀, hpop, rfl⟩ := h
      unfold BufferQueueCirc.pop at hpop
      split at hpop
      · simp at hpop
      · simp only [Checked.bind_eq_ok, Checked.pure_eq_ok] at hpop
        obtain ⟨-, -, -, -, -, -, rfl⟩ := hpop
        exact ⟨fun b hb => hq.items b (List.mem_of_mem_tail hb), hq.waits⟩

/-- A property of all buffers is that of the queue once another such buffer has
come back. -/
theorem push_forall {P : SBuffer → Prop} (hitems : ∀ d ∈ q.items, P d)
    (hwaits : ∀ d, q.Waits d → P d) (hb : P b) (h : q.push b = .ok q') :
    (∀ d ∈ q'.items, P d) ∧ ∀ d, q'.Waits d → P d := by
  cases q with
  | pool q =>
      simp only [BufferQueue.push, Checked.bind_eq_ok, Checked.pure_eq_ok] at h
      obtain ⟨q₀, hpush, rfl⟩ := h
      unfold BufferQueuePool.push at hpush
      split at hpush
      · rw [Checked.pure_eq_ok] at hpush
        exact hpush ▸ ⟨hitems, hwaits⟩
      · simp only [Checked.bind_eq_ok, Checked.pure_eq_ok] at hpush
        obtain ⟨-, -, rfl⟩ := hpush
        refine ⟨fun d hd => ?_, fun d hd => hd.elim⟩
        rcases q.queue.mem_of_mem_pushBack hd with hd | rfl
        · exact hitems d hd
        · exact hb
  | circ q =>
      simp only [BufferQueue.push, Checked.bind_eq_ok, Checked.pure_eq_ok] at h
      obtain ⟨q₀, hpush, rfl⟩ := h
      unfold BufferQueueCirc.push at hpush
      split at hpush
      · rw [Checked.pure_eq_ok] at hpush
        exact hpush ▸ ⟨hitems, hwaits⟩
      · simp only [Checked.bind_eq_ok, Checked.pure_eq_ok] at hpush
        obtain ⟨-, -, rfl⟩ := hpush
        obtain ⟨hitems', hwaits'⟩ :=
          BufferQueueCirc.ackLoop_forall (p := P) q.numBuffs
          (q := { q with
            returned := Function.update q.returned b.getUserIndex (some b) })
          hitems fun i d hd => by
            replace hd : Function.update q.returned b.getUserIndex (some b) i =
              some d := hd
            by_cases hi : i = b.getUserIndex
            · rw [hi, Function.update_self] at hd
              cases hd
              exact hb
            · rw [Function.update_of_ne hi] at hd
              exact hwaits d ⟨i, hd⟩
        refine ⟨hitems', fun d hd => ?_⟩
        obtain ⟨i, hd⟩ := hd
        exact hwaits' i d hd

/-- An unused buffer comes back. -/
theorem Unused.push (hq : q.Unused) (hb : b.length = 0)
    (h : q.push b = .ok q') : q'.Unused := by
  obtain ⟨hitems, hwaits⟩ :=
    push_forall (P := fun d => d.length = 0) hq.items hq.waits hb h
  exact ⟨hitems, hwaits⟩

end BufferQueue

namespace OutputPort

variable {p p' : OutputPort} {b c : SBuffer} {now : Int} {bytes : Nat}

/-- The bytes in the front: that of the inline buffer, or else of the queue. -/
def pending (p : OutputPort) : Nat :=
  match p.inlineBuffer with
  | some b => b.length
  | none =>
      match p.queue with
      | none => 0
      | some q => q.pending

/-- A port between two works. -/
structure Clean (p : OutputPort) : Prop where
  inline : p.inlineBuffer = none
  queue : ∀ q, p.queue = some q → q.Unused

/-- A port during a work: so many bytes are in its front. -/
structure Carrying (bytes : Nat) (p : OutputPort) : Prop where
  front : bytes ≠ 0 → p.empty = false ∧ p.pending = bytes
  queue : ∀ q, p.queue = some q → q.UnusedBehind
  hidden : p.inlineBuffer ≠ none → ∀ q, p.queue = some q → q.Unused
  emptied : p.empty = true → p.Clean

theorem Clean.carrying (hp : p.Clean) : p.Carrying 0 :=
  ⟨fun h => absurd rfl h, fun q hq => (hp.queue q hq).behind,
    fun h => absurd hp.inline h, fun _ => hp⟩

theorem Carrying.zero (hp : p.Carrying bytes) : p.Carrying 0 :=
  ⟨fun h => absurd rfl h, hp.queue, hp.hidden, hp.emptied⟩

theorem Carrying.fail (hp : p.Carrying bytes) : (p.fail now).Carrying bytes :=
  ⟨hp.front, hp.queue, hp.hidden, fun hempty => ⟨(hp.emptied hempty).inline,
    (hp.emptied hempty).queue⟩⟩

theorem clean_resized (initTime : Int) : (resized initTime now).Clean :=
  ⟨rfl, fun _ hq => nomatch hq⟩

theorem Clean.fail (hp : p.Clean) : (p.fail now).Clean := ⟨hp.inline, hp.queue⟩

theorem Clean.pending (hp : p.Clean) : p.pending = 0 := by
  unfold OutputPort.pending
  rw [hp.inline]
  dsimp only
  split
  · rfl
  · rename_i q hq
    exact (hp.queue q hq).pending

/-- Without an inline buffer and without bytes in front a port is clean. -/
theorem Carrying.clean (hp : p.Carrying bytes) (hinline : p.inlineBuffer = none)
    (hpending : p.pending = 0) : p.Clean := by
  refine ⟨hinline, fun q hq => (hp.queue q hq).unused ?_⟩
  simpa [OutputPort.pending, hinline, hq] using hpending

/-- `_update` at most looks at the front of the queue. -/
theorem update_keeps_queue (h : p.update now = .ok p') :
    p'.inlineBuffer = p.inlineBuffer ∧
      ∀ q', p'.queue = some q' →
        ∃ q, p.queue = some q ∧ (q' = q ∨ ∃ b, q.front = .ok (b, q')) := by
  refine ⟨(update_cases h).1, fun q' hq' => ?_⟩
  cases hq : p.queue with
  | none =>
      have hnone : p'.queue = none := by
        unfold OutputPort.update at h
        simp only [hq, Checked.bind_eq_ok, Checked.pure_eq_ok, Prod.exists,
          Prod.mk.injEq] at h
        obtain ⟨_, _, ⟨rfl, rfl⟩, -, -, rfl⟩ := h
        exact hq
      rw [hnone] at hq'
      cases hq'
  | some q =>
      obtain ⟨-, q₁, hq₁, hcase⟩ := update_queue hq h
      rw [hq₁] at hq'
      cases hq'
      exact ⟨q, rfl, hcase⟩

theorem Clean.update (hp : p.Clean) (h : p.update now = .ok p') : p'.Clean := by
  obtain ⟨hinline, hqueue⟩ := update_keeps_queue h
  refine ⟨hinline.trans hp.inline, fun q' hq' => ?_⟩
  obtain ⟨q, hq, rfl | ⟨b, hfront⟩⟩ := hqueue q' hq'
  · exact hp.queue q' hq
  · exact (hp.queue q hq).front hfront

/-- Looking at the front. -/
theorem front_keeps_queue (h : p.front = .ok (b, p')) :
    p'.inlineBuffer = p.inlineBuffer ∧ p'.empty = false ∧ b.length = p.pending ∧
      p'.pending = p.pending ∧
      ∀ q', p'.queue = some q' →
        ∃ q, p.queue = some q ∧ (q' = q ∨ ∃ b, q.front = .ok (b, q')) := by
  cases hinline : p.inlineBuffer with
  | some buff =>
      simp only [OutputPort.front, hinline, Checked.pure_eq_ok,
        Prod.mk.injEq] at h
      obtain ⟨rfl, rfl⟩ := h
      exact ⟨hinline,
        by simp [empty, hinline], by simp [OutputPort.pending, hinline], rfl,
        fun q' hq' => ⟨q', hq', .inl rfl⟩⟩
  | none =>
      cases hq : p.queue with
      | none => simp [OutputPort.front, hinline, hq] at h
      | some q =>
          obtain ⟨q', hfront, rfl⟩ := front_queue hinline hq h
          have hempty :=
            BufferQueue.empty_of_front (BufferQueue.front_front hfront)
          obtain ⟨hlength, hpending⟩ := BufferQueue.front_pending hfront
          refine ⟨hinline,
            by simp [empty, queueEmpty, hinline, hempty], ?_, ?_, fun q₁ hq₁ => ?_⟩
          · simpa [OutputPort.pending, hinline, hq] using hlength
          · simpa [OutputPort.pending, hinline, hq] using hpending
          · cases hq₁
            exact ⟨q, rfl, .inr ⟨b, hfront⟩⟩

theorem Carrying.front_kept (hp : p.Carrying bytes)
    (h : p.front = .ok (b, p')) : p'.Carrying bytes := by
  obtain ⟨hinline, hempty, -, hpending, hqueue⟩ := front_keeps_queue h
  constructor
  · intro hbytes
    exact ⟨hempty, hpending.trans (hp.front hbytes).2⟩
  · intro q' hq'
    obtain ⟨q, hq, rfl | ⟨b', hfront⟩⟩ := hqueue q' hq'
    · exact hp.queue q' hq
    · exact (hp.queue q hq).front hfront
  · intro hsome q' hq'
    obtain ⟨q, hq, rfl | ⟨b', hfront⟩⟩ := hqueue q' hq'
    · exact hp.hidden (hinline ▸ hsome) q' hq
    · exact (hp.hidden (hinline ▸ hsome) q hq).front hfront
  · intro hempty'
    rw [hempty] at hempty'
    cases hempty'

theorem Clean.front_kept (hp : p.Clean) (h : p.front = .ok (b, p')) :
    p'.Clean := by
  obtain ⟨hinline, -, -, hpending, -⟩ := front_keeps_queue h
  exact (hp.carrying.front_kept h).clean (hinline.trans hp.inline)
    (hpending.trans hp.pending)

/-- **A length is written to the front.** -/
theorem Carrying.setFront (hp : p.Carrying bytes) (h : p.front = .ok (b, p'))
    (c : SBuffer) : (p'.setFront c).Carrying c.length := by
  have hp' := hp.front_kept h
  obtain ⟨hinline, hempty, -, -, -⟩ := front_keeps_queue h
  cases hcase : p'.inlineBuffer with
  | some buff =>
      have hset : p'.setFront c = { p' with inlineBuffer := some c } := by
        simp [OutputPort.setFront, hcase]
      rw [hset]
      exact ⟨fun _ => ⟨by simp [empty], by simp [OutputPort.pending]⟩,
        hp'.queue, fun _ => hp'.hidden (by simp [hcase]), fun h => by
          simp [empty] at h⟩
  | none =>
      have hset : p'.setFront c =
          { p' with queue := p'.queue.map (·.setFront c) } := by
        simp [OutputPort.setFront, hcase]
      cases hq : p.queue with
      | none => simp [OutputPort.front, hinline ▸ hcase, hq] at h
      | some q =>
          obtain ⟨q', hfront, rfl⟩ := front_queue (hinline ▸ hcase) hq h
          have hbehind : (q'.setFront c).UnusedBehind :=
            (hp'.queue q' rfl).setFront c
          have hempty : (q'.setFront c).empty = false :=
            BufferQueue.setFront_empty hfront c
          have hpending : (q'.setFront c).pending = c.length :=
            BufferQueue.setFront_pending hfront c
          rw [hset]
          refine ⟨fun _ => ⟨?_, ?_⟩, fun q₁ hq₁ => ?_,
            fun hsome => absurd hcase hsome, fun hnone => ?_⟩
          · simp [empty, queueEmpty, hempty]
          · have hnone : p.inlineBuffer = none := hcase
            simpa [OutputPort.pending, hnone] using hpending
          · cases hq₁
            exact hbehind
          · simp [empty, queueEmpty, hempty] at hnone

theorem setFront_pending (h : p.front = .ok (b, p')) (c : SBuffer) :
    (p'.setFront c).pending = c.length := by
  obtain ⟨hinline, -⟩ := front_keeps_queue h
  cases hcase : p'.inlineBuffer with
  | some buff => simp [OutputPort.setFront, OutputPort.pending, hcase]
  | none =>
      cases hq : p.queue with
      | none => simp [OutputPort.front, hinline ▸ hcase, hq] at h
      | some q =>
          obtain ⟨q', hfront, rfl⟩ := front_queue (hinline ▸ hcase) hq h
          have hpending : (q'.setFront c).pending = c.length :=
            BufferQueue.setFront_pending hfront c
          have hnone : p.inlineBuffer = none := hcase
          simpa [OutputPort.setFront, OutputPort.pending, hnone] using hpending

/-- A clean port moves on. -/
theorem Clean.pop (hp : p.Clean) (h : p.pop now = .ok p') : p'.Clean := by
  unfold OutputPort.pop at h
  rw [hp.inline] at h
  dsimp only at h
  split at h
  · simp at h
  · rename_i q hq
    simp only [Checked.bind_eq_ok] at h
    obtain ⟨-, -, q', hpop, h⟩ := h
    have hclean : ({ p with queue := some q' } : OutputPort).Clean := by
      refine ⟨hp.inline, fun q₁ hq₁ => ?_⟩
      cases hq₁
      exact (hp.queue q hq).pop hpop
    exact hclean.update (by simpa only [hp.inline] using h)

/-- An unused buffer comes back. -/
theorem Clean.push (hp : p.Clean) (hb : b.length = 0)
    (h : p.push now b = .ok p') : p'.Clean := by
  unfold OutputPort.push at h
  split at h
  · rw [Checked.pure_eq_ok] at h
    exact h ▸ hp
  · rename_i q hq
    simp only [Checked.bind_eq_ok] at h
    obtain ⟨q', hpush, h⟩ := h
    have hclean : ({ p with queue := some q' } : OutputPort).Clean := by
      refine ⟨hp.inline, fun q₁ hq₁ => ?_⟩
      cases hq₁
      exact (hp.queue q hq).push hb hpush
    exact hclean.update h

/-- The port gets a queue of unused buffers. -/
theorem Clean.setBufferQueue {q : Option BufferQueue} (hp : p.Clean)
    (hq : ∀ q₁ ∈ q, q₁.Unused)
    (h : p.setBufferQueue now q = .ok p') : p'.Clean :=
  Clean.update (p := { p with queue := q })
    ⟨hp.inline, fun q₁ hq₁ => hq q₁ hq₁⟩ h

theorem Clean.setReserveBytes {numBytes : Nat} (hp : p.Clean)
    (h : p.setReserveBytes now numBytes = .ok p') : p'.Clean := by
  unfold OutputPort.setReserveBytes at h
  split at h
  · rw [Checked.pure_eq_ok] at h
    exact h ▸ ⟨hp.inline, hp.queue⟩
  · exact Clean.update (p := { p with reserveBytes := numBytes })
      ⟨hp.inline, hp.queue⟩ h

/-- An inline buffer hides a front without bytes. -/
theorem Carrying.setInline {buff : SBuffer} (hp : p.Carrying bytes)
    (hpending : p.pending = 0) (h : p.setInline buff = .ok p') :
    p'.Carrying 0 ∧ p'.pending = 0 := by
  simp only [OutputPort.setInline, Checked.bind_eq_ok, Checked.pure_eq_ok,
    assertThat_eq_ok] at h
  obtain ⟨-, hinline, rfl⟩ := h
  have hclean := hp.clean hinline hpending
  refine ⟨⟨fun h => absurd rfl h, hp.queue, fun _ => hclean.queue,
    fun h => ?_⟩, rfl⟩
  simp [empty] at h

theorem setInline_pending {buff : SBuffer} (h : p.setInline buff = .ok p') :
    p'.pending = 0 := by
  simp only [OutputPort.setInline, Checked.bind_eq_ok, Checked.pure_eq_ok] at h
  obtain ⟨-, -, rfl⟩ := h
  rfl

/-- **After a work** the port is clean again, and what was posted is what was
carried. -/
theorem Carrying.post {buff : SBuffer} (hp : p.Carrying bytes)
    (h : p.post now = .ok (buff, p')) :
    p'.Clean ∧ (bytes ≠ 0 → buff.length = bytes) := by
  simp only [OutputPort.post, Checked.bind_eq_ok, Checked.pure_eq_ok,
    Prod.mk.injEq, Prod.exists] at h
  obtain ⟨b₁, p₁, hfront, p₂, hconsume, rfl, rfl⟩ := h
  have hp₁ := hp.front_kept hfront
  have hlength := (front_keeps_queue hfront).2.2.1
  refine ⟨?_, fun hbytes => hlength.trans (hp.front hbytes).2⟩
  unfold consume at hconsume
  split at hconsume
  · rename_i hsome
    rw [Checked.pure_eq_ok] at hconsume
    subst hconsume
    exact ⟨rfl, hp₁.hidden (by simp [hsome])⟩
  · rename_i hnone
    simp only [Checked.bind_eq_ok, Prod.exists] at hconsume
    obtain ⟨-, -, b₂, p₃, hfront₂, hconsume⟩ := hconsume
    have hp₃ := hp₁.front_kept hfront₂
    obtain ⟨hinline₃, -, hlength₃, hpending₃, -⟩ := front_keeps_queue hfront₂
    split at hconsume
    · rename_i hunused
      rw [Checked.pure_eq_ok] at hconsume
      subst hconsume
      exact hp₃.clean (hinline₃.trans hnone) (by omega)
    · -- The front is emptied and popped; `_update` looks at what comes next.
      have hset := hp₁.setFront hfront₂
        { b₂ with offset := b₂.offset + b₂.length, length := 0 }
      rcases setFront_cases
        (c := { b₂ with offset := b₂.offset + b₂.length, length := 0 })
        hfront₂ with ⟨hsome, -⟩ | ⟨-, ⟨q, hq⟩, hpending⟩
      · exact absurd (hnone.symm.trans hsome) (by simp)
      · have hinline :
            (p₃.setFront
              { b₂ with offset := b₂.offset + b₂.length, length := 0 }
            ).inlineBuffer = none := by rw [hq]; exact hnone
        exact (hset.clean hinline (setFront_pending hfront₂ _)).pop hconsume

end OutputPort

end Gras
