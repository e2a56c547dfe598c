import Gras.Actor.TaskMain
import Gras.Buffers.UnusedBuffers

/-!
# The space behind a front buffer

`get_output_buffer` hands out the front buffer with its length set to that of
the whole allocation, whatever its offset is.  A pool keeps a buffer in front
that is at most half used, so the second work on it is handed bytes beyond the
end.

* `SBuffer.Fits`: the offset is inside the allocation.  Every buffer of a port
  always fits, so `_update` and `task_main` subtract without a borrow.
* `PortUse`: a port from message to message and from work to work.
* What `get_output_buffer` returns stays inside the allocation exactly while the
  front has no offset.
-/

namespace Gras

/-- The offset is inside the allocation, whose length is a `size_t`. -/
structure SBuffer.Fits (b : SBuffer) : Prop where
  offset_le : b.offset ≤ b.getActualLength
  length_lt : b.getActualLength < 2 ^ 64

theorem SBuffer.Fits.room_eq {b : SBuffer} (hb : b.Fits) :
    b.room = b.getActualLength - b.offset :=
  sizeSub_of_le hb.offset_le hb.length_lt

/-! ## Queues -/

namespace BufferQueue

variable {q q' : BufferQueue} {b c : SBuffer}

/-- Every buffer of the queue fits. -/
structure Fits (q : BufferQueue) : Prop where
  items : ∀ b ∈ q.items, b.Fits
  waits : ∀ b, q.Waits b → b.Fits

theorem Fits.front (hq : q.Fits) (h : q.front = .ok (b, q')) :
    b.Fits ∧ q'.Fits := by
  obtain ⟨b₀, rest, hitems, haim, hitems', hwaits⟩ := front_items h
  have hb₀ : b₀.Fits := hq.items b₀ (hitems ▸ List.mem_cons_self)
  have hb : b.Fits := by
    rw [haim]
    exact ⟨hb₀.offset_le, hb₀.length_lt⟩
  refine ⟨hb, fun d hd => ?_, hwaits ▸ hq.waits⟩
  rw [hitems'] at hd
  rcases List.mem_cons.mp hd with rfl | hd
  · exact hb
  · exact hq.items d (hitems ▸ List.mem_cons_of_mem _ hd)

theorem Fits.setFront (hq : q.Fits) (hc : c.Fits) : (q.setFront c).Fits := by
  obtain ⟨hitems, hwaits⟩ := setFront_items q c
  constructor
  · intro d hd
    rw [hitems] at hd
    rcases List.mem_or_eq_of_mem_set hd with hd | rfl
    · exact hq.items d hd
    · exact hc
  · rw [hwaits]
    exact hq.waits

/-- **Popping a front of any offset.**  A pool keeps it only if at most half of
it is used, and a ring does not keep it. -/
theorem Fits.pop_setFront (hq : q.Fits) (h : q.front = .ok (b, q'))
    (hlength : c.getActualLength = b.getActualLength) {q'' : BufferQueue}
    (hpop : (q'.setFront c).pop = .ok q'') : q''.Fits := by
  obtain ⟨hb, hq'⟩ := hq.front h
  have hbehind : ∀ d ∈ (q'.setFront c).items.tail, d.Fits := by
    intro d hd
    obtain ⟨b₀, rest, -, -, hitems, -⟩ := front_items h
    rw [(setFront_items q' c).1, hitems] at hd
    exact hq'.items d (hitems ▸ List.mem_cons_of_mem _ hd)
  cases q' with
  | pool q₀ =>
      simp only [BufferQueue.setFront, BufferQueue.pop, Checked.bind_eq_ok,
        Checked.pure_eq_ok] at hpop
      obtain ⟨q₁, hpop, rfl⟩ := hpop
      unfold BufferQueuePool.pop at hpop
      split at hpop
      · simp at hpop
      · rename_i buff rest hitems
        have hbuff : buff = c := by
          obtain ⟨b₀, rest₀, -, -, hfront, -⟩ := front_items h
          replace hitems : (pool q₀).items.set 0 c = buff :: rest := hitems
          rw [hfront, List.set_cons_zero, List.cons.injEq] at hitems
          exact hitems.1.symm
        split at hpop
        · rw [Checked.pure_eq_ok] at hpop
          subst hpop
          exact ⟨hbehind, fun d hd => hd.elim⟩
        · rename_i hhalf
          rw [Checked.pure_eq_ok] at hpop
          subst hpop
          subst hbuff
          refine ⟨fun d hd => ?_, fun d hd => hd.elim⟩
          replace hd : d ∈ ((pool q₀).items.set 0 buff).set 0
            { buff with last := buff.get 0 } := hd
          rw [List.set_set] at hd
          rcases List.mem_or_eq_of_mem_set hd with hd | rfl
          · exact hq'.items d hd
          · refine ⟨?_, hlength ▸ hb.length_lt⟩
            change buff.offset ≤ buff.getActualLength
            omega
  | circ q₀ =>
      simp only [BufferQueue.setFront, BufferQueue.pop, Checked.bind_eq_ok,
        Checked.pure_eq_ok] at hpop
      obtain ⟨q₁, hpop, rfl⟩ := hpop
      unfold BufferQueueCirc.pop at hpop
      split at hpop
      · simp at hpop
      · simp only [Checked.bind_eq_ok, Checked.pure_eq_ok] at hpop
        obtain ⟨-, -, -, -, -, -, rfl⟩ := hpop
        exact ⟨hbehind, hq'.waits⟩

/-- A buffer comes back. -/
theorem Fits.push (hq : q.Fits) (hb : b.Fits) (h : q.push b = .ok q') :
    q'.Fits := by
  obtain ⟨hitems, hwaits⟩ := push_forall hq.items hq.waits hb h
  exact ⟨hitems, hwaits⟩

end BufferQueue

/-! ## Ports -/

namespace OutputPort

variable {p p' : OutputPort} {b c : SBuffer} {now : Int}

/-- `get_output_buffer(o)` on this port: the length is set to the full one, so
that all of it is popped when the user does not say otherwise. -/
def getOutputBuffer (p : OutputPort) : Checked (SBuffer × OutputPort) := do
  let (buff, p) ← p.front
  let buff := { buff with length := buff.getActualLength }
  return (buff, p.setFront buff)

/-- `pop_output_buffer(o, num_bytes)` on this port. -/
def popOutputBuffer (numBytes : Nat) (p : OutputPort) : Checked OutputPort := do
  let (buff, p) ← p.front
  return p.setFront { buff with length := numBytes }

/-- Every buffer of the port fits. -/
structure Fits (p : OutputPort) : Prop where
  inline : ∀ b, p.inlineBuffer = some b → b.Fits
  queue : ∀ q, p.queue = some q → q.Fits

theorem fits_resized (initTime : Int) : (resized initTime now).Fits :=
  ⟨fun _ hb => (nomatch hb), fun _ hq => nomatch hq⟩

theorem Fits.fail (hp : p.Fits) : (p.fail now).Fits := ⟨hp.inline, hp.queue⟩

/-- What only looks at the front of the queue keeps every buffer in place. -/
theorem Fits.of_looks (hp : p.Fits) (hinline : p'.inlineBuffer = p.inlineBuffer)
    (hqueue : ∀ q', p'.queue = some q' →
      ∃ q, p.queue = some q ∧ (q' = q ∨ ∃ b, q.front = .ok (b, q'))) :
    p'.Fits := by
  refine ⟨by rw [hinline]; exact hp.inline, fun q' hq' => ?_⟩
  obtain ⟨q, hq, rfl | ⟨b, hfront⟩⟩ := hqueue q' hq'
  · exact hp.queue q' hq
  · exact ((hp.queue q hq).front hfront).2

theorem Fits.update (hp : p.Fits) (h : p.update now = .ok p') : p'.Fits := by
  obtain ⟨hinline, hqueue⟩ := update_keeps_queue h
  exact hp.of_looks hinline hqueue

theorem Fits.front (hp : p.Fits) (h : p.front = .ok (b, p')) :
    b.Fits ∧ p'.Fits := by
  obtain ⟨hinline, -, -, -, hqueue⟩ := front_keeps_queue h
  refine ⟨?_, hp.of_looks hinline hqueue⟩
  rcases front_cases h with ⟨hsome, -⟩ | ⟨-, ⟨q, q', hq, hfront⟩, -⟩
  · exact hp.inline b hsome
  · exact ((hp.queue q hq).front hfront).1

theorem Fits.setFront (hp : p.Fits) (hc : c.Fits) : (p.setFront c).Fits := by
  unfold OutputPort.setFront
  split
  · refine ⟨fun d hd => ?_, hp.queue⟩
    cases hd
    exact hc
  · refine ⟨hp.inline, fun q' hq' => ?_⟩
    obtain ⟨q, hq, rfl⟩ := Option.map_eq_some_iff.mp hq'
    exact (hp.queue q hq).setFront hc

/-- Writing a length to the front. -/
theorem Fits.setLength (hp : p.Fits) (h : p.front = .ok (b, p'))
    (length : Nat) : (p'.setFront { b with length }).Fits := by
  obtain ⟨hb, hp'⟩ := hp.front h
  exact hp'.setFront ⟨hb.offset_le, hb.length_lt⟩

theorem Fits.push (hp : p.Fits) (hb : b.Fits) (h : p.push now b = .ok p') :
    p'.Fits := by
  unfold OutputPort.push at h
  split at h
  · rw [Checked.pure_eq_ok] at h
    exact h ▸ hp
  · rename_i q hq
    simp only [Checked.bind_eq_ok] at h
    obtain ⟨q', hpush, h⟩ := h
    refine Fits.update (p := { p with queue := some q' })
      ⟨hp.inline, fun q₁ hq₁ => ?_⟩ h
    cases hq₁
    exact (hp.queue q hq).push hb hpush

theorem Fits.setBufferQueue {q : Option BufferQueue} (hp : p.Fits)
    (hq : ∀ q₁ ∈ q, q₁.Fits) (h : p.setBufferQueue now q = .ok p') : p'.Fits :=
  Fits.update (p := { p with queue := q }) ⟨hp.inline, hq⟩ h

theorem Fits.setReserveBytes {numBytes : Nat} (hp : p.Fits)
    (h : p.setReserveBytes now numBytes = .ok p') : p'.Fits := by
  unfold OutputPort.setReserveBytes at h
  split at h
  · rw [Checked.pure_eq_ok] at h
    exact h ▸ ⟨hp.inline, hp.queue⟩
  · exact Fits.update (p := { p with reserveBytes := numBytes })
      ⟨hp.inline, hp.queue⟩ h

theorem Fits.setInline (hp : p.Fits) (hb : b.Fits)
    (h : p.setInline b = .ok p') : p'.Fits := by
  simp only [OutputPort.setInline, Checked.bind_eq_ok, Checked.pure_eq_ok] at h
  obtain ⟨-, -, rfl⟩ := h
  refine ⟨fun d hd => ?_, hp.queue⟩
  cases hd
  exact ⟨hb.offset_le, hb.length_lt⟩

/-- **After a work.**  `consume` moves the front's offset by what was written,
however much that is, and pops. -/
theorem Fits.post (hp : p.Fits) (h : p.post now = .ok (b, p')) : p'.Fits := by
  simp only [OutputPort.post, Checked.bind_eq_ok, Checked.pure_eq_ok,
    Prod.mk.injEq, Prod.exists] at h
  obtain ⟨_, p₁, hfront, p₂, hconsume, rfl, rfl⟩ := h
  have hp₁ := (hp.front hfront).2
  unfold consume at hconsume
  split at hconsume
  · rw [Checked.pure_eq_ok] at hconsume
    subst hconsume
    refine ⟨fun _ hd => ?_, hp₁.queue⟩
    cases hd
  · rename_i hinline
    simp only [Checked.bind_eq_ok, Prod.exists] at hconsume
    obtain ⟨-, -, b₂, p₂, hfront₂, hconsume⟩ := hconsume
    split at hconsume
    · rw [Checked.pure_eq_ok] at hconsume
      exact hconsume ▸ (hp₁.front hfront₂).2
    · cases hq : p₁.queue with
      | none => simp [OutputPort.front, hinline, hq] at hfront₂
      | some q =>
          obtain ⟨q', hqfront, rfl⟩ := front_queue hinline hq hfront₂
          simp only [OutputPort.setFront, hinline, OutputPort.pop,
            Option.map_some, Checked.bind_eq_ok] at hconsume
          obtain ⟨-, -, q'', hpop, hupdate⟩ := hconsume
          have hq'' : q''.Fits := (hp₁.queue q hq).pop_setFront
            (c := { b₂ with offset := b₂.offset + b₂.length, length := 0 })
            hqfront rfl hpop
          refine Fits.update ⟨fun d hd => ?_, fun q₁ hq₁ => ?_⟩ hupdate
          · cases hd
          · cases hq₁
            exact hq''

end OutputPort

namespace BlockActor

variable {b : BlockActor} {o : Nat} {now : Int}

theorem call_getOutputBuffer : b.call now (.getOutputBuffer o) = do
    let (_, p) ← (b.outputQueues o).getOutputBuffer
    return b.setOutput o p := by
  simp only [call, storeLength, OutputPort.getOutputBuffer]
  cases (b.outputQueues o).front <;> rfl

theorem call_popOutputBuffer {numBytes : Nat} :
    b.call now (.popOutputBuffer o numBytes) = do
    let p ← (b.outputQueues o).popOutputBuffer numBytes
    return b.setOutput o p := by
  simp only [call, storeLength, OutputPort.popOutputBuffer]
  cases (b.outputQueues o).front <;> rfl

end BlockActor

/-! ## A port in use -/

/-- What happens to a port between works and during one. -/
inductive UseEvent where
  | setBufferQueue (q : Option BufferQueue)
  | setReserveBytes (numBytes : Nat)
  | push (buff : SBuffer)
  | flush
  /-- A work starts, on an input buffer if one is inlined. -/
  | work (inline : Option SBuffer)
  | produce (itemSize items : Nat)
  | getOutputBuffer
  | popOutputBuffer (numBytes : Nat)
  | outputFail
  /-- The work is over. -/
  | finish

/-- An output port, whether a work is on, and what `get_output_buffer` returned
last. -/
structure PortUse where
  port : OutputPort
  working : Bool
  given : Option SBuffer

namespace PortUse

/-- One event at a time of the clock. -/
def next (s : PortUse) : Int × UseEvent → Checked PortUse
  | (now, .setBufferQueue q) =>
      do return { s with port := ← s.port.setBufferQueue now q }
  | (now, .setReserveBytes numBytes) => do
      return { s with port := ← s.port.setReserveBytes now numBytes }
  | (now, .push buff) => do return { s with port := ← s.port.push now buff }
  | (now, .flush) => return { s with port := s.port.flush now }
  | (_, .work none) => do
      assertThat s.port.ready "data->output_queues.ready(i)"
      let (buff, port) ← s.port.front
      assertThat (buff.length = 0) "buff.length == 0"
      return { port, working := true, given := none }
  | (_, .work (some inline)) => do
      let port ← s.port.setInline inline
      assertThat port.ready "data->output_queues.ready(i)"
      let (buff, port) ← port.front
      assertThat (buff.length = 0) "buff.length == 0"
      return { port, working := true, given := none }
  | (_, .produce itemSize items) => do
      return { s with port := ← s.port.produce itemSize items }
  | (_, .getOutputBuffer) => do
      let (buff, port) ← s.port.getOutputBuffer
      return { s with port, given := some buff }
  | (_, .popOutputBuffer numBytes) => do
      return { s with port := ← s.port.popOutputBuffer numBytes }
  | (now, .outputFail) => return { s with port := s.port.fail now }
  | (now, .finish) =>
      if s.port.empty then return { s with working := false, given := none }
      else do
        let (_, port) ← s.port.post now
        return { port, working := false, given := none }

/-- Messages are handled between works, buffers come unused, an inlined buffer
is a slice of its allocation, and no more is popped than `get_output_buffer`
returned. -/
def Allowed (s : PortUse) (e : Int × UseEvent) : Prop :=
  match e.2 with
  | .setBufferQueue q => s.working = false ∧ ∀ q₁ ∈ q, q₁.Unused ∧ q₁.Fits
  | .setReserveBytes _ => s.working = false
  | .push buff => s.working = false ∧ buff.length = 0 ∧ buff.Fits
  | .flush => True
  | .work inline => s.working = false ∧ ∀ b ∈ inline, b.Fits
  | .produce _ _ => s.working = true
  | .getOutputBuffer => s.working = true
  | .popOutputBuffer numBytes =>
      s.working = true ∧ ∃ b ∈ s.given, numBytes ≤ b.length
  | .outputFail => s.working = true
  | .finish => s.working = true

/-- The runs of a port. -/
def system : TransitionSystem PortUse (Int × UseEvent) :=
  (TransitionSystem.ofNext
    (fun s => ∃ initTime now, s = ⟨.resized initTime now, false, none⟩)
    next).restrict Allowed

/-! ### The invariant -/

/-- Every buffer fits; between works none has bytes in it, and during one only
the front has. -/
structure Inv (s : PortUse) : Prop where
  fits : s.port.Fits
  clean : s.working = false → s.port.Clean
  carrying : s.working = true → s.port.Carrying 0

variable {s s' : PortUse} {p p' : OutputPort} {b : SBuffer} {now : Int}

theorem Inv.between (hfits : p.Fits) (hclean : p.Clean)
    {given : Option SBuffer} : Inv ⟨p, false, given⟩ :=
  ⟨hfits, fun _ => hclean, fun h => nomatch h⟩

theorem Inv.during (hfits : p.Fits) (hcarrying : p.Carrying 0)
    {given : Option SBuffer} : Inv ⟨p, true, given⟩ :=
  ⟨hfits, fun h => (nomatch h), fun _ => hcarrying⟩

/-- During a work a length is written to the front. -/
theorem Inv.setLength (hs : s.Inv) (hworking : s.working = true)
    (h : s.port.front = .ok (b, p)) (length : Nat) {given : Option SBuffer} :
    Inv { s with port := p.setFront { b with length }, given } := by
  refine ⟨hs.fits.setLength h length, fun hidle => ?_, fun _ => ?_⟩
  · rw [hworking] at hidle
    cases hidle
  · exact ((hs.carrying hworking).setFront h _).zero

/-- A work starts on a port that shows its front. -/
theorem Inv.start (hfits : p.Fits) (hcarrying : p.Carrying 0)
    (h : p.front = .ok (b, p')) : Inv ⟨p', true, none⟩ :=
  .during (hfits.front h).2 (hcarrying.front_kept h)

/-- **One event keeps the invariant.** -/
theorem Inv.step {e : Int × UseEvent} (hs : s.Inv) (hok : s.Allowed e)
    (h : s.next e = .ok s') : s'.Inv := by
  obtain ⟨now, e⟩ := e
  obtain ⟨port, working, given⟩ := s
  cases e with
  | setBufferQueue q =>
      obtain ⟨hidle, hq⟩ := hok
      simp only [next, Checked.bind_eq_ok, Checked.pure_eq_ok] at h
      obtain ⟨p, h, rfl⟩ := h
      subst hidle
      exact .between (hs.fits.setBufferQueue (fun q₁ hq₁ => (hq q₁ hq₁).2) h)
        ((hs.clean rfl).setBufferQueue (fun q₁ hq₁ => (hq q₁ hq₁).1) h)
  | setReserveBytes numBytes =>
      simp only [next, Checked.bind_eq_ok, Checked.pure_eq_ok] at h
      obtain ⟨p, h, rfl⟩ := h
      cases hok
      exact .between (hs.fits.setReserveBytes h)
        ((hs.clean rfl).setReserveBytes h)
  | push buff =>
      obtain ⟨hidle, hlength, hfits⟩ := hok
      simp only [next, Checked.bind_eq_ok, Checked.pure_eq_ok] at h
      obtain ⟨p, h, rfl⟩ := h
      subst hidle
      exact .between (hs.fits.push hfits h) ((hs.clean rfl).push hlength h)
  | flush =>
      simp only [next, Checked.pure_eq_ok] at h
      subst h
      have hclean : (port.flush now).Clean := OutputPort.clean_resized _
      exact ⟨OutputPort.fits_resized _, fun _ => hclean,
        fun _ => hclean.carrying⟩
  | work inline =>
      obtain ⟨hidle, hinline⟩ := hok
      subst hidle
      have hcarrying := (hs.clean rfl).carrying
      cases inline with
      | none =>
          simp only [next, Checked.bind_eq_ok, Checked.pure_eq_ok,
            Prod.exists] at h
          obtain ⟨-, -, b, p, hfront, -, -, rfl⟩ := h
          exact .start hs.fits hcarrying hfront
      | some buff =>
          simp only [next, Checked.bind_eq_ok, Checked.pure_eq_ok,
            Prod.exists] at h
          obtain ⟨p₁, hset, -, -, b, p, hfront, -, -, rfl⟩ := h
          exact .start (hs.fits.setInline (hinline buff rfl) hset)
            (hcarrying.setInline (hs.clean rfl).pending hset).1 hfront
  | produce itemSize items =>
      simp only [next, OutputPort.produce, Checked.bind_eq_ok,
        Checked.pure_eq_ok, Prod.exists] at h
      obtain ⟨p, ⟨b, p₁, hfront, -, -, rfl⟩, rfl⟩ := h
      exact hs.setLength hok hfront _
  | getOutputBuffer =>
      simp only [next, OutputPort.getOutputBuffer, Checked.bind_eq_ok,
        Checked.pure_eq_ok, Prod.exists, Prod.mk.injEq] at h
      obtain ⟨_, _, ⟨b, p₁, hfront, rfl, rfl⟩, rfl⟩ := h
      exact hs.setLength hok hfront _
  | popOutputBuffer numBytes =>
      simp only [next, OutputPort.popOutputBuffer, Checked.bind_eq_ok,
        Checked.pure_eq_ok, Prod.exists] at h
      obtain ⟨p, ⟨b, p₁, hfront, rfl⟩, rfl⟩ := h
      exact hs.setLength hok.1 hfront _
  | outputFail =>
      simp only [next, Checked.pure_eq_ok] at h
      subst h
      cases hok
      exact .during hs.fits.fail (hs.carrying rfl).fail
  | finish =>
      cases hok
      simp only [next] at h
      split at h
      · rename_i hempty
        rw [Checked.pure_eq_ok] at h
        subst h
        exact .between hs.fits ((hs.carrying rfl).emptied hempty)
      · simp only [Checked.bind_eq_ok, Checked.pure_eq_ok, Prod.exists] at h
        obtain ⟨b, p, hpost, rfl⟩ := h
        exact .between (hs.fits.post hpost) ((hs.carrying rfl).post hpost).1

theorem inv_of_reachable (h : system.Reachable s) : s.Inv := by
  refine h.invariant (fun s hinit => ?_) fun s e s' _ hs hstep =>
    hs.step hstep.1 hstep.2
  obtain ⟨initTime, now, rfl⟩ := hinit
  exact .between (OutputPort.fits_resized _) (OutputPort.clean_resized _)

/-! ### What is handed out -/

/-- What `get_output_buffer` returns during a work is inside the allocation. -/
def GivesWithin (s : PortUse) : Prop :=
  s.working = true → ∀ buff p, s.port.getOutputBuffer = .ok (buff, p) →
    buff.offset + buff.length ≤ buff.getActualLength

/-- The front starts inside its allocation, so `task_main`'s subtraction has no
borrow, and neither has that of `_update` between works. -/
def SpaceExact (s : PortUse) : Prop :=
  ∀ b p, s.port.front = .ok (b, p) → b.offset ≤ b.getActualLength ∧
    sizeSub b.getActualLength b.offset = b.getActualLength - b.offset ∧
    (s.working = false →
      OutputPort.available b = b.getActualLength - b.offset - b.length)

/-- The front of a work has not been used before. -/
def FrontUnused (s : PortUse) : Prop :=
  s.working = true → ∀ b p, s.port.front = .ok (b, p) → b.offset = 0

theorem Inv.spaceExact (hs : s.Inv) : s.SpaceExact := by
  intro b p hfront
  have hb := (hs.fits.front hfront).1
  refine ⟨hb.offset_le, hb.room_eq, fun hidle => ?_⟩
  have hlength : b.length = 0 :=
    (OutputPort.front_keeps_queue hfront).2.2.1.trans (hs.clean hidle).pending
  have hroom : sizeSub b.getActualLength b.offset =
      b.getActualLength - b.offset := hb.room_eq
  have hlt := hb.length_lt
  rw [OutputPort.available, hroom, sizeSub_of_le (by omega) (by omega)]

/-- The buffer handed out is the front with the full length. -/
theorem givesWithin_iff : s.GivesWithin ↔ s.FrontUnused := by
  constructor
  · intro hgives hworking b p hfront
    have hget : s.port.getOutputBuffer =
          .ok ({ b with length := b.getActualLength },
        p.setFront { b with length := b.getActualLength }) := by
      simp only [OutputPort.getOutputBuffer, hfront, Checked.ok_bind]
      rfl
    have hwithin : b.offset + b.getActualLength ≤ b.getActualLength :=
      hgives hworking _ _ hget
    omega
  · intro hunused hworking buff p hget
    simp only [OutputPort.getOutputBuffer, Checked.bind_eq_ok,
      Checked.pure_eq_ok, Prod.exists, Prod.mk.injEq] at hget
    obtain ⟨b, p₁, hfront, rfl, -⟩ := hget
    have hoffset : b.offset = 0 := hunused hworking b p₁ hfront
    change b.offset + b.getActualLength ≤ b.getActualLength
    omega

/-- **The space behind a front buffer.**  In every state of a port its
subtractions are exact, and what `get_output_buffer` returns is inside the
allocation if and only if the front of the work has not been used before. -/
theorem getOutputBuffer_within_iff (h : system.Reachable s) :
    s.GivesWithin ∧ s.SpaceExact ↔ s.FrontUnused :=
  ⟨fun hs => givesWithin_iff.mp hs.1,
    fun hs => ⟨givesWithin_iff.mpr hs, (inv_of_reachable h).spaceExact⟩⟩

/-! ### A buffer that is used twice -/

/-- The events after the queue was set. -/
def Runs (s : PortUse) (e : Int × UseEvent) : Prop :=
  match e.2 with
  | .setBufferQueue _ => False
  | _ => s.Allowed e

instance (b : SBuffer) : Decidable b.Fits :=
  decidable_of_iff (b.offset ≤ b.getActualLength ∧ b.getActualLength < 2 ^ 64)
    ⟨fun h => ⟨h.1, h.2⟩, fun h => ⟨h.offset_le, h.length_lt⟩⟩

instance (s : PortUse) : (e : Int × UseEvent) → Decidable (s.Runs e)
  | (_, .setBufferQueue _) => isFalse id
  | (_, .setReserveBytes _) => inferInstanceAs (Decidable (_ = _))
  | (_, .push _) => inferInstanceAs (Decidable (_ ∧ _ ∧ _))
  | (_, .flush) => isTrue trivial
  | (_, .work _) => inferInstanceAs (Decidable (_ ∧ ∀ b ∈ _, SBuffer.Fits b))
  | (_, .produce _ _) => inferInstanceAs (Decidable (_ = _))
  | (_, .getOutputBuffer) => inferInstanceAs (Decidable (_ = _))
  | (_, .popOutputBuffer n) =>
      inferInstanceAs (Decidable (_ ∧ ∃ b ∈ s.given, n ≤ SBuffer.length b))
  | (_, .outputFail) => inferInstanceAs (Decidable (_ = _))
  | (_, .finish) => inferInstanceAs (Decidable (_ = _))

/-- A port over a pool of one buffer that has just been made. -/
def overPool (length : Nat) : PortUse where
  port :=
    { OutputPort.resized 0 0 with
      queue := some (.pool (.make { memory := 4096, length, token := 5 } 1)) }
  working := false
  given := none

theorem overPool_reachable (length : Nat) :
    system.Reachable (overPool length) := by
  have hinit : system.Reachable ⟨.resized 0 0, false, none⟩ := .init ⟨0, 0, rfl⟩
  refine hinit.step (e := (0, .setBufferQueue (some (.pool (.make
    { memory := 4096, length, token := 5 } 1))))) ⟨⟨rfl, fun q hq => ?_⟩, rfl⟩
  cases hq
  exact ⟨⟨fun _ hb => (nomatch hb), fun _ hb => hb.elim⟩,
    ⟨fun _ hb => (nomatch hb), fun _ hb => hb.elim⟩⟩

theorem reachable_of_runs {length : Nat} {events : List (Int × UseEvent)}
    (h : TransitionSystem.runRestricted Runs next events (overPool length) =
      some s) :
    system.Reachable s := by
  refine TransitionSystem.Reachable.of_stronger_events
    (fun s e hruns => ?_) events
    (overPool_reachable length) h
  obtain ⟨now, e⟩ := e
  cases e with
  | setBufferQueue q => exact hruns.elim
  | _ => exact hruns

/-- The buffer of that pool, as it comes back to it. -/
def poolBuffer (length : Nat) : SBuffer :=
  ⟨1, { memory := 4096, length, token := 5 }, 0, 0, 0⟩

/-- The buffer arrives, works take it and write so many bytes each, and another
work starts. -/
def takes (length : Nat) (numBytes : List Nat) : List (Int × UseEvent) :=
  (0, .push (poolBuffer length)) ::
    numBytes.flatMap (fun n =>
      [(0, .work none), (0, .getOutputBuffer), (0, .popOutputBuffer n),
        (0, .finish)]) ++
    [(0, .work none)]

/-- What `get_output_buffer` would return. -/
def seen (s : PortUse) : Bool × Option (Nat × Nat × Nat) :=
  (s.working, s.port.getOutputBuffer.toOption.map fun x =>
    (x.1.offset, x.1.length, x.1.getActualLength))

/-- The first work is handed the whole buffer. -/
theorem getOutputBuffer_within_first :
    ∃ (s : PortUse) (buff : SBuffer) (p : OutputPort), s.working = true ∧
      s.port.getOutputBuffer = .ok (buff, p) ∧
      (s.GivesWithin ∧ s.SpaceExact ↔ s.FrontUnused) := by
  have hrun : (TransitionSystem.runRestricted Runs next (takes 32768 [])
      (overPool 32768)).map seen =
        some (true, some (0, 32768, 32768)) := by decide
  obtain ⟨s, hs, hseen⟩ := Option.map_eq_some_iff.mp hrun
  simp only [seen, Prod.mk.injEq, Option.map_eq_some_iff, Prod.exists,
    Checked.toOption_eq_some] at hseen
  obtain ⟨hworking, buff, p, hget, -, -⟩ := hseen
  exact ⟨s, buff, p, hworking, hget,
    getOutputBuffer_within_iff (reachable_of_runs hs)⟩

/-- **Bytes beyond the end are handed out.**  The first work writes half of the
pool's buffer, which stays in front; the second is handed as many bytes as the
allocation has, from its middle on. -/
theorem getOutputBuffer_exceeds :
    ¬ ∀ s : PortUse, system.Reachable s → s.GivesWithin ∧ s.SpaceExact := by
  intro hall
  have hrun : (TransitionSystem.runRestricted Runs next (takes 32768 [16384])
      (overPool 32768)).map seen =
        some (true, some (16384, 32768, 32768)) := by decide
  obtain ⟨s, hs, hseen⟩ := Option.map_eq_some_iff.mp hrun
  simp only [seen, Prod.mk.injEq, Option.map_eq_some_iff, Prod.exists,
    Checked.toOption_eq_some] at hseen
  obtain ⟨hworking, buff, p, hget, hoffset, hlength, hactual⟩ := hseen
  have hwithin := (hall s (reachable_of_runs hs)).1 hworking buff p hget
  omega

end PortUse

end Gras
