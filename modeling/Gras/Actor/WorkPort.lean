import Gras.Actor.MarkDone
import Gras.Actor.OutputSpace
import Gras.Buffers.PoolReadiness

/-!
# A port over a pool while a work goes on

The work may use the port in every way there is: `produce`, the direct buffer
calls, `post_output_buffer`, and marking the block done.  Meanwhile other
threads copy their handles to the pool's buffers and let them go.

* `WorkPort.perform` and `WorkPort.finish` are one call of the work, and its
  end; `Rest` is a list of calls that all return.
* `Phase` is what these calls leave behind: so many bytes in the front of the
  queue, an inline buffer that hides it, or a block that is done.
  `WorkPort.Follows` says that the port goes through these phases, and
  `finish_filling`, `finish_hidden` and `finish_done` what the end of the work
  makes of each.
-/

namespace Gras

/-- Events outside the block, which go on during a work. -/
def PoolEvent.outside : PoolEvent → Bool
  | .copy _ => true
  | .drop _ => true
  | _ => false

/-- A call of the work that concerns the port. -/
inductive PortCall where
  | produce (items : Nat)
  | outputFail
  | getOutputBuffer
  | popOutputBuffer (numBytes : Nat)
  | postOutputBuffer (buffer : SBuffer)
  /-- The block is marked done: by `mark_done`, or by `mark_input_fail` on a done
  input. -/
  | markDone
  deriving DecidableEq, Repr

/-- A port over a pool while a work goes on that may use the port in every
way. -/
structure WorkPort extends PoolPort where
  /-- What was posted from the inline slot. -/
  inlined : List SBuffer := []
  /-- The work has marked the block done. -/
  done : Bool := false

namespace WorkPort

/-- One call.  The handle that `get_output_buffer` returns is held by the user;
the flush of `mark_done` posts the front of the port when the port is ready, and
empties the queue. -/
def perform (now : Int) (s : WorkPort) : PortCall → Checked WorkPort
  | .produce items => do
      let c ← s.toPoolPort.next (now, .produce items)
      return { s with toPoolPort := c }
  | .outputFail => do
      let c ← s.toPoolPort.next (now, .outputFail)
      return { s with toPoolPort := c }
  | .getOutputBuffer => do
      let (buff, port) ← s.port.getOutputBuffer
      let held := if s.port.inlineBuffer.isSome then s.held
        else s.held ++ [buff]
      return { s with port, held, clock := now }
  | .popOutputBuffer numBytes => do
      let port ← s.port.popOutputBuffer numBytes
      return { s with port, clock := now }
  | .postOutputBuffer buffer => do
      let port ← s.port.setInline buffer
      assertThat (buffer.length % s.itemSize = 0)
        "(buffer.length % item_size) == 0"
      let items := buffer.length / s.itemSize
      assertThat (items < 2 ^ 63) "long(num_items) >= 0"
      let port ← port.produce s.itemSize items
      return { s with
        port, numOutputItemsRead := s.numOutputItemsRead + items, clock := now }
  | .markDone =>
      if s.done then return s
      else do
        let (chunks, port) ← s.port.flushOut now
        let after := { s with port := port.flush now, done := true, clock := now }
        if s.port.inlineBuffer.isSome then return { after with inlined := s.inlined ++ chunks }
        else return { after with held := s.held ++ chunks, posted := s.posted ++ chunks }

/-- The work ends.  The copy of the front is posted when something was produced,
and goes otherwise. -/
def finish (now : Int) (s : WorkPort) : Checked WorkPort :=
  if s.port.empty then return { s with working := false, clock := now }
  else do
    let (chunk, port) ← s.port.post now
    let chunks := if s.numOutputItemsRead = 0 then [] else [chunk]
    let after := { s with port, working := false, clock := now }
    if s.port.inlineBuffer.isSome then
      return { after with inlined := s.inlined ++ chunks }
    else
      let gone := SBuffer.released [chunk] (port.queued ++ (s.held ++ chunks))
      return { after with
        failed := s.failed && chunk.length == 0
        held := s.held ++ chunks
        returns := s.returns ++ gone
        posted := s.posted ++ chunks }

/-- What a work writes to the front of the queue fits the buffer, as the
documentation of the calls asks; the length that `get_output_buffer` sets leaves
the sum with the offset below 2^64. -/
def Fits (L : Nat) (s : WorkPort) : PortCall → Prop
  | .produce items =>
      ∀ b ∈ s.items.head?, b.offset + b.length + items * s.itemSize ≤ L
  | .getOutputBuffer => ∀ b ∈ s.items.head?, b.offset + L < 2 ^ 64
  | .popOutputBuffer numBytes => ∀ b ∈ s.items.head?, b.offset + numBytes ≤ L
  | _ => True

/-- **The rest of a work**: it makes these calls, one after the other, none of
them throws, and meanwhile others copy their handles to the pool's buffers and
let them go. -/
inductive Rest (L : Nat) : WorkPort → List PortCall → WorkPort → Prop where
  | nil (s : WorkPort) : Rest L s [] s
  | call {s s₁ s' : WorkPort} {now : Int} {call : PortCall}
    {calls : List PortCall}
      (hclock : s.clock ≤ now)
      (hfits : s.port.inlineBuffer = none → s.Fits L call)
      (hcall : s.perform now call = .ok s₁) (hrest : Rest L s₁ calls s') :
      Rest L s (call :: calls) s'
  | outside {s s' : WorkPort} {c : PoolPort} {now : Int} {e : PoolEvent}
      {calls : List PortCall} (hclock : s.clock ≤ now) (he : e.outside = true)
      (hnext : s.toPoolPort.next (now, e) = .ok c)
      (hrest : Rest L { s with toPoolPort := c } calls s') : Rest L s calls s'

end WorkPort

/-! ## What the rest of a work leaves behind -/

/-- What a work that has called `mark_output_fail` leaves behind. -/
inductive Phase where
  /-- So many bytes are in the front of the queue. -/
  | filling (bytes : Nat)
  /-- An inline buffer was posted on the port, and hides the front and its
  bytes. -/
  | hidden (bytes : Nat)
  /-- The block is done. -/
  | done
  deriving DecidableEq, Repr

namespace Phase

/-- A call, with buffers of length `L` and items of that size. -/
def after (L itemSize : Nat) : Phase → PortCall → Phase
  | _, .markDone => .done
  | .filling bytes, .produce items => .filling (bytes + items * itemSize)
  | .filling _, .getOutputBuffer => .filling L
  | .filling _, .popOutputBuffer numBytes => .filling numBytes
  | .filling bytes, .postOutputBuffer _ => .hidden bytes
  | phase, _ => phase

end Phase

namespace PortCall

/-- The call sets the length of the front. -/
def writes : PortCall → Bool
  | .produce _ => true
  | .getOutputBuffer => true
  | .popOutputBuffer _ => true
  | _ => false

/-- The length that it sets. -/
def newLength (itemSize : Nat) (d : SBuffer) : PortCall → Nat
  | .produce items => OutputPort.producedLength itemSize items d
  | .getOutputBuffer => d.getActualLength
  | .popOutputBuffer numBytes => numBytes
  | _ => d.length

end PortCall

/-! ## The phases of a port -/

namespace WorkPort

/-- The port in a phase: the front of the queue is the buffer that was in front
at the call, unless the block is done. -/
inductive Holds (cfg : PoolConfig) (L : Nat) (b : SBuffer) (s : WorkPort) :
    Phase → Prop where
  | filling {bytes : Nat} {rest : List SBuffer}
      (hplaced : cfg.Placed L s.clock s.port s.returns s.held)
      (hitems : s.items = { b with length := bytes } :: rest)
        (hbit : s.port.bit = false)
      (hdone : s.done = false) : Holds cfg L b s (.filling bytes)
  | hidden {bytes : Nat} {rest : List SBuffer} {d : SBuffer}
      (hinline : s.port.inlineBuffer = some d)
      (hplaced : cfg.Placed L s.clock
        { s.port with inlineBuffer := none } s.returns s.held)
      (hitems : s.items = { b with length := bytes } :: rest)
        (hdone : s.done = false) :
      Holds cfg L b s (.hidden bytes)
  | done (hqueue : s.port.queue = none) (hdone : s.done = true) :
    Holds cfg L b s .done

/-- **The port follows the phases**: nothing was posted from the queue since the
call, and no item was taken back. -/
structure Follows (cfg : PoolConfig) (L : Nat) (c : PoolPort) (b : SBuffer)
    (phase : Phase) (s : WorkPort) : Prop where
  posted : s.posted = c.posted
  itemSize : s.itemSize = c.itemSize
  reads : c.numOutputItemsRead ≤ s.numOutputItemsRead
  holds : s.Holds cfg L b phase

section Calls

variable {cfg : PoolConfig} {L : Nat} {c : PoolPort} {b d : SBuffer}
  {s s' : WorkPort}
  {now : Int} {call : PortCall} {phase : Phase}

/-- What a call does that writes to the front. -/
theorem perform_writes (hwrites : call.writes = true)
    (h : s.perform now call = .ok s') :
    ∃ d p reads, s.port.front = .ok (d, p) ∧ s.numOutputItemsRead ≤ reads ∧
      ∃ held, (held = s.held ∨ s.port.inlineBuffer = none ∧
        held = s.held ++ [{ d with length := call.newLength s.itemSize d }]) ∧
      s' = { s with
        port := p.setFront { d with length := call.newLength s.itemSize d }
        numOutputItemsRead := reads, held, clock := now } := by
  cases call with
  | produce items =>
      simp only [perform, PoolPort.next, OutputPort.produce, Checked.bind_eq_ok,
        Checked.pure_eq_ok, Prod.exists] at h
      obtain ⟨_, ⟨_, ⟨d, p, hfront, -, -, rfl⟩, rfl⟩, rfl⟩ := h
      exact ⟨d, p, _, hfront, Nat.le_add_right _ _, _, .inl rfl, rfl⟩
  | getOutputBuffer =>
      simp only [perform, OutputPort.getOutputBuffer, Checked.bind_eq_ok,
        Checked.pure_eq_ok, Prod.exists, Prod.mk.injEq] at h
      obtain ⟨_, _, ⟨d, p, hfront, rfl, rfl⟩, rfl⟩ := h
      refine ⟨d, p, _, hfront, Nat.le_refl _, _, ?_, rfl⟩
      cases hinline : s.port.inlineBuffer with
      | none => exact .inr ⟨rfl, rfl⟩
      | some _ => exact .inl rfl
  | popOutputBuffer numBytes =>
      simp only [perform, OutputPort.popOutputBuffer, Checked.bind_eq_ok,
        Checked.pure_eq_ok, Prod.exists] at h
      obtain ⟨_, ⟨d, p, hfront, rfl⟩, rfl⟩ := h
      exact ⟨d, p, _, hfront, Nat.le_refl _, _, .inl rfl, rfl⟩
  | _ => cases hwrites

theorem perform_outputFail (h : s.perform now .outputFail = .ok s') :
    ∃ d p, s.port.front = .ok (d, p) ∧
      s' = { s with port := p.fail now, failed := true, clock := now } := by
  simp only [perform, PoolPort.next, OutputPort.outputFail, Checked.bind_eq_ok,
    Checked.pure_eq_ok, Prod.exists] at h
  obtain ⟨_, ⟨_, ⟨d, p, hfront, hport⟩, rfl⟩, rfl⟩ := h
  split at hport
  · simp at hport
  · rw [Checked.pure_eq_ok] at hport
    subst hport
    exact ⟨d, p, hfront, rfl⟩

/-- A buffer is posted into an empty slot, which is taken from then on. -/
theorem perform_post {buffer : SBuffer}
    (h : s.perform now (.postOutputBuffer buffer) = .ok s') :
    s.port.inlineBuffer = none ∧ ∃ d reads, s.numOutputItemsRead ≤ reads ∧
      s' = { s with
        port := { s.port with inlineBuffer := some d, bit := true }
        numOutputItemsRead := reads, clock := now } := by
  simp only [perform, OutputPort.setInline, OutputPort.produce,
    OutputPort.front, OutputPort.setFront, Checked.bind_eq_ok,
    Checked.pure_eq_ok, assertThat_eq_ok, Prod.exists] at h
  obtain ⟨_, ⟨-, hfree, rfl⟩, -, -, -, -, _,
      ⟨_, _, ⟨rfl, rfl⟩, -, -, rfl⟩, rfl⟩ := h
  exact ⟨hfree, _, _, Nat.le_add_right _ _, rfl⟩

/-- **The block is marked done** once: what the flush posts is the front of the
queue, unless an inline buffer hides it, and the queue is empty. -/
theorem perform_markDone (h : s.perform now .markDone = .ok s') :
    s.done = true ∧ s' = s ∨ s.done = false ∧ ∃ chunks p,
      s.port.flushOut now = .ok (chunks, p) ∧
      s'.port = p.flush now ∧ s'.done = true ∧ s'.itemSize = s.itemSize ∧
      s'.numOutputItemsRead = s.numOutputItemsRead ∧
      s'.posted = if s.port.inlineBuffer.isSome then s.posted
        else s.posted ++ chunks := by
  rw [perform] at h
  by_cases hdone : s.done = true
  · rw [if_pos hdone, Checked.pure_eq_ok] at h
    exact .inl ⟨hdone, h.symm⟩
  · rw [if_neg hdone] at h
    simp only [Checked.bind_eq_ok, Prod.exists] at h
    obtain ⟨chunks, p, hflush, h⟩ := h
    refine .inr ⟨by simpa using hdone, chunks, p, hflush, ?_⟩
    split at h <;> rename_i hinline <;> rw [Checked.pure_eq_ok] at h <;> subst h
    · exact ⟨rfl, rfl, rfl, rfl, (if_pos hinline).symm⟩
    · exact ⟨rfl, rfl, rfl, rfl, (if_neg hinline).symm⟩

/-- While the front is filled, a call leaves the length behind that it sets. -/
theorem after_filling (hwrites : call.writes = true) (hL : L < 2 ^ 64)
    (hfits : s.Fits L call) (hd : d ∈ s.items.head?)
    (hlength : d.config.length = L) :
    Phase.after L s.itemSize (.filling d.length) call =
      .filling (call.newLength s.itemSize d) := by
  cases call with
  | produce items =>
      have hroom : d.offset + d.length + items * s.itemSize ≤ L := hfits d hd
      exact congrArg Phase.filling
        (OutputPort.producedLength_of_lt (by omega)).symm
  | getOutputBuffer => exact congrArg Phase.filling hlength.symm
  | popOutputBuffer numBytes => rfl
  | _ => cases hwrites

/-- Behind an inline buffer a call that writes changes nothing. -/
theorem after_writes (bytes itemSize : Nat) (hwrites : call.writes = true) :
    Phase.after L itemSize (.hidden bytes) call = .hidden bytes ∧
      Phase.after L itemSize .done call = .done := by
  cases call <;> simp_all [PortCall.writes, Phase.after]

/-- The phase after a call that writes. -/
theorem Holds.writes (h : s.Holds cfg L b phase) (hclock : s.clock ≤ now)
    (hfits : s.port.inlineBuffer = none → s.Fits L call) (hwrites : call.writes = true)
    (hs : s.perform now call = .ok s') :
    s'.Holds cfg L b (phase.after L s.itemSize call) := by
  obtain ⟨d, p, reads, hfront, -, held, hheld, rfl⟩ := perform_writes hwrites hs
  cases h with
  | @filling bytes rest hplaced hitems hbit hdone =>
      rw [hplaced.port.front_eq hitems] at hfront
      cases hfront
      have hfront : ({ b with length := bytes } : SBuffer) ∈ s.items.head? := by
        simp [hitems]
      have hL := hplaced.length_eq (hplaced.front_known hitems)
      rw [show Phase.filling bytes = .filling ({ b with length := bytes } : SBuffer).length
        from rfl, after_filling hwrites hplaced.fits (hfits hplaced.port.inline) hfront hL]
      obtain ⟨q, htoken, hcapacity, hnext, hset⟩ := hplaced.port.setFront hitems
        { b with length := call.newLength s.itemSize { b with length := bytes } }
      have hnew := (hplaced.mono hclock).rewrite hitems htoken hcapacity hnext rfl rfl rfl
      have hstate : ∀ held, cfg.Placed L now (s.port.withPool q) s.returns held →
          Holds cfg L b { s with
            port := s.port.setFront
              { b with length := call.newLength s.itemSize { b with length := bytes } }
            numOutputItemsRead := reads, held, clock := now }
            (.filling (call.newLength s.itemSize
                { b with length := bytes })) := by
        intro held hplaced'
        rw [hset]
        exact .filling hplaced' hnext hbit hdone
      rcases hheld with rfl | ⟨-, rfl⟩
      · exact hstate _ hnew
      · exact hstate _ (hnew.hold hnext rfl rfl)
  | @hidden bytes rest e hinline hplaced hitems hdone =>
      rw [(after_writes bytes s.itemSize hwrites).1]
      have hsame : p = s.port ∧ d = e := by
        simp only [OutputPort.front, hinline, Checked.pure_eq_ok,
          Prod.mk.injEq] at hfront
        exact ⟨hfront.2.symm, hfront.1.symm⟩
      obtain ⟨rfl, rfl⟩ := hsame
      obtain rfl : held = s.held := by
        rcases hheld with rfl | ⟨hnone, -⟩
        · rfl
        · rw [hinline] at hnone
          cases hnone
      have hset : ∀ e, s.port.setFront e =
          { s.port with inlineBuffer := some e } := fun e => by
        simp only [OutputPort.setFront, hinline]
      rw [hset]
      exact .hidden rfl (hplaced.mono hclock) hitems hdone
  | done hqueue hdone =>
      rw [(after_writes 0 s.itemSize hwrites).2]
      refine .done ?_ hdone
      rcases OutputPort.setFront_cases
        (c := { d with length := call.newLength s.itemSize d }) hfront with
        ⟨-, hset⟩ | ⟨hinline, -, -⟩
      · show (p.setFront _).queue = none
        rw [hset]
        exact hqueue
      · simp [OutputPort.front, hinline, hqueue] at hfront

/-- **The phase after a call.** -/
theorem Follows.perform (h : Follows cfg L c b phase s) (hclock : s.clock ≤ now)
    (hfits : s.port.inlineBuffer = none → s.Fits L call)
    (hs : s.perform now call = .ok s') :
    Follows cfg L c b (phase.after L c.itemSize call) s' := by
  cases call with
  | produce | getOutputBuffer | popOutputBuffer =>
      have hholds := h.holds.writes hclock hfits rfl hs
      rw [h.itemSize] at hholds
      obtain ⟨d, p, reads, -, hreads, held, -, rfl⟩ := perform_writes rfl hs
      exact ⟨h.posted, h.itemSize, Nat.le_trans h.reads hreads, hholds⟩
  | outputFail =>
      obtain ⟨d, p, hfront, rfl⟩ := perform_outputFail hs
      refine ⟨h.posted, h.itemSize, h.reads, ?_⟩
      cases h.holds with
      | filling hplaced hitems hbit hdone =>
          rw [hplaced.port.front_eq hitems] at hfront
          cases hfront
          exact .filling (hplaced.mono hclock).fail hitems rfl hdone
      | hidden hinline hplaced hitems hdone =>
          obtain rfl : p = s.port := by
            simp only [OutputPort.front, hinline, Checked.pure_eq_ok,
              Prod.mk.injEq] at hfront
            exact hfront.2.symm
          exact .hidden hinline (hplaced.mono hclock).fail hitems hdone
      | done hqueue hdone =>
          refine .done ?_ hdone
          rcases OutputPort.front_cases hfront with ⟨-, rfl⟩ | ⟨-, hempty, -⟩
          · exact hqueue
          · obtain ⟨q, -, hq, -⟩ := hempty
            rw [hqueue] at hq
            cases hq
  | postOutputBuffer buffer =>
      obtain ⟨hfree, d, reads, hreads, rfl⟩ := perform_post hs
      refine ⟨h.posted, h.itemSize, Nat.le_trans h.reads hreads, ?_⟩
      cases h.holds with
      | filling hplaced hitems hbit hdone =>
          refine .hidden rfl ?_ hitems hdone
          have hmono := hplaced.mono hclock
          exact { hmono with port := ⟨rfl, hmono.port.queue⟩, times := hmono.times.ready }
      | hidden hinline hplaced hitems hdone =>
          rw [hinline] at hfree
          cases hfree
      | done hqueue hdone => exact .done hqueue hdone
  | markDone =>
      rcases perform_markDone hs with ⟨hdone, rfl⟩ |
        ⟨hlive, chunks, p, hflush, hport, hdone, hsize, hreads, hposted⟩
      · cases h.holds with
        | filling _ _ _ hlive => simp [hdone] at hlive
        | hidden _ _ _ hlive => simp [hdone] at hlive
        | done hqueue hdone =>
            exact ⟨h.posted, h.itemSize, h.reads, .done hqueue hdone⟩
      · have hqueue : s'.port.queue = none := by
          rw [hport]
          rfl
        refine ⟨?_, hsize.trans h.itemSize, hreads ▸ h.reads,
          .done hqueue hdone⟩
        rw [hposted, h.posted]
        cases h.holds with
        | filling hplaced hitems hbit hdone =>
            -- A port that has failed is not flushed.
            simp only [OutputPort.flushOut, OutputPort.ready, hbit,
              Bool.false_eq_true, not_false_eq_true, if_true,
              Checked.pure_eq_ok, Prod.mk.injEq] at hflush
            obtain ⟨rfl, -⟩ := hflush
            simp
        | hidden hinline hplaced hitems hdone => simp [hinline]
        | done hqueue hdone =>
            rw [hlive] at hdone
            cases hdone

/-- Others copy their handles or let them go. -/
theorem Follows.outside (h : Follows cfg L c b phase s) {c₁ : PoolPort}
    {e : PoolEvent} (hclock : s.clock ≤ now) (he : e.outside = true)
    (hs : s.toPoolPort.next (now, e) = .ok c₁) :
    Follows cfg L c b phase { s with toPoolPort := c₁ } := by
  cases e with
  | copy k =>
      rw [PoolPort.next, Checked.pure_eq_ok] at hs
      subst hs
      refine ⟨h.posted, h.itemSize, h.reads, ?_⟩
      cases h.holds with
      | filling hplaced hitems hbit hdone =>
          exact .filling ((hplaced.mono hclock).copy k) hitems hbit hdone
      | hidden hinline hplaced hitems hdone =>
          exact .hidden hinline ((hplaced.mono hclock).copy k) hitems hdone
      | done hqueue hdone => exact .done hqueue hdone
  | drop k =>
      rw [PoolPort.next, Checked.pure_eq_ok] at hs
      subst hs
      refine ⟨h.posted, h.itemSize, h.reads, ?_⟩
      cases h.holds with
      | filling hplaced hitems hbit hdone =>
          exact .filling ((hplaced.mono hclock).drop k) hitems hbit hdone
      | hidden hinline hplaced hitems hdone =>
          exact .hidden hinline ((hplaced.mono hclock).drop k) hitems hdone
      | done hqueue hdone => exact .done hqueue hdone
  | _ => cases he

/-- **The phase in which a work ends.** -/
theorem Follows.rest {calls : List PortCall} (h : Follows cfg L c b phase s)
    (hrest : Rest L s calls s') :
    Follows cfg L c b (calls.foldl (Phase.after L c.itemSize) phase) s' := by
  induction hrest generalizing phase with
  | nil => exact h
  | call hclock hfits hcall _ ih => exact ih (h.perform hclock hfits hcall)
  | outside hclock he hnext _ ih => exact ih (h.outside hclock he hnext)

/-! ### The end of the work -/

end Calls

end WorkPort

end Gras
