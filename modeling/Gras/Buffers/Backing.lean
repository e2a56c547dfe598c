import Gras.Buffers.BufferQueue
import Gras.Buffers.InputBytes

/-!
# What a stream needs from the queue behind an output port

A stream of bytes travels in slices of memory that the producer keeps re-using.
`Producer` is the producer's side of it: the memory, the queue, the handles
that are out (`held`), the buffers on their way back (`returns`), and the stream
`written` so far.  Every impl has an `anchor`: byte `x` of its memory is
position `anchor + x` of the stream.

`Backing` is the interface between a buffer queue and a stream: what a handle
has to look like (`Shape`), an invariant of the producer, and what the
operations of the queue do to it.  The consumer's side is proved once, over any
backing; the operations of an input port keep handles live and consecutive
(`Follows`).
-/

namespace Gras

/-- The producer's side of a stream. -/
structure Producer where
  memory : Memory
  queue : BufferQueue
  /-- The handles to the producer's buffers that are out. -/
  held : List SBuffer
  /-- The buffers released and not yet back in the queue. -/
  returns : List SBuffer
  /-- The stream position of the first byte of an impl's memory. -/
  anchor : Nat → Nat
  written : List Byte

namespace Producer

/-- The handle refers to a buffer that is out. -/
def Holds (P : Producer) (b : SBuffer) : Prop :=
  ∃ b' ∈ P.held, b'.impl = b.impl ∧ b'.config = b.config

/-- As far as the handle reaches, its memory is the producer's own and holds the
stream. -/
def Placed (P : Producer) (Owns : Nat → Prop) (b : SBuffer) : Prop :=
  ∀ x < b.extent, Owns (P.memory.phys (b.config.memory + x)) ∧
    P.written[P.anchor b.impl + x]? = some (P.memory.read (b.config.memory + x))

theorem Placed.congr {P : Producer} {Owns : Nat → Prop} {b b' : SBuffer}
    (h : P.Placed Owns b) (himpl : b'.impl = b.impl)
    (hconfig : b'.config = b.config) (hextent : b'.extent ≤ b.extent) :
    P.Placed Owns b' := by
  intro x hx
  rw [himpl, hconfig]
  exact h x (Nat.lt_of_lt_of_le hx hextent)

/-- What is placed has been written. -/
theorem Placed.lt_length {P : Producer} {Owns : Nat → Prop} {b : SBuffer}
    (h : P.Placed Owns b) {x : Nat} (hx : x < b.extent) :
    P.anchor b.impl + x < P.written.length :=
  (List.getElem?_eq_some_iff.mp (h x hx).2).1

/-- A placed slice denotes its stretch of the stream. -/
theorem Placed.bytes {P : Producer} {Owns : Nat → Prop} {b : SBuffer}
    (h : P.Placed Owns b) :
    b.bytes P.memory =
      (P.written.drop (P.anchor b.impl + b.offset)).take b.length := by
  refine List.ext_getElem? fun k => ?_
  rw [SBuffer.bytes]
  by_cases hk : k < b.length
  · have := (h (b.offset + k) (by unfold SBuffer.extent; omega)).2
    rw [List.getElem?_take_of_lt hk, List.getElem?_drop, Nat.add_assoc, this,
      List.getElem?_eq_getElem (by simpa using hk),
      ByteMemory.readRange_getElem]
    congr 2
    simp only [SBuffer.get]
    omega
  · rw [List.getElem?_eq_none (by simpa using hk),
      List.getElem?_eq_none (by rw [List.length_take]; omega)]

end Producer

/-- A buffer queue that can carry a stream. -/
structure Backing where
  /-- The token of its buffers. -/
  token : Nat
  /-- The cells of its buffers. -/
  Owns : Nat → Prop
  /-- Pointers that are the end of no slice of its buffers. -/
  External : Nat → Prop
  /-- What handles to its buffers look like. -/
  Shape : SBuffer → Prop
  Inv : Producer → Prop
  queue_token : ∀ {P : Producer}, Inv P → P.queue.token = token
  shape_congr : ∀ {b b' : SBuffer}, Shape b → b'.impl = b.impl →
    b'.config = b.config →
    b'.extent = b.extent → b'.last = b.last ∨ External b'.last → Shape b'
  /-- Two consecutive slices that pass the stitch test can be joined. -/
  stitched : ∀ {P : Producer} {b0 b1 : SBuffer}, Inv P → P.Holds b0 →
    P.Holds b1 →
    Shape b0 → Shape b1 → P.Placed Owns b0 → P.Placed Owns b1 →
    InputPort.Stitches b0 b1 →
    P.anchor b0.impl + b0.extent = P.anchor b1.impl + b1.offset →
    Shape (InputPort.taking b0 b1) ∧ Shape (InputPort.giving b0 b1) ∧
      P.Placed Owns (InputPort.taking b0 b1)
  /-- Only the queue's own memory matters. -/
  memory_congr : ∀ {P : Producer} {m : Memory}, Inv P → m.phys = P.memory.phys →
    (∀ a, Owns (P.memory.phys a) → m.read a = P.memory.read a) →
    Inv { P with memory := m }
  /-- Handles go; buffers whose last handle went are on their way back. -/
  released : ∀ {P : Producer} {held new : List SBuffer}, Inv P →
    (∀ b ∈ held, P.Holds b) →
    (∀ r ∈ new, ∃ b ∈ P.held, r = b.reset ∧ b.impl ∉ held.map SBuffer.impl ∧
      b.impl ∉ P.queue.buffers.map SBuffer.impl) →
    (new.map SBuffer.impl).Nodup →
    Inv { P with held := held, returns := P.returns ++ new }
  front : ∀ {P : Producer} {b : SBuffer} {q : BufferQueue}, Inv P →
    P.queue.front = .ok (b, q) → Inv { P with queue := q }
  /-- The length of a buffer is a `size_t`. -/
  sized : ∀ {P : Producer} {b : SBuffer} {q : BufferQueue}, Inv P →
    P.queue.front = .ok (b, q) → b.config.length < 2 ^ 64
  /-- Writing into the front buffer, posting a copy of it and popping it. -/
  produced : ∀ {P : Producer} {b chunk : SBuffer} {q q' q'' : BufferQueue}
    {bytes : List Byte}, Inv P → bytes ≠ [] → P.queue.front = .ok (b, q) →
    b.length = 0 → b.offset + bytes.length ≤ b.config.length →
    (q.setFront { b with length := bytes.length }).front = .ok (chunk, q') →
    (q'.setFront { chunk with offset := chunk.offset + chunk.length, length := 0 }).pop
      = .ok q'' →
    ∃ anchor : Nat → Nat,
      let P' : Producer :=
        { memory := P.memory.writeRange (b.get 0) bytes
          queue := q''
          held := P.held ++ [chunk]
          returns := P.returns
          anchor
          written := P.written ++ bytes }
      Inv P' ∧ chunk.config.token = token ∧ chunk.length = bytes.length ∧
        Shape chunk ∧ P'.Placed Owns chunk ∧
        anchor chunk.impl + chunk.offset = P.written.length ∧
        (∀ h, P.Holds h → Shape h → P.Placed Owns h →
          anchor h.impl = P.anchor h.impl ∧ P'.Placed Owns h) ∧
        ∀ a, ¬ Owns (P.memory.phys a) → P'.memory.read a = P.memory.read a
  /-- A returned buffer reaches the queue. -/
  pushed : ∀ {P : Producer} {k : Nat} {r : SBuffer} {q : BufferQueue}, Inv P →
    P.returns[k]? = some r → P.queue.push r = .ok q →
    Inv { P with queue := q, returns := P.returns.eraseIdx k }

/-- A handle that carries its stretch of the stream. -/
structure Backing.Live (B : Backing) (P : Producer) (b : SBuffer) : Prop where
  holds : P.Holds b
  shape : B.Shape b
  placed : P.Placed B.Owns b

/-- The slices are consecutive: from position `s` of the stream to position
`e`. -/
def Follows (anchor : Nat → Nat) : Nat → List SBuffer → Nat → Prop
  | s, [], e => s = e
  | s, b :: q, e =>
      anchor b.impl + b.offset = s ∧ Follows anchor (s + b.length) q e

section Follows

variable {anchor : Nat → Nat} {s e : Nat} {q q' : List SBuffer}

theorem follows_append :
    Follows anchor s (q ++ q') e ↔ ∃ t, Follows anchor s q t ∧
      Follows anchor t q' e := by
  induction q generalizing s with
  | nil => simp [Follows]
  | cons b q ih =>
      rw [List.cons_append, Follows, ih]
      constructor
      · rintro ⟨hb, t, h₁, h₂⟩
        exact ⟨t, ⟨hb, h₁⟩, h₂⟩
      · rintro ⟨t, ⟨hb, h₁⟩, h₂⟩
        exact ⟨hb, t, h₁, h₂⟩

theorem Follows.congr {anchor' : Nat → Nat} (h : Follows anchor s q e)
    (heq : ∀ b ∈ q, anchor' b.impl = anchor b.impl) :
    Follows anchor' s q e := by
  induction q generalizing s with
  | nil => exact h
  | cons b q ih =>
      refine ⟨?_, ih h.2 fun b' hb' => heq b' (List.mem_cons_of_mem _ hb')⟩
      rw [heq b List.mem_cons_self]
      exact h.1

theorem Follows.le (h : Follows anchor s q e) : s ≤ e := by
  induction q generalizing s with
  | nil => exact Nat.le_of_eq h
  | cons b q ih => exact Nat.le_trans (Nat.le_add_right _ _) (ih h.2)

/-- Consecutive placed slices denote their stretch of the stream. -/
theorem Follows.bytes {P : Producer} {Owns : Nat → Prop}
    (h : Follows P.anchor s q e) (hplaced : ∀ b ∈ q, P.Placed Owns b) :
    queueBytes P.memory q = (P.written.drop s).take (e - s) := by
  induction q generalizing s with
  | nil =>
      rw [show s = e from h, Nat.sub_self]
      rfl
  | cons b q ih =>
      have hle := h.2.le
      rw [queueBytes_cons, ih h.2 fun b' hb' =>
        hplaced b' (List.mem_cons_of_mem _ hb'),
        (hplaced b List.mem_cons_self).bytes, h.1,
        show e - s = b.length + (e - (s + b.length)) by omega, List.take_add,
        List.drop_drop]

end Follows

/-! ## The operations of an input port -/

namespace Backing

open InputPort

variable {B : Backing} {P : Producer} {s e : Nat}

theorem Live.congr {b b' : SBuffer} (h : B.Live P b) (himpl : b'.impl = b.impl)
    (hconfig : b'.config = b.config) (hextent : b'.extent = b.extent)
    (hlast : b'.last = b.last ∨ B.External b'.last) : B.Live P b' where
  holds := by
    obtain ⟨b₀, hmem, hi, hc⟩ := h.holds
    exact ⟨b₀, hmem, hi.trans himpl.symm, hc.trans hconfig.symm⟩
  shape := B.shape_congr h.shape himpl hconfig hextent hlast
  placed := h.placed.congr himpl hconfig (Nat.le_of_eq hextent)

/-- One round of stitching. -/
theorem Live.stitch (hinv : B.Inv P) {b0 b1 : SBuffer} (h0 : B.Live P b0)
    (h1 : B.Live P b1) (hst : Stitches b0 b1)
    (hnext : P.anchor b0.impl + b0.extent = P.anchor b1.impl + b1.offset) :
    B.Live P (taking b0 b1) ∧ B.Live P (giving b0 b1) := by
  obtain ⟨hshape, hshape', hplaced⟩ :=
    B.stitched hinv h0.holds h1.holds h0.shape h1.shape
    h0.placed h1.placed hst hnext
  exact ⟨⟨h0.holds, hshape, hplaced⟩,
    ⟨h1.holds, hshape',
      h1.placed.congr rfl rfl (Nat.le_of_eq (giving_extent b0 b1))⟩⟩

/-- **Stitching keeps the stream.** -/
theorem stitchLoop_live (hinv : B.Inv P) {q : List SBuffer}
    (hlive : ∀ b ∈ q, B.Live P b) (h : Follows P.anchor s q e) :
    (∀ b ∈ stitchLoop q, B.Live P b) ∧ Follows P.anchor s (stitchLoop q) e := by
  induction q generalizing s with
  | nil => exact ⟨hlive, h⟩
  | cons b0 rest ih =>
      have h0 := hlive b0 List.mem_cons_self
      obtain ⟨hrest, hfollows⟩ :=
        ih (fun b hb => hlive b (List.mem_cons_of_mem _ hb)) h.2
      rw [stitchLoop]
      cases hloop : stitchLoop rest with
      | nil =>
          rw [hloop] at hfollows
          exact ⟨fun b hb => List.mem_singleton.mp hb ▸ h0, h.1, hfollows⟩
      | cons b1 rest' =>
          rw [hloop] at hrest hfollows
          have h1 := hrest b1 List.mem_cons_self
          have hrest' : ∀ b ∈ rest', B.Live P b :=
            fun b hb => hrest b (List.mem_cons_of_mem _ hb)
          by_cases hst : Stitches b0 b1
          · have hnext : P.anchor b0.impl + b0.extent =
                P.anchor b1.impl + b1.offset := by
              have := h.1
              have := hfollows.1
              unfold SBuffer.extent
              omega
            obtain ⟨ht, hg⟩ := h0.stitch hinv h1 hst hnext
            rw [stitch_of hst]
            refine ⟨fun b hb => ?_, h.1, ?_, ?_⟩
            · rcases List.mem_cons.mp hb with rfl | hb
              · exact ht
              · rcases List.mem_cons.mp hb with rfl | hb
                · exact hg
                · exact hrest' b hb
            · show P.anchor b1.impl + (b1.offset + b1.length) =
                  s + (b0.length + b1.length)
              have := hfollows.1
              omega
            · have := hfollows.2
              show Follows _ (s + (b0.length + b1.length) + 0) rest' e
              rwa [Nat.add_zero, ← Nat.add_assoc]
          · rw [stitch_of_not hst]
            refine ⟨fun b hb => ?_, h.1, hfollows⟩
            rcases List.mem_cons.mp hb with rfl | hb
            · exact h0
            · exact hrest b hb

theorem dropStitched_follows {anchor : Nat → Nat} {q : List SBuffer}
    (h : Follows anchor s q e) : Follows anchor s (dropStitched q) e := by
  rcases dropStitched_eq q with heq | ⟨b, hb, heq⟩
  · rwa [heq]
  · rw [heq, follows_append] at h
    obtain ⟨t, ht, -, hlast⟩ := h
    have : t + b.length = e := hlast
    rw [hb, Nat.add_zero] at this
    exact this ▸ ht

/-- Bytes taken off a slice. -/
theorem Live.skip {b : SBuffer} (h : B.Live P b) {bytes : Nat}
    (hle : bytes ≤ b.length) : B.Live P (b.skip bytes) :=
  h.congr rfl rfl (skip_extent hle) (.inl rfl)

theorem follows_skip {anchor : Nat → Nat} {b : SBuffer} {rest : List SBuffer}
    {bytes : Nat} (h : Follows anchor s (b :: rest) e)
    (hle : bytes ≤ b.length) :
    Follows anchor (s + bytes) (b.skip bytes :: rest) e := by
  refine ⟨?_, ?_⟩
  · show anchor b.impl + (b.offset + bytes) = s + bytes
    have := h.1
    omega
  · show Follows anchor (s + bytes + (b.length - bytes)) rest e
    rw [show s + bytes + (b.length - bytes) = s + b.length by omega]
    exact h.2

/-- **Un-stitching keeps the stream**: what lies below the offset of a live
slice is the stream, whatever the front was. -/
theorem Live.regain {b0 b1 : SBuffer} (h : B.Live P b1)
    (hun : Unstitches b0 b1) : B.Live P (regaining b0 b1) := by
  refine h.congr rfl rfl ?_ (.inl rfl)
  have := hun.1
  simp only [SBuffer.extent, regaining]
  omega

theorem follows_regain {anchor : Nat → Nat} {b0 b1 : SBuffer}
    {rest : List SBuffer} (h : Follows anchor (s + b0.length) (b1 :: rest) e)
    (hun : Unstitches b0 b1) :
    Follows anchor s (regaining b0 b1 :: rest) e := by
  refine ⟨?_, ?_⟩
  · show anchor b1.impl + (b1.offset - b0.length) = s
    have := h.1
    have := hun.1
    omega
  · show Follows anchor (s + (b1.length + b0.length)) rest e
    rw [show s + (b1.length + b0.length) = s + b0.length + b1.length by omega]
    exact h.2

/-- Un-stitching among live slices. -/
theorem unstitch_live {q : List SBuffer} (hlive : ∀ b ∈ q, B.Live P b)
    (h : Follows P.anchor s q e) :
    (∀ b ∈ unstitch q, B.Live P b) ∧ Follows P.anchor s (unstitch q) e := by
  unfold unstitch
  split
  · rename_i b0 b1 rest
    split
    · rename_i hun
      refine ⟨fun b hb => ?_, follows_regain h.2 hun⟩
      rcases List.mem_cons.mp hb with rfl | hb
      · exact (hlive b1 (by simp)).regain hun
      · exact hlive b (by simp [hb])
    · exact ⟨hlive, h⟩
  · exact ⟨hlive, h⟩

/-- Draining the front of a queue of live slices. -/
theorem drained_live {front : SBuffer} {rest : List SBuffer} {bytes : Nat}
    (hlive : ∀ b ∈ front :: rest, B.Live P b)
    (h : Follows P.anchor s (front :: rest) e) (hle : bytes ≤ front.length) :
    (∀ b ∈ drained bytes (front :: rest), B.Live P b) ∧
      Follows P.anchor (s + bytes) (drained bytes (front :: rest)) e := by
  rw [drained_cons]
  split
  · rename_i heq
    exact ⟨fun b hb => hlive b (List.mem_cons_of_mem _ hb), heq ▸ h.2⟩
  · refine ⟨fun b hb => ?_, follows_skip h hle⟩
    rcases List.mem_cons.mp hb with rfl | hb
    · exact (hlive front List.mem_cons_self).skip hle
    · exact hlive b (List.mem_cons_of_mem _ hb)

/-- **Accumulation keeps the stream**: the handles that stay are live and follow
the bytes that were copied. -/
theorem gather_live {q : List SBuffer} (accum : SBuffer) {freeBytes : Nat}
    (m : Memory) (hlive : ∀ b ∈ q, B.Live P b) (h : Follows P.anchor s q e)
    (hoff : accum.offset = 0)
    (hfit : accum.length + freeBytes ≤ accum.config.length)
    (hext : ∀ n, 0 < n → n ≤ accum.config.length →
      B.External (accum.config.memory + n)) :
    (∀ b ∈ (gather q accum freeBytes m).queue, B.Live P b) ∧
      ∃ bytes, (gather q accum freeBytes m).accum = filled accum bytes ∧
        Follows P.anchor (s + bytes) (gather q accum freeBytes m).queue e := by
  revert s
  refine gather_rule (P := fun q accum freeBytes _ g =>
    (∀ b ∈ q, B.Live P b) → accum.offset = 0 →
    accum.length + freeBytes ≤ accum.config.length →
    (∀ n, 0 < n → n ≤ accum.config.length →
      B.External (accum.config.memory + n)) →
    ∀ {s}, Follows P.anchor s q e →
      (∀ b ∈ g.queue, B.Live P b) ∧ ∃ bytes, g.accum = filled accum bytes ∧
        Follows P.anchor (s + bytes) g.queue e) ?_ ?_ ?_ ?_ _ _ _ _ hlive
          hoff hfit hext
  · exact fun _ _ _ hlive _ _ _ _ h => ⟨hlive, 0, rfl, h⟩
  · exact fun _ _ _ _ hlive _ _ _ _ h => ⟨hlive, 0, rfl, h⟩
  · intro front rest accum freeBytes m g _ hle ih hlive hoff hfit hext s h
    obtain ⟨hlive', bytes, haccum, hfollows⟩ :=
      ih (fun b hb => hlive b (List.mem_cons_of_mem _ hb)) hoff
        (by simp only [filled]; omega) hext h.2
    refine ⟨hlive', front.length + bytes, ?_, ?_⟩
    · rw [haccum]
      simp [filled, Nat.add_assoc]
    · rwa [← Nat.add_assoc]
  · intro front rest accum freeBytes m hpos hlt hlive hoff hfit hext s h
    refine ⟨fun b hb => ?_, freeBytes, rfl, follows_skip h (Nat.le_of_lt hlt)⟩
    rcases List.mem_cons.mp hb with rfl | hb
    · have hlast : (moved accum front freeBytes).last
          = accum.config.memory + (accum.length + freeBytes) := by
        simp only [moved, SBuffer.get, hoff]
        omega
      refine (hlive front List.mem_cons_self).congr rfl rfl
        (skip_extent (b := front) (Nat.le_of_lt hlt)) (.inr ?_)
      rw [hlast]
      exact hext _ (by omega) hfit
    · exact hlive b (List.mem_cons_of_mem _ hb)

end Backing

end Gras
