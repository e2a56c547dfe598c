import Gras.Buffers.Backing
import Gras.Buffers.RingSafety

/-!
# A ring carries a stream

The instance of `Backing` for `BufferQueueCirc`.  A ring whose memory is mapped
twice in a row holds the latest stretch of the stream at the positions' residues
(`RingStream.cells`), so every slice that starts in a live chunk may be read on
into the chunks behind it, whatever lies between their buffers.

* `chunkAt`: the stream position of the chunk a buffer carries.
* `RingStream`: the ring invariant together with the contents of the ring.
* `RingStream.Carries`: the queue is such a ring.
* `ringBacking`: the interface, from one lemma for each operation.
-/

namespace Gras

/-! ## Where a chunk is -/

/-- The stream position and the address of the chunk with that user index. -/
def chunkAt : Nat → List Chunk → Nat → Option (Nat × Nat)
  | _, [], _ => none
  | s, c :: cs, i =>
      if c.index = i then some (s, c.address) else chunkAt (s + c.size) cs i

theorem chunkAt_append_left {s i : Nat} {cs : List Chunk} {r : Nat × Nat}
    (h : chunkAt s cs i = some r) (ds : List Chunk) :
    chunkAt s (cs ++ ds) i = some r := by
  induction cs generalizing s with
  | nil => cases h
  | cons c cs ih =>
      rw [chunkAt] at h
      rw [List.cons_append, chunkAt]
      split
      · rename_i hi
        rwa [if_pos hi] at h
      · rename_i hi
        rw [if_neg hi] at h
        exact ih h

theorem chunkAt_append_right {s i : Nat} {cs : List Chunk}
    (h : i ∉ cs.map Chunk.index) (ds : List Chunk) :
    chunkAt s (cs ++ ds) i =
      chunkAt (s + (cs.map fun c => c.size).sum) ds i := by
  induction cs generalizing s with
  | nil => rfl
  | cons c cs ih =>
      rw [List.map_cons, List.mem_cons, not_or] at h
      rw [List.cons_append, chunkAt, if_neg (Ne.symm h.1), ih h.2,
        List.map_cons, List.sum_cons, Nat.add_assoc]

theorem chunkAt_laid {base lap s e i p a : Nat} {cs : List Chunk}
    (hlaid : LaidOut base lap (cs.map Chunk.toRingSegment) s e)
    (h : chunkAt s cs i = some (p, a)) :
    s ≤ p ∧ base ≤ a ∧ (a - base) % lap = p % lap := by
  induction cs generalizing s with
  | nil => cases h
  | cons c cs ih =>
      obtain ⟨hb, hm, hrest⟩ := hlaid
      rw [chunkAt] at h
      split at h
      · rw [Option.some.injEq, Prod.mk.injEq] at h
        obtain ⟨rfl, rfl⟩ := h
        exact ⟨Nat.le_refl _, hb, hm⟩
      · obtain ⟨hle, hrest⟩ := ih hrest h
        exact ⟨Nat.le_trans (Nat.le_add_right _ _) hle, hrest⟩

/-! ## The queue -/

namespace BufferQueueCirc

/-- A property of all buffers survives the acknowledge loop. -/
theorem ackLoop_forall {p : SBuffer → Prop} :
    ∀ (rounds : Nat) {q : BufferQueueCirc}, (∀ b ∈ q.available.items, p b) →
      (∀ i b, q.returned i = some b → p b) →
      (∀ b ∈ (ackLoop rounds q).available.items, p b) ∧
        ∀ i b, (ackLoop rounds q).returned i = some b → p b := by
  intro rounds
  induction rounds with
  | zero => exact fun h₁ h₂ => ⟨h₁, h₂⟩
  | succ rounds ih =>
      intro q h₁ h₂
      rw [ackLoop]
      split
      · exact ⟨h₁, h₂⟩
      · rename_i buff hbuff
        refine ih (fun b hb => ?_) fun i b hb => ?_
        · rcases q.available.mem_of_mem_pushBack hb with hb | rfl
          · exact h₁ b hb
          · exact h₂ _ _ hbuff
        · change Function.update q.returned q.ackIndex none i = some b at hb
          by_cases hi : i = q.ackIndex
          · rw [hi, Function.update_self] at hb
            cases hb
          · rw [Function.update_of_ne hi] at hb
            exact h₂ i b hb

end BufferQueueCirc

/-! ## The invariant -/

/-- A buffer outside the queue: its impl is its user index. -/
structure RingConfig.Lent (cfg : RingConfig) (b : SBuffer) : Prop where
  token : b.config.token = cfg.token
  length : b.config.length = cfg.length
  impl : b.impl = b.getUserIndex

/-- **The ring with its contents.** -/
structure RingStream (cfg : RingConfig) (P : Producer) (q : BufferQueueCirc)
    (popped : List Chunk) (s : Nat) : Prop where
  /-- The double mapping. -/
  phys : ∀ a, cfg.circMemory ≤ a → a < cfg.circMemory + 2 * cfg.circLength →
    P.memory.phys a = cfg.circMemory + (a - cfg.circMemory) % cfg.circLength
  ring : RingInv cfg q popped
    (fun i => i ∈ (P.held ++ P.returns).map SBuffer.getUserIndex) s
    P.written.length
  /-- The ring holds the latest stretch of the stream. -/
  cells : ∀ p, s ≤ p → p < P.written.length →
    P.written[p]? = some (P.memory.cell (cfg.circMemory + p % cfg.circLength))
  anchors : ∀ b ∈ P.held,
    chunkAt s popped b.getUserIndex = some (P.anchor b.impl, b.config.memory) ∧
      b.config.memory ≤ cfg.circMemory + cfg.circLength
  lent : ∀ b ∈ P.held ++ P.returns, cfg.Lent b
  free : ∀ b ∈ q.available.items, b.impl = b.getUserIndex
  waiting : ∀ i b, q.returned i = some b → b.impl = b.getUserIndex
  nodup : (P.returns.map SBuffer.getUserIndex).Nodup
  apart : ∀ r ∈ P.returns, r.offset = 0 ∧ r.length = 0 ∧
    r.getUserIndex ∉ P.held.map SBuffer.getUserIndex

namespace RingStream

open InputPort

variable {cfg : RingConfig} {P : Producer} {q : BufferQueueCirc}
variable {popped : List Chunk} {s : Nat}

/-- The cells of the ring. -/
def Owns (cfg : RingConfig) (c : Nat) : Prop :=
  cfg.circMemory ≤ c ∧ c < cfg.circMemory + cfg.circLength

theorem circLength_pos (cfg : RingConfig) : 0 < cfg.circLength :=
  (Nat.mul_pos cfg.numBuffs_pos cfg.length_pos).trans_le cfg.fits

/-- **A slice of the ring may be read on** from the start of its chunk to the
end of the stream. -/
theorem placed (h : RingStream cfg P q popped s) {b : SBuffer} (hb : P.Holds b)
    {x : Nat} (hx : P.anchor b.impl + x < P.written.length) :
    Owns cfg (P.memory.phys (b.config.memory + x)) ∧
      P.written[P.anchor b.impl + x]? =
        some (P.memory.read (b.config.memory + x)) := by
  obtain ⟨b', hmem, hi, hc⟩ := hb
  obtain ⟨hat, hle⟩ := h.anchors b' hmem
  rw [hi, hc] at hat
  rw [hc] at hle
  obtain ⟨hs, hbase, hmod⟩ := chunkAt_laid h.ring.laid hat
  have hbytes := h.ring.bytes
  have hpos := circLength_pos cfg
  have hphys := h.phys (b.config.memory + x) (by omega) (by omega)
  rw [show b.config.memory + x - cfg.circMemory =
    b.config.memory - cfg.circMemory + x
    by omega, add_mod_congr x hmod] at hphys
  have hlt := Nat.mod_lt (P.anchor b.impl + x) hpos
  refine ⟨?_, ?_⟩
  · rw [hphys]
    exact ⟨by omega, by omega⟩
  · rw [h.cells _ (by omega) hx, ByteMemory.read, hphys]

theorem memory_congr (h : RingStream cfg P q popped s) {m : Memory}
    (hphys : m.phys = P.memory.phys)
    (hread : ∀ a, Owns cfg (P.memory.phys a) → m.read a = P.memory.read a) :
    RingStream cfg { P with memory := m } q popped s := by
  refine { h with phys := fun a h₁ h₂ => hphys ▸ h.phys a h₁ h₂, cells := ?_ }
  intro p hs hp
  have hpos := circLength_pos cfg
  have hlt := Nat.mod_lt p hpos
  -- the cell is the one behind its own address
  have hself :=
    h.phys (cfg.circMemory + p % cfg.circLength) (by omega) (by omega)
  rw [Nat.add_sub_cancel_left, Nat.mod_mod] at hself
  have howns :
      Owns cfg (P.memory.phys (cfg.circMemory + p % cfg.circLength)) := by
    rw [hself]
    exact ⟨Nat.le_add_right _ _, by omega⟩
  have hcell := hread _ howns
  rw [ByteMemory.read, ByteMemory.read, hphys, hself] at hcell
  show P.written[p]? = some (m.cell _)
  rw [hcell]
  exact h.cells p hs hp

theorem released (h : RingStream cfg P q popped s) {held new : List SBuffer}
    (hheld : ∀ b ∈ held, P.Holds b)
    (hnew : ∀ r ∈ new, ∃ b ∈ P.held, r = b.reset ∧
      b.impl ∉ held.map SBuffer.impl)
    (hnodup : (new.map SBuffer.impl).Nodup) :
    RingStream cfg { P with held := held, returns := P.returns ++ new } q
      popped s := by
  have hindex : ∀ b ∈ held, ∃ b' ∈ P.held,
      b'.impl = b.impl ∧ b'.config = b.config := hheld
  have hlent : ∀ b ∈ held, cfg.Lent b := by
    intro b hb
    obtain ⟨b', hb', hi, hc⟩ := hindex b hb
    have := h.lent b' (by simp [hb'])
    exact ⟨hc ▸ this.token, hc ▸ this.length, by
      rw [← hi, this.impl, SBuffer.getUserIndex, hc, SBuffer.getUserIndex]⟩
  have hlent' : ∀ r ∈ new, cfg.Lent r := by
    intro r hr
    obtain ⟨b, hb, rfl, -⟩ := hnew r hr
    exact { h.lent b (by simp [hb]) with }
  have hsub : ∀ i, i ∈ held.map SBuffer.getUserIndex →
      i ∈ P.held.map SBuffer.getUserIndex := by
    intro i hi
    obtain ⟨b, hb, rfl⟩ := List.mem_map.mp hi
    obtain ⟨b', hb', -, hc⟩ := hindex b hb
    exact List.mem_map.mpr
      ⟨b', hb', by rw [SBuffer.getUserIndex, hc, SBuffer.getUserIndex]⟩
  refine
    { h with
      ring := h.ring.mono fun i hi => ?_
      anchors := ?_
      lent := ?_
      nodup := ?_
      apart := ?_ }
  · simp only [List.map_append, List.mem_append] at hi ⊢
    rcases hi with hi | hi | hi
    · exact .inl (hsub i hi)
    · exact .inr hi
    · obtain ⟨r, hr, rfl⟩ := List.mem_map.mp hi
      obtain ⟨b, hb, rfl, -⟩ := hnew r hr
      exact .inl (show b.getUserIndex ∈ _ from List.mem_map_of_mem hb)
  · intro b hb
    obtain ⟨b', hb', hi, hc⟩ := hindex b hb
    have := h.anchors b' hb'
    rwa [SBuffer.getUserIndex, hi, hc] at this
  · intro b hb
    simp only [List.mem_append] at hb
    rcases hb with hb | hb | hb
    · exact hlent b hb
    · exact h.lent b (by simp [hb])
    · exact hlent' b hb
  · have hnew' : new.map SBuffer.getUserIndex = new.map SBuffer.impl :=
      List.map_congr_left fun r hr => (hlent' r hr).impl.symm
    rw [List.map_append, List.nodup_append', hnew']
    refine ⟨h.nodup, hnodup, fun i hi hi' => ?_⟩
    obtain ⟨r, hr, rfl⟩ := List.mem_map.mp hi
    obtain ⟨r', hr', heq⟩ := List.mem_map.mp hi'
    obtain ⟨b, hb, rfl, -⟩ := hnew r' hr'
    refine (h.apart r hr).2.2 ?_
    rw [← heq, SBuffer.reset_impl, (h.lent b (by simp [hb])).impl]
    exact List.mem_map_of_mem hb
  · intro r hr
    rcases List.mem_append.mp hr with hr | hr
    · obtain ⟨h₁, h₂, h₃⟩ := h.apart r hr
      exact ⟨h₁, h₂, fun hi => h₃ (hsub _ hi)⟩
    · obtain ⟨b, hb, rfl, hout⟩ := hnew r hr
      refine ⟨rfl, rfl, fun hi => hout ?_⟩
      obtain ⟨b', hb', heq⟩ := List.mem_map.mp hi
      refine List.mem_map.mpr ⟨b', hb', ?_⟩
      rw [(hlent b' hb').impl, heq]
      exact (h.lent b (by simp [hb])).impl.symm

/-- Looking at the front. -/
theorem front (h : RingStream cfg P q popped s) {b : SBuffer}
    {q' : BufferQueueCirc} (hfront : q.front = .ok (b, q')) :
    RingStream cfg P q' popped s ∧
      ∃ rest, q'.available.items = b :: rest ∧ b.config.memory = q'.writePtr ∧
        b.last = q'.lastPtr ∧ b.config.length = cfg.length ∧ b.offset = 0 ∧
        b.config.token = cfg.token ∧ b.impl = b.getUserIndex := by
  obtain ⟨buff, rest, hitems, havail, hoff, rfl, rfl⟩ := q.front_eq_ok hfront
  have hne : q.empty = false := by simp [BufferQueueCirc.empty, havail, hitems]
  obtain ⟨buff', rest', hitems', hidle, -, hring⟩ := h.ring.front hne
  obtain ⟨rfl, rfl⟩ := List.cons.inj (hitems.symm.trans hitems')
  have himpl := h.free buff (by simp [hitems])
  have hset := BufferQueueCirc.setFront_items hitems (q.aimed buff)
  refine ⟨{ h with ring := hring, free := fun b hb => ?_ }, rest, hset, rfl,
    rfl, hidle.length, hoff, hidle.token, himpl⟩
  rw [hset] at hb
  rcases List.mem_cons.mp hb with rfl | hb
  · exact himpl
  · exact h.free b (by simp [hitems, hb])

/-- A returned buffer reaches the queue. -/
theorem pushed (h : RingStream cfg P q popped s) {k : Nat} {r : SBuffer}
    {q' : BufferQueueCirc} (hk : P.returns[k]? = some r)
    (hpush : q.push r = .ok q') :
    ∃ popped' s', RingStream cfg
      { P with returns := P.returns.eraseIdx k } q' popped' s' := by
  have hr : r ∈ P.returns := List.mem_of_getElem? hk
  have hlent := h.lent r (by simp [hr])
  obtain ⟨hoff, hlen, hapart⟩ := h.apart r hr
  obtain ⟨l₁, l₂, hl, herase⟩ := List.exists_split_of_getElem? hk
  obtain ⟨q₁, acked, rest, s', hpush', hsplit, hring, -, -⟩ :=
    h.ring.push (b := r) ⟨hlent.token, hlent.length, hoff, hlen⟩
      (List.mem_map_of_mem (by simp [hr]))
  obtain rfl : q' = q₁ := by
    rw [hpush, Except.ok.injEq] at hpush'
    exact hpush'
  have hnodup := h.nodup
  rw [hl, List.map_append, List.map_cons, List.nodup_middle, List.nodup_cons,
    ← List.map_append] at hnodup
  have hsub : ∀ b ∈ P.returns.eraseIdx k, b ∈ P.returns :=
    fun b hb => List.mem_of_mem_eraseIdx hb
  have hout : ∀ i,
      i ∈ (P.held ++ P.returns.eraseIdx k).map SBuffer.getUserIndex →
      i ∈ (P.held ++ P.returns).map SBuffer.getUserIndex ∧
      i ≠ r.getUserIndex := by
    intro i hi
    rw [herase] at hi
    rw [hl]
    simp only [List.map_append, List.map_cons, List.mem_append,
      List.mem_cons] at hi ⊢
    rcases hi with hi | hi | hi
    · refine ⟨.inl hi, ?_⟩
      rintro rfl
      exact hapart hi
    · refine ⟨.inr (.inl hi), ?_⟩
      rintro rfl
      exact hnodup.1 (by simp [hi])
    · refine ⟨.inr (.inr (.inr hi)), ?_⟩
      rintro rfl
      exact hnodup.1 (by simp [hi])
  have hring' := hring.mono hout
  have hs : s' = s + (acked.map fun c => c.size).sum := by
    have h₁ := h.ring.end_eq
    have h₂ := hring.end_eq
    rw [hsplit, List.map_append, List.sum_append] at h₁
    omega
  have hall : (∀ b ∈ q'.available.items, b.impl = b.getUserIndex) ∧
      ∀ i b, q'.returned i = some b → b.impl = b.getUserIndex := by
    unfold BufferQueueCirc.push at hpush
    rw [if_neg (by rw [h.ring.token, hlent.token, ne_eq, not_not])] at hpush
    simp only [Checked.bind_eq_ok, assertThat_eq_ok,
      Checked.pure_eq_ok] at hpush
    obtain ⟨-, -, rfl⟩ := hpush
    refine BufferQueueCirc.ackLoop_forall _ h.free fun i b hb => ?_
    change Function.update q.returned r.getUserIndex (some r) i = some b at hb
    by_cases hi : i = r.getUserIndex
    · rw [hi, Function.update_self, Option.some.injEq] at hb
      exact hb ▸ hlent.impl
    · rw [Function.update_of_ne hi] at hb
      exact h.waiting i b hb
  refine ⟨rest, s',
    { h with
      ring := hring'
      cells := fun p hp => h.cells p (by omega)
      anchors := fun b hb => ⟨?_, (h.anchors b hb).2⟩
      lent := fun b hb => h.lent b ?_
      free := hall.1
      waiting := hall.2
      nodup := ?_
      apart := fun b hb => h.apart b (hsub b hb) }⟩
  · -- what is still out was not acknowledged
    have hmem :=
      hring'.outside_mem b.getUserIndex (by simp [List.mem_map_of_mem hb])
    have hnd := (List.nodup_append'.mp h.ring.nodup).1
    rw [hsplit, List.map_append] at hnd
    have hnot : b.getUserIndex ∉ acked.map Chunk.index :=
      fun hi => (List.nodup_append'.mp hnd).2.2 hi hmem
    have hat := (h.anchors b hb).1
    rwa [hsplit, chunkAt_append_right hnot, ← hs] at hat
  · rw [List.mem_append] at hb ⊢
    exact hb.imp_right (hsub b)
  · show ((P.returns.eraseIdx k).map SBuffer.getUserIndex).Nodup
    rw [herase]
    exact hnodup.2

/-- The cells behind the bytes to be written: the next positions of the
stream. -/
theorem phys_write (h : RingStream cfg P q popped s) {k : Nat}
    (hk : k < cfg.circLength) :
    P.memory.phys (q.writePtr + k)
      = cfg.circMemory + (P.written.length + k) % cfg.circLength := by
  have hge := h.ring.write_ge
  have hle := h.ring.write_le
  rw [h.phys _ (by omega) (by omega),
    show q.writePtr + k - cfg.circMemory =
      q.writePtr - cfg.circMemory + k by omega,
    add_mod_congr k h.ring.write_mod]

/-- Writing at the write pointer extends the stream and overwrites none of
it. -/
theorem cells_write (h : RingStream cfg P q popped s) {bytes : List Byte}
    (hroom : bytes.length ≤ q.bytesAvail) :
    ∀ p, s ≤ p → p < (P.written ++ bytes).length →
      (P.written ++ bytes)[p]? =
        some ((P.memory.writeRange q.writePtr bytes).cell
        (cfg.circMemory + p % cfg.circLength)) := by
  have hbytes := h.ring.bytes
  have hend := h.ring.end_eq
  have hpos := circLength_pos cfg
  intro p hs hp
  rw [List.length_append] at hp
  rcases Nat.lt_or_ge p P.written.length with hlt | hge
  · have hmod := Nat.mod_lt p hpos
    have hself :=
      h.phys (cfg.circMemory + p % cfg.circLength) (by omega) (by omega)
    rw [Nat.add_sub_cancel_left, Nat.mod_mod] at hself
    have hsame := P.memory.read_writeRange_of_ne (a := q.writePtr) (l := bytes)
      (x := cfg.circMemory + p % cfg.circLength) (fun k hk heq => ?_)
    · rw [ByteMemory.read, ByteMemory.read, ByteMemory.phys_writeRange,
        hself] at hsame
      rw [List.getElem?_append_left hlt, hsame]
      exact h.cells p hs hlt
    · rw [hself, h.phys_write (by omega)] at heq
      have := eq_of_mod_eq_of_window cfg.circLength (s := s) (x := p)
        (y := P.written.length + k) (by omega) (by omega) (by omega)
        (by omega) (by omega)
      omega
  · obtain ⟨k, rfl⟩ := Nat.exists_eq_add_of_le hge
    have hk : k < bytes.length := by omega
    have hread := P.memory.read_writeRange (a := q.writePtr) (l := bytes)
      (fun i j hij hj heq => ?_) k hk
    · rw [ByteMemory.read, ByteMemory.phys_writeRange,
        h.phys_write (by omega)] at hread
      rw [hread, List.getElem?_append_right hge, Nat.add_sub_cancel_left,
        List.getElem?_eq_getElem hk]
    · rw [h.phys_write (by omega), h.phys_write (by omega)] at heq
      have := eq_of_mod_eq_of_window cfg.circLength (s := P.written.length)
        (x := P.written.length + i) (y := P.written.length + j)
        (by omega) (by omega) (by omega) (by omega) (by omega)
      omega

/-- Nothing outside the ring is written. -/
theorem read_write_outside (h : RingStream cfg P q popped s) {bytes : List Byte}
    (hroom : bytes.length ≤ q.bytesAvail) {a : Nat}
    (ha : ¬ Owns cfg (P.memory.phys a)) :
    (P.memory.writeRange q.writePtr bytes).read a = P.memory.read a := by
  refine P.memory.read_writeRange_of_ne fun k hk heq => ha ?_
  have hbytes := h.ring.bytes
  have hlt := Nat.mod_lt (P.written.length + k) (circLength_pos cfg)
  rw [heq, h.phys_write (by omega)]
  exact ⟨Nat.le_add_right _ _, by omega⟩

/-- **Producing.**  The chunk is laid out behind the others. -/
theorem produced (h : RingStream cfg P q popped s) {b : SBuffer}
    {rest : List SBuffer} (hitems : q.available.items = b :: rest)
    (hmem : b.config.memory = q.writePtr)
    (hlength : b.config.length = cfg.length)
    (htoken : b.config.token = cfg.token) (himpl : b.impl = b.getUserIndex)
    {bytes : List Byte} (hfit : bytes.length ≤ cfg.length) :
    ∃ q₃ popped', (q.setFront (RingInv.used bytes.length b)).pop = .ok q₃ ∧
      RingStream cfg
        { memory := P.memory.writeRange q.writePtr bytes
          queue := .circ q₃
          held := P.held ++ [{ b with length := bytes.length }]
          returns := P.returns
          anchor := Function.update P.anchor b.impl P.written.length
          written := P.written ++ bytes } q₃ popped' s ∧
      ∀ h, P.Holds h →
        Function.update P.anchor b.impl P.written.length h.impl =
          P.anchor h.impl := by
  obtain ⟨q₃, hpop, hrest, hret, -, hring⟩ := h.ring.pop hitems hfit
  have hroom := h.ring.room (by simp [hitems])
  have hfresh : b.getUserIndex ∉ popped.map Chunk.index := by
    have hdisj := (List.nodup_append'.mp h.ring.nodup).2.2
    exact fun hi => hdisj hi (by simp [hitems])
  have hout : ∀ b' ∈ P.held ++ P.returns, b'.getUserIndex ≠ b.getUserIndex := by
    intro b' hb' heq
    exact hfresh (heq ▸ h.ring.outside_mem _ (List.mem_map_of_mem hb'))
  have hanchor : ∀ b' ∈ P.held,
      Function.update P.anchor b.impl P.written.length b'.impl =
        P.anchor b'.impl := by
    intro b' hb'
    rw [Function.update_of_ne]
    rw [himpl, (h.lent b' (by simp [hb'])).impl]
    exact hout b' (by simp [hb'])
  refine ⟨q₃, popped ++ [⟨⟨q.writePtr, bytes.length⟩, b.getUserIndex⟩],
    hpop, ?_, ?_⟩
  · exact
      { phys := fun a h₁ h₂ => by
          rw [ByteMemory.phys_writeRange]
          exact h.phys a h₁ h₂
        ring := by
          rw [List.length_append]
          refine hring.mono fun i hi => ?_
          simp only [List.map_append, List.mem_append, List.map_singleton,
            List.mem_singleton] at hi ⊢
          rcases hi with (hi | hi) | hi
          · exact .inl (.inl hi)
          · exact .inr hi
          · exact .inl (.inr hi)
        cells := h.cells_write (by omega)
        anchors := by
          intro b' hb'
          rcases List.mem_append.mp hb' with hb' | hb'
          · obtain ⟨hat, hle⟩ := h.anchors b' hb'
            refine ⟨?_, hle⟩
            show chunkAt s _ _ =
                some (Function.update P.anchor b.impl
                  P.written.length b'.impl, _)
            rw [hanchor b' hb']
            exact chunkAt_append_left hat _
          · rw [List.mem_singleton.mp hb']
            refine ⟨?_, hmem ▸ h.ring.write_le⟩
            show chunkAt s (popped ++ _) b.getUserIndex
              = some (Function.update P.anchor b.impl P.written.length b.impl,
                b.config.memory)
            rw [chunkAt_append_right hfresh, ← h.ring.end_eq,
              Function.update_self, hmem, chunkAt, if_pos rfl]
        lent := by
          intro b' hb'
          simp only [List.mem_append, List.mem_singleton] at hb'
          rcases hb' with (hb' | rfl) | hb'
          · exact h.lent b' (by simp [hb'])
          · exact ⟨htoken, hlength, himpl⟩
          · exact h.lent b' (by simp [hb'])
        free := fun b' hb' => h.free b' (by simp [hitems, ← hrest, hb'])
        waiting := by
          rw [hret]
          exact h.waiting
        nodup := h.nodup
        apart := by
          intro r hr
          obtain ⟨h₁, h₂, h₃⟩ := h.apart r hr
          refine ⟨h₁, h₂, ?_⟩
          rw [List.map_append, List.mem_append, List.map_singleton,
            List.mem_singleton]
          rintro (hi | hi)
          · exact h₃ hi
          · exact hout r (by simp [hr]) hi }
  · rintro h' ⟨b', hb', hi, -⟩
    rw [← hi]
    exact hanchor b' hb'

/-! ### The invariant of the interface -/

/-- The queue is a ring that carries the stream. -/
def Carries (cfg : RingConfig) (P : Producer) : Prop :=
  ∃ q popped s, P.queue = .circ q ∧ RingStream cfg P q popped s

theorem queue_token (h : Carries cfg P) : P.queue.token = cfg.token := by
  obtain ⟨q, popped, s, hq, h⟩ := h
  rw [hq]
  exact h.ring.token

/-- A handle stitched with the next one may be read on: the ring has no seam. -/
theorem stitched {b0 b1 : SBuffer} (h : Carries cfg P) (hb0 : P.Holds b0)
    (hp0 : P.Placed (Owns cfg) b0) (hp1 : P.Placed (Owns cfg) b1)
    (hnext : P.anchor b0.impl + b0.extent = P.anchor b1.impl + b1.offset) :
    P.Placed (Owns cfg) (InputPort.taking b0 b1) := by
  obtain ⟨q, popped, s, -, h⟩ := h
  intro x hx
  refine h.placed (b := InputPort.taking b0 b1) hb0 ?_
  show P.anchor b0.impl + x < _
  change x < b0.offset + (b0.length + b1.length) at hx
  unfold SBuffer.extent at hnext
  rcases Nat.lt_or_ge x b0.extent with hlt | hge
  · exact hp0.lt_length hlt
  · unfold SBuffer.extent at hge
    have := hp1.lt_length (x := b1.offset + (x - (b0.offset + b0.length)))
      (by unfold SBuffer.extent; omega)
    omega

theorem carries_memory {m : Memory} (h : Carries cfg P)
    (hphys : m.phys = P.memory.phys)
    (hread : ∀ a, Owns cfg (P.memory.phys a) → m.read a = P.memory.read a) :
    Carries cfg { P with memory := m } := by
  obtain ⟨q, popped, s, hq, h⟩ := h
  exact ⟨q, popped, s, hq, h.memory_congr hphys hread⟩

theorem carries_released {held new : List SBuffer} (h : Carries cfg P)
    (hheld : ∀ b ∈ held, P.Holds b)
    (hnew : ∀ r ∈ new, ∃ b ∈ P.held, r = b.reset ∧
      b.impl ∉ held.map SBuffer.impl ∧
      b.impl ∉ P.queue.buffers.map SBuffer.impl)
    (hnodup : (new.map SBuffer.impl).Nodup) :
    Carries cfg { P with held := held, returns := P.returns ++ new } := by
  obtain ⟨q, popped, s, hq, h⟩ := h
  refine ⟨q, popped, s, hq, h.released hheld (fun r hr => ?_) hnodup⟩
  obtain ⟨b, hb, hreset, hout, -⟩ := hnew r hr
  exact ⟨b, hb, hreset, hout⟩

/-- Looking at the front of the queue is looking at the front of the ring. -/
theorem front_circ {b : SBuffer} {q' : BufferQueue} (hq : P.queue = .circ q)
    (hfront : P.queue.front = .ok (b, q')) :
    ∃ q₁, q' = .circ q₁ ∧ q.front = .ok (b, q₁) := by
  rw [hq] at hfront
  simp only [BufferQueue.front, Checked.bind_eq_ok, Checked.pure_eq_ok,
    Prod.mk.injEq, Prod.exists] at hfront
  obtain ⟨_, q₁, hfront, rfl, rfl⟩ := hfront
  exact ⟨q₁, rfl, hfront⟩

theorem carries_front {b : SBuffer} {q' : BufferQueue} (h : Carries cfg P)
    (hfront : P.queue.front = .ok (b, q')) :
    Carries cfg { P with queue := q' } := by
  obtain ⟨q, popped, s, hq, h⟩ := h
  obtain ⟨q₁, rfl, hlook⟩ := front_circ hq hfront
  exact ⟨q₁, popped, s, rfl, { (h.front hlook).1 with }⟩

/-- Every front is as long as the ring. -/
theorem front_sized {b : SBuffer} {q' : BufferQueue}
    (hsized : cfg.length < 2 ^ 64) (h : Carries cfg P)
    (hfront : P.queue.front = .ok (b, q')) : b.config.length < 2 ^ 64 := by
  obtain ⟨q, popped, s, hq, h⟩ := h
  obtain ⟨q₁, -, hlook⟩ := front_circ hq hfront
  obtain ⟨-, _, -, -, -, hlength, -⟩ := h.front hlook
  rw [hlength]
  exact hsized

theorem carries_pushed {k : Nat} {r : SBuffer} {q' : BufferQueue}
    (h : Carries cfg P) (hk : P.returns[k]? = some r)
    (hpush : P.queue.push r = .ok q') :
    Carries cfg { P with queue := q', returns := P.returns.eraseIdx k } := by
  obtain ⟨q, popped, s, hq, h⟩ := h
  rw [hq] at hpush
  simp only [BufferQueue.push, Checked.bind_eq_ok, Checked.pure_eq_ok] at hpush
  obtain ⟨q₁, hpush, rfl⟩ := hpush
  obtain ⟨popped', s', h'⟩ := h.pushed hk hpush
  exact ⟨q₁, popped', s', rfl, { h' with }⟩

/-- The copy posted is the front itself, which is aimed already, and what stays
at the front is its rest. -/
theorem front_again {b chunk : SBuffer} {rest : List SBuffer} {n : Nat}
    {q' : BufferQueue} (hitems : q.available.items = b :: rest)
    (hmem : b.config.memory = q.writePtr) (hlast : b.last = q.lastPtr)
    (hagain : ((BufferQueue.circ q).setFront { b with length := n }).front
      = .ok (chunk, q')) :
    chunk = { b with length := n } ∧ ∃ q₂, q' = .circ q₂ ∧
      ∀ x, q₂.setFront x = q.setFront x := by
  simp only [BufferQueue.setFront, BufferQueue.front, Checked.bind_eq_ok,
    Checked.pure_eq_ok, Prod.mk.injEq, Prod.exists] at hagain
  obtain ⟨chunk, q₂, hagain, rfl, rfl⟩ := hagain
  obtain ⟨b₂, rest₂, hitems₂, -, -, hchunk, rfl⟩ :=
    BufferQueueCirc.front_eq_ok hagain
  rw [BufferQueueCirc.setFront_items hitems] at hitems₂
  obtain ⟨rfl, rfl⟩ := List.cons.inj hitems₂
  refine ⟨?_, _, rfl, fun x => ?_⟩
  · rw [hchunk, BufferQueueCirc.aimed]
    show ({ b with
      config := { b.config with memory := q.writePtr }
      length := n
      last := q.lastPtr } : SBuffer) = _
    rw [← hmem, ← hlast]
  · rw [BufferQueueCirc.setFront_setFront, BufferQueueCirc.setFront_setFront]

/-- **The bytes produced are the next stretch of the stream**, and every handle
still reads its own.  A ring asks for no shape of its handles: that is what the
two `True` say. -/
theorem carries_produced {b chunk : SBuffer} {q₀ q' q'' : BufferQueue}
    {bytes : List Byte} (h : Carries cfg P)
    (hfront : P.queue.front = .ok (b, q₀))
    (hfit : b.offset + bytes.length ≤ b.config.length)
    (hagain : (q₀.setFront { b with length := bytes.length }).front =
      .ok (chunk, q'))
    (hpop : (q'.setFront
      { chunk with offset := chunk.offset + chunk.length, length := 0 }).pop
      = .ok q'') :
    ∃ anchor : Nat → Nat,
      let P' : Producer :=
        { memory := P.memory.writeRange (b.get 0) bytes
          queue := q''
          held := P.held ++ [chunk]
          returns := P.returns
          anchor
          written := P.written ++ bytes }
      Carries cfg P' ∧ chunk.config.token = cfg.token ∧
        chunk.length = bytes.length ∧
        True ∧ P'.Placed (Owns cfg) chunk ∧
        anchor chunk.impl + chunk.offset = P.written.length ∧
        (∀ h, P.Holds h → True → P.Placed (Owns cfg) h →
          anchor h.impl = P.anchor h.impl ∧ P'.Placed (Owns cfg) h) ∧
        ∀ a, ¬ Owns cfg (P.memory.phys a) →
        P'.memory.read a = P.memory.read a := by
  obtain ⟨q, popped, s, hq, h⟩ := h
  obtain ⟨q₁, rfl, hlook⟩ := front_circ hq hfront
  obtain ⟨h₁, rest, hitems, hmem, hlast, hlength, hoff, htoken, himpl⟩ := h.front hlook
  obtain ⟨hchunk, q₂, rfl, hset⟩ := front_again hitems hmem hlast hagain
  have hused : ({ chunk with offset := chunk.offset + chunk.length, length := 0 } : SBuffer)
      = RingInv.used bytes.length b := by
    rw [hchunk, RingInv.used]
    simp [hoff]
  simp only [BufferQueue.setFront, BufferQueue.pop, Checked.bind_eq_ok,
    Checked.pure_eq_ok] at hpop
  obtain ⟨q₃, hpop, rfl⟩ := hpop
  rw [hset, hused] at hpop
  have hfit' : bytes.length ≤ cfg.length := by
    rw [hoff] at hfit
    omega
  obtain ⟨q₃', popped', hpop', hstream, hold⟩ :=
    h₁.produced hitems hmem hlength htoken himpl hfit'
  obtain rfl : q₃ = q₃' := by
    rw [hpop, Except.ok.injEq] at hpop'
    exact hpop'
  have hget : b.get 0 = q₁.writePtr := by
    rw [SBuffer.get, hoff, hmem]
    rfl
  rw [hchunk, hget]
  refine ⟨_, ⟨q₃, popped', s, rfl, hstream⟩, htoken, rfl, trivial,
    ?_, ?_, ?_, ?_⟩
  · intro x hx
    refine hstream.placed (b := { b with length := bytes.length })
      ⟨{ b with length := bytes.length }, by simp, rfl, rfl⟩ ?_
    change x < b.offset + bytes.length at hx
    show Function.update P.anchor b.impl P.written.length b.impl + x
      < (P.written ++ bytes).length
    rw [Function.update_self, List.length_append]
    omega
  · show Function.update P.anchor b.impl P.written.length b.impl + b.offset
      = P.written.length
    rw [Function.update_self, hoff, Nat.add_zero]
  · rintro h' hheld - hplaced
    refine ⟨hold h' hheld, fun x hx => hstream.placed ?_ ?_⟩
    · obtain ⟨b', hb', heq⟩ := hheld
      exact ⟨b', List.mem_append_left _ hb', heq⟩
    · show Function.update P.anchor b.impl P.written.length h'.impl + x
        < (P.written ++ bytes).length
      have := hplaced.lt_length hx
      rw [hold h' hheld, List.length_append]
      omega
  · have hroom := h₁.ring.room (by simp [hitems])
    exact fun a ha => h₁.read_write_outside (by omega) ha

end RingStream

/-- **A ring is a backing.** -/
def ringBacking (cfg : RingConfig) (hsized : cfg.length < 2 ^ 64) :
    Backing where
  token := cfg.token
  Owns := RingStream.Owns cfg
  External _ := True
  Shape _ := True
  Inv := RingStream.Carries cfg
  queue_token := RingStream.queue_token
  shape_congr _ _ _ _ _ := trivial
  stitched h hb0 _ _ _ hp0 hp1 _ hnext :=
    ⟨trivial, trivial, RingStream.stitched h hb0 hp0 hp1 hnext⟩
  memory_congr := RingStream.carries_memory
  released := RingStream.carries_released
  front := RingStream.carries_front
  sized := RingStream.front_sized hsized
  produced h _ hfront _ := RingStream.carries_produced h hfront
  pushed := RingStream.carries_pushed

end Gras
