import Mathlib.Algebra.Order.BigOperators.Group.List
import Mathlib.Tactic.Ring
import Gras.Lib.TransitionSystem
import Gras.Lib.RingLayout
import Gras.Buffers.BufferQueue

/-!
# The ring never overwrites a live chunk

The invariant of `BufferQueueCirc` and the runs it is stated for.

Three orders have to agree: the stream order of the popped chunks, the cyclic
order of the user indexes, and the order in which the acknowledge loop walks the
table of returned buffers.  `RingInv` says that they do.  The chunks that were
popped and not yet acknowledged are laid out behind each other on the ring
(`LaidOut`), the free buffers follow them in cyclic order, and what the ring has
to give is exactly what they do not occupy.

* `RingInv.front`, `RingInv.pop` and `RingInv.push` are the three operations.
  Each one runs without a failing `ASSERT` and keeps the invariant.
* `RingInv.ackLoop` is the acknowledge loop: it ends, and it releases chunks in
  the order in which they were popped.
* `ring_safety` collects what this means for every run.
-/

namespace Gras

/-- A piece of the ring that was popped and is not yet acknowledged. -/
structure Chunk extends RingSegment where
  /-- The user index of the buffer that carries it. -/
  index : Nat
  deriving DecidableEq, Repr

/-- The parameters of a ring: `numBuffs` buffers of `length` bytes on a circular
buffer that holds at least that much. -/
structure RingConfig where
  numBuffs : Nat
  length : Nat
  circMemory : Nat
  circLength : Nat
  token : Nat
  numBuffs_pos : 0 < numBuffs
  length_pos : 0 < length
  fits : numBuffs * length ≤ circLength

namespace RingConfig

/-- The configuration one buffer of the ring is made from. -/
def bufferConfig (cfg : RingConfig) (i : Nat) : SBufferConfig where
  memory := cfg.circMemory
  length := cfg.length
  userIndex := i
  token := cfg.token

/-- The queue the constructor leaves behind. -/
def queue (cfg : RingConfig) : BufferQueueCirc :=
  .make (cfg.bufferConfig 0) cfg.numBuffs cfg.circMemory cfg.circLength

/-- The buffers the constructor makes; they reach the queue through their
token. -/
def created (cfg : RingConfig) (i : Nat) : SBuffer where
  impl := i
  config := cfg.bufferConfig i

/-- As long as a buffer is free, the other ones leave a whole buffer's bytes. -/
theorem room (cfg : RingConfig) {k : Nat} (h : k < cfg.numBuffs) :
    k * cfg.length + cfg.length ≤ cfg.circLength := by
  calc k * cfg.length + cfg.length = (k + 1) * cfg.length := by ring
    _ ≤ cfg.numBuffs * cfg.length := Nat.mul_le_mul_right _ h
    _ ≤ cfg.circLength := cfg.fits

end RingConfig

/-- A buffer of the ring that is not in use: it carries no bytes. -/
structure RingConfig.Idle (cfg : RingConfig) (b : SBuffer) : Prop where
  token : b.config.token = cfg.token
  length : b.config.length = cfg.length
  offset_zero : b.offset = 0
  length_zero : b.length = 0

/-- **The ring invariant.**  `popped` are the chunks not yet acknowledged, they
hold the stream from `s` to `e`, and `outside i` says that the buffer with user
index `i` is still held by someone else. -/
structure RingInv (cfg : RingConfig) (q : BufferQueueCirc) (popped : List Chunk)
    (outside : Nat → Prop) (s e : Nat) : Prop where
  token : q.token = cfg.token
  memory : q.circMemory = cfg.circMemory
  ringLength : q.circLength = cfg.circLength
  numBuffs : q.numBuffs = cfg.numBuffs
  capacity : q.available.capacity = cfg.numBuffs
  ack_lt : q.ackIndex < cfg.numBuffs
  /-- Popped chunks first, free buffers after them, in cyclic order. -/
  order : popped.map Chunk.index ++ q.available.items.map SBuffer.getUserIndex
    = cyclic cfg.numBuffs q.ackIndex
  credit : ∀ c ∈ popped, q.outgone c.index = c.size
  size_le : ∀ c ∈ popped, c.size ≤ cfg.length
  idle : ∀ b ∈ q.available.items, cfg.Idle b
  held : ∀ i b, q.returned i = some b →
    cfg.Idle b ∧ b.getUserIndex = i ∧ i ∈ popped.map Chunk.index ∧ ¬ outside i
  outside_mem : ∀ i, outside i → i ∈ popped.map Chunk.index
  laid : LaidOut cfg.circMemory cfg.circLength
    (popped.map Chunk.toRingSegment) s e
  write_ge : cfg.circMemory ≤ q.writePtr
  write_le : q.writePtr ≤ cfg.circMemory + cfg.circLength
  write_mod : (q.writePtr - cfg.circMemory) % cfg.circLength =
    e % cfg.circLength
  /-- `_last_ptr` is the write pointer before the wrap. -/
  lastPtr : q.lastPtr = 0 ∨ q.lastPtr = q.writePtr ∨
    q.lastPtr = q.writePtr + cfg.circLength
  bytes : q.bytesAvail + (e - s) = cfg.circLength

namespace RingInv

variable {cfg : RingConfig} {q : BufferQueueCirc} {popped : List Chunk}
variable {outside : Nat → Prop} {s e : Nat}

/-- Chunks and free buffers together are all the buffers. -/
theorem count (h : RingInv cfg q popped outside s e) :
    popped.length + q.available.items.length = cfg.numBuffs := by
  have := congrArg List.length h.order
  simpa using this

theorem index_lt (h : RingInv cfg q popped outside s e) {i : Nat}
    (hi : i ∈ popped.map Chunk.index) : i < cfg.numBuffs :=
  mem_cyclic (h.order ▸ List.mem_append_left _ hi)

/-- No user index is used twice. -/
theorem nodup (h : RingInv cfg q popped outside s e) :
    (popped.map Chunk.index ++
      q.available.items.map SBuffer.getUserIndex).Nodup := by
  rw [h.order]
  exact cyclic_nodup _ _

theorem end_eq (h : RingInv cfg q popped outside s e) :
    e = s + (popped.map (·.size)).sum := by
  have := h.laid.end_eq
  simpa [Function.comp_def] using this

/-- The popped chunks occupy at most a buffer's bytes each. -/
theorem occupied_le (h : RingInv cfg q popped outside s e) :
    e - s ≤ popped.length * cfg.length := by
  have hsum : (popped.map (·.size)).sum ≤
      (popped.map (·.size)).length • cfg.length :=
    List.sum_le_card_nsmul _ _ fun x hx => by
      obtain ⟨c, hc, rfl⟩ := List.mem_map.mp hx
      exact h.size_le c hc
  have := h.end_eq
  rw [List.length_map, nsmul_eq_mul, Nat.cast_id] at hsum
  omega

/-- With a free buffer at hand there is room for a whole buffer's bytes. -/
theorem room (h : RingInv cfg q popped outside s e)
    (hne : q.available.items ≠ []) : cfg.length ≤ q.bytesAvail := by
  have hlen : 0 < q.available.items.length := List.length_pos_iff.mpr hne
  have hk : popped.length < cfg.numBuffs := by have := h.count; omega
  have := cfg.room hk
  have := h.occupied_le
  have := h.bytes
  omega

/-- The queue is empty exactly when no buffer is free. -/
theorem empty_iff (h : RingInv cfg q popped outside s e) :
    q.empty = false ↔ q.available.items ≠ [] := by
  unfold BufferQueueCirc.empty
  constructor
  · intro hemp hnil
    simp [hnil] at hemp
  · intro hne
    have := h.room hne
    have := cfg.length_pos
    simp [hne]
    omega

/-- The front buffer is free, and its index is the one the table is at. -/
theorem available_cons (h : RingInv cfg q popped outside s e)
    (hne : q.empty = false) :
    ∃ buff rest, q.available.items = buff :: rest ∧ cfg.Idle buff ∧
      buff.getUserIndex ∉ popped.map Chunk.index := by
  obtain ⟨buff, rest, hitems⟩ := List.exists_cons_of_ne_nil (h.empty_iff.mp hne)
  refine ⟨buff, rest, hitems, h.idle buff (by simp [hitems]), fun hmem => ?_⟩
  have hdisj := (List.nodup_append'.mp h.nodup).2.2
  exact hdisj hmem (by simp [hitems])

end RingInv

namespace BufferQueueCirc

/-- The write pointer after a pop: moved on, and back by a lap once it is past
the end of the ring. -/
theorem advance_writePtr (q : BufferQueueCirc) (i numBytes : Nat) :
    (q.advance i numBytes).writePtr = q.writePtr + numBytes ∧
        q.writePtr + numBytes ≤ q.circMemory + q.circLength ∨
      (q.advance i numBytes).writePtr + q.circLength = q.writePtr + numBytes ∧
        q.circMemory + q.circLength < q.writePtr + numBytes := by
  unfold advance
  dsimp only
  split <;> omega

theorem setFront_setFront (q : BufferQueueCirc) (a b : SBuffer) :
    (q.setFront a).setFront b = q.setFront b := by
  simp [setFront, BoundedDeque.replace, List.set_set]

theorem front_eq_ok {q q' : BufferQueueCirc} {b : SBuffer}
    (h : q.front = .ok (b, q')) :
    ∃ buff rest, q.available.items = buff :: rest ∧ q.bytesAvail ≠ 0 ∧
      buff.offset = 0 ∧
      b = q.aimed buff ∧ q' = q.setFront (q.aimed buff) := by
  unfold front at h
  split at h
  · simp at h
  · rename_i buff rest hitems
    simp only [Checked.bind_eq_ok, assertThat_eq_ok, Checked.pure_eq_ok,
      Prod.mk.injEq] at h
    obtain ⟨-, havail, -, hoff, -, -, rfl, rfl⟩ := h
    exact ⟨buff, rest, hitems, havail, hoff, rfl, rfl⟩

theorem setFront_items {q : BufferQueueCirc} {buff : SBuffer}
    {rest : List SBuffer} (h : q.available.items = buff :: rest) (b : SBuffer) :
    (q.setFront b).available.items = b :: rest := by
  simp [setFront, h]

/-- `front()` of a queue that is not empty: no `ASSERT` fails, because an unused
front buffer starts at the write pointer. -/
theorem front_of {q : BufferQueueCirc} {buff : SBuffer} {rest : List SBuffer}
    (hitems : q.available.items = buff :: rest) (havail : q.bytesAvail ≠ 0)
    (hoff : buff.offset = 0) :
    q.front = .ok (q.aimed buff, q.setFront (q.aimed buff)) := by
  have hget : q.lastPtr = q.writePtr →
      (q.aimed buff).get 0 = (q.aimed buff).last := by
    intro heq
    simp [aimed, SBuffer.get, hoff, heq]
  unfold front
  rw [hitems]
  simp only [assertThat_of havail, Checked.ok_bind,
    assertThat_of (show (q.aimed buff).offset = 0 from hoff),
    assertThat_of hget]
  rfl

end BufferQueueCirc

namespace RingInv

variable {cfg : RingConfig} {q : BufferQueueCirc} {popped : List Chunk}
variable {outside : Nat → Prop} {s e : Nat}

/-- Whoever holds a buffer may let go of it. -/
theorem mono (h : RingInv cfg q popped outside s e) {outside' : Nat → Prop}
    (hsub : ∀ i, outside' i → outside i) : RingInv cfg q popped outside' s e :=
  { h with
    held := fun i b hb =>
      have ⟨h₁, h₂, h₃, h₄⟩ := h.held i b hb
      ⟨h₁, h₂, h₃, fun hc => h₄ (hsub i hc)⟩
    outside_mem := fun i hi => h.outside_mem i (hsub i hi) }

/-! ### The operations -/

/-- `front()` finds a free buffer and aims it at the write pointer. -/
theorem front (h : RingInv cfg q popped outside s e) (hne : q.empty = false) :
    ∃ buff rest, q.available.items = buff :: rest ∧ cfg.Idle buff ∧
      q.front = .ok (q.aimed buff, q.setFront (q.aimed buff)) ∧
      RingInv cfg (q.setFront (q.aimed buff)) popped outside s e := by
  obtain ⟨buff, rest, hitems, hidle, -⟩ := h.available_cons hne
  refine ⟨buff, rest, hitems, hidle, ?_, ?_⟩
  · have havail : q.bytesAvail ≠ 0 := by
      have := h.room (by simp [hitems])
      have := cfg.length_pos
      omega
    exact BufferQueueCirc.front_of hitems havail hidle.offset_zero
  · have hset := BufferQueueCirc.setFront_items hitems (q.aimed buff)
    refine { h with order := ?_, idle := ?_ }
    · have horder := h.order
      rw [hitems] at horder
      rw [hset]
      exact horder
    · intro b hb
      rw [hset] at hb
      rcases List.mem_cons.mp hb with rfl | hb
      · exact ⟨hidle.token, hidle.length, hidle.offset_zero, hidle.length_zero⟩
      · exact h.idle b (by simp [hitems, hb])

/-- What a caller does to the reference `front()` returned before it calls
`pop()`: the produced bytes become the offset. -/
def used (numBytes : Nat) (buff : SBuffer) : SBuffer :=
  { buff with offset := numBytes, length := 0 }

/-- `pop()` of a front buffer that holds `numBytes`: the chunk is laid out
behind the others and its buffer is outside from then on. -/
theorem pop (h : RingInv cfg q popped outside s e) {buff : SBuffer}
    {rest : List SBuffer} (hitems : q.available.items = buff :: rest)
    {numBytes : Nat} (hfit : numBytes ≤ cfg.length) :
    ∃ q', (q.setFront (used numBytes buff)).pop = .ok q' ∧
      q'.available.items = rest ∧ q'.returned = q.returned ∧
      q'.ackIndex = q.ackIndex ∧
      RingInv cfg q'
        (popped ++ [⟨⟨q.writePtr, numBytes⟩, buff.getUserIndex⟩])
        (fun i => outside i ∨ i = buff.getUserIndex) s (e + numBytes) := by
  have hne : q.available.items ≠ [] := by simp [hitems]
  have hroom := h.room hne
  have hpos := cfg.length_pos
  have hbytes := h.bytes
  have hend := h.end_eq
  have hbuff : buff.getUserIndex ∉ popped.map Chunk.index := by
    have hdisj := (List.nodup_append'.mp h.nodup).2.2
    exact fun hmem => hdisj hmem (by simp [hitems])
  have hset : (q.setFront (used numBytes buff)).available.items
      = used numBytes buff :: rest := by
    simp [BufferQueueCirc.setFront, hitems]
  let q' := (q.setFront (used numBytes buff)).advance buff.getUserIndex numBytes
  have hrest : q'.available.items = rest := by
    show (q.setFront (used numBytes buff)).available.items.tail = rest
    rw [hset, List.tail_cons]
  refine ⟨q', ?_, hrest, rfl, rfl, ?_⟩
  · unfold BufferQueueCirc.pop
    rw [hset]
    have h₁ : (q.setFront (used numBytes buff)).bytesAvail ≠ 0 := by
      show q.bytesAvail ≠ 0
      omega
    have h₂ : (used numBytes buff).offset
        ≤ (q.setFront (used numBytes buff)).bytesAvail := by
      show numBytes ≤ q.bytesAvail
      omega
    simp only [assertThat_of h₁, assertThat_of h₂, Checked.ok_bind,
      assertThat_of (show (used numBytes buff).length = 0 from rfl)]
    rfl
  · have hwle := h.write_le
    have hwge := h.write_ge
    have hlen : cfg.length ≤ cfg.circLength :=
      (Nat.le_mul_of_pos_left _ cfg.numBuffs_pos).trans cfg.fits
    have hwrap := q.advance_writePtr buff.getUserIndex numBytes
    rw [h.memory, h.ringLength] at hwrap
    change q'.writePtr = _ ∧ _ ∨ q'.writePtr + _ = _ ∧ _ at hwrap
    exact
      { token := h.token
        memory := h.memory
        ringLength := h.ringLength
        numBuffs := h.numBuffs
        capacity := h.capacity
        ack_lt := h.ack_lt
        order := by
          have horder := h.order
          rw [hitems] at horder
          show _ = cyclic cfg.numBuffs q.ackIndex
          rw [hrest, ← horder]
          simp
        credit := by
          intro c hc
          show Function.update q.outgone buff.getUserIndex numBytes
              c.index = c.size
          rcases List.mem_append.mp hc with hc | hc
          · rw [Function.update_of_ne]
            · exact h.credit c hc
            · rintro heq
              exact hbuff (heq ▸ List.mem_map_of_mem hc)
          · rw [List.mem_singleton.mp hc, Function.update_self]
        size_le := by
          intro c hc
          rcases List.mem_append.mp hc with hc | hc
          · exact h.size_le c hc
          · rw [List.mem_singleton.mp hc]
            exact hfit
        idle := by
          intro b hb
          rw [hrest] at hb
          exact h.idle b (by simp [hitems, hb])
        held := by
          intro i b hb
          obtain ⟨hidle, hidx, hmem, hout⟩ := h.held i b hb
          refine ⟨hidle, hidx, by simp [hmem], ?_⟩
          rintro (hc | rfl)
          · exact hout hc
          · exact hbuff hmem
        outside_mem := by
          rintro i (hi | rfl)
          · simp [h.outside_mem i hi]
          · simp
        laid := by
          rw [List.map_append, laidOut_append]
          exact ⟨e, h.laid, hwge, h.write_mod, rfl⟩
        write_ge := by rcases hwrap with ⟨hw, hlt⟩ | ⟨hw, hlt⟩ <;> omega
        write_le := by rcases hwrap with ⟨hw, hlt⟩ | ⟨hw, hlt⟩ <;> omega
        write_mod := by
          rw [← add_mod_congr numBytes h.write_mod]
          rcases hwrap with ⟨hw, hlt⟩ | ⟨hw, hlt⟩
          · rw [hw, show q.writePtr + numBytes - cfg.circMemory
              = q.writePtr - cfg.circMemory + numBytes by omega]
          · rw [show q.writePtr - cfg.circMemory + numBytes
              = q'.writePtr - cfg.circMemory + cfg.circLength by omega,
              Nat.add_mod_right]
        lastPtr := by
          right
          rcases hwrap with ⟨hw, hlt⟩ | ⟨hw, hlt⟩
          · exact .inl hw.symm
          · exact .inr hw.symm
        bytes := by
          show q.bytesAvail - numBytes + (e + numBytes - s) = cfg.circLength
          omega }

/-! ### The acknowledge loop -/

/-- One round: the oldest chunk is released and its buffer becomes the last free
one. -/
theorem ack (h : RingInv cfg q popped outside s e) {b : SBuffer}
    (hb : q.returned q.ackIndex = some b) :
    ∃ c popped', popped = c :: popped' ∧ c.index = q.ackIndex ∧
      (q.ack b).available.items = q.available.items ++ [b] ∧
      b.getUserIndex = c.index ∧
      RingInv cfg (q.ack b) popped' outside (s + c.size) e := by
  obtain ⟨hidle, hidx, hmem, hout⟩ := h.held _ _ hb
  obtain ⟨c, popped', rfl⟩ : ∃ c popped', popped = c :: popped' := by
    cases popped with
    | nil => simp at hmem
    | cons c popped' => exact ⟨c, popped', rfl⟩
  obtain ⟨hc, hnext⟩ := cyclic_next h.ack_lt h.order.symm
  have hcount := h.count
  have hfull : ¬ q.available.full := by
    refine BoundedDeque.not_full_of_lt ?_
    rw [h.capacity]
    simp only [List.length_cons] at hcount
    omega
  have hitems : (q.ack b).available.items = q.available.items ++ [b] :=
    BoundedDeque.pushBack_items _ _ hfull
  obtain ⟨hcb, hcm, hlaid⟩ := h.laid
  have hend := hlaid.end_eq
  have hbytes := h.bytes
  have hcredit : q.outgone q.ackIndex = c.size := by
    rw [← hc]
    exact h.credit c List.mem_cons_self
  refine ⟨c, popped', rfl, hc, hitems, by rw [hidx, hc], ?_⟩
  exact
    { token := h.token
      memory := h.memory
      ringLength := h.ringLength
      numBuffs := h.numBuffs
      capacity := by simpa [BufferQueueCirc.ack] using h.capacity
      ack_lt := by
        have := h.ack_lt
        have hn := h.numBuffs
        show (if q.ackIndex + 1 = q.numBuffs then 0 else q.ackIndex + 1) <
            cfg.numBuffs
        rw [hn]
        split <;> omega
      order := by
        show _ = cyclic cfg.numBuffs
          (if q.ackIndex + 1 = q.numBuffs then 0 else q.ackIndex + 1)
        rw [h.numBuffs, hnext, hitems]
        simp [hidx]
      credit := fun c' hc' => h.credit c' (List.mem_cons_of_mem _ hc')
      size_le := fun c' hc' => h.size_le c' (List.mem_cons_of_mem _ hc')
      idle := by
        intro b' hb'
        rw [hitems] at hb'
        rcases List.mem_append.mp hb' with hb' | hb'
        · exact h.idle b' hb'
        · rw [List.mem_singleton.mp hb']
          exact hidle
      held := by
        intro i b' hb'
        change Function.update q.returned q.ackIndex none i = some b' at hb'
        by_cases hi : i = q.ackIndex
        · rw [hi, Function.update_self] at hb'
          cases hb'
        · rw [Function.update_of_ne hi] at hb'
          obtain ⟨h₁, h₂, h₃, h₄⟩ := h.held i b' hb'
          refine ⟨h₁, h₂, ?_, h₄⟩
          rw [List.map_cons, hc] at h₃
          exact (List.mem_cons.mp h₃).resolve_left hi
      outside_mem := by
        intro i hi
        have hmem' := h.outside_mem i hi
        rw [List.map_cons, hc] at hmem'
        refine (List.mem_cons.mp hmem').resolve_left ?_
        rintro rfl
        exact hout hi
      laid := hlaid
      write_ge := h.write_ge
      write_le := h.write_le
      write_mod := h.write_mod
      lastPtr := h.lastPtr
      bytes := by
        show q.bytesAvail + q.outgone q.ackIndex + (e - (s + c.size)) =
            cfg.circLength
        omega }

/-- **The acknowledge loop.**  It ends at a slot that holds no buffer, no matter
how many rounds beyond the number of popped chunks it is allowed, and it
releases chunks from the oldest on: the free buffers it adds are the ones of the
chunks it takes off the front. -/
theorem ackLoop :
    ∀ (rounds : Nat) {q : BufferQueueCirc} {popped : List Chunk} {s : Nat},
      RingInv cfg q popped outside s e → popped.length ≤ rounds →
      ∃ acked rest s', popped = acked ++ rest ∧
        RingInv cfg (BufferQueueCirc.ackLoop rounds q) rest outside s' e ∧
        (BufferQueueCirc.ackLoop rounds q).returned
          (BufferQueueCirc.ackLoop rounds q).ackIndex = none ∧
        (BufferQueueCirc.ackLoop rounds q).available.items.map
        SBuffer.getUserIndex
          = q.available.items.map SBuffer.getUserIndex ++
            acked.map Chunk.index := by
  intro rounds
  induction rounds with
  | zero =>
      intro q popped s h hlen
      have hnil : popped = [] := List.eq_nil_of_length_eq_zero (by omega)
      refine ⟨[], popped, s, rfl, h, ?_, by simp [BufferQueueCirc.ackLoop]⟩
      cases hr : q.returned q.ackIndex with
      | none => exact hr
      | some b =>
          have hmem := (h.held _ _ hr).2.2.1
          simp [hnil] at hmem
  | succ rounds ih =>
      intro q popped s h hlen
      cases hr : q.returned q.ackIndex with
      | none =>
          refine ⟨[], popped, s, rfl, ?_⟩
          simp only [BufferQueueCirc.ackLoop, hr, List.map_nil, List.append_nil,
            and_true]
          exact h
      | some b =>
          obtain ⟨c, popped', rfl, hc, hitems, hidx, h'⟩ := h.ack hr
          obtain ⟨acked, rest, s', hsplit, hinv, hnone, hmap⟩ :=
            ih h' (by simpa using hlen)
          refine ⟨c :: acked, rest, s', by rw [hsplit, List.cons_append], ?_⟩
          simp only [BufferQueueCirc.ackLoop, hr]
          refine ⟨hinv, hnone, ?_⟩
          rw [hmap, hitems]
          simp [hidx]

/-- `push(buff)` of a buffer that was outside: it is held until it is its turn,
and the acknowledge loop releases what can be released. -/
theorem push (h : RingInv cfg q popped outside s e) {b : SBuffer}
    (hb : cfg.Idle b) (hout : outside b.getUserIndex) :
    ∃ q' acked rest s', q.push b = .ok q' ∧ popped = acked ++ rest ∧
      RingInv cfg q' rest (fun i => outside i ∧ i ≠ b.getUserIndex) s' e ∧
      q'.returned q'.ackIndex = none ∧
      q'.available.items.map SBuffer.getUserIndex
        = q.available.items.map SBuffer.getUserIndex ++ acked.map Chunk.index := by
  have hmem := h.outside_mem _ hout
  have hlt := h.index_lt hmem
  let q₁ : BufferQueueCirc :=
    { q with returned := Function.update q.returned b.getUserIndex (some b) }
  have h₁ : RingInv cfg q₁ popped (fun i => outside i ∧ i ≠ b.getUserIndex) s e := by
    refine { h with held := ?_, outside_mem := fun i hi => h.outside_mem i hi.1 }
    intro i b' hb'
    change Function.update q.returned b.getUserIndex (some b) i = some b' at hb'
    by_cases hi : i = b.getUserIndex
    · rw [hi, Function.update_self, Option.some.injEq] at hb'
      subst hb'
      exact ⟨hb, hi.symm, hi ▸ hmem, fun hc => hc.2 hi⟩
    · rw [Function.update_of_ne hi] at hb'
      obtain ⟨h₁, h₂, h₃, h₄⟩ := h.held i b' hb'
      exact ⟨h₁, h₂, h₃, fun hc => h₄ hc.1⟩
  have hrounds : popped.length ≤ q.numBuffs := by
    have := h.count
    have := h.numBuffs
    omega
  obtain ⟨acked, rest, s', hsplit, hinv, hnone, hmap⟩ := h₁.ackLoop _ hrounds
  refine ⟨_, acked, rest, s', ?_, hsplit, hinv, hnone, hmap⟩
  unfold BufferQueueCirc.push
  rw [if_neg (by rw [hb.token, h.token, ne_eq, not_not]),
    assertThat_of (by rw [h.numBuffs]; exact hlt)]
  rfl

/-- The chunks in use and the bytes that can be written through the front buffer
occupy pairwise different cells. -/
theorem disjoint (h : RingInv cfg q popped outside s e) :
    popped.Pairwise fun c d =>
      Disjoint (c.cells cfg.circMemory cfg.circLength)
        (d.cells cfg.circMemory cfg.circLength) := by
  have hbytes := h.bytes
  have := h.laid.pairwise_disjoint (by omega)
  rwa [List.pairwise_map] at this

theorem disjoint_writable (h : RingInv cfg q popped outside s e)
    (hne : q.empty = false) {c : Chunk} (hc : c ∈ popped) :
    Disjoint (c.cells cfg.circMemory cfg.circLength)
      (RingSegment.cells cfg.circMemory cfg.circLength
        ⟨q.writePtr, cfg.length⟩) := by
  have hroom := h.room (h.empty_iff.mp hne)
  have hbytes := h.bytes
  have hend := h.end_eq
  exact h.laid.disjoint_next h.write_ge h.write_mod
    (show e + cfg.length ≤ s + cfg.circLength by omega)
    (List.mem_map_of_mem (f := Chunk.toRingSegment) hc)

end RingInv

/-! ## Runs -/

/-- A ring in use: the queue, the chunks popped and not yet acknowledged, and
the buffers outside.  The buffers the constructor made are outside at first, as
chunks without bytes. -/
structure RingState where
  queue : BufferQueueCirc
  popped : List Chunk
  out : List SBuffer

/-- What happens to a ring. -/
inductive RingEvent where
  /-- Look at the front buffer. -/
  | front
  /-- Fill the front buffer with so many bytes and pop it. -/
  | pop (numBytes : Nat)
  /-- Return the `k`-th buffer that is outside. -/
  | push (k : Nat)

namespace RingConfig

/-- The state after construction. -/
def start (cfg : RingConfig) : RingState where
  queue := cfg.queue
  popped := (List.range cfg.numBuffs).map fun i => ⟨⟨cfg.circMemory, 0⟩, i⟩
  out := (List.range cfg.numBuffs).map cfg.created

/-- How the queue may be used: `front` and `pop` only when it is not empty,
`pop` with a positive number of bytes that fits the buffer, `push` of any buffer
that is outside. -/
def Allowed (cfg : RingConfig) (s : RingState) : RingEvent → Prop
  | .front => s.queue.empty = false
  | .pop numBytes =>
      s.queue.empty = false ∧ 0 < numBytes ∧ numBytes ≤ cfg.length
  | .push k => k < s.out.length

instance (cfg : RingConfig) (s : RingState) (ev : RingEvent) :
    Decidable (cfg.Allowed s ev) :=
  match ev with
  | .front => inferInstanceAs (Decidable (_ = _))
  | .pop _ => inferInstanceAs (Decidable (_ ∧ _ ∧ _))
  | .push _ => inferInstanceAs (Decidable (_ < _))

/-- The queue's own operations, with the books kept by their callers. -/
def next (s : RingState) : RingEvent → Checked RingState
  | .front => do
      let (_, queue) ← s.queue.front
      return { s with queue }
  | .pop numBytes => do
      let (buff, queue) ← s.queue.front
      let queue ← (queue.setFront (RingInv.used numBytes buff)).pop
      return {
        queue
        popped := s.popped ++ [⟨⟨buff.get 0, numBytes⟩, buff.getUserIndex⟩]
        out := s.out ++ [{ buff with length := numBytes }] }
  | .push k =>
      match s.out[k]? with
      | none => return s
      | some buff => do
          let queue ← s.queue.push buff.reset
          let acked := queue.available.items.length - s.queue.available.items.length
          return { queue, popped := s.popped.drop acked, out := s.out.eraseIdx k }

/-- The runs of a ring. -/
def system (cfg : RingConfig) : TransitionSystem RingState RingEvent :=
  (TransitionSystem.ofNext (· = cfg.start) next).restrict cfg.Allowed

end RingConfig

/-- What holds at every point of a run. -/
structure RingRunInv (cfg : RingConfig) (st : RingState) : Prop where
  ring : ∃ s e, RingInv cfg st.queue st.popped
    (fun i => i ∈ st.out.map SBuffer.getUserIndex) s e
  config : ∀ b ∈ st.out, b.config.token = cfg.token ∧
    b.config.length = cfg.length
  /-- A buffer outside carries the bytes of its chunk. -/
  chunk : ∀ b ∈ st.out, ∃ c ∈ st.popped,
    c.index = b.getUserIndex ∧ c.address = b.get 0 ∧ c.size = b.length
  nodup : (st.out.map SBuffer.getUserIndex).Nodup
  waiting : st.queue.returned st.queue.ackIndex = none

namespace RingRunInv

variable {cfg : RingConfig} {st st' : RingState}

theorem start_out (cfg : RingConfig) :
    cfg.start.out.map SBuffer.getUserIndex = List.range cfg.numBuffs := by
  simp [RingConfig.start, RingConfig.created, RingConfig.bufferConfig,
    SBuffer.getUserIndex, Function.comp_def]

/-- After construction nothing is laid out, and every buffer is outside. -/
theorem ring_start (cfg : RingConfig) : RingInv cfg cfg.queue cfg.start.popped
    (fun i => i ∈ cfg.start.out.map SBuffer.getUserIndex) 0 0 := by
  have hpop : cfg.start.popped.map Chunk.index = List.range cfg.numBuffs := by
    simp [RingConfig.start, Function.comp_def]
  exact
    { token := rfl
      memory := rfl
      ringLength := rfl
      numBuffs := rfl
      capacity := rfl
      ack_lt := cfg.numBuffs_pos
      order := by
        rw [hpop]
        exact (List.append_nil _).trans (cyclic_zero _).symm
      credit := by
        intro c hc
        obtain ⟨i, -, rfl⟩ := List.mem_map.mp hc
        rfl
      size_le := by
        intro c hc
        obtain ⟨i, -, rfl⟩ := List.mem_map.mp hc
        exact Nat.zero_le _
      idle := fun b hb => absurd hb List.not_mem_nil
      held := fun i b hb =>
        absurd hb (by simp [RingConfig.queue, BufferQueueCirc.make])
      outside_mem := fun i hi => by rwa [hpop, ← start_out]
      laid := by
        refine laidOut_of_size_zero fun c hc => ?_
        obtain ⟨c', hc', rfl⟩ := List.mem_map.mp hc
        obtain ⟨i, -, rfl⟩ := List.mem_map.mp hc'
        exact ⟨le_rfl, by rw [Nat.sub_self], rfl⟩
      write_ge := le_rfl
      write_le := Nat.le_add_right _ _
      write_mod := by
        show (cfg.circMemory - cfg.circMemory) % _ = _
        rw [Nat.sub_self]
      lastPtr := .inl rfl
      bytes := rfl }

theorem start (cfg : RingConfig) : RingRunInv cfg cfg.start := by
  refine ⟨⟨0, 0, ring_start cfg⟩, ?_, ?_, start_out cfg ▸ List.nodup_range, rfl⟩
  · intro b hb
    obtain ⟨i, -, rfl⟩ := List.mem_map.mp hb
    exact ⟨rfl, rfl⟩
  · intro b hb
    obtain ⟨i, hi, rfl⟩ := List.mem_map.mp hb
    exact ⟨⟨⟨cfg.circMemory, 0⟩, i⟩, List.mem_map_of_mem hi, rfl, rfl, rfl⟩

/-- `front` succeeds and changes nothing the invariant speaks about. -/
theorem next_front (h : RingRunInv cfg st) (hne : st.queue.empty = false) :
    ∃ st', RingConfig.next st .front = .ok st' ∧ RingRunInv cfg st' := by
  obtain ⟨s, e, hring⟩ := h.ring
  obtain ⟨buff, rest, -, -, hfront, hring'⟩ := hring.front hne
  refine ⟨{ st with queue := st.queue.setFront (st.queue.aimed buff) }, ?_, ?_⟩
  · simp [RingConfig.next, hfront]
  · exact { h with ring := ⟨s, e, hring'⟩ }

/-- `pop` succeeds; the popped chunk is outside from then on. -/
theorem next_pop (h : RingRunInv cfg st) {numBytes : Nat}
    (hne : st.queue.empty = false) (hfit : numBytes ≤ cfg.length) :
    ∃ st', RingConfig.next st (.pop numBytes) = .ok st' ∧
      RingRunInv cfg st' := by
  obtain ⟨s, e, hring⟩ := h.ring
  obtain ⟨buff, rest, hitems, hidle, hfront, hring₁⟩ := hring.front hne
  have hnew := (hring.available_cons hne)
  obtain ⟨buff', rest', hitems', -, hfresh⟩ := hnew
  obtain ⟨rfl, rfl⟩ := List.cons.inj (hitems.symm.trans hitems')
  have hset : (st.queue.setFront (st.queue.aimed buff)).available.items
      = st.queue.aimed buff :: rest := by
    simp [BufferQueueCirc.setFront, hitems]
  obtain ⟨q', hpop, -, hret, hack, hring₂⟩ := hring₁.pop hset hfit
  have haddr : (st.queue.aimed buff).get 0 = st.queue.writePtr := by
    simp [SBuffer.get, BufferQueueCirc.aimed, hidle.offset_zero]
  have hout : buff.getUserIndex ∉ st.out.map SBuffer.getUserIndex :=
    fun hmem => hfresh (hring.outside_mem _ hmem)
  refine ⟨⟨q',
    st.popped ++ [⟨⟨st.queue.writePtr, numBytes⟩, buff.getUserIndex⟩],
    st.out ++ [{ st.queue.aimed buff with length := numBytes }]⟩, ?_, ?_⟩
  · simp only [RingConfig.next, hfront, Checked.ok_bind, hpop, haddr]
    rfl
  · refine ⟨⟨s, e + numBytes, ?_⟩, ?_, ?_, ?_, ?_⟩
    · have hpred : (fun i => i ∈ (st.out ++ [{ st.queue.aimed buff with
            length := numBytes }]).map SBuffer.getUserIndex)
          = fun i => i ∈ st.out.map SBuffer.getUserIndex ∨
              i = buff.getUserIndex := by
        funext i
        simp [SBuffer.getUserIndex, BufferQueueCirc.aimed]
      rw [hpred]
      exact hring₂
    · intro b hb
      rcases List.mem_append.mp hb with hb | hb
      · exact h.config b hb
      · rw [List.mem_singleton.mp hb]
        exact ⟨hidle.token, hidle.length⟩
    · intro b hb
      rcases List.mem_append.mp hb with hb | hb
      · obtain ⟨c, hc, heq⟩ := h.chunk b hb
        exact ⟨c, List.mem_append_left _ hc, heq⟩
      · rw [List.mem_singleton.mp hb]
        exact ⟨_, List.mem_append_right _ List.mem_cons_self, rfl,
          haddr.symm, rfl⟩
    · rw [List.map_append, List.nodup_append']
      refine ⟨h.nodup, List.nodup_singleton _, fun i hi hi' => ?_⟩
      rw [List.map_singleton, List.mem_singleton] at hi'
      exact hout (hi' ▸ hi)
    · show q'.returned q'.ackIndex = none
      rw [hret, hack]
      exact h.waiting

/-- `push` succeeds; the chunks it acknowledges are the oldest ones. -/
theorem next_push (h : RingRunInv cfg st) {k : Nat} {buff : SBuffer}
    (hk : st.out[k]? = some buff) :
    ∃ q' acked rest, st.queue.push buff.reset = .ok q' ∧
      st.popped = acked ++ rest ∧
      q'.available.items.map SBuffer.getUserIndex
        = st.queue.available.items.map SBuffer.getUserIndex ++
          acked.map Chunk.index ∧
      RingConfig.next st (.push k) = .ok ⟨q', rest, st.out.eraseIdx k⟩ ∧
      RingRunInv cfg ⟨q', rest, st.out.eraseIdx k⟩ := by
  obtain ⟨s, e, hring⟩ := h.ring
  obtain ⟨l₁, l₂, hl, herase⟩ := List.exists_split_of_getElem? hk
  have hmem : buff ∈ st.out := by simp [hl]
  have hidle : cfg.Idle buff.reset :=
    ⟨(h.config _ hmem).1, (h.config _ hmem).2, rfl, rfl⟩
  obtain ⟨q', acked, rest, s', hpush, hsplit, hring', hnone, hmap⟩ :=
    hring.push hidle
      (show buff.getUserIndex ∈ _ from List.mem_map_of_mem hmem)
  have hacked : q'.available.items.length - st.queue.available.items.length
      = acked.length := by
    have := congrArg List.length hmap
    simp only [List.length_map, List.length_append] at this
    omega
  have hnext : RingConfig.next st (.push k)
      = .ok ⟨q', rest, st.out.eraseIdx k⟩ := by
    simp only [RingConfig.next, hk, hpush, Checked.ok_bind, hacked]
    rw [hsplit, List.drop_left]
    rfl
  have hnodup := h.nodup
  rw [hl, List.map_append, List.map_cons, List.nodup_middle, List.nodup_cons,
    ← List.map_append] at hnodup
  obtain ⟨hfresh, hrest⟩ := hnodup
  have hpred : (fun i => i ∈ st.out.map SBuffer.getUserIndex ∧
        i ≠ buff.reset.getUserIndex)
      = fun i => i ∈ (l₁ ++ l₂).map SBuffer.getUserIndex := by
    funext i
    refine propext ⟨fun hi => ?_, fun hi => ⟨?_, ?_⟩⟩
    · rw [hl, List.map_append, List.map_cons, List.mem_append,
        List.mem_cons] at hi
      rw [List.map_append, List.mem_append]
      exact hi.1.imp_right fun h₂ => h₂.resolve_left hi.2
    · rw [hl, List.map_append, List.map_cons, List.mem_append, List.mem_cons]
      rw [List.map_append, List.mem_append] at hi
      exact hi.imp_right .inr
    · rintro rfl
      exact hfresh hi
  rw [hpred] at hring'
  have hsub : ∀ b ∈ l₁ ++ l₂, b ∈ st.out := by
    intro b hb
    rw [hl, List.mem_append, List.mem_cons]
    exact (List.mem_append.mp hb).imp_right .inr
  refine ⟨q', acked, rest, hpush, hsplit, hmap, hnext, ?_⟩
  rw [herase]
  refine ⟨⟨s', e, hring'⟩, fun b hb => h.config b (hsub b hb), fun b hb => ?_,
    hrest, hnone⟩
  obtain ⟨c, hc, hidx, hrestc⟩ := h.chunk b (hsub b hb)
  -- the chunk is among the remaining ones: no other chunk has its index
  have hmem' :=
    hring'.outside_mem _ (List.mem_map_of_mem (f := SBuffer.getUserIndex) hb)
  rw [hsplit] at hc
  rcases List.mem_append.mp hc with hc | hc
  · have hdisj := (List.nodup_append'.mp hring.nodup).1
    rw [hsplit, List.map_append] at hdisj
    exact absurd (hidx ▸ hmem') ((List.nodup_append'.mp hdisj).2.2
      (List.mem_map_of_mem hc))
  · exact ⟨c, hc, hidx, hrestc⟩

/-- Every step of a run keeps the invariant. -/
theorem step (h : RingRunInv cfg st) {ev : RingEvent}
    (hok : cfg.Allowed st ev) :
    ∃ st', RingConfig.next st ev = .ok st' ∧ RingRunInv cfg st' := by
  cases ev with
  | front => exact h.next_front hok
  | pop numBytes => exact h.next_pop hok.1 hok.2.2
  | push k =>
      have hk := List.getElem?_eq_getElem (show k < st.out.length from hok)
      obtain ⟨q', acked, rest, -, -, -, hnext, hinv⟩ := h.next_push hk
      exact ⟨_, hnext, hinv⟩

theorem of_reachable (h : cfg.system.Reachable st) : RingRunInv cfg st := by
  refine h.invariant ?_ ?_
  · rintro s rfl
    exact start cfg
  · rintro s ev s' - hinv ⟨hok, hnext⟩
    obtain ⟨s'', hnext', hinv'⟩ := hinv.step hok
    rw [TransitionSystem.ofNext_step, hnext', Except.ok.injEq] at hnext
    exact hnext ▸ hinv'

end RingRunInv

/-- What ring safety says about one state. -/
structure RingSafe (cfg : RingConfig) (st : RingState) : Prop where
  /-- No `ASSERT` fails in any permitted call. -/
  asserts : ∀ ev, cfg.Allowed st ev → ∃ st', RingConfig.next st ev = .ok st'
  /-- The bytes to give and the chunks not yet acknowledged make up the ring. -/
  bytes : st.queue.bytesAvail + (st.popped.map fun c => c.size).sum =
    cfg.circLength
  writePtr : cfg.circMemory ≤ st.queue.writePtr ∧
    st.queue.writePtr ≤ cfg.circMemory + cfg.circLength
  /-- The buffers outside are chunks that were popped and not acknowledged. -/
  outstanding : ∀ b ∈ st.out, ∃ c ∈ st.popped,
    c.index = b.getUserIndex ∧ c.address = b.get 0 ∧ c.size = b.length
  disjoint : st.popped.Pairwise fun c d =>
    Disjoint (c.cells cfg.circMemory cfg.circLength)
      (d.cells cfg.circMemory cfg.circLength)
  /-- The front buffer is writable on its whole length. -/
  writable : st.queue.empty = false → ∀ c ∈ st.popped,
    Disjoint (c.cells cfg.circMemory cfg.circLength)
      (RingSegment.cells cfg.circMemory cfg.circLength
        ⟨st.queue.writePtr, cfg.length⟩)
  /-- `front` hands out the write pointer and a buffer of that length. -/
  front : st.queue.empty = false → ∃ buff queue,
    st.queue.front = .ok (buff, queue) ∧
    buff.get 0 = st.queue.writePtr ∧ buff.getActualLength = cfg.length
  /-- The acknowledge loop ends at a slot that holds no buffer, and it released
  the oldest chunks in the order of their pops. -/
  acknowledge : ∀ (k : Nat) (buff : SBuffer), st.out[k]? = some buff →
    ∃ queue acked rest, st.queue.push buff.reset = .ok queue ∧
      st.popped = acked ++ rest ∧ queue.returned queue.ackIndex = none ∧
      queue.available.items.map SBuffer.getUserIndex
        = st.queue.available.items.map SBuffer.getUserIndex ++
          acked.map Chunk.index ∧
      queue.bytesAvail = st.queue.bytesAvail + (acked.map fun c => c.size).sum

theorem RingInv.bytes_sum {cfg : RingConfig} {q : BufferQueueCirc}
    {popped : List Chunk} {outside : Nat → Prop} {s e : Nat}
    (h : RingInv cfg q popped outside s e) :
    q.bytesAvail + (popped.map fun c => c.size).sum = cfg.circLength := by
  have := h.bytes
  have := h.end_eq
  omega

/-- **Ring safety.**  In every run that calls `front` and `pop` on a queue that
is not empty and returns buffers in any order, no `ASSERT` fails, every byte of
the ring is accounted for, live chunks and the bytes being written never share a
cell, and chunks are released in the order in which they were popped. -/
theorem ring_safety {cfg : RingConfig} {st : RingState}
    (h : cfg.system.Reachable st) : RingSafe cfg st := by
  have hinv := RingRunInv.of_reachable h
  obtain ⟨s, e, hring⟩ := hinv.ring
  exact
    { asserts := fun ev hok => by
        obtain ⟨st', hnext, -⟩ := hinv.step hok
        exact ⟨st', hnext⟩
      bytes := hring.bytes_sum
      writePtr := ⟨hring.write_ge, hring.write_le⟩
      outstanding := hinv.chunk
      disjoint := hring.disjoint
      writable := fun hne c hc => hring.disjoint_writable hne hc
      front := fun hne => by
        obtain ⟨buff, rest, hitems, hidle, hfront, -⟩ := hring.front hne
        refine ⟨_, _, hfront, ?_, hidle.length⟩
        simp [SBuffer.get, BufferQueueCirc.aimed, hidle.offset_zero]
      acknowledge := fun k buff hk => by
        obtain ⟨q', acked, rest, hpush, hsplit, hmap, -, hinv'⟩ :=
          hinv.next_push hk
        obtain ⟨s', e', hring'⟩ := hinv'.ring
        refine ⟨q', acked, rest, hpush, hsplit, hinv'.waiting, hmap, ?_⟩
        have hbytes := hring.bytes_sum
        have hbytes' : q'.bytesAvail + (rest.map fun c => c.size).sum =
            cfg.circLength :=
          hring'.bytes_sum
        rw [hsplit, List.map_append, List.sum_append] at hbytes
        omega }

/-- Two buffers of four bytes, first returned out of order, then one written
across the end of the ring. -/
def twoBuffers : RingConfig where
  numBuffs := 2
  length := 4
  circMemory := 100
  circLength := 8
  token := 1
  numBuffs_pos := by decide
  length_pos := by decide
  fits := by decide

/-- A run of `twoBuffers` that wraps. -/
def wrappingRun : Option RingState :=
  TransitionSystem.runRestricted twoBuffers.Allowed RingConfig.next
    [.push 1, .push 0, .pop 4, .pop 3, .push 1, .push 0, .pop 4]
    twoBuffers.start

theorem ring_safety_twoBuffers :
    ∃ st, wrappingRun = some st ∧ st.queue.writePtr = 103 ∧ RingSafe twoBuffers st := by
  have hptr : wrappingRun.map (fun st => st.queue.writePtr) = some 103 := by decide
  obtain ⟨st, hst, hptr⟩ := Option.map_eq_some_iff.mp hptr
  exact ⟨st, hst, hptr,
    ring_safety (TransitionSystem.Reachable.of_restricted_events _
      (.init rfl) hst)⟩

end Gras
