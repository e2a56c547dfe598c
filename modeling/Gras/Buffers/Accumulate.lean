import Gras.Buffers.InputBytes

/-!
# What accumulation reaches

`accumulate` copies the front of the queue into one auxiliary buffer.  The loop
fills whole items only, the test of its final `ASSERT` compares with the maximum
as it is.

* `gather_queueLength`, `gather_emptied_iff`: what the loop moves, and when
  nothing stays behind.
* `Sized`: the auxiliary buffers of a configured port are as long as its
  maximum.
* `accumulate_reaches`: exactly when `accumulate` does all it is for.
-/

namespace Gras

/-- The bytes of the entries of a queue. -/
def queueLength (q : List SBuffer) : Nat := (q.map SBuffer.length).sum

@[simp] theorem queueLength_nil : queueLength [] = 0 := rfl

@[simp] theorem queueLength_cons (b : SBuffer) (q : List SBuffer) :
    queueLength (b :: q) = b.length + queueLength q := rfl

@[simp] theorem queueLength_append (q q' : List SBuffer) :
    queueLength (q ++ q') = queueLength q + queueLength q' := by
  simp [queueLength]

theorem length_le_queueLength {b : SBuffer} {q : List SBuffer} (hb : b ∈ q) :
    b.length ≤ queueLength q := by
  induction q with
  | nil => cases hb
  | cons front rest ih =>
      rw [queueLength_cons]
      rcases List.mem_cons.mp hb with rfl | hb
      · exact Nat.le_add_right _ _
      · exact Nat.le_trans (ih hb) (Nat.le_add_left _ _)

/-- A queue without bytes ends in an empty entry. -/
theorem queueLength_ne_zero {q : List SBuffer} (hq : q ≠ [])
    (hlast : ∀ b ∈ q.getLast?, b.length ≠ 0) : queueLength q ≠ 0 := by
  intro hzero
  have hmem := List.getLast?_eq_some_getLast hq
  have hle := length_le_queueLength (List.getLast_mem hq)
  apply hlast _ hmem
  omega

/-- Every entry is a whole number of items. -/
def WholeItems (itemSize : Nat) (q : List SBuffer) : Prop :=
  ∀ b ∈ q, b.length % itemSize = 0

theorem WholeItems.queueLength {itemSize : Nat} {q : List SBuffer}
    (h : WholeItems itemSize q) : queueLength q % itemSize = 0 := by
  induction q with
  | nil => exact Nat.zero_mod itemSize
  | cons front rest ih =>
      have hfront := h front List.mem_cons_self
      have hrest := ih fun b hb => h b (List.mem_cons_of_mem _ hb)
      rw [queueLength_cons, Nat.add_mod, hfront, hrest]
      exact Nat.zero_mod itemSize

namespace InputPort

/-! ## The loop -/

/-- **What the loop moves**: as many bytes as there are, or as there is room
for. -/
theorem gather_queueLength (q : List SBuffer) (accum : SBuffer)
    (freeBytes : Nat) (m : Memory) :
    (gather q accum freeBytes m).accum.length =
        accum.length + min (queueLength q) freeBytes ∧
      queueLength (gather q accum freeBytes m).queue +
        min (queueLength q) freeBytes
        = queueLength q := by
  refine gather_rule (P := fun q accum freeBytes _ g =>
    g.accum.length = accum.length + min (queueLength q) freeBytes ∧
      queueLength g.queue + min (queueLength q) freeBytes = queueLength q) ?_ ?_
        ?_ ?_ _ _ _ _
  · intro accum freeBytes m
    simp
  · intro front rest accum m
    simp
  · rintro front rest accum freeBytes m g - hle ⟨haccum, hqueue⟩
    simp only [filled] at haccum
    rw [queueLength_cons]
    omega
  · intro front rest accum freeBytes m _ hlt
    simp only [filled, moved, queueLength_cons]
    omega

/-- **When nothing stays behind**: there is more room than bytes, or just as
much and the last entry is not empty. -/
theorem gather_emptied_iff {q : List SBuffer} (hq : q ≠ []) (accum : SBuffer)
    (freeBytes : Nat) (m : Memory) :
    (gather q accum freeBytes m).queue = [] ↔
      queueLength q < freeBytes ∨
        queueLength q = freeBytes ∧ ∀ b ∈ q.getLast?, b.length ≠ 0 := by
  induction q generalizing accum freeBytes m with
  | nil => exact absurd rfl hq
  | cons front rest ih =>
      by_cases h₀ : freeBytes = 0
      · rw [h₀, gather_cons_zero]
        constructor
        · intro h
          cases h
        rintro (hlt | ⟨hzero, hlast⟩)
        · exact absurd hlt (Nat.not_lt_zero _)
        · exact absurd hzero (queueLength_ne_zero hq hlast)
      · rcases Nat.lt_or_ge freeBytes front.length with hlt | hle
        · rw [gather_cons_of_lt h₀ hlt, queueLength_cons]
          constructor
          · intro h
            cases h
          · intro h
            omega
        · rw [gather_cons_of_le h₀ hle, queueLength_cons]
          cases rest with
          | nil =>
              refine ⟨fun _ => ?_, fun _ => rfl⟩
              simp only [queueLength_nil, Nat.add_zero, List.getLast?_singleton,
                Option.mem_some_iff, forall_eq']
              omega
          | cons next rest =>
              rw [ih (List.cons_ne_nil _ _), List.getLast?_cons_cons]
              constructor
              · rintro (h | ⟨h, hlast⟩)
                · exact .inl (by omega)
                · exact .inr ⟨by omega, hlast⟩
              · rintro (h | ⟨h, hlast⟩)
                · exact .inl (by omega)
                · exact .inr ⟨by omega, hlast⟩

/-! ## The port -/

/-- A configured port: its auxiliary buffers are as long as its maximum. -/
structure Sized (p : InputPort) : Prop where
  itemsSize : 0 < p.itemsSize
  maximum : 0 < p.maximumBytes
  reserve : p.reserveBytes ≤ p.maximumBytes
  aux : ∃ aux, p.auxQueue = some aux ∧ ∀ b ∈ aux.buffers,
    b.config.length = p.maximumBytes

/-- The largest number of whole items in the maximum, in bytes. -/
def wholeMaximum (p : InputPort) : Nat :=
  p.maximumBytes / p.itemsSize * p.itemsSize

/-- What `accumulate` makes of the port with that auxiliary buffer, before its
`ASSERT`. -/
def accumulatedBy (buff : SBuffer) (aux : SimpleBufferQueue) (m : Memory)
    (p : InputPort) : InputPort :=
  { p with
    auxQueue := some aux
    bytesCopied := p.bytesCopied + (p.gathered buff m).accum.length
    queue := (p.queue.replace (p.gathered buff m).queue
      (Nat.le_trans (gather_queue_length _ _ _ _) p.queue.size_le)).pushFront
        (p.gathered buff m).accum }

section Accumulate

variable {p : InputPort} {buff : SBuffer} {aux : SimpleBufferQueue}
  {fresh : Allocation}
  {m : Memory}

/-- An auxiliary buffer is always found. -/
theorem Sized.auxAvailable (h : p.Sized) (fresh : Allocation) :
    ∃ aux buff buffers, p.auxQueue = some aux ∧
      (InputPort.auxAvailable fresh p.maximumBytes aux).buffers =
        buff :: buffers ∧
      buff.config.length = p.maximumBytes ∧
      ∀ b ∈ buffers, b.config.length = p.maximumBytes := by
  obtain ⟨aux, haux, hlength⟩ := h.aux
  cases hbuffers : aux.buffers with
  | nil =>
      refine ⟨aux, aux.newBuffer fresh p.maximumBytes, [], haux, ?_, rfl,
        fun b hb => nomatch hb⟩
      simp [InputPort.auxAvailable, hbuffers, SimpleBufferQueue.allocateOne,
        SimpleBufferQueue.pushBack]
  | cons buff buffers =>
      rw [hbuffers] at hlength
      refine ⟨aux, buff, buffers, haux, ?_, hlength buff List.mem_cons_self,
        fun b hb => hlength b (List.mem_cons_of_mem _ hb)⟩
      simp [InputPort.auxAvailable, hbuffers]

/-- **`accumulate`** up to its `ASSERT`. -/
theorem accumulate_eq (hacc : p.isAccumulated = false) {buffers : List SBuffer}
    (haux : p.auxQueue = some aux)
    (hbuff : (auxAvailable fresh p.maximumBytes aux).buffers = buff :: buffers) :
    p.accumulate fresh m =
      let p' := p.accumulatedBy buff { auxAvailable fresh p.maximumBytes aux with buffers } m
      if p'.isAccumulated then .ok (p', (p.gathered buff m).memory)
      else .error (.assertFail "this->is_accumulated(i)") := by
  unfold accumulate
  rw [if_neg (by simp [hacc]), haux]
  dsimp only
  rw [hbuff]
  dsimp only
  unfold assertThat accumulatedBy
  split
  · rfl
  · rfl

/-- A port that is not accumulated has two entries, and the first is not
maximal. -/
theorem exists_front_of_not_accumulated (hacc : p.isAccumulated = false) :
    ∃ front next rest, p.queue.items = front :: next :: rest ∧
      front.length < p.maximumBytes := by
  simp only [isAccumulated, isFrontMaximal, Bool.or_eq_false_iff,
    decide_eq_false_iff_not, Nat.not_le] at hacc
  obtain ⟨htwo, hfront⟩ := hacc
  cases hq : p.queue.items with
  | nil => simp [hq] at htwo
  | cons front rest =>
      cases rest with
      | nil => simp [hq] at htwo
      | cons next rest =>
          refine ⟨front, next, rest, rfl, ?_⟩
          simpa [hq] using hfront

theorem freeBytes_eq (hlength : buff.config.length = p.maximumBytes) :
    p.freeBytes buff = p.wholeMaximum := by
  rw [freeBytes, hlength, wholeMaximum]

theorem wholeMaximum_le (p : InputPort) : p.wholeMaximum ≤ p.maximumBytes :=
  Nat.div_mul_le_self _ _

/-- A whole number of items that fits the maximum fits what may be filled. -/
theorem le_wholeMaximum {n : Nat} (hwhole : n % p.itemsSize = 0)
    (hle : n ≤ p.maximumBytes) : n ≤ p.wholeMaximum := by
  unfold wholeMaximum
  have hn := Nat.div_add_mod n p.itemsSize
  have hdiv : n / p.itemsSize ≤ p.maximumBytes / p.itemsSize :=
    Nat.div_le_div_right hle
  have := Nat.mul_le_mul_right p.itemsSize hdiv
  rw [Nat.mul_comm (n / p.itemsSize)] at this
  omega

/-- Nothing is rounded off exactly when the maximum is a whole number of
items. -/
theorem wholeMaximum_eq_iff (p : InputPort) :
    p.wholeMaximum = p.maximumBytes ↔ p.itemsSize ∣ p.maximumBytes := by
  unfold wholeMaximum
  constructor
  · intro h
    exact ⟨_, by rw [Nat.mul_comm]; exact h.symm⟩
  · intro h
    exact Nat.div_mul_cancel h

/-- Room for at least one item: the front leaves the queue, and nothing is
overwritten. -/
theorem accumulatedBy_items (aux : SimpleBufferQueue) (m : Memory)
    (hacc : p.isAccumulated = false)
    (hlength : buff.config.length = p.maximumBytes)
    (hwhole : WholeItems p.itemsSize p.queue.items)
    (hroom : p.wholeMaximum ≠ 0) :
    (p.accumulatedBy buff aux m).queue.items
      = (p.gathered buff m).accum :: (p.gathered buff m).queue := by
  obtain ⟨front, next, rest, hq, hlt⟩ := exists_front_of_not_accumulated hacc
  have hfit : front.length ≤ p.freeBytes buff := by
    rw [freeBytes_eq hlength]
    exact le_wholeMaximum (hwhole front (by simp [hq])) (Nat.le_of_lt hlt)
  apply BoundedDeque.pushFront_items
  exact not_full_of_front_fits rfl rfl hq (freeBytes_eq hlength ▸ hroom) hfit

/-- The accumulation buffer gets as many bytes as there are, or as there is room
for. -/
theorem gathered_length (hlength : buff.config.length = p.maximumBytes) :
    (p.gathered buff m).accum.length =
        min (queueLength p.queue.items) p.wholeMaximum ∧
      queueLength (p.gathered buff m).queue + (p.gathered buff m).accum.length
        = queueLength p.queue.items := by
  have h := gather_queueLength p.queue.items
    { buff with offset := 0, length := 0 }
    (p.freeBytes buff) m
  rw [freeBytes_eq hlength, Nat.zero_add] at h
  have haccum : (p.gathered buff m).accum.length
      = min (queueLength p.queue.items) p.wholeMaximum := by
    rw [← freeBytes_eq hlength] at h ⊢
    exact h.1
  refine ⟨haccum, ?_⟩
  rw [haccum]
  rw [← freeBytes_eq hlength] at h ⊢
  exact h.2

/-- The port that is accumulated already. -/
theorem whole_front_of_accumulated (hacc : p.isAccumulated = true) {b : SBuffer}
    (hb : b ∈ p.queue.items.head?) :
    min (queueLength p.queue.items) p.wholeMaximum ≤ b.length := by
  simp only [isAccumulated, Bool.or_eq_true, decide_eq_true_eq] at hacc
  cases hq : p.queue.items with
  | nil =>
      rw [hq] at hb
      cases hb
  | cons front rest =>
      rw [hq] at hb
      cases hb
      have hle := p.wholeMaximum_le
      rcases hacc with hone | hmax
      · rw [hq, List.length_cons] at hone
        have hnil : rest = [] := List.eq_nil_of_length_eq_zero (by omega)
        rw [hnil, queueLength_cons, queueLength_nil]
        omega
      · simp only [isFrontMaximal, hq, decide_eq_true_eq] at hmax
        omega

theorem wholeMaximum_ne_zero (hs : p.Sized) (hq : p.queue.items ≠ [])
    (h : p.itemsSize ∣ p.maximumBytes ∨
      queueLength p.queue.items < p.wholeMaximum ∨
      queueLength p.queue.items = p.wholeMaximum ∧
        ∀ b ∈ p.queue.items.getLast?, b.length ≠ 0) : p.wholeMaximum ≠ 0 := by
  rcases h with hdvd | hless | ⟨hsame, hlast⟩
  · rw [(wholeMaximum_eq_iff p).mpr hdvd]
    exact Nat.ne_of_gt hs.maximum
  · omega
  · rw [← hsame]
    exact queueLength_ne_zero hq hlast

/-- **When the final `ASSERT` holds**: the maximum is a whole number of items,
or the loop leaves nothing behind. -/
theorem accumulatedBy_isAccumulated (aux : SimpleBufferQueue) (m : Memory)
    (hs : p.Sized) (hacc : p.isAccumulated = false)
    (hlength : buff.config.length = p.maximumBytes)
    (hwhole : WholeItems p.itemsSize p.queue.items) :
    (p.accumulatedBy buff aux m).isAccumulated = true ↔
      p.itemsSize ∣ p.maximumBytes ∨ queueLength p.queue.items <
          p.wholeMaximum ∨
        queueLength p.queue.items = p.wholeMaximum ∧
          ∀ b ∈ p.queue.items.getLast?, b.length ≠ 0 := by
  obtain ⟨front, next, rest, hq, hlt⟩ := exists_front_of_not_accumulated hacc
  have hmaximum := hs.maximum
  have hle := p.wholeMaximum_le
  by_cases hroom : p.wholeMaximum = 0
  · -- the loop does nothing, and the empty buffer is put before at least one entry
    have hqueue : (p.gathered buff m).queue = front :: next :: rest := by
      have hfree := (freeBytes_eq hlength).trans hroom
      show (gather p.queue.items _ (p.freeBytes buff) m).queue = _
      rw [hfree, hq, gather_cons_zero]
    have haccum : (p.gathered buff m).accum.length = 0 := by
      rw [(gathered_length hlength).1, hroom, Nat.min_zero]
    constructor
    · intro hafter
      exfalso
      have hsize := p.queue.size_le
      rw [hq] at hsize
      simp only [List.length_cons] at hsize
      have hitems : ∃ b l, (p.accumulatedBy buff aux m).queue.items
          = (p.gathered buff m).accum :: b :: l := by
        unfold accumulatedBy
        by_cases hfull : (p.queue.replace (p.gathered buff m).queue
            (Nat.le_trans (gather_queue_length _ _ _ _) p.queue.size_le)).full
        · refine ⟨front, (next :: rest).dropLast, ?_⟩
          refine (BoundedDeque.pushFront_items_of_full _ _ hfull ?_).trans ?_
          · rw [BoundedDeque.replace_capacity]
            omega
          · rw [BoundedDeque.replace_items, hqueue]
            rfl
        · refine ⟨front, next :: rest,
            (BoundedDeque.pushFront_items _ _ hfull).trans ?_⟩
          rw [BoundedDeque.replace_items, hqueue]
      obtain ⟨b, l, hitems⟩ := hitems
      simp only [isAccumulated, isFrontMaximal, hitems, List.length_cons,
        haccum, Bool.or_eq_true, decide_eq_true_eq] at hafter
      replace hafter : l.length + 1 + 1 ≤ 1 ∨ p.maximumBytes ≤ 0 := hafter
      omega
    · intro hok
      exact absurd hroom (wholeMaximum_ne_zero hs (by simp [hq]) hok)
  · have hitems := accumulatedBy_items aux m hacc hlength hwhole hroom
    obtain ⟨haccum, hrest⟩ := gathered_length (m := m) hlength
    have hemptied : (p.gathered buff m).queue = [] ↔ _ :=
      gather_emptied_iff (by simp [hq]) { buff with offset := 0, length := 0 }
        (p.freeBytes buff) m
    rw [freeBytes_eq hlength] at hemptied
    have hmax : (p.accumulatedBy buff aux m).isAccumulated = true ↔
        (p.gathered buff m).queue = [] ∨
          p.maximumBytes ≤ min (queueLength p.queue.items) p.wholeMaximum := by
      simp only [isAccumulated, isFrontMaximal, hitems, List.length_cons,
        Bool.or_eq_true, decide_eq_true_eq, ← haccum]
      refine or_congr ?_ Iff.rfl
      rw [← List.length_eq_zero_iff]
      omega
    rw [hmax, hemptied]
    constructor
    · rintro ((h | h) | h)
      · exact .inr (.inl h)
      · exact .inr (.inr h)
      · exact .inl ((wholeMaximum_eq_iff p).mp (by omega))
    · rintro (hdvd | h | h)
      · have := (wholeMaximum_eq_iff p).mpr hdvd
        omega
      · exact .inl (.inl h)
      · exact .inl (.inr h)

/-- **What `accumulate` is for**: it returns, loses and overwrites nothing, and
the front holds whole items, as many as there are or as fit the maximum. -/
structure Accumulates (fresh : Allocation) (m : Memory) (p p' : InputPort)
    (m' : Memory) : Prop where
  returns : p.accumulate fresh m = .ok (p', m')
  enqueuedBytes : p'.enqueuedBytes = p.enqueuedBytes
  total : queueLength p'.queue.items = queueLength p.queue.items
  bytes : queueBytes m' p'.queue.items = queueBytes m p.queue.items
  /-- Every entry that the loop left is still there. -/
  entries : p'.queue.items = p.queue.items ∨
    ∃ buff, p'.queue.items =
      (p.gathered buff m).accum :: (p.gathered buff m).queue
  front : ∀ b ∈ p'.queue.items.head?, b.length % p.itemsSize = 0 ∧
    min (queueLength p.queue.items) p.wholeMaximum ≤ b.length
  accumulated : p'.isAccumulated = true

/-- **When `accumulate` reaches its goal.**  The goal is the largest whole
number of items in the maximum.  A copy into the accumulation buffer is cut at
the maximum in bytes, so it misses the goal where the item size does not divide
the maximum and more than the goal is enqueued, or an empty entry is last. -/
theorem accumulate_reaches (hs : p.Sized)
    (hwhole : WholeItems p.itemsSize p.queue.items)
    (hfree : ∀ aux ∈ p.auxQueue,
      ∀ a ∈ (auxAvailable fresh p.maximumBytes aux).buffers,
      a.Injective m.phys ∧ ∀ b ∈ p.queue.items, a.Separate m.phys b) :
    (∃ p' m', Accumulates fresh m p p' m') ↔
      p.isAccumulated = true ∨ p.itemsSize ∣ p.maximumBytes ∨
        queueLength p.queue.items < p.wholeMaximum ∨
        queueLength p.queue.items = p.wholeMaximum ∧
          ∀ b ∈ p.queue.items.getLast?, b.length ≠ 0 := by
  by_cases hacc : p.isAccumulated = true
  · refine ⟨fun _ => .inl hacc,
      fun _ => ⟨p, m, ?_, rfl, rfl, rfl, .inl rfl, fun b hb => ?_, hacc⟩⟩
    · rw [accumulate, if_pos hacc]
      rfl
    · exact ⟨hwhole b (List.mem_of_mem_head? hb),
        whole_front_of_accumulated hacc hb⟩
  · rw [Bool.not_eq_true] at hacc
    obtain ⟨aux, buff, buffers, haux, hbuff, hlength, -⟩ :=
      hs.auxAvailable fresh
    have heq := accumulate_eq (m := m) hacc haux hbuff
    have hafter := accumulatedBy_isAccumulated
      { auxAvailable fresh p.maximumBytes aux with buffers } m hs hacc
      hlength hwhole
    rw [hacc, ← hafter]
    dsimp only at heq
    constructor
    · rintro ⟨p', m', h⟩
      have hreturns := h.returns
      rw [heq] at hreturns
      split at hreturns
      · rename_i hok
        exact .inr hok
      · cases hreturns
    · rintro (hfalse | hok)
      · cases hfalse
      · rw [if_pos hok] at heq
        obtain ⟨front, next, rest, hq, -⟩ :=
          exists_front_of_not_accumulated hacc
        have hroom := wholeMaximum_ne_zero hs (by simp [hq]) (hafter.mp hok)
        have hitems := accumulatedBy_items
          { auxAvailable fresh p.maximumBytes aux with buffers } m
          hacc hlength hwhole hroom
        obtain ⟨haccum, hrest⟩ := gathered_length (m := m) hlength
        obtain ⟨hinj, hsep⟩ := hfree aux haux buff (by simp [hbuff])
        refine ⟨_, _, heq, rfl, ?_, ?_, .inr ⟨buff, hitems⟩,
          fun b hb => ?_, hok⟩
        · rw [hitems, queueLength_cons]
          omega
        · rw [hitems]
          exact gathered_bytes hinj hsep
        · rw [hitems] at hb
          cases hb
          refine ⟨?_, Nat.le_of_eq haccum.symm⟩
          rw [haccum]
          rcases Nat.le_total
            (queueLength p.queue.items) p.wholeMaximum with hle | hle
          · rw [Nat.min_eq_left hle]
            exact hwhole.queueLength
          · rw [Nat.min_eq_right hle]
            exact Nat.mul_mod_left _ _

end Accumulate

/-! ## Two ports -/

/-- Memory in which every byte is at its address. -/
def flatMemory : Memory where
  phys := id
  cell := fun _ => 0

/-- The auxiliary buffers of a port with that maximum. -/
def flatAux (maximum : Nat) : AuxAllocations where
  first := ⟨1, 0⟩
  second := ⟨2, maximum⟩
  third := ⟨3, 2 * maximum⟩
  token := 1

/-- A chunk of so many bytes from that address on. -/
def flatChunk (impl address length : Nat) : SBuffer where
  impl := impl
  config := { memory := address, length := length }
  length := length

/-- A configured port that holds three chunks. -/
def flatPort (itemSize maximum : Nat) (chunks : SBuffer × SBuffer × SBuffer) :
    InputPort :=
  { resized 0 0 with
    itemsSize := itemSize
    maximumBytes := maximum
    reserveBytes := itemSize
    enqueuedBytes := chunks.1.length + chunks.2.1.length + chunks.2.2.length
    queue := ⟨4, [chunks.1, chunks.2.1, chunks.2.2], by simp⟩
    auxQueue := some ((flatAux maximum).queue maximum) }

theorem flatPort_sized {itemSize maximum : Nat}
    (chunks : SBuffer × SBuffer × SBuffer) (hitem : 0 < itemSize)
    (hle : itemSize ≤ maximum) : (flatPort itemSize maximum chunks).Sized :=
  ⟨hitem, Nat.lt_of_lt_of_le hitem hle, hle, _, rfl,
    AuxAllocations.queue_length _ _⟩

/-- The chunks lie behind the auxiliary buffers. -/
theorem flatPort_free {itemSize maximum : Nat}
    {chunks : SBuffer × SBuffer × SBuffer} (fresh : Allocation)
    (hbehind : ∀ b ∈ (flatPort itemSize maximum chunks).queue.items,
      3 * maximum ≤ b.config.memory) :
    ∀ aux ∈ (flatPort itemSize maximum chunks).auxQueue,
      ∀ a ∈ (auxAvailable fresh maximum aux).buffers,
        a.Injective flatMemory.phys ∧
        ∀ b ∈ (flatPort itemSize maximum chunks).queue.items,
          a.Separate flatMemory.phys b := by
  rintro aux ⟨⟩ a ha
  rw [auxAvailable, if_neg (by simp [AuxAllocations.queue_buffers]),
    AuxAllocations.queue_buffers] at ha
  have haddress : a.config.length = maximum ∧
      a.config.memory ≤ 2 * maximum := by
    simp only [List.mem_cons, List.not_mem_nil, or_false] at ha
    rcases ha with rfl | rfl | rfl
    · exact ⟨rfl, Nat.zero_le _⟩
    · exact ⟨rfl, Nat.le_mul_of_pos_left maximum Nat.two_pos⟩
    · exact ⟨rfl, Nat.le_refl _⟩
  refine ⟨fun j _ i hi => ?_, fun b hb i hi j hj => ?_⟩
  · show a.config.memory + i ≠ a.config.memory + j
    omega
  · have := hbehind b hb
    show a.config.memory + i ≠ b.config.memory + j
    omega

/-- Three chunks of one item each, two of which fit the maximum. -/
theorem accumulate_reaches_threeItems :
    ∃ p' m', Accumulates ⟨4, 24⟩ flatMemory
      (flatPort 2 4 (flatChunk 5 12 2, flatChunk 6 14 2,
        flatChunk 7 16 2)) p' m' :=
  (accumulate_reaches (flatPort_sized _ (by decide) (by decide))
    (by unfold WholeItems; decide) (flatPort_free _ (by decide))).mpr
    (.inr (.inl (by decide)))

/-- **The final `ASSERT` fails** for items of three bytes and the default
maximum of 65536 bytes: the loop fills 65535 bytes, and the rest stays
behind. -/
theorem accumulate_fails_rounded :
    ¬ ∀ (p : InputPort) (fresh : Allocation) (m : Memory), p.Sized →
      WholeItems p.itemsSize p.queue.items →
      (∀ aux ∈ p.auxQueue,
        ∀ a ∈ (auxAvailable fresh p.maximumBytes aux).buffers,
        a.Injective m.phys ∧ ∀ b ∈ p.queue.items, a.Separate m.phys b) →
      ∃ p' m', Accumulates fresh m p p' m' := by
  intro hall
  let p := flatPort 3 maxAuxBuffBytes
    (flatChunk 5 200000 3, flatChunk 6 300000 32766, flatChunk 7 400000 32769)
  have hs : p.Sized := flatPort_sized _ (by decide) (by decide)
  have hwhole : WholeItems p.itemsSize p.queue.items := by
    unfold WholeItems
    decide
  obtain ⟨p', m', h⟩ :=
    hall p ⟨4, 0⟩ flatMemory hs hwhole (flatPort_free _ (by decide))
  have hacc : p.isAccumulated = false := by decide
  obtain ⟨aux, buff, buffers, haux, hbuff, hlength, -⟩ := hs.auxAvailable ⟨4, 0⟩
  have hreturns := h.returns
  rw [accumulate_eq hacc haux hbuff] at hreturns
  dsimp only at hreturns
  split at hreturns
  · rename_i hok
    rcases (accumulatedBy_isAccumulated _ _ hs hacc hlength hwhole).mp hok with
      hdvd | hless | ⟨hsame, -⟩
    · exact absurd hdvd (by decide)
    · exact absurd hless (by decide)
    · exact absurd hsame (by decide)
  · cases hreturns

end InputPort

end Gras
