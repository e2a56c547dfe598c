import Gras.Buffers.InputBufferQueues

/-!
# What the input operations do to a queue of buffers

One inversion lemma for each operation of `InputPort` (`push_cases`,
`consume_cases`, `accumulate_cases`, `front_cases`), and what the loops inside
them do to the buffers and the bytes.

* `queueBytes m q` are the bytes the buffers of `q` stand for.
* `SBuffer.extent` is how far the handle reaches into its memory; the operations
  move bytes between neighbours but never reach a cell that was not reached
  before (`Reaches`).
* `gather_bytes`: accumulation keeps the bytes, provided that the auxiliary
  buffer lies in memory of its own.
-/

namespace Gras

/-! ## Bytes and cells -/

/-- The bytes the buffers of a queue stand for, front first. -/
def queueBytes (m : Memory) (q : List SBuffer) : List Byte :=
  q.flatMap (SBuffer.bytes m)

@[simp] theorem queueBytes_nil (m : Memory) : queueBytes m [] = [] := rfl

@[simp] theorem queueBytes_cons (m : Memory) (b : SBuffer) (q : List SBuffer) :
    queueBytes m (b :: q) = b.bytes m ++ queueBytes m q := rfl

@[simp] theorem queueBytes_append (m : Memory) (q q' : List SBuffer) :
    queueBytes m (q ++ q') = queueBytes m q ++ queueBytes m q' :=
  List.flatMap_append

/-- How far a handle reaches into its memory. -/
def SBuffer.extent (b : SBuffer) : Nat := b.offset + b.length

/-- Every cell `q'` reaches is reached by `q` already. -/
def Reaches (phys : Nat → Nat) (q q' : List SBuffer) : Prop :=
  ∀ b' ∈ q', ∀ j < b'.extent, ∃ b ∈ q, ∃ i < b.extent,
    phys (b'.config.memory + j) = phys (b.config.memory + i)

/-- The memory of `a` shares no cell with what `b` reaches. -/
def SBuffer.Separate (phys : Nat → Nat) (a b : SBuffer) : Prop :=
  ∀ i < a.config.length, ∀ j < b.extent,
    phys (a.config.memory + i) ≠ phys (b.config.memory + j)

/-- The whole memory of `a` shares no cell with the whole memory of `b`. -/
def SBuffer.Apart (phys : Nat → Nat) (a b : SBuffer) : Prop :=
  ∀ i < a.config.length, ∀ j < b.config.length,
    phys (a.config.memory + i) ≠ phys (b.config.memory + j)

/-- No two addresses of the memory of `a` are aliases. -/
def SBuffer.Injective (phys : Nat → Nat) (a : SBuffer) : Prop :=
  ∀ j < a.config.length, ∀ i < j,
    phys (a.config.memory + i) ≠ phys (a.config.memory + j)

theorem SBuffer.Apart.separate {phys : Nat → Nat} {a b : SBuffer}
    (h : a.Apart phys b) (hb : b.extent ≤ b.config.length) :
    a.Separate phys b :=
  fun i hi j hj => h i hi j (Nat.lt_of_lt_of_le hj hb)

theorem SBuffer.Apart.symm {phys : Nat → Nat} {a b : SBuffer}
    (h : a.Apart phys b) :
    b.Apart phys a := fun i hi j hj => (h j hj i hi).symm

/-- The free auxiliary buffers of a port. -/
def InputPort.auxBuffers (p : InputPort) : List SBuffer :=
  match p.auxQueue with
  | none => []
  | some aux => aux.buffers

section Cells

variable {phys : Nat → Nat} {q q' q'' : List SBuffer}

theorem Reaches.refl (phys : Nat → Nat) (q : List SBuffer) : Reaches phys q q :=
  fun b hb j hj => ⟨b, hb, j, hj, rfl⟩

theorem Reaches.trans (h : Reaches phys q q') (h' : Reaches phys q' q'') :
    Reaches phys q q'' := by
  intro b hb j hj
  obtain ⟨b', hb', i, hi, heq⟩ := h' b hb j hj
  obtain ⟨b'', hb'', k, hk, heq'⟩ := h b' hb' i hi
  exact ⟨b'', hb'', k, hk, heq.trans heq'⟩

theorem Reaches.of_subset (h : ∀ b ∈ q', b ∈ q) : Reaches phys q q' :=
  fun b hb j hj => ⟨b, h b hb, j, hj, rfl⟩

/-- Handles that reach as far as others into the same memory. -/
theorem Reaches.of_extent
    (h : ∀ b' ∈ q', ∃ b ∈ q, b'.config = b.config ∧ b'.extent = b.extent) :
    Reaches phys q q' := by
  intro b' hb' j hj
  obtain ⟨b, hb, hconfig, hextent⟩ := h b' hb'
  exact ⟨b, hb, j, hextent ▸ hj, by rw [hconfig]⟩

theorem Reaches.cons (b : SBuffer) (h : Reaches phys q q') :
    Reaches phys (b :: q) (b :: q') := by
  intro b' hb' j hj
  rcases List.mem_cons.mp hb' with rfl | hb'
  · exact ⟨b', List.mem_cons_self, j, hj, rfl⟩
  · obtain ⟨b₀, hb₀, i, hi, heq⟩ := h b' hb' j hj
    exact ⟨b₀, List.mem_cons_of_mem _ hb₀, i, hi, heq⟩

/-- Memory separate from `q` is separate from what only reaches as far. -/
theorem Reaches.separate (h : Reaches phys q q') {a : SBuffer}
    (ha : ∀ b ∈ q, a.Separate phys b) : ∀ b ∈ q', a.Separate phys b := by
  intro b' hb' i hi j hj
  obtain ⟨b, hb, k, hk, heq⟩ := h b' hb' j hj
  rw [heq]
  exact ha b hb i hi k hk

/-- The bytes of a queue do not change when the cells it reaches do not. -/
theorem queueBytes_congr {m m' : Memory} {q : List SBuffer}
    (h : ∀ b ∈ q, ∀ k < b.length, m'.read (b.get 0 + k) =
      m.read (b.get 0 + k)) :
    queueBytes m' q = queueBytes m q := by
  induction q with
  | nil => rfl
  | cons b q ih =>
      rw [queueBytes_cons, queueBytes_cons,
        ih fun b' hb' => h b' (List.mem_cons_of_mem _ hb')]
      congr 1
      exact ByteMemory.readRange_congr fun k hk => h b List.mem_cons_self k hk

end Cells

namespace InputPort

/-! ## The loops -/

/-- Does the next buffer stitch to this one? -/
def Joins (b0 : SBuffer) : List SBuffer → Prop
  | [] => False
  | b1 :: _ => Stitches b0 b1

instance (b0 : SBuffer) (rest : List SBuffer) : Decidable (Joins b0 rest) :=
  match rest with
  | [] => inferInstanceAs (Decidable False)
  | _ :: _ => inferInstanceAs (Decidable (Stitches _ _))

/-- The length the front of a queue has once everything is stitched. -/
def chainLength : List SBuffer → Nat
  | [] => 0
  | b :: rest => b.length + if Joins b rest then chainLength rest else 0

theorem stitch_of {b0 b1 : SBuffer} (h : Stitches b0 b1) (rest : List SBuffer) :
    stitch b0 (b1 :: rest) = taking b0 b1 :: giving b0 b1 :: rest := if_pos h

theorem stitch_of_not {b0 b1 : SBuffer} (h : ¬ Stitches b0 b1)
    (rest : List SBuffer) :
    stitch b0 (b1 :: rest) = b0 :: b1 :: rest := if_neg h

/-- The front of a queue once everything is stitched: longer, and otherwise as
before. -/
def chained (b : SBuffer) (rest : List SBuffer) : SBuffer :=
  { b with length := chainLength (b :: rest) }

theorem stitches_chained {b0 b1 : SBuffer} {rest : List SBuffer} :
    Stitches b0 (chained b1 rest) ↔ Stitches b0 b1 := Iff.rfl

theorem stitchLoop_cons (b : SBuffer) (rest : List SBuffer) :
    ∃ rest', stitchLoop (b :: rest) = chained b rest :: rest' := by
  induction rest generalizing b with
  | nil => exact ⟨[], by simp [stitchLoop, stitch, chained, chainLength, Joins]⟩
  | cons b1 rest ih =>
      obtain ⟨rest', hrest⟩ := ih b1
      rw [stitchLoop, hrest]
      by_cases h : Stitches b b1
      · have hchain : chained b (b1 :: rest) = taking b (chained b1 rest) := by
          simp [chained, taking, chainLength.eq_2 b,
            show Joins b (b1 :: rest) from h]
        rw [stitch_of (stitches_chained.mpr h), hchain]
        exact ⟨_, rfl⟩
      · have hchain : chained b (b1 :: rest) = b := by
          simp [chained, chainLength.eq_2 b, show ¬ Joins b (b1 :: rest) from h]
        rw [stitch_of_not (mt stitches_chained.mp h), hchain]
        exact ⟨_, rfl⟩

/-- **When stitching is sound**: behind the end of every buffer that passes the
test are the cells of the bytes of its successor. -/
def StitchSafe (phys : Nat → Nat) : List SBuffer → Prop
  | [] => True
  | b0 :: rest =>
      (∀ b1 ∈ rest.head?, Stitches b0 b1 → ∀ k < chainLength rest,
        phys (b0.get b0.length + k) = phys (b1.get 0 + k)) ∧
        StitchSafe phys rest

instance StitchSafe.decidable (phys : Nat → Nat) :
    ∀ q : List SBuffer, Decidable (StitchSafe phys q)
  | [] => inferInstanceAs (Decidable True)
  | [_] => .isTrue ⟨fun _ h => absurd h (Option.not_mem_none _), trivial⟩
  | b0 :: b1 :: rest =>
      have := StitchSafe.decidable phys (b1 :: rest)
      decidable_of_iff
        ((Stitches b0 b1 → ∀ k < chainLength (b1 :: rest),
          phys (b0.get b0.length + k) = phys (b1.get 0 + k)) ∧
          StitchSafe phys (b1 :: rest))
        (and_congr_left'
          ⟨fun h _ hb => Option.mem_some_iff.mp hb ▸ h, fun h => h b1 rfl⟩)

theorem giving_bytes (m : Memory) (b0 b1 : SBuffer) :
    (giving b0 b1).bytes m = [] :=
  SBuffer.bytes_eq_nil rfl

theorem taking_bytes {m : Memory} {b0 b1 : SBuffer}
    (h : ∀ k < b1.length, m.phys (b0.get b0.length + k) =
      m.phys (b1.get 0 + k)) :
    (taking b0 b1).bytes m = b0.bytes m ++ b1.bytes m := by
  refine (m.readRange_add _ _ _).trans ?_
  congr 1
  refine ByteMemory.readRange_congr fun k hk => ?_
  exact congrArg m.cell (h k hk)

theorem stitchLoop_bytes {m : Memory} {q : List SBuffer}
    (h : StitchSafe m.phys q) :
    queueBytes m (stitchLoop q) = queueBytes m q := by
  induction q with
  | nil => rfl
  | cons b0 rest ih =>
      obtain ⟨hsafe, hrest⟩ := h
      rw [stitchLoop, queueBytes_cons, ← ih hrest]
      cases rest with
      | nil => rfl
      | cons b1 rest =>
          obtain ⟨rest', hloop⟩ := stitchLoop_cons b1 rest
          rw [hloop]
          by_cases hst : Stitches b0 b1
          · rw [stitch_of (stitches_chained.mpr hst)]
            simp only [queueBytes_cons, giving_bytes, List.nil_append]
            rw [taking_bytes (hsafe b1 rfl hst), List.append_assoc]
          · rw [stitch_of_not (mt stitches_chained.mp hst)]
            rfl

theorem giving_extent (b0 b1 : SBuffer) : (giving b0 b1).extent = b1.extent :=
  Nat.add_zero _

theorem stitch_reaches {phys : Nat → Nat} {b0 b1 : SBuffer}
    (rest : List SBuffer)
    (h : ∀ k < b1.length, phys (b0.get b0.length + k) = phys (b1.get 0 + k)) :
    Reaches phys (b0 :: b1 :: rest) (taking b0 b1 :: giving b0 b1 :: rest) := by
  intro b hb j hj
  rcases List.mem_cons.mp hb with rfl | hb
  · change j < b0.offset + (b0.length + b1.length) at hj
    rcases Nat.lt_or_ge j b0.extent with hlt | hge
    · exact ⟨b0, by simp, j, hlt, rfl⟩
    · unfold SBuffer.extent at hge
      have hcell := h (j - (b0.offset + b0.length)) (by omega)
      refine ⟨b1, by simp, b1.offset + (j - (b0.offset + b0.length)), ?_, ?_⟩
      · unfold SBuffer.extent
        omega
      · rw [show b1.config.memory + (b1.offset + (j - (b0.offset + b0.length)))
          = b1.get 0 +
            (j - (b0.offset + b0.length)) by simp only [SBuffer.get]; omega,
          ← hcell]
        congr 1
        simp only [SBuffer.get, taking]
        omega
  · rcases List.mem_cons.mp hb with rfl | hb
    · exact ⟨b1, by simp, j, giving_extent b0 b1 ▸ hj, rfl⟩
    · exact ⟨b, by simp [hb], j, hj, rfl⟩

theorem stitchLoop_reaches {phys : Nat → Nat} {q : List SBuffer}
    (h : StitchSafe phys q) : Reaches phys q (stitchLoop q) := by
  induction q with
  | nil => exact Reaches.refl _ _
  | cons b0 rest ih =>
      obtain ⟨hsafe, hrest⟩ := h
      refine ((ih hrest).cons b0).trans ?_
      cases rest with
      | nil => exact Reaches.refl _ _
      | cons b1 rest =>
          obtain ⟨rest', hloop⟩ := stitchLoop_cons b1 rest
          rw [stitchLoop.eq_2 b0, hloop]
          by_cases hst : Stitches b0 b1
          · rw [stitch_of (stitches_chained.mpr hst)]
            exact stitch_reaches rest' (hsafe b1 rfl hst)
          · rw [stitch_of_not (mt stitches_chained.mp hst)]
            exact Reaches.refl _ _

/-- The buffer that goes from the back is empty. -/
theorem dropStitched_eq (q : List SBuffer) :
    dropStitched q = q ∨ ∃ b, b.length = 0 ∧ q = dropStitched q ++ [b] := by
  fun_induction dropStitched q with
  | case1 b0 b1 h => exact .inr ⟨b1, h.2, rfl⟩
  | case2 => exact .inl rfl
  | case3 b rest _ ih =>
      rcases ih with heq | ⟨b', hb', heq⟩
      · exact .inl (by rw [heq])
      · exact .inr ⟨b', hb', by rw [List.cons_append, ← heq]⟩
  | case4 => exact .inl rfl

theorem dropStitched_bytes (m : Memory) (q : List SBuffer) :
    queueBytes m (dropStitched q) = queueBytes m q := by
  rcases dropStitched_eq q with heq | ⟨b, hb, heq⟩
  · rw [heq]
  · conv_rhs => rw [heq]
    simp [SBuffer.bytes_eq_nil hb]

theorem mem_of_mem_dropStitched {q : List SBuffer} {b : SBuffer}
    (h : b ∈ dropStitched q) : b ∈ q := by
  rcases dropStitched_eq q with heq | ⟨b', -, heq⟩
  · rwa [heq] at h
  · rw [heq]
    exact List.mem_append_left _ h

theorem drained_cons (bytes : Nat) (front : SBuffer) (rest : List SBuffer) :
    drained bytes (front :: rest)
      = if front.length = bytes then rest else front.skip bytes :: rest := rfl

theorem drained_bytes {m : Memory} {front : SBuffer} {rest : List SBuffer}
    {bytes : Nat} (h : bytes ≤ front.length) :
    queueBytes m (drained bytes (front :: rest))
      = (queueBytes m (front :: rest)).drop bytes := by
  rw [queueBytes_cons, List.drop_append_of_le_length (by simpa using h)]
  rw [drained_cons]
  split
  · rename_i heq
    rw [List.drop_of_length_le (by simp [heq]), List.nil_append]
  · rw [queueBytes_cons]
    congr 1
    rw [SBuffer.bytes, SBuffer.bytes, ByteMemory.readRange_drop,
      SBuffer.skip_get]
    rfl

theorem skip_extent {b : SBuffer} {bytes : Nat} (h : bytes ≤ b.length) :
    (b.skip bytes).extent = b.extent := by
  simp only [SBuffer.extent, SBuffer.skip]
  omega

/-- Draining the front leaves its end where it is. -/
theorem drained_extent {front : SBuffer} {rest : List SBuffer} {bytes : Nat}
    (h : bytes ≤ front.length) : ∀ b' ∈ drained bytes (front :: rest),
      ∃ b ∈ front :: rest, b'.config = b.config ∧ b'.extent = b.extent := by
  intro b hb
  rw [drained_cons] at hb
  split at hb
  · exact ⟨b, List.mem_cons_of_mem _ hb, rfl, rfl⟩
  · rcases List.mem_cons.mp hb with rfl | hb
    · exact ⟨front, List.mem_cons_self, rfl, skip_extent h⟩
    · exact ⟨b, List.mem_cons_of_mem _ hb, rfl, rfl⟩

theorem drained_reaches (phys : Nat → Nat) {front : SBuffer}
    {rest : List SBuffer} {bytes : Nat} (h : bytes ≤ front.length) :
    Reaches phys (front :: rest) (drained bytes (front :: rest)) :=
  Reaches.of_extent (drained_extent h)

/-- **When un-stitching is sound**: the bytes below the offset of a second
buffer that passes the test are the rest of the front. -/
def UnstitchSafe (m : Memory) : List SBuffer → Prop
  | b0 :: b1 :: _ =>
      Unstitches b0 b1 →
        m.readRange (regaining b0 b1 |>.get 0) b0.length = b0.bytes m
  | _ => True

instance (m : Memory) : ∀ q : List SBuffer, Decidable (UnstitchSafe m q)
  | [] => inferInstanceAs (Decidable True)
  | [_] => inferInstanceAs (Decidable True)
  | _ :: _ :: _ => inferInstanceAs (Decidable (_ → _))

theorem regaining_bytes {m : Memory} {b0 b1 : SBuffer}
    (hle : b0.length ≤ b1.offset)
    (h : m.readRange ((regaining b0 b1).get 0) b0.length = b0.bytes m) :
    (regaining b0 b1).bytes m = b0.bytes m ++ b1.bytes m := by
  rw [← h, SBuffer.bytes, SBuffer.bytes,
    show (regaining b0 b1).length = b0.length + b1.length from Nat.add_comm _ _,
    ByteMemory.readRange_add]
  congr 2
  simp only [SBuffer.get, regaining]
  omega

theorem unstitch_bytes {m : Memory} {q : List SBuffer} (h : UnstitchSafe m q) :
    queueBytes m (unstitch q) = queueBytes m q := by
  unfold unstitch
  split
  · rename_i b0 b1 rest
    split
    · rename_i hun
      rw [queueBytes_cons, regaining_bytes hun.1 (h hun), queueBytes_cons,
        queueBytes_cons, List.append_assoc]
    · rfl
  · rfl

/-- Un-stitching leaves the ends where they are. -/
theorem unstitch_extent (q : List SBuffer) : ∀ b' ∈ unstitch q,
    ∃ b ∈ q, b'.config = b.config ∧ b'.extent = b.extent := by
  intro b hb
  unfold unstitch at hb
  split at hb
  · rename_i b0 b1 rest
    split at hb
    · rename_i hun
      rcases List.mem_cons.mp hb with rfl | hb
      · refine ⟨b1, by simp, rfl, ?_⟩
        have := hun.1
        simp only [SBuffer.extent, regaining]
        omega
      · exact ⟨b, by simp [hb], rfl, rfl⟩
    · exact ⟨b, hb, rfl, rfl⟩
  · exact ⟨b, hb, rfl, rfl⟩

theorem unstitch_reaches (phys : Nat → Nat) (q : List SBuffer) :
    Reaches phys q (unstitch q) := Reaches.of_extent (unstitch_extent q)

/-! ## Accumulation -/

/-- The accumulation buffer with so many bytes more. -/
def filled (accum : SBuffer) (bytes : Nat) : SBuffer :=
  { accum with length := accum.length + bytes }

theorem gather_cons_zero (front : SBuffer) (rest : List SBuffer)
    (accum : SBuffer) (m : Memory) :
    gather (front :: rest) accum 0 m = ⟨front :: rest, accum, m⟩ := rfl

/-- A front that fits is copied whole. -/
theorem gather_cons_of_le {front : SBuffer} {freeBytes : Nat}
    (h₀ : freeBytes ≠ 0) (h : front.length ≤ freeBytes) (rest : List SBuffer)
    (accum : SBuffer) (m : Memory) :
    gather (front :: rest) accum freeBytes m
      = gather rest (filled accum front.length) (freeBytes - front.length)
          (m.copy (accum.get accum.length) (front.get 0) front.length) := by
  rw [gather, if_neg h₀, if_pos h, Nat.min_eq_left h]
  rfl

/-- A front that does not fit loses the bytes that do. -/
theorem gather_cons_of_lt {front : SBuffer} {freeBytes : Nat}
    (h₀ : freeBytes ≠ 0) (h : freeBytes < front.length) (rest : List SBuffer)
    (accum : SBuffer) (m : Memory) :
    gather (front :: rest) accum freeBytes m
      = ⟨moved accum front freeBytes :: rest, filled accum freeBytes,
          m.copy (accum.get accum.length) (front.get 0) freeBytes⟩ := by
  rw [gather, if_neg h₀, if_neg (Nat.not_le_of_lt h),
    Nat.min_eq_right (Nat.le_of_lt h)]
  rfl

/-- **The three rounds of the accumulation loop.**  What holds when the loop
stops, and is handed back by a round, holds of the loop. -/
theorem gather_rule
    {P : List SBuffer → SBuffer → Nat → Memory → Gathered → Prop}
    (hnil : ∀ accum freeBytes m, P [] accum freeBytes m ⟨[], accum, m⟩)
    (hzero : ∀ front rest accum m,
      P (front :: rest) accum 0 m ⟨front :: rest, accum, m⟩)
    (hwhole : ∀ (front : SBuffer) rest accum freeBytes (m : Memory) g,
      freeBytes ≠ 0 →
      front.length ≤ freeBytes →
      P rest (filled accum front.length) (freeBytes - front.length)
        (m.copy (accum.get accum.length) (front.get 0) front.length) g →
      P (front :: rest) accum freeBytes m g)
    (hpart : ∀ (front : SBuffer) rest accum freeBytes (m : Memory),
      freeBytes ≠ 0 →
      freeBytes < front.length →
      P (front :: rest) accum freeBytes m
        ⟨moved accum front freeBytes :: rest, filled accum freeBytes,
          m.copy (accum.get accum.length) (front.get 0) freeBytes⟩)
    (q : List SBuffer) (accum : SBuffer) (freeBytes : Nat) (m : Memory) :
    P q accum freeBytes m (gather q accum freeBytes m) := by
  induction q generalizing accum freeBytes m with
  | nil => exact hnil _ _ _
  | cons front rest ih =>
      by_cases h₀ : freeBytes = 0
      · rw [h₀]
        exact hzero _ _ _ _
      · rcases Nat.lt_or_ge freeBytes front.length with h | h
        · rw [gather_cons_of_lt h₀ h]
          exact hpart _ _ _ _ _ h₀ h
        · rw [gather_cons_of_le h₀ h]
          exact hwhole _ _ _ _ _ _ h₀ h (ih _ _ _)

theorem gather_phys (q : List SBuffer) (accum : SBuffer) (freeBytes : Nat)
    (m : Memory) : (gather q accum freeBytes m).memory.phys = m.phys := by
  refine gather_rule (P := fun _ _ _ m g => g.memory.phys = m.phys) ?_ ?_
    ?_ ?_ _ _ _ _
  · exact fun _ _ _ => rfl
  · exact fun _ _ _ _ => rfl
  · exact fun _ _ _ _ _ _ _ _ h => h.trans (ByteMemory.phys_copy _ _ _ _)
  · exact fun _ _ _ _ _ _ _ => ByteMemory.phys_copy _ _ _ _

/-- The accumulation buffer grows by at most the free bytes. -/
theorem gather_accum (q : List SBuffer) (accum : SBuffer) (freeBytes : Nat)
    (m : Memory) :
    ∃ bytes ≤ freeBytes, (gather q accum freeBytes m).accum =
      filled accum bytes := by
  refine gather_rule (P := fun _ accum freeBytes _ g =>
    ∃ bytes ≤ freeBytes, g.accum = filled accum bytes) ?_ ?_ ?_ ?_ _ _ _ _
  · exact fun _ _ _ => ⟨0, Nat.zero_le _, rfl⟩
  · exact fun _ _ _ _ => ⟨0, Nat.zero_le _, rfl⟩
  · rintro front _ accum freeBytes _ g - hle ⟨bytes, hbytes, heq⟩
    refine ⟨front.length + bytes, by omega, heq.trans ?_⟩
    simp [filled, Nat.add_assoc]
  · exact fun _ _ _ freeBytes _ _ _ => ⟨freeBytes, Nat.le_refl _, rfl⟩

/-- The buffers that stay reach as far as before. -/
theorem gather_extent (q : List SBuffer) (accum : SBuffer) (freeBytes : Nat)
    (m : Memory) :
    ∀ b' ∈ (gather q accum freeBytes m).queue,
      ∃ b ∈ q, b'.config = b.config ∧ b'.extent = b.extent := by
  refine gather_rule (P := fun q _ _ _ g => ∀ b' ∈ g.queue,
    ∃ b ∈ q, b'.config = b.config ∧ b'.extent = b.extent) ?_ ?_ ?_ ?_ _ _ _ _
  · exact fun _ _ _ b hb => ⟨b, hb, rfl, rfl⟩
  · exact fun _ _ _ _ b hb => ⟨b, hb, rfl, rfl⟩
  · rintro front rest _ _ _ g - - h b' hb'
    obtain ⟨b, hb, heq⟩ := h b' hb'
    exact ⟨b, List.mem_cons_of_mem _ hb, heq⟩
  · intro front rest accum freeBytes m _ hlt b' hb'
    rcases List.mem_cons.mp hb' with rfl | hb'
    · exact ⟨front, List.mem_cons_self, rfl, skip_extent (Nat.le_of_lt hlt)⟩
    · exact ⟨b', List.mem_cons_of_mem _ hb', rfl, rfl⟩

section Copy

variable {m : Memory} {accum front : SBuffer} {bytes : Nat}

/-- Copying into the accumulation buffer leaves every cell outside of its memory
alone. -/
theorem copy_read_of_ne (hoff : accum.offset = 0)
    (hfit : accum.length + bytes ≤ accum.config.length) {x : Nat}
    (hx : ∀ i < accum.config.length,
      m.phys (accum.config.memory + i) ≠ m.phys x) :
    (m.copy (accum.get accum.length) (front.get 0) bytes).read x =
      m.read x := by
  refine m.read_writeRange_of_ne fun k hk => ?_
  rw [ByteMemory.readRange_length] at hk
  rw [SBuffer.get, hoff, show accum.config.memory + 0 + accum.length + k
    = accum.config.memory + (accum.length + k) by omega]
  exact (hx _ (by omega)).symm

/-- The copied bytes stand behind the ones that were there. -/
theorem copy_bytes (hoff : accum.offset = 0)
    (hfit : accum.length + bytes ≤ accum.config.length)
    (hinj : accum.Injective m.phys) :
    (filled accum bytes).bytes
      (m.copy (accum.get accum.length) (front.get 0) bytes)
      = accum.bytes m ++ m.readRange (front.get 0) bytes := by
  refine (ByteMemory.readRange_add _ _ _ _).trans ?_
  have hget : ∀ k, accum.get 0 + k = accum.config.memory + k := fun k => by
    rw [SBuffer.get, hoff]
    rfl
  congr 1
  · refine ByteMemory.readRange_congr fun k hk => ?_
    refine m.read_writeRange_of_ne fun j hj => ?_
    rw [ByteMemory.readRange_length] at hj
    rw [show (filled accum bytes).get 0 + k = accum.config.memory + k
      from hget k, show accum.get accum.length + j =
        accum.config.memory + (accum.length + j) by
        rw [← hget]; simp only [SBuffer.get]; omega]
    exact hinj _ (by omega) _ (by omega)
  · have hread := m.read_writeRange (a := accum.get accum.length)
      (l := m.readRange (front.get 0) bytes) (fun j k hjk hk => ?_)
    · have := (m.writeRange (accum.get accum.length)
        (m.readRange (front.get 0) bytes)).readRange_eq_of_getElem hread
      rw [ByteMemory.readRange_length] at this
      rw [← this]
      congr 1
    · rw [ByteMemory.readRange_length] at hk
      have hat : ∀ i, accum.get accum.length + i
          = accum.config.memory + (accum.length + i) := fun i => by
        rw [← hget]; simp only [SBuffer.get]; omega
      rw [hat, hat]
      exact hinj _ (by omega) _ (by omega)

/-- What another buffer reads is not touched. -/
theorem copy_queueBytes (hoff : accum.offset = 0)
    (hfit : accum.length + bytes ≤ accum.config.length) {q : List SBuffer}
    (hsep : ∀ b ∈ q, accum.Separate m.phys b) :
    queueBytes (m.copy (accum.get accum.length) (front.get 0) bytes) q
      = queueBytes m q := by
  refine queueBytes_congr fun b hb k hk => ?_
  refine copy_read_of_ne hoff hfit fun i hi => ?_
  rw [show b.get 0 + k = b.config.memory +
    (b.offset + k) by simp only [SBuffer.get]; omega]
  exact hsep b hb i hi _ (by unfold SBuffer.extent; omega)

end Copy

/-- Accumulation writes to the auxiliary buffer only. -/
theorem gather_read (q : List SBuffer) (accum : SBuffer) (freeBytes : Nat)
    (m : Memory) (hoff : accum.offset = 0)
    (hfit : accum.length + freeBytes ≤ accum.config.length)
    {x : Nat} (hx : ∀ i < accum.config.length,
      m.phys (accum.config.memory + i) ≠ m.phys x) :
    (gather q accum freeBytes m).memory.read x = m.read x := by
  revert hoff hfit hx
  refine gather_rule (P := fun _ accum freeBytes m g => accum.offset = 0 →
    accum.length + freeBytes ≤ accum.config.length →
    (∀ i < accum.config.length, m.phys (accum.config.memory + i) ≠ m.phys x) →
    g.memory.read x = m.read x) ?_ ?_ ?_ ?_ _ _ _ _
  · exact fun _ _ _ _ _ _ => rfl
  · exact fun _ _ _ _ _ _ _ => rfl
  · intro front _ accum freeBytes m g _ hle ih hoff hfit hx
    rw [ih hoff (by simp only [filled]; omega)
      (by rw [ByteMemory.phys_copy]; exact hx)]
    exact copy_read_of_ne hoff (by omega) hx
  · exact fun _ _ _ _ _ _ _ hoff hfit hx => copy_read_of_ne hoff hfit hx

/-- **Accumulation keeps the bytes.** -/
theorem gather_bytes (q : List SBuffer) (accum : SBuffer) (freeBytes : Nat)
    (m : Memory) (hoff : accum.offset = 0)
    (hfit : accum.length + freeBytes ≤ accum.config.length)
    (hinj : accum.Injective m.phys) (hsep : ∀ b ∈ q, accum.Separate m.phys b) :
    queueBytes (gather q accum freeBytes m).memory
        ((gather q accum freeBytes m).accum ::
          (gather q accum freeBytes m).queue)
      = queueBytes m (accum :: q) := by
  revert hoff hfit hinj hsep
  refine gather_rule (P := fun q accum freeBytes m g => accum.offset = 0 →
    accum.length + freeBytes ≤ accum.config.length → accum.Injective m.phys →
    (∀ b ∈ q, accum.Separate m.phys b) →
    queueBytes g.memory (g.accum :: g.queue) = queueBytes m (accum :: q)) ?_ ?_
      ?_ ?_ _ _ _ _
  · exact fun _ _ _ _ _ _ _ => rfl
  · exact fun _ _ _ _ _ _ _ _ => rfl
  · intro front rest accum freeBytes m g _ hle ih hoff hfit hinj hsep
    have hrest : ∀ b ∈ rest, accum.Separate m.phys b :=
      fun b hb => hsep b (List.mem_cons_of_mem _ hb)
    have hfit' : accum.length + front.length ≤ accum.config.length := by omega
    rw [ih hoff (by simp only [filled]; omega)
        (by rw [ByteMemory.phys_copy]; exact hinj)
        (by rw [ByteMemory.phys_copy]; exact hrest),
      queueBytes_cons, copy_queueBytes hoff hfit' hrest,
      copy_bytes hoff hfit' hinj, List.append_assoc]
    rfl
  · intro front rest accum freeBytes m _ hlt hoff hfit hinj hsep
    have hsep' : ∀ b ∈ moved accum front freeBytes :: rest,
        accum.Separate m.phys b := by
      intro b hb
      rcases List.mem_cons.mp hb with rfl | hb
      · intro i hi j hj
        exact hsep front List.mem_cons_self i hi j
          (skip_extent (b := front) (Nat.le_of_lt hlt) ▸ hj)
      · exact hsep b (List.mem_cons_of_mem _ hb)
    rw [queueBytes_cons, copy_queueBytes hoff hfit hsep',
      copy_bytes hoff hfit hinj, queueBytes_cons, queueBytes_cons,
      queueBytes_cons, List.append_assoc]
    congr 1
    rw [← List.append_assoc]
    congr 1
    rw [SBuffer.bytes, SBuffer.bytes,
      show front.length = freeBytes + (front.length - freeBytes) by omega,
      ByteMemory.readRange_add]
    congr 1
    rw [show (moved accum front freeBytes).get 0 = front.get 0 + freeBytes from
      SBuffer.skip_get freeBytes front]
    rfl

/-- A front that fits leaves the queue. -/
theorem gather_length_le {front : SBuffer} (rest : List SBuffer)
    {freeBytes : Nat} (h₀ : freeBytes ≠ 0) (h : front.length ≤ freeBytes)
    (accum : SBuffer) (m : Memory) :
    (gather (front :: rest) accum freeBytes m).queue.length ≤ rest.length := by
  rw [gather_cons_of_le h₀ h]
  exact gather_queue_length _ _ _ _

/-! What this means for the buffer `accumulate` puts at the front. -/

/-- The bytes `accumulate` may fill of an auxiliary buffer. -/
def freeBytes (p : InputPort) (buff : SBuffer) : Nat :=
  buff.config.length / p.itemsSize * p.itemsSize

section Gathered

variable {p : InputPort} {buff : SBuffer} {m : Memory}

theorem gathered_phys (p : InputPort) (buff : SBuffer) (m : Memory) :
    (p.gathered buff m).memory.phys = m.phys := gather_phys _ _ _ _

theorem gathered_accum (p : InputPort) (buff : SBuffer) (m : Memory) :
    ∃ bytes ≤ buff.config.length,
      (p.gathered buff m).accum =
        { buff with offset := 0, length := bytes } := by
  obtain ⟨bytes, hbytes, haccum⟩ := gather_accum p.queue.items
    { buff with offset := 0, length := 0 }
    (buff.config.length / p.itemsSize * p.itemsSize) m
  refine ⟨bytes, Nat.le_trans hbytes (Nat.div_mul_le_self _ _), haccum.trans ?_⟩
  simp [filled]

theorem gathered_read (p : InputPort) (buff : SBuffer) (m : Memory) {x : Nat}
    (hx : ∀ i < buff.config.length,
      m.phys (buff.config.memory + i) ≠ m.phys x) :
    (p.gathered buff m).memory.read x = m.read x := by
  have hfit : p.freeBytes buff ≤ buff.config.length := Nat.div_mul_le_self _ _
  exact gather_read p.queue.items { buff with offset := 0, length := 0 } _ m rfl
    (Nat.le_trans (Nat.le_of_eq (Nat.zero_add _)) hfit) hx

theorem gathered_extent : ∀ b' ∈ (p.gathered buff m).queue,
    ∃ b ∈ p.queue.items, b'.config = b.config ∧ b'.extent = b.extent :=
  gather_extent _ _ _ _

theorem gathered_bytes (hinj : buff.Injective m.phys)
    (hsep : ∀ b ∈ p.queue.items, buff.Separate m.phys b) :
    queueBytes (p.gathered buff m).memory
        ((p.gathered buff m).accum :: (p.gathered buff m).queue)
      = queueBytes m p.queue.items := by
  have hfit : buff.config.length / p.itemsSize * p.itemsSize ≤
      buff.config.length :=
    Nat.div_mul_le_self _ _
  refine (gather_bytes p.queue.items
    { buff with offset := 0, length := 0 } _ m rfl
    (Nat.le_trans (Nat.le_of_eq (Nat.zero_add _)) hfit) hinj hsep).trans ?_
  rw [queueBytes_cons, SBuffer.bytes_eq_nil rfl, List.nil_append]

end Gathered

/-! ## Inversion -/

/-- `__update` changes the port's bit and its idle times only. -/
theorem update_eq_ok {p p' : InputPort} {now : Int}
    (h : p.update now = .ok p') :
    p' = p.setReady now (decide (p.reserveBytes ≤ p.enqueuedBytes)) := by
  simp only [update, Checked.bind_eq_ok, assertThat_eq_ok,
    Checked.pure_eq_ok] at h
  obtain ⟨-, -, rfl⟩ := h
  rfl

@[simp] theorem setReady_queue (now : Int) (r : Bool) (p : InputPort) :
    (p.setReady now r).queue = p.queue := rfl

@[simp] theorem setReady_auxQueue (now : Int) (r : Bool) (p : InputPort) :
    (p.setReady now r).auxQueue = p.auxQueue := rfl

@[simp] theorem setReady_itemsSize (now : Int) (r : Bool) (p : InputPort) :
    (p.setReady now r).itemsSize = p.itemsSize := rfl

@[simp] theorem setReady_maximumBytes (now : Int) (r : Bool) (p : InputPort) :
    (p.setReady now r).maximumBytes = p.maximumBytes := rfl

/-- The configuration an operation leaves alone. -/
structure SameConfig (p p' : InputPort) : Prop where
  itemsSize : p'.itemsSize = p.itemsSize
  reserveBytes : p'.reserveBytes = p.reserveBytes
  maximumBytes : p'.maximumBytes = p.maximumBytes
  preloadBytes : p'.preloadBytes = p.preloadBytes

theorem grown_items (q : BoundedDeque SBuffer) : (grown q).items = q.items := by
  unfold grown
  split
  · exact q.setCapacity_items (by omega)
  · rfl

/-- `push` appends the buffer and stitches; an empty buffer is thrown away. -/
theorem push_cases {p p' : InputPort} {now : Int} {buffer : SBuffer}
    (h : p.push now buffer = .ok p') :
    p'.auxQueue = p.auxQueue ∧ SameConfig p p' ∧
      p'.enqueuedBytes = p.enqueuedBytes + buffer.length ∧
      (buffer.length = 0 ∧ p'.queue.items = p.queue.items ∨
        0 < buffer.length ∧
          p'.queue.items =
            dropStitched (stitchLoop (p.queue.items ++ [buffer]))) := by
  simp only [push, Checked.bind_eq_ok, assertThat_eq_ok] at h
  obtain ⟨-, hfull, h⟩ := h
  split at h
  · rename_i hlen
    rw [Checked.pure_eq_ok] at h
    subst h
    exact ⟨rfl, ⟨rfl, rfl, rfl, rfl⟩,
      by rw [hlen]; rfl, .inl ⟨hlen, grown_items _⟩⟩
  · rename_i hlen
    have hitems := BoundedDeque.pushBack_items (grown p.queue) buffer hfull
    rw [grown_items] at hitems
    rw [Checked.bind_eq_ok] at h
    obtain ⟨p₁, hup, h⟩ := h
    have hp₁ := update_eq_ok hup
    split at h
    · rename_i hone
      rw [Checked.pure_eq_ok] at h
      subst h hp₁
      refine ⟨rfl, ⟨rfl, rfl, rfl, rfl⟩, rfl, .inr ⟨by omega, ?_⟩⟩
      have hnil : p.queue.items = [] := by
        rw [hitems, List.length_append, List.length_singleton] at hone
        exact List.eq_nil_of_length_eq_zero (by omega)
      show ((grown p.queue).pushBack buffer).items = _
      rw [hitems, hnil]
      rfl
    · rw [Checked.pure_eq_ok] at h
      subst h hp₁
      refine ⟨rfl, ⟨rfl, rfl, rfl, rfl⟩, rfl, .inr ⟨by omega, ?_⟩⟩
      show dropStitched (stitchLoop ((grown p.queue).pushBack buffer).items) = _
      rw [hitems]

/-- `consume` drains the front and un-stitches. -/
theorem consume_cases {p p' : InputPort} {now : Int} {items : Nat}
    (h : p.consume now items = .ok p') :
    p'.auxQueue = p.auxQueue ∧ SameConfig p p' ∧
      items * p.itemsSize ≤ p.enqueuedBytes ∧
      p'.enqueuedBytes = p.enqueuedBytes - items * p.itemsSize ∧
      ∃ front rest, p.queue.items = front :: rest ∧
        items * p.itemsSize ≤ front.length ∧
        p'.queue.items =
          unstitch (drained (items * p.itemsSize) p.queue.items) := by
  unfold consume at h
  dsimp only at h
  split at h
  · simp at h
  · rename_i front rest hq
    simp only [Checked.bind_eq_ok, assertThat_eq_ok] at h
    obtain ⟨-, -, -, hle, -, -, -, henq, p₁, hup, h⟩ := h
    have hp₁ := update_eq_ok hup
    rw [Checked.pure_eq_ok] at h
    subst h hp₁
    exact ⟨rfl, ⟨rfl, rfl, rfl, rfl⟩, henq, rfl, front, rest, hq, hle, rfl⟩

/-- **What passes the final `ASSERT` has copied its front whole**: either
nothing is left behind the accumulation buffer, or that buffer is maximal and
the front was not. -/
theorem front_fits_of_accumulated {p : InputPort} {buff : SBuffer} {m : Memory}
    (queue : BoundedDeque SBuffer) (hcap : queue.capacity = p.queue.capacity)
    (hqueue : queue.items = (p.gathered buff m).queue)
    (hbefore : p.isAccumulated = false)
    (hafter : ({ p with queue := queue.pushFront (p.gathered buff m).accum }
      : InputPort).isAccumulated = true) :
    ∃ front rest, p.queue.items = front :: rest ∧ p.freeBytes buff ≠ 0 ∧
      front.length ≤ p.freeBytes buff := by
  simp only [isAccumulated, isFrontMaximal, Bool.or_eq_false_iff,
    decide_eq_false_iff_not, Nat.not_le] at hbefore
  obtain ⟨htwo, hfront⟩ := hbefore
  cases hq : p.queue.items with
  | nil => simp [hq] at htwo
  | cons front rest =>
      refine ⟨front, rest, rfl, ?_⟩
      rw [hq] at hfront
      dsimp only at hfront
      rw [decide_eq_false_iff_not, Nat.not_le] at hfront
      have hsize := p.queue.size_le
      rw [hq, List.length_cons] at hsize htwo
      obtain ⟨bytes, hbytes, haccum⟩ := gather_accum p.queue.items
        { buff with offset := 0, length := 0 } (p.freeBytes buff) m
      change (p.gathered buff m).accum = _ at haccum
      have hitems : ∃ l, (queue.pushFront (p.gathered buff m).accum).items
          = (p.gathered buff m).accum :: l ∧ (l = [] → queue.items = []) := by
        by_cases hfull : queue.full
        · refine ⟨_, queue.pushFront_items_of_full _ hfull (by omega),
            fun hnil => ?_⟩
          have hlen : queue.items.length = queue.capacity := hfull
          have := congrArg List.length hnil
          simp only [List.length_dropLast, List.length_nil] at this
          omega
        · exact ⟨_, queue.pushFront_items _ hfull, id⟩
      obtain ⟨l, hitems, hnil⟩ := hitems
      simp only [isAccumulated, isFrontMaximal, hitems, Bool.or_eq_true,
        decide_eq_true_eq] at hafter
      rcases hafter with hone | hmax
      · have hempty :=
          hnil (List.eq_nil_of_length_eq_zero (by simpa using hone))
        rw [hqueue] at hempty
        unfold gathered at hempty
        dsimp only at hempty
        rw [hq] at hempty
        change (gather (front :: rest) _ (p.freeBytes buff) m).queue =
          [] at hempty
        by_cases h₀ : p.freeBytes buff = 0
        · rw [h₀, gather_cons_zero] at hempty
          cases hempty
        · refine ⟨h₀, Nat.le_of_not_lt fun hlt => ?_⟩
          rw [gather_cons_of_lt h₀ hlt] at hempty
          cases hempty
      · rw [haccum] at hmax
        have hmax' : p.maximumBytes ≤ 0 + bytes := hmax
        omega

/-- The front has left the queue, so there is room for the accumulation
buffer. -/
theorem not_full_of_front_fits {p : InputPort} {buff front : SBuffer}
    {m : Memory} {rest : List SBuffer} {queue : BoundedDeque SBuffer}
    (hcap : queue.capacity = p.queue.capacity)
    (hqueue : queue.items = (p.gathered buff m).queue)
    (hq : p.queue.items = front :: rest) (h₀ : p.freeBytes buff ≠ 0)
    (hfit : front.length ≤ p.freeBytes buff) : ¬ queue.full := by
  have hpopped := gather_length_le rest h₀ hfit
    { buff with offset := 0, length := 0 } m
  rw [← hq] at hpopped
  change (p.gathered buff m).queue.length ≤ _ at hpopped
  have hsize := p.queue.size_le
  rw [hq, List.length_cons] at hsize
  refine BoundedDeque.not_full_of_lt ?_
  rw [hqueue, hcap]
  omega

/-- `accumulate` does nothing, or it takes an auxiliary buffer, fills it from
the front of the queue and puts it there. -/
theorem accumulate_cases {p p' : InputPort} {fresh : Allocation} {m m' : Memory}
    (h : p.accumulate fresh m = .ok (p', m')) :
    p' = p ∧ m' = m ∨
      ∃ aux buff buffers, p.isAccumulated = false ∧ p.auxQueue = some aux ∧
        (auxAvailable fresh p.maximumBytes aux).buffers = buff :: buffers ∧
        p'.auxQueue =
          some { auxAvailable fresh p.maximumBytes aux with buffers } ∧
        SameConfig p p' ∧ p'.enqueuedBytes = p.enqueuedBytes ∧
        p'.queue.items =
          (p.gathered buff m).accum :: (p.gathered buff m).queue ∧
        m' = (p.gathered buff m).memory ∧
        ∃ front rest, p.queue.items = front :: rest ∧ p.freeBytes buff ≠ 0 ∧
          front.length ≤ p.freeBytes buff := by
  unfold accumulate at h
  split at h
  · rw [Checked.pure_eq_ok, Prod.mk.injEq] at h
    exact .inl ⟨h.1.symm, h.2.symm⟩
  · rename_i hacc
    have hacc' : p.isAccumulated = false := by simpa using hacc
    split at h
    · simp at h
    · rename_i aux haux
      dsimp only at h
      split at h
      · simp at h
      · rename_i buff buffers hbuff
        simp only [Checked.bind_eq_ok, assertThat_eq_ok, Checked.pure_eq_ok,
          Prod.mk.injEq] at h
        obtain ⟨-, hdone, rfl, rfl⟩ := h
        obtain ⟨front, rest, hq, h₀, hfit⟩ :=
          front_fits_of_accumulated (p.queue.replace (p.gathered buff m).queue
            (Nat.le_trans (gather_queue_length _ _ _ _) p.queue.size_le)) rfl
            rfl hacc' hdone
        refine .inr ⟨aux, buff, buffers, hacc', haux, hbuff, rfl,
          ⟨rfl, rfl, rfl, rfl⟩, rfl, ?_, rfl, front, rest, hq, h₀, hfit⟩
        exact BoundedDeque.pushFront_items _ _
          (not_full_of_front_fits rfl rfl hq h₀ hfit)

/-- `front` hands out the front of the queue, after accumulation if need be, or
the null buffer. -/
theorem front_cases {p p' : InputPort} {fresh : Allocation} {m m' : Memory}
    {b : SBuffer} (h : p.front fresh m = .ok (b, p', m')) :
    p.ready = true ∧
      (p.queue.items = [] ∧ b = nullBuff ∧ p' = p ∧ m' = m ∨
        (p' = p ∧ m' = m ∨ p.accumulate fresh m = .ok (p', m')) ∧
          p'.reserveBytes ≤ b.length ∧ b.length % p'.itemsSize = 0 ∧
          ∃ rest, p'.queue.items = b :: rest) := by
  simp only [front, Checked.bind_eq_ok, assertThat_eq_ok] at h
  obtain ⟨-, hready, -, -, h⟩ := h
  refine ⟨hready, ?_⟩
  split at h
  · rename_i hq
    simp only [Checked.pure_eq_ok, Prod.mk.injEq] at h
    exact .inl ⟨hq, h.1.symm, h.2.1.symm, h.2.2.symm⟩
  · rename_i buff rest hq
    rw [Checked.bind_eq_ok] at h
    obtain ⟨⟨p₁, m₁⟩, hrefill, h⟩ := h
    dsimp only at h
    split at h
    · simp at h
    · rename_i front rest' hq₁
      simp only [Checked.bind_eq_ok, assertThat_eq_ok, Checked.pure_eq_ok,
        Prod.mk.injEq] at h
      obtain ⟨-, hres, -, hmod, rfl, rfl, rfl⟩ := h
      unfold refill at hrefill
      split at hrefill
      · exact .inr ⟨.inr hrefill, hres, hmod, rest', hq₁⟩
      · rw [Checked.pure_eq_ok, Prod.mk.injEq] at hrefill
        exact .inr ⟨.inl ⟨hrefill.1.symm, hrefill.2.symm⟩, hres,
          hmod, rest', hq₁⟩

/-- A new queue, three buffers. -/
theorem AuxAllocations.queue_buffers (fresh : AuxAllocations) (n : Nat) :
    (fresh.queue n).buffers
      = [(⟨fresh.token, []⟩ : SimpleBufferQueue).newBuffer fresh.first n,
          (⟨fresh.token, []⟩ : SimpleBufferQueue).newBuffer fresh.second n,
          (⟨fresh.token, []⟩ : SimpleBufferQueue).newBuffer fresh.third n] :=
  rfl

theorem AuxAllocations.queue_length (fresh : AuxAllocations) (n : Nat) :
    ∀ a ∈ (fresh.queue n).buffers, a.config.length = n := by
  simp [AuxAllocations.queue_buffers, SimpleBufferQueue.newBuffer]

/-- The first configuration of a port: three auxiliary buffers, and the first of
them zeroed and enqueued when there is preload. -/
theorem updateConfig_resized {p : InputPort} {m m' : Memory}
    {initTime now now' : Int} {fresh : AuxAllocations}
    {itemSize preloadBytes reserveBytes maximumBytes : Nat}
    (h : (resized initTime now).updateConfig now' fresh itemSize preloadBytes
      reserveBytes
      maximumBytes m = .ok (p, m')) :
    itemSize ≠ 0 ∧ p.itemsSize = itemSize ∧ p.reserveBytes = reserveBytes ∧
      p.enqueuedBytes = preloadBytes ∧
      (preloadBytes = 0 ∧ p.queue.items = [] ∧ m' = m ∧
          p.auxQueue = some (fresh.queue p.maximumBytes) ∨
        0 < preloadBytes ∧ ∃ buff buffers,
          (fresh.queue p.maximumBytes).buffers = buff :: buffers ∧
          p.queue.items = [{ buff with offset := 0, length := preloadBytes }] ∧
          m' = m.writeRange buff.config.memory (List.replicate preloadBytes 0) ∧
          p.auxQueue = some { fresh.queue p.maximumBytes with buffers }) := by
  simp only [updateConfig, Checked.bind_eq_ok, assertThat_eq_ok,
    Checked.pure_eq_ok, Prod.mk.injEq, Prod.exists] at h
  obtain ⟨-, hitem, p₁, m₁, hmore, p₂, hless, p₃, hup, rfl, rfl⟩ := h
  have hp₃ := update_eq_ok hup
  refine ⟨hitem, ?_⟩
  unfold morePreload at hmore
  split at hmore
  · rename_i hle
    have hzero : preloadBytes = 0 := Nat.le_zero.mp hle
    simp only [Checked.pure_eq_ok, Prod.mk.injEq] at hmore
    obtain ⟨rfl, rfl⟩ := hmore
    rw [lessPreload, if_neg (by simp [resized]), Checked.pure_eq_ok] at hless
    subst hless hp₃
    exact ⟨rfl, rfl, hzero.symm, .inl ⟨hzero, rfl, rfl, rfl⟩⟩
  · rename_i hlt
    dsimp only at hmore
    split at hmore
    · simp at hmore
    · rename_i buff buffers hbuff
      simp only [Checked.bind_eq_ok, Checked.pure_eq_ok, Prod.mk.injEq] at hmore
      obtain ⟨p₄, hpush, rfl, rfl⟩ := hmore
      obtain ⟨haux, hsame, henq, hq⟩ := push_cases hpush
      have hpre : p₄.preloadBytes = 0 := hsame.preloadBytes
      rw [lessPreload, if_neg (by omega), Checked.pure_eq_ok] at hless
      subst hless hp₃
      replace hlt : ¬ preloadBytes ≤ 0 := hlt
      have hmax : p₄.maximumBytes = _ := hsame.maximumBytes
      have hqueue : p₄.queue.items =
          [{ buff with offset := 0, length := preloadBytes }] := by
        rcases hq with ⟨hzero, -⟩ | ⟨-, hq⟩
        · exact absurd (Nat.le_of_eq hzero) hlt
        · exact hq
      refine ⟨hsame.itemsSize, rfl, henq.trans (Nat.zero_add _),
        .inr ⟨Nat.lt_of_not_le hlt, buff, buffers, ?_, hqueue, rfl, ?_⟩⟩
      · show (fresh.queue p₄.maximumBytes).buffers = _
        rw [hmax]
        exact hbuff
      · show p₄.auxQueue = some { fresh.queue p₄.maximumBytes with buffers }
        rw [haux, hmax]
        rfl

end InputPort

end Gras
