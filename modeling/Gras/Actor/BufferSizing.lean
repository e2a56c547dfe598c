import Mathlib.Order.Lattice.Nat
import Mathlib.Order.Bounds.Basic
import Gras.Actor.ActorSystem

/-!
# The length of the buffers of an output port

`recommend_length` adds up a super-reserve, the largest of the port's own
reserve and those of the hints, until a target is reached.  So:

* `sizing_terminates_iff`: the loop ends exactly when the super-reserve is not
  zero.
* `requested_length_iff`: the length is the least multiple of the super-reserve
  that is at least `AT_LEAST_BYTES` in whole items, capped, exactly when no
  smaller multiple of it is at least `AT_LEAST_BYTES`; for `my_round_up_mult`
  does not round.
-/

namespace Gras

/-! ## Multiples -/

/-- The positive multiples of `m` from `n` on. -/
def multiplesFrom (m n : Nat) : Set Nat := {x | 0 < x ∧ m ∣ x ∧ n ≤ x}

section Multiples

variable {m n x y : Nat}

/-- Between two multiples there is a whole `m`. -/
theorem add_le_of_dvd_of_lt (hx : m ∣ x) (hy : m ∣ y) (h : x < y) :
    x + m ≤ y := by
  have hdvd : m ∣ y - x := Nat.dvd_sub hy hx
  have hle := Nat.le_of_dvd (by omega) hdvd
  omega

/-- With a later start there are fewer multiples. -/
theorem multiplesFrom_anti {n' : Nat} (h : n ≤ n') :
    multiplesFrom m n' ⊆ multiplesFrom m n :=
  fun _ hx => ⟨hx.1, hx.2.1, h.trans hx.2.2⟩

end Multiples

/-! ## The loop -/

section Loop

variable {hintBytes minBytes nminBytes : Nat}

/-- Without a super-reserve the bound stays where it is. -/
theorem raiseTo_zero (hhint : 0 < hintBytes) (rounds : Nat) :
    raiseTo hintBytes 0 rounds 0 = none := by
  induction rounds with
  | zero => rfl
  | succ rounds ih =>
      rw [raiseTo, if_pos hhint]
      exact ih

/-- **The loop reaches the least multiple** of the super-reserve that is at
least the target.  Carried along: the bound is a positive multiple, and no
larger than any that will do. -/
theorem raiseTo_isLeast (hfits : hintBytes ≤ 2 ^ 63) (rounds : Nat)
    (hrounds : hintBytes ≤ nminBytes + rounds) (hpos : 0 < nminBytes)
    (hdvd : minBytes ∣ nminBytes)
    (hbound : nminBytes ∈ lowerBounds (multiplesFrom minBytes hintBytes)) :
    ∃ x, raiseTo hintBytes minBytes (rounds + 1) nminBytes = some x ∧
      IsLeast (multiplesFrom minBytes hintBytes) x := by
  have hmin := Nat.pos_of_dvd_of_pos hdvd hpos
  induction rounds generalizing nminBytes with
  | zero =>
      have hreached : ¬ nminBytes < hintBytes := by omega
      exact ⟨nminBytes, if_neg hreached, ⟨hpos, hdvd, by omega⟩, hbound⟩
  | succ rounds ih =>
      rw [raiseTo]
      split
      · rename_i hless
        have hle := Nat.le_of_dvd hpos hdvd
        rw [Nat.mod_eq_of_lt (by omega)]
        refine ih (by omega) (by omega)
          (Nat.dvd_add hdvd (Nat.dvd_refl minBytes)) ?_
        intro y hy
        exact add_le_of_dvd_of_lt hdvd hy.2.1 (Nat.lt_of_lt_of_le hless hy.2.2)
      · rename_i hreached
        exact ⟨nminBytes, rfl, ⟨hpos, hdvd, by omega⟩, hbound⟩

/-- The same from where the loop starts. -/
theorem raiseTo_start (hmin : 0 < minBytes) (hfits : hintBytes ≤ 2 ^ 63)
    {rounds : Nat} (hrounds : hintBytes ≤ rounds) :
    ∃ x, raiseTo hintBytes minBytes (rounds + 1) minBytes = some x ∧
      IsLeast (multiplesFrom minBytes hintBytes) x := by
  apply raiseTo_isLeast hfits rounds (by omega) hmin (Nat.dvd_refl minBytes)
  intro y hy
  exact Nat.le_of_dvd hy.1 hy.2.1

end Loop

/-- The super-reserve of `recommend_length`. -/
def superReserve (hints : List OutputHint) (atLeast : Nat) : Nat :=
  hints.foldl (fun m h => max m h.reserveBytes) atLeast

/-- The largest length that is allowed: `at_most_bytes`, or
`AHH_TOO_MANY_BYTES`. -/
def lengthCap (atMost : Nat) : Nat :=
  if atMost ≠ 0 then atMost else ahhTooManyBytes

section Recommend

variable {hints : List OutputHint} {hintBytes atLeast atMost m : Nat}

/-- The super-reserve is within a bound when all reserves are. -/
theorem superReserve_le_iff :
    superReserve hints atLeast ≤ m ↔ atLeast ≤ m ∧ ∀ hint ∈ hints,
      hint.reserveBytes ≤ m := by
  unfold superReserve
  induction hints generalizing atLeast with
  | nil => simp
  | cons hint hints ih =>
      rw [List.foldl_cons, ih, Nat.max_le, List.forall_mem_cons, and_assoc]

theorem superReserve_ne_zero_iff : superReserve hints atLeast ≠ 0 ↔
    atLeast ≠ 0 ∨ ∃ hint ∈ hints, hint.reserveBytes ≠ 0 := by
  have hzero : superReserve hints atLeast = 0 ↔
      atLeast ≤ 0 ∧ ∀ hint ∈ hints, hint.reserveBytes ≤ 0 := by
    rw [← superReserve_le_iff]
    omega
  rw [ne_eq, hzero, not_and_or]
  simp only [Nat.le_zero, not_forall, exists_prop]

/-- **What `recommend_length` returns** when the super-reserve is not zero. -/
theorem recommendLength_eq (hmin : 0 < superReserve hints atLeast)
    (hfits : hintBytes ≤ 2 ^ 63) :
    ∃ x, IsLeast (multiplesFrom (superReserve hints atLeast) hintBytes) x ∧
      recommendLength hints hintBytes atLeast atMost =
        some (min (lengthCap atMost) x) := by
  obtain ⟨x, hx, hleast⟩ := raiseTo_start hmin hfits (Nat.le_refl hintBytes)
  refine ⟨x, hleast, ?_⟩
  unfold superReserve at hx
  rw [recommendLength, hx, Option.map_some, lengthCap]
  split <;> rw [Nat.min_comm]

end Recommend

/-! ## An output port -/

namespace BlockActor

/-- The target: `my_round_up_mult(AT_LEAST_BYTES, item_size)`. -/
def hintBytes (b : BlockActor) (i : Nat) : Nat :=
  myRoundUpMult atLeastBytes (b.outputConfigs i).itemSize

/-- The super-reserve of an output port. -/
def superReserve (b : BlockActor) (i : Nat) : Nat :=
  Gras.superReserve (b.outputAllocationHints i)
    ((b.outputConfigs i).reserveItems * (b.outputConfigs i).itemSize % 2 ^ 64)

/-- The maximum of an output port, or that of the block. -/
def maximumItems (b : BlockActor) (i : Nat) : Nat :=
  if (b.outputConfigs i).maximumItems = 0 then b.globalConfig.maximumOutputItems
  else (b.outputConfigs i).maximumItems

/-- The loop of `recommend_length` ends when `handle_top_alloc` gets to the
port. -/
def SizingTerminates (b : BlockActor) (i : Nat) : Prop :=
  ∃ rounds, raiseTo (b.hintBytes i) (b.superReserve i) rounds
    (b.superReserve i) ≠ none

section Sizing

variable {b b' : BlockActor} {env : Env} {i : Nat}

/-- The rounding macro multiplies by the item size and divides by it again. -/
theorem roundUp_cancels {itemSize : Nat} (hitem : 1 ≤ itemSize) :
    (atLeastBytes * itemSize + itemSize - 1) / itemSize = atLeastBytes := by
  have hsplit : atLeastBytes * itemSize + itemSize - 1 =
      itemSize * atLeastBytes + (itemSize - 1) := by
    rw [Nat.mul_comm]
    omega
  rw [hsplit, Nat.mul_add_div (by omega), Nat.div_eq_of_lt (by omega),
    Nat.add_zero]

theorem hintBytes_le (hitem : 1 ≤ (b.outputConfigs i).itemSize) :
    b.hintBytes i ≤ atLeastBytes := by
  calc b.hintBytes i ≤ _ := Nat.div_le_div_right (Nat.mod_le _ _)
    _ = atLeastBytes := roundUp_cancels hitem

/-- Without an overflow the target is `AT_LEAST_BYTES`. -/
theorem hintBytes_eq (hitem : 1 ≤ (b.outputConfigs i).itemSize)
    (hfits : atLeastBytes * (b.outputConfigs i).itemSize +
      (b.outputConfigs i).itemSize - 1 <
      2 ^ 64) : b.hintBytes i = atLeastBytes := by
  rw [hintBytes, myRoundUpMult, Nat.mod_eq_of_lt hfits, roundUp_cancels hitem]

theorem hintBytes_eq_zero_iff (hitem : 1 ≤ (b.outputConfigs i).itemSize) :
    b.hintBytes i = 0 ↔ (atLeastBytes * (b.outputConfigs i).itemSize +
      (b.outputConfigs i).itemSize - 1) % 2 ^ 64 <
        (b.outputConfigs i).itemSize := by
  rw [hintBytes, myRoundUpMult, Nat.div_eq_zero_iff]
  omega

/-- The length `handle_top_alloc` computes for an output port; `none` when it
does not get that far. -/
def requestedLength (b : BlockActor) (i : Nat) : Option Nat :=
  recommendLength (b.outputAllocationHints i) (b.hintBytes i)
    ((b.outputConfigs i).reserveItems * (b.outputConfigs i).itemSize % 2 ^ 64)
    (b.maximumItems i * (b.outputConfigs i).itemSize % 2 ^ 64)

/-- **What `handle_top_alloc` asks the downstream for** is a buffer of that
length. -/
theorem allocateOutput_length (h : b.allocateOutput env i = .ok b') :
    ∃ config, b'.sent = b.sent ++ [Outgoing.downstream i (.alloc config)] ∧
      b.requestedLength i = some config.length := by
  unfold allocateOutput at h
  dsimp only at h
  split at h
  · simp at h
  · rename_i bytes hbytes
    simp only [Checked.bind_eq_ok, Checked.pure_eq_ok] at h
    obtain ⟨p, -, rfl⟩ := h
    rw [foldl_sendSelf]
    exact ⟨_, rfl, hbytes⟩

/-- Without an overflow it is the least multiple of the super-reserve that is at
least `AT_LEAST_BYTES`, capped. -/
theorem requestedLength_eq (hitem : 1 ≤ (b.outputConfigs i).itemSize)
    (hsuper : 0 < b.superReserve i)
    (hround : atLeastBytes * (b.outputConfigs i).itemSize +
      (b.outputConfigs i).itemSize - 1 <
      2 ^ 64)
    (hmaximum : b.maximumItems i * (b.outputConfigs i).itemSize < 2 ^ 64) :
    ∃ z, IsLeast (multiplesFrom (b.superReserve i) atLeastBytes) z ∧
      b.requestedLength i =
      some (min (lengthCap
        (b.maximumItems i * (b.outputConfigs i).itemSize)) z) := by
  have hhint := hintBytes_eq hitem hround
  have hsmall : atLeastBytes ≤ 2 ^ 63 := by decide
  obtain ⟨z, hz, hlength⟩ := recommendLength_eq hsuper hsmall
  refine ⟨z, hz, ?_⟩
  rw [requestedLength, hhint, Nat.mod_eq_of_lt hmaximum]
  exact hlength

end Sizing

end BlockActor

open BlockActor

/-- **Buffer sizing terminates** exactly when the super-reserve is not zero, or
the product of the rounding macro overflows so far that there is nothing to
reach.

Each round of the loop adds the super-reserve to the length, so without a
reserve, and with hints that ask for none, it stands still below its target.
All products are those of `size_t`: a reserve whose bytes are a multiple of
2^64 is no reserve. -/
theorem sizing_terminates_iff (b : BlockActor) (i : Nat)
    (hitem : 1 ≤ (b.outputConfigs i).itemSize) :
    b.SizingTerminates i ↔
      ((b.outputConfigs i).reserveItems * (b.outputConfigs i).itemSize %
        2 ^ 64 ≠ 0 ∨
        ∃ hint ∈ b.outputAllocationHints i, hint.reserveBytes ≠ 0) ∨
      (atLeastBytes * (b.outputConfigs i).itemSize +
        (b.outputConfigs i).itemSize - 1) % 2 ^ 64 <
        (b.outputConfigs i).itemSize := by
  rw [← superReserve_ne_zero_iff, ← hintBytes_eq_zero_iff hitem]
  have hle := hintBytes_le hitem
  have hsmall : atLeastBytes = 32768 := rfl
  constructor
  · rintro ⟨rounds, hends⟩
    by_contra hneither
    obtain ⟨hzero, hhint⟩ := not_or.mp hneither
    have hsuper : b.superReserve i = 0 := not_not.mp hzero
    rw [hsuper] at hends
    exact hends (raiseTo_zero (by omega) rounds)
  · rintro (hsuper | hhint)
    · have hpos : 0 < b.superReserve i := Nat.pos_of_ne_zero hsuper
      obtain ⟨x, hx, -⟩ :=
        raiseTo_start hpos (by omega) (Nat.le_refl (b.hintBytes i))
      exact ⟨_, by rw [hx]; exact Option.some_ne_none x⟩
    · refine ⟨1, ?_⟩
      rw [hhint, raiseTo, if_neg (Nat.not_lt_zero _)]
      exact Option.some_ne_none _

/-- A block with one output port of that configuration and these hints. -/
def BlockActor.withOutput (config : OutputPortConfig)
    (hints : List OutputHint) : BlockActor :=
  { made 0 addressMemory with
    outputConfigs := fun _ => config
    outputAllocationHints := fun _ => hints }

theorem sizing_terminates_iff_default :
    (BlockActor.withOutput {} []).SizingTerminates 0 :=
  (sizing_terminates_iff (.withOutput {} []) 0 (by decide)).mpr (by decide)

/-- **A port without a reserve**, and a downstream that asks for none: the loop
adds nothing. -/
theorem sizing_without_reserve_loops :
    ¬ ∀ (b : BlockActor) (i : Nat), 1 ≤ (b.outputConfigs i).itemSize →
      b.SizingTerminates i := by
  intro h
  have hends := h (.withOutput { reserveItems := 0 } [⟨0, 0⟩]) 0 (by decide)
  rw [sizing_terminates_iff _ _ (by decide)] at hends
  revert hends
  decide

/-- **The length of the buffers** is the least multiple of the super-reserve
that holds `AT_LEAST_BYTES` in whole items, capped, exactly when each multiple
of the super-reserve that is at least `AT_LEAST_BYTES` and not capped holds
that.  Then, unless it is capped, it holds every hinted reserve. -/
theorem requested_length_iff {b b' : BlockActor} {env : Env} {i x r : Nat}
    (h : b.allocateOutput env i = .ok b')
    (hitem : 1 ≤ (b.outputConfigs i).itemSize) (hsuper : 0 < b.superReserve i)
    (hround : atLeastBytes * (b.outputConfigs i).itemSize +
      (b.outputConfigs i).itemSize - 1 <
      2 ^ 64)
    (hreserve : (b.outputConfigs i).reserveItems *
      (b.outputConfigs i).itemSize < 2 ^ 64)
    (hmaximum : b.maximumItems i * (b.outputConfigs i).itemSize < 2 ^ 64)
    (hr : IsLeast (multiplesFrom (b.outputConfigs i).itemSize atLeastBytes) r)
    (hx : IsLeast (multiplesFrom (b.superReserve i) r) x) :
    ∃ config, b'.sent = b.sent ++ [Outgoing.downstream i (.alloc config)] ∧
      (config.length =
        min (lengthCap (b.maximumItems i * (b.outputConfigs i).itemSize)) x ↔
        ∀ y ∈ multiplesFrom (b.superReserve i) atLeastBytes,
          y < lengthCap
            (b.maximumItems i * (b.outputConfigs i).itemSize) → r ≤ y) ∧
      (config.length = x → r ≤ config.length ∧
        (b.outputConfigs i).reserveItems * (b.outputConfigs i).itemSize ≤
          config.length ∧
        ∀ hint ∈ b.outputAllocationHints i,
        hint.reserveBytes ≤ config.length) := by
  obtain ⟨config, hsent, hlength⟩ := allocateOutput_length h
  refine ⟨config, hsent, ?_, ?_⟩
  · obtain ⟨z, hz, hlength'⟩ := requestedLength_eq hitem hsuper hround hmaximum
    rw [hlength', Option.some_inj] at hlength
    rw [← hlength]
    have hzx : z ≤ x := hz.2 (multiplesFrom_anti hr.1.2.2 hx.1)
    constructor
    · intro hsame y hy hless
      have hzy : z ≤ y := hz.2 hy
      have hrx : r ≤ x := hx.1.2.2
      omega
    · intro hall
      by_cases hless : z <
        lengthCap (b.maximumItems i * (b.outputConfigs i).itemSize)
      · have hxz : x ≤ z := hx.2 ⟨hz.1.1, hz.1.2.1, hall z hz.1 hless⟩
        rw [Nat.le_antisymm hzx hxz]
      · omega
  · intro hsame
    rw [hsame]
    have hle : b.superReserve i ≤ x := Nat.le_of_dvd hx.1.1 hx.1.2.1
    obtain ⟨hown, hhints⟩ := superReserve_le_iff.mp hle
    rw [Nat.mod_eq_of_lt hreserve] at hown
    exact ⟨hx.1.2.2, hown, hhints⟩

/-- Whether buffers are allocated for the first output port, and of what
length. -/
def BlockActor.firstLength (b : BlockActor) : Bool × Option Nat :=
  ((b.allocateOutput {} 0).toOption.isSome, b.requestedLength 0)

theorem BlockActor.exists_of_firstLength {b : BlockActor} {n : Option Nat}
    (h : b.firstLength = (true, n)) :
    (∃ b', b.allocateOutput {} 0 = .ok b') ∧ b.requestedLength 0 = n := by
  obtain ⟨hok, hlength⟩ := Prod.mk.inj h
  refine ⟨?_, hlength⟩
  cases hb : b.allocateOutput {} 0 with
  | ok b' => exact ⟨b', rfl⟩
  | error e => simp [hb, Except.toOption] at hok

/-- Items of 24 bytes, of which the downstream wants 1000. -/
theorem requested_length_iff_hinted :
    ∃ (b' : BlockActor) (config : SBufferConfig),
      (BlockActor.withOutput { itemSize := 24 } [⟨24000, 0⟩]).allocateOutput
      {} 0 = .ok b' ∧
        b'.sent = [.downstream 0 (.alloc config)] ∧
        config.length = min ahhTooManyBytes 48000 := by
  obtain ⟨⟨b', hb'⟩, -⟩ := BlockActor.exists_of_firstLength
    (show (BlockActor.withOutput { itemSize := 24 } [⟨24000, 0⟩]).firstLength
      = (true, some 48000) by decide)
  have hr : IsLeast (multiplesFrom 24 atLeastBytes) 32784 := by
    refine ⟨⟨by decide, by decide, by decide⟩, ?_⟩
    rintro y ⟨-, ⟨k, rfl⟩, hy⟩
    have hvalue : atLeastBytes = 32768 := rfl
    omega
  have hx : IsLeast (multiplesFrom 24000 32784) 48000 := by
    refine ⟨⟨by decide, by decide, by decide⟩, ?_⟩
    rintro y ⟨-, ⟨k, rfl⟩, hy⟩
    omega
  obtain ⟨config, hsent, hlength, -⟩ :=
    requested_length_iff hb' (by decide) (by decide)
    (by decide) (by decide) (by decide) hr hx
  refine ⟨b', config, hb', hsent, hlength.mpr ?_⟩
  rintro y ⟨-, ⟨k, rfl⟩, hy⟩ -
  have hsuper :
      (BlockActor.withOutput { itemSize := 24 } [⟨24000, 0⟩]).superReserve
      0 = 24000 :=
    rfl
  have hvalue : atLeastBytes = 32768 := rfl
  rw [hsuper] at hy ⊢
  omega

/-- **A target that is not rounded up**: two reserves of the downstream are
32768 bytes, which is not a whole number of items of 3 bytes. -/
theorem requested_length_not_rounded :
    ¬ ∀ (b b' : BlockActor) (env : Env) (i x r : Nat),
      b.allocateOutput env i = .ok b' →
      1 ≤ (b.outputConfigs i).itemSize → 0 < b.superReserve i →
      atLeastBytes * (b.outputConfigs i).itemSize +
        (b.outputConfigs i).itemSize - 1 < 2 ^ 64 →
      (b.outputConfigs i).reserveItems * (b.outputConfigs i).itemSize < 2 ^ 64 →
      b.maximumItems i * (b.outputConfigs i).itemSize < 2 ^ 64 →
      IsLeast (multiplesFrom (b.outputConfigs i).itemSize atLeastBytes) r →
      IsLeast (multiplesFrom (b.superReserve i) r) x →
      ∃ config, b'.sent = b.sent ++ [Outgoing.downstream i (.alloc config)] ∧
        config.length =
          min (lengthCap
            (b.maximumItems i * (b.outputConfigs i).itemSize)) x := by
  intro hall
  obtain ⟨⟨b', hb'⟩, hrequested⟩ := BlockActor.exists_of_firstLength
    (show (BlockActor.withOutput { itemSize := 3 } [⟨16384, 0⟩]).firstLength
      = (true, some 32768) by decide)
  have hr : IsLeast (multiplesFrom 3 atLeastBytes) 32769 := by
    refine ⟨⟨by decide, by decide, by decide⟩, ?_⟩
    rintro y ⟨-, ⟨k, rfl⟩, hy⟩
    have hvalue : atLeastBytes = 32768 := rfl
    omega
  have hx : IsLeast (multiplesFrom 16384 32769) 49152 := by
    refine ⟨⟨by decide, by decide, by decide⟩, ?_⟩
    rintro y ⟨-, ⟨k, rfl⟩, hy⟩
    omega
  obtain ⟨config, hsent, hlength⟩ :=
    hall _ b' {} 0 49152 32769 hb' (by decide) (by decide)
    (by decide) (by decide) (by decide) hr hx
  obtain ⟨config', hsent', hlength'⟩ := allocateOutput_length hb'
  rw [hsent, List.append_cancel_left_eq] at hsent'
  cases hsent'
  rw [hrequested, Option.some_inj, hlength] at hlength'
  exact absurd hlength' (by decide)

end Gras
