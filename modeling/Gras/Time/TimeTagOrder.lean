import Gras.Lib.Int64Exact
import Gras.Time.TimeTag

/-!
# The order of time tags

`operator<` and `operator==` compare the two fields, so they agree with the
order of time on tags in canonical form, `0 <= _ticks < one second`.
`normalize` reaches that form exactly for the tick counts of `RegularTicks`:

* a negative count of less than a second is left negative;
* an exact negative multiple of a second leaves a whole second of ticks;
* a quotient that does not fit an `int` moves the wrong number of seconds.

Everything here is said over the integers; `total` is what a tag stands for.
-/

namespace Gras

/-- The tick counts that `normalize` brings into canonical form. -/
def RegularTicks (n : Int) : Prop :=
  0 ≤ n ∧ n < 2 ^ 31 * 1000000000 ∨
    -2 ^ 31 * 1000000000 < n ∧ n < -1000000000 ∧ n % 1000000000 ≠ 0

instance (n : Int) : Decidable (RegularTicks n) :=
  inferInstanceAs (Decidable (_ ∨ _))

namespace TimeTag

/-- The canonical form. -/
def Canonical (t : TimeTag) : Prop := 0 ≤ t.ticks ∧ t.ticks < timeTagTps

/-- The ticks that the tag stands for. -/
def total (t : TimeTag) : Int := t.fsecs.toInt * 1000000000 + t.ticks.toInt

/-- The comparisons of two tags agree with their ticks. -/
def Agree (a b : TimeTag) : Prop :=
  (eq a b = true ↔ a.toTicks = b.toTicks) ∧
    (lt a b = true ↔ a.toTicks < b.toTicks)

instance (t : TimeTag) : Decidable t.Canonical :=
  inferInstanceAs (Decidable (_ ∧ _))

instance (a b : TimeTag) : Decidable (a.Agree b) :=
  inferInstanceAs (Decidable (_ ∧ _))

theorem timeTagTps_toInt : timeTagTps.toInt = 1000000000 := rfl

theorem canonical_iff {t : TimeTag} :
    t.Canonical ↔ 0 ≤ t.ticks.toInt ∧ t.ticks.toInt < 1000000000 := by
  rw [Canonical, Int64.le_iff_toInt_le, Int64.lt_iff_toInt_lt, timeTagTps_toInt]
  rfl

/-! ## What `normalize` moves -/

section Normalize

variable {t : TimeTag} {ticks : Int64} {q r : Int}

/-- The quotient and the remainder of the division that truncates. -/
theorem exists_truncated (n : Int) : ∃ q r, n = 1000000000 * q + r ∧
    n.tdiv 1000000000 = q ∧
      (0 ≤ n ∧ 0 ≤ r ∧ r < 1000000000 ∨ n < 0 ∧ r ≤ 0 ∧ -1000000000 < r) := by
  refine ⟨n.tdiv 1000000000, n.tmod 1000000000,
    (Int.mul_tdiv_add_tmod n _).symm, rfl, ?_⟩
  by_cases hneg : n < 0
  · have hmod : n.tmod 1000000000 = -((-n).tmod 1000000000) := by
      rw [Int.neg_tmod, Int.neg_neg]
    have hlow := Int.tmod_nonneg 1000000000 (show 0 ≤ -n by omega)
    have hhigh := Int.tmod_lt_of_pos (-n) (show 0 < 1000000000 by decide)
    exact .inr ⟨hneg, by omega, by omega⟩
  · have hpos : 0 ≤ n := by omega
    have hlow := Int.tmod_nonneg 1000000000 hpos
    have hhigh := Int.tmod_lt_of_pos n (show 0 < 1000000000 by decide)
    exact .inl ⟨hpos, hlow, hhigh⟩

/-- The seconds that `normalize` moves, from the truncated quotient. -/
theorem movedSeconds_toInt (hq : ticks.toInt.tdiv 1000000000 = q) :
    (movedSeconds ticks).toInt =
      if q.bmod (2 ^ 32) < 0 then (q.bmod (2 ^ 32) - 1).bmod (2 ^ 32)
        else q.bmod (2 ^ 32) := by
  have hdiv : (ticks / timeTagTps).toInt = q := by
    obtain ⟨q', r, hn, hq', hr⟩ := exists_truncated ticks.toInt
    have hlow := ticks.le_toInt
    have hhigh := ticks.toInt_lt
    rw [Int64.toInt_div, timeTagTps_toInt, hq, Int64.bmod_of_fits]
    constructor <;> omega
  have hnarrow : (ticks / timeTagTps).toInt32.toInt = q.bmod (2 ^ 32) := by
    rw [Int64.toInt_toInt32, hdiv]
  have hneg : (ticks / timeTagTps).toInt32 < 0 ↔ q.bmod (2 ^ 32) < 0 := by
    rw [Int32.lt_iff_toInt_lt, hnarrow]
    rfl
  unfold movedSeconds
  dsimp only
  by_cases hless : q.bmod (2 ^ 32) < 0
  · rw [if_pos hless, if_pos (hneg.mpr hless), Int32.toInt_sub, hnarrow]
    rfl
  · rw [if_neg hless, if_neg (fun h => hless (hneg.mp h)), hnarrow]

/-- The ticks that are left do not overflow. -/
theorem normalize_ticks (t : TimeTag) : t.normalize.ticks.toInt =
    t.ticks.toInt - (movedSeconds t.ticks).toInt * 1000000000 := by
  obtain ⟨q, r, hn, hq, hr⟩ := exists_truncated t.ticks.toInt
  have hmoved := movedSeconds_toInt hq
  have hlow := t.ticks.le_toInt
  have hhigh := t.ticks.toInt_lt
  have hsmall := (movedSeconds t.ticks).toInt_lt
  have hsmall' := (movedSeconds t.ticks).le_toInt
  have hmul : ((movedSeconds t.ticks).toInt64 * timeTagTps).toInt =
      (movedSeconds t.ticks).toInt * 1000000000 := by
    rw [Int64.toInt_mul_of_fits, Int32.toInt_toInt64, timeTagTps_toInt]
    rw [Int32.toInt_toInt64, timeTagTps_toInt]
    constructor <;> omega
  have hfits : Int64.Fits
      (t.ticks.toInt -
        ((movedSeconds t.ticks).toInt64 * timeTagTps).toInt) := by
    rw [hmul]
    rw [Int.bmod_def, Int.bmod_def] at hmoved
    constructor
    · split at hmoved <;> split at hmoved <;> omega
    · split at hmoved <;> split at hmoved <;> omega
  show (t.ticks - (movedSeconds t.ticks).toInt64 * timeTagTps).toInt = _
  rw [Int64.toInt_sub_of_fits hfits, hmul]

/-- **`normalize` reaches the canonical form** exactly from regular ticks. -/
theorem normalize_canonical_iff (t : TimeTag) :
    t.normalize.Canonical ↔ RegularTicks t.ticks.toInt := by
  obtain ⟨q, r, hn, hq, hr⟩ := exists_truncated t.ticks.toInt
  have hmoved := movedSeconds_toInt hq
  have hlow := t.ticks.le_toInt
  have hhigh := t.ticks.toInt_lt
  rw [canonical_iff, normalize_ticks, RegularTicks]
  rw [Int.bmod_def, Int.bmod_def] at hmoved
  split at hmoved <;> split at hmoved <;> omega

/-- On regular ticks `normalize` divides with a remainder that is not
negative. -/
theorem movedSeconds_of_regular (h : RegularTicks ticks.toInt) :
    (movedSeconds ticks).toInt = ticks.toInt / 1000000000 := by
  obtain ⟨q, r, hn, hq, hr⟩ := exists_truncated ticks.toInt
  have hmoved := movedSeconds_toInt hq
  rw [RegularTicks] at h
  rw [Int.bmod_def, Int.bmod_def] at hmoved
  split at hmoved <;> split at hmoved <;> omega

/-- **The fields after `normalize`** are the seconds and the ticks of the
total. -/
theorem normalize_fields (h : RegularTicks t.ticks.toInt)
    (hfits : Int64.Fits t.total) :
    t.normalize.fsecs.toInt = t.total / 1000000000 ∧
      t.normalize.ticks.toInt = t.total % 1000000000 := by
  have hmoved := movedSeconds_of_regular h
  have hticks := normalize_ticks t
  unfold total at hfits ⊢
  constructor
  · show (t.fsecs + (movedSeconds t.ticks).toInt64).toInt = _
    rw [Int64.toInt_add_of_fits, Int32.toInt_toInt64, hmoved]
    · omega
    · rw [Int32.toInt_toInt64, hmoved]
      obtain ⟨hlow, hhigh⟩ := hfits
      constructor <;> omega
  · rw [hticks, hmoved]
    omega

end Normalize

/-! ## What the comparisons say -/

section Compare

variable {a b : TimeTag}

/-- A total in range is what `to_ticks` returns. -/
theorem toTicks_toInt (h : Int64.Fits a.total) : a.toTicks.toInt = a.total := by
  rw [toTicks, Int64.toInt_add, Int64.toInt_mul, Int.bmod_add_bmod,
    timeTagTps_toInt]
  exact Int64.bmod_of_fits h

theorem eq_iff_toInt : eq a b = true ↔
    a.fsecs.toInt = b.fsecs.toInt ∧ a.ticks.toInt = b.ticks.toInt := by
  rw [Int64.toInt_inj, Int64.toInt_inj]
  simp [eq]

theorem lt_iff_toInt : lt a b = true ↔ a.fsecs.toInt < b.fsecs.toInt ∨
    a.fsecs.toInt = b.fsecs.toInt ∧ a.ticks.toInt < b.ticks.toInt := by
  unfold lt
  by_cases hsecs : a.fsecs = b.fsecs
  · rw [if_pos hsecs, decide_eq_true_iff, Int64.lt_iff_toInt_lt, hsecs]
    simp
  · have hne : a.fsecs.toInt ≠ b.fsecs.toInt :=
      fun h => hsecs (Int64.toInt_inj.mp h)
    rw [if_neg hsecs, decide_eq_true_iff, Int64.lt_iff_toInt_lt]
    omega

/-- **Canonical tags compare as their ticks do.** -/
theorem agree_of_canonical (ha : a.Canonical) (hb : b.Canonical)
    (hfits : Int64.Fits a.total) (hfits' : Int64.Fits b.total) : a.Agree b := by
  rw [canonical_iff] at ha hb
  constructor
  · rw [eq_iff_toInt, ← Int64.toInt_inj, toTicks_toInt hfits,
      toTicks_toInt hfits']
    unfold total
    omega
  · rw [lt_iff_toInt, Int64.lt_iff_toInt_lt, toTicks_toInt hfits,
      toTicks_toInt hfits']
    unfold total
    omega

/-- The canonical tag of a total. -/
def ofTotal (n : Int) : TimeTag :=
  ⟨.ofInt (n / 1000000000), .ofInt (n % 1000000000)⟩

theorem ofTotal_fields {n : Int} (h : Int64.Fits n) :
    (ofTotal n).fsecs.toInt = n / 1000000000 ∧
      (ofTotal n).ticks.toInt = n % 1000000000 := by
  obtain ⟨hlow, hhigh⟩ := h
  constructor
  · exact Int64.toInt_ofInt_of_le (by omega) (by omega)
  · exact Int64.toInt_ofInt_of_le (by omega) (by omega)

/-- **Nothing else compares right**: a tag that compares with the canonical ones
as its ticks do is canonical. -/
theorem canonical_of_agree (hfits : Int64.Fits a.total)
    (h : ∀ b : TimeTag, b.Canonical → Int64.Fits b.total → a.Agree b) :
    a.Canonical := by
  obtain ⟨hfsecs, hticks⟩ := ofTotal_fields hfits
  have htotal : (ofTotal a.total).total = a.total := by
    rw [total, hfsecs, hticks]
    omega
  have hcanonical : (ofTotal a.total).Canonical := by
    rw [canonical_iff, hticks]
    omega
  have hfits' : Int64.Fits (ofTotal a.total).total := by
    rw [htotal]
    exact hfits
  have hsame : eq a (ofTotal a.total) = true := by
    refine (h _ hcanonical hfits').1.mpr ?_
    rw [← Int64.toInt_inj, toTicks_toInt hfits, toTicks_toInt hfits', htotal]
  rw [eq_iff.mp hsame]
  exact hcanonical

end Compare

end TimeTag

/-! ## Time tags that are built -/

namespace TimeExpr

/-- No total of ticks overflows. -/
def InRange : TimeExpr → Prop
  | zero => True
  | ticks _ => True
  | add a b => a.InRange ∧ b.InRange ∧ Int64.Fits (a.total + b.total)
  | sub a b => a.InRange ∧ b.InRange ∧ Int64.Fits (a.total - b.total)

/-- **Where the code keeps to the canonical form**: the tick counts it is given
are regular, and what is subtracted has no more ticks behind its full
seconds. -/
def Regular : TimeExpr → Prop
  | zero => True
  | ticks t => RegularTicks t.toInt
  | add a b => a.Regular ∧ b.Regular
  | sub a b =>
      a.Regular ∧ b.Regular ∧ b.total % 1000000000 ≤ a.total % 1000000000

instance decidableInRange : ∀ e : TimeExpr, Decidable e.InRange
  | zero => isTrue trivial
  | ticks _ => isTrue trivial
  | add a b =>
      have := decidableInRange a
      have := decidableInRange b
      inferInstanceAs (Decidable (_ ∧ _ ∧ _))
  | sub a b =>
      have := decidableInRange a
      have := decidableInRange b
      inferInstanceAs (Decidable (_ ∧ _ ∧ _))

instance decidableRegular : ∀ e : TimeExpr, Decidable e.Regular
  | zero => isTrue trivial
  | ticks t => inferInstanceAs (Decidable (RegularTicks t.toInt))
  | add a b =>
      have := decidableRegular a
      have := decidableRegular b
      inferInstanceAs (Decidable (_ ∧ _))
  | sub a b =>
      have := decidableRegular a
      have := decidableRegular b
      inferInstanceAs (Decidable (_ ∧ _ ∧ _))

theorem InRange.fits {e : TimeExpr} (h : e.InRange) : Int64.Fits e.total := by
  cases e with
  | zero => exact ⟨by decide, by decide⟩
  | ticks t => exact t.fits_toInt
  | add a b => exact h.2.2
  | sub a b => exact h.2.2

/-- **What is built is in canonical form**: the full seconds of its total, and
the ticks behind them. -/
theorem eval_fields {e : TimeExpr} (hregular : e.Regular) (hrange : e.InRange) :
    e.eval.fsecs.toInt = e.total / 1000000000 ∧
      e.eval.ticks.toInt = e.total % 1000000000 := by
  induction e with
  | zero => exact ⟨rfl, rfl⟩
  | ticks t =>
      have htotal : TimeTag.total { TimeTag.zero with ticks := t } =
          t.toInt := by
        unfold TimeTag.total
        simp [TimeTag.zero]
      have hfields := TimeTag.normalize_fields
        (t := { TimeTag.zero with ticks := t }) hregular
        (htotal ▸ t.fits_toInt)
      rw [htotal] at hfields
      exact hfields
  | add a b iha ihb =>
      obtain ⟨hra, hrb⟩ := hregular
      obtain ⟨hfa, hfb, hfits⟩ := hrange
      obtain ⟨hsa, hta⟩ := iha hra hfa
      obtain ⟨hsb, htb⟩ := ihb hrb hfb
      have hfitsa := hfa.fits
      have hfitsb := hfb.fits
      -- Neither field overflows before it is normalized.
      have hsecs : (a.eval.fsecs + b.eval.fsecs).toInt =
          a.total / 1000000000 + b.total / 1000000000 := by
        rw [Int64.toInt_add_of_fits, hsa, hsb]
        rw [hsa, hsb]
        obtain ⟨hlowa, hhigha⟩ := hfitsa
        obtain ⟨hlowb, hhighb⟩ := hfitsb
        constructor <;> omega
      have hticks : (a.eval.ticks + b.eval.ticks).toInt =
          a.total % 1000000000 + b.total % 1000000000 := by
        rw [Int64.toInt_add_of_fits, hta, htb]
        rw [hta, htb]
        constructor <;> omega
      have htotal : TimeTag.total
          ⟨a.eval.fsecs + b.eval.fsecs, a.eval.ticks + b.eval.ticks⟩ =
          a.total + b.total := by
        rw [TimeTag.total, hsecs, hticks]
        omega
      have hfields := TimeTag.normalize_fields
        (t := ⟨a.eval.fsecs + b.eval.fsecs, a.eval.ticks + b.eval.ticks⟩)
        (by rw [hticks]; exact .inl ⟨by omega, by omega⟩) (htotal ▸ hfits)
      rw [htotal] at hfields
      exact hfields
  | sub a b iha ihb =>
      obtain ⟨hra, hrb, hless⟩ := hregular
      obtain ⟨hfa, hfb, hfits⟩ := hrange
      obtain ⟨hsa, hta⟩ := iha hra hfa
      obtain ⟨hsb, htb⟩ := ihb hrb hfb
      have hfitsa := hfa.fits
      have hfitsb := hfb.fits
      have hsecs : (a.eval.fsecs - b.eval.fsecs).toInt =
          a.total / 1000000000 - b.total / 1000000000 := by
        rw [Int64.toInt_sub_of_fits, hsa, hsb]
        rw [hsa, hsb]
        obtain ⟨hlowa, hhigha⟩ := hfitsa
        obtain ⟨hlowb, hhighb⟩ := hfitsb
        constructor <;> omega
      have hticks : (a.eval.ticks - b.eval.ticks).toInt =
          a.total % 1000000000 - b.total % 1000000000 := by
        rw [Int64.toInt_sub_of_fits, hta, htb]
        rw [hta, htb]
        constructor <;> omega
      have htotal : TimeTag.total
          ⟨a.eval.fsecs - b.eval.fsecs, a.eval.ticks - b.eval.ticks⟩ =
          a.total - b.total := by
        rw [TimeTag.total, hsecs, hticks]
        omega
      have hfields := TimeTag.normalize_fields
        (t := ⟨a.eval.fsecs - b.eval.fsecs, a.eval.ticks - b.eval.ticks⟩)
        (by rw [hticks]; exact .inl ⟨by omega, by omega⟩) (htotal ▸ hfits)
      rw [htotal] at hfields
      exact hfields

theorem eval_canonical {e : TimeExpr} (hregular : e.Regular)
    (hrange : e.InRange) : e.eval.Canonical ∧ e.eval.total = e.total := by
  obtain ⟨hfsecs, hticks⟩ := eval_fields hregular hrange
  rw [TimeTag.canonical_iff, TimeTag.total, hfsecs, hticks]
  omega

end TimeExpr

/-- **When comparisons agree with time.**  `normalize` reaches the canonical
form exactly from regular ticks; a tag compares right with all canonical ones
exactly when it is canonical; and tags that are built regularly compare
right. -/
theorem compare_of_regular (t : TimeTag) (a b : TimeExpr) :
    (t.normalize.Canonical ↔ RegularTicks t.ticks.toInt) ∧
      (Int64.Fits t.total →
        ((∀ t' : TimeTag, t'.Canonical → Int64.Fits t'.total → t.Agree t') ↔
          t.Canonical)) ∧
      (a.Regular → b.Regular → a.InRange → b.InRange →
        a.eval.Agree b.eval) := by
  refine ⟨t.normalize_canonical_iff, fun hfits => ⟨?_, ?_⟩, ?_⟩
  · exact TimeTag.canonical_of_agree hfits
  · intro ht t' ht' hfits'
    exact TimeTag.agree_of_canonical ht ht' hfits hfits'
  · intro ha hb hrange hrange'
    obtain ⟨hcanonical, htotal⟩ := TimeExpr.eval_canonical ha hrange
    obtain ⟨hcanonical', htotal'⟩ := TimeExpr.eval_canonical hb hrange'
    exact TimeTag.agree_of_canonical hcanonical hcanonical'
      (htotal ▸ hrange.fits) (htotal' ▸ hrange'.fits)

/-- A tenth of a second after a second and a half before the epoch. -/
theorem compare_of_regular_beforeEpoch :
    (TimeTag.fromTicks (-1500000000)).Agree
        ((TimeTag.fromTicks (-1500000000)).addAssign
          (TimeTag.fromTicks 100000000)) ∧
      (⟨-2, 500000000⟩ : TimeTag).Agree ⟨-1, 0⟩ := by
  obtain ⟨-, htag, hexpr⟩ :=
    compare_of_regular ⟨-2, 500000000⟩ (.ticks (-1500000000))
    (.add (.ticks (-1500000000)) (.ticks 100000000))
  constructor
  · exact hexpr (by decide) (by decide) (by decide) (by decide)
  · exact (htag (by decide)).mpr (by decide) ⟨-1, 0⟩ (by decide) (by decide)

/-- **A time that is not equal to itself**: 1000 ticks before the epoch, once
converted and once as a sum. -/
theorem compare_beforeEpoch_differs :
    ¬ ∀ a b : TimeExpr, a.InRange → b.InRange → a.eval.Agree b.eval := by
  intro h
  have hagree := h (.ticks (-1000))
    (.add (.ticks (-1500000000)) (.ticks 1499999000)) (by decide)
    (by decide)
  exact absurd hagree (by decide)

end Gras
