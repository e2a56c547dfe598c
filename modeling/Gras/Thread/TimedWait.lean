import Mathlib.Order.Lattice.Nat
import Mathlib.Data.Int.ConditionallyCompleteOrder
import Mathlib.Order.CompletePartialOrder

/-!
# The timed wait

`TopBlock::wait(timeout)` of `top_block.cpp`.  The loop looks at two things that
change on their own, the token of the top block and the clock, and one round is
one look.

A loop that runs while a condition holds ends at the least look where it does
not (`firstLook_eq_some_iff`), so what a wait does is said by a set of looks.
The documentation, "block until timeout or done", asks for the looks where
either has come; the condition of the loop leaves it only where both have
(`returns_iff`).
-/

namespace Gras

/-! ## Loops that wait -/

/-- The first look that does not keep a loop going, when it comes in so many
rounds. -/
def firstLook (keeps : Nat → Bool) : Nat → Nat → Option Nat
  | 0, _ => none
  | rounds + 1, n => if keeps n then firstLook keeps rounds (n + 1) else some n

theorem firstLook_eq_some (keeps : Nat → Bool) {rounds n m : Nat}
    (h : firstLook keeps rounds n = some m) :
    n ≤ m ∧ keeps m = false ∧ ∀ k, n ≤ k → k < m → keeps k = true := by
  induction rounds generalizing n with
  | zero => cases h
  | succ rounds ih =>
      unfold firstLook at h
      split at h
      · rename_i hkeeps
        obtain ⟨hle, hend, hbefore⟩ := ih h
        refine ⟨Nat.le_of_succ_le hle, hend, fun k hk hlt => ?_⟩
        rcases Nat.eq_or_lt_of_le hk with rfl | hk
        · exact hkeeps
        · exact hbefore k hk hlt
      · rename_i hkeeps
        cases h
        exact ⟨Nat.le_refl _,
          by simpa using hkeeps, fun k hk hlt => absurd hlt (by omega)⟩

theorem firstLook_of_end (keeps : Nat → Bool) {d n : Nat}
    (hend : keeps (n + d) = false)
    (hbefore : ∀ k, n ≤ k → k < n + d → keeps k = true) :
    firstLook keeps (d + 1) n = some (n + d) := by
  induction d generalizing n with
  | zero =>
      have hnow : keeps n = false := hend
      simp [firstLook, hnow]
  | succ d ih =>
      have hnow : keeps n = true := hbefore n (Nat.le_refl n) (by omega)
      rw [firstLook, if_pos hnow]
      have hrest := ih (n := n + 1) (by rw [← hend]; congr 1; omega)
        fun k hk hlt => hbefore k (by omega) (by omega)
      rw [hrest]
      congr 1
      omega

/-- **A loop ends at the least look** that does not keep it going. -/
theorem firstLook_eq_some_iff (keeps : Nat → Bool) (n : Nat) :
    (∃ rounds, firstLook keeps rounds 0 = some n) ↔
      IsLeast {n | keeps n = false} n := by
  constructor
  · rintro ⟨rounds, h⟩
    obtain ⟨-, hend, hbefore⟩ := firstLook_eq_some keeps h
    refine ⟨hend, fun k hk => ?_⟩
    by_contra hlt
    have hkeeps := hbefore k (Nat.zero_le k) (Nat.lt_of_not_le hlt)
    cases hkeeps.symm.trans hk
  · rintro ⟨hend, hleast⟩
    refine ⟨n + 1, ?_⟩
    have h := firstLook_of_end keeps (n := 0) (d := n)
      (by simpa using hend) fun k _ hlt => ?_
    · simpa using h
    · by_contra hkeeps
      have := hleast (show k ∈ {n | keeps n = false} by simpa using hkeeps)
      omega

/-! ## The wait -/

/-- What a wait sees when it looks. -/
structure Look where
  /-- `token.unique()`, in the condition of the loop. -/
  unique : Bool
  /-- `get_system_time()`, which the condition only asks for when the token is
  unique. -/
  time : Int
  /-- `token.unique()`, in the `return` that a loop which ends here goes on to. -/
  atReturn : Bool

namespace TimedWait

/-- `not token.unique() or get_system_time() < exit_time`. -/
def keepsWaiting (exitTime : Int) (look : Look) : Bool :=
  !look.unique || decide (look.time < exitTime)

/-- `wait(timeout)` with the timeout in the microseconds that
`long(timeout*1e6)` makes of it.  What comes back is the look the loop ended at
and the value returned. -/
def wait (now timeout : Int) (looks : Nat → Look) (rounds : Nat) :
    Option (Nat × Bool) :=
  let exitTime := now + timeout
  (firstLook (fun n => keepsWaiting exitTime (looks n)) rounds 0).map
    fun n => (n, (looks n).atReturn)

/-- The wait ends, at that look and with that value. -/
def Returns (now timeout : Int) (looks : Nat → Look) (n : Nat)
    (value : Bool) : Prop :=
  ∃ rounds, wait now timeout looks rounds = some (n, value)

/-- The looks where the blocks have finished. -/
def finished (looks : Nat → Look) : Set Nat := {n | (looks n).unique = true}

/-- The looks where the exit time has been reached. -/
def reached (now timeout : Int) (looks : Nat → Look) : Set Nat :=
  {n | now + timeout ≤ (looks n).time}

/-- "Block until timeout or done", and tell whether it is done. -/
def Documented (now timeout : Int) (looks : Nat → Look) : Prop :=
  ∀ n value, Returns now timeout looks n value ↔
    IsLeast (finished looks ∪ reached now timeout looks) n ∧
    value = (looks n).atReturn

/-- The blocks finish between the same two looks as the exit time passes. -/
structure FinishOnTime (now timeout : Int) (looks : Nat → Look) : Prop where
  notEarly : finished looks ⊆ reached now timeout looks
  notLate : ∀ n, IsLeast (reached now timeout looks) n → n ∈ finished looks

variable {now timeout : Int} {looks : Nat → Look} {n : Nat} {value : Bool}

/-- **What the code does**: the loop goes on until the exit time has been
reached and the blocks have finished. -/
theorem returns_iff : Returns now timeout looks n value ↔
    IsLeast (finished looks ∩ reached now timeout looks) n ∧
      value = (looks n).atReturn := by
  have hset : {n | keepsWaiting (now + timeout) (looks n) = false} =
      finished looks ∩ reached now timeout looks := by
    ext n
    simp [keepsWaiting, finished, reached]
  rw [← hset, ← firstLook_eq_some_iff]
  simp only [Returns, wait, Option.map_eq_some_iff, Prod.mk.injEq]
  constructor
  · rintro ⟨rounds, m, hm, rfl, rfl⟩
    exact ⟨⟨rounds, hm⟩, rfl⟩
  · rintro ⟨⟨rounds, hn⟩, rfl⟩
    exact ⟨rounds, n, hn, rfl, rfl⟩

/-- When the blocks never finish, the deadline does not matter. -/
theorem not_returns_of_unfinished (h : finished looks = ∅) :
    ¬ Returns now timeout looks n value := by
  intro hreturns
  obtain ⟨⟨⟨hn, -⟩, -⟩, -⟩ := returns_iff.mp hreturns
  rw [h] at hn
  exact hn

/-- When the blocks finish early, the wait sleeps on until the deadline. -/
theorem Returns.reached (h : Returns now timeout looks n value) :
    n ∈ reached now timeout looks :=
  (returns_iff.mp h).1.1.2

/-- Both have come for the first time when either has, if the blocks finish on
time. -/
theorem FinishOnTime.isLeast_iff (h : FinishOnTime now timeout looks) :
    IsLeast (finished looks ∩ reached now timeout looks) n ↔
      IsLeast (finished looks ∪ reached now timeout looks) n := by
  rw [Set.inter_eq_left.mpr h.notEarly, Set.union_eq_right.mpr h.notEarly]
  constructor
  · rintro ⟨hn, hleast⟩
    refine ⟨h.notEarly hn, fun m hm => ?_⟩
    -- The deadline has a least look, at which the blocks have finished.
    have hfirst := isLeast_csInf ⟨m, hm⟩
    exact Nat.le_trans (hleast (h.notLate _ hfirst)) (hfirst.2 hm)
  · intro hn
    exact ⟨h.notLate n hn, fun m hm => hn.2 (h.notEarly hm)⟩

section Clock

variable (hclock : Monotone fun n => (looks n).time)

include hclock

/-- The exit time stays reached. -/
theorem reached_mono {m : Nat} (hm : m ∈ reached now timeout looks)
    (hle : m ≤ n) : n ∈ reached now timeout looks :=
  le_trans (show now + timeout ≤ (looks m).time from hm) (hclock hle)

/-- **When `wait(timeout)` is what its comment says.**  The loop runs while the
token is not unique or the exit time lies ahead, so it returns at the first look
at which both are over; what the comment promises is the first look at which
either is.  The two agree exactly when no look tells them apart. -/
theorem documented_iff : Documented now timeout looks ↔
      FinishOnTime now timeout looks := by
  constructor
  · intro h
    -- At the first look where either has come, the loop ends, so both have.
    have hboth : ∀ n, IsLeast (finished looks ∪ reached now timeout looks) n →
        n ∈ finished looks ∧ n ∈ reached now timeout looks := by
      intro n hn
      have hreturns := (h n (looks n).atReturn).mpr ⟨hn, rfl⟩
      exact (returns_iff.mp hreturns).1.1
    constructor
    · intro n hn
      have hleast :=
        isLeast_csInf (s := finished looks ∪ reached now timeout looks)
        ⟨n, Or.inl hn⟩
      exact reached_mono hclock (hboth _ hleast).2 (hleast.2 (Or.inl hn))
    · intro n hn
      have hleast :=
        isLeast_csInf (s := finished looks ∪ reached now timeout looks)
        ⟨n, Or.inr hn.1⟩
      obtain ⟨hfinished, hreached⟩ := hboth _ hleast
      have heq := Nat.le_antisymm (hleast.2 (Or.inr hn.1)) (hn.2 hreached)
      exact heq ▸ hfinished
  · intro h n value
    rw [returns_iff, h.isLeast_iff]

end Clock

/-- The blocks have finished when the third microsecond passes, and the wait is
for three. -/
theorem documented_on_time :
    Documented 0 3 fun n => ⟨decide (3 ≤ n), n, decide (3 ≤ n)⟩ := by
  refine (documented_iff fun m n hle => Int.ofNat_le.mpr hle).mpr ⟨?_, ?_⟩
  · intro n hn
    have : 3 ≤ n := by simpa [finished] using hn
    show (0 : Int) + 3 ≤ n
    omega
  · intro n hn
    have : (0 : Int) + 3 ≤ n := hn.1
    show decide (3 ≤ n) = true
    exact decide_eq_true (by omega)

/-- **Blocks that never finish** are waited for beyond any deadline, and those
that finish early are waited for until the deadline. -/
theorem wait_outlasts_deadline :
    ¬ (∀ now timeout looks, Monotone (fun n => (looks n : Look).time) →
      Documented now timeout looks) ∧
    (∀ n value, ¬ Returns 0 1 (fun n => ⟨false, n, false⟩) n value) ∧
      Returns 0 5 (fun n => ⟨true, n, true⟩) 5 true := by
  have hnever : ∀ n value,
      ¬ Returns 0 1 (fun n => ⟨false, n, false⟩) n value := by
    intro n value
    apply not_returns_of_unfinished
    ext m
    simp [finished]
  refine ⟨fun h => ?_, hnever, 6, by decide⟩
  have hdocumented := h 0 1 (fun n => ⟨false, n, false⟩) fun m n hle =>
    Int.ofNat_le.mpr hle
  refine hnever 1 false ((hdocumented 1 false).mpr ⟨⟨Or.inr ?_, ?_⟩, rfl⟩)
  · show (0 : Int) + 1 ≤ ((1 : Nat) : Int)
    omega
  · rintro m (hm | hm)
    · cases hm
    · have : (0 : Int) + 1 ≤ m := hm
      omega

end TimedWait

end Gras
