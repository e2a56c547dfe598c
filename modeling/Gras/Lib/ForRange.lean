import Mathlib.Logic.Basic

/-!
# Counting loops that may fail

`forRange n f` runs `f 0, f 1, …, f (n - 1)` one after the other on a state and
stops at the first failure.

* `forRange_rule`: partial correctness, with an invariant that may mention the
  round.
* `forRange_total`: total correctness, when every round succeeds.
-/

universe u v

variable {σ : Type u} {ε : Type v} {f : Nat → σ → Except ε σ}
  {s s' : σ} {n : Nat}

/-- The loop `for (i = 0; i < n; i++)`. -/
def forRange (f : Nat → σ → Except ε σ) : Nat → σ → Except ε σ
  | 0, s => .ok s
  | n + 1, s => forRange f n s >>= f n

@[simp] theorem forRange_zero : forRange f 0 s = .ok s := rfl

theorem forRange_succ_eq_ok :
    forRange f (n + 1) s = .ok s' ↔ ∃ t, forRange f n s = .ok t ∧
      f n t = .ok s' := by
  rw [forRange]
  cases forRange f n s with
  | error e => simp [bind, Except.bind]
  | ok t => simp [bind, Except.bind]

/-- **The invariant rule.** -/
theorem forRange_rule (h : forRange f n s = .ok s') {P : Nat → σ → Prop}
    (hzero : P 0 s) (hstep : ∀ i < n, ∀ t t', P i t → f i t = .ok t' →
      P (i + 1) t') : P n s' := by
  induction n generalizing s' with
  | zero =>
      cases h
      exact hzero
  | succ n ih =>
      obtain ⟨t, ht, hlast⟩ := forRange_succ_eq_ok.mp h
      have hP := ih ht fun i hi => hstep i (Nat.lt_succ_of_lt hi)
      exact hstep n (Nat.lt_succ_self n) t s' hP hlast

/-- **The loop succeeds** when every round does. -/
theorem forRange_total {P : Nat → σ → Prop} (hzero : P 0 s)
    (hstep : ∀ i < n, ∀ t, P i t → ∃ t', f i t = .ok t' ∧ P (i + 1) t') :
    ∃ s', forRange f n s = .ok s' ∧ P n s' := by
  induction n with
  | zero => exact ⟨s, rfl, hzero⟩
  | succ n ih =>
      obtain ⟨t, ht, hP⟩ := ih fun i hi => hstep i (Nat.lt_succ_of_lt hi)
      obtain ⟨t', ht', hP'⟩ := hstep n (Nat.lt_succ_self n) t hP
      exact ⟨t', forRange_succ_eq_ok.mpr ⟨t, ht, ht'⟩, hP'⟩

/-- A relation that the rounds keep and that is transitive holds of the loop. -/
theorem forRange_relates (h : forRange f n s = .ok s') {R : σ → σ → Prop}
    (hrefl : ∀ s, R s s) (htrans : ∀ {s t u}, R s t → R t u → R s u)
    (hstep : ∀ i < n, ∀ t t', f i t = .ok t' → R t t') : R s s' :=
  forRange_rule h (P := fun _ t => R s t) (hrefl s)
    fun i hi t t' hR hf => htrans hR (hstep i hi t t' hf)
