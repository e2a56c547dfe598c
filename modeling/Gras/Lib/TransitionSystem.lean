import Mathlib.Logic.Relation
import Mathlib.Data.List.Basic

/-!
# Labelled transition systems

The vocabulary in which whole runs are stated: a system is a predicate of
initial states and a labelled step relation, `Reachable` closes the one under
the other, and every safety statement is one use of `Reachable.invariant`.

* `restrict` keeps only the steps that meet a condition, so that "in every run
  whose steps all meet the condition" is reachability in the restricted system
  (`Reachable.of_restrict` forgets the condition again).
* `ofNext` builds a system from an executable step function that may fail;
  `Reachable.of_events` turns an evaluated list of events into reachability.
* `clocked` adds a clock that never goes back.
* `Ends` says that the steps of one kind come to an end whatever other steps are
  taken in between; `Ends.of_measure` and `not_ends_of_cycle` are the two rules
  for it.
* `Simulates` is forward simulation with stuttering: one concrete step is
  answered by any finite number of abstract ones.
-/

universe u v w

/-- A labelled transition system over states `σ` and events `ε`. -/
structure TransitionSystem (σ : Type u) (ε : Type v) where
  /-- The states a run may start in. -/
  init : σ → Prop
  /-- `step s e s'`: the event `e` takes `s` to `s'`. -/
  step : σ → ε → σ → Prop

namespace TransitionSystem

variable {σ : Type u} {ε : Type v} {τ : Type w} {φ : Type*} {ζ : Type*}

/-- The states some run reaches. -/
inductive Reachable (T : TransitionSystem σ ε) : σ → Prop where
  | init {s : σ} : T.init s → Reachable T s
  | step {s s' : σ} {e : ε} : Reachable T s → T.step s e s' → Reachable T s'

/-- **The invariant rule.**  What holds initially and is preserved by every
step out of a reachable state holds of every reachable state. -/
theorem Reachable.invariant {T : TransitionSystem σ ε} {P : σ → Prop}
    (hinit : ∀ s, T.init s → P s)
    (hstep : ∀ s e s', T.Reachable s → P s → T.step s e s' → P s') {s : σ}
    (h : T.Reachable s) : P s := by
  induction h with
  | init h => exact hinit _ h
  | step hr hs ih => exact hstep _ _ _ hr ih hs

/-- The system that only takes the steps meeting `ok`. -/
def restrict (T : TransitionSystem σ ε) (ok : σ → ε → Prop) :
    TransitionSystem σ ε where
  init := T.init
  step s e s' := ok s e ∧ T.step s e s'

@[simp] theorem restrict_init (T : TransitionSystem σ ε) (ok : σ → ε → Prop)
    (s : σ) : (T.restrict ok).init s ↔ T.init s := Iff.rfl

@[simp] theorem restrict_step (T : TransitionSystem σ ε) (ok : σ → ε → Prop)
    (s : σ) (e : ε) (s' : σ) :
    (T.restrict ok).step s e s' ↔ ok s e ∧ T.step s e s' := Iff.rfl

/-- A run that meets the condition is a run. -/
theorem Reachable.of_restrict {T : TransitionSystem σ ε} {ok : σ → ε → Prop}
    {s : σ} (h : (T.restrict ok).Reachable s) : T.Reachable s := by
  induction h with
  | init h => exact .init h
  | step _ hs ih => exact .step ih hs.2

/-- A weaker condition allows more runs. -/
theorem Reachable.restrict_mono {T : TransitionSystem σ ε}
    {ok ok' : σ → ε → Prop} (hok : ∀ s e, ok s e → ok' s e) {s : σ}
    (h : (T.restrict ok).Reachable s) : (T.restrict ok').Reachable s := by
  induction h with
  | init h => exact .init h
  | step _ hs ih => exact .step ih ⟨hok _ _ hs.1, hs.2⟩

/-- Two conditions are one. -/
theorem Reachable.restrict_restrict {T : TransitionSystem σ ε}
    {ok ok' : σ → ε → Prop} {s : σ}
    (h : (T.restrict fun s e => ok' s e ∧ ok s e).Reachable s) :
    ((T.restrict ok).restrict ok').Reachable s := by
  induction h with
  | init h => exact .init h
  | step _ hs ih => exact .step ih ⟨hs.1.1, hs.1.2, hs.2⟩

/-! ## Executable systems -/

/-- The system of a step function that may fail: a failing step has no
successor, so the run ends there. -/
def ofNext (init : σ → Prop) (next : σ → ε → Except φ σ) :
    TransitionSystem σ ε where
  init := init
  step s e s' := next s e = .ok s'

@[simp] theorem ofNext_init (init : σ → Prop) (next : σ → ε → Except φ σ)
    (s : σ) : (ofNext init next).init s ↔ init s := Iff.rfl

@[simp] theorem ofNext_step (init : σ → Prop) (next : σ → ε → Except φ σ)
    (s : σ) (e : ε) (s' : σ) :
    (ofNext init next).step s e s' ↔ next s e = .ok s' := Iff.rfl

/-- Perform a list of events one after the other. -/
def runEvents (next : σ → ε → Except φ σ) : List ε → σ → Except φ σ
  | [], s => .ok s
  | e :: es, s =>
      match next s e with
      | .ok s' => runEvents next es s'
      | .error f => .error f

/-- Evaluating a list of events from a reachable state reaches its result. -/
theorem Reachable.of_events {init : σ → Prop} {next : σ → ε → Except φ σ} :
    ∀ (es : List ε) {s s' : σ}, (ofNext init next).Reachable s →
      runEvents next es s = .ok s' → (ofNext init next).Reachable s'
  | [], s, s', hs, h => by
      cases h
      exact hs
  | e :: es, s, s', hs, h => by
      unfold runEvents at h
      cases hn : next s e with
      | error f => simp [hn] at h
      | ok t =>
          rw [hn] at h
          exact Reachable.of_events es (.step hs hn) h

/-- Perform a list of events, each of which has to meet the condition. -/
def runRestricted (ok : σ → ε → Prop) [∀ s e, Decidable (ok s e)]
    (next : σ → ε → Except φ σ) : List ε → σ → Option σ
  | [], s => some s
  | e :: es, s =>
      if ok s e then
        match next s e with
        | .ok s' => runRestricted ok next es s'
        | .error _ => none
      else none

/-- A script whose lines are events that meet a stronger condition, from a
reachable state on. -/
theorem Reachable.of_script {κ : Type*} (event : κ → ε) {init : σ → Prop}
    {ok : σ → ε → Prop} {ok' : σ → κ → Prop} [∀ s x, Decidable (ok' s x)]
    {next : σ → ε → Except φ σ} (hok : ∀ s x, ok' s x → ok s (event x)) :
    ∀ (xs : List κ) {s s' : σ}, ((ofNext init next).restrict ok).Reachable s →
      runRestricted ok' (fun s x => next s (event x)) xs s = some s' →
      ((ofNext init next).restrict ok).Reachable s'
  | [], s, s', hs, h => by
      cases h
      exact hs
  | x :: xs, s, s', hs, h => by
      unfold runRestricted at h
      split at h
      · rename_i hevent
        cases hn : next s (event x) with
        | error f => simp [hn] at h
        | ok t =>
            simp only [hn] at h
            exact Reachable.of_script event hok xs
              (.step hs ⟨hok s x hevent, hn⟩) h
      · cases h

/-- Events that meet a stronger condition. -/
theorem Reachable.of_stronger_events {init : σ → Prop} {ok ok' : σ → ε → Prop}
    [∀ s e, Decidable (ok' s e)] {next : σ → ε → Except φ σ}
    (hok : ∀ s e, ok' s e → ok s e) (es : List ε) {s s' : σ}
    (hs : ((ofNext init next).restrict ok).Reachable s)
    (h : runRestricted ok' next es s = some s') :
    ((ofNext init next).restrict ok).Reachable s' :=
  Reachable.of_script id hok es hs h

theorem Reachable.of_restricted_events {init : σ → Prop} {ok : σ → ε → Prop}
    [∀ s e, Decidable (ok s e)] {next : σ → ε → Except φ σ} (es : List ε)
    {s s' : σ} (hs : ((ofNext init next).restrict ok).Reachable s)
    (h : runRestricted ok next es s = some s') :
    ((ofNext init next).restrict ok).Reachable s' :=
  Reachable.of_stronger_events (fun _ _ hevent => hevent) es hs h

/-! ## Time -/

/-- The system beside a clock: it starts at some time since which the state is,
and an event that reads the clock sets it to what it reads, which is never less
than before. -/
def clocked {κ : Type*} [LE κ] (T : TransitionSystem σ ε) (since : σ → κ → Prop)
    (time : ε → Option κ) : TransitionSystem (σ × κ) ε where
  init s := T.init s.1 ∧ since s.1 s.2
  step s e s' := T.step s.1 e s'.1 ∧ (∀ t ∈ time e, s.2 ≤ t) ∧
    s'.2 = (time e).getD s.2

/-- A run beside a clock is a run. -/
theorem Reachable.of_clocked {κ : Type*} [LE κ] {T : TransitionSystem σ ε}
    {since : σ → κ → Prop} {time : ε → Option κ} {s : σ × κ}
    (h : (T.clocked since time).Reachable s) : T.Reachable s.1 := by
  induction h with
  | init h => exact .init h.1
  | step _ hs ih => exact .step ih hs.1

/-! ## Steps that come to an end -/

section Ends

/-- Finitely many steps, none of them of that kind. -/
def StepsBut (T : TransitionSystem σ ε) (own : ε → Prop) : σ → σ → Prop :=
  Relation.ReflTransGen fun s s' => ∃ e, ¬ own e ∧ T.step s e s'

/-- The steps of a kind come to an end: whatever other steps are taken in
between, one of them can be taken until it is over, and only finitely many
are. -/
inductive Ends (T : TransitionSystem σ ε) (own : ε → Prop)
    (able ended : σ → Prop) : σ → Prop where
  | ended {s : σ} : ended s → Ends T own able ended s
  | step {s : σ} : (∀ s', T.StepsBut own s s' → able s') →
      (∀ s' e s'', T.StepsBut own s s' → own e → T.step s' e s'' →
        Ends T own able ended s'') →
      Ends T own able ended s

variable {T : TransitionSystem σ ε} {own : ε → Prop}
  {able ended : σ → Prop} {s : σ}

/-- **The measure rule.**  An own step makes the measure smaller, another step
does not make it larger and does not end anything. -/
theorem Ends.of_measure (m : σ → Nat) {P : σ → Prop}
    (hstep : ∀ s e s', P s → T.step s e s' → P s')
    (hable : ∀ s, P s → ¬ ended s → able s)
    (hown : ∀ s e s', P s → ¬ ended s → own e → T.step s e s' → m s' < m s)
    (hother : ∀ s e s', P s → ¬ ended s → ¬ own e → T.step s e s' →
      ¬ ended s' ∧ m s' ≤ m s)
    (hs : P s) : T.Ends own able ended s := by
  induction hm : m s using Nat.strongRecOn generalizing s with
  | _ n ih =>
      by_cases hended : ended s
      · exact .ended hended
      · have hkept : ∀ s', T.StepsBut own s s' →
            P s' ∧ ¬ ended s' ∧ m s' ≤ m s := by
          intro s' hsteps
          induction hsteps with
          | refl => exact ⟨hs, hended, Nat.le_refl _⟩
          | tail _ hlast ih =>
              obtain ⟨e, he, hlast⟩ := hlast
              obtain ⟨hP, hnot, hle⟩ := ih
              obtain ⟨hnot', hle'⟩ := hother _ e _ hP hnot he hlast
              exact ⟨hstep _ e _ hP hlast, hnot', Nat.le_trans hle' hle⟩
        refine .step (fun s' hsteps => ?_) fun s' e s'' hsteps he hlast => ?_
        · obtain ⟨hP, hnot, -⟩ := hkept s' hsteps
          exact hable s' hP hnot
        · obtain ⟨hP, hnot, hle⟩ := hkept s' hsteps
          have hlt := hown s' e s'' hP hnot he hlast
          exact ih (m s'') (by omega) (hstep s' e s'' hP hlast) rfl

/-- **The rule of a well-founded relation.**  An own step makes the measure
smaller, another step does not change it and does not end anything. -/
theorem Ends.of_wellFounded {κ : Type*} {r : κ → κ → Prop} (hr : WellFounded r)
    (m : σ → κ) {P : σ → Prop} (hstep : ∀ s e s', P s → T.step s e s' → P s')
    (hable : ∀ s, P s → ¬ ended s → able s)
    (hown : ∀ s e s', P s → ¬ ended s → own e → T.step s e s' → r (m s') (m s))
    (hother : ∀ s e s', P s → ¬ ended s → ¬ own e → T.step s e s' →
      ¬ ended s' ∧ m s' = m s)
    (hs : P s) : T.Ends own able ended s := by
  induction hm : m s using hr.induction generalizing s with
  | _ _ ih =>
      by_cases hended : ended s
      · exact .ended hended
      · have hkept : ∀ s', T.StepsBut own s s' →
            P s' ∧ ¬ ended s' ∧ m s' = m s := by
          intro s' hsteps
          induction hsteps with
          | refl => exact ⟨hs, hended, rfl⟩
          | tail _ hlast ih =>
              obtain ⟨e, he, hlast⟩ := hlast
              obtain ⟨hP, hnot, heq⟩ := ih
              obtain ⟨hnot', heq'⟩ := hother _ e _ hP hnot he hlast
              exact ⟨hstep _ e _ hP hlast, hnot', heq'.trans heq⟩
        refine .step (fun s' hsteps => ?_) fun s' e s'' hsteps he hlast => ?_
        · obtain ⟨hP, hnot, -⟩ := hkept s' hsteps
          exact hable s' hP hnot
        · obtain ⟨hP, hnot, heq⟩ := hkept s' hsteps
          have hless := hown s' e s'' hP hnot he hlast
          rw [heq, hm] at hless
          exact ih (m s'') hless (hstep s' e s'' hP hlast) rfl

/-- **The cycle rule.**  Own steps that lead from states of a set to states of
the set, none of which is over, never end. -/
theorem not_ends_of_cycle {Z : σ → Prop} (hended : ∀ s, Z s → ¬ ended s)
    (hcycle : ∀ s, Z s → ∃ e s', own e ∧ T.step s e s' ∧ Z s') (hs : Z s) :
    ¬ T.Ends own able ended s := by
  intro h
  induction h with
  | ended h => exact hended _ hs h
  | step _ _ ih =>
      obtain ⟨e, s', he, hstep, hs'⟩ := hcycle _ hs
      exact ih _ e s' .refl he hstep hs'

end Ends

/-! ## Forward simulation -/

/-- Finitely many steps of a system, whatever their events. -/
def Steps (T : TransitionSystem σ ε) : σ → σ → Prop :=
  Relation.ReflTransGen fun s s' => ∃ e, T.step s e s'

theorem Reachable.of_steps {T : TransitionSystem σ ε} {s s' : σ}
    (hs : T.Reachable s) (h : T.Steps s s') : T.Reachable s' := by
  induction h with
  | refl => exact hs
  | tail _ hstep ih =>
      obtain ⟨e, he⟩ := hstep
      exact .step ih he

/-- `R` is a forward simulation of `C` by `A`: initial states have related
initial states, and a step out of a reachable concrete state is answered by
finitely many abstract steps. -/
structure Simulates (C : TransitionSystem σ ε) (A : TransitionSystem τ ζ)
    (R : σ → τ → Prop) : Prop where
  init : ∀ s, C.init s → ∃ t, A.init t ∧ R s t
  step : ∀ s e s' t, C.Reachable s → R s t → C.step s e s' →
    ∃ t', A.Steps t t' ∧ R s' t'

end TransitionSystem
