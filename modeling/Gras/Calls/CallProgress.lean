import Gras.Calls.RemoteCallRuns
import Mathlib.Logic.Hydra
import Mathlib.Data.Set.Basic
import Mathlib.Algebra.BigOperators.Group.Finset.Basic

/-!
# Calls that return, and calls that never do

A turn that calls a block keeps its actor until the reply is there.  If blocks
can be ranked so that the code of a block only calls blocks below it, then all
calls come to an end (`calls_return`): each step replaces one piece of work by
finitely many smaller ones, in the order of the ranks and then of how far the
turn is, and as long as a call is under way there is a step.

Without such an order blocks may wait for each other in a circle, a block that
calls itself being the smallest one.  Calls stop in this way only
(`stuck_iff_locked`), and it is for ever (`locked_forever`).
-/

namespace Gras

variable {B T M S V : Type}

/-- The code calls only blocks of a lower rank. -/
def Body.Below {O : Type} (rank : B → Nat) (n : Nat) : Body B O V → Prop
  | .done _ _ => True
  | .call _ c _ _ next => rank c < n ∧ ∀ r, (next r).Below rank n

/-- The same of a turn under way. -/
def TurnState.Below (rank : B → Nat) (n : Nat) : TurnState B M S V → Prop
  | .running code => code.Below rank n
  | .waiting _ c _ next => rank c < n ∧ ∀ r, (next r).Below rank n

/-! ### What is left of a call -/

/-- How far a call is. -/
inductive Stage (B M S V : Type) where
  | queued
  | running (code : Body B (Callable M S) V)
  | waiting (next : CallResult V → Body B (Callable M S) V)

/-- The one stage comes right after the other. -/
inductive Stage.After : Stage B M S V → Stage B M S V → Prop where
  | taken (code : Body B (Callable M S) V) : After (.running code) .queued
  | asked (o : Callable M S) (c : B) (name : String) (args : List V)
      (next : CallResult V → Body B (Callable M S) V) :
      After (.waiting next) (.running (.call o c name args next))
  | answered (next : CallResult V → Body B (Callable M S) V)
    (r : CallResult V) :
      After (.running (next r)) (.waiting next)

theorem Stage.acc_running (code : Body B (Callable M S) V) :
    Acc Stage.After (.running code) := by
  induction code with
  | done o outcome => exact ⟨_, fun _ h => by cases h⟩
  | call o c name args next ih =>
      refine ⟨_, fun _ h => ?_⟩
      cases h
      refine ⟨_, fun _ h => ?_⟩
      cases h with
      | answered _ r => exact ih r

/-- A call goes through finitely many stages, whatever the results of its own
calls. -/
theorem Stage.after_wf :
    WellFounded (Stage.After (B := B) (M := M) (S := S) (V := V)) := by
  refine ⟨fun stage => ?_⟩
  cases stage with
  | queued =>
      refine ⟨_, fun _ h => ?_⟩
      cases h with
      | taken code => exact acc_running code
  | running code => exact acc_running code
  | waiting next =>
      refine ⟨_, fun _ h => ?_⟩
      cases h with
      | answered _ r => exact acc_running (next r)

/-- First by the rank of the block. -/
def Stage.Smaller : Nat × Stage B M S V → Nat × Stage B M S V → Prop :=
  Prod.Lex (· < ·) Stage.After

theorem Stage.smaller_wf :
    WellFounded (Stage.Smaller (B := B) (M := M) (S := S) (V := V)) :=
  WellFounded.prod_lex Nat.lt_wfRel.wf after_wf

/-- The stage of a turn under way. -/
def TurnState.stage : TurnState B M S V → Stage B M S V
  | .running code => .running code
  | .waiting _ _ _ next => .waiting next

/-- The calls at an actor, with the rank of its block. -/
def CallActor.load (n : Nat) (x : CallActor B M S V) :
    Multiset (Nat × Stage B M S V) :=
  Multiset.replicate x.mailbox.length (n, .queued) +
    x.current.elim 0 fun cur => {(n, cur.state.stage)}

namespace CallSystem

section Load

variable [Fintype B] [Fintype T]

/-- All that is under way; a thread that waits counts too. -/
def load (rank : B → Nat) (s : CallSystem B T M S V) :
    Multiset (Nat × Stage B M S V) :=
  (∑ b, (s.actors b).load (rank b)) +
    ∑ t, (s.threads t).elim 0 fun _ => {(0, .queued)}

/-- One summand changes. -/
theorem sum_change {ι A : Type} [Fintype ι] [DecidableEq ι] [AddCommMonoid A]
    {f g : ι → A} {i : ι} (h : ∀ j, j ≠ i → g j = f j) :
    ∑ j, g j + f i = ∑ j, f j + g i := by
  have hrest : ∑ j ∈ Finset.univ.erase i,
      g j = ∑ j ∈ Finset.univ.erase i, f j :=
    Finset.sum_congr rfl fun j hj => h j (Finset.ne_of_mem_erase hj)
  rw [← Finset.add_sum_erase _ g (Finset.mem_univ i), ← Finset.add_sum_erase _ f
    (Finset.mem_univ i), hrest]
  ac_rfl

variable [DecidableEq B] (rank : B → Nat)

theorem load_setActor (s : CallSystem B T M S V) (b : B)
    (x : CallActor B M S V) :
    (s.setActor b x).load rank + (s.actors b).load (rank b) =
      s.load rank + x.load (rank b) := by
  have hself : (s.setActor b x).actors b = x := by
    rw [setActor_actors, if_pos rfl]
  have hsum := sum_change (f := fun c => (s.actors c).load (rank c))
    (g := fun c => ((s.setActor b x).actors c).load (rank c)) (i := b)
    fun c hc => by rw [setActor_actors, if_neg hc]
  rw [hself] at hsum
  unfold load
  rw [setActor_threads, add_right_comm, hsum, add_right_comm]

/-- A call adds its message. -/
theorem load_post (s : CallSystem B T M S V) (caller : B ⊕ T) (c : B)
    (m : CallableMessage V) :
    (s.post caller c m).load rank = s.load rank + {(rank c, .queued)} := by
  have hset := load_setActor rank s c
    { s.actors c with mailbox := (s.actors c).mailbox ++ [(m, s.receivers)] }
  have hmail : ({ s.actors c with
      mailbox := (s.actors c).mailbox ++ [(m, s.receivers)] } :
        CallActor B M S V).load (rank c) =
      (s.actors c).load (rank c) + {(rank c, .queued)} := by
    simp only [CallActor.load, List.length_append, List.length_singleton,
      Multiset.replicate_add, Multiset.replicate_one]
    exact add_right_comm ..
  rw [hmail, ← add_assoc, add_right_comm] at hset
  exact add_right_cancel hset

/-- An actor has done one piece of its work. -/
theorem load_done {s : CallSystem B T M S V} {b : B} {x : CallActor B M S V}
    {before : Nat × Stage B M S V} {after : Multiset (Nat × Stage B M S V)}
    (rest : Multiset (Nat × Stage B M S V))
    (hold : (s.actors b).load (rank b) = rest + {before})
    (hnew : x.load (rank b) = rest + after) :
    (s.setActor b x).load rank + {before} = s.load rank + after := by
  have hset := load_setActor rank s b x
  rw [hold, hnew, ← add_assoc, ← add_assoc, add_right_comm,
    add_right_comm (s.load rank)] at hset
  exact add_right_cancel hset

/-- The turns under way call only blocks below theirs. -/
def Below (s : CallSystem B T M S V) : Prop :=
  ∀ b cur, (s.actors b).current = some cur → cur.state.Below rank (rank b)

variable {rank} [DecidableEq T] {methods : B → Methods B M S V}
  {s s' : CallSystem B T M S V}
  {e : CallEvent B T M S V}

/-- **A step of a call leaves less to do.**  One piece of work goes, and those
that come instead are smaller. -/
theorem load_step (hbelow : Below rank s) (h : Stepped methods s e s')
    (he : e.isInternal = true) :
    Relation.CutExpand Stage.Smaller (s'.load rank) (s.load rank) := by
  cases h with
  | call => cases he
  | work => cases he
  | @handle b m a rest hcur hmail =>
      refine ⟨{(rank b,
        .running ((s.actors b).object.handleCall (methods b) m.key m.args))},
        (rank b, .queued), ?_, ?_⟩
      · intro stage hstage
        rw [Multiset.mem_singleton.mp hstage]
        exact .right _ (.taken _)
      · refine load_done rank
          (Multiset.replicate rest.length (rank b, .queued)) ?_ ?_
        · simp [CallActor.load, hcur, hmail, Multiset.replicate_succ,
            ← Multiset.singleton_add, add_comm]
        · rfl
  | @ask b task exchanges o c name args next hcur =>
      have hlow : rank c < rank b := (hbelow b _ hcur).1
      refine ⟨{(rank b, .waiting next)} + {(rank c, .queued)},
        (rank b, .running (.call o c name args next)), ?_, ?_⟩
      · intro stage hstage
        rcases Multiset.mem_add.mp hstage with hstage | hstage
        · rw [Multiset.mem_singleton.mp hstage]
          exact .right _ (.asked ..)
        · rw [Multiset.mem_singleton.mp hstage]
          exact .left _ _ hlow
      · rw [load_post, add_right_comm, ← add_assoc]
        congr 1
        refine load_done rank
          (Multiset.replicate (s.actors b).mailbox.length
            (rank b, .queued)) ?_ ?_
        · simp [CallActor.load, hcur, TurnState.stage]
        · rfl
  | @resume b task exchanges a c m r next hcur hr =>
      refine ⟨{(rank b, .running (next r.result))},
        (rank b, .waiting next), ?_, ?_⟩
      · intro stage hstage
        rw [Multiset.mem_singleton.mp hstage]
        exact .right _ (.answered ..)
      · refine load_done rank
          (Multiset.replicate (s.actors b).mailbox.length
            (rank b, .queued)) ?_ ?_
        · simp [CallActor.load, hcur, TurnState.stage]
        · rfl
  | @finish b task exchanges o outcome hcur =>
      refine ⟨0, (rank b, .running (.done o outcome)), by simp, ?_⟩
      refine load_done rank
        (Multiset.replicate (s.actors b).mailbox.length (rank b, .queued)) ?_ ?_
      · simp [CallActor.load, hcur, TurnState.stage]
      · rfl
  | @wake t a c r hthread hr =>
      refine ⟨0, (0, .queued), by simp, ?_⟩
      have hsum := sum_change
        (f := fun t => (s.threads t).elim 0 fun _ =>
          ({(0, .queued)} : Multiset (Nat × Stage B M S V)))
        (g := fun t' => (Function.update s.threads t none t').elim 0 fun _ =>
          {(0, .queued)})
        (i := t) fun t' ht' => by rw [Function.update_of_ne ht']
      rw [Function.update_self, hthread] at hsum
      unfold load
      rw [add_assoc, add_zero]
      congr 1
      exact hsum.trans (add_zero _)

end Load

/-! ### When no step is left -/

/-- A call that is under way takes a step. -/
def Able [DecidableEq B] [DecidableEq T] (methods : B → Methods B M S V)
    (s : CallSystem B T M S V) : Prop :=
  ∃ e s', e.isInternal = true ∧ next methods s e = .ok s'

/-- No call is under way. -/
structure Idle (s : CallSystem B T M S V) : Prop where
  current : ∀ b, (s.actors b).current = none
  mailbox : ∀ b, (s.actors b).mailbox = []
  threads : ∀ t, s.threads t = none

/-- Blocks that wait for each other: each of them is in a call of one of
them. -/
def Locked (D : Set B) (s : CallSystem B T M S V) : Prop :=
  ∀ b ∈ D, ∃ task exchanges a c m next,
    (s.actors b).current =
      some { task, exchanges, state := .waiting a c m next } ∧
    c ∈ D ∧ s.received a = none

section Stuck

variable [DecidableEq B] {methods : B → Methods B M S V}
  {objects : B → Callable M S}
  {s s' : CallSystem B T M S V} {b c : B} {a : Nat} {m : CallableMessage V}

theorem mem_answeredOn {h : List (Moment B T M S V)} :
    (m, a) ∈ answeredOn b h ↔
      ∃ exchanges outcome,
      .finished b ⟨.callable m a, exchanges, outcome⟩ ∈ h := by
  unfold answeredOn
  rw [List.mem_flatMap]
  constructor
  · rintro ⟨⟨task, exchanges, outcome⟩, hturn, hcall⟩
    cases task with
    | callable m' a' =>
        cases List.mem_singleton.mp hcall
        exact ⟨exchanges, outcome, mem_turnsOn.mp hturn⟩
    | other code => cases hcall
  · rintro ⟨exchanges, outcome, hturn⟩
    exact ⟨_, mem_turnsOn.mpr hturn, List.mem_cons_self⟩

/-- A call that was made has its reply, or it is at the actor. -/
theorem Told.place {caller : B ⊕ T} (ht : Told methods objects s)
    (hcalled : .called a caller c m ∈ s.history) :
    (∃ r, s.received a = some r) ∨ (m, a) ∈ (s.actors c).pending := by
  have hmem : (m, a) ∈ callsOn c s.history := mem_callsOn.mpr ⟨caller, hcalled⟩
  rw [ht.order c] at hmem
  rcases List.mem_append.mp hmem with hanswered | hpending
  · obtain ⟨exchanges, outcome, hturn⟩ := mem_answeredOn.mp hanswered
    exact .inl (Option.isSome_iff_exists.mp
      (ht.kept c m a exchanges outcome hturn))
  · exact .inr hpending

/-- The calls of a block have distinct receivers. -/
theorem callsOn_receivers {h : List (Moment B T M S V)} :
    ((callsOn b h).map Prod.snd).Sublist (h.filterMap Moment.receiver) := by
  unfold callsOn
  induction h with
  | nil => exact .slnil
  | cons x h ih =>
      cases x with
      | called a caller c m =>
          rw [List.filterMap_cons_some (f := Moment.receiver) rfl]
          by_cases hc : c = b
          · have hon : Moment.callOn b
                (.called a caller c m : Moment B T M S V) = some (m, a) :=
              if_pos hc
            rw [List.filterMap_cons_some hon]
            exact ih.cons_cons a
          · have hon : Moment.callOn b
                (.called a caller c m : Moment B T M S V) = none :=
              if_neg hc
            rw [List.filterMap_cons_none hon]
            exact ih.cons a
      | finished c t =>
          rw [List.filterMap_cons_none rfl, List.filterMap_cons_none rfl]
          exact ih
      | returned a caller r =>
          rw [List.filterMap_cons_none rfl, List.filterMap_cons_none rfl]
          exact ih

/-- A call that is at an actor has no reply. -/
theorem Told.pending_unreplied (ht : Told methods objects s)
    (hpending : (m, a) ∈ (s.actors b).pending) : s.received a = none := by
  rw [Option.eq_none_iff_forall_ne_some]
  intro r hr
  have hcall : (m, a) ∈ callsOn b s.history := by
    rw [ht.order b]
    exact List.mem_append_right _ hpending
  obtain ⟨caller, hcalled⟩ := mem_callsOn.mp hcall
  obtain ⟨b', m', exchanges, outcome, hturn, -⟩ := ht.replied a r hr
  obtain ⟨caller', hsub⟩ := ht.finished b' _ hturn (m', a) List.mem_cons_self
  have hsame :=
    called_unique ht.fresh (hsub.subset List.mem_cons_self) hcalled rfl rfl
  cases hsame
  -- it would be there twice
  have hanswered : (m', a) ∈ answeredOn b s.history :=
    mem_answeredOn.mpr ⟨exchanges, outcome, hturn⟩
  have hnodup : (callsOn b s.history).Nodup :=
    (callsOn_receivers.nodup (ht.fresh ▸ List.nodup_range)).of_map
  rw [ht.order b] at hnodup
  exact (List.disjoint_of_nodup_append hnodup) hanswered hpending

variable [DecidableEq T]

theorem able_of_mail (hcur : (s.actors b).current = none)
    (hmail : (s.actors b).mailbox ≠ []) : Able methods s := by
  obtain ⟨⟨m, a⟩, rest, hmail⟩ := List.exists_cons_of_ne_nil hmail
  exact ⟨.handle b, _, rfl, by simp only [next, hcur, hmail]; rfl⟩

theorem able_of_thread {t : T} {r : CallableMessage V}
    (hthread : s.threads t = some (a, c)) (hr : s.received a = some r) :
    Able methods s :=
  ⟨.wake t, _, rfl, by simp only [next, hthread, hr]; rfl⟩

/-- If no step is left then a turn under way waits for one under way. -/
theorem waits_of_not_able (ht : Told methods objects s)
    (hstuck : ¬ Able methods s) {cur : Current B M S V}
    (hcur : (s.actors b).current = some cur) :
    ∃ task exchanges a c m next,
      cur = { task, exchanges, state := .waiting a c m next } ∧
      (s.actors c).current ≠ none ∧ s.received a = none := by
  obtain ⟨task, exchanges, state⟩ := cur
  cases state with
  | running code =>
      refine absurd ?_ hstuck
      cases code with
      | done o outcome =>
          exact ⟨.finish b, _, rfl, by simp only [next, hcur]; rfl⟩
      | call o c name args rest =>
          exact ⟨.ask b, _, rfl, by simp only [next, hcur]; rfl⟩
  | waiting a c m rest =>
      refine ⟨task, exchanges, a, c, m, rest, rfl, ?_⟩
      rcases ht.place (ht.asked b _ _ _ _ _ _ hcur) with ⟨r, hr⟩ | hpending
      · exact absurd
          ⟨.resume b, _, rfl, by simp only [next, hcur, hr]; rfl⟩ hstuck
      · refine ⟨fun hnone =>
          hstuck (able_of_mail (b := c) hnone fun hmail => ?_),
          ht.pending_unreplied hpending⟩
        rw [CallActor.pending, hnone, hmail] at hpending
        cases hpending

/-- If no step and no turn is left then nothing is. -/
theorem idle_of_not_able (ht : Told methods objects s)
    (hstuck : ¬ Able methods s) (hcurrent : ∀ b, (s.actors b).current = none) :
    Idle s := by
  have hmailbox : ∀ b, (s.actors b).mailbox = [] := fun b => by
    by_contra hmail
    exact hstuck (able_of_mail (hcurrent b) hmail)
  refine ⟨hcurrent, hmailbox, fun t => Option.eq_none_iff_forall_ne_some.mpr ?_⟩
  rintro ⟨a, c⟩ hthread
  obtain ⟨m, hcalled⟩ := ht.waits t a c hthread
  rcases ht.place hcalled with ⟨r, hr⟩ | hpending
  · exact hstuck (able_of_thread hthread hr)
  · rw [CallActor.pending, hcurrent c, hmailbox c] at hpending
    cases hpending

end Stuck

/-! ### Calls down an order of the blocks -/

/-- The code of the other handlers of an actor calls only blocks below it. -/
def WorkBelow (rank : B → Nat) (_ : CallSystem B T M S V) :
    CallEvent B T M S V → Prop
  | .work b code => ∀ o, (code o).Below rank (rank b)
  | _ => True

theorem below_handleCall {methods : Methods B M S V} {rank : B → Nat} {n : Nat}
    (hmethods : ∀ m args o, (methods m args o).Below rank n) (name : String)
    (args : List V) (c : Callable M S) :
    (c.handleCall methods name args).Below rank n := by
  unfold Callable.handleCall
  split
  · trivial
  · unfold CallableRegistryEntry.call
    split
    · trivial
    · exact hmethods ..

section Ranked

variable [DecidableEq B] [DecidableEq T] {methods : B → Methods B M S V}
  {objects : B → Callable M S} {s s' : CallSystem B T M S V}
  {e : CallEvent B T M S V}
  {rank : B → Nat}

theorem Below.step
    (hmethods : ∀ b m args o, (methods b m args o).Below rank (rank b))
    (hwork : WorkBelow rank s e) (hbelow : Below rank s)
    (h : Stepped methods s e s') : Below rank s' := by
  intro b cur hcur
  cases current_step h hcur with
  | kept hold => exact hbelow b cur hold
  | handled => exact below_handleCall (hmethods b) ..
  | worked he =>
      subst he
      exact hwork _
  | asked hold =>
      have hcode := hbelow b _ hold
      exact hcode
  | resumed hold => exact (hbelow b _ hold).2 _

/-- With every turn above those it waits for, the lowest one has a step. -/
theorem idle_of_below (ht : Told methods objects s) (hbelow : Below rank s)
    (hstuck : ¬ Able methods s) : Idle s := by
  refine idle_of_not_able ht hstuck fun b => ?_
  induction hn : rank b using Nat.strongRecOn generalizing b with
  | _ n ih =>
      by_contra hcur
      obtain ⟨cur, hcur⟩ := Option.ne_none_iff_exists'.mp hcur
      obtain ⟨task, exchanges, a, c, m, next, rfl, hnext, -⟩ :=
        waits_of_not_able ht hstuck hcur
      have hlow : rank c < rank b := (hbelow b _ hcur).1
      exact hnext (ih (rank c) (hn ▸ hlow) c rfl)

/-- **Calls return.**  If no block calls one that is not below it then all calls
under way come to an end, in whatever order their steps are taken.

The ranking excludes circles, which `locked_forever` shows to be for ever.  That
a turn which is due can be taken at all is the assumption of the model: there is
a free worker for it. -/
theorem calls_return [Fintype B] [Fintype T]
    (hmethods : ∀ b m args o, (methods b m args o).Below rank (rank b))
    (h : ((system methods objects).restrict (WorkBelow rank)).Reachable s) :
    ((system methods objects).restrict fun _ e => e.isInternal = true).Ends
      (fun _ => True) (Able methods) Idle s := by
  have hbelow : Below rank s := h.invariant
    (fun _ hs b cur hcur => by cases hs; cases hcur)
    fun _ _ _ _ hb hs => hb.step hmethods hs.1 (stepped_of_next hs.2)
  refine TransitionSystem.Ends.of_wellFounded
    Stage.smaller_wf.cutExpand (load rank)
      (P := fun s => Told methods objects s ∧ Below rank s) ?_ ?_ ?_ ?_
    ⟨told_of_reachable h.of_restrict, hbelow⟩
  · rintro s e s' ⟨ht, hbelow⟩ ⟨he, hstep⟩
    have hstepped := stepped_of_next hstep
    refine ⟨ht.step hstepped, hbelow.step hmethods ?_ hstepped⟩
    cases e with
    | work => cases he
    | _ => trivial
  · rintro s ⟨ht, hbelow⟩ hidle
    by_contra hstuck
    exact hidle (idle_of_below ht hbelow hstuck)
  · rintro s e s' ⟨ht, hbelow⟩ - - ⟨he, hstep⟩
    exact load_step hbelow (stepped_of_next hstep) he
  · exact fun _ _ _ _ _ hown => absurd trivial hown

end Ranked

/-! ### Calls in a circle -/

section Circle

variable [DecidableEq B] {methods : B → Methods B M S V}
  {objects : B → Callable M S}
  {s s' : CallSystem B T M S V} {e : CallEvent B T M S V} {D : Set B}

/-- What steps leave of blocks that wait for each other, and of the threads that
have called them. -/
structure Kept (D : Set B) (s s' : CallSystem B T M S V) : Prop where
  current : ∀ b ∈ D, (s'.actors b).current = (s.actors b).current
  pending : ∀ b ∈ D, ∀ call ∈ (s.actors b).pending, call ∈ (s'.actors b).pending
  threads : ∀ t a, ∀ b ∈ D, s.threads t = some (a, b) → s.received a = none →
    s'.threads t = some (a, b)

/-- No reply comes to a call that waits at one of the blocks. -/
theorem Kept.unreplied (hkept : Kept D s s') (ht : Told methods objects s)
    (ht' : Told methods objects s') {caller : B ⊕ T} {a : Nat} {b : B}
    {m : CallableMessage V} (hb : b ∈ D)
    (hcalled : .called a caller b m ∈ s.history) (hr : s.received a = none) :
    s'.received a = none := by
  rcases ht.place hcalled with ⟨r, hr'⟩ | hpending
  · rw [hr] at hr'
    cases hr'
  · exact ht'.pending_unreplied (hkept.pending b hb _ hpending)

theorem Kept.locked (hkept : Kept D s s') (ht : Told methods objects s)
    (ht' : Told methods objects s') (hlocked : Locked D s) : Locked D s' := by
  intro b hb
  obtain ⟨task, exchanges, a, c, m, next, hcur, hc, hr⟩ := hlocked b hb
  refine ⟨task, exchanges, a, c, m, next,
    (hkept.current b hb).trans hcur, hc, ?_⟩
  exact hkept.unreplied ht ht' hc (ht.asked b _ _ _ _ _ _ hcur) hr

theorem Kept.trans {s'' : CallSystem B T M S V} (hkept : Kept D s s')
    (hkept' : Kept D s' s'') (ht : Told methods objects s)
    (ht' : Told methods objects s') : Kept D s s'' where
  current b hb := (hkept'.current b hb).trans (hkept.current b hb)
  pending b hb call hcall :=
    hkept'.pending b hb call (hkept.pending b hb call hcall)
  threads t a b hb hthread hr := by
    obtain ⟨m, hcalled⟩ := ht.waits t a b hthread
    exact hkept'.threads t a b hb (hkept.threads t a b hb hthread hr)
      (hkept.unreplied ht ht' hb hcalled hr)

variable [DecidableEq T]

/-- An actor that is locked gets messages, and that is all. -/
theorem locked_actor (hlocked : Locked D s) (h : Stepped methods s e s') {b : B}
    (hb : b ∈ D) :
    (s'.actors b).current = (s.actors b).current ∧
    (s.actors b).mailbox <+: (s'.actors b).mailbox := by
  obtain ⟨task, exchanges, a, c, m, next, hcur, -, hr⟩ := hlocked b hb
  cases h with
  | call =>
      simp only [post_actors]
      exact ⟨trivial, _, rfl⟩
  | @handle d m' a' rest hcur' hmail =>
      rw [setActor_actors]
      split
      · rename_i hd
        rw [← hd, hcur] at hcur'
        cases hcur'
      · exact ⟨rfl, List.prefix_rfl⟩
  | @work d code hcur' =>
      rw [setActor_actors]
      split
      · rename_i hd
        rw [← hd, hcur] at hcur'
        cases hcur'
      · exact ⟨rfl, List.prefix_rfl⟩
  | @ask d task' exchanges' o e name args rest hcur' =>
      rw [post_actors, setActor_actors]
      split
      · rename_i hd
        rw [← hd, hcur] at hcur'
        cases hcur'
      · exact ⟨rfl, _, rfl⟩
  | @resume d task' exchanges' a' e m' r rest hcur' hr' =>
      simp only [setActor_actors]
      split
      · rename_i hd
        rw [← hd, hcur] at hcur'
        cases hcur'
        rw [hr] at hr'
        cases hr'
      · exact ⟨rfl, List.prefix_rfl⟩
  | @finish d task' exchanges' o outcome hcur' =>
      rw [finish_actors]
      split
      · rename_i hd
        rw [← hd, hcur] at hcur'
        cases hcur'
      · exact ⟨rfl, List.prefix_rfl⟩
  | wake => exact ⟨rfl, List.prefix_rfl⟩

theorem kept_of_stepped (hlocked : Locked D s) (h : Stepped methods s e s') :
    Kept D s s' where
  current b hb := (locked_actor hlocked h hb).1
  pending b hb call hcall := by
    obtain ⟨hcur, hmail⟩ := locked_actor hlocked h hb
    rw [CallActor.pending] at hcall ⊢
    rw [hcur]
    rcases List.mem_append.mp hcall with hcall | hcall
    · exact List.mem_append_left _ hcall
    · exact List.mem_append_right _ (hmail.subset hcall)
  threads t a b hb hthread hr := by
    cases h with
    | @call t' c name args hnone =>
        have hne : t ≠ t' := fun heq => by
          rw [heq, hnone] at hthread
          cases hthread
        exact (Function.update_of_ne hne ..).trans hthread
    | @wake t' a' c r hthread' hr' =>
        have hne : t ≠ t' := fun heq => by
          rw [heq, hthread'] at hthread
          cases hthread
          rw [hr] at hr'
          cases hr'
        exact (Function.update_of_ne hne ..).trans hthread
    | handle => exact hthread
    | work => exact hthread
    | ask => exact hthread
    | resume => exact hthread
    | finish => exact hthread

theorem kept_steps (h : (system methods objects).Reachable s)
    (hlocked : Locked D s) (hsteps : (system methods objects).Steps s s') :
    Kept D s s' ∧ Locked D s' := by
  have ht := told_of_reachable h
  induction hsteps with
  | refl => exact ⟨⟨fun _ _ =>
      rfl, fun _ _ _ hcall => hcall, fun _ _ _ _ ht _ => ht⟩, hlocked⟩
  | tail hsteps hstep ih =>
      obtain ⟨e, hstep⟩ := hstep
      obtain ⟨hkept, hlocked'⟩ := ih
      have ht' := told_of_reachable (h.of_steps hsteps)
      have hstepped := stepped_of_next hstep
      have hkept' := kept_of_stepped hlocked' hstepped
      exact ⟨hkept.trans hkept' ht ht',
        hkept'.locked ht' (ht'.step hstepped) hlocked'⟩

/-- **A circle is for ever.**  Blocks that wait for each other do so in every
later state, their calls get no reply, and the threads that have called them do
not return.

Nothing is assumed of the steps in between: other calls may come and go, other
blocks may work, and the circle may be of any length, one block that calls
itself included. -/
theorem locked_forever (h : (system methods objects).Reachable s)
    (hlocked : Locked D s) (hsteps : (system methods objects).Steps s s') :
    (∀ b ∈ D, (s'.actors b).current = (s.actors b).current ∧
      ∀ call ∈ (s.actors b).pending, s'.received call.2 = none) ∧
    ∀ t a, ∀ b ∈ D, s.threads t = some (a, b) → s.received a = none →
      s'.threads t = some (a, b) := by
  obtain ⟨hkept, -⟩ := kept_steps h hlocked hsteps
  have ht' := told_of_reachable (h.of_steps hsteps)
  exact ⟨fun b hb => ⟨hkept.current b hb, fun call hcall =>
    ht'.pending_unreplied (hkept.pending b hb call hcall)⟩, hkept.threads⟩

/-- **Calls stop in a circle only.**  If nothing can be done about the calls
that are under way then there are any exactly if some blocks wait for each
other.

Nothing can be done means that no turn and no thread can go on although a worker
is free: in the code, calls also stop when every worker of the pool waits for a
reply. -/
theorem stuck_iff_locked (h : (system methods objects).Reachable s)
    (hstuck : ¬ Able methods s) :
    ¬ Idle s ↔ ∃ D : Set B, D.Nonempty ∧ Locked D s := by
  have ht := told_of_reachable h
  constructor
  · intro hbusy
    refine ⟨{b | (s.actors b).current ≠ none}, ?_, ?_⟩
    · by_contra hnone
      refine hbusy (idle_of_not_able ht hstuck fun b => ?_)
      by_contra hcur
      exact hnone ⟨b, hcur⟩
    · intro b hb
      obtain ⟨cur, hcur⟩ := Option.ne_none_iff_exists'.mp hb
      obtain ⟨task, exchanges, a, c, m, next, rfl, hc, hr⟩ :=
        waits_of_not_able ht hstuck hcur
      exact ⟨task, exchanges, a, c, m, next, hcur, hc, hr⟩
  · rintro ⟨D, ⟨b, hb⟩, hlocked⟩ hidle
    obtain ⟨task, exchanges, a, c, m, next, hcur, -, -⟩ := hlocked b hb
    rw [hidle.current b] at hcur
    cases hcur

end Circle

end CallSystem

/-! ### Two blocks -/

/-- The code of a block only calls the one with the value. -/
theorem fooMethods_below (b : Bool) (m : FooMethod) (args : List Nat)
    (o : Callable FooMethod Nat) :
    (fooMethods b m args o).Below Bool.toNat b.toNat := by
  cases b <;> cases m
  case true.bumpFoo =>
    refine ⟨Nat.zero_lt_one, fun r => ?_⟩
    cases r with
    | ok foo => exact ⟨Nat.zero_lt_one, fun _ => trivial⟩
    | error what => trivial
  all_goals trivial

theorem workBelow_of_plain {rank : Bool → Nat}
    (s : CallSystem Bool Bool FooMethod Nat Nat)
    (e : CallEvent Bool Bool FooMethod Nat Nat) (he : e.isPlain = true) :
    CallSystem.WorkBelow rank s e := by
  cases e with
  | work => cases he
  | _ => trivial

/-- The calls of two threads that are under way at the same time. -/
theorem calls_return_fooRun : ∃ s,
    TransitionSystem.runRestricted (fun _ e => CallEvent.isPlain e = true)
      (CallSystem.next fooMethods) (fooRun.take 7)
      (CallSystem.initial fooObjects) = some s ∧
    (s.threads false).isSome = true ∧ (s.threads true).isSome = true ∧
    ((CallSystem.system fooMethods fooObjects).restrict
      fun _ e => e.isInternal = true).Ends (fun _ => True)
        (CallSystem.Able fooMethods)
        CallSystem.Idle s :=
  ⟨_, rfl, rfl, rfl, CallSystem.calls_return fooMethods_below
    (.of_stronger_events workBelow_of_plain (fooRun.take 7) (.init rfl) rfl)⟩

/-- A block that calls one of its own methods while it works, and a thread that
calls it. -/
def ownCall : List (CallEvent Bool Bool FooMethod Nat Nat) :=
  [.work true fun o => .call o true "bump_foo" [] fun _ => .done o (.ok none),
    .ask true, .call false true "bump_foo" []]

theorem locked_ownCall {s : CallSystem Bool Bool FooMethod Nat Nat}
    (h : TransitionSystem.runEvents (CallSystem.next fooMethods) ownCall
      (CallSystem.initial fooObjects) = .ok s) :
    (CallSystem.system fooMethods fooObjects).Reachable s ∧ s.Locked {true} ∧
      s.threads false = some (1, true) ∧ s.received 1 = none := by
  have hreach : (CallSystem.system fooMethods fooObjects).Reachable s :=
    .of_events ownCall (.init rfl) h
  cases h
  refine ⟨hreach, fun b hb => ?_, rfl, rfl⟩
  cases hb
  exact ⟨_, _, _, _, _, _, rfl, rfl, rfl⟩

/-- The thread never returns. -/
theorem locked_forever_ownCall : ∃ s,
    TransitionSystem.runEvents (CallSystem.next fooMethods) ownCall
      (CallSystem.initial fooObjects) = .ok s ∧
    ∀ s', (CallSystem.system fooMethods fooObjects).Steps s s' →
      s'.threads false = some (1, true) := by
  refine ⟨_, rfl, fun s' hsteps => ?_⟩
  obtain ⟨hreach, hlocked, hthread, hr⟩ := locked_ownCall rfl
  exact (CallSystem.locked_forever hreach hlocked hsteps).2 _ _ true
    rfl hthread hr

/-- Nothing is left to do about the two calls. -/
theorem stuck_iff_locked_ownCall : ∃ s,
    TransitionSystem.runEvents (CallSystem.next fooMethods) ownCall
      (CallSystem.initial fooObjects) = .ok s ∧
    (¬ s.Idle ↔ ∃ D : Set Bool, D.Nonempty ∧ s.Locked D) := by
  refine ⟨_, rfl, CallSystem.stuck_iff_locked (locked_ownCall rfl).1 ?_⟩
  rintro ⟨e, s', he, h⟩
  cases e with
  | call => cases he
  | work => cases he
  | handle b => cases b <;> cases h
  | ask b => cases b <;> cases h
  | resume b => cases b <;> cases h
  | finish b => cases b <;> cases h
  | wake t => cases t <;> cases h

end Gras
