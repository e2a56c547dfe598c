import Gras.Calls.RemoteCalls
import Mathlib.Data.List.Nodup

/-!
# Calls are as if one after the other

However the threads and the actors interleave, each block goes through the turns
of its actor one after the other: a call takes effect as a whole between the
moment it is made and the moment it returns, in the order in which the messages
of its block were sent, and the caller gets what that turn came to.  Turns that
call other blocks are no exception: the object does not change while its actor
waits.
-/

namespace Gras

variable {B T M S V : Type}

/-- `code.Reaches exchanges code'`: with those results of its calls, the code
gets there. -/
inductive Body.Reaches (code : Body B (Callable M S) V) :
    List (Exchange B V) → Body B (Callable M S) V → Prop where
  | start : Reaches code [] code
  | answer {es : List (Exchange B V)} {o : Callable M S} {c : B} {name : String}
      {args : List V} {next : CallResult V → Body B (Callable M S) V}
      (a : Nat) (r : CallResult V) :
      Reaches code es (.call o c name args next) →
      Reaches code (es ++ [⟨a, c, { key := name, args }, r⟩]) (next r)

/-- The turns take the one object to the other, each as a whole. -/
inductive Replays (methods : Methods B M S V) (o : Callable M S) :
    List (Turn B M S V) → Callable M S → Prop where
  | none : Replays methods o [] o
  | turn {turns : List (Turn B M S V)} {o' o'' : Callable M S}
    {t : Turn B M S V} :
      Replays methods o turns o' →
      (t.task.start methods o').Reaches t.exchanges (.done o'' t.outcome) →
      Replays methods o (turns ++ [t]) o''

/-- A turn under way that began with that object. -/
def Current.From (methods : Methods B M S V) (o : Callable M S)
    (cur : Current B M S V) : Prop :=
  match cur.state with
  | .running code => (cur.task.start methods o).Reaches cur.exchanges code
  | .waiting _ c m next => ∃ o' name args, m = { key := name, args } ∧
      (cur.task.start methods o).Reaches cur.exchanges
      (.call o' c name args next)

/-- The turns before have left the object; a turn under way began with it. -/
structure CallActor.At (methods : Methods B M S V) (o : Callable M S)
    (x : CallActor B M S V) : Prop where
  idle : x.current = none → x.object = o
  turn : ∀ cur, x.current = some cur → cur.From methods o

theorem CallActor.At.of_turn {methods : Methods B M S V} {o : Callable M S}
    {x : CallActor B M S V} {cur : Current B M S V}
    (hcur : x.current = some cur) (hfrom : cur.From methods o) :
    x.At methods o where
  idle hnone := by rw [hcur] at hnone; cases hnone
  turn cur' hsome := by rw [hcur] at hsome; cases hsome; exact hfrom

/-! ### What a history says -/

namespace Moment

/-- The receiver of a call that is made. -/
def receiver : Moment B T M S V → Option Nat
  | called a _ _ _ => some a
  | _ => none

variable [DecidableEq B]

/-- A call of the block. -/
def callOn (b : B) : Moment B T M S V → Option (CallableMessage V × Nat)
  | called a _ c m => if c = b then some (m, a) else none
  | _ => none

/-- A turn of the block. -/
def turnOn (b : B) : Moment B T M S V → Option (Turn B M S V)
  | finished c turn => if c = b then some turn else none
  | _ => none

end Moment

section Histories

/-- Two calls have two receivers. -/
theorem called_unique {h : List (Moment B T M S V)} {n : Nat}
    (hfresh : h.filterMap Moment.receiver = List.range n)
    {x y : Moment B T M S V} {a : Nat} (hx : x ∈ h) (hy : y ∈ h)
    (hxa : x.receiver = some a) (hya : y.receiver = some a) :
    x = y := by
  have hnodup : (h.filterMap Moment.receiver).Nodup := hfresh ▸ List.nodup_range
  clear hfresh
  induction h with
  | nil => cases hx
  | cons z h ih =>
      have hin : ∀ w ∈ h, w.receiver = some a →
          a ∈ h.filterMap Moment.receiver :=
        fun w hw hwa => List.mem_filterMap.mpr ⟨w, hw, hwa⟩
      have htail : (h.filterMap Moment.receiver).Nodup := by
        cases hz : z.receiver with
        | none => rwa [List.filterMap_cons_none hz] at hnodup
        | some i =>
            rw [List.filterMap_cons_some hz] at hnodup
            exact hnodup.of_cons
      have hhead : ∀ w ∈ h, w.receiver = some a → z.receiver ≠ some a := by
        intro w hw hwa hz
        rw [List.filterMap_cons_some hz] at hnodup
        exact (List.nodup_cons.mp hnodup).1 (hin w hw hwa)
      rcases List.mem_cons.mp hx with rfl | hx' <;>
        rcases List.mem_cons.mp hy with rfl | hy'
      · rfl
      · exact absurd hxa (hhead y hy' hya)
      · exact absurd hya (hhead x hx' hxa)
      · exact ih hx' hy' htail

variable [DecidableEq B]

/-- The calls of a block, as they were sent. -/
def callsOn (b : B) (h : List (Moment B T M S V)) :
    List (CallableMessage V × Nat) :=
  h.filterMap (Moment.callOn b)

/-- The turns of a block that are over. -/
def turnsOn (b : B) (h : List (Moment B T M S V)) : List (Turn B M S V) :=
  h.filterMap (Moment.turnOn b)

/-- The calls of a block that its turns have handled. -/
def answeredOn (b : B) (h : List (Moment B T M S V)) :
    List (CallableMessage V × Nat) :=
  (turnsOn b h).flatMap fun t => t.task.calls

variable {b c : B} {h : List (Moment B T M S V)} {a : Nat} {caller : B ⊕ T}
  {m : CallableMessage V} {r : CallResult V} {t : Turn B M S V}

@[simp] theorem callsOn_called : callsOn b (h ++ [Moment.called a caller c m]) =
    callsOn b h ++ if b = c then [(m, a)] else [] := by
  by_cases hc : b = c
  · subst hc
    simp [callsOn, Moment.callOn]
  · simp [callsOn, Moment.callOn, hc, Ne.symm hc]

@[simp] theorem callsOn_finished :
    callsOn b (h ++ [Moment.finished c t]) = callsOn b h :=
  by simp [callsOn, Moment.callOn]

@[simp] theorem callsOn_returned :
    callsOn b (h ++ [Moment.returned a caller r]) = callsOn b h :=
  by simp [callsOn, Moment.callOn]

@[simp] theorem turnsOn_called :
    turnsOn b (h ++ [Moment.called a caller c m]) = turnsOn b h :=
  by simp [turnsOn, Moment.turnOn]

@[simp] theorem turnsOn_returned :
    turnsOn b (h ++ [Moment.returned a caller r]) = turnsOn b h :=
  by simp [turnsOn, Moment.turnOn]

theorem turnsOn_finished_self :
    turnsOn b (h ++ [Moment.finished b t]) = turnsOn b h ++ [t] :=
  by simp [turnsOn, Moment.turnOn]

theorem turnsOn_finished_ne (hc : b ≠ c) :
    turnsOn b (h ++ [Moment.finished c t]) = turnsOn b h := by
  simp [turnsOn, Moment.turnOn, hc.symm]

@[simp] theorem answeredOn_called :
    answeredOn b (h ++ [Moment.called a caller c m]) = answeredOn b h := by
  rw [answeredOn, turnsOn_called, answeredOn]

@[simp] theorem answeredOn_returned :
    answeredOn b (h ++ [Moment.returned a caller r]) = answeredOn b h := by
  rw [answeredOn, turnsOn_returned, answeredOn]

theorem answeredOn_finished_self :
    answeredOn b (h ++ [Moment.finished b t]) =
      answeredOn b h ++ t.task.calls := by
  simp [answeredOn, turnsOn_finished_self]

theorem answeredOn_finished_ne (hc : b ≠ c) :
    answeredOn b (h ++ [Moment.finished c t]) = answeredOn b h := by
  rw [answeredOn, turnsOn_finished_ne hc, answeredOn]

theorem mem_callsOn : (m, a) ∈ callsOn b h ↔
      ∃ caller, .called a caller b m ∈ h := by
  unfold callsOn
  rw [List.mem_filterMap]
  constructor
  · rintro ⟨x, hx, hxm⟩
    cases x with
    | called a' caller c m' =>
        simp only [Moment.callOn] at hxm
        split at hxm
        · cases hxm
          subst c
          exact ⟨caller, hx⟩
        · cases hxm
    | finished c t => cases hxm
    | returned a' caller r => cases hxm
  · rintro ⟨caller, hx⟩
    exact ⟨_, hx, if_pos rfl⟩

theorem mem_turnsOn : t ∈ turnsOn b h ↔ .finished b t ∈ h := by
  unfold turnsOn
  rw [List.mem_filterMap]
  constructor
  · rintro ⟨x, hx, hxt⟩
    cases x with
    | finished c t' =>
        simp only [Moment.turnOn] at hxt
        split at hxt
        · cases hxt
          subst c
          exact hx
        · cases hxt
    | called a' caller c m' => cases hxt
    | returned a' caller r => cases hxt
  · intro hx
    exact ⟨_, hx, if_pos rfl⟩

end Histories

/-- The calls at an actor: the one it handles, and those in the mailbox. -/
def CallActor.pending (x : CallActor B M S V) :
    List (CallableMessage V × Nat) :=
  x.current.elim [] (fun cur => cur.task.calls) ++ x.mailbox

/-! ### The invariant -/

namespace CallSystem

variable [DecidableEq B]

theorem pending_post (s : CallSystem B T M S V) (caller : B ⊕ T) (c : B)
    (m : CallableMessage V) (b : B) :
    ((s.post caller c m).actors b).pending =
      (s.actors b).pending ++ if b = c then [(m, s.receivers)] else [] := by
  rw [post_actors, CallActor.pending, CallActor.pending, List.append_assoc]

/-- A change that leaves the calls at an actor alone. -/
theorem pending_setActor {s : CallSystem B T M S V} {c : B}
    {x : CallActor B M S V} (hx : x.pending = (s.actors c).pending) (b : B) :
    ((s.setActor c x).actors b).pending = (s.actors b).pending := by
  rw [setActor_actors]
  by_cases hb : b = c
  · rw [if_pos hb, hx, hb]
  · rw [if_neg hb]

/-- The history tells what the actors, the receivers and the threads are
about. -/
structure Told (methods : B → Methods B M S V) (objects : B → Callable M S)
    (s : CallSystem B T M S V) : Prop where
  fresh : s.history.filterMap Moment.receiver = List.range s.receivers
  order : ∀ b, callsOn b s.history =
    answeredOn b s.history ++ (s.actors b).pending
  replay : ∀ b, ∃ o, Replays (methods b) (objects b) (turnsOn b s.history) o ∧
    (s.actors b).At (methods b) o
  replied : ∀ a r, s.received a = some r → ∃ b m exchanges outcome,
    .finished b ⟨.callable m a, exchanges, outcome⟩ ∈ s.history ∧
    r = m.reply outcome
  kept : ∀ b m a exchanges outcome,
    .finished b ⟨.callable m a, exchanges, outcome⟩ ∈ s.history →
    (s.received a).isSome = true
  asked : ∀ b task exchanges a c m next,
    (s.actors b).current =
        some { task, exchanges, state := .waiting a c m next } →
      .called a (.inl b) c m ∈ s.history
  waits : ∀ t a c, s.threads t = some (a, c) →
    ∃ m, .called a (.inr t) c m ∈ s.history
  exchanged : ∀ b cur, (s.actors b).current = some cur → ∀ e ∈ cur.exchanges,
    List.Sublist [.called e.receiver (.inl b) e.block e.message,
      .returned e.receiver (.inl b) e.result] s.history
  exchanges : ∀ b turn, .finished b turn ∈ s.history → ∀ e ∈ turn.exchanges,
    List.Sublist [.called e.receiver (.inl b) e.block e.message,
      .returned e.receiver (.inl b) e.result, .finished b turn] s.history
  finished : ∀ b turn, .finished b turn ∈ s.history → ∀ call ∈ turn.task.calls,
    ∃ caller, List.Sublist
      [.called call.2 caller b call.1, .finished b turn] s.history
  returned : ∀ a caller r, .returned a caller r ∈ s.history →
    ∃ b m exchanges outcome, List.Sublist
        [.called a caller b m, .finished b ⟨.callable m a, exchanges, outcome⟩,
      .returned a caller r] s.history ∧ r = CallableMessage.seen outcome

variable {methods : B → Methods B M S V} {objects : B → Callable M S}
  {s s' : CallSystem B T M S V} {e : CallEvent B T M S V}

theorem Told.initial :
    Told methods objects (initial objects : CallSystem B T M S V) where
  fresh := rfl
  order _ := rfl
  replay _ := ⟨_, .none, fun _ => rfl, fun _ h => by cases h⟩
  replied _ _ h := by cases h
  kept _ _ _ _ _ h := by cases h
  asked _ _ _ _ _ _ _ h := by cases h
  waits _ _ _ h := by cases h
  exchanged _ _ h := by cases h
  exchanges _ _ h := by cases h
  finished _ _ h := by cases h
  returned _ _ _ h := by cases h

/-- What is in the history stays there. -/
theorem history_step [DecidableEq T] (h : Stepped methods s e s') :
    s.history <+: s'.history := by
  cases h with
  | call => exact ⟨_, rfl⟩
  | handle => exact List.prefix_rfl
  | work => exact List.prefix_rfl
  | ask => exact ⟨_, rfl⟩
  | resume => exact ⟨_, rfl⟩
  | finish => exact ⟨_, rfl⟩
  | wake => exact ⟨_, rfl⟩

section Steps

variable [DecidableEq T] (ht : Told methods objects s)
  (h : Stepped methods s e s')

include ht h

theorem fresh_step :
    s'.history.filterMap Moment.receiver = List.range s'.receivers := by
  have hfresh := ht.fresh
  cases h with
  | call => simp [Moment.receiver, hfresh, List.range_succ]
  | handle => exact hfresh
  | work => exact hfresh
  | ask => simp [Moment.receiver, hfresh, List.range_succ]
  | resume => simp [Moment.receiver, hfresh]
  | finish => simp [Moment.receiver, hfresh]
  | wake => simp [Moment.receiver, hfresh]

/-- The mailbox of a block is first in, first out. -/
theorem order_step (b : B) :
    callsOn b s'.history = answeredOn b s'.history ++
      (s'.actors b).pending := by
  have horder := ht.order b
  cases h with
  | call =>
      have hpending := pending_post s
      simp only [post_history, callsOn_called, answeredOn_called, hpending,
        horder, List.append_assoc]
  | handle hcur hmail =>
      rw [setActor_history, horder, pending_setActor]
      simp [CallActor.pending, hcur, hmail, Task.calls]
  | work hcur =>
      rw [setActor_history, horder, pending_setActor]
      simp [CallActor.pending, hcur, Task.calls]
  | ask hcur =>
      rw [post_history, callsOn_called, answeredOn_called, pending_post,
        setActor_history, horder, List.append_assoc, pending_setActor]
      simp [CallActor.pending, hcur]
  | resume hcur =>
      simp only [callsOn_returned, answeredOn_returned]
      rw [horder, pending_setActor]
      simp [CallActor.pending, hcur]
  | @finish c task exchanges o outcome hcur =>
      rw [finish_history, callsOn_finished, horder, finish_actors]
      by_cases hb : b = c
      · subst hb
        rw [answeredOn_finished_self, if_pos rfl]
        simp [CallActor.pending, hcur]
      · rw [answeredOn_finished_ne hb, if_neg hb]
  | wake => simpa using horder

/-- The object changes only by the turns of its actor. -/
theorem replay_step (b : B) :
    ∃ o, Replays (methods b) (objects b) (turnsOn b s'.history) o ∧
      (s'.actors b).At (methods b) o := by
  obtain ⟨o, hreplay, hat⟩ := ht.replay b
  cases h with
  | call =>
      refine ⟨o, by simpa using hreplay, ?_⟩
      simp only [post_actors]
      exact ⟨hat.idle, hat.turn⟩
  | @handle c m a rest hcur hmail =>
      refine ⟨o, hreplay, ?_⟩
      rw [setActor_actors]
      by_cases hb : b = c
      · subst hb
        rw [if_pos rfl, hat.idle hcur]
        exact .of_turn rfl .start
      · rwa [if_neg hb]
  | @work c code hcur =>
      refine ⟨o, hreplay, ?_⟩
      rw [setActor_actors]
      by_cases hb : b = c
      · subst hb
        rw [if_pos rfl, hat.idle hcur]
        exact .of_turn rfl .start
      · rwa [if_neg hb]
  | @ask c task exchanges o' d name args rest hcur =>
      refine ⟨o, by simpa using hreplay, ?_⟩
      rw [post_actors, setActor_actors]
      by_cases hb : b = c
      · subst hb
        rw [if_pos rfl]
        exact .of_turn rfl ⟨o', name, args, rfl, hat.turn _ hcur⟩
      · rw [if_neg hb]
        exact ⟨hat.idle, hat.turn⟩
  | @resume c task exchanges a d m r rest hcur hr =>
      refine ⟨o, by simpa using hreplay, ?_⟩
      rw [setActor_actors]
      by_cases hb : b = c
      · subst hb
        obtain ⟨o', name, args, rfl, hreaches⟩ := hat.turn _ hcur
        rw [if_pos rfl]
        exact .of_turn rfl (hreaches.answer a r.result)
      · rwa [if_neg hb]
  | @finish c task exchanges o' outcome hcur =>
      rw [finish_history, finish_actors]
      by_cases hb : b = c
      · subst hb
        rw [turnsOn_finished_self, if_pos rfl]
        exact ⟨o', .turn hreplay (hat.turn _ hcur), fun _ => rfl,
          fun _ hsome => by cases hsome⟩
      · rw [turnsOn_finished_ne hb, if_neg hb]
        exact ⟨o, hreplay, hat⟩
  | wake => exact ⟨o, by simpa using hreplay, hat⟩

/-- A reply comes from the turn that handled the call. -/
theorem replied_step (a : Nat) (r : CallableMessage V)
    (hr : s'.received a = some r) :
    ∃ b m exchanges outcome,
      .finished b ⟨.callable m a, exchanges, outcome⟩ ∈ s'.history ∧
      r = m.reply outcome := by
  have hold : s.received a = some r → ∃ b m exchanges outcome,
      .finished b ⟨.callable m a, exchanges, outcome⟩ ∈ s'.history ∧
      r = m.reply outcome := by
    intro hr
    obtain ⟨b, m, exchanges, outcome, hmem, hr⟩ := ht.replied a r hr
    exact ⟨b, m, exchanges, outcome, (history_step h).subset hmem, hr⟩
  cases h with
  | @finish c task exchanges o outcome hcur =>
      rcases (finish_received ..).mp hr with ⟨m, htask, hreply⟩ | ⟨hr, -⟩
      · cases htask
        exact ⟨c, m, exchanges, outcome, by simp, hreply⟩
      · exact hold hr
  | call => exact hold hr
  | handle => exact hold hr
  | work => exact hold hr
  | ask => exact hold hr
  | resume => exact hold hr
  | wake => exact hold hr

/-- The reply to a call that has been handled is there. -/
theorem kept_step (b : B) (m : CallableMessage V) (a : Nat)
    (exchanges : List (Exchange B V)) (outcome : CallOutcome V)
    (hmem : .finished b ⟨.callable m a, exchanges, outcome⟩ ∈ s'.history) :
    (s'.received a).isSome = true := by
  have hkept := ht.kept b m a exchanges outcome
  cases h with
  | @finish c task exchanges' o outcome' hcur =>
      rw [Option.isSome_iff_exists]
      by_cases htask : ∃ m', task = .callable m' a
      · obtain ⟨m', rfl⟩ := htask
        exact ⟨_, (finish_received ..).mpr (.inl ⟨m', rfl, rfl⟩)⟩
      · have hother : ∀ m', task ≠ .callable m' a :=
          fun m' hm' => htask ⟨m', hm'⟩
        have hbefore : .finished b ⟨.callable m a, exchanges, outcome⟩ ∈
            s.history := by
          simp only [finish_history, List.mem_append, List.mem_singleton,
            Moment.finished.injEq, Turn.mk.injEq] at hmem
          rcases hmem with hmem | ⟨-, htask', -, -⟩
          · exact hmem
          · exact absurd htask'.symm (hother m)
        obtain ⟨r, hr⟩ := Option.isSome_iff_exists.mp (hkept hbefore)
        exact ⟨r, (finish_received ..).mpr (.inr ⟨hr, hother⟩)⟩
  | call => exact hkept (by simpa using hmem)
  | handle => exact hkept hmem
  | work => exact hkept hmem
  | ask => exact hkept (by simpa using hmem)
  | resume => exact hkept (by simpa using hmem)
  | wake => exact hkept (by simpa using hmem)

/-- A turn that waits has made its call. -/
theorem asked_step (b : B) (task : Task B M S V)
    (exchanges : List (Exchange B V)) (a : Nat) (c : B) (m : CallableMessage V)
    (next : CallResult V → Body B (Callable M S) V)
    (hcur : (s'.actors b).current =
      some { task, exchanges, state := .waiting a c m next }) :
    .called a (.inl b) c m ∈ s'.history := by
  cases current_step h hcur with
  | kept hold =>
      exact (history_step h).subset (ht.asked b task exchanges a c m next hold)
  | asked hold hhistory => simp [hhistory]

/-- A thread that waits has made its call. -/
theorem waits_step (t : T) (a : Nat) (c : B)
    (hthread : s'.threads t = some (a, c)) :
    ∃ m, .called a (.inr t) c m ∈ s'.history := by
  have hold : s.threads t = some (a, c) →
      ∃ m, .called a (.inr t) c m ∈ s'.history := by
    intro hthread
    obtain ⟨m, hm⟩ := ht.waits t a c hthread
    exact ⟨m, (history_step h).subset hm⟩
  cases h with
  | @call t' b name args hnone =>
      simp only [Function.update_apply] at hthread
      split at hthread
      · cases hthread
        subst t
        exact ⟨_, List.mem_append_right _ List.mem_cons_self⟩
      · exact hold hthread
  | wake =>
      simp only [Function.update_apply] at hthread
      split at hthread
      · cases hthread
      · exact hold hthread
  | handle => exact hold hthread
  | work => exact hold hthread
  | ask => exact hold hthread
  | resume => exact hold hthread
  | finish => exact hold hthread

/-- The calls of a turn under way were made and have returned. -/
theorem exchanged_step (b : B) (cur : Current B M S V)
    (hcur : (s'.actors b).current = some cur) (x : Exchange B V)
    (hx : x ∈ cur.exchanges) :
    List.Sublist [.called x.receiver (.inl b) x.block x.message,
      .returned x.receiver (.inl b) x.result] s'.history := by
  have hold : ∀ cur₀, (s.actors b).current = some cur₀ → x ∈ cur₀.exchanges →
      List.Sublist [.called x.receiver (.inl b) x.block x.message,
        .returned x.receiver (.inl b) x.result]
          s'.history := fun cur₀ hcur₀ hx =>
    (ht.exchanged b cur₀ hcur₀ x hx).trans (history_step h).sublist
  cases current_step h hcur with
  | kept hcur₀ => exact hold cur hcur₀ hx
  | handled => cases hx
  | worked => cases hx
  | asked hcur₀ => exact hold _ hcur₀ hx
  | resumed hcur₀ hhistory =>
      rcases List.mem_append.mp hx with hx | hx
      · exact hold _ hcur₀ hx
      · cases List.mem_singleton.mp hx
        have hcalled := ht.asked b _ _ _ _ _ _ hcur₀
        rw [hhistory]
        exact (List.singleton_sublist.mpr hcalled).append
          (List.Sublist.refl [_])

/-- The calls of a turn are made and return within it. -/
theorem exchanges_step (b : B) (turn : Turn B M S V)
    (hturn : .finished b turn ∈ s'.history) (x : Exchange B V)
    (hx : x ∈ turn.exchanges) :
    List.Sublist [.called x.receiver (.inl b) x.block x.message,
      .returned x.receiver (.inl b) x.result, .finished b turn] s'.history := by
  have hold : .finished b turn ∈ s.history →
      List.Sublist [.called x.receiver (.inl b) x.block x.message,
        .returned x.receiver (.inl b) x.result, .finished b turn]
          s'.history := fun hturn =>
    (ht.exchanges b turn hturn x hx).trans (history_step h).sublist
  cases h with
  | @finish d task' exchanges' o outcome hcur' =>
      rw [finish_history, List.mem_append, List.mem_singleton] at hturn
      rcases hturn with hturn | hturn
      · exact hold hturn
      · cases hturn
        exact (ht.exchanged b _ hcur' x hx).append (List.Sublist.refl [_])
  | call => exact hold (by simpa using hturn)
  | handle => exact hold hturn
  | work => exact hold hturn
  | ask => exact hold (by simpa using hturn)
  | resume => exact hold (by simpa using hturn)
  | wake => exact hold (by simpa using hturn)

/-- The call that a turn handles was made before. -/
theorem finished_step (b : B) (turn : Turn B M S V)
    (hturn : .finished b turn ∈ s'.history) (call : CallableMessage V × Nat)
    (hcall : call ∈ turn.task.calls) :
    ∃ caller, List.Sublist [.called call.2 caller b call.1, .finished b turn]
      s'.history := by
  have hold : .finished b turn ∈ s.history →
      ∃ caller, List.Sublist [.called call.2 caller b call.1, .finished b turn]
        s'.history := by
    intro hturn
    obtain ⟨caller, hsub⟩ := ht.finished b turn hturn call hcall
    exact ⟨caller, hsub.trans (history_step h).sublist⟩
  cases h with
  | @finish d task' exchanges' o outcome hcur' =>
      rw [finish_history, List.mem_append, List.mem_singleton] at hturn
      rcases hturn with hturn | hturn
      · exact hold hturn
      · cases hturn
        have hpending : call ∈ callsOn b s.history := by
          rw [ht.order b]
          simp [CallActor.pending, hcur', hcall]
        obtain ⟨caller, hcalled⟩ := mem_callsOn.mp hpending
        exact ⟨caller,
          (List.singleton_sublist.mpr hcalled).append (List.Sublist.refl [_])⟩
  | call => exact hold (by simpa using hturn)
  | handle => exact hold hturn
  | work => exact hold hturn
  | ask => exact hold (by simpa using hturn)
  | resume => exact hold (by simpa using hturn)
  | wake => exact hold (by simpa using hturn)

/-- What a caller gets is what the turn that handled its call came to. -/
theorem returned_step (a : Nat) (caller : B ⊕ T) (r : CallResult V)
    (hr : .returned a caller r ∈ s'.history) :
    ∃ b m exchanges outcome,
      List.Sublist [.called a caller b m,
        .finished b ⟨.callable m a, exchanges, outcome⟩,
        .returned a caller r] s'.history ∧
        r = CallableMessage.seen outcome := by
  have hold : .returned a caller r ∈ s.history → ∃ b m exchanges outcome,
      List.Sublist [.called a caller b m,
        .finished b ⟨.callable m a, exchanges, outcome⟩,
        .returned a caller r] s'.history ∧
        r = CallableMessage.seen outcome := by
    intro hr
    obtain ⟨b, m, exchanges, outcome, hsub, hseen⟩ := ht.returned a caller r hr
    exact ⟨b, m, exchanges, outcome, hsub.trans (history_step h).sublist, hseen⟩
  -- the receiver of the reply is that of the call that was handled
  have hnew : ∀ c m₀ reply, .called a caller c m₀ ∈ s.history →
      s.received a = some reply →
      r = reply.result →
      s'.history = s.history ++ [Moment.returned a caller r] →
      ∃ b m exchanges outcome,
        List.Sublist [.called a caller b m,
          .finished b ⟨.callable m a, exchanges, outcome⟩,
          .returned a caller r] s'.history ∧
          r = CallableMessage.seen outcome := by
    intro c m₀ reply hcalled hreply hr hhistory
    obtain ⟨b, m, exchanges, outcome, hfinished, rfl⟩ :=
      ht.replied a reply hreply
    obtain ⟨caller', hsub⟩ :=
      ht.finished b _ hfinished (m, a) List.mem_cons_self
    have hsame :=
      called_unique ht.fresh hcalled (hsub.subset List.mem_cons_self) rfl rfl
    cases hsame
    refine ⟨c, m, exchanges, outcome, ?_,
      by rw [hr, CallableMessage.result_reply]⟩
    rw [hhistory]
    exact hsub.append (List.Sublist.refl [_])
  cases h with
  | @resume d task exchanges a' e m reply rest hcur hreply =>
      rw [List.mem_append, List.mem_singleton] at hr
      rcases hr with hr | hr
      · exact hold hr
      · cases hr
        exact hnew _ _ _ (ht.asked d _ _ _ _ _ _ hcur) hreply rfl rfl
  | @wake t a' c reply hthread hreply =>
      rw [List.mem_append, List.mem_singleton] at hr
      rcases hr with hr | hr
      · exact hold hr
      · cases hr
        obtain ⟨m, hcalled⟩ := ht.waits t _ _ hthread
        exact hnew _ _ _ hcalled hreply rfl rfl
  | call => exact hold (by simpa using hr)
  | handle => exact hold hr
  | work => exact hold hr
  | ask => exact hold (by simpa using hr)
  | finish => exact hold (by simpa using hr)

end Steps

/-- Every step keeps the invariant. -/
theorem Told.step [DecidableEq T] (ht : Told methods objects s)
    (h : Stepped methods s e s') : Told methods objects s' where
  fresh := fresh_step ht h
  order := order_step ht h
  replay := replay_step ht h
  replied := replied_step ht h
  kept := kept_step ht h
  asked := asked_step ht h
  waits := waits_step ht h
  exchanged := exchanged_step ht h
  exchanges := exchanges_step ht h
  finished := finished_step ht h
  returned := returned_step ht h

theorem told_of_reachable [DecidableEq T]
    (h : (system methods objects).Reachable s) : Told methods objects s :=
  h.invariant (fun _ hs => hs ▸ .initial) fun _ _ _ _ ht hs =>
    ht.step (stepped_of_next hs)

/-! ### Linearizability -/

/-- Each block goes through whole turns, one after the other, and the callers
see them. -/
structure Linearized (methods : B → Methods B M S V)
    (objects : B → Callable M S) (s : CallSystem B T M S V) : Prop where
  /-- No two calls are one. -/
  once : (s.history.filterMap Moment.receiver).Nodup
  /-- The turns of a block handle its calls in the order in which they were
  sent; the calls that they have not handled are at the actor. -/
  order : ∀ b, callsOn b s.history =
    answeredOn b s.history ++ (s.actors b).pending
  /-- The object of a block between two turns is what the turns, each as a whole,
  make of it. -/
  replay : ∀ b, (s.actors b).current = none →
    Replays (methods b) (objects b) (turnsOn b s.history) (s.actors b).object
  /-- The calls that a turn makes are made and return before it is over. -/
  exchanges : ∀ b turn, .finished b turn ∈ s.history → ∀ e ∈ turn.exchanges,
    List.Sublist [.called e.receiver (.inl b) e.block e.message,
      .returned e.receiver (.inl b) e.result, .finished b turn] s.history
  /-- A call that returns was handled by one turn between its two moments, and
  gives the caller what that turn came to. -/
  returned : ∀ a caller r, .returned a caller r ∈ s.history →
    ∃ b m exchanges outcome, List.Sublist
        [.called a caller b m, .finished b ⟨.callable m a, exchanges, outcome⟩,
      .returned a caller r] s.history ∧ r = CallableMessage.seen outcome

/-- **Calls are linearizable**, whatever the interleaving of threads and actors:
each call takes effect at one moment between its start and its return, on the
object of the block it was made to, and gives back what the callable returned
then.  Calls may be made from inside calls, and by any number of threads at a
time. -/
theorem calls_linearizable [DecidableEq T]
    (h : (system methods objects).Reachable s) :
    Linearized methods objects s := by
  have ht := told_of_reachable h
  refine ⟨ht.fresh ▸ List.nodup_range, ht.order, fun b hidle => ?_,
    ht.exchanges, ht.returned⟩
  obtain ⟨o, hreplay, hat⟩ := ht.replay b
  rwa [hat.idle hidle]

end CallSystem

/-! ### A block that calls another one -/

/-- The methods of two classes, of which one has the other for its store. -/
inductive FooMethod where
  | getFoo
  | setFoo
  | bumpFoo

/-- The code behind them: the block `false` has the value, and `true` adds one
to it. -/
def fooMethods : Bool → Methods Bool FooMethod Nat Nat
  | false, .getFoo, _, c => .done c (.ok (some c.members))
  | false, .setFoo, args, c =>
      .done { c with members := args.headD 0 } (.ok none)
  | true, .bumpFoo, _, c =>
      .call c false "get_foo" [] fun
        | .ok foo =>
            .call c false "set_foo" [foo.getD 0 + 1] fun _ => .done c (.ok none)
        | .error what => .done c (.error (.exception what))
  | _, _, _, c => .done c (.error .other)

/-- Each block with what its constructor registers. -/
def fooObjects : Bool → Callable FooMethod Nat
  | false => .afterOps [.register "get_foo" ⟨0, .getFoo⟩, .register "set_foo" ⟨1, .setFoo⟩] 0
  | true => .afterOps [.register "bump_foo" ⟨0, .bumpFoo⟩] 0

/-- A thread sets the value while the block is between its two calls. -/
def fooRun : List (CallEvent Bool Bool FooMethod Nat Nat) :=
  [.call false true "bump_foo" [], .handle true, .ask true, .handle false,
    .finish false, .call true false "set_foo" [7], .handle false, .finish false,
    .wake true, .resume true, .ask true, .handle false, .finish false,
    .resume true, .finish true, .wake false, .call true false "get_foo" [],
    .handle false, .finish false, .wake true]

/-- The value that a moment gives a caller. -/
def Moment.value : Moment B T M S V → Option (Option V)
  | returned _ _ (.ok v) => some v
  | _ => none

/-- The value of the thread is lost, and every call has its place all the
same. -/
theorem calls_linearizable_fooRun : ∃ s,
    TransitionSystem.runEvents (CallSystem.next fooMethods) fooRun
      (CallSystem.initial fooObjects) = .ok s ∧
    s.history.filterMap Moment.value = [none, some 0, none, none, some 1] ∧
    CallSystem.Linearized fooMethods fooObjects s := by
  refine ⟨_, rfl, by decide, ?_⟩
  exact CallSystem.calls_linearizable (.of_events fooRun (.init rfl) rfl)

end Gras
