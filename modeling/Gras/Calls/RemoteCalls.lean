import Gras.Lib.TransitionSystem
import Gras.Calls.Callable
import Mathlib.Logic.Function.Basic

/-!
# Calls of blocks from other threads

A call of a block is a message to its actor.  The caller makes a receiver of its
own, sends the message with the address of the receiver and blocks until the
reply is there; the actor takes one message after the other and replies with the
value or with the text of the exception.  A handler may itself call a block: it
then blocks inside its turn, and its actor handles nothing before the reply.

A state has the actor of every block `B`, the threads `T` of the user, the
receivers that were made, numbered from zero on, and the messages that have
arrived at them.  The history is there for the statements only: no step reads
it.

What is assumed of the rest of the program:

* A worker thread of the pool is free for each turn that is due.  In the code a
  turn that waits for a reply keeps its worker in `receiver.Wait()`, so this
  asks for as many workers as turns are under way at a time; with fewer of them
  a chain of calls can stop without a circle.
* The methods end: code that runs is a finite `Body`.
* A block keeps its actor, so that its address in a message stays the right one.

An exception with an empty text is no error for the caller, who is given a null
value (`CallableMessage.seen`).
-/

namespace Gras

/-- The message of a call, and that of its reply. -/
structure CallableMessage (V : Type) where
  key : String
  args : List V := []
  ret : Option V := none
  error : String := ""

namespace CallableMessage

variable {V : Type}

/-- The reply of `handle_callable`. -/
def reply (m : CallableMessage V) : CallOutcome V → CallableMessage V
  | .ok ret => { key := m.key, ret }
  | .error (.exception what) => { key := m.key, error := what }
  | .error .other => { key := m.key, error := "unknown error" }

/-- What `Block::_handle_call` makes of the reply. -/
def result (m : CallableMessage V) : CallResult V :=
  if m.error ≠ "" then .error m.error else .ok m.ret

/-- What the caller sees of an outcome: an exception without a text is a null
value. -/
def seen : CallOutcome V → CallResult V
  | .ok ret => .ok ret
  | .error (.exception what) => if what = "" then .ok none else .error what
  | .error .other => .error "unknown error"

theorem result_reply (m : CallableMessage V) (outcome : CallOutcome V) :
    (m.reply outcome).result = seen outcome := by
  cases outcome with
  | ok ret => rfl
  | error thrown =>
      cases thrown with
      | exception what =>
          simp only [reply, result, seen]
          by_cases h : what = "" <;> simp [h]
      | other => rfl

end CallableMessage

section Turns

variable (B M S V : Type)

/-- What a turn of an actor is for. -/
inductive Task where
  /-- It handles a call, whose reply goes to the receiver. -/
  | callable (message : CallableMessage V) (receiver : Nat)
  /-- Another handler runs code of the user. -/
  | other (code : Callable M S → Body B (Callable M S) V)

/-- A call that a turn makes, and its result. -/
structure Exchange where
  receiver : Nat
  block : B
  message : CallableMessage V
  result : CallResult V

/-- Where a turn under way is. -/
inductive TurnState where
  /-- The code is to go on. -/
  | running (code : Body B (Callable M S) V)
  /-- It has called a block and waits for the reply. -/
  | waiting (receiver : Nat) (block : B) (message : CallableMessage V)
      (next : CallResult V → Body B (Callable M S) V)

/-- A turn under way, with the calls that it has made. -/
structure Current where
  task : Task B M S V
  exchanges : List (Exchange B V) := []
  state : TurnState B M S V

/-- A turn that is over. -/
structure Turn where
  task : Task B M S V
  exchanges : List (Exchange B V)
  outcome : CallOutcome V

/-- The actor of a block. -/
structure CallActor where
  object : Callable M S
  mailbox : List (CallableMessage V × Nat) := []
  current : Option (Current B M S V) := none

end Turns

/-- What happens in a run; a caller is a block or a thread. -/
inductive Moment (B T M S V : Type) where
  | called (receiver : Nat) (caller : B ⊕ T) (block : B)
    (message : CallableMessage V)
  | finished (block : B) (turn : Turn B M S V)
  | returned (receiver : Nat) (caller : B ⊕ T) (result : CallResult V)

/-- The blocks, the threads of the user, and what is between them. -/
structure CallSystem (B T M S V : Type) where
  actors : B → CallActor B M S V
  /-- The receiver that a thread waits on, and the block that it has called. -/
  threads : T → Option (Nat × B) := fun _ => none
  receivers : Nat := 0
  received : Nat → Option (CallableMessage V) := fun _ => none
  history : List (Moment B T M S V) := []

/-- A step of a thread or of an actor. -/
inductive CallEvent (B T M S V : Type) where
  /-- A thread calls a block. -/
  | call (thread : T) (block : B) (name : String) (args : List V)
  /-- An actor takes the next call. -/
  | handle (block : B)
  /-- Another handler of the actor runs code of the user. -/
  | work (block : B) (code : Callable M S → Body B (Callable M S) V)
  /-- A turn calls a block. -/
  | ask (block : B)
  /-- A turn goes on with the reply to its call. -/
  | resume (block : B)
  /-- A turn ends. -/
  | finish (block : B)
  /-- A thread goes on with the reply to its call. -/
  | wake (thread : T)

/-- The steps of calls that are under way. -/
def CallEvent.isInternal {B T M S V : Type} : CallEvent B T M S V → Bool
  | call .. => false
  | work .. => false
  | _ => true

/-- A step in which no other handler runs code. -/
def CallEvent.isPlain {B T M S V : Type} : CallEvent B T M S V → Bool
  | work .. => false
  | _ => true

variable {B T M S V : Type}

/-- The code that a turn starts with. -/
def Task.start (methods : Methods B M S V) : Task B M S V → Callable M S →
    Body B (Callable M S) V
  | callable m _, c => c.handleCall methods m.key m.args
  | other code, c => code c

/-- The call that the turn handles. -/
def Task.calls : Task B M S V → List (CallableMessage V × Nat)
  | callable m a => [(m, a)]
  | other _ => []

namespace CallSystem

variable [DecidableEq B]

/-- Another state of an actor. -/
def setActor (b : B) (x : CallActor B M S V) (s : CallSystem B T M S V) :
    CallSystem B T M S V :=
  { s with actors := Function.update s.actors b x }

/-- The first half of `Block::_handle_call`: a new receiver, and a message to
the actor. -/
def post (caller : B ⊕ T) (c : B) (m : CallableMessage V)
    (s : CallSystem B T M S V) : CallSystem B T M S V :=
  { s.setActor c { s.actors c with
      mailbox := (s.actors c).mailbox ++ [(m, s.receivers)] } with
    receivers := s.receivers + 1
    history := s.history ++ [Moment.called s.receivers caller c m] }

/-- The end of a turn: `handle_callable` sends the reply. -/
def finish (b : B) (cur : Current B M S V) (o : Callable M S)
    (outcome : CallOutcome V) (s : CallSystem B T M S V) :
    CallSystem B T M S V :=
  { s.setActor b { s.actors b with object := o, current := none } with
    received :=
      match cur.task with
      | .callable m a => Function.update s.received a (some (m.reply outcome))
      | .other _ => s.received
    history := s.history ++
      [Moment.finished b ⟨cur.task, cur.exchanges, outcome⟩] }

section Fields

variable (s : CallSystem B T M S V)

theorem setActor_actors (b c : B) (x : CallActor B M S V) :
    (s.setActor b x).actors c = if c = b then x else s.actors c :=
  Function.update_apply ..

@[simp] theorem setActor_threads (b : B) (x : CallActor B M S V) :
    (s.setActor b x).threads = s.threads := rfl

@[simp] theorem setActor_receivers (b : B) (x : CallActor B M S V) :
    (s.setActor b x).receivers = s.receivers := rfl

@[simp] theorem setActor_received (b : B) (x : CallActor B M S V) :
    (s.setActor b x).received = s.received := rfl

@[simp] theorem setActor_history (b : B) (x : CallActor B M S V) :
    (s.setActor b x).history = s.history := rfl

/-- A call changes only the mailbox of the actor. -/
theorem post_actors (caller : B ⊕ T) (c : B) (m : CallableMessage V) (b : B) :
    (s.post caller c m).actors b =
      { s.actors b with
        mailbox := (s.actors b).mailbox ++ if b = c then [(m, s.receivers)]
          else [] } := by
  simp only [post, setActor_actors]
  by_cases h : b = c
  · subst h
    simp
  · simp [h]

@[simp] theorem post_threads (caller : B ⊕ T) (c : B) (m : CallableMessage V) :
    (s.post caller c m).threads = s.threads := rfl

@[simp] theorem post_receivers (caller : B ⊕ T) (c : B)
    (m : CallableMessage V) :
    (s.post caller c m).receivers = s.receivers + 1 := rfl

@[simp] theorem post_received (caller : B ⊕ T) (c : B) (m : CallableMessage V) :
    (s.post caller c m).received = s.received := rfl

@[simp] theorem post_history (caller : B ⊕ T) (c : B) (m : CallableMessage V) :
    (s.post caller c m).history =
      s.history ++ [Moment.called s.receivers caller c m] := rfl

variable (cur : Current B M S V) (o : Callable M S) (outcome : CallOutcome V)

theorem finish_actors (b c : B) :
    (s.finish b cur o outcome).actors c =
      if c = b then { s.actors b with object := o, current := none }
        else s.actors c :=
  Function.update_apply ..

@[simp] theorem finish_threads (b : B) :
    (s.finish b cur o outcome).threads = s.threads := rfl

@[simp] theorem finish_receivers (b : B) :
    (s.finish b cur o outcome).receivers = s.receivers := rfl

/-- The reply is there, and nothing else changes at the receivers. -/
theorem finish_received (b : B) (a : Nat) (r : CallableMessage V) :
    (s.finish b cur o outcome).received a = some r ↔
      (∃ m, cur.task = .callable m a ∧ r = m.reply outcome) ∨
      (s.received a = some r ∧ ∀ m, cur.task ≠ .callable m a) := by
  unfold finish
  cases cur.task with
  | callable m a' =>
      by_cases h : a = a'
      · subst h
        simp [eq_comm]
      · simp [h, Ne.symm h]
  | other code => simp

@[simp] theorem finish_history (b : B) :
    (s.finish b cur o outcome).history =
      s.history ++ [Moment.finished b ⟨cur.task, cur.exchanges, outcome⟩] := rfl

end Fields

variable [DecidableEq T]

/-- One step, if it can be taken. -/
def next (methods : B → Methods B M S V) (s : CallSystem B T M S V) :
    CallEvent B T M S V → Except Unit (CallSystem B T M S V)
  | .call t b name args =>
      match s.threads t with
      | some _ => .error ()
      | none =>
          .ok { s.post (.inr t) b { key := name, args } with
            threads := Function.update s.threads t (some (s.receivers, b)) }
  | .handle b =>
      match (s.actors b).current, (s.actors b).mailbox with
      | none, (m, a) :: rest =>
          .ok (s.setActor b { s.actors b with
            mailbox := rest
            current := some {
              task := .callable m a
              state := .running
                ((s.actors b).object.handleCall (methods b) m.key m.args) } })
      | _, _ => .error ()
  | .work b code =>
      match (s.actors b).current with
      | some _ => .error ()
      | none =>
          .ok (s.setActor b { s.actors b with
            current := some {
              task := .other code
              state := .running (code (s.actors b).object) } })
  | .ask b =>
      match (s.actors b).current with
      | some { task, exchanges, state := .running (.call o c name args rest) } =>
          .ok ((s.setActor b { s.actors b with
            object := o
            current := some {
              task, exchanges
              state := .waiting s.receivers c
                { key := name, args } rest } }).post
                (.inl b) c { key := name, args })
      | _ => .error ()
  | .resume b =>
      match (s.actors b).current with
      | some { task, exchanges, state := .waiting a c m rest } =>
          match s.received a with
          | none => .error ()
          | some r =>
              .ok { s.setActor b { s.actors b with
                  current := some {
                    task
                    exchanges := exchanges ++ [⟨a, c, m, r.result⟩]
                    state := .running (rest r.result) } } with
                history := s.history ++ [Moment.returned a (.inl b) r.result] }
      | _ => .error ()
  | .finish b =>
      match (s.actors b).current with
      | some { task, exchanges, state := .running (.done o outcome) } =>
          .ok (s.finish b
            { task, exchanges, state := .running (.done o outcome) } o outcome)
      | _ => .error ()
  | .wake t =>
      match s.threads t with
      | none => .error ()
      | some (a, _) =>
          match s.received a with
          | none => .error ()
          | some r =>
              .ok { s with
                threads := Function.update s.threads t none
                history := s.history ++ [Moment.returned a (.inr t) r.result] }

/-- At first nothing has been called. -/
def initial (objects : B → Callable M S) : CallSystem B T M S V where
  actors b := { object := objects b }

/-- The runs of the calls. -/
abbrev system (methods : B → Methods B M S V) (objects : B → Callable M S) :
    TransitionSystem (CallSystem B T M S V) (CallEvent B T M S V) :=
  TransitionSystem.ofNext (· = initial objects) (next methods)

/-- What a step does. -/
inductive Stepped (methods : B → Methods B M S V) (s : CallSystem B T M S V) :
    CallEvent B T M S V → CallSystem B T M S V → Prop where
  | call {t : T} {b : B} {name : String} {args : List V} :
      s.threads t = none →
      Stepped methods s (.call t b name args)
        { s.post (.inr t) b { key := name, args } with
          threads := Function.update s.threads t (some (s.receivers, b)) }
  | handle {b : B} {m : CallableMessage V} {a : Nat}
    {rest : List (CallableMessage V × Nat)} :
      (s.actors b).current = none → (s.actors b).mailbox = (m, a) :: rest →
      Stepped methods s (.handle b)
        (s.setActor b { s.actors b with
          mailbox := rest
          current := some {
            task := .callable m a
            state := .running ((s.actors b).object.handleCall (methods b) m.key m.args) } })
  | work {b : B} {code : Callable M S → Body B (Callable M S) V} :
      (s.actors b).current = none →
      Stepped methods s (.work b code)
        (s.setActor b { s.actors b with
          current := some { task := .other code, state := .running (code (s.actors b).object) } })
  | ask {b : B} {task : Task B M S V} {exchanges : List (Exchange B V)} {o : Callable M S}
      {c : B} {name : String} {args : List V}
      {rest : CallResult V → Body B (Callable M S) V} :
      (s.actors b).current =
        some { task, exchanges, state := .running (.call o c name args rest) } →
      Stepped methods s (.ask b)
        ((s.setActor b { s.actors b with
          object := o
          current := some {
            task, exchanges
            state := .waiting s.receivers c { key := name, args } rest } }).post
              (.inl b) c { key := name, args })
  | resume {b : B} {task : Task B M S V} {exchanges : List (Exchange B V)}
    {a : Nat} {c : B}
      {m r : CallableMessage V}
      {rest : CallResult V → Body B (Callable M S) V} :
      (s.actors b).current =
        some { task, exchanges, state := .waiting a c m rest } →
      s.received a = some r →
      Stepped methods s (.resume b)
        { s.setActor b { s.actors b with
            current := some {
              task
              exchanges := exchanges ++ [⟨a, c, m, r.result⟩]
              state := .running (rest r.result) } } with
          history := s.history ++ [Moment.returned a (.inl b) r.result] }
  | finish {b : B} {task : Task B M S V} {exchanges : List (Exchange B V)}
    {o : Callable M S}
      {outcome : CallOutcome V} :
      (s.actors b).current = some { task, exchanges, state := .running (.done o outcome) } →
      Stepped methods s (.finish b)
        (s.finish b { task, exchanges, state := .running (.done o outcome) } o outcome)
  | wake {t : T} {a : Nat} {c : B} {r : CallableMessage V} :
      s.threads t = some (a, c) → s.received a = some r →
      Stepped methods s (.wake t)
        { s with
          threads := Function.update s.threads t none
          history := s.history ++ [Moment.returned a (.inr t) r.result] }

theorem stepped_of_next {methods : B → Methods B M S V} {s s' : CallSystem B T M S V}
    {e : CallEvent B T M S V} (h : next methods s e = .ok s') : Stepped methods s e s' := by
  cases e with
  | call t b name args =>
      simp only [next] at h
      split at h
      · cases h
      · cases h
        exact .call ‹_›
  | handle b =>
      simp only [next] at h
      split at h
      · cases h
        exact .handle ‹_› ‹_›
      · cases h
  | work b code =>
      simp only [next] at h
      split at h
      · cases h
      · cases h
        exact .work ‹_›
  | ask b =>
      simp only [next] at h
      split at h
      · cases h
        exact .ask ‹_›
      · cases h
  | resume b =>
      simp only [next] at h
      split at h
      · split at h
        · cases h
        · cases h
          exact .resume ‹_› ‹_›
      · cases h
  | finish b =>
      simp only [next] at h
      split at h
      · cases h
        exact .finish ‹_›
      · cases h
  | wake t =>
      simp only [next] at h
      split at h
      · cases h
      · split at h
        · cases h
        · cases h
          exact .wake ‹_› ‹_›

/-- Where the turn of an actor after a step comes from. -/
inductive CurrentFrom (methods : B → Methods B M S V) (s : CallSystem B T M S V)
    (e : CallEvent B T M S V) (s' : CallSystem B T M S V) (b : B) :
    Current B M S V → Prop where
  | kept {cur : Current B M S V} :
      (s.actors b).current = some cur → CurrentFrom methods s e s' b cur
  | handled {m : CallableMessage V} {a : Nat} :
      CurrentFrom methods s e s' b {
        task := .callable m a
        state := .running
          ((s.actors b).object.handleCall (methods b) m.key m.args) }
  | worked {code : Callable M S → Body B (Callable M S) V} :
      e = .work b code →
      CurrentFrom methods s e s' b {
        task := .other code
        state := .running (code (s.actors b).object) }
  | asked {task : Task B M S V} {exchanges : List (Exchange B V)}
    {o : Callable M S} {c : B}
      {name : String} {args : List V}
      {next : CallResult V → Body B (Callable M S) V} :
      (s.actors b).current =
        some { task, exchanges, state := .running (.call o c name args next) } →
      s'.history = s.history ++
        [Moment.called s.receivers (.inl b) c { key := name, args }] →
      CurrentFrom methods s e s' b {
        task, exchanges
        state := .waiting s.receivers c { key := name, args } next }
  | resumed {task : Task B M S V} {exchanges : List (Exchange B V)}
    {a : Nat} {c : B}
      {m r : CallableMessage V}
      {next : CallResult V → Body B (Callable M S) V} :
      (s.actors b).current =
        some { task, exchanges, state := .waiting a c m next } →
      s'.history = s.history ++ [Moment.returned a (.inl b) r.result] →
      CurrentFrom methods s e s' b {
        task
        exchanges := exchanges ++ [⟨a, c, m, r.result⟩]
        state := .running (next r.result) }

theorem current_step {methods : B → Methods B M S V} {s s' : CallSystem B T M S V}
    {e : CallEvent B T M S V} {b : B} {cur : Current B M S V} (h : Stepped methods s e s')
    (hcur : (s'.actors b).current = some cur) : CurrentFrom methods s e s' b cur := by
  cases h with
  | call => exact .kept (by simpa [post_actors] using hcur)
  | handle =>
      rw [setActor_actors] at hcur
      split at hcur
      · cases hcur
        subst b
        exact .handled
      · exact .kept hcur
  | work =>
      rw [setActor_actors] at hcur
      split at hcur
      · cases hcur
        subst b
        exact .worked rfl
      · exact .kept hcur
  | ask hold =>
      simp only [post_actors, setActor_actors] at hcur
      split at hcur
      · cases hcur
        subst b
        exact .asked hold rfl
      · exact .kept hcur
  | resume hold =>
      simp only [setActor_actors] at hcur
      split at hcur
      · cases hcur
        subst b
        exact .resumed hold rfl
      · exact .kept hcur
  | finish =>
      rw [finish_actors] at hcur
      split at hcur
      · cases hcur
      · exact .kept hcur
  | wake => exact .kept hcur

end CallSystem

end Gras
