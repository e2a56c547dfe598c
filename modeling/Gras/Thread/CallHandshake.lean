import Gras.Thread.InterruptibleThread

/-!
# The hand-shake of a call

One invariant ties the two flags, the mutex and the program counters together.

### The argument

The caller and the worker share a mutex, a condition variable and two flags,
`waitMsg` and `waitAck`.  Each step of either is one atomic action, and a wait
may wake for no reason.  The invariant `HandshakeInv` says what the flags are at
each pair of program counters at which the mutex allows the two to be, and how
often the callable has run since the call began (`RequestState`); each action
keeps it, and `HandshakeSafe` is read off.

The invariant also says when the worker may be gone.  It leaves its loop when
the work has thrown, when the thread is interrupted, or when there is no
callable; on its way out it clears the callable and acknowledges, so that no
call is left waiting for it.
-/

namespace Gras

/-- The actor's thread holds the mutex. -/
def ActorPc.holds : ActorPc → Bool
  | spawned | callTest | callLoop | destroyClear => true
  | _ => false

/-- A request has been made and its acknowledge has not been taken. -/
def ActorPc.pending : ActorPc → Bool
  | callNotify | callRelock | callLoop | callWaiting | callWoken => true
  | _ => false

/-- The destructor has cleared the callable. -/
def ActorPc.cleared : ActorPc → Bool
  | destroyInterrupt | destroyJoin | gone => true
  | _ => false

/-- No request is pending in the destructor. -/
@[grind →] theorem ActorPc.pending_of_cleared {pc : ActorPc}
    (h : pc.cleared = true) : pc.pending = false := by
  cases pc <;> first | rfl | cases h

/-- The worker holds the mutex. -/
def WorkerPc.holds : WorkerPc → Bool
  | runHead | runLoop | working | exitClear | exitUnlock | destructorLock =>
      true
  | _ => false

/-- The worker has left its loop and faked the acknowledge. -/
def WorkerPc.left : WorkerPc → Bool
  | exitNotify | exitRelock | exitUnlock | exited => true
  | _ => false

/-- How far a request is that the worker has not left unanswered: it is asked
for, or the callable has been started, or the acknowledge is there. -/
def RequestState (t : InterruptibleThread) : Prop :=
  t.waitMsg = false ∧ t.waitAck = true ∧ t.executions = 0 ∧
    t.worker ≠ .working ∨
  t.waitMsg = true ∧ t.waitAck = true ∧ t.executions = 1 ∧
    (t.worker = .working ∨ t.worker = .exitClear) ∨
  t.waitMsg = true ∧ t.waitAck = false ∧ t.executions = 1 ∧ t.worker ≠ .working

/-- The invariant. -/
structure HandshakeInv (t : InterruptibleThread) : Prop where
  mutex_actor : t.mutex = some .actor ↔
    t.actor.holds = true ∨ t.worker = .spawnUnlock
  mutex_worker : t.mutex = some .worker ↔ t.worker.holds = true
  spawn : t.worker = .spawnUnlock → t.actor = .spawning
  keepsOut : t.worker ≠ .destructorLock
  left : t.worker.left = true →
    t.callable = false ∧ t.disturbed = true ∧
      (t.actor.pending = true → t.waitAck = false ∧ t.executions ≤ 1)
  cleared : t.callable = false → t.worker.left = true ∨ t.actor.cleared = true
  resting : t.worker.left = false → t.actor.pending = false →
    t.waitMsg = true ∧ t.waitAck = true ∧ t.worker ≠ .working
  pending : t.worker.left = false → t.actor.pending = true → RequestState t
  fresh : t.actor = .callLock ∨ t.actor = .callTest → t.executions = 0
  asleep : t.worker = .runWaiting → t.waitMsg = true ∨ t.actor = .callNotify
  listening : t.actor = .callWaiting →
    t.waitAck = true ∨ t.worker = .ackNotify ∨ t.worker = .exitNotify
  interrupted : t.interrupted = true →
    t.disturbed = true ∧ t.worker ≠ .runWaiting
  exits : t.worker = .exitClear → t.disturbed = true
  joining : t.actor = .destroyJoin →
    t.interrupted = true ∨ t.worker = .exitClear ∨ t.worker.left = true
  returned : ∀ r ∈ t.returned, r.1 ≤ 1 ∧ (r.2 = false → r.1 = 1)

attribute [grind =] RequestState ActorPc.holds ActorPc.pending ActorPc.cleared
  WorkerPc.holds
  WorkerPc.left

namespace HandshakeInv

open InterruptibleThread

variable {t t' : InterruptibleThread} {choice : Side}

/-- A thread takes the mutex only when nobody has it. -/
theorem lock_eq_ok {side : Side} :
    t.lock side = .ok t' ↔ t.mutex = none ∧
      { t with mutex := some side } = t' := by
  unfold lock
  split
  · rename_i h
    simp [h, pure, Except.pure]
  · rename_i h
    simp [h, throw, throwThe, MonadExceptOf.throw]

/-- `notify_one` wakes at most one of the threads that wait. -/
theorem notifyOne_cases (choice : Side) (t : InterruptibleThread) :
    t.notifyOne choice = t ∧ t.actor ≠ .callWaiting ∧ t.worker ≠ .runWaiting ∨
      t.actor = .callWaiting ∧ t.notifyOne choice =
        { t with actor := .callWoken } ∨
      t.worker = .runWaiting ∧ t.notifyOne choice =
        { t with worker := .runWoken } := by
  cases choice <;> simp only [notifyOne, waits, wake, Side.other] <;>
    grind -ring -linarith

theorem whenever_eq_ok {b : Bool} :
    whenever b t = .ok t' ↔ b = true ∧ t = t' := by
  unfold whenever
  split
  · rename_i h
    simp [h, pure, Except.pure]
  · rename_i h
    simp [h, throw, throwThe, MonadExceptOf.throw]

theorem made : HandshakeInv InterruptibleThread.made := by
  constructor <;> grind -ring -linarith [InterruptibleThread.made]

/-- A waiting thread is woken up, for whatever reason. -/
theorem wake (h : HandshakeInv t) (side : Side) :
    HandshakeInv (t.wake side) := by
  cases side with
  | actor =>
      by_cases hw : t.actor = .callWaiting
      · obtain ⟨h1, h2, h3, h4, h5, h6, h7, h8, h9, h10, h11, h12, h13,
            h14, h15⟩ := h
        rw [InterruptibleThread.wake, if_pos hw]
        constructor <;> first | assumption | grind -ring -linarith
      · rw [InterruptibleThread.wake, if_neg hw]
        exact h
  | worker =>
      by_cases hw : t.worker = .runWaiting
      · obtain ⟨h1, h2, h3, h4, h5, h6, h7, h8, h9, h10, h11, h12, h13,
            h14, h15⟩ := h
        rw [InterruptibleThread.wake, if_pos hw]
        constructor <;> first | assumption | grind -ring -linarith
      · rw [InterruptibleThread.wake, if_neg hw]
        exact h

/-- The actor's thread keeps the invariant. -/
theorem actorStep (h : HandshakeInv t) (hs : t.actorStep choice = .ok t') :
    HandshakeInv t' := by
  obtain ⟨h1, h2, h3, h4, h5, h6, h7, h8, h9, h10, h11, h12, h13, h14, h15⟩ := h
  rcases t with
    ⟨waitMsg, waitAck, callable, mutex, interrupted, actor, worker, executions,
    returned, disturbed⟩
  dsimp only at h1 h2 h3 h4 h5 h6 h7 h8 h9 h10 h11 h12 h13 h14 h15
  cases actor <;> simp only [InterruptibleThread.actorStep, lock_eq_ok] at hs
  case spawning =>
    obtain ⟨hm, rfl⟩ := hs
    constructor <;> first | assumption | grind -ring -linarith
  case spawned =>
    cases hs
    constructor <;> first | assumption | grind -ring -linarith [unlock]
  case idle => cases hs
  case callLock =>
    obtain ⟨hm, rfl⟩ := hs
    constructor <;> first | assumption | grind -ring -linarith
  case callTest =>
    split at hs <;> cases hs
    · constructor <;> first | assumption | grind -ring -linarith [unlock]
    -- the callable is gone, so the worker has left its loop
    · constructor <;>
        first | assumption | grind -ring -linarith [unlock, returns]
  case callNotify =>
    cases hs
    -- only the worker can be waiting
    rcases notifyOne_cases choice
      (InterruptibleThread.mk waitMsg waitAck callable mutex
        interrupted .callRelock worker executions returned disturbed) with
      ⟨he, -, hw⟩ | ⟨ha, -⟩ | ⟨hw, he⟩
    · rw [he]
      constructor <;> first | assumption | grind -ring -linarith
    · cases ha
    · rw [he]
      constructor <;> first | assumption | grind -ring -linarith
  case callRelock =>
    obtain ⟨hm, rfl⟩ := hs
    constructor <;> first | assumption | grind -ring -linarith
  case callLoop =>
    split at hs <;> cases hs
    · constructor <;> first | assumption | grind -ring -linarith [unlock]
    -- the acknowledge is there: the callable has run, or the worker has left
    · constructor <;>
        first | assumption | grind -ring -linarith [unlock, returns]
  case callWaiting => cases hs
  case callWoken =>
    obtain ⟨hm, rfl⟩ := hs
    constructor <;> first | assumption | grind -ring -linarith
  case destroyLock =>
    obtain ⟨hm, rfl⟩ := hs
    constructor <;> first | assumption | grind -ring -linarith
  case destroyClear =>
    cases hs
    constructor <;> first | assumption | grind -ring -linarith [unlock]
  case destroyInterrupt =>
    cases hs
    constructor <;> unfold InterruptibleThread.wake <;> split <;>
      grind -ring -linarith
  case destroyJoin =>
    split at hs <;> cases hs
    constructor <;> first | assumption | grind -ring -linarith
  case gone => cases hs

/-- The worker keeps the invariant. -/
theorem workerStep (h : HandshakeInv t) (hs : t.workerStep choice = .ok t') :
    HandshakeInv t' := by
  obtain ⟨h1, h2, h3, h4, h5, h6, h7, h8, h9, h10, h11, h12, h13, h14, h15⟩ := h
  rcases t with
    ⟨waitMsg, waitAck, callable, mutex, interrupted, actor, worker, executions,
    returned, disturbed⟩
  dsimp only at h1 h2 h3 h4 h5 h6 h7 h8 h9 h10 h11 h12 h13 h14 h15
  cases worker <;> simp only [InterruptibleThread.workerStep, lock_eq_ok] at hs
  case spawnUnlock =>
    cases hs
    constructor <;> first | assumption | grind -ring -linarith [unlock]
  case runLock =>
    obtain ⟨hm, rfl⟩ := hs
    constructor <;> first | assumption | grind -ring -linarith
  case runHead =>
    split at hs <;> cases hs
    · constructor <;> first | assumption | grind -ring -linarith
    · constructor <;> first | assumption | grind -ring -linarith
  case runLoop =>
    split at hs
    · split at hs <;> cases hs
      · constructor <;>
          first | assumption | grind -ring -linarith [throwInterrupted]
      · constructor <;> first | assumption | grind -ring -linarith [unlock]
    · split at hs <;> cases hs
      -- the request is taken
      · constructor <;> first | assumption | grind -ring -linarith
      -- a request that has just been made finds the callable
      · exfalso
        have hcleared : actor.cleared = true := by grind -ring -linarith
        have hrests := h7 rfl (ActorPc.pending_of_cleared hcleared)
        grind -ring -linarith
  case runWaiting => cases hs
  case runWoken =>
    split at hs
    · obtain ⟨hm, rfl⟩ := lock_eq_ok.mp hs
      constructor <;>
        first | assumption | grind -ring -linarith [throwInterrupted]
    · obtain ⟨hm, rfl⟩ := lock_eq_ok.mp hs
      constructor <;> first | assumption | grind -ring -linarith
  case working => cases hs
  case ackNotify =>
    cases hs
    -- only the actor can be waiting, or it has gone on to the next call already
    rcases notifyOne_cases choice
      (InterruptibleThread.mk waitMsg waitAck callable mutex
        interrupted actor .ackRelock executions returned disturbed) with
      ⟨he, ha, -⟩ | ⟨ha, he⟩ | ⟨hw, -⟩
    · rw [he]
      constructor <;> first | assumption | grind -ring -linarith
    · rw [he]
      constructor <;> first | assumption | grind -ring -linarith
    · cases hw
  case ackRelock =>
    obtain ⟨hm, rfl⟩ := hs
    constructor <;> first | assumption | grind -ring -linarith
  case exitClear =>
    cases hs
    constructor <;> first | assumption | grind -ring -linarith [unlock]
  case exitNotify =>
    cases hs
    rcases notifyOne_cases choice
      (InterruptibleThread.mk waitMsg waitAck callable mutex
        interrupted actor .exitRelock executions returned disturbed) with
      ⟨he, ha, -⟩ | ⟨ha, he⟩ | ⟨hw, -⟩
    · rw [he]
      constructor <;> first | assumption | grind -ring -linarith
    · rw [he]
      constructor <;> first | assumption | grind -ring -linarith
    · cases hw
  case exitRelock =>
    obtain ⟨hm, rfl⟩ := hs
    constructor <;> first | assumption | grind -ring -linarith
  case exitUnlock =>
    cases hs
    constructor <;> first | assumption | grind -ring -linarith [unlock]
  case exited => cases hs
  case destructorLock => exact absurd rfl h4

/-- **Every event keeps the invariant**, as long as the work keeps out. -/
theorem step (h : HandshakeInv t) {e : HandshakeEvent} (hok : t.KeepsOut e)
    (hs : t.next e = .ok t') : HandshakeInv t' := by
  cases e with
  | actor choice => exact h.actorStep hs
  | worker choice => exact h.workerStep hs
  | call =>
      obtain ⟨hidle, rfl⟩ := whenever_eq_ok.mp hs
      obtain ⟨h1, h2, h3, h4, h5, h6, h7, h8, h9, h10, h11, h12, h13,
          h14, h15⟩ := h
      rw [decide_eq_true_eq] at hidle
      constructor <;> first | assumption | grind -ring -linarith
  | destroy =>
      obtain ⟨hidle, rfl⟩ := whenever_eq_ok.mp hs
      obtain ⟨h1, h2, h3, h4, h5, h6, h7, h8, h9, h10, h11, h12, h13,
          h14, h15⟩ := h
      rw [decide_eq_true_eq] at hidle
      constructor <;> first | assumption | grind -ring -linarith
  | create =>
      obtain ⟨-, rfl⟩ := whenever_eq_ok.mp hs
      exact made
  | spurious side =>
      obtain ⟨-, rfl⟩ := whenever_eq_ok.mp hs
      exact h.wake side
  | interrupt =>
      cases hs
      obtain ⟨h1, h2, h3, h4, h5, h6, h7, h8, h9, h10, h11, h12, h13,
          h14, h15⟩ := h
      constructor <;> unfold InterruptibleThread.wake <;> split <;>
        grind -ring -linarith
  | workReturns =>
      obtain ⟨hworking, rfl⟩ := whenever_eq_ok.mp hs
      obtain ⟨h1, h2, h3, h4, h5, h6, h7, h8, h9, h10, h11, h12, h13,
          h14, h15⟩ := h
      rw [decide_eq_true_eq] at hworking
      constructor <;> first | assumption | grind -ring -linarith [unlock]
  | workThrows =>
      obtain ⟨hworking, rfl⟩ := whenever_eq_ok.mp hs
      obtain ⟨h1, h2, h3, h4, h5, h6, h7, h8, h9, h10, h11, h12, h13,
          h14, h15⟩ := h
      rw [decide_eq_true_eq] at hworking
      constructor <;> first | assumption | grind -ring -linarith
  | workMarksDone => exact absurd rfl hok

theorem of_reachable (h : (system.restrict KeepsOut).Reachable t) :
    HandshakeInv t :=
  h.invariant (fun s hs => by subst hs; exact made) fun _ _ _ _ hinv hstep =>
    hinv.step hstep.1 hstep.2

end HandshakeInv

namespace InterruptibleThread

/-- What a caller may rely on. -/
structure HandshakeSafe (t : InterruptibleThread) : Prop where
  /-- A call executes the callable at most once. -/
  atMostOnce : t.actor.pending = true → t.executions ≤ 1
  /-- A call that has returned has executed it at most once, and exactly once if
  there had been no exception and no interruption request. -/
  exactlyOnce : ∀ r ∈ t.returned, r.1 ≤ 1 ∧ (r.2 = false → r.1 = 1)
  /-- The callable runs only in a call that has made its request and not
  returned. -/
  onlyInCall : t.worker = .working → t.actor.pending = true
  /-- No call waits for an acknowledge that nobody will give. -/
  answered : t.actor = .callWaiting →
    t.worker ≠ .runWaiting ∧ t.worker ≠ .exited

end InterruptibleThread

open InterruptibleThread

/-- **The hand-shake of `call()`**, for a work that leaves the thread alone:
whatever wake-ups come in between, a call runs its callable at most once,
exactly once if it returns in the ordinary way, and never waits for an
acknowledge that nobody will give.

Calls may be interrupted while they wait and callables may throw.  A work that
marks its own block done is excluded, since it destroys the thread it runs on
(`no_deadlock`). -/
theorem call_handshake {t : InterruptibleThread}
    (h : (system.restrict KeepsOut).Reachable t) : HandshakeSafe t := by
  have hinv := HandshakeInv.of_reachable h
  refine ⟨fun hpending => ?_, hinv.returned, fun hworking => ?_,
    fun hwaiting => ⟨?_, ?_⟩⟩
  · by_cases hleft : t.worker.left = true
    · exact ((hinv.left hleft).2.2 hpending).2
    · rw [Bool.not_eq_true] at hleft
      have := hinv.pending hleft hpending
      grind -ring -linarith
  · by_contra hpending
    rw [Bool.not_eq_true] at hpending
    exact (hinv.resting (by rw [hworking]; rfl) hpending).2.2 hworking
  · intro hasleep
    have hmsg : t.waitMsg = true := by
      rcases hinv.asleep hasleep with hmsg | hnotify
      · exact hmsg
      · rw [hwaiting] at hnotify
        cases hnotify
    have hack : t.waitAck = true := by
      rcases hinv.listening hwaiting with hack | hw | hw
      · exact hack
      · rw [hasleep] at hw
        cases hw
      · rw [hasleep] at hw
        cases hw
    have hstate := hinv.pending (by rw [hasleep]; rfl) (by rw [hwaiting]; rfl)
    grind -ring -linarith
  · intro hexited
    have hack :=
      ((hinv.left (by rw [hexited]; rfl)).2.2 (by rw [hwaiting]; rfl)).1
    rcases hinv.listening hwaiting with hack' | hw | hw
    · rw [hack] at hack'
      cases hack'
    · rw [hexited] at hw
      cases hw
    · rw [hexited] at hw
      cases hw

namespace InterruptibleThread

/-- Perform events in which the work keeps out. -/
def runCalls (es : List HandshakeEvent) : Option InterruptibleThread :=
  TransitionSystem.runRestricted KeepsOut next es made

/-- The spawn barrier, and then the worker waits for a request. -/
def spawned : List HandshakeEvent :=
  [.worker .actor, .actor .worker, .actor .worker, .worker .actor,
    .worker .actor, .worker .actor]

/-- A call: the request, the work, the acknowledge, and both go on. -/
def oneCall : List HandshakeEvent :=
  [.call, .actor .worker, .actor .worker, .actor .worker, .worker .actor,
    .worker .actor, .workReturns, .worker .actor, .actor .worker,
    .actor .worker]

theorem reachable_of_runCalls {es : List HandshakeEvent}
    {t : InterruptibleThread} (h : runCalls es = some t) :
    (system.restrict KeepsOut).Reachable t :=
  .of_restricted_events es (.init rfl) h

end InterruptibleThread

theorem call_handshake_oneCall :
    ∃ t, runCalls (spawned ++ oneCall) = some t ∧ t.returned = [(1, false)] ∧
      HandshakeSafe t := by
  have hrun : (runCalls (spawned ++ oneCall)).map (fun t => t.returned)
      = some [(1, false)] := by decide
  obtain ⟨t, ht, hreturned⟩ := Option.map_eq_some_iff.mp hrun
  exact ⟨t, ht, hreturned, call_handshake (reachable_of_runCalls ht)⟩

end Gras
