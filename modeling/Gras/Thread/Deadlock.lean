import Gras.Thread.CallHandshake

/-!
# Deadlocks of the interruptible thread

The two threads are deadlocked when the actor's thread is inside a call, the
constructor or the destructor and neither of them can go on by itself.

* `no_deadlock`: that never happens as long as the work leaves the
  `InterruptibleThread` alone.
* `deadlock_of_markDone`: a work that marks its own block done destroys the
  `InterruptibleThread` on the worker thread, which then waits for the mutex
  that it holds itself while the actor waits for the acknowledge.
-/

namespace Gras

namespace InterruptibleThread

/-- Can the thread go on by itself?  A work that runs goes on somehow. -/
def canStep (t : InterruptibleThread) : Side → Bool
  | .actor => (t.actorStep .worker).toBool
  | .worker => t.worker == .working || (t.workerStep .actor).toBool

/-- Neither thread can go on, and the actor's thread is in the middle of
something. -/
def Deadlocked (t : InterruptibleThread) : Prop :=
  t.actor ≠ .idle ∧ t.actor ≠ .gone ∧ t.canStep .actor = false ∧
    t.canStep .worker = false

/-- The worker is blocked on a mutex that it holds, and the actor's thread waits
for the acknowledge. -/
def SelfBlocked (t : InterruptibleThread) : Prop :=
  t.worker = .destructorLock ∧ t.mutex = some .worker ∧ t.actor = .callWaiting

theorem lock_toBool (side : Side) (t : InterruptibleThread) :
    (t.lock side).toBool = t.mutex.isNone := by
  unfold lock
  split
  · rename_i h
    rw [h]
    rfl
  · rename_i h
    cases hm : t.mutex with
    | none => exact absurd hm h
    | some s => rfl

/-- Where the actor's thread can go on. -/
theorem canStep_actor (t : InterruptibleThread) :
    t.canStep .actor = match t.actor with
      | .spawning | .callLock | .callRelock | .callWoken | .destroyLock =>
          t.mutex.isNone
      | .destroyJoin => t.worker == .exited
      | .idle | .callWaiting | .gone => false
      | _ => true := by
  rcases t with
    ⟨waitMsg, waitAck, callable, mutex, interrupted, actor, worker, executions,
    returned, disturbed⟩
  cases actor with
  | spawning => exact lock_toBool _ _
  | callLock => exact lock_toBool _ _
  | callRelock => exact lock_toBool _ _
  | callWoken => exact lock_toBool _ _
  | destroyLock => exact lock_toBool _ _
  | callTest => cases callable <;> rfl
  | callLoop => cases waitAck <;> rfl
  | destroyJoin => cases worker <;> rfl
  | _ => rfl

/-- Where the worker can go on. -/
theorem canStep_worker (t : InterruptibleThread) :
    t.canStep .worker = match t.worker with
      | .runLock | .runWoken | .ackRelock | .exitRelock | .destructorLock =>
          t.mutex.isNone
      | .runWaiting | .exited => false
      | _ => true := by
  rcases t with
    ⟨waitMsg, waitAck, callable, mutex, interrupted, actor, worker, executions,
    returned, disturbed⟩
  cases worker with
  | runLock => exact lock_toBool _ _
  | runWoken => cases interrupted <;> exact lock_toBool _ _
  | ackRelock => exact lock_toBool _ _
  | exitRelock => exact lock_toBool _ _
  | destructorLock => exact lock_toBool _ _
  | runHead => cases interrupted <;> rfl
  | runLoop => cases waitMsg <;> cases interrupted <;> cases callable <;> rfl
  | _ => rfl

/-- Whoever holds the mutex can go on. -/
theorem canStep_of_holds {t : InterruptibleThread} (hinv : HandshakeInv t)
    {side : Side} (hm : t.mutex = some side) :
    t.canStep .actor = true ∨ t.canStep .worker = true := by
  rw [canStep_actor, canStep_worker]
  cases side with
  | actor =>
      rcases hinv.mutex_actor.mp hm with hholds | hspawn
      · left
        revert hholds
        cases t.actor <;> intro hholds <;> first | rfl | cases hholds
      · right
        rw [hspawn]
  | worker =>
      right
      have hholds := hinv.mutex_worker.mp hm
      have hkeeps := hinv.keepsOut
      revert hholds hkeeps
      cases t.worker <;> intro hholds hkeeps <;>
        first | rfl | exact absurd rfl hkeeps | cases hholds

end InterruptibleThread

open InterruptibleThread

/-- **No deadlock**, in runs in which no work marks its own block done on the
worker thread.

The thread waits for a call, the caller for the end of it, and the destructor
for the thread; a work that destroys the thread it runs on would join itself.
Works may throw, calls may be interrupted, and the thread may be destroyed at
any point from outside. -/
theorem no_deadlock {t : InterruptibleThread}
    (h : (system.restrict KeepsOut).Reachable t) :
    ¬ t.Deadlocked ∧ ¬ t.SelfBlocked := by
  have hinv := HandshakeInv.of_reachable h
  refine ⟨fun hdead => ?_, fun hself => hinv.keepsOut hself.1⟩
  obtain ⟨hidle, hgone, hactor, hworker⟩ := hdead
  have hfree : t.mutex = none := by
    cases hm : t.mutex with
    | none => rfl
    | some side =>
        rcases canStep_of_holds hinv hm with hstep | hstep
        · rw [hactor] at hstep
          cases hstep
        · rw [hworker] at hstep
          cases hstep
  rw [canStep_worker] at hworker
  rw [canStep_actor] at hactor
  -- with the mutex free, only who waits or has ended is stuck
  have hends : t.worker = .runWaiting ∨ t.worker = .exited := by
    revert hworker
    rw [hfree]
    cases t.worker <;> intro hworker <;>
      first | exact .inl rfl | exact .inr rfl | cases hworker
  have hsleeps : t.actor = .callWaiting ∨ t.actor = .destroyJoin ∧
      t.worker ≠ .exited := by
    revert hactor hidle hgone
    rw [hfree]
    cases t.actor <;> intro hidle hgone hactor <;>
      first
        | exact .inl rfl
        | exact absurd rfl hidle
        | exact absurd rfl hgone
        | cases hactor
        | exact .inr ⟨rfl, by simpa using hactor⟩
  rcases hsleeps with hwaiting | ⟨hjoin, hnot⟩
  · obtain ⟨hasleep, hexited⟩ := (call_handshake h).answered hwaiting
    rcases hends with hw | hw
    · exact hasleep hw
    · exact hexited hw
  · have hw : t.worker = .runWaiting := hends.resolve_right hnot
    rcases hinv.joining hjoin with hint | hexit | hleft
    · exact (hinv.interrupted hint).2 hw
    · rw [hw] at hexit
      cases hexit
    · rw [hw] at hleft
      cases hleft

namespace InterruptibleThread

/-- A call, then the destructor on the actor's thread. -/
def callAndDestroy : List HandshakeEvent :=
  spawned ++ oneCall ++
    [HandshakeEvent.destroy, .actor .worker, .actor .worker, .actor .worker]

/-- A call whose work marks its block done. -/
def callAndMarkDone : List HandshakeEvent :=
  spawned ++ [HandshakeEvent.call, .actor .worker, .actor .worker,
    .actor .worker, .actor .worker, .actor .worker, .worker .actor,
    .worker .actor, .workMarksDone]

end InterruptibleThread

theorem no_deadlock_callAndDestroy :
    ∃ t, runCalls callAndDestroy = some t ∧ t.actor = .destroyJoin ∧
      ¬ t.Deadlocked ∧ ¬ t.SelfBlocked := by
  have hrun : (runCalls callAndDestroy).map (fun t => t.actor) =
      some .destroyJoin := by
    decide
  obtain ⟨t, ht, hjoin⟩ := Option.map_eq_some_iff.mp hrun
  exact ⟨t, ht, hjoin, no_deadlock (reachable_of_runCalls ht)⟩

/-- **A work that marks its own block done never returns**: the worker waits for
the mutex it holds, and the actor's thread for the acknowledge. -/
theorem deadlock_of_markDone :
    ∃ t, system.Reachable t ∧ t.SelfBlocked ∧ t.Deadlocked := by
  have hrun : (TransitionSystem.runRestricted
      (fun _ _ => True) next callAndMarkDone
      made).map (fun t => (t.worker, t.mutex, t.actor))
      = some (.destructorLock, some .worker, .callWaiting) := by decide
  obtain ⟨t, ht, heq⟩ := Option.map_eq_some_iff.mp hrun
  simp only [Prod.mk.injEq] at heq
  obtain ⟨hworker, hmutex, hactor⟩ := heq
  have hreachable : (system.restrict fun _ _ => True).Reachable t :=
    .of_restricted_events callAndMarkDone (.init rfl) ht
  refine ⟨t, hreachable.of_restrict, ⟨hworker, hmutex, hactor⟩, ?_⟩
  refine ⟨by rw [hactor]; decide, by rw [hactor]; decide, ?_, ?_⟩
  · rw [canStep_actor, hactor]
  · rw [canStep_worker, hworker, hmutex]
    rfl

end Gras
