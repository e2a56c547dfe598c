import Gras.Lib.TransitionSystem

/-!
# The interruptible thread

`interruptible_thread.hpp`: the thread on which a block with
`interruptible_work` runs its work.  The actor hands the work over with `call`
and waits for the acknowledge.

Two threads step in any order, the actor's and the worker that executes `run`.
Their program counters stand at the operations on the mutex and on the
condition variable; what is between two of them belongs to the first.  `_cond`
wakes up spuriously, and `notify_one` picks one of those who wait.  An
interruption request may arrive at any time; it is noticed where the worker
tests for it or waits.

What the work does is an event: it returns, it throws (or is interrupted), or it
marks its own block done, which destroys the `InterruptibleThread` on the worker
thread.  `executions` and `returned` are there to be reasoned about only.
-/

namespace Gras

/-- The two threads. -/
inductive Side where
  | actor
  | worker
  deriving DecidableEq, Repr

/-- The other one. -/
def Side.other : Side → Side
  | actor => worker
  | worker => actor

/-- Where the actor's thread stands. -/
inductive ActorPc where
  /-- In the constructor, at the second `_mutex.lock()`. -/
  | spawning
  /-- In the constructor, at `_mutex.unlock()`. -/
  | spawned
  /-- Outside. -/
  | idle
  /-- `call()`: at its `scoped_lock`. -/
  | callLock
  /-- `call()`: with the lock, at the test of `_callable`. -/
  | callTest
  /-- `call()`: in `_notify`, at `notify_one`. -/
  | callNotify
  /-- `call()`: in `_notify`, at `lock.lock()`. -/
  | callRelock
  /-- `call()`: with the lock, at the test of `_wait_ack`. -/
  | callLoop
  /-- `call()`: in `_cond.wait(lock)`. -/
  | callWaiting
  /-- `call()`: woken up, about to take the lock again. -/
  | callWoken
  /-- In the destructor, at its `scoped_lock`. -/
  | destroyLock
  /-- In the destructor, with the lock. -/
  | destroyClear
  /-- In the destructor, at `interrupt()`. -/
  | destroyInterrupt
  /-- In the destructor, at `join()`. -/
  | destroyJoin
  /-- Destroyed. -/
  | gone
  deriving DecidableEq, Repr

/-- Where the worker thread stands. -/
inductive WorkerPc where
  /-- At the spawn barrier's `_mutex.unlock()`. -/
  | spawnUnlock
  /-- At the `scoped_lock` of `run`. -/
  | runLock
  /-- With the lock, at the test of `interruption_requested()`. -/
  | runHead
  /-- With the lock, at the test of `_wait_msg`. -/
  | runLoop
  /-- In `_cond.wait(lock)`. -/
  | runWaiting
  /-- Woken up, about to take the lock again. -/
  | runWoken
  /-- With the lock, in `_callable()`. -/
  | working
  /-- In `_notify` after the work, at `notify_one`. -/
  | ackNotify
  /-- In `_notify` after the work, at `lock.lock()`. -/
  | ackRelock
  /-- With the lock, behind the `catch` clauses. -/
  | exitClear
  /-- In the last `_notify`, at `notify_one`. -/
  | exitNotify
  /-- In the last `_notify`, at `lock.lock()`. -/
  | exitRelock
  /-- With the lock, at the end of `run`. -/
  | exitUnlock
  /-- The thread has ended. -/
  | exited
  /-- In the destructor that the work has called, at its `scoped_lock`. -/
  | destructorLock
  deriving DecidableEq, Repr

/-- An `InterruptibleThread` and the two threads. -/
structure InterruptibleThread where
  waitMsg : Bool
  waitAck : Bool
  /-- Is `_callable` set? -/
  callable : Bool
  mutex : Option Side
  /-- An interruption of the worker has been requested. -/
  interrupted : Bool
  actor : ActorPc
  worker : WorkerPc
  /-- How often the latest `call()` has executed the callable. -/
  executions : Nat
  /-- The calls that have returned: their executions, and whether there had been
  an exception or an interruption request by then. -/
  returned : List (Nat × Bool)
  /-- There has been an exception or an interruption request. -/
  disturbed : Bool

/-- What happens. -/
inductive HandshakeEvent where
  /-- The actor's thread goes on; the choice is that of `notify_one`. -/
  | actor (choice : Side)
  /-- The worker goes on. -/
  | worker (choice : Side)
  /-- The actor calls `call()`. -/
  | call
  /-- The actor destroys the object. -/
  | destroy
  /-- The actor makes a new one. -/
  | create
  /-- A spurious wake-up. -/
  | spurious (side : Side)
  /-- Somebody requests an interruption. -/
  | interrupt
  /-- The work returns. -/
  | workReturns
  /-- The work throws, or is interrupted. -/
  | workThrows
  /-- The work calls `mark_done()` on its block, which is not done yet. -/
  | workMarksDone
  deriving DecidableEq

/-- The event cannot happen here. -/
inductive Disabled where
  | disabled

namespace InterruptibleThread

/-- Just after `create_thread`: the constructor holds the mutex. -/
def made : InterruptibleThread where
  waitMsg := true
  waitAck := true
  callable := true
  mutex := some .actor
  interrupted := false
  actor := .spawning
  worker := .spawnUnlock
  executions := 0
  returned := []
  disturbed := false

/-! ### The mutex and the condition variable -/

/-- Take the mutex, or be blocked. -/
def lock (side : Side) (t : InterruptibleThread) :
    Except Disabled InterruptibleThread :=
  if t.mutex = none then return { t with mutex := some side }
  else throw .disabled

/-- Give the mutex back. -/
def unlock (t : InterruptibleThread) : InterruptibleThread :=
  { t with mutex := none }

/-- Does the thread wait on the condition variable? -/
def waits (t : InterruptibleThread) : Side → Bool
  | .actor => t.actor == .callWaiting
  | .worker => t.worker == .runWaiting

/-- Wake a thread up that waits. -/
def wake (t : InterruptibleThread) : Side → InterruptibleThread
  | .actor => if t.actor = .callWaiting then { t with actor := .callWoken } else t
  | .worker =>
      if t.worker = .runWaiting then { t with worker := .runWoken } else t

/-- `notify_one()`: the choice, if it waits, or else the other one. -/
def notifyOne (choice : Side) (t : InterruptibleThread) : InterruptibleThread :=
  if t.waits choice then t.wake choice else t.wake choice.other

/-! ### The actor's thread -/

/-- `call()` returns. -/
def returns (t : InterruptibleThread) : InterruptibleThread :=
  { t.unlock with
    actor := .idle
    returned := t.returned ++ [(t.executions, t.disturbed)] }

/-- The next step of the actor's thread, where it is inside. -/
def actorStep (choice : Side) (t : InterruptibleThread) :
    Except Disabled InterruptibleThread :=
  match t.actor with
  | .spawning => { t with actor := .spawned }.lock .actor
  | .spawned => return { t.unlock with actor := .idle }
  | .idle => throw .disabled
  | .callLock => { t with actor := .callTest }.lock .actor
  | .callTest =>
      if t.callable then
        return { t.unlock with waitMsg := false, actor := .callNotify }
      else return t.returns
  | .callNotify => return { t with actor := .callRelock }.notifyOne choice
  | .callRelock => { t with actor := .callLoop }.lock .actor
  | .callLoop =>
      if t.waitAck then return { t.unlock with actor := .callWaiting }
      else return { t with waitAck := true }.returns
  | .callWaiting => throw .disabled
  | .callWoken => { t with actor := .callLoop }.lock .actor
  | .destroyLock => { t with actor := .destroyClear }.lock .actor
  | .destroyClear =>
      return { t.unlock with callable := false, actor := .destroyInterrupt }
  | .destroyInterrupt =>
      return { t with
        interrupted := true
        disturbed := true
        actor := .destroyJoin }.wake .worker
  | .destroyJoin =>
      if t.worker = .exited then return { t with actor := .gone }
      else throw .disabled
  | .gone => throw .disabled

/-! ### The worker -/

/-- `thread_interrupted` is thrown: the request is used up. -/
def throwInterrupted (t : InterruptibleThread) : InterruptibleThread :=
  { t with interrupted := false, worker := .exitClear }

/-- The next step of the worker, except inside the work. -/
def workerStep (choice : Side) (t : InterruptibleThread) :
    Except Disabled InterruptibleThread :=
  match t.worker with
  | .spawnUnlock => return { t.unlock with worker := .runLock }
  | .runLock => { t with worker := .runHead }.lock .worker
  | .runHead =>
      if t.interrupted then return { t with worker := .exitClear }
      else return { t with worker := .runLoop }
  | .runLoop =>
      if t.waitMsg then
        -- `wait` is an interruption point
        if t.interrupted then return t.throwInterrupted
        else return { t.unlock with worker := .runWaiting }
      else if t.callable then
        return { t with
          waitMsg := true
          executions := t.executions + 1
          worker := .working }
      else return { t with waitMsg := true, worker := .exitClear }
  | .runWaiting => throw .disabled
  | .runWoken =>
      if t.interrupted then t.throwInterrupted.lock .worker
      else { t with worker := .runLoop }.lock .worker
  | .working => throw .disabled
  | .ackNotify => return { t with worker := .ackRelock }.notifyOne choice
  | .ackRelock => { t with worker := .runHead }.lock .worker
  | .exitClear =>
      return { t.unlock with callable := false, waitAck := false, worker := .exitNotify }
  | .exitNotify => return { t with worker := .exitRelock }.notifyOne choice
  | .exitRelock => { t with worker := .exitUnlock }.lock .worker
  | .exitUnlock => return { t.unlock with worker := .exited }
  | .exited => throw .disabled
  | .destructorLock => { t with callable := false }.lock .worker

/-! ### Runs -/

/-- An event that needs a thread to be somewhere. -/
def whenever (b : Bool) (t : InterruptibleThread) :
    Except Disabled InterruptibleThread :=
  if b then return t else throw .disabled

/-- One event. -/
def next (t : InterruptibleThread) :
    HandshakeEvent → Except Disabled InterruptibleThread
  | .actor choice => t.actorStep choice
  | .worker choice => t.workerStep choice
  | .call => whenever (t.actor = .idle) { t with actor := .callLock, executions := 0 }
  | .destroy => whenever (t.actor = .idle) { t with actor := .destroyLock }
  | .create => whenever (t.actor = .gone) made
  | .spurious side => whenever (t.waits side) (t.wake side)
  | .interrupt =>
      return { t with interrupted := true, disturbed := true }.wake .worker
  | .workReturns =>
      whenever (t.worker = .working)
        { t.unlock with waitAck := false, worker := .ackNotify }
  | .workThrows =>
      whenever (t.worker = .working)
        { t with disturbed := true, worker := .exitClear }
  | .workMarksDone =>
      whenever (t.worker = .working) { t with worker := .destructorLock }

/-- The runs of an `InterruptibleThread`. -/
def system : TransitionSystem InterruptibleThread HandshakeEvent :=
  .ofNext (fun t => t = made) next

/-- The work leaves the `InterruptibleThread` alone. -/
def KeepsOut (_ : InterruptibleThread) (e : HandshakeEvent) : Prop :=
  e ≠ .workMarksDone

instance (t : InterruptibleThread) (e : HandshakeEvent) :
    Decidable (t.KeepsOut e) :=
  inferInstanceAs (Decidable (_ ≠ _))

end InterruptibleThread

end Gras
