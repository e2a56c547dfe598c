import Mathlib.Logic.Relation
import Gras.Actor.Control

/-!
# What a task does to its block

Whatever user code and other threads do while a handler runs, the control of the
block changes in four ways only (`Move`): it does not change, the block sends a
message to itself, another thread does something, or the block is marked done.
A call, a list of calls and a task are sequences of such moves, so what every
move keeps, `task_main` keeps.

The moves of other threads may be limited to those that meet a condition `ok`,
which is asked of the user code (`CallsWithin`, `WorkWithin`).
-/

namespace Gras

/-- The messages a block sends to itself. -/
def Message.own : Message → Bool
  | input _ _ => true
  | output _ _ => true
  | selfKick => true
  | _ => false

theorem Message.carriesToken_of_own {m : Message} (h : m.own = true) :
    m.carriesToken = false := by
  cases m with
  | input i message => rfl
  | output i message => rfl
  | selfKick => rfl
  | _ => cases h

/-- While that user code runs, other threads do only what meets the
condition. -/
def CallsWithin (ok : ThreadEvent → Prop) (cs : List Call) : Prop :=
  ∀ event, Call.thread event ∈ cs → ok event

/-- The same for everything that is called from `task_main`. -/
def Env.WorkWithin (ok : ThreadEvent → Prop) (env : Env) : Prop :=
  CallsWithin ok env.work ∧ ∀ overload ∈ env.propagateTags, ∀ i,
    CallsWithin ok (overload i)

namespace BlockActor

/-- One change of the control. -/
inductive Move (ok : ThreadEvent → Prop) : BlockActor → BlockActor → Prop where
  | quiet {b b' : BlockActor} (h : b'.control = b.control) : Move ok b b'
  | own (b : BlockActor) {m : Message} (h : m.own = true) :
    Move ok b (b.sendSelf m)
  | thread (b : BlockActor) {event : ThreadEvent} (h : ok event) :
      Move ok b (b.threadStep event)
  | done {b b' : BlockActor} {now : Int} (h : b.markDone now = .ok b') :
    Move ok b b'

/-- Any number of them. -/
def Moves (ok : ThreadEvent → Prop) : BlockActor → BlockActor → Prop :=
  Relation.ReflTransGen (Move ok)

section Moves

variable {ok : ThreadEvent → Prop} {b b' b'' : BlockActor} {env : Env}
  {now : Int} {i : Nat}

theorem Moves.refl (b : BlockActor) : Moves ok b b := Relation.ReflTransGen.refl

theorem Moves.trans (h : Moves ok b b') (h' : Moves ok b' b'') :
    Moves ok b b'' :=
  Relation.ReflTransGen.trans h h'

theorem Moves.single (h : Move ok b b') : Moves ok b b' :=
  Relation.ReflTransGen.single h

theorem Moves.quiet (h : b'.control = b.control) : Moves ok b b' :=
  .single (.quiet h)

/-- A change at the start that leaves the control alone. -/
theorem Moves.of_start (h : Moves ok b' b'')
    (hcontrol : b'.control = b.control) :
    Moves ok b b'' := (Moves.quiet hcontrol).trans h

/-- **The rule**: what every move keeps, a sequence of moves keeps. -/
theorem Moves.rule (h : Moves ok b b') {P : BlockActor → BlockActor → Prop}
    (hrefl : ∀ s, P s s) (htrans : ∀ {s t u}, P s t → P t u → P s u)
    (hmove : ∀ s t, Move ok s t → P s t) : P b b' := by
  induction h with
  | refl => exact hrefl b
  | tail _ hlast ih => exact htrans ih (hmove _ _ hlast)

/-- A move changes neither number of ports. -/
theorem Moves.ports (h : Moves ok b b') :
    b'.numInputs = b.numInputs ∧ b'.numOutputs = b.numOutputs := by
  refine h.rule (P := fun s t => t.numInputs = s.numInputs ∧
    t.numOutputs = s.numOutputs) (fun _ => ⟨rfl, rfl⟩)
      (fun h h' => ⟨h'.1.trans h.1, h'.2.trans h.2⟩) fun s t hmove => ?_
  cases hmove with
  | quiet h =>
      exact ⟨congrArg Control.numInputs h, congrArg Control.numOutputs h⟩
  | own h => exact ⟨rfl, rfl⟩
  | @thread event h =>
      cases event with
      | post m => rw [threadStep]; split <;> exact ⟨rfl, rfl⟩
      | prepare m => rw [threadStep]; split <;> exact ⟨rfl, rfl⟩
      | send k => rw [threadStep]; split <;> exact ⟨rfl, rfl⟩
      | _ => exact ⟨rfl, rfl⟩
  | done h =>
      rcases markDone_control h with ⟨-, rfl⟩ | ⟨-, hcontrol⟩
      · exact ⟨rfl, rfl⟩
      · exact ⟨congrArg Control.numInputs hcontrol,
          congrArg Control.numOutputs hcontrol⟩

/-- Nothing is asked of other threads. -/
theorem workWithin_true (env : Env) : env.WorkWithin fun _ => True :=
  ⟨fun _ _ => trivial, fun _ _ _ _ _ => trivial⟩

theorem taskKicker_moves (b : BlockActor) : Moves ok b b.taskKicker := by
  unfold taskKicker
  split
  · exact .single (.own b rfl)
  · exact .refl b

theorem call_moves {c : Call} (hc : CallsWithin ok [c])
    (h : b.call now c = .ok b') : Moves ok b b' := by
  rcases call_control h with hcontrol | ⟨b₀, hcontrol, rfl⟩ | ⟨j, m, rfl, rfl⟩ |
    ⟨event, rfl, rfl⟩ | hdone
  · exact .quiet hcontrol
  · exact (Moves.quiet hcontrol).trans (taskKicker_moves b₀)
  · exact .single (.own b rfl)
  · exact .single (.thread b (hc event List.mem_cons_self))
  · exact .single (.done hdone)

theorem CallsWithin.head {c : Call} {cs : List Call}
    (h : CallsWithin ok (c :: cs)) :
    CallsWithin ok [c] := fun event hevent => by
  rw [List.mem_singleton] at hevent
  exact h event (hevent ▸ List.mem_cons_self)

theorem CallsWithin.tail {c : Call} {cs : List Call}
    (h : CallsWithin ok (c :: cs)) :
    CallsWithin ok cs :=
  fun event hevent => h event (List.mem_cons_of_mem _ hevent)

theorem calls_moves {cs : List Call} (hcs : CallsWithin ok cs)
    (h : b.calls now cs = .ok b') : Moves ok b b' := by
  induction cs generalizing b with
  | nil =>
      rw [calls, Checked.pure_eq_ok] at h
      exact h ▸ .refl b
  | cons c cs ih =>
      simp only [calls, Checked.bind_eq_ok] at h
      obtain ⟨b₁, hc, h⟩ := h
      exact (call_moves (CallsWithin.head hcs) hc).trans
        (ih (CallsWithin.tail hcs) h)

theorem attempt_moves {cs : List Call} (hcs : CallsWithin ok cs) :
    Moves ok b (b.attempt now cs) := by
  induction cs generalizing b with
  | nil => exact .refl b
  | cons c cs ih =>
      rw [attempt]
      split
      · rename_i b₁ hc
        exact (call_moves (CallsWithin.head hcs) hc).trans
          (ih (CallsWithin.tail hcs))
      · exact .refl b

theorem trimTags_moves (henv : env.WorkWithin ok)
    (h : b.trimTags env i = .ok b') : Moves ok b b' := by
  simp only [trimTags] at h
  split at h
  · rw [Checked.pure_eq_ok] at h
    exact h ▸ .refl b
  · simp only [Checked.bind_eq_ok, Checked.pure_eq_ok] at h
    obtain ⟨b₀, hpass, rfl⟩ := h
    have hpassed : Moves ok b b₀ := by
      unfold passTags at hpass
      split at hpass
      · rw [Checked.pure_eq_ok] at hpass
        exact hpass ▸ .quiet (propagateTags_control _ _ _)
      · rename_i overload ho
        exact calls_moves (henv.2 overload ho i) hpass
    exact hpassed.trans (.quiet rfl)

theorem finishInput_moves (henv : env.WorkWithin ok)
    (h : b.finishInput env i = .ok b') : Moves ok b b' := by
  simp only [finishInput, Checked.bind_eq_ok, Checked.pure_eq_ok] at h
  obtain ⟨b₁, htags, b₂, hbuffs, b₃, havail, rfl⟩ := h
  have h₁ : Moves ok b b₁ := (trimTags_moves henv htags).of_start rfl
  have h₂ : Moves ok b₁ b₂ := .quiet (trimBuffs_control hbuffs)
  have h₃ : Moves ok b₂ b₃ := .quiet (updateInputAvail_control havail)
  exact ((h₁.trans h₂).trans h₃).trans (.quiet rfl)

theorem taskWork_moves (henv : env.WorkWithin ok)
    (h : b.taskWork env = .ok b') : Moves ok b b' := by
  simp only [taskWork, Checked.bind_eq_ok, Checked.pure_eq_ok] at h
  obtain ⟨b₁, hcalls, rfl⟩ := h
  have hcalled : Moves ok b b₁ := (calls_moves henv.1 hcalls).of_start rfl
  exact hcalled.trans (.quiet rfl)

theorem finish_moves (henv : env.WorkWithin ok) (h : b.finish env = .ok b') :
    Moves ok b b' := by
  simp only [finish, Checked.bind_eq_ok] at h
  obtain ⟨b₁, hin, hout⟩ := h
  have h₁ : Moves ok b b₁ := forRange_relates hin Moves.refl Moves.trans
    fun i _ s s' hf => finishInput_moves henv hf
  exact h₁.trans
    (.quiet (forRange_control hout fun i s s' hf => finishOutput_control hf))

/-- **`task_main`** does nothing, or it makes its moves and then calls
`task_kicker`. -/
theorem taskMain_cases (henv : env.WorkWithin ok)
    (h : b.taskMain env = .ok b') :
    b.isWorkAllowed = false ∧ b' = b ∨
      b.isWorkAllowed = true ∧ ∃ b₁, Moves ok b b₁ ∧ b' = b₁.taskKicker := by
  unfold taskMain at h
  split at h
  · rename_i hallowed
    rw [Checked.pure_eq_ok] at h
    exact .inl ⟨by simpa using hallowed, h.symm⟩
  · rename_i hallowed
    simp only [Checked.bind_eq_ok, Checked.pure_eq_ok] at h
    obtain ⟨b₁, hprepare, b₂, hwork, b₃, hfinish, rfl⟩ := h
    have h₁ : Moves ok b b₁ := .quiet (prepare_control hprepare)
    exact .inr ⟨not_not.mp hallowed, b₃,
      (h₁.trans (taskWork_moves henv hwork)).trans
      (finish_moves henv hfinish), rfl⟩

theorem taskMain_moves (henv : env.WorkWithin ok)
    (h : b.taskMain env = .ok b') : Moves ok b b' := by
  rcases taskMain_cases henv h with ⟨-, rfl⟩ | ⟨-, b₁, hmoves, rfl⟩
  · exact .refl b'
  · exact hmoves.trans (taskKicker_moves b₁)

end Moves

end BlockActor

end Gras
