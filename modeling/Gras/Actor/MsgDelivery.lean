import Gras.Lib.FifoHistory
import Gras.Actor.Moves
import Gras.Actor.InputCalls

/-!
# What a task does with the messages of an input

`pop_input_msg` reads the messages of a port with an index.  A task sets the
index to zero before the work (`prepareInput`) and erases what was popped after
it (`trimMsgs`), without touching the index again.  So the index says where the
next message is from the start of a task until the messages of the port are
erased, and only then.

`awaiting` is what is still to be popped, in the one phase and in the other, and
`Delivers` relates it to what the calls pop.
-/

namespace Gras

namespace BlockActor

/-! ## What is popped -/

/-- What `pop_input_msg(i)` returns. -/
def poppedMsg (i : Nat) (b : BlockActor) : Option Pmc :=
  (b.inputMsgs i)[b.numInputMsgsRead i]?

/-- What a call pops off a port of a block that is not done. -/
def callTakes (i : Nat) (b : BlockActor) : Call → List (FifoEvent Pmc)
  | .popInputMsg j =>
      if j = i ∧ b.blockState ≠ .done then [.take (b.poppedMsg i)] else []
  | _ => []

/-- What a list of calls pops, up to the first failure. -/
def callsTake (now : Int) (i : Nat) :
    List Call → BlockActor → List (FifoEvent Pmc)
  | [], _ => []
  | c :: cs, b => b.callTakes i c ++
      match b.call now c with
      | .ok b' => callsTake now i cs b'
      | .error _ => []

/-- What an overload of `propagate_tags` pops that is called for port `k`. -/
def overloadTakes (env : Env) (k i : Nat) (b : BlockActor) :
    List (FifoEvent Pmc) :=
  match env.propagateTags with
  | none => []
  | some overload =>
      if b.passed k = [] then [] else b.callsTake env.now i (overload k)

/-- What is popped while so many input ports are finished. -/
def finishTakes (env : Env) (i : Nat) (b : BlockActor) :
    Nat → List (FifoEvent Pmc)
  | 0 => []
  | k + 1 => finishTakes env i b k ++
      match forRange (finishInput env) k b with
      | .ok s => (s.trimMsgs k).overloadTakes env k i
      | .error _ => []

/-- What is popped in a task. -/
def taskTakes (env : Env) (i : Nat) (b : BlockActor) : List (FifoEvent Pmc) :=
  if ¬ b.isWorkAllowed then []
  else
    match b.prepare env with
    | .error _ => []
    | .ok b₁ => b₁.atCall.callsTake env.now i env.work ++
        match b₁.taskWork env with
        | .ok b₂ => b₂.finishTakes env i b₂.numInputs
        | .error _ => []

/-! ## What is to be popped -/

/-- What is still to be popped off a port of a block that is not done, where
`erased` says whether the popped messages of the port have been erased. -/
def awaiting (erased : Nat → Bool) (i : Nat) (b : BlockActor) :
    Option (List Pmc) :=
  if b.blockState = .done then none
  else some (if erased i then b.inputMsgs i
    else (b.inputMsgs i).drop (b.numInputMsgsRead i))

/-- A queue with what was to be popped answers like this, and is left with what
is to be popped afterwards.  Nothing is asked of what a block that is done
leaves. -/
def Delivers (awaited : Option (List Pmc)) (h : List (FifoEvent Pmc))
    (awaited' : Option (List Pmc)) : Prop :=
  ∀ q, (∀ l ∈ awaited, q = l) → ∃ q', FifoEvent.Serves q h q' ∧
    ∀ l ∈ awaited', q' = l

/-- **The condition on a call**: where the popped messages have been erased, a
pop finds none. -/
def PopsAwaited (erased : Nat → Bool) (b : BlockActor) : Call → Prop
  | .popInputMsg i =>
      erased i = true → b.blockState ≠ .done → b.inputMsgs i = []
  | _ => True

instance (erased : Nat → Bool) (b : BlockActor) (c : Call) :
    Decidable (b.PopsAwaited erased c) := by
  cases c with
  | popInputMsg i => exact inferInstanceAs (Decidable (_ → _))
  | _ => exact inferInstanceAs (Decidable True)

/-- **The condition on a task**: an overload of `propagate_tags` that is called
for a port pops this port and the ones before it only when they hold no
message. -/
def TaskPops (env : Env) (b : BlockActor) : Prop :=
  b.isWorkAllowed = true → ∀ b₁, b.prepare env = .ok b₁ →
    ∀ b₂, b₁.taskWork env = .ok b₂ →
    ∀ k < b₂.numInputs, ∀ s, forRange (finishInput env) k b₂ = .ok s →
      (s.trimMsgs k).passed k ≠ [] → ∀ overload ∈ env.propagateTags,
        CallsMeet (PopsAwaited fun i => decide (i ≤ k)) env.now (overload k)
          (s.trimMsgs k)

section Delivers

variable {awaited awaited' awaited'' : Option (List Pmc)}
  {h h' : List (FifoEvent Pmc)}

theorem Delivers.refl (awaited : Option (List Pmc)) :
    Delivers awaited [] awaited :=
  fun q hq => ⟨q, .nil q, hq⟩

theorem Delivers.trans (hd : Delivers awaited h awaited')
    (hd' : Delivers awaited' h' awaited'') :
    Delivers awaited (h ++ h') awaited'' := by
  intro q hq
  obtain ⟨q', hserves, hq'⟩ := hd q hq
  obtain ⟨q'', hserves', hq''⟩ := hd' q' hq'
  exact ⟨q'', hserves.append hserves', hq''⟩

/-- Nothing is popped, and then the block is done. -/
theorem Delivers.done (awaited : Option (List Pmc)) :
    Delivers awaited [] none :=
  fun q _ => ⟨q, .nil q, fun _ h => nomatch h⟩

theorem Delivers.of_eq (heq : awaited' = awaited) :
    Delivers awaited [] awaited' :=
  heq ▸ .refl awaited

end Delivers

section Calls

variable {b b' : BlockActor} {env : Env} {now : Int} {erased : Nat → Bool}
  {i j k : Nat}

theorem awaiting_done (h : b.blockState = .done) :
    b.awaiting erased i = none := if_pos h

theorem awaiting_live (h : b.blockState ≠ .done) : b.awaiting erased i =
    some (if erased i then b.inputMsgs i
      else (b.inputMsgs i).drop (b.numInputMsgsRead i)) :=
  if_neg h

/-- Where everything popped has been erased, what is stored is to be popped. -/
theorem awaiting_erased (h : b.blockState ≠ .done) :
    b.awaiting (fun _ => true) i = some (b.inputMsgs i) := by
  rw [awaiting_live h, if_pos rfl]

/-- Neither the messages nor the index change. -/
theorem awaiting_congr (hstate : b'.blockState = b.blockState)
    (hmsgs : b'.inputMsgs i = b.inputMsgs i)
    (hread : b'.numInputMsgsRead i = b.numInputMsgsRead i) :
    b'.awaiting erased i = b.awaiting erased i := by
  simp only [awaiting, hstate, hmsgs, hread]

theorem Delivers.markDone (h : b.markDone now = .ok b') :
    Delivers (b.awaiting erased i) [] (b'.awaiting erased i) := by
  rw [awaiting_done (markDone_blockState h)]
  exact .done _

/-- **A pop** takes what is next, or nothing when there is nothing. -/
theorem popInputMsg_delivers (hok : b.PopsAwaited erased (.popInputMsg j)) :
    Delivers (b.awaiting erased i) (b.callTakes i (.popInputMsg j))
      ((b.popInputMsg j).awaiting erased i) := by
  have hstate : (b.popInputMsg j).blockState = b.blockState := by
    unfold popInputMsg
    split <;> rfl
  have hmsgs : (b.popInputMsg j).inputMsgs = b.inputMsgs := by
    unfold popInputMsg
    split <;> rfl
  by_cases hdone : b.blockState = .done
  · rw [callTakes, if_neg fun h => h.2 hdone,
      awaiting_done (hstate.trans hdone)]
    exact .done _
  by_cases hji : j = i
  · subst hji
    rw [callTakes, if_pos ⟨rfl, hdone⟩, awaiting_live hdone,
      awaiting_live (hstate ▸ hdone), hmsgs]
    by_cases hless : b.numInputMsgsRead j < (b.inputMsgs j).length
    · -- There is a message behind the index, so the port is not erased.
      have herased : erased j = false := by
        by_contra hne
        rw [Bool.not_eq_false] at hne
        have hnil := hok hne hdone
        rw [hnil] at hless
        exact absurd hless (Nat.not_lt_zero _)
      have hread : (b.popInputMsg j).numInputMsgsRead j =
          b.numInputMsgsRead j + 1 := by
        rw [popInputMsg, if_neg (Nat.not_le.mpr hless)]
        exact Function.update_self ..
      have hpopped : b.poppedMsg j =
          some (b.inputMsgs j)[b.numInputMsgsRead j] :=
        List.getElem?_eq_getElem hless
      rw [herased, hread, hpopped]
      intro q hq
      have hq : q = (b.inputMsgs j).drop (b.numInputMsgsRead j) := hq _ rfl
      rw [List.drop_eq_getElem_cons hless] at hq
      subst hq
      exact ⟨_, .handed (.nil _), fun l hl => Option.some.inj hl⟩
    · have hsame : b.popInputMsg j = b := if_pos (Nat.not_lt.mp hless)
      have hpopped : b.poppedMsg j = none :=
        List.getElem?_eq_none (Nat.not_lt.mp hless)
      have hnone : (if erased j = true then b.inputMsgs j
          else (b.inputMsgs j).drop (b.numInputMsgsRead j)) = [] := by
        split
        · rename_i herased
          exact hok herased hdone
        · exact List.drop_eq_nil_of_le (Nat.not_lt.mp hless)
      rw [hsame, hpopped, hnone]
      intro q hq
      have hq : q = [] := hq _ rfl
      subst hq
      exact ⟨[], .refused (.nil _), fun l hl => Option.some.inj hl⟩
  · rw [callTakes, if_neg fun h => hji h.1]
    refine .of_eq (awaiting_congr hstate (congrFun hmsgs i) ?_)
    unfold popInputMsg
    split
    · rfl
    · exact Function.update_of_ne (Ne.symm hji) ..

/-- **A call** that meets the condition. -/
theorem call_delivers {c : Call} (hok : b.PopsAwaited erased c)
    (h : b.call now c = .ok b') :
    Delivers (b.awaiting erased i) (b.callTakes i c)
      (b'.awaiting erased i) := by
  by_cases hpop : ∃ j, c = .popInputMsg j
  · obtain ⟨j, rfl⟩ := hpop
    rw [call, Checked.pure_eq_ok] at h
    exact h ▸ popInputMsg_delivers hok
  · have htakes : b.callTakes i c = [] := by
      cases c with
      | popInputMsg j => exact absurd ⟨j, rfl⟩ hpop
      | _ => rfl
    rw [htakes]
    rcases call_inputs h with ⟨-, hdone⟩ | ⟨j, rfl, -⟩ |
      ⟨j, items, -, rfl⟩ | hheld
    · exact .markDone hdone
    · exact absurd ⟨j, rfl⟩ hpop
    · exact .refl _
    · exact .of_eq (awaiting_congr hheld.state (congrFun hheld.msgs i)
        (congrFun hheld.msgsRead i))

/-- The calls up to the first failure. -/
theorem attempt_delivers {cs : List Call}
    (hmeet : CallsMeet (PopsAwaited erased) now cs b) :
    Delivers (b.awaiting erased i) (b.callsTake now i cs)
      ((b.attempt now cs).awaiting erased i) := by
  induction cs generalizing b with
  | nil => exact .refl _
  | cons c cs ih =>
      obtain ⟨hok, hrest⟩ := hmeet
      rw [callsTake, attempt]
      cases hc : b.call now c with
      | ok b₁ =>
          rw [hc] at hrest
          exact (call_delivers hok hc).trans (ih hrest)
      | error e =>
          -- The call that fails is no pop.
          have htakes : b.callTakes i c = [] := by
            cases c with
            | popInputMsg j => cases hc
            | _ => rfl
          rw [htakes]
          exact .refl _

theorem attempt_of_calls {cs : List Call} (h : b.calls now cs = .ok b') :
    b.attempt now cs = b' := by
  induction cs generalizing b with
  | nil =>
      rw [calls, Checked.pure_eq_ok] at h
      exact h
  | cons c cs ih =>
      simp only [calls, Checked.bind_eq_ok] at h
      obtain ⟨b₁, hc, h⟩ := h
      rw [attempt, hc]
      exact ih h

/-- **A list of calls** that meet the condition. -/
theorem calls_delivers {cs : List Call}
    (hmeet : CallsMeet (PopsAwaited erased) now cs b)
    (h : b.calls now cs = .ok b') :
    Delivers (b.awaiting erased i) (b.callsTake now i cs)
      (b'.awaiting erased i) :=
  attempt_of_calls h ▸ attempt_delivers hmeet

end Calls

/-! ## A task -/

/-- What is known of the messages of a block, and whether it is done. -/
structure MsgData where
  blockState : BlockState
  inputMsgs : Nat → List Pmc
  numInputMsgsRead : Nat → Nat

/-- The messages of a block. -/
def msgData (b : BlockActor) : MsgData :=
  ⟨b.blockState, b.inputMsgs, b.numInputMsgsRead⟩

section Task

variable {b b' : BlockActor} {env : Env} {erased : Nat → Bool} {i k : Nat}

theorem awaiting_of_msgData (h : b'.msgData = b.msgData) :
    b'.awaiting erased i = b.awaiting erased i :=
  awaiting_congr (congrArg MsgData.blockState h)
    (congrFun (congrArg MsgData.inputMsgs h) i)
    (congrFun (congrArg MsgData.numInputMsgsRead h) i)

/-- Before the work the index of a port is set to zero, and nothing else. -/
theorem prepareInput_msgs {j j' : Nat}
    (h : prepareInput env k (b, j) = .ok (b', j')) :
    b'.msgData = { b.msgData with
      numInputMsgsRead := Function.update b.numInputMsgsRead k 0 } := by
  have hsort : (b.sortTags k).msgData = b.msgData := by
    unfold sortTags
    split <;> rfl
  have hread : (b.sortTags k).numInputMsgsRead = b.numInputMsgsRead :=
    congrArg MsgData.numInputMsgsRead hsort
  rw [← hsort, ← hread]
  simp only [prepareInput, Checked.bind_eq_ok, Prod.exists] at h
  obtain ⟨-, -, buff, p, memory, -, h⟩ := h
  split at h
  · simp only [Checked.bind_eq_ok, Checked.pure_eq_ok, Prod.mk.injEq] at h
    obtain ⟨q, -, rfl, -⟩ := h
    rfl
  · simp only [Checked.pure_eq_ok, Prod.mk.injEq] at h
    obtain ⟨rfl, -⟩ := h
    rfl

/-- **Before the work** every index is zero: all messages of a port are to be
popped. -/
theorem prepare_awaiting (h : b.prepare env = .ok b') (hi : i < b.numInputs) :
    b'.awaiting (fun _ => false) i = b.awaiting (fun _ => true) i := by
  simp only [prepare, Checked.bind_eq_ok, Prod.exists] at h
  obtain ⟨b₁, j, hin, hout⟩ := h
  have h₁ := forRange_rule hin
    (P := fun n s => s.1.blockState = b.blockState ∧
      s.1.inputMsgs = b.inputMsgs ∧
      ∀ k < n, s.1.numInputMsgsRead k = 0)
    ⟨rfl, rfl, fun k hk => absurd hk (Nat.not_lt_zero k)⟩
        fun n _ s s' hs hf => by
      obtain ⟨hstate, hmsgs, hread⟩ := hs
      have hdata := prepareInput_msgs hf
      refine ⟨(congrArg MsgData.blockState hdata).trans hstate,
        (congrArg MsgData.inputMsgs hdata).trans hmsgs, ?_⟩
      intro k hk
      have hindex : s'.1.numInputMsgsRead =
          Function.update s.1.numInputMsgsRead n 0 :=
        congrArg MsgData.numInputMsgsRead hdata
      by_cases hkn : k = n
      · rw [hindex, hkn, Function.update_self]
      · rw [hindex, Function.update_of_ne hkn]
        exact hread k (by omega)
  have h₂ : b'.msgData = b₁.msgData := forRange_rule hout
    (P := fun _ s => s.msgData = b₁.msgData) rfl fun n _ s s' hs hf => by
      simp only [prepareOutput, Checked.bind_eq_ok, Checked.pure_eq_ok,
        Prod.exists] at hf
      obtain ⟨-, -, buff, p, -, -, -, rfl⟩ := hf
      exact hs
  obtain ⟨hstate, hmsgs, hread⟩ := h₁
  dsimp only at hstate hmsgs hread
  rw [awaiting_of_msgData h₂]
  simp only [awaiting, hstate, hmsgs, hread i hi, List.drop_zero,
    Bool.false_eq_true, if_false, if_true]

/-- Passing tags on. -/
theorem passTags_delivers {tags : List Tag}
    (hmeet : ∀ overload ∈ env.propagateTags,
      CallsMeet (PopsAwaited erased) env.now (overload k) b)
    (htags : b.passed k ≠ []) (h : b.passTags env k tags = .ok b') :
    Delivers (b.awaiting erased i) (b.overloadTakes env k i)
      (b'.awaiting erased i) := by
  unfold passTags at h
  unfold overloadTakes
  cases hpropagate : env.propagateTags with
  | none =>
      rw [hpropagate] at h
      dsimp only at h
      rw [Checked.pure_eq_ok] at h
      subst h
      refine .of_eq (awaiting_of_msgData ?_)
      unfold propagateTags
      refine List.foldlRecOn
        (motive := fun c : BlockActor => c.msgData = b.msgData) _ _ rfl
        fun c hc o _ => ?_
      exact List.foldlRecOn
        (motive := fun c : BlockActor => c.msgData = b.msgData) _ _ hc
        fun c hc tag _ => hc
  | some overload =>
      rw [hpropagate] at h
      dsimp only at h ⊢
      rw [if_neg htags]
      exact calls_delivers (hmeet overload hpropagate) h

/-- Erasing what was popped off a port leaves what is to be popped. -/
theorem trimMsgs_awaiting (k i : Nat) (b : BlockActor) :
    (b.trimMsgs k).awaiting (fun j => decide (j ≤ k)) i =
      b.awaiting (fun j => decide (j < k)) i := by
  unfold awaiting
  congr 2
  show (if decide (i ≤ k) = true then Function.update b.inputMsgs k
      ((b.inputMsgs k).drop (b.numInputMsgsRead k)) i
    else (Function.update b.inputMsgs k _ i).drop (b.numInputMsgsRead i)) = _
  by_cases hik : i = k
  · subst hik
    simp
  · have hlt : i ≤ k ↔ i < k := by omega
    rw [Function.update_of_ne hik]
    simp only [hlt]

/-- **After the work** a port is finished: its popped messages are erased, and
from then on it is only popped when it holds none. -/
theorem finishInput_delivers
    (hmeet : (b.trimMsgs k).passed k ≠ [] → ∀ overload ∈ env.propagateTags,
      CallsMeet (PopsAwaited fun j => decide (j ≤ k)) env.now (overload k)
        (b.trimMsgs k))
    (h : b.finishInput env k = .ok b') :
    Delivers (b.awaiting (fun j => decide (j < k)) i)
      ((b.trimMsgs k).overloadTakes env k i)
      (b'.awaiting (fun j => decide (j < k + 1)) i) := by
  simp only [finishInput, Checked.bind_eq_ok, Checked.pure_eq_ok] at h
  obtain ⟨b₁, htags, b₂, hbuffs, b₃, havail, rfl⟩ := h
  have h₂ : b₂.msgData = b₁.msgData := by
    unfold trimBuffs at hbuffs
    split at hbuffs
    · rw [Checked.pure_eq_ok] at hbuffs
      rw [hbuffs]
    · simp only [Checked.bind_eq_ok, Checked.pure_eq_ok] at hbuffs
      obtain ⟨p, -, rfl⟩ := hbuffs
      rfl
  have h₃ : b₃.msgData = b₂.msgData := by
    simp only [updateInputAvail, Checked.bind_eq_ok,
      Checked.pure_eq_ok] at havail
    obtain ⟨p, -, rfl⟩ := havail
    rfl
  have hphase : (fun j => decide (j < k + 1)) = fun j => decide (j ≤ k) := by
    funext j
    exact decide_eq_decide.mpr Nat.lt_succ_iff
  rw [← trimMsgs_awaiting, hphase]
  show Delivers _ _ (b₃.awaiting (fun j => decide (j ≤ k)) i)
  rw [awaiting_of_msgData (h₃.trans h₂)]
  rcases trimTags_cases htags with ⟨hnone, rfl⟩ | ⟨hsome, b₀, hpass, rfl⟩
  · have htakes : (b.trimMsgs k).overloadTakes env k i = [] := by
      unfold overloadTakes
      split
      · rfl
      · rw [if_pos hnone]
    rw [htakes]
    exact .refl _
  · show Delivers _ _ (b₀.awaiting (fun j => decide (j ≤ k)) i)
    exact passTags_delivers (hmeet hsome) hsome hpass

/-- Finishing the inputs one after the other. -/
theorem finishInputs_deliver {n : Nat}
    (hmeet : ∀ k < n, ∀ s, forRange (finishInput env) k b = .ok s →
      (s.trimMsgs k).passed k ≠ [] → ∀ overload ∈ env.propagateTags,
        CallsMeet (PopsAwaited fun j => decide (j ≤ k)) env.now (overload k)
          (s.trimMsgs k))
    (h : forRange (finishInput env) n b = .ok b') :
    Delivers (b.awaiting (fun _ => false) i) (b.finishTakes env i n)
      (b'.awaiting (fun j => decide (j < n)) i) := by
  induction n generalizing b' with
  | zero =>
      cases h
      have hphase : (fun j => decide (j < 0)) = fun _ => false := by
        funext j
        exact decide_eq_false (Nat.not_lt_zero j)
      rw [hphase]
      exact .refl _
  | succ n ih =>
      obtain ⟨s, hrun, hlast⟩ := forRange_succ_eq_ok.mp h
      have hs := ih (fun k hk => hmeet k (Nat.lt_succ_of_lt hk)) hrun
      rw [finishTakes, hrun]
      exact hs.trans
        (finishInput_delivers (hmeet n (Nat.lt_succ_self n) s hrun) hlast)

/-- **A task** that meets the condition. -/
theorem taskMain_delivers (hmeet : TaskPops env b) (hi : i < b.numInputs)
    (h : b.taskMain env = .ok b') :
    Delivers (b.awaiting (fun _ => true) i) (b.taskTakes env i)
      (b'.awaiting (fun _ => true) i) := by
  cases hallowed : b.isWorkAllowed with
  | false =>
      rw [taskMain_idle hallowed h, taskTakes, if_pos (by simp [hallowed])]
      exact .refl _
  | true =>
      obtain ⟨b₁, b₂, b₃, hprepare, hwork, hfinish, rfl⟩ :=
        taskMain_parts hallowed h
      have hmeet := hmeet hallowed b₁ hprepare b₂ hwork
      rw [taskTakes, if_neg (by simp [hallowed]), hprepare]
      dsimp only
      rw [hwork]
      have hports₁ : b₁.numInputs = b.numInputs :=
        congrArg Control.numInputs (prepare_control hprepare)
      have hports₂ : b₂.numInputs = b₁.numInputs :=
        (taskWork_moves (workWithin_true env) hwork).ports.1
      -- The work pops while the index counts from the first message.
      have h₁ : Delivers (b.awaiting (fun _ => true) i)
          (b₁.atCall.callsTake env.now i env.work)
          (b₂.awaiting (fun _ => false) i) := by
        simp only [taskWork, Checked.bind_eq_ok, Checked.pure_eq_ok] at hwork
        obtain ⟨b₄, hcalls, rfl⟩ := hwork
        rw [← prepare_awaiting hprepare hi]
        show Delivers (b₁.atCall.awaiting (fun _ => false) i) _
            (b₄.awaiting (fun _ => false) i)
        refine calls_delivers (CallsMeet.of_all fun c _ s => ?_) hcalls
        cases c with
        | popInputMsg j =>
            intro hfalse
            cases hfalse
        | _ => trivial
      simp only [finish, Checked.bind_eq_ok] at hfinish
      obtain ⟨b₄, hin, hout⟩ := hfinish
      have h₂ : Delivers (b₂.awaiting (fun _ => false) i)
          (b₂.finishTakes env i b₂.numInputs)
          (b₄.awaiting (fun j => decide (j < b₂.numInputs)) i) :=
        finishInputs_deliver hmeet hin
      have h₃ : b₃.taskKicker.msgData = b₄.msgData := by
        have hkick : b₃.taskKicker.msgData = b₃.msgData := by
          unfold taskKicker
          split <;> rfl
        refine hkick.trans
          (forRange_rule hout (P := fun _ s => s.msgData = b₄.msgData) rfl
          fun n _ s s' hs hf => ?_)
        unfold finishOutput at hf
        split at hf
        · rw [Checked.pure_eq_ok] at hf
          exact hf ▸ hs
        · simp only [Checked.bind_eq_ok, Checked.pure_eq_ok, Prod.exists] at hf
          obtain ⟨buff, p, -, rfl⟩ := hf
          rw [← hs]
          split <;> rfl
      have hphase : b₄.awaiting (fun _ => true) i =
          b₄.awaiting (fun j => decide (j < b₂.numInputs)) i := by
        have hlt : i < b₂.numInputs := by omega
        simp only [awaiting, hlt, decide_true]
      rw [awaiting_of_msgData h₃, hphase]
      exact h₁.trans h₂

end Task

end BlockActor

end Gras
