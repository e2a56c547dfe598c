import Gras.Actor.BlockRuns

/-!
# Conditions on the calls of user code

A condition `ok` on the state in which a call is made and on the call, asked of
a list of calls (`CallsMeet`), of a task (`TaskMeets`) and of the handler of a
message (`HandlerMeets`).  The rules say what calls that meet it do.
-/

namespace Gras

/-- The calls that may mark a block done. -/
def Call.marks : Call → Bool
  | markDone => true
  | markInputFail _ _ => true
  | _ => false

namespace BlockActor

/-- The call marks a block done that is not. -/
def marksDone (b : BlockActor) : Call → Bool
  | .markDone => b.blockState != .done
  | .markInputFail i _ =>
      b.blockState != .done && (b.inputQueues i).isAccumulated &&
        b.inputsDone.bit i
  | _ => false

/-- Only these calls mark a block done. -/
theorem marksDone_of_marks {b : BlockActor} {c : Call} (h : c.marks = false) :
    b.marksDone c = false := by
  cases c with
  | markDone => cases h
  | markInputFail i fresh => cases h
  | _ => rfl

/-- Every call that is made meets the condition. -/
def CallsMeet (ok : BlockActor → Call → Prop) (now : Int) :
    List Call → BlockActor → Prop
  | [], _ => True
  | c :: cs, b => ok b c ∧
      match b.call now c with
      | .ok b' => CallsMeet ok now cs b'
      | .error _ => True

instance decidableCallsMeet {ok : BlockActor → Call → Prop}
    [∀ b c, Decidable (ok b c)] (now : Int) :
    ∀ (cs : List Call) (b : BlockActor), Decidable (CallsMeet ok now cs b)
  | [], _ => isTrue trivial
  | c :: cs, b =>
      match hc : b.call now c with
      | .ok b' =>
          have : Decidable (CallsMeet ok now cs b') :=
            decidableCallsMeet now cs b'
          decidable_of_iff (ok b c ∧ CallsMeet ok now cs b')
            (by simp [CallsMeet, hc])
      | .error _ => decidable_of_iff (ok b c) (by simp [CallsMeet, hc])

/-- The tags of a port that are to be passed on. -/
def passed (i : Nat) (b : BlockActor) : List Tag :=
  (b.inputTags i).takeWhile fun t => decide (t.offset < b.stats.itemsConsumed i)

/-- The block as it calls work. -/
def atCall (b : BlockActor) : BlockActor :=
  { b with
    stats := { b.stats with workCount := b.stats.workCount + 1 }
    onThread := b.interruptibleThread }

/-- Every call of a work and of an overload of `propagate_tags`. -/
structure WorkMeets (ok : BlockActor → Call → Prop) (env : Env)
    (b : BlockActor) : Prop where
  work : CallsMeet ok env.now env.work b.atCall
  tags : ∀ b', b.taskWork env = .ok b' → ∀ i < b'.numInputs, ∀ s,
    forRange (finishInput env) i b' = .ok s → (s.trimMsgs i).passed i ≠ [] →
      ∀ overload ∈ env.propagateTags,
      CallsMeet ok env.now (overload i) (s.trimMsgs i)

/-- Every call of a task. -/
def TaskMeets (ok : BlockActor → Call → Prop) (env : Env)
    (b : BlockActor) : Prop :=
  b.isWorkAllowed = true → ∀ b', b.prepare env = .ok b' → WorkMeets ok env b'

/-- Every call that the handler of a message makes. -/
structure HandlerMeets (ok : BlockActor → Call → Prop) (env : Env)
    (b : BlockActor) (m : Message) : Prop where
  task : ∀ b', b.enter env m = some (.ok b') → TaskMeets ok env b'
  called : ∀ key sender, m = .callable key sender →
    CallsMeet ok env.now env.called b

section Rules

variable {ok : BlockActor → Call → Prop} {b b' : BlockActor}
  {env : Env} {now : Int}

/-- **The rule for a list of calls** that meet the condition. -/
theorem CallsMeet.rule {cs : List Call} (hmeet : CallsMeet ok now cs b)
    (h : b.calls now cs = .ok b') {R : BlockActor → BlockActor → Prop}
    (hrefl : ∀ s, R s s) (htrans : ∀ {s t u}, R s t → R t u → R s u)
    (hcall : ∀ c ∈ cs, ∀ s s', ok s c → s.call now c = .ok s' → R s s') :
    R b b' := by
  induction cs generalizing b with
  | nil =>
      rw [calls, Checked.pure_eq_ok] at h
      exact h ▸ hrefl b
  | cons c cs ih =>
      simp only [calls, Checked.bind_eq_ok] at h
      obtain ⟨b₁, hc, h⟩ := h
      rw [CallsMeet, hc] at hmeet
      have hhead := hcall c List.mem_cons_self b b₁ hmeet.1 hc
      exact htrans hhead
        (ih hmeet.2 h fun d hd => hcall d (List.mem_cons_of_mem _ hd))

/-- The same for calls of which the first failure is caught. -/
theorem CallsMeet.attempt_rule {cs : List Call} (hmeet : CallsMeet ok now cs b)
    {R : BlockActor → BlockActor → Prop} (hrefl : ∀ s, R s s)
    (htrans : ∀ {s t u}, R s t → R t u → R s u)
    (hcall : ∀ c ∈ cs, ∀ s s', ok s c → s.call now c = .ok s' → R s s') :
    R b (b.attempt now cs) := by
  induction cs generalizing b with
  | nil => exact hrefl b
  | cons c cs ih =>
      rw [attempt]
      split
      · rename_i b₁ hc
        rw [CallsMeet, hc] at hmeet
        have hhead := hcall c List.mem_cons_self b b₁ hmeet.1 hc
        exact htrans hhead
          (ih hmeet.2 fun d hd => hcall d (List.mem_cons_of_mem _ hd))
      · exact hrefl b

/-- Such a call does nothing else. -/
theorem markDone_of_call {c : Call} (hdone : b.marksDone c = true)
    (h : b.call now c = .ok b') : b.markDone now = .ok b' := by
  cases c with
  | markDone => exact h
  | markInputFail i fresh =>
      simp only [marksDone, Bool.and_eq_true] at hdone
      obtain ⟨⟨-, haccum⟩, hbit⟩ := hdone
      rw [call, inputFail, if_neg (not_not.mpr haccum), if_pos hbit] at h
      exact h
  | _ => cases hdone

/-- A stronger condition. -/
theorem CallsMeet.mono {ok' : BlockActor → Call → Prop} {cs : List Call}
    (hmeet : CallsMeet ok now cs b) (hok : ∀ s, ∀ c ∈ cs, ok s c → ok' s c) :
    CallsMeet ok' now cs b := by
  induction cs generalizing b with
  | nil => trivial
  | cons c cs ih =>
      refine ⟨hok b c List.mem_cons_self hmeet.1, ?_⟩
      have hrest := hmeet.2
      split
      · rename_i b₁ hc
        rw [hc] at hrest
        exact ih hrest fun s d hd => hok s d (List.mem_cons_of_mem _ hd)
      · trivial

/-- A condition that the calls meet in every state. -/
theorem CallsMeet.of_all {cs : List Call} (hok : ∀ c ∈ cs, ∀ s, ok s c) :
    CallsMeet ok now cs b := by
  induction cs generalizing b with
  | nil => trivial
  | cons c cs ih =>
      refine ⟨hok c List.mem_cons_self b, ?_⟩
      split
      · exact ih fun d hd => hok d (List.mem_cons_of_mem _ hd)
      · trivial

/-- Trimming the tags of a port: nothing to be done, or the tags are passed on
and then dropped. -/
theorem trimTags_cases {i : Nat} (h : b.trimTags env i = .ok b') :
    b.passed i = [] ∧ b' = b ∨
      b.passed i ≠ [] ∧ ∃ b₁, b.passTags env i (b.passed i) = .ok b₁ ∧
        b' = { b₁ with
          inputTags := Function.update b₁.inputTags i
            ((b₁.inputTags i).drop (b.passed i).length)
          stats := { b₁.stats with
            tagsConsumed := Function.update b₁.stats.tagsConsumed i
              (b₁.stats.tagsConsumed i + (b.passed i).length) } } := by
  unfold trimTags at h
  dsimp only at h
  split at h
  · rename_i hnone
    rw [Checked.pure_eq_ok] at h
    exact .inl ⟨List.eq_nil_of_length_eq_zero hnone, h.symm⟩
  · rename_i hsome
    simp only [Checked.bind_eq_ok, Checked.pure_eq_ok] at h
    obtain ⟨b₁, hpass, rfl⟩ := h
    exact .inr ⟨fun hnil => hsome (congrArg List.length hnil), b₁, hpass, rfl⟩

end Rules

end BlockActor

end Gras
