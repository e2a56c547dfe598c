import Gras.Actor.InputCalls

/-!
# A work that fails an input

`mark_input_fail` clears the ready bit of a port, which makes the task leave the
port out of `inputs_available`; then the same task writes the bit again, from
the bytes of the port.  So there are two ways in which the block can stay asleep
(`Suspends`): the port has less than its reserve, or no input at all is
available.

`WorkSuspends` says of the state in which a work returns that one of the two
comes about, and `taskMain_suspends` that it does.
-/

namespace Gras

namespace InputPort

/-- `has_input_bufs`: there is a buffer to work on. -/
def hasInputBufs (p : InputPort) : Bool := !p.empty && p.ready

/-- The port is not ready, and its bytes do not make it ready. -/
def Starved (p : InputPort) : Prop :=
  p.bit = false ∧ p.enqueuedBytes < p.reserveBytes

/-- When so many items have been consumed, there is no buffer to work on. -/
def Spent (itemsRead : Nat) (p : InputPort) : Prop :=
  if itemsRead = 0 then p.hasInputBufs = false
  else p.enqueuedBytes - itemsRead * p.itemsSize < p.reserveBytes ∨
    drained (itemsRead * p.itemsSize) p.queue.items = []

/-- What the calls of user code keep of a port. -/
structure Stable (P : InputPort → Prop) : Prop where
  held : ∀ {p p' : InputPort}, Held p p' → P p → P p'
  flush : ∀ {p p' : InputPort} {now : Int}, p.flush now = .ok p' → P p → P p'

section Ports

variable {p p' : InputPort} {now : Int}

theorem hasInputBufs_eq_false_iff :
    p.hasInputBufs = false ↔ p.queue.items = [] ∨ p.bit = false := by
  simp only [hasInputBufs, empty, ready, Bool.and_eq_false_iff,
    Bool.not_eq_false', List.isEmpty_iff]

theorem flush_port (h : p.flush now = .ok p') : p'.queue.items = [] ∧
    p'.enqueuedBytes = 0 ∧ p'.reserveBytes = p.reserveBytes ∧
      p'.bit = decide (p.reserveBytes ≤ 0) := by
  rw [update_eq_ok h]
  exact ⟨rfl, rfl, rfl, rfl⟩

theorem stable_hasInputBufs : Stable fun p => p.hasInputBufs = false := by
  constructor
  · intro p p' hheld hp
    rw [hasInputBufs_eq_false_iff] at hp ⊢
    rcases hp with hnil | hbit
    · refine .inl ?_
      rw [hheld.short (by simp [hnil]), hnil]
    · refine .inr ?_
      by_contra hne
      rw [hheld.bit (by simpa using hne)] at hbit
      cases hbit
  · intro p p' now hflush _
    exact hasInputBufs_eq_false_iff.mpr (.inl (flush_port hflush).1)

theorem stable_starved : Stable Starved := by
  constructor
  · intro p p' hheld hp
    refine ⟨?_, by rw [hheld.enqueuedBytes, hheld.reserveBytes]; exact hp.2⟩
    by_contra hne
    have hbit := hheld.bit (by simpa using hne)
    rw [hp.1] at hbit
    cases hbit
  · intro p p' now hflush hp
    obtain ⟨-, henq, hreserve, hbit⟩ := flush_port hflush
    have hless := hp.2
    refine ⟨?_, by omega⟩
    rw [hbit]
    exact decide_eq_false (by omega)

/-- `consume` writes the ready bit. -/
theorem consume_bit {items : Nat} (h : p.consume now items = .ok p') :
    p'.bit = decide (p.reserveBytes ≤
      p.enqueuedBytes - items * p.itemsSize) := by
  unfold consume at h
  dsimp only at h
  split at h
  · simp at h
  · simp only [Checked.bind_eq_ok, Checked.pure_eq_ok] at h
    obtain ⟨-, -, -, -, -, -, -, -, p₁, hupdate, rfl⟩ := h
    rw [update_eq_ok hupdate]
    rfl

/-- **What is spent** is no longer there to work on. -/
theorem Spent.consume {items : Nat} (hp : p.Spent items) (hitems : items ≠ 0)
    (h : p.consume now items = .ok p') : p'.hasInputBufs = false := by
  rw [Spent, if_neg hitems] at hp
  rw [hasInputBufs_eq_false_iff]
  rcases hp with hless | hnil
  · refine .inr ?_
    rw [consume_bit h]
    exact decide_eq_false (Nat.not_le.mpr hless)
  · obtain ⟨-, -, -, -, front, rest, -, -, hqueue⟩ := consume_cases h
    refine .inl ?_
    rw [hqueue, hnil]
    rfl

end Ports

end InputPort

namespace BlockActor

/-! ## What the calls keep of a port -/

section Calls

variable {P : InputPort → Prop} {b b' : BlockActor} {env : Env}
  {now : Int} {i k : Nat}

theorem markDone_stable (hP : InputPort.Stable P) (h : b.markDone now = .ok b')
    (hp : P (b.inputQueues i)) : P (b'.inputQueues i) := by
  obtain ⟨hsame | hflush, -⟩ := markDone_port h i
  · rwa [hsame]
  · exact hP.flush hflush hp

theorem call_stable (hP : InputPort.Stable P) {c : Call}
    (h : b.call now c = .ok b') (hp : P (b.inputQueues i)) :
    P (b'.inputQueues i) := by
  obtain ⟨hheld | hflush, -⟩ := call_port h i
  · exact hP.held hheld hp
  · exact hP.flush hflush hp

/-- A list of calls keeps the port like that, and `inputs_available`. -/
theorem calls_stable (hP : InputPort.Stable P) {cs : List Call}
    (h : b.calls now cs = .ok b') :
    (P (b.inputQueues i) → P (b'.inputQueues i)) ∧
      b'.inputsAvailable = b.inputsAvailable :=
  calls_rule h (R := fun s s' => (P (s.inputQueues i) → P (s'.inputQueues i)) ∧
      s'.inputsAvailable = s.inputsAvailable)
    (fun _ => ⟨id, rfl⟩) (fun h h' => ⟨fun hp => h'.1 (h.1 hp), h'.2.trans h.2⟩)
    fun _ _ _ _ hcall => ⟨call_stable hP hcall, (call_port hcall i).2⟩

theorem attempt_stable (hP : InputPort.Stable P) (cs : List Call) :
    (P (b.inputQueues i) → P ((b.attempt now cs).inputQueues i)) ∧
      (b.attempt now cs).inputsAvailable = b.inputsAvailable :=
  attempt_rule cs b
    (R := fun s s' => (P (s.inputQueues i) → P (s'.inputQueues i)) ∧
      s'.inputsAvailable = s.inputsAvailable)
    (fun _ => ⟨id, rfl⟩) (fun h h' => ⟨fun hp => h'.1 (h.1 hp), h'.2.trans h.2⟩)
    fun _ _ _ _ hcall => ⟨call_stable hP hcall, (call_port hcall i).2⟩

theorem trimTags_stable (hP : InputPort.Stable P)
    (h : b.trimTags env k = .ok b') :
    (P (b.inputQueues i) → P (b'.inputQueues i)) ∧
      b'.inputsAvailable = b.inputsAvailable := by
  rcases trimTags_cases h with ⟨-, rfl⟩ | ⟨-, b₀, hpass, rfl⟩
  · exact ⟨id, rfl⟩
  · exact passTags_rule hpass
      (R := fun s s' => (P (s.inputQueues i) → P (s'.inputQueues i)) ∧
        s'.inputsAvailable = s.inputsAvailable)
      (fun _ => ⟨id, rfl⟩)
        (fun h h' => ⟨fun hp => h'.1 (h.1 hp), h'.2.trans h.2⟩)
      (fun _ _ _ => ⟨id, rfl⟩)
      fun _ _ _ _ _ _ hcall => ⟨call_stable hP hcall, (call_port hcall i).2⟩

/-- Calls before and after one of them. -/
theorem calls_split {pre post : List Call} {c : Call}
    (h : b.calls now (pre ++ c :: post) = .ok b') :
    ∃ s s', b.calls now pre = .ok s ∧ s.call now c = .ok s' ∧
      s'.calls now post = .ok b' := by
  induction pre generalizing b with
  | nil =>
      simp only [List.nil_append, calls, Checked.bind_eq_ok] at h
      obtain ⟨s, hcall, hrest⟩ := h
      exact ⟨b, s, rfl, hcall, hrest⟩
  | cons d pre ih =>
      simp only [List.cons_append, calls, Checked.bind_eq_ok] at h
      obtain ⟨b₁, hd, h⟩ := h
      obtain ⟨s, s', hpre, hcall, hpost⟩ := ih h
      exact ⟨s, s',
        by simp only [calls, Checked.bind_eq_ok]; exact ⟨b₁, hd, hpre⟩, hcall, hpost⟩

end Calls

/-! ## A task -/

/-- The block as its task trims the buffers of an input. -/
def atTrim (env : Env) (b : BlockActor) (i : Nat) : Option BlockActor :=
  (forRange (finishInput env) i b >>= fun s =>
    (s.trimMsgs i).trimTags env i).toOption

/-- `mark_input_fail(i)` does not accumulate, mark the block done or throw: it
fails the port. -/
structure FailsPort (i : Nat) (b : BlockActor) : Prop where
  accumulated : (b.inputQueues i).isAccumulated = true
  notDone : b.inputsDone.bit i = false
  notMaximal : ¬ ((b.inputQueues i).empty = false ∧
    (b.inputQueues i).isFrontMaximal = true)

/-- The work calls `mark_input_fail(i)` where that fails the port, and nothing
of the port is consumed. -/
structure FailsInput (env : Env) (i : Nat) (b : BlockActor) : Prop where
  fails : ∃ pre fresh post s, env.work = pre ++ .markInputFail i fresh :: post ∧
    b.atCall.calls env.now pre = .ok s ∧ s.FailsPort i
  unread : ∀ b', b.taskWork env = .ok b' →
    ∀ t ∈ b'.atTrim env i, t.numInputItemsRead i = 0

/-- **When the task suspends the block.**  The messages of the failed port are
all popped; and the port has less than its reserve, or every other input is
spent. -/
structure WorkSuspends (env : Env) (i : Nat) (b : BlockActor) : Prop where
  popped : ∀ t ∈ b.atTrim env i, t.inputMsgs i = []
  enough : (∀ t ∈ b.atTrim env i,
      (t.inputQueues i).enqueuedBytes < (t.inputQueues i).reserveBytes) ∨
    ∀ j < b.numInputs, j ≠ i → ∀ t ∈ b.atTrim env j,
      t.inputMsgs j = [] ∧ (t.inputQueues j).Spent (t.numInputItemsRead j)

/-- **The block stays asleep** until something arrives on the port, or on
another input. -/
def Suspends (i : Nat) (b : BlockActor) : Prop :=
  (b.inputQueues i).Starved ∨ b.inputsAvailable.any = false

section Task

variable {P : InputPort → Prop} {b b' s : BlockActor} {env : Env} {now : Int}
  {i j k n : Nat}

/-- A suspended block does not work. -/
theorem Suspends.not_ready (hs : b.Suspends i) (hi : i < b.numInputs) :
    b.isReady = false := by
  by_contra hready
  obtain ⟨-, hany, hinputs, -⟩ := isReady_iff.mp (by simpa using hready)
  rcases hs with hstarved | hnone
  · have hbit := inputsReady_iff.mp hinputs i hi
    rw [InputPort.ready, hstarved.1] at hbit
    cases hbit
  · rw [hnone] at hany
    cases hany

/-- What the post-work tasks of an input do, from where its buffers are
trimmed. -/
theorem finishInput_parts (h : b.finishInput env k = .ok b') :
    ∃ t p q, (b.trimMsgs k).trimTags env k = .ok t ∧
      (t.numInputItemsRead k = 0 ∧ p = t.inputQueues k ∨
        t.numInputItemsRead k ≠ 0 ∧
          (t.inputQueues k).consume env.now (t.numInputItemsRead k) = .ok p) ∧
      p.updateHasMsg env.now (!(t.inputMsgs k).isEmpty) = .ok q ∧
      b'.inputQueues = Function.update t.inputQueues k q ∧
      b'.inputsAvailable =
        t.inputsAvailable.set k
          (p.hasInputBufs || !(t.inputMsgs k).isEmpty) := by
  simp only [finishInput, Checked.bind_eq_ok, Checked.pure_eq_ok] at h
  obtain ⟨t, htags, b₂, hbuffs, b₃, havail, rfl⟩ := h
  simp only [updateInputAvail, Checked.bind_eq_ok, Checked.pure_eq_ok] at havail
  obtain ⟨q, hupdate, rfl⟩ := havail
  unfold trimBuffs at hbuffs
  split at hbuffs
  · rename_i hread
    rw [Checked.pure_eq_ok] at hbuffs
    subst hbuffs
    exact ⟨t, _, q, htags, .inl ⟨hread, rfl⟩, hupdate, rfl, rfl⟩
  · rename_i hread
    simp only [Checked.bind_eq_ok, Checked.pure_eq_ok] at hbuffs
    obtain ⟨p, hconsume, rfl⟩ := hbuffs
    simp only [setInput_inputQueues, Function.update_self] at hupdate
    refine ⟨t, p, q, htags, .inr ⟨hread, hconsume⟩, hupdate, ?_, ?_⟩
    · simp only [setInput_inputQueues, Function.update_idem]
    · show BitSet.set k
          (((Function.update t.inputQueues k p) k).hasInputBufs || _) _ = _
      rw [Function.update_self]
      rfl

/-- Finishing another input keeps a port. -/
theorem finishInput_stable (hP : InputPort.Stable P) (hik : i ≠ k)
    (h : b.finishInput env k = .ok b') (hp : P (b.inputQueues i)) :
    P (b'.inputQueues i) := by
  obtain ⟨t, p, q, htags, -, -, hqueues, -⟩ := finishInput_parts h
  rw [hqueues, Function.update_of_ne hik]
  exact (trimTags_stable hP htags).1 hp

/-- In a loop over the inputs, the state in which the buffers of one are
trimmed. -/
theorem mem_atTrim {t : BlockActor}
    (hrun : forRange (finishInput env) k b = .ok s)
    (htags : (s.trimMsgs k).trimTags env k = .ok t) : t ∈ b.atTrim env k := by
  rw [atTrim, hrun, Checked.ok_bind, htags]
  rfl

/-- **A failed port with less than its reserve** is starved once it is
finished. -/
theorem finishInputs_starved (hi : i < n)
    (hunread : ∀ t ∈ b.atTrim env i, t.numInputItemsRead i = 0)
    (hpopped : ∀ t ∈ b.atTrim env i, t.inputMsgs i = [])
    (hless : ∀ t ∈ b.atTrim env i,
      (t.inputQueues i).enqueuedBytes < (t.inputQueues i).reserveBytes)
    (h : forRange (finishInput env) n b = .ok b') :
    (b'.inputQueues i).Starved := by
  refine (forRange_rule h
    (P := fun k s => forRange (finishInput env) k b = .ok s ∧
    (i < k → (s.inputQueues i).Starved))
    ⟨rfl, fun hlt => absurd hlt (Nat.not_lt_zero i)⟩
    fun k _ s s' hs hf => ?_).2 hi
  obtain ⟨hrun, hstarved⟩ := hs
  refine ⟨forRange_succ_eq_ok.mpr ⟨s, hrun, hf⟩, fun hlt => ?_⟩
  by_cases hik : i = k
  · subst hik
    obtain ⟨t, p, q, htags, hport, hupdate, hqueues, -⟩ := finishInput_parts hf
    have hat := mem_atTrim hrun htags
    rcases hport with ⟨-, rfl⟩ | ⟨hread, -⟩
    · rw [hpopped t hat] at hupdate
      have hq := InputPort.update_eq_ok (p := t.inputQueues i) hupdate
      have hfew := hless t hat
      rw [hqueues, Function.update_self, hq]
      exact ⟨decide_eq_false (Nat.not_le.mpr hfew), hfew⟩
    · exact absurd (hunread t hat) hread
  · exact finishInput_stable InputPort.stable_starved hik hf
      (hstarved (by omega))

/-- **When every input is spent**, none is available after they are finished. -/
theorem finishInputs_spent (hfails : (b.inputQueues i).hasInputBufs = false)
    (hunread : ∀ t ∈ b.atTrim env i, t.numInputItemsRead i = 0)
    (hpopped : ∀ t ∈ b.atTrim env i, t.inputMsgs i = [])
    (hspent : ∀ j < n, j ≠ i → ∀ t ∈ b.atTrim env j,
      t.inputMsgs j = [] ∧ (t.inputQueues j).Spent (t.numInputItemsRead j))
    (h : forRange (finishInput env) n b = .ok b') :
    (∀ j < n, b'.inputsAvailable.bit j = false) ∧
      b'.inputsAvailable.size = b.inputsAvailable.size := by
  refine (forRange_rule h
    (P := fun k s => forRange (finishInput env) k b = .ok s ∧
    (k ≤ i → (s.inputQueues i).hasInputBufs = false) ∧
    (∀ j < k, s.inputsAvailable.bit j = false) ∧
      s.inputsAvailable.size = b.inputsAvailable.size)
    ⟨rfl, fun _ => hfails, fun j hj => absurd hj (Nat.not_lt_zero j), rfl⟩
    fun k hk s s' hs hf => ?_).2.2
  obtain ⟨hrun, hfailed, hbits, hsize⟩ := hs
  obtain ⟨t, p, q, htags, hport, hupdate, hqueues, havailable⟩ :=
    finishInput_parts hf
  have hat := mem_atTrim hrun htags
  have hsame := (trimTags_stable (i := i) InputPort.stable_hasInputBufs htags)
  -- The port that is finished has no buffer and no message.
  have hnone : p.hasInputBufs = false ∧ t.inputMsgs k = [] := by
    by_cases hki : k = i
    · subst hki
      refine ⟨?_, hpopped t hat⟩
      rcases hport with ⟨-, rfl⟩ | ⟨hread, -⟩
      · exact hsame.1 (hfailed (Nat.le_refl k))
      · exact absurd (hunread t hat) hread
    · obtain ⟨hmsgs, hspent⟩ := hspent k hk hki t hat
      refine ⟨?_, hmsgs⟩
      rcases hport with ⟨hread, rfl⟩ | ⟨hread, hconsume⟩
      · rwa [InputPort.Spent, if_pos hread] at hspent
      · exact hspent.consume hread hconsume
  rw [hnone.1, hnone.2] at havailable
  refine ⟨forRange_succ_eq_ok.mpr ⟨s, hrun, hf⟩, fun hle => ?_,
    fun j hj => ?_, ?_⟩
  · exact finishInput_stable InputPort.stable_hasInputBufs (by omega) hf
      (hfailed (by omega))
  · rw [havailable]
    by_cases hjk : j = k
    · rw [hjk, BitSet.set_bit_self]
      rfl
    · rw [BitSet.set_bit_of_ne hjk, hsame.2]
      exact hbits j (by omega)
  · rw [havailable, BitSet.set_size, hsame.2]
    exact hsize

/-- **The work** leaves the failed port without a buffer to work on. -/
theorem taskWork_fails (hfail : b.FailsInput env i)
    (h : b.taskWork env = .ok b') :
    (b'.inputQueues i).hasInputBufs = false ∧
      b'.inputsAvailable = b.inputsAvailable := by
  simp only [taskWork, Checked.bind_eq_ok, Checked.pure_eq_ok] at h
  obtain ⟨b₁, hcalls, rfl⟩ := h
  have havailable : b₁.inputsAvailable = b.inputsAvailable :=
    (calls_stable (b := b.atCall)
      (i := i) InputPort.stable_hasInputBufs hcalls).2
  obtain ⟨pre, fresh, post, s, hwork, hpre, hport⟩ := hfail.fails
  have hcalls : b.atCall.calls env.now env.work = .ok b₁ := hcalls
  rw [hwork] at hcalls
  obtain ⟨s₁, s₂, hpre', hcall, hpost⟩ := calls_split hcalls
  rw [hpre] at hpre'
  cases hpre'
  have hfailed : (s₂.inputQueues i).hasInputBufs = false := by
    simp only [call, inputFail] at hcall
    rw [if_neg (not_not.mpr hport.accumulated),
      if_neg (by simp [hport.notDone]),
      if_neg (by simpa using hport.notMaximal), Checked.pure_eq_ok] at hcall
    subst hcall
    rw [setInput_inputQueues, Function.update_self]
    exact InputPort.hasInputBufs_eq_false_iff.mpr (.inr rfl)
  exact ⟨(calls_stable InputPort.stable_hasInputBufs hpost).1
    hfailed, havailable⟩

theorem prepare_available (h : b.prepare env = .ok b') :
    b'.inputsAvailable = b.inputsAvailable := by
  simp only [prepare, Checked.bind_eq_ok, Prod.exists] at h
  obtain ⟨b₁, l, hin, hout⟩ := h
  have h₁ : b₁.inputsAvailable = b.inputsAvailable := forRange_rule hin
    (P := fun _ s => s.1.inputsAvailable = b.inputsAvailable) rfl
    fun k _ s s' hs hf => by
      have hsort : (s.1.sortTags k).inputsAvailable = s.1.inputsAvailable := by
        unfold sortTags
        split <;> rfl
      simp only [prepareInput, Checked.bind_eq_ok, Prod.exists] at hf
      obtain ⟨-, -, buff, p, memory, -, hf⟩ := hf
      split at hf
      · simp only [Checked.bind_eq_ok, Checked.pure_eq_ok] at hf
        obtain ⟨q, -, rfl⟩ := hf
        exact hsort.trans hs
      · rw [Checked.pure_eq_ok] at hf
        subst hf
        exact hsort.trans hs
  refine (forRange_rule hout
    (P := fun _ s => s.inputsAvailable = b₁.inputsAvailable) rfl
    fun k _ s s' hs hf => ?_).trans h₁
  simp only [prepareOutput, Checked.bind_eq_ok, Checked.pure_eq_ok,
    Prod.exists] at hf
  obtain ⟨-, -, buff, p, -, -, -, rfl⟩ := hf
  exact hs

/-- After the inputs the task leaves them alone. -/
theorem finishOutputs_inputs (h : forRange (finishOutput now) n b = .ok b') :
    b'.taskKicker.inputQueues = b.inputQueues ∧
      b'.taskKicker.inputsAvailable = b.inputsAvailable := by
  have hloop := forRange_rule h (P := fun _ s => s.inputQueues = b.inputQueues ∧
      s.inputsAvailable = b.inputsAvailable) ⟨rfl, rfl⟩ fun k _ s s' hs hf => by
    unfold finishOutput at hf
    split at hf
    · rw [Checked.pure_eq_ok] at hf
      exact hf ▸ hs
    · simp only [Checked.bind_eq_ok, Checked.pure_eq_ok, Prod.exists] at hf
      obtain ⟨buff, p, -, rfl⟩ := hf
      split <;> exact hs
  unfold taskKicker
  split <;> exact hloop

/-- **A task whose work fails an input** and meets the condition suspends the
block. -/
theorem taskMain_suspends {b₁ : BlockActor} (hallowed : b.isWorkAllowed = true)
    (hprepare : b.prepare env = .ok b₁) (hi : i < b.numInputs)
    (hsize : b.inputsAvailable.size = b.numInputs) (hfail : b₁.FailsInput env i)
    (hcond : ∀ b₂, b₁.taskWork env = .ok b₂ → b₂.WorkSuspends env i)
    (h : b.taskMain env = .ok b') : b'.Suspends i := by
  obtain ⟨b₁', b₂, b₃, hprepare', hwork, hfinish, rfl⟩ :=
    taskMain_parts hallowed h
  rw [hprepare] at hprepare'
  cases hprepare'
  have hports : b₂.numInputs = b.numInputs :=
    (taskWork_moves (workWithin_true env) hwork).ports.1.trans
      (congrArg Control.numInputs (prepare_control hprepare))
  obtain ⟨hpopped, henough⟩ := hcond b₂ hwork
  obtain ⟨hfailed, hwork'⟩ := taskWork_fails hfail hwork
  have hunread := hfail.unread b₂ hwork
  simp only [finish, Checked.bind_eq_ok] at hfinish
  obtain ⟨b₄, hin, hout⟩ := hfinish
  obtain ⟨hqueues, havailable⟩ := finishOutputs_inputs hout
  unfold Suspends
  rw [hqueues, havailable]
  rcases henough with hless | hspent
  · exact .inl (finishInputs_starved (hports ▸ hi) hunread hpopped hless hin)
  · refine .inr ?_
    obtain ⟨hbits, hsize'⟩ :=
      finishInputs_spent hfailed hunread hpopped hspent hin
    by_contra hany
    obtain ⟨j, hj, hbit⟩ := (BitSet.any_iff _).mp (by simpa using hany)
    rw [hsize', hwork', prepare_available hprepare, hsize, ← hports] at hj
    rw [hbits j hj] at hbit
    cases hbit

/-- A task leaves `inputs_available` as long as it is. -/
theorem taskMain_availableSize (h : b.taskMain env = .ok b') :
    b'.inputsAvailable.size = b.inputsAvailable.size := by
  cases hallowed : b.isWorkAllowed with
  | false => rw [taskMain_idle hallowed h]
  | true =>
      obtain ⟨b₁, b₂, b₃, hprepare, hwork, hfinish, rfl⟩ :=
        taskMain_parts hallowed h
      simp only [finish, Checked.bind_eq_ok] at hfinish
      obtain ⟨b₄, hin, hout⟩ := hfinish
      rw [(finishOutputs_inputs hout).2]
      have h₄ : b₄.inputsAvailable.size = b₂.inputsAvailable.size :=
        forRange_rule hin
        (P := fun _ s => s.inputsAvailable.size = b₂.inputsAvailable.size) rfl
        fun k _ s s' hs hf => by
          obtain ⟨t, p, q, htags, -, -, -, havailable⟩ := finishInput_parts hf
          rw [havailable, BitSet.set_size,
            (trimTags_stable (i := k) InputPort.stable_starved htags).2]
          exact hs
      simp only [taskWork, Checked.bind_eq_ok, Checked.pure_eq_ok] at hwork
      obtain ⟨b₅, hcalls, rfl⟩ := hwork
      have h₅ : b₅.inputsAvailable = b₁.inputsAvailable :=
        (calls_stable (b := b₁.atCall)
          (i := 0) InputPort.stable_starved hcalls).2
      rw [h₄]
      show b₅.inputsAvailable.size = _
      rw [h₅, prepare_available hprepare]

end Task

end BlockActor

end Gras
