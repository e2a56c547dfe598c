import Mathlib.Logic.Relation
import Gras.Actor.UserCalls
import Gras.Buffers.PortSteps

/-!
# What happens to the ports of a block

Whatever a block does, each of its ports goes through a sequence of operations
(`PortsMove`), so an invariant of the operations of a port is an invariant of
the ports of a block.
-/

namespace Gras

/-- What a message hands to a port. -/
def Message.Supplied (S : Supply) : Message → Prop
  | .input _ (.buffer buffer) => S.arrives buffer
  | .output _ (.buffer buffer) => S.returns buffer
  | .output _ (.alloc queue) => S.queue queue
  | _ => True

/-- The calls of a task: those of work, and those of an overload of
`propagate_tags`. -/
def Env.Calls (env : Env) (c : Call) : Prop :=
  c ∈ env.work ∨ ∃ overload ∈ env.propagateTags, ∃ i, c ∈ overload i

namespace BlockActor

/-- Every port has gone through operations. -/
structure PortsMove (S : Supply) (now : Int) (b b' : BlockActor) : Prop where
  input : ∀ i, Relation.ReflTransGen (InputPort.Step S now) (b.inputQueues i)
    (b'.inputQueues i)
  output : ∀ o, Relation.ReflTransGen (OutputPort.Step S now) (b.outputQueues o)
    (b'.outputQueues o)
  initTime : b'.initTime = b.initTime

section Moves

variable {S : Supply} {b b' b'' : BlockActor} {env : Env}
  {now : Int} {i o : Nat}

theorem PortsMove.refl (b : BlockActor) : PortsMove S now b b :=
  ⟨fun _ => .refl, fun _ => .refl, rfl⟩

theorem PortsMove.trans (h : PortsMove S now b b')
    (h' : PortsMove S now b' b'') : PortsMove S now b b'' :=
  ⟨fun i => (h.input i).trans (h'.input i),
    fun o => (h.output o).trans (h'.output o), h'.initTime.trans h.initTime⟩

/-- The ports stay. -/
theorem PortsMove.of_eq (hin : b'.inputQueues = b.inputQueues)
    (hout : b'.outputQueues = b.outputQueues)
    (hinit : b'.initTime = b.initTime) : PortsMove S now b b' := by
  refine ⟨fun i => ?_, fun o => ?_, hinit⟩
  · rw [hin]
  · rw [hout]

/-- One input port moves. -/
theorem PortsMove.of_input {p : InputPort}
    (h : Relation.ReflTransGen (InputPort.Step S now) (b.inputQueues i) p)
    (hin : b'.inputQueues = Function.update b.inputQueues i p)
    (hout : b'.outputQueues = b.outputQueues)
    (hinit : b'.initTime = b.initTime) : PortsMove S now b b' := by
  refine ⟨fun j => ?_, fun o => ?_, hinit⟩
  · rw [hin]
    by_cases hji : j = i
    · subst hji
      rwa [Function.update_self]
    · rw [Function.update_of_ne hji]
  · rw [hout]

/-- One output port moves. -/
theorem PortsMove.of_output {p : OutputPort}
    (h : Relation.ReflTransGen (OutputPort.Step S now) (b.outputQueues o) p)
    (hin : b'.inputQueues = b.inputQueues)
    (hout : b'.outputQueues = Function.update b.outputQueues o p)
    (hinit : b'.initTime = b.initTime) : PortsMove S now b b' := by
  refine ⟨fun i => ?_, fun j => ?_, hinit⟩
  · rw [hin]
  · rw [hout]
    by_cases hjo : j = o
    · subst hjo
      rwa [Function.update_self]
    · rw [Function.update_of_ne hjo]

/-- A loop whose rounds move the ports. -/
theorem forRange_ports {f : Nat → BlockActor → Checked BlockActor} {n : Nat}
    (h : forRange f n b = .ok b')
    (hstep : ∀ i s s', f i s = .ok s' → PortsMove S now s s') :
    PortsMove S now b b' :=
  forRange_relates h (R := PortsMove S now) .refl .trans fun i _ s s' hf =>
    hstep i s s' hf

/-! ### The calls -/

theorem flushOutput_ports (h : b.flushOutput now o = .ok b') :
    PortsMove S now b b' := by
  unfold flushOutput at h
  split at h
  · rw [Checked.pure_eq_ok] at h
    exact h ▸ .refl b
  · simp only [Checked.bind_eq_ok, Prod.exists] at h
    obtain ⟨buff, p, hfront, h⟩ := h
    split at h
    · rw [Checked.pure_eq_ok] at h
      subst h
      exact .of_output (.single (.look hfront)) rfl rfl rfl
    · simp only [Checked.bind_eq_ok, Checked.pure_eq_ok] at h
      obtain ⟨q, hpop, rfl⟩ := h
      exact .of_output (.tail (.single (.look hfront)) (.pop hpop)) rfl rfl rfl

theorem markDone_ports (h : b.markDone now = .ok b') :
    PortsMove S now b b' := by
  rcases markDone_cases h with ⟨-, rfl⟩ | ⟨-, b₁, hout, -, b₂, hin, rfl⟩
  · exact .refl _
  · have h₁ : PortsMove S now b b₁ := by
      refine PortsMove.trans ?_
        (forRange_ports hout fun o s s' hf => flushOutput_ports hf)
      exact .of_eq rfl rfl rfl
    have h₂ : PortsMove S now b₁ b₂ := by
      refine PortsMove.trans ?_ (forRange_ports hin fun i s s' hf => ?_)
      · exact .of_eq rfl rfl rfl
      · simp only [flushInput, Checked.bind_eq_ok, Checked.pure_eq_ok] at hf
        obtain ⟨p, hflush, rfl⟩ := hf
        exact .of_input (.single (.flush hflush)) rfl rfl rfl
    refine (h₁.trans h₂).trans ⟨fun i => .refl, fun o => ?_, rfl⟩
    show Relation.ReflTransGen _ (b₂.outputQueues o)
      (if o < b₂.numOutputs then (b₂.outputQueues o).flush now
        else b₂.outputQueues o)
    split
    · exact .single .flush
    · exact .refl

theorem produce_ports {items : Nat} (h : b.produce o items = .ok b') :
    PortsMove S now b b' := by
  simp only [produce, Checked.bind_eq_ok, Checked.pure_eq_ok] at h
  obtain ⟨p, hproduce, rfl⟩ := h
  simp only [OutputPort.produce, Checked.bind_eq_ok, Checked.pure_eq_ok,
    Prod.exists] at hproduce
  obtain ⟨buff, p₁, hfront, -, -, rfl⟩ := hproduce
  exact .of_output (.single (.write _ hfront)) rfl rfl rfl

theorem taskKicker_ports (b : BlockActor) : PortsMove S now b b.taskKicker := by
  unfold taskKicker
  split <;> exact .of_eq rfl rfl rfl

theorem threadStep_ports (b : BlockActor) (event : ThreadEvent) :
    PortsMove S now b (b.threadStep event) := by
  cases event with
  | post m => rw [threadStep]; split <;> exact .of_eq rfl rfl rfl
  | prepare m => rw [threadStep]; split <;> exact .of_eq rfl rfl rfl
  | send k => rw [threadStep]; split <;> exact .of_eq rfl rfl rfl
  | _ => exact .of_eq rfl rfl rfl

/-- **A call** moves the ports. -/
theorem call_ports {c : Call} (h : b.call now c = .ok b') :
    PortsMove S now b b' := by
  cases c with
  | consume i items =>
      simp only [call, Checked.bind_eq_ok, Checked.pure_eq_ok] at h
      obtain ⟨-, -, rfl⟩ := h
      exact .of_eq rfl rfl rfl
  | produce o items =>
      simp only [call, Checked.bind_eq_ok] at h
      obtain ⟨-, -, h⟩ := h
      exact produce_ports h
  | popInputMsg i =>
      rw [call, Checked.pure_eq_ok] at h
      subst h
      unfold popInputMsg
      split <;> exact .of_eq rfl rfl rfl
  | postOutputTag o tag =>
      rw [call, Checked.pure_eq_ok] at h
      exact h ▸ .of_eq rfl rfl rfl
  | postOutputMsg o msg =>
      rw [call, Checked.pure_eq_ok] at h
      exact h ▸ .of_eq rfl rfl rfl
  | markInputFail i fresh =>
      simp only [call, inputFail] at h
      split at h
      · simp only [Checked.bind_eq_ok, Checked.pure_eq_ok, Prod.exists] at h
        obtain ⟨p, memory, haccum, rfl⟩ := h
        refine PortsMove.trans ?_ (taskKicker_ports _)
        exact .of_input (.single (.accumulate haccum)) rfl rfl rfl
      · split at h
        · exact markDone_ports h
        · split at h
          · simp at h
          · rw [Checked.pure_eq_ok] at h
            subst h
            exact .of_input (.single .fail) rfl rfl rfl
  | markOutputFail o =>
      simp only [call, outputFail, Checked.bind_eq_ok, Prod.exists] at h
      obtain ⟨buff, p, hfront, h⟩ := h
      split at h
      · simp at h
      · rw [Checked.pure_eq_ok] at h
        subst h
        exact .of_output (.tail (.single (.look hfront)) .fail) rfl rfl rfl
  | markDone => exact markDone_ports h
  | getInputBuffer i fresh =>
      simp only [call, getInputBuffer, Checked.bind_eq_ok, Checked.pure_eq_ok,
        Prod.exists] at h
      obtain ⟨buff, p, memory, hfront, rfl⟩ := h
      obtain heq | hstep : p = b.inputQueues i ∨
          InputPort.Step S now (b.inputQueues i) p :=
        InputPort.front_step hfront
      · exact .of_eq
          (by rw [setInput_inputQueues, heq, Function.update_eq_self]) rfl rfl
      · exact .of_input (.single hstep) rfl rfl rfl
  | getOutputBuffer o =>
      simp only [call, storeLength, Checked.bind_eq_ok, Checked.pure_eq_ok,
        Prod.exists] at h
      obtain ⟨buff, p, hfront, rfl⟩ := h
      exact .of_output (.single (.write _ hfront)) rfl rfl rfl
  | popOutputBuffer o numBytes =>
      simp only [call, storeLength, Checked.bind_eq_ok, Checked.pure_eq_ok,
        Prod.exists] at h
      obtain ⟨buff, p, hfront, rfl⟩ := h
      exact .of_output (.single (.write _ hfront)) rfl rfl rfl
  | postOutputBuffer o buffer =>
      simp only [call, postOutputBuffer, Checked.bind_eq_ok] at h
      obtain ⟨p, hinline, -, -, -, -, h⟩ := h
      refine PortsMove.trans ?_ (produce_ports h)
      exact .of_output (.single (.setInline hinline)) rfl rfl rfl
  | postInput i message =>
      rw [call, Checked.pure_eq_ok] at h
      exact h ▸ .of_eq rfl rfl rfl
  | thread event =>
      rw [call, Checked.pure_eq_ok] at h
      exact h ▸ threadStep_ports b event

theorem calls_ports {cs : List Call} (h : b.calls now cs = .ok b') :
    PortsMove S now b b' :=
  calls_rule h .refl .trans fun _ _ _ _ hcall => call_ports hcall

/-! ### The task -/

theorem updateInputAvail_ports (h : b.updateInputAvail now i = .ok b') :
    PortsMove S now b b' := by
  simp only [updateInputAvail, Checked.bind_eq_ok, Checked.pure_eq_ok] at h
  obtain ⟨p, hupdate, rfl⟩ := h
  exact .of_input (.single (.updateHasMsg hupdate)) rfl rfl rfl

theorem prepareInput_ports {j j' : Nat}
    (h : prepareInput env i (b, j) = .ok (b', j')) :
    PortsMove S now b b' := by
  have hsort : PortsMove S now b (b.sortTags i) := by
    unfold sortTags
    split <;> exact .of_eq rfl rfl rfl
  simp only [prepareInput, Checked.bind_eq_ok, Prod.exists] at h
  obtain ⟨-, -, buff, p, memory, hfront, h⟩ := h
  have hlook : Relation.ReflTransGen (InputPort.Step S now)
      ((b.sortTags i).inputQueues i) p := by
    obtain heq | hstep : p = (b.sortTags i).inputQueues i ∨
        InputPort.Step S now ((b.sortTags i).inputQueues i) p :=
        InputPort.front_step hfront
    · exact heq ▸ .refl
    · exact .single hstep
  refine hsort.trans ?_
  split at h
  · simp only [Checked.bind_eq_ok, Checked.pure_eq_ok, Prod.mk.injEq] at h
    obtain ⟨q, hinline, rfl, -⟩ := h
    have hset : PortsMove S now (b.sortTags i) ((b.sortTags i).setInput i p) :=
      .of_input hlook rfl rfl rfl
    exact hset.trans (.of_output (.single (.setInline hinline)) rfl rfl rfl)
  · simp only [Checked.pure_eq_ok, Prod.mk.injEq] at h
    obtain ⟨rfl, -⟩ := h
    exact .of_input hlook rfl rfl rfl

theorem prepare_ports (h : b.prepare env = .ok b') : PortsMove S now b b' := by
  simp only [prepare, Checked.bind_eq_ok, Prod.exists] at h
  obtain ⟨b₁, j, hin, hout⟩ := h
  have h₁ : PortsMove S now b b₁ := forRange_rule hin
    (P := fun _ s => PortsMove S now b s.1) (.of_eq rfl rfl rfl)
    fun i _ s s' hs hf => hs.trans (prepareInput_ports hf)
  have h₂ : PortsMove S now b₁ b' := by
    refine PortsMove.trans ?_ (forRange_ports hout fun o s s' hf => ?_)
    · exact .of_eq rfl rfl rfl
    · simp only [prepareOutput, Checked.bind_eq_ok, Checked.pure_eq_ok,
        Prod.exists] at hf
      obtain ⟨-, -, buff, p, hfront, -, -, rfl⟩ := hf
      exact .of_output (.single (.look hfront)) rfl rfl rfl
  exact h₁.trans h₂

theorem taskWork_ports (h : b.taskWork env = .ok b') :
    PortsMove S env.now b b' := by
  simp only [taskWork, Checked.bind_eq_ok, Checked.pure_eq_ok] at h
  obtain ⟨b₁, hcalls, rfl⟩ := h
  have hcalled : PortsMove S env.now b.atCall b₁ := calls_ports hcalls
  have hstart : PortsMove S env.now b b.atCall := .of_eq rfl rfl rfl
  exact (hstart.trans hcalled).trans (.of_eq rfl rfl rfl)

theorem finishInput_ports (h : b.finishInput env i = .ok b') :
    PortsMove S env.now b b' := by
  simp only [finishInput, Checked.bind_eq_ok, Checked.pure_eq_ok] at h
  obtain ⟨b₁, htags, b₂, hbuffs, b₃, havail, rfl⟩ := h
  have hmsgs : PortsMove S env.now b (b.trimMsgs i) := .of_eq rfl rfl rfl
  have h₁ : PortsMove S env.now (b.trimMsgs i) b₁ := by
    rcases trimTags_cases htags with ⟨-, rfl⟩ | ⟨-, b₀, hpass, rfl⟩
    · exact .refl _
    · refine PortsMove.trans (passTags_rule hpass .refl .trans
        (fun s o t => .of_eq rfl rfl rfl) fun _ _ _ _ _ _ hcall =>
          call_ports hcall) ?_
      exact .of_eq rfl rfl rfl
  have h₂ : PortsMove S env.now b₁ b₂ := by
    unfold trimBuffs at hbuffs
    split at hbuffs
    · rw [Checked.pure_eq_ok] at hbuffs
      exact hbuffs ▸ .refl b₁
    · simp only [Checked.bind_eq_ok, Checked.pure_eq_ok] at hbuffs
      obtain ⟨p, hconsume, rfl⟩ := hbuffs
      exact .of_input (.single (.consume hconsume)) rfl rfl rfl
  have h₃ : PortsMove S env.now b₂ b₃ := updateInputAvail_ports havail
  exact (((hmsgs.trans h₁).trans h₂).trans h₃).trans (.of_eq rfl rfl rfl)

theorem finishOutput_ports (h : b.finishOutput now o = .ok b') :
    PortsMove S now b b' := by
  unfold finishOutput at h
  split at h
  · rw [Checked.pure_eq_ok] at h
    exact h ▸ .refl b
  · simp only [OutputPort.post, Checked.bind_eq_ok, Checked.pure_eq_ok,
      Prod.exists, Prod.mk.injEq] at h
    obtain ⟨_, _, ⟨buff, p₁, hfront, p₂, hconsume, rfl, rfl⟩, rfl⟩ := h
    have hport :
        Relation.ReflTransGen (OutputPort.Step S now) (b.outputQueues o) p₂ :=
      .tail (.single (.look hfront)) (.consume hconsume)
    split <;> exact .of_output hport rfl rfl rfl

/-- **A task** moves the ports. -/
theorem taskMain_ports (h : b.taskMain env = .ok b') :
    PortsMove S env.now b b' := by
  cases hallowed : b.isWorkAllowed with
  | false => exact taskMain_idle hallowed h ▸ .refl _
  | true =>
      obtain ⟨b₁, b₂, b₃, hprepare, hwork, hfinish, rfl⟩ :=
        taskMain_parts hallowed h
      simp only [finish, Checked.bind_eq_ok] at hfinish
      obtain ⟨b₄, hin, hout⟩ := hfinish
      have h₄ : PortsMove S env.now b₂ b₄ :=
        forRange_ports hin fun i s s' hf => finishInput_ports hf
      have h₃ : PortsMove S env.now b₄ b₃ :=
        forRange_ports hout fun o s s' hf => finishOutput_ports hf
      exact ((((prepare_ports hprepare).trans (taskWork_ports hwork)).trans
        h₄).trans h₃).trans
        (taskKicker_ports b₃)

/-! ### The rule for a task -/

/-- The control stays, the ports move, and only items and tags are sent. -/
structure QuietMove (S : Supply) (now : Int) (b b' : BlockActor) : Prop where
  control : b'.control = b.control
  ports : PortsMove S now b b'
  sent : ∃ out, b'.sent = b.sent ++ out ∧ ∀ m ∈ out, m.carriesNothing = false

/-- Nothing is sent. -/
theorem QuietMove.of_sent (hcontrol : b'.control = b.control)
    (hports : PortsMove S now b b') (hsent : b'.sent = b.sent) :
    QuietMove S now b b' :=
  ⟨hcontrol, hports, [], by rw [hsent, List.append_nil], by simp⟩

theorem updateInputAvail_sent (h : b.updateInputAvail now i = .ok b') :
    b'.sent = b.sent := by
  simp only [updateInputAvail, Checked.bind_eq_ok, Checked.pure_eq_ok] at h
  obtain ⟨p, -, rfl⟩ := h
  rfl

theorem prepareInput_sent {j j' : Nat}
    (h : prepareInput env i (b, j) = .ok (b', j')) :
    b'.sent = b.sent := by
  have hsort : (b.sortTags i).sent = b.sent := by
    unfold sortTags
    split <;> rfl
  simp only [prepareInput, Checked.bind_eq_ok, Prod.exists] at h
  obtain ⟨-, -, buff, p, memory, -, h⟩ := h
  split at h
  · simp only [Checked.bind_eq_ok, Checked.pure_eq_ok, Prod.mk.injEq] at h
    obtain ⟨q, -, rfl, -⟩ := h
    exact hsort
  · simp only [Checked.pure_eq_ok, Prod.mk.injEq] at h
    obtain ⟨rfl, -⟩ := h
    exact hsort

theorem prepare_quiet (h : b.prepare env = .ok b') : QuietMove S now b b' := by
  have hkept := h
  simp only [prepare, Checked.bind_eq_ok, Prod.exists] at h
  obtain ⟨b₁, j, hin, hout⟩ := h
  have h₁ : b₁.sent = b.sent :=
    forRange_rule hin (P := fun _ s => s.1.sent = b.sent) rfl
    fun i _ s s' hs hf => (prepareInput_sent hf).trans hs
  have h₂ : b'.sent = b₁.sent :=
    forRange_rule hout (P := fun _ s => s.sent = b₁.sent) rfl
    fun o _ s s' hs hf => by
      simp only [prepareOutput, Checked.bind_eq_ok, Checked.pure_eq_ok,
        Prod.exists] at hf
      obtain ⟨-, -, buff, p, -, -, -, rfl⟩ := hf
      exact hs
  exact .of_sent (prepare_control hkept) (prepare_ports hkept) (h₂.trans h₁)

/-- **The rule for a task**: it is made of its calls, of what it does between
them, and of a kick. -/
theorem taskMain_rule (h : b.taskMain env = .ok b')
    {R : BlockActor → BlockActor → Prop} (hrefl : ∀ s, R s s)
    (htrans : ∀ {s t u}, R s t → R t u → R s u)
    (hquiet : ∀ s s', QuietMove S env.now s s' → R s s')
    (hcall : ∀ c, env.Calls c → ∀ s s', s.call env.now c = .ok s' → R s s')
    (hkick : ∀ s : BlockActor, R s s.taskKicker) : R b b' := by
  have hsame : ∀ {s s' : BlockActor}, s'.control = s.control →
      PortsMove S env.now s s' →
      s'.sent = s.sent → R s s' := fun hcontrol hports hsent =>
    hquiet _ _ (.of_sent hcontrol hports hsent)
  cases hallowed : b.isWorkAllowed with
  | false => exact taskMain_idle hallowed h ▸ hrefl _
  | true =>
      obtain ⟨b₁, b₂, b₃, hprepare, hwork, hfinish, rfl⟩ :=
        taskMain_parts hallowed h
      have h₁ : R b b₁ := hquiet _ _ (prepare_quiet hprepare)
      have h₂ : R b₁ b₂ := by
        simp only [taskWork, Checked.bind_eq_ok, Checked.pure_eq_ok] at hwork
        obtain ⟨b₀, hcalls, rfl⟩ := hwork
        have hstart : R b₁ b₁.atCall := hsame rfl (.of_eq rfl rfl rfl) rfl
        have hcalled :
            R b₁.atCall b₀ := calls_rule hcalls hrefl htrans fun c hc =>
          hcall c (.inl hc)
        exact htrans (htrans hstart hcalled)
          (hsame rfl (.of_eq rfl rfl rfl) rfl)
      have h₃ : R b₂ b₃ := by
        simp only [finish, Checked.bind_eq_ok] at hfinish
        obtain ⟨b₄, hin, hout⟩ := hfinish
        have hin' : R b₂ b₄ := forRange_relates hin hrefl htrans
            fun i _ s s' hf => by
          simp only [finishInput, Checked.bind_eq_ok, Checked.pure_eq_ok] at hf
          obtain ⟨s₁, htags, s₂, hbuffs, s₃, havail, rfl⟩ := hf
          have hmsgs : R s (s.trimMsgs i) := hsame rfl (.of_eq rfl rfl rfl) rfl
          have htags' : R (s.trimMsgs i) s₁ := by
            rcases trimTags_cases htags with ⟨-, rfl⟩ | ⟨-, s₀, hpass, rfl⟩
            · exact hrefl _
            · refine htrans (passTags_rule hpass hrefl htrans (fun s o t => ?_)
                fun overload ho c hc => hcall c (.inr ⟨overload, ho, i, hc⟩)) ?_
              · exact hquiet _ _ ⟨rfl, .of_eq rfl rfl rfl, _, rfl, by
                  simp [Outgoing.carriesNothing]⟩
              · exact hsame rfl (.of_eq rfl rfl rfl) rfl
          have hbuffs' : R s₁ s₂ := by
            have hcontrol := trimBuffs_control hbuffs
            unfold trimBuffs at hbuffs
            split at hbuffs
            · rw [Checked.pure_eq_ok] at hbuffs
              exact hbuffs ▸ hrefl s₁
            · simp only [Checked.bind_eq_ok, Checked.pure_eq_ok] at hbuffs
              obtain ⟨p, hconsume, rfl⟩ := hbuffs
              exact hsame hcontrol
                (.of_input (.single (.consume hconsume)) rfl rfl rfl) rfl
          have havail' : R s₂ s₃ := hsame (updateInputAvail_control havail)
            (updateInputAvail_ports havail) (updateInputAvail_sent havail)
          exact htrans (htrans (htrans (htrans hmsgs htags') hbuffs') havail')
            (hsame rfl (.of_eq rfl rfl rfl) rfl)
        have hout' :
            R b₄ b₃ := forRange_relates hout hrefl htrans fun o _ s s' hf => by
          refine hquiet _ _ ⟨finishOutput_control hf, finishOutput_ports hf, ?_⟩
          unfold finishOutput at hf
          split at hf
          · rw [Checked.pure_eq_ok] at hf
            exact ⟨[], by rw [hf, List.append_nil], by simp⟩
          · simp only [Checked.bind_eq_ok, Checked.pure_eq_ok,
              Prod.exists] at hf
            obtain ⟨buff, p, -, rfl⟩ := hf
            split
            · exact ⟨[.downstream o (.buffer buff)], rfl,
                by simp [Outgoing.carriesNothing]⟩
            · exact ⟨[], by simp [setOutput], by simp⟩
        exact htrans hin' hout'
      exact htrans (htrans (htrans h₁ h₂) h₃) (hkick b₃)

/-! ### The handlers -/

/-- Before the task only the inputs that are done change. -/
theorem enter_control {m : Message} {b₀ : BlockActor}
    (h : b.enter env m = some (.ok b₀)) :
    b₀.control = { b.control with inputsDone := b₀.inputsDone } ∧
      b₀.sent = b.sent := by
  have hsame : ∀ {s : BlockActor}, s.control = b.control →
      s.control = { b.control with inputsDone := s.inputsDone } := by
    intro s hs
    rw [hs, show s.inputsDone = b.inputsDone
      from congrArg Control.inputsDone hs]
    rfl
  cases m with
  | input i message =>
      cases message with
      | msg msg =>
          simp only [enter] at h
          split at h
          · cases h
          · simp only [Option.some.injEq, storeInputMsg] at h
            exact ⟨hsame ((updateInputAvail_control h).trans rfl),
              (updateInputAvail_sent h).trans rfl⟩
      | buffer buffer =>
          simp only [enter] at h
          split at h
          · cases h
          · simp only [Option.some.injEq, storeInputBuffer,
              Checked.bind_eq_ok] at h
            obtain ⟨p, -, h⟩ := h
            exact ⟨hsame ((updateInputAvail_control h).trans rfl),
              (updateInputAvail_sent h).trans rfl⟩
      | check =>
          simp only [enter, Option.some.injEq, Checked.pure_eq_ok] at h
          subst h
          exact ⟨rfl, rfl⟩
      | _ => cases h
  | output i message =>
      cases message with
      | buffer buffer =>
          simp only [enter] at h
          split at h
          · cases h
          · simp only [Option.some.injEq, storeOutputBuffer, Checked.bind_eq_ok,
              Checked.pure_eq_ok] at h
            obtain ⟨p, -, rfl⟩ := h
            exact ⟨rfl, rfl⟩
      | _ => cases h
  | selfKick =>
      simp only [enter, Option.some.injEq, Checked.pure_eq_ok] at h
      subst h
      exact ⟨rfl, rfl⟩
  | _ => cases h

theorem enter_ports {m : Message} {b₀ : BlockActor} (hm : m.Supplied S)
    (h : b.enter env m = some (.ok b₀)) : PortsMove S env.now b b₀ := by
  cases m with
  | input i message =>
      cases message with
      | msg msg =>
          simp only [enter] at h
          split at h
          · cases h
          · simp only [Option.some.injEq, storeInputMsg] at h
            refine PortsMove.trans ?_ (updateInputAvail_ports h)
            exact .of_eq rfl rfl rfl
      | buffer buffer =>
          simp only [enter] at h
          split at h
          · cases h
          · simp only [Option.some.injEq, storeInputBuffer,
              Checked.bind_eq_ok] at h
            obtain ⟨p, hpush, h⟩ := h
            refine PortsMove.trans ?_ (updateInputAvail_ports h)
            exact .of_input (.single (.push hm hpush)) rfl rfl rfl
      | check =>
          simp only [enter, Option.some.injEq, Checked.pure_eq_ok] at h
          exact h ▸ .of_eq rfl rfl rfl
      | _ => cases h
  | output i message =>
      cases message with
      | buffer buffer =>
          simp only [enter] at h
          split at h
          · cases h
          · simp only [Option.some.injEq, storeOutputBuffer, Checked.bind_eq_ok,
              Checked.pure_eq_ok] at h
            obtain ⟨p, hpush, rfl⟩ := h
            exact .of_output (.single (.push hm hpush)) rfl rfl rfl
      | _ => cases h
  | selfKick =>
      simp only [enter, Option.some.injEq, Checked.pure_eq_ok] at h
      exact h ▸ .refl b
  | _ => cases h

theorem leave_ports {m : Message} (h : b.leave env m = .ok b') :
    PortsMove S env.now b b' := by
  unfold leave at h
  split at h
  · split at h
    · exact markDone_ports h
    · rw [Checked.pure_eq_ok] at h
      exact h ▸ .refl b
  · rw [Checked.pure_eq_ok] at h
    exact h ▸ .refl b

theorem PortsMove.reply (h : PortsMove S now b b') (sender : Option Address) :
    PortsMove S now b (b'.acknowledge sender) := by
  cases sender with
  | none => exact h
  | some a => exact h.trans (.of_eq rfl rfl rfl)

theorem handleInputUpdate_ports (h : b.handleInputUpdate env i = .ok b') :
    PortsMove S env.now b b' := by
  unfold handleInputUpdate at h
  split at h
  · rw [Checked.pure_eq_ok] at h
    exact h ▸ .refl b
  · simp only [Checked.bind_eq_ok, Prod.exists] at h
    obtain ⟨p, memory, hconfig, h⟩ := h
    refine PortsMove.trans ?_ (updateInputAvail_ports h)
    exact .of_input (.single (.updateConfig hconfig)) rfl rfl rfl

theorem handleOutputUpdate_ports (h : b.handleOutputUpdate env o = .ok b') :
    PortsMove S env.now b b' := by
  unfold handleOutputUpdate at h
  split at h
  · rw [Checked.pure_eq_ok] at h
    exact h ▸ .refl b
  · simp only [Checked.bind_eq_ok, Checked.pure_eq_ok] at h
    obtain ⟨p, hset, rfl⟩ := h
    exact .of_output (.single (.setReserveBytes hset)) rfl rfl rfl

/-- **Every handler** moves the ports. -/
theorem handled_ports {m : Message} (hm : m.Supplied S)
    (hqueue : ∀ prio sender, m = .top .alloc prio sender →
      ∀ o config, ∀ q ∈ (env.outputBufferAllocator o config).1, S.queue q)
    (h : Handled env b m b') : PortsMove S env.now b b' := by
  cases h with
  | @task m store b₀ b₁ b' henter hstore htask hleave =>
      subst hstore
      exact ((enter_ports hm henter).trans (taskMain_ports htask)).trans
        (leave_ports hleave)
  | tag i tag hstate =>
      rw [handleInputTag, if_neg hstate]
      exact .of_eq rfl rfl rfl
  | inputUpdate h => exact handleInputUpdate_ports h
  | outputUpdate h => exact handleOutputUpdate_ports h
  | outputAlloc h =>
      simp only [handleOutputAlloc, Checked.bind_eq_ok, Checked.pure_eq_ok] at h
      obtain ⟨p, hset, rfl⟩ := h
      refine .of_output
        (.single (.setBufferQueue (fun q hq => ?_) hset)) rfl rfl rfl
      cases hq
      exact hm
  | @topAlloc prio sender b' h =>
      simp only [handleTopAlloc, Checked.bind_eq_ok, Checked.pure_eq_ok] at h
      obtain ⟨b₁, hloop, rfl⟩ := h
      refine PortsMove.reply ?_ _
      refine forRange_ports hloop fun o s s' hf => ?_
      obtain ⟨config, p, hset, rfl⟩ := allocateOutput_cases hf
      exact .of_output
        (.single (.setBufferQueue (hqueue prio sender rfl o config) hset))
        rfl rfl rfl
  | @outputsDone i b' hdone h =>
      have hcheck : PortsMove S env.now b (b.recheckOutput env i) :=
        .of_eq rfl rfl rfl
      exact hcheck.trans (markDone_ports h)
  | inert h => exact PortsMove.reply (markDone_ports h) _
  | @active prio sender =>
      obtain ⟨t, hactive⟩ := handleTopActive_eq env sender b
      rw [hactive]
      exact .of_eq rfl rfl rfl
  | callable =>
      have hcalls : PortsMove S env.now b (b.attempt env.now env.called) :=
        attempt_rule env.called b .refl .trans fun c _ s s' hcall =>
          call_ports hcall
      exact hcalls.trans (.of_eq rfl rfl rfl)
  | quiet hstate hdata =>
      have h := hdata.data
      exact .of_eq (congrArg Data.inputQueues h) (congrArg Data.outputQueues h)
        (congrArg Data.initTime h)

/-- **A change of the topology** moves the ports it keeps. -/
theorem topology_ports {n k : Nat} {sender : Option Address}
    (h : b.handleTopology env n k sender = .ok b') :
    PortsMove S env.now (b.resize env.now n k) b' := by
  simp only [handleTopology, Checked.bind_eq_ok, Checked.pure_eq_ok] at h
  obtain ⟨b₁, hrelease, b₂, hin, b₃, hout, rfl⟩ := h
  have h₁ : PortsMove S env.now (b.resize env.now n k) b₁ := by
    unfold releaseUnconnected at hrelease
    split at hrelease
    · exact markDone_ports hrelease
    · rw [Checked.pure_eq_ok] at hrelease
      exact hrelease ▸ .refl _
  have h₂ : PortsMove S env.now b₁ b₂ :=
    forRange_ports hin fun i s s' hf => handleInputUpdate_ports hf
  have h₃ : PortsMove S env.now b₂ b₃ :=
    forRange_ports hout fun o s s' hf => handleOutputUpdate_ports hf
  exact ((h₁.trans h₂).trans h₃).reply sender

end Moves

end BlockActor

end Gras
