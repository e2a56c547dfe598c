import Gras.Actor.EndOfStream
import Gras.Actor.PortMoves

/-!
# The end of the streams in runs of a block

Whether an input is finished is asked when its check is handled, and then never
again.  So the end of a stream is noticed as long as no task drains a done input
by itself (`EndHeard`):

* `ends_noticed`: in runs that meet the condition, no input of a live block is
  finished when the mailbox is empty.
* `end_unnoticed`: the check finds data, a later kick drains it.

### The argument

`inputFinished` is a property of a state, and it is looked at in one handler
only, that of a check.  What keeps the invariant is therefore not that each
handler looks, but that no handler makes it true: a buffer that arrives on a
done input leaves the input available, and a task that spends the last of the
done inputs has a check still to come.  Both are asked by `EndHeard` of the
state the handler is entered in.

`RunsOn` keeps the runs to the life of one topology: the inputs are not
configured anew, and a block that is done is not activated again, which would
begin a life in which the checks have been used up.
-/

namespace Gras

namespace BlockActor

/-- The handler of the message asks whether input `i` is finished. -/
def Asks (b : BlockActor) (i : Nat) (m : Message) : Prop :=
  ∃ j, b.Concerns i j ∧ m = .input j .check

/-- **When the end of a stream is heard.**  A buffer that arrives on a done
input does not take away that it is available.  And if a work drains all inputs
that concern a done one, then the check for one of them is being handled, or it
waits. -/
structure EndHeard (env : Env) (b : BlockActor) (m : Message) : Prop where
  arrival : ∀ j buffer, m = .input j (.buffer buffer) →
    b.inputsDone.bit j = true →
    b.inputsAvailable.bit j = true → b.MakesAvailable m
  work : ∀ b₀ b₁ b₂, b.enter env m = some (.ok b₀) → b₀.isWorkAllowed = true →
    b₀.prepare env = .ok b₁ → b₁.taskWork env = .ok b₂ → ∀ i < b.numInputs,
      (∀ j, b.Concerns i j → b₀.inputsDone.bit j = true ∧ b₂.Drained env j) →
        b.Asks i m ∨ ∃ j, b.Concerns i j ∧ .input j .check ∈ b₂.mailbox

/-- A message of a running block: neither is an input configured anew, nor is
the block activated again when it is done. -/
def Runs (b : BlockActor) : Message → Prop
  | .input _ .update => False
  | .top .active _ _ => b.blockState ≠ .done
  | _ => True

section Handlers

variable {b b' b₀ : BlockActor} {env : Env} {now : Int}
  {m : Message} {i j : Nat}

/-! ### Before and after the task -/

theorem concerns_congr (hports : b'.numInputs = b.numInputs)
    (hconfigs : b'.inputConfigs = b.inputConfigs) :
    b'.Concerns i j ↔ b.Concerns i j := by
  unfold Concerns
  rw [hconfigs, hports]

theorem enter_configs (h : b.enter env m = some (.ok b₀)) :
    b₀.inputConfigs = b.inputConfigs := by
  cases m with
  | input j message =>
      cases message with
      | msg msg =>
          simp only [enter] at h
          split at h
          · cases h
          · simp only [Option.some.injEq, storeInputMsg] at h
            exact (updateInputAvail_configs h).trans rfl
      | buffer buffer =>
          simp only [enter] at h
          split at h
          · cases h
          · simp only [Option.some.injEq, storeInputBuffer,
              Checked.bind_eq_ok] at h
            obtain ⟨p, -, h⟩ := h
            exact (updateInputAvail_configs h).trans rfl
      | check =>
          simp only [enter, Option.some.injEq, Checked.pure_eq_ok] at h
          exact h ▸ rfl
      | _ => cases h
  | output o message =>
      cases message with
      | buffer buffer =>
          simp only [enter] at h
          split at h
          · cases h
          · simp only [Option.some.injEq, storeOutputBuffer, Checked.bind_eq_ok,
              Checked.pure_eq_ok] at h
            obtain ⟨p, -, rfl⟩ := h
            rfl
      | _ => cases h
  | selfKick =>
      simp only [enter, Option.some.injEq, Checked.pure_eq_ok] at h
      exact h ▸ rfl
  | _ => cases h

/-- Only its check writes whether an input is done. -/
theorem enter_done (h : b.enter env m = some (.ok b₀)) :
    b₀.inputsDone.size = b.inputsDone.size ∧
      ∀ j, m ≠ .input j .check → b₀.inputsDone.bit j = b.inputsDone.bit j := by
  have hsame : b₀.control = b.control → b₀.inputsDone.size = b.inputsDone.size ∧
      ∀ j, m ≠ .input j .check → b₀.inputsDone.bit j = b.inputsDone.bit j := by
    intro hcontrol
    have hdone : b₀.inputsDone = b.inputsDone :=
      congrArg Control.inputsDone hcontrol
    rw [hdone]
    exact ⟨rfl, fun _ _ => rfl⟩
  cases m with
  | input k message =>
      cases message with
      | msg msg =>
          simp only [enter] at h
          split at h
          · cases h
          · simp only [Option.some.injEq, storeInputMsg] at h
            exact hsame ((updateInputAvail_control h).trans rfl)
      | buffer buffer =>
          simp only [enter] at h
          split at h
          · cases h
          · simp only [Option.some.injEq, storeInputBuffer,
              Checked.bind_eq_ok] at h
            obtain ⟨p, -, h⟩ := h
            exact hsame ((updateInputAvail_control h).trans rfl)
      | check =>
          simp only [enter, Option.some.injEq, Checked.pure_eq_ok] at h
          subst h
          refine ⟨BitSet.set_size _ _ _,
            fun j hj => BitSet.set_bit_of_ne ?_ _ _⟩
          rintro rfl
          exact hj rfl
      | _ => cases h
  | output o message =>
      cases message with
      | buffer buffer =>
          simp only [enter] at h
          split at h
          · cases h
          · simp only [Option.some.injEq, storeOutputBuffer, Checked.bind_eq_ok,
              Checked.pure_eq_ok] at h
            obtain ⟨p, -, rfl⟩ := h
            exact hsame rfl
      | _ => cases h
  | selfKick =>
      simp only [enter, Option.some.injEq, Checked.pure_eq_ok] at h
      subst h
      exact hsame rfl
  | _ => cases h

/-- A done input that is not available before the task was not available before
either. -/
theorem enter_available (h : b.enter env m = some (.ok b₀))
    (harrival : ∀ k buffer, m = .input k (.buffer buffer) →
      b.inputsDone.bit k = true →
      b.inputsAvailable.bit k = true → b.MakesAvailable m)
    (hdone : b.inputsDone.bit j = true)
    (hbit : b₀.inputsAvailable.bit j = false) :
    b.inputsAvailable.bit j = false := by
  by_contra havailable
  have havailable : b.inputsAvailable.bit j = true := by simpa using havailable
  cases m with
  | input k message =>
      cases message with
      | msg msg =>
          simp only [enter] at h
          split at h
          · cases h
          · simp only [Option.some.injEq, storeInputMsg] at h
            obtain ⟨q, -, hset⟩ := updateInputAvail_touches h
            rw [hset] at hbit
            by_cases hjk : j = k
            · subst hjk
              rw [BitSet.set_bit_self] at hbit
              simp [Function.update_self] at hbit
            · rw [BitSet.set_bit_of_ne hjk] at hbit
              have hbit : b.inputsAvailable.bit j = false := hbit
              rw [havailable] at hbit
              cases hbit
      | buffer buffer =>
          simp only [enter] at h
          split at h
          · cases h
          · simp only [Option.some.injEq, storeInputBuffer,
              Checked.bind_eq_ok] at h
            obtain ⟨p, hpush, h⟩ := h
            obtain ⟨q, -, hset⟩ := updateInputAvail_touches h
            rw [hset] at hbit
            by_cases hjk : j = k
            · subst hjk
              rw [BitSet.set_bit_self, setInput_inputQueues,
                Function.update_self, Bool.or_eq_false_iff] at hbit
              obtain ⟨-, hmakes⟩ := harrival j buffer rfl hdone havailable
              rcases hmakes with hmsgs | hreach
              · have hnone : (!(b.inputMsgs j).isEmpty) = false := hbit.2
                exact hmsgs (by simpa using hnone)
              · rw [InputPort.hasInputBufs_of_push hpush hreach] at hbit
                cases hbit.1
            · rw [BitSet.set_bit_of_ne hjk] at hbit
              have hbit : b.inputsAvailable.bit j = false := hbit
              rw [havailable] at hbit
              cases hbit
      | check =>
          simp only [enter, Option.some.injEq, Checked.pure_eq_ok] at h
          subst h
          have hbit : b.inputsAvailable.bit j = false := hbit
          rw [havailable] at hbit
          cases hbit
      | _ => cases h
  | output o message =>
      cases message with
      | buffer buffer =>
          simp only [enter] at h
          split at h
          · cases h
          · simp only [Option.some.injEq, storeOutputBuffer, Checked.bind_eq_ok,
              Checked.pure_eq_ok] at h
            obtain ⟨p, -, rfl⟩ := h
            have hbit : b.inputsAvailable.bit j = false := hbit
            rw [havailable] at hbit
            cases hbit
      | _ => cases h
  | selfKick =>
      simp only [enter, Option.some.injEq, Checked.pure_eq_ok] at h
      subst h
      rw [havailable] at hbit
      cases hbit
  | _ => cases h

/-- **After its check** an input of a block that is not done is not finished. -/
theorem leave_finished (h : b.leave env m = .ok b')
    (hlive : b'.blockState ≠ .done) :
    b' = b ∧ ∀ k, m = .input k .check → ¬ b.inputFinished k := by
  unfold leave at h
  split at h
  · split at h
    · exact absurd (markDone_blockState h) hlive
    · rename_i k hnot
      rw [Checked.pure_eq_ok] at h
      refine ⟨h.symm, fun j hj => ?_⟩
      cases hj
      exact hnot
  · rename_i hother
    rw [Checked.pure_eq_ok] at h
    exact ⟨h.symm, fun k hk => absurd hk (hother k)⟩

/-! ### The other handlers -/

theorem acknowledge_configs (sender : Option Address) (b : BlockActor) :
    (b.acknowledge sender).inputConfigs = b.inputConfigs := by
  cases sender <;> rfl

/-- **The other handlers configure no input.** -/
theorem handler_configs
    (hcalled : ∀ key sender, m = .callable key sender →
      CallsWithin ThreadEvent.KeepsInputs env.called)
    (htask : b.enter env m = none) (hruns : b.Runs m)
    (h : b.handler env m = .ok b') : b'.inputConfigs = b.inputConfigs := by
  cases reaction htask h with
  | droppedInput | droppedBuffer | tag | inputToken | outputToken | noInputAlloc | inputAlloc
  | outputCheck | outputHint | outputAlloc | getStats => rfl
  | inputUpdate => exact absurd hruns id
  | outputUpdate hupdate =>
      simp only [handleOutputUpdate] at hupdate
      split at hupdate
      · rw [Checked.pure_eq_ok] at hupdate
        exact hupdate ▸ rfl
      · simp only [Checked.bind_eq_ok, Checked.pure_eq_ok] at hupdate
        obtain ⟨p, -, rfl⟩ := hupdate
        rfl
  | outputsDone _ hdone => exact (markDone_configs hdone).trans rfl
  | topAlloc hloop =>
      rw [acknowledge_configs]
      refine forRange_rule hloop
        (P := fun _ s => s.inputConfigs = b.inputConfigs) rfl
        fun o _ s s' hs hf => ?_
      obtain ⟨config, p, -, rfl⟩ := allocateOutput_cases hf
      exact hs
  | topActive =>
      obtain ⟨t, hactive⟩ := handleTopActive_eq env _ b
      rw [hactive]
  | topInert hdone =>
      exact (acknowledge_configs _ _).trans (markDone_configs hdone)
  | topToken =>
      rw [handleTopToken]
      refine (acknowledge_configs _ _).trans ?_
      have hin : ((List.range b.numInputs).foldl
          (fun b i => b.renewInput env i) b).inputConfigs
          = b.inputConfigs :=
        List.foldlRecOn
          (motive := fun c : BlockActor => c.inputConfigs = b.inputConfigs)
          _ _ rfl fun c hc i _ => hc
      exact List.foldlRecOn
        (motive := fun c : BlockActor => c.inputConfigs = b.inputConfigs)
        _ _ hin fun c hc i _ => hc
  | topConfig | topThreadGroup => exact (acknowledge_configs _ _).trans rfl
  | callable key sender =>
      exact attempt_rule env.called b
        (R := fun s s' => s'.inputConfigs = s.inputConfigs)
        (fun _ => rfl) (fun h h' => h'.trans h)
        fun c hc s s' hcall =>
          call_configs (CallsWithin.mem (hcalled key sender rfl) hc) hcall

/-- **The other handlers** leave the ends of the streams as they are. -/
theorem handler_ends (hcalled : CallsWithin ThreadEvent.KeepsInputs env.called)
    (htask : b.enter env m = none) (hruns : b.Runs m)
    (h : b.handler env m = .ok b') : SameEnds b b' := by
  have hconfigs := handler_configs (fun _ _ _ => hcalled) htask hruns h
  have hends : ∀ {s : BlockActor}, s.inputsDone = b.inputsDone →
      (∃ out, s.mailbox = b.mailbox ++ out) →
      (s.blockState ≠ .done → b.blockState ≠ .done) →
      s.numInputs = b.numInputs →
      s.inputConfigs = b.inputConfigs → SameEnds b s := by
    intro s hdone hmail hstate hports hconfigs
    obtain ⟨out, hmail⟩ := hmail
    refine ⟨hports, hconfigs, ⟨by rw [hdone], fun i hi => hdone ▸ hi⟩,
      fun x hx => ?_, hstate⟩
    rw [hmail]
    exact List.mem_append_left _ hx
  have hreply : ∀ (sender : Option Address) (s : BlockActor),
      (s.acknowledge sender).control = s.control := fun sender s => by
      cases sender <;> rfl
  have hports := handled_numInputs (handled h)
  cases handled h with
  | task henter => simp [htask] at henter
  | inputUpdate hup => exact absurd hruns id
  | tag k tag hstate =>
      rw [handleInputTag, if_neg hstate] at hconfigs ⊢
      exact .of_control rfl hconfigs
  | outputUpdate hup =>
      exact .of_control (handleOutputUpdate_control hup) hconfigs
  | outputAlloc hset =>
      simp only [handleOutputAlloc, Checked.bind_eq_ok,
        Checked.pure_eq_ok] at hset
      obtain ⟨p, -, rfl⟩ := hset
      exact .of_control rfl hconfigs
  | @topAlloc prio sender _ halloc =>
      simp only [handleTopAlloc, Checked.bind_eq_ok,
        Checked.pure_eq_ok] at halloc
      obtain ⟨b₁, hloop, rfl⟩ := halloc
      have h₁ : SameEnds b b₁ :=
        forRange_rule hloop (P := fun _ s => SameEnds b s) (.refl b)
        fun o _ s s' hs hf => by
          obtain ⟨config, p, -, rfl⟩ := allocateOutput_cases hf
          exact hs.trans ⟨rfl, rfl, ⟨rfl, fun _ => id⟩,
            fun x hx => List.mem_append_left _ hx, id⟩
      exact h₁.trans
        (.of_control (hreply sender b₁) (acknowledge_configs sender b₁))
  | @outputsDone o _ hall hdone =>
      have hmoves : Moves (fun _ => True) (b.recheckOutput env o) b' :=
        .single (.done hdone)
      obtain ⟨hbits, hmail, hstate⟩ := hmoves.ends
      exact ⟨hports, hconfigs,
        ⟨by rw [hbits]; rfl, fun i hi => by rwa [hbits] at hi⟩, hmail,
        hstate⟩
  | @inert prio sender b₁ hdone =>
      have hmoves : Moves (fun _ => True) b (b₁.acknowledge sender) :=
        (Moves.single (.done hdone)).trans (.quiet (hreply sender b₁))
      exact hmoves.sameEnds hconfigs
  | @active prio sender =>
      obtain ⟨t, hactive⟩ := handleTopActive_eq env sender b
      refine hends ?_ ⟨[.selfKick], ?_⟩ (fun _ => hruns) hports hconfigs
      · rw [hactive]
      · rw [hactive]
  | callable =>
      have hmoves :
          Moves ThreadEvent.KeepsInputs b (b.attempt env.now env.called) :=
        attempt_moves hcalled
      obtain ⟨hbits, hmail, hstate⟩ := hmoves.ends
      exact ⟨hports, hconfigs,
        ⟨congrArg BitSet.size hbits, fun i hi => hbits ▸ hi⟩,
        fun x hx => List.mem_append_left _ (hmail x hx), hstate⟩
  | quiet hstate hdata hquiet =>
      obtain ⟨kicks, hmail, -⟩ := hquiet.mailbox
      refine ⟨hports, hconfigs, hquiet.inputsDone, fun x hx => ?_,
        fun hlive => hstate ▸ hlive⟩
      rw [hmail]
      exact List.mem_append_left _ hx

/-! ### Every handler -/

/-- **No handler** changes how many inputs there are bits for. -/
theorem handler_doneSize (h : b.handler env m = .ok b') :
    b'.inputsDone.size = b.inputsDone.size := by
  have hmoves : ∀ {ok : ThreadEvent → Prop} {s s' : BlockActor}, Moves ok s s' →
      s'.inputsDone.size = s.inputsDone.size :=
      fun h => congrArg BitSet.size h.ends.1
  have hdone : ∀ {s s' : BlockActor}, s.markDone env.now = .ok s' →
      s'.inputsDone.size = s.inputsDone.size := by
    intro s s' hmark
    have hmove : Moves (fun _ => True) s s' := .single (.done hmark)
    exact hmoves hmove
  have hreply : ∀ (sender : Option Address) (s : BlockActor),
      (s.acknowledge sender).inputsDone = s.inputsDone := fun sender s => by
      cases sender <;> rfl
  cases handled h with
  | @task _ _ b₀ b₁ _ henter hstore htask hleave =>
      subst hstore
      rw [← (enter_done henter).1,
        ← hmoves (taskMain_moves (workWithin_true env) htask)]
      unfold leave at hleave
      split at hleave
      · split at hleave
        · exact hdone hleave
        · rw [Checked.pure_eq_ok] at hleave
          rw [hleave]
      · rw [Checked.pure_eq_ok] at hleave
        rw [hleave]
  | tag k tag hstate =>
      unfold handleInputTag
      split <;> rfl
  | inputUpdate hup =>
      exact congrArg (fun c => c.inputsDone.size)
        (handleInputUpdate_control hup)
  | outputUpdate hup =>
      exact congrArg (fun c => c.inputsDone.size)
        (handleOutputUpdate_control hup)
  | outputAlloc hset =>
      simp only [handleOutputAlloc, Checked.bind_eq_ok,
        Checked.pure_eq_ok] at hset
      obtain ⟨p, -, rfl⟩ := hset
      rfl
  | topAlloc halloc =>
      simp only [handleTopAlloc, Checked.bind_eq_ok,
        Checked.pure_eq_ok] at halloc
      obtain ⟨b₁, hloop, rfl⟩ := halloc
      rw [hreply]
      refine forRange_rule hloop
        (P := fun _ s => s.inputsDone.size = b.inputsDone.size) rfl
        fun o _ s s' hs hf => ?_
      obtain ⟨config, p, -, rfl⟩ := allocateOutput_cases hf
      exact hs
  | outputsDone hall hmark => exact (hdone hmark).trans rfl
  | inert hmark => rw [hreply, hdone hmark]
  | @active prio sender =>
      obtain ⟨t, hactive⟩ := handleTopActive_eq env sender b
      rw [hactive]
  | callable =>
      have hcalls : Moves (fun _ => True) b (b.attempt env.now env.called) :=
        attempt_moves fun _ _ => trivial
      exact (congrArg BitSet.size hcalls.ends.1).trans rfl
  | quiet hstate hdata hquiet => exact hquiet.inputsDone.1

end Handlers

/-! ## Runs -/

/-- A step of a running block: its inputs are not configured anew, and it is not
activated again when it is done. -/
def RunsOn (b : BlockActor) : ActorEvent → Prop
  | .thread event => event.KeepsInputs
  | .handle env => env.WorkWithin ThreadEvent.KeepsInputs ∧
      CallsWithin ThreadEvent.KeepsInputs env.called ∧
      ∀ m ∈ b.mailbox.head?, b.Runs m

/-- The end of a stream is heard in this step. -/
def HearsEnds (b : BlockActor) : ActorEvent → Prop
  | .thread _ => True
  | .handle env =>
      ∀ m rest, b.mailbox = m :: rest → (b.receive m rest).EndHeard env m

section Runs

variable {b b' c : BlockActor} {env : Env} {e : ActorEvent}
  {m : Message} {i : Nat}

/-- There is a bit for each input in reachable states. -/
theorem endsSized_of_reachable (h : system.Reachable b) (hn : b.numInputs ≠ 0) :
    b.EndsSized := by
  refine ⟨?_, availableSized_of_reachable h hn⟩
  refine h.invariant (P := fun s => s.inputsDone.size = s.numInputs)
    (fun s hs => ?_)
    fun s e s' _ hs hstep => ?_
  · obtain ⟨initTime, memory, inputConfigs, outputConfigs, env, n, k,
        hstart⟩ := hs
    simp only [handleTopology, Checked.bind_eq_ok, Checked.pure_eq_ok] at hstart
    obtain ⟨b₁, hrelease, b₂, hin, b₃, hout, rfl⟩ := hstart
    have h₁ : b₁.inputsDone.size = b₁.numInputs := by
      unfold releaseUnconnected at hrelease
      split at hrelease
      · have hmove : Moves (fun _ => True) _ b₁ := .single (.done hrelease)
        rw [hmove.ends.1, hmove.ports.1]
        rfl
      · rw [Checked.pure_eq_ok] at hrelease
        rw [← hrelease]
        rfl
    have h₂ := forRange_control hin fun i s s' hf =>
      handleInputUpdate_control hf
    have h₃ := forRange_control hout fun i s s' hf =>
      handleOutputUpdate_control hf
    have hcontrol : b₃.control = b₁.control := h₃.trans h₂
    show b₃.control.inputsDone.size = b₃.control.numInputs
    rw [hcontrol]
    exact h₁
  · rcases next_cases hstep with ⟨event, rfl, rfl⟩ | ⟨env, rfl, hmail, rfl⟩ |
      ⟨env, m, rest, s₁, rfl, hmail, hhandler, rfl⟩
    · have hheld := InputsHeld.threadStep s event
      rw [hheld.done, hheld.numInputs]
      exact hs
    · exact hs
    · show s₁.inputsDone.size = s₁.numInputs
      rw [handler_doneSize hhandler, handled_numInputs (handled hhandler)]
      exact hs

/-- The handler of a message that runs a task. -/
theorem handler_task_noticed {store : Checked BlockActor}
    (hsized : b.EndsSized) (hsized' : b'.EndsSized)
    (hnoticed : b.blockState ≠ .done → ∀ i < b.numInputs, b.inputFinished i →
      b.CheckWaits i ∨ b.Asks i m)
    (henv : env.WorkWithin ThreadEvent.KeepsInputs) (hheard : b.EndHeard env m)
    (henter : b.enter env m = some store) (h : b.handler env m = .ok b') :
    b'.EndsNoticed := by
  intro hlive i hi hfinished
  obtain ⟨b₀, b₁, rfl, htask, hleave⟩ := handler_of_enter henter h
  obtain ⟨rfl, hnot⟩ := leave_finished hleave hlive
  have hends : SameEnds b₀ b' := taskMain_ends henv htask
  have hports₀ : b₀.numInputs = b.numInputs := enter_numInputs henter
  have hcontrol := (enter_control henter).1
  have hmail₀ : b₀.mailbox = b.mailbox := congrArg Control.mailbox hcontrol
  have hstate₀ : b₀.blockState = b.blockState :=
    congrArg Control.blockState hcontrol
  have hconcerns : ∀ {i j}, b'.Concerns i j ↔
      b.Concerns i j := hends.concerns.trans
    (concerns_congr hports₀ (enter_configs henter))
  have hi₀ : i < b.numInputs := hports₀ ▸ hends.numInputs ▸ hi
  by_cases hasks : b.Asks i m
  · -- The check that is handled has just asked.
    obtain ⟨j, hj, rfl⟩ := hasks
    exact absurd (hfinished.of_concerns hsized' hi (hconcerns.mpr hj))
      (hnot j rfl)
  · have hall := (inputFinished_iff hsized').mp hfinished
    cases hallowed : b₀.isWorkAllowed with
    | false =>
        have hsame := taskMain_idle hallowed htask
        subst hsame
        have hbefore : b.inputFinished i := by
          refine (inputFinished_iff hsized).mpr fun j hj => ?_
          obtain ⟨hdone, havailable⟩ := hall j (hconcerns.mpr hj)
          rw [(enter_done henter).2 j fun hm => hasks ⟨j, hj, hm⟩] at hdone
          exact ⟨hdone, enter_available henter hheard.arrival hdone havailable⟩
        rcases hnoticed (hstate₀ ▸ hlive) i hi₀ hbefore with
          ⟨j, hj, hwaits⟩ | hasked
        · exact ⟨j, hconcerns.mpr hj, hmail₀ ▸ hwaits⟩
        · exact absurd hasked hasks
    | true =>
        obtain ⟨b₁, b₂, b₃, hprepare, hwork, -, -⟩ :=
          taskMain_parts hallowed htask
        have hdrains : ∀ j, b.Concerns i j →
            b₀.inputsDone.bit j = true ∧ b₂.Drained env j := by
          intro j hj
          obtain ⟨hdone, havailable⟩ := hall j (hconcerns.mpr hj)
          have hj₀ : j < b₀.numInputs := hports₀ ▸ hj.lt hi₀
          exact ⟨hends.done.2 j hdone,
            (taskMain_drains hallowed hprepare hwork henv htask hj₀
              havailable).1⟩
        rcases hheard.work b₀ b₁ b₂ henter hallowed hprepare hwork i hi₀
            hdrains with
          hasked | ⟨j, hj, hwaits⟩
        · exact absurd hasked hasks
        · have hself := hall i (concerns_self hi)
          have hkept := (taskMain_drains hallowed hprepare hwork henv htask
            (hports₀ ▸ hi₀) hself.2).2
          exact ⟨j, hconcerns.mpr hj, hkept _ hwaits⟩

/-- **A handler keeps the ends noticed** when they are heard in it. -/
theorem handler_noticed (hsized : b.EndsSized) (hsized' : b'.EndsSized)
    (hnoticed : b.blockState ≠ .done → ∀ i < b.numInputs, b.inputFinished i →
      b.CheckWaits i ∨ b.Asks i m)
    (henv : env.WorkWithin ThreadEvent.KeepsInputs)
    (hcalled : CallsWithin ThreadEvent.KeepsInputs env.called)
    (hruns : b.Runs m) (hheard : b.EndHeard env m)
    (h : b.handler env m = .ok b') : b'.EndsNoticed := by
  cases henter : b.enter env m with
  | some store =>
      exact handler_task_noticed hsized hsized' hnoticed henv hheard henter h
  | none =>
      intro hlive i hi hfinished
      have hends := handler_ends hcalled henter hruns h
      have havailable : b'.inputsAvailable = b.inputsAvailable :=
        (handler_stable (i := i) InputPort.stable_starved h henter
          fun j hj => by rw [hj] at hruns; exact hruns).2
      have hbefore : b.inputFinished i := by
        refine (inputFinished_iff hsized).mpr fun j hj => ?_
        obtain ⟨hdone, hnone⟩ :=
          (inputFinished_iff hsized').mp hfinished j (hends.concerns.mpr hj)
        exact ⟨hends.done.2 j hdone, havailable ▸ hnone⟩
      have hi₀ : i < b.numInputs := hends.numInputs ▸ hi
      rcases hnoticed (hends.state hlive) i hi₀ hbefore with
        hwaits | ⟨j, -, rfl⟩
      · exact hends.checkWaits hwaits
      · cases henter

/-- **A step keeps the ends noticed.** -/
theorem EndsNoticed.next (hnoticed : b.EndsNoticed) (hb : system.Reachable b)
    (hruns : b.RunsOn e) (hheard : b.HearsEnds e) (h : b.next e = .ok b') :
    b'.EndsNoticed := by
  have hb' : system.Reachable b' := .step hb h
  rcases next_cases h with ⟨event, rfl, rfl⟩ | ⟨env, rfl, hmail, rfl⟩ |
    ⟨env, m, rest, b₁, rfl, hmail, hhandler, rfl⟩
  · have hkeeps : event.KeepsInputs := hruns
    have hends : SameEnds b (b.threadStep event) :=
      (Moves.single (.thread b hkeeps)).sameEnds (threadStep_configs hkeeps)
    have havailable := (InputsHeld.threadStep b event).available
    intro hlive i hi hfinished
    have hi₀ : i < b.numInputs := hends.numInputs ▸ hi
    have hsized := endsSized_of_reachable hb (by omega)
    have hsized' := endsSized_of_reachable hb' (by omega)
    refine hends.checkWaits (hnoticed (hends.state hlive) i hi₀ ?_)
    refine (inputFinished_iff hsized).mpr fun j hj => ?_
    obtain ⟨hdone, hnone⟩ :=
      (inputFinished_iff hsized').mp hfinished j (hends.concerns.mpr hj)
    exact ⟨hends.done.2 j hdone, havailable ▸ hnone⟩
  · exact hnoticed
  · intro hlive i hi hfinished
    have hports := handled_numInputs (handled hhandler)
    have hi₁ : i < b₁.numInputs := hi
    have hi₀ : i < b.numInputs := by
      rw [hports] at hi₁
      exact hi₁
    obtain ⟨henv, hcalled, hmessage⟩ := hruns
    have hsized := endsSized_of_reachable hb (by omega)
    have hsized' := endsSized_of_reachable hb' (show b₁.numInputs ≠ 0 by omega)
    have hreceived : (b.receive m rest).blockState ≠ .done →
        ∀ i < (b.receive m rest).numInputs, (b.receive m rest).inputFinished i →
          (b.receive m rest).CheckWaits i ∨ (b.receive m rest).Asks i m := by
      intro hlive i hi hfinished
      obtain ⟨j, hj, hwaits⟩ := hnoticed hlive i hi hfinished
      rw [hmail] at hwaits
      rcases List.mem_cons.mp hwaits with hm | hrest
      · exact .inr ⟨j, hj, hm.symm⟩
      · exact .inl ⟨j, hj, hrest⟩
    have hhead : m ∈ b.mailbox.head? := by rw [hmail]; rfl
    have hsizedRest : (b.receive m rest).EndsSized :=
      ⟨hsized.done, hsized.available⟩
    have hsized₁ : b₁.EndsSized := ⟨hsized'.done, hsized'.available⟩
    have hkept : b₁.EndsNoticed :=
      handler_noticed hsizedRest hsized₁ hreceived henv hcalled
      (hmessage m hhead) (hheard m rest hmail) hhandler
    exact hkept hlive i hi hfinished

/-- **The end of every stream is noticed**: in a run that meets the condition,
no input of a live block with an empty mailbox is finished.

A check is lost in two ways, and `HearsEnds` excludes these.  A buffer that
comes after the check was handled may leave its input spent, and nobody looks
again; and a work may use up the last of several inputs that are all done, with
no check of them still to come. -/
theorem ends_noticed (hb : system.Reachable b)
    (hopen : ∀ i < b.numInputs, b.inputsDone.bit i = false)
    (hrun : ((runsFrom b).restrict fun s e => s.RunsOn e ∧
      s.HearsEnds e).Reachable c)
    (hlive : c.blockState = .live) (hidle : c.mailbox = [])
    (hi : i < c.numInputs) : ¬ c.inputFinished i := by
  intro hfinished
  have hstart : b.EndsNoticed := by
    intro _ i hi hfinished
    have hsized := endsSized_of_reachable hb (by omega)
    have hdone :=
      ((inputFinished_iff hsized).mp hfinished i (concerns_self hi)).1
    rw [hopen i hi] at hdone
    cases hdone
  have hc : system.Reachable c ∧ c.EndsNoticed :=
    TransitionSystem.Reachable.invariant
    (T := (runsFrom b).restrict fun s e => s.RunsOn e ∧ s.HearsEnds e)
    (P := fun s => system.Reachable s ∧ s.EndsNoticed)
      (fun _ hs => hs ▸ ⟨hb, hstart⟩)
    (fun _ _ _ _ hs hstep =>
      ⟨.step hs.1 hstep.2, hs.2.next hs.1 hstep.1.1 hstep.1.2 hstep.2⟩)
    hrun
  obtain ⟨j, -, hwaits⟩ :=
    hc.2 (by rw [hlive]; exact fun h => nomatch h) i hi hfinished
  rw [hidle] at hwaits
  cases hwaits

end Runs

/-! ### Sinks whose upstream is done -/

/-- A simpler condition: no other thread does anything during work, and no
update is handled. -/
def runsPlainly (b : BlockActor) : ActorEvent → Bool
  | .thread (.configureInput _ _) => false
  | .thread _ => true
  | .handle env => (env.work.all fun c => match c with | .thread _ => false | _ => true) &&
      env.propagateTags.isNone && env.called.isEmpty &&
      match b.mailbox with
      | .input _ .update :: _ => false
      | .top .active _ _ :: _ => b.blockState != .done
      | _ => true

theorem runsOn_of_runsPlainly {b : BlockActor} {e : ActorEvent}
    (h : b.runsPlainly e = true) : b.RunsOn e := by
  cases e with
  | thread event =>
      cases event with
      | configureInput i config => cases h
      | _ => trivial
  | handle env =>
      simp only [runsPlainly, Bool.and_eq_true, List.all_eq_true,
        List.isEmpty_iff, Option.isNone_iff_eq_none] at h
      obtain ⟨⟨⟨hwork, htags⟩, hcalled⟩, hmessage⟩ := h
      refine ⟨⟨fun event hevent => ?_, fun overload ho => ?_⟩,
        fun event hevent => ?_, fun m hm => ?_⟩
      · cases hwork _ hevent
      · rw [htags] at ho
        cases ho
      · rw [hcalled] at hevent
        cases hevent
      · cases hmail : b.mailbox with
        | nil =>
            rw [hmail] at hm
            cases hm
        | cons m' rest =>
            rw [hmail] at hm hmessage
            cases hm
            unfold Runs
            split
            · cases hmessage
            · simpa using hmessage
            · trivial

/-- A simpler condition: no buffer arrives on a done input, and no handler
works. -/
def hearsPlainly (b : BlockActor) : ActorEvent → Bool
  | .thread _ => true
  | .handle env =>
      match b.mailbox with
      | [] => true
      | m :: rest =>
          (match m with | .input j (.buffer _) => !b.inputsDone.bit j | _ => true) &&
          match (b.receive m rest).enter env m with
          | some (.ok b₀) => !b₀.isWorkAllowed
          | _ => true

theorem hearsEnds_of_hearsPlainly {b : BlockActor} {e : ActorEvent}
    (h : b.hearsPlainly e = true) : b.HearsEnds e := by
  cases e with
  | thread event => trivial
  | handle env =>
      intro m rest hmail
      simp only [hearsPlainly, hmail, Bool.and_eq_true] at h
      obtain ⟨harrival, hidle⟩ := h
      constructor
      · intro j buffer hm hdone
        subst hm
        have hopen : b.inputsDone.bit j = false := by simpa using harrival
        have hdone : b.inputsDone.bit j = true := hdone
        rw [hopen] at hdone
        cases hdone
      · intro b₀ b₁ b₂ henter hallowed
        rw [henter] at hidle
        simp [hallowed] at hidle

theorem started_of_sinkOf {n : Nat} {b : BlockActor} (h : sinkOf n = .ok b) :
    Started b :=
  ⟨0, addressMemory, _, _, {}, n, 0, h⟩

theorem reachable_of_sinkOf {n : Nat} {b : BlockActor} (h : sinkOf n = .ok b) :
    system.Reachable b := .init (started_of_sinkOf h)

/-- Perform events that meet a condition on a sink with one input. -/
def runFromSink (ok : BlockActor → ActorEvent → Bool) (es : List ActorEvent) :
    Option (BlockActor × BlockActor) :=
  (sinkOf 1).toOption.bind fun b =>
    (TransitionSystem.runRestricted (fun b e => ok b e = true) next es b).map
      fun c => (b, c)

theorem runFromSink_eq_some {ok : BlockActor → ActorEvent → Bool}
    {es : List ActorEvent} {x : BlockActor × BlockActor}
    (h : runFromSink ok es = some x) :
    system.Reachable x.1 ∧
      ((runsFrom x.1).restrict fun b e => ok b e = true).Reachable x.2 := by
  obtain ⟨b, hstart, hrun⟩ := Option.bind_eq_some_iff.mp h
  obtain ⟨c, hc, rfl⟩ := Option.map_eq_some_iff.mp hrun
  cases hsink : sinkOf 1 with
  | error e => simp [hsink, Except.toOption] at hstart
  | ok b' =>
      rw [hsink] at hstart
      cases hstart
      exact ⟨reachable_of_sinkOf hsink, .of_restricted_events es (.init rfl) hc⟩

/-- The check of the first input is handled when its upstream is done. -/
def upstreamDone : ActorEvent := .handle { tokenUnique := fun _ => true }

/-- A caller holds the token, so that the block does not work. -/
def heldByCaller : List ActorEvent :=
  activate ++ [ActorEvent.handle {}, .thread (.prepare (.callable 0 5)),
    bytesArrive 0, .handle {}, arrive (.input 0 .check), upstreamDone]

/-- The check finds four bytes; a later kick drains them. -/
def drainedLater : List ActorEvent :=
  activate ++ [ActorEvent.handle {}, bytesArrive 0, .handle {},
    arrive (.input 0 .check), .handle {}, upstreamDone,
    .handle { work := [.consume 0 4] }, .handle {}]

/-- What is known of the first input of a sink: whether it is open at the start;
at the end, whether the block is live, has an empty mailbox, is done with it,
and it is finished. -/
def firstEnd (x : BlockActor × BlockActor) :
    Bool × Bool × Bool × Bool × Bool × Nat :=
  (x.1.numInputs == 1 && !x.1.inputsDone.bit 0, x.2.blockState == .live,
    x.2.mailbox.isEmpty, x.2.inputsDone.bit 0, decide (x.2.inputFinished 0),
    x.2.numInputs)

theorem open_of_firstEnd {b : BlockActor}
    (h : (b.numInputs == 1 && !b.inputsDone.bit 0) = true) :
    ∀ i < b.numInputs, b.inputsDone.bit i = false := by
  simp only [Bool.and_eq_true, beq_iff_eq, Bool.not_eq_true'] at h
  intro i hi
  obtain rfl : i = 0 := by omega
  exact h.2

end BlockActor

open BlockActor

theorem ends_noticed_heldByCaller :
    ∃ x, runFromSink (fun b e => b.runsPlainly e && b.hearsPlainly e) heldByCaller = some x ∧
      x.2.inputsDone.bit 0 = true ∧ ¬ x.2.inputFinished 0 := by
  have hrun : (runFromSink (fun b e => b.runsPlainly e && b.hearsPlainly e) heldByCaller).map
      firstEnd = some (true, true, true, true, false, 1) := by decide
  obtain ⟨x, hx, heq⟩ := Option.map_eq_some_iff.mp hrun
  simp only [firstEnd, Prod.mk.injEq, List.isEmpty_iff, beq_iff_eq] at heq
  obtain ⟨hopen, hlive, hmail, hdone, -, hports⟩ := heq
  obtain ⟨hb, hc⟩ := runFromSink_eq_some hx
  refine ⟨x, hx, hdone, ends_noticed hb (open_of_firstEnd hopen)
    (hc.restrict_mono fun s e hok => ?_) hlive hmail (by omega)⟩
  rw [Bool.and_eq_true] at hok
  exact ⟨runsOn_of_runsPlainly hok.1, hearsEnds_of_hearsPlainly hok.2⟩

/-- **The end of a stream that nobody notices**: the check finds the input
available, a later kick drains it, and the block stays live. -/
theorem end_unnoticed :
    ¬ ∀ (b c : BlockActor) (i : Nat), system.Reachable b →
      (∀ i < b.numInputs, b.inputsDone.bit i = false) →
      ((runsFrom b).restrict RunsOn).Reachable c → c.blockState = .live →
      c.mailbox = [] →
      i < c.numInputs → ¬ c.inputFinished i := by
  intro hall
  have hrun : (runFromSink runsPlainly drainedLater).map firstEnd =
      some (true, true, true, true, true, 1) := by decide
  obtain ⟨x, hx, heq⟩ := Option.map_eq_some_iff.mp hrun
  simp only [firstEnd, Prod.mk.injEq, List.isEmpty_iff, beq_iff_eq,
    decide_eq_true_eq] at heq
  obtain ⟨hopen, hlive, hmail, -, hfinished, hports⟩ := heq
  obtain ⟨hb, hc⟩ := runFromSink_eq_some hx
  exact hall x.1 x.2 0 hb (open_of_firstEnd hopen)
    (hc.restrict_mono fun _ _ => runsOn_of_runsPlainly) hlive hmail
    (by omega) hfinished

end Gras
