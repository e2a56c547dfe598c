import Gras.Actor.ActorSystem
import Gras.Actor.Moves
import Gras.Actor.Readiness

/-!
# Wake-ups

A work starts only inside the handler of a message, and only while nobody else
holds a copy of the priority token.  So a block that is ready to work has to
have a message coming that calls `task_main`, or one whose handler leaves a
kick.

* `WakeUpPending` and `Awake`: the invariant.
* `WakeUpKept`: what has to be true of a handler's input for the invariant to
  survive it.  It rules out two things that the code does: an update or an
  allocation makes the last port ready and nothing follows, and `task_main` is
  called while a copy of the token is around and nothing follows.
* `wakeUp_of_allowed`, `not_allowed_of_idle`: what follows for runs.
* `wakeUp_lost_by_update`, `wakeUp_swallowed`: runs that break it.
-/

namespace Gras

namespace Message

/-- The handler of the message calls `task_main`, or it carries the priority
token and its handler leaves a kick or ends the block. -/
def settles (m : Message) : Bool :=
  m.runsTask || m.carriesToken && (m.kicks || match m with
    | top .inert _ _ => true
    | _ => false)

theorem runsTask_of_settles {m : Message} (h : m.settles = true)
    (htoken : m.carriesToken = false) : m.runsTask = true := by
  simpa [settles, htoken] using h

end Message

namespace BlockActor

/-! ## The invariant -/

/-- The messages that are in the mailbox, or will be without anything else
happening first. -/
def pending (b : BlockActor) : List Message := b.mailbox ++ b.holders.prepared

/-- One of them wakes the block up, or ends it. -/
def WakeUpPending (b : BlockActor) : Prop := ∃ m ∈ b.pending, m.settles = true

/-- **The invariant**: a block that is ready to work will be woken up. -/
def Awake (b : BlockActor) : Prop := b.isReady = true → b.WakeUpPending

/-- `task_main` is heard: nobody holds a copy of the token, or there will be
another attempt. -/
def TaskHeard (b : BlockActor) : Prop :=
  b.isReady = true → b.prioUnique = true ∨ b.WakeUpPending

/-- What other threads may do while a work runs: a message that shares the token
has to wake the block up again. -/
def PreparesWakeUps (event : ThreadEvent) : Prop :=
  ∀ m, event = .prepare m → m.carriesToken = true → m.settles = true

/-- Everything but an input port is ready, and something else is available. -/
def InputMissing (i : Nat) (b : BlockActor) : Prop :=
  i < b.numInputs ∧ b.blockState = .live ∧ b.outputsReady = true ∧
    ∀ j < b.numInputs, j ≠ i → (b.inputQueues j).ready = true

/-- The reconfigured input port is the last one that was missing: with its new
reserve and preload it is ready, and there is something to work on. -/
def InputWakes (i : Nat) (b : BlockActor) : Prop :=
  let config := b.inputConfigs i
  let p := b.inputQueues i
  let preloadBytes := sizeMul config.itemSize config.preloadItems
  let holdsReserve := sizeMul config.itemSize config.reserveItems ≤
    p.configuredBytes config.itemSize preloadBytes
  b.InputMissing i ∧ (b.inputMsgs i ≠ [] ∨ holdsReserve) ∧
    (b.inputMsgs i ≠ [] ∨
      holdsReserve ∧ p.ConfiguredBuffer config.itemSize preloadBytes ∨
      ∃ j < b.inputsAvailable.size, j ≠ i ∧ b.inputsAvailable.bit j = true)

/-- The output port is the last one that is missing, and with that queue and
that reserve it is ready. -/
def OutputWakes (i : Nat) (queue : Option BufferQueue) (reserveBytes : Nat)
    (b : BlockActor) : Prop :=
  i < b.numOutputs ∧ b.blockState = .live ∧ b.inputsAvailable.any = true ∧
    b.inputsReady = true ∧
    (∀ j < b.numOutputs, j ≠ i → (b.outputQueues j).ready = true) ∧
    ∃ q, queue = some q ∧ q.FrontHolds reserveBytes

/-- The queues that are allocated are not empty, and were all that was
missing. -/
def AllocWakes (env : Env) (b : BlockActor) : Prop :=
  b.blockState = .live ∧ b.inputsAvailable.any = true ∧ b.inputsReady = true ∧
    ∀ i < b.numOutputs, ∃ config q,
      (env.outputBufferAllocator i config).1 = some q ∧
      q.FrontHolds (b.outputQueues i).reserveBytes

/-- **When the handler of a message loses no wake-up.** -/
def WakeUpKept (env : Env) (b : BlockActor) : Message → Prop
  | .input i (.msg msg) => env.WorkWithin PreparesWakeUps ∧
      ∀ b₁, b.storeInputMsg env i msg = .ok b₁ → b₁.TaskHeard
  | .input i (.buffer buffer) => env.WorkWithin PreparesWakeUps ∧
      ∀ b₁, b.storeInputBuffer env i buffer = .ok b₁ → b₁.TaskHeard
  | .input i .check =>
      env.WorkWithin PreparesWakeUps ∧ (b.recheckInput env i).TaskHeard
  | .output i (.buffer buffer) => env.WorkWithin PreparesWakeUps ∧
      ∀ b₁, b.storeOutputBuffer env i buffer = .ok b₁ → b₁.TaskHeard
  | .selfKick => env.WorkWithin PreparesWakeUps ∧ b.TaskHeard
  | .input i .update => b.InputWakes i → b.WakeUpPending
  | .output i .update =>
      b.OutputWakes i (b.outputQueues i).queue
        (sizeMul (b.outputConfigs i).itemSize
          (b.outputConfigs i).reserveItems) → b.WakeUpPending
  | .output i (.alloc queue) =>
      b.OutputWakes i (some queue) (b.outputQueues i).reserveBytes →
        b.WakeUpPending
  | .top .alloc _ _ => b.AllocWakes env → b.WakeUpPending
  | _ => True

/-- The condition on a run. -/
def WakeUpsKept (b : BlockActor) : ActorEvent → Prop
  | .thread _ => True
  | .handle env =>
      match b.mailbox with
      | [] => True
      | m :: rest => (b.receive m rest).WakeUpKept env m

/-! ## What happens inside a task -/

/-- No wake-up is lost on the way, and when a copy of the token appears, so does
a wake-up. -/
structure KeepsWakeUps (b b' : BlockActor) : Prop where
  pending : ∀ m ∈ b.pending, m ∈ b'.pending
  token : b.prioUnique = true → b'.prioUnique = true ∨ b'.WakeUpPending

section Task

variable {b b' b'' : BlockActor} {env : Env} {now : Int} {i : Nat}

theorem prioUnique_iff : b.prioUnique = true ↔
    (∀ m ∈ b.mailbox, m.carriesToken = false) ∧ b.handlesPrio = false ∧
      b.holders.prepared = [] ∧ b.holders.sent = 0 ∧ b.holders.waiting = 0 ∧
      b.holders.replied = 0 := by
  simp [prioUnique, and_assoc]

theorem KeepsWakeUps.refl (b : BlockActor) : KeepsWakeUps b b :=
  ⟨fun _ h => h, .inl⟩

theorem KeepsWakeUps.wakeUp (h : KeepsWakeUps b b') (hb : b.WakeUpPending) :
    b'.WakeUpPending := by
  obtain ⟨m, hm, hs⟩ := hb
  exact ⟨m, h.pending m hm, hs⟩

theorem KeepsWakeUps.trans (h : KeepsWakeUps b b') (h' : KeepsWakeUps b' b'') :
    KeepsWakeUps b b'' where
  pending m hm := h'.pending m (h.pending m hm)
  token hb := by
    rcases h.token hb with hb' | hb'
    · exact h'.token hb'
    · exact .inr (h'.wakeUp hb')

/-- The mailbox and the holders are all that counts. -/
theorem KeepsWakeUps.of_control (h : b'.control = b.control) :
    KeepsWakeUps b b' := by
  have hmail : b'.mailbox = b.mailbox := congrArg Control.mailbox h
  have hprio : b'.handlesPrio = b.handlesPrio := congrArg Control.handlesPrio h
  have hheld : b'.holders = b.holders := congrArg Control.holders h
  refine ⟨fun m hm => ?_, fun hb => .inl ?_⟩
  · rw [BlockActor.pending, hmail, hheld]
    exact hm
  · rw [BlockActor.prioUnique, hmail, hprio, hheld]
    exact hb

theorem KeepsWakeUps.markDone (h : b.markDone now = .ok b') :
    KeepsWakeUps b b' := by
  rcases markDone_control h with ⟨-, rfl⟩ | ⟨-, hcontrol⟩
  · exact .refl _
  · have hmail : b'.mailbox = b.mailbox := congrArg Control.mailbox hcontrol
    have hprio : b'.handlesPrio = b.handlesPrio :=
      congrArg Control.handlesPrio hcontrol
    have hheld : b'.holders = b.holders := congrArg Control.holders hcontrol
    refine ⟨fun m hm => ?_, fun hb => .inl ?_⟩
    · rw [BlockActor.pending, hmail, hheld]
      exact hm
    · rw [BlockActor.prioUnique, hmail, hprio, hheld]
      exact hb

theorem mem_pending_sendSelf {m m' : Message} (h : m ∈ b.pending) :
    m ∈ (b.sendSelf m').pending := by
  rcases List.mem_append.mp h with h | h
  · exact List.mem_append_left _ (List.mem_append_left _ h)
  · exact List.mem_append_right _ h

theorem self_mem_pending_sendSelf (m : Message) (b : BlockActor) :
    m ∈ (b.sendSelf m).pending :=
  List.mem_append_left _ (List.mem_append_right _ List.mem_cons_self)

/-- A message to oneself that carries no token. -/
theorem KeepsWakeUps.sendSelf {m : Message} (h : m.carriesToken = false) :
    KeepsWakeUps b (b.sendSelf m) := by
  refine ⟨fun _ => mem_pending_sendSelf, fun hb => .inl ?_⟩
  rw [prioUnique_iff] at hb ⊢
  refine ⟨fun m' hm' => ?_, hb.2⟩
  rcases List.mem_append.mp hm' with hm' | hm'
  · exact hb.1 m' hm'
  · rw [List.mem_singleton.mp hm']
    exact h

theorem KeepsWakeUps.taskKicker (b : BlockActor) :
    KeepsWakeUps b b.taskKicker := by
  unfold BlockActor.taskKicker
  split
  · exact .sendSelf rfl
  · exact .refl _

/-- Nobody takes a message away. -/
theorem mem_pending_threadStep {m : Message} (event : ThreadEvent)
    (hm : m ∈ b.pending) : m ∈ (b.threadStep event).pending := by
  cases event with
  | post m' =>
      rw [threadStep]
      split
      · exact hm
      · exact mem_pending_sendSelf hm
  | prepare m' =>
      rw [threadStep]
      split
      · exact hm
      · rcases List.mem_append.mp hm with hm | hm
        · exact List.mem_append_left _ hm
        · exact List.mem_append_right _ (List.mem_append_left _ hm)
  | send k =>
      rw [threadStep]
      split
      · exact hm
      · rename_i m' hk
        rw [BlockActor.pending, TokenHolders.keepCopy_prepared]
        rcases List.mem_append.mp hm with hm | hm
        · exact List.mem_append_left _ (List.mem_append_left _ hm)
        · rcases eq_or_ne m m' with rfl | hne
          · exact List.mem_append_left _
              (List.mem_append_right _ List.mem_cons_self)
          · obtain ⟨j, hj, rfl⟩ := List.mem_iff_getElem.mp hm
            refine List.mem_append_right _ (List.mem_eraseIdx_iff_getElem.mpr
              ⟨j, hj, fun hjk => hne ?_, rfl⟩)
            subst hjk
            rw [List.getElem?_eq_getElem hj] at hk
            exact Option.some.inj hk
  | release => exact hm
  | «return» => exact hm
  | configureInput j config => exact hm
  | configureOutput j config => exact hm

/-- Other threads: the token gets shared only by preparing a message. -/
theorem KeepsWakeUps.threadStep {event : ThreadEvent}
    (h : PreparesWakeUps event) : KeepsWakeUps b (b.threadStep event) := by
  refine ⟨fun m hm => mem_pending_threadStep event hm, fun hb => ?_⟩
  cases event with
  | post m =>
      rw [BlockActor.threadStep]
      split
      · exact .inl hb
      · rename_i hm
        exact (KeepsWakeUps.sendSelf (by simpa using hm)).token hb
  | prepare m =>
      rw [BlockActor.threadStep]
      split
      · exact .inl hb
      · rename_i hm
        refine .inr ⟨m, List.mem_append_right _ ?_, h m rfl (by simpa using hm)⟩
        exact List.mem_append_right _ List.mem_cons_self
  | send k =>
      rw [BlockActor.threadStep]
      split
      · exact .inl hb
      · rename_i m hk
        rw [prioUnique_iff] at hb
        rw [hb.2.2.1] at hk
        cases hk
  | release =>
      rw [prioUnique_iff] at hb
      obtain ⟨hmail, hprio, hprepared, hsent, hrest⟩ := hb
      exact .inl (prioUnique_iff.mpr
        ⟨hmail, hprio, hprepared, by show b.holders.sent - 1 = 0; omega, hrest⟩)
  | «return» =>
      rw [prioUnique_iff] at hb
      obtain ⟨hmail, hprio, hprepared, hsent, hwait, hreplied⟩ := hb
      exact .inl (prioUnique_iff.mpr ⟨hmail, hprio, hprepared, hsent, hwait, by
        show b.holders.replied - 1 = 0; omega⟩)
  | configureInput j config => exact .inl hb
  | configureOutput j config => exact .inl hb

theorem KeepsWakeUps.of_moves (h : Moves PreparesWakeUps b b') :
    KeepsWakeUps b b' := by
  refine h.rule .refl .trans fun s t hmove => ?_
  cases hmove with
  | quiet hcontrol => exact .of_control hcontrol
  | own hown => exact .sendSelf (Message.carriesToken_of_own hown)
  | thread hok => exact .threadStep hok
  | done hdone => exact .markDone hdone

/-- A kick leaves readiness as it is. -/
theorem taskKicker_isReady (b : BlockActor) :
    b.taskKicker.isReady = b.isReady := by
  unfold taskKicker
  split <;> rfl

/-- **`task_main` loses no wake-up** that it heard. -/
theorem taskMain_awake (henv : env.WorkWithin PreparesWakeUps)
    (hheard : b.TaskHeard) (h : b.taskMain env = .ok b') : b'.Awake := by
  intro hready
  rcases taskMain_cases henv h with ⟨hallowed, rfl⟩ |
    ⟨hallowed, b₁, hmoves, rfl⟩
  · rcases hheard hready with hunique | hpending
    · rw [isWorkAllowed, hunique, hready] at hallowed
      cases hallowed
    · exact hpending
  · have hkeeps := KeepsWakeUps.of_moves hmoves
    rw [taskKicker_isReady] at hready
    rcases hkeeps.token (isWorkAllowed_iff.mp hallowed).1 with
      hunique | hpending
    · unfold taskKicker
      rw [if_pos (isWorkAllowed_iff.mpr ⟨hunique, hready⟩)]
      exact ⟨.selfKick, self_mem_pending_sendSelf _ _, rfl⟩
    · exact (KeepsWakeUps.taskKicker b₁).wakeUp hpending

end Task

/-! ## What a handler makes ready -/

section Handlers

variable {b b' : BlockActor} {env : Env} {i : Nat}

theorem awake_of_done (h : b.blockState = .done) : b.Awake := by
  intro hready
  rw [isReady_iff, h] at hready
  cases hready.1

/-- **`handle_input_update`** makes a block ready only as `InputWakes` says. -/
theorem handleInputUpdate_wakes (h : b.handleInputUpdate env i = .ok b')
    (hready : b'.isReady = true) : b.isReady = true ∨ b.InputWakes i := by
  unfold handleInputUpdate at h
  split at h
  · rw [Checked.pure_eq_ok] at h
    subst h
    exact .inl hready
  · rename_i hi
    simp only [Checked.bind_eq_ok, Prod.exists] at h
    obtain ⟨p, memory, hupdate, havail⟩ := h
    obtain ⟨hbit, hreserve, henq, hbuffer⟩ :=
      InputPort.updateConfig_outcome hupdate
    have hcontrol := updateInputAvail_control havail
    obtain ⟨havailable, ⟨p', hqueues, hp'⟩, houtputs, -⟩ :=
      updateInputAvail_ready havail
    have hself : ({ b with memory }.setInput i p).inputQueues i = p :=
      Function.update_self ..
    rw [hself] at havailable hp'
    obtain ⟨hlive, hany, hin, hout⟩ := isReady_iff.mp hready
    have hnum : b'.numInputs = b.numInputs :=
      congrArg Control.numInputs hcontrol
    have hstate : b'.blockState = b.blockState :=
      congrArg Control.blockState hcontrol
    have hnumOut : b'.numOutputs = b.numOutputs :=
      congrArg Control.numOutputs hcontrol
    rw [inputsReady_iff, hnum, hqueues] at hin
    have hholds : p.ready = true ↔
        sizeMul (b.inputConfigs i).itemSize (b.inputConfigs i).reserveItems ≤
        (b.inputQueues i).configuredBytes (b.inputConfigs i).itemSize
          (sizeMul (b.inputConfigs i).itemSize
            (b.inputConfigs i).preloadItems) := by
      rw [InputPort.ready, hbit, decide_eq_true_iff]
    refine .inr ⟨⟨Nat.lt_of_not_le hi, hstate ▸ hlive, ?_,
      fun j hj hne => ?_⟩, ?_, ?_⟩
    · rw [outputsReady, hnumOut, houtputs] at hout
      exact hout
    · have := hin j hj
      rwa [Function.update_of_ne hne, setInput_inputQueues,
        Function.update_of_ne hne] at this
    · have := hin i (Nat.lt_of_not_le hi)
      rw [Function.update_self, hp', hreserve, henq] at this
      exact this
    · rw [havailable, BitSet.any_iff] at hany
      obtain ⟨j, hj, hbitj⟩ := hany
      rcases eq_or_ne j i with rfl | hne
      · rw [BitSet.set_bit_self, Bool.or_eq_true, Bool.and_eq_true] at hbitj
        rcases hbitj with ⟨hempty, hpready⟩ | hmsg
        · exact .inr (.inl ⟨hholds.mp hpready, hbuffer (by simpa using hempty)⟩)
        · exact .inl (by simpa [setInput] using hmsg)
      · rw [BitSet.set_bit_of_ne hne] at hbitj
        exact .inr (.inr ⟨j, hj, hne, hbitj⟩)

/-- **A port gets a queue or a reserve**: the block becomes ready only as
`OutputWakes` says. -/
theorem setOutput_wakes {p : OutputPort} {queue : Option BufferQueue}
    {reserveBytes : Nat}
    (hp : p.ready = true → (b.outputQueues i).ready = true ∨
      ∃ q, queue = some q ∧ q.FrontHolds reserveBytes)
    (hready : (b.setOutput i p).isReady = true) :
    b.isReady = true ∨ b.OutputWakes i queue reserveBytes := by
  obtain ⟨hlive, hany, hin, hout⟩ := isReady_iff.mp hready
  rw [outputsReady_iff] at hout
  have hothers : ∀ j < b.numOutputs, j ≠ i →
      (b.outputQueues j).ready = true := by
    intro j hj hne
    have := hout j hj
    rwa [setOutput_outputQueues, Function.update_of_ne hne] at this
  rcases Nat.lt_or_ge i b.numOutputs with hi | hi
  · have hself := hout i hi
    rw [setOutput_outputQueues, Function.update_self] at hself
    rcases hp hself with hbefore | hholds
    · refine .inl
        (isReady_iff.mpr
          ⟨hlive, hany, hin, outputsReady_iff.mpr fun j hj => ?_⟩)
      rcases eq_or_ne j i with rfl | hne
      · exact hbefore
      · exact hothers j hj hne
    · exact .inr ⟨hi, hlive, hany, hin, hothers, hholds⟩
  · exact .inl
        (isReady_iff.mpr ⟨hlive, hany, hin, outputsReady_iff.mpr fun j hj =>
      hothers j hj (by omega)⟩)

theorem handleOutputUpdate_wakes (h : b.handleOutputUpdate env i = .ok b')
    (hready : b'.isReady = true) :
    b.isReady = true ∨ b.OutputWakes i (b.outputQueues i).queue
      (sizeMul (b.outputConfigs i).itemSize
        (b.outputConfigs i).reserveItems) := by
  unfold handleOutputUpdate at h
  split at h
  · rw [Checked.pure_eq_ok] at h
    subst h
    exact .inl hready
  · simp only [Checked.bind_eq_ok, Checked.pure_eq_ok] at h
    obtain ⟨p, hset, rfl⟩ := h
    exact setOutput_wakes (OutputPort.setReserveBytes_ready hset) hready

theorem handleOutputAlloc_wakes {queue : BufferQueue}
    (h : b.handleOutputAlloc env i queue = .ok b')
    (hready : b'.isReady = true) :
    b.isReady = true ∨
      b.OutputWakes i (some queue) (b.outputQueues i).reserveBytes := by
  simp only [handleOutputAlloc, Checked.bind_eq_ok, Checked.pure_eq_ok] at h
  obtain ⟨p, hset, rfl⟩ := h
  exact setOutput_wakes
    (fun hp => .inr (OutputPort.setBufferQueue_ready hset hp)) hready

/-- What `handle_top_alloc` has done to the first `n` output ports. -/
structure Allocated (env : Env) (b : BlockActor) (n : Nat)
    (b' : BlockActor) : Prop where
  blockState : b'.blockState = b.blockState
  inputsAvailable : b'.inputsAvailable = b.inputsAvailable
  numInputs : b'.numInputs = b.numInputs
  inputQueues : b'.inputQueues = b.inputQueues
  numOutputs : b'.numOutputs = b.numOutputs
  pending : ∀ m ∈ b.pending, m ∈ b'.pending
  later : ∀ i, n ≤ i → b'.outputQueues i = b.outputQueues i
  holds : ∀ i < n, (b'.outputQueues i).ready = true →
    ∃ config q, (env.outputBufferAllocator i config).1 = some q ∧
      q.FrontHolds (b.outputQueues i).reserveBytes

theorem Allocated.zero : Allocated env b 0 b :=
  ⟨rfl, rfl, rfl, rfl, rfl, fun _ h => h, fun _ _ => rfl, fun i hi => by omega⟩

theorem Allocated.succ {b₁ : BlockActor} {n : Nat} (ha : Allocated env b n b₁)
    (h : b₁.allocateOutput env n = .ok b') : Allocated env b (n + 1) b' := by
  obtain ⟨config, p, hset, rfl⟩ := allocateOutput_cases h
  rw [ha.later n (Nat.le_refl n)] at hset
  refine ⟨ha.blockState, ha.inputsAvailable, ha.numInputs, ha.inputQueues,
    ha.numOutputs, fun m hm => ?_, fun i hi => ?_, fun i hi hready => ?_⟩
  · rcases List.mem_append.mp (ha.pending m hm) with hm | hm
    · exact List.mem_append_left _ (List.mem_append_left _ hm)
    · exact List.mem_append_right _ hm
  · exact (Function.update_of_ne (by omega) _ _).trans (ha.later i (by omega))
  · rcases eq_or_ne i n with rfl | hne
    · replace hready : (Function.update b₁.outputQueues i p i).ready =
        true := hready
      rw [Function.update_self] at hready
      obtain ⟨q, hq, hholds⟩ := OutputPort.setBufferQueue_ready hset hready
      exact ⟨config, q, hq, hholds⟩
    · replace hready : (Function.update b₁.outputQueues n p i).ready =
        true := hready
      rw [Function.update_of_ne hne] at hready
      exact ha.holds i (by omega) hready

theorem handleTopAlloc_allocated {sender : Option Address}
    (h : b.handleTopAlloc env sender = .ok b') :
    Allocated env b b.numOutputs b' := by
  simp only [handleTopAlloc, Checked.bind_eq_ok, Checked.pure_eq_ok] at h
  obtain ⟨b₁, hloop, rfl⟩ := h
  have ha := forRange_rule hloop (P := fun n s => Allocated env b n s) .zero
    fun n _ s s' hs hf => hs.succ hf
  cases sender with
  | none => exact ha
  | some a => exact ⟨ha.blockState, ha.inputsAvailable, ha.numInputs, ha.inputQueues,
      ha.numOutputs, ha.pending, ha.later, ha.holds⟩

theorem handleTopAlloc_wakes {sender : Option Address}
    (h : b.handleTopAlloc env sender = .ok b') (hready : b'.isReady = true) :
    b.AllocWakes env := by
  have ha := handleTopAlloc_allocated h
  obtain ⟨hlive, hany, hin, hout⟩ := isReady_iff.mp hready
  rw [inputsReady, ha.numInputs, ha.inputQueues] at hin
  rw [outputsReady_iff, ha.numOutputs] at hout
  exact ⟨ha.blockState ▸ hlive, ha.inputsAvailable ▸ hany, hin, fun i hi =>
    ha.holds i hi (hout i hi)⟩

end Handlers

end BlockActor

end Gras
