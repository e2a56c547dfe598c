import Gras.Actor.OutputReserve

/-!
# The reserve of an output port in a whole run

A `Reserving` block remembers which configurations were applied.  `Holds` is the
invariant of its runs, `reserve_of_offered` what work is offered, and the run of
a source that is stopped and started again shows why the condition is needed.

### What the condition is for

The reserve stands in two places: in the configuration, as items, and in the
table of the port, as bytes.  An update copies the one to the other, and
`mark_done` resets the table to a byte for every port.  So after a stop and a
start the block works with a reserve of a byte until the next update, which is
what the condition on an activation excludes.  The other two are about the copy,
whose product is one of `size_t`, and about buffers that reach a work without
the queue, those that are inlined.
-/

namespace Gras

/-- A block, and the configuration of each output port that
`handle_output_update` applied last. -/
structure Reserving where
  block : BlockActor
  applied : Nat → OutputPortConfig

namespace Reserving

/-- The configurations that an event applies. -/
def applies (s : Reserving) : BlockEvent → Nat → OutputPortConfig
  | .actor (.thread _) => s.applied
  | .actor (.handle _) =>
      match s.block.mailbox with
      | .output i .update :: _ =>
          if i < s.block.numOutputs then
            Function.update s.applied i (s.block.outputConfigs i)
          else s.applied
      | _ => s.applied
  | .topology _ _ numOutputs _ => fun o =>
      if o < numOutputs then s.block.outputConfigs o else s.applied o

/-- One event. -/
def next (s : Reserving) (e : BlockEvent) : Checked Reserving := do
  let block ← s.block.change e
  return { block, applied := s.applies e }

/-- The lives of a block. -/
def system : TransitionSystem Reserving BlockEvent :=
  .ofNext (fun s => s.block.Started ∧ s.applied = s.block.outputConfigs) next

/-- The bytes that are needed. -/
def need (s : Reserving) (o : Nat) : Nat := (s.applied o).reserveBytes

/-- The bytes of the reserves that were applied last are counted without an
overflow. -/
def ReservesFit (s : Reserving) : Prop :=
  ∀ o < s.block.numOutputs,
    (s.applied o).itemSize * (s.applied o).reserveItems < 2 ^ 64

instance (s : Reserving) : Decidable s.ReservesFit :=
  inferInstanceAs (Decidable (∀ o < s.block.numOutputs, _))

/-- **When the reserves are kept**: their bytes do not overflow, a block is
activated only while its table of reserves holds what was applied last, and an
input buffer is inlined only where it fits. -/
def ReserveKept (s : Reserving) : BlockEvent → Prop
  | .actor (.thread _) => True
  | .actor (.handle env) => env.Proper ∧ s.ReservesFit ∧
      match s.block.mailbox with
      | [] => True
      | m :: rest =>
          (∀ prio sender, m = .top .active prio sender →
            ∀ o < s.block.numOutputs,
            s.need o ≤ (s.block.outputQueues o).reserveBytes) ∧
          (∀ b₀, (s.block.receive m rest).enter env m = some (.ok b₀) →
            b₀.isWorkAllowed = true → b₀.InlineFits env s.need)
  | .topology _ _ _ _ => True

/-- **The invariant.** -/
structure Holds (s : Reserving) : Prop where
  settled : s.block.PortsSettled
  reserves : s.block.blockState = .live →
    ∀ o < s.block.numOutputs, s.need o ≤ (s.block.outputQueues o).reserveBytes

open BlockActor

section Runs

variable {s s' : Reserving} {b b' : BlockActor} {env : Env} {now : Int}
  {e : BlockEvent}

/-- Applying the configuration of a port. -/
theorem handleOutputUpdate_applied {i : Nat} (hb : b.PortsSettled)
    (hi : i < b.numOutputs) (h : b.handleOutputUpdate env i = .ok b') :
    ∃ p, p.Settled ∧ p.reserveBytes = (b.outputConfigs i).reserveBytes ∧
      b' = b.setOutput i p := by
  unfold handleOutputUpdate at h
  rw [if_neg (by omega)] at h
  simp only [Checked.bind_eq_ok, Checked.pure_eq_ok] at h
  obtain ⟨p, hset, rfl⟩ := h
  obtain ⟨hsettled, hreserve⟩ := (hb i hi).setReserveBytes hset
  exact ⟨p, hsettled, hreserve, rfl⟩

theorem handleInputUpdate_outputConfigs {i : Nat}
    (h : b.handleInputUpdate env i = .ok b') :
    b'.outputConfigs = b.outputConfigs := by
  unfold handleInputUpdate at h
  split at h
  · rw [Checked.pure_eq_ok] at h
    rw [h]
  · simp only [updateInputAvail, Checked.bind_eq_ok, Checked.pure_eq_ok,
      Prod.exists] at h
    obtain ⟨p, memory, -, q, -, rfl⟩ := h
    rfl

theorem markDone_outputConfigs (h : b.markDone now = .ok b') :
    b'.outputConfigs = b.outputConfigs := by
  rcases markDone_cases h with ⟨-, rfl⟩ | ⟨-, b₁, hout, -, b₂, hin, rfl⟩
  · rfl
  · have h₁ := forRange_relates hout
      (R := fun s s' => s'.outputConfigs = s.outputConfigs)
      (fun _ => rfl) (fun h h' => h'.trans h) fun i _ s s' hf => by
        unfold flushOutput at hf
        split at hf
        · rw [Checked.pure_eq_ok] at hf
          rw [hf]
        · simp only [Checked.bind_eq_ok, Prod.exists] at hf
          obtain ⟨buff, p, -, hf⟩ := hf
          split at hf
          · rw [Checked.pure_eq_ok] at hf
            rw [← hf]
            rfl
          · simp only [Checked.bind_eq_ok, Checked.pure_eq_ok] at hf
            obtain ⟨q, -, rfl⟩ := hf
            rfl
    have h₂ := forRange_relates hin
      (R := fun s s' => s'.outputConfigs = s.outputConfigs)
      (fun _ => rfl) (fun h h' => h'.trans h) fun i _ s s' hf => by
        simp only [flushInput, Checked.bind_eq_ok, Checked.pure_eq_ok] at hf
        obtain ⟨p, -, rfl⟩ := hf
        rfl
    exact h₂.trans h₁

/-- **After a change of the topology** every port is settled, and its reserve is
that of its configuration. -/
theorem handleTopology_applied {numInputs numOutputs : Nat}
    {sender : Option Address} (hb : b.PortsSettled)
    (h : b.handleTopology env numInputs numOutputs sender = .ok b') :
    b'.numOutputs = numOutputs ∧ b'.PortsSettled ∧
      b'.outputConfigs = b.outputConfigs ∧
      ∀ o < numOutputs, (b'.outputQueues o).reserveBytes =
        (b.outputConfigs o).reserveBytes := by
  simp only [handleTopology, Checked.bind_eq_ok, Checked.pure_eq_ok] at h
  obtain ⟨b₁, hrelease, b₂, hin, b₃, hout, rfl⟩ := h
  have hresized : (b.resize env.now numInputs numOutputs).PortsSettled := by
    intro o _
    by_cases ho : o < b.numOutputs
    · have hout : (b.resize env.now numInputs numOutputs).outputQueues o =
          b.outputQueues o :=
        if_pos ho
      rw [hout]
      exact hb o ho
    · have hout : (b.resize env.now numInputs numOutputs).outputQueues o =
          .resized b.initTime env.now := if_neg ho
      rw [hout]
      exact OutputPort.settled_resized b.initTime
  have h₁ : b₁.numOutputs = numOutputs ∧ b₁.PortsSettled ∧
      b₁.outputConfigs = b.outputConfigs := by
    unfold releaseUnconnected at hrelease
    split at hrelease
    · have hconfigs := markDone_outputConfigs hrelease
      exact ⟨(markDone_reserves hrelease).numOutputs,
        hresized.markDone hrelease, hconfigs⟩
    · rw [Checked.pure_eq_ok] at hrelease
      subst hrelease
      exact ⟨rfl, hresized, rfl⟩
  have h₂ : b₂.numOutputs = numOutputs ∧ b₂.PortsSettled ∧
      b₂.outputConfigs = b.outputConfigs :=
    forRange_rule hin
      (P := fun _ s => s.numOutputs = numOutputs ∧ s.PortsSettled ∧
      s.outputConfigs = b.outputConfigs) h₁ fun i _ s s' hs hf => by
        have hnum : s'.numOutputs = s.numOutputs :=
          congrArg Control.numOutputs (handleInputUpdate_control hf)
        exact ⟨hnum.trans hs.1,
          settled_of_eq hs.2.1 hnum (handleInputUpdate_outputs hf),
          (handleInputUpdate_outputConfigs hf).trans hs.2.2⟩
  have h₃ : (b₃.numOutputs = numOutputs ∧ b₃.PortsSettled ∧
      b₃.outputConfigs = b.outputConfigs) ∧ ∀ o < numOutputs,
        (b₃.outputQueues o).reserveBytes = (b.outputConfigs o).reserveBytes :=
    forRange_rule hout
      (P := fun n s => (s.numOutputs = numOutputs ∧ s.PortsSettled ∧
      s.outputConfigs = b.outputConfigs) ∧ ∀ o < n,
        (s.outputQueues o).reserveBytes = (b.outputConfigs o).reserveBytes)
      ⟨h₂, fun o ho => absurd ho (Nat.not_lt_zero o)⟩ fun n hn s s' hs hf => by
        obtain ⟨⟨hnum, hsettled, hconfigs⟩, hreserves⟩ := hs
        obtain ⟨p, hp, hreserve, rfl⟩ :=
          handleOutputUpdate_applied hsettled (hnum ▸ hn) hf
        refine ⟨⟨hnum, ?_, hconfigs⟩, fun o ho => ?_⟩
        · exact forall_outputs_update
            (P := fun _ => OutputPort.Settled) hsettled rfl rfl
            fun _ => hp
        · by_cases hon : o = n
          · subst hon
            rw [setOutput_outputQueues, Function.update_self,
              hreserve, hconfigs]
          · rw [setOutput_outputQueues, Function.update_of_ne hon]
            exact hreserves o (by omega)
  cases sender with
  | none => exact ⟨h₃.1.1, h₃.1.2.1, h₃.1.2.2, h₃.2⟩
  | some a => exact ⟨h₃.1.1, h₃.1.2.1, h₃.1.2.2, h₃.2⟩

theorem holds_init (h : system.init s) : s.Holds := by
  obtain ⟨⟨initTime, memory, inputConfigs, outputConfigs, env, n, k, hstart⟩,
      happlied⟩ := h
  have hmade : ({ made initTime memory with inputConfigs, outputConfigs } :
      BlockActor).PortsSettled := fun o ho => absurd ho (Nat.not_lt_zero o)
  obtain ⟨hnum, hsettled, hconfigs, hreserves⟩ :=
    handleTopology_applied hmade hstart
  refine ⟨hsettled, fun _ o ho => ?_⟩
  rw [need, happlied, hreserves o (hnum ▸ ho), hconfigs]

/-- What a handler other than that of an update applies: nothing. -/
theorem applies_of_ne {m : Message} {rest : List Message}
    (hmail : s.block.mailbox = m :: rest) (hm : ∀ i, m ≠ .output i .update) :
    s.applies (.actor (.handle env)) = s.applied := by
  simp only [applies, hmail]
  split
  · rename_i i _ h
    cases h
    exact absurd rfl (hm i)
  · rfl

/-- **A handler keeps the invariant** when it meets the condition. -/
theorem holds_handler {m : Message} {rest : List Message} (hs : s.Holds)
    (hmail : s.block.mailbox = m :: rest) (henv : env.Proper)
    (hactive : ∀ prio sender, m = .top .active prio sender →
      ∀ o < s.block.numOutputs,
      s.need o ≤ (s.block.outputQueues o).reserveBytes)
    (hfits : ∀ b₀, (s.block.receive m rest).enter env m = some (.ok b₀) →
      b₀.isWorkAllowed = true → b₀.InlineFits env s.need)
    (h : (s.block.receive m rest).handler env m = .ok b') :
    Holds ⟨{ b' with handlesPrio := false },
      s.applies (.actor (.handle env))⟩ := by
  have hsettled : (s.block.receive m rest).PortsSettled :=
    settled_of_eq hs.settled rfl rfl
  by_cases hupdate : ∃ i, m = .output i .update
  · obtain ⟨i, rfl⟩ := hupdate
    by_cases hi : i < s.block.numOutputs
    · -- The port gets the reserve that is recorded as applied.
      obtain ⟨p, hp, hreserve, rfl⟩ := handleOutputUpdate_applied hsettled hi h
      have happlied : s.applies (.actor (.handle env)) =
          Function.update s.applied i (s.block.outputConfigs i) := by
        simp only [applies, hmail, if_pos hi]
      rw [happlied]
      refine ⟨forall_outputs_update
        (P := fun _ => OutputPort.Settled) hsettled rfl rfl
        fun _ => hp, fun hlive o ho => ?_⟩
      show (Function.update s.applied i
          (s.block.outputConfigs i) o).reserveBytes ≤
        (Function.update s.block.outputQueues i p o).reserveBytes
      by_cases hoi : o = i
      · subst hoi
        rw [Function.update_self, Function.update_self, hreserve]
        exact Nat.le_refl _
      · rw [Function.update_of_ne hoi, Function.update_of_ne hoi]
        exact hs.reserves hlive o ho
    · have happlied : s.applies (.actor (.handle env)) = s.applied := by
        simp only [applies, hmail, if_neg hi]
      rw [happlied]
      have hbeyond :
          (s.block.receive (.output i .update) rest).numOutputs ≤ i :=
        Nat.le_of_not_lt hi
      rw [handler, handleOutputUpdate, if_pos hbeyond, Checked.pure_eq_ok] at h
      exact h ▸ ⟨hsettled, hs.reserves⟩
  · have happlied : s.applies (.actor (.handle env)) = s.applied :=
      applies_of_ne hmail fun i hm => hupdate ⟨i, hm⟩
    rw [happlied]
    by_cases htop : ∃ prio sender, m = .top .active prio sender
    · obtain ⟨prio, sender, rfl⟩ := htop
      have hports : b'.outputQueues = s.block.outputQueues ∧
          b'.numOutputs = s.block.numOutputs := by
        rw [handler, Checked.pure_eq_ok] at h
        subst h
        obtain ⟨t, hactive⟩ :=
          handleTopActive_eq env sender (s.block.receive _ rest)
        rw [hactive]
        exact ⟨rfl, rfl⟩
      refine ⟨settled_of_eq hsettled hports.2 hports.1, fun _ o ho => ?_⟩
      show _ ≤ (b'.outputQueues o).reserveBytes
      rw [hports.1]
      exact hactive prio sender rfl o (hports.2 ▸ ho)
    · obtain ⟨hsettled', hkept⟩ :=
        handled_settled henv hsettled hs.reserves hfits
        (fun i hm => hupdate ⟨i, hm⟩)
          (fun prio sender hm => htop ⟨prio, sender, hm⟩) (handled h)
      refine ⟨hsettled', fun hlive o ho => ?_⟩
      rcases hkept.reserves with hdone | ⟨hstate, hreserve⟩
      · exact absurd (hlive.symm.trans hdone) (by decide)
      · replace ho : o < s.block.numOutputs := hkept.numOutputs ▸ ho
        show _ ≤ (b'.outputQueues o).reserveBytes
        rw [hreserve o ho]
        exact hs.reserves (hstate ▸ hlive) o ho

/-- **Every event keeps the invariant** when it meets the condition. -/
theorem holds_next (hs : s.Holds) (hkept : s.ReserveKept e)
    (h : s.next e = .ok s') : s'.Holds := by
  simp only [next, Checked.bind_eq_ok, Checked.pure_eq_ok] at h
  obtain ⟨b', hchange, rfl⟩ := h
  cases e with
  | topology env n k sender =>
      obtain ⟨hnum, hsettled, -, hreserves⟩ :=
        handleTopology_applied hs.settled hchange
      refine ⟨hsettled, fun _ o ho => ?_⟩
      replace ho : o < k := hnum ▸ ho
      show OutputPortConfig.reserveBytes (if o < k then _ else _) ≤ _
      rw [if_pos ho, hreserves o ho]
  | actor event =>
      rcases next_cases hchange with ⟨thread, rfl, rfl⟩ |
        ⟨env, rfl, hmail, rfl⟩ |
        ⟨env, m, rest, b₁, rfl, hmail, hhandler, rfl⟩
      · obtain ⟨hout, hnum, hstate⟩ := threadStep_outputs s.block thread
        refine ⟨settled_of_eq hs.settled hnum hout, fun hlive o ho => ?_⟩
        replace hlive : (s.block.threadStep thread).blockState = .live := hlive
        show _ ≤ ((s.block.threadStep thread).outputQueues o).reserveBytes
        rw [hout]
        exact hs.reserves (hstate ▸ hlive) o (hnum ▸ ho)
      · have happlied : s.applies (.actor (.handle env)) = s.applied := by
          simp only [applies, hmail]
        rw [happlied]
        exact hs
      · obtain ⟨henv, -, hcondition⟩ := hkept
        simp only [hmail] at hcondition
        exact holds_handler hs hmail henv hcondition.1 hcondition.2 hhandler

/-- **In every run** whose events meet the condition. -/
theorem holds_of_reachable
    (hs : (system.restrict ReserveKept).Reachable s) : s.Holds :=
  TransitionSystem.Reachable.invariant (T := system.restrict ReserveKept)
    (fun _ h => holds_init h) (fun _ _ _ _ hs h => holds_next hs h.1 h.2) hs

/-- **The output reserve**: in a run whose events meet the condition, a work is
offered on each port a buffer with the items of the reserve that was applied
last.

The reserve of a port is reset to a byte when the block is marked done, and
nothing applies it again before the next work; so an activation has to find the
table of reserves as the last update left it.  The bytes of a reserve have to
fit `size_t`, and an input buffer that is inlined has to be as large as the
reserve of its output. -/
theorem reserve_of_offered {b₁ : BlockActor}
    (hs : (system.restrict ReserveKept).Reachable s)
    (hkept : s.ReserveKept (.actor (.handle env)))
    (hwork : s.block.atWork env = some b₁) :
    ∀ o < b₁.numOutputs, ∃ buff, Offers (s.need o) o b₁ buff ∧
      (0 < (s.applied o).itemSize →
        (s.applied o).reserveItems ≤ buff.room / (s.applied o).itemSize) := by
  obtain ⟨m, rest, b₀, hmail, henter, hallowed, hprepare⟩ :=
    atWork_eq_some hwork
  have hholds := holds_of_reachable hs
  obtain ⟨henv, hfit, hcondition⟩ := hkept
  simp only [hmail] at hcondition
  have hsettled : (s.block.receive m rest).PortsSettled :=
    settled_of_eq hholds.settled rfl rfl
  obtain ⟨hsettled₀, hkept₀⟩ := enter_settled hsettled henter rfl
  obtain ⟨hlive, -, -, hready⟩ :=
    isReady_iff.mp (isWorkAllowed_iff.mp hallowed).2
  have hneed : ∀ o < b₀.numOutputs,
      s.need o ≤ (b₀.outputQueues o).reserveBytes := by
    intro o ho
    rcases hkept₀.reserves with hdone | ⟨hstate, hreserve⟩
    · exact absurd (hlive.symm.trans hdone) (by decide)
    · replace ho : o < s.block.numOutputs := hkept₀.numOutputs ▸ ho
      rw [hreserve o ho]
      exact hholds.reserves (hstate ▸ hlive) o ho
  obtain ⟨hkept₁, -, hoffers⟩ :=
    prepare_offers hready (hcondition.2 b₀ henter hallowed) hsettled₀
      hneed hprepare
  intro o ho
  obtain ⟨buff, hoffer⟩ := hoffers o ho
  refine ⟨buff, hoffer, fun hsize => ?_⟩
  have hnum : b₁.numOutputs = s.block.numOutputs :=
    hkept₁.numOutputs.trans hkept₀.numOutputs
  have hbytes : s.need o =
      (s.applied o).itemSize * (s.applied o).reserveItems :=
    sizeMul_of_lt (hfit o (hnum ▸ ho))
  rw [Nat.le_div_iff_mul_le hsize, Nat.mul_comm, ← hbytes]
  exact hoffer.needed

end Runs

/-! ### A source that is stopped and started again -/

/-- A condition that is simpler to check. -/
def reservesPlainly (s : Reserving) : BlockEvent → Bool
  | .actor (.thread _) => true
  | .actor (.handle env) => env.called.isEmpty && env.propagateTags.isNone &&
      decide s.ReservesFit &&
      match s.block.mailbox with
      | [] => true
      | m :: rest =>
          (match m with
            | .top .active _ _ => decide (∀ o < s.block.numOutputs,
                s.need o ≤ (s.block.outputQueues o).reserveBytes)
            | _ => true) &&
          match (s.block.receive m rest).enter env m with
          | some (.ok b₀) => decide (b₀.InlineFits env s.need)
          | _ => true
  | .topology _ _ _ _ => true

theorem proper_of_plain {env : Env} (hcalled : env.called = [])
    (htags : env.propagateTags = none) : env.Proper :=
  ⟨fun c hc =>
    by simp [hcalled] at hc, fun overload ho => by simp [htags] at ho⟩

theorem reserveKept_of_plainly {s : Reserving} {e : BlockEvent}
    (h : s.reservesPlainly e = true) : s.ReserveKept e := by
  cases e with
  | topology env n k sender => trivial
  | actor event =>
      cases event with
      | thread event => trivial
      | handle env =>
          simp only [reservesPlainly, Bool.and_eq_true, List.isEmpty_iff,
            Option.isNone_iff_eq_none, decide_eq_true_eq] at h
          obtain ⟨⟨⟨hcalled, htags⟩, hfit⟩, h⟩ := h
          refine ⟨proper_of_plain hcalled htags, hfit, ?_⟩
          cases hmail : s.block.mailbox with
          | nil => trivial
          | cons m rest =>
              simp only [hmail, Bool.and_eq_true] at h
              refine ⟨fun prio sender hm => ?_, fun b₀ henter _ => ?_⟩
              · subst hm
                simpa using h.1
              · simpa only [henter, decide_eq_true_eq] using h.2

/-- A source with one port that asks for 20000 items, and gets buffers of
32768. -/
def source : Checked BlockActor :=
  { made 0 addressMemory with
    outputConfigs :=
      fun _ => { reserveItems := 20000, maximumItems := 32768 } }.handleTopology
    {} 0 1 none

theorem source_started {b : BlockActor} (h : source = .ok b) : Started b :=
  ⟨0, addressMemory, _,
    fun _ => { reserveItems := 20000, maximumItems := 32768 }, {}, 0, 1, h⟩

/-- The oldest message is handled; allocating makes a pool with one buffer. -/
def handles (work : List Call) : BlockEvent :=
  .actor (.handle {
    work
    outputBufferAllocator := fun _ config =>
      (some (.pool (.make config 1)),
        [⟨1, { config with memory := 100 }, 0, 0, 0⟩]) })

/-- The top block sends a message. -/
def sends (m : TopMessage) : BlockEvent :=
  .actor (.thread (.post (.top m false none)))

/-- The block is started. -/
def starts : List BlockEvent :=
  [sends .alloc, handles [], handles [], sends .active, handles []]

/-- The new buffer, which its token sends back when a block that is done drops
it. -/
def returns : BlockEvent :=
  .actor (.thread (.post (.output 0 (.buffer
    ⟨1, { memory := 100, length := 32768 }, 0, 0, 0⟩))))

/-- It is stopped, started again, and its first work fills half of a buffer. -/
def restarts : List BlockEvent :=
  starts ++ [sends .inert, handles [], handles [], handles []] ++
    [sends .alloc, handles [], sends .active, handles [], returns, handles [],
      handles [.produce 0 16384]]

/-- Start the source and perform events that meet a condition. -/
def runSource (ok : Reserving → BlockEvent → Bool) (es : List BlockEvent) :
    Option Reserving :=
  source.toOption.bind fun b =>
    TransitionSystem.runRestricted (fun s e => ok s e = true) next es
      ⟨b, b.outputConfigs⟩

theorem reachable_of_runSource {ok : Reserving → BlockEvent → Bool}
    {es : List BlockEvent} {s : Reserving} (h : runSource ok es = some s) :
    (system.restrict fun s e => ok s e = true).Reachable s := by
  obtain ⟨b₀, hstart, hrun⟩ := Option.bind_eq_some_iff.mp h
  cases hsource : source with
  | error e => simp [hsource, Except.toOption] at hstart
  | ok b₁ =>
      rw [hsource] at hstart
      cases hstart
      have hinit : (system.restrict fun s e => ok s e = true).init
          ⟨b₀, b₀.outputConfigs⟩ :=
        ⟨source_started hsource, rfl⟩
      exact .of_restricted_events es (.init hinit) hrun

/-- What the next work is offered on the first port, and the bytes that are
needed. -/
def offered (s : Reserving) : Option (Nat × Nat × Nat × Nat) :=
  (s.block.atWork {}).map fun b => (b.numOutputs, b.outputItems.size 0,
    (b.outputConfigs 0).itemSize, s.need 0)

end Reserving

theorem reserve_of_offered_starts :
    ∃ s b₁, Reserving.runSource Reserving.reservesPlainly
        Reserving.starts = some s ∧
      s.block.atWork {} = some b₁ ∧ b₁.numOutputs = 1 ∧ s.need 0 = 20000 ∧
      ∃ buff, BlockActor.Offers (s.need 0) 0 b₁ buff := by
  have hrun : (Reserving.runSource Reserving.reservesPlainly
      Reserving.starts).map
      (fun s => (s.offered, s.reservesPlainly (.actor (.handle {}))))
      = some (some (1, 32768, 1, 20000), true) := by decide
  obtain ⟨s, hs, heq⟩ := Option.map_eq_some_iff.mp hrun
  simp only [Prod.mk.injEq] at heq
  obtain ⟨b₁, hwork, hoffered⟩ := Option.map_eq_some_iff.mp heq.1
  simp only [Prod.mk.injEq] at hoffered
  have hnum := hoffered.1
  obtain ⟨buff, hoffers, -⟩ := Reserving.reserve_of_offered
    ((Reserving.reachable_of_runSource hs).restrict_mono
      fun _ _ => Reserving.reserveKept_of_plainly)
    (Reserving.reserveKept_of_plainly heq.2) hwork 0 (by omega)
  exact ⟨s, b₁, hs, hwork, hnum, hoffered.2.2.2, buff, hoffers⟩

/-- **A block that is stopped and started again** forgets its reserve: the
second work is offered 16384 items where 20000 were asked for. -/
theorem reserve_lost_by_restart :
    ¬ ∀ (s : Reserving) (env : Env) (b₁ : BlockActor),
      Reserving.system.Reachable s →
      env.Proper → s.block.atWork env = some b₁ →
      ∀ o < b₁.numOutputs, ∃ buff, BlockActor.Offers (s.need o) o b₁ buff := by
  intro hall
  have hrun : (Reserving.runSource (fun _ _ => true) Reserving.restarts).map
      (fun s => s.offered) = some (some (1, 16384, 1, 20000)) := by decide
  obtain ⟨s, hs, heq⟩ := Option.map_eq_some_iff.mp hrun
  obtain ⟨b₁, hwork, hoffered⟩ := Option.map_eq_some_iff.mp heq
  simp only [Prod.mk.injEq] at hoffered
  obtain ⟨hnum, hsize, hitem, hneed⟩ := hoffered
  obtain ⟨buff, hoffers⟩ :=
    hall s {} b₁ (Reserving.reachable_of_runSource hs).of_restrict
    (Reserving.proper_of_plain rfl rfl) hwork 0 (by omega)
  have hroom := hoffers.size
  rw [hsize, hitem, Nat.div_one] at hroom
  have hneeded := hoffers.needed
  omega

end Gras
