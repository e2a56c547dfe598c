import Gras.Actor.ItemCounters

/-!
# The absolute item counters in a whole run

`Counting` adds to a block the number of items it has posted on each port since
it was made.  `Agrees` is the invariant between handlers: both counters of a
port are the same, and equal to what was posted.

### What the condition is for

An item is counted twice, by the port when it is produced and by the statistics
when the work has returned, and it is posted by a third piece of code.  The
counters part when something comes between: a `mark_done` inside the work
flushes what is not yet in the statistics and then skips the tasks after it;
`produce` into a front that is then popped, or posted inline, counts what is
never posted; and a product of items and size that overflows posts fewer bytes
than it counts.  `CountsKept` asks of each call that it is not one of these, in
the state it is made in.
-/

namespace Gras

/-- A buffer that comes back has no bytes in it, and neither has a new queue. -/
def Message.Unused : Message → Prop
  | .output _ (.buffer buff) => buff.length = 0
  | .output _ (.alloc queue) => queue.Unused
  | _ => True

namespace BlockActor

/-- The counters between two handlers agree. -/
structure Agreed (t : Tally) (b : BlockActor) : Prop where
  seen : t.seen ≤ b.sent.length
  consumed : ∀ i < b.numInputs, b.totalItemsConsumed i = b.stats.itemsConsumed i
  produced : ∀ o < b.numOutputs, b.totalItemsProduced o =
    b.stats.itemsProduced o
  posted : ∀ o < b.numOutputs, t.posted b o = b.totalItemsProduced o
  port : ∀ o < b.numOutputs, (b.outputQueues o).Clean

section Handlers

variable {b b' : BlockActor} {t : Tally} {env : Env} {m : Message} {i : Nat}

theorem rested_iff : Rested t b ↔ Agreed t b ∧
    ∀ o < b.numOutputs, (b.outputConfigs o).itemSize = t.size o ∧
      0 < t.size o := by
  constructor
  · intro hb
    have hsafe := hb.markSafe
    refine ⟨⟨hb.seen, hsafe.consumed, hsafe.produced, hb.posted,
      fun o ho => ?_⟩, hb.size⟩
    have hport := hb.port o ho
    rwa [if_pos ho] at hport
  · rintro ⟨hb, hsize⟩
    refine ⟨hb.seen, hsize, fun i hi => ?_, fun o ho => ?_, hb.posted,
      fun o ho => ?_⟩
    · rw [if_pos hi]
      exact (hb.consumed i hi).symm
    · rw [if_pos ho]
      exact (hb.produced o ho).symm
    · rw [if_pos ho]
      exact hb.port o ho

theorem Agreed.same (hb : Agreed t b) (h : SameCounters b b')
    (hport : ∀ o < b.numOutputs, (b.outputQueues o).Clean →
      (b'.outputQueues o).Clean) :
    Agreed t b' := by
  refine ⟨h.seen hb.seen, fun i hi => ?_, fun o ho => ?_, fun o ho => ?_,
    fun o ho => ?_⟩
  · rw [h.itemsConsumed, h.totalItemsConsumed]
    exact hb.consumed i (h.numInputs ▸ hi)
  · rw [h.itemsProduced, h.totalItemsProduced]
    exact hb.produced o (h.numOutputs ▸ ho)
  · rw [h.posted hb.seen, h.totalItemsProduced]
    exact hb.posted o (h.numOutputs ▸ ho)
  · have ho : o < b.numOutputs := h.numOutputs ▸ ho
    exact hport o ho (hb.port o ho)

theorem Rested.same (hb : Rested t b) (h : SameCounters b b')
    (hport : ∀ o < b.numOutputs, (b.outputQueues o).Clean →
      (b'.outputQueues o).Clean) :
    Rested t b' := by
  obtain ⟨hagreed, hsize⟩ := rested_iff.mp hb
  refine rested_iff.mpr ⟨hagreed.same h hport, fun o ho => ?_⟩
  rw [h.itemSize o]
  exact hsize o (h.numOutputs ▸ ho)

/-- The ports stay too. -/
theorem Rested.of_same (hb : Rested t b) (h : SameCounters b b')
    (hout : b'.outputQueues = b.outputQueues) : Rested t b' :=
  hb.same h fun o _ hp => by rwa [hout]

/-- One port is replaced by a clean one. -/
theorem Agreed.update {p : OutputPort} (hb : Agreed t b) (h : SameCounters b b')
    (hout : b'.outputQueues = Function.update b.outputQueues i p)
    (hp : (b.outputQueues i).Clean → p.Clean) : Agreed t b' := by
  refine hb.same h fun o _ hclean => ?_
  rw [hout]
  by_cases hoi : o = i
  · subst hoi
    rw [Function.update_self]
    exact hp hclean
  · rwa [Function.update_of_ne hoi]

theorem Rested.update {p : OutputPort} (hb : Rested t b) (h : SameCounters b b')
    (hout : b'.outputQueues = Function.update b.outputQueues i p)
    (hp : (b.outputQueues i).Clean → p.Clean) : Rested t b' := by
  obtain ⟨hagreed, hsize⟩ := rested_iff.mp hb
  refine rested_iff.mpr ⟨hagreed.update h hout hp, fun o ho => ?_⟩
  rw [h.itemSize o]
  exact hsize o (h.numOutputs ▸ ho)

theorem Rested.markDone {now : Int} (hb : Rested t b)
    (h : b.markDone now = .ok b') : Rested t b' := by
  have hcounted := Counted.markDone hb hb.markSafe h
  rcases markDone_control h with ⟨-, rfl⟩ | ⟨-, hcontrol⟩
  · exact hb
  · have hin : b'.numInputs = b.numInputs := congrArg Control.numInputs hcontrol
    have hout : b'.numOutputs = b.numOutputs :=
      congrArg Control.numOutputs hcontrol
    rw [Rested, hin, hout]
    exact hcounted

theorem Rested.enter {b₀ : BlockActor} (hb : Rested t b) (hm : m.Unused)
    (h : b.enter env m = some (.ok b₀)) : Rested t b₀ := by
  cases m with
  | input i message =>
      cases message with
      | msg msg =>
          simp only [BlockActor.enter] at h
          split at h
          · cases h
          · simp only [Option.some.injEq, storeInputMsg, updateInputAvail,
              Checked.bind_eq_ok, Checked.pure_eq_ok] at h
            obtain ⟨p, -, rfl⟩ := h
            exact hb.of_same (.of_eq rfl rfl) rfl
      | buffer buffer =>
          simp only [BlockActor.enter] at h
          split at h
          · cases h
          · simp only [Option.some.injEq, storeInputBuffer, updateInputAvail,
              Checked.bind_eq_ok, Checked.pure_eq_ok] at h
            obtain ⟨p, -, q, -, rfl⟩ := h
            exact hb.of_same (.of_eq rfl rfl) rfl
      | check =>
          simp only [BlockActor.enter, Option.some.injEq,
            Checked.pure_eq_ok] at h
          subst h
          exact hb.of_same (.of_eq rfl rfl) rfl
      | _ => cases h
  | output i message =>
      cases message with
      | buffer buffer =>
          simp only [BlockActor.enter] at h
          split at h
          · cases h
          · simp only [Option.some.injEq, storeOutputBuffer, Checked.bind_eq_ok,
              Checked.pure_eq_ok] at h
            obtain ⟨p, hpush, rfl⟩ := h
            exact hb.update (.of_eq rfl rfl) rfl fun hp => hp.push hm hpush
      | _ => cases h
  | selfKick =>
      simp only [BlockActor.enter, Option.some.injEq, Checked.pure_eq_ok] at h
      exact h ▸ hb
  | _ => cases h

theorem handleInputUpdate_same (h : b.handleInputUpdate env i = .ok b') :
    SameCounters b b' ∧ b'.outputQueues = b.outputQueues := by
  unfold handleInputUpdate at h
  split at h
  · rw [Checked.pure_eq_ok] at h
    exact h ▸ ⟨.refl b, rfl⟩
  · simp only [updateInputAvail, Checked.bind_eq_ok, Checked.pure_eq_ok,
      Prod.exists] at h
    obtain ⟨p, memory, -, q, -, rfl⟩ := h
    exact ⟨.of_eq rfl rfl, rfl⟩

theorem handleOutputUpdate_same (h : b.handleOutputUpdate env i = .ok b') :
    SameCounters b b' ∧ ∀ o, (b.outputQueues o).Clean →
      (b'.outputQueues o).Clean := by
  unfold handleOutputUpdate at h
  split at h
  · rw [Checked.pure_eq_ok] at h
    exact h ▸ ⟨.refl b, fun _ hp => hp⟩
  · simp only [Checked.bind_eq_ok, Checked.pure_eq_ok] at h
    obtain ⟨p, hset, rfl⟩ := h
    refine ⟨.of_eq rfl rfl, fun o hp => ?_⟩
    rw [setOutput_outputQueues]
    by_cases hoi : o = i
    · subst hoi
      rw [Function.update_self]
      exact hp.setReserveBytes hset
    · rwa [Function.update_of_ne hoi]

/-- **A handler** keeps the counters equal. -/
theorem Rested.handled (henv : env.Proper) (hb : Rested t b) (hm : m.Unused)
    (hqueue : ∀ prio sender, m = .top .alloc prio sender →
      ∀ i config, ∀ q ∈ (env.outputBufferAllocator i config).1, q.Unused)
    (hmeet : HandlerMeets CountsKept env b m) (h : Handled env b m b') :
    Rested t b' := by
  cases h with
  | @task m store b₀ b₁ b' henter hstore htask hleave =>
      subst hstore
      have h₁ := (hb.enter hm henter).taskMain henv (hmeet.task b₀ henter) htask
      unfold leave at hleave
      split at hleave
      · split at hleave
        · exact h₁.markDone hleave
        · rw [Checked.pure_eq_ok] at hleave
          exact hleave ▸ h₁
      · rw [Checked.pure_eq_ok] at hleave
        exact hleave ▸ h₁
  | tag i tag hstate =>
      rw [handleInputTag, if_neg hstate]
      exact hb.of_same (.of_eq rfl rfl) rfl
  | inputUpdate h =>
      obtain ⟨hsame, hports⟩ := handleInputUpdate_same h
      exact hb.of_same hsame hports
  | outputUpdate h =>
      obtain ⟨hsame, hports⟩ := handleOutputUpdate_same h
      exact hb.same hsame fun o _ hp => hports o hp
  | outputAlloc h =>
      simp only [handleOutputAlloc, Checked.bind_eq_ok, Checked.pure_eq_ok] at h
      obtain ⟨p, hset, rfl⟩ := h
      refine hb.update (.of_eq rfl rfl) rfl fun hp =>
        hp.setBufferQueue (fun q hq => ?_) hset
      cases hq
      exact hm
  | @topAlloc prio sender b' h =>
      simp only [handleTopAlloc, Checked.bind_eq_ok, Checked.pure_eq_ok] at h
      obtain ⟨b₁, hloop, rfl⟩ := h
      have h₁ : Rested t b₁ :=
        forRange_rule hloop (P := fun _ s => Rested t s) hb
        fun i _ s s' hs hf => by
          obtain ⟨config, p, hset, rfl⟩ := allocateOutput_cases hf
          exact hs.update (.of_sent rfl rfl rfl) rfl
            fun hp => hp.setBufferQueue (hqueue prio sender rfl i config) hset
      cases sender with
      | none => exact h₁
      | some a => exact h₁.of_same (.of_sent rfl rfl rfl) rfl
  | @outputsDone i b' hdone h =>
      have h₀ : Rested t (b.recheckOutput env i) :=
        hb.of_same (.of_eq rfl rfl) rfl
      exact h₀.markDone h
  | @inert prio sender b₁ h =>
      have h₁ := hb.markDone h
      cases sender with
      | none => exact h₁
      | some a => exact h₁.of_same (.of_sent rfl rfl rfl) rfl
  | @active prio sender =>
      obtain ⟨t, hactive⟩ := handleTopActive_eq env sender b
      rw [hactive]
      cases sender with
      | none => exact hb.of_same (.of_eq rfl (List.append_nil _)) rfl
      | some a => exact hb.of_same (.of_sent rfl rfl rfl) rfl
  | @callable key sender =>
      have hcalls := (hmeet.called key sender rfl).attempt_rule
        (R := fun s s' => Rested t s → Rested t s') (fun _ h => h)
        (fun h h' hs => h' (h hs))
        fun c hc s s' hok hcall hs => by
          have hmoves : Moves (fun _ => True) s s' :=
            call_moves (fun _ _ => trivial) hcall
          have hcounted := Counted.call hs hok (fun hwork => by
            rw [henv.called c hc] at hwork
            cases hwork) hcall
          rw [Rested, hmoves.ports.1, hmoves.ports.2]
          exact hcounted
      exact (hcalls hb).of_same (.of_sent rfl rfl rfl) rfl
  | quiet hstate hdata =>
      exact hb.of_same hdata.counters (congrArg Data.outputQueues hdata.data)

/-- **A change of the topology** that adds only ports on which nothing was ever
consumed, produced or posted. -/
theorem Agreed.topology {n k : Nat} {sender : Option Address} (hb : Agreed t b)
    (hconsumed : ∀ i < n, b.numInputs ≤ i → b.stats.itemsConsumed i = 0)
    (hproduced : ∀ o < k, b.numOutputs ≤ o →
      b.stats.itemsProduced o = 0 ∧ t.posted b o = 0)
    (h : b.handleTopology env n k sender = .ok b') : Agreed t b' := by
  simp only [handleTopology, Checked.bind_eq_ok, Checked.pure_eq_ok] at h
  obtain ⟨b₁, hrelease, b₂, hin, b₃, hout, rfl⟩ := h
  have h₀ : Agreed t (b.resize env.now n k) := by
    refine ⟨hb.seen, fun i hi => ?_, fun o ho => ?_, fun o ho => ?_,
      fun o ho => ?_⟩
    · show (if i < b.numInputs then b.totalItemsConsumed i else 0) =
          b.stats.itemsConsumed i
      split
      · rename_i hold
        exact hb.consumed i hold
      · rename_i hnew
        exact (hconsumed i hi (Nat.le_of_not_lt hnew)).symm
    · show (if o < b.numOutputs then b.totalItemsProduced o else 0) =
          b.stats.itemsProduced o
      split
      · rename_i hold
        exact hb.produced o hold
      · rename_i hnew
        exact (hproduced o ho (Nat.le_of_not_lt hnew)).1.symm
    · show t.posted b o = if o < b.numOutputs then b.totalItemsProduced o else 0
      split
      · rename_i hold
        exact hb.posted o hold
      · rename_i hnew
        exact (hproduced o ho (Nat.le_of_not_lt hnew)).2
    · show (if o < b.numOutputs then b.outputQueues o else _).Clean
      split
      · rename_i hold
        exact hb.port o hold
      · exact OutputPort.clean_resized _
  have h₁ : Agreed t b₁ := by
    unfold releaseUnconnected at hrelease
    split at hrelease
    · -- Without ports there is nothing to agree on.
      rename_i hnone
      obtain ⟨hin₀, hout₀⟩ := hnone
      have hcounted : Counted t 0 0 (b.resize env.now n k) :=
        ⟨hb.seen, fun o ho =>
          by omega, fun i hi => by omega, fun o ho => by omega,
          fun o ho => by omega, fun o ho => by omega⟩
      have hsafe : (b.resize env.now n k).MarkSafe :=
        ⟨fun i hi => by omega, fun o ho => by omega, fun o ho => by omega⟩
      have hseen := (hcounted.markDone hsafe hrelease).seen
      have hports : b₁.numInputs = 0 ∧ b₁.numOutputs = 0 := by
        rcases markDone_control hrelease with ⟨-, rfl⟩ | ⟨-, hcontrol⟩
        · exact ⟨hin₀, hout₀⟩
        · exact ⟨(congrArg Control.numInputs hcontrol).trans hin₀,
            (congrArg Control.numOutputs hcontrol).trans hout₀⟩
      exact ⟨hseen, fun i hi =>
        by omega, fun o ho => by omega, fun o ho => by omega,
        fun o ho => by omega⟩
    · rw [Checked.pure_eq_ok] at hrelease
      exact hrelease ▸ h₀
  have h₂ : Agreed t b₂ := forRange_rule hin (P := fun _ s => Agreed t s) h₁
    fun i _ s s' hs hf => by
      obtain ⟨hsame, hports⟩ := handleInputUpdate_same hf
      exact hs.same hsame fun o _ hp => by rwa [hports]
  have h₃ : Agreed t b₃ := forRange_rule hout (P := fun _ s => Agreed t s) h₂
    fun i _ s s' hs hf => by
      obtain ⟨hsame, hports⟩ := handleOutputUpdate_same hf
      exact hs.same hsame fun o _ hp => hports o hp
  cases sender with
  | none => exact h₃
  | some a => exact h₃.same (.of_sent rfl rfl rfl) fun o _ hp => hp

/-- What another thread does counts nothing. -/
theorem Agreed.thread (hb : Agreed t b) (event : ThreadEvent) :
    Agreed t (b.threadStep event) := by
  have hsame : Agreed t b := hb
  cases event with
  | post m =>
      rw [threadStep]
      split <;> exact ⟨hb.seen, hb.consumed, hb.produced, hb.posted, hb.port⟩
  | prepare m =>
      rw [threadStep]
      split <;> exact ⟨hb.seen, hb.consumed, hb.produced, hb.posted, hb.port⟩
  | send k =>
      rw [threadStep]
      split <;> exact ⟨hb.seen, hb.consumed, hb.produced, hb.posted, hb.port⟩
  | _ => exact ⟨hb.seen, hb.consumed, hb.produced, hb.posted, hb.port⟩

end Handlers

end BlockActor

/-! ## Runs -/

/-- A block, and the number of items it has posted on each port since it was
made. -/
structure Counting where
  block : BlockActor
  posted : Nat → Nat

namespace Counting

open BlockActor

/-- What was posted before the next event. -/
def tally (s : Counting) : Tally where
  before := s.posted
  size := fun o => (s.block.outputConfigs o).itemSize
  seen := s.block.sent.length

/-- One event. -/
def next (s : Counting) (e : BlockEvent) : Checked Counting := do
  let block ← s.block.change e
  return { block, posted := s.tally.posted block }

/-- The lives of a block. -/
def system : TransitionSystem Counting BlockEvent :=
  .ofNext (fun s => s.block.Started ∧ s.posted = fun _ => 0) next

/-- **When the counters are kept.**  A call of user code that marks the block
done is made while nothing is left to be counted, a port is written in one way
at a time, and a topology change adds no port that was in use before. -/
def CountersKept (s : Counting) : BlockEvent → Prop
  | .actor (.thread _) => True
  | .actor (.handle env) => env.Proper ∧
      (∀ o < s.block.numOutputs, 0 < (s.block.outputConfigs o).itemSize) ∧
      match s.block.mailbox with
      | [] => True
      | m :: rest => m.Unused ∧
          (∀ prio sender, m = .top .alloc prio sender →
            ∀ i config, ∀ q ∈ (env.outputBufferAllocator i config).1,
            q.Unused) ∧
          HandlerMeets CountsKept env (s.block.receive m rest) m
  | .topology _ numInputs numOutputs _ =>
      (∀ i < numInputs, s.block.numInputs ≤ i →
        s.block.stats.itemsConsumed i = 0) ∧
      (∀ o < numOutputs, s.block.numOutputs ≤ o →
        s.block.stats.itemsProduced o = 0 ∧ s.posted o = 0)

/-- **The counters agree**, with each other and with what was posted. -/
structure Agrees (s : Counting) : Prop where
  consumed : ∀ i < s.block.numInputs,
    s.block.totalItemsConsumed i = s.block.stats.itemsConsumed i
  produced : ∀ o < s.block.numOutputs,
    s.block.totalItemsProduced o = s.block.stats.itemsProduced o
  posted : ∀ o < s.block.numOutputs, s.posted o = s.block.totalItemsProduced o
  port : ∀ o < s.block.numOutputs, (s.block.outputQueues o).Clean

section Runs

variable {s s' : Counting} {b' : BlockActor} {env : Env} {e : BlockEvent}

/-- Nothing has been posted in the event yet. -/
theorem tally_posted (s : Counting) (o : Nat) :
    s.tally.posted s.block o = s.posted o := by
  rw [Tally.posted, tally, List.drop_length]
  rfl

theorem Agrees.agreed (hs : s.Agrees) : Agreed s.tally s.block :=
  ⟨Nat.le_refl _, hs.consumed, hs.produced,
    fun o ho => (s.tally_posted o).trans (hs.posted o ho),
    hs.port⟩

theorem agrees_of_agreed {t : Tally} (h : Agreed t b') :
    Agrees ⟨b', t.posted b'⟩ :=
  ⟨h.consumed, h.produced, h.posted, h.port⟩

theorem agrees_init (h : system.init s) : s.Agrees := by
  obtain ⟨⟨initTime, memory, inputConfigs, outputConfigs, env, n, k, hstart⟩,
      hposted⟩ := h
  -- In items of no size nothing is ever posted.
  let t : Tally := ⟨fun _ => 0, fun _ => 0, 0⟩
  have hnone : ∀ b o, t.posted b o = 0 := fun b o => by
    rw [Tally.posted, Nat.zero_add]
    refine List.sum_eq_zero fun c hc => ?_
    obtain ⟨m, -, rfl⟩ := List.mem_map.mp hc
    split
    · rw [Nat.div_zero, ite_self]
    · rfl
  have hmade :
      Agreed t { made initTime memory with inputConfigs, outputConfigs } :=
    ⟨Nat.le_refl _, fun i hi => absurd hi (Nat.not_lt_zero i),
      fun o ho => absurd ho (Nat.not_lt_zero o),
      fun o ho => absurd ho (Nat.not_lt_zero o),
      fun o ho => absurd ho (Nat.not_lt_zero o)⟩
  have hagreed : Agreed t s.block :=
    hmade.topology (fun _ _ _ => rfl) (fun o _ _ => ⟨rfl, hnone _ o⟩) hstart
  refine ⟨hagreed.consumed, hagreed.produced, fun o ho => ?_, hagreed.port⟩
  rw [hposted, ← hagreed.posted o ho, hnone]

/-- **Every event keeps the counters equal** when it meets the condition. -/
theorem agrees_next (hs : s.Agrees) (hkept : s.CountersKept e)
    (h : s.next e = .ok s') : s'.Agrees := by
  simp only [next, Checked.bind_eq_ok, Checked.pure_eq_ok] at h
  obtain ⟨b', hchange, rfl⟩ := h
  apply agrees_of_agreed
  cases e with
  | topology env n k sender =>
      refine hs.agreed.topology hkept.1 (fun o ho hnew => ?_) hchange
      rw [tally_posted]
      exact hkept.2 o ho hnew
  | actor event =>
      rcases next_cases hchange with ⟨thread, rfl, rfl⟩ |
        ⟨env, rfl, hmail, rfl⟩ |
        ⟨env, m, rest, b₁, rfl, hmail, hhandler, rfl⟩
      · exact hs.agreed.thread thread
      · exact hs.agreed
      · obtain ⟨henv, hsize, hcondition⟩ := hkept
        simp only [hmail] at hcondition
        have hrested : Rested s.tally (s.block.receive m rest) := by
          refine rested_iff.mpr ⟨?_, fun o ho => ⟨rfl, hsize o ho⟩⟩
          exact hs.agreed.same (.of_eq rfl rfl) fun o _ hp => hp
        obtain ⟨hm, hqueue, hmeet⟩ := hcondition
        have h₁ := hrested.handled henv hm hqueue hmeet (handled hhandler)
        exact (rested_iff.mp h₁).1.same (.of_eq rfl rfl) fun o _ hp => hp

/-- **The item counters agree** in every run whose events meet the condition:
with each other, and with the items posted since the block was made.

`CountersKept` excludes the ways in which the counters can part: a `mark_done`
between what a work made and its post-work tasks, two ways of writing one port
in one work, products that do not fit `size_t`, and a topology that brings in a
port with items on its counters.  The works are otherwise arbitrary. -/
theorem counters_agree (hs : (system.restrict CountersKept).Reachable s) :
    (∀ i < s.block.numInputs,
      s.block.totalItemsConsumed i = s.block.stats.itemsConsumed i) ∧
    ∀ o < s.block.numOutputs, s.block.totalItemsProduced o =
        s.block.stats.itemsProduced o ∧
      s.block.totalItemsProduced o = s.posted o := by
  have hagrees : s.Agrees :=
    TransitionSystem.Reachable.invariant (T := system.restrict CountersKept)
      (fun _ h => agrees_init h) (fun _ _ _ _ hs h => agrees_next hs h.1 h.2) hs
  exact ⟨hagrees.consumed, fun o ho =>
    ⟨hagrees.produced o ho, (hagrees.posted o ho).symm⟩⟩

end Runs

/-! ### A source that produces, and is marked done or not -/

/-- A call that is simple to check. -/
def plainCall (b : BlockActor) : Call → Bool
  | .consume _ _ => true
  | .produce o items =>
      (b.outputQueues o).pending ==
        (b.outputConfigs o).itemSize * b.numOutputItemsRead o &&
        decide ((b.outputQueues o).pending +
          items * (b.outputConfigs o).itemSize < 2 ^ 64)
  | _ => false

/-- A message that is simple to check. -/
def plainMessage : Message → Bool
  | .output _ (.buffer buff) => buff.length == 0
  | .output _ (.alloc (.pool q)) => q.queue.items.isEmpty
  | .output _ (.alloc (.circ _)) => false
  | .top .alloc _ _ => false
  | _ => true

/-- A condition that is simpler to check. -/
def countsPlainly (s : Counting) : BlockEvent → Bool
  | .actor (.thread _) => true
  | .actor (.handle env) => env.called.isEmpty && env.propagateTags.isNone &&
      decide (∀ o < s.block.numOutputs,
        0 < (s.block.outputConfigs o).itemSize) &&
      (match s.block.mailbox with
        | [] => true
        | m :: _ => plainMessage m) &&
      match s.block.atWork env with
      | none => true
      | some b₁ =>
          decide (CallsMeet (fun b c => plainCall b c = true) env.now
            env.work b₁.atCall)
  | .topology _ _ _ _ => false

theorem countsKept_of_plainCall {b : BlockActor} {c : Call}
    (h : plainCall b c = true) : b.CountsKept c := by
  cases c with
  | consume i items => exact ⟨nofun, trivial⟩
  | produce o items =>
      simp only [plainCall, Bool.and_eq_true, beq_iff_eq,
        decide_eq_true_eq] at h
      exact ⟨nofun, fun _ => h.1, h.2⟩
  | _ => cases h

theorem unused_of_plainMessage {m : Message} (h : plainMessage m = true) :
    m.Unused := by
  cases m with
  | output i message =>
      cases message with
      | buffer buff =>
          show buff.length = 0
          simpa [plainMessage] using h
      | alloc queue =>
          cases queue with
          | pool q =>
              have hnil : q.queue.items = [] := by simpa [plainMessage] using h
              refine ⟨fun b hb => ?_, fun b hb => hb.elim⟩
              replace hb : b ∈ q.queue.items := hb
              rw [hnil] at hb
              cases hb
          | circ q => cases h
      | _ => trivial
  | _ => trivial

theorem countersKept_of_plainly {s : Counting} {e : BlockEvent}
    (h : s.countsPlainly e = true) : s.CountersKept e := by
  cases e with
  | topology env n k sender => cases h
  | actor event =>
      cases event with
      | thread event => trivial
      | handle env =>
          simp only [countsPlainly, Bool.and_eq_true, List.isEmpty_iff,
            Option.isNone_iff_eq_none, decide_eq_true_eq] at h
          obtain ⟨⟨⟨⟨hcalled, htags⟩, hsize⟩, hm⟩, hwork⟩ := h
          refine ⟨⟨fun c hc =>
            by simp [hcalled] at hc, fun f hf => by simp [htags] at hf⟩,
            hsize, ?_⟩
          cases hmail : s.block.mailbox with
          | nil => trivial
          | cons m rest =>
              simp only [hmail] at hm
              refine ⟨unused_of_plainMessage hm,
                fun prio sender hcase => ?_, ?_, ?_⟩
              · subst hcase
                cases hm
              · intro b₀ henter hallowed b₁ hprepare
                rw [atWork_of hmail henter hallowed hprepare] at hwork
                simp only [decide_eq_true_eq] at hwork
                exact ⟨hwork.mono fun _ _ _ => countsKept_of_plainCall,
                  fun _ _ _ _ _ _ _ f hf => by simp [htags] at hf⟩
              · intro key sender _
                rw [hcalled]
                trivial

/-- A source with one port. -/
def source : Checked BlockActor :=
  (made 0 addressMemory).handleTopology {} 0 1 none

theorem source_started {b : BlockActor} (h : source = .ok b) : Started b :=
  ⟨0, addressMemory, fun _ => {}, fun _ => {}, {}, 0, 1, h⟩

/-- The source gets a pool with one buffer, is activated, and works. -/
def produces (work : List Call) : List BlockEvent :=
  [.actor (.thread
    (.post (.output 0
      (.alloc (.pool (.make { memory := 0, length := 16 } 1)))))),
    .actor (.handle {}),
    .actor (.thread
      (.post (.output 0
        (.buffer ⟨1, { memory := 100, length := 16 }, 0, 0, 0⟩)))),
    .actor (.handle {}),
    .actor (.thread (.post (.top .active false none))),
    .actor (.handle {}),
    .actor (.handle { work })]

/-- Start the source and perform events that meet a condition. -/
def runSource (ok : Counting → BlockEvent → Bool) (es : List BlockEvent) :
    Option Counting :=
  source.toOption.bind fun b =>
    TransitionSystem.runRestricted (fun s e => ok s e = true) next es
      ⟨b, fun _ => 0⟩

theorem reachable_of_runSource {ok : Counting → BlockEvent → Bool}
    {es : List BlockEvent} {s : Counting} (h : runSource ok es = some s) :
    (system.restrict fun s e => ok s e = true).Reachable s := by
  obtain ⟨b₀, hstart, hrun⟩ := Option.bind_eq_some_iff.mp h
  cases hsource : source with
  | error e => simp [hsource, Except.toOption] at hstart
  | ok b₁ =>
      rw [hsource] at hstart
      cases hstart
      have hinit :
          (system.restrict fun s e => ok s e = true).init ⟨b₀, fun _ => 0⟩ :=
        ⟨source_started hsource, rfl⟩
      exact .of_restricted_events es (.init hinit) hrun

/-- The counters of the port. -/
def outputCounters (s : Counting) : Nat × Nat × Nat × Nat :=
  (s.block.numOutputs, s.block.totalItemsProduced 0,
    s.block.stats.itemsProduced 0, s.posted 0)

end Counting

theorem counters_agree_produces :
    ∃ s, Counting.runSource Counting.countsPlainly
        (Counting.produces [.produce 0 3, .produce 0 2]) = some s ∧
      s.posted 0 = 5 ∧ s.block.totalItemsProduced 0 =
          s.block.stats.itemsProduced 0 ∧
        s.block.totalItemsProduced 0 = s.posted 0 := by
  have hrun : (Counting.runSource Counting.countsPlainly
      (Counting.produces [.produce 0 3, .produce 0 2])).map
      Counting.outputCounters
      = some (1, 5, 5, 5) := by decide
  obtain ⟨s, hs, heq⟩ := Option.map_eq_some_iff.mp hrun
  simp only [Counting.outputCounters, Prod.mk.injEq] at heq
  have hagree :=
    (Counting.counters_agree ((Counting.reachable_of_runSource hs).restrict_mono
    fun _ _ => Counting.countersKept_of_plainly)).2 0 (by omega)
  exact ⟨s, hs, heq.2.2.2, hagree⟩

/-- **A work that is marked done** after it produced: the items are posted and
counted in `stats`, but not in `total_items_produced`. -/
theorem counters_disagree_after_markDone :
    ¬ ∀ s : Counting, Counting.system.Reachable s → ∀ o < s.block.numOutputs,
      s.block.totalItemsProduced o = s.block.stats.itemsProduced o ∧
        s.block.totalItemsProduced o = s.posted o := by
  intro hall
  have hrun : (Counting.runSource (fun _ _ => true)
      (Counting.produces [.produce 0 4, .markDone])).map Counting.outputCounters
      = some (1, 0, 4, 4) := by decide
  obtain ⟨s, hs, heq⟩ := Option.map_eq_some_iff.mp hrun
  simp only [Counting.outputCounters, Prod.mk.injEq] at heq
  have hagree :=
    hall s (Counting.reachable_of_runSource hs).of_restrict 0 (by omega)
  omega

end Gras
