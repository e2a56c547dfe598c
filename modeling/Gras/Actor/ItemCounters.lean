import Gras.Actor.UserCalls
import Gras.Buffers.UnusedBuffers

/-!
# The absolute item counters

A block counts its items twice.  `stats` counts a call of `consume` or `produce`
at once; `total_items_consumed` and `total_items_produced` are updated after the
work, and translate the offsets of tags.  `Counted` says how far the two are
apart at each point of a task, and that the items posted downstream are those
counted after the work.

A block that is marked done during a task loses what the task has not counted
yet.  That and writing to an output buffer in two ways at once are ruled out by
`CountsKept`, call by call.
-/

namespace Gras

/-- The items posted on an output port, where a port's items have that size. -/
def itemsPosted (size : Nat → Nat) (o : Nat) (out : List Outgoing) : Nat :=
  (out.map fun
    | .downstream p (.buffer buff) => if p = o then buff.length / size o else 0
    | _ => 0).sum

theorem itemsPosted_append (size : Nat → Nat) (o : Nat)
    (out out' : List Outgoing) :
    itemsPosted size o (out ++ out') =
      itemsPosted size o out + itemsPosted size o out' := by
  simp [itemsPosted]

/-- A message with items. -/
def Outgoing.carriesItems : Outgoing → Bool
  | downstream _ (.buffer _) => true
  | _ => false

/-- What carries no items posts none. -/
theorem itemsPosted_of_none {size : Nat → Nat} {o : Nat} {out : List Outgoing}
    (h : ∀ m ∈ out, m.carriesItems = false) : itemsPosted size o out = 0 := by
  refine List.sum_eq_zero fun n hn => ?_
  obtain ⟨m, hm, rfl⟩ := List.mem_map.mp hn
  split
  · cases h _ hm
  · rfl

/-- What a port has posted before an event, and the size of its items during
it. -/
structure Tally where
  before : Nat → Nat
  size : Nat → Nat
  /-- The messages that had been sent before the event. -/
  seen : Nat

/-- What a port has posted so far. -/
def Tally.posted (t : Tally) (b : BlockActor) (o : Nat) : Nat :=
  t.before o + itemsPosted t.size o (b.sent.drop t.seen)

/-- What is posted more. -/
theorem Tally.posted_append {b b' : BlockActor} {out : List Outgoing}
    (t : Tally) (hsent : b'.sent = b.sent ++ out)
    (hseen : t.seen ≤ b.sent.length) (o : Nat) :
    t.posted b' o = t.posted b o + itemsPosted t.size o out := by
  rw [Tally.posted, Tally.posted, hsent, List.drop_append_of_le_length hseen,
    itemsPosted_append, Nat.add_assoc]

theorem Tally.posted_of_none {b b' : BlockActor} {out : List Outgoing}
    (t : Tally) (hsent : b'.sent = b.sent ++ out)
    (hnone : ∀ m ∈ out, m.carriesItems = false) (hseen : t.seen ≤ b.sent.length)
    (o : Nat) : t.posted b' o = t.posted b o := by
  rw [t.posted_append hsent hseen, itemsPosted_of_none hnone, Nat.add_zero]

namespace BlockActor

/-- The counters of a task that has finished the inputs before the `k`-th and
the outputs before the `l`-th. -/
structure Counted (t : Tally) (k l : Nat) (b : BlockActor) : Prop where
  seen : t.seen ≤ b.sent.length
  size : ∀ o < b.numOutputs, (b.outputConfigs o).itemSize = t.size o ∧
    0 < t.size o
  consumed : ∀ i < b.numInputs, b.stats.itemsConsumed i =
    b.totalItemsConsumed i + if i < k then 0 else b.numInputItemsRead i
  produced : ∀ o < b.numOutputs, b.stats.itemsProduced o =
    b.totalItemsProduced o + if o < l then 0 else b.numOutputItemsRead o
  posted : ∀ o < b.numOutputs, t.posted b o = b.totalItemsProduced o
  port : ∀ o < b.numOutputs, if o < l then (b.outputQueues o).Clean
    else (b.outputQueues o).Carrying (t.size o * b.numOutputItemsRead o)

/-- The counters between two tasks: they agree. -/
def Rested (t : Tally) (b : BlockActor) : Prop :=
  Counted t b.numInputs b.numOutputs b

/-- The counters agree, and no front has bytes in it. -/
structure MarkSafe (b : BlockActor) : Prop where
  consumed : ∀ i < b.numInputs, b.totalItemsConsumed i = b.stats.itemsConsumed i
  produced : ∀ o < b.numOutputs, b.totalItemsProduced o =
    b.stats.itemsProduced o
  unused : ∀ o < b.numOutputs, (b.outputQueues o).ready = true →
    (b.outputQueues o).pending = 0

/-- **A call keeps the counts.** -/
def CountsKept (b : BlockActor) (c : Call) : Prop :=
  (b.marksDone c = true → b.MarkSafe) ∧
    match c with
    | .produce o items =>
        (items ≠ 0 → (b.outputQueues o).pending =
          (b.outputConfigs o).itemSize * b.numOutputItemsRead o) ∧
        -- The bytes are counted in `size_t`.
        (b.outputQueues o).pending +
          items * (b.outputConfigs o).itemSize < 2 ^ 64
    | .getOutputBuffer o => b.numOutputItemsRead o = 0
    | .popOutputBuffer o _ => b.numOutputItemsRead o = 0
    | .postOutputBuffer o buffer =>
        (b.outputQueues o).pending = 0 ∧ buffer.length < 2 ^ 64
    | .thread (.configureOutput o config) =>
        config.itemSize = (b.outputConfigs o).itemSize
    | _ => True

/-! ### What leaves the counters alone -/

/-- The counters of a block. -/
structure Counters where
  numInputs : Nat
  numOutputs : Nat
  itemSize : Nat → Nat
  itemsConsumed : Nat → Nat
  itemsProduced : Nat → Nat
  totalItemsConsumed : Nat → Nat
  totalItemsProduced : Nat → Nat
  numInputItemsRead : Nat → Nat
  numOutputItemsRead : Nat → Nat

/-- The counters of a block. -/
def counters (b : BlockActor) : Counters where
  numInputs := b.numInputs
  numOutputs := b.numOutputs
  itemSize := fun o => (b.outputConfigs o).itemSize
  itemsConsumed := b.stats.itemsConsumed
  itemsProduced := b.stats.itemsProduced
  totalItemsConsumed := b.totalItemsConsumed
  totalItemsProduced := b.totalItemsProduced
  numInputItemsRead := b.numInputItemsRead
  numOutputItemsRead := b.numOutputItemsRead

/-- The counters stay, and no items are posted. -/
structure SameCounters (b b' : BlockActor) : Prop where
  counters : b'.counters = b.counters
  sent : ∃ out, b'.sent = b.sent ++ out ∧ ∀ m ∈ out, m.carriesItems = false

section Same

variable {b b' b'' : BlockActor} {t : Tally} {k l : Nat} {env : Env}
  {now : Int} {i o : Nat}

/-- Nothing is sent. -/
theorem SameCounters.of_eq (hcounters : b'.counters = b.counters)
    (hsent : b'.sent = b.sent) :
    SameCounters b b' :=
  ⟨hcounters, [], by rw [hsent, List.append_nil], by simp⟩

/-- One message is sent. -/
theorem SameCounters.of_sent {m : Outgoing}
    (hcounters : b'.counters = b.counters) (hsent : b'.sent = b.sent ++ [m])
    (hm : m.carriesItems = false) : SameCounters b b' :=
  ⟨hcounters, [m], hsent, by simpa using hm⟩

theorem SameCounters.refl (b : BlockActor) : SameCounters b b := .of_eq rfl rfl

theorem SameCounters.trans (h : SameCounters b b') (h' : SameCounters b' b'') :
    SameCounters b b'' := by
  obtain ⟨out, hout, hnone⟩ := h.sent
  obtain ⟨out', hout', hnone'⟩ := h'.sent
  refine ⟨h'.counters.trans h.counters, out ++ out', ?_, fun m hm => ?_⟩
  · rw [hout', hout, List.append_assoc]
  · rcases List.mem_append.mp hm with hm | hm
    · exact hnone m hm
    · exact hnone' m hm

theorem SameCounters.numInputs (h : SameCounters b b') :
    b'.numInputs = b.numInputs :=
  congrArg Counters.numInputs h.counters

theorem SameCounters.numOutputs (h : SameCounters b b') :
    b'.numOutputs = b.numOutputs :=
  congrArg Counters.numOutputs h.counters

theorem SameCounters.itemSize (h : SameCounters b b') (o : Nat) :
    (b'.outputConfigs o).itemSize = (b.outputConfigs o).itemSize :=
  congrFun (congrArg Counters.itemSize h.counters) o

theorem SameCounters.itemsConsumed (h : SameCounters b b') :
    b'.stats.itemsConsumed = b.stats.itemsConsumed :=
  congrArg Counters.itemsConsumed h.counters

theorem SameCounters.itemsProduced (h : SameCounters b b') :
    b'.stats.itemsProduced = b.stats.itemsProduced :=
  congrArg Counters.itemsProduced h.counters

theorem SameCounters.totalItemsConsumed (h : SameCounters b b') :
    b'.totalItemsConsumed = b.totalItemsConsumed :=
  congrArg Counters.totalItemsConsumed h.counters

theorem SameCounters.totalItemsProduced (h : SameCounters b b') :
    b'.totalItemsProduced = b.totalItemsProduced :=
  congrArg Counters.totalItemsProduced h.counters

theorem SameCounters.numInputItemsRead (h : SameCounters b b') :
    b'.numInputItemsRead = b.numInputItemsRead :=
  congrArg Counters.numInputItemsRead h.counters

theorem SameCounters.numOutputItemsRead (h : SameCounters b b') :
    b'.numOutputItemsRead = b.numOutputItemsRead :=
  congrArg Counters.numOutputItemsRead h.counters

/-- Nothing is posted after all. -/
theorem SameCounters.posted (h : SameCounters b b')
    (hseen : t.seen ≤ b.sent.length) (o : Nat) :
    t.posted b' o = t.posted b o := by
  obtain ⟨out, hout, hnone⟩ := h.sent
  exact t.posted_of_none hout hnone hseen o

theorem SameCounters.seen (h : SameCounters b b')
    (hseen : t.seen ≤ b.sent.length) : t.seen ≤ b'.sent.length := by
  obtain ⟨out, hout, -⟩ := h.sent
  rw [hout, List.length_append]
  omega

/-- The ports may change, but not what is in them. -/
theorem Counted.same (hb : Counted t k l b) (h : SameCounters b b')
    (hport : ∀ o < b.numOutputs,
      ((b.outputQueues o).Clean → (b'.outputQueues o).Clean) ∧
        ∀ bytes, (b.outputQueues o).Carrying bytes →
        (b'.outputQueues o).Carrying bytes) :
    Counted t k l b' := by
  constructor
  · exact h.seen hb.seen
  · intro o ho
    rw [h.itemSize o]
    exact hb.size o (h.numOutputs ▸ ho)
  · intro i hi
    rw [h.itemsConsumed, h.totalItemsConsumed, h.numInputItemsRead]
    exact hb.consumed i (h.numInputs ▸ hi)
  · intro o ho
    rw [h.itemsProduced, h.totalItemsProduced, h.numOutputItemsRead]
    exact hb.produced o (h.numOutputs ▸ ho)
  · intro o ho
    rw [h.posted hb.seen, h.totalItemsProduced]
    exact hb.posted o (h.numOutputs ▸ ho)
  · intro o ho
    rw [h.numOutputs] at ho
    have hb := hb.port o ho
    rw [h.numOutputItemsRead]
    split
    · rename_i hol
      rw [if_pos hol] at hb
      exact (hport o ho).1 hb
    · rename_i hol
      rw [if_neg hol] at hb
      exact (hport o ho).2 _ hb

/-- The ports stay too. -/
theorem Counted.of_same (hb : Counted t k l b) (h : SameCounters b b')
    (hout : b'.outputQueues = b.outputQueues) : Counted t k l b' :=
  hb.same h fun o _ => by rw [hout]; exact ⟨fun h => h, fun _ h => h⟩

/-- A quiet handler leaves them alone. -/
theorem SameData.counters (h : SameData b b') : SameCounters b b' := by
  obtain ⟨out, hout, hnone⟩ := h.sent
  have hdata : b'.counters = b.counters := by
    have hcounters :=
      congrArg (fun d : Data => (⟨d.numInputs, d.numOutputs, d.outputItemSizes,
      d.itemsConsumed, d.itemsProduced, d.totalItemsConsumed,
      d.totalItemsProduced, d.numInputItemsRead, d.numOutputItemsRead⟩ :
        Counters)) h.data
    exact hcounters
  refine ⟨hdata, out, hout, fun m hm => ?_⟩
  have hcarries := hnone m hm
  cases m with
  | downstream p message => cases message <;> first | rfl | cases hcarries
  | _ => rfl

end Same

/-! ### `mark_done` -/

section Done

variable {b b' : BlockActor} {t : Tally} {k l : Nat} {now : Int} {o : Nat}

/-- Between two tasks nothing is left to be counted. -/
theorem Rested.markSafe (hb : Rested t b) : b.MarkSafe := by
  constructor
  · intro i hi
    have hconsumed := hb.consumed i hi
    rw [if_pos hi] at hconsumed
    exact hconsumed.symm
  · intro o ho
    have hproduced := hb.produced o ho
    rw [if_pos ho] at hproduced
    exact hproduced.symm
  · intro o ho _
    have hport := hb.port o ho
    rw [if_pos ho] at hport
    exact hport.pending

/-- A front without bytes is not flushed. -/
theorem flushOutput_same
    (hunused : (b.outputQueues o).ready = true → (b.outputQueues o).pending = 0)
    (h : b.flushOutput now o = .ok b') :
    SameCounters b b' ∧ ∀ j, (b'.outputQueues j).ready =
        (b.outputQueues j).ready ∧
      (b'.outputQueues j).pending = (b.outputQueues j).pending := by
  unfold flushOutput at h
  split at h
  · rw [Checked.pure_eq_ok] at h
    exact h ▸ ⟨.refl b, fun j => ⟨rfl, rfl⟩⟩
  · rename_i hready
    simp only [Checked.bind_eq_ok, Prod.exists] at h
    obtain ⟨buff, p, hfront, h⟩ := h
    obtain ⟨-, -, hlength, hpending, -⟩ := OutputPort.front_keeps_queue hfront
    have hbit : p.ready = (b.outputQueues o).ready := by
      rcases OutputPort.front_cases hfront with ⟨-, rfl⟩ | ⟨-, -, -, q, rfl⟩
      · rfl
      · rfl
    have hzero := hunused (not_not.mp hready)
    rw [if_pos (hlength.trans hzero), Checked.pure_eq_ok] at h
    subst h
    refine ⟨.of_eq rfl rfl, fun j => ?_⟩
    by_cases hj : j = o
    · subst hj
      rw [setOutput_outputQueues, Function.update_self]
      exact ⟨hbit, hpending⟩
    · rw [setOutput_outputQueues, Function.update_of_ne hj]
      exact ⟨rfl, rfl⟩

theorem flushInput_same {i : Nat} (h : b.flushInput now i = .ok b') :
    SameCounters b b' := by
  simp only [flushInput, Checked.bind_eq_ok, Checked.pure_eq_ok] at h
  obtain ⟨p, -, rfl⟩ := h
  exact .of_eq rfl rfl

/-- **`mark_done`** when nothing is left to be counted. -/
theorem Counted.markDone (hb : Counted t k l b) (hsafe : b.MarkSafe)
    (h : b.markDone now = .ok b') : Counted t k l b' := by
  rcases markDone_cases h with ⟨-, rfl⟩ | ⟨-, b₁, hout, -, b₂, hin, rfl⟩
  · exact hb
  · have h₁ := forRange_rule hout
      (P := fun _ s => SameCounters b s ∧ ∀ j,
        (s.outputQueues j).ready = (b.outputQueues j).ready ∧
          (s.outputQueues j).pending = (b.outputQueues j).pending)
      ⟨.of_eq rfl rfl, fun j => ⟨rfl, rfl⟩⟩
      fun j hj s s' hs hf => by
        obtain ⟨hready, hpending⟩ := hs.2 j
        obtain ⟨hsame, hports⟩ := flushOutput_same
          (fun hj' => hpending.trans (hsafe.unused j hj (hready ▸ hj'))) hf
        exact ⟨hs.1.trans hsame, fun j' =>
          ⟨(hports j').1.trans (hs.2 j').1, (hports j').2.trans (hs.2 j').2⟩⟩
    have h₂ : SameCounters b₁ b₂ := by
      have hloop := forRange_relates hin (R := SameCounters) .refl .trans
        fun j _ s s' hf => flushInput_same hf
      exact ⟨hloop.counters, hloop.sent⟩
    have hsame := h₁.1.trans h₂
    have hchecks : ∀ o, t.posted (b₂.flushRest now).postChecks o =
        t.posted b₂ o := by
      intro o
      refine t.posted_of_none (List.append_assoc ..) (fun m hm => ?_)
        (hsame.seen hb.seen) o
      simp only [List.mem_append, List.mem_map] at hm
      obtain ⟨j, -, rfl⟩ | ⟨j, -, rfl⟩ := hm
      · rfl
      · rfl
    constructor
    · have hseen := hsame.seen hb.seen
      simp only [postChecks, flushRest, List.length_append]
      omega
    · intro o ho
      have hsize := hb.size o (hsame.numOutputs ▸ ho)
      rwa [← hsame.itemSize o] at hsize
    · intro i hi
      have hread : (b₂.flushRest now).postChecks.numInputItemsRead i =
          0 := if_pos hi
      rw [hread, ite_self]
      show b₂.stats.itemsConsumed i = b₂.totalItemsConsumed i + 0
      rw [hsame.itemsConsumed, hsame.totalItemsConsumed]
      exact (hsafe.consumed i (hsame.numInputs ▸ hi)).symm
    · intro o ho
      show b₂.stats.itemsProduced o = b₂.totalItemsProduced o + _
      rw [hsame.itemsProduced, hsame.totalItemsProduced]
      exact (hb.produced o (hsame.numOutputs ▸ ho)).trans
        (by rw [← hsame.numOutputItemsRead]; rfl)
    · intro o ho
      rw [hchecks, hsame.posted hb.seen]
      show _ = b₂.totalItemsProduced o
      rw [hsame.totalItemsProduced]
      exact hb.posted o (hsame.numOutputs ▸ ho)
    · intro o ho
      have hport : (b₂.flushRest now).postChecks.outputQueues o =
          .resized (b₂.outputQueues o).initTime now := if_pos ho
      rw [hport]
      split
      · exact OutputPort.clean_resized _
      · rename_i hol
        have hread : b.numOutputItemsRead o = 0 := by
          have hproduced := hb.produced o (hsame.numOutputs ▸ ho)
          have hagree := hsafe.produced o (hsame.numOutputs ▸ ho)
          rw [if_neg hol] at hproduced
          omega
        have hread' : (b₂.flushRest now).postChecks.numOutputItemsRead o = 0 :=
          (congrFun hsame.numOutputItemsRead o).trans hread
        rw [hread', Nat.mul_zero]
        exact (OutputPort.clean_resized _).carrying

end Done

/-! ### The calls of user code -/

section Calls

variable {b b' : BlockActor} {t : Tally} {k l : Nat} {env : Env}
  {now : Int} {i o : Nat}

theorem Counted.consume (hb : Counted t 0 l b) (i items : Nat) :
    Counted t 0 l (b.consume i items) := by
  refine ⟨hb.seen, hb.size, fun j hj => ?_, hb.produced, hb.posted, hb.port⟩
  have hconsumed := hb.consumed j hj
  rw [if_neg (Nat.not_lt_zero j)] at hconsumed ⊢
  show Function.update b.stats.itemsConsumed i _ j =
    b.totalItemsConsumed j + Function.update b.numInputItemsRead i _ j
  by_cases hji : j = i
  · subst hji
    rw [Function.update_self, Function.update_self]
    omega
  · rw [Function.update_of_ne hji, Function.update_of_ne hji]
    exact hconsumed

/-- The bytes in the front of a port during the work. -/
theorem Counted.carrying (hb : Counted t k 0 b) (ho : o < b.numOutputs) :
    (b.outputQueues o).Carrying (t.size o * b.numOutputItemsRead o) := by
  have hport := hb.port o ho
  rwa [if_neg (Nat.not_lt_zero o)] at hport

/-- One port is written, and so many items are counted for it. -/
theorem Counted.count (hb : Counted t k 0 b) {p : OutputPort} {items : Nat}
    (hp : o < b.numOutputs →
      p.Carrying (t.size o * (b.numOutputItemsRead o + items))) :
    Counted t k 0 { b.setOutput o p with
      stats := { b.stats with
        itemsProduced :=
          Function.update b.stats.itemsProduced o
            (b.stats.itemsProduced o + items) }
      numOutputItemsRead :=
        Function.update b.numOutputItemsRead o
          (b.numOutputItemsRead o + items) } := by
  refine ⟨hb.seen, hb.size, hb.consumed, fun j hj => ?_, hb.posted,
    fun j hj => ?_⟩
  · have hproduced := hb.produced j hj
    rw [if_neg (Nat.not_lt_zero j)] at hproduced ⊢
    show Function.update b.stats.itemsProduced o _ j =
      b.totalItemsProduced j + Function.update b.numOutputItemsRead o _ j
    by_cases hjo : j = o
    · subst hjo
      rw [Function.update_self, Function.update_self]
      omega
    · rw [Function.update_of_ne hjo, Function.update_of_ne hjo]
      exact hproduced
  · rw [if_neg (Nat.not_lt_zero j)]
    show OutputPort.Carrying
        (t.size j * Function.update b.numOutputItemsRead o _ j)
      (Function.update b.outputQueues o p j)
    by_cases hjo : j = o
    · subst hjo
      rw [Function.update_self, Function.update_self]
      exact hp hj
    · rw [Function.update_of_ne hjo, Function.update_of_ne hjo]
      exact hb.carrying hj

/-- `produce` adds to the front what it counts. -/
theorem Counted.produce {items : Nat} (hb : Counted t k 0 b)
    (hpending : o < b.numOutputs → items ≠ 0 → (b.outputQueues o).pending =
      (b.outputConfigs o).itemSize * b.numOutputItemsRead o)
    (hfits : (b.outputQueues o).pending + items * (b.outputConfigs o).itemSize <
      2 ^ 64)
    (h : b.produce o items = .ok b') : Counted t k 0 b' := by
  simp only [BlockActor.produce, OutputPort.produce, Checked.bind_eq_ok,
    Checked.pure_eq_ok, Prod.exists] at h
  obtain ⟨_, ⟨buff, p, hfront, -, -, rfl⟩, rfl⟩ := h
  have hlength := (OutputPort.front_keeps_queue hfront).2.2.1
  rw [OutputPort.producedLength_of_lt (hlength ▸ hfits)]
  refine hb.count fun ho => ?_
  obtain ⟨hsize, -⟩ := hb.size o ho
  have hcarrying := hb.carrying ho
  have hset := hcarrying.setFront hfront
    { buff with length := buff.length + items * (b.outputConfigs o).itemSize }
  by_cases hitems : items = 0
  · subst hitems
    rw [Nat.add_zero]
    rw [Nat.zero_mul, Nat.add_zero] at hset ⊢
    by_cases hbytes : t.size o * b.numOutputItemsRead o = 0
    · rw [hbytes]
      exact hset.zero
    · rw [← (hcarrying.front hbytes).2, ← hlength]
      exact hset
  · have hbytes : t.size o * (b.numOutputItemsRead o + items) =
        buff.length + items * (b.outputConfigs o).itemSize := by
      rw [hlength, hpending ho hitems, hsize, Nat.mul_add, Nat.mul_comm items]
    rw [hbytes]
    exact hset

/-- One port is written, and nothing is counted. -/
theorem Counted.setOutput (hb : Counted t k 0 b) {p : OutputPort}
    (hp : o < b.numOutputs → p.Carrying (t.size o * b.numOutputItemsRead o)) :
    Counted t k 0 (b.setOutput o p) := by
  refine ⟨hb.seen, hb.size, hb.consumed, hb.produced, hb.posted, fun j hj => ?_⟩
  rw [if_neg (Nat.not_lt_zero j)]
  show (Function.update b.outputQueues o p j).Carrying
      (t.size j * b.numOutputItemsRead j)
  by_cases hjo : j = o
  · subst hjo
    rw [Function.update_self]
    exact hp hj
  · rw [Function.update_of_ne hjo]
    exact hb.carrying hj

/-- A length that is written to a port that counts nothing. -/
theorem Counted.storeLength {length : SBuffer → Nat} (hb : Counted t k 0 b)
    (hread : b.numOutputItemsRead o = 0) (h : b.storeLength o length = .ok b') :
    Counted t k 0 b' := by
  simp only [BlockActor.storeLength, Checked.bind_eq_ok, Checked.pure_eq_ok,
    Prod.exists] at h
  obtain ⟨buff, p, hfront, rfl⟩ := h
  refine hb.setOutput fun ho => ?_
  rw [hread, Nat.mul_zero]
  exact ((hb.carrying ho).setFront hfront _).zero

/-- `post_output_buffer` over an unused front. -/
theorem Counted.postOutputBuffer {buffer : SBuffer} (hb : Counted t k 0 b)
    (hpending : (b.outputQueues o).pending = 0) (hfits : buffer.length < 2 ^ 64)
    (h : b.postOutputBuffer o buffer = .ok b') : Counted t k 0 b' := by
  simp only [BlockActor.postOutputBuffer, Checked.bind_eq_ok] at h
  obtain ⟨p, hinline, -, -, -, -, h⟩ := h
  have hread : o < b.numOutputs →
      t.size o * b.numOutputItemsRead o = 0 := fun ho => by
    by_contra hbytes
    have hfront := (hb.carrying ho).front hbytes
    omega
  have hset : Counted t k 0 (b.setOutput o p) := hb.setOutput fun ho => by
    rw [hread ho]
    exact ((hb.carrying ho).setInline hpending hinline).1
  have hempty : p.pending = 0 := OutputPort.setInline_pending hinline
  have hself : ((b.setOutput o p).outputQueues o).pending = 0 := by
    rw [setOutput_outputQueues, Function.update_self, hempty]
  refine hset.produce (fun ho _ => ?_) ?_ h
  · show _ = (b.outputConfigs o).itemSize * b.numOutputItemsRead o
    rw [hself, (hb.size o ho).1, hread ho]
  · rw [hself, Nat.zero_add]
    exact Nat.lt_of_le_of_lt (Nat.div_mul_le_self _ _) hfits

/-- What marks no block done and moves no items. -/
theorem call_same {c : Call} (hc : c.duringWork = false)
    (hdone : b.marksDone c = false)
    (hsize : ∀ o config, c = .thread (.configureOutput o config) →
      config.itemSize = (b.outputConfigs o).itemSize)
    (h : b.call now c = .ok b') : SameCounters b b' ∧ ∀ o,
      ((b.outputQueues o).Clean → (b'.outputQueues o).Clean) ∧
        ∀ bytes, (b.outputQueues o).Carrying bytes →
        (b'.outputQueues o).Carrying bytes := by
  have hstay : ∀ s : BlockActor, SameCounters b s →
      s.outputQueues = b.outputQueues →
      SameCounters b s ∧ ∀ o,
        ((b.outputQueues o).Clean → (s.outputQueues o).Clean) ∧
        ∀ bytes, (b.outputQueues o).Carrying bytes →
        (s.outputQueues o).Carrying bytes :=
    fun s hsame hout =>
      ⟨hsame, fun o => by rw [hout]; exact ⟨fun h => h, fun _ h => h⟩⟩
  cases c with
  | popInputMsg i =>
      rw [call, Checked.pure_eq_ok] at h
      subst h
      unfold popInputMsg
      split
      · exact hstay _ (.refl b) rfl
      · exact hstay _ (.of_eq rfl rfl) rfl
  | postOutputTag o tag =>
      rw [call, Checked.pure_eq_ok] at h
      exact h ▸ hstay _ (.of_sent rfl rfl rfl) rfl
  | postOutputMsg o msg =>
      rw [call, Checked.pure_eq_ok] at h
      exact h ▸ hstay _ (.of_sent rfl rfl rfl) rfl
  | markInputFail i fresh =>
      simp only [call, inputFail] at h
      split at h
      · simp only [Checked.bind_eq_ok, Checked.pure_eq_ok, Prod.exists] at h
        obtain ⟨p, memory, -, rfl⟩ := h
        unfold taskKicker
        split
        · exact hstay _ (.of_eq rfl rfl) rfl
        · exact hstay _ (.of_eq rfl rfl) rfl
      · rename_i haccum
        split at h
        · rename_i hbit
          -- The block was done before.
          have hstate : b.blockState = .done := by
            simpa [marksDone, not_not.mp haccum, hbit] using hdone
          rw [markDone, if_pos hstate, Checked.pure_eq_ok] at h
          exact h ▸ hstay _ (.refl b) rfl
        · split at h
          · simp at h
          · rw [Checked.pure_eq_ok] at h
            exact h ▸ hstay _ (.of_eq rfl rfl) rfl
  | markOutputFail o =>
      simp only [call, outputFail, Checked.bind_eq_ok, Prod.exists] at h
      obtain ⟨buff, p, hfront, h⟩ := h
      split at h
      · simp at h
      · rw [Checked.pure_eq_ok] at h
        subst h
        refine ⟨.of_eq rfl rfl, fun j => ?_⟩
        by_cases hjo : j = o
        · subst hjo
          rw [setOutput_outputQueues, Function.update_self]
          exact ⟨fun hp => (hp.front_kept hfront).fail,
            fun bytes hp => (hp.front_kept hfront).fail⟩
        · rw [setOutput_outputQueues, Function.update_of_ne hjo]
          exact ⟨fun h => h, fun _ h => h⟩
  | markDone =>
      have hstate : b.blockState = .done := by simpa [marksDone] using hdone
      rw [call, markDone, if_pos hstate, Checked.pure_eq_ok] at h
      exact h ▸ hstay _ (.refl b) rfl
  | postInput i message =>
      rw [call, Checked.pure_eq_ok] at h
      exact h ▸ hstay _ (.of_eq rfl rfl) rfl
  | thread event =>
      rw [call, Checked.pure_eq_ok] at h
      subst h
      cases event with
      | configureOutput o config =>
          have hitem :
              (fun j => (Function.update b.outputConfigs o config j).itemSize) =
              fun j => (b.outputConfigs j).itemSize := by
            funext j
            by_cases hjo : j = o
            · subst hjo
              rw [Function.update_self, hsize j config rfl]
            · rw [Function.update_of_ne hjo]
          exact hstay _
            (.of_eq (congrArg
              (fun f => { b.counters with itemSize := f }) hitem) rfl)
            rfl
      | post m =>
          rw [threadStep]
          split
          · exact hstay _ (.refl b) rfl
          · exact hstay _ (.of_eq rfl rfl) rfl
      | prepare m =>
          rw [threadStep]
          split
          · exact hstay _ (.refl b) rfl
          · exact hstay _ (.of_eq rfl rfl) rfl
      | send k =>
          rw [threadStep]
          split
          · exact hstay _ (.refl b) rfl
          · exact hstay _ (.of_eq rfl rfl) rfl
      | _ => exact hstay _ (.of_eq rfl rfl) rfl
  | _ => cases hc

/-- **A call keeps the counts** if it meets the condition; what moves items is
called during the work. -/
theorem Counted.call {c : Call} (hb : Counted t k l b) (hkept : b.CountsKept c)
    (hwork : c.duringWork = true → k = 0 ∧ l = 0) (h : b.call now c = .ok b') :
    Counted t k l b' := by
  obtain ⟨hsafe, hcall⟩ := hkept
  by_cases hc : c.duringWork = true
  · obtain ⟨rfl, rfl⟩ := hwork hc
    cases c with
    | consume i items =>
        simp only [BlockActor.call, Checked.bind_eq_ok, Checked.pure_eq_ok] at h
        obtain ⟨-, -, rfl⟩ := h
        exact hb.consume i items
    | produce o items =>
        simp only [BlockActor.call, Checked.bind_eq_ok] at h
        obtain ⟨-, -, h⟩ := h
        exact hb.produce (fun _ => hcall.1) hcall.2 h
    | getInputBuffer i fresh =>
        simp only [BlockActor.call, BlockActor.getInputBuffer,
          Checked.bind_eq_ok, Checked.pure_eq_ok, Prod.exists] at h
        obtain ⟨buff, p, memory, -, rfl⟩ := h
        exact ⟨hb.seen, hb.size, hb.consumed, hb.produced, hb.posted, hb.port⟩
    | getOutputBuffer o => exact hb.storeLength hcall h
    | popOutputBuffer o numBytes =>
        rw [BlockActor.call] at h
        exact hb.storeLength hcall h
    | postOutputBuffer o buffer => exact hb.postOutputBuffer hcall.1 hcall.2 h
    | _ => cases hc
  · by_cases hdone : b.marksDone c = true
    · exact hb.markDone (hsafe hdone) (markDone_of_call hdone h)
    · obtain ⟨hsame, hport⟩ :=
        call_same (by simpa using hc) (by simpa using hdone)
        (fun o config hcase => by subst hcase; exact hcall) h
      exact hb.same hsame fun o _ => hport o

end Calls

/-! ### A task -/

section Task

variable {b b' : BlockActor} {t : Tally} {k l n : Nat} {env : Env}
  {now : Int} {i o : Nat}

/-- Before the work: so many inputs and outputs are prepared. -/
structure Preparing (t : Tally) (n l : Nat) (b : BlockActor) : Prop where
  seen : t.seen ≤ b.sent.length
  size : ∀ o < b.numOutputs, (b.outputConfigs o).itemSize = t.size o ∧
    0 < t.size o
  consumed : ∀ i < b.numInputs, b.stats.itemsConsumed i =
      b.totalItemsConsumed i ∧
    (i < n → b.numInputItemsRead i = 0)
  produced : ∀ o < b.numOutputs, b.stats.itemsProduced o =
      b.totalItemsProduced o ∧
    (o < l → b.numOutputItemsRead o = 0)
  posted : ∀ o < b.numOutputs, t.posted b o = b.totalItemsProduced o
  port : ∀ o < b.numOutputs, (b.outputQueues o).Carrying 0 ∧
    (b.outputQueues o).pending = 0

theorem Rested.preparing (hb : Rested t b) : Preparing t 0 0 b := by
  refine ⟨hb.seen, hb.size, fun i hi =>
    ⟨?_, fun h => absurd h (Nat.not_lt_zero i)⟩, fun o ho =>
      ⟨?_, fun h => absurd h (Nat.not_lt_zero o)⟩, hb.posted, fun o ho => ?_⟩
  · have hconsumed := hb.consumed i hi
    rwa [if_pos hi] at hconsumed
  · have hproduced := hb.produced o ho
    rwa [if_pos ho] at hproduced
  · have hport := hb.port o ho
    rw [if_pos ho] at hport
    exact ⟨hport.carrying, hport.pending⟩

theorem prepareInput_preparing {j j' : Nat} (hb : Preparing t n l b)
    (h : prepareInput env n (b, j) = .ok (b', j')) :
    Preparing t (n + 1) l b' := by
  have hsorted : (b.sortTags n).counters = b.counters ∧
      (b.sortTags n).sent = b.sent ∧
      (b.sortTags n).outputQueues = b.outputQueues := by
    unfold sortTags
    split <;> exact ⟨rfl, rfl, rfl⟩
  obtain ⟨hcounters, hsent, hout⟩ := hsorted
  -- The counters of the port are reset; an output port may get an inline buffer.
  have hrest : ∀ s : BlockActor,
      s.counters = { b.counters with
        numInputItemsRead := Function.update b.numInputItemsRead n 0 } →
      s.sent = b.sent →
      (∀ o < b.numOutputs, (s.outputQueues o).Carrying 0 ∧
        (s.outputQueues o).pending = 0) →
      Preparing t (n + 1) l s := by
    intro s hs hsent hport
    have hsame : SameCounters { b with
        numInputItemsRead := Function.update b.numInputItemsRead n 0 } s :=
          .of_eq hs hsent
    refine ⟨hsame.seen hb.seen, fun o ho => ?_, fun i hi => ?_, fun o ho => ?_,
      fun o ho => ?_, fun o ho => hport o (hsame.numOutputs ▸ ho)⟩
    · rw [hsame.itemSize]
      exact hb.size o (hsame.numOutputs ▸ ho)
    · rw [hsame.itemsConsumed, hsame.totalItemsConsumed,
        hsame.numInputItemsRead]
      obtain ⟨hagree, hread⟩ := hb.consumed i (hsame.numInputs ▸ hi)
      refine ⟨hagree, fun hlt => ?_⟩
      by_cases hin : i = n
      · subst hin
        exact Function.update_self ..
      · exact (Function.update_of_ne hin _ _).trans (hread (by omega))
    · rw [hsame.itemsProduced, hsame.totalItemsProduced,
        hsame.numOutputItemsRead]
      exact hb.produced o (hsame.numOutputs ▸ ho)
    · rw [hsame.posted hb.seen, hsame.totalItemsProduced]
      exact hb.posted o (hsame.numOutputs ▸ ho)
  have hcounters' : { (b.sortTags n).counters with
      numInputItemsRead :=
        Function.update (b.sortTags n).numInputItemsRead n 0 } =
        { b.counters with
          numInputItemsRead := Function.update b.numInputItemsRead n 0 } := by
    have hread : (b.sortTags n).numInputItemsRead = b.numInputItemsRead :=
      congrArg Counters.numInputItemsRead hcounters
    rw [hcounters, hread]
  simp only [prepareInput, Checked.bind_eq_ok, Prod.exists] at h
  obtain ⟨-, -, buff, p, memory, -, h⟩ := h
  split at h
  · simp only [Checked.bind_eq_ok, Checked.pure_eq_ok, Prod.mk.injEq] at h
    obtain ⟨q, hset, rfl, -⟩ := h
    replace hset : (b.outputQueues j).setInline buff = .ok q := hout ▸ hset
    refine hrest _ hcounters' hsent fun o ho => ?_
    show OutputPort.Carrying 0
        (Function.update (b.sortTags n).outputQueues j q o) ∧
      (Function.update (b.sortTags n).outputQueues j q o).pending = 0
    rw [hout]
    by_cases hoj : o = j
    · subst hoj
      rw [Function.update_self]
      obtain ⟨hport, hpending⟩ := hb.port o ho
      exact hport.setInline hpending hset
    · rw [Function.update_of_ne hoj]
      exact hb.port o ho
  · simp only [Checked.pure_eq_ok, Prod.mk.injEq] at h
    obtain ⟨rfl, -⟩ := h
    refine hrest _ hcounters' hsent fun o ho => ?_
    show ((b.sortTags n).outputQueues o).Carrying 0 ∧
        ((b.sortTags n).outputQueues o).pending = 0
    rw [hout]
    exact hb.port o ho

theorem prepareOutput_preparing (hb : Preparing t k n b)
    (h : b.prepareOutput n = .ok b') : Preparing t k (n + 1) b' := by
  simp only [prepareOutput, Checked.bind_eq_ok, Checked.pure_eq_ok,
    Prod.exists] at h
  obtain ⟨-, -, buff, p, hfront, -, -, rfl⟩ := h
  refine ⟨hb.seen, hb.size, hb.consumed, fun o ho => ?_, hb.posted,
    fun o ho => ?_⟩
  · obtain ⟨hagree, hread⟩ := hb.produced o ho
    refine ⟨hagree, fun hlt => ?_⟩
    show Function.update b.numOutputItemsRead n 0 o = 0
    by_cases hon : o = n
    · subst hon
      exact Function.update_self ..
    · rw [Function.update_of_ne hon]
      exact hread (by omega)
  · rw [setOutput_outputQueues]
    by_cases hon : o = n
    · subst hon
      rw [Function.update_self]
      obtain ⟨hport, hpending⟩ := hb.port o ho
      exact ⟨hport.front_kept hfront,
        (OutputPort.front_keeps_queue hfront).2.2.2.1.trans hpending⟩
    · rw [Function.update_of_ne hon]
      exact hb.port o ho

/-- **Before the work** everything is reset. -/
theorem Rested.prepare (hb : Rested t b) (h : b.prepare env = .ok b') :
    Counted t 0 0 b' := by
  simp only [BlockActor.prepare, Checked.bind_eq_ok, Prod.exists] at h
  obtain ⟨b₁, j, hin, hout⟩ := h
  have hstart : Preparing t 0 0 { b with inputItems := {} } := by
    have hstart := hb.preparing
    exact ⟨hstart.seen, hstart.size, hstart.consumed, hstart.produced,
      hstart.posted, hstart.port⟩
  have h₁ := forRange_rule hin
    (P := fun n s => Preparing t n 0 s.1 ∧ s.1.numInputs = b.numInputs)
    ⟨hstart, rfl⟩
    fun n _ s s' hs hf => ⟨prepareInput_preparing hs.1 hf,
      (congrArg Control.numInputs (prepareInput_control hf)).trans hs.2⟩
  have h₂ := forRange_rule hout
    (P := fun n s => Preparing t b.numInputs n s ∧ s.control = b₁.control)
    ⟨⟨h₁.1.seen, h₁.1.size, h₁.1.consumed, h₁.1.produced, h₁.1.posted,
      h₁.1.port⟩, rfl⟩
    fun n _ s s' hs hf => ⟨prepareOutput_preparing hs.1 hf,
      (prepareOutput_control hf).trans hs.2⟩
  obtain ⟨hprepared, hcontrol⟩ := h₂
  have hin' : b'.numInputs = b.numInputs :=
    (congrArg Control.numInputs hcontrol).trans h₁.2
  have hout' : b'.numOutputs = b₁.numOutputs :=
    congrArg Control.numOutputs hcontrol
  refine ⟨hprepared.seen, hprepared.size, fun i hi => ?_, fun o ho => ?_,
    hprepared.posted, fun o ho => ?_⟩
  · obtain ⟨hagree, hread⟩ := hprepared.consumed i hi
    rw [if_neg (Nat.not_lt_zero i), hread (hin' ▸ hi)]
    exact hagree
  · obtain ⟨hagree, hread⟩ := hprepared.produced o ho
    rw [if_neg (Nat.not_lt_zero o), hread (hout' ▸ ho)]
    exact hagree
  · rw [if_neg (Nat.not_lt_zero o), (hprepared.produced o ho).2 (hout' ▸ ho),
      Nat.mul_zero]
    exact (hprepared.port o ho).1

/-- **The work** keeps the counts when its calls do. -/
theorem Counted.taskWork (hb : Counted t 0 0 b)
    (hkept : WorkMeets CountsKept env b) (h : b.taskWork env = .ok b') :
    Counted t 0 0 b' := by
  simp only [BlockActor.taskWork, Checked.bind_eq_ok, Checked.pure_eq_ok] at h
  obtain ⟨b₁, hcalls, rfl⟩ := h
  have hstart : Counted t 0 0 b.atCall :=
    ⟨hb.seen, hb.size, hb.consumed, hb.produced, hb.posted, hb.port⟩
  have h₁ := hkept.work.rule hcalls
    (R := fun s s' => Counted t 0 0 s → Counted t 0 0 s')
    (fun _ h => h) (fun h h' hs => h' (h hs))
    (fun c _ s s' hok hc hs => hs.call hok (fun _ => ⟨rfl, rfl⟩) hc) hstart
  exact ⟨h₁.seen, h₁.size, h₁.consumed, h₁.produced, h₁.posted, h₁.port⟩

/-- Passing tags on by default posts no items. -/
theorem propagateTags_same (i : Nat) (tags : List Tag) (b : BlockActor) :
    SameCounters b (b.propagateTags i tags) ∧
      (b.propagateTags i tags).outputQueues = b.outputQueues := by
  unfold propagateTags
  refine List.foldlRecOn (motive := fun c : BlockActor =>
    SameCounters b c ∧ c.outputQueues = b.outputQueues) _ _
      ⟨.refl b, rfl⟩ fun c hc o _ => ?_
  refine List.foldlRecOn (motive := fun c : BlockActor =>
    SameCounters b c ∧ c.outputQueues = b.outputQueues) _ _ hc
      fun c hc tag _ => ?_
  exact ⟨hc.1.trans (.of_sent rfl rfl rfl), hc.2⟩

/-- Passing tags on keeps the counts. -/
theorem Counted.passTags {tags : List Tag} (henv : env.Proper)
    (hb : Counted t k l b)
    (hmeet : ∀ overload ∈ env.propagateTags,
      CallsMeet CountsKept env.now (overload i) b)
    (h : b.passTags env i tags = .ok b') : Counted t k l b' := by
  unfold BlockActor.passTags at h
  split at h
  · rw [Checked.pure_eq_ok] at h
    subst h
    obtain ⟨hsame, hout⟩ := propagateTags_same i tags b
    exact hb.of_same hsame hout
  · rename_i overload ho
    exact (hmeet overload ho).rule h
      (R := fun s s' => Counted t k l s → Counted t k l s')
      (fun _ h => h) (fun h h' hs => h' (h hs))
      (fun c hc s s' hok hcall hs => hs.call hok (fun hwork => by
        rw [henv.tags overload ho i c hc] at hwork
        cases hwork) hcall) hb

/-- **After the work** an input is counted. -/
theorem Counted.finishInput (henv : env.Proper) (hb : Counted t k 0 b)
    (hmeet : (b.trimMsgs k).passed k ≠ [] → ∀ overload ∈ env.propagateTags,
      CallsMeet CountsKept env.now (overload k) (b.trimMsgs k))
    (h : b.finishInput env k = .ok b') : Counted t (k + 1) 0 b' := by
  simp only [BlockActor.finishInput, Checked.bind_eq_ok,
    Checked.pure_eq_ok] at h
  obtain ⟨b₁, htags, b₂, hbuffs, b₃, havail, rfl⟩ := h
  have hmsgs : Counted t k 0 (b.trimMsgs k) := hb.of_same (.of_eq rfl rfl) rfl
  have h₁ : Counted t k 0 b₁ := by
    rcases trimTags_cases htags with ⟨-, rfl⟩ | ⟨hne, b₀, hpass, rfl⟩
    · exact hmsgs
    · have h₀ := hmsgs.passTags henv (hmeet hne) hpass
      exact h₀.of_same (.of_eq rfl rfl) rfl
  have h₂ : Counted t k 0 b₂ := by
    unfold trimBuffs at hbuffs
    split at hbuffs
    · rw [Checked.pure_eq_ok] at hbuffs
      exact hbuffs ▸ h₁
    · simp only [Checked.bind_eq_ok, Checked.pure_eq_ok] at hbuffs
      obtain ⟨p, -, rfl⟩ := hbuffs
      exact h₁.of_same (.of_eq rfl rfl) rfl
  have h₃ : Counted t k 0 b₃ := by
    simp only [updateInputAvail, Checked.bind_eq_ok,
      Checked.pure_eq_ok] at havail
    obtain ⟨p, -, rfl⟩ := havail
    exact h₂.of_same (.of_eq rfl rfl) rfl
  refine ⟨h₃.seen, h₃.size, fun i hi => ?_, h₃.produced, h₃.posted, h₃.port⟩
  have hconsumed := h₃.consumed i hi
  show b₃.stats.itemsConsumed i =
    Function.update b₃.totalItemsConsumed k _ i + if i < k + 1 then 0
      else b₃.numInputItemsRead i
  by_cases hik : i = k
  · subst hik
    rw [if_neg (Nat.lt_irrefl i)] at hconsumed
    rw [Function.update_self, if_pos (Nat.lt_succ_self i)]
    exact hconsumed
  · have hiff : i < k + 1 ↔ i < k := by omega
    rw [Function.update_of_ne hik]
    simpa only [hiff] using hconsumed

/-- An output is counted, and what was carried is posted. -/
theorem Counted.finishOutput (hb : Counted t k l b) (hl : l < b.numOutputs)
    (h : b.finishOutput now l = .ok b') : Counted t k (l + 1) b' := by
  have hcarrying := hb.port l hl
  rw [if_neg (Nat.lt_irrefl l)] at hcarrying
  obtain ⟨hsize, hpos⟩ := hb.size l hl
  have hproduced := hb.produced l hl
  rw [if_neg (Nat.lt_irrefl l)] at hproduced
  have hsucc : ∀ o, o ≠ l → (o < l + 1 ↔ o < l) := fun o hne => by omega
  unfold BlockActor.finishOutput at h
  split at h
  · -- Without a front nothing was produced.
    rename_i hempty
    rw [Checked.pure_eq_ok] at h
    subst h
    have hread : b.numOutputItemsRead l = 0 := by
      by_contra hread
      have hfront := (hcarrying.front (Nat.mul_ne_zero (by omega) hread)).1
      rw [hfront] at hempty
      cases hempty
    refine ⟨hb.seen, hb.size, hb.consumed, fun o ho => ?_, hb.posted,
      fun o ho => ?_⟩
    · by_cases hol : o = l
      · subst hol
        rw [if_pos (Nat.lt_succ_self o), hproduced, hread]
      · simpa only [hsucc o hol] using hb.produced o ho
    · by_cases hol : o = l
      · subst hol
        rw [if_pos (Nat.lt_succ_self o)]
        exact hcarrying.emptied hempty
      · simpa only [hsucc o hol] using hb.port o ho
  · simp only [Checked.bind_eq_ok, Checked.pure_eq_ok, Prod.exists] at h
    obtain ⟨buff, p, hpost, rfl⟩ := h
    obtain ⟨hclean, hlength⟩ := hcarrying.post hpost
    -- What is posted is what is added to the counter.
    have hrest : ∀ (s : BlockActor) (out : List Outgoing),
        s.counters = { b.counters with
          totalItemsProduced := Function.update b.totalItemsProduced l
            (b.totalItemsProduced l + b.numOutputItemsRead l) } →
        s.outputQueues = Function.update b.outputQueues l p →
        s.sent = b.sent ++ out →
        (∀ o, itemsPosted t.size o out = if o =
          l then b.numOutputItemsRead l else 0) →
        Counted t k (l + 1) s := by
      intro s out hs hout hsent hposted
      have hsame : SameCounters { b with
          totalItemsProduced := Function.update b.totalItemsProduced l
            (b.totalItemsProduced l + b.numOutputItemsRead l)
          sent := s.sent } s := .of_eq hs rfl
      refine ⟨?_, fun o ho => ?_, fun i hi => ?_, fun o ho => ?_,
        fun o ho => ?_, fun o ho => ?_⟩
      · have hseen := hb.seen
        rw [hsent, List.length_append]
        omega
      · rw [hsame.itemSize]
        exact hb.size o (hsame.numOutputs ▸ ho)
      · rw [hsame.itemsConsumed, hsame.totalItemsConsumed,
          hsame.numInputItemsRead]
        exact hb.consumed i (hsame.numInputs ▸ hi)
      · rw [hsame.itemsProduced, hsame.totalItemsProduced,
          hsame.numOutputItemsRead]
        show b.stats.itemsProduced o =
            Function.update b.totalItemsProduced l _ o + _
        by_cases hol : o = l
        · subst hol
          rw [Function.update_self, if_pos (Nat.lt_succ_self o), hproduced,
            Nat.add_zero]
        · rw [Function.update_of_ne hol]
          simpa only [hsucc o hol] using hb.produced o (hsame.numOutputs ▸ ho)
      · rw [t.posted_append hsent hb.seen, hb.posted o (hsame.numOutputs ▸ ho),
          hposted, hsame.totalItemsProduced]
        show _ = Function.update b.totalItemsProduced l _ o
        by_cases hol : o = l
        · subst hol
          rw [Function.update_self, if_pos rfl]
        · rw [Function.update_of_ne hol, if_neg hol, Nat.add_zero]
      · rw [hout, hsame.numOutputItemsRead]
        by_cases hol : o = l
        · subst hol
          rw [Function.update_self, if_pos (Nat.lt_succ_self o)]
          exact hclean
        · rw [Function.update_of_ne hol]
          simpa only [hsucc o hol] using hb.port o (hsame.numOutputs ▸ ho)
    split
    · rename_i hread
      replace hread : b.numOutputItemsRead l ≠ 0 := hread
      have hbytes := hlength (Nat.mul_ne_zero (by omega) hread)
      refine hrest _ [.downstream l (.buffer buff)] rfl rfl rfl fun o => ?_
      by_cases hol : o = l
      · subst hol
        have hcount : buff.length / t.size o = b.numOutputItemsRead o := by
          rw [hbytes, Nat.mul_div_cancel_left _ hpos]
        simp [itemsPosted, hcount]
      · have hlo : l ≠ o := fun h => hol h.symm
        simp [itemsPosted, hol, hlo]
    · rename_i hread
      replace hread : b.numOutputItemsRead l = 0 := not_not.mp hread
      refine hrest _ [] rfl rfl (List.append_nil _).symm fun o => ?_
      rw [hread, ite_self]
      rfl

/-- **After the work** the counters agree again. -/
theorem Counted.finish (henv : env.Proper) (hb : Counted t 0 0 b)
    (hmeet : ∀ i < b.numInputs, ∀ s,
      forRange (BlockActor.finishInput env) i b = .ok s →
      (s.trimMsgs i).passed i ≠ [] → ∀ overload ∈ env.propagateTags,
        CallsMeet CountsKept env.now (overload i) (s.trimMsgs i))
    (h : b.finish env = .ok b') : Rested t b' := by
  simp only [BlockActor.finish, Checked.bind_eq_ok] at h
  obtain ⟨b₁, hin, hout⟩ := h
  have h₁ := forRange_rule hin
    (P := fun i s => forRange (BlockActor.finishInput env) i b = .ok s ∧
      Counted t i 0 s)
    ⟨rfl, hb⟩ fun i hi s s' hs hf =>
      ⟨forRange_succ_eq_ok.mpr ⟨s, hs.1, hf⟩,
        hs.2.finishInput henv (hmeet i hi s hs.1) hf⟩
  have hmoves : Moves (fun _ => True) b b₁ :=
    forRange_relates hin Moves.refl Moves.trans
    fun i _ s s' hf => finishInput_moves (workWithin_true env) hf
  have h₂ := forRange_rule hout
    (P := fun l s => Counted t b.numInputs l s ∧
      s.control = b₁.control) ⟨h₁.2, rfl⟩
    fun l hl s s' hs hf => by
      have hnum : s.numOutputs = b₁.numOutputs :=
        congrArg Control.numOutputs hs.2
      exact ⟨hs.1.finishOutput (hnum ▸ hl) hf,
        (finishOutput_control hf).trans hs.2⟩
  obtain ⟨hcounted, hcontrol⟩ := h₂
  have hin' : b'.numInputs = b.numInputs :=
    (congrArg Control.numInputs hcontrol).trans hmoves.ports.1
  have hout' : b'.numOutputs = b₁.numOutputs :=
    congrArg Control.numOutputs hcontrol
  rw [Rested, hin', hout']
  exact hcounted

/-- **A task** whose calls keep the counts. -/
theorem Rested.taskMain (henv : env.Proper) (hb : Rested t b)
    (hmeet : TaskMeets CountsKept env b) (h : b.taskMain env = .ok b') :
    Rested t b' := by
  by_cases hallowed : b.isWorkAllowed = true
  · obtain ⟨b₁, b₂, b₃, hprepare, hwork, hfinish, rfl⟩ :=
      taskMain_parts hallowed h
    have hkept := hmeet hallowed b₁ hprepare
    have h₁ := hb.prepare hprepare
    have h₂ := h₁.taskWork hkept hwork
    have h₃ := h₂.finish henv (hkept.tags b₂ hwork) hfinish
    have hsame : SameCounters b₃ b₃.taskKicker ∧
        b₃.taskKicker.outputQueues = b₃.outputQueues := by
      unfold taskKicker
      split
      · exact ⟨.of_eq rfl rfl, rfl⟩
      · exact ⟨.refl b₃, rfl⟩
    rw [Rested, hsame.1.numInputs, hsame.1.numOutputs]
    exact h₃.of_same hsame.1 hsame.2
  · rw [taskMain_idle (by simpa using hallowed) h]
    exact hb

end Task

end BlockActor

end Gras
