import Gras.Actor.BlockRuns
import Gras.Buffers.OutputPorts

/-!
# The reserve of an output port

`work` is promised a buffer of at least the reserve on every output port.  What
keeps the promise:

* `Settled`: between two handlers a port has no inline buffer, and a ready port
  has an unused front with the reserve in its table;
* `InUse`: during a work the front keeps its room whatever is written to it;
* while the block is live, the table holds at least what was last applied.

The last part breaks when a block that was marked done is activated again:
flushing has put the reserve of every port back to one byte.  The promise also
breaks when an input buffer is inlined that is smaller than the reserve
(`InlineFits`).
-/

namespace Gras

theorem sizeSub_lt (a b : Nat) : sizeSub a b < 2 ^ 64 := by
  unfold sizeSub
  have := Int.emod_lt_of_pos ((a : Int) - (b : Int))
    (show (0 : Int) < 2 ^ 64 by decide)
  have := Int.emod_nonneg ((a : Int) - (b : Int))
    (show (2 ^ 64 : Int) ≠ 0 by decide)
  omega

/-- The bytes that a port of that configuration asks for. -/
def OutputPortConfig.reserveBytes (config : OutputPortConfig) : Nat :=
  sizeMul config.itemSize config.reserveItems

namespace OutputPort

theorem available_of_unused {b : SBuffer} (h : b.length = 0) :
    available b = b.room := by
  have hlt : b.room < 2 ^ 64 := sizeSub_lt _ _
  rw [available, h, ← SBuffer.room, sizeSub_of_le (Nat.zero_le _) hlt,
    Nat.sub_zero]

/-- An unused front of the queue has the reserve. -/
def QueueHolds (p : OutputPort) : Prop :=
  ∀ b, p.QueueFront b → b.length = 0 → p.reserveBytes ≤ b.room

/-- A port between two handlers. -/
structure Settled (p : OutputPort) : Prop where
  inline : p.inlineBuffer = none
  holds : p.bit = true → p.QueueHolds

/-- A port during a work: a front that no inline buffer hides has the reserve,
used or not. -/
structure InUse (p : OutputPort) : Prop where
  holds : p.QueueHolds
  visible : p.inlineBuffer = none → ∀ b, p.QueueFront b →
    p.reserveBytes ≤ b.room

section Ports

variable {p p' : OutputPort} {now : Int}

theorem Settled.update (hinline : p.inlineBuffer = none)
    (h : p.update now = .ok p') :
    p'.Settled ∧ p'.reserveBytes = p.reserveBytes := by
  obtain ⟨hinline', hreserve, -, hbit⟩ := update_cases h
  refine ⟨⟨hinline'.trans hinline, fun hready b hb hlength => ?_⟩, hreserve⟩
  obtain ⟨b', hb', hroom⟩ := hbit hready
  rw [hb.eq hb', available_of_unused (hb.eq hb' ▸ hlength)] at *
  exact hreserve ▸ hroom

theorem Settled.push {buff : SBuffer} (hp : p.Settled)
    (h : p.push now buff = .ok p') :
    p'.Settled ∧ p'.reserveBytes = p.reserveBytes := by
  unfold OutputPort.push at h
  split at h
  · rw [Checked.pure_eq_ok] at h
    exact h ▸ ⟨hp, rfl⟩
  · simp only [Checked.bind_eq_ok] at h
    obtain ⟨q, -, h⟩ := h
    exact Settled.update (p := { p with queue := some q }) hp.inline h

theorem Settled.setBufferQueue {q : Option BufferQueue} (hp : p.Settled)
    (h : p.setBufferQueue now q = .ok p') :
    p'.Settled ∧ p'.reserveBytes = p.reserveBytes :=
  Settled.update (p := { p with queue := q }) hp.inline h

theorem Settled.setReserveBytes {numBytes : Nat} (hp : p.Settled)
    (h : p.setReserveBytes now numBytes = .ok p') :
    p'.Settled ∧ p'.reserveBytes = numBytes := by
  unfold OutputPort.setReserveBytes at h
  split at h
  · rename_i hq
    rw [Checked.pure_eq_ok] at h
    subst h
    -- Without a queue there is no front that could lack the reserve.
    refine ⟨⟨hp.inline, fun _ b hb => ?_⟩, rfl⟩
    obtain ⟨q, q', hq', -⟩ := hb
    exact absurd (hq.symm.trans hq') (by simp)
  · exact Settled.update (p := { p with reserveBytes := numBytes }) hp.inline h

theorem settled_resized (initTime : Int) : (resized initTime now).Settled :=
  ⟨rfl, fun hbit => nomatch hbit⟩

theorem inUse_resized (initTime : Int) : (resized initTime now).InUse := by
  constructor
  · rintro b ⟨q, q', hq, -⟩
    cases hq
  · rintro - b ⟨q, q', hq, -⟩
    cases hq

theorem Settled.fail (hp : p.Settled) : (p.fail now).Settled :=
  ⟨hp.inline, fun hbit => nomatch hbit⟩

theorem InUse.fail (hp : p.InUse) : (p.fail now).InUse := ⟨hp.holds, hp.visible⟩

/-- Looking at the front changes nothing that counts. -/
theorem front_keeps {b : SBuffer} (h : p.front = .ok (b, p')) :
    p'.inlineBuffer = p.inlineBuffer ∧ p'.reserveBytes = p.reserveBytes ∧
      p'.bit = p.bit ∧
      ∀ b', p'.QueueFront b' → p.QueueFront b' := by
  rcases front_cases h with ⟨-, rfl⟩ | ⟨-, hb, hb', q, rfl⟩
  · exact ⟨rfl, rfl, rfl, fun b' h => h⟩
  · exact ⟨rfl, rfl, rfl, fun b' h => hb'.eq h ▸ hb⟩

theorem Settled.front {b : SBuffer} (hp : p.Settled)
    (h : p.front = .ok (b, p')) : p'.Settled := by
  obtain ⟨hinline, hreserve, hbit, hfront⟩ := front_keeps h
  refine ⟨hinline.trans hp.inline, fun hready b hb hlength => ?_⟩
  rw [hreserve]
  exact hp.holds (hbit ▸ hready) b (hfront b hb) hlength

theorem InUse.front {b : SBuffer} (hp : p.InUse) (h : p.front = .ok (b, p')) :
    p'.InUse := by
  obtain ⟨hinline, hreserve, -, hfront⟩ := front_keeps h
  constructor
  · intro b hb hlength
    rw [hreserve]
    exact hp.holds b (hfront b hb) hlength
  · intro hnone b hb
    rw [hreserve]
    exact hp.visible (hinline ▸ hnone) b (hfront b hb)

/-- Writing a length to the front leaves it its room. -/
theorem InUse.setFront {b : SBuffer} (hp : p.InUse) (h : p.front = .ok (b, p'))
    (length : Nat) : (p'.setFront { b with length }).InUse := by
  rcases setFront_cases h with ⟨hinline, hset⟩ | ⟨hinline, ⟨q, hset⟩, hfront⟩
  · rw [hset]
    exact ⟨hp.holds, fun hnone => nomatch hnone⟩
  · rcases front_cases h with ⟨hsome, -⟩ | ⟨-, hb, -, -⟩
    · exact absurd (hinline.symm.trans hsome) (by simp)
    · have hroom : ∀ b', (p'.setFront { b with length }).QueueFront b' →
          (p'.setFront { b with length }).reserveBytes ≤ b'.room := by
        intro b' hb'
        rw [(hfront b' hb').2, hset]
        exact hp.visible hinline b hb
      exact ⟨fun b' hb' _ => hroom b' hb', fun _ => hroom⟩

theorem setInline_eq_ok {buff : SBuffer} (h : p.setInline buff = .ok p') :
    p' = { p with inlineBuffer := some { buff with length := 0 }, bit := true } := by
  simp only [OutputPort.setInline, Checked.bind_eq_ok, Checked.pure_eq_ok] at h
  obtain ⟨-, -, rfl⟩ := h
  rfl

theorem InUse.setInline {buff : SBuffer} (hp : p.InUse)
    (h : p.setInline buff = .ok p') : p'.InUse := by
  rw [setInline_eq_ok h]
  exact ⟨hp.holds, fun hnone => nomatch hnone⟩

@[simp] theorem setFront_reserveBytes (c : SBuffer) (p : OutputPort) :
    (p.setFront c).reserveBytes = p.reserveBytes := by
  unfold OutputPort.setFront
  split <;> rfl

/-- **After a work** the port is settled: an inline buffer is dropped, an unused
front stays, and a used one is popped. -/
theorem InUse.post {buff : SBuffer} (hp : p.InUse)
    (h : p.post now = .ok (buff, p')) :
    p'.Settled ∧ p'.reserveBytes = p.reserveBytes := by
  simp only [OutputPort.post, Checked.bind_eq_ok, Checked.pure_eq_ok,
    Prod.mk.injEq, Prod.exists] at h
  obtain ⟨b₁, p₁, hfront, p₂, hconsume, -, rfl⟩ := h
  have hp₁ := hp.front hfront
  have hreserve₁ := (front_keeps hfront).2.1
  unfold consume at hconsume
  split at hconsume
  · rw [Checked.pure_eq_ok] at hconsume
    subst hconsume
    exact ⟨⟨rfl, fun _ => hp₁.holds⟩, hreserve₁⟩
  · rename_i hnone
    simp only [Checked.bind_eq_ok, Prod.exists] at hconsume
    obtain ⟨-, -, b₂, p₃, hfront₂, hconsume⟩ := hconsume
    have hp₃ := hp₁.front hfront₂
    obtain ⟨hinline₃, hreserve₃, -⟩ := front_keeps hfront₂
    split at hconsume
    · rw [Checked.pure_eq_ok] at hconsume
      subst hconsume
      exact ⟨⟨hinline₃.trans hnone, fun _ => hp₃.holds⟩,
        hreserve₃.trans hreserve₁⟩
    · -- The front is moved on and popped; `_update` looks at what comes next.
      rcases setFront_cases
        (c := { b₂ with offset := b₂.offset + b₂.length, length := 0 })
        hfront₂ with ⟨hsome, -⟩ | ⟨-, ⟨q, hset⟩, -⟩
      · exact absurd (hnone.symm.trans hsome) (by simp)
      · rw [hset] at hconsume
        simp only [pop, hnone, Checked.bind_eq_ok] at hconsume
        obtain ⟨-, -, q', -, hupdate⟩ := hconsume
        have hsettled :=
            Settled.update (p := { p₁ with queue := some q' }) hnone (by
          simpa only [hnone] using hupdate)
        exact ⟨hsettled.1, hsettled.2.trans hreserve₁⟩

end Ports

end OutputPort

namespace InputPort

variable {p p' : InputPort} {fresh : Allocation} {m m' : Memory}
  {buff : SBuffer}

/-- Which buffers accumulate and how they are filled does not depend on the
bytes. -/
theorem gather_memory (q : List SBuffer) (accum : SBuffer) (freeBytes : Nat)
    (m m₂ : Memory) :
    ∃ memory, gather q accum freeBytes m₂ =
      { gather q accum freeBytes m with memory } := by
  induction q generalizing accum freeBytes m m₂ with
  | nil => exact ⟨m₂, rfl⟩
  | cons front rest ih =>
      unfold gather
      dsimp only
      split
      · exact ⟨m₂, rfl⟩
      · split
        · exact ih _ _ _ _
        · exact ⟨_, rfl⟩

theorem accumulate_memory (h : p.accumulate fresh m = .ok (p', m'))
    (m₂ : Memory) : ∃ m₂', p.accumulate fresh m₂ = .ok (p', m₂') := by
  unfold accumulate at h ⊢
  split at h
  · rename_i haccum
    rw [Checked.pure_eq_ok, Prod.mk.injEq] at h
    rw [if_pos haccum]
    exact ⟨m₂, congrArg Except.ok (Prod.ext h.1 rfl)⟩
  · rename_i haccum
    rw [if_neg haccum]
    split at h
    · simp at h
    · dsimp only at h
      split at h
      · simp at h
      · rename_i buff buffers hbuffers
        obtain ⟨memory, hgathered⟩ :
            ∃ memory, p.gathered buff m₂ = { p.gathered buff m with memory } :=
          gather_memory _ _ _ _ _
        simp only [Checked.bind_eq_ok, Checked.pure_eq_ok, Prod.mk.injEq] at h
        obtain ⟨u, haccumulated, rfl, -⟩ := h
        refine ⟨memory, ?_⟩
        simp only [hbuffers, hgathered, haccumulated]
        rfl

/-- **The front buffer** does not depend on the bytes in the memory. -/
theorem front_memory (h : p.front fresh m = .ok (buff, p', m')) (m₂ : Memory) :
    ∃ m₂', p.front fresh m₂ = .ok (buff, p', m₂') := by
  simp only [front, Checked.bind_eq_ok] at h ⊢
  obtain ⟨u, hready, v, hsize, h⟩ := h
  split at h
  · rw [Checked.pure_eq_ok] at h
    cases h
    exact ⟨m₂, u, hready, v, hsize, rfl⟩
  · rename_i b₀ rest hitems
    simp only [Checked.bind_eq_ok, Prod.exists] at h ⊢
    obtain ⟨p₁, m₁, hrefill, h⟩ := h
    have hrefill₂ : ∃ m₃, p.refill fresh m₂ b₀ = .ok (p₁, m₃) := by
      unfold refill at hrefill ⊢
      split at hrefill
      · rename_i hshort
        rw [if_pos hshort]
        exact accumulate_memory hrefill m₂
      · rename_i hlong
        rw [Checked.pure_eq_ok, Prod.mk.injEq] at hrefill
        rw [if_neg hlong]
        exact ⟨m₂, congrArg Except.ok (Prod.ext hrefill.1 rfl)⟩
    obtain ⟨m₃, hrefill₂⟩ := hrefill₂
    split at h
    · simp at h
    · rename_i b₁ rest₁ hitems₁
      simp only [Checked.bind_eq_ok, Checked.pure_eq_ok, Prod.mk.injEq] at h
      obtain ⟨u₁, hreserve, u₂, haligned, rfl, rfl, -⟩ := h
      refine ⟨m₃, u, hready, v, hsize, ?_⟩
      refine ⟨p₁, m₃, hrefill₂, ?_⟩
      rw [hitems₁]
      simp only [Checked.bind_eq_ok]
      exact ⟨u₁, hreserve, u₂, haligned, rfl⟩

end InputPort

namespace BlockActor

/-- Every output port is settled. -/
def PortsSettled (b : BlockActor) : Prop :=
  ∀ o < b.numOutputs, (b.outputQueues o).Settled

/-- Every output port is in use. -/
def PortsInUse (b : BlockActor) : Prop :=
  ∀ o < b.numOutputs, (b.outputQueues o).InUse

/-- The reserves stay in their table, or the block has been marked done. -/
structure ReservesKept (b b' : BlockActor) : Prop where
  numOutputs : b'.numOutputs = b.numOutputs
  reserves : b'.blockState = .done ∨
    b'.blockState = b.blockState ∧
      ∀ o < b.numOutputs, (b'.outputQueues o).reserveBytes =
        (b.outputQueues o).reserveBytes

section Ports

variable {b b' b'' : BlockActor} {env : Env} {now : Int} {i o : Nat}

theorem ReservesKept.refl (b : BlockActor) : ReservesKept b b :=
  ⟨rfl, .inr ⟨rfl, fun _ _ => rfl⟩⟩

theorem ReservesKept.trans (h : ReservesKept b b') (h' : ReservesKept b' b'') :
    ReservesKept b b'' := by
  refine ⟨h'.numOutputs.trans h.numOutputs, ?_⟩
  rcases h'.reserves with hdone | ⟨hstate, hreserve⟩
  · exact .inl hdone
  · rcases h.reserves with hdone | ⟨hstate₁, hreserve₁⟩
    · exact .inl (hstate.trans hdone)
    · refine .inr ⟨hstate.trans hstate₁, fun o ho => ?_⟩
      exact (hreserve o (h.numOutputs ▸ ho)).trans (hreserve₁ o ho)

/-- One port is written, and its reserve stays. -/
theorem ReservesKept.update {p : OutputPort}
    (hstate : b'.blockState = b.blockState)
    (hnum : b'.numOutputs = b.numOutputs)
    (hout : b'.outputQueues = Function.update b.outputQueues i p)
    (hp : i < b.numOutputs → p.reserveBytes = (b.outputQueues i).reserveBytes) :
    ReservesKept b b' := by
  refine ⟨hnum, .inr ⟨hstate, fun o ho => ?_⟩⟩
  by_cases hoi : o = i
  · subst hoi
    rw [hout, Function.update_self, hp ho]
  · rw [hout, Function.update_of_ne hoi]

/-- The ports stay as they are. -/
theorem ReservesKept.of_eq (hstate : b'.blockState = b.blockState)
    (hnum : b'.numOutputs = b.numOutputs)
    (hout : b'.outputQueues = b.outputQueues) :
    ReservesKept b b' := ⟨hnum, .inr ⟨hstate, fun o _ => by rw [hout]⟩⟩

/-- One port is written: what holds of every port still does. -/
theorem forall_outputs_update {P : Nat → OutputPort → Prop} {p : OutputPort}
    (hb : ∀ o < b.numOutputs, P o (b.outputQueues o))
    (hnum : b'.numOutputs = b.numOutputs)
    (hout : b'.outputQueues = Function.update b.outputQueues i p)
    (hp : P i (b.outputQueues i) → P i p) :
    ∀ o < b'.numOutputs, P o (b'.outputQueues o) := by
  intro o ho
  rw [hnum] at ho
  by_cases hoi : o = i
  · subst hoi
    rw [hout, Function.update_self]
    exact hp (hb o ho)
  · rw [hout, Function.update_of_ne hoi]
    exact hb o ho

/-! ### `mark_done` -/

/-- **`mark_done`** flushes every port, unless the block was done before. -/
theorem markDone_outputs (h : b.markDone now = .ok b') :
    b' = b ∨ b'.blockState = .done ∧ b'.numOutputs = b.numOutputs ∧
      ∀ o < b.numOutputs, ∃ initTime,
      b'.outputQueues o = .resized initTime now := by
  have hstate := markDone_blockState h
  rcases markDone_control h with ⟨-, rfl⟩ | ⟨hlive, hcontrol⟩
  · exact .inl rfl
  · have hnum : b'.numOutputs = b.numOutputs :=
      congrArg Control.numOutputs hcontrol
    refine .inr ⟨hstate, hnum, fun o ho => ?_⟩
    obtain ⟨b₁, -, -, b₂, -, rfl⟩ := markDone_parts hlive h
    have ho₂ : o < b₂.numOutputs := hnum ▸ ho
    exact ⟨(b₂.outputQueues o).initTime, if_pos ho₂⟩

theorem markDone_reserves (h : b.markDone now = .ok b') :
    ReservesKept b b' := by
  rcases markDone_outputs h with rfl | ⟨hdone, hnum, -⟩
  · exact .refl b'
  · exact ⟨hnum, .inl hdone⟩

theorem PortsInUse.markDone (hb : b.PortsInUse) (h : b.markDone now = .ok b') :
    b'.PortsInUse := by
  rcases markDone_outputs h with rfl | ⟨-, hnum, hout⟩
  · exact hb
  · intro o ho
    obtain ⟨initTime, hport⟩ := hout o (hnum ▸ ho)
    exact hport ▸ OutputPort.inUse_resized initTime

theorem PortsSettled.markDone (hb : b.PortsSettled)
    (h : b.markDone now = .ok b') : b'.PortsSettled := by
  rcases markDone_outputs h with rfl | ⟨-, hnum, hout⟩
  · exact hb
  · intro o ho
    obtain ⟨initTime, hport⟩ := hout o (hnum ▸ ho)
    exact hport ▸ OutputPort.settled_resized initTime

/-! ### The calls of user code -/

/-- What another thread does to the ports: nothing. -/
theorem threadStep_outputs (b : BlockActor) (event : ThreadEvent) :
    (b.threadStep event).outputQueues = b.outputQueues ∧
      (b.threadStep event).numOutputs = b.numOutputs ∧
      (b.threadStep event).blockState = b.blockState := by
  cases event with
  | post m => rw [threadStep]; split <;> exact ⟨rfl, rfl, rfl⟩
  | prepare m => rw [threadStep]; split <;> exact ⟨rfl, rfl, rfl⟩
  | send k => rw [threadStep]; split <;> exact ⟨rfl, rfl, rfl⟩
  | release => exact ⟨rfl, rfl, rfl⟩
  | «return» => exact ⟨rfl, rfl, rfl⟩
  | configureInput i config => exact ⟨rfl, rfl, rfl⟩
  | configureOutput o config => exact ⟨rfl, rfl, rfl⟩

theorem taskKicker_outputs (b : BlockActor) :
    b.taskKicker.outputQueues = b.outputQueues ∧
      b.taskKicker.numOutputs = b.numOutputs ∧
      b.taskKicker.blockState = b.blockState := by
  unfold taskKicker
  split <;> exact ⟨rfl, rfl, rfl⟩

/-- What a call does to the output ports: nothing, `mark_done`, or an operation
on one port. -/
inductive OutputCall (now : Int) (b b' : BlockActor) : Call → Prop where
  | none {c : Call} (hout : b'.outputQueues = b.outputQueues)
      (hnum : b'.numOutputs = b.numOutputs)
        (hstate : b'.blockState = b.blockState) :
      OutputCall now b b' c
  | done {c : Call} (h : b.markDone now = .ok b') : OutputCall now b b' c
  | fail {o : Nat} {buff : SBuffer} {p : OutputPort}
      (hfront : (b.outputQueues o).front = .ok (buff, p))
      (hout : b'.outputQueues = Function.update b.outputQueues o (p.fail now))
      (hnum : b'.numOutputs = b.numOutputs)
        (hstate : b'.blockState = b.blockState) :
      OutputCall now b b' (.markOutputFail o)
  | setLength {c : Call} {o : Nat} {buff : SBuffer} {p : OutputPort}
    {length : Nat}
      (hfront : (b.outputQueues o).front = .ok (buff, p))
      (hout : b'.outputQueues =
        Function.update b.outputQueues o (p.setFront { buff with length }))
      (hnum : b'.numOutputs = b.numOutputs)
        (hstate : b'.blockState = b.blockState)
      (hwork : c.duringWork = true) : OutputCall now b b' c
  | post {o : Nat} {buffer buff : SBuffer} {p p' : OutputPort} {length : Nat}
      (hinline : (b.outputQueues o).setInline buffer = .ok p)
      (hfront : p.front = .ok (buff, p'))
      (hout : b'.outputQueues =
        Function.update b.outputQueues o (p'.setFront { buff with length }))
      (hnum : b'.numOutputs = b.numOutputs)
        (hstate : b'.blockState = b.blockState) :
      OutputCall now b b' (.postOutputBuffer o buffer)

/-- `produce` writes a length to the front. -/
theorem produce_outputs {items : Nat} (h : b.produce o items = .ok b') :
    ∃ buff p length, (b.outputQueues o).front = .ok (buff, p) ∧
      b'.outputQueues =
        Function.update b.outputQueues o (p.setFront { buff with length }) ∧
      b'.numOutputs = b.numOutputs ∧ b'.blockState = b.blockState := by
  simp only [produce, OutputPort.produce, Checked.bind_eq_ok,
    Checked.pure_eq_ok, Prod.exists] at h
  obtain ⟨_, ⟨buff, p, hfront, -, -, rfl⟩, rfl⟩ := h
  exact ⟨buff, p, _, hfront, rfl, rfl, rfl⟩

theorem call_outputs {c : Call} (h : b.call now c = .ok b') :
    OutputCall now b b' c := by
  cases c with
  | consume i items =>
      simp only [call, Checked.bind_eq_ok, Checked.pure_eq_ok] at h
      obtain ⟨-, -, rfl⟩ := h
      exact .none rfl rfl rfl
  | produce o items =>
      simp only [call, Checked.bind_eq_ok] at h
      obtain ⟨-, -, h⟩ := h
      obtain ⟨buff, p, length, hfront, hout, hnum, hstate⟩ := produce_outputs h
      exact .setLength hfront hout hnum hstate rfl
  | popInputMsg i =>
      rw [call, Checked.pure_eq_ok] at h
      subst h
      unfold popInputMsg
      split <;> exact .none rfl rfl rfl
  | postOutputTag o tag =>
      rw [call, Checked.pure_eq_ok] at h
      exact h ▸ .none rfl rfl rfl
  | postOutputMsg o msg =>
      rw [call, Checked.pure_eq_ok] at h
      exact h ▸ .none rfl rfl rfl
  | markInputFail i fresh =>
      simp only [call, inputFail] at h
      split at h
      · simp only [Checked.bind_eq_ok, Checked.pure_eq_ok, Prod.exists] at h
        obtain ⟨p, memory, -, rfl⟩ := h
        obtain ⟨hout, hnum, hstate⟩ :=
          taskKicker_outputs ({ b with memory }.setInput i p)
        exact .none hout hnum hstate
      · split at h
        · exact .done h
        · split at h
          · simp at h
          · rw [Checked.pure_eq_ok] at h
            exact h ▸ .none rfl rfl rfl
  | markOutputFail o =>
      simp only [call, outputFail, Checked.bind_eq_ok, Prod.exists] at h
      obtain ⟨buff, p, hfront, h⟩ := h
      split at h
      · simp at h
      · rw [Checked.pure_eq_ok] at h
        exact h ▸ .fail hfront rfl rfl rfl
  | markDone => exact .done h
  | getInputBuffer i fresh =>
      simp only [call, getInputBuffer, Checked.bind_eq_ok, Checked.pure_eq_ok,
        Prod.exists] at h
      obtain ⟨buff, p, memory, -, rfl⟩ := h
      exact .none rfl rfl rfl
  | getOutputBuffer o =>
      simp only [call, storeLength, Checked.bind_eq_ok, Checked.pure_eq_ok,
        Prod.exists] at h
      obtain ⟨buff, p, hfront, rfl⟩ := h
      exact .setLength hfront rfl rfl rfl rfl
  | popOutputBuffer o numBytes =>
      simp only [call, storeLength, Checked.bind_eq_ok, Checked.pure_eq_ok,
        Prod.exists] at h
      obtain ⟨buff, p, hfront, rfl⟩ := h
      exact .setLength hfront rfl rfl rfl rfl
  | postOutputBuffer o buffer =>
      simp only [call, postOutputBuffer, Checked.bind_eq_ok] at h
      obtain ⟨p, hinline, -, -, -, -, h⟩ := h
      obtain ⟨buff, p', length, hfront, hout, hnum, hstate⟩ := produce_outputs h
      rw [setOutput_outputQueues, Function.update_self] at hfront
      rw [setOutput_outputQueues, Function.update_idem] at hout
      exact .post hinline hfront hout hnum hstate
  | postInput i message =>
      rw [call, Checked.pure_eq_ok] at h
      exact h ▸ .none rfl rfl rfl
  | thread event =>
      rw [call, Checked.pure_eq_ok] at h
      obtain ⟨hout, hnum, hstate⟩ := threadStep_outputs b event
      exact h ▸ .none hout hnum hstate

/-- A call marks the block done, or keeps its state and the reserves. -/
theorem OutputCall.kept {c : Call} (h : OutputCall now b b' c) :
    b.markDone now = .ok b' ∨
    b'.blockState = b.blockState ∧ b'.numOutputs = b.numOutputs ∧
      ∀ o < b'.numOutputs, (b'.outputQueues o).reserveBytes =
        (b.outputQueues o).reserveBytes := by
  have hwritten : ∀ {o : Nat} {p : OutputPort}, b'.blockState = b.blockState →
      b'.numOutputs = b.numOutputs →
      b'.outputQueues = Function.update b.outputQueues o p →
      p.reserveBytes = (b.outputQueues o).reserveBytes →
      b'.blockState = b.blockState ∧ b'.numOutputs = b.numOutputs ∧
        ∀ o < b'.numOutputs, (b'.outputQueues o).reserveBytes =
          (b.outputQueues o).reserveBytes :=
    fun hstate hnum hout hp => ⟨hstate, hnum,
      forall_outputs_update
        (P := fun o p => p.reserveBytes = (b.outputQueues o).reserveBytes)
        (fun _ _ => rfl) hnum hout fun _ => hp⟩
  cases h with
  | none hout hnum hstate => exact .inr ⟨hstate, hnum, fun o _ => by rw [hout]⟩
  | done h => exact .inl h
  | fail hfront hout hnum hstate =>
      exact .inr (hwritten hstate hnum hout (OutputPort.front_keeps hfront).2.1)
  | setLength hfront hout hnum hstate hwork =>
      exact .inr (hwritten hstate hnum hout
        ((OutputPort.setFront_reserveBytes _ _).trans
          (OutputPort.front_keeps hfront).2.1))
  | post hinline hfront hout hnum hstate =>
      have hreserve := (OutputPort.front_keeps hfront).2.1
      rw [OutputPort.setInline_eq_ok hinline] at hreserve
      exact .inr (hwritten hstate hnum hout
        ((OutputPort.setFront_reserveBytes _ _).trans hreserve))

theorem OutputCall.reserves {c : Call} (h : OutputCall now b b' c) :
    ReservesKept b b' := by
  rcases h.kept with hdone | ⟨hstate, hnum, hreserves⟩
  · exact markDone_reserves hdone
  · exact ⟨hnum, .inr ⟨hstate, fun o ho => hreserves o (hnum ▸ ho)⟩⟩

/-- A port in use stays in use. -/
theorem OutputCall.inUse {c : Call} (hb : b.PortsInUse)
    (h : OutputCall now b b' c) : b'.PortsInUse := by
  cases h with
  | none hout hnum hstate => rwa [PortsInUse, hnum, hout]
  | done h => exact hb.markDone h
  | fail hfront hout hnum hstate =>
      exact forall_outputs_update
          (P := fun _ => OutputPort.InUse) hb hnum hout fun hp =>
        (hp.front hfront).fail
  | setLength hfront hout hnum hstate hwork =>
      exact forall_outputs_update
          (P := fun _ => OutputPort.InUse) hb hnum hout fun hp =>
        hp.setFront hfront _
  | post hinline hfront hout hnum hstate =>
      exact forall_outputs_update
          (P := fun _ => OutputPort.InUse) hb hnum hout fun hp =>
        (hp.setInline hinline).setFront hfront _

/-- Outside work a settled port stays settled. -/
theorem OutputCall.settled {c : Call} (hc : c.duringWork = false)
    (hb : b.PortsSettled) (h : OutputCall now b b' c) : b'.PortsSettled := by
  cases h with
  | none hout hnum hstate => rwa [PortsSettled, hnum, hout]
  | done h => exact hb.markDone h
  | fail hfront hout hnum hstate =>
      exact forall_outputs_update
          (P := fun _ => OutputPort.Settled) hb hnum hout fun hp =>
        (hp.front hfront).fail
  | setLength hfront hout hnum hstate hwork =>
      rw [hc] at hwork
      cases hwork
  | post hinline hfront hout hnum hstate => cases hc

/-! ### A task -/

/-- The ports stay in use, and the reserves in their table. -/
structure WorkKeeps (b b' : BlockActor) : Prop where
  reserves : ReservesKept b b'
  inUse : b.PortsInUse → b'.PortsInUse

theorem WorkKeeps.refl (b : BlockActor) : WorkKeeps b b := ⟨.refl b, fun h => h⟩

theorem WorkKeeps.trans (h : WorkKeeps b b') (h' : WorkKeeps b' b'') :
    WorkKeeps b b'' :=
  ⟨h.reserves.trans h'.reserves, fun hb => h'.inUse (h.inUse hb)⟩

theorem WorkKeeps.call {c : Call} (h : b.call now c = .ok b') :
    WorkKeeps b b' :=
  ⟨(call_outputs h).reserves, fun hb => (call_outputs h).inUse hb⟩

/-- Nothing of what counts changes. -/
theorem WorkKeeps.of_eq (hstate : b'.blockState = b.blockState)
    (hnum : b'.numOutputs = b.numOutputs)
    (hout : b'.outputQueues = b.outputQueues) :
    WorkKeeps b b' :=
  ⟨.of_eq hstate hnum hout, fun hb => by rwa [PortsInUse, hnum, hout]⟩

theorem WorkKeeps.of_start (h : WorkKeeps b' b'')
    (hstate : b'.blockState = b.blockState)
    (hnum : b'.numOutputs = b.numOutputs)
    (hout : b'.outputQueues = b.outputQueues) :
    WorkKeeps b b'' := (WorkKeeps.of_eq hstate hnum hout).trans h

theorem taskWork_keeps (h : b.taskWork env = .ok b') : WorkKeeps b b' := by
  simp only [taskWork, Checked.bind_eq_ok, Checked.pure_eq_ok] at h
  obtain ⟨b₁, hcalls, rfl⟩ := h
  have hcalled := calls_rule hcalls .refl .trans fun c _ s s' hc =>
    WorkKeeps.call hc
  have hstart : WorkKeeps b b₁ := hcalled.of_start rfl rfl rfl
  exact hstart.trans (.of_eq rfl rfl rfl)

theorem finishInput_keeps (h : b.finishInput env i = .ok b') :
    WorkKeeps b b' := by
  simp only [finishInput, Checked.bind_eq_ok, Checked.pure_eq_ok] at h
  obtain ⟨b₁, htags, b₂, hbuffs, b₃, havail, rfl⟩ := h
  have h₁ : WorkKeeps b b₁ := by
    simp only [trimTags] at htags
    split at htags
    · rw [Checked.pure_eq_ok] at htags
      exact htags ▸ .of_eq rfl rfl rfl
    · simp only [Checked.bind_eq_ok, Checked.pure_eq_ok] at htags
      obtain ⟨b₀, hpass, rfl⟩ := htags
      have hpassed :=
        passTags_rule hpass .refl .trans (fun s o t => .of_eq rfl rfl rfl)
        fun overload _ c _ s s' hc => WorkKeeps.call hc
      have hstart : WorkKeeps b b₀ := hpassed.of_start rfl rfl rfl
      exact hstart.trans (.of_eq rfl rfl rfl)
  have h₂ : WorkKeeps b₁ b₂ := by
    unfold trimBuffs at hbuffs
    split at hbuffs
    · rw [Checked.pure_eq_ok] at hbuffs
      exact hbuffs ▸ .refl b₁
    · simp only [Checked.bind_eq_ok, Checked.pure_eq_ok] at hbuffs
      obtain ⟨p, -, rfl⟩ := hbuffs
      exact .of_eq rfl rfl rfl
  have h₃ : WorkKeeps b₂ b₃ := by
    simp only [updateInputAvail, Checked.bind_eq_ok,
      Checked.pure_eq_ok] at havail
    obtain ⟨p, -, rfl⟩ := havail
    exact .of_eq rfl rfl rfl
  exact ((h₁.trans h₂).trans h₃).trans (.of_eq rfl rfl rfl)

/-- The ports before the `n`-th are settled, the others in use. -/
def FinishedTo (n : Nat) (b : BlockActor) : Prop :=
  ∀ o < b.numOutputs, (o < n → (b.outputQueues o).Settled) ∧
    (n ≤ o → (b.outputQueues o).InUse)

theorem finishOutput_finished {n : Nat} (hb : b.FinishedTo n)
    (h : b.finishOutput now n = .ok b') :
    b'.FinishedTo (n + 1) ∧ (n < b.numOutputs → ReservesKept b b') := by
  unfold finishOutput at h
  split at h
  · -- A port without a buffer has nothing to be dropped.
    rename_i hempty
    rw [Checked.pure_eq_ok] at h
    subst h
    refine ⟨fun o ho => ⟨fun hlt => ?_, fun hge => (hb o ho).2 (by omega)⟩,
      fun _ => .refl b⟩
    rcases Nat.lt_or_ge o n with hon | hon
    · exact (hb o ho).1 hon
    · have hon : o = n := by omega
      subst hon
      have hinline : (b.outputQueues o).inlineBuffer = none := by
        rw [OutputPort.empty, Bool.and_eq_true,
          Option.isNone_iff_eq_none] at hempty
        exact hempty.1
      exact ⟨hinline, fun _ => ((hb o ho).2 (Nat.le_refl o)).holds⟩
  · simp only [Checked.bind_eq_ok, Checked.pure_eq_ok, Prod.exists] at h
    obtain ⟨buff, p, hpost, rfl⟩ := h
    -- What is posted and counted leaves the ports alone.
    have hports : ∀ s : BlockActor, s.numOutputs = b.numOutputs →
        s.outputQueues = Function.update b.outputQueues n p →
        s.blockState = b.blockState →
        s.FinishedTo (n + 1) ∧ (n < b.numOutputs → ReservesKept b s) := by
      intro s hnum hout hstate
      constructor
      · intro o ho
        rw [hnum] at ho
        by_cases hon : o = n
        · subst hon
          rw [hout, Function.update_self]
          exact ⟨fun _ => (((hb o ho).2 (Nat.le_refl o)).post hpost).1,
            fun hge => by omega⟩
        · rw [hout, Function.update_of_ne hon]
          exact ⟨fun hlt => (hb o ho).1 (by omega),
            fun hge => (hb o ho).2 (by omega)⟩
      · intro hn
        exact .update hstate hnum hout fun _ =>
          (((hb n hn).2 (Nat.le_refl n)).post hpost).2
    split
    · exact hports _ rfl rfl rfl
    · exact hports _ rfl rfl rfl

/-- **After a work** every port is settled again. -/
theorem finish_settled (hb : b.PortsInUse) (h : b.finish env = .ok b') :
    b'.PortsSettled ∧ ReservesKept b b' := by
  simp only [finish, Checked.bind_eq_ok] at h
  obtain ⟨b₁, hin, hout⟩ := h
  have hkeeps : WorkKeeps b b₁ :=
    forRange_relates hin WorkKeeps.refl WorkKeeps.trans
    fun i _ s s' hf => finishInput_keeps hf
  have hb₁ := hkeeps.inUse hb
  have hloop := forRange_rule hout
    (P := fun n s => s.FinishedTo n ∧ ReservesKept b₁ s)
    ⟨fun o ho =>
      ⟨fun hlt => absurd hlt (Nat.not_lt_zero o), fun _ => hb₁ o ho⟩, .refl b₁⟩
    fun n hn s s' hs hf => by
      obtain ⟨hfinished, hreserves⟩ := finishOutput_finished hs.1 hf
      exact ⟨hfinished, hs.2.trans (hreserves (hs.2.numOutputs ▸ hn))⟩
  refine ⟨fun o ho => (hloop.1 o ho).1 ?_, hkeeps.reserves.trans hloop.2⟩
  rw [← hloop.2.numOutputs]
  exact ho

/-! ### Before the work -/

theorem sortTags_keeps (i : Nat) (b : BlockActor) :
    (b.sortTags i).outputQueues = b.outputQueues ∧
      (b.sortTags i).inputQueues = b.inputQueues ∧
      (b.sortTags i).memory = b.memory ∧
      (b.sortTags i).numOutputs = b.numOutputs ∧
      (b.sortTags i).inputConfigs = b.inputConfigs ∧
      (b.sortTags i).globalConfig = b.globalConfig ∧
      (b.sortTags i).blockState = b.blockState := by
  unfold sortTags
  split <;> exact ⟨rfl, rfl, rfl, rfl, rfl, rfl, rfl⟩

/-- The front buffer of an input port, if it may be inlined. -/
def inlinable (env : Env) (b : BlockActor) (i : Nat) : Option SBuffer :=
  match (b.inputQueues i).front (env.fresh i) b.memory with
  | .error _ => none
  | .ok (buff, _, _) =>
      if env.bufferUnique buff ∧ (b.inputConfigs i).inlineBuffer ∧
          buff.getAffinity = b.globalConfig.bufferAffinity then some buff
      else none

/-- The output port it goes to: one for each input port before it. -/
def inlineTarget (env : Env) (b : BlockActor) (i : Nat) : Nat :=
  ((List.range i).filter fun j => (b.inlinable env j).isSome).length

/-- An input buffer that is inlined holds what the output port asks for. -/
def InlineFits (env : Env) (need : Nat → Nat) (b : BlockActor) : Prop :=
  ∀ i < b.numInputs, ∀ buff ∈ b.inlinable env i,
    b.inlineTarget env i < b.numOutputs →
    need (b.inlineTarget env i) ≤ buff.room

instance (env : Env) (need : Nat → Nat) (b : BlockActor) :
    Decidable (b.InlineFits env need) :=
  inferInstanceAs
    (Decidable (∀ i < b.numInputs, ∀ buff ∈ b.inlinable env i, _ → _))

theorem inlineTarget_succ_some {buff : SBuffer}
    (h : b.inlinable env i = some buff) :
    b.inlineTarget env (i + 1) = b.inlineTarget env i + 1 := by
  simp [inlineTarget, List.range_succ, h]

theorem inlineTarget_succ_none (h : b.inlinable env i = none) :
    b.inlineTarget env (i + 1) = b.inlineTarget env i := by
  simp [inlineTarget, List.range_succ, h]

/-- Before the `i`-th input is prepared: what decides about inlining is as it
was. -/
structure Inlining (env : Env) (b : BlockActor) (i : Nat) (s : BlockActor)
    (k : Nat) : Prop where
  queues : ∀ j, i ≤ j → s.inputQueues j = b.inputQueues j
  configs : s.inputConfigs = b.inputConfigs
  globalConfig : s.globalConfig = b.globalConfig
  numOutputs : s.numOutputs = b.numOutputs
  index : k = min (b.inlineTarget env i) b.numOutputs

/-- What the preparation of a port finds in front is what was there before the
task. -/
theorem Inlining.inlinable {s : BlockActor} {k : Nat} {buff : SBuffer}
    {p : InputPort} {memory : Memory} (hs : Inlining env b i s k)
    (hfront : (s.inputQueues i).front (env.fresh i) s.memory =
      .ok (buff, p, memory)) :
    b.inlinable env i =
      if env.bufferUnique buff ∧ (s.inputConfigs i).inlineBuffer ∧
          buff.getAffinity = s.globalConfig.bufferAffinity then some buff
      else none := by
  rw [hs.queues i (Nat.le_refl i)] at hfront
  obtain ⟨memory', hfront'⟩ := InputPort.front_memory hfront b.memory
  rw [BlockActor.inlinable, hfront', hs.configs, hs.globalConfig]

/-- The buffer that is inlined in that round is one that fits. -/
theorem Inlining.fits {need : Nat → Nat} {s : BlockActor} {k : Nat}
    (hs : Inlining env b i s k)
    (hfits : ∀ buff ∈ b.inlinable env i, b.inlineTarget env i < b.numOutputs →
      need (b.inlineTarget env i) ≤ buff.room)
    (buff : SBuffer) (p : InputPort) (memory : Memory)
    (hfront : (s.inputQueues i).front (env.fresh i) s.memory =
      .ok (buff, p, memory))
    (hunique : env.bufferUnique buff = true)
    (hconfig : (s.inputConfigs i).inlineBuffer = true)
    (hk : k < s.numOutputs)
    (haffinity : buff.getAffinity = s.globalConfig.bufferAffinity) :
    need k ≤ buff.room := by
  have hinlinable := hs.inlinable hfront
  rw [if_pos ⟨hunique, hconfig, haffinity⟩] at hinlinable
  have hindex := hs.index
  have hnum := hs.numOutputs
  have htarget : b.inlineTarget env i = k := by omega
  exact htarget ▸ hfits buff hinlinable (by omega)

theorem Inlining.next {s s' : BlockActor} {k k' : Nat}
    (hs : Inlining env b i s k) (h : prepareInput env i (s, k) = .ok (s', k')) :
    Inlining env b (i + 1) s' k' := by
  obtain ⟨-, hin, hmemory, hnum, hconfigs, hglobal, -⟩ := sortTags_keeps i s
  simp only [prepareInput, Checked.bind_eq_ok, Prod.exists] at h
  obtain ⟨-, -, buff, p, memory, hfront, h⟩ := h
  rw [hin, hmemory] at hfront
  have hinlinable := hs.inlinable hfront
  have hindex := hs.index
  have hnum₀ := hs.numOutputs
  split at h
  · rename_i hinlined
    simp only [Checked.bind_eq_ok, Checked.pure_eq_ok, Prod.mk.injEq] at h
    obtain ⟨q, -, hs', rfl⟩ := h
    obtain ⟨hunique, hconfig, hk, haffinity⟩ := hinlined
    replace hk : k < s.numOutputs := hnum ▸ hk
    rw [if_pos ⟨hunique, hconfigs ▸ hconfig, hglobal ▸ haffinity⟩] at hinlinable
    have hsucc := inlineTarget_succ_some hinlinable
    refine ⟨fun j hj => ?_, ?_, ?_, ?_, by omega⟩
    · rw [← hs']
      exact (Function.update_of_ne (by omega) _ _).trans
        ((congrFun hin j).trans (hs.queues j (by omega)))
    · rw [← hs']
      exact hconfigs.trans hs.configs
    · rw [← hs']
      exact hglobal.trans hs.globalConfig
    · rw [← hs']
      exact hnum.trans hs.numOutputs
  · rename_i hkept
    simp only [Checked.pure_eq_ok, Prod.mk.injEq] at h
    obtain ⟨hs', rfl⟩ := h
    refine ⟨fun j hj => ?_, ?_, ?_, ?_, ?_⟩
    · rw [← hs']
      exact (Function.update_of_ne (by omega) _ _).trans
        ((congrFun hin j).trans (hs.queues j (by omega)))
    · rw [← hs']
      exact hconfigs.trans hs.configs
    · rw [← hs']
      exact hglobal.trans hs.globalConfig
    · rw [← hs']
      exact hnum.trans hs.numOutputs
    · cases hcase : b.inlinable env i with
      | none => rw [inlineTarget_succ_none hcase, hindex]
      | some buff' =>
          -- Only for want of an output port.
          have hsucc := inlineTarget_succ_some hcase
          rw [hcase] at hinlinable
          have hk : ¬ k < s.numOutputs := by
            intro hk
            split at hinlinable
            · rename_i hinlined
              obtain ⟨hunique, hconfig, haffinity⟩ := hinlined
              exact hkept ⟨hunique, hconfigs.symm ▸ hconfig, hnum.symm ▸ hk,
                hglobal.symm ▸ haffinity⟩
            · cases hinlinable
          omega

/-- A port while the inputs are prepared: an unused front has the reserve, and
an inline buffer has what is needed, which is no more than the reserve. -/
structure Prepared (need : Nat) (p : OutputPort) : Prop where
  reserve : need ≤ p.reserveBytes
  holds : p.QueueHolds
  inline : ∀ buff, p.inlineBuffer = some buff → need ≤ buff.room

/-- What a port offers to work: a buffer with the bytes that are needed, in
items of the port's size. -/
structure Offers (need : Nat) (o : Nat) (b : BlockActor)
    (buff : SBuffer) : Prop where
  front : ∃ p, (b.outputQueues o).front = .ok (buff, p)
  needed : need ≤ buff.room
  mem : b.outputItems.mem o = buff.get 0
  size : b.outputItems.size o = buff.room / (b.outputConfigs o).itemSize

theorem prepareInput_prepared {need : Nat → Nat} {k k' : Nat}
    (hfits : ∀ buff p memory,
      (b.inputQueues i).front (env.fresh i) b.memory = .ok (buff, p, memory) →
      env.bufferUnique buff = true → (b.inputConfigs i).inlineBuffer = true →
      k < b.numOutputs → buff.getAffinity = b.globalConfig.bufferAffinity →
      need k ≤ buff.room)
    (hb : ∀ o < b.numOutputs, Prepared (need o) (b.outputQueues o))
    (h : prepareInput env i (b, k) = .ok (b', k')) :
    b'.numOutputs = b.numOutputs ∧
      (∀ o < b'.numOutputs, Prepared (need o) (b'.outputQueues o)) ∧
      ReservesKept b b' := by
  obtain ⟨hout, hin, hmemory, hnum, hconfigs, hglobal, hstate⟩ :=
    sortTags_keeps i b
  simp only [prepareInput, Checked.bind_eq_ok, Prod.exists] at h
  obtain ⟨-, -, buff, p, memory, hfront, h⟩ := h
  rw [hin, hmemory] at hfront
  split at h
  · rename_i hinlined
    simp only [Checked.bind_eq_ok, Checked.pure_eq_ok, Prod.mk.injEq] at h
    obtain ⟨q, hset, hb', -⟩ := h
    obtain ⟨hunique, hconfig, hk, haffinity⟩ := hinlined
    replace hset : (b.outputQueues k).setInline buff = .ok q := hout ▸ hset
    have hport := OutputPort.setInline_eq_ok hset
    have hneed :=
      hfits buff p memory hfront hunique (hconfigs ▸ hconfig) (hnum ▸ hk)
      (hglobal ▸ haffinity)
    have hstate' : b'.blockState = b.blockState := by rw [← hb']; exact hstate
    have hnum' : b'.numOutputs = b.numOutputs := by rw [← hb']; exact hnum
    have hout' : b'.outputQueues = Function.update b.outputQueues k q := by
      rw [← hb', ← hout]
      rfl
    refine ⟨hnum',
      forall_outputs_update (P := fun o => Prepared (need o)) hb hnum' hout'
      fun hp => ⟨?_, ?_, ?_⟩, .update hstate' hnum' hout' fun _ =>
        by rw [hport]⟩
    · rw [hport]
      exact hp.reserve
    · rw [hport]
      exact hp.holds
    · intro buff' hbuff'
      rw [hport] at hbuff'
      cases hbuff'
      exact hneed
  · simp only [Checked.pure_eq_ok, Prod.mk.injEq] at h
    obtain ⟨rfl, -⟩ := h
    exact ⟨hnum, fun o ho => hout ▸ hb o (hnum ▸ ho), .of_eq hstate hnum hout⟩

/-- The ports before the `n`-th offer what is needed. -/
structure PreparedTo (need : Nat → Nat) (n : Nat) (b : BlockActor) : Prop where
  prepared : ∀ o < b.numOutputs, Prepared (need o) (b.outputQueues o)
  inUse : ∀ o < b.numOutputs, o < n → (b.outputQueues o).InUse
  offers : ∀ o < b.numOutputs, o < n → ∃ buff, Offers (need o) o b buff

theorem prepareOutput_prepared {need : Nat → Nat} {n : Nat}
    (hn : n < b.numOutputs) (hb : b.PreparedTo need n)
    (h : b.prepareOutput n = .ok b') :
    b'.PreparedTo need (n + 1) ∧ ReservesKept b b' := by
  simp only [prepareOutput, Checked.bind_eq_ok, Checked.pure_eq_ok, Prod.exists,
    assertThat_eq_ok] at h
  obtain ⟨-, -, buff, p, hfront, -, hunused, rfl⟩ := h
  obtain ⟨hinline, hreserve, -, hqueue⟩ := OutputPort.front_keeps hfront
  have hport := hb.prepared n hn
  have hprepared : Prepared (need n) p := by
    refine ⟨hreserve ▸ hport.reserve, fun b' hb' hlength => ?_,
      fun b' hb' => ?_⟩
    · rw [hreserve]
      exact hport.holds b' (hqueue b' hb') hlength
    · exact hport.inline b' (hinline ▸ hb')
  have hinUse : p.InUse := by
    refine ⟨hprepared.holds, fun hnone b' hb' => hprepared.holds b' hb' ?_⟩
    -- The front that was looked at is the one that was found unused.
    rcases OutputPort.front_cases hfront with ⟨hsome, -⟩ | ⟨-, hb₀, -⟩
    · exact absurd ((hinline ▸ hnone).symm.trans hsome) (by simp)
    · rw [(hqueue b' hb').eq hb₀]
      exact hunused
  have hneeded : need n ≤ buff.room := by
    rcases OutputPort.front_cases hfront with ⟨hsome, -⟩ | ⟨-, hb₀, -⟩
    · exact hport.inline buff hsome
    · exact Nat.le_trans hport.reserve (hport.holds buff hb₀ hunused)
  refine ⟨⟨?_, fun o ho hlt => ?_, fun o ho hlt => ?_⟩,
    .update rfl rfl rfl fun _ => hreserve⟩
  · exact forall_outputs_update
      (P := fun o => Prepared (need o)) hb.prepared rfl rfl
      fun _ => hprepared
  · by_cases hon : o = n
    · subst hon
      rw [setOutput_outputQueues, Function.update_self]
      exact hinUse
    · rw [setOutput_outputQueues, Function.update_of_ne hon]
      exact hb.inUse o ho (by omega)
  · by_cases hon : o = n
    · subst hon
      refine ⟨buff, ⟨p, ?_⟩, hneeded, Function.update_self ..,
        Function.update_self ..⟩
      rw [setOutput_outputQueues, Function.update_self]
      exact OutputPort.front_front hfront
    · obtain ⟨buff', ⟨p', hfront'⟩, hneed', hmem', hsize'⟩ :=
        hb.offers o ho (by omega)
      refine ⟨buff', ⟨p', ?_⟩, hneed', ?_, ?_⟩
      · rw [setOutput_outputQueues, Function.update_of_ne hon]
        exact hfront'
      · exact (Function.update_of_ne hon _ _).trans hmem'
      · exact (Function.update_of_ne hon _ _).trans hsize'

/-- **Before a work** every port offers what is needed. -/
theorem prepare_offers {need : Nat → Nat} (hready : b.outputsReady = true)
    (hfits : b.InlineFits env need) (hb : b.PortsSettled)
    (hneed : ∀ o < b.numOutputs, need o ≤ (b.outputQueues o).reserveBytes)
    (h : b.prepare env = .ok b') :
    ReservesKept b b' ∧ b'.PortsInUse ∧
      ∀ o < b'.numOutputs, ∃ buff, Offers (need o) o b' buff := by
  simp only [prepare, Checked.bind_eq_ok, Prod.exists] at h
  obtain ⟨b₁, k, hin, hout⟩ := h
  have hbits := outputsReady_iff.mp hready
  have hstart : ∀ o < b.numOutputs,
      Prepared (need o) (b.outputQueues o) := fun o ho =>
    ⟨hneed o ho, (hb o ho).holds (hbits o ho), fun buff hbuff =>
      absurd ((hb o ho).inline.symm.trans hbuff) (by simp)⟩
  -- The inputs.
  have hloop := forRange_rule hin
    (P := fun i s => Inlining env b i s.1 s.2 ∧
      (∀ o < s.1.numOutputs, Prepared (need o) (s.1.outputQueues o)) ∧
      ReservesKept b s.1)
    ⟨⟨fun _ _ => rfl, rfl, rfl, rfl, (Nat.zero_min _).symm⟩, hstart,
      .of_eq rfl rfl rfl⟩
    fun i hi s s' hs hf => by
      obtain ⟨-, hprepared, hreserves⟩ :=
        prepareInput_prepared (hs.1.fits (hfits i hi)) hs.2.1 hf
      exact ⟨hs.1.next hf, hprepared, hs.2.2.trans hreserves⟩
  obtain ⟨-, hprepared₁, hreserves₁⟩ := hloop
  -- The outputs.
  have hloop := forRange_rule hout
    (P := fun n s => s.PreparedTo need n ∧ ReservesKept b₁ s)
    ⟨⟨hprepared₁, fun o _ hlt => absurd hlt (Nat.not_lt_zero o),
      fun o _ hlt => absurd hlt (Nat.not_lt_zero o)⟩, .of_eq rfl rfl rfl⟩
    fun n hn s s' hs hf => by
      obtain ⟨hprepared, hreserves⟩ :=
        prepareOutput_prepared (hs.2.numOutputs ▸ hn) hs.1 hf
      exact ⟨hprepared, hs.2.trans hreserves⟩
  obtain ⟨hto, hreserves₂⟩ := hloop
  have hnum : b'.numOutputs = b₁.numOutputs := hreserves₂.numOutputs
  exact ⟨hreserves₁.trans hreserves₂,
      fun o ho => hto.inUse o ho (hnum ▸ ho), fun o ho =>
    hto.offers o ho (hnum ▸ ho)⟩

/-- **A task** leaves the ports settled. -/
theorem taskMain_settled {need : Nat → Nat}
    (hfits : b.isWorkAllowed = true → b.InlineFits env need)
    (hb : b.PortsSettled) (hneed : b.blockState = .live →
      ∀ o < b.numOutputs, need o ≤ (b.outputQueues o).reserveBytes)
    (h : b.taskMain env = .ok b') : b'.PortsSettled ∧ ReservesKept b b' := by
  by_cases hallowed : b.isWorkAllowed = true
  · obtain ⟨b₁, b₂, b₃, hprepare, hwork, hfinish, rfl⟩ :=
      taskMain_parts hallowed h
    obtain ⟨hlive, -, -, hready⟩ :=
      isReady_iff.mp (isWorkAllowed_iff.mp hallowed).2
    obtain ⟨hreserves₁, hinUse, -⟩ :=
      prepare_offers hready (hfits hallowed) hb (hneed hlive) hprepare
    have hkeeps := taskWork_keeps hwork
    obtain ⟨hsettled, hreserves₃⟩ :=
      finish_settled (hkeeps.inUse hinUse) hfinish
    obtain ⟨hout, hnum, hstate⟩ := taskKicker_outputs b₃
    refine ⟨?_, ((hreserves₁.trans hkeeps.reserves).trans hreserves₃).trans
      (.of_eq hstate hnum hout)⟩
    rwa [PortsSettled, hnum, hout]
  · rw [taskMain_idle (by simpa using hallowed) h]
    exact ⟨hb, .refl b⟩

end Ports

/-! ## Handlers -/

section Handlers

variable {b b' : BlockActor} {env : Env} {i : Nat} {m : Message}

theorem settled_of_eq (hb : b.PortsSettled)
    (hnum : b'.numOutputs = b.numOutputs)
    (hout : b'.outputQueues = b.outputQueues) : b'.PortsSettled := by
  rwa [PortsSettled, hnum, hout]

/-- One settled port is replaced by another with the same reserve. -/
theorem settled_update {p : OutputPort} (hb : b.PortsSettled)
    (hp : (b.outputQueues i).Settled →
      p.Settled ∧ p.reserveBytes = (b.outputQueues i).reserveBytes)
    (hnum : b'.numOutputs = b.numOutputs)
    (hstate : b'.blockState = b.blockState)
    (hout : b'.outputQueues = Function.update b.outputQueues i p) :
    b'.PortsSettled ∧ ReservesKept b b' :=
  ⟨forall_outputs_update (P := fun _ => OutputPort.Settled) hb hnum hout
    fun h => (hp h).1, .update hstate hnum hout fun hi => (hp (hb i hi)).2⟩

theorem enter_settled {store : Checked BlockActor} {b₀ : BlockActor}
    (hb : b.PortsSettled) (henter : b.enter env m = some store)
    (hstore : store = .ok b₀) : b₀.PortsSettled ∧ ReservesKept b b₀ := by
  cases m with
  | input i message =>
      have hsame : ∀ s : BlockActor, s.blockState = b.blockState →
          s.numOutputs = b.numOutputs →
          s.outputQueues = b.outputQueues → s.PortsSettled ∧ ReservesKept b s :=
        fun s hstate hnum hout =>
          ⟨settled_of_eq hb hnum hout, .of_eq hstate hnum hout⟩
      cases message with
      | msg msg =>
          simp only [enter] at henter
          split at henter
          · cases henter
          · cases henter
            simp only [storeInputMsg, updateInputAvail, Checked.bind_eq_ok,
              Checked.pure_eq_ok] at hstore
            obtain ⟨p, -, rfl⟩ := hstore
            exact hsame _ rfl rfl rfl
      | buffer buffer =>
          simp only [enter] at henter
          split at henter
          · cases henter
          · cases henter
            simp only [storeInputBuffer, updateInputAvail, Checked.bind_eq_ok,
              Checked.pure_eq_ok] at hstore
            obtain ⟨p, -, q, -, rfl⟩ := hstore
            exact hsame _ rfl rfl rfl
      | check =>
          cases henter
          rw [Checked.pure_eq_ok] at hstore
          exact hstore ▸ hsame _ rfl rfl rfl
      | _ => cases henter
  | output i message =>
      cases message with
      | buffer buffer =>
          simp only [enter] at henter
          split at henter
          · cases henter
          · cases henter
            simp only [storeOutputBuffer, Checked.bind_eq_ok,
              Checked.pure_eq_ok] at hstore
            obtain ⟨p, hpush, rfl⟩ := hstore
            exact settled_update hb (fun hp => hp.push hpush) rfl rfl rfl
      | _ => cases henter
  | selfKick =>
      cases henter
      rw [Checked.pure_eq_ok] at hstore
      exact hstore ▸ ⟨hb, .refl b⟩
  | _ => cases henter

theorem handleInputUpdate_outputs (h : b.handleInputUpdate env i = .ok b') :
    b'.outputQueues = b.outputQueues := by
  unfold handleInputUpdate at h
  split at h
  · rw [Checked.pure_eq_ok] at h
    rw [h]
  · simp only [updateInputAvail, Checked.bind_eq_ok, Checked.pure_eq_ok,
      Prod.exists] at h
    obtain ⟨p, memory, -, q, -, rfl⟩ := h
    rfl

theorem handleTopAlloc_settled {sender : Option Address} (hb : b.PortsSettled)
    (h : b.handleTopAlloc env sender = .ok b') :
    b'.PortsSettled ∧ ReservesKept b b' := by
  simp only [handleTopAlloc, Checked.bind_eq_ok, Checked.pure_eq_ok] at h
  obtain ⟨b₁, hloop, rfl⟩ := h
  have hloop :=
    forRange_rule hloop (P := fun _ s => s.PortsSettled ∧ ReservesKept b s)
    ⟨hb, .refl b⟩ fun i _ s s' hs hf => by
      obtain ⟨config, p, hset, hs'⟩ := allocateOutput_cases hf
      have hnum : s'.numOutputs = s.numOutputs := by rw [hs']
      have hstate : s'.blockState = s.blockState := by rw [hs']
      have hout : s'.outputQueues =
          Function.update s.outputQueues i p := by rw [hs']
      obtain ⟨hsettled, hreserves⟩ :=
        settled_update hs.1 (fun hp => hp.setBufferQueue hset) hnum hstate hout
      exact ⟨hsettled, hs.2.trans hreserves⟩
  cases sender with
  | none => exact hloop
  | some a => exact ⟨settled_of_eq hloop.1 rfl rfl, hloop.2.trans (.of_eq rfl rfl rfl)⟩

/-- **Every handler** but that of an update keeps the ports settled and the
reserves in their table; one that activates the block leaves the ports alone. -/
theorem handled_settled {need : Nat → Nat} (henv : env.Proper)
    (hb : b.PortsSettled) (hneed : b.blockState = .live →
      ∀ o < b.numOutputs, need o ≤ (b.outputQueues o).reserveBytes)
    (hfits : ∀ b₀, b.enter env m = some (.ok b₀) → b₀.isWorkAllowed = true →
      b₀.InlineFits env need)
    (hm : ∀ i, m ≠ .output i .update)
    (hactive : ∀ prio sender, m ≠ .top .active prio sender)
    (h : Handled env b m b') : b'.PortsSettled ∧ ReservesKept b b' := by
  cases h with
  | @task m store b₀ b₁ b' henter hstore htask hleave =>
      subst hstore
      obtain ⟨hb₀, hreserves₀⟩ := enter_settled hb henter rfl
      obtain ⟨hb₁, hreserves₁⟩ := taskMain_settled (hfits _ henter) hb₀
          (fun hlive o ho => by
        rcases hreserves₀.reserves with hdone | ⟨hstate, hreserve⟩
        · rw [hdone] at hlive
          cases hlive
        · rw [hreserves₀.numOutputs] at ho
          rw [hreserve o ho]
          exact hneed (hstate ▸ hlive) o ho) htask
      have hleft : b'.PortsSettled ∧ ReservesKept b₁ b' := by
        unfold leave at hleave
        split at hleave
        · split at hleave
          · exact ⟨hb₁.markDone hleave, markDone_reserves hleave⟩
          · rw [Checked.pure_eq_ok] at hleave
            exact hleave ▸ ⟨hb₁, .refl _⟩
        · rw [Checked.pure_eq_ok] at hleave
          exact hleave ▸ ⟨hb₁, .refl _⟩
      exact ⟨hleft.1, (hreserves₀.trans hreserves₁).trans hleft.2⟩
  | tag i tag hstate =>
      unfold handleInputTag
      rw [if_neg hstate]
      exact ⟨settled_of_eq hb rfl rfl, .of_eq rfl rfl rfl⟩
  | inputUpdate h =>
      have hcontrol := handleInputUpdate_control h
      have hnum : b'.numOutputs = b.numOutputs :=
        congrArg Control.numOutputs hcontrol
      have hstate : b'.blockState = b.blockState :=
        congrArg Control.blockState hcontrol
      have hout := handleInputUpdate_outputs h
      exact ⟨settled_of_eq hb hnum hout, .of_eq hstate hnum hout⟩
  | outputUpdate h => exact absurd rfl (hm _)
  | outputAlloc h =>
      simp only [handleOutputAlloc, Checked.bind_eq_ok, Checked.pure_eq_ok] at h
      obtain ⟨p, hset, rfl⟩ := h
      exact settled_update hb (fun hp => hp.setBufferQueue hset) rfl rfl rfl
  | topAlloc h => exact handleTopAlloc_settled hb h
  | @outputsDone i b' hdone h =>
      have hb₀ : (b.recheckOutput env i).PortsSettled :=
        settled_of_eq hb rfl rfl
      have hkept : ReservesKept b (b.recheckOutput env i) := .of_eq rfl rfl rfl
      exact ⟨hb₀.markDone h, hkept.trans (markDone_reserves h)⟩
  | @inert prio sender b₁ h =>
      have hb₁ := hb.markDone h
      have hkept := markDone_reserves h
      cases sender with
      | none => exact ⟨hb₁, hkept⟩
      | some a => exact ⟨settled_of_eq hb₁ rfl rfl, hkept.trans (.of_eq rfl rfl rfl)⟩
  | active => exact absurd rfl (hactive _ _)
  | callable =>
      have hcalls := attempt_rule env.called b
        (R := fun s s' => (s.PortsSettled → s'.PortsSettled) ∧
          ReservesKept s s')
        (fun s => ⟨fun h => h, .refl s⟩)
        (fun h h' => ⟨fun hs => h'.1 (h.1 hs), h.2.trans h'.2⟩)
        (fun c hc s s' hcall =>
          ⟨fun hs => (call_outputs hcall).settled (henv.called c hc) hs,
          (call_outputs hcall).reserves⟩ : ∀ c ∈ env.called, ∀ s s',
            s.call env.now c = .ok s' →
            (s.PortsSettled → s'.PortsSettled) ∧ ReservesKept s s')
      exact ⟨settled_of_eq (hcalls.1 hb) rfl rfl,
        hcalls.2.trans (.of_eq rfl rfl rfl)⟩
  | quiet hstate hdata =>
      have hnum : b'.numOutputs = b.numOutputs :=
        congrArg Data.numOutputs hdata.data
      have hout : b'.outputQueues = b.outputQueues :=
        congrArg Data.outputQueues hdata.data
      exact ⟨settled_of_eq hb hnum hout, .of_eq hstate hnum hout⟩

end Handlers

end BlockActor

end Gras
