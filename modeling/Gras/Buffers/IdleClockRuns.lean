import Gras.Lib.TransitionSystem
import Gras.Lib.ForRange
import Gras.Buffers.IdleClock

/-!
# The idle times over whole runs

`InputBufferQueues` and `OutputBufferQueues` with all their ports under one
clock, which each call of `time_now()` moves on for all of them.  Whatever is
done to the ports, the spans that have been added to the idle time of a port
follow each other, all of them since the queues were made; so the `ASSERT` on
the idle times never fails.

An index that is out of range is undefined in the source, and a run ends there.
-/

namespace Gras

open Metered

/-- The ports of a block, with what the clock has been read for. -/
structure MeteredPorts (P : Type) where
  size : Nat
  port : Nat → P
  /-- What has been added to `total_idle_times[i]`. -/
  added : Nat → List (Span Int)
  initTime : Int
  reads : Nat

namespace MeteredPorts

variable {P : Type}

/-- No ports yet: the constructor has read the clock once. -/
def made (clock : Nat → Int) (port : P) : MeteredPorts P where
  size := 0
  port := fun _ => port
  added := fun _ => []
  initTime := clock 0
  reads := 1

/-- An operation on one port. -/
def onPort (i : Nat) (op : P → Metered P) (s : MeteredPorts P) :
    Checked (MeteredPorts P) :=
  if i < s.size then do
    let (p, m) ← op (s.port i) ⟨s.reads, s.added i⟩
    return { s with
      port := Function.update s.port i p
      added := Function.update s.added i m.added
      reads := m.reads }
  else throw (.nullPointer "_queues[i]")

/-- `resize(size)`, which reads the clock for the ports it may add. -/
def resize (clock : Nat → Int) (resized : Int → Int → P) (size : Nat)
    (s : MeteredPorts P) : MeteredPorts P where
  size := size
  port := fun i => if i < s.size then s.port i
    else resized s.initTime (clock s.reads)
  added := fun i => if i < s.size then s.added i else []
  initTime := s.initTime
  reads := s.reads + 1

/-- Every port is accounted for. -/
structure Sound (clock : Nat → Int) (times : P → IdleTimes)
    (s : MeteredPorts P) : Prop where
  init : s.initTime ≤ clock s.reads
  ports : ∀ i < s.size, (times (s.port i)).init = s.initTime ∧
    Accounted clock (times (s.port i)) ⟨s.reads, s.added i⟩

/-- What has been added to the idle time of a port: spans of which no two
overlap, all since the queues were made, and together no longer than that. -/
structure TimesFit (clock : Nat → Int) (times : P → IdleTimes)
    (s : MeteredPorts P) : Prop where
  disjoint : ∀ i < s.size, (s.added i).Pairwise fun a b =>
    Disjoint a.times b.times
  since : ∀ i < s.size, ∀ a ∈ s.added i, s.initTime ≤ a.start ∧ a.start ≤ a.stop
  total : ∀ i < s.size, (times (s.port i)).total = Span.total (s.added i)
  fits : ∀ i < s.size, (times (s.port i)).total ≤ clock s.reads - s.initTime

section Sound

variable {clock : Nat → Int} {times : P → IdleTimes} {s : MeteredPorts P}

theorem Sound.timesFit (h : s.Sound clock times) : s.TimesFit clock times := by
  constructor
  · intro i hi
    exact (h.ports i hi).2.until_next.pairwise_disjoint
  · intro i hi a ha
    obtain ⟨hinit, haccounted⟩ := h.ports i hi
    obtain ⟨hstart, hspan, -⟩ := haccounted.until_next.within ha
    exact ⟨hinit ▸ hstart, hspan⟩
  · intro i hi
    exact (h.ports i hi).2.total
  · intro i hi
    obtain ⟨hinit, haccounted⟩ := h.ports i hi
    exact hinit ▸ haccounted.total_le

/-- Sound if it succeeds, and otherwise not the `ASSERT` on the idle times. -/
def StaysSound (clock : Nat → Int) (times : P → IdleTimes)
    (x : Checked (MeteredPorts P)) : Prop :=
  match x with
  | .ok s => s.Sound clock times
  | .error f => f ≠ idleFault

theorem StaysSound.of_ok {x : Checked (MeteredPorts P)}
    (h : StaysSound clock times x) (hx : x = .ok s) : s.Sound clock times := by
  rw [hx] at h
  exact h

theorem StaysSound.ne_idleFault {x : Checked (MeteredPorts P)}
    (h : StaysSound clock times x) : x ≠ .error idleFault := by
  intro hx
  rw [hx] at h
  exact h rfl

variable (hclock : Monotone clock)

include hclock

theorem sound_made (port : P) : (made clock port).Sound clock times :=
  ⟨hclock (Nat.zero_le 1), fun _ hi => nomatch hi⟩

/-- **An operation on one port** leaves the others as they are, but for the
clock. -/
theorem Sound.onPort (h : s.Sound clock times) (i : Nat) {op : P → Metered P}
    (hop : ∀ p, Accounts clock times (times p) (op p)) :
    StaysSound clock times (s.onPort i op) := by
  unfold MeteredPorts.onPort
  split
  · rename_i hi
    obtain ⟨hinit, haccounted⟩ := h.ports i hi
    have hmeets := hop (s.port i) ⟨s.reads, s.added i⟩ haccounted
    cases hrun : op (s.port i) ⟨s.reads, s.added i⟩ with
    | error f =>
        unfold Meets at hmeets
        rw [hrun] at hmeets
        exact hmeets
    | ok r =>
        obtain ⟨p, m⟩ := r
        have hkeeps := hmeets.of_ok hrun
        refine ⟨h.init.trans (hclock hkeeps.reads), fun j hj => ?_⟩
        by_cases heq : j = i
        · subst heq
          simp only [Function.update_self]
          exact ⟨hkeeps.init.trans hinit, hkeeps.accounted⟩
        · simp only [Function.update_of_ne heq]
          obtain ⟨hinit', haccounted'⟩ := h.ports j hj
          exact ⟨hinit', haccounted'.later hclock hkeeps.reads⟩
  · exact fun hfault => nomatch hfault

theorem Sound.resize (h : s.Sound clock times) {resized : Int → Int → P}
    (hresized : ∀ init now, times (resized init now) = ⟨false, 0, now, init⟩)
    (size : Nat) : (s.resize clock resized size).Sound clock times := by
  refine ⟨h.init.trans (hclock (Nat.le_succ _)), fun i _ => ?_⟩
  simp only [MeteredPorts.resize]
  split
  · rename_i hi
    obtain ⟨hinit, haccounted⟩ := h.ports i hi
    exact ⟨hinit, haccounted.later hclock (Nat.le_succ _)⟩
  · rw [hresized]
    exact ⟨rfl, accounted_resized hclock h.init (Nat.le_succ _)⟩

end Sound

end MeteredPorts

open MeteredPorts

/-! ## `InputBufferQueues` -/

/-- What is done to the input ports of a block. -/
inductive InputQueuesOp where
  | resize (size : Nat)
  | updateConfig (i : Nat) (fresh : InputPort.AuxAllocations)
      (itemSize preloadBytes reserveBytes maximumBytes : Nat)
  | accumulate (i : Nat) (fresh : Allocation) (memory : Memory)
  | push (i : Nat) (buffer : SBuffer)
  | consume (i items : Nat)
  | fail (i : Nat)
  | updateHasMsg (i : Nat) (has : Bool)
  | flushAll

namespace InputQueues

/-- One call. -/
def next (clock : Nat → Int) (s : MeteredPorts InputPort) :
    InputQueuesOp → Checked (MeteredPorts InputPort)
  | .resize size => .ok (s.resize clock InputPort.resized size)
  | .updateConfig i fresh itemSize preload reserve maximum =>
      s.onPort i (·.updateConfigMetered clock fresh itemSize preload
        reserve maximum)
  | .accumulate i fresh memory => s.onPort i fun p => do
      let (p, _) ← p.accumulate fresh memory
      return p
  | .push i buffer => s.onPort i (·.pushMetered clock buffer)
  | .consume i items => s.onPort i (·.consumeMetered clock items)
  | .fail i => s.onPort i (·.failMetered clock)
  | .updateHasMsg i has => s.onPort i (·.updateHasMsgMetered clock has)
  | .flushAll =>
      forRange (fun i s => s.onPort i (·.flushMetered clock)) s.size s

/-- Any sequence of calls. -/
def system (clock : Nat → Int) :
    TransitionSystem (MeteredPorts InputPort) InputQueuesOp :=
  .ofNext (fun s => s = made clock (.resized 0 0)) (next clock)

variable {clock : Nat → Int} {s : MeteredPorts InputPort}

theorem accumulate_accounts (p : InputPort) (fresh : Allocation)
    (memory : Memory) :
    Accounts clock InputPort.idleTimes p.idleTimes (do
      let (p, _) ← p.accumulate fresh memory
      return p) := by
  have hfaults : OtherFaults (p.accumulate fresh memory) := by
    unfold InputPort.accumulate
    split
    · exact otherFaults_pure _
    · split
      · exact otherFaults_throw (by decide)
      · dsimp only
        split
        · exact otherFaults_throw (by decide)
        · exact (otherFaults_assertThat (by decide)).bind fun _ =>
            otherFaults_pure _
  refine accounts_lift hfaults fun r hr => ?_
  exact accounts_pure (InputPort.accumulate_idleTimes hr)

/-- A loop over the ports. -/
theorem forRange_staysSound (hclock : Monotone clock)
    {op : InputPort → Metered InputPort}
    (hop : ∀ p, Accounts clock InputPort.idleTimes p.idleTimes (op p))
    (hs : s.Sound clock InputPort.idleTimes) (n : Nat) :
    StaysSound clock InputPort.idleTimes
      (forRange (fun i s => s.onPort i op) n s) := by
  induction n with
  | zero => exact hs
  | succ n ih =>
      rw [forRange]
      cases hloop : forRange (fun i s => s.onPort i op) n s with
      | error f =>
          rw [hloop] at ih
          exact ih
      | ok t =>
          rw [hloop] at ih
          exact Sound.onPort hclock ih n hop

/-- **Every call** keeps the ports sound and does not fail on the idle times. -/
theorem next_staysSound (hclock : Monotone clock)
    (hs : s.Sound clock InputPort.idleTimes) (op : InputQueuesOp) :
    StaysSound clock InputPort.idleTimes (next clock s op) := by
  cases op with
  | resize size => exact hs.resize hclock (fun _ _ => rfl) size
  | updateConfig i fresh itemSize preload reserve maximum =>
      exact hs.onPort hclock i fun p =>
        InputPort.updateConfigMetered_accounts hclock rfl fresh itemSize preload
          reserve maximum
  | accumulate i fresh memory =>
      exact hs.onPort hclock i fun p => accumulate_accounts p fresh memory
  | push i buffer =>
      exact hs.onPort hclock i fun p =>
        InputPort.pushMetered_accounts hclock rfl _
  | consume i items =>
      exact hs.onPort hclock i fun p =>
        InputPort.consumeMetered_accounts hclock rfl _
  | fail i => exact hs.onPort hclock i fun p =>
      InputPort.failMetered_accounts hclock rfl
  | updateHasMsg i has =>
      exact hs.onPort hclock i fun p =>
        InputPort.updateHasMsgMetered_accounts hclock rfl _
  | flushAll =>
      exact forRange_staysSound hclock
        (fun p => InputPort.flushMetered_accounts hclock rfl) hs _

theorem sound_of_reachable (hclock : Monotone clock)
    (hs : (system clock).Reachable s) : s.Sound clock InputPort.idleTimes := by
  refine hs.invariant (P := fun s => s.Sound clock InputPort.idleTimes) ?_ ?_
  · rintro _ rfl
    exact sound_made hclock _
  · intro s op s' _ hsound h
    exact (next_staysSound hclock hsound op).of_ok h

end InputQueues

/-! ## `OutputBufferQueues` -/

/-- What is done to the output ports of a block.  The length and the offset of
the front are written through its reference. -/
inductive OutputQueuesOp where
  | resize (size : Nat)
  | setBufferQueue (i : Nat) (queue : Option BufferQueue)
  | setReserveBytes (i numBytes : Nat)
  | push (i : Nat) (buff : SBuffer)
  | writeFront (i : Nat) (buff : SBuffer)
  | consume (i : Nat)
  | pop (i : Nat)
  | fail (i : Nat)
  | setInline (i : Nat) (buff : SBuffer)
  | flushAll

namespace OutputQueues

/-- One call. -/
def next (clock : Nat → Int) (s : MeteredPorts OutputPort) :
    OutputQueuesOp → Checked (MeteredPorts OutputPort)
  | .resize size => .ok (s.resize clock OutputPort.resized size)
  | .setBufferQueue i queue => s.onPort i (·.setBufferQueueMetered clock queue)
  | .setReserveBytes i numBytes =>
      s.onPort i (·.setReserveBytesMetered clock numBytes)
  | .push i buff => s.onPort i (·.pushMetered clock buff)
  | .writeFront i buff => s.onPort i fun p => return p.setFront buff
  | .consume i => s.onPort i (·.consumeMetered clock)
  | .pop i => s.onPort i (·.popMetered clock)
  | .fail i => s.onPort i (·.failMetered clock)
  | .setInline i buff => s.onPort i fun p => liftM (p.setInline buff)
  | .flushAll =>
      .ok ((s.resize clock OutputPort.resized 0).resize clock
        OutputPort.resized s.size)

/-- Any sequence of calls. -/
def system (clock : Nat → Int) :
    TransitionSystem (MeteredPorts OutputPort) OutputQueuesOp :=
  .ofNext (fun s => s = made clock (.resized 0 0)) (next clock)

variable {clock : Nat → Int} {s : MeteredPorts OutputPort}

/-- **Every call** keeps the ports sound and does not fail on the idle times. -/
theorem next_staysSound (hclock : Monotone clock)
    (hs : s.Sound clock OutputPort.idleTimes) (op : OutputQueuesOp) :
    StaysSound clock OutputPort.idleTimes (next clock s op) := by
  cases op with
  | resize size => exact hs.resize hclock (fun _ _ => rfl) size
  | setBufferQueue i queue =>
      exact hs.onPort hclock i fun p =>
        OutputPort.setBufferQueueMetered_accounts hclock rfl _
  | setReserveBytes i numBytes =>
      exact hs.onPort hclock i fun p =>
        OutputPort.setReserveBytesMetered_accounts hclock rfl _
  | push i buff =>
      exact hs.onPort hclock i fun p =>
        OutputPort.pushMetered_accounts hclock rfl _
  | writeFront i buff =>
      exact hs.onPort hclock i fun p =>
        accounts_pure (p.setFront_idleTimes buff)
  | consume i =>
      exact hs.onPort hclock i fun p =>
        OutputPort.consumeMetered_accounts hclock rfl
  | pop i => exact hs.onPort hclock i fun p =>
      OutputPort.popMetered_accounts hclock rfl
  | fail i => exact hs.onPort hclock i fun p =>
      OutputPort.failMetered_accounts hclock rfl
  | setInline i buff =>
      exact hs.onPort hclock i fun p => OutputPort.setInline_accounts rfl _
  | flushAll =>
      have hempty : (s.resize clock OutputPort.resized 0).Sound clock
          OutputPort.idleTimes :=
        hs.resize hclock (fun _ _ => rfl) 0
      exact hempty.resize hclock (fun _ _ => rfl) s.size

theorem sound_of_reachable (hclock : Monotone clock)
    (hs : (system clock).Reachable s) : s.Sound clock OutputPort.idleTimes := by
  refine hs.invariant (P := fun s => s.Sound clock OutputPort.idleTimes) ?_ ?_
  · rintro _ rfl
    exact sound_made hclock _
  · intro s op s' _ hsound h
    exact (next_staysSound hclock hsound op).of_ok h

end OutputQueues

/-- **The `ASSERT` on the idle times never fails**, under any clock that does
not run backwards and whatever is done to the ports; and no time a port was idle
is counted twice. -/
theorem idle_times_fit {clock : Nat → Int} (hclock : Monotone clock) :
    (∀ s, (InputQueues.system clock).Reachable s →
      s.TimesFit clock InputPort.idleTimes ∧
      ∀ op, InputQueues.next clock s op ≠ .error idleFault) ∧
    ∀ s, (OutputQueues.system clock).Reachable s →
      s.TimesFit clock OutputPort.idleTimes ∧
      ∀ op, OutputQueues.next clock s op ≠ .error idleFault := by
  constructor
  · intro s hs
    have hsound := InputQueues.sound_of_reachable hclock hs
    exact ⟨hsound.timesFit,
      fun op => (InputQueues.next_staysSound hclock hsound op).ne_idleFault⟩
  · intro s hs
    have hsound := OutputQueues.sound_of_reachable hclock hs
    exact ⟨hsound.timesFit,
      fun op => (OutputQueues.next_staysSound hclock hsound op).ne_idleFault⟩

/-- A port is idle until a buffer comes, and again since it failed for the
second time. -/
theorem idle_times_fit_input :
    ∃ s, (InputQueues.system (fun k => (k : Int))).Reachable s ∧
    s.added 0 = [⟨5, 6⟩, ⟨1, 2⟩] ∧
      s.TimesFit (fun k => (k : Int)) InputPort.idleTimes := by
  obtain ⟨s, hrun, hadded⟩ : ∃ s, TransitionSystem.runEvents
      (InputQueues.next fun k => (k : Int))
      [.resize 1, .push 0 { nullBuff with length := 4 }, .fail 0, .fail 0,
        .push 0 { nullBuff with length := 4 }]
          (made (fun k => (k : Int)) (.resized 0 0)) = .ok s ∧
      s.added 0 = [⟨5, 6⟩, ⟨1, 2⟩] := ⟨_, rfl, rfl⟩
  have hs : (InputQueues.system fun k => (k : Int)).Reachable s :=
    TransitionSystem.Reachable.of_events _ (.init rfl) hrun
  exact ⟨s, hs, hadded,
    ((idle_times_fit fun _ _ hle => Int.ofNat_le.mpr hle).1 s hs).1⟩

end Gras
