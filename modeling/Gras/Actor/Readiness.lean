import Gras.Actor.BlockActor
import Gras.Buffers.InputBytes

/-!
# What makes a port ready

The ready bit of a port is written at the end of every operation on its queue.
This file says from what:

* an input port, by `__update`, from its reserve and its enqueued bytes, or by
  `update_has_msg` from a message;
* an output port, by `_update`, from its reserve and the front of its queue.
-/

namespace Gras

/-! ## Input ports -/

namespace InputPort

/-- The enqueued bytes after the preload has changed. -/
def configuredBytes (itemSize preloadBytes : Nat) (p : InputPort) : Nat :=
  if p.preloadBytes < preloadBytes then
    p.enqueuedBytes + (preloadBytes - p.preloadBytes)
  else
    p.enqueuedBytes -
      min (p.preloadBytes - preloadBytes) p.enqueuedBytes * itemSize

/-- A buffer is enqueued after the preload has changed. -/
def ConfiguredBuffer (itemSize preloadBytes : Nat) (p : InputPort) : Prop :=
  if p.preloadBytes < preloadBytes then True
  else if preloadBytes < p.preloadBytes then
    drained (min (p.preloadBytes - preloadBytes) p.enqueuedBytes * itemSize)
      p.queue.items ≠ []
  else p.queue.items ≠ []

section Configured

variable {p p' : InputPort} {now : Int} {m m' : Memory}

theorem unstitch_nil_iff (q : List SBuffer) : unstitch q = [] ↔ q = [] := by
  unfold unstitch
  split
  · split <;> simp
  · exact Iff.rfl

theorem morePreload_outcome {preloadBytes : Nat}
    (h : p.morePreload now preloadBytes m = .ok (p', m')) :
    SameConfig p p' ∧
      p'.enqueuedBytes = p.enqueuedBytes + (preloadBytes - p.preloadBytes) ∧
      (preloadBytes ≤ p.preloadBytes → p' = p) := by
  unfold morePreload at h
  split at h
  · rename_i hle
    simp only [Checked.pure_eq_ok, Prod.mk.injEq] at h
    obtain ⟨rfl, rfl⟩ := h
    exact ⟨⟨rfl, rfl, rfl, rfl⟩, by omega, fun _ => rfl⟩
  · rename_i hlt
    split at h
    · simp at h
    · split at h
      · simp at h
      · simp only [Checked.bind_eq_ok, Checked.pure_eq_ok, Prod.mk.injEq] at h
        obtain ⟨p₁, hpush, rfl, rfl⟩ := h
        obtain ⟨-, hsame, henq, -⟩ := push_cases hpush
        exact ⟨⟨hsame.itemsSize, hsame.reserveBytes, hsame.maximumBytes,
          hsame.preloadBytes⟩, henq, fun hle => absurd hle hlt⟩

/-- **After `update_config`** the port is ready when its bytes reach the
reserve. -/
theorem updateConfig_outcome {fresh : AuxAllocations}
    {itemSize preloadBytes reserveBytes maximumBytes : Nat}
    (h : p.updateConfig now fresh itemSize preloadBytes reserveBytes
      maximumBytes m
      = .ok (p', m')) :
    p'.bit = decide (reserveBytes ≤ p.configuredBytes itemSize preloadBytes) ∧
      p'.reserveBytes = reserveBytes ∧
      p'.enqueuedBytes = p.configuredBytes itemSize preloadBytes ∧
      (p'.empty = false → p.ConfiguredBuffer itemSize preloadBytes) := by
  simp only [updateConfig, Checked.bind_eq_ok, assertThat_eq_ok,
    Checked.pure_eq_ok, Prod.mk.injEq, Prod.exists] at h
  obtain ⟨-, -, p₁, m₁, hmore, p₂, hless, p₃, hup, rfl, rfl⟩ := h
  have hp₃ := update_eq_ok hup
  obtain ⟨hsame₁, henq₁, hkept₁⟩ := morePreload_outcome hmore
  have hpre₁ : p₁.preloadBytes = p.preloadBytes := hsame₁.preloadBytes
  have hsize₁ : p₁.itemsSize = itemSize := hsame₁.itemsSize
  replace henq₁ : p₁.enqueuedBytes =
      p.enqueuedBytes + (preloadBytes - p.preloadBytes) :=
    henq₁
  replace hkept₁ : preloadBytes ≤ p.preloadBytes →
      p₁.queue.items = p.queue.items :=
    fun hle => congrArg (·.queue.items) (hkept₁ hle)
  have hless₂ : p₂.enqueuedBytes = p.configuredBytes itemSize preloadBytes ∧
      (p₂.queue.items ≠ [] → p.ConfiguredBuffer itemSize preloadBytes) := by
    unfold lessPreload at hless
    unfold configuredBytes ConfiguredBuffer
    split at hless
    · rename_i hlt
      rw [hpre₁] at hlt
      obtain ⟨-, -, -, henq, front, rest, -, -, hq⟩ := consume_cases hless
      rw [hpre₁, hsize₁, henq₁, Nat.sub_eq_zero_of_le (Nat.le_of_lt hlt),
        Nat.add_zero]
        at henq hq
      rw [if_neg (by omega), if_neg (by omega), if_pos hlt]
      refine ⟨henq, fun hne hnil => hne ?_⟩
      rw [hq, unstitch_nil_iff, hkept₁ (Nat.le_of_lt hlt)]
      exact hnil
    · rename_i hge
      rw [hpre₁] at hge
      rw [Checked.pure_eq_ok] at hless
      subst hless
      split
      · exact ⟨henq₁, fun _ => trivial⟩
      · have heq : preloadBytes = p.preloadBytes := by omega
        rw [henq₁, heq, Nat.sub_self, Nat.zero_min, Nat.zero_mul]
        exact ⟨rfl, fun hne => hkept₁ (Nat.le_of_eq heq) ▸ hne⟩
  subst hp₃
  refine ⟨?_, rfl, hless₂.1, fun hempty => hless₂.2 ?_⟩
  · exact congrArg (fun n => decide (reserveBytes ≤ n)) hless₂.1
  · simpa [empty] using hempty

theorem updateHasMsg_ready {has : Bool} (h : p.updateHasMsg now has = .ok p') :
    p'.ready = true ↔ has = true ∨ p.reserveBytes ≤ p.enqueuedBytes := by
  unfold updateHasMsg at h
  split at h
  · rename_i hhas
    rw [Checked.pure_eq_ok] at h
    subst h
    exact ⟨fun _ => .inl hhas, fun _ => rfl⟩
  · rename_i hhas
    rw [update_eq_ok h]
    simp [ready, setReady, hhas]

end Configured

end InputPort

/-! ## Output ports -/

/-- The front buffer of the queue has so many bytes free. -/
def BufferQueue.FrontHolds (q : BufferQueue) (reserveBytes : Nat) : Prop :=
  q.empty = false ∧ ∃ front q', q.front = .ok (front, q') ∧
    reserveBytes ≤ OutputPort.available front

namespace OutputPort

variable {p p' : OutputPort} {now : Int}

/-- `_update` says whether the front of the queue has the reserve. -/
theorem update_ready (h : p.update now = .ok p') (hready : p'.ready = true) :
    ∃ q, p.queue = some q ∧ q.FrontHolds p.reserveBytes := by
  unfold update at h
  cases hq : p.queue with
  | none =>
      simp only [hq, Checked.bind_eq_ok, Checked.pure_eq_ok, Prod.exists,
        Prod.mk.injEq] at h
      obtain ⟨_, _, ⟨rfl, rfl⟩, -, -, rfl⟩ := h
      exact Bool.noConfusion hready
  | some q =>
      rw [hq] at h
      dsimp only at h
      split at h
      · simp only [Checked.bind_eq_ok, Checked.pure_eq_ok, Prod.exists,
          Prod.mk.injEq] at h
        obtain ⟨_, _, ⟨rfl, rfl⟩, -, -, rfl⟩ := h
        exact Bool.noConfusion hready
      · rename_i hempty
        simp only [Checked.bind_eq_ok, Checked.pure_eq_ok, Prod.exists,
          Prod.mk.injEq] at h
        obtain ⟨b, q', hfront, _, _, ⟨rfl, rfl⟩, -, -, rfl⟩ := h
        exact ⟨q, rfl, by simpa using hempty, b, q', hfront, by
          simpa [ready, setReady] using hready⟩

theorem setReserveBytes_ready {numBytes : Nat}
    (h : p.setReserveBytes now numBytes = .ok p') (hready : p'.ready = true) :
    p.ready = true ∨ ∃ q, p.queue = some q ∧ q.FrontHolds numBytes := by
  unfold setReserveBytes at h
  split at h
  · rw [Checked.pure_eq_ok] at h
    subst h
    exact .inl hready
  · exact .inr (update_ready h hready)

theorem setBufferQueue_ready {q : Option BufferQueue}
    (h : p.setBufferQueue now q = .ok p') (hready : p'.ready = true) :
    ∃ q', q = some q' ∧ q'.FrontHolds p.reserveBytes :=
  update_ready h hready

end OutputPort

/-! ## The input ports of a block -/

namespace BlockActor

variable {b b' : BlockActor} {now : Int} {i : Nat}

/-- **`update_input_avail`**: there is a message, or the port has its
reserve. -/
theorem updateInputAvail_ready (h : b.updateInputAvail now i = .ok b') :
    b'.inputsAvailable = b.inputsAvailable.set i
        (!(b.inputQueues i).empty && (b.inputQueues i).ready ||
          !(b.inputMsgs i).isEmpty) ∧
      (∃ p, b'.inputQueues = Function.update b.inputQueues i p ∧
        (p.ready = true ↔ b.inputMsgs i ≠ [] ∨
          (b.inputQueues i).reserveBytes ≤ (b.inputQueues i).enqueuedBytes)) ∧
      b'.outputQueues = b.outputQueues ∧ b'.inputMsgs = b.inputMsgs := by
  simp only [updateInputAvail, Checked.bind_eq_ok, Checked.pure_eq_ok] at h
  obtain ⟨p, hup, rfl⟩ := h
  have hready := InputPort.updateHasMsg_ready hup
  refine ⟨rfl, ⟨p, rfl, hready.trans ?_⟩, rfl, rfl⟩
  simp

end BlockActor

end Gras
