import Gras.Buffers.InputRuns
import Gras.Buffers.PortSteps

/-!
# Less preload

`update_config` with fewer `preload_bytes` than before consumes the difference.
The difference is in bytes, `consume` counts items, and `consume` works on the
front entry.

* `InputPort.Shrunk`: what the call is to do.
* `InputPort.consume_total`: when `consume` raises no error.
* `onTime_of_reachable`: the idle times, in every run whose clock does not go
  back.
* `shrink_exact_iff`: when the difference is what goes.
-/

namespace Gras

namespace InputPort

/-- What is to go when the preload shrinks: the difference, or all there is. -/
def shrinkage (preloadBytes : Nat) (p : InputPort) : Nat :=
  min (p.preloadBytes - preloadBytes) p.enqueuedBytes

/-- **The preload has shrunk**: that many bytes have gone from the queue, and
the port agrees with its new settings. -/
structure Shrunk (preloadBytes reserveBytes : Nat)
    (p p' : InputPort) : Prop where
  removed : queueLength p'.queue.items + p.shrinkage preloadBytes =
    queueLength p.queue.items
  enqueued : p'.enqueuedBytes = queueLength p'.queue.items
  preload : p'.preloadBytes = preloadBytes
  reserve : p'.reserveBytes = reserveBytes
  bit : p'.bit = decide (reserveBytes ≤ p'.enqueuedBytes)

/-- The condition: there is an entry, and either it is an empty one with nothing
behind it, or a byte is an item and the entry holds all that is to go. -/
def ShrinksFront (itemSize preloadBytes : Nat) (p : InputPort) : Prop :=
  ∃ front ∈ p.queue.items.head?, p.enqueuedBytes = 0 ∨
    itemSize = 1 ∧ p.shrinkage preloadBytes ≤ front.length

instance (itemSize preloadBytes : Nat) (p : InputPort) :
    Decidable (p.ShrinksFront itemSize preloadBytes) :=
  match h : p.queue.items with
  | [] => .isFalse fun ⟨front, hfront, _⟩ => by
      rw [h] at hfront
      cases hfront
  | front :: rest => decidable_of_iff (p.enqueuedBytes = 0 ∨
      itemSize = 1 ∧ p.shrinkage preloadBytes ≤ front.length)
        (by simp [ShrinksFront, h])

section Shrinking

variable {p p' : InputPort} {now : Int}
  {itemSize preloadBytes reserveBytes maximumBytes : Nat}

/-- **`consume` succeeds** on whole items of the front entry while the clock
does not run backwards. -/
theorem consume_total {items : Nat} {front : SBuffer} {rest : List SBuffer}
    (htime : p.idleTimes.OnTime now) (hq : p.queue.items = front :: rest)
    (hfront : items * p.itemsSize ≤ front.length)
    (hrest : (front.length - items * p.itemsSize) % p.itemsSize = 0)
    (henq : items * p.itemsSize ≤ p.enqueuedBytes) :
    ∃ p', p.consume now items = .ok p' := by
  have hwhole : items * p.itemsSize % p.itemsSize = 0 := Nat.mul_mod_left _ _
  obtain ⟨p₁, hupdate⟩ := update_total (p := { p with
    queue := p.queue.replace (drained (items * p.itemsSize) p.queue.items)
      (Nat.le_trans (drained_length _ _) p.queue.size_le)
    enqueuedBytes := p.enqueuedBytes - items * p.itemsSize }) htime
  unfold consume
  dsimp only
  split
  · rename_i hnil
    rw [hq] at hnil
    cases hnil
  · rename_i front' rest' hcons
    rw [hq] at hcons
    cases hcons
    simp only [assertThat_of hwhole, assertThat_of hfront, assertThat_of hrest,
      assertThat_of henq, Checked.ok_bind, hupdate]
    exact ⟨_, rfl⟩

/-- Where bytes are items, or nothing is to go, as many bytes as items go. -/
theorem shrinkage_mul_eq_iff (hless : preloadBytes < p.preloadBytes) :
    p.shrinkage preloadBytes * itemSize = p.shrinkage preloadBytes ↔
      p.enqueuedBytes = 0 ∨ itemSize = 1 := by
  have hzero : p.shrinkage preloadBytes = 0 ↔ p.enqueuedBytes = 0 := by
    unfold shrinkage
    omega
  rw [← hzero]
  by_cases h : p.shrinkage preloadBytes = 0
  · rw [h, Nat.zero_mul]
    exact ⟨.inl, fun _ => rfl⟩
  · rw [Nat.mul_eq_left h, or_iff_right h]

/-- **The consume of a shrinking preload** removes what is to go exactly when
the front entry is one byte an item and holds it, or is empty like all that
follows. -/
theorem consume_shrinkage_iff (htime : p.idleTimes.OnTime now)
    (hcounted : p.Counted) (hless : preloadBytes < p.preloadBytes) :
    (∃ p', p.consume now (p.shrinkage preloadBytes) = .ok p' ∧
      queueLength p'.queue.items + p.shrinkage preloadBytes =
        queueLength p.queue.items) ↔
    p.ShrinksFront p.itemsSize preloadBytes := by
  constructor
  · rintro ⟨p', hconsume, hremoved⟩
    obtain ⟨-, -, -, -, front, rest, hq, hle, hq'⟩ := consume_cases hconsume
    have hwent := drained_queueLength rest hle
    rw [hq', unstitch_queueLength, hq] at hremoved
    have hbytes : p.shrinkage preloadBytes * p.itemsSize =
        p.shrinkage preloadBytes := by omega
    refine ⟨front, by rw [hq]; rfl, ?_⟩
    rw [hbytes] at hle
    exact ((shrinkage_mul_eq_iff hless).mp hbytes).imp_right
      fun hone => ⟨hone, hle⟩
  · rintro ⟨front, hhead, hcond⟩
    obtain ⟨rest, hq⟩ : ∃ rest, p.queue.items = front :: rest := by
      cases hitems : p.queue.items with
      | nil =>
          rw [hitems] at hhead
          cases hhead
      | cons b rest =>
          rw [hitems] at hhead
          cases hhead
          exact ⟨rest, rfl⟩
    have hle : p.shrinkage preloadBytes ≤ p.enqueuedBytes :=
      Nat.min_le_right _ _
    have hbytes : p.shrinkage preloadBytes * p.itemsSize =
        p.shrinkage preloadBytes :=
      (shrinkage_mul_eq_iff hless).mpr (hcond.imp_right And.left)
    have hfront : p.shrinkage preloadBytes ≤ front.length ∧
        (front.length - p.shrinkage preloadBytes) % p.itemsSize = 0 := by
      rcases hcond with hzero | ⟨hone, hhold⟩
      · -- nothing is enqueued, so the front entry is empty
        rw [Counted, hzero, hq, queueLength_cons] at hcounted
        have hempty : front.length = 0 := by omega
        rw [hempty, Nat.zero_sub, Nat.zero_mod]
        exact ⟨by omega, rfl⟩
      · rw [hone]
        exact ⟨hhold, Nat.mod_one _⟩
    rw [← hbytes] at hfront hle
    obtain ⟨p', hconsume⟩ := consume_total htime hq hfront.1 hfront.2 hle
    obtain ⟨-, -, -, -, front', rest', hq', hle', hitems⟩ :=
      consume_cases hconsume
    refine ⟨p', hconsume, ?_⟩
    have hwent := drained_queueLength rest' hle'
    rw [hitems, unstitch_queueLength, hq']
    omega

variable {fresh : AuxAllocations} {m m' : Memory}

/-- **`update_config` with less preload** raises no error when its `consume`
raises none. -/
theorem updateConfig_less (htime : p.idleTimes.OnTime now)
    (hitem : itemSize ≠ 0) (hless : preloadBytes < p.preloadBytes)
    (hconsume : (p.reconfigured fresh itemSize reserveBytes
      maximumBytes).consume now
      (p.shrinkage preloadBytes) = .ok p') :
    p.updateConfig now fresh itemSize preloadBytes reserveBytes maximumBytes m =
      .ok (({ p' with preloadBytes, reserveBytes } : InputPort).setReady now
        (decide (reserveBytes ≤ p'.enqueuedBytes)), m) := by
  have hmore :
      (p.reconfigured fresh itemSize reserveBytes maximumBytes).morePreload now
      preloadBytes m =
          .ok (p.reconfigured fresh itemSize reserveBytes maximumBytes, m) :=
    if_pos (Nat.le_of_lt hless)
  have hshrink :
      (p.reconfigured fresh itemSize reserveBytes maximumBytes).lessPreload now
      preloadBytes = .ok p' := (if_pos hless).trans hconsume
  have htime' : p'.idleTimes.OnTime now :=
    consume_onTime
      (p := p.reconfigured fresh itemSize reserveBytes maximumBytes)
      htime hconsume
  obtain ⟨p₁, hupdate⟩ := update_total
    (p := ({ p' with preloadBytes, reserveBytes } : InputPort)) htime'
  have hset := update_eq_ok hupdate
  unfold reconfigured at hmore hshrink
  simp only [updateConfig, assertThat_of hitem, Checked.ok_bind, hmore,
    hshrink, hupdate]
  rw [hset]
  rfl

/-- **When the difference is what goes**, and the port agrees with its new
settings. -/
theorem updateConfig_shrunk_iff (htime : p.idleTimes.OnTime now)
    (hcounted : p.Counted) (hitem : itemSize ≠ 0)
    (hless : preloadBytes < p.preloadBytes) :
    (∃ p' m', p.updateConfig now fresh itemSize preloadBytes reserveBytes
      maximumBytes m
      = .ok (p', m') ∧ p.Shrunk preloadBytes reserveBytes p') ↔
    p.ShrinksFront itemSize preloadBytes := by
  have hiff := consume_shrinkage_iff
    (p := p.reconfigured fresh itemSize reserveBytes maximumBytes) htime
    hcounted hless
  constructor
  · rintro ⟨p', m', hconfig, hshrunk⟩
    obtain ⟨-, p₁, hpre, rfl⟩ := updateConfig_cases hconfig
    cases hpre with
    | more hlt => exact absurd hlt (Nat.not_lt_of_lt hless)
    | same heq => exact absurd heq (Nat.ne_of_lt hless)
    | less _ hconsume => exact hiff.mp ⟨p₁, hconsume, hshrunk.removed⟩
  · intro hfront
    obtain ⟨p₁, hconsume, hremoved⟩ := hiff.mpr hfront
    have hcounted₁ := hcounted.consume
      (p := p.reconfigured fresh itemSize reserveBytes maximumBytes) hconsume
    refine ⟨_, m, updateConfig_less htime hitem hless hconsume, ?_⟩
    constructor
    · exact hremoved
    · exact hcounted₁
    · rfl
    · rfl
    · rfl

end Shrinking

end InputPort

/-! ## Runs with a clock -/

/-- What an event reads from the clock. -/
def InputEvent.time : InputEvent → Option Int
  | .configure now .. => some now
  | .push now _ => some now
  | .consume now _ => some now
  | .hasMsg now _ => some now
  | .fail now => some now
  | .flush now => some now
  | .accumulate _ => none
  | .front _ => none
  | .recycle _ => none

namespace InputRun

/-- The port has just been added. -/
def Since (st : InputRun) (clock : Int) : Prop :=
  ∃ initTime ≤ clock, st.port = InputPort.resized initTime clock

/-- The runs of a port whose clock never goes back. -/
def clockedSystem : TransitionSystem (InputRun × Int) InputEvent :=
  system.clocked Since InputEvent.time

/-- Whatever may arrive. -/
def anySupply : Supply := ⟨fun _ => True, fun _ => True, fun _ => True⟩

/-- An event is an operation of the port, or leaves its idle times alone. -/
theorem next_step {st st' : InputRun} {ev : InputEvent} {now : Int}
    (hnow : ∀ t ∈ ev.time, t = now) (h : st.next ev = .ok st') :
    st'.port.idleTimes = st.port.idleTimes ∨
      InputPort.Step anySupply now st.port st'.port := by
  cases ev with
  | configure t fresh itemSize preloadBytes reserveBytes maximumBytes =>
      obtain rfl := hnow t rfl
      simp only [next, Checked.bind_eq_ok, Checked.pure_eq_ok] at h
      obtain ⟨⟨p, m⟩, hconfig, rfl⟩ := h
      exact .inr (.updateConfig hconfig)
  | push t buffer =>
      obtain rfl := hnow t rfl
      simp only [next, Checked.bind_eq_ok, Checked.pure_eq_ok] at h
      obtain ⟨p, hpush, rfl⟩ := h
      exact .inr (.push trivial hpush)
  | consume t items =>
      obtain rfl := hnow t rfl
      simp only [next, Checked.bind_eq_ok, Checked.pure_eq_ok] at h
      obtain ⟨p, hconsume, rfl⟩ := h
      exact .inr (.consume hconsume)
  | accumulate fresh =>
      simp only [next, Checked.bind_eq_ok, Checked.pure_eq_ok] at h
      obtain ⟨⟨p, m⟩, hacc, rfl⟩ := h
      exact .inr (.accumulate hacc)
  | front fresh =>
      simp only [next, Checked.bind_eq_ok, Checked.pure_eq_ok] at h
      obtain ⟨⟨b, p, m⟩, hfront, rfl⟩ := h
      exact (InputPort.front_step hfront).imp_left fun hsame =>
        congrArg InputPort.idleTimes hsame
  | hasMsg t has =>
      obtain rfl := hnow t rfl
      simp only [next, Checked.bind_eq_ok, Checked.pure_eq_ok] at h
      obtain ⟨p, hmsg, rfl⟩ := h
      exact .inr (.updateHasMsg hmsg)
  | fail t =>
      obtain rfl := hnow t rfl
      cases h
      exact .inr .fail
  | flush t =>
      obtain rfl := hnow t rfl
      simp only [next, Checked.bind_eq_ok, Checked.pure_eq_ok] at h
      obtain ⟨p, hflush, rfl⟩ := h
      exact .inr (.flush hflush)
  | recycle buffer =>
      cases h
      exact .inl rfl

/-- **The idle times fit** into the time since the port was made. -/
theorem onTime_of_reachable {s : InputRun × Int}
    (h : clockedSystem.Reachable s) : s.1.port.idleTimes.OnTime s.2 := by
  refine h.invariant (P := fun s => s.1.port.idleTimes.OnTime s.2) ?_ ?_
  · rintro s ⟨-, initTime, hinit, hport⟩
    rw [hport]
    exact InputPort.resized_onTime hinit
  · intro s ev s' _ hs hstep
    obtain ⟨hnext, hclock, hafter⟩ := hstep
    have hle : s.2 ≤ s'.2 := by
      rw [hafter]
      cases htime : ev.time with
      | none => exact Int.le_refl _
      | some t => exact hclock t htime
    have hnow : ∀ t ∈ ev.time, t = s'.2 := by
      intro t ht
      rw [hafter, Option.mem_def.mp ht]
      rfl
    rcases next_step hnow hnext with hsame | hmove
    · rw [hsame]
      exact hs.mono hle
    · exact hmove.onTime (hs.mono hle)

end InputRun

/-- **Shrinking the preload**, in every run and for all settings: it raises no
error, takes the difference off the queue and leaves the port in agreement with
its settings exactly when the queue has an entry and this is empty, with nothing
enqueued, or has one-byte items and holds all that is to go. -/
theorem shrink_exact_iff {st : InputRun} {clock now : Int}
    {fresh : InputPort.AuxAllocations}
    {itemSize preloadBytes reserveBytes maximumBytes : Nat}
    (h : InputRun.clockedSystem.Reachable (st, clock)) (hclock : clock ≤ now)
    (hitem : itemSize ≠ 0) (hless : preloadBytes < st.port.preloadBytes) :
    (∃ p' m', st.port.updateConfig now fresh itemSize preloadBytes reserveBytes
      maximumBytes
        st.memory = .ok (p', m') ∧
        st.port.Shrunk preloadBytes reserveBytes p') ↔
      st.port.ShrinksFront itemSize preloadBytes :=
  InputPort.updateConfig_shrunk_iff
    ((InputRun.onTime_of_reachable h).mono hclock)
    (InputRun.counted_of_reachable h.of_clocked) hitem hless

namespace InputRun

/-- Eight bytes of preload, in items of that size. -/
def preloadEight (itemSize : Nat) : InputEvent :=
  .configure 0 (InputPort.flatAux 65536) itemSize 8 itemSize 0

theorem preloadEight_reachable {itemSize : Nat} {st : InputRun}
    (h : start.next (preloadEight itemSize) = .ok st) :
    clockedSystem.Reachable (st, 0) := by
  refine .step (s := (start, 0)) (.init ⟨start_resized, 0, Int.le_refl 0, rfl⟩)
    ⟨h, ?_, rfl⟩
  rintro t ⟨⟩
  exact Int.le_refl 0

end InputRun

/-- Eight bytes become three, one byte an item. -/
theorem shrink_exact_iff_bytes :
    ∃ st, InputRun.clockedSystem.Reachable (st, 0) ∧ st.port.preloadBytes = 8 ∧
      ∃ p' m', st.port.updateConfig 0
          (InputPort.flatAux 65536) 1 3 1 0 st.memory = .ok (p', m') ∧
        st.port.Shrunk 3 1 p' := by
  have hrun : (InputRun.start.next
      (InputRun.preloadEight 1)).toOption.map (fun st =>
      (st.port.preloadBytes, decide (st.port.ShrinksFront 1 3))) =
        some (8, true) := by decide
  obtain ⟨st, hst, hseen⟩ := Option.map_eq_some_iff.mp hrun
  rw [Prod.mk.injEq] at hseen
  obtain ⟨hpreload, hfront⟩ := hseen
  have hreached :=
    InputRun.preloadEight_reachable (Checked.toOption_eq_some.mp hst)
  refine ⟨st, hreached, hpreload, ?_⟩
  rw [shrink_exact_iff hreached (Int.le_refl 0) (by decide)
    (by rw [hpreload]; decide)]
  exact of_decide_eq_true hfront

/-- **The difference counts as items**: of eight bytes of preload in two items,
four are to go, and `consume` is asked for four items. -/
theorem shrink_of_items_fails :
    ∃ st, InputRun.clockedSystem.Reachable (st, 0) ∧ st.port.preloadBytes = 8 ∧
      ∀ p' m', st.port.updateConfig 0
        (InputPort.flatAux 65536) 4 4 4 0 st.memory ≠
        .ok (p', m') := by
  have hrun : (InputRun.start.next
      (InputRun.preloadEight 4)).toOption.map (fun st =>
      (st.port.preloadBytes,
        (st.port.updateConfig 0 (InputPort.flatAux 65536) 4 4 4 0
        st.memory).toOption.isSome)) = some (8, false) := by decide
  obtain ⟨st, hst, hseen⟩ := Option.map_eq_some_iff.mp hrun
  rw [Prod.mk.injEq] at hseen
  obtain ⟨hpreload, hfails⟩ := hseen
  refine ⟨st, InputRun.preloadEight_reachable (Checked.toOption_eq_some.mp hst),
    hpreload, ?_⟩
  intro p' m' hok
  rw [hok] at hfails
  cases hfails

end Gras
