import Gras.Actor.ActorSystem
import Gras.Buffers.PreloadRuns

/-!
# Looking at the front of a ready port

A port is ready when its reserve is enqueued, and also when a message is
pending.  `front` asserts that the reserve is there.

* `front_below_reserve`: what happens to a port that is ready for a message
  only.
* `front_reserve`: what `front` gives when the reserve is there.
* `front_meets_iff`: exactly when `front` is safe to call before work.

### The argument

A block may work when every input is ready and one of them is available.  For a
port with bytes in its queue this says nothing of the reserve if it has a
message, and `front` then asserts a length that the queue does not have.  On an
empty queue it returns the null buffer at once.  So both directions are read off
`is_front_ready` and the sum of the lengths, whatever the entries are.
-/

namespace Gras

namespace InputPort

/-- The `ASSERT` at the end of `accumulate`. -/
def accumulateFault : Fault := .assertFail "this->is_accumulated(i)"

/-- **What `task_main` relies on**: `front` returns what is at the front, or the
null buffer, with the reserve if that much is enqueued; the `ASSERT` of
`accumulate` apart. -/
structure FrontMeets (fresh : Allocation) (m : Memory)
    (p : InputPort) : Prop where
  returns : ∀ e, p.front fresh m = .error e → e = accumulateFault
  front : ∀ b p' m', p.front fresh m = .ok (b, p', m') →
    p'.queue.items.head?.getD nullBuff = b
  reserve : ∀ b p' m', p.front fresh m = .ok (b, p', m') →
    p.reserveBytes ≤ p.enqueuedBytes → p.reserveBytes ≤ b.length

section Front

variable {p : InputPort} {fresh : Allocation} {m : Memory} {buff : SBuffer}
  {rest : List SBuffer}

variable (fresh m) in
theorem front_empty (hready : p.ready = true) (hitem : p.itemsSize ≠ 0)
    (hq : p.queue.items = []) : p.front fresh m = .ok (nullBuff, p, m) := by
  rw [front, assertThat_of hready, Checked.ok_bind, assertThat_of hitem,
    Checked.ok_bind, hq]
  rfl

/-- A front with entries: accumulate if need be, then look at the two
`ASSERT`s. -/
theorem front_cons (hready : p.ready = true) (hitem : p.itemsSize ≠ 0)
    (hq : p.queue.items = buff :: rest) {p₁ : InputPort} {m₁ : Memory}
    {b : SBuffer} {rest₁ : List SBuffer}
    (hrefill : p.refill fresh m buff = .ok (p₁, m₁))
    (hq₁ : p₁.queue.items = b :: rest₁) :
    p.front fresh m =
      if p₁.reserveBytes ≤ b.length then
        if b.length % p₁.itemsSize = 0 then .ok (b, p₁, m₁)
        else .error (.assertFail
          "(_queues[i].front().length % _items_sizes[i]) == 0")
      else .error (.assertFail
        "_queues[i].front().length >= _reserve_bytes[i]") := by
  rw [front, assertThat_of hready, Checked.ok_bind, assertThat_of hitem,
    Checked.ok_bind, hq]
  dsimp only
  rw [hrefill, Checked.ok_bind]
  dsimp only
  rw [hq₁]
  dsimp only
  by_cases hlong : p₁.reserveBytes ≤ b.length
  · rw [if_pos hlong, assertThat_of hlong, Checked.ok_bind]
    by_cases hmod : b.length % p₁.itemsSize = 0
    · rw [if_pos hmod, assertThat_of hmod]
      rfl
    · rw [if_neg hmod, assertThat, if_neg hmod]
      rfl
  · rw [if_neg hlong, assertThat, if_neg hlong]
    rfl

/-- A failed accumulation fails the front. -/
theorem front_of_refill_error (hready : p.ready = true)
    (hitem : p.itemsSize ≠ 0) (hq : p.queue.items = buff :: rest) {e : Fault}
    (hrefill : p.refill fresh m buff = .error e) :
    p.front fresh m = .error e := by
  rw [front, assertThat_of hready, Checked.ok_bind, assertThat_of hitem,
    Checked.ok_bind, hq]
  dsimp only
  rw [hrefill]
  rfl

variable (fresh m) in
/-- **What an accumulation does** to a configured port of whole items: nothing,
or it fails its `ASSERT`, or the front holds as many items as there are or
fit. -/
theorem accumulate_outcome (hs : p.Sized)
    (hwhole : WholeItems p.itemsSize p.queue.items)
    (hq : p.queue.items ≠ []) :
    p.accumulate fresh m = .error accumulateFault ∨
      ∃ p₁ m₁ b rest₁, p.accumulate fresh m = .ok (p₁, m₁) ∧
        p₁.queue.items = b :: rest₁ ∧ p₁.reserveBytes = p.reserveBytes ∧
        p₁.itemsSize = p.itemsSize ∧ b.length % p.itemsSize = 0 ∧
        min (queueLength p.queue.items) p.wholeMaximum ≤ b.length ∧
        b.length ≤ queueLength p.queue.items := by
  by_cases hacc : p.isAccumulated = true
  · obtain ⟨b, rest, hcons⟩ := List.exists_cons_of_ne_nil hq
    refine .inr ⟨p, m, b, rest, ?_, hcons, rfl, rfl, ?_, ?_, ?_⟩
    · rw [accumulate, if_pos hacc]
      rfl
    · exact hwhole b (by rw [hcons]; exact List.mem_cons_self)
    · exact whole_front_of_accumulated hacc (by rw [hcons]; rfl)
    · exact length_le_queueLength (by rw [hcons]; exact List.mem_cons_self)
  · rw [Bool.not_eq_true] at hacc
    obtain ⟨aux, buff, buffers, haux, hbuff, hlength, -⟩ :=
      hs.auxAvailable fresh
    have heq := accumulate_eq (m := m) hacc haux hbuff
    have hafter := accumulatedBy_isAccumulated
      { auxAvailable fresh p.maximumBytes aux with buffers } m hs hacc
      hlength hwhole
    dsimp only at heq
    split at heq
    · rename_i hok
      obtain ⟨front, next, rest, hcons, -⟩ :=
        exists_front_of_not_accumulated hacc
      have hroom := wholeMaximum_ne_zero hs (by simp [hcons]) (hafter.mp hok)
      have hitems := accumulatedBy_items
        { auxAvailable fresh p.maximumBytes aux with buffers } m
        hacc hlength hwhole hroom
      obtain ⟨haccum, hrest⟩ := gathered_length (m := m) hlength
      refine .inr ⟨_, _, _, _, heq, hitems, rfl, rfl, ?_,
        Nat.le_of_eq haccum.symm, by omega⟩
      rw [haccum]
      rcases Nat.le_total (queueLength p.queue.items)
        p.wholeMaximum with hle | hle
      · rw [Nat.min_eq_left hle]
        exact hwhole.queueLength
      · rw [Nat.min_eq_right hle]
        exact Nat.mul_mod_left _ _
    · exact .inl heq

/-- A front that is below the reserve is an accumulation away from all there
is. -/
theorem refill_eq (hlt : buff.length < p.reserveBytes) :
    p.refill fresh m buff = p.accumulate fresh m := if_pos hlt

variable (fresh m) in
/-- **A port that is ready for a message only** cannot be looked at: the entries
there are make up less than the reserve. -/
theorem front_below_reserve (hs : p.Sized) (hready : p.ready = true)
    (hcount : p.Counted) (hreserve : p.reserveBytes % p.itemsSize = 0)
    (hwhole : WholeItems p.itemsSize p.queue.items)
    (hq : p.queue.items = buff :: rest)
    (hbelow : p.enqueuedBytes < p.reserveBytes) :
    p.front fresh m = .error
      (.assertFail "_queues[i].front().length >= _reserve_bytes[i]") := by
  have hitem := Nat.ne_of_gt hs.itemsSize
  have hne : p.queue.items ≠ [] := by simp [hq]
  rw [hcount] at hbelow
  have hfront : buff.length < p.reserveBytes := by
    refine Nat.lt_of_le_of_lt (length_le_queueLength ?_) hbelow
    rw [hq]
    exact List.mem_cons_self
  have hroom := le_wholeMaximum hreserve hs.reserve
  -- fewer bytes than the reserve fit the accumulation buffer, so its `ASSERT` holds
  have hok : p.accumulate fresh m ≠ .error accumulateFault := by
    intro herror
    by_cases hacc : p.isAccumulated = true
    · rw [accumulate, if_pos hacc] at herror
      cases herror
    · rw [Bool.not_eq_true] at hacc
      obtain ⟨aux, a, buffers, haux, hbuff, hlength, -⟩ := hs.auxAvailable fresh
      rw [accumulate_eq hacc haux hbuff] at herror
      dsimp only at herror
      rw [if_pos] at herror
      · cases herror
      · exact (accumulatedBy_isAccumulated _ m hs hacc hlength hwhole).mpr
          (.inr (.inl (by omega)))
  rcases accumulate_outcome fresh m hs hwhole hne with herror |
    ⟨p₁, m₁, b, rest₁, hacc, hq₁, hreserve₁, hitem₁, hmod, hmin, hle⟩
  · exact absurd herror hok
  · rw [front_cons hready hitem hq ((refill_eq hfront).trans hacc) hq₁,
      hreserve₁, if_neg]
    omega

variable (fresh m) in
/-- **What `front` gives when the reserve is enqueued**: at least the reserve,
in whole items, unless the accumulation fails its `ASSERT`. -/
theorem front_reserve (hs : p.Sized) (hready : p.ready = true)
    (hcount : p.Counted) (hreserve : p.reserveBytes % p.itemsSize = 0)
    (hwhole : WholeItems p.itemsSize p.queue.items)
    (hq : p.queue.items = buff :: rest)
    (hthere : p.reserveBytes ≤ p.enqueuedBytes) :
    p.front fresh m = .error accumulateFault ∨
      ∃ b p₁ m₁, p.front fresh m = .ok (b, p₁, m₁) ∧
        p₁.queue.items.head? = Option.some b ∧ p.reserveBytes ≤ b.length := by
  have hitem := Nat.ne_of_gt hs.itemsSize
  have hne : p.queue.items ≠ [] := by simp [hq]
  rw [hcount] at hthere
  by_cases hfront : buff.length < p.reserveBytes
  · have hroom := le_wholeMaximum hreserve hs.reserve
    rcases accumulate_outcome fresh m hs hwhole hne with herror |
      ⟨p₁, m₁, b, rest₁, hacc, hq₁, hreserve₁, hitem₁, hmod, hmin, hle⟩
    · exact .inl
        (front_of_refill_error hready hitem hq
          ((refill_eq hfront).trans herror))
    · have hlong : p.reserveBytes ≤ b.length := by omega
      refine .inr ⟨b, p₁, m₁, ?_, by rw [hq₁]; rfl, hlong⟩
      rw [front_cons hready hitem hq ((refill_eq hfront).trans hacc) hq₁,
        hreserve₁, hitem₁, if_pos hlong, if_pos hmod]
  · have hlong := Nat.le_of_not_lt hfront
    have hmod : buff.length % p.itemsSize = 0 := by
      apply hwhole buff
      rw [hq]
      exact List.mem_cons_self
    have hrefill : p.refill fresh m buff = .ok (p, m) := if_neg hfront
    refine .inr ⟨buff, p, m, ?_, by rw [hq]; rfl, hlong⟩
    rw [front_cons hready hitem hq hrefill hq, if_pos hlong, if_pos hmod]

end Front

end InputPort

/-- **When a ready port can be looked at**: a block may work, and the entries of
the port, if there are any, make up the reserve.

A port is ready with a message alone, so the work may begin with fewer bytes
than the reserve, and `front` then accumulates towards a length that the queue
does not have.  Both directions are about the state before `front` is called. -/
theorem front_meets_iff {st : InputRun}
    (h : InputRun.allowedSystem.Reachable st) {b : BlockActor} {i : Nat}
    (hi : i < b.numInputs) (hallowed : b.isWorkAllowed = true)
    (hport : b.inputQueues i = st.port) {itemSize reserveItems : Nat}
    (hitem : st.port.itemsSize = itemSize) (hpos : 1 ≤ itemSize)
    (hreserve : st.port.reserveBytes = itemSize * reserveItems)
    (hwhole : WholeItems itemSize st.port.queue.items) (fresh : Allocation)
    (m : Memory) :
    (b.inputQueues i).FrontMeets fresh m ↔
      (b.inputQueues i).queue.items = [] ∨
        (b.inputQueues i).reserveBytes ≤ (b.inputQueues i).enqueuedBytes := by
  have hready : st.port.ready = true := by
    rw [← hport]
    have hready :=
      (BlockActor.isReady_iff.mp (BlockActor.isWorkAllowed_iff.mp hallowed).2)
    exact BlockActor.inputsReady_iff.mp hready.2.2.1 i hi
  have hs := InputRun.sized_of_reachable h (by omega)
  have hcount := InputRun.counted_of_reachable h.of_restrict
  have hmod : st.port.reserveBytes % st.port.itemsSize = 0 := by
    rw [hreserve, hitem]
    exact Nat.mul_mod_right itemSize reserveItems
  rw [hport]
  subst hitem
  cases hq : st.port.queue.items with
  | nil =>
      have hfront :=
        InputPort.front_empty fresh m hready (Nat.ne_of_gt hs.itemsSize) hq
      refine iff_of_true ⟨?_, ?_, ?_⟩ (.inl rfl)
      · intro e he
        rw [hfront] at he
        cases he
      · intro b p' m' hok
        rw [hfront] at hok
        cases hok
        rw [hq]
        rfl
      · intro b p' m' _ hthere
        have hzero : st.port.enqueuedBytes = 0 := by
          rw [hcount, hq]
          rfl
        omega
  | cons buff rest =>
      by_cases hthere : st.port.reserveBytes ≤ st.port.enqueuedBytes
      · refine iff_of_true ?_ (.inr hthere)
        rcases InputPort.front_reserve fresh m hs hready hcount hmod hwhole hq
          hthere with herror | ⟨b, p₁, m₁, hok, hhead, hlong⟩
        · refine ⟨fun e he => ?_, fun b p' m' hok => ?_, fun b p' m' hok => ?_⟩
          · rw [herror] at he
            cases he
            rfl
          · rw [herror] at hok
            cases hok
          · rw [herror] at hok
            cases hok
        · refine ⟨fun e he => ?_, fun b p' m' hok' => ?_,
            fun b p' m' hok' _ => ?_⟩
          · rw [hok] at he
            cases he
          · rw [hok] at hok'
            cases hok'
            rw [hhead]
            rfl
          · rw [hok] at hok'
            cases hok'
            exact hlong
      · refine iff_of_false (fun hmeets => ?_) ?_
        · have herror := InputPort.front_below_reserve fresh m hs hready hcount
            hmod hwhole hq (Nat.lt_of_not_le hthere)
          exact absurd (hmeets.returns _ herror) (by decide)
        · rintro (hnil | hthere')
          · cases hnil
          · exact hthere hthere'

/-! ## A message and a part of the reserve -/

namespace BlockActor

/-- A live block with that port and one pending message. -/
def withMessage (p : InputPort) : BlockActor :=
  { made 0 InputPort.flatMemory with
    numInputs := 1
    inputQueues := fun _ => p
    inputMsgs := fun _ => [7]
    inputsAvailable := .ofSize 1 true
    blockState := .live }

theorem withMessage_allowed {p : InputPort} (h : p.ready = true) :
    (withMessage p).isWorkAllowed = true := by
  refine isWorkAllowed_iff.mpr ⟨rfl, isReady_iff.mpr ⟨rfl, rfl, ?_, rfl⟩⟩
  exact inputsReady_iff.mpr fun _ _ => h

/-- Items of two bytes with a reserve of two of them, so many bytes, and a
message. -/
def messageRun (bytes : Nat) : List InputEvent :=
  [.configure 0 (InputPort.flatAux 65536) 2 0 4 0,
    .push 0 (InputPort.flatChunk 5 300000 bytes), .hasMsg 0 true]

/-- What is known of the port after such a run. -/
def messagePort (bytes : Nat) : Option (Bool × Nat × Nat × Nat × List Nat) :=
  (TransitionSystem.runRestricted InputRun.Allowed InputRun.next
    (messageRun bytes)
    InputRun.start).map fun st =>
      (st.port.ready, st.port.itemsSize, st.port.reserveBytes,
      st.port.enqueuedBytes, st.port.queue.items.map SBuffer.length)

theorem exists_messagePort {bytes itemSize reserve enqueued : Nat}
    {lengths : List Nat}
    (h : messagePort bytes =
      some (true, itemSize, reserve, enqueued, lengths)) :
    ∃ st, InputRun.allowedSystem.Reachable st ∧ st.port.ready = true ∧
      st.port.itemsSize = itemSize ∧ st.port.reserveBytes = reserve ∧
      st.port.enqueuedBytes = enqueued ∧
      st.port.queue.items.map SBuffer.length = lengths := by
  obtain ⟨st, hst, hseen⟩ := Option.map_eq_some_iff.mp h
  simp only [Prod.mk.injEq] at hseen
  exact ⟨st, TransitionSystem.Reachable.of_restricted_events _
    (.init InputRun.start_resized) hst, hseen⟩

end BlockActor

theorem wholeItems_of_lengths {itemSize : Nat} {q : List SBuffer}
    {lengths : List Nat} (hlengths : q.map SBuffer.length = lengths)
    (h : ∀ n ∈ lengths, n % itemSize = 0) : WholeItems itemSize q := by
  intro b hb
  apply h
  rw [← hlengths]
  exact List.mem_map_of_mem hb

/-- The reserve and a message. -/
theorem front_meets_iff_reserve :
    ∃ b : BlockActor, b.isWorkAllowed = true ∧
      (b.inputQueues 0).reserveBytes = 4 ∧
      (b.inputQueues 0).FrontMeets ⟨9, 0⟩ InputPort.flatMemory := by
  obtain ⟨st, hst, hready, hitem, hreserve, henq, hlengths⟩ :=
    BlockActor.exists_messagePort
    (show BlockActor.messagePort 4 = some (true, 2, 4, 4, [4]) by decide)
  have hallowed := BlockActor.withMessage_allowed hready
  refine ⟨_, hallowed, hreserve, ?_⟩
  refine (front_meets_iff hst Nat.one_pos hallowed rfl hitem (by decide)
    (show _ = 2 * 2 from hreserve)
    (wholeItems_of_lengths hlengths (by decide)) _ _).mpr (.inr ?_)
  show st.port.reserveBytes ≤ st.port.enqueuedBytes
  omega

/-- **A message below the reserve**: two of the four bytes are there when it
arrives, the block may work, and looking at the front fails. -/
theorem front_fails_below_reserve :
    ¬ ∀ (st : InputRun) (b : BlockActor) (i itemSize reserveItems : Nat)
      (fresh : Allocation)
      (m : Memory), InputRun.allowedSystem.Reachable st → i < b.numInputs →
      b.isWorkAllowed = true → b.inputQueues i = st.port →
      st.port.itemsSize = itemSize →
      1 ≤ itemSize → st.port.reserveBytes = itemSize * reserveItems →
      WholeItems itemSize st.port.queue.items →
      (b.inputQueues i).FrontMeets fresh m := by
  intro hall
  obtain ⟨st, hst, hready, hitem, hreserve, henq, hlengths⟩ :=
    BlockActor.exists_messagePort
    (show BlockActor.messagePort 2 = some (true, 2, 4, 2, [2]) by decide)
  have hwhole : WholeItems 2 _ := wholeItems_of_lengths hlengths (by decide)
  have hmeets := hall st (BlockActor.withMessage st.port) 0 2 2
    ⟨9, 0⟩ InputPort.flatMemory hst
    Nat.one_pos (BlockActor.withMessage_allowed hready) rfl hitem
      (by decide) hreserve hwhole
  have hs := InputRun.sized_of_reachable hst (by omega)
  have hcount := InputRun.counted_of_reachable hst.of_restrict
  obtain ⟨buff, rest, hq⟩ := List.exists_cons_of_ne_nil
    (show st.port.queue.items ≠
      [] by rintro hnil; rw [hnil] at hlengths; cases hlengths)
  have herror := InputPort.front_below_reserve ⟨9, 0⟩ InputPort.flatMemory hs
    hready hcount (by rw [hitem, hreserve]) (hitem ▸ hwhole) hq (by omega)
  exact absurd (hmeets.returns _ herror) (by decide)

/-- A sink that wants four items gets two, and then a message. -/
def messageAfterPart : Checked BlockActor := do
  let inputConfigs : Nat → InputPortConfig := fun _ => { reserveItems := 4 }
  let b := { BlockActor.made 0 BlockActor.addressMemory with inputConfigs }
  let b ← b.handleTopology {} 1 0 none
  let b := b.handleTopActive {} none
  let b ← b.handleInputBuffer {} 0 ⟨1, { memory := 100, length := 16 }, 0, 2, 0⟩
  b.handleInputMsg {} 0 7

example : (match messageAfterPart with | .ok _ => none | .error e => some e) =
    some (.assertFail "_queues[i].front().length >= _reserve_bytes[i]") :=
  by decide

end Gras
