import Gras.Lib.TransitionSystem
import Gras.Buffers.InputBytes

/-!
# An input port as a FIFO of bytes

The runs of one port after `resize` and `update_config`, in which any slice of
any buffer may be pushed, and the stream the port should hold: what was pushed
and not yet consumed.

* `FifoState.Allowed` says what the surroundings promise: slices lie inside
  their buffers, a free auxiliary buffer is referred to by nobody, the allocator
  hands out memory of its own, and nobody writes into bytes that are enqueued.
* `FifoState.Safe` is the condition under which stitching and un-stitching move
  bytes that are really there.
* `fifo_of_safe`: in every run that meets it the queue denotes the stream.
* `fifo_collision`: a run that does not meet it replaces a byte of the stream.

### What the condition is for

Slices of one buffer that follow each other are stitched: the entry grows and
its neighbour vanishes.  Whether they follow each other is read off two
pointers, the `last` of the neighbour and the end of the entry; these are equal
for neighbours in one buffer, but also where two buffers happen to touch in
memory.  `Safe` asks that the bytes behind the end are those of the neighbour
when a stitch is made, and the same of the bytes below an entry when one is
undone.  It holds of every step in which only neighbours of one buffer pass the
test.
-/

namespace Gras

/-- A port in its memory, with the stream it should hold. -/
structure FifoState where
  port : InputPort
  memory : Memory
  stream : List Byte

/-- What happens to a port. -/
inductive FifoEvent where
  | push (now : Int) (buffer : SBuffer)
  | front (fresh : Allocation)
  | accumulate (fresh : Allocation)
  | consume (now : Int) (items : Nat)
  /-- The last handle to an auxiliary buffer went, its token brings it back. -/
  | recycle (buffer : SBuffer)
  /-- Someone else writes to memory. -/
  | store (address : Nat) (bytes : List Byte)

namespace FifoState

/-- The port's own operations, with the stream kept beside them. -/
def next (st : FifoState) : FifoEvent → Checked FifoState
  | .push now buffer => do
      let port ← st.port.push now buffer
      return { st with port, stream := st.stream ++ buffer.bytes st.memory }
  | .front fresh => do
      let (_, port, memory) ← st.port.front fresh st.memory
      return { st with port, memory }
  | .accumulate fresh => do
      let (port, memory) ← st.port.accumulate fresh st.memory
      return { st with port, memory }
  | .consume now items => do
      let port ← st.port.consume now items
      return { st with port, stream := st.stream.drop (items * st.port.itemsSize) }
  | .recycle buffer =>
      return { st with
        port := { st.port with
          auxQueue := st.port.auxQueue.map (·.pushBack buffer) } }
  | .store address bytes =>
      return { st with memory := st.memory.writeRange address bytes }

/-- A buffer that may enter the auxiliary queue: its memory is its own. -/
structure Free (st : FifoState) (buffer : SBuffer) : Prop where
  injective : buffer.Injective st.memory.phys
  separate : ∀ b ∈ st.port.queue.items, buffer.Separate st.memory.phys b
  apart : ∀ a ∈ st.port.auxBuffers, a.Apart st.memory.phys buffer

/-- The allocator hands out memory of its own. -/
def FreshBuffer (st : FifoState) (fresh : Allocation) : Prop :=
  ∀ aux ∈ st.port.auxQueue.toList,
    st.Free (aux.newBuffer fresh st.port.maximumBytes)

/-- What the surroundings promise. -/
def Allowed (st : FifoState) : FifoEvent → Prop
  | .push _ buffer =>
      buffer.extent ≤ buffer.config.length ∧
        ∀ a ∈ st.port.auxBuffers, a.Apart st.memory.phys buffer
  | .front fresh => st.FreshBuffer fresh
  | .accumulate fresh => st.FreshBuffer fresh
  | .consume _ _ => True
  | .recycle buffer => st.Free buffer
  | .store address bytes =>
      ∀ b ∈ st.port.queue.items, ∀ j < b.length, ∀ k < bytes.length,
        st.memory.phys (b.get 0 + j) ≠ st.memory.phys (address + k)

/-- A port that was just configured: `resize`, then `update_config` with preload
that fits an auxiliary buffer. -/
def Configured (st : FifoState) : Prop :=
  ∃ (initTime now now' : Int) (fresh : InputPort.AuxAllocations)
    (itemSize preloadBytes reserveBytes maximumBytes : Nat) (m : Memory),
    (InputPort.resized initTime now).updateConfig now' fresh itemSize
    preloadBytes
        reserveBytes maximumBytes m = .ok (st.port, st.memory) ∧
      preloadBytes ≤ st.port.maximumBytes ∧
      st.stream = List.replicate preloadBytes 0 ∧
      (∀ a ∈ (fresh.queue st.port.maximumBytes).buffers, a.Injective m.phys) ∧
      (fresh.queue st.port.maximumBytes).buffers.Pairwise (SBuffer.Apart m.phys)

/-- The runs of a port. -/
def system : TransitionSystem FifoState FifoEvent :=
  (TransitionSystem.ofNext Configured next).restrict Allowed

/-- **The condition on a step.**  When a push passes the stitch test, the bytes
of the second buffer really follow the first one; when a consume passes the
un-stitch test, the bytes below the offset of the second buffer really are the
rest of the first one. -/
def Safe (st : FifoState) : FifoEvent → Prop
  | .push _ buffer => 0 < buffer.length →
      InputPort.StitchSafe st.memory.phys (st.port.queue.items ++ [buffer])
  | .consume _ items =>
      InputPort.UnstitchSafe st.memory
        (InputPort.drained (items * st.port.itemsSize) st.port.queue.items)
  | _ => True

/-- The runs whose steps are all safe. -/
def safeSystem : TransitionSystem FifoState FifoEvent :=
  (TransitionSystem.ofNext Configured next).restrict fun st ev =>
    st.Allowed ev ∧ st.Safe ev

instance (phys : Nat → Nat) (a b : SBuffer) : Decidable (a.Separate phys b) :=
  inferInstanceAs (Decidable (∀ _ < _, ∀ _ < _, _ ≠ _))

instance (phys : Nat → Nat) (a b : SBuffer) : Decidable (a.Apart phys b) :=
  inferInstanceAs (Decidable (∀ _ < _, ∀ _ < _, _ ≠ _))

instance (phys : Nat → Nat) (a : SBuffer) : Decidable (a.Injective phys) :=
  inferInstanceAs (Decidable (∀ _ < _, ∀ _ < _, _ ≠ _))

instance (st : FifoState) (buffer : SBuffer) : Decidable (st.Free buffer) :=
  decidable_of_iff
    (buffer.Injective st.memory.phys ∧
      (∀ b ∈ st.port.queue.items, buffer.Separate st.memory.phys b) ∧
      ∀ a ∈ st.port.auxBuffers, a.Apart st.memory.phys buffer)
    ⟨fun h => ⟨h.1, h.2.1, h.2.2⟩, fun h => ⟨h.1, h.2, h.3⟩⟩

instance (st : FifoState) (fresh : Allocation) :
    Decidable (st.FreshBuffer fresh) :=
  inferInstanceAs (Decidable (∀ _ ∈ _, _))

instance (st : FifoState) : ∀ ev, Decidable (st.Allowed ev)
  | .push _ _ => inferInstanceAs (Decidable (_ ∧ ∀ _ ∈ _, _))
  | .front fresh => inferInstanceAs (Decidable (st.FreshBuffer fresh))
  | .accumulate fresh => inferInstanceAs (Decidable (st.FreshBuffer fresh))
  | .consume _ _ => inferInstanceAs (Decidable True)
  | .recycle buffer => inferInstanceAs (Decidable (st.Free buffer))
  | .store _ _ => inferInstanceAs (Decidable (∀ _ ∈ _, ∀ _ < _, ∀ _ < _, _ ≠ _))

instance (st : FifoState) : ∀ ev, Decidable (st.Safe ev)
  | .push _ _ => inferInstanceAs (Decidable (_ → _))
  | .consume _ _ => inferInstanceAs (Decidable (InputPort.UnstitchSafe _ _))
  | .front _ => inferInstanceAs (Decidable True)
  | .accumulate _ => inferInstanceAs (Decidable True)
  | .recycle _ => inferInstanceAs (Decidable True)
  | .store _ _ => inferInstanceAs (Decidable True)

end FifoState

/-! ## The invariant -/

/-- The queue denotes the stream, and the free auxiliary buffers are nobody
else's memory. -/
structure FifoInv (st : FifoState) : Prop where
  content : queueBytes st.memory st.port.queue.items = st.stream
  injective : ∀ a ∈ st.port.auxBuffers, a.Injective st.memory.phys
  separate : ∀ a ∈ st.port.auxBuffers, ∀ b ∈ st.port.queue.items,
    a.Separate st.memory.phys b
  apart : st.port.auxBuffers.Pairwise (SBuffer.Apart st.memory.phys)

namespace FifoInv

open InputPort FifoState

variable {st : FifoState} {p' : InputPort} {m' : Memory}

theorem auxBuffers_of_eq {p p' : InputPort} (h : p'.auxQueue = p.auxQueue) :
    p'.auxBuffers = p.auxBuffers := by
  rw [auxBuffers, h, auxBuffers]

/-- What reaches no further keeps the auxiliary buffers free. -/
theorem of_reaches (h : FifoInv st) {stream' : List Byte}
    (haux : p'.auxQueue = st.port.auxQueue)
    (hreach : Reaches st.memory.phys st.port.queue.items p'.queue.items)
    (hcontent : queueBytes st.memory p'.queue.items = stream') :
    FifoInv { st with port := p', stream := stream' } where
  content := hcontent
  injective a ha := h.injective a (auxBuffers_of_eq haux ▸ ha)
  separate a ha := hreach.separate (h.separate a (auxBuffers_of_eq haux ▸ ha))
  apart := by
    show p'.auxBuffers.Pairwise _
    rw [auxBuffers_of_eq haux]
    exact h.apart

/-- `push`. -/
theorem push (h : FifoInv st) {now : Int} {buffer : SBuffer}
    (hok : st.Allowed (.push now buffer)) (hsafe : st.Safe (.push now buffer))
    (hpush : st.port.push now buffer = .ok p') :
    FifoInv { st with port := p', stream := st.stream ++ buffer.bytes st.memory } := by
  obtain ⟨hbound, hfree⟩ := hok
  obtain ⟨haux, -, -, ⟨hlen, hq⟩ | ⟨hlen, hq⟩⟩ := push_cases hpush
  · refine h.of_reaches haux (hq ▸ Reaches.refl _ _) ?_
    rw [hq, h.content, SBuffer.bytes_eq_nil hlen, List.append_nil]
  · have hst := hsafe hlen
    refine ⟨?_, fun a ha => h.injective a (auxBuffers_of_eq haux ▸ ha), ?_, ?_⟩
    · show queueBytes st.memory p'.queue.items = _
      rw [hq, dropStitched_bytes, stitchLoop_bytes hst,
        queueBytes_append, h.content]
      simp
    · intro a ha
      have ha' : a ∈ st.port.auxBuffers := auxBuffers_of_eq haux ▸ ha
      have hall : ∀ b ∈ st.port.queue.items ++ [buffer],
          a.Separate st.memory.phys b := by
        intro b hb
        rcases List.mem_append.mp hb with hb | hb
        · exact h.separate a ha' b hb
        · rw [List.mem_singleton.mp hb]
          exact (hfree a ha').separate hbound
      have hreach := (stitchLoop_reaches hst).trans
        (Reaches.of_subset fun b => mem_of_mem_dropStitched)
      show ∀ b ∈ p'.queue.items, _
      rw [hq]
      exact hreach.separate hall
    · show p'.auxBuffers.Pairwise _
      rw [auxBuffers_of_eq haux]
      exact h.apart

/-- `consume`. -/
theorem consume (h : FifoInv st) {now : Int} {items : Nat}
    (hsafe : st.Safe (.consume now items))
    (hcons : st.port.consume now items = .ok p') :
    FifoInv { st with
      port := p', stream := st.stream.drop (items * st.port.itemsSize) } := by
  obtain ⟨haux, -, -, -, front, rest, hq, hle, hq'⟩ := consume_cases hcons
  refine h.of_reaches haux ?_ ?_
  · rw [hq', hq]
    exact (drained_reaches _ hle).trans (unstitch_reaches _ _)
  · rw [hq', unstitch_bytes hsafe, hq, drained_bytes hle, ← hq, h.content]

/-- The auxiliary buffers with a fresh one, when one is needed. -/
theorem auxAvailable_free (h : FifoInv st) {fresh : Allocation}
    {aux : SimpleBufferQueue} (haux : st.port.auxQueue = some aux)
    (hfresh : st.FreshBuffer fresh) :
    (∀ a ∈ (auxAvailable fresh st.port.maximumBytes aux).buffers,
      a.Injective st.memory.phys ∧
        ∀ b ∈ st.port.queue.items, a.Separate st.memory.phys b) ∧
      (auxAvailable fresh st.port.maximumBytes aux).buffers.Pairwise
        (SBuffer.Apart st.memory.phys) := by
  have hbuffers : st.port.auxBuffers = aux.buffers := by rw [auxBuffers, haux]
  unfold auxAvailable
  split
  · rename_i hnil
    have hnil' : aux.buffers = [] := by simpa using hnil
    have hfree := hfresh aux (by simp [haux])
    simp only [SimpleBufferQueue.allocateOne, SimpleBufferQueue.pushBack, hnil',
      List.nil_append, List.mem_singleton, forall_eq]
    exact ⟨⟨hfree.injective, hfree.separate⟩, List.pairwise_singleton _ _⟩
  · rw [← hbuffers]
    exact ⟨fun a ha => ⟨h.injective a ha, h.separate a ha⟩, h.apart⟩

/-- `accumulate`. -/
theorem accumulate (h : FifoInv st) {fresh : Allocation}
    (hfresh : st.FreshBuffer fresh)
    (hacc : st.port.accumulate fresh st.memory = .ok (p', m')) :
    FifoInv { st with port := p', memory := m' } := by
  obtain ⟨rfl, rfl⟩ | ⟨aux, buff, buffers, -, haux, hbuff, haux', -, -,
      hq, hm, -⟩ :=
    accumulate_cases hacc
  · exact h
  · obtain ⟨hfree, hapart⟩ := h.auxAvailable_free haux hfresh
    rw [hbuff] at hfree hapart
    obtain ⟨hinj, hsep⟩ := hfree buff List.mem_cons_self
    have hphys : m'.phys = st.memory.phys := hm ▸ gathered_phys _ _ _
    obtain ⟨bytes, hbytes, haccum⟩ := gathered_accum st.port buff st.memory
    have haux₂ : p'.auxBuffers = buffers := by rw [auxBuffers, haux']
    refine ⟨?_, ?_, ?_, ?_⟩
    · show queueBytes m' p'.queue.items = st.stream
      rw [hq, hm, gathered_bytes hinj hsep, h.content]
    · show ∀ a ∈ p'.auxBuffers, a.Injective m'.phys
      rw [haux₂, hphys]
      exact fun a ha => (hfree a (List.mem_cons_of_mem _ ha)).1
    · show ∀ a ∈ p'.auxBuffers, ∀ b ∈ p'.queue.items, a.Separate m'.phys b
      rw [haux₂, hq, hphys]
      intro a ha b hb
      rcases List.mem_cons.mp hb with rfl | hb
      · -- the accumulation buffer lies in another auxiliary buffer's memory
        rw [haccum]
        have hba := (List.pairwise_cons.mp hapart).1 a ha
        intro i hi j hj
        exact (hba j
          (Nat.lt_of_lt_of_le hj (by simpa [SBuffer.extent])) i hi).symm
      · obtain ⟨b₀, hb₀, hconfig, hextent⟩ := gathered_extent b hb
        have hsep₀ := (hfree a (List.mem_cons_of_mem _ ha)).2 b₀ hb₀
        intro i hi j hj
        rw [hconfig]
        exact hsep₀ i hi j (hextent ▸ hj)
    · show p'.auxBuffers.Pairwise (SBuffer.Apart m'.phys)
      rw [haux₂, hphys]
      exact (List.pairwise_cons.mp hapart).2

/-- An auxiliary buffer that comes back. -/
theorem recycle (h : FifoInv st) {buffer : SBuffer} (hfree : st.Free buffer) :
    FifoInv { st with
      port := { st.port with
        auxQueue := st.port.auxQueue.map (·.pushBack buffer) } } := by
  have haux : ({ st.port with
      auxQueue := st.port.auxQueue.map (·.pushBack buffer) }
        : InputPort).auxBuffers = st.port.auxBuffers ++ [buffer] ∨
      ({ st.port with auxQueue := st.port.auxQueue.map (·.pushBack buffer) }
        : InputPort).auxBuffers = st.port.auxBuffers := by
    unfold auxBuffers
    cases st.port.auxQueue with
    | none => exact .inr rfl
    | some aux => exact .inl rfl
  rcases haux with haux | haux
  · refine ⟨h.content, ?_, ?_, ?_⟩
    · intro a ha
      rw [haux, List.mem_append, List.mem_singleton] at ha
      rcases ha with ha | rfl
      · exact h.injective a ha
      · exact hfree.injective
    · intro a ha
      rw [haux, List.mem_append, List.mem_singleton] at ha
      rcases ha with ha | rfl
      · exact h.separate a ha
      · exact hfree.separate
    · rw [haux, List.pairwise_append]
      refine ⟨h.apart, List.pairwise_singleton _ _, fun a ha b hb => ?_⟩
      rw [List.mem_singleton.mp hb]
      exact hfree.apart a ha
  · refine ⟨h.content, fun a ha => h.injective a (haux ▸ ha),
      fun a ha => h.separate a (haux ▸ ha), ?_⟩
    rw [haux]
    exact h.apart

/-- Someone else's bytes. -/
theorem store (h : FifoInv st) {address : Nat} {bytes : List Byte}
    (hok : st.Allowed (.store address bytes)) :
    FifoInv { st with memory := st.memory.writeRange address bytes } := by
  have hphys := st.memory.phys_writeRange address bytes
  refine ⟨?_, ?_, ?_, ?_⟩
  · refine Eq.trans (queueBytes_congr fun b hb k hk => ?_) h.content
    exact st.memory.read_writeRange_of_ne (hok b hb k hk)
  · rw [hphys]
    exact h.injective
  · rw [hphys]
    exact h.separate
  · rw [hphys]
    exact h.apart

/-- **One step.** -/
theorem step (h : FifoInv st) {ev : FifoEvent} {st' : FifoState}
    (hok : st.Allowed ev) (hsafe : st.Safe ev) (hnext : st.next ev = .ok st') :
    FifoInv st' := by
  cases ev with
  | push now buffer =>
      simp only [FifoState.next, Checked.bind_eq_ok, Checked.pure_eq_ok] at hnext
      obtain ⟨p, hp, rfl⟩ := hnext
      exact h.push hok hsafe hp
  | front fresh =>
      simp only [FifoState.next, Checked.bind_eq_ok, Checked.pure_eq_ok] at hnext
      obtain ⟨⟨b, p, m⟩, hp, rfl⟩ := hnext
      obtain ⟨-, ⟨-, -, rfl, rfl⟩ | ⟨⟨rfl, rfl⟩ | hacc, -⟩⟩ := front_cases hp
      · exact h
      · exact h
      · exact h.accumulate hok hacc
  | accumulate fresh =>
      simp only [FifoState.next, Checked.bind_eq_ok,
        Checked.pure_eq_ok] at hnext
      obtain ⟨⟨p, m⟩, hp, rfl⟩ := hnext
      exact h.accumulate hok hp
  | consume now items =>
      simp only [FifoState.next, Checked.bind_eq_ok, Checked.pure_eq_ok] at hnext
      obtain ⟨p, hp, rfl⟩ := hnext
      exact h.consume hsafe hp
  | recycle buffer =>
      cases hnext
      exact h.recycle hok
  | store address bytes =>
      cases hnext
      exact h.store hok

/-- A configured port holds its preload. -/
theorem configured (h : st.Configured) : FifoInv st := by
  obtain ⟨initTime, now, now', fresh, itemSize, preloadBytes, reserveBytes,
      maximumBytes,
    m, hconfig, hfit, hstream, hinj, hapart⟩ := h
  obtain ⟨-, -, -, -,
      ⟨hzero, hq, hm, haux⟩ | ⟨-, buff, buffers, hbuff, hq, hm, haux⟩⟩ :=
    updateConfig_resized hconfig
  · have haux' : st.port.auxBuffers =
        (fresh.queue st.port.maximumBytes).buffers := by
      rw [auxBuffers, haux]
    refine ⟨?_, ?_, ?_, ?_⟩
    · rw [hq, hstream, hzero]
      rfl
    · rw [haux', hm]
      exact hinj
    · rw [hq]
      exact fun a _ b hb => absurd hb List.not_mem_nil
    · rw [haux', hm]
      exact hapart
  · have haux' : st.port.auxBuffers = buffers := by rw [auxBuffers, haux]
    have hphys : st.memory.phys = m.phys :=
      hm ▸ ByteMemory.phys_writeRange _ _ _
    have hlen : buff.config.length = st.port.maximumBytes :=
      fresh.queue_length _ _ (hbuff ▸ List.mem_cons_self)
    rw [hbuff] at hinj hapart
    refine ⟨?_, ?_, ?_, ?_⟩
    · rw [hq, hstream, queueBytes_cons, queueBytes_nil, List.append_nil, hm]
      have hread := m.read_writeRange (a := buff.config.memory)
        (l := List.replicate preloadBytes 0) (fun j k hjk hk => ?_)
      · have := ByteMemory.readRange_eq_of_getElem _ hread
        rw [List.length_replicate] at this
        exact this
      · rw [List.length_replicate] at hk
        exact hinj buff List.mem_cons_self k (by omega) j hjk
    · rw [haux', hphys]
      exact fun a ha => hinj a (List.mem_cons_of_mem _ ha)
    · rw [haux', hq, hphys]
      intro a ha b hb i hi j hj
      rw [List.mem_singleton.mp hb] at hj ⊢
      refine ((List.pairwise_cons.mp hapart).1 a ha j ?_ i hi).symm
      simp only [SBuffer.extent] at hj
      omega
    · rw [haux', hphys]
      exact (List.pairwise_cons.mp hapart).2

theorem of_reachable (h : FifoState.safeSystem.Reachable st) : FifoInv st :=
  h.invariant (fun _ => configured) fun _ _ _ _ hinv hstep =>
    hinv.step hstep.1.1 hstep.1.2 hstep.2

end FifoInv

/-- **The queue is a FIFO of bytes** in every run whose steps are safe.

A safe push stitches only where the bytes behind the end of an entry are the
cells of its neighbour, and a safe consume un-stitches only where the bytes
below the next entry are those of the entry it replaces.  What it excludes are
two impls that meet in memory by chance: `last` marks that agree over memory
that does not. -/
theorem fifo_of_safe {st : FifoState} (h : FifoState.safeSystem.Reachable st) :
    queueBytes st.memory st.port.queue.items = st.stream :=
  (FifoInv.of_reachable h).content

/-! ## Runs -/

namespace FifoState

/-- Memory in which every byte is its address. -/
def plainMemory : Memory where
  phys := id
  cell := UInt8.ofNat

/-- Three auxiliary buffers of four bytes from address 100 on. -/
def plainAux : InputPort.AuxAllocations where
  first := ⟨1, 100⟩
  second := ⟨2, 104⟩
  third := ⟨3, 108⟩
  token := 1

/-- A port for single bytes that wants three of them and takes four at most. -/
def plainStart : FifoState where
  port := { InputPort.resized 0 0 with
    itemsSize := 1
    reserveBytes := 3
    maximumBytes := 4
    auxQueue := some (plainAux.queue 4) }
  memory := plainMemory
  stream := []

theorem plainStart_configured : plainStart.Configured :=
  ⟨0, 0, 0, plainAux, 1, 0, 3, 4, plainMemory, rfl,
    by decide, rfl, by decide, by decide⟩

/-- Two chunks of one buffer, then one that is accumulated in part. -/
def safeRun : Option FifoState :=
  TransitionSystem.runRestricted (fun st ev => st.Allowed ev ∧ st.Safe ev) next
    [.push 0 ⟨10, { memory := 200, length := 4 }, 0, 2, 200⟩,
      .push 0 ⟨10, { memory := 200, length := 4 }, 2, 2, 202⟩,
      .push 0 ⟨11, { memory := 44, length := 6 }, 0, 6, 0⟩,
      .consume 0 2, .front ⟨4, 112⟩, .consume 0 3] plainStart

/-- A short chunk, then the rest of a slice that its holder moved on before it
was forwarded. -/
def collisionRun : Option FifoState :=
  TransitionSystem.runRestricted Allowed next
    [.push 0 ⟨10, { memory := 200, length := 2 }, 0, 2, 0⟩,
      .push 0 ⟨11, { memory := 40, length := 10 }, 4, 6, 0⟩,
      .front ⟨4, 112⟩, .consume 0 1] plainStart

end FifoState

theorem fifo_of_safe_safeRun :
    ∃ st, FifoState.safeRun = some st ∧ st.stream = [45, 46, 47, 48, 49] ∧
      queueBytes st.memory st.port.queue.items = st.stream := by
  have hrun : FifoState.safeRun.map (fun st => st.stream) =
      some [45, 46, 47, 48, 49] := by
    decide
  obtain ⟨st, hst, hstream⟩ := Option.map_eq_some_iff.mp hrun
  exact ⟨st, hst, hstream, fifo_of_safe
    (TransitionSystem.Reachable.of_restricted_events _
      (.init FifoState.plainStart_configured) hst)⟩

/-- **Un-stitching invents bytes.**  The second buffer was accumulated in part,
so its `last` is the end of the front, but below its offset there are bytes that
never were in the stream. -/
theorem fifo_collision :
    ∃ st, FifoState.system.Reachable st ∧
      queueBytes st.memory st.port.queue.items ≠ st.stream := by
  have hrun : FifoState.collisionRun.map
      (fun st => (queueBytes st.memory st.port.queue.items, st.stream))
      = some ([43, 44, 45, 46, 47, 48, 49], [201, 44, 45, 46, 47, 48, 49]) := by
    decide
  obtain ⟨st, hst, heq⟩ := Option.map_eq_some_iff.mp hrun
  rw [Prod.mk.injEq] at heq
  refine ⟨st, TransitionSystem.Reachable.of_restricted_events _
    (.init FifoState.plainStart_configured) hst, ?_⟩
  rw [heq.1, heq.2]
  decide

end Gras
