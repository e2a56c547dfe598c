import Gras.Buffers.Connection
import Gras.Buffers.OutputPorts

/-!
# The stream of a connection

The invariant of `Connection`, one lemma for each event, and the refinement.

The front of the input queue may be an accumulation buffer (`accum`), whose
bytes are a copy; all the other handles, `rest` in the queue and the ones in
flight, are slices of the producer's buffers.

### The argument

The abstract connection is a FIFO of bytes; the real one is a queue of handles
on buffers, whose bytes lie in a memory that the producer writes into again as
soon as a handle is dropped.  The invariant has two halves.  One is about
lengths and order: the handles in the queue and on their way cover the stream
from the first byte that is not consumed to the last that is produced.  The
other is about memory: no live handle meets the bytes that are being written,
which is what the backing of the producer promises (`Backing`), for a pool and
for a ring alike.
-/

namespace Gras

namespace OutputPort

variable {p p' p₁ p₂ : OutputPort} {q : BufferQueue} {now : Int}

/-- **A work of the producer, on the queue.**  Nothing was produced and the
queue has only been looked at, or the front was written, posted and popped. -/
theorem work_queue {b chunk : SBuffer} {itemSize items : Nat}
    (hinline : p.inlineBuffer = none) (hq : p.queue = some q)
    (hfront : p.front = .ok (b, p₁)) (hlength : b.length = 0)
    (hfits : items * itemSize < 2 ^ 64)
    (hproduce : p₁.produce itemSize items = .ok p₂)
    (hpost : p₂.post now = .ok (chunk, p')) :
    p'.inlineBuffer = none ∧ ∃ q₁, q.front = .ok (b, q₁) ∧
      (items * itemSize = 0 ∧ p'.queue = some q₁ ∨
        0 < items * itemSize ∧ ∃ q₂ q₃ q₄,
          (q₁.setFront { b with length := items * itemSize }).front = .ok (chunk, q₂) ∧
          (q₂.setFront { chunk with offset := chunk.offset + chunk.length, length := 0 }).pop
            = .ok q₃ ∧
          p'.queue = some q₄ ∧ (q₄ = q₃ ∨ ∃ b', q₃.front = .ok (b', q₄))) := by
  obtain ⟨q₁, hq₁, rfl⟩ := front_queue hinline hq hfront
  -- `produce` looks at the same front and stores it with the new length
  simp only [produce, Checked.bind_eq_ok, assertThat_eq_ok, Checked.pure_eq_ok,
    Prod.exists] at hproduce
  obtain ⟨b', p₀, hagain, -, -, rfl⟩ := hproduce
  obtain ⟨q₁', hq₁', rfl⟩ :=
    front_queue (p := { p with queue := some q₁ }) hinline rfl hagain
  rw [BufferQueue.front_front hq₁, Except.ok.injEq, Prod.mk.injEq] at hq₁'
  obtain ⟨rfl, rfl⟩ := hq₁'
  rw [producedLength_of_lt (by omega), hlength, Nat.zero_add] at hpost
  -- `post` looks at it once more and consumes it
  simp only [post, Checked.bind_eq_ok, Checked.pure_eq_ok, Prod.mk.injEq,
    Prod.exists] at hpost
  obtain ⟨chunk', p₃, hchunk, p₄, hconsume, rfl, rfl⟩ := hpost
  have hset : ({ p with queue := some q₁ } : OutputPort).setFront
      { b with length := items * itemSize }
        = { p with queue := some (q₁.setFront { b with length := items * itemSize }) } := by
    simp [setFront, hinline]
  rw [hset] at hchunk
  obtain ⟨q₂, hq₂, rfl⟩ :=
    front_queue (p := { p with queue := some _ }) hinline rfl hchunk
  have hlen : chunk'.length = items * itemSize :=
    (BufferQueue.front_setFront hq₁ hq₂).1
  simp only [consume, hinline, Checked.bind_eq_ok, assertThat_eq_ok,
    Prod.exists] at hconsume
  obtain ⟨-, -, b₃, p₅, hlook, hconsume⟩ := hconsume
  obtain ⟨q₂', hq₂', rfl⟩ := front_queue
    (p := { p with queue := some q₂, inlineBuffer := none }) rfl rfl hlook
  rw [BufferQueue.front_front hq₂, Except.ok.injEq, Prod.mk.injEq] at hq₂'
  obtain ⟨rfl, rfl⟩ := hq₂'
  split at hconsume
  · rename_i hzero
    rw [Checked.pure_eq_ok] at hconsume
    subst hconsume
    have hitems : items * itemSize = 0 := hlen ▸ hzero
    refine ⟨rfl, q₁, hq₁, .inl ⟨hitems, ?_⟩⟩
    rw [hitems, ← hlength, show ({ b with length := b.length } : SBuffer) = b
      from rfl, BufferQueue.setFront_front hq₁,
      BufferQueue.front_front hq₁] at hq₂
    rw [Except.ok.injEq, Prod.mk.injEq] at hq₂
    exact congrArg some hq₂.2.symm
  · rename_i hpos
    simp only [setFront, pop, Option.map_some, Checked.bind_eq_ok,
      assertThat_eq_ok] at hconsume
    obtain ⟨-, -, q₃, hpop, hupdate⟩ := hconsume
    obtain ⟨hinline', q₄, hq₄, hlook'⟩ := update_queue 
      (p := { p with queue := some q₃, inlineBuffer := none }) rfl hupdate
    exact ⟨hinline', q₁, hq₁, .inr ⟨by omega, q₂, q₃, q₄, hq₂, hpop, hq₄,
      hlook'⟩⟩

end OutputPort

/-- The queue with all its buffers on their way to it carries the empty
stream. -/
theorem SourceConfig.backing_start (src : SourceConfig) {m : Memory}
    (hmapped : src.Mapped m) :
    src.backing.Inv ⟨m, src.queue, [], src.created, fun _ => 0, []⟩ := by
  cases src with
  | pool cfg sized =>
      refine ⟨_, rfl, ?_⟩
      have hmem : ∀ b ∈ cfg.buffers.map SBuffer.reset, ∃ a ∈ cfg.buffers,
          b = a.reset :=
        fun b hb => (List.mem_map.mp hb).imp fun _ h => ⟨h.1, h.2.symm⟩
      exact
        { phys := hmapped
          token := rfl
          capacity := rfl
          known := fun b hb => by
            obtain ⟨a, ha, rfl⟩ :=
              hmem b (by simpa [BufferQueuePool.make, SourceConfig.created] using hb)
            exact ⟨a, ha, rfl, rfl⟩
          nodup := by
            have : (cfg.buffers.map SBuffer.reset).map SBuffer.impl
                = cfg.buffers.map SBuffer.impl := by simp [Function.comp_def]
            exact this ▸ cfg.impls
          idle := fun b hb => by
            obtain ⟨a, ha, rfl⟩ := hmem b hb
            exact ⟨rfl, rfl, rfl, List.not_mem_nil⟩
          front := fun b hb => by cases hb }
  | ring cfg sized =>
      refine ⟨_, cfg.start.popped, 0, rfl, ?_⟩
      have hindex :
          ((List.range cfg.numBuffs).map cfg.created).map SBuffer.getUserIndex
          = List.range cfg.numBuffs := RingRunInv.start_out cfg
      exact
        { phys := hmapped
          ring := RingRunInv.ring_start cfg
          cells := fun p _ hp => absurd hp (Nat.not_lt_zero _)
          anchors := fun b hb => absurd hb List.not_mem_nil
          lent := fun b hb => by
            obtain ⟨i, -, rfl⟩ := List.mem_map.mp hb
            exact ⟨rfl, rfl, rfl⟩
          free := fun b hb => absurd hb List.not_mem_nil
          waiting := fun i b hb => by cases hb
          nodup := by
            have := List.nodup_range (n := cfg.numBuffs)
            rwa [← hindex] at this
          apart := fun r hr => by
            obtain ⟨i, -, rfl⟩ := List.mem_map.mp hr
            exact ⟨rfl, rfl, List.not_mem_nil⟩ }

/-! ## The invariant -/

/-- An auxiliary buffer of the input port: memory of its own that carries no
stitching mark. -/
structure AuxBuffer (B : Backing) (phys : Nat → Nat) (token : Nat)
    (b : SBuffer) : Prop where
  clear : B.Clear phys b
  token : b.config.token = token
  last : b.last = 0

/-- The bytes of the accumulation buffer at the front, if there is one. -/
def accumLength (accum : Option SBuffer) : Nat :=
  (accum.map SBuffer.length).getD 0

/-- The producer's side of a connection. -/
def Connection.producer (c : Connection) (q : BufferQueue) (rest : List SBuffer)
    (anchor : Nat → Nat) : Producer where
  memory := c.memory
  queue := q
  held := rest ++ c.flight
  returns := c.returns
  anchor
  written := c.written

/-- An accumulation buffer at the front of the queue: a copy of the next
bytes. -/
structure Accumulated (B : Backing) (phys : Nat → Nat) (token : Nat)
    (next : List Byte) (m : Memory) (a : SBuffer) : Prop where
  aux : AuxBuffer B phys token a
  inside : a.extent ≤ a.config.length
  bytes : a.bytes m = next.take a.length

/-- The front of an accumulation buffer goes. -/
theorem Accumulated.skip {B : Backing} {phys : Nat → Nat} {token : Nat}
    {next : List Byte} {m : Memory} {a : SBuffer} {n : Nat}
    (h : Accumulated B phys token next m a) (hle : n ≤ a.length) :
    Accumulated B phys token (next.drop n) m (a.skip n) where
  aux := ⟨⟨h.aux.clear.cells, h.aux.clear.addresses, h.aux.clear.injective⟩,
    h.aux.token, h.aux.last⟩
  inside := by
    rw [InputPort.skip_extent hle]
    exact h.inside
  bytes := by
    rw [SBuffer.bytes, SBuffer.skip_get, List.take_drop]
    rw [show n + (a.skip n).length =
      a.length by simp only [SBuffer.skip]; omega, ← h.bytes,
      SBuffer.bytes, ByteMemory.readRange_drop]
    rfl

/-- **The invariant of a connection.** -/
structure ConnInv (B : Backing) (c : Connection) (q : BufferQueue)
    (anchor : Nat → Nat) (accum : Option SBuffer) (rest : List SBuffer)
    (aux : SimpleBufferQueue) : Prop where
  queue : c.output.queue = some q
  inlineBuffer : c.output.inlineBuffer = none
  itemSize : 0 < c.itemSize
  items : c.input.queue.items = accum.toList ++ rest
  backing : B.Inv (c.producer q rest anchor)
  live : ∀ b ∈ rest ++ c.flight, B.Live (c.producer q rest anchor) b
  tokens : ∀ b ∈ rest ++ c.flight, b.config.token = B.token
  follows : Follows anchor (c.consumed.length + accumLength accum)
    (rest ++ c.flight)
    c.written.length
  accumulated : ∀ a ∈ accum, Accumulated B c.memory.phys aux.token
    (c.written.drop c.consumed.length) c.memory a
  auxQueue : c.input.auxQueue = some aux
  auxToken : aux.token ≠ B.token
  auxBuffers : ∀ a ∈ aux.buffers, AuxBuffer B c.memory.phys aux.token a
  apart : (accum.toList ++ aux.buffers).Pairwise (SBuffer.Apart c.memory.phys)
  consumed : c.consumed = c.written.take c.consumed.length
  window : ∀ w ∈ c.window, w = (c.written.drop c.consumed.length).take w.length

namespace ConnInv

open InputPort

variable {B : Backing} {c c' : Connection} {q : BufferQueue}
  {anchor : Nat → Nat}
variable {accum accum' : Option SBuffer} {rest rest' : List SBuffer}
variable {aux aux' : SimpleBufferQueue}

/-- The accumulation buffer and the slices behind it are a stretch of the
stream. -/
theorem accum_bytes {P : Producer} {Owns : Nat → Prop} {s t : Nat}
    (haccum : ∀ a ∈ accum, a.bytes P.memory = (P.written.drop s).take a.length)
    (hfollows : Follows P.anchor (s + accumLength accum) rest t)
    (hplaced : ∀ b ∈ rest, P.Placed Owns b) :
    queueBytes P.memory (accum.toList ++ rest) =
      (P.written.drop s).take (t - s) := by
  have hle := hfollows.le
  have hrest := hfollows.bytes hplaced
  cases accum with
  | none => exact hrest
  | some a =>
      have hlen : accumLength (some a) = a.length := rfl
      rw [hlen] at hle hrest
      rw [Option.toList_some, List.singleton_append, queueBytes_cons,
        haccum a rfl, hrest, show t - s =
          a.length + (t - (s + a.length)) by omega, List.take_add,
        List.drop_drop]

/-- **The bytes on the way are the bytes written and not consumed.** -/
theorem content (h : ConnInv B c q anchor accum rest aux) :
    queueBytes c.memory c.entries = c.written.drop c.consumed.length := by
  have := accum_bytes (P := c.producer q rest anchor)
    (fun a ha => (h.accumulated a ha).bytes) h.follows fun b hb =>
      (h.live b hb).placed
  rw [Connection.entries, h.items, List.append_assoc]
  refine this.trans (List.take_of_length_le ?_)
  rw [List.length_drop]
  exact Nat.le_refl _

/-- The front of the queue holds the next bytes. -/
theorem front_bytes (h : ConnInv B c q anchor accum rest aux) {b : SBuffer}
    {tail : List SBuffer} (hq : c.input.queue.items = b :: tail) :
    b.bytes c.memory = (c.written.drop c.consumed.length).take b.length := by
  rw [← h.content, Connection.entries, hq, List.cons_append, queueBytes_cons,
    List.take_append_of_le_length (by simp), List.take_of_length_le (by simp)]

/-- Source slices are separate from clear memory. -/
theorem separate (h : ConnInv B c q anchor accum rest aux) {a b : SBuffer}
    (ha : B.Clear c.memory.phys a) (hb : b ∈ rest ++ c.flight) :
    a.Separate c.memory.phys b := by
  intro i hi j hj heq
  exact ha.cells i hi (heq ▸ ((h.live b hb).placed j hj).1)

/-- **What the consumer's events have in common**, before the buffers that were
let go of are given back: they leave the producer's memory alone and keep the
handles live and consecutive. -/
structure Unsettled (B : Backing) (c : Connection) (q : BufferQueue)
    (anchor : Nat → Nat) (accum : Option SBuffer) (rest : List SBuffer)
    (aux : SimpleBufferQueue) (c' : Connection) (accum' : Option SBuffer)
    (rest' : List SBuffer) (aux' : SimpleBufferQueue) : Prop where
  output : c'.output = c.output
  itemSize : c'.itemSize = c.itemSize
  returns : c'.returns = c.returns
  written : c'.written = c.written
  phys : c'.memory.phys = c.memory.phys
  read : ∀ a, B.Owns (c.memory.phys a) → c'.memory.read a = c.memory.read a
  items : c'.input.queue.items = accum'.toList ++ rest'
  live : ∀ b ∈ rest' ++ c'.flight, B.Live (c.producer q rest anchor) b
  follows : Follows anchor (c'.consumed.length + accumLength accum')
    (rest' ++ c'.flight) c.written.length
  accumulated : ∀ a ∈ accum', Accumulated B c.memory.phys aux.token
    (c.written.drop c'.consumed.length) c'.memory a
  auxQueue : c'.input.auxQueue = some aux'
  auxToken : aux'.token = aux.token
  auxBuffers : ∀ a ∈ aux'.buffers, AuxBuffer B c.memory.phys aux.token a
  apart : (accum'.toList ++ aux'.buffers).Pairwise (SBuffer.Apart c.memory.phys)
  /-- The accumulation buffer is still in use, or separate from what is. -/
  old : ∀ a ∈ accum, (∃ a' ∈ accum', a'.impl = a.impl) ∨
    ∀ x ∈ accum'.toList ++ aux'.buffers, a.Apart c.memory.phys x
  consumed : c'.consumed = c.written.take c'.consumed.length
  window : c'.window = none

section Settle

variable {r : SBuffer}

/-- The token of the producer's queue is that of the backing. -/
theorem token_eq (h : ConnInv B c q anchor accum rest aux)
    (hs : Unsettled B c q anchor accum rest aux c' accum' rest' aux') :
    c'.token = some B.token := by
  rw [Connection.token, hs.output, h.queue, Option.map_some,
    ← B.queue_token h.backing]
  rfl

/-- The handles that are left. -/
theorem handles_eq (h : ConnInv B c q anchor accum rest aux)
    (hs : Unsettled B c q anchor accum rest aux c' accum' rest' aux') :
    c'.handles = q.buffers ++ (accum'.toList ++ rest' ++ c'.flight) := by
  rw [Connection.handles, hs.output, h.queue, Connection.entries, hs.items]
  rfl

/-- What is let go of was an entry. -/
theorem mem_gone (h : ConnInv B c q anchor accum rest aux)
    (hr : r ∈ SBuffer.released c.entries c'.handles) :
    ∃ b ∈ accum.toList ++ (rest ++ c.flight), r = b.reset ∧
      b.impl ∉ c'.handles.map SBuffer.impl := by
  obtain ⟨⟨b, hb, rfl⟩, hout⟩ := SBuffer.mem_released hr
  rw [Connection.entries, h.items, List.append_assoc] at hb
  exact ⟨b, hb, rfl, hout⟩

/-- What goes back to the producer was a slice of its buffers. -/
theorem mem_gone_producer (h : ConnInv B c q anchor accum rest aux)
    (hs : Unsettled B c q anchor accum rest aux c' accum' rest' aux')
    (hr : r ∈ (SBuffer.released c.entries c'.handles).filter
      fun b => some b.config.token = c'.token) :
    ∃ b ∈ rest ++ c.flight, r = b.reset ∧
      b.impl ∉ (rest' ++ c'.flight).map SBuffer.impl ∧
      b.impl ∉ q.buffers.map SBuffer.impl := by
  obtain ⟨hr, ht⟩ := List.mem_filter.mp hr
  obtain ⟨b, hb, rfl, hout⟩ := h.mem_gone hr
  have ht' : b.config.token = B.token := by simpa [h.token_eq hs] using ht
  rw [h.handles_eq hs] at hout
  simp only [List.map_append, List.mem_append, not_or] at hout
  rcases List.mem_append.mp hb with hb | hb
  · have htoken := (h.accumulated b (by simpa using hb)).aux.token
    exact absurd (htoken.symm.trans ht') h.auxToken
  · refine ⟨b, hb, rfl, ?_, hout.1⟩
    rw [List.map_append, List.mem_append, not_or]
    exact ⟨hout.2.1.2, hout.2.2⟩

/-- What goes back to the auxiliary queue was the accumulation buffer. -/
theorem mem_gone_aux (h : ConnInv B c q anchor accum rest aux)
    (hs : Unsettled B c q anchor accum rest aux c' accum' rest' aux')
    (hr : r ∈ (SBuffer.released c.entries c'.handles).filter
      fun b => b.config.token = aux'.token) :
    ∃ a ∈ accum, r = a.reset ∧ a.impl ∉ c'.handles.map SBuffer.impl := by
  obtain ⟨hr, ht⟩ := List.mem_filter.mp hr
  obtain ⟨b, hb, rfl, hout⟩ := h.mem_gone hr
  have ht' : b.config.token = aux.token := by simpa [hs.auxToken] using ht
  rcases List.mem_append.mp hb with hb | hb
  · exact ⟨b, by simpa using hb, rfl, hout⟩
  · exact absurd (ht'.symm.trans (h.tokens b hb)) h.auxToken

/-- The producer's side, with what comes back to it. -/
theorem settled_backing (h : ConnInv B c q anchor accum rest aux)
    (hs : Unsettled B c q anchor accum rest aux c' accum' rest' aux') :
    B.Inv ((Connection.settle c c').producer q rest' anchor) := by
  have hnodup := SBuffer.released_nodup c.entries c'.handles
  have hreleased := B.released h.backing (fun b hb => (hs.live b hb).holds)
    (fun r hr => h.mem_gone_producer hs hr)
    (hnodup.sublist (List.Sublist.map _ List.filter_sublist))
  have hbacking := B.memory_congr (m := c'.memory) hreleased hs.phys hs.read
  show B.Inv ⟨c'.memory, q, rest' ++ c'.flight, c'.returns ++ _,
      anchor, c'.written⟩
  rw [hs.returns, hs.written]
  exact hbacking

/-- The handles are live in the memory after the event. -/
theorem settled_live
    (hs : Unsettled B c q anchor accum rest aux c' accum' rest' aux')
    {b : SBuffer} (hb : b ∈ rest' ++ c'.flight) :
    B.Live ((Connection.settle c c').producer q rest' anchor) b := by
  refine ⟨⟨b, hb, rfl, rfl⟩, (hs.live b hb).shape, fun x hx => ?_⟩
  obtain ⟨howns, hval⟩ := (hs.live b hb).placed x hx
  refine ⟨?_, ?_⟩
  · show B.Owns (c'.memory.phys _)
    rw [hs.phys]
    exact howns
  · show c'.written[anchor b.impl + x]? = some (c'.memory.read _)
    rw [hs.written, hs.read _ howns]
    exact hval

/-- The auxiliary buffers, with the accumulation buffer if it comes back. -/
theorem settled_auxBuffers (h : ConnInv B c q anchor accum rest aux)
    (hs : Unsettled B c q anchor accum rest aux c' accum' rest' aux')
    (hr : r ∈ aux'.buffers ++ (SBuffer.released c.entries c'.handles).filter
      fun b => b.config.token = aux'.token) :
    AuxBuffer B c.memory.phys aux.token r := by
  rcases List.mem_append.mp hr with hr | hr
  · exact hs.auxBuffers r hr
  · obtain ⟨a, ha, rfl, -⟩ := h.mem_gone_aux hs hr
    have haux := (h.accumulated a ha).aux
    exact ⟨⟨haux.clear.cells, haux.clear.addresses, haux.clear.injective⟩,
      haux.token, rfl⟩

/-- They are apart: at most one buffer comes back, and then it is not in use. -/
theorem settled_apart (h : ConnInv B c q anchor accum rest aux)
    (hs : Unsettled B c q anchor accum rest aux c' accum' rest' aux') :
    (accum'.toList ++
      (aux'.buffers ++ (SBuffer.released c.entries c'.handles).filter
      fun b => b.config.token = aux'.token)).Pairwise
        (SBuffer.Apart c.memory.phys) := by
  rw [← List.append_assoc, List.pairwise_append]
  refine ⟨hs.apart, ?_, ?_⟩
  · have hnodup := (SBuffer.released_nodup c.entries c'.handles).sublist
      (List.Sublist.map _
        (List.filter_sublist (p := fun b => b.config.token = aux'.token)))
    refine (List.pairwise_map.mp hnodup).imp_of_mem fun {r r'} hr hr' hne => ?_
    obtain ⟨a, ha, rfl, -⟩ := h.mem_gone_aux hs hr
    obtain ⟨a', ha', rfl, -⟩ := h.mem_gone_aux hs hr'
    have heq : a = a' := Option.some.inj (ha.symm.trans ha')
    exact absurd (congrArg SBuffer.impl heq) hne
  · intro x hx r hr
    obtain ⟨a, ha, rfl, hout⟩ := h.mem_gone_aux hs hr
    rcases hs.old a ha with ⟨a', ha', heq⟩ | hapart
    · refine absurd ?_ hout
      rw [h.handles_eq hs, ← heq]
      refine List.mem_map_of_mem ?_
      simp only [List.mem_append, Option.mem_toList]
      exact .inr (.inl (.inl ha'))
    · exact (hapart x hx).symm

/-- **The invariant** when the buffers that were let go of are on their way
back. -/
theorem settle (h : ConnInv B c q anchor accum rest aux)
    (hs : Unsettled B c q anchor accum rest aux c' accum' rest' aux') :
    ∃ aux'', ConnInv B (Connection.settle c c') q anchor accum'
      rest' aux'' := by
  refine ⟨{ aux' with
    buffers := aux'.buffers ++
        (SBuffer.released c.entries c'.handles).filter fun b =>
      b.config.token = aux'.token }, ?_⟩
  exact
    { queue := hs.output ▸ h.queue
      inlineBuffer := hs.output ▸ h.inlineBuffer
      itemSize := hs.itemSize ▸ h.itemSize
      items := hs.items
      backing := h.settled_backing hs
      live := fun b hb => settled_live hs hb
      tokens := by
        intro b hb
        obtain ⟨b', hb', -, hc⟩ := (hs.live b hb).holds
        rw [← hc]
        exact h.tokens b' hb'
      follows := by
        show Follows anchor (c'.consumed.length + accumLength accum')
            (rest' ++ c'.flight)
          c'.written.length
        rw [hs.written]
        exact hs.follows
      accumulated := by
        intro a ha
        show Accumulated B c'.memory.phys aux'.token
            (c'.written.drop c'.consumed.length)
          c'.memory a
        rw [hs.phys, hs.auxToken, hs.written]
        exact hs.accumulated a ha
      auxQueue := by
        show c'.input.auxQueue.map _ = _
        rw [hs.auxQueue]
        rfl
      auxToken := by
        show aux'.token ≠ B.token
        rw [hs.auxToken]
        exact h.auxToken
      auxBuffers := by
        intro a ha
        show AuxBuffer B c'.memory.phys aux'.token a
        rw [hs.phys, hs.auxToken]
        exact h.settled_auxBuffers hs ha
      apart := by
        show List.Pairwise (SBuffer.Apart c'.memory.phys) _
        rw [hs.phys]
        exact h.settled_apart hs
      consumed := by
        show c'.consumed = c'.written.take c'.consumed.length
        rw [hs.written]
        exact hs.consumed
      window := fun w hw => by
        change w ∈ c'.window at hw
        rw [hs.window] at hw
        cases hw }

end Settle

/-- An event that leaves the accumulation buffer and the auxiliary queue
alone. -/
theorem unsettled_of_same (h : ConnInv B c q anchor accum rest aux)
    (c' : Connection)
    (hrest : c'.output = c.output ∧ c'.itemSize = c.itemSize ∧
      c'.returns = c.returns ∧
      c'.written = c.written ∧ c'.memory = c.memory ∧ c'.consumed = c.consumed ∧
      c'.window = none)
    (hitems : c'.input.queue.items = accum.toList ++ rest')
    (haux : c'.input.auxQueue = c.input.auxQueue)
    (hlive : ∀ b ∈ rest' ++ c'.flight, B.Live (c.producer q rest anchor) b)
    (hfollows : Follows anchor (c.consumed.length + accumLength accum)
      (rest' ++ c'.flight) c.written.length) :
    Unsettled B c q anchor accum rest aux c' accum rest' aux := by
  obtain ⟨houtput, hitemSize, hreturns, hwritten, hmemory, hconsumed,
      hwindow⟩ := hrest
  exact {
    output := houtput
    itemSize := hitemSize
    returns := hreturns
    written := hwritten
    phys := congrArg _ hmemory
    read := fun a _ => by rw [hmemory]
    items := hitems
    live := hlive
    follows := hconsumed ▸ hfollows
    accumulated := by
      rw [hmemory, hconsumed]
      exact h.accumulated
    auxQueue := haux.trans h.auxQueue
    auxToken := rfl
    auxBuffers := h.auxBuffers
    apart := h.apart
    old := fun a ha => .inl ⟨a, ha, rfl⟩
    consumed := hconsumed ▸ h.consumed
    window := hwindow }

/-! ### Deliveries -/

/-- An accumulation buffer takes no part in stitching. -/
theorem stitched_behind {a b : SBuffer} (ha : a.last = 0) (hb : 0 < b.length)
    (rest : List SBuffer) :
    dropStitched (stitchLoop (a :: (rest ++ [b])))
      = a :: dropStitched (stitchLoop (rest ++ [b])) := by
  have hloop : stitchLoop (a :: (rest ++ [b])) =
      a :: stitchLoop (rest ++ [b]) := by
    rw [stitchLoop]
    cases stitchLoop (rest ++ [b]) with
    | nil => rfl
    | cons b1 l => exact stitch_of_not (fun h => h.2 ha) l
  rw [hloop]
  cases rest with
  | nil =>
      have : ¬ (b.impl = a.impl ∧ b.length = 0) := fun h => by omega
      simp [stitchLoop, stitch, dropStitched, this]
  | cons b0 rest =>
      have hlen : 2 ≤ (stitchLoop (b0 :: rest ++ [b])).length := by
        rw [stitchLoop_length]
        simp
      cases hq : stitchLoop (b0 :: rest ++ [b]) with
      | nil => simp only [hq, List.length_nil] at hlen; omega
      | cons b1 tail =>
          cases tail with
          | nil => simp only [hq, List.length_singleton] at hlen; omega
          | cons b2 l => rfl

/-- A buffer arrives and is stitched. -/
theorem deliver {now : Int} (h : ConnInv B c q anchor accum rest aux)
    (hwindow : c.window = none) (hnext : c.deliver now = .ok c') :
    c'.consumed = c.consumed ∧ c'.written = c.written ∧
      ∃ rest' aux', ConnInv B c' q anchor accum rest' aux' := by
  unfold Connection.deliver at hnext
  cases hflight : c.flight with
  | nil =>
      rw [hflight, Checked.pure_eq_ok] at hnext
      subst hnext
      exact ⟨rfl, rfl, rest, aux, h⟩
  | cons b flight =>
      simp only [hflight, Checked.bind_eq_ok, Checked.pure_eq_ok] at hnext
      obtain ⟨input, hpush, rfl⟩ := hnext
      refine ⟨rfl, rfl, ?_⟩
      obtain ⟨haux, -, -, hitems⟩ := push_cases hpush
      have hlive := h.live
      have hfollows := h.follows
      rw [hflight] at hlive hfollows
      -- the new queue behind the accumulation buffer, with what is still in flight
      have hrest : ∃ rest', input.queue.items = accum.toList ++ rest' ∧
          (∀ b' ∈ rest' ++ flight, B.Live (c.producer q rest anchor) b') ∧
          Follows anchor (c.consumed.length + accumLength accum)
            (rest' ++ flight)
            c.written.length := by
        rcases hitems with ⟨hlen, hitems⟩ | ⟨hlen, hitems⟩
        · refine ⟨rest, hitems.trans h.items, fun b' hb' => hlive b' ?_, ?_⟩
          · rcases List.mem_append.mp hb' with hb' | hb'
            · exact List.mem_append_left _ hb'
            · exact List.mem_append_right _ (List.mem_cons_of_mem _ hb')
          · obtain ⟨t, h₁, h₂, h₃⟩ := follows_append.mp hfollows
            rw [hlen, Nat.add_zero] at h₃
            exact follows_append.mpr ⟨t, h₁, h₃⟩
        · rw [show rest ++ b :: flight = (rest ++ [b]) ++ flight by simp]
            at hlive hfollows
          obtain ⟨t, h₁, h₂⟩ := follows_append.mp hfollows
          obtain ⟨hlive', hfollows'⟩ := Backing.stitchLoop_live h.backing
            (fun b' hb' => hlive b' (List.mem_append_left _ hb')) h₁
          refine ⟨dropStitched (stitchLoop (rest ++ [b])), ?_, fun b' hb' => ?_,
            follows_append.mpr ⟨t, Backing.dropStitched_follows hfollows', h₂⟩⟩
          · rw [hitems, h.items, List.append_assoc]
            cases accum with
            | none => rfl
            | some a => exact stitched_behind (h.accumulated a rfl).aux.last hlen rest
          · rcases List.mem_append.mp hb' with hb' | hb'
            · exact hlive' b' (mem_of_mem_dropStitched hb')
            · exact hlive b' (List.mem_append_right _ hb')
      obtain ⟨rest', hitems', hlive', hfollows'⟩ := hrest
      obtain ⟨aux', hinv⟩ :=
        h.settle (h.unsettled_of_same { c with input, flight }
        ⟨rfl, rfl, rfl, rfl, rfl, rfl, hwindow⟩ hitems' haux hlive' hfollows')
      exact ⟨rest', aux', hinv⟩

/-! ### Accumulation -/

/-- The auxiliary buffer that `accumulate` takes, and the ones it leaves. -/
theorem auxAvailable_apart (h : ConnInv B c q anchor accum rest aux)
    {fresh : Allocation} (hfresh : c.FreshBuffer B fresh) :
    (auxAvailable fresh c.input.maximumBytes aux).token = aux.token ∧
      (∀ a ∈ (auxAvailable fresh c.input.maximumBytes aux).buffers,
        AuxBuffer B c.memory.phys aux.token a) ∧
      (accum.toList ++
        (auxAvailable fresh c.input.maximumBytes aux).buffers).Pairwise
        (SBuffer.Apart c.memory.phys) := by
  unfold auxAvailable
  split
  · rename_i hempty
    obtain ⟨hclear, hapart⟩ := hfresh aux h.auxQueue
    have hnil : aux.buffers = [] := List.isEmpty_iff.mp hempty
    have hbuffers : (aux.allocateOne fresh c.input.maximumBytes).buffers
        = [aux.newBuffer fresh c.input.maximumBytes] := by
      simp [SimpleBufferQueue.allocateOne, SimpleBufferQueue.pushBack, hnil]
    rw [hbuffers]
    refine ⟨rfl, fun a ha => ?_, ?_⟩
    · rw [List.mem_singleton.mp ha]
      exact ⟨hclear, rfl, rfl⟩
    · cases accum with
      | none => exact List.pairwise_singleton _ _
      | some a =>
          refine List.pairwise_pair.mpr
            (hapart a ?_ (h.accumulated a rfl).aux.token)
          rw [h.items]
          exact List.mem_append_left _
            (List.mem_append_left _ List.mem_cons_self)
  · exact ⟨rfl, h.auxBuffers, h.apart⟩

/-- The auxiliary buffer is separate from everything in the queue. -/
theorem items_separate (h : ConnInv B c q anchor accum rest aux)
    {buff : SBuffer} (hclear : B.Clear c.memory.phys buff)
    (hapart : ∀ a ∈ accum, a.Apart c.memory.phys buff) :
    ∀ b ∈ c.input.queue.items, buff.Separate c.memory.phys b := by
  intro b hb
  rw [h.items] at hb
  rcases List.mem_append.mp hb with hb | hb
  · have hb' : b ∈ accum := by simpa using hb
    exact (hapart b hb').symm.separate (h.accumulated b hb').inside
  · exact h.separate hclear (List.mem_append_left _ hb)

/-- What is left of the queue behind the new accumulation buffer. -/
theorem gathered_live (h : ConnInv B c q anchor accum rest aux) {buff : SBuffer}
    (hclear : B.Clear c.memory.phys buff)
    (hfits : ∃ front tail, c.input.queue.items = front :: tail ∧
      c.input.freeBytes buff ≠ 0 ∧ front.length ≤ c.input.freeBytes buff) :
    let g := c.input.gathered buff c.memory
    (∀ b ∈ g.queue ++ c.flight, B.Live (c.producer q rest anchor) b) ∧
      Follows anchor (c.consumed.length + accumLength (some g.accum))
        (g.queue ++ c.flight)
        c.written.length := by
  intro g
  obtain ⟨t, hfollows, hflight⟩ := follows_append.mp h.follows
  have hlive : ∀ b ∈ rest, B.Live (c.producer q rest anchor) b :=
    fun b hb => h.live b (List.mem_append_left _ hb)
  have hfree : c.input.freeBytes buff ≤ buff.config.length :=
    Nat.div_mul_le_self _ _
  have hg : g =
      gather c.input.queue.items { buff with offset := 0, length := 0 }
    (c.input.freeBytes buff) c.memory := rfl
  have hrest : (∀ b ∈ g.queue, B.Live (c.producer q rest anchor) b) ∧
      Follows anchor (c.consumed.length + g.accum.length) g.queue t := by
    rw [h.items] at hg hfits
    cases accum with
    | none =>
        obtain ⟨hlive', bytes, haccum, hfollows'⟩ := Backing.gather_live
          { buff with offset := 0, length := 0 } c.memory hlive hfollows rfl
          (Nat.le_trans (Nat.le_of_eq (Nat.zero_add _)) hfree) hclear.addresses
        rw [hg]
        refine ⟨hlive', ?_⟩
        rw [show (gather (Option.toList none ++ rest) _ _ _).accum.length =
          0 + bytes from
          congrArg SBuffer.length haccum, Nat.zero_add]
        exact hfollows'
    | some a =>
        -- the old accumulation buffer is copied whole
        obtain ⟨front, tail, hq, h₀, hle⟩ := hfits
        obtain ⟨rfl, rfl⟩ : a = front ∧ rest = tail := by simpa using hq
        rw [show Option.toList (some a) ++ rest = a :: rest from rfl,
          gather_cons_of_le h₀ hle] at hg
        obtain ⟨hlive', bytes, haccum, hfollows'⟩ := Backing.gather_live
          (filled { buff with offset := 0, length := 0 } a.length)
          (c.memory.copy _ (a.get 0) a.length) hlive hfollows rfl
          (show _ + (c.input.freeBytes buff - a.length) ≤
            _ by simp only [filled]; omega)
          hclear.addresses
        rw [hg]
        refine ⟨hlive', ?_⟩
        rw [show (gather rest _ _ _).accum.length = 0 + a.length + bytes from
          congrArg SBuffer.length haccum, Nat.zero_add, ← Nat.add_assoc]
        exact hfollows'
  refine ⟨fun b hb => ?_, follows_append.mpr ⟨t, hrest.2, hflight⟩⟩
  rcases List.mem_append.mp hb with hb | hb
  · exact hrest.1 b hb
  · exact h.live b (List.mem_append_right _ hb)

/-- Nothing happens to the queue. -/
theorem idle (h : ConnInv B c q anchor accum rest aux) :
    ∃ aux', ConnInv B (Connection.settle c { c with window := none }) q
      anchor accum rest
      aux' :=
  h.settle (h.unsettled_of_same { c with window := none }
    ⟨rfl, rfl, rfl, rfl, rfl, rfl, rfl⟩ h.items rfl h.live h.follows)

/-- **Accumulating keeps the invariant.** -/
theorem accumulate (h : ConnInv B c q anchor accum rest aux)
    {fresh : Allocation} (hfresh : c.FreshBuffer B fresh) {input : InputPort}
    {memory : Memory}
    (hacc : c.input.accumulate fresh c.memory = .ok (input, memory)) :
    ∃ accum' rest' aux',
      ConnInv B (Connection.settle c
        { c with input, memory, window := none }) q anchor
        accum' rest' aux' := by
  rcases accumulate_cases hacc with ⟨rfl, rfl⟩ |
    ⟨aux₀, buff, buffers, -, haux, hbuff, haux', -, -, hitems, rfl, hfits⟩
  · obtain ⟨aux', hinv⟩ := h.idle
    exact ⟨accum, rest, aux', hinv⟩
  · obtain rfl : aux₀ = aux := Option.some.inj (haux.symm.trans h.auxQueue)
    obtain ⟨htoken, hbuffers, hapart⟩ := h.auxAvailable_apart hfresh
    rw [hbuff] at hbuffers hapart
    have haux₁ := hbuffers buff List.mem_cons_self
    obtain ⟨hnext, hsub⟩ : (∀ a ∈ accum, a.Apart c.memory.phys buff) ∧
        (buff :: buffers).Pairwise (SBuffer.Apart c.memory.phys) := by
      obtain ⟨-, htail, hcross⟩ := List.pairwise_append.mp hapart
      exact ⟨fun a ha =>
        hcross a (by simpa using ha) buff List.mem_cons_self, htail⟩
    obtain ⟨hlive, hfollows⟩ := h.gathered_live haux₁.clear hfits
    obtain ⟨n, hn, haccum⟩ := gathered_accum c.input buff c.memory
    let g := c.input.gathered buff c.memory
    change g.accum = _ at haccum
    have hbytes : g.accum.bytes g.memory
        = (c.written.drop c.consumed.length).take g.accum.length := by
      have := gathered_bytes haux₁.clear.injective
        (h.items_separate haux₁.clear hnext)
      rw [← h.content, Connection.entries, queueBytes_append, ← this,
        queueBytes_cons, List.append_assoc,
        List.take_append_of_le_length (by simp [g]),
        List.take_of_length_le (by simp [g])]
    have hcons :
        (g.accum :: buffers).Pairwise (SBuffer.Apart c.memory.phys) := by
      obtain ⟨hhead, htail⟩ := List.pairwise_cons.mp hsub
      rw [List.pairwise_cons, haccum]
      exact ⟨fun x hx => hhead x hx, htail⟩
    have hunsettled : Unsettled B c q anchor accum rest aux₀
        { c with input, memory := g.memory, window := none }
        (some g.accum) g.queue
        { auxAvailable fresh c.input.maximumBytes aux₀ with buffers } := {
      output := rfl
      itemSize := rfl
      returns := rfl
      written := rfl
      phys := gathered_phys _ _ _
      read := fun x hx =>
        gathered_read _ _ _ fun i hi heq => haux₁.clear.cells i hi (heq ▸ hx)
      items := hitems
      live := hlive
      follows := hfollows
      accumulated := by
        intro a ha
        obtain rfl : g.accum = a := Option.some.inj ha
        refine ⟨?_, ?_, hbytes⟩
        · rw [haccum]
          exact ⟨⟨haux₁.clear.cells, haux₁.clear.addresses,
            haux₁.clear.injective⟩, haux₁.token, haux₁.last⟩
        · rw [haccum]
          exact Nat.le_trans (Nat.le_of_eq (Nat.zero_add _)) hn
      auxQueue := haux'
      auxToken := htoken
      auxBuffers := fun a ha => hbuffers a (List.mem_cons_of_mem _ ha)
      apart := hcons
      old := by
        refine fun a ha => .inr fun x hx => ?_
        have hx' : x = g.accum ∨ x ∈ buffers := List.mem_cons.mp hx
        rcases hx' with rfl | hx
        · rw [haccum]
          exact hnext a ha
        · obtain ⟨-, -, hcross⟩ := List.pairwise_append.mp hapart
          exact hcross a (by simpa using ha) x (List.mem_cons_of_mem _ hx)
      consumed := h.consumed
      window := rfl }
    obtain ⟨aux', hinv⟩ := h.settle hunsettled
    exact ⟨_, _, aux', hinv⟩

/-- The work that runs may be given the next bytes. -/
theorem withWindow (h : ConnInv B c q anchor accum rest aux)
    (window : Option (List Byte))
    (hwindow : ∀ w ∈ window,
      w = (c.written.drop c.consumed.length).take w.length) :
    ConnInv B { c with window } q anchor accum rest aux :=
  ⟨h.queue, h.inlineBuffer, h.itemSize, h.items, h.backing, h.live, h.tokens,
    h.follows, h.accumulated, h.auxQueue, h.auxToken, h.auxBuffers, h.apart,
    h.consumed, hwindow⟩

/-- A work starts. -/
theorem front (h : ConnInv B c q anchor accum rest aux) {fresh : Allocation}
    (hfresh : c.FreshBuffer B fresh) (hnext : c.front fresh = .ok c') :
    c'.consumed = c.consumed ∧ c'.written = c.written ∧
      ∃ accum' rest' aux', ConnInv B c' q anchor accum' rest' aux' := by
  simp only [Connection.front, Checked.bind_eq_ok, Checked.pure_eq_ok,
    Prod.exists] at hnext
  obtain ⟨b, input, memory, hfront, rfl⟩ := hnext
  refine ⟨rfl, rfl, ?_⟩
  obtain ⟨-, hcases⟩ := front_cases hfront
  have hinv : ∃ accum' rest' aux',
      ConnInv B (Connection.settle c
        { c with input, memory, window := none }) q anchor
        accum' rest' aux' := by
    rcases hcases with ⟨-, -, rfl, rfl⟩ | ⟨⟨rfl, rfl⟩ | hacc, -⟩
    · exact ⟨accum, rest, h.idle⟩
    · exact ⟨accum, rest, h.idle⟩
    · exact h.accumulate hfresh hacc
  obtain ⟨accum', rest', aux', hinv⟩ := hinv
  refine ⟨accum', rest', aux', hinv.withWindow (some (b.bytes memory)) ?_⟩
  intro w hw
  obtain rfl : b.bytes memory = w := Option.some.inj hw
  rw [SBuffer.bytes_length]
  rcases hcases with ⟨-, rfl, -, -⟩ | ⟨-, -, -, tail, hq⟩
  · exact SBuffer.bytes_eq_nil rfl
  · exact hinv.front_bytes hq

/-- The work waits for more. -/
theorem inputFail (h : ConnInv B c q anchor accum rest aux) {now : Int}
    {fresh : Allocation} (hfresh : c.FreshBuffer B fresh)
    (hnext : c.inputFail now fresh = .ok c') :
    c'.consumed = c.consumed ∧ c'.written = c.written ∧
      ∃ accum' rest' aux', ConnInv B c' q anchor accum' rest' aux' := by
  simp only [Connection.inputFail, Checked.bind_eq_ok, Checked.pure_eq_ok,
    Prod.exists] at hnext
  obtain ⟨input, memory, hfail, rfl⟩ := hnext
  refine ⟨rfl, rfl, ?_⟩
  have hinv : ∃ accum' rest' aux',
      ConnInv B (Connection.settle c
        { c with input, memory, window := none }) q anchor
        accum' rest' aux' := by
    unfold InputPort.inputFail at hfail
    split at hfail
    · exact h.accumulate hfresh hfail
    · split at hfail
      · simp at hfail
      · simp only [Checked.pure_eq_ok, Prod.mk.injEq] at hfail
        obtain ⟨rfl, rfl⟩ := hfail
        obtain ⟨aux', hinv⟩ := h.settle (h.unsettled_of_same
          { c with input := c.input.fail now, window := none }
          ⟨rfl, rfl, rfl, rfl, rfl, rfl, rfl⟩ h.items rfl h.live h.follows)
        exact ⟨accum, rest, aux', hinv⟩
  obtain ⟨accum', rest', aux', hinv⟩ := hinv
  exact ⟨accum', rest', aux', hinv.withWindow c.window h.window⟩

/-! ### Consuming -/

/-- What is left of the queue when bytes are taken off its front: the front may
still be the accumulation buffer. -/
theorem consumed_queue (h : ConnInv B c q anchor accum rest aux)
    {front : SBuffer} {tail : List SBuffer} {n : Nat}
    (hq : c.input.queue.items = front :: tail) (hle : n ≤ front.length) :
    ∃ accum' rest', unstitch (drained n c.input.queue.items) =
        accum'.toList ++ rest' ∧
      (∀ b ∈ rest' ++ c.flight, B.Live (c.producer q rest anchor) b) ∧
      Follows anchor (c.consumed.length + n + accumLength accum')
        (rest' ++ c.flight)
        c.written.length ∧
      (accum' = none ∨ ∃ a, accum = some a ∧ accum' = some (a.skip n) ∧
        n ≤ a.length) := by
  obtain ⟨t, hfollows, hflight⟩ := follows_append.mp h.follows
  have hlive : ∀ b ∈ rest, B.Live (c.producer q rest anchor) b :=
    fun b hb => h.live b (List.mem_append_left _ hb)
  -- it is enough to look at the queue
  suffices hqueue : ∃ accum' rest',
      unstitch (drained n c.input.queue.items) = accum'.toList ++ rest' ∧
        (∀ b ∈ rest', B.Live (c.producer q rest anchor) b) ∧
        Follows anchor (c.consumed.length + n + accumLength accum') rest' t ∧
        (accum' = none ∨ ∃ a, accum = some a ∧ accum' = some (a.skip n) ∧
          n ≤ a.length) by
    obtain ⟨accum', rest', heq, hlive', hfollows', haccum'⟩ := hqueue
    refine ⟨accum', rest', heq, fun b hb => ?_,
      follows_append.mpr ⟨t, hfollows', hflight⟩, haccum'⟩
    rcases List.mem_append.mp hb with hb | hb
    · exact hlive' b hb
    · exact h.live b (List.mem_append_right _ hb)
  rw [h.items] at hq ⊢
  cases accum with
  | none =>
      change rest = front :: tail at hq
      change ∃ accum' rest', unstitch (drained n rest) = _ ∧ _
      subst hq
      obtain ⟨hdrained, hfollows'⟩ := Backing.drained_live hlive hfollows hle
      obtain ⟨hlive', hfollows'⟩ := Backing.unstitch_live hdrained hfollows'
      exact ⟨none, _, rfl, hlive', hfollows', .inl rfl⟩
  | some a =>
      obtain ⟨rfl, rfl⟩ : a = front ∧ rest = tail := by simpa using hq
      change Follows anchor (c.consumed.length + a.length) rest t at hfollows
      change ∃ accum' rest', unstitch (drained n (a :: rest)) = _ ∧ _
      rw [drained_cons]
      split
      · rename_i hall
        rw [hall] at hfollows
        obtain ⟨hlive', hfollows'⟩ := Backing.unstitch_live hlive hfollows
        exact ⟨none, _, rfl, hlive', hfollows', .inl rfl⟩
      · have hlen : c.consumed.length + n + (a.skip n).length
            = c.consumed.length + a.length := by
          simp only [SBuffer.skip]
          omega
        have hstays : ∃ accum' rest',
            a.skip n :: rest = accum'.toList ++ rest' ∧
            (∀ b ∈ rest', B.Live (c.producer q rest anchor) b) ∧
            Follows anchor
              (c.consumed.length + n + accumLength accum') rest' t ∧
            (accum' = none ∨ ∃ a', some a = some a' ∧
              accum' = some (a'.skip n) ∧
              n ≤ a'.length) := by
          refine ⟨some (a.skip n), rest, rfl, hlive, ?_,
            .inr ⟨a, rfl, rfl, hle⟩⟩
          rw [show accumLength (some (a.skip n)) = (a.skip n).length
            from rfl, hlen]
          exact hfollows
        cases rest with
        | nil => exact hstays
        | cons b1 rest =>
            rw [unstitch]
            split
            · rename_i hun
              rw [← hlen] at hfollows
              refine ⟨none, _, rfl, fun b hb => ?_,
                Backing.follows_regain hfollows hun, .inl rfl⟩
              rcases List.mem_cons.mp hb with rfl | hb
              · exact (hlive b1 List.mem_cons_self).regain hun
              · exact hlive b (List.mem_cons_of_mem _ hb)
            · exact hstays

/-- A work ends. -/
theorem consume (h : ConnInv B c q anchor accum rest aux) {now : Int}
    {items : Nat} {bytes : List Byte} (hwindow : c.window = some bytes)
    (hitems : items * c.input.itemsSize ≤ bytes.length)
    (hnext : c.consume now items = .ok c') :
    c'.consumed = c.consumed ++ bytes.take (items * c.input.itemsSize) ∧
      c'.written = c.written ∧
      ∃ accum' rest' aux', ConnInv B c' q anchor accum' rest' aux' := by
  unfold Connection.consume at hnext
  split at hnext
  · rename_i hzero
    rw [Checked.pure_eq_ok] at hnext
    subst hnext
    refine ⟨by simp [hzero], rfl, accum, rest, aux, h.withWindow none ?_⟩
    intro w hw
    cases hw
  · simp only [Checked.bind_eq_ok, Checked.pure_eq_ok] at hnext
    obtain ⟨input, hconsume, rfl⟩ := hnext
    let n := items * c.input.itemsSize
    have hget : c.window.getD [] = bytes := by rw [hwindow]; rfl
    refine ⟨by rw [← hget]; rfl, rfl, ?_⟩
    obtain ⟨haux, -, -, -, front, tail, hq, hle, hqueue⟩ :=
      consume_cases hconsume
    obtain ⟨accum', rest', heq, hlive, hfollows, haccum⟩ :=
      h.consumed_queue hq hle
    -- the consumed bytes are the next ones of the stream
    have hbytes := h.window bytes hwindow
    have hlen : (c.consumed ++ bytes.take n).length =
        c.consumed.length + n := by
      rw [List.length_append, List.length_take, Nat.min_eq_left hitems]
    have hconsumed : c.consumed ++ bytes.take n =
        c.written.take (c.consumed.length + n) := by
      rw [List.take_add, ← h.consumed, hbytes, List.take_take,
        Nat.min_eq_left hitems]
    have hunsettled : Unsettled B c q anchor accum rest aux
        { c with input, window := none, consumed := c.consumed ++ bytes.take n }
        accum' rest'
        aux := {
      output := rfl
      itemSize := rfl
      returns := rfl
      written := rfl
      phys := rfl
      read := fun _ _ => rfl
      items := hqueue.trans heq
      live := hlive
      follows := by
        change Follows anchor ((c.consumed ++ bytes.take n).length + _) _ _
        rw [hlen]
        exact hfollows
      accumulated := by
        intro a ha
        change Accumulated _ _ _
          (c.written.drop (c.consumed ++ bytes.take n).length) _ a
        rw [hlen, ← List.drop_drop]
        rcases haccum with rfl | ⟨a₀, rfl, rfl, hle₀⟩
        · cases ha
        · obtain rfl : a₀.skip n = a := Option.some.inj ha
          exact (h.accumulated a₀ rfl).skip hle₀
      auxQueue := haux.trans h.auxQueue
      auxToken := rfl
      auxBuffers := h.auxBuffers
      apart := by
        rcases haccum with rfl | ⟨a₀, rfl, rfl, -⟩
        · exact (List.pairwise_append.mp h.apart).2.1
        · obtain ⟨hhead, htail⟩ := List.pairwise_cons.mp h.apart
          exact List.pairwise_cons.mpr ⟨fun x hx => hhead x hx, htail⟩
      old := by
        intro a ha
        rcases haccum with rfl | ⟨a₀, rfl, rfl, -⟩
        · refine .inr fun x hx => ?_
          exact (List.pairwise_append.mp h.apart).2.2 a (by simpa using ha) x hx
        · obtain rfl : a₀ = a := Option.some.inj ha
          exact .inl ⟨_, rfl, rfl⟩
      consumed := hconsumed.trans (congrArg c.written.take hlen.symm)
      window := rfl }
    obtain ⟨aux', hinv⟩ := h.settle hunsettled
    refine ⟨accum', rest', aux', ?_⟩
    rw [hget]
    exact hinv

/-! ### The producer -/

/-- What is a stretch of the stream stays one when the stream grows. -/
theorem take_of_grown {l written : List Byte} {k : Nat} (bytes : List Byte)
    (hk : k ≤ written.length) (h : l = (written.drop k).take l.length) :
    l = ((written ++ bytes).drop k).take l.length := by
  have hle : l.length ≤ (written.drop k).length := by
    have := congrArg List.length h
    rw [List.length_take] at this
    omega
  rw [List.drop_append_of_le_length hk, List.take_append_of_le_length hle]
  exact h

theorem consumed_le (h : ConnInv B c q anchor accum rest aux) :
    c.consumed.length ≤ c.written.length := by
  have := congrArg List.length h.consumed
  rw [List.length_take] at this
  omega

/-- The queue has been looked at. -/
theorem looked (h : ConnInv B c q anchor accum rest aux) {output : OutputPort}
    {q' : BufferQueue} (hq : output.queue = some q')
    (hinline : output.inlineBuffer = none)
    (hlook : q' = q ∨ ∃ b, q.front = .ok (b, q')) :
    ConnInv B { c with output } q' anchor accum rest aux := by
  have hbacking : B.Inv (c.producer q' rest anchor) := by
    rcases hlook with rfl | ⟨b, hfront⟩
    · exact h.backing
    · exact B.front h.backing hfront
  exact ⟨hq, hinline, h.itemSize, h.items, hbacking,
    fun b hb => ⟨(h.live b hb).holds, (h.live b hb).shape,
      (h.live b hb).placed⟩, h.tokens,
    h.follows, h.accumulated, h.auxQueue, h.auxToken, h.auxBuffers, h.apart,
    h.consumed, h.window⟩

/-- A work of the producer. -/
theorem produce (h : ConnInv B c q anchor accum rest aux) {now : Int}
    {items : Nat} {bytes : List Byte}
    (hbytes : bytes.length = items * c.itemSize)
    (hroom : ∀ buff output, c.output.front = .ok (buff, output) →
      buff.offset + bytes.length ≤ buff.config.length)
    (hnext : c.produce now items bytes = .ok c') :
    c'.consumed = c.consumed ∧ c'.written = c.written ++ bytes ∧
      ∃ q' anchor', ConnInv B c' q' anchor' accum rest aux := by
  simp only [Connection.produce, Checked.bind_eq_ok, assertThat_eq_ok,
    Checked.pure_eq_ok, Prod.exists] at hnext
  obtain ⟨-, -, b, p₁, hfront, -, hlength, p₂, hproduce, chunk, p₃, hpost,
      rfl⟩ := hnext
  refine ⟨rfl, rfl, ?_⟩
  obtain ⟨q₀, hqueue₀, -⟩ := OutputPort.front_queue h.inlineBuffer h.queue hfront
  have hfits : items * c.itemSize < 2 ^ 64 := by
    have hsized := B.sized h.backing hqueue₀
    have hroom₀ := hroom b p₁ hfront
    omega
  obtain ⟨hinline, q₁, hq₁, hcases⟩ :=
    OutputPort.work_queue h.inlineBuffer h.queue hfront hlength hfits hproduce hpost
  have hitemSize := h.itemSize
  rcases hcases with ⟨hzero, hqueue⟩ |
    ⟨hpos, q₂, q₃, q₄, hq₂, hpop, hqueue, hlook⟩
  · have hnone : items = 0 := by
      rcases Nat.mul_eq_zero.mp hzero with hz | hz
      · exact hz
      · omega
    obtain rfl : bytes = [] :=
      List.eq_nil_of_length_eq_zero (hbytes.trans hzero)
    refine ⟨q₁, anchor, ?_⟩
    rw [if_pos hnone, List.append_nil]
    exact h.looked hqueue hinline (.inr ⟨b, hq₁⟩)
  · have hsome : items ≠ 0 := fun hz => by simp [hz] at hpos
    rw [← hbytes] at hpos hq₂
    obtain ⟨anchor', hinv, htoken, hlen, hshape, hplaced, hanchor,
        hkept, hread⟩ :=
      B.produced h.backing (List.ne_nil_of_length_pos hpos) hq₁ hlength
        (hroom b p₁ hfront)
        hq₂ hpop
    refine ⟨q₄, anchor', ?_⟩
    rw [if_neg hsome]
    let c₃ : Connection :=
      { c with
        memory := c.memory.writeRange (b.get 0) bytes
        output := { p₃ with queue := some q₃ }
        flight := c.flight ++ [chunk]
        written := c.written ++ bytes }
    have hphys : c₃.memory.phys = c.memory.phys :=
      ByteMemory.phys_writeRange _ _ _
    have hconsumed := h.consumed_le
    have hheld : rest ++ c₃.flight = (rest ++ c.flight) ++ [chunk] :=
      (List.append_assoc _ _ _).symm
    have hold : ∀ b ∈ rest ++ c.flight, anchor' b.impl = anchor b.impl :=
      fun b hb => (hkept b (h.live b hb).holds (h.live b hb).shape
        (h.live b hb).placed).1
    have hinv₃ : ConnInv B c₃ q₃ anchor' accum rest aux :=
      { queue := rfl
        inlineBuffer := hinline
        itemSize := h.itemSize
        items := h.items
        backing := by
          rw [Connection.producer, hheld]
          exact hinv
        live := by
          intro b hb
          have hholds : (c₃.producer q₃ rest anchor').Holds b :=
            ⟨b, hb, rfl, rfl⟩
          rw [hheld] at hb
          rcases List.mem_append.mp hb with hb | hb
          · have hlive := h.live b hb
            refine ⟨hholds, hlive.shape, fun x hx => ?_⟩
            exact (hkept b hlive.holds hlive.shape hlive.placed).2 x hx
          · obtain rfl := List.mem_singleton.mp hb
            exact ⟨hholds, hshape, fun x hx => hplaced x hx⟩
        tokens := by
          intro b hb
          rw [hheld] at hb
          rcases List.mem_append.mp hb with hb | hb
          · exact h.tokens b hb
          · rw [List.mem_singleton.mp hb]
            exact htoken
        follows := by
          rw [hheld]
          refine follows_append.mpr
            ⟨c.written.length, h.follows.congr hold, hanchor, ?_⟩
          rw [hlen]
          exact (List.length_append).symm
        accumulated := by
          intro a ha
          have hacc := h.accumulated a ha
          refine ⟨hphys ▸ hacc.aux, hacc.inside, ?_⟩
          have hsame : a.bytes c₃.memory = a.bytes c.memory := by
            refine ByteMemory.readRange_congr fun k hk => hread _ ?_
            have hin := hacc.inside
            unfold SBuffer.extent at hin
            rw [show a.get 0 + k = a.config.memory + (a.offset + k) by
              simp only [SBuffer.get]; omega]
            exact hacc.aux.clear.cells _ (by omega)
          have hgrown := take_of_grown bytes hconsumed
            (l := a.bytes c.memory)
            (by rw [SBuffer.bytes_length]; exact hacc.bytes)
          rw [SBuffer.bytes_length] at hgrown
          exact hsame.trans hgrown
        auxQueue := h.auxQueue
        auxToken := h.auxToken
        auxBuffers := hphys ▸ h.auxBuffers
        apart := hphys ▸ h.apart
        consumed := take_of_grown (k := 0) bytes (Nat.zero_le _) h.consumed
        window := fun w hw => take_of_grown bytes hconsumed (h.window w hw) }
    exact hinv₃.looked hqueue hinline hlook

/-- A buffer comes back to the producer. -/
theorem giveBack (h : ConnInv B c q anchor accum rest aux) {now : Int} {k : Nat}
    (hnext : c.giveBack now k = .ok c') :
    c'.consumed = c.consumed ∧ c'.written = c.written ∧
      ∃ q', ConnInv B c' q' anchor accum rest aux := by
  unfold Connection.giveBack at hnext
  split at hnext
  · rw [Checked.pure_eq_ok] at hnext
    subst hnext
    exact ⟨rfl, rfl, q, h⟩
  · rename_i buffer hk
    simp only [Checked.bind_eq_ok, Checked.pure_eq_ok, OutputPort.push,
      h.queue] at hnext
    obtain ⟨p', ⟨q₁, hpush, hupdate⟩, rfl⟩ := hnext
    refine ⟨rfl, rfl, ?_⟩
    obtain ⟨hinline, q', hq', hlook⟩ :=
      OutputPort.update_queue
        (p := { c.output with queue := some q₁ }) rfl hupdate
    let c₁ : Connection :=
      { c with
        output := { c.output with queue := some q₁ }
        returns := c.returns.eraseIdx k }
    have hinv : ConnInv B c₁ q₁ anchor accum rest aux :=
      ⟨rfl, h.inlineBuffer, h.itemSize, h.items, B.pushed h.backing hk hpush,
        fun b hb => ⟨(h.live b hb).holds, (h.live b hb).shape,
          (h.live b hb).placed⟩,
        h.tokens, h.follows, h.accumulated, h.auxQueue, h.auxToken,
        h.auxBuffers, h.apart, h.consumed, h.window⟩
    exact ⟨q', hinv.looked hq' (hinline.trans h.inlineBuffer) hlook⟩

/-! ### Runs -/

/-- A connection before its first work. -/
theorem started {src : SourceConfig} (h : Connection.Started src c) :
    ∃ aux, ConnInv src.backing c src.queue (fun _ => 0) none [] aux := by
  obtain ⟨initTime, now, now', fresh, itemSize, reserveBytes, maximumBytes, m,
      hconfig,
    htoken, hclear, hapart⟩ := h.configured
  obtain ⟨-, -, -, -, ⟨-, hitems, rfl, haux⟩ | ⟨hpos, -⟩⟩ :=
    updateConfig_resized hconfig
  · refine ⟨fresh.queue c.input.maximumBytes, ?_⟩
    exact
      { queue := h.queue
        inlineBuffer := h.inlineBuffer
        itemSize := h.itemSize
        items := hitems
        backing := by
          rw [Connection.producer, h.flight, h.returns, h.written]
          exact src.backing_start h.mapped
        live := fun b hb => by simp [h.flight] at hb
        tokens := fun b hb => by simp [h.flight] at hb
        follows := by
          rw [h.flight, h.consumed, h.written]
          rfl
        accumulated := fun a ha => by cases ha
        auxQueue := haux
        auxToken := htoken
        auxBuffers := fun a ha => by
          refine ⟨hclear a ha, ?_, ?_⟩
          all_goals
            rw [AuxAllocations.queue_buffers] at ha
            simp only [List.mem_cons, List.not_mem_nil, or_false] at ha
            rcases ha with rfl | rfl | rfl <;> rfl
        apart := hapart
        consumed := by
          rw [h.consumed, h.written]
          rfl
        window := fun w hw => by
          rw [h.window] at hw
          cases hw }
  · exact absurd hpos (Nat.lt_irrefl 0)

/-- **The step lemma.** -/
theorem step {src : SourceConfig}
    (h : ConnInv src.backing c q anchor accum rest aux)
    {ev : ConnEvent} (hallowed : c.Allowed src ev)
    (hnext : c.next ev = .ok c') :
    ∃ q' anchor' accum' rest' aux',
      ConnInv src.backing c' q' anchor' accum' rest' aux' := by
  cases ev with
  | produce now items bytes =>
      obtain ⟨-, -, q', anchor', hinv⟩ := h.produce hallowed.1 hallowed.2 hnext
      exact ⟨q', anchor', accum, rest, aux, hinv⟩
  | deliver now =>
      obtain ⟨-, -, rest', aux', hinv⟩ := h.deliver hallowed hnext
      exact ⟨q, anchor, accum, rest', aux', hinv⟩
  | front fresh =>
      obtain ⟨-, -, hinv⟩ := h.front hallowed.2 hnext
      exact ⟨q, anchor, hinv⟩
  | inputFail now fresh =>
      obtain ⟨-, -, hinv⟩ := h.inputFail hallowed.2 hnext
      exact ⟨q, anchor, hinv⟩
  | consume now items =>
      obtain ⟨bytes, hwindow, hitems⟩ := hallowed
      obtain ⟨-, -, hinv⟩ := h.consume hwindow hitems hnext
      exact ⟨q, anchor, hinv⟩
  | giveBack now k =>
      obtain ⟨-, -, q', hinv⟩ := h.giveBack hnext
      exact ⟨q', anchor, accum, rest, aux, hinv⟩

/-- **The run lemma.** -/
theorem of_reachable {src : SourceConfig}
    (h : (Connection.system src).Reachable c) :
    ∃ q anchor accum rest aux,
      ConnInv src.backing c q anchor accum rest aux := by
  refine h.invariant (P := fun c => ∃ q anchor accum rest aux,
    ConnInv src.backing c q anchor accum rest aux) ?_ ?_
  · intro c hc
    obtain ⟨aux, hinv⟩ := started hc
    exact ⟨_, _, _, _, aux, hinv⟩
  · rintro c ev c' - ⟨q, anchor, accum, rest, aux, hinv⟩ ⟨hallowed, hnext⟩
    exact hinv.step hallowed hnext

end ConnInv

/-! ## The refinement -/

/-- What a connection is for: a FIFO of bytes. -/
structure ByteFifo where
  queued : List Byte
  delivered : List Byte

namespace ByteFifo

/-- Its operations. -/
inductive Op where
  | write (bytes : List Byte)
  | read (numBytes : Nat)

/-- What they do. -/
inductive Step : ByteFifo → Op → ByteFifo → Prop where
  | write (f : ByteFifo) (bytes : List Byte) :
      Step f (.write bytes) { f with queued := f.queued ++ bytes }
  | read (f : ByteFifo) {n : Nat} (h : n ≤ f.queued.length) :
      Step f (.read n) ⟨f.queued.drop n, f.delivered ++ f.queued.take n⟩

/-- It starts empty. -/
def system : TransitionSystem ByteFifo Op where
  init f := f = ⟨[], []⟩
  step := Step

end ByteFifo

/-- The FIFO a connection stands for: what was consumed, and the bytes of the
handles on the consumer's side. -/
def Connection.Denotes (c : Connection) (f : ByteFifo) : Prop :=
  f.delivered = c.consumed ∧ f.queued = queueBytes c.memory c.entries

/-- One event of a connection is one operation of the FIFO, or none. -/
theorem ConnInv.simulates {src : SourceConfig} {c c' : Connection}
    {ev : ConnEvent} (hreach : (Connection.system src).Reachable c)
    (hallowed : c.Allowed src ev) (hnext : c.next ev = .ok c') {f : ByteFifo}
    (hf : c.Denotes f) : ∃ f', ByteFifo.system.Steps f f' ∧ c'.Denotes f' := by
  obtain ⟨q, anchor, accum, rest, aux, h⟩ := of_reachable hreach
  obtain ⟨q', anchor', accum', rest', aux', h'⟩ := h.step hallowed hnext
  have hqueued := hf.2.trans h.content
  -- an event that neither writes nor consumes
  have stutter (hc : c'.consumed = c.consumed) (hw : c'.written = c.written) :
      ∃ f', ByteFifo.system.Steps f f' ∧ c'.Denotes f' := by
    refine ⟨f, .refl, hf.1.trans hc.symm, ?_⟩
    rw [h'.content, hc, hw]
    exact hqueued
  cases ev with
  | produce now items bytes =>
      obtain ⟨hc, hw, -⟩ := h.produce hallowed.1 hallowed.2 hnext
      refine ⟨_, .single ⟨.write bytes, .write f bytes⟩, hf.1.trans hc.symm, ?_⟩
      rw [h'.content, hc, hw,
        List.drop_append_of_le_length h.consumed_le, ← hqueued]
  | deliver now =>
      obtain ⟨hc, hw, -⟩ := h.deliver hallowed hnext
      exact stutter hc hw
  | front fresh =>
      obtain ⟨hc, hw, -⟩ := h.front hallowed.2 hnext
      exact stutter hc hw
  | inputFail now fresh =>
      obtain ⟨hc, hw, -⟩ := h.inputFail hallowed.2 hnext
      exact stutter hc hw
  | consume now items =>
      obtain ⟨bytes, hwindow, hitems⟩ := hallowed
      obtain ⟨hc, hw, -⟩ := h.consume hwindow hitems hnext
      -- what the work was given is the front of the FIFO
      have hgiven := h.window bytes hwindow
      rw [← hqueued] at hgiven
      have htake : bytes.take (items * c.input.itemsSize)
          = f.queued.take (items * c.input.itemsSize) := by
        rw [hgiven, List.take_take, Nat.min_eq_left hitems]
      have hle : items * c.input.itemsSize ≤ f.queued.length := by
        have := congrArg List.length hgiven
        rw [List.length_take] at this
        omega
      refine ⟨_, .single ⟨.read _, .read f hle⟩, ?_, ?_⟩
      · rw [hc, htake, ← hf.1]
      · rw [h'.content, hc, hw, htake, List.length_append, List.length_take,
          Nat.min_eq_left hle, ← List.drop_drop, ← hqueued]
  | giveBack now k =>
      obtain ⟨hc, hw, -⟩ := h.giveBack hnext
      exact stutter hc hw

/-- **A connection is a FIFO of bytes.**  In every run the bytes consumed and
the bytes on the way are the bytes written; while a work runs, the bytes it was
given stand at the front; and the connection refines the FIFO. -/
theorem stream_refinement (src : SourceConfig) :
    (∀ c, (Connection.system src).Reachable c →
      c.consumed ++ queueBytes c.memory c.entries = c.written ∧
        ∀ w ∈ c.window, w <+: queueBytes c.memory c.entries) ∧
      TransitionSystem.Simulates (Connection.system src) ByteFifo.system
        Connection.Denotes := by
  refine ⟨fun c hc => ?_, ?_, ?_⟩
  · obtain ⟨q, anchor, accum, rest, aux, h⟩ := ConnInv.of_reachable hc
    refine ⟨?_, fun w hw => ?_⟩
    · rw [h.content]
      exact (congrArg (· ++ _) h.consumed).trans (List.take_append_drop _ _)
    · rw [h.content, h.window w hw]
      exact List.take_prefix _ _
  · intro c hc
    obtain ⟨aux, h⟩ := ConnInv.started hc
    refine ⟨⟨[], []⟩, rfl, hc.consumed.symm, ?_⟩
    rw [h.content, hc.consumed, hc.written]
    rfl
  · rintro c ev c' f hreach hf ⟨hallowed, hnext⟩
    exact ConnInv.simulates hreach hallowed hnext hf

end Gras
