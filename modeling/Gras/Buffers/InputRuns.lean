import Gras.Lib.TransitionSystem
import Gras.Buffers.Accumulate
import Gras.Buffers.OutputBufferQueues

/-!
# The runs of an input port

A port from `resize` on, through any sequence of its operations: configurations,
buffers from anywhere, accumulation, and the auxiliary buffers that come back.

* `InputPort.updateConfig_cases`: what a configuration does.
* `InputRun.Outcome`: what a step can do; `next_rule`: what it does to the
  queue.
* `counted_of_reachable`: the byte count is the sum of the lengths, in every
  run.
* `enqueued_of_residueFree`: in which runs a queue without bytes is empty.

### What the condition is for

The byte count is right in every run.  What may fail is that a queue without
bytes is empty: a consume pops the entries it uses up, but a slice of length 0
may stand behind them, and then the queue has an entry and no bytes.  It is left
only when the front is taken as a whole, so `ResidueFree` looks at these steps
alone, and at the entry behind the front.
-/

namespace Gras

namespace InputPort

/-! ## Configuration -/

/-- The port of `update_config` before the preload is looked at. -/
def reconfigured (fresh : AuxAllocations)
    (itemSize reserveBytes maximumBytes : Nat) (p : InputPort) : InputPort :=
  { p with
    itemsSize := itemSize
    maximumBytes := p.configuredMaximum reserveBytes maximumBytes
    auxQueue := some
      (p.configuredAux fresh (p.configuredMaximum reserveBytes maximumBytes)) }

/-- The buffer of zeros `update_config` enqueues. -/
def preloaded (bytes : Nat) (buff : SBuffer) : SBuffer :=
  { buff with offset := 0, length := bytes }

/-- What `update_config` does to the queue: it enqueues more preload, takes some
away, or leaves the queue alone. -/
inductive Preloads (now : Int) (preloadBytes : Nat) (p : InputPort) :
    InputPort → Prop where
  | more {p' : InputPort} {aux : SimpleBufferQueue} {buff : SBuffer}
    {buffers : List SBuffer}
      (hlt : p.preloadBytes < preloadBytes) (haux : p.auxQueue = some aux)
      (hbuff : aux.buffers = buff :: buffers)
      (hpush : { p with auxQueue := some { aux with buffers } }.push now
        (preloaded (preloadBytes - p.preloadBytes) buff) = .ok p') :
      Preloads now preloadBytes p p'
  | less {p' : InputPort} (hlt : preloadBytes < p.preloadBytes)
      (hconsume : p.consume now
        (min (p.preloadBytes - preloadBytes) p.enqueuedBytes) = .ok p') :
      Preloads now preloadBytes p p'
  | same (heq : preloadBytes = p.preloadBytes) : Preloads now preloadBytes p p

section Configuration

variable {p p' : InputPort} {now : Int} {m m' : Memory} {fresh : AuxAllocations}
  {itemSize preloadBytes reserveBytes maximumBytes : Nat}

/-- **`update_config`**: the new sizes, the change of the preload, the ready
bit. -/
theorem updateConfig_cases
    (h : p.updateConfig now fresh itemSize preloadBytes reserveBytes
      maximumBytes m
      = .ok (p', m')) :
    itemSize ≠ 0 ∧ ∃ p₁,
      Preloads now preloadBytes
        (p.reconfigured fresh itemSize reserveBytes maximumBytes) p₁ ∧
      p' = ({ p₁ with preloadBytes, reserveBytes } : InputPort).setReady now
        (decide (reserveBytes ≤ p₁.enqueuedBytes)) := by
  simp only [updateConfig, Checked.bind_eq_ok, assertThat_eq_ok,
    Checked.pure_eq_ok, Prod.mk.injEq, Prod.exists] at h
  obtain ⟨-, hitem, p₁, m₁, hmore, p₂, hless, p₃, hup, rfl, -⟩ := h
  refine ⟨hitem, p₂, ?_, update_eq_ok hup⟩
  unfold morePreload at hmore
  split at hmore
  · rename_i hle
    simp only [Checked.pure_eq_ok, Prod.mk.injEq] at hmore
    obtain ⟨rfl, -⟩ := hmore
    unfold lessPreload at hless
    split at hless
    · rename_i hlt
      exact .less hlt hless
    · rename_i hge
      rw [Checked.pure_eq_ok] at hless
      subst hless
      exact .same (Nat.le_antisymm hle (Nat.le_of_not_lt hge))
  · rename_i hlt
    dsimp only at hmore
    split at hmore
    · simp at hmore
    · rename_i buff buffers hbuff
      simp only [Checked.bind_eq_ok, Checked.pure_eq_ok, Prod.mk.injEq] at hmore
      obtain ⟨p₄, hpush, rfl, -⟩ := hmore
      obtain ⟨-, hsame, -⟩ := push_cases hpush
      have hpre : p₄.preloadBytes = p.preloadBytes := hsame.preloadBytes
      rw [lessPreload,
        if_neg (by rw [hpre]; exact fun h => hlt (Nat.le_of_lt h)),
        Checked.pure_eq_ok] at hless
      subst hless
      exact .more (Nat.lt_of_not_le hlt) rfl hbuff hpush

/-- **An auxiliary buffer of the new maximum is there**, whatever the port had
before. -/
theorem configuredAux_cons (p : InputPort) (fresh : AuxAllocations)
    (maximum : Nat) :
    ∃ buff buffers, (p.configuredAux fresh maximum).buffers = buff :: buffers ∧
      buff.config.length = maximum := by
  have hnew : ∃ buff buffers, (fresh.queue maximum).buffers = buff :: buffers ∧
      buff.config.length = maximum := ⟨_, _, fresh.queue_buffers maximum, rfl⟩
  unfold configuredAux
  split
  · exact hnew
  · split
    · exact hnew
    · rename_i hbuffers
      split
      · rename_i hlength
        exact ⟨_, _, hbuffers, hlength⟩
      · exact hnew

/-- The port keeps its auxiliary queue or gets the new one. -/
theorem configuredAux_cases (p : InputPort) (fresh : AuxAllocations)
    (maximum : Nat) :
    p.configuredAux fresh maximum = fresh.queue maximum ∨
      ∃ aux buff buffers, p.auxQueue = some aux ∧
        aux.buffers = buff :: buffers ∧
        buff.config.length = maximum ∧ p.configuredAux fresh maximum = aux := by
  unfold configuredAux
  split
  · exact .inl rfl
  · rename_i aux haux
    split
    · exact .inl rfl
    · rename_i hbuffers
      split
      · rename_i hlength
        exact .inr ⟨aux, _, _, haux, hbuffers, hlength, rfl⟩
      · exact .inl rfl

end Configuration

/-! ## Lengths -/

theorem stitch_queueLength (b0 : SBuffer) (rest : List SBuffer) :
    queueLength (stitch b0 rest) = b0.length + queueLength rest := by
  cases rest with
  | nil => rfl
  | cons b1 rest =>
      by_cases h : Stitches b0 b1
      · rw [stitch_of h]
        simp only [queueLength_cons, taking, giving]
        omega
      · rw [stitch_of_not h]
        rfl

/-- Stitching moves bytes between neighbours. -/
theorem stitchLoop_queueLength (q : List SBuffer) :
    queueLength (stitchLoop q) = queueLength q := by
  induction q with
  | nil => rfl
  | cons b rest ih => rw [stitchLoop, stitch_queueLength, ih, queueLength_cons]

theorem dropStitched_queueLength (q : List SBuffer) :
    queueLength (dropStitched q) = queueLength q := by
  rcases dropStitched_eq q with heq | ⟨b, hb, heq⟩
  · rw [heq]
  · have := congrArg queueLength heq
    rw [queueLength_append, queueLength_cons, hb] at this
    exact this.symm

theorem unstitch_of {b0 b1 : SBuffer} (h : Unstitches b0 b1)
    (rest : List SBuffer) :
    unstitch (b0 :: b1 :: rest) = regaining b0 b1 :: rest := if_pos h

theorem unstitch_of_not {b0 b1 : SBuffer} (h : ¬ Unstitches b0 b1)
    (rest : List SBuffer) :
    unstitch (b0 :: b1 :: rest) = b0 :: b1 :: rest := if_neg h

theorem unstitch_queueLength (q : List SBuffer) :
    queueLength (unstitch q) = queueLength q := by
  unfold unstitch
  split
  · split
    · simp only [queueLength_cons, regaining]
      omega
    · rfl
  · rfl

theorem drained_queueLength {front : SBuffer} (rest : List SBuffer)
    {bytes : Nat} (h : bytes ≤ front.length) :
    queueLength (drained bytes (front :: rest)) + bytes =
      queueLength (front :: rest) := by
  rw [drained_cons, queueLength_cons]
  split
  · omega
  · simp only [queueLength_cons, SBuffer.skip]
    omega

/-- The front of a queue of two or more is not dropped. -/
theorem dropStitched_head? (q : List SBuffer) :
    (dropStitched q).head? = q.head? := by
  fun_cases dropStitched q with
  | case1 => rfl
  | case2 => rfl
  | case3 => rfl
  | case4 => rfl

/-- The front of a stitched queue is no shorter than before. -/
theorem stitchLoop_head {q : List SBuffer} {b : SBuffer}
    (hb : b ∈ (stitchLoop q).head?) : ∃ b₀ ∈ q.head?, b₀.length ≤ b.length := by
  cases q with
  | nil => cases hb
  | cons b₀ rest =>
      obtain ⟨rest', hloop⟩ := stitchLoop_cons b₀ rest
      rw [hloop] at hb
      cases hb
      exact ⟨b₀, rfl, Nat.le_add_right _ _⟩

/-! ## The byte count -/

/-- The byte count of the port is the sum of the lengths. -/
def Counted (p : InputPort) : Prop :=
  p.enqueuedBytes = queueLength p.queue.items

/-- The front of the queue, if any, is not empty. -/
def FrontFilled (p : InputPort) : Prop :=
  ∀ b ∈ p.queue.items.head?, b.length ≠ 0

/-- When the front goes whole, what comes to the front has bytes: the next
entry, or the one after it that takes the next one in. -/
def ResidueFree (bytes : Nat) : List SBuffer → Prop
  | front :: next :: third :: _ => front.length = bytes →
      next.length ≠ 0 ∨ Unstitches next third ∧ third.length ≠ 0
  | [front, next] => front.length = bytes → next.length ≠ 0
  | _ => True

instance (bytes : Nat) : ∀ q, Decidable (ResidueFree bytes q)
  | [] => inferInstanceAs (Decidable True)
  | [_] => inferInstanceAs (Decidable True)
  | [_, _] => inferInstanceAs (Decidable (_ → _))
  | _ :: _ :: _ :: _ => inferInstanceAs (Decidable (_ → _ ∨ _))

section Count

variable {p p' : InputPort} {now : Int} {m m' : Memory}

theorem Counted.push {buffer : SBuffer} (hp : p.Counted)
    (h : p.push now buffer = .ok p') : p'.Counted := by
  obtain ⟨-, -, henq, ⟨hlen, hq⟩ | ⟨-, hq⟩⟩ := push_cases h
  · rw [Counted, henq, hq, hlen]
    exact hp
  · rw [Counted, henq, hq, dropStitched_queueLength, stitchLoop_queueLength,
      queueLength_append, hp]
    rfl

theorem Counted.consume {items : Nat} (hp : p.Counted)
    (h : p.consume now items = .ok p') : p'.Counted := by
  obtain ⟨-, -, -, henq, front, rest, hq, hle, hq'⟩ := consume_cases h
  rw [Counted, henq, hq', unstitch_queueLength, hp, hq,
    ← drained_queueLength _ hle]
  omega

theorem Counted.accumulate {fresh : Allocation} (hp : p.Counted)
    (h : p.accumulate fresh m = .ok (p', m')) : p'.Counted := by
  obtain ⟨rfl, -⟩ | ⟨aux, buff, buffers, -, -, -, -, -, henq, hq, -⟩ :=
    accumulate_cases h
  · exact hp
  · have htotal :=
      gather_queueLength p.queue.items { buff with offset := 0, length := 0 }
      (p.freeBytes buff) m
    rw [Counted, henq, hq, hp, queueLength_cons]
    obtain ⟨hfilled, hleft⟩ := htotal
    change (p.gathered buff m).accum.length = 0 + _ at hfilled
    change queueLength (p.gathered buff m).queue + _ = _ at hleft
    omega

theorem FrontFilled.push {buffer : SBuffer} (hp : p.FrontFilled)
    (h : p.push now buffer = .ok p') : p'.FrontFilled := by
  obtain ⟨-, -, -, ⟨-, hq⟩ | ⟨hlen, hq⟩⟩ := push_cases h
  · rw [FrontFilled, hq]
    exact hp
  · intro b hb
    rw [hq, dropStitched_head?] at hb
    obtain ⟨b₀, hb₀, hle⟩ := stitchLoop_head hb
    have hb₀' : b₀.length ≠ 0 := by
      cases hitems : p.queue.items with
      | nil =>
          rw [hitems] at hb₀
          cases hb₀
          exact Nat.ne_of_gt hlen
      | cons front rest =>
          rw [hitems] at hb₀
          cases hb₀
          exact hp b₀ (by rw [hitems]; rfl)
    omega

/-- **What a consume leaves at the front.** -/
theorem consume_frontFilled_iff {items : Nat} (hp : p.FrontFilled)
    (h : p.consume now items = .ok p') :
    p'.FrontFilled ↔ ResidueFree (items * p.itemsSize) p.queue.items := by
  obtain ⟨-, -, -, -, front, rest, hq, hle, hq'⟩ := consume_cases h
  have hfront : front.length ≠ 0 := hp front (by rw [hq]; rfl)
  rw [FrontFilled, hq', hq, drained_cons]
  by_cases hwhole : front.length = items * p.itemsSize
  · -- the front goes whole, and its successors are un-stitched
    rw [if_pos hwhole]
    cases rest with
    | nil => simp [unstitch, ResidueFree]
    | cons next rest =>
        cases rest with
        | nil => simp [unstitch, ResidueFree, hwhole]
        | cons third rest =>
            by_cases hun : Unstitches next third
            · rw [unstitch_of hun]
              have hsum : third.length + next.length ≠ 0 ↔
                  next.length ≠ 0 ∨ third.length ≠ 0 := by
                omega
              simpa [ResidueFree, hwhole, hun, regaining] using hsum
            · rw [unstitch_of_not hun]
              simp [ResidueFree, hwhole, hun]
  · -- the front keeps some of its bytes
    rw [if_neg hwhole]
    have hskip : (front.skip (items * p.itemsSize)).length ≠ 0 := by
      simp only [SBuffer.skip]
      omega
    constructor
    · intro _
      cases rest with
      | nil => trivial
      | cons next rest =>
          cases rest with
          | nil => exact fun heq => absurd heq hwhole
          | cons third rest => exact fun heq => absurd heq hwhole
    · intro _ b hb
      cases rest with
      | nil =>
          cases hb
          exact hskip
      | cons next rest =>
          by_cases hun : Unstitches (front.skip (items * p.itemsSize)) next
          · rw [unstitch_of hun] at hb
            cases hb
            simp only [regaining]
            omega
          · rw [unstitch_of_not hun] at hb
            cases hb
            exact hskip

theorem FrontFilled.accumulate {fresh : Allocation} (hp : p.FrontFilled)
    (h : p.accumulate fresh m = .ok (p', m')) : p'.FrontFilled := by
  obtain ⟨rfl, -⟩ | ⟨aux, buff, buffers, -, -, -, -, -, -, hq, -, front, rest,
      hitems, hroom, -⟩ :=
    accumulate_cases h
  · exact hp
  · intro b hb
    rw [hq] at hb
    cases hb
    have hfront : front.length ≠ 0 := hp front (by rw [hitems]; rfl)
    have htotal :=
      gather_queueLength p.queue.items { buff with offset := 0, length := 0 }
      (p.freeBytes buff) m
    have hle : front.length ≤ queueLength p.queue.items := by
      rw [hitems]
      exact Nat.le_add_right _ _
    have hfilled : (p.gathered buff m).accum.length = 0 + _ := htotal.1
    omega

end Count

end InputPort

/-! ## Runs -/

/-- A port in its memory. -/
structure InputRun where
  port : InputPort
  memory : Memory
  /-- The tokens of the auxiliary queues the port has had. -/
  tokens : List Nat
  /-- The auxiliary buffers that have stood in the queue. -/
  lent : List SBuffer

/-- What happens to a port. -/
inductive InputEvent where
  | configure (now : Int) (fresh : InputPort.AuxAllocations)
      (itemSize preloadBytes reserveBytes maximumBytes : Nat)
  | push (now : Int) (buffer : SBuffer)
  | consume (now : Int) (items : Nat)
  | accumulate (fresh : Allocation)
  | front (fresh : Allocation)
  | hasMsg (now : Int) (has : Bool)
  | fail (now : Int)
  | flush (now : Int)
  /-- The last handle to an auxiliary buffer went, and its token calls back. -/
  | recycle (buffer : SBuffer)

namespace InputRun

/-- The port after an operation; its own buffers in the queue are lent from here
on. -/
def after (st : InputRun) (port : InputPort) (memory : Memory) : InputRun :=
  { st with
    port, memory
    lent := st.lent ++ port.queue.items.filter fun b =>
      b.config.token ∈ st.tokens }

/-- The operations of the port. -/
def next (st : InputRun) : InputEvent → Checked InputRun
  | .configure now fresh itemSize preloadBytes reserveBytes maximumBytes => do
      let (port, memory) ← st.port.updateConfig now fresh itemSize preloadBytes
          reserveBytes
        maximumBytes st.memory
      return { st with tokens := fresh.token :: st.tokens }.after port memory
  | .push now buffer => do
      let port ← st.port.push now buffer
      return st.after port st.memory
  | .consume now items => do
      let port ← st.port.consume now items
      return st.after port st.memory
  | .accumulate fresh => do
      let (port, memory) ← st.port.accumulate fresh st.memory
      return st.after port memory
  | .front fresh => do
      let (_, port, memory) ← st.port.front fresh st.memory
      return st.after port memory
  | .hasMsg now has => do
      let port ← st.port.updateHasMsg now has
      return st.after port st.memory
  | .fail now => return st.after (st.port.fail now) st.memory
  | .flush now => do
      let port ← st.port.flush now
      return st.after port st.memory
  | .recycle buffer =>
      return { st with port := { st.port with
        auxQueue := st.port.auxQueue.map fun aux =>
          if buffer.config.token = aux.token then aux.pushBack buffer
          else aux } }

/-- A port that `resize` has just added. -/
def Resized (st : InputRun) : Prop :=
  (∃ initTime now, st.port = InputPort.resized initTime now) ∧ st.tokens = [] ∧
    st.lent = []

/-- The runs of a port. -/
def system : TransitionSystem InputRun InputEvent :=
  TransitionSystem.ofNext Resized next

/-- The buffer a step pushes: one that arrives, or more preload. -/
def pushed (st : InputRun) : InputEvent → Option SBuffer
  | .push _ buffer => some buffer
  | .configure _ fresh _ preloadBytes reserveBytes maximumBytes =>
      if st.port.preloadBytes < preloadBytes then
        (st.port.configuredAux fresh
          (st.port.configuredMaximum reserveBytes
            maximumBytes)).buffers.head?.map
            (InputPort.preloaded (preloadBytes - st.port.preloadBytes))
      else none
  | _ => none

/-- The bytes a step takes off the front of the queue. -/
def taken (st : InputRun) : InputEvent → Option Nat
  | .consume _ items => some (items * st.port.itemsSize)
  | .configure _ _ itemSize preloadBytes _ _ =>
      if preloadBytes < st.port.preloadBytes then
        some (min (st.port.preloadBytes - preloadBytes)
          st.port.enqueuedBytes * itemSize)
      else none
  | _ => none

/-- **The condition on a step**: what it takes off the front leaves no empty
entry there. -/
def ResidueFree (st : InputRun) (ev : InputEvent) : Prop :=
  ∀ bytes ∈ st.taken ev, InputPort.ResidueFree bytes st.port.queue.items

/-- The runs whose steps all meet it. -/
def residueFreeSystem : TransitionSystem InputRun InputEvent :=
  system.restrict ResidueFree

/-- **What a step can do**: one of the operations that move buffers, or
something that leaves the queue and the configuration alone. -/
inductive Outcome (st : InputRun) : InputEvent → InputRun → Prop where
  | configured {now : Int} {fresh : InputPort.AuxAllocations}
      {itemSize preloadBytes reserveBytes maximumBytes : Nat} {p : InputPort}
        {m : Memory}
      (h : st.port.updateConfig now fresh itemSize preloadBytes reserveBytes
        maximumBytes
        st.memory = .ok (p, m)) :
      Outcome st (.configure now fresh itemSize preloadBytes reserveBytes
        maximumBytes) ({ st with tokens := fresh.token :: st.tokens }.after p m)
  | pushed {now : Int} {buffer : SBuffer} {p : InputPort}
      (h : st.port.push now buffer = .ok p) :
      Outcome st (.push now buffer) (st.after p st.memory)
  | consumed {now : Int} {items : Nat} {p : InputPort}
      (h : st.port.consume now items = .ok p) :
      Outcome st (.consume now items) (st.after p st.memory)
  | accumulated {ev : InputEvent} {fresh : Allocation} {p : InputPort}
    {m : Memory}
      (h : st.port.accumulate fresh st.memory = .ok (p, m)) :
      Outcome st ev (st.after p m)
  | idle {ev : InputEvent} {p : InputPort}
    (hsame : InputPort.SameConfig st.port p)
      (haux : p.auxQueue = st.port.auxQueue)
      (hitems : p.queue.items = st.port.queue.items)
      (hbytes : p.enqueuedBytes = st.port.enqueuedBytes) :
      Outcome st ev (st.after p st.memory)
  | flushed {now : Int} {p : InputPort} (hsame : InputPort.SameConfig st.port p)
      (haux : p.auxQueue = st.port.auxQueue) (hitems : p.queue.items = [])
      (hbytes : p.enqueuedBytes = 0) :
        Outcome st (.flush now) (st.after p st.memory)
  | recycled {buffer : SBuffer} :
      Outcome st (.recycle buffer) { st with port := { st.port with
        auxQueue := st.port.auxQueue.map fun aux =>
          if buffer.config.token = aux.token then aux.pushBack buffer
          else aux } }

theorem outcome {st st' : InputRun} {ev : InputEvent}
    (h : st.next ev = .ok st') : st.Outcome ev st' := by
  cases ev with
  | configure now fresh itemSize preloadBytes reserveBytes maximumBytes =>
      simp only [next, Checked.bind_eq_ok, Checked.pure_eq_ok] at h
      obtain ⟨⟨p, m⟩, hconfig, rfl⟩ := h
      exact .configured hconfig
  | push now buffer =>
      simp only [next, Checked.bind_eq_ok, Checked.pure_eq_ok] at h
      obtain ⟨p, hpush, rfl⟩ := h
      exact .pushed hpush
  | consume now items =>
      simp only [next, Checked.bind_eq_ok, Checked.pure_eq_ok] at h
      obtain ⟨p, hconsume, rfl⟩ := h
      exact .consumed hconsume
  | accumulate fresh =>
      simp only [next, Checked.bind_eq_ok, Checked.pure_eq_ok] at h
      obtain ⟨⟨p, m⟩, hacc, rfl⟩ := h
      exact .accumulated hacc
  | front fresh =>
      simp only [next, Checked.bind_eq_ok, Checked.pure_eq_ok] at h
      obtain ⟨⟨b, p, m⟩, hfront, rfl⟩ := h
      obtain ⟨-, ⟨-, -, rfl, rfl⟩ | ⟨⟨rfl, rfl⟩ | hacc, -⟩⟩ :=
        InputPort.front_cases hfront
      · exact .idle ⟨rfl, rfl, rfl, rfl⟩ rfl rfl rfl
      · exact .idle ⟨rfl, rfl, rfl, rfl⟩ rfl rfl rfl
      · exact .accumulated hacc
  | hasMsg now has =>
      simp only [next, Checked.bind_eq_ok, Checked.pure_eq_ok] at h
      obtain ⟨p, hmsg, rfl⟩ := h
      cases has with
      | true =>
          cases hmsg
          exact .idle ⟨rfl, rfl, rfl, rfl⟩ rfl rfl rfl
      | false =>
          have hp := InputPort.update_eq_ok hmsg
          subst hp
          exact .idle ⟨rfl, rfl, rfl, rfl⟩ rfl rfl rfl
  | fail now =>
      cases h
      exact .idle ⟨rfl, rfl, rfl, rfl⟩ rfl rfl rfl
  | flush now =>
      simp only [next, Checked.bind_eq_ok, Checked.pure_eq_ok] at h
      obtain ⟨p, hflush, rfl⟩ := h
      have hp := InputPort.update_eq_ok hflush
      subst hp
      exact .flushed ⟨rfl, rfl, rfl, rfl⟩ rfl rfl rfl
  | recycle buffer =>
      cases h
      exact .recycled

/-- **What a step does to the queue**: what is kept by a push, by a consume, by
an accumulation and by a flush is kept by every step. -/
theorem next_rule {P : InputPort → Prop} {st st' : InputRun} {ev : InputEvent}
    (hdata : ∀ p p', p'.queue.items = p.queue.items →
      p'.enqueuedBytes = p.enqueuedBytes →
      P p → P p')
    (hpush : ∀ p p' now buffer, P p → p.queue.items = st.port.queue.items →
      buffer ∈ st.pushed ev → p.push now buffer = .ok p' → P p')
    (hconsume : ∀ p p' now items, P p → p.queue.items = st.port.queue.items →
      items * p.itemsSize ∈ st.taken ev → p.consume now items = .ok p' → P p')
    (haccumulate : ∀ p' fresh m m', st.port.accumulate fresh m = .ok (p', m') →
      P p')
    (hempty : ∀ p, p.queue.items = [] → p.enqueuedBytes = 0 → P p)
    (hp : P st.port) (h : st.next ev = .ok st') : P st'.port := by
  cases outcome h with
  | @configured _ fresh itemSize preloadBytes reserveBytes maximumBytes _ _ hconfig =>
      obtain ⟨-, p₁, hpre, rfl⟩ := InputPort.updateConfig_cases hconfig
      suffices hp₁ : P p₁ from hdata p₁ _ rfl rfl hp₁
      have hp₀ := hdata st.port
        (st.port.reconfigured fresh itemSize reserveBytes
          maximumBytes) rfl rfl hp
      cases hpre with
      | @more _ aux buff buffers hlt haux hbuff hpushed =>
          refine hpush _ _ _ _ ?_ ?_ ?_ hpushed
          · exact hdata st.port _ rfl rfl hp
          · rfl
          · obtain rfl := Option.some.inj haux
            exact Option.mem_def.mpr ((if_pos hlt).trans (by rw [hbuff]; rfl))
      | less hlt hconsumed =>
          refine hconsume _ _ _ _ hp₀ rfl ?_ hconsumed
          exact Option.mem_def.mpr (if_pos hlt)
      | same _ => exact hp₀
  | pushed hpushed => exact hpush _ _ _ _ hp rfl rfl hpushed
  | consumed hconsumed => exact hconsume _ _ _ _ hp rfl rfl hconsumed
  | accumulated hacc => exact haccumulate _ _ _ _ hacc
  | idle _ _ hitems hbytes => exact hdata st.port _ hitems hbytes hp
  | flushed _ _ hitems hbytes => exact hempty _ hitems hbytes
  | recycled => exact hdata st.port _ rfl rfl hp

/-- **No step miscounts.** -/
theorem counted_of_reachable {st : InputRun} (h : system.Reachable st) :
    st.port.Counted := by
  refine h.invariant (P := fun st => st.port.Counted) ?_ ?_
  · rintro st ⟨⟨initTime, now, hport⟩, -⟩
    rw [hport]
    rfl
  · intro st ev st' _ hp hstep
    refine next_rule (P := InputPort.Counted) ?_ ?_ ?_ ?_ ?_ hp hstep
    · intro p p' hitems hbytes hp
      rw [InputPort.Counted, hitems, hbytes]
      exact hp
    · intro p p' now buffer hp _ _ hpush
      exact hp.push hpush
    · intro p p' now items hp _ _ hconsume
      exact hp.consume hconsume
    · intro p' fresh m m' hacc
      exact hp.accumulate hacc
    · intro p hitems hbytes
      rw [InputPort.Counted, hitems, hbytes]
      rfl

/-- A step that meets the condition leaves bytes at the front. -/
theorem frontFilled_of_reachable {st : InputRun}
    (h : residueFreeSystem.Reachable st) : st.port.FrontFilled := by
  refine h.invariant (P := fun st => st.port.FrontFilled) ?_ ?_
  · rintro st ⟨⟨initTime, now, hport⟩, -⟩
    rw [hport]
    intro b hb
    cases hb
  · intro st ev st' _ hp hstep
    refine next_rule (P := InputPort.FrontFilled) ?_ ?_ ?_ ?_ ?_ hp hstep.2
    · intro p p' hitems _ hp
      rw [InputPort.FrontFilled, hitems]
      exact hp
    · intro p p' now buffer hp _ _ hpush
      exact hp.push hpush
    · intro p p' now items hp hitems htaken hconsume
      rw [InputPort.consume_frontFilled_iff hp hconsume, hitems]
      exact hstep.1 _ htaken
    · intro p' fresh m m' hacc
      exact hp.accumulate hacc
    · intro p hitems _ b hb
      rw [hitems] at hb
      cases hb

end InputRun

/-- **A queue with entries has bytes** in a run that leaves no residue.

An entry that is used up is popped, but the empty one behind it is not, unless
it un-stitches.  So the condition is about steps that take the whole front: the
next entry is not empty, or gives way to the one after it. -/
theorem enqueued_of_residueFree {st : InputRun}
    (h : InputRun.residueFreeSystem.Reachable st) :
    st.port.enqueuedBytes = queueLength st.port.queue.items ∧
      (st.port.queue.items = [] ↔ st.port.enqueuedBytes = 0) ∧
      (0 < st.port.enqueuedBytes → ∃ b ∈ st.port.queue.items.head?,
        b.length ≠ 0) := by
  have htotal : st.port.enqueuedBytes = queueLength st.port.queue.items :=
    InputRun.counted_of_reachable (.of_restrict h)
  have hfront := InputRun.frontFilled_of_reachable h
  refine ⟨htotal, ?_, ?_⟩
  · rw [htotal]
    cases hitems : st.port.queue.items with
    | nil => exact ⟨fun _ => rfl, fun _ => rfl⟩
    | cons front rest =>
        have hne := hfront front (by rw [hitems]; rfl)
        rw [queueLength_cons]
        constructor
        · intro hnil
          cases hnil
        · intro hzero
          omega
  · intro hpos
    rw [htotal] at hpos
    cases hitems : st.port.queue.items with
    | nil =>
        rw [hitems] at hpos
        exact absurd hpos (Nat.lt_irrefl 0)
    | cons front rest => exact ⟨front, rfl, hfront front (by rw [hitems]; rfl)⟩

/-! ## Chunks of a ring -/

namespace InputRun

/-- A chunk of four bytes, as a ring of three handles posts the `k`-th. -/
def ringChunk (k : Nat) : SBuffer where
  impl := k
  config := { memory := 900000 + 4 * k, length := 4096, userIndex := k, token := 9 }
  length := 4
  last := if k = 0 then 0 else 900000 + 4 * k

/-- Three works that produce four bytes each. -/
def ringPosts : Checked (List SBuffer) := do
  let ring := BufferQueueCirc.make { memory := 0, length := 4096, token := 9 } 3 900000 12288
  let port ← (OutputPort.resized 0 0).setBufferQueue 0 (some (.circ ring))
  let buffer (k : Nat) : SBuffer :=
    ⟨k, { memory := 900000 + 4096 * k, length := 4096, userIndex := k, token := 9 }, 0, 0, 0⟩
  let port ← port.push 0 (buffer 0)
  let port ← port.push 0 (buffer 1)
  let port ← port.push 0 (buffer 2)
  let (c₀, port) ← (← port.produce 4 1).post 0
  let (c₁, port) ← (← port.produce 4 1).post 0
  let (c₂, _) ← (← port.produce 4 1).post 0
  return [c₀, c₁, c₂]

example : ringPosts.toOption = some [ringChunk 0, ringChunk 1, ringChunk 2] := by decide

/-- The port before its first configuration. -/
def start : InputRun := ⟨InputPort.resized 0 0, InputPort.flatMemory, [], []⟩

theorem start_resized : start.Resized := ⟨⟨0, 0, rfl⟩, rfl, rfl⟩

instance (st : InputRun) (ev : InputEvent) : Decidable (st.ResidueFree ev) :=
  inferInstanceAs (Decidable (∀ bytes ∈ st.taken ev, _))

/-- Four-byte items, three chunks of a ring, then works that consume so many
items. -/
def ringRun (consumed : List Nat) : List InputEvent :=
  [InputEvent.configure 0 (InputPort.flatAux 65536) 4 0 4 0,
    .push 0 (ringChunk 0), .push 0 (ringChunk 1), .push 0 (ringChunk 2)] ++
      consumed.map (.consume 0)

end InputRun

/-- The first chunk is consumed, the second one has taken the third one in. -/
theorem enqueued_of_residueFree_ringRun :
    ∃ st, InputRun.residueFreeSystem.Reachable st ∧
      st.port.queue.items.map SBuffer.length = [8, 0] ∧
      st.port.enqueuedBytes = queueLength st.port.queue.items ∧
      (st.port.queue.items = [] ↔ st.port.enqueuedBytes = 0) ∧
      (0 < st.port.enqueuedBytes → ∃ b ∈ st.port.queue.items.head?, b.length ≠ 0) := by
  have hrun : (TransitionSystem.runRestricted InputRun.ResidueFree InputRun.next
      (InputRun.ringRun [1]) InputRun.start).map (fun st => st.port.queue.items.map SBuffer.length)
      = some [8, 0] := by decide
  obtain ⟨st, hst, hlengths⟩ := Option.map_eq_some_iff.mp hrun
  have hreached : InputRun.residueFreeSystem.Reachable st :=
    TransitionSystem.Reachable.of_restricted_events _
      (.init InputRun.start_resized) hst
  exact ⟨st, hreached, hlengths, enqueued_of_residueFree hreached⟩

/-- **An empty entry stays** when the second chunk, which has taken the third
one in, is consumed: nothing is enqueued, and the queue is not empty. -/
theorem residue_stays :
    ∃ st, InputRun.system.Reachable st ∧ st.port.enqueuedBytes = 0 ∧
      st.port.queue.items ≠ [] := by
  have hrun : (TransitionSystem.runRestricted (fun _ _ => True) InputRun.next
      (InputRun.ringRun [1, 2]) InputRun.start).map
        (fun st => (st.port.enqueuedBytes, st.port.queue.items.length)) =
          some (0, 1) := by decide
  obtain ⟨st, hst, hseen⟩ := Option.map_eq_some_iff.mp hrun
  rw [Prod.mk.injEq] at hseen
  refine ⟨st, .of_restrict (TransitionSystem.Reachable.of_restricted_events _
    (.init InputRun.start_resized) hst), hseen.1, ?_⟩
  intro hnil
  rw [hnil] at hseen
  cases hseen.2

end Gras
