import Gras.Lib.TransitionSystem
import Gras.Buffers.PoolPort

/-!
# When a port over a pool is ready

The runs of one output port whose queue is a pool: works that produce and call
`mark_output_fail`, chunks that are let go downstream, buffers that come back,
and new reserves.

* `PoolPort.Inv`: the buffers are in their places; the front holds what the work
  has produced, and nothing between two works; and the ready bit says whether
  the front has room for the reserve.  `PoolPort.Move` says once what each event
  does, and the invariant is read off it.
* `ready_of_home`: while the steps leave room for the reserve, a port whose
  buffers are all at home is ready.  `Spares` is what a step must not do: leave
  a front in the queue with less room than the reserve, or raise the reserve
  above the room of the front.
-/

namespace Gras

/-- An output port over a pool, in its place. -/
structure PoolPort where
  port : OutputPort
  itemSize : Nat
  maximumItems : Nat
  /-- A work is running. -/
  working : Bool
  numOutputItemsRead : Nat
  /-- `mark_output_fail` was called, and the ready bit was not computed since. -/
  failed : Bool
  /-- The handles to the pool's buffers outside the queue. -/
  held : List SBuffer
  /-- The buffers released and not yet back in the queue. -/
  returns : List SBuffer
  /-- What was posted downstream. -/
  posted : List SBuffer
  clock : Int

/-- What happens to such a port. -/
inductive PoolEvent where
  /-- A work starts. -/
  | work
  /-- The work calls `produce`. -/
  | produce (items : Nat)
  /-- The work calls `mark_output_fail`. -/
  | outputFail
  /-- The work ends. -/
  | finish
  /-- The `k`-th handle outside is copied. -/
  | copy (k : Nat)
  /-- The `k`-th handle outside goes. -/
  | drop (k : Nat)
  /-- The `k`-th released buffer comes back. -/
  | giveBack (k : Nat)
  /-- The port gets a new reserve. -/
  | reserve (numBytes : Nat)
  deriving DecidableEq, Repr

namespace PoolPort

/-- The buffers in the queue. -/
def items (c : PoolPort) : List SBuffer := c.port.queued

/-- One event at a time of the clock: the port's own operations in the order of
`task_main` and of the message handlers. -/
def next (c : PoolPort) : Int × PoolEvent → Checked PoolPort
  | (now, .work) => do
      assertThat c.port.ready "data->output_queues.ready(i)"
      let (buff, port) ← c.port.front
      assertThat (buff.length = 0) "buff.length == 0"
      return { c with port, working := true, numOutputItemsRead := 0, clock := now }
  | (now, .produce items) => do
      let port ← c.port.produce c.itemSize items
      return { c with port, numOutputItemsRead := c.numOutputItemsRead + items, clock := now }
  | (now, .outputFail) => do
      let port ← c.port.outputFail now c.itemSize c.maximumItems
      return { c with port, failed := true, clock := now }
  | (now, .finish) =>
      if c.port.empty then return { c with working := false, clock := now }
      else do
        let (chunk, port) ← c.port.post now
        if c.numOutputItemsRead = 0 then
          -- `consume` returns before it pops, so the bit is not computed
          return { c with port, working := false, clock := now }
        else
          return { c with
            port
            working := false
            failed := false
            held := c.held ++ [chunk]
            posted := c.posted ++ [chunk]
            clock := now }
  | (now, .copy k) =>
      return { c with held := c.held ++ c.held[k]?.toList, clock := now }
  | (now, .drop k) =>
      let held := c.held.eraseIdx k
      let gone := SBuffer.released c.held[k]?.toList (c.items ++ held)
      return { c with held, returns := c.returns ++ gone, clock := now }
  | (now, .giveBack k) =>
      match c.returns[k]? with
      | none => return { c with clock := now }
      | some buff => do
          let port ← c.port.push now buff
          return { c with
            port, failed := false, returns :=
              c.returns.eraseIdx k, clock := now }
  | (now, .reserve numBytes) => do
      let port ← c.port.setReserveBytes now numBytes
      return { c with port, failed := false, clock := now }

/-- The clock does not run backwards, messages are handled between works, what a
work produces fits the front buffer, and no reserve is larger than a buffer. -/
def Allowed (L : Nat) (c : PoolPort) (e : Int × PoolEvent) : Prop :=
  c.clock ≤ e.1 ∧
    match e.2 with
    | .work => c.working = false
    | .produce items => c.working = true ∧
        ∀ b ∈ c.items.head?, b.offset + b.length + items * c.itemSize ≤ L
    | .outputFail => c.working = true
    | .finish => c.working = true
    | .copy _ => True
    | .drop _ => True
    | .giveBack _ => c.working = false
    | .reserve numBytes => c.working = false ∧ numBytes ≤ L

/-- A port before its first work: the pool's buffers, all of one length, are on
their way to it. -/
structure Started (cfg : PoolConfig) (L : Nat) (c : PoolPort) : Prop where
  lengths : ∀ b ∈ cfg.buffers, b.config.length = L
  some : cfg.buffers ≠ []
  fits : L < 2 ^ 64
  queue : c.port.queue =
    Option.some (.pool
      (.make { memory := 0, length := 0, token := cfg.token }
        cfg.buffers.length))
  inlineBuffer : c.port.inlineBuffer = none
  bit : c.port.bit = false
  times : c.port.idleTimes.OnTime c.clock
  reserve : c.port.reserveBytes ≤ L
  itemSize : 0 < c.itemSize
  working : c.working = false
  held : c.held = []
  returns : c.returns = cfg.buffers.map SBuffer.reset

/-- The runs of a port over a pool. -/
def system (cfg : PoolConfig) (L : Nat) :
    TransitionSystem PoolPort (Int × PoolEvent) :=
  (TransitionSystem.ofNext (Started cfg L) next).restrict (Allowed L)

/-! ## The invariant -/

/-- The front has room for the reserve. -/
def Room (L : Nat) (c : PoolPort) : Prop :=
  ∃ b ∈ c.items.head?, b.offset + c.port.reserveBytes ≤ L

/-- **The invariant of a port over a pool.** -/
structure Inv (cfg : PoolConfig) (L : Nat) (c : PoolPort) : Prop extends
    cfg.Placed L c.clock c.port c.returns c.held where
  itemSize : 0 < c.itemSize
  /-- The front holds what the work has produced. -/
  front : ∀ b ∈ c.items.head?, b.offset + b.length ≤ L ∧
    b.length = if c.working then c.numOutputItemsRead * c.itemSize else 0
  /-- A work has a buffer to write to. -/
  offered : c.working = true → c.items ≠ []
  bit : c.failed = false → (c.port.bit = true ↔ c.Room L)

namespace Inv

variable {cfg : PoolConfig} {L : Nat} {c c' : PoolPort} {now : Int} {b : SBuffer}
  {rest : List SBuffer}

theorem started (h : Started cfg L c) : Inv cfg L c := by
  have hqueued : c.port.queued = [] := by
    unfold OutputPort.queued
    rw [h.queue]
    rfl
  have himpls : (cfg.buffers.map SBuffer.reset).map SBuffer.impl
      = cfg.buffers.map SBuffer.impl := by
    rw [List.map_map]
    rfl
  have hplaced : cfg.Placed L c.clock c.port c.returns c.held := by
    refine
      { lengths := h.lengths
        stocked := h.some
        fits := h.fits
        port := ⟨h.inlineBuffer, _, h.queue, rfl, rfl⟩
        times := h.times
        kept := ?_
        unused := ?_
        half := ?_
        reserve := h.reserve }
    · rw [hqueued, h.returns, h.held]
      refine ⟨fun d hd => ?_, fun a ha => ?_, ?_, fun r _ => List.not_mem_nil⟩
      · rw [List.append_nil] at hd
        obtain ⟨a, ha, rfl⟩ := List.mem_map.mp hd
        exact ⟨a, ha, rfl, rfl⟩
      · rw [List.append_nil, List.nil_append, himpls]
        exact List.mem_map_of_mem ha
      · rw [List.nil_append, himpls]
        exact cfg.impls
    · intro b hb
      rw [hqueued, h.returns, List.tail_nil, List.nil_append] at hb
      obtain ⟨a, -, rfl⟩ := List.mem_map.mp hb
      exact ⟨rfl, rfl⟩
    · intro b hb
      rw [hqueued] at hb
      cases hb
  refine { hplaced with itemSize := h.itemSize, front := ?_, offered := ?_, bit := ?_ }
  · intro b hb
    replace hb : b ∈ c.port.queued.head? := hb
    rw [hqueued] at hb
    cases hb
  · intro hworking
    rw [h.working] at hworking
    cases hworking
  · intro _
    rw [h.bit]
    constructor
    · intro hbit
      cases hbit
    · rintro ⟨b, hb, -⟩
      replace hb : b ∈ c.port.queued.head? := hb
      rw [hqueued] at hb
      cases hb

end Inv

/-- What an event does, port by port. -/
inductive Move (L : Nat) (cfg : PoolConfig) (now : Int) (c : PoolPort) :
    PoolEvent → PoolPort → Prop where
  | work {b : SBuffer} {rest : List SBuffer} (hitems : c.items = b :: rest)
      (hready : c.port.bit = true) :
      Move L cfg now c .work
        { c with working := true, numOutputItemsRead := 0, clock := now }
  | produce {b : SBuffer} {rest : List SBuffer} {n : Nat} (q : BufferQueuePool)
      (hitems : c.items = b :: rest) (htoken : q.token = cfg.token)
      (hcapacity : q.queue.capacity = cfg.buffers.length)
      (hnext : q.queue.items =
        { b with length := b.length + n * c.itemSize } :: rest) :
      Move L cfg now c (.produce n)
        { c with
          port := c.port.withPool q
          numOutputItemsRead := c.numOutputItemsRead + n
          clock := now }
  | outputFail {b : SBuffer} {rest : List SBuffer}
    (hitems : c.items = b :: rest)
      (hroom : b.length / c.itemSize < c.maximumItems) :
      Move L cfg now c .outputFail
        { c with port := c.port.fail now, failed := true, clock := now }
  | finishUnused {b : SBuffer} {rest : List SBuffer}
    (hitems : c.items = b :: rest)
      (hunused : b.length = 0) :
      Move L cfg now c .finish { c with working := false, clock := now }
  | finishUsed {b : SBuffer} {rest : List SBuffer} (q : BufferQueuePool)
      (hitems : c.items = b :: rest) (hused : b.length ≠ 0)
        (htoken : q.token = cfg.token)
      (hcapacity : q.queue.capacity = cfg.buffers.length)
      (hnext : q.queue.items = OutputPort.afterPop b rest) :
      Move L cfg now c .finish
        { c with
          port := (c.port.withPool q).setReady now (c.port.withPool q).hasRoom
          working := false
          failed := false
          held := c.held ++ [b]
          posted := c.posted ++ [b]
          clock := now }
  | copy (k : Nat) :
      Move L cfg now c (.copy k)
        { c with held := c.held ++ c.held[k]?.toList, clock := now }
  | drop (k : Nat) :
      Move L cfg now c (.drop k)
        { c with
          held := c.held.eraseIdx k
          returns := c.returns ++
            SBuffer.released c.held[k]?.toList (c.items ++ c.held.eraseIdx k)
          clock := now }
  | giveBackNone (k : Nat) (hnone : c.returns[k]? = none) :
      Move L cfg now c (.giveBack k) { c with clock := now }
  | giveBack {r : SBuffer} {k : Nat} (q : BufferQueuePool)
    (hr : c.returns[k]? = some r)
      (htoken : q.token = cfg.token)
      (hcapacity : q.queue.capacity = cfg.buffers.length)
      (hnext : q.queue.items = c.items ++ [r]) :
      Move L cfg now c (.giveBack k)
        { c with
          port := (c.port.withPool q).setReady now (c.port.withPool q).hasRoom
          failed := false
          returns := c.returns.eraseIdx k
          clock := now }
  | reserve (numBytes : Nat) (hfits : numBytes ≤ L) :
      Move L cfg now c (.reserve numBytes)
        { c with
          port := ({ c.port with reserveBytes := numBytes } :
            OutputPort).setReady now
            ({ c.port with reserveBytes := numBytes } : OutputPort).hasRoom
          failed := false
          clock := now }

namespace Inv

variable {cfg : PoolConfig} {L : Nat} {c c' : PoolPort} {now : Int}
  {b : SBuffer}
  {rest : List SBuffer}

/-- A work has a front to write to. -/
theorem exists_front (h : Inv cfg L c) (hworking : c.working = true) :
    ∃ b rest, c.items = b :: rest :=
  List.exists_cons_of_ne_nil (h.offered hworking)

/-- Nothing was written to the front exactly when nothing was produced. -/
theorem front_unused_iff (h : Inv cfg L c) (hworking : c.working = true)
    (hitems : c.items = b :: rest) :
    b.length = 0 ↔ c.numOutputItemsRead = 0 := by
  have hlength := (h.front b (by simp [hitems])).2
  rw [if_pos hworking] at hlength
  have := h.itemSize
  rw [hlength, Nat.mul_eq_zero]
  omega

/-- **What a step does.** -/
theorem move (h : Inv cfg L c) {e : PoolEvent} (hok : c.Allowed L (now, e))
    (hs : c.next (now, e) = .ok c') : Move L cfg now c e c' := by
  obtain ⟨hclock, hok⟩ := hok
  dsimp only at hok
  cases e with
  | work =>
      simp only [next, Checked.bind_eq_ok, assertThat_eq_ok, Checked.pure_eq_ok,
        Prod.exists] at hs
      obtain ⟨-, hready, b, port, hfront, -, -, rfl⟩ := hs
      obtain ⟨rfl, rest, hitems⟩ := h.port.front_cons hfront
      exact .work hitems hready
  | produce n =>
      obtain ⟨b, rest, hitems⟩ := h.exists_front hok.1
      simp only [next, OutputPort.produce, h.port.front_eq hitems,
        Checked.bind_eq_ok, assertThat_eq_ok, Checked.pure_eq_ok, Prod.exists,
        Except.ok.injEq, Prod.mk.injEq] at hs
      obtain ⟨port, ⟨_, _, ⟨rfl, rfl⟩, -, -, rfl⟩, rfl⟩ := hs
      obtain ⟨q, htoken, hcapacity, hnext, hset⟩ :=
        h.port.setFront hitems { b with length := b.length + n * c.itemSize }
      have hfits := hok.2 b (by simp [hitems])
      have hL := h.fits
      rw [OutputPort.producedLength_of_lt (by omega), hset]
      exact .produce q hitems htoken hcapacity hnext
  | outputFail =>
      obtain ⟨b, rest, hitems⟩ := h.exists_front hok
      simp only [next, OutputPort.outputFail, h.port.front_eq hitems, Checked.bind_eq_ok,
        Checked.pure_eq_ok, Prod.exists, Except.ok.injEq, Prod.mk.injEq] at hs
      obtain ⟨port, ⟨_, _, ⟨rfl, rfl⟩, hport⟩, rfl⟩ := hs
      split at hport
      · simp at hport
      · rename_i hroom
        rw [Checked.pure_eq_ok] at hport
        subst hport
        exact .outputFail hitems (Nat.lt_of_not_le hroom)
  | finish =>
      obtain ⟨b, rest, hitems⟩ := h.exists_front hok
      simp only [next, h.empty_false hitems, Bool.false_eq_true, if_false] at hs
      by_cases hzero : b.length = 0
      · rw [h.port.post_unused hitems hzero] at hs
        simp only [Checked.ok_bind, if_pos ((h.front_unused_iff hok hitems).mp hzero),
          Checked.pure_eq_ok] at hs
        subst hs
        exact .finishUnused hitems hzero
      · obtain ⟨q, htoken, hcapacity, hnext, hpost⟩ :=
          h.port.post_used now hitems hzero
        simp only [hpost, Checked.bind_eq_ok, Checked.pure_eq_ok, Prod.exists,
          Prod.mk.injEq,
          if_neg (mt (h.front_unused_iff hok hitems).mpr hzero)] at hs
        obtain ⟨_, _, ⟨port, hupdate, rfl, rfl⟩, rfl⟩ := hs
        rw [(h.port.withPool htoken hcapacity).update hupdate]
        exact .finishUsed q hitems hzero htoken hcapacity hnext
  | copy k =>
      simp only [next, Checked.pure_eq_ok] at hs
      subst hs
      exact .copy k
  | drop k =>
      simp only [next, Checked.pure_eq_ok] at hs
      subst hs
      exact .drop k
  | giveBack k =>
      simp only [next] at hs
      split at hs
      · rename_i hnone
        rw [Checked.pure_eq_ok] at hs
        subst hs
        exact .giveBackNone k hnone
      · rename_i r hr
        have hmem : r ∈ c.returns := List.mem_of_getElem? hr
        have hknown : cfg.Known r := h.kept.known r (by simp [hmem])
        obtain ⟨q, htoken, hcapacity, hnext, hpush⟩ :=
          h.port.push_eq now hknown.token hknown.userIndex (h.kept.room hmem)
        simp only [hpush, Checked.bind_eq_ok, Checked.pure_eq_ok] at hs
        obtain ⟨port, hupdate, rfl⟩ := hs
        rw [(h.port.withPool htoken hcapacity).update hupdate]
        exact .giveBack q hr htoken hcapacity hnext
  | reserve numBytes =>
      simp only [next, Checked.bind_eq_ok, Checked.pure_eq_ok] at hs
      obtain ⟨port, hset, rfl⟩ := hs
      have hpool :
          ({ c.port with reserveBytes := numBytes } :
            OutputPort).OnPool cfg.token
          cfg.buffers.length := ⟨h.port.inline, h.port.queue⟩
      have hupdate :
          ({ c.port with reserveBytes := numBytes } : OutputPort).update now
          = .ok port := by
        obtain ⟨q, hq, -, -⟩ := h.port.queue
        rw [← hset]
        simp [OutputPort.setReserveBytes, hq]
      rw [hpool.update hupdate]
      exact .reserve numBytes hok.2

/-- What is left of the front when it is written to: its bytes and those of the
items. -/
theorem produced_front (h : Inv cfg L c) {n : Nat}
    (hitems : c.items = b :: rest) (hworking : c.working = true)
    (hfits : b.offset + b.length + n * c.itemSize ≤ L) :
    b.offset + (b.length + n * c.itemSize) ≤ L ∧
      b.length + n * c.itemSize = (c.numOutputItemsRead + n) * c.itemSize := by
  have hlength := (h.front b (by simp [hitems])).2
  rw [if_pos hworking] at hlength
  rw [Nat.add_mul, ← hlength]
  exact ⟨by omega, rfl⟩

/-- Between two works nothing is in the front. -/
theorem front_idle (h : Inv cfg L c) (hidle : c.working = false)
    (hb : b ∈ c.items.head?) : b.length = 0 := by
  have hlength := (h.front b hb).2
  rwa [hidle, if_neg Bool.false_ne_true] at hlength

/-- Between two works the invariant says no more than that nothing is in the
front, and what `_update` has computed. -/
theorem of_update {p : OutputPort} {returns held posted : List SBuffer}
    {working failed : Bool} (hsize : 0 < c.itemSize) (hidle : working = false)
    (h : cfg.Placed L now p returns held)
    (hzero : ∀ b ∈ p.queued.head?, b.length = 0) :
    Inv cfg L { c with
      port := p.setReady now p.hasRoom, working, failed, held, returns, posted
      clock := now } where
  toPlaced := h.setReady _
  itemSize := hsize
  front := fun b hb => by
    have hlength := hzero b hb
    have hhalf := h.half b hb
    refine ⟨by omega, ?_⟩
    rw [hidle, if_neg Bool.false_ne_true]
    exact hlength
  offered := fun hworking => by
    rw [hidle] at hworking
    cases hworking
  bit := fun _ => h.hasRoom_iff hzero

/-- **A step keeps the invariant.** -/
theorem step (h : Inv cfg L c) {e : PoolEvent} (hok : c.Allowed L (now, e))
    (hs : c.next (now, e) = .ok c') : Inv cfg L c' := by
  have hplaced := h.toPlaced.mono hok.1
  obtain ⟨hclock, hok⟩ := hok
  dsimp only at hok
  cases h.move ⟨hclock, hok⟩ hs with
  | @work b rest hitems hready =>
      refine { hplaced with
        itemSize := h.itemSize, front := fun d hd => ?_, offered :=
          fun _ => ?_, bit := h.bit }
      · have hzero := h.front_idle hok hd
        exact ⟨(h.front d hd).1, by simpa using hzero⟩
      · show c.items ≠ []
        simp [hitems]
  | @produce b rest n q hitems htoken hcapacity hnext =>
      have hfront := h.produced_front hitems hok.1 (hok.2 b (by simp [hitems]))
      refine { hplaced.rewrite hitems htoken hcapacity hnext rfl rfl rfl with
        itemSize := h.itemSize, front := fun d hd => ?_, offered := fun _ => ?_,
        bit := fun hfailed => ?_ }
      · replace hd : d ∈ q.queue.items.head? := hd
        rw [hnext] at hd
        cases hd
        show _ ∧ _ = if c.working = true then _ else _
        rw [if_pos hok.1]
        exact hfront
      · show q.queue.items ≠ []
        simp [hnext]
      · refine (h.bit hfailed).trans ?_
        show (∃ d ∈ c.items.head?, _) ↔ ∃ d ∈ q.queue.items.head?, _
        rw [hnext, hitems]
        simp
        rfl
  | outputFail hitems hroom =>
      exact { hplaced.fail with
        itemSize := h.itemSize, front := h.front, offered := h.offered
        bit := fun hfailed => nomatch hfailed }
  | @finishUnused b rest hitems hunused =>
      refine { hplaced with
        itemSize := h.itemSize
        front := fun d hd => ?_
        offered := fun hworking => nomatch hworking
        bit := h.bit }
      have hfits := (h.front d hd).1
      replace hd : d ∈ c.items.head? := hd
      rw [hitems] at hd
      cases hd
      exact ⟨hfits, hunused⟩
  | @finishUsed b rest q hitems hused htoken hcapacity hnext =>
      refine of_update h.itemSize rfl
        (hplaced.consumed hitems htoken hcapacity hnext) ?_
      show ∀ d ∈ q.queue.items.head?, _
      rw [hnext]
      exact fun d hd => (h.afterPop_front hitems d hd).2.2
  | copy k =>
      exact { hplaced.copy k with
        itemSize := h.itemSize, front := h.front, offered :=
          h.offered, bit := h.bit }
  | drop k =>
      exact { hplaced.drop k with
        itemSize := h.itemSize, front := h.front, offered :=
          h.offered, bit := h.bit }
  | giveBackNone k hnone =>
      exact { hplaced with
        itemSize := h.itemSize, front := h.front, offered :=
          h.offered, bit := h.bit }
  | @giveBack r k q hr htoken hcapacity hnext =>
      refine of_update h.itemSize hok
        (hplaced.giveBack hr htoken hcapacity hnext) ?_
      intro d hd
      replace hd : d ∈ q.queue.items.head? := hd
      rw [hnext] at hd
      rcases h.giveBack_front hr hd with hd | ⟨-, -, hzero⟩
      · exact h.front_idle hok hd
      · exact hzero
  | reserve numBytes hfits =>
      exact of_update h.itemSize hok.1 (hplaced.setReserve hfits) fun d hd =>
        h.front_idle hok.1 hd

/-- **The invariant of a run.** -/
theorem of_reachable (h : (system cfg L).Reachable c) : Inv cfg L c :=
  TransitionSystem.Reachable.invariant (T := system cfg L) (P := Inv cfg L)
    (fun _ hinit => started hinit)
    (fun _ _ _ _ hinv hstep => hinv.step hstep.1 hstep.2) h

end Inv

/-! ## Buffers at home -/

/-- **The condition on a step.**  What is left of a front that stays when it is
consumed is enough for the reserve, and so is what is left of the front when the
reserve changes. -/
def Spares (L : Nat) (c : PoolPort) (e : Int × PoolEvent) : Prop :=
  match e.2 with
  | .finish => ∀ b ∈ c.items.head?, b.length ≠ 0 → b.offset + b.length ≤ L / 2 →
      b.offset + b.length + c.port.reserveBytes ≤ L
  | .reserve numBytes => ∀ b ∈ c.items.head?, b.offset + numBytes ≤ L
  | _ => True

/-- The runs whose steps all leave room for the reserve. -/
def spareSystem (cfg : PoolConfig) (L : Nat) :
    TransitionSystem PoolPort (Int × PoolEvent) :=
  (TransitionSystem.ofNext (Started cfg L) next).restrict fun c e =>
    c.Allowed L e ∧ c.Spares L e

section Home

variable {cfg : PoolConfig} {L : Nat} {c c' : PoolPort} {now : Int}
  {b : SBuffer}
  {rest : List SBuffer}

/-- A front that there is has room for the reserve. -/
def FrontFits (L : Nat) (c : PoolPort) : Prop :=
  ∀ b ∈ c.items.head?, b.offset + c.port.reserveBytes ≤ L

theorem FrontFits.step (hfits : c.FrontFits L) (h : Inv cfg L c) {e : PoolEvent}
    (hok : c.Allowed L (now, e)) (hspare : c.Spares L (now, e))
    (hs : c.next (now, e) = .ok c') : c'.FrontFits L := by
  cases h.move hok hs with
  | work | outputFail | finishUnused | copy | drop | giveBackNone => exact hfits
  | @produce b rest n q hitems htoken hcapacity hnext =>
      intro d hd
      replace hd : d ∈ q.queue.items.head? := hd
      rw [hnext] at hd
      cases hd
      exact hfits b (by simp [hitems])
  | @finishUsed b rest q hitems hused htoken hcapacity hnext =>
      intro d hd
      replace hd : d ∈ q.queue.items.head? := hd
      rw [hnext, OutputPort.afterPop, h.length_eq (h.front_known hitems)] at hd
      show d.offset + c.port.reserveBytes ≤ L
      split at hd
      · have hmem : d ∈ rest := List.mem_of_mem_head? hd
        have hunused :=
          h.unused d (by simp [show c.port.queued = _ from hitems, hmem])
        rw [hunused.1, Nat.zero_add]
        exact h.reserve
      · rename_i hhalf
        cases hd
        exact hspare b (by simp [hitems]) hused (Nat.le_of_not_lt hhalf)
  | @giveBack r k q hr htoken hcapacity hnext =>
      intro d hd
      replace hd : d ∈ q.queue.items.head? := hd
      rw [hnext] at hd
      show d.offset + c.port.reserveBytes ≤ L
      rcases h.giveBack_front hr hd with hd | ⟨-, hoff, -⟩
      · exact hfits d hd
      · rw [hoff, Nat.zero_add]
        exact h.reserve
  | reserve numBytes hle => exact hspare

theorem frontFits_of_reachable (h : (spareSystem cfg L).Reachable c) :
    Inv cfg L c ∧ c.FrontFits L := by
  refine TransitionSystem.Reachable.invariant (T := spareSystem cfg L)
    (P := fun c => Inv cfg L c ∧ c.FrontFits L) (fun c hinit => ?_)
    (fun _ _ _ _ hinv hstep => ?_) h
  · refine ⟨Inv.started hinit, fun b hb => ?_⟩
    have hnone : c.items = [] := by
      unfold items OutputPort.queued
      rw [hinit.queue]
      rfl
    rw [hnone] at hb
    cases hb
  · obtain ⟨⟨hok, hspare⟩, hs⟩ := hstep
    exact ⟨hinv.1.step hok hs, hinv.2.step hinv.1 hok hspare hs⟩

/-- A pool whose buffers are all at home has a front. -/
theorem Inv.items_of_home (h : Inv cfg L c) (hheld : c.held = [])
    (hreturns : c.returns = []) : ∃ b rest, c.items = b :: rest := by
  obtain ⟨a, as, hcons⟩ := List.exists_cons_of_ne_nil h.stocked
  have hmem := h.kept.covered a (by simp [hcons])
  rw [hheld, hreturns, List.append_nil, List.append_nil] at hmem
  obtain ⟨b, hb, -⟩ := List.mem_map.mp hmem
  exact List.exists_cons_of_ne_nil (List.ne_nil_of_mem hb)

/-- **The output is ready when every buffer is home**, in runs that spare the
reserve: each step leaves room for it behind what was written, or more than half
of the buffer used, so that the buffer is posted.

A front that is posted comes back empty, and one that is kept has room; what the
condition excludes is a front that is neither full enough to be posted nor empty
enough for the next work.  A reserve of at most half of the buffer always meets
it. -/
theorem ready_of_home (h : (spareSystem cfg L).Reachable c)
    (hheld : c.held = []) (hreturns : c.returns = [])
    (hfailed : c.failed = false) : c.port.ready = true := by
  obtain ⟨hinv, hfits⟩ := frontFits_of_reachable h
  obtain ⟨b, rest, hitems⟩ := hinv.items_of_home hheld hreturns
  refine (hinv.bit hfailed).mpr ⟨b, by simp [hitems], ?_⟩
  exact hfits b (by simp [hitems])

end Home

instance decidableAllowed (L : Nat) (c : PoolPort) :
    ∀ e, Decidable (c.Allowed L e)
  | (_, .work) => inferInstanceAs (Decidable (_ ∧ _))
  | (_, .produce _) =>
      inferInstanceAs (Decidable (_ ∧ _ ∧ ∀ b ∈ c.items.head?, _ ≤ _))
  | (_, .outputFail) => inferInstanceAs (Decidable (_ ∧ _))
  | (_, .finish) => inferInstanceAs (Decidable (_ ∧ _))
  | (_, .copy _) => inferInstanceAs (Decidable (_ ∧ True))
  | (_, .drop _) => inferInstanceAs (Decidable (_ ∧ True))
  | (_, .giveBack _) => inferInstanceAs (Decidable (_ ∧ _))
  | (_, .reserve _) => inferInstanceAs (Decidable (_ ∧ _ ∧ _))

instance decidableSpares (L : Nat) (c : PoolPort) :
    ∀ e, Decidable (c.Spares L e)
  | (_, .finish) =>
      inferInstanceAs (Decidable (∀ b ∈ c.items.head?, _ ≠ _ → _ ≤ _ → _ ≤ _))
  | (_, .reserve _) => inferInstanceAs (Decidable (∀ b ∈ c.items.head?, _ ≤ _))
  | (_, .work) => isTrue trivial
  | (_, .produce _) => isTrue trivial
  | (_, .outputFail) => isTrue trivial
  | (_, .copy _) => isTrue trivial
  | (_, .drop _) => isTrue trivial
  | (_, .giveBack _) => isTrue trivial

/-- A pool of one buffer. -/
def onePool (L : Nat) : PoolConfig where
  token := 5
  phys := id
  buffers := [⟨1, { memory := 0, length := L, token := 5 }, 0, 0, 0⟩]
  created := by simp
  impls := by simp
  injective := by
    simp only [List.mem_singleton, forall_eq, SBuffer.Injective, id_eq]
    intro j _ i hi
    omega
  apart := by simp

/-- A port over it for single bytes, before its first work. -/
def plainPort (L reserve : Nat) : PoolPort where
  port :=
    { OutputPort.resized 0 0 with
      queue := some (.pool (.make { memory := 0, length := 0, token := 5 } 1))
      reserveBytes := reserve }
  itemSize := 1
  maximumItems := 0
  working := false
  numOutputItemsRead := 0
  failed := false
  held := []
  returns := (onePool L).buffers.map SBuffer.reset
  posted := []
  clock := 0

theorem plainPort_started {L reserve : Nat} (hreserve : reserve ≤ L)
    (hL : L < 2 ^ 64) : Started (onePool L) L (plainPort L reserve) where
  lengths := by simp [onePool]
  some := by simp [onePool]
  fits := hL
  queue := rfl
  inlineBuffer := rfl
  bit := rfl
  times := InputPort.resized_onTime (Int.le_refl 0)
  reserve := hreserve
  itemSize := Nat.zero_lt_one
  working := rfl
  held := rfl
  returns := rfl

/-- One work, whose chunk is let go downstream. -/
def oneWork (items : Nat) : List (Int × PoolEvent) :=
  [(0, .giveBack 0), (0, .work), (0, .produce items), (0, .finish),
    (0, .drop 0)]

/-- What is seen of a port whose buffers may be at home. -/
def seen (c : PoolPort) : Bool × Bool × Bool × Bool :=
  (c.held.isEmpty, c.returns.isEmpty, c.failed, c.port.ready)

/-- Two of eight bytes are used, four are wanted. -/
theorem ready_of_home_oneWork :
    ∃ c : PoolPort, c.held = [] ∧ c.posted.length = 1 ∧
      c.port.ready = true := by
  have hrun : (TransitionSystem.runRestricted
      (fun c e => c.Allowed 8 e ∧ c.Spares 8 e) next
      (oneWork 2) (plainPort 8 4)).map (fun c => (c.seen, c.posted.length))
      = some ((true, true, false, true), 1) := by decide
  obtain ⟨c, hc, hseen⟩ := Option.map_eq_some_iff.mp hrun
  simp only [seen, Prod.mk.injEq, List.isEmpty_iff] at hseen
  obtain ⟨⟨hheld, hreturns, hfailed, -⟩, hposted⟩ := hseen
  have hreach : (spareSystem (onePool 8) 8).Reachable c :=
    TransitionSystem.Reachable.of_restricted_events _
      (.init (plainPort_started (by decide) (by decide))) hc
  exact ⟨c, hheld, hposted, ready_of_home hreach hheld hreturns hfailed⟩

/-- **A port is stuck with all its buffers at home.**  One byte of the buffer
was used, and the whole buffer is wanted. -/
theorem not_ready_of_home :
    ¬ ∀ (cfg : PoolConfig) (L : Nat) (c : PoolPort),
      (system cfg L).Reachable c →
      c.held = [] → c.returns = [] → c.failed = false →
      c.port.ready = true := by
  intro hall
  have hrun : (TransitionSystem.runRestricted (Allowed 40000) next (oneWork 1)
      (plainPort 40000 40000)).map seen =
        some (true, true, false, false) := by decide
  obtain ⟨c, hc, hseen⟩ := Option.map_eq_some_iff.mp hrun
  simp only [seen, Prod.mk.injEq, List.isEmpty_iff] at hseen
  obtain ⟨hheld, hreturns, hfailed, hready⟩ := hseen
  have hreach : (system (onePool 40000) 40000).Reachable c :=
    TransitionSystem.Reachable.of_restricted_events _
      (.init (plainPort_started (by decide) (by decide))) hc
  have := hall _ _ c hreach hheld hreturns hfailed
  rw [hready] at this
  cases this

end PoolPort

end Gras
