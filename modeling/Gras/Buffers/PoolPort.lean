import Gras.Buffers.PoolBacking
import Gras.Buffers.PortSteps

/-!
# An output port over a pool

* The operations of an output port whose queue is a pool, as equations: each
  changes the list of buffers in the queue and ends in `_update`.
* `PoolConfig.Kept`: every buffer of the pool is in the queue, on its way back
  or held outside.
* `PoolConfig.Placed` adds what is known of the buffers in these places: only
  the front of the queue is ever used.  Each operation keeps it, and each
  invariant of a run over a pool is built on it.
-/

namespace Gras

/-! ## The operations of a port over a pool -/

namespace OutputPort

/-- `output_fail(i)` on this port. -/
def outputFail (now : Int) (itemSize maximumItems : Nat) (p : OutputPort) :
    Checked OutputPort := do
  let (buff, p) ← p.front
  let frontItems := buff.length / itemSize
  if maximumItems ≤ frontItems then
    throw (.runtimeError "output_fail called on maximum_items buffer")
  else return p.fail now

/-- The buffers in the queue that can become the front, the front first. -/
def queued (p : OutputPort) : List SBuffer :=
  match p.queue with
  | none => []
  | some q => q.items

/-- The port with that pool. -/
def withPool (q : BufferQueuePool) (p : OutputPort) : OutputPort :=
  { p with queue := some (.pool q) }

/-- The queue of the port is a pool of so many buffers, and nothing hides it. -/
structure OnPool (token capacity : Nat) (p : OutputPort) : Prop where
  inline : p.inlineBuffer = none
  queue : ∃ q : BufferQueuePool, p.queue = some (.pool q) ∧ q.token = token ∧
    q.queue.capacity = capacity

/-- The front has room for the reserve: what `_update` sets the ready bit to. -/
def hasRoom (p : OutputPort) : Bool :=
  match p.queued with
  | [] => false
  | b :: _ => decide (p.reserveBytes ≤ available b)

/-- The queue once the front has been consumed: it stays while at most half of
it is used. -/
def afterPop (b : SBuffer) (rest : List SBuffer) : List SBuffer :=
  if b.config.length / 2 < b.offset + b.length then rest
  else PoolInv.kept b b.length :: rest

variable {p p' : OutputPort} {b c chunk : SBuffer}
  {rest : List SBuffer} {now : Int}
  {token capacity : Nat}

@[simp] theorem queued_withPool (q : BufferQueuePool) (p : OutputPort) :
    (p.withPool q).queued = q.queue.items := rfl

theorem OnPool.withPool (hp : p.OnPool token capacity) {q : BufferQueuePool}
    (htoken : q.token = token) (hcapacity : q.queue.capacity = capacity) :
    (p.withPool q).OnPool token capacity :=
  ⟨hp.inline, q, rfl, htoken, hcapacity⟩

theorem OnPool.eq_withPool (hp : p.OnPool token capacity) :
    ∃ q : BufferQueuePool, p = p.withPool q ∧ q.token = token ∧
      q.queue.capacity = capacity ∧
      p.queued = q.queue.items := by
  obtain ⟨q, hq, htoken, hcapacity⟩ := hp.queue
  refine ⟨q, ?_, htoken, hcapacity, ?_⟩
  · rw [OutputPort.withPool, ← hq]
  · rw [queued, hq]
    rfl

theorem OnPool.front_eq (hp : p.OnPool token capacity)
    (hq : p.queued = b :: rest) : p.front = .ok (b, p) := by
  obtain ⟨q, heq, -, -, hitems⟩ := hp.eq_withPool
  rw [hq] at hitems
  have hinline := hp.inline
  rw [heq] at hinline ⊢
  simp only [OutputPort.withPool] at hinline
  simp [front, OutputPort.withPool, hinline, assertThat, BufferQueue.empty,
    BufferQueuePool.empty, BufferQueue.front, BufferQueuePool.front, ← hitems]

theorem OnPool.front_cons (hp : p.OnPool token capacity)
    (h : p.front = .ok (b, p')) : p' = p ∧ ∃ rest, p.queued = b :: rest := by
  cases hq : p.queued with
  | cons b₀ rest =>
      rw [hp.front_eq hq] at h
      cases h
      exact ⟨rfl, rest, rfl⟩
  | nil =>
      obtain ⟨q, heq, -, -, hitems⟩ := hp.eq_withPool
      rw [hq] at hitems
      have hinline := hp.inline
      rw [heq] at hinline h
      simp only [OutputPort.withPool] at hinline
      simp [front, OutputPort.withPool, hinline, BufferQueue.empty,
        BufferQueuePool.empty, ← hitems] at h

/-- **`_update`** on a pool only sets the bit. -/
theorem OnPool.update (hp : p.OnPool token capacity)
    (h : p.update now = .ok p') : p' = p.setReady now p.hasRoom := by
  obtain ⟨q, heq, -, -, hitems⟩ := hp.eq_withPool
  unfold OutputPort.update at h
  unfold hasRoom
  rw [heq] at h ⊢
  rw [queued_withPool]
  cases hcase : q.queue.items with
  | nil =>
      simp only [OutputPort.withPool, BufferQueue.empty, BufferQueuePool.empty,
        hcase, List.isEmpty_nil, if_true, Checked.bind_eq_ok,
        Checked.pure_eq_ok, Prod.exists, Prod.mk.injEq] at h
      obtain ⟨_, _, ⟨rfl, rfl⟩, -, -, rfl⟩ := h
      rfl
  | cons b rest =>
      simp only [OutputPort.withPool, BufferQueue.empty, BufferQueuePool.empty,
        hcase, List.isEmpty_cons, Bool.false_eq_true, if_false,
        BufferQueue.front, BufferQueuePool.front, Checked.bind_eq_ok,
        Checked.pure_eq_ok, Prod.exists, Prod.mk.injEq] at h
      obtain ⟨_, _, ⟨_, rfl, rfl, rfl⟩, _, _, ⟨rfl, rfl⟩, -, -, rfl⟩ := h
      rfl

theorem OnPool.setReady (hp : p.OnPool token capacity) (isReady : Bool) :
    (p.setReady now isReady).OnPool token capacity := ⟨hp.inline, hp.queue⟩

/-- Writing to the front. -/
theorem OnPool.setFront (hp : p.OnPool token capacity)
    (hq : p.queued = b :: rest) (c : SBuffer) :
    ∃ q : BufferQueuePool, q.token = token ∧ q.queue.capacity = capacity ∧
      q.queue.items = c :: rest ∧ p.setFront c = p.withPool q := by
  obtain ⟨q, heq, htoken, hcapacity, hitems⟩ := hp.eq_withPool
  rw [hq] at hitems
  have hinline := hp.inline
  refine ⟨q.setFront c, htoken, hcapacity, ?_, ?_⟩
  · simp [BufferQueuePool.setFront, ← hitems]
  · rw [heq] at hinline ⊢
    simp only [OutputPort.withPool] at hinline ⊢
    simp [OutputPort.setFront, hinline, BufferQueue.setFront]

/-- **Popping** the pool, whose front is the consumed buffer. -/
theorem pop_eq (now : Int) {q : BufferQueuePool} {n : Nat}
    (hinline : p.inlineBuffer = none)
    (hitems : q.queue.items =
      { b with offset := b.offset + n, length := 0 } :: rest) :
    ∃ q₁ : BufferQueuePool, q₁.token = q.token ∧
      q₁.queue.capacity = q.queue.capacity ∧
      (p.withPool q).pop now = (p.withPool q₁).update now ∧
      q₁.queue.items =
        if b.config.length / 2 < b.offset + n then rest
          else PoolInv.kept b n :: rest := by
  by_cases hhalf : b.config.length / 2 < b.offset + n
  · refine ⟨{ q with queue := q.queue.popFront }, rfl, rfl, ?_, ?_⟩
    · simp [OutputPort.pop, OutputPort.withPool, hinline, BufferQueue.empty,
        BufferQueuePool.empty, hitems, assertThat, BufferQueue.pop,
        BufferQueuePool.pop, SBuffer.getActualLength, hhalf]
    · simp [hitems, hhalf]
  · refine ⟨q.setFront (PoolInv.kept b n), rfl, rfl, ?_, ?_⟩
    · simp [OutputPort.pop, OutputPort.withPool, hinline, BufferQueue.empty,
        BufferQueuePool.empty, hitems, assertThat, BufferQueue.pop,
        BufferQueuePool.pop, SBuffer.getActualLength, hhalf]
      rfl
    · simp [BufferQueuePool.setFront, hitems, hhalf]

/-- **The post-work task** of a port whose front was not written to. -/
theorem OnPool.post_unused (hp : p.OnPool token capacity)
    (hq : p.queued = b :: rest) (hlength : b.length = 0) :
    p.post now = .ok (b, p) := by
  have hfront := hp.front_eq hq
  have hinline := hp.inline
  have hempty : p.empty = false := by
    obtain ⟨q, heq, -, -, hitems⟩ := hp.eq_withPool
    rw [hq] at hitems
    rw [heq]
    simp [OutputPort.empty, queueEmpty, OutputPort.withPool, BufferQueue.empty,
      BufferQueuePool.empty, ← hitems]
  simp [post, consume, hfront, hinline, hempty, assertThat, hlength]

/-- **The post-work task** of a port whose front was written to. -/
theorem OnPool.post_used (now : Int) (hp : p.OnPool token capacity)
    (hq : p.queued = b :: rest) (hlength : b.length ≠ 0) :
    ∃ q : BufferQueuePool, q.token = token ∧ q.queue.capacity = capacity ∧
      q.queue.items = afterPop b rest ∧
      p.post now = (do
        let p ← (p.withPool q).update now
        return (b, p)) := by
  have hfront := hp.front_eq hq
  have hinline := hp.inline
  have hempty : p.empty = false := by
    obtain ⟨q, heq, -, -, hitems⟩ := hp.eq_withPool
    rw [hq] at hitems
    rw [heq]
    simp [OutputPort.empty, queueEmpty, OutputPort.withPool, BufferQueue.empty,
      BufferQueuePool.empty, ← hitems]
  obtain ⟨q₀, htoken, hcapacity, hitems, hset⟩ :=
    hp.setFront hq { b with offset := b.offset + b.length, length := 0 }
  obtain ⟨q, htoken', hcapacity', hpop, hafter⟩ := pop_eq now hinline hitems
  refine ⟨q, htoken'.trans htoken, hcapacity'.trans hcapacity, hafter, ?_⟩
  have hconsume : p.consume now = (p.withPool q).update now := by
    rw [← hpop, ← hset]
    simp [consume, hfront, hinline, hempty, assertThat, hlength]
  simp [post, hfront, hconsume]

/-- A buffer that comes back goes to the end of the queue. -/
theorem OnPool.push_eq (now : Int) (hp : p.OnPool token capacity)
    (htoken : b.config.token = token) (hindex : b.getUserIndex = noIndex)
    (hroom : p.queued.length < capacity) :
    ∃ q : BufferQueuePool, q.token = token ∧ q.queue.capacity = capacity ∧
      q.queue.items = p.queued ++ [b] ∧
      p.push now b = (p.withPool q).update now := by
  obtain ⟨q, heq, htoken', hcapacity, hitems⟩ := hp.eq_withPool
  have hnotFull : ¬ q.queue.full := by
    apply BoundedDeque.not_full_of_lt
    rw [← hitems, hcapacity]
    exact hroom
  refine ⟨{ q with queue := q.queue.pushBack b }, htoken', ?_, ?_, ?_⟩
  · exact (BoundedDeque.pushBack_capacity _ _).trans hcapacity
  · rw [hitems]
    exact BoundedDeque.pushBack_items q.queue b hnotFull
  · rw [heq]
    simp [push, OutputPort.withPool, BufferQueue.push, BufferQueuePool.push,
      htoken, htoken', assertThat, hindex]

end OutputPort

/-! ## The buffers of a pool -/

/-- Every buffer of the pool is in the queue, on its way back or held
outside. -/
structure PoolConfig.Kept (cfg : PoolConfig)
    (items returns held : List SBuffer) : Prop where
  known : ∀ b ∈ items ++ returns ++ held, cfg.Known b
  covered : ∀ a ∈ cfg.buffers,
    a.impl ∈ (items ++ returns ++ held).map SBuffer.impl
  nodup : ((items ++ returns).map SBuffer.impl).Nodup
  away : ∀ b ∈ returns, b.impl ∉ held.map SBuffer.impl

namespace PoolConfig.Kept

variable {cfg : PoolConfig} {items returns held : List SBuffer} {b c : SBuffer}
  {rest : List SBuffer}

/-- A handle in the queue is replaced by another to the same buffer. -/
theorem setFront (h : cfg.Kept (b :: rest) returns held)
    (himpl : c.impl = b.impl) (hconfig : c.config = b.config) :
    cfg.Kept (c :: rest) returns held := by
  have himpls : ∀ l : List SBuffer, ((c :: rest) ++ l).map SBuffer.impl
      = ((b :: rest) ++ l).map SBuffer.impl := fun l => by simp [himpl]
  refine ⟨fun d hd => ?_, fun a ha => ?_, ?_, h.away⟩
  · simp only [List.cons_append, List.mem_cons] at hd
    rcases hd with rfl | hd
    · obtain ⟨a, ha, hi, hc⟩ := h.known b (by simp)
      exact ⟨a, ha, himpl.trans hi, hconfig.trans hc⟩
    · exact h.known d
        (by simp only [List.cons_append, List.mem_cons]; exact .inr hd)
  · have := h.covered a ha
    rwa [List.append_assoc, himpls, ← List.append_assoc]
  · rw [himpls]
    exact h.nodup

/-- A handle to the front goes out, and the front stays. -/
theorem hold (h : cfg.Kept items returns held) (hb : cfg.Known b)
    (hout : ∀ r ∈ returns, r.impl ≠ b.impl) :
    cfg.Kept items returns (held ++ [b]) := by
  refine ⟨fun d hd => ?_, fun a ha => ?_, h.nodup, fun r hr => ?_⟩
  · rw [← List.append_assoc, List.mem_append, List.mem_singleton] at hd
    rcases hd with hd | rfl
    · exact h.known d hd
    · exact hb
  · rw [← List.append_assoc, List.map_append, List.mem_append]
    exact .inl (h.covered a ha)
  · rw [List.map_append, List.mem_append, List.map_singleton,
      List.mem_singleton, not_or]
    exact ⟨h.away r hr, hout r hr⟩

/-- No buffer is in the queue and on its way back. -/
theorem returns_ne (h : cfg.Kept (b :: rest) returns held) :
    ∀ r ∈ returns, r.impl ≠ b.impl := by
  intro r hr heq
  have hnodup := h.nodup
  rw [List.cons_append, List.map_cons, List.nodup_cons] at hnodup
  apply hnodup.1
  rw [← heq]
  exact List.mem_map_of_mem (List.mem_append_right _ hr)

/-- The front leaves the queue while a handle to it is out. -/
theorem popFront (h : cfg.Kept (b :: rest) returns held)
    (hout : b.impl ∈ held.map SBuffer.impl) : cfg.Kept rest returns held := by
  refine ⟨fun d hd => ?_, fun a ha => ?_, ?_, h.away⟩
  · exact h.known d
      (by simp only [List.cons_append, List.mem_cons]; exact .inr hd)
  · have := h.covered a ha
    simp only [List.cons_append, List.map_cons, List.mem_cons] at this
    rcases this with heq | hmem
    · rw [heq, List.map_append, List.mem_append]
      exact .inr hout
    · exact hmem
  · have hnodup := h.nodup
    rw [List.cons_append, List.map_cons, List.nodup_cons] at hnodup
    exact hnodup.2

/-- A handle outside goes; with the last one the buffer is on its way back. -/
theorem drop (h : cfg.Kept items returns held) {k : Nat}
    (hk : held[k]? = some b) :
    cfg.Kept items (returns ++ SBuffer.released [b] (items ++ held.eraseIdx k))
      (held.eraseIdx k) := by
  have hb : b ∈ held := List.mem_of_getElem? hk
  have hsub : ∀ d ∈ held.eraseIdx k, d ∈ held :=
    fun d hd => List.mem_of_mem_eraseIdx hd
  obtain ⟨hlt, heq⟩ := List.getElem?_eq_some_iff.mp hk
  -- The handles before are those after and the one that goes.
  have hperm : (b :: held.eraseIdx k).Perm held :=
    heq ▸ List.getElem_cons_eraseIdx_perm hlt
  have hknown : ∀ d ∈ items ++ returns ++ held.eraseIdx k, cfg.Known d := by
    intro d hd
    rw [List.mem_append] at hd
    rcases hd with hd | hd
    · exact h.known d (List.mem_append_left _ hd)
    · exact h.known d (List.mem_append_right _ (hsub d hd))
  have haway : ∀ r ∈ returns, r.impl ∉ (held.eraseIdx k).map SBuffer.impl := by
    intro r hr hmem
    apply h.away r hr
    obtain ⟨d, hd, hi⟩ := List.mem_map.mp hmem
    exact hi ▸ List.mem_map_of_mem (hsub d hd)
  have hcovered : ∀ a ∈ cfg.buffers,
      a.impl ∈ (items ++ returns ++ held.eraseIdx k).map SBuffer.impl ∨
      a.impl = b.impl := by
    intro a ha
    have hmem := h.covered a ha
    rw [List.map_append, List.mem_append] at hmem ⊢
    rcases hmem with hmem | hmem
    · exact .inl (.inl hmem)
    · rw [← (hperm.map SBuffer.impl).mem_iff, List.map_cons,
        List.mem_cons] at hmem
      rcases hmem with hmem | hmem
      · exact .inr hmem
      · exact .inl (.inr hmem)
  by_cases hlast : b.impl ∈ (items ++ held.eraseIdx k).map SBuffer.impl
  · have hnone : SBuffer.released [b] (items ++ held.eraseIdx k) = [] := by
      simp only [SBuffer.released, List.map_nil, List.not_mem_nil, false_or,
        if_pos hlast]
    rw [hnone, List.append_nil]
    refine ⟨hknown, fun a ha => ?_, h.nodup, haway⟩
    rcases hcovered a ha with hmem | hmem
    · exact hmem
    · rw [hmem]
      rw [List.map_append, List.mem_append] at hlast ⊢
      rcases hlast with hlast | hlast
      · left
        rw [List.map_append]
        exact List.mem_append_left _ hlast
      · exact .inr hlast
  · have hone : SBuffer.released [b] (items ++ held.eraseIdx k) =
        [b.reset] := by
      simp only [SBuffer.released, List.map_nil, List.not_mem_nil, false_or,
        if_neg hlast]
    rw [List.map_append, List.mem_append, not_or] at hlast
    rw [hone]
    refine ⟨fun d hd => ?_, fun a ha => ?_, ?_, fun r hr => ?_⟩
    · simp only [List.mem_append, List.mem_singleton] at hd
      rcases hd with (hd | hd | rfl) | hd
      · exact hknown d (by simp [hd])
      · exact hknown d (by simp [hd])
      · exact h.known b (by simp [hb])
      · exact hknown d (by simp [hd])
    · rcases hcovered a ha with hmem | hmem
      · simp only [List.map_append, List.mem_append] at hmem ⊢
        tauto
      · simp only [List.map_append, List.map_cons, List.map_nil,
          List.mem_append, List.mem_singleton, SBuffer.reset_impl]
        exact .inl (.inr (.inr hmem))
    · rw [← List.append_assoc, List.map_append, List.nodup_append']
      refine ⟨h.nodup, by simp, fun i hi hi' => ?_⟩
      rw [List.map_singleton, List.mem_singleton, SBuffer.reset_impl] at hi'
      rw [List.map_append, List.mem_append] at hi
      rcases hi with hi | hi
      · exact hlast.1 (hi' ▸ hi)
      · obtain ⟨r, hr, hri⟩ := List.mem_map.mp hi
        apply h.away r hr
        rw [hri, hi']
        exact List.mem_map_of_mem hb
    · rw [List.mem_append, List.mem_singleton] at hr
      rcases hr with hr | rfl
      · exact haway r hr
      · exact hlast.2

/-- A buffer that is on its way back fits behind the queue. -/
theorem room (h : cfg.Kept items returns held) (hb : b ∈ returns) :
    items.length < cfg.buffers.length := by
  have hlen := (List.subperm_of_subset h.nodup fun i hi => ?_ :
    ((items ++ returns).map SBuffer.impl).Subperm
    (cfg.buffers.map SBuffer.impl)).length_le
  · simp only [List.length_map, List.length_append] at hlen
    have := List.length_pos_of_mem hb
    omega
  · obtain ⟨d, hd, rfl⟩ := List.mem_map.mp hi
    obtain ⟨a, ha, hi', -⟩ := h.known d (List.mem_append_left _ hd)
    rw [hi']
    exact List.mem_map_of_mem ha

/-- A buffer comes back. -/
theorem giveBack (h : cfg.Kept items returns held) {k : Nat}
    (hk : returns[k]? = some b) :
    cfg.Kept (items ++ [b]) (returns.eraseIdx k) held := by
  obtain ⟨hlt, heq⟩ := List.getElem?_eq_some_iff.mp hk
  have hperm :
      (items ++ [b] ++ returns.eraseIdx k).Perm (items ++ returns) := by
    rw [List.append_assoc]
    apply List.Perm.append_left
    exact heq ▸ List.getElem_cons_eraseIdx_perm hlt
  refine ⟨fun d hd => ?_, fun a ha => ?_, ?_, fun r hr => ?_⟩
  · exact h.known d ((hperm.append_right held).mem_iff.mp hd)
  · exact ((hperm.append_right held).map SBuffer.impl).mem_iff.mpr
      (h.covered a ha)
  · exact (hperm.map SBuffer.impl).nodup_iff.mpr h.nodup
  · exact h.away r (List.mem_of_mem_eraseIdx hr)

end PoolConfig.Kept

/-! ## A port and its buffers -/

/-- **The buffers of a port over a pool are in their places**: each is in the
queue, on its way back or held outside, and only the front of the queue is used,
at most to one half. -/
structure PoolConfig.Placed (cfg : PoolConfig) (L : Nat) (now : Int)
    (p : OutputPort) (returns held : List SBuffer) : Prop where
  lengths : ∀ b ∈ cfg.buffers, b.config.length = L
  stocked : cfg.buffers ≠ []
  fits : L < 2 ^ 64
  port : p.OnPool cfg.token cfg.buffers.length
  times : p.idleTimes.OnTime now
  kept : cfg.Kept p.queued returns held
  unused : ∀ b ∈ p.queued.tail ++ returns, b.offset = 0 ∧ b.length = 0
  half : ∀ b ∈ p.queued.head?, b.offset ≤ L / 2
  reserve : p.reserveBytes ≤ L

namespace PoolConfig.Placed

variable {cfg : PoolConfig} {L : Nat} {t now : Int} {p : OutputPort}
  {returns held : List SBuffer} {q : BufferQueuePool} {b d r : SBuffer}
  {rest : List SBuffer}
  {k : Nat}

/-- The length of a buffer of the pool. -/
theorem length_eq (h : cfg.Placed L now p returns held) (hb : cfg.Known b) :
    b.config.length = L := by
  obtain ⟨a, ha, -, hc⟩ := hb
  rw [hc]
  exact h.lengths a ha

theorem front_known (h : cfg.Placed L now p returns held)
    (hq : p.queued = b :: rest) :
    cfg.Known b := h.kept.known b (by simp [hq])

theorem mono (h : cfg.Placed L t p returns held) (hle : t ≤ now) :
    cfg.Placed L now p returns held := { h with times := h.times.mono hle }

theorem empty_false (h : cfg.Placed L now p returns held)
    (hq : p.queued = b :: rest) : p.empty = false := by
  obtain ⟨q, heq, -, -, hitems⟩ := h.port.eq_withPool
  have hcons : q.queue.items = b :: rest := hitems.symm.trans hq
  rw [heq]
  simp [OutputPort.empty, OutputPort.queueEmpty, OutputPort.withPool,
    BufferQueue.empty, BufferQueuePool.empty, hcons]

theorem setReady (h : cfg.Placed L now p returns held) (isReady : Bool) :
    cfg.Placed L now (p.setReady now isReady) returns held :=
  { h with port := ⟨h.port.inline, h.port.queue⟩, times := h.times.setReady isReady }

theorem fail (h : cfg.Placed L now p returns held) :
    cfg.Placed L now (p.fail now) returns held :=
  { h with port := ⟨h.port.inline, h.port.queue⟩, times := h.times.fail }

/-- The front is written to. -/
theorem rewrite (h : cfg.Placed L now p returns held)
    (hq : p.queued = b :: rest) (htoken : q.token = cfg.token)
    (hcapacity : q.queue.capacity = cfg.buffers.length)
    (hnext : q.queue.items = d :: rest) (himpl : d.impl = b.impl)
    (hconfig : d.config = b.config) (hoff : d.offset = b.offset) :
    cfg.Placed L now (p.withPool q) returns held := by
  have hnew : (p.withPool q).queued = d :: rest := hnext
  refine
    { h with
      port := h.port.withPool htoken hcapacity
      kept := ?_
      unused := ?_
      half := ?_ }
  · rw [hnew]
    exact (hq ▸ h.kept).setFront himpl hconfig
  · rw [hnew]
    have hunused := h.unused
    rwa [hq] at hunused
  · rw [hnew]
    intro e he
    cases he
    rw [hoff]
    exact h.half b (by simp [hq])

/-- A consumed front is dropped or at most half used. -/
theorem afterPop_front (h : cfg.Placed L now p returns held)
    (hq : p.queued = b :: rest) :
    ∀ d ∈ (OutputPort.afterPop b rest).head?,
      cfg.Known d ∧ d.offset ≤ L / 2 ∧ d.length = 0 := by
  intro d hd
  unfold OutputPort.afterPop at hd
  split at hd
  · have hmem : d ∈ rest := List.mem_of_mem_head? hd
    have hunused := h.unused d (by simp [hq, hmem])
    exact ⟨h.kept.known d (by simp [hq, hmem]), by omega, hunused.2⟩
  · rename_i hhalf
    cases hd
    have hknown := h.front_known hq
    rw [h.length_eq hknown] at hhalf
    refine ⟨hknown, ?_, rfl⟩
    show b.offset + b.length ≤ L / 2
    omega

theorem afterPop_tail (b : SBuffer) (rest : List SBuffer) :
    ∀ d ∈ (OutputPort.afterPop b rest).tail, d ∈ rest := by
  intro d hd
  unfold OutputPort.afterPop at hd
  split at hd
  · exact List.mem_of_mem_tail hd
  · exact hd

/-- The front is consumed, and a handle to it goes out. -/
theorem consumed (h : cfg.Placed L now p returns held)
    (hq : p.queued = b :: rest) (htoken : q.token = cfg.token)
    (hcapacity : q.queue.capacity = cfg.buffers.length)
    (hnext : q.queue.items = OutputPort.afterPop b rest) :
    cfg.Placed L now (p.withPool q) returns (held ++ [b]) := by
  have hnew : (p.withPool q).queued = OutputPort.afterPop b rest := hnext
  have hkept : cfg.Kept (b :: rest) returns held := hq ▸ h.kept
  have hheld := hkept.hold (b := b) (hkept.known b (by simp)) hkept.returns_ne
  refine
    { h with
      port := h.port.withPool htoken hcapacity
      kept := ?_
      unused := ?_
      half := ?_ }
  · rw [hnew]
    unfold OutputPort.afterPop
    split
    · exact hheld.popFront (by simp)
    · exact hheld.setFront rfl rfl
  · rw [hnew]
    intro d hd
    refine h.unused d ?_
    rw [List.mem_append] at hd ⊢
    exact hd.imp_left fun hd => by
      rw [hq]
      exact afterPop_tail b rest d hd
  · rw [hnew]
    exact fun d hd => (h.afterPop_front hq d hd).2.1

/-- A handle to the front goes out. -/
theorem hold (h : cfg.Placed L now p returns held) (hq : p.queued = b :: rest)
    (himpl : d.impl = b.impl) (hconfig : d.config = b.config) :
    cfg.Placed L now p returns (held ++ [d]) := by
  refine { h with kept := h.kept.hold ?_ fun r hr => ?_ }
  · obtain ⟨a, ha, hi, hc⟩ := h.front_known hq
    exact ⟨a, ha, himpl.trans hi, hconfig.trans hc⟩
  · rw [himpl]
    exact PoolConfig.Kept.returns_ne (hq ▸ h.kept) r hr

/-- A handle outside is copied. -/
theorem copy (h : cfg.Placed L now p returns held) (k : Nat) :
    cfg.Placed L now p returns (held ++ held[k]?.toList) := by
  refine { h with kept := ?_ }
  cases hk : held[k]? with
  | none => simpa using h.kept
  | some b =>
      have hb : b ∈ held := List.mem_of_getElem? hk
      refine h.kept.hold (h.kept.known b (by simp [hb])) fun r hr heq => ?_
      exact h.kept.away r hr (heq ▸ List.mem_map_of_mem hb)

/-- A handle outside goes. -/
theorem drop (h : cfg.Placed L now p returns held) (k : Nat) :
    cfg.Placed L now p
      (returns ++ SBuffer.released held[k]?.toList
        (p.queued ++ held.eraseIdx k))
      (held.eraseIdx k) := by
  refine { h with kept := ?_, unused := fun d hd => ?_ }
  · cases hk : held[k]? with
    | some b => exact h.kept.drop hk
    | none =>
        rw [List.eraseIdx_of_length_le (List.getElem?_eq_none_iff.mp hk)]
        simpa [SBuffer.released] using h.kept
  · rw [← List.append_assoc, List.mem_append] at hd
    rcases hd with hd | hd
    · exact h.unused d hd
    · obtain ⟨⟨b₀, -, rfl⟩, -⟩ := SBuffer.mem_released hd
      exact ⟨rfl, rfl⟩

/-- The front once a buffer has come back: it is the old front, or that
buffer. -/
theorem giveBack_front (h : cfg.Placed L now p returns held)
    (hr : returns[k]? = some r) (hd : d ∈ (p.queued ++ [r]).head?) :
    d ∈ p.queued.head? ∨ cfg.Known d ∧ d.offset = 0 ∧ d.length = 0 := by
  have hmem : r ∈ returns := List.mem_of_getElem? hr
  cases hq : p.queued with
  | nil =>
      rw [hq] at hd
      cases hd
      exact .inr ⟨h.kept.known d (by simp [hmem]), h.unused d (by simp [hmem])⟩
  | cons b rest =>
      rw [hq] at hd
      exact .inl hd

/-- A buffer comes back. -/
theorem giveBack (h : cfg.Placed L now p returns held)
    (hr : returns[k]? = some r) (htoken : q.token = cfg.token)
    (hcapacity : q.queue.capacity = cfg.buffers.length)
    (hnext : q.queue.items = p.queued ++ [r]) :
    cfg.Placed L now (p.withPool q) (returns.eraseIdx k) held := by
  have hnew : (p.withPool q).queued = p.queued ++ [r] := hnext
  have hmem : r ∈ returns := List.mem_of_getElem? hr
  refine
    { h with
      port := h.port.withPool htoken hcapacity
      kept := ?_
      unused := ?_
      half := ?_ }
  · rw [hnew]
    exact h.kept.giveBack hr
  · rw [hnew]
    intro d hd
    rw [List.mem_append] at hd
    rcases hd with hd | hd
    · cases hq : p.queued with
      | nil =>
          rw [hq] at hd
          cases hd
      | cons b rest =>
          rw [hq, List.cons_append, List.tail_cons, List.mem_append,
            List.mem_singleton] at hd
          rcases hd with hd | rfl
          · exact h.unused d (by simp [hq, hd])
          · exact h.unused d (by simp [hmem])
    · exact h.unused d (List.mem_append_right _ (List.mem_of_mem_eraseIdx hd))
  · rw [hnew]
    intro d hd
    rcases h.giveBack_front hr hd with hd | ⟨-, hoff, -⟩
    · exact h.half d hd
    · rw [hoff]
      exact Nat.zero_le _

/-- The port gets a new reserve. -/
theorem setReserve (h : cfg.Placed L now p returns held) {numBytes : Nat}
    (hfits : numBytes ≤ L) :
    cfg.Placed L now { p with reserveBytes := numBytes } returns held :=
  { h with port := ⟨h.port.inline, h.port.queue⟩, reserve := hfits }

/-- What `_update` computes once the front has no bytes in it. -/
theorem hasRoom_iff (h : cfg.Placed L now p returns held)
    (hzero : ∀ b ∈ p.queued.head?, b.length = 0) :
    p.hasRoom = true ↔ ∃ b ∈ p.queued.head?, b.offset + p.reserveBytes ≤ L := by
  unfold OutputPort.hasRoom
  cases hq : p.queued with
  | nil => simp
  | cons b rest =>
      have hL := h.length_eq (h.front_known hq)
      have hoff := h.half b (by simp [hq])
      have hle : b.offset ≤ L := by omega
      have havail : OutputPort.available b = L - b.offset := by
        unfold OutputPort.available SBuffer.getActualLength
        rw [hL, hzero b (by simp [hq]), sizeSub_of_le hle h.fits]
        have hfits := h.fits
        exact sizeSub_of_le (Nat.zero_le _) (by omega)
      simp only [havail, decide_eq_true_eq, List.head?_cons, Option.mem_def,
        Option.some.injEq, exists_eq_left']
      omega

end PoolConfig.Placed

end Gras
