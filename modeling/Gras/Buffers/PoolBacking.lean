import Mathlib.Data.List.Nodup
import Mathlib.Data.List.Perm.Basic
import Mathlib.Data.List.Perm.Subperm
import Gras.Buffers.Backing

/-!
# A pool carries a stream

The instance of `Backing` for `BufferQueuePool`.  The buffer at the front may be
partly used and re-used while chunks of it are still out; what keeps it sound is
that the bytes below its offset are the latest stretch of the stream, so the
next chunk continues it in memory exactly where it continues it in the stream.

* `PoolConfig`: the buffers of a pool, in memory of their own.
* `PoolInv`: what holds of the queue, the handles and the returning buffers.
* `poolBacking`: the interface, from one lemma for each operation.
-/

namespace Gras

/-- The buffers a pool is filled with. -/
structure PoolConfig where
  token : Nat
  phys : Nat → Nat
  buffers : List SBuffer
  created : ∀ b ∈ buffers, b.config.token = token ∧ b.config.userIndex = noIndex
  impls : (buffers.map SBuffer.impl).Nodup
  injective : ∀ b ∈ buffers, b.Injective phys
  /-- Two buffers share neither cells nor addresses. -/
  apart : ∀ a ∈ buffers, ∀ b ∈ buffers, a.impl ≠ b.impl →
    (∀ i < a.config.length, ∀ j < b.config.length,
      phys (a.config.memory + i) ≠ phys (b.config.memory + j)) ∧
    (a.config.memory + a.config.length ≤ b.config.memory ∨
      b.config.memory + b.config.length ≤ a.config.memory)

namespace PoolConfig

variable (cfg : PoolConfig)

/-- The handle refers to one of the pool's buffers. -/
def Known (b : SBuffer) : Prop :=
  ∃ a ∈ cfg.buffers, b.impl = a.impl ∧ b.config = a.config

/-- A pointer that is the end of no slice of that buffer. -/
def Outside (a : SBuffer) (last : Nat) : Prop :=
  last ≤ a.config.memory ∨ a.config.memory + a.config.length < last

/-- A slice that is not empty at its end lies inside its buffer, and its `last`
is the end of a slice of no other buffer. -/
structure Shape (b : SBuffer) : Prop where
  pos : 0 < b.extent
  inside : b.extent ≤ b.config.length
  last : ∀ a ∈ cfg.buffers, a.impl ≠ b.impl → Outside a b.last

/-- The cells of the buffers. -/
def Owns (c : Nat) : Prop :=
  ∃ a ∈ cfg.buffers, ∃ i < a.config.length, c = cfg.phys (a.config.memory + i)

variable {cfg}

/-- The impl determines the configuration. -/
theorem Known.config_eq {b b' : SBuffer} (h : cfg.Known b) (h' : cfg.Known b')
    (heq : b.impl = b'.impl) : b.config = b'.config := by
  obtain ⟨a, ha, hi, hc⟩ := h
  obtain ⟨a', ha', hi', hc'⟩ := h'
  have : a = a' :=
    List.inj_on_of_nodup_map cfg.impls ha ha' (by rw [← hi, ← hi', heq])
  rw [hc, hc', this]

theorem Known.token {b : SBuffer} (h : cfg.Known b) :
    b.config.token = cfg.token := by
  obtain ⟨a, ha, -, hc⟩ := h
  rw [hc]
  exact (cfg.created a ha).1

theorem Known.userIndex {b : SBuffer} (h : cfg.Known b) :
    b.getUserIndex = noIndex := by
  obtain ⟨a, ha, -, hc⟩ := h
  unfold SBuffer.getUserIndex
  rw [hc]
  exact (cfg.created a ha).2

theorem Known.owns {b : SBuffer} (h : cfg.Known b) {x : Nat}
    (hx : x < b.config.length) : cfg.Owns (cfg.phys (b.config.memory + x)) := by
  obtain ⟨a, ha, -, hc⟩ := h
  rw [hc] at hx ⊢
  exact ⟨a, ha, x, hx, rfl⟩

theorem Known.injective {b : SBuffer} (h : cfg.Known b) :
    b.Injective cfg.phys := by
  obtain ⟨a, ha, -, hc⟩ := h
  unfold SBuffer.Injective
  rw [hc]
  exact cfg.injective a ha

theorem Known.apart {b b' : SBuffer} (h : cfg.Known b) (h' : cfg.Known b')
    (hne : b.impl ≠ b'.impl) :
    (∀ i < b.config.length, ∀ j < b'.config.length,
      cfg.phys (b.config.memory + i) ≠ cfg.phys (b'.config.memory + j)) ∧
    (b.config.memory + b.config.length ≤ b'.config.memory ∨
      b'.config.memory + b'.config.length ≤ b.config.memory) := by
  obtain ⟨a, ha, hi, hc⟩ := h
  obtain ⟨a', ha', hi', hc'⟩ := h'
  rw [hc, hc']
  exact cfg.apart a ha a' ha' (by rwa [← hi, ← hi'])

/-- A pointer into a buffer, past its start, is the end of a slice of no other
buffer. -/
theorem Known.outside {b a : SBuffer} (h : cfg.Known b) (ha : a ∈ cfg.buffers)
    (hne : a.impl ≠ b.impl) {last : Nat} (hlo : b.config.memory < last)
    (hhi : last ≤ b.config.memory + b.config.length) : Outside a last := by
  have hknown : cfg.Known a := ⟨a, ha, rfl, rfl⟩
  have hapart := (hknown.apart h hne).2
  unfold Outside
  omega

end PoolConfig

/-- A buffer that waits to be used: nothing of it is out. -/
structure IdleBuffer (held : List SBuffer) (b : SBuffer) : Prop where
  offset : b.offset = 0
  length : b.length = 0
  last : b.last = 0
  notHeld : b.impl ∉ held.map SBuffer.impl

/-- A partly used front buffer: its used part is the latest stretch of the
stream. -/
structure PartlyUsed (P : Producer) (b : SBuffer) : Prop where
  pos : 0 < b.offset
  inside : b.offset ≤ b.config.length
  length : b.length = 0
  last : b.last = b.get 0
  anchor : P.anchor b.impl + b.offset = P.written.length
  content : ∀ x < b.offset,
    P.written[P.anchor b.impl + x]? = some (P.memory.read (b.config.memory + x))

/-- **The invariant of a pool.** -/
structure PoolInv (cfg : PoolConfig) (P : Producer)
    (q : BufferQueuePool) : Prop where
  phys : P.memory.phys = cfg.phys
  token : q.token = cfg.token
  capacity : q.queue.capacity = cfg.buffers.length
  known : ∀ b ∈ q.queue.items ++ P.returns ++ P.held, cfg.Known b
  nodup : ((q.queue.items ++ P.returns).map SBuffer.impl).Nodup
  idle : ∀ b ∈ q.queue.items.tail ++ P.returns, IdleBuffer P.held b
  front : ∀ b ∈ q.queue.items.head?, IdleBuffer P.held b ∨ PartlyUsed P b

namespace PoolInv

open PoolConfig InputPort

variable {cfg : PoolConfig} {P : Producer} {q : BufferQueuePool}

theorem holds_known (h : PoolInv cfg P q) {b : SBuffer} (hb : P.Holds b) :
    cfg.Known b := by
  obtain ⟨b', hmem, hi, hc⟩ := hb
  obtain ⟨a, ha, hi', hc'⟩ := h.known b' (by simp [hmem])
  exact ⟨a, ha, hi ▸ hi', hc ▸ hc'⟩

/-- What is written lies in the buffer. -/
theorem read_written (h : PoolInv cfg P q) {b : SBuffer} (hknown : cfg.Known b)
    {bytes : List Byte} (hfit : b.offset + bytes.length ≤ b.config.length)
    {a : Nat} (ha : ¬ cfg.Owns (P.memory.phys a)) :
    (P.memory.writeRange (b.get 0) bytes).read a = P.memory.read a := by
  refine P.memory.read_writeRange_of_ne fun k hk heq => ha ?_
  have haddress : b.get 0 + k = b.config.memory + (b.offset + k) := by
    rw [SBuffer.get]
    omega
  rw [heq, h.phys, haddress]
  exact hknown.owns (by omega)

/-- Slices that pass the stitch test are slices of one buffer. -/
theorem stitched (h : PoolInv cfg P q) {b0 b1 : SBuffer} (hb0 : P.Holds b0)
    (hb1 : P.Holds b1) (hs0 : cfg.Shape b0) (hs1 : cfg.Shape b1)
    (hp1 : P.Placed cfg.Owns b1) (hst : Stitches b0 b1)
    (hnext : P.anchor b0.impl + b0.extent = P.anchor b1.impl + b1.offset) :
    cfg.Shape (taking b0 b1) ∧ cfg.Shape (giving b0 b1) ∧
      P.Placed cfg.Owns (taking b0 b1) := by
  have hk0 := h.holds_known hb0
  have hk1 := h.holds_known hb1
  have hlast : b1.last = b0.config.memory + b0.extent := by
    rw [hst.1, SBuffer.get, SBuffer.extent, Nat.add_assoc]
  have himpl : b0.impl = b1.impl := by
    by_contra hne
    obtain ⟨a, ha, hi, hc⟩ := hk0
    have hout := hs1.last a ha (by rwa [← hi])
    have hpos := hs0.pos
    have hin := hs0.inside
    rw [hc] at hlast hin
    unfold Outside at hout
    omega
  have hconfig := hk0.config_eq hk1 himpl
  rw [himpl] at hnext
  have hextent : (taking b0 b1).extent = b1.extent := by
    simp only [taking, SBuffer.extent] at hnext ⊢
    omega
  refine ⟨⟨?_, ?_, hs0.last⟩, ⟨?_, ?_, ?_⟩, ?_⟩
  · rw [hextent]
    exact hs1.pos
  · rw [hextent]
    exact hconfig ▸ hs1.inside
  · rw [giving_extent]
    exact hs1.pos
  · rw [giving_extent]
    exact hs1.inside
  · intro a ha hne
    have hin := hs1.inside
    have hpos := hs1.pos
    have hend : (giving b0 b1).last = b1.config.memory + b1.extent := by
      rw [← hextent, ← hconfig]
      simp only [giving, taking, SBuffer.get, SBuffer.extent]
      omega
    exact hk1.outside ha hne (hend ▸ by omega) (hend ▸ by omega)
  · exact hp1.congr himpl hconfig (Nat.le_of_eq hextent)

/-- Only the pool's own memory matters. -/
theorem memory_congr (h : PoolInv cfg P q) {m : Memory}
    (hphys : m.phys = P.memory.phys)
    (hread : ∀ a, cfg.Owns (P.memory.phys a) → m.read a = P.memory.read a) :
    PoolInv cfg { P with memory := m } q := by
  refine { h with phys := hphys.trans h.phys, front := fun b hb => ?_ }
  refine (h.front b hb).imp_right fun hused =>
    { hused with content := fun x hx => ?_ }
  have hknown : cfg.Known b := by
    refine h.known b ?_
    simp [List.mem_of_mem_head? hb]
  refine (hused.content x hx).trans (congrArg some (hread _ ?_).symm)
  rw [h.phys]
  exact hknown.owns (Nat.lt_of_lt_of_le hx hused.inside)

theorem released (h : PoolInv cfg P q) {held new : List SBuffer}
    (hheld : ∀ b ∈ held, P.Holds b)
    (hnew : ∀ r ∈ new, ∃ b ∈ P.held, r = b.reset ∧
      b.impl ∉ held.map SBuffer.impl ∧
      b.impl ∉ q.queue.items.map SBuffer.impl)
    (hnodup : (new.map SBuffer.impl).Nodup) :
    PoolInv cfg { P with held := held, returns := P.returns ++ new } q := by
  have hsub : ∀ b : SBuffer, b.impl ∉ P.held.map SBuffer.impl →
      b.impl ∉ held.map SBuffer.impl := by
    intro b hb hmem
    obtain ⟨b', hb', heq⟩ := List.mem_map.mp hmem
    obtain ⟨b'', hb'', hi, -⟩ := hheld b' hb'
    exact hb (List.mem_map.mpr ⟨b'', hb'', hi.trans heq⟩)
  have hidle : ∀ b, IdleBuffer P.held b → IdleBuffer held b :=
    fun b hb => { hb with notHeld := hsub b hb.notHeld }
  refine
    { h with
      known := ?_
      nodup := ?_
      idle := ?_
      front := fun b hb => (h.front b hb).imp (hidle b) fun hu => ?_ }
  · intro b hb
    simp only [List.mem_append] at hb
    rcases hb with (hb | hb | hb) | hb
    · exact h.known b (by simp [hb])
    · exact h.known b (by simp [hb])
    · obtain ⟨b₀, hb₀, rfl, -⟩ := hnew b hb
      exact h.known b₀ (by simp [hb₀])
    · exact h.holds_known (hheld b hb)
  · show ((q.queue.items ++ (P.returns ++ new)).map SBuffer.impl).Nodup
    rw [← List.append_assoc, List.map_append, List.nodup_append']
    refine ⟨h.nodup, hnodup, fun i hi hi' => ?_⟩
    obtain ⟨r, hr, rfl⟩ := List.mem_map.mp hi'
    obtain ⟨b, hb, rfl, -, hq⟩ := hnew r hr
    rw [List.map_append, List.mem_append] at hi
    rcases hi with hi | hi
    · exact hq hi
    · obtain ⟨b', hb', heq⟩ := List.mem_map.mp hi
      refine (h.idle b' (by simp [hb'])).notHeld ?_
      rw [heq]
      exact show b.impl ∈ _ from List.mem_map_of_mem hb
  · intro b hb
    simp only [List.mem_append] at hb
    rcases hb with hb | hb | hb
    · exact hidle b (h.idle b (by simp [hb]))
    · exact hidle b (h.idle b (by simp [hb]))
    · obtain ⟨b₀, -, rfl, hout, -⟩ := hnew b hb
      exact ⟨rfl, rfl, rfl, hout⟩
  · exact { hu with }

/-- A returned buffer finds room at the back. -/
theorem pushed (h : PoolInv cfg P q) {k : Nat} {r : SBuffer}
    {q' : BufferQueuePool} (hk : P.returns[k]? = some r)
    (hpush : q.push r = .ok q') :
    PoolInv cfg { P with returns := P.returns.eraseIdx k } q' := by
  have hr : r ∈ P.returns := List.mem_of_getElem? hk
  have hknown := h.known r (by simp [hr])
  have hsub : ∀ b ∈ P.returns.eraseIdx k, b ∈ P.returns :=
    fun b hb => List.mem_of_mem_eraseIdx hb
  unfold BufferQueuePool.push at hpush
  rw [if_neg (by rw [h.token, hknown.token, ne_eq, not_not])] at hpush
  simp only [Checked.bind_eq_ok, assertThat_eq_ok, Checked.pure_eq_ok] at hpush
  obtain ⟨-, -, rfl⟩ := hpush
  have hperm : (q.queue.items ++ [r] ++ P.returns.eraseIdx k).Perm
      (q.queue.items ++ P.returns) := by
    rw [List.append_assoc]
    refine List.Perm.append_left _ ?_
    obtain ⟨hlt, heq⟩ := List.getElem?_eq_some_iff.mp hk
    exact heq ▸ List.getElem_cons_eraseIdx_perm hlt
  have hroom : ¬ q.queue.full := by
    refine BoundedDeque.not_full_of_lt ?_
    have hlen := (List.subperm_of_subset h.nodup fun i hi => ?_ :
      ((q.queue.items ++ P.returns).map SBuffer.impl).Subperm
        (cfg.buffers.map SBuffer.impl)).length_le
    · simp only [List.length_map, List.length_append] at hlen
      have := List.length_pos_of_mem hr
      rw [h.capacity]
      omega
    · obtain ⟨b, hb, rfl⟩ := List.mem_map.mp hi
      obtain ⟨a, ha, hi', -⟩ := h.known b (List.mem_append_left _ hb)
      rw [hi']
      exact List.mem_map_of_mem ha
  have hitems := BoundedDeque.pushBack_items q.queue r hroom
  exact
    { phys := h.phys
      token := h.token
      capacity := (BoundedDeque.pushBack_capacity _ _).trans h.capacity
      known := by
        intro b hb
        rw [hitems] at hb
        simp only [List.mem_append, List.mem_singleton] at hb
        rcases hb with ((hb | rfl) | hb) | hb
        · exact h.known b (by simp [hb])
        · exact hknown
        · exact h.known b (by simp [hsub b hb])
        · exact h.known b (by simp [hb])
      nodup := by
        rw [hitems]
        exact (hperm.map SBuffer.impl).nodup_iff.mpr h.nodup
      idle := by
        intro b hb
        rw [hitems, List.mem_append] at hb
        rcases hb with hb | hb
        · cases hq : q.queue.items with
          | nil => simp [hq] at hb
          | cons front rest =>
              rw [hq, List.cons_append, List.tail_cons, List.mem_append,
                List.mem_singleton] at hb
              rcases hb with hb | rfl
              · exact h.idle b (by simp [hq, hb])
              · exact h.idle b (by simp [hr])
        · exact h.idle b (by simp [hsub b hb])
      front := by
        intro b hb
        rw [hitems] at hb
        cases hq : q.queue.items with
        | nil =>
            rw [hq, List.nil_append, List.head?_cons, Option.mem_some_iff] at hb
            exact .inl (hb ▸ h.idle r (by simp [hr]))
        | cons front rest =>
            rw [hq, List.cons_append, List.head?_cons,
              Option.mem_some_iff] at hb
            exact hb ▸ (h.front front (by simp [hq])).imp_right fun hu =>
              ⟨hu.pos, hu.inside, hu.length, hu.last, hu.anchor, hu.content⟩ }

/-- The front buffer after a pop that keeps it. -/
def kept (b : SBuffer) (numBytes : Nat) : SBuffer :=
  { b with
    offset := b.offset + numBytes
    length := 0
    last := b.config.memory + (b.offset + numBytes) }

/-- What `front`, `pop` and the writes between them do to the pool's queue. -/
theorem produce_cases {q₀ : BufferQueuePool} {b chunk : SBuffer}
    {q q' q'' : BufferQueue} {numBytes : Nat}
    (hfront : (BufferQueue.pool q₀).front = .ok (b, q))
    (hagain : (q.setFront { b with length := numBytes }).front =
      .ok (chunk, q'))
    (hpop : (q'.setFront { chunk with
      offset := chunk.offset + chunk.length, length := 0 }).pop = .ok q'') :
    ∃ rest q₃, q₀.queue.items = b :: rest ∧
      chunk = { b with length := numBytes } ∧
      q'' = .pool q₃ ∧ q₃.token = q₀.token ∧
      q₃.queue.capacity = q₀.queue.capacity ∧
      (q₃.queue.items = rest ∨ q₃.queue.items = kept b numBytes :: rest) := by
  cases hq : q₀.queue.items with
  | nil =>
      simp only [BufferQueue.front, BufferQueuePool.front, hq,
        Checked.bind_eq_ok, Checked.throw_eq_ok, false_and,
        exists_false] at hfront
  | cons b₀ rest =>
      simp only [BufferQueue.front, BufferQueuePool.front, hq,
        Checked.bind_eq_ok, Checked.pure_eq_ok, Prod.mk.injEq] at hfront
      obtain ⟨b₁, rfl, rfl, rfl⟩ := hfront
      simp only [BufferQueue.setFront, BufferQueue.front, BufferQueuePool.front,
        BufferQueuePool.setFront, BoundedDeque.replace_items, hq,
        List.set_cons_zero, Checked.bind_eq_ok, Checked.pure_eq_ok,
        Prod.mk.injEq] at hagain
      obtain ⟨b₂, rfl, rfl, rfl⟩ := hagain
      simp only [BufferQueue.setFront, BufferQueue.pop, BufferQueuePool.pop,
        BufferQueuePool.setFront, BoundedDeque.replace_items,
        List.set_cons_zero, Checked.bind_eq_ok, Checked.pure_eq_ok] at hpop
      obtain ⟨q₃, hpop, rfl⟩ := hpop
      refine ⟨rest, q₃, rfl, rfl, rfl, ?_⟩
      split at hpop
      · rw [Checked.pure_eq_ok] at hpop
        subst hpop
        exact ⟨rfl, rfl, .inl rfl⟩
      · rw [Checked.pure_eq_ok] at hpop
        subst hpop
        exact ⟨rfl, rfl, .inr rfl⟩

/-- The stream position a chunk of the front buffer gets: the end of the stream,
which is where a partly used buffer has arrived already. -/
theorem exists_anchor (h : PoolInv cfg P q) {b : SBuffer} {rest : List SBuffer}
    (hitems : q.queue.items = b :: rest) :
    ∃ anchor : Nat → Nat, anchor b.impl + b.offset = P.written.length ∧
      (∀ h, P.Holds h → anchor h.impl = P.anchor h.impl) ∧
      (∀ x < b.offset,
        P.written[anchor b.impl + x]? =
          some (P.memory.read (b.config.memory + x))) ∧
      (b.last = 0 ∨ 0 < b.offset ∧ b.last = b.get 0) := by
  rcases h.front b (by simp [hitems]) with hidle | hused
  · refine ⟨Function.update P.anchor b.impl P.written.length, ?_, ?_, ?_,
      .inl hidle.last⟩
    · rw [Function.update_self, hidle.offset, Nat.add_zero]
    · rintro h ⟨h₀, hmem, hi, -⟩
      rw [Function.update_of_ne]
      rintro heq
      exact hidle.notHeld (heq ▸ hi ▸ List.mem_map_of_mem hmem)
    · intro x hx
      rw [hidle.offset] at hx
      omega
  · exact ⟨P.anchor, hused.anchor, fun _ _ => rfl, hused.content,
      .inr ⟨hused.pos, hused.last⟩⟩

section Producing

variable {b : SBuffer} {rest : List SBuffer} {bytes : List Byte}

/-- The bytes of a chunk are written behind the used part of its buffer. -/
theorem get_zero_add (b : SBuffer) (k : Nat) :
    b.get 0 + k = b.config.memory + (b.offset + k) := by
  simp only [SBuffer.get]
  omega

/-- The write leaves the used part alone. -/
theorem read_below (h : PoolInv cfg P q) (hknown : cfg.Known b)
    (hfit : b.offset + bytes.length ≤ b.config.length) {x : Nat}
    (hx : x < b.offset) :
    (P.memory.writeRange (b.get 0) bytes).read (b.config.memory + x) =
      P.memory.read (b.config.memory + x) := by
  have hinj := hknown.injective
  rw [← h.phys] at hinj
  refine P.memory.read_writeRange_of_ne fun k hk => ?_
  rw [get_zero_add]
  exact hinj _ (by omega) _ (by omega)

/-- What is written is read. -/
theorem read_new (h : PoolInv cfg P q) (hknown : cfg.Known b)
    (hfit : b.offset + bytes.length ≤ b.config.length) {k : Nat}
    (hk : k < bytes.length) :
    (P.memory.writeRange (b.get 0) bytes).read
      (b.config.memory + (b.offset + k)) =
      bytes[k] := by
  have hinj := hknown.injective
  rw [← h.phys] at hinj
  rw [← get_zero_add]
  refine P.memory.read_writeRange (fun j k hjk hk => ?_) k hk
  rw [get_zero_add, get_zero_add]
  exact hinj _ (by omega) _ (by omega)

/-- The write leaves the other buffers alone. -/
theorem read_other (h : PoolInv cfg P q) (hknown : cfg.Known b)
    (hfit : b.offset + bytes.length ≤ b.config.length) {b' : SBuffer}
    (hknown' : cfg.Known b') (hne : b'.impl ≠ b.impl) {x : Nat}
    (hx : x < b'.config.length) :
    (P.memory.writeRange (b.get 0) bytes).read (b'.config.memory + x) =
      P.memory.read (b'.config.memory + x) := by
  refine P.memory.read_writeRange_of_ne fun k hk => ?_
  rw [get_zero_add, h.phys]
  exact (hknown'.apart hknown hne).1 x hx _ (by omega)

/-- The used part of the buffer and the chunk behind it are a stretch of the
stream. -/
theorem produced_content (h : PoolInv cfg P q) (hknown : cfg.Known b)
    (hfit : b.offset + bytes.length ≤ b.config.length) {anchor : Nat}
    (hat : anchor + b.offset = P.written.length)
    (hcontent : ∀ x < b.offset,
      P.written[anchor + x]? = some (P.memory.read (b.config.memory + x)))
    {x : Nat} (hx : x < b.offset + bytes.length) :
    (P.written ++ bytes)[anchor + x]? =
      some ((P.memory.writeRange (b.get 0) bytes).read
        (b.config.memory + x)) := by
  rcases Nat.lt_or_ge x b.offset with hlt | hge
  · rw [List.getElem?_append_left (by omega), hcontent x hlt,
      h.read_below hknown hfit hlt]
  · obtain ⟨k, rfl⟩ := Nat.exists_eq_add_of_le hge
    rw [List.getElem?_append_right (by omega),
      show anchor + (b.offset + k) - P.written.length = k by omega,
      List.getElem?_eq_getElem (by omega), h.read_new hknown hfit (by omega)]

/-- The buffers behind the front stay idle when a chunk of the front goes
out. -/
theorem produced_idle (h : PoolInv cfg P q) (hitems : q.queue.items = b :: rest)
    {n : Nat} :
    ∀ b' ∈ rest ++ P.returns,
      IdleBuffer (P.held ++ [{ b with length := n }]) b' := by
  intro b' hb'
  have hidle := h.idle b' (by rwa [hitems, List.tail_cons])
  have hnodup := h.nodup
  rw [hitems, List.cons_append, List.map_cons, List.nodup_cons] at hnodup
  refine { hidle with notHeld := ?_ }
  rw [List.map_append, List.mem_append, List.map_singleton, List.mem_singleton]
  rintro (hmem | heq)
  · exact hidle.notHeld hmem
  · exact hnodup.1 (heq ▸ List.mem_map_of_mem hb')

/-- A slice that is out stays where it is in the stream. -/
theorem produced_placed (h : PoolInv cfg P q) (hknown : cfg.Known b)
    (hfit : b.offset + bytes.length ≤ b.config.length) {P' : Producer}
    (hmemory : P'.memory = P.memory.writeRange (b.get 0) bytes)
    (hwritten : P'.written = P.written ++ bytes)
    (hat : P'.anchor b.impl + b.offset = P.written.length) {b' : SBuffer}
    (hheld : P.Holds b') (hanchor : P'.anchor b'.impl = P.anchor b'.impl)
    (hshape : cfg.Shape b') (hplaced : P.Placed cfg.Owns b') :
    P'.Placed cfg.Owns b' := by
  intro x hx
  have hknown' := h.holds_known hheld
  obtain ⟨howns, hread⟩ := hplaced x hx
  have hlt := hplaced.lt_length hx
  rw [hmemory, hwritten, hanchor]
  refine ⟨by rwa [ByteMemory.phys_writeRange], ?_⟩
  rw [List.getElem?_append_left hlt, hread]
  congr 1
  by_cases hne : b'.impl = b.impl
  · rw [hknown'.config_eq hknown hne]
    refine (h.read_below hknown hfit ?_).symm
    rw [← hanchor, hne] at hlt
    omega
  · exact (h.read_other hknown hfit hknown' hne
      (Nat.lt_of_lt_of_le hx hshape.inside)).symm

/-- **The invariant** after a chunk went out: its buffer is kept in front, or
has left the queue with it. -/
theorem produced_inv (h : PoolInv cfg P q) {q₃ : BufferQueuePool}
    (hbytes : bytes ≠ []) (hitems : q.queue.items = b :: rest)
    (hfit : b.offset + bytes.length ≤ b.config.length)
    (htoken : q₃.token = q.token) (hcap : q₃.queue.capacity = q.queue.capacity)
    (hrest : q₃.queue.items = rest ∨ q₃.queue.items =
      kept b bytes.length :: rest)
    {anchor : Nat → Nat} (hat : anchor b.impl + b.offset = P.written.length)
    (hcontent : ∀ x < b.offset,
      P.written[anchor b.impl + x]? =
        some (P.memory.read (b.config.memory + x))) :
    PoolInv cfg
      { memory := P.memory.writeRange (b.get 0) bytes
        queue := .pool q₃
        held := P.held ++ [{ b with length := bytes.length }]
        returns := P.returns
        anchor
        written := P.written ++ bytes } q₃ := by
  have hknown : cfg.Known b := h.known b (by simp [hitems])
  have hpos : 0 < bytes.length := List.length_pos_iff.mpr hbytes
  have hidle := h.produced_idle hitems (n := bytes.length)
  have hnodup := h.nodup
  rw [hitems] at hnodup
  refine
    { phys := (P.memory.phys_writeRange _ _).trans h.phys
      token := htoken.trans h.token
      capacity := hcap.trans h.capacity
      known := ?_
      nodup := ?_
      idle := ?_
      front := ?_ }
  · intro b' hb'
    simp only [List.mem_append, List.mem_singleton] at hb'
    rcases hb' with (hb' | hb') | hb' | rfl
    · rcases hrest with hq | hq
      · exact h.known b' (by simp [hitems, ← hq, hb'])
      · rw [hq] at hb'
        rcases List.mem_cons.mp hb' with rfl | hb'
        · exact hknown
        · exact h.known b' (by simp [hitems, hb'])
    · exact h.known b' (by simp [hb'])
    · exact h.known b' (by simp [hb'])
    · exact hknown
  · rcases hrest with hq | hq
    · rw [hq]
      exact (List.nodup_cons.mp hnodup).2
    · rw [hq]
      exact hnodup
  · intro b' hb'
    rcases hrest with hq | hq
    · rw [hq] at hb'
      refine hidle b' ?_
      rcases List.mem_append.mp hb' with hb' | hb'
      · exact List.mem_append_left _ (List.mem_of_mem_tail hb')
      · exact List.mem_append_right _ hb'
    · rw [hq] at hb'
      exact hidle b' hb'
  · intro b' hb'
    rcases hrest with hq | hq
    · rw [hq] at hb'
      exact .inl (hidle b' (List.mem_append_left _ (List.mem_of_mem_head? hb')))
    · -- The buffer is kept: its used part goes up to the end of the chunk.
      rw [hq, List.head?_cons, Option.mem_some_iff] at hb'
      subst hb'
      refine .inr ⟨?_, hfit, rfl, rfl, ?_,
        fun x hx => h.produced_content hknown hfit hat
        hcontent hx⟩
      · show 0 < b.offset + bytes.length
        omega
      · show anchor b.impl + (b.offset + bytes.length) =
            (P.written ++ bytes).length
        rw [List.length_append]
        omega

/-- **Producing.**  The chunk continues its buffer where it continues the
stream. -/
theorem produced (h : PoolInv cfg P q) {q₃ : BufferQueuePool}
    (hbytes : bytes ≠ []) (hitems : q.queue.items = b :: rest)
    (hfit : b.offset + bytes.length ≤ b.config.length)
    (htoken : q₃.token = q.token) (hcap : q₃.queue.capacity = q.queue.capacity)
    (hrest : q₃.queue.items = rest ∨ q₃.queue.items =
      kept b bytes.length :: rest) :
    ∃ anchor : Nat → Nat,
      let chunk := { b with length := bytes.length }
      let P' : Producer :=
        { memory := P.memory.writeRange (b.get 0) bytes
          queue := .pool q₃
          held := P.held ++ [chunk]
          returns := P.returns
          anchor
          written := P.written ++ bytes }
      PoolInv cfg P' q₃ ∧ cfg.Shape chunk ∧ P'.Placed cfg.Owns chunk ∧
        anchor b.impl + b.offset = P.written.length ∧
        ∀ h, P.Holds h → cfg.Shape h → P.Placed cfg.Owns h →
          anchor h.impl = P.anchor h.impl ∧ P'.Placed cfg.Owns h := by
  obtain ⟨anchor, hat, hold, hcontent, hlast⟩ := h.exists_anchor hitems
  have hknown : cfg.Known b := h.known b (by simp [hitems])
  have hpos : 0 < bytes.length := List.length_pos_iff.mpr hbytes
  refine ⟨anchor,
    h.produced_inv hbytes hitems hfit htoken hcap hrest hat hcontent,
    ⟨?_, hfit, ?_⟩, ?_, hat, ?_⟩
  · show 0 < b.offset + bytes.length
    omega
  · intro a ha hne
    show Outside a b.last
    rcases hlast with hlast | ⟨hoff, hlast⟩
    · exact .inl (hlast ▸ Nat.zero_le _)
    · refine hknown.outside ha hne ?_ ?_
      · rw [hlast, SBuffer.get]
        omega
      · rw [hlast, SBuffer.get]
        omega
  · intro x hx
    refine ⟨?_, h.produced_content hknown hfit hat hcontent hx⟩
    show cfg.Owns
        ((P.memory.writeRange (b.get 0) bytes).phys (b.config.memory + x))
    rw [ByteMemory.phys_writeRange, h.phys]
    exact hknown.owns (Nat.lt_of_lt_of_le hx hfit)
  · intro b' hheld hshape hplaced
    exact ⟨hold b' hheld,
      h.produced_placed hknown hfit rfl rfl hat hheld (hold b' hheld) hshape
      hplaced⟩

end Producing

end PoolInv

/-- **A pool is a backing.** -/
def poolBacking (cfg : PoolConfig)
    (hsized : ∀ b ∈ cfg.buffers, b.config.length < 2 ^ 64) :
    Backing where
  token := cfg.token
  Owns := cfg.Owns
  External last := ∀ a ∈ cfg.buffers, PoolConfig.Outside a last
  Shape := cfg.Shape
  Inv P := ∃ q, P.queue = .pool q ∧ PoolInv cfg P q
  queue_token := by
    rintro P ⟨q, hq, h⟩
    rw [hq]
    exact h.token
  shape_congr := by
    intro b b' h himpl hconfig hextent hlast
    refine ⟨hextent ▸ h.pos, hextent ▸ hconfig ▸ h.inside, fun a ha hne => ?_⟩
    rcases hlast with hlast | hlast
    · rw [hlast]
      exact h.last a ha (himpl ▸ hne)
    · exact hlast a ha
  stitched := by
    rintro P b0 b1 ⟨q, -, h⟩ hb0 hb1 hs0 hs1 - hp1 hst hnext
    exact h.stitched hb0 hb1 hs0 hs1 hp1 hst hnext
  memory_congr := by
    rintro P m ⟨q, hq, h⟩ hphys hread
    exact ⟨q, hq, h.memory_congr hphys hread⟩
  released := by
    rintro P held new ⟨q, hq, h⟩ hheld hnew hnodup
    refine ⟨q, hq, h.released hheld ?_ hnodup⟩
    rw [hq] at hnew
    exact hnew
  front := by
    rintro P b q' ⟨q, hq, h⟩ hfront
    rw [hq] at hfront
    simp only [BufferQueue.front, Checked.bind_eq_ok, Checked.pure_eq_ok,
      Prod.mk.injEq] at hfront
    obtain ⟨_, -, -, rfl⟩ := hfront
    refine ⟨q, rfl,
      { h with front := fun b hb => (h.front b hb).imp_right fun hu => ?_ }⟩
    exact ⟨hu.pos, hu.inside, hu.length, hu.last, hu.anchor, hu.content⟩
  sized := by
    rintro P b q' ⟨q, hq, h⟩ hfront
    rw [hq] at hfront
    cases hitems : q.queue.items with
    | nil =>
        simp only [BufferQueue.front, BufferQueuePool.front, hitems,
          Checked.bind_eq_ok, Checked.throw_eq_ok, false_and,
          exists_false] at hfront
    | cons b₀ rest =>
        simp only [BufferQueue.front, BufferQueuePool.front, hitems,
          Checked.bind_eq_ok, Checked.pure_eq_ok, Prod.mk.injEq] at hfront
        obtain ⟨_, rfl, rfl, -⟩ := hfront
        obtain ⟨a, ha, -, hconfig⟩ := h.known b₀ (by simp [hitems])
        exact hconfig ▸ hsized a ha
  produced := by
    rintro P b chunk q q' q'' bytes
      ⟨q₀, hq, h⟩ hbytes hfront hlen hfit hagain hpop
    rw [hq] at hfront
    obtain ⟨rest, q₃, hitems, rfl, rfl, htoken, hcap, hrest⟩ :=
      PoolInv.produce_cases hfront hagain hpop
    obtain ⟨anchor, hinv, hshape, hplaced, hat, hothers⟩ :=
      h.produced hbytes hitems hfit htoken hcap hrest
    have hknown : cfg.Known b := h.known b (by simp [hitems])
    exact ⟨anchor, ⟨q₃, rfl, hinv⟩, hknown.token, rfl, hshape, hplaced, hat,
      hothers, fun a ha => h.read_written hknown hfit ha⟩
  pushed := by
    rintro P k r q' ⟨q, hq, h⟩ hk hpush
    rw [hq] at hpush
    simp only [BufferQueue.push, Checked.bind_eq_ok,
      Checked.pure_eq_ok] at hpush
    obtain ⟨q₁, hpush, rfl⟩ := hpush
    have hinv := h.pushed hk hpush
    refine ⟨q₁, rfl,
      { hinv with front := fun b hb =>
        (hinv.front b hb).imp_right fun hu => ?_ }⟩
    exact ⟨hu.pos, hu.inside, hu.length, hu.last, hu.anchor, hu.content⟩

end Gras
