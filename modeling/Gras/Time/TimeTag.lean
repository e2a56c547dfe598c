/-!
# Time tags

`time_tag.cpp`, less the conversions through floating point.  A time tag is a
number of full seconds and a number of ticks; `time_ticks_t` is a `long long`,
and `normalize` narrows the seconds it moves to an `int`.

`to_ticks` is additive modulo `2 ^ 64`, whatever `normalize` moves between the
two fields (`ticks_exact`).
-/

namespace Gras

/-- `TIME_TAG_TPS`. -/
def timeTagTps : Int64 := 1000000000

/-- `TimeTag`. -/
structure TimeTag where
  /-- Full seconds. -/
  fsecs : Int64
  /-- Fractional ticks. -/
  ticks : Int64
  deriving DecidableEq, Repr

namespace TimeTag

/-- The full seconds that `normalize` moves: `int num`. -/
def movedSeconds (ticks : Int64) : Int32 :=
  let num := (ticks / timeTagTps).toInt32
  if num < 0 then num - 1 else num

/-- `normalize(t)`. -/
def normalize (t : TimeTag) : TimeTag :=
  let num := movedSeconds t.ticks
  { fsecs := t.fsecs + num.toInt64
    ticks := t.ticks - num.toInt64 * timeTagTps }

/-- `TimeTag()`. -/
def zero : TimeTag := ⟨0, 0⟩

/-- `from_ticks(ticks)`. -/
def fromTicks (ticks : Int64) : TimeTag := normalize { zero with ticks }

/-- `to_ticks()`. -/
def toTicks (t : TimeTag) : Int64 := t.fsecs * timeTagTps + t.ticks

/-- `operator+=`. -/
def addAssign (t rhs : TimeTag) : TimeTag :=
  normalize { fsecs := t.fsecs + rhs.fsecs, ticks := t.ticks + rhs.ticks }

/-- `operator-=`. -/
def subAssign (t rhs : TimeTag) : TimeTag :=
  normalize { fsecs := t.fsecs - rhs.fsecs, ticks := t.ticks - rhs.ticks }

/-- `operator<`. -/
def lt (lhs rhs : TimeTag) : Bool :=
  if lhs.fsecs = rhs.fsecs then lhs.ticks < rhs.ticks else lhs.fsecs < rhs.fsecs

/-- `operator==`. -/
def eq (lhs rhs : TimeTag) : Bool :=
  lhs.fsecs = rhs.fsecs ∧ lhs.ticks = rhs.ticks

theorem eq_iff {a b : TimeTag} : eq a b = true ↔ a = b := by
  cases a
  cases b
  simp [eq]

end TimeTag

/-! ## What time tags are built by -/

/-- How a time tag is built. -/
inductive TimeExpr where
  | zero
  | ticks (ticks : Int64)
  /-- `a += b`. -/
  | add (a b : TimeExpr)
  /-- `a -= b`. -/
  | sub (a b : TimeExpr)

namespace TimeExpr

/-- The time tag that is built. -/
def eval : TimeExpr → TimeTag
  | zero => .zero
  | ticks t => .fromTicks t
  | add a b => a.eval.addAssign b.eval
  | sub a b => a.eval.subAssign b.eval

/-- The total of ticks that it stands for. -/
def total : TimeExpr → Int
  | zero => 0
  | ticks t => t.toInt
  | add a b => a.total + b.total
  | sub a b => a.total - b.total

end TimeExpr

/-! ## No tick is lost or gained -/

namespace TimeTag

/-- What `normalize` takes from one field it gives to the other. -/
theorem normalize_toTicks (t : TimeTag) : t.normalize.toTicks = t.toTicks := by
  unfold normalize toTicks
  grind

theorem fromTicks_toTicks (ticks : Int64) :
    (fromTicks ticks).toTicks = ticks := by
  rw [fromTicks, normalize_toTicks]
  simp [toTicks, zero]

theorem addAssign_toTicks (a b : TimeTag) :
    (a.addAssign b).toTicks = a.toTicks + b.toTicks := by
  rw [addAssign, normalize_toTicks]
  unfold toTicks
  grind

theorem subAssign_toTicks (a b : TimeTag) :
    (a.subAssign b).toTicks = a.toTicks - b.toTicks := by
  rw [subAssign, normalize_toTicks]
  unfold toTicks
  grind

end TimeTag

/-- What is built has the total of ticks, modulo `2 ^ 64`. -/
theorem TimeExpr.eval_toTicks (e : TimeExpr) :
    e.eval.toTicks = Int64.ofInt e.total := by
  induction e with
  | zero => rfl
  | ticks t => rw [eval, TimeTag.fromTicks_toTicks, total, Int64.ofInt_toInt]
  | add a b iha ihb =>
      rw [eval, TimeTag.addAssign_toTicks, iha, ihb, total, Int64.ofInt_add]
  | sub a b iha ihb =>
      rw [eval, TimeTag.subAssign_toTicks, iha, ihb, total, Int64.ofInt_sub]

/-- **Tick arithmetic is exact** modulo `2 ^ 64`: for one conversion, addition
or subtraction, and for any sequence of them. -/
theorem ticks_exact :
    (∀ t : Int64, (TimeTag.fromTicks t).toTicks = t) ∧
      (∀ a b : TimeTag, (a.addAssign b).toTicks = a.toTicks + b.toTicks) ∧
      (∀ a b : TimeTag, (a.subAssign b).toTicks = a.toTicks - b.toTicks) ∧
      ∀ e : TimeExpr, e.eval.toTicks = Int64.ofInt e.total := by
  refine ⟨?_, ?_, ?_, ?_⟩
  · exact TimeTag.fromTicks_toTicks
  · exact TimeTag.addAssign_toTicks
  · exact TimeTag.subAssign_toTicks
  · exact TimeExpr.eval_toTicks

end Gras
