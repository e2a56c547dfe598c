import Mathlib.Order.CompletePartialOrder
import Mathlib.Algebra.BigOperators.Group.List.Basic
import Mathlib.Algebra.Order.Group.Defs
import Mathlib.Data.Set.Lattice
import Mathlib.Order.Interval.Set.LinearOrder
import Mathlib.Tactic.Abel

/-!
# Spans of time

What a stopwatch adds up: spans that come one after the other.  `Span.InTurn
since now spans` says that the spans, the last one first, follow each other from
`since` until `now`; then no two of them overlap (`InTurn.pairwise_disjoint`)
and what they add up to fits in between (`InTurn.total_le`).
-/

universe u

/-- From a start until a stop. -/
structure Span (κ : Type u) where
  start : κ
  stop : κ

namespace Span

variable {κ : Type u}

/-- The times of a span; the stop is no longer one of them. -/
def times [Preorder κ] (s : Span κ) : Set κ := Set.Ico s.start s.stop

/-- How long the spans are together. -/
def total [AddCommGroup κ] (spans : List (Span κ)) : κ :=
  (spans.map fun s => s.stop - s.start).sum

/-- Spans that follow each other, the last one first, all since that time and
until now. -/
inductive InTurn [LE κ] (since : κ) : κ → List (Span κ) → Prop where
  | none {now : κ} : since ≤ now → InTurn since now []
  | next {now : κ} {s : Span κ} {spans : List (Span κ)} :
    InTurn since s.start spans →
      s.start ≤ s.stop → s.stop ≤ now → InTurn since now (s :: spans)

namespace InTurn

section Order

variable [LinearOrder κ] {since now now' : κ} {s : Span κ}
  {spans : List (Span κ)}

/-- Time goes on. -/
theorem mono (h : InTurn since now spans) (hle : now ≤ now') :
    InTurn since now' spans := by
  cases h with
  | none hsince => exact .none (hsince.trans hle)
  | next hspans hs hnow => exact .next hspans hs (hnow.trans hle)

theorem since_le (h : InTurn since now spans) : since ≤ now := by
  induction h with
  | none hsince => exact hsince
  | next _ hs hnow ih => exact ih.trans (hs.trans hnow)

/-- Each of the spans lies in between. -/
theorem within (h : InTurn since now spans) (hs : s ∈ spans) :
    since ≤ s.start ∧ s.start ≤ s.stop ∧ s.stop ≤ now := by
  induction h with
  | none => cases hs
  | next hspans hlast hnow ih =>
      rcases List.mem_cons.mp hs with rfl | hs
      · exact ⟨hspans.since_le, hlast, hnow⟩
      · obtain ⟨hsince, hspan, hstart⟩ := ih hs
        exact ⟨hsince, hspan, hstart.trans (hlast.trans hnow)⟩

/-- **No two spans overlap.** -/
theorem pairwise_disjoint (h : InTurn since now spans) :
    spans.Pairwise fun s s' => Disjoint s.times s'.times := by
  induction h with
  | none => exact .nil
  | @next now s spans hspans _ _ ih =>
      refine List.pairwise_cons.mpr ⟨fun s' hs' => ?_, ih⟩
      -- The earlier span is over when the later one starts.
      have hover := (hspans.within hs').2.2
      rw [Set.disjoint_left]
      intro x hx hx'
      exact absurd (hx'.2.trans_le hover) (not_lt.mpr hx.1)

end Order

/-- **Together they fit in between.** -/
theorem total_le [AddCommGroup κ] [LinearOrder κ] [IsOrderedAddMonoid κ]
    {since now : κ}
    {spans : List (Span κ)} (h : InTurn since now spans) : total spans ≤ now - since := by
  induction h with
  | none hsince => simpa [total] using hsince
  | @next now s spans _ _ hnow ih =>
      calc total (s :: spans) = (s.stop - s.start) + total spans := by simp [total]
        _ ≤ (s.stop - s.start) + (s.start - since) := by gcongr
        _ = s.stop - since := by abel
        _ ≤ now - since := by gcongr

end InTurn

end Span
