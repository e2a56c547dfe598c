import Mathlib.Data.List.Basic

/-!
# Histories of a queue

What happens to a queue over time is a list of arrivals and of requests, each
answered by an element or by nothing.  `InOrder` says that a history is one of a
first-in-first-out queue: every element is handed out once and in the order of
arrival, and a request is only answered by nothing when there is nothing left.

`Serves q h q'` runs a history against the contents of a queue.  It composes
(`Serves.append`), and a history that it runs from the empty queue is in order
(`Serves.inOrder`).
-/

universe u

/-- An arrival, or a request and its answer. -/
inductive FifoEvent (α : Type u) where
  | arrive (a : α)
  | take (answer : Option α)
  deriving DecidableEq

namespace FifoEvent

variable {α : Type u}

/-- What happens over time. -/
abbrev History (α : Type u) := List (FifoEvent α)

/-- What has arrived. -/
def arrived : List (FifoEvent α) → List α
  | [] => []
  | arrive a :: h => a :: arrived h
  | take _ :: h => arrived h

/-- What has been handed out. -/
def taken : List (FifoEvent α) → List α
  | [] => []
  | arrive _ :: h => taken h
  | take answer :: h => answer.toList ++ taken h

@[simp] theorem arrived_append (h h' : List (FifoEvent α)) :
    arrived (h ++ h') = arrived h ++ arrived h' := by
  fun_induction arrived h with
  | case1 => rfl
  | case2 a h ih => rw [List.cons_append, arrived, ih, List.cons_append]
  | case3 answer h ih => rw [List.cons_append, arrived, ih]

@[simp] theorem taken_append (h h' : List (FifoEvent α)) :
    taken (h ++ h') = taken h ++ taken h' := by
  fun_induction taken h with
  | case1 => rfl
  | case2 a h ih => rw [List.cons_append, taken, ih]
  | case3 answer h ih => rw [List.cons_append, taken, ih, List.append_assoc]

/-- Nothing arrives, something is handed out at most. -/
def OnlyTakes (h : List (FifoEvent α)) : Prop := arrived h = []

theorem OnlyTakes.append {h h' : List (FifoEvent α)} (hh : OnlyTakes h)
    (hh' : OnlyTakes h') : OnlyTakes (h ++ h') := by
  rw [OnlyTakes, arrived_append, hh, hh']
  rfl

/-- **First in, first out.**  At every moment what was handed out is a prefix of
what had arrived, and it was all of it whenever a request was answered by
nothing. -/
structure InOrder (h : List (FifoEvent α)) : Prop where
  handed : ∀ past, past <+: h → taken past <+: arrived past
  refused : ∀ past rest, h = past ++ take none :: rest →
    taken past = arrived past

/-- A queue with those contents answers as the history says, and is left with
these. -/
inductive Serves : List α → List (FifoEvent α) → List α → Prop where
  | nil (q : List α) : Serves q [] q
  | arrive {a : α} {q q' : List α} {h : List (FifoEvent α)} :
      Serves (q ++ [a]) h q' → Serves q (arrive a :: h) q'
  | handed {a : α} {q q' : List α} {h : List (FifoEvent α)} :
      Serves q h q' → Serves (a :: q) (take (some a) :: h) q'
  | refused {q' : List α} {h : List (FifoEvent α)} :
      Serves [] h q' → Serves [] (take none :: h) q'

variable {q q' q'' : List α} {h h' : List (FifoEvent α)}

/-- One history after the other. -/
theorem Serves.append (hs : Serves q h q') (hs' : Serves q' h' q'') :
    Serves q (h ++ h') q'' := by
  induction hs with
  | nil => exact hs'
  | arrive _ ih => exact .arrive (ih hs')
  | handed _ ih => exact .handed (ih hs')
  | refused _ ih => exact .refused (ih hs')

/-- A history can be cut anywhere. -/
theorem Serves.split (hs : Serves q (h ++ h') q'') :
    ∃ q', Serves q h q' ∧ Serves q' h' q'' := by
  induction h generalizing q with
  | nil => exact ⟨q, .nil q, hs⟩
  | cons e h ih =>
      cases hs with
      | arrive hrest =>
          obtain ⟨q', hfirst, hsecond⟩ := ih hrest
          exact ⟨q', .arrive hfirst, hsecond⟩
      | handed hrest =>
          obtain ⟨q', hfirst, hsecond⟩ := ih hrest
          exact ⟨q', .handed hfirst, hsecond⟩
      | refused hrest =>
          obtain ⟨q', hfirst, hsecond⟩ := ih hrest
          exact ⟨q', .refused hfirst, hsecond⟩

/-- Nothing is lost: what was there and what arrived is what was handed out and
what is left. -/
theorem Serves.balance (hs : Serves q h q') :
    q ++ arrived h = taken h ++ q' := by
  induction hs with
  | nil q => simp [arrived, taken]
  | arrive _ ih => simpa [arrived, taken] using ih
  | handed _ ih => simpa [arrived, taken] using ih
  | refused _ ih => simpa [arrived, taken] using ih

/-- **The history of a queue** that was empty at first is in order. -/
theorem Serves.inOrder (hs : Serves [] h q) : InOrder h := by
  constructor
  · rintro past ⟨rest, rfl⟩
    obtain ⟨q', hpast, -⟩ := hs.split
    have hbalance := hpast.balance
    rw [List.nil_append] at hbalance
    rw [hbalance]
    exact List.prefix_append _ _
  · rintro past rest rfl
    obtain ⟨q', hpast, hrest⟩ := hs.split
    -- Nothing was left when the request was refused.
    cases hrest
    have hbalance := hpast.balance
    rw [List.nil_append, List.append_nil] at hbalance
    exact hbalance.symm

end FifoEvent
