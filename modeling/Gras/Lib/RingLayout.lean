import Mathlib.Algebra.Ring.Nat
import Mathlib.Order.CompletePartialOrder
import Mathlib.Data.Set.Lattice
import Mathlib.Data.List.Nodup
import Mathlib.Data.List.Range

/-!
# Streams laid out on a ring

A ring of `lap` cells at `base` carries a stream: position `p` of the stream
sits in the cell `p % lap`.  This file has the arithmetic of that layout.

* `eq_of_mod_eq_of_window`: within a window of one lap a position is determined
  by its residue.
* `LaidOut`: segments of memory that hold consecutive stretches of the stream.
  Segments laid out within one lap are pairwise disjoint
  (`LaidOut.pairwise_disjoint`), and so is whatever is written behind them
  (`LaidOut.disjoint_next`).
* `cyclic`: the slots of a table in ring order, starting anywhere.
-/

/-! ## Windows of one lap -/

/-- **The window lemma.**  Within a window of one lap, a position is determined
by its residue. -/
theorem eq_of_mod_eq_of_window (lap : Nat) {s x y : Nat} (hx : s ≤ x)
    (hx' : x < s + lap) (hy : s ≤ y) (hy' : y < s + lap)
    (h : x % lap = y % lap) : x = y := by
  rcases Nat.le_total x y with hxy | hxy
  · have hdvd := Nat.dvd_of_mod_eq_zero (Nat.sub_mod_eq_zero_of_mod_eq h.symm)
    have := Nat.eq_zero_of_dvd_of_lt hdvd (by omega)
    omega
  · have hdvd := Nat.dvd_of_mod_eq_zero (Nat.sub_mod_eq_zero_of_mod_eq h)
    have := Nat.eq_zero_of_dvd_of_lt hdvd (by omega)
    omega

/-- Moving two congruent positions by the same distance. -/
theorem add_mod_congr {lap a b : Nat} (t : Nat) (h : a % lap = b % lap) :
    (a + t) % lap = (b + t) % lap := by
  rw [Nat.add_mod, h, ← Nat.add_mod]

/-! ## Segments -/

/-- A stretch of addresses. -/
structure RingSegment where
  address : Nat
  size : Nat
  deriving DecidableEq, Repr

/-- The cells of the ring behind a segment. -/
def RingSegment.cells (base lap : Nat) (c : RingSegment) : Set Nat :=
  {x | ∃ t, t < c.size ∧ x = (c.address + t - base) % lap}

/-- The segments hold the stream from position `s` to position `e`, one after
the other. -/
def LaidOut (base lap : Nat) : List RingSegment → Nat → Nat → Prop
  | [], s, e => s = e
  | c :: cs, s, e =>
      base ≤ c.address ∧ (c.address - base) % lap = s % lap ∧
        LaidOut base lap cs (s + c.size) e

section LaidOut

variable {base lap : Nat}

@[simp] theorem laidOut_nil {s e : Nat} :
    LaidOut base lap [] s e ↔ s = e := Iff.rfl

theorem laidOut_cons {c : RingSegment} {cs : List RingSegment} {s e : Nat} :
    LaidOut base lap (c :: cs) s e ↔
      base ≤ c.address ∧ (c.address - base) % lap = s % lap ∧
        LaidOut base lap cs (s + c.size) e := Iff.rfl

/-- The stretch is as long as its segments together. -/
theorem LaidOut.end_eq {cs : List RingSegment} {s e : Nat}
    (h : LaidOut base lap cs s e) : e = s + (cs.map RingSegment.size).sum := by
  induction cs generalizing s with
  | nil => simpa using (laidOut_nil.mp h).symm
  | cons c cs ih =>
      have := ih h.2.2
      simp only [List.map_cons, List.sum_cons]
      omega

theorem laidOut_append {cs ds : List RingSegment} {s e : Nat} :
    LaidOut base lap (cs ++ ds) s e ↔
      ∃ m, LaidOut base lap cs s m ∧ LaidOut base lap ds m e := by
  induction cs generalizing s with
  | nil => simp
  | cons c cs ih =>
      rw [List.cons_append, laidOut_cons, ih]
      constructor
      · rintro ⟨hb, hm, m, h₁, h₂⟩
        exact ⟨m, ⟨hb, hm, h₁⟩, h₂⟩
      · rintro ⟨m, ⟨hb, hm, h₁⟩, h₂⟩
        exact ⟨hb, hm, m, h₁, h₂⟩

/-- Every segment of the layout has its stretch of positions. -/
theorem LaidOut.position {cs : List RingSegment} {s e : Nat}
    (h : LaidOut base lap cs s e) {c : RingSegment} (hc : c ∈ cs) :
    ∃ p, s ≤ p ∧ p + c.size ≤ e ∧ base ≤ c.address ∧
      (c.address - base) % lap = p % lap := by
  induction cs generalizing s with
  | nil => simp at hc
  | cons d cs ih =>
      obtain ⟨hb, hm, hrest⟩ := h
      have hend := hrest.end_eq
      rcases List.mem_cons.mp hc with rfl | hc
      · exact ⟨s, le_rfl, by omega, hb, hm⟩
      · obtain ⟨p, hp, hpe, hcb, hcm⟩ := ih hrest hc
        exact ⟨p, by omega, hpe, hcb, hcm⟩

/-- The cells of a segment, by the positions it holds. -/
theorem RingSegment.mem_cells {c : RingSegment} {p x : Nat}
    (hb : base ≤ c.address) (hm : (c.address - base) % lap = p % lap) :
    x ∈ c.cells base lap ↔ ∃ t, t < c.size ∧ x = (p + t) % lap := by
  constructor <;> rintro ⟨t, ht, rfl⟩ <;> refine ⟨t, ht, ?_⟩
  · rw [show c.address + t - base = c.address - base + t by omega,
      add_mod_congr t hm]
  · rw [show c.address + t - base = c.address - base + t by omega,
      add_mod_congr t hm]

/-- Segments without size hold no position. -/
theorem laidOut_of_size_zero {cs : List RingSegment} {s : Nat}
    (h : ∀ c ∈ cs, base ≤ c.address ∧ (c.address - base) % lap = s % lap ∧
      c.size = 0) :
    LaidOut base lap cs s s := by
  induction cs with
  | nil => rfl
  | cons c cs ih =>
      obtain ⟨hb, hm, hz⟩ := h c List.mem_cons_self
      refine ⟨hb, hm, ?_⟩
      rw [hz, Nat.add_zero]
      exact ih fun d hd => h d (List.mem_cons_of_mem _ hd)

/-- What holds the positions from `e` on is disjoint from a layout that ends at
`e`, as long as everything fits into one lap. -/
theorem LaidOut.disjoint_next {cs : List RingSegment} {s e : Nat}
    (h : LaidOut base lap cs s e) {d : RingSegment} (hb : base ≤ d.address)
    (hm : (d.address - base) % lap = e % lap) (hfit : e + d.size ≤ s + lap)
    {c : RingSegment} (hc : c ∈ cs) :
    Disjoint (c.cells base lap) (d.cells base lap) := by
  obtain ⟨p, hp, hpe, hcb, hcm⟩ := h.position hc
  rw [Set.disjoint_left]
  intro x hx hx'
  obtain ⟨t, ht, rfl⟩ := (RingSegment.mem_cells hcb hcm).mp hx
  obtain ⟨t', ht', heq⟩ := (RingSegment.mem_cells hb hm).mp hx'
  have := eq_of_mod_eq_of_window lap (s := s) (x := p + t) (y := e + t')
    (by omega) (by omega) (by omega) (by omega) heq
  omega

/-- **Segments laid out within one lap are pairwise disjoint.** -/
theorem LaidOut.pairwise_disjoint {cs : List RingSegment} {s e : Nat}
    (h : LaidOut base lap cs s e) (hfit : e ≤ s + lap) :
    cs.Pairwise fun c d => Disjoint (c.cells base lap) (d.cells base lap) := by
  induction cs using List.reverseRecOn generalizing e with
  | nil => exact List.Pairwise.nil
  | append_singleton cs d ih =>
      obtain ⟨m, hcs, hb, hm, hd⟩ := laidOut_append.mp h
      rw [laidOut_nil] at hd
      rw [List.pairwise_append]
      refine ⟨ih hcs (by omega), List.pairwise_singleton _ _,
        fun c hc d' hd' => ?_⟩
      rw [List.mem_singleton.mp hd']
      exact hcs.disjoint_next hb hm (by omega) hc

end LaidOut

/-! ## Slots in ring order -/

/-- Taking one entry out of a list. -/
theorem List.exists_split_of_getElem? {α : Type*} {l : List α} {k : Nat} {a : α}
    (h : l[k]? = some a) :
    ∃ l₁ l₂, l = l₁ ++ a :: l₂ ∧ l.eraseIdx k = l₁ ++ l₂ := by
  induction l generalizing k with
  | nil => simp at h
  | cons b l ih =>
      cases k with
      | zero =>
          rw [List.getElem?_cons_zero, Option.some.injEq] at h
          exact ⟨[], l, by rw [h, List.nil_append], rfl⟩
      | succ k =>
          rw [List.getElem?_cons_succ] at h
          obtain ⟨l₁, l₂, rfl, herase⟩ := ih h
          exact ⟨b :: l₁, l₂, rfl,
            by rw [List.eraseIdx_cons_succ, herase, List.cons_append]⟩

/-- The slots of a table of `n` in ring order, starting at slot `i`. -/
def cyclic (n i : Nat) : List Nat := (List.range n).map fun k => (i + k) % n

@[simp] theorem cyclic_length (n i : Nat) : (cyclic n i).length = n := by
  simp [cyclic]

theorem mem_cyclic {n i x : Nat} (h : x ∈ cyclic n i) : x < n := by
  obtain ⟨k, hk, rfl⟩ := List.mem_map.mp h
  exact Nat.mod_lt _ (Nat.zero_lt_of_lt (List.mem_range.mp hk))

theorem cyclic_nodup (n i : Nat) : (cyclic n i).Nodup := by
  refine List.Nodup.map_on (fun x hx y hy h => ?_) List.nodup_range
  rw [List.mem_range] at hx hy
  have := eq_of_mod_eq_of_window n (s := i) (x := i + x) (y := i + y)
    (by omega) (by omega) (by omega) (by omega) h
  omega

/-- From slot zero, ring order is counting order. -/
theorem cyclic_zero (n : Nat) : cyclic n 0 = List.range n := by
  refine (List.map_congr_left fun k hk => ?_).trans (List.map_id _)
  rw [Nat.zero_add, Nat.mod_eq_of_lt (List.mem_range.mp hk), id]

/-- **Moving on by one slot** takes the first slot to the end of the order. -/
theorem cyclic_next {n i j : Nat} {rest : List Nat} (hi : i < n)
    (h : cyclic n i = j :: rest) :
    j = i ∧ cyclic n (if i + 1 = n then 0 else i + 1) = rest ++ [i] := by
  obtain ⟨m, rfl⟩ : ∃ m, n = m + 1 := ⟨n - 1, by omega⟩
  have hnext : (if i + 1 = m + 1 then 0 else i + 1) = (i + 1) % (m + 1) := by
    split
    · rename_i heq
      rw [heq, Nat.mod_self]
    · exact (Nat.mod_eq_of_lt (by omega)).symm
  have hhead : (i + 0) % (m + 1) = i := Nat.mod_eq_of_lt hi
  rw [cyclic, List.range_succ_eq_map, List.map_cons, List.map_map, hhead] at h
  obtain ⟨rfl, rfl⟩ := List.cons.inj h
  refine ⟨rfl, ?_⟩
  rw [hnext, cyclic, List.range_succ, List.map_append, List.map_singleton]
  congr 1
  · refine List.map_congr_left fun k _ => ?_
    rw [Nat.mod_add_mod, Function.comp, Nat.succ_eq_add_one]
    congr 1
    omega
  · rw [Nat.mod_add_mod, show i + 1 + m = i + (m + 1) by omega,
      Nat.add_mod_right, Nat.mod_eq_of_lt hi]
