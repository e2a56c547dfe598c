import Gras.Actor.PortMoves

/-!
# What `mark_done` posts

`mark_done` flushes the output ports: the front of each port that is ready is
posted when it has bytes in it.  `waiting` is what it has to post; `Flushes`
says of a port when that is what the flush does.
-/

namespace Gras

/-- The queue is a pool. -/
def BufferQueue.isPool : BufferQueue → Bool
  | pool _ => true
  | circ _ => false

namespace OutputPort

/-- The front of the queue, if there is one, whether an inline buffer hides it
or not. -/
def queueFront (p : OutputPort) : Option SBuffer :=
  p.queue.bind fun q => q.front.toOption.map Prod.fst

/-- **The buffers with bytes that were not posted**: the inline buffer and the
front of the queue. -/
def waiting (p : OutputPort) : List SBuffer :=
  (p.inlineBuffer.toList ++ p.queueFront.toList).filter fun b =>
    decide (b.length ≠ 0)

/-- **What a port needs to be flushed.**  When it is ready there is a front; and
when bytes wait, it is ready and they are in an inline buffer that hides no
others, or in a pool. -/
def Flushes (p : OutputPort) : Prop :=
  (p.ready = true → p.empty = false) ∧
    (p.waiting ≠ [] → p.ready = true ∧
      match p.inlineBuffer with
      | some _ => ∀ b ∈ p.queueFront, b.length = 0
      | none => ∀ q ∈ p.queue, q.isPool = true)

/-- What the flush posts of a port, and the port afterwards. -/
def flushOut (now : Int) (p : OutputPort) :
    Checked (List SBuffer × OutputPort) :=
  if ¬ p.ready then return ([], p)
  else do
    let (buff, p) ← p.front
    if buff.length = 0 then return ([], p)
    let p ← p.pop now
    return ([buff], p)

section Port

variable {p p' : OutputPort} {now : Int} {b : SBuffer}

/-- Without an inline buffer the front is that of the queue. -/
theorem queueFront_of_front (hinline : p.inlineBuffer = none)
    (h : p.front = .ok (b, p')) : p.queueFront = some b := by
  rcases front_cases h with ⟨hsome, -⟩ | ⟨-, ⟨q, q', hq, hfront⟩, -⟩
  · simp [hinline] at hsome
  · simp [queueFront, hq, hfront, Except.toOption]

/-- A port that is sound and not empty has a front. -/
theorem Sound.front_total (hp : p.Sound now) (hempty : p.empty = false) :
    ∃ b p', p.front = .ok (b, p') := by
  cases hinline : p.inlineBuffer with
  | some buff =>
      refine ⟨buff, p, ?_⟩
      simp only [OutputPort.front, hinline]
      rfl
  | none =>
      cases hq : p.queue with
      | none => simp [empty, queueEmpty, hinline, hq] at hempty
      | some q =>
          have hqempty : q.empty = false := by
            simpa [empty, queueEmpty, hinline, hq] using hempty
          obtain ⟨b, q', hfront⟩ := (hp.queue q hq).front_total hqempty
          refine ⟨b, { p with queue := some q' }, ?_⟩
          simp only [OutputPort.front, hinline, hq, assertThat_of hqempty,
            Checked.ok_bind, hfront]
          rfl

theorem empty_of_front (h : p.front = .ok (b, p')) : p.empty = false := by
  cases hinline : p.inlineBuffer with
  | some buff => simp [empty, hinline]
  | none =>
      cases hq : p.queue with
      | none => simp [OutputPort.front, hinline, hq] at h
      | some q =>
          obtain ⟨q', hfront, -⟩ := front_queue hinline hq h
          simp [empty, queueEmpty, hq, BufferQueue.empty_of_front hfront]

/-- The front of a ring that has bytes in it is not popped. -/
theorem isPool_of_pop {q : BufferQueue} {p₁ : OutputPort}
    (hinline : p.inlineBuffer = none) (hq : p.queue = some q)
    (hfront : p.front = .ok (b, p₁)) (hbytes : b.length ≠ 0)
    (hpop : p₁.pop now = .ok p') : q.isPool = true := by
  cases q with
  | pool q => rfl
  | circ q =>
      obtain ⟨q', hqfront, rfl⟩ := front_queue hinline hq hfront
      simp only [BufferQueue.front, Checked.bind_eq_ok, Checked.pure_eq_ok,
        Prod.mk.injEq, Prod.exists] at hqfront
      obtain ⟨b₀, q₀, hqfront, rfl, rfl⟩ := hqfront
      obtain ⟨buff, rest, hitems, -, -, rfl, rfl⟩ := q.front_eq_ok hqfront
      simp only [pop, hinline, Checked.bind_eq_ok, BufferQueue.pop,
        Checked.pure_eq_ok] at hpop
      obtain ⟨-, -, q₁, ⟨q₂, hqpop, -⟩, -⟩ := hpop
      unfold BufferQueueCirc.pop at hqpop
      rw [BufferQueueCirc.setFront_items hitems] at hqpop
      simp only [Checked.bind_eq_ok, assertThat_eq_ok] at hqpop
      obtain ⟨-, -, -, hlength, -⟩ := hqpop
      exact absurd hlength hbytes

/-- A pool is popped. -/
theorem Sound.pop_total (hp : p.Sound now) (hfront : p.front = .ok (b, p'))
    (hpool : p.inlineBuffer = none → ∀ q ∈ p.queue, q.isPool = true) :
    ∃ p'', p'.pop now = .ok p'' := by
  cases hinline : p.inlineBuffer with
  | some buff =>
      rcases front_cases hfront with ⟨-, rfl⟩ | ⟨hnone, -⟩
      · refine ⟨{ p' with inlineBuffer := none }, ?_⟩
        simp only [OutputPort.pop, hinline]
        rfl
      · simp [hinline] at hnone
  | none =>
      cases hq : p.queue with
      | none => simp [OutputPort.front, hinline, hq] at hfront
      | some q =>
          cases q with
          | circ q =>
              have hcirc := hpool hinline _ hq
              cases hcirc
          | pool q =>
              obtain ⟨q', hqfront, rfl⟩ := front_queue hinline hq hfront
              have hempty :=
                BufferQueue.empty_of_front (BufferQueue.front_front hqfront)
              simp only [BufferQueue.front, Checked.bind_eq_ok,
                Checked.pure_eq_ok, Prod.mk.injEq] at hqfront
              obtain ⟨buff, hitems, -, rfl⟩ := hqfront
              obtain ⟨q₁, hqpop⟩ : ∃ q₁, q.pop = .ok q₁ := by
                unfold BufferQueuePool.front at hitems
                unfold BufferQueuePool.pop
                split at hitems
                · simp at hitems
                · split <;> exact ⟨_, rfl⟩
              have hsound :
                  ({ p with queue := some (.pool q₁) } :
                    OutputPort).Sound now := by
                refine ⟨hp.times, fun q₂ hq₂ => ?_⟩
                cases hq₂
                trivial
              obtain ⟨p'', hupdate⟩ := hsound.update_total
              refine ⟨p'', ?_⟩
              simp only [OutputPort.pop, hinline, assertThat_of hempty,
                Checked.ok_bind, BufferQueue.pop, hqpop, Checked.bind_eq_ok,
                Checked.pure_eq_ok]
              exact ⟨_, rfl, by simpa only [hinline] using hupdate⟩

/-- **A port is flushed** exactly when `Flushes` holds. -/
theorem Sound.flushOut_iff (hp : p.Sound now) :
    (∃ p', p.flushOut now = .ok (p.waiting, p')) ↔ p.Flushes := by
  have hwaiting : ∀ {b p'}, p.front = .ok (b, p') → p.inlineBuffer = none →
      p.waiting = if b.length = 0 then [] else [b] := by
    intro b p' hfront hinline
    rw [waiting, queueFront_of_front hinline hfront, hinline]
    by_cases hb : b.length = 0 <;> simp [hb]
  constructor
  · rintro ⟨p', h⟩
    unfold flushOut at h
    split at h
    · -- Nothing is posted of a port that is not ready.
      rename_i hready
      simp only [Checked.pure_eq_ok, Prod.mk.injEq] at h
      exact ⟨fun hr => absurd hr hready, fun hsome => absurd h.1.symm hsome⟩
    · rename_i hready
      simp only [Checked.bind_eq_ok, Prod.exists] at h
      obtain ⟨b, p₁, hfront, h⟩ := h
      refine ⟨fun _ => empty_of_front hfront,
        fun hsome => ⟨not_not.mp hready, ?_⟩⟩
      split at h
      · simp only [Checked.pure_eq_ok, Prod.mk.injEq] at h
        exact absurd h.1.symm hsome
      · rename_i hbytes
        simp only [Checked.bind_eq_ok, Checked.pure_eq_ok, Prod.mk.injEq] at h
        obtain ⟨p₂, hpop, hposted, rfl⟩ := h
        cases hinline : p.inlineBuffer with
        | some buff =>
            -- Only the inline buffer is posted.
            have hb : buff = b := by
              simp only [OutputPort.front, hinline, Checked.pure_eq_ok,
                Prod.mk.injEq] at hfront
              exact hfront.1
            subst hb
            intro c hc
            rw [waiting, hinline, hc] at hposted
            by_contra hlength
            simp [hbytes, hlength] at hposted
        | none =>
            intro q hq
            exact isPool_of_pop hinline hq hfront hbytes hpop
  · rintro ⟨hempty, hsome⟩
    by_cases hready : p.ready = true
    · obtain ⟨b, p₁, hfront⟩ := hp.front_total (hempty hready)
      have hposts : p.waiting = if b.length = 0 then [] else [b] := by
        cases hinline : p.inlineBuffer with
        | none => exact hwaiting hfront hinline
        | some buff =>
            have hb : buff = b := by
              simp only [OutputPort.front, hinline, Checked.pure_eq_ok,
                Prod.mk.injEq] at hfront
              exact hfront.1
            subst hb
            by_cases hnone : p.waiting = []
            · have hlength : buff.length = 0 := by
                rw [waiting, hinline] at hnone
                by_contra hlength
                simp [hlength] at hnone
              rw [hnone, if_pos hlength]
            · have hhidden := (hsome hnone).2
              rw [hinline] at hhidden
              have hqueue : p.queueFront.toList.filter
                  (fun b => decide (b.length ≠ 0)) = [] := by
                rw [List.filter_eq_nil_iff]
                intro c hc
                simpa using hhidden c (Option.mem_toList.mp hc)
              rw [waiting, hinline, List.filter_append, hqueue, List.append_nil]
              by_cases hlength : buff.length = 0 <;> simp [hlength]
      rw [hposts]
      unfold flushOut
      rw [if_neg (not_not.mpr hready), hfront, Checked.ok_bind]
      dsimp only
      split
      · exact ⟨p₁, rfl⟩
      · rename_i hbytes
        have hne : p.waiting ≠ [] := by
          rw [hposts, if_neg hbytes]
          exact List.cons_ne_nil _ _
        obtain ⟨p₂, hpop⟩ := hp.pop_total hfront fun hinline => by
          have hpool := (hsome hne).2
          rwa [hinline] at hpool
        exact ⟨p₂, Checked.bind_eq_ok.mpr ⟨p₂, hpop, rfl⟩⟩
    · have hnone : p.waiting = [] := by
        by_contra hne
        exact hready (hsome hne).1
      refine ⟨p, ?_⟩
      rw [hnone]
      unfold flushOut
      rw [if_pos hready]
      rfl

end Port

end OutputPort

/-! ## The block -/

/-- What a message to the downstream of that port says. -/
def Outgoing.downstreamOf (o : Nat) : Outgoing → Option InputMessage
  | downstream j m => if j = o then some m else none
  | _ => none

/-- What a message to the upstream of that port says. -/
def Outgoing.upstreamOf (i : Nat) : Outgoing → Option OutputMessage
  | upstream j m => if j = i then some m else none
  | _ => none

/-- In a row of messages only those of one port are for it. -/
theorem flatMap_range_single {α : Type} (f : Nat → List α) (o : Nat) :
    ∀ n, (List.range n).flatMap (fun j => if j = o then f j else []) =
      if o < n then f o else []
  | 0 => rfl
  | n + 1 => by
      rw [List.range_succ, List.flatMap_append, flatMap_range_single f o n,
        List.flatMap_singleton]
      by_cases hn : n = o
      · subst hn
        simp
      · have hlt : o < n + 1 ↔ o < n := by omega
        simp [hn, hlt]

theorem filterMap_range_single {α : Type} (a : α) {o n : Nat} (ho : o < n) :
    (List.range n).filterMap
      (fun j => if j = o then some a else none) = [a] := by
  have hlist : ∀ j, (if j = o then some a else none).toList = if j = o then [a]
      else [] := by
    intro j
    split <;> rfl
  rw [List.filterMap_eq_flatMap_toList]
  simp only [hlist]
  rw [flatMap_range_single fun _ => [a], if_pos ho]

namespace BlockActor

/-- **`mark_done` has completed**: the block is done and holds no token, every
buffer that waited was posted once, and a check follows it on every port. -/
structure Completed (b b' : BlockActor) : Prop where
  state : b'.blockState = .done
  tokens : b'.tokenPool = []
  sent : ∃ out, b'.sent = b.sent ++ out ∧
    (∀ i < b.numInputs, out.filterMap (Outgoing.upstreamOf i) = [.check]) ∧
    ∀ o < b.numOutputs, out.filterMap (Outgoing.downstreamOf o) =
      (b.outputQueues o).waiting.map InputMessage.buffer ++ [InputMessage.check]

/-- The messages with which buffers are posted, port by port. -/
def posts (l : Nat → List SBuffer) (n : Nat) : List Outgoing :=
  (List.range n).flatMap fun o => (l o).map fun buff =>
    .downstream o (.buffer buff)

theorem posts_succ (l : Nat → List SBuffer) (n : Nat) :
    posts l (n + 1) = posts l n ++ (l n).map fun buff =>
      .downstream n (.buffer buff) := by
  rw [posts, List.range_succ, List.flatMap_append,
    List.flatMap_singleton, posts]

theorem posts_downstream (l : Nat → List SBuffer) {n o : Nat} (ho : o < n) :
    (posts l n).filterMap (Outgoing.downstreamOf o) = (l o).map .buffer := by
  have hport : ∀ j,
      ((l j).map fun buff => Outgoing.downstream j (.buffer buff)).filterMap
      (Outgoing.downstreamOf o) = if j = o then (l j).map .buffer else [] := by
    intro j
    by_cases hj : j = o
    · simp [hj, List.filterMap_map, Function.comp_def, Outgoing.downstreamOf]
    · simp [hj, List.filterMap_map, Function.comp_def, Outgoing.downstreamOf]
  rw [posts, List.filterMap_flatMap]
  simp only [hport]
  rw [flatMap_range_single fun j => (l j).map InputMessage.buffer, if_pos ho]

theorem posts_upstream (l : Nat → List SBuffer) (n i : Nat) :
    (posts l n).filterMap (Outgoing.upstreamOf i) = [] := by
  rw [List.filterMap_eq_nil_iff]
  intro m hm
  obtain ⟨o, -, hm⟩ := List.mem_flatMap.mp hm
  obtain ⟨buff, -, rfl⟩ := List.mem_map.mp hm
  rfl

section MarkDone

variable {b b' : BlockActor} {now : Int} {o n : Nat}

/-- A flush is a flush of the port, and its messages. -/
theorem flushOutput_eq_ok : b.flushOutput now o = .ok b' ↔
    ∃ l p, (b.outputQueues o).flushOut now = .ok (l, p) ∧
      b' = { b with
        outputQueues := Function.update b.outputQueues o p
        sent := b.sent ++ l.map fun buff => .downstream o (.buffer buff) } := by
  unfold flushOutput OutputPort.flushOut
  by_cases hready : (b.outputQueues o).ready = true
  · rw [if_neg (not_not.mpr hready), if_neg (not_not.mpr hready)]
    cases hfront : (b.outputQueues o).front with
    | error e => simp [bind, Except.bind]
    | ok r =>
        obtain ⟨buff, p⟩ := r
        simp only [Checked.ok_bind]
        by_cases hlength : buff.length = 0
        · simp only [if_pos hlength, Checked.pure_eq_ok, Prod.mk.injEq]
          constructor
          · rintro rfl
            exact ⟨[], p, ⟨rfl, rfl⟩, by simp [setOutput]⟩
          · rintro ⟨l, p', ⟨rfl, rfl⟩, rfl⟩
            simp [setOutput]
        · simp only [if_neg hlength, Checked.bind_eq_ok, Checked.pure_eq_ok,
            Prod.mk.injEq]
          constructor
          · rintro ⟨p', hpop, rfl⟩
            exact ⟨[buff], p', ⟨p', hpop, rfl, rfl⟩, rfl⟩
          · rintro ⟨l, p', ⟨p'', hpop, rfl, rfl⟩, rfl⟩
            exact ⟨p'', hpop, rfl⟩
  · rw [if_pos hready, if_pos hready]
    simp only [Checked.pure_eq_ok, Prod.mk.injEq]
    constructor
    · rintro rfl
      exact ⟨[], b.outputQueues o, ⟨rfl, rfl⟩, by simp⟩
    · rintro ⟨l, p, ⟨rfl, rfl⟩, rfl⟩
      simp

/-- **The flush of the outputs**: what each port posts, in a row. -/
theorem flushOutputs_cases (h : forRange (flushOutput now) n b = .ok b') :
    ∃ l, (∀ o < n, ∃ p, (b.outputQueues o).flushOut now = .ok (l o, p)) ∧
      b'.sent = b.sent ++ posts l n ∧ b'.inputQueues = b.inputQueues ∧
      b'.control = b.control := by
  have hloop := forRange_rule h (P := fun n s => ∃ l : Nat → List SBuffer,
      (∀ o < n, ∃ p, (b.outputQueues o).flushOut now = .ok (l o, p)) ∧
        (∀ o, n ≤ o → s.outputQueues o = b.outputQueues o) ∧
        s.sent = b.sent ++ posts l n ∧
        s.inputQueues = b.inputQueues)
    ⟨fun _ => [], fun o ho => absurd ho (Nat.not_lt_zero o), fun _ _ => rfl,
      by simp [posts], rfl⟩
    fun n _ s s' hs hf => by
      obtain ⟨l, hposted, hrest, hsent, hin⟩ := hs
      obtain ⟨k, p, hflush, rfl⟩ := flushOutput_eq_ok.mp hf
      rw [hrest n (Nat.le_refl n)] at hflush
      refine ⟨Function.update l n k, fun o ho => ?_, fun o ho => ?_, ?_, hin⟩
      · by_cases hon : o = n
        · subst hon
          rw [Function.update_self]
          exact ⟨p, hflush⟩
        · rw [Function.update_of_ne hon]
          exact hposted o (by omega)
      · show Function.update s.outputQueues n p o = b.outputQueues o
        rw [Function.update_of_ne (by omega)]
        exact hrest o (by omega)
      · have hsame : posts (Function.update l n k) n = posts l n := by
          unfold posts
          refine List.flatMap_congr fun o ho => ?_
          rw [Function.update_of_ne (Nat.ne_of_lt (List.mem_range.mp ho))]
        rw [posts_succ, hsame, Function.update_self,
          ← List.append_assoc, ← hsent]
  obtain ⟨l, hposted, -, hsent, hin⟩ := hloop
  exact ⟨l, hposted, hsent, hin, forRange_control h fun i s s' hf =>
    flushOutput_control hf⟩

/-- The flush of the outputs does not change threads. -/
theorem flushOutputs_onThread (h : forRange (flushOutput now) n b = .ok b') :
    b'.onThread = b.onThread :=
  forRange_rule h (P := fun _ s => s.onThread = b.onThread) rfl
      fun _ _ s s' hs hf => by
    obtain ⟨l, p, -, rfl⟩ := flushOutput_eq_ok.mp hf
    exact hs

/-- The flush of the outputs succeeds when that of every port does. -/
theorem flushOutputs_total
    (hports : ∀ o < n, ∃ l p, (b.outputQueues o).flushOut now = .ok (l, p)) :
    ∃ b', forRange (flushOutput now) n b = .ok b' := by
  obtain ⟨b', h, -⟩ := forRange_total (f := flushOutput now) (s := b)
    (P := fun n s => ∀ o, n ≤ o → s.outputQueues o = b.outputQueues o)
    (fun _ _ => rfl)
    fun o ho s hs => by
      obtain ⟨l, p, hflush⟩ := hports o ho
      rw [← hs o (Nat.le_refl o)] at hflush
      refine ⟨_, flushOutput_eq_ok.mpr ⟨l, p, hflush, rfl⟩, fun j hj => ?_⟩
      show Function.update s.outputQueues o p j = b.outputQueues j
      rw [Function.update_of_ne (by omega)]
      exact hs j (by omega)
  exact ⟨b', h⟩

/-- The flush of the inputs succeeds while the clock does not run backwards. -/
theorem flushInputs_total (htimes : ∀ i, (b.inputQueues i).idleTimes.OnTime now) :
    ∃ b', forRange (flushInput now) n b = .ok b' := by
  obtain ⟨b', h, -⟩ := forRange_total (f := flushInput now) (s := b)
    (P := fun _ s => ∀ i, (s.inputQueues i).idleTimes.OnTime now) htimes
    fun i _ s hs => by
      obtain ⟨p, hflush⟩ := InputPort.update_total
        (p := { s.inputQueues i with queue := .empty 1, enqueuedBytes := 0 }) (hs i)
      refine ⟨s.setInput i p, Checked.bind_eq_ok.mpr ⟨p, hflush, rfl⟩, fun j => ?_⟩
      rw [setInput_inputQueues]
      by_cases hji : j = i
      · subst hji
        rw [Function.update_self]
        exact InputPort.update_onTime
          (p := { s.inputQueues j with queue := .empty 1, enqueuedBytes := 0 })
          (hs j) hflush
      · rw [Function.update_of_ne hji]
        exact hs j
  exact ⟨b', h⟩

/-- The checks that `mark_done` sends. -/
def checks (numInputs numOutputs : Nat) : List Outgoing :=
  (List.range numInputs).map (Outgoing.upstream · .check) ++
    (List.range numOutputs).map (Outgoing.downstream · .check)

theorem checks_upstream {i n k : Nat} (hi : i < n) :
    (checks n k).filterMap (Outgoing.upstreamOf i) = [.check] := by
  rw [checks, List.filterMap_append, List.filterMap_map, List.filterMap_map]
  have hnone : (List.range k).filterMap
      (Outgoing.upstreamOf i ∘ (Outgoing.downstream · .check)) = [] :=
    List.filterMap_eq_nil_iff.mpr fun _ _ => rfl
  rw [hnone, List.append_nil]
  exact filterMap_range_single _ hi

theorem checks_downstream {o n k : Nat} (ho : o < k) :
    (checks n k).filterMap (Outgoing.downstreamOf o) = [.check] := by
  rw [checks, List.filterMap_append, List.filterMap_map, List.filterMap_map]
  have hnone : (List.range n).filterMap
      (Outgoing.downstreamOf o ∘ (Outgoing.upstream · .check)) = [] :=
    List.filterMap_eq_nil_iff.mpr fun _ _ => rfl
  rw [hnone, List.nil_append]
  exact filterMap_range_single _ ho

/-- **What `mark_done` does** to a block that is not done. -/
theorem markDone_sent (hlive : b.blockState ≠ .done)
    (h : b.markDone now = .ok b') :
    ∃ l, (∀ o < b.numOutputs, ∃ p,
      (b.outputQueues o).flushOut now = .ok (l o, p)) ∧
      b'.sent = b.sent ++
        (posts l b.numOutputs ++ checks b.numInputs b.numOutputs) := by
  obtain ⟨b₁, hout, -, b₂, hin, rfl⟩ := markDone_parts hlive h
  obtain ⟨l, hposted, hsent, -, hcontrol⟩ := flushOutputs_cases hout
  have hnum : b₁.numInputs = b.numInputs ∧ b₁.numOutputs = b.numOutputs :=
    ⟨congrArg Control.numInputs hcontrol, congrArg Control.numOutputs hcontrol⟩
  have h₂ := forRange_rule hin (P := fun _ s => s.sent = b₁.sent ∧
      s.numInputs = b₁.numInputs ∧ s.numOutputs = b₁.numOutputs) ⟨rfl, rfl, rfl⟩
    fun i _ s s' hs hf => by
      simp only [flushInput, Checked.bind_eq_ok, Checked.pure_eq_ok] at hf
      obtain ⟨p, -, rfl⟩ := hf
      exact hs
  obtain ⟨hsent₂, hin₂, hout₂⟩ := h₂
  refine ⟨l, hposted, ?_⟩
  show b₂.sent ++ (List.range b₂.numInputs).map _ ++
      (List.range b₂.numOutputs).map _ = _
  rw [hsent₂, hin₂, hout₂, hnum.1, hnum.2, hsent, List.append_assoc,
    List.append_assoc]
  rfl

/-- **`mark_done` completes** exactly when it is not called on the interruptible
thread, which it would wait for, and every output port can be flushed. -/
theorem markDone_completes_iff (hlive : b.blockState ≠ .done)
    (htimes : ∀ i, (b.inputQueues i).idleTimes.OnTime now)
    (hsound : ∀ o, (b.outputQueues o).Sound now) :
    (∃ b', b.markDone now = .ok b' ∧ Completed b b') ↔
      b.onThread = false ∧ ∀ o < b.numOutputs, (b.outputQueues o).Flushes := by
  constructor
  · rintro ⟨b', h, hcompleted⟩
    refine ⟨?_, fun o ho => ?_⟩
    · obtain ⟨b₁, hout, hthread, -⟩ := markDone_parts hlive h
      exact (flushOutputs_onThread hout).symm.trans hthread
    obtain ⟨l, hposted, hsent⟩ := markDone_sent hlive h
    obtain ⟨out, hout, -, hdown⟩ := hcompleted.sent
    rw [hsent, List.append_cancel_left_eq] at hout
    have hport := hdown o ho
    rw [← hout, List.filterMap_append, posts_downstream l ho,
      checks_downstream ho,
      List.append_cancel_right_eq] at hport
    have hl : l o = (b.outputQueues o).waiting :=
      List.map_injective_iff.mpr (fun x y hxy => by injection hxy) hport
    obtain ⟨p, hflush⟩ := hposted o ho
    exact (hsound o).flushOut_iff.mp ⟨p, hl ▸ hflush⟩
  · rintro ⟨hthread, hflushes⟩
    have hports : ∀ o < b.numOutputs, ∃ l p,
        (b.outputQueues o).flushOut now = .ok (l, p) := fun o ho => by
      obtain ⟨p, hflush⟩ := (hsound o).flushOut_iff.mpr (hflushes o ho)
      exact ⟨_, p, hflush⟩
    obtain ⟨b₁, hout⟩ := flushOutputs_total
      (b := { b with stats := { b.stats with stopTime := now } }) hports
    obtain ⟨-, -, -, hin₁, -⟩ := flushOutputs_cases hout
    obtain ⟨b₂, hin⟩ : ∃ b₂, forRange (flushInput now) b₁.numInputs
        { b₁ with interruptibleThread := false, blockState := .done, tokenPool := [] } = .ok b₂ :=
      flushInputs_total (by
        show ∀ i, (b₁.inputQueues i).idleTimes.OnTime now
        rw [hin₁]
        exact htimes)
    have hthread₁ : b₁.onThread = false :=
      (flushOutputs_onThread hout).trans hthread
    have h : b.markDone now = .ok (b₂.flushRest now).postChecks := by
      rw [markDone, if_neg hlive]
      exact Checked.bind_eq_ok.mpr ⟨b₁, hout, Checked.bind_eq_ok.mpr
        ⟨_, resetThread_eq_ok.mpr ⟨hthread₁, rfl⟩,
          Checked.bind_eq_ok.mpr ⟨b₂, hin, rfl⟩⟩⟩
    refine ⟨_, h, markDone_blockState h, ?_, ?_⟩
    · rcases markDone_control h with ⟨hdone, -⟩ | ⟨-, hcontrol⟩
      · exact absurd hdone hlive
      · exact congrArg Control.tokenPool hcontrol
    · obtain ⟨l, hposted, hsent⟩ := markDone_sent hlive h
      refine ⟨_, hsent, fun i hi => ?_, fun o ho => ?_⟩
      · rw [List.filterMap_append, posts_upstream, checks_upstream hi,
          List.nil_append]
      · obtain ⟨p, hflush⟩ := (hsound o).flushOut_iff.mpr (hflushes o ho)
        obtain ⟨p', hflush'⟩ := hposted o ho
        have hl : l o = (b.outputQueues o).waiting :=
          (Prod.mk.inj (Except.ok.inj (hflush'.symm.trans hflush))).1
        rw [List.filterMap_append, posts_downstream l ho,
          checks_downstream ho, hl]

end MarkDone

end BlockActor

end Gras
