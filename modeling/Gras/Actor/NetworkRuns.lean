import Gras.Actor.Network
import Gras.Actor.ItemCounterRuns

/-!
# What holds on every connection of a network

In every run of a network, and for each of its connections: the bytes that were
sent are consumed, queued, in the mailbox of the downstream or on their way
(`items_conserved`), the work that is offered an item is offered its tags
(`tags_in_time`), and an input that is declared done has got the whole stream
(`nothing_missing_at_end`).  The stream has to be one of plain items, which
nobody else feeds (`Plain`).

`connect` is what the worker does with the messages of a list of connections.

### What is left out

`Plain` is about the input of the connection.  A preload puts bytes in front of
the stream that nobody has sent, and shifts the items against the offsets of
their tags; a change of the item size makes the counters of the two ends count
different things; and an input that others feed has no stream of its own.  For
the end of a stream the life of the upstream must be over when its token is
(`EndsInOrder`): a block that is activated again goes on with a new life, in
which the bytes of the old one were flushed.
-/

namespace Gras

/-! ## The worker -/

/-- Where a message goes on a connection. -/
def Wire.carry (w : Wire) (k : Nat) : Outgoing → List (Nat × Message)
  | .downstream o message =>
      if w.i = k ∧ w.o = o then [(w.j, .input w.p message)] else []
  | .upstream p message =>
      if w.j = k ∧ w.p = p then [(w.i, .output w.o message)] else []
  | _ => []

/-- What is sent goes wherever the port is connected. -/
def connect (wires : List Wire) : Route :=
  fun k out => wires.flatMap fun w => w.carry k out

namespace Wire

open BlockActor

variable {w w' : Wire} {wires : List Wire} {k : Nat}

/-- A connection carries to its own input only. -/
theorem arrivals_carry (w w' : Wire) (k : Nat) (out : Outgoing) :
    w.arrivals (w'.carry k out) =
      if w'.j = w.j ∧ w'.p = w.p ∧ w'.i = k then (out.downstreamOf w'.o).toList
        else [] := by
  cases out with
  | downstream o message =>
      simp only [carry, Outgoing.downstreamOf, arrivals]
      by_cases hk : w'.i = k
      · by_cases ho : w'.o = o
        · by_cases hj : w'.j = w.j
          · simp [hk, ho, hj, messagesOn]
          · simp [hk, ho, hj]
        · simp [ho, Ne.symm ho]
      · simp [hk]
  | upstream p message =>
      simp only [carry, Outgoing.downstreamOf, arrivals]
      split <;> simp [messagesOn]
  | _ => simp [carry, arrivals, Outgoing.downstreamOf]

/-- No connection goes to the input of the wire. -/
theorem arrivals_connect_of_not_mem
    (h : (w.j, w.p) ∉ wires.map fun w => (w.j, w.p)) (k : Nat)
    (out : Outgoing) : w.arrivals (connect wires k out) = [] := by
  induction wires with
  | nil => rfl
  | cons w' wires ih =>
      rw [List.map_cons, List.mem_cons, not_or] at h
      have hother : ¬ (w'.j = w.j ∧ w'.p = w.p ∧ w'.i = k) := fun heq =>
        h.1 (by rw [heq.1, heq.2.1])
      show w.arrivals (w'.carry k out ++ connect wires k out) = []
      rw [arrivals_append, arrivals_carry, if_neg hother, ih h.2]
      rfl

/-- **The connections of a flow graph**, where every input has one upstream. -/
theorem routed_connect (hw : w ∈ wires)
    (hone : (wires.map fun w => (w.j, w.p)).Nodup)
    (hapart : w.i ≠ w.j) : w.Routed (connect wires) := by
  refine ⟨hapart, fun k out => ?_⟩
  induction wires with
  | nil => cases hw
  | cons w' wires ih =>
      rw [List.map_cons, List.nodup_cons] at hone
      show w.arrivals (w'.carry k out ++ connect wires k out) = _
      rw [arrivals_append, arrivals_carry]
      rcases List.mem_cons.mp hw with rfl | hw
      · rw [arrivals_connect_of_not_mem hone.1, List.append_nil]
        by_cases hk : k = w.i
        · rw [if_pos ⟨rfl, rfl, hk.symm⟩, if_pos hk]
        · rw [if_neg fun heq => hk heq.2.2.symm, if_neg hk]
      · have hother : ¬ (w'.j = w.j ∧ w'.p = w.p ∧ w'.i = k) := fun heq =>
          hone.1 (List.mem_map.mpr ⟨w, hw, by rw [heq.1, heq.2.1]⟩)
        rw [if_neg hother, List.nil_append]
        exact ih hw hone.2

end Wire

namespace Network

open BlockActor

/-! ## Every run -/

section Runs

variable {w : Wire} {route : Route} {s : Network} {env : Env}
  {E : BlockActor → BlockEvent → Prop}

/-- An event of the downstream that is simple to check. -/
def streamsPlainly (i size : Nat) (b : BlockActor) : BlockEvent → Bool
  | .actor event =>
      decide (i < b.numInputs) && (b.inputConfigs i).itemSize == size &&
        (b.inputConfigs i).preloadItems == 0 &&
        match event with
        | .thread event => !decide (event.Feeds i)
        | .handle env =>
            env.propagateTags.isNone && env.called.isEmpty &&
              b.blockState != .done &&
              env.work.all fun c => !decide (c.Feeds i)
  | .topology _ _ _ _ => false

/-- An event of the upstream that is simple to check: it posts no buffers of its
own. -/
def endsPlainly (b : BlockActor) : BlockEvent → Bool
  | .actor (.handle env) =>
      env.work.all (fun c => !c.postsBuffer) && env.propagateTags.isNone &&
        b.blockState != .done
  | _ => true

/-- An event of the network that is simple to check. -/
def plainly (w : Wire) (s : Network) : NetworkEvent → Bool
  | .block k e =>
      (k != w.j || streamsPlainly w.p w.size (s.blocks w.j) e) &&
        (k != w.i || endsPlainly (s.blocks w.i) e)
  | .deliver _ =>
      decide (w.p < (s.blocks w.j).numInputs) &&
        ((s.blocks w.j).inputConfigs w.p).itemSize == w.size &&
        ((s.blocks w.j).inputConfigs w.p).preloadItems == 0

theorem streams_of_plainly {i size : Nat} {b : BlockActor} {e : BlockEvent}
    (h : streamsPlainly i size b e = true) :
    b.Streams i size e ∧ FeedsNot i e := by
  cases e with
  | topology env n k sender => cases h
  | actor event =>
      simp only [streamsPlainly, Bool.and_eq_true, decide_eq_true_eq,
        beq_iff_eq] at h
      obtain ⟨⟨⟨hi, hsize⟩, hpreload⟩, hevent⟩ := h
      cases event with
      | thread event =>
          simp only [Bool.not_eq_true', decide_eq_false_iff_not] at hevent
          exact ⟨⟨hi, ⟨hsize, hpreload⟩, trivial⟩, hevent⟩
      | handle env =>
          simp only [Bool.and_eq_true, Option.isNone_iff_eq_none,
            List.isEmpty_iff, bne_iff_ne, List.all_eq_true, Bool.not_eq_true',
            decide_eq_false_iff_not] at hevent
          obtain ⟨⟨⟨htags, hcalled⟩, hstate⟩, hwork⟩ := hevent
          refine ⟨⟨hi, ⟨hsize, hpreload⟩,
            fun m _ => ⟨fun f hf => ?_, fun c hc => ?_, fun _ _ _ => hstate⟩⟩,
            fun c hc => ?_, fun c hc => ?_⟩
          · simp [htags] at hf
          · simp [hcalled] at hc
          · rcases hc with hc | ⟨overload, ho, -⟩
            · exact hwork c hc
            · simp [htags] at ho
          · simp [hcalled] at hc

theorem endsInOrder_of_plainly {b : BlockActor} {e : BlockEvent}
    (h : endsPlainly b e = true) : b.EndsInOrder e := by
  cases e with
  | topology env n k sender => trivial
  | actor event =>
      cases event with
      | thread event => trivial
      | handle env =>
          simp only [endsPlainly, Bool.and_eq_true, List.all_eq_true,
            Bool.not_eq_true', Option.isNone_iff_eq_none, bne_iff_ne] at h
          obtain ⟨⟨hwork, htags⟩, hstate⟩ := h
          cases hmail : b.mailbox with
          | nil => simp only [EndsInOrder, hmail]
          | cons m rest =>
              simp only [EndsInOrder, hmail]
              refine ⟨fun b₀ _ _ b₁ _ => ?_, fun _ _ _ => hstate⟩
              exact ⟨CallsMeet.of_all fun c hc _ _ => hwork c hc,
                fun _ _ _ _ _ _ _ f hf => by simp [htags] at hf⟩

theorem plainMeeting_of_plainly {e : NetworkEvent} (h : s.plainly w e = true) :
    s.PlainMeeting EndsInOrder w e := by
  cases e with
  | block k e =>
      simp only [plainly, Bool.and_eq_true, Bool.or_eq_true, bne_iff_ne] at h
      obtain ⟨hdown, hup⟩ := h
      refine ⟨fun hj => ?_, fun e' heq => ?_⟩
      · exact streams_of_plainly (hdown.resolve_left fun hne => hne hj)
      · cases heq
        exact endsInOrder_of_plainly (hup.resolve_left fun hne => hne rfl)
  | deliver k =>
      simp only [plainly, Bool.and_eq_true, decide_eq_true_eq, beq_iff_eq] at h
      exact ⟨⟨h.1.1, h.1.2, h.2⟩, fun e' heq => by cases heq⟩

end Runs

/-- One output of a source feeds two sinks. -/
def fork : List Wire := [⟨0, 0, 1, 0, 1⟩, ⟨0, 0, 2, 0, 1⟩]

theorem fork_routed : Wire.Routed ⟨0, 0, 1, 0, 1⟩ (connect fork) :=
  Wire.routed_connect (by simp [fork]) (by decide) (by decide)

/-- Start a source and the sinks, and perform events that are simple to check
for the wire to the first sink. -/
def runFork (es : List NetworkEvent) : Option Network :=
  Counting.source.toOption.bind fun source =>
      Tagging.sink.toOption.bind fun sink =>
    if 0 < sink.numInputs ∧ sink.inputConfigs 0 = {} then
      TransitionSystem.runRestricted
        (fun s e => plainly ⟨0, 0, 1, 0, 1⟩ s e = true)
        (next (connect fork)) es
        ⟨fun k => if k = 0 then source else sink, fun _ => 0, fun _ _ => []⟩
    else none

theorem reachable_of_runFork {es : List NetworkEvent} {s : Network}
    (h : runFork es = some s) :
    ((system ⟨0, 0, 1, 0, 1⟩ (connect fork)).restrict
      (PlainMeeting EndsInOrder ⟨0, 0, 1, 0, 1⟩)).Reachable s := by
  obtain ⟨source, hup, h⟩ := Option.bind_eq_some_iff.mp h
  obtain ⟨sink, hdown, h⟩ := Option.bind_eq_some_iff.mp h
  have hsource : Counting.source = .ok source := Checked.toOption_eq_some.mp hup
  have hsink : Tagging.sink = .ok sink := Checked.toOption_eq_some.mp hdown
  split at h
  · rename_i hfresh
    obtain ⟨hports, hconfig⟩ := hfresh
    refine .of_stronger_events (fun _ _ => plainMeeting_of_plainly) es
      (.init ?_) h
    refine ⟨fun k => ?_, fun _ => rfl, fun _ _ => rfl, hports, ?_⟩
    · show (if k = 0 then source else sink).Started
      split
      · exact Counting.source_started hsource
      · exact Tagging.sink_started hsink
    · constructor
      · show (sink.inputConfigs 0).itemSize = 1
        rw [hconfig]
      · show (sink.inputConfigs 0).preloadItems = 0
        rw [hconfig]
  · cases h

/-- The source posts a tag on the second item and produces three items.  The
first sink is activated, and the tag and the items arrive. -/
def feeds : List NetworkEvent :=
  (Counting.produces [.postOutputTag 0 ⟨1, 7⟩, .produce 0 3]).map (.block 0) ++
    [NetworkEvent.block 1 (.actor (.thread (.post (.top .active false none)))),
      .block 1 (.actor (.handle {})),
      .block 1 (.actor (.handle {})),
      .deliver 0,
      .block 1 (.actor (.handle {})),
      .deliver 0]

/-- What is due, what the work of the first sink is offered and whether the sink
is plain. -/
def offers (s : Network) : Option (List (Nat × Tag) × Nat × Nat × Bool) :=
  ((s.blocks 1).atWork {}).map fun b =>
    (s.due 0 0, b.totalItemsConsumed 0, b.inputItems.size 0,
    streamsPlainly 0 1 (s.blocks 1) (.actor (.handle {})))

end Network

end Gras
