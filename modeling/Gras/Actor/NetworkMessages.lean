import Gras.Actor.MsgDeliveryRuns
import Gras.Actor.NetworkRuns

/-!
# The messages on a connection

`Traffic` adds to a network the histories of `Delivery`: what each input has
received and what the user code has popped off it.  On a connection what has
arrived, with what is in the mailbox, is what was delivered of the messages
posted at the other end (`Served.arrived`), and the history is that of a queue
(`Served.pops`): so what was popped, what waits to be popped and what is on its
way are the posted messages, each once and in order (`msgs_exactly_once`).

### What is left out

What the user code pops is up to the code, so the histories are those of runs
that meet the condition of `msgs_in_order` at the block that pops: a registered
call, or an overload of `propagate_tags` that comes too late, pops only while
nothing is stored.  What happens on the way does not depend on it.
-/

namespace Gras

/-- The messages among what is sent to an input. -/
def msgsOf (l : List InputMessage) : List Pmc :=
  l.filterMap fun
    | .msg msg => some msg
    | _ => none

theorem msgsOf_append (l l' : List InputMessage) :
    msgsOf (l ++ l') = msgsOf l ++ msgsOf l' :=
  List.filterMap_append

namespace BlockActor

/-! ## What arrives in an event -/

section Takes

variable {b : BlockActor} {env : Env} {now : Int} {i : Nat}

theorem callTakes_only (i : Nat) (b : BlockActor) (c : Call) :
    FifoEvent.OnlyTakes (b.callTakes i c) := by
  unfold callTakes
  split
  · split <;> rfl
  · rfl

theorem callsTake_only (cs : List Call) (b : BlockActor) :
    FifoEvent.OnlyTakes (b.callsTake now i cs) := by
  induction cs generalizing b with
  | nil => rfl
  | cons c cs ih =>
      refine (callTakes_only i b c).append ?_
      cases b.call now c with
      | ok b' => exact ih b'
      | error _ => rfl

theorem overloadTakes_only (k : Nat) (b : BlockActor) :
    FifoEvent.OnlyTakes (b.overloadTakes env k i) := by
  unfold overloadTakes
  split
  · rfl
  · split
    · rfl
    · exact callsTake_only _ b

theorem finishTakes_only (b : BlockActor) (n : Nat) :
    FifoEvent.OnlyTakes (finishTakes env i b n) := by
  induction n with
  | zero => rfl
  | succ n ih =>
      refine ih.append ?_
      cases forRange (finishInput env) n b with
      | ok s => exact overloadTakes_only n _
      | error _ => rfl

theorem taskTakes_only (b : BlockActor) :
    FifoEvent.OnlyTakes (b.taskTakes env i) := by
  unfold taskTakes
  split
  · rfl
  · split
    · rfl
    · refine (callsTake_only _ _).append ?_
      split
      · exact finishTakes_only _ _
      · rfl

theorem handlerTakes_only (b : BlockActor) (m : Message) :
    FifoEvent.OnlyTakes (b.handlerTakes env i m) := by
  unfold handlerTakes
  split
  · exact taskTakes_only _
  · exact callsTake_only _ b
  · rfl

/-- **What arrives in an event** of a block that is not done is what the handled
message brings. -/
theorem arrived_passes (hlive : b.blockState ≠ .done) (e : BlockEvent) :
    FifoEvent.arrived (b.passes i e) = msgsOf (b.handledOn i e) := by
  cases e with
  | topology env n k sender => rfl
  | actor event =>
      cases event with
      | thread event => rfl
      | handle env =>
          cases hmail : b.mailbox with
          | nil => simp only [passes, handledOn, hmail]; rfl
          | cons m rest =>
              simp only [passes, handledOn, hmail, FifoEvent.arrived_append,
                show FifoEvent.arrived _ = []
                  from handlerTakes_only (b.receive m rest) m,
                List.append_nil]
              cases m with
              | input j message =>
                  by_cases hj : j = i
                  · cases message <;>
                      simp [received, messagesOn, hj, receive, hlive, msgsOf,
                        FifoEvent.arrived]
                  · cases message <;>
                      simp [received, messagesOn, hj, msgsOf, FifoEvent.arrived]
              | _ => rfl

end Takes

end BlockActor

/-! ## Runs -/

/-- A network, and what was received and popped on each of its inputs. -/
structure Traffic where
  network : Network
  history : Nat → Nat → FifoEvent.History Pmc

namespace Traffic

open BlockActor Network

/-- A block with its histories. -/
def delivery (s : Traffic) (k : Nat) : Delivery :=
  ⟨s.network.blocks k, s.history k⟩

/-- One event. -/
def next (route : Route) (s : Traffic) (e : NetworkEvent) :
    Checked Traffic := do
  let network ← s.network.next route e
  let history := match e with
    | .block k e => Function.update s.history k fun i =>
        (s.delivery k).kept e i ++ (s.network.blocks k).passes i e
    | .deliver _ => s.history
  return { network, history }

/-- The blocks have been started, and the input of the wire is one of its
block. -/
structure Fresh (w : Wire) (s : Traffic) : Prop where
  started : ∀ k, (s.network.blocks k).Started
  delivered : ∀ k, s.network.delivered k = 0
  history : ∀ k i, s.history k i = []
  input : w.p < (s.network.blocks w.j).numInputs

def system (w : Wire) (route : Route) : TransitionSystem Traffic NetworkEvent :=
  .ofNext (Fresh w) (next route)

/-- What is asked of the events: the downstream is not done, keeps the input and
serves its messages, and nobody but the upstream feeds them. -/
def Serves (w : Wire) (s : Traffic) : NetworkEvent → Prop
  | .block k e => k = w.j → (s.network.blocks w.j).blockState ≠ .done ∧
      (s.delivery w.j).MsgsServed e ∧ FeedsNot w.p e ∧
      match e with
      | .topology _ numInputs _ _ => w.p < numInputs
      | .actor _ => True
  | .deliver _ => True

/-- **The invariant of a connection.**  The history of the input is that of a
queue, which holds what is to be popped, and what has arrived was posted. -/
structure Served (w : Wire) (s : Traffic) : Prop where
  input : w.p < (s.network.blocks w.j).numInputs
  pops : (s.delivery w.j).PopsServed
  ahead : s.network.delivered w.i ≤ (s.network.blocks w.i).sent.length
  prepares : (s.network.blocks w.j).Prepares (NotFor w.p)
  arrived : FifoEvent.arrived (s.history w.j w.p) ++
      msgsOf (mailOn w.p (s.network.blocks w.j).mailbox) =
    msgsOf (sentOn w.o
      ((s.network.blocks w.i).sent.take (s.network.delivered w.i)))

section Runs

variable {w : Wire} {route : Route} {s s' : Traffic} {e : NetworkEvent}

theorem Fresh.served (hs : Fresh w s) : s.Served w := by
  obtain ⟨hprepares, hmail⟩ := (hs.started w.j).noMail (p := w.p)
  refine ⟨hs.input, ?_, ?_, hprepares, ?_⟩
  · exact Delivery.popsServed_init ⟨hs.started w.j, funext (hs.history w.j)⟩
  · rw [hs.delivered]
    exact Nat.zero_le _
  · rw [hmail, hs.history, hs.delivered]
    rfl

/-- What arrives in the mailboxes. -/
theorem foldl_arrive_mail (w : Wire) (targets : List (Nat × Message))
    (blocks : Nat → BlockActor) :
    mailOn w.p (targets.foldl Network.arrive blocks w.j).mailbox =
      mailOn w.p (blocks w.j).mailbox ++ w.arrivals targets := by
  induction targets generalizing blocks with
  | nil => exact (List.append_nil _).symm
  | cons target targets ih =>
      rw [List.foldl_cons, ih, show w.arrivals (target :: targets) =
        w.arrivals [target] ++ w.arrivals targets
          from w.arrivals_append [target] targets,
        ← List.append_assoc]
      congr 1
      obtain ⟨k, m⟩ := target
      by_cases hk : k = w.j
      · subst hk
        rw [Network.arrive, Function.update_self, post_mail]
        simp [Wire.arrivals]
      · rw [Network.arrive, Function.update_of_ne (Ne.symm hk)]
        simp [Wire.arrivals, hk]

/-- A message that arrives in a mailbox is not received yet. -/
theorem foldl_arrive_inputs (targets : List (Nat × Message))
    (blocks : Nat → BlockActor) (k : Nat) :
    (targets.foldl Network.arrive blocks k).numInputs = (blocks k).numInputs ∧
      ∀ i, (targets.foldl Network.arrive blocks k).awaiting (fun _ => true) i =
        (blocks k).awaiting (fun _ => true) i := by
  induction targets generalizing blocks with
  | nil => exact ⟨rfl, fun _ => rfl⟩
  | cons target targets ih =>
      obtain ⟨hnum, hawaiting⟩ := ih (Network.arrive blocks target)
      have hone : (Network.arrive blocks target k).numInputs =
            (blocks k).numInputs ∧
          ∀ i, (Network.arrive blocks target k).awaiting (fun _ => true) i =
            (blocks k).awaiting (fun _ => true) i := by
        unfold Network.arrive
        by_cases hk : k = target.1
        · subst hk
          rw [Function.update_self]
          have hheld := InputsHeld.threadStep (blocks target.1) (.post target.2)
          exact ⟨hheld.numInputs,
            fun i => awaiting_congr hheld.state (congrFun hheld.msgs i)
            (congrFun hheld.msgsRead i)⟩
        · rw [Function.update_of_ne hk]
          exact ⟨rfl, fun _ => rfl⟩
      exact ⟨hnum.trans hone.1, fun i => (hawaiting i).trans (hone.2 i)⟩

/-- **The next message of a block arrives.** -/
theorem Served.deliver {k : Nat} (hw : w.Routed route) (hs : s.Served w)
    (h : s.next route (.deliver k) = .ok s') : s'.Served w := by
  simp only [Traffic.next, Network.next, Checked.bind_eq_ok,
    Checked.pure_eq_ok] at h
  obtain ⟨network, hnetwork, rfl⟩ := h
  split at hnetwork
  · rw [Checked.pure_eq_ok] at hnetwork
    exact hnetwork ▸ hs
  · rename_i out hout
    rw [Checked.pure_eq_ok] at hnetwork
    subst hnetwork
    obtain ⟨hk, -⟩ := List.getElem?_eq_some_iff.mp hout
    obtain ⟨hnum, hawaiting⟩ :=
      foldl_arrive_inputs (route k out) s.network.blocks w.j
    have hsent := (foldl_arrive_rest (route k out) s.network.blocks w.i).1
    have hprepared := (foldl_arrive_rest (route k out) s.network.blocks w.j).2
    refine ⟨hnum ▸ hs.input, fun i hi => ?_, ?_, ?_, ?_⟩
    · obtain ⟨q, hserves, hq⟩ := hs.pops i (hnum ▸ hi)
      exact ⟨q, hserves, fun l hl => hq l (hawaiting i ▸ hl)⟩
    · simp only [hsent]
      by_cases hi : k = w.i
      · subst hi
        rw [Function.update_self]
        exact hk
      · rw [Function.update_of_ne (Ne.symm hi)]
        exact hs.ahead
    · rw [Prepares, hprepared]
      exact hs.prepares
    · simp only [hsent, foldl_arrive_mail]
      rw [msgsOf_append, ← List.append_assoc, hs.arrived,
        ← msgsOf_append, hw.arrives]
      by_cases hi : k = w.i
      · subst hi
        rw [if_pos rfl, Function.update_self, List.take_add_one, hout,
          sentOn_append]
        cases hdown : out.downstreamOf w.o <;> simp [sentOn, hdown]
      · rw [if_neg hi, Function.update_of_ne (Ne.symm hi), List.append_nil]

/-- **An event of a block.** -/
theorem Served.block {k : Nat} {e : BlockEvent} (hw : w.Routed route)
    (hs : s.Served w) (hok : s.Serves w (.block k e))
    (h : s.next route (.block k e) = .ok s') : s'.Served w := by
  simp only [Traffic.next, Network.next, Checked.bind_eq_ok,
    Checked.pure_eq_ok] at h
  obtain ⟨network, ⟨b, hchange, rfl⟩, rfl⟩ := h
  by_cases hj : k = w.j
  · -- The downstream: it handles what was in the mailbox.
    subst hj
    obtain ⟨hlive, hserved, hfeeds, hports⟩ := hok rfl
    obtain ⟨hprepares, hmail⟩ := change_mail hfeeds hs.prepares hchange
    have hnext : (s.delivery w.j).next e = .ok ⟨b, fun i =>
        (s.delivery w.j).kept e i ++ (s.network.blocks w.j).passes i e⟩ := by
      rw [Delivery.next, show (s.delivery w.j).block = s.network.blocks w.j
        from rfl, hchange]
      rfl
    have hpops := Delivery.popsServed_next hs.pops hlive hserved hnext
    have hinput : w.p < b.numInputs := by
      cases e with
      | topology env n k sender =>
          have hnum : b.numInputs = n :=
            congrArg Prod.fst (topology_numPorts hchange)
          exact hnum ▸ hports
      | actor event =>
          have hnum : b.numInputs = (s.network.blocks w.j).numInputs :=
            congrArg Prod.fst (next_numPorts hchange)
          exact hnum ▸ hs.input
    have hkept : (s.delivery w.j).kept e w.p = s.history w.j w.p := by
      cases e with
      | topology env n k sender => exact if_pos hs.input
      | actor event => rfl
    refine ⟨?_, ?_, ?_, ?_, ?_⟩
    · simp only [Function.update_self]
      exact hinput
    · simp only [delivery, Function.update_self]
      exact hpops
    · simp only [Function.update_of_ne hw.apart]
      exact hs.ahead
    · simp only [Function.update_self]
      exact hprepares
    · simp only [Function.update_self, Function.update_of_ne hw.apart, hkept]
      rw [FifoEvent.arrived_append, arrived_passes hlive, List.append_assoc,
        ← msgsOf_append, hmail]
      exact hs.arrived
  · have hj' := Ne.symm hj
    obtain ⟨out, hout⟩ := change_sends hchange
    have hblocks : (Function.update s.network.blocks k b w.i).sent.take
        (s.network.delivered w.i) =
          (s.network.blocks w.i).sent.take (s.network.delivered w.i) ∧
        s.network.delivered w.i ≤
          (Function.update s.network.blocks k b w.i).sent.length := by
      by_cases hi : k = w.i
      · -- The upstream: what it sends comes after what has been delivered.
        subst hi
        rw [Function.update_self, ← hout,
          List.take_append_of_le_length hs.ahead, List.length_append]
        exact ⟨rfl, Nat.le_trans hs.ahead (Nat.le_add_right _ _)⟩
      · rw [Function.update_of_ne (Ne.symm hi)]
        exact ⟨rfl, hs.ahead⟩
    refine ⟨?_, ?_, hblocks.2, ?_, ?_⟩
    · simp only [Function.update_of_ne hj']
      exact hs.input
    · simp only [delivery, Function.update_of_ne hj']
      exact hs.pops
    · simp only [Function.update_of_ne hj']
      exact hs.prepares
    · simp only [Function.update_of_ne hj', hblocks.1]
      exact hs.arrived

/-- **In every run.** -/
theorem served_of_reachable (hw : w.Routed route)
    (hs : ((system w route).restrict (Serves w)).Reachable s) : s.Served w :=
  TransitionSystem.Reachable.invariant
    (T := (system w route).restrict (Serves w)) (fun _ h => Fresh.served h)
    (fun _ e _ _ hs h => by
      cases e with
      | block k e => exact hs.block hw h.1 h.2
      | deliver k => exact hs.deliver hw h.2) hs

/-- **Every posted message is delivered once and in order**: what the user code
of the downstream has popped, what is stored in the input, in its mailbox and on
its way are the messages that the upstream has posted, and a pop finds nothing
only when everything that was received is popped. -/
theorem msgs_exactly_once (hw : w.Routed route)
    (hs : ((system w route).restrict (Serves w)).Reachable s)
    (hlive : (s.network.blocks w.j).blockState ≠ .done) :
    FifoEvent.InOrder (s.history w.j w.p) ∧
      FifoEvent.taken (s.history w.j w.p) ++
          (s.network.blocks w.j).inputMsgs w.p ++
          msgsOf (mailOn w.p (s.network.blocks w.j).mailbox) ++
          msgsOf (sentOn w.o
            ((s.network.blocks w.i).sent.drop (s.network.delivered w.i))) =
        msgsOf (sentOn w.o (s.network.blocks w.i).sent) := by
  have hserved := served_of_reachable hw hs
  obtain ⟨q, hserves, hq⟩ := hserved.pops w.p hserved.input
  have hstored : q = (s.network.blocks w.j).inputMsgs w.p :=
    hq _ (awaiting_erased hlive)
  have hbalance := hserves.balance
  rw [List.nil_append, hstored] at hbalance
  refine ⟨hserves.inOrder, ?_⟩
  show FifoEvent.taken ((s.delivery w.j).history w.p) ++ _ ++ _ ++ _ = _
  rw [← hbalance, show (s.delivery w.j).history w.p = s.history w.j w.p
    from rfl, hserved.arrived, ← msgsOf_append, ← sentOn_append,
    List.take_append_drop]

/-! ### Two sinks of one source -/

/-- An event that is simple to check: only the work of the downstream pops. -/
def plainly (w : Wire) (s : Traffic) : NetworkEvent → Bool
  | .block k e => k != w.j ||
      (s.delivery w.j).servesPlainly e &&
        streamsPlainly w.p w.size (s.network.blocks w.j) e
  | .deliver _ => true

theorem serves_of_plainly (h : s.plainly w e = true) : s.Serves w e := by
  cases e with
  | deliver k => trivial
  | block k e =>
      intro hj
      simp only [plainly, Bool.or_eq_true, bne_iff_ne, Bool.and_eq_true] at h
      obtain ⟨hserves, hstreams⟩ := h.resolve_left fun hne => hne hj
      obtain ⟨hlive, hserved⟩ := Delivery.served_of_plainly hserves
      refine ⟨hlive, hserved, (streams_of_plainly hstreams).2, ?_⟩
      cases e with
      | topology env n k sender => cases hserves
      | actor event => trivial

end Runs

/-- Start a source and two sinks, and perform events that are simple to check
for the wire to the first sink. -/
def runFork (es : List NetworkEvent) : Option Traffic :=
  Counting.source.toOption.bind fun source =>
      Tagging.sink.toOption.bind fun sink =>
    if 0 < sink.numInputs then
      TransitionSystem.runRestricted
        (fun s e => plainly ⟨0, 0, 1, 0, 1⟩ s e = true)
        (next (connect fork)) es
        ⟨⟨fun k => if k = 0 then source else sink, fun _ => 0, fun _ _ => []⟩,
          fun _ _ => []⟩
    else none

theorem reachable_of_runFork {es : List NetworkEvent} {s : Traffic}
    (h : runFork es = some s) :
    ((system ⟨0, 0, 1, 0, 1⟩ (connect fork)).restrict
      (Serves ⟨0, 0, 1, 0, 1⟩)).Reachable s := by
  obtain ⟨source, hup, h⟩ := Option.bind_eq_some_iff.mp h
  obtain ⟨sink, hdown, h⟩ := Option.bind_eq_some_iff.mp h
  split at h
  · rename_i hports
    refine .of_stronger_events (fun _ _ => serves_of_plainly) es (.init ?_) h
    refine ⟨fun k => ?_, fun _ => rfl, fun _ _ => rfl, hports⟩
    show (if k = 0 then source else sink).Started
    split
    · exact Counting.source_started (Checked.toOption_eq_some.mp hup)
    · exact Tagging.sink_started (Checked.toOption_eq_some.mp hdown)
  · cases h

/-- The source posts three messages, of which two arrive; the first sink pops
one of them. -/
def postsMsgs : List NetworkEvent :=
  (Counting.produces [.postOutputMsg 0 7, .postOutputMsg 0 8,
    .postOutputMsg 0 9]).map (.block 0) ++
    [NetworkEvent.block 1 (.actor (.thread (.post (.top .active false none)))),
      .block 1 (.actor (.handle {})),
      .block 1 (.actor (.handle {})),
      .deliver 0,
      .deliver 0,
      .block 1 (.actor (.handle { work := [.popInputMsg 0] }))]

/-- Whether the first sink is not done, and where the messages are. -/
def places (s : Traffic) : Bool × List Pmc × List Pmc × List Pmc × List Pmc :=
  (decide ((s.network.blocks 1).blockState ≠ .done),
    FifoEvent.taken (s.history 1 0), (s.network.blocks 1).inputMsgs 0,
    msgsOf (mailOn 0 (s.network.blocks 1).mailbox),
    msgsOf (sentOn 0 ((s.network.blocks 0).sent.drop (s.network.delivered 0))))

end Traffic

/-- One message is popped, one is in the mailbox and one on its way. -/
theorem msgs_exactly_once_fork :
    ∃ s, Traffic.runFork Traffic.postsMsgs = some s ∧
      FifoEvent.taken (s.history 1 0) = [7] ∧
      msgsOf (sentOn 0 (s.network.blocks 0).sent) = [7, 8, 9] := by
  have hrun : (Traffic.runFork Traffic.postsMsgs).map Traffic.places =
      some (true, [7], [], [8], [9]) := by decide
  obtain ⟨s, hs, hplaces⟩ := Option.map_eq_some_iff.mp hrun
  simp only [Traffic.places, Prod.mk.injEq, decide_eq_true_eq] at hplaces
  obtain ⟨hlive, htaken, hstored, hmail, hsent⟩ := hplaces
  have hall :=
    (Traffic.msgs_exactly_once Network.fork_routed
      (Traffic.reachable_of_runFork hs)
    hlive).2
  simp only [htaken, hstored, hmail, hsent] at hall
  exact ⟨s, hs, htaken, hall.symm⟩

end Gras
