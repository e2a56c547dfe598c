import Gras.Actor.Additions
import Gras.Actor.TagPassingRuns
import Gras.Actor.TopTokenRuns

/-!
# What the top block broadcasts

`bcast_prio_msg` sends a message to every block of the topology and waits until
it has got as many replies as there are blocks.  The receiver of the replies is
a new one each time, so that a reply to somebody else does not count.

`Broadcasts` records what has been broadcast and what each block has handled.
Each block handles each message that is broadcast to it once, and in order, and
nobody handles a message before everybody has handled those that were broadcast
earlier.
-/

namespace Gras

/-- Who is to be told that the message has been handled. -/
def Message.asker : Message → Option Address
  | .top _ _ sender => sender
  | _ => none

/-- The message is to be acknowledged at an address from `base` on. -/
def Message.asksFrom (base : Address) (m : Message) : Bool :=
  m.asker.any fun a => decide (base ≤ a)

/-- A call of `bcast_prio_msg`. -/
structure Issue where
  message : TopMessage
  workers : Workers
  receiver : Address

/-- What is sent to the blocks. -/
def Issue.asks (x : Issue) : Message := .top x.message true (some x.receiver)

/-- A topology and what has happened in it. -/
structure Broadcasts where
  topology : Topology
  /-- The receivers of the top block have the addresses from here on. -/
  base : Address
  /-- What has been broadcast. -/
  issued : List Issue
  /-- What each block has handled. -/
  handled : Nat → List Message

namespace Broadcasts

open BlockActor

/-- What is broadcast in an event. -/
def issuedIn (s s' : Topology) : List Issue :=
  if s'.receiver = s.receiver then []
  else [⟨s'.current, s'.workers, s'.receiver⟩]

/-- What a block handles in an event. -/
def handledIn (s : Topology) (j : Nat) : TopologyEvent → List Message
  | .block i event => if j = i then (s.blocks i).handles event else []
  | _ => []

/-- One event; `token` is the token of the top block. -/
def next (token : Token) (s : Broadcasts) (e : TopologyEvent) :
    Checked Broadcasts := do
  let topology ← s.topology.next token e
  return { s with
    topology
    issued := s.issued ++ issuedIn s.topology topology
    handled := fun j => s.handled j ++ handledIn s.topology j e }

/-- The topology was never started, and the top block has no receiver yet. -/
def Fresh (s : Broadcasts) : Prop :=
  s.topology.Fresh ∧ s.base = s.topology.receiver ∧ s.issued = [] ∧ ∀ i,
    s.handled i = []

/-- The runs. -/
def system (token : Token) : TransitionSystem Broadcasts TopologyEvent :=
  .ofNext Fresh (next token)

/-- **Nobody else gives the address of a receiver of the top block.** -/
def AsksElsewhere (s : Broadcasts) : TopologyEvent → Prop
  | .block _ (.topology _ _ _ sender) => ∀ a ∈ sender, a < s.base
  | .block _ event => BringsOnly (fun m => m.asksFrom s.base = false) event
  | _ => True

/-- The messages of the top block. -/
def topPart (base : Address) (l : List Message) : List Message :=
  l.filter (·.asksFrom base)

/-- What a block has handled of what was broadcast. -/
def handledTop (s : Broadcasts) (i : Nat) : List Message :=
  topPart s.base (s.handled i)

/-- What was broadcast to a block. -/
def issuedTo (s : Broadcasts) (i : Nat) : List Message :=
  (s.issued.filter (i ∈ ·.workers.1)).map Issue.asks

/-- What the top block sends at the moment. -/
def currentMessage (s : Topology) : Message :=
  .top s.current true (some s.receiver)

/-- What the block has not handled: it is in its mailbox, or has not been
sent. -/
def waiting (base : Address) (s : Topology) (i : Nat) : List Message :=
  topPart base (s.blocks i).mailbox ++ if i ∈
    s.unsent.1 then [currentMessage s] else []

/-- **The invariant.** -/
structure Waits (s : Broadcasts) : Prop where
  receiver : s.base ≤ s.topology.receiver
  prepares : ∀ i, (s.topology.blocks i).Prepares fun m =>
    m.asksFrom s.base = false
  accounted : ∀ i, s.handledTop i ++ waiting s.base s.topology i = s.issuedTo i
  pending : ∀ i, waiting s.base s.topology i = [] ∨
    waiting s.base s.topology i = [currentMessage s.topology] ∧
    i ∈ s.topology.workers.1
  outstanding : s.topology.outstanding =
    s.topology.workers.1.countP fun i => !(waiting s.base s.topology i).isEmpty
  issued : ∀ x ∈ s.issued, x.receiver ≤ s.topology.receiver

/-! ## The acknowledgements of one block -/

section Block

variable {b b' : BlockActor} {e : BlockEvent} {base r : Address}

theorem topPart_append (base : Address) (l l' : List Message) :
    topPart base (l ++ l') = topPart base l ++ topPart base l' :=
  List.filter_append ..

theorem topPart_eq_nil {l : List Message}
    (h : ∀ m ∈ l, m.asksFrom base = false) :
    topPart base l = [] :=
  List.filter_eq_nil_iff.mpr fun m hm => by simp [h m hm]

theorem ownIn_elsewhere (base : Address) :
    OwnIn fun m => m.asksFrom base = false :=
  ⟨rfl, fun _ _ => rfl⟩

/-- Replies are notable. -/
theorem replies_notable (r : Address) (out : List Outgoing) :
    Topology.replies r (notable out) = Topology.replies r out := by
  unfold Topology.replies notable
  rw [List.countP_filter]
  refine List.countP_congr fun m _ => ?_
  cases m <;> simp [Outgoing.notable]

theorem replies_acknowledgement (r : Address) (sender : Option Address) :
    Topology.replies r (acknowledgement sender) = if sender = some r then 1
      else 0 := by
  cases sender with
  | none => rfl
  | some a => simp [Topology.replies, acknowledgement, List.countP_singleton]

/-- Hints are no replies. -/
theorem replies_hints (r : Address) (env : Env) (b : BlockActor)
    (l : List Nat) : Topology.replies r (l.map (b.hintOf env)) = 0 := by
  unfold Topology.replies
  rw [List.countP_eq_zero]
  intro m hm
  obtain ⟨i, -, rfl⟩ := List.mem_map.mp hm
  exact Bool.false_ne_true

/-- A message is acknowledged when it asks for it. -/
theorem replies_answers (r : Address) (env : Env) (b : BlockActor)
    (m : Message) :
    Topology.replies r (b.answers env m) = if m.asker = some r then 1
      else 0 := by
  cases m with
  | top message prio sender =>
      cases message with
      | token t =>
          show Topology.replies r (_ ++ acknowledgement sender) = _
          rw [Topology.replies, List.countP_append]
          exact (congrArg₂ (· + ·) (replies_hints r env b _)
            (replies_acknowledgement r sender)).trans (Nat.zero_add _)
      | _ => exact replies_acknowledgement r sender
  | _ => rfl

/-- **An event** leaves in the mailbox what it does not handle, and acknowledges
the message that it handles. -/
theorem change_replies (hr : base ≤ r)
    (he : BringsOnly (fun m => m.asksFrom base = false) e)
    (hsender : ∀ env n k sender, e = .topology env n k sender →
      ∀ a ∈ sender, a < base)
    (hb : b.Prepares fun m => m.asksFrom base = false)
    (h : b.change e = .ok b') :
    b'.Prepares (fun m => m.asksFrom base = false) ∧
      topPart base (b.handles e) ++ topPart base b'.mailbox =
        topPart base b.mailbox ∧
      Topology.replies r (b'.sent.drop b.sent.length) =
        (topPart base (b.handles e)).countP fun m => m.asker = some r := by
  obtain ⟨hprepares, ⟨rest, new, hmail, hmail', hnew⟩, out, hsent, hanswers⟩ :=
    change_adds (ownIn_elsewhere base) he hb h
  refine ⟨hprepares, ?_, ?_⟩
  · rw [hmail', topPart_append, topPart_eq_nil hnew, List.append_nil,
      ← topPart_append, ← hmail]
  · have hasks : ∀ m : Message, m.asker = some r → m.asksFrom base = true := by
      intro m hm
      simpa [Message.asksFrom, hm] using hr
    have hcount :
        (topPart base (b.handles e)).countP (fun m => m.asker = some r) =
        (b.handles e).countP fun m => m.asker = some r := by
      unfold topPart
      rw [List.countP_filter]
      refine List.countP_congr fun m _ => ?_
      simpa using hasks m
    rw [hcount, hsent, List.drop_left, ← replies_notable, hanswers]
    cases e with
    | topology env n k sender =>
        have hne : sender ≠ some r := by
          intro hcase
          exact Nat.not_lt.mpr hr
            (hsender env n k sender rfl r (by simp [hcase]))
        exact (replies_acknowledgement r sender).trans (if_neg hne)
    | actor event =>
        cases event with
        | thread event => rfl
        | handle env =>
            cases hbox : b.mailbox with
            | nil => simp [answersIn, handles, hbox, Topology.replies]
            | cons m rest =>
                simp [answersIn, handles, hbox, replies_answers,
                  List.countP_singleton]

end Block

/-! ## The invariant of the topology -/

section Runs

variable {token : Token} {s s' : Broadcasts} {e : TopologyEvent}

/-- One fewer of the list is counted. -/
theorem countP_of_one {l : List Nat} (hl : l.Nodup) {p q : Nat → Bool} {i : Nat}
    (hi : i ∈ l) (hp : p i = true) (hq : q i = false)
    (hother : ∀ j, j ≠ i → q j = p j) : l.countP p = l.countP q + 1 := by
  have hperm := List.perm_cons_erase hi
  have hrest : (l.erase i).countP p = (l.erase i).countP q := by
    refine List.countP_congr fun j hj => ?_
    rw [hother j ((hl.mem_erase_iff.mp hj).1)]
  rw [hperm.countP_eq, hperm.countP_eq q, List.countP_cons_of_pos hp,
    List.countP_cons_of_neg (by simp [hq]), hrest]

theorem waits_init (h : s.Fresh) : s.Waits := by
  obtain ⟨⟨hstarted, -, hunsent, houtstanding, -⟩, hbase, hissued,
      hhandled⟩ := h
  have hwaiting (i : Nat) : waiting s.base s.topology i = [] := by
    rw [waiting, hunsent, if_neg List.not_mem_nil, List.append_nil]
    exact topPart_eq_nil (hstarted i).adds.2
  refine ⟨hbase.le, fun i => (hstarted i).adds.1, fun i => ?_,
    fun i => .inl (hwaiting i), ?_, ?_⟩
  · rw [hwaiting, handledTop, hhandled, issuedTo, hissued]
    rfl
  · simp [houtstanding, hwaiting]
  · simp [hissued]

/-- When no reply is outstanding, no block has anything to handle. -/
theorem Waits.nothing (hs : s.Waits) (houtstanding : s.topology.outstanding = 0)
    (i : Nat) : waiting s.base s.topology i = [] := by
  refine (hs.pending i).resolve_right fun ⟨hwaiting, hi⟩ => ?_
  have hcount := hs.outstanding
  rw [houtstanding, eq_comm, List.countP_eq_zero] at hcount
  exact hcount i hi (by simp [hwaiting])

/-- Nothing is broadcast and nothing is handled. -/
theorem Waits.keep (hs : s.Waits) {topology : Topology}
    (hreceiver : topology.receiver = s.topology.receiver)
    (hprepares : ∀ i, (topology.blocks i).Prepares fun m => m.asksFrom s.base =
      false)
    (hwaiting : ∀ i, waiting s.base topology i = waiting s.base s.topology i)
    (hpending : ∀ i, waiting s.base topology i = [] ∨
      waiting s.base topology i = [currentMessage topology] ∧
      i ∈ topology.workers.1)
    (houtstanding : topology.outstanding =
      topology.workers.1.countP fun i =>
        !(waiting s.base s.topology i).isEmpty) :
    Waits { s with topology } := by
  refine ⟨hreceiver ▸ hs.receiver, hprepares, fun i => ?_, hpending, ?_, ?_⟩
  · exact hwaiting i ▸ hs.accounted i
  · simpa only [hwaiting] using houtstanding
  · exact hreceiver ▸ hs.issued

/-- **The next message** is broadcast: everybody has handled the messages before
it. -/
theorem Waits.broadcast (hs : s.Waits) {t : Topology}
    (hunsent : s.topology.unsent.1 = [])
    (houtstanding : s.topology.outstanding = 0)
    (hblocks : t.blocks = s.topology.blocks) (hall : t.unsent = t.workers)
    (hreceiver : t.receiver = s.topology.receiver + 1)
    (hcount : t.outstanding = t.workers.1.length) :
    Waits { s with
      topology := t
      issued := s.issued ++ [⟨t.current, t.workers, t.receiver⟩] } := by
  have hmail (i : Nat) : topPart s.base (s.topology.blocks i).mailbox = [] := by
    have hi := hs.nothing houtstanding i
    rwa [waiting, hunsent, if_neg List.not_mem_nil, List.append_nil] at hi
  have hhandled (i : Nat) : s.handledTop i = s.issuedTo i := by
    rw [← hs.accounted i, hs.nothing houtstanding i, List.append_nil]
  have hwaiting (i : Nat) :
      waiting s.base t i = if i ∈ t.workers.1 then [currentMessage t]
        else [] := by
    rw [waiting, hblocks, hmail, List.nil_append, hall]
  refine ⟨?_, ?_, fun i => ?_, fun i => ?_, ?_, fun x hx => ?_⟩
  · exact hreceiver ▸ hs.receiver.trans (Nat.le_succ _)
  · exact hblocks ▸ hs.prepares
  · show s.handledTop i ++ waiting s.base t i = ((s.issued ++ _).filter _).map _
    rw [hwaiting, hhandled, List.filter_append, List.map_append, ← issuedTo]
    by_cases hi : i ∈ t.workers.1 <;> simp [hi, Issue.asks, currentMessage]
  · rw [hwaiting]
    by_cases hi : i ∈ t.workers.1
    · rw [if_pos hi]
      exact .inr ⟨rfl, hi⟩
    · rw [if_neg hi]
      exact .inl rfl
  · refine hcount.trans (List.countP_eq_length.mpr fun i hi => ?_).symm
    rw [hwaiting, if_pos hi]
    rfl
  · rcases List.mem_append.mp hx with hx | hx
    · exact (hs.issued x hx).trans (hreceiver ▸ Nat.le_succ _)
    · rw [List.mem_singleton] at hx
      subst hx
      exact le_rfl

/-- **The current message** is sent to one more block: there it waits as
before. -/
theorem Waits.send (hs : s.Waits) {t : Topology} {i : Nat} {rest : List Nat}
    {hnodup : (i :: rest).Nodup}
    (hunsent : s.topology.unsent = ⟨i :: rest, hnodup⟩)
    (ht : t = { s.topology with
      blocks := Function.update s.topology.blocks i
        (Topology.sendTop (currentMessage s.topology) (s.topology.blocks i))
      unsent := ⟨rest, hnodup.of_cons⟩ }) :
    Waits { s with topology := t } := by
  have hasks : (currentMessage s.topology).asksFrom s.base = true := by
    simpa [currentMessage, Message.asksFrom, Message.asker] using hs.receiver
  have hcurrent : currentMessage t = currentMessage s.topology := by
    rw [ht]; rfl
  have hwaiting (j : Nat) : waiting s.base t j =
      waiting s.base s.topology j := by
    rw [waiting, waiting, hcurrent, ht]
    by_cases hj : j = i
    · subst hj
      have hnot : j ∉ rest := hnodup.notMem
      simp only [Function.update_self, hunsent, List.mem_cons_self, if_true,
        if_neg hnot, List.append_nil]
      show topPart s.base
          ((s.topology.blocks j).mailbox ++ [currentMessage s.topology]) = _
      rw [topPart_append]
      exact congrArg _ (List.filter_eq_self.mpr (by simpa using hasks))
    · have hmem : j ∈ i :: rest ↔ j ∈ rest := by simp [hj]
      simp only [Function.update_of_ne hj, hunsent, hmem]
  refine hs.keep (by rw [ht]) (fun j => ?_) hwaiting (fun j => ?_) ?_
  · rw [ht]
    by_cases hj : j = i
    · subst hj
      simp only [Function.update_self]
      intro m hm
      rw [show (Topology.sendTop (currentMessage s.topology)
        (s.topology.blocks j)).holders =
        (s.topology.blocks j).holders.keepCopy (currentMessage s.topology)
        from rfl, TokenHolders.keepCopy_prepared] at hm
      exact hs.prepares j m hm
    · simpa only [Function.update_of_ne hj] using hs.prepares j
  · rw [hwaiting, hcurrent, ht]
    exact hs.pending j
  · rw [ht]
    exact hs.outstanding

/-- **A block handles a message**: when it comes from the top block, there is a
reply to it. -/
theorem Waits.block (hs : s.Waits) {i : Nat} {event : BlockEvent}
    {b : BlockActor} {t : Topology} (he : s.AsksElsewhere (.block i event))
    (h : (s.topology.blocks i).change event = .ok b)
    (ht : t = { s.topology with
      blocks := Function.update s.topology.blocks i b
      outstanding := s.topology.outstanding -
        Topology.replies s.topology.receiver
          (b.sent.drop (s.topology.blocks i).sent.length)
      given := t.given }) :
    Waits { s with
      topology := t
      handled := fun j =>
        s.handled j ++ handledIn s.topology j (.block i event) } := by
  have hbrings : BringsOnly (fun m => m.asksFrom s.base = false) event := by
    cases event with
    | topology env n k sender => trivial
    | actor event => exact he
  have hsender : ∀ env n k sender, event = .topology env n k sender →
      ∀ a ∈ sender, a < s.base := by
    rintro env n k sender rfl
    exact he
  obtain ⟨hprepares, hmail, hreplies⟩ :=
    change_replies hs.receiver hbrings hsender (hs.prepares i) h
  have hcurrent : currentMessage t = currentMessage s.topology := by
    rw [ht]; rfl
  have hreceiver : t.receiver = s.topology.receiver := by rw [ht]
  have hworkers : t.workers = s.topology.workers := by rw [ht]
  have hself : waiting s.base t i = topPart s.base b.mailbox ++
      if i ∈ s.topology.unsent.1 then [currentMessage s.topology] else [] := by
    rw [waiting, hcurrent, ht]
    simp only [Function.update_self]
  have hother (j : Nat) (hj : j ≠ i) : waiting s.base t j =
      waiting s.base s.topology j := by
    rw [waiting, hcurrent, ht]
    simp only [Function.update_of_ne hj]
    rfl
  have hhandled : topPart s.base ((s.topology.blocks i).handles event) ++
      waiting s.base t i =
      waiting s.base s.topology i := by
    rw [hself, ← List.append_assoc, hmail]
    rfl
  have htop (j : Nat) :
      topPart s.base (s.handled j ++ handledIn s.topology j (.block i event)) ++
      waiting s.base t j = s.issuedTo j := by
    rw [topPart_append, List.append_assoc, ← hs.accounted j]
    congr 1
    by_cases hj : j = i
    · subst hj
      rw [handledIn, if_pos rfl, hhandled]
    · rw [handledIn, if_neg hj, hother j hj]
      rfl
  have houtstanding : t.outstanding = s.topology.outstanding -
      (topPart s.base ((s.topology.blocks i).handles event)).countP
        fun m => m.asker = some s.topology.receiver := by
    rw [ht, ← hreplies]
  have hblocks (j : Nat) : (t.blocks j).Prepares fun m =>
      m.asksFrom s.base = false := by
    rw [ht]
    by_cases hj : j = i
    · subst hj
      simpa only [Function.update_self] using hprepares
    · simpa only [Function.update_of_ne hj] using hs.prepares j
  -- It has handled something else, or the message that is waiting.
  obtain ⟨hnone, hsame⟩ | ⟨hone, hleft, hwas, hi⟩ :
      topPart s.base ((s.topology.blocks i).handles event) = [] ∧
        waiting s.base t i = waiting s.base s.topology i ∨
      topPart s.base ((s.topology.blocks i).handles event) =
          [currentMessage s.topology] ∧
        waiting s.base t i = [] ∧ waiting s.base s.topology i =
          [currentMessage s.topology] ∧
        i ∈ s.topology.workers.1 := by
    rcases hs.pending i with hpending | ⟨hpending, hi⟩
    · rw [hpending, List.append_eq_nil_iff] at hhandled
      exact .inl ⟨hhandled.1, hhandled.2.trans hpending.symm⟩
    · rw [hpending, List.append_eq_singleton_iff] at hhandled
      rcases hhandled with ⟨hnone, hleft⟩ | ⟨hone, hleft⟩
      · exact .inl ⟨hnone, hleft.trans hpending.symm⟩
      · exact .inr ⟨hone, hleft, hpending, hi⟩
  · have hall (j : Nat) : waiting s.base t j = waiting s.base s.topology j := by
      by_cases hj : j = i
      · exact hj ▸ hsame
      · exact hother j hj
    refine ⟨hreceiver ▸ hs.receiver, hblocks, htop, fun j => ?_, ?_,
      hreceiver ▸ hs.issued⟩
    · show waiting s.base t j = [] ∨ waiting s.base t j = [currentMessage t] ∧
          j ∈ t.workers.1
      rw [hall, hcurrent, hworkers]
      exact hs.pending j
    · show t.outstanding = t.workers.1.countP fun j =>
          !(waiting s.base t j).isEmpty
      simp only [hall, hworkers, houtstanding, hnone, List.countP_nil,
        Nat.sub_zero]
      exact hs.outstanding
  · refine ⟨hreceiver ▸ hs.receiver, hblocks, htop, fun j => ?_, ?_,
      hreceiver ▸ hs.issued⟩
    · show waiting s.base t j = [] ∨ waiting s.base t j = [currentMessage t] ∧
          j ∈ t.workers.1
      by_cases hj : j = i
      · exact .inl (hj ▸ hleft)
      · rw [hother j hj, hcurrent, hworkers]
        exact hs.pending j
    · show t.outstanding = t.workers.1.countP fun j =>
          !(waiting s.base t j).isEmpty
      have hcount :=
        countP_of_one (p := fun j => !(waiting s.base s.topology j).isEmpty)
        (q := fun j => !(waiting s.base t j).isEmpty) s.topology.workers.2 hi
          (by simp [hwas])
        (by simp [hleft]) fun j hj => by rw [hother j hj]
      rw [houtstanding, hs.outstanding, hworkers, hcount, hone]
      simp [currentMessage, Message.asker]

/-- **Every event** keeps the invariant. -/
theorem waits_next (hs : s.Waits) (he : s.AsksElsewhere e)
    (h : s.next token e = .ok s') : s'.Waits := by
  simp only [next, Checked.bind_eq_ok, Checked.pure_eq_ok] at h
  obtain ⟨t, h, rfl⟩ := h
  -- Unless it is broadcast, nothing is issued.
  have hquiet (ht : t.receiver = s.topology.receiver) : issuedIn s.topology t =
      [] := if_pos ht
  cases e with
  | start workers config =>
      simp only [Topology.next] at h
      split at h
      · rename_i hidle
        rw [Checked.pure_eq_ok] at h
        subst h
        simp only [hquiet, handledIn, List.append_nil]
        refine hs.keep rfl hs.prepares (fun i => rfl)
          (fun i => .inl (hs.nothing hidle.2.2 i)) ?_
        simp [hidle.2.2, hs.nothing hidle.2.2]
      · rw [Checked.pure_eq_ok] at h
        subst h
        simpa only [hquiet, handledIn, List.append_nil] using hs
  | broadcast =>
      simp only [Topology.next] at h
      split at h
      · rw [Checked.pure_eq_ok] at h
        subst h
        simpa only [hquiet, handledIn, List.append_nil] using hs
      · split at h
        · rename_i m plan hplan hidle
          rw [Checked.pure_eq_ok] at h
          have hreceiver : t.receiver = s.topology.receiver + 1 := by rw [← h]
          have hissued : issuedIn s.topology t =
              [⟨t.current, t.workers, t.receiver⟩] :=
            if_neg (hreceiver ▸ Nat.succ_ne_self _)
          simp only [hissued, handledIn, List.append_nil]
          refine hs.broadcast hidle.1 hidle.2 ?_ ?_ hreceiver ?_ <;> rw [← h]
        · rw [Checked.pure_eq_ok] at h
          subst h
          simpa only [hquiet, handledIn, List.append_nil] using hs
  | send =>
      simp only [Topology.next] at h
      split at h
      · rw [Checked.pure_eq_ok] at h
        subst h
        simpa only [hquiet, handledIn, List.append_nil] using hs
      · rename_i i rest hnodup hunsent
        rw [Checked.pure_eq_ok] at h
        have hreceiver : t.receiver = s.topology.receiver := by rw [← h]
        simp only [hquiet hreceiver, handledIn, List.append_nil]
        exact hs.send hunsent h.symm
  | block i event =>
      simp only [Topology.next, Checked.bind_eq_ok, Checked.pure_eq_ok] at h
      obtain ⟨b, hchange, h⟩ := h
      have hreceiver : t.receiver = s.topology.receiver := by rw [← h]
      simp only [hquiet hreceiver, List.append_nil]
      refine hs.block he hchange ?_
      rw [← h]

/-- **What waits** is handled in an event or waits after it, when nothing is
broadcast. -/
theorem Waits.after (hs : s.Waits) (hs' : s'.Waits)
    (h : s.next token e = .ok s') (hissued : s'.issued = s.issued) (i : Nat) :
    topPart s.base (handledIn s.topology i e) ++ waiting s.base s'.topology i =
      waiting s.base s.topology i := by
  simp only [next, Checked.bind_eq_ok, Checked.pure_eq_ok] at h
  obtain ⟨t, -, rfl⟩ := h
  have hafter : topPart s.base (s.handled i ++ handledIn s.topology i e) ++
      waiting s.base t i =
      ((s.issued ++ issuedIn s.topology t).filter (i ∈ ·.workers.1)).map
      Issue.asks :=
    hs'.accounted i
  rw [show s.issued ++ issuedIn s.topology t = s.issued from hissued,
    topPart_append, List.append_assoc] at hafter
  exact List.append_cancel_left (hafter.trans (hs.accounted i).symm)

/-- **A broadcast is handled once by each of its blocks, in order, and before
the next one.**  What a block has handled of the broadcasts, together with what
waits in its mailbox or is still to be sent to it, is what was broadcast to it.
Only the newest message waits, and the replies that are outstanding are those
of the blocks for which it does: when the top block broadcasts a message, all
blocks have handled the messages before it. -/
theorem handled_in_turn
    (hs : ((system token).restrict AsksElsewhere).Reachable s) :
    (∀ i, s.handledTop i ++ waiting s.base s.topology i = s.issuedTo i) ∧
      (∀ i, waiting s.base s.topology i = [] ∨
        waiting s.base s.topology i = [currentMessage s.topology] ∧
          i ∈ s.topology.workers.1) ∧
      s.topology.outstanding =
        s.topology.workers.1.countP
          (fun i => !(waiting s.base s.topology i).isEmpty) ∧
      ∀ x ∈ s.issued, x.receiver < s.topology.receiver →
        ∀ i ∈ x.workers.1, x.asks ∈ s.handled i := by
  have hwaits : s.Waits :=
    TransitionSystem.Reachable.invariant
      (T := (system token).restrict AsksElsewhere) (fun _ h => waits_init h)
      (fun _ _ _ _ hs h => waits_next hs h.1 h.2) hs
  refine ⟨hwaits.accounted, hwaits.pending, hwaits.outstanding,
    fun x hx hlt i hi => ?_⟩
  have hissued : x.asks ∈ s.issuedTo i :=
    List.mem_map_of_mem (List.mem_filter.mpr ⟨hx, by simpa using hi⟩)
  rw [← hwaits.accounted i, List.mem_append] at hissued
  refine hissued.elim List.mem_of_mem_filter fun hwaiting => ?_
  -- What waits is the newest message.
  rcases hwaits.pending i with hnone | ⟨hone, -⟩
  · rw [hnone] at hwaiting
    cases hwaiting
  · rw [hone, List.mem_singleton] at hwaiting
    have hreceiver : some x.receiver = some s.topology.receiver :=
      congrArg Message.asker hwaiting
    exact absurd (Option.some.inj hreceiver) (Nat.ne_of_lt hlt)

end Runs

/-! ### Two sinks that are started -/

/-- Only the top block sends messages, and the user code does nothing. -/
def turnsPlainly : TopologyEvent → Bool
  | .block _ (.actor (.handle env)) =>
      env.work.isEmpty && env.propagateTags.isNone && env.called.isEmpty
  | .block _ _ => false
  | _ => true

theorem asksElsewhere_of_plainly {s : Broadcasts} {e : TopologyEvent}
    (h : turnsPlainly e = true) : s.AsksElsewhere e := by
  cases e with
  | block i event =>
      cases event with
      | topology env n k sender => cases h
      | actor event =>
          cases event with
          | thread event => cases h
          | handle env =>
              simp only [turnsPlainly, Bool.and_eq_true, List.isEmpty_iff,
                Option.isNone_iff_eq_none] at h
              obtain ⟨⟨hwork, htags⟩, hcalled⟩ := h
              refine ⟨fun c hc => ?_, fun c hc => ?_⟩
              · rcases hc with hc | ⟨overload, ho, -⟩
                · rw [hwork] at hc
                  cases hc
                · rw [htags] at ho
                  cases ho
              · rw [hcalled] at hc
                cases hc
  | _ => trivial

/-- Start with sinks and perform events of the top block. -/
def runTurns (es : List TopologyEvent) : Option Broadcasts :=
  Tagging.sink.toOption.bind fun b =>
    TransitionSystem.runRestricted
      (fun _ e => turnsPlainly e = true) (next 5) es
      { topology :=
          { blocks := fun _ => b
            workers := ⟨[], List.nodup_nil⟩
            plan := []
            current := .inert
            unsent := ⟨[], List.nodup_nil⟩
            receiver := 0
            outstanding := 0
            given := fun _ => false }
        base := 0
        issued := []
        handled := fun _ => [] }

theorem reachable_of_runTurns {es : List TopologyEvent} {s : Broadcasts}
    (h : runTurns es = some s) :
    ((system 5).restrict AsksElsewhere).Reachable s := by
  obtain ⟨b, hb, hrun⟩ := Option.bind_eq_some_iff.mp h
  have hsink : Tagging.sink = .ok b := Checked.toOption_eq_some.mp hb
  refine .of_stronger_events (fun _ _ => asksElsewhere_of_plainly) es
    (.init ?_) hrun
  exact ⟨⟨fun _ => Tagging.sink_started hsink, rfl, rfl, rfl, fun _ => rfl⟩,
    rfl, rfl, fun _ => rfl⟩

/-- A message is broadcast to both sinks and handled; the next one is handled by
one of them. -/
def turns : List TopologyEvent :=
  [.start ⟨[0, 1], by decide⟩ {}, .broadcast, .send, .send,
    .block 1 (.actor (.handle {})), .block 0 (.actor (.handle {})), .broadcast,
    .send, .block 0 (.actor (.handle {}))]

/-- How many replies are outstanding, and which broadcasts were handled. -/
def progress (s : Broadcasts) : Nat × Address × List Address × List Bool :=
  (s.topology.outstanding, s.topology.receiver, s.issued.map Issue.receiver,
    s.issued.map fun x => decide (x.workers.1 = [0, 1]))

end Broadcasts

/-- When the second message is handled by one sink, both have handled the
first. -/
theorem handled_in_turn_sinks :
    ∃ s, Broadcasts.runTurns Broadcasts.turns = some s ∧
      s.topology.outstanding = 1 ∧
      ∃ x ∈ s.issued, x.receiver = 1 ∧ s.topology.receiver = 2 ∧
        ∀ i ∈ [0, 1], x.asks ∈ s.handled i := by
  have hrun : (Broadcasts.runTurns Broadcasts.turns).map Broadcasts.progress =
      some (1, 2, [1, 2], [true, true]) := by decide
  obtain ⟨s, hs, hprogress⟩ := Option.map_eq_some_iff.mp hrun
  simp only [Broadcasts.progress, Prod.mk.injEq] at hprogress
  obtain ⟨houtstanding, hreceiver, hreceivers, hworkers⟩ := hprogress
  cases hissued : s.issued with
  | nil => simp [hissued] at hreceivers
  | cons x rest =>
      simp only [hissued, List.map_cons, List.cons.injEq, decide_eq_true_eq]
        at hreceivers hworkers
      have hhandled :=
        (Broadcasts.handled_in_turn
          (Broadcasts.reachable_of_runTurns hs)).2.2.2 x
        (by simp [hissued]) (by rw [hreceivers.1, hreceiver]; decide)
      rw [hworkers.1] at hhandled
      exact ⟨s, hs, houtstanding, x,
        by simp [hissued], hreceivers.1, hreceiver, hhandled⟩

end Gras
