import Gras.Actor.InputMail

/-!
# Many connected blocks

The blocks of a flow graph.  A handler sends its messages one after the other;
each arrives in the mailboxes of the blocks that the port is connected with,
some time later but in that order.  Which mailboxes these are is a parameter,
`route`: the worker of a block knows it.

Two blocks of a network with a connection between them live as the two blocks of
a `Link` (`simulates_link`), so what holds for every link in which the channel
keeps its law holds for every connection of a network, without an assumption on
the channel.

### Why a link is enough

What holds for a connection is proved in `Link`, of two blocks with a channel
between them that keeps its order.  In a network there are other blocks, other
connections, and a worker that sends to each of them in turn.  `simulates_link`
forgets all of this but one connection, and shows that what is left is a run of
a link; the law of the channel, an assumption there, is a theorem here.
-/

namespace Gras

/-- The blocks, how much of what each of them has sent has been delivered, and
for each output the tags that the block posted, each with the bytes sent
before. -/
structure Network where
  blocks : Nat → BlockActor
  delivered : Nat → Nat
  due : Nat → Nat → List (Nat × Tag)

/-- What happens in a network. -/
inductive NetworkEvent where
  | block (k : Nat) (e : BlockEvent)
  /-- The next message of the block arrives. -/
  | deliver (k : Nat)

/-- Where a message of a block goes. -/
abbrev Route := Nat → Outgoing → List (Nat × Message)

namespace Network

open BlockActor

/-- A message arrives in the mailbox of a block. -/
def arrive (blocks : Nat → BlockActor) (target : Nat × Message) :
    Nat → BlockActor :=
  Function.update blocks target.1
    ((blocks target.1).threadStep (.post target.2))

/-- One event. -/
def next (route : Route) (s : Network) : NetworkEvent → Checked Network
  | .block k e => do
      let b ← (s.blocks k).change e
      let sentBefore := fun o => streamBytes (sentOn o (s.blocks k).sent)
      return { s with
        blocks := Function.update s.blocks k b
        due := Function.update s.due k fun o =>
          s.due k o ++ ((s.blocks k).tagsPosted o e).map fun t =>
            (sentBefore o, t) }
  | .deliver k =>
      match (s.blocks k).sent[s.delivered k]? with
      | none => return s
      | some out =>
          return { s with
            blocks := (route k out).foldl arrive s.blocks
            delivered := Function.update s.delivered k (s.delivered k + 1) }

end Network

/-- A connection: output `o` of block `i` feeds input `p` of block `j`, whose
items have that size. -/
structure Wire where
  i : Nat
  o : Nat
  j : Nat
  p : Nat
  size : Nat

namespace Wire

open BlockActor

/-- What of a message arrives at the input of the wire. -/
def arrivals (w : Wire) (targets : List (Nat × Message)) : List InputMessage :=
  targets.flatMap fun t => if t.1 = w.j then messagesOn w.p t.2 else []

theorem arrivals_append (w : Wire) (l l' : List (Nat × Message)) :
    w.arrivals (l ++ l') = w.arrivals l ++ w.arrivals l' := List.flatMap_append

/-- **What the worker does for a connection**: at the input arrives what the
block sends on the output, and nothing else. -/
structure Routed (w : Wire) (route : Route) : Prop where
  apart : w.i ≠ w.j
  arrives : ∀ k out, w.arrivals (route k out) =
    if k = w.i then (out.downstreamOf w.o).toList else []

end Wire

namespace Network

open BlockActor

/-- The blocks have been started, and the input of the wire takes plain
items. -/
structure Fresh (w : Wire) (s : Network) : Prop where
  started : ∀ k, (s.blocks k).Started
  delivered : ∀ k, s.delivered k = 0
  due : ∀ k o, s.due k o = []
  input : w.p < (s.blocks w.j).numInputs
  plain : (s.blocks w.j).PlainInput w.p w.size

/-- The runs. -/
def system (w : Wire) (route : Route) : TransitionSystem Network NetworkEvent :=
  .ofNext (Fresh w) (next route)

/-- What is asked of the events: the downstream follows its stream, which nobody
but the upstream feeds. -/
def Plain (w : Wire) (s : Network) : NetworkEvent → Prop
  | .block k e => k = w.j → (s.blocks w.j).Streams w.p w.size e ∧ FeedsNot w.p e
  | .deliver _ =>
      w.p < (s.blocks w.j).numInputs ∧ (s.blocks w.j).PlainInput w.p w.size

/-- The same, and the events of the upstream meet a condition. -/
def PlainMeeting (E : BlockActor → BlockEvent → Prop) (w : Wire) (s : Network)
    (e : NetworkEvent) : Prop :=
  s.Plain w e ∧ ∀ e', e = .block w.i e' → E (s.blocks w.i) e'

section Post

variable {b : BlockActor} {m : Message} {p : Nat}

/-- What a message that arrives changes. -/
theorem post_mail : mailOn p (b.threadStep (.post m)).mailbox =
    mailOn p b.mailbox ++ messagesOn p m := by
  rw [threadStep]
  split
  · rename_i htoken
    have hnone : messagesOn p m = [] := by
      cases m with
      | input i message => cases htoken
      | _ => rfl
    rw [hnone, List.append_nil]
  · rw [sendSelf, mailOn_append]
    exact congrArg _ (List.append_nil _)

/-- And what it leaves alone. -/
theorem post_rest : (b.threadStep (.post m)).sent = b.sent ∧
    (b.threadStep (.post m)).holders = b.holders ∧
    (b.threadStep (.post m)).numInputs = b.numInputs ∧
    (b.threadStep (.post m)).inputConfigs = b.inputConfigs := by
  rw [threadStep]
  split <;> exact ⟨rfl, rfl, rfl, rfl⟩

end Post

/-! ## A wire of a network is a link -/

/-- A condition on the events of the upstream. -/
def LinkMeets (E : BlockActor → BlockEvent → Prop) (w : Wire) (t : Link)
    (e : LinkEvent) : Prop :=
  t.Delivers w.o w.p w.size e ∧
    match e with
    | .upstream e => E t.upstream e
    | .downstream _ => True

/-- The links in which the channel keeps its law. -/
def links (E : BlockActor → BlockEvent → Prop) (w : Wire) :
    TransitionSystem Link LinkEvent :=
  (Link.system w.o w.p w.size).restrict (LinkMeets E w)

/-- The two blocks of a wire, while messages arrive of which that much is
known. -/
structure Arriving (w : Wire) (blocks : Nat → BlockActor)
    (due : List (Nat × Tag)) (arrived : List InputMessage)
    (t : Link) : Prop where
  upstream : t.upstream = blocks w.i
  downstream : t.downstream = blocks w.j
  due : t.due = due
  arrived : flowOf (t.received ++ mailOn w.p (blocks w.j).mailbox) =
    flowOf arrived

/-- **What the link shows of the network.** -/
structure Shows (w : Wire) (s : Network) (t : Link) : Prop where
  ends : Arriving w s.blocks (s.due w.i w.o)
    (sentOn w.o ((s.blocks w.i).sent.take (s.delivered w.i))) t
  ahead : s.delivered w.i ≤ (s.blocks w.i).sent.length
  prepares : (s.blocks w.j).Prepares (NotFor w.p)

section Arriving

variable {w : Wire} {E : BlockActor → BlockEvent → Prop}
  {blocks : Nat → BlockActor}
  {due : List (Nat × Tag)} {arrived : List InputMessage} {t : Link}

theorem Arriving.inOrder (h : Arriving w blocks due arrived t)
    (hsent : flowOf arrived <+: flowOf (sentOn w.o (blocks w.i).sent)) :
    t.InOrder w.o w.p := by
  unfold Link.InOrder
  rwa [h.downstream, h.upstream, h.arrived]

/-- A message arrives somewhere. -/
theorem Arriving.post (hE : ∀ b m, E b (.actor (.thread (.post m))))
    (hapart : w.i ≠ w.j) (h : Arriving w blocks due arrived t)
    (target : Nat × Message)
    (hsent : flowOf (arrived ++ w.arrivals [target]) <+: flowOf
      (sentOn w.o (blocks w.i).sent))
    (hinput : w.p < (blocks w.j).numInputs)
    (hplain : (blocks w.j).PlainInput w.p w.size) :
    ∃ t', (links E w).Steps t t' ∧
      Arriving w (arrive blocks target) due
        (arrived ++ w.arrivals [target]) t' := by
  obtain ⟨k, m⟩ := target
  have hnone : k ≠ w.j → w.arrivals [(k, m)] = [] := fun hk => by
    simp [Wire.arrivals, hk]
  by_cases hj : k = w.j
  · -- At the downstream: a message of the input extends what has arrived there.
    subst hj
    have harrivals : w.arrivals [(w.j, m)] = messagesOn w.p m := by
      simp [Wire.arrivals]
    rw [harrivals] at hsent ⊢
    have hnew : Arriving w (arrive blocks (w.j, m)) due
        (arrived ++ messagesOn w.p m)
        { t with
          downstream := t.downstream.threadStep (.post m)
          received := t.received ++ [] } := by
      refine ⟨?_, ?_, h.due, ?_⟩
      · rw [arrive, Function.update_of_ne hapart]
        exact h.upstream
      · rw [arrive, Function.update_self, h.downstream]
      · rw [arrive, Function.update_self, post_mail, List.append_nil,
          ← List.append_assoc, flowOf_append, h.arrived, ← flowOf_append]
    refine ⟨_, .single ⟨.downstream (.actor (.thread (.post m))),
      ⟨⟨?_, ?_⟩, trivial⟩, ?_⟩, hnew⟩
    · intro t' ht'
      cases ht'
      refine hnew.inOrder ?_
      rwa [arrive, Function.update_of_ne hapart]
    · exact ⟨h.downstream ▸ hinput, h.downstream ▸ hplain, trivial⟩
    · rfl
  · rw [hnone hj, List.append_nil] at hsent ⊢
    by_cases hi : k = w.i
    · -- At the upstream: the link takes a step that does not matter to the channel.
      subst hi
      have hnew : Arriving w (arrive blocks (w.i, m)) due arrived
          { t with upstream := t.upstream.threadStep (.post m), due := t.due ++ [] } := by
        refine ⟨?_, ?_, ?_, ?_⟩
        · rw [arrive, Function.update_self, h.upstream]
        · rw [arrive, Function.update_of_ne hapart.symm]
          exact h.downstream
        · exact (List.append_nil _).trans h.due
        · rw [arrive, Function.update_of_ne hapart.symm]
          exact h.arrived
      refine ⟨_, .single
        ⟨.upstream (.actor (.thread (.post m))), ⟨⟨?_, trivial⟩, hE _ _⟩, ?_⟩,
        hnew⟩
      · intro t' ht'
        cases ht'
        refine hnew.inOrder ?_
        rwa [arrive, Function.update_self, post_rest.1]
      · rfl
    · refine ⟨t, .refl, ?_⟩
      refine ⟨?_, ?_, h.due, ?_⟩
      · rw [arrive, Function.update_of_ne (Ne.symm hi)]
        exact h.upstream
      · rw [arrive, Function.update_of_ne (Ne.symm hj)]
        exact h.downstream
      · rw [arrive, Function.update_of_ne (Ne.symm hj)]
        exact h.arrived

/-- A message that arrives leaves alone what a block has sent, the copies of its
token and the configuration of its inputs. -/
theorem arrive_rest (blocks : Nat → BlockActor) (target : Nat × Message)
    (k : Nat) :
    (arrive blocks target k).sent = (blocks k).sent ∧
      (arrive blocks target k).holders = (blocks k).holders ∧
      (arrive blocks target k).numInputs = (blocks k).numInputs ∧
      (arrive blocks target k).inputConfigs = (blocks k).inputConfigs := by
  unfold arrive
  by_cases hk : k = target.1
  · subst hk
    rw [Function.update_self]
    exact post_rest
  · rw [Function.update_of_ne hk]
    exact ⟨rfl, rfl, rfl, rfl⟩

/-- One message arrives everywhere it goes. -/
theorem Arriving.deliver (hE : ∀ b m, E b (.actor (.thread (.post m))))
    (hapart : w.i ≠ w.j) (h : Arriving w blocks due arrived t)
    (targets : List (Nat × Message))
    (hsent : flowOf (arrived ++ w.arrivals targets) <+: flowOf
      (sentOn w.o (blocks w.i).sent))
    (hinput : w.p < (blocks w.j).numInputs)
    (hplain : (blocks w.j).PlainInput w.p w.size) :
    ∃ t', (links E w).Steps t t' ∧
      Arriving w (targets.foldl arrive blocks) due
        (arrived ++ w.arrivals targets) t' := by
  induction targets generalizing blocks arrived t with
  | nil =>
      refine ⟨t, .refl, ?_⟩
      rw [show w.arrivals [] = [] from rfl, List.append_nil]
      exact h
  | cons target targets ih =>
      have hparts : w.arrivals (target :: targets) =
          w.arrivals [target] ++ w.arrivals targets :=
        w.arrivals_append [target] targets
      rw [hparts, ← List.append_assoc] at hsent ⊢
      obtain ⟨t₁, hsteps, h₁⟩ := h.post hE hapart target
        (.trans (by rw [flowOf_append _ (w.arrivals targets)]; exact List.prefix_append _ _) hsent)
        hinput hplain
      obtain ⟨hkept, -⟩ := arrive_rest blocks target w.i
      obtain ⟨-, -, hnum, hconfigs⟩ := arrive_rest blocks target w.j
      obtain ⟨t', hsteps', h'⟩ := ih h₁ (by rwa [hkept]) (by rwa [hnum])
        ⟨hconfigs ▸ hplain.itemSize, hconfigs ▸ hplain.noPreload⟩
      exact ⟨t', hsteps.trans hsteps', h'⟩

/-- The same for messages that arrive one after the other. -/
theorem foldl_arrive_rest (targets : List (Nat × Message))
    (blocks : Nat → BlockActor) (k : Nat) :
    (targets.foldl arrive blocks k).sent = (blocks k).sent ∧
      (targets.foldl arrive blocks k).holders = (blocks k).holders := by
  induction targets generalizing blocks with
  | nil => exact ⟨rfl, rfl⟩
  | cons target targets ih =>
      obtain ⟨hsent, hholders, -⟩ := arrive_rest blocks target k
      obtain ⟨hsent', hholders'⟩ := ih (arrive blocks target)
      exact ⟨hsent'.trans hsent, hholders'.trans hholders⟩

end Arriving

section Simulation

variable {w : Wire} {route : Route} {E : BlockActor → BlockEvent → Prop}
  {s s' : Network}
  {e : NetworkEvent} {t : Link}

/-- **An event of a block.** -/
theorem Shows.block {k : Nat} {e : BlockEvent} (hw : w.Routed route)
    (hs : Shows w s t) (hok : s.PlainMeeting E w (.block k e))
    (h : s.next route (.block k e) = .ok s') :
    ∃ t', (links E w).Steps t t' ∧ Shows w s' t' := by
  simp only [Network.next, Checked.bind_eq_ok, Checked.pure_eq_ok] at h
  obtain ⟨b, hchange, rfl⟩ := h
  obtain ⟨hplain, hmeets⟩ := hok
  obtain ⟨upstream, downstream, received, due⟩ := t
  obtain ⟨⟨hup, hdown, hdue, harrived⟩, hahead, hprepares⟩ := hs
  dsimp only at hup hdown hdue harrived
  subst hup hdown hdue
  obtain ⟨out, hout⟩ := change_sends hchange
  by_cases hi : k = w.i
  · -- The upstream: what it sends comes after what has been delivered.
    subst hi
    have htake : b.sent.take (s.delivered w.i) =
        (s.blocks w.i).sent.take (s.delivered w.i) := by
      rw [← hout, List.take_append_of_le_length hahead]
    have hends : Arriving w (Function.update s.blocks w.i b)
        (s.due w.i w.o ++ ((s.blocks w.i).tagsPosted w.o e).map
          fun t => (streamBytes (sentOn w.o (s.blocks w.i).sent), t))
        (sentOn w.o (b.sent.take (s.delivered w.i)))
        ⟨b, s.blocks w.j, received,
          s.due w.i w.o ++ ((s.blocks w.i).tagsPosted w.o e).map
          fun t => (streamBytes (sentOn w.o (s.blocks w.i).sent), t)⟩ := by
      refine ⟨?_, ?_, rfl, ?_⟩
      · rw [Function.update_self]
      · rw [Function.update_of_ne hw.apart.symm]
      · rw [Function.update_of_ne hw.apart.symm, htake]
        exact harrived
    have hnext :
        Link.next w.o w.p ⟨s.blocks w.i, s.blocks w.j, received, s.due w.i w.o⟩
        (.upstream e) = .ok ⟨b, s.blocks w.j, received,
          s.due w.i w.o ++ ((s.blocks w.i).tagsPosted w.o e).map
            fun t => (streamBytes (sentOn w.o (s.blocks w.i).sent), t)⟩ := by
      rw [Link.next, hchange]
      rfl
    have hmeets' :
        LinkMeets E w ⟨s.blocks w.i, s.blocks w.j, received, s.due w.i w.o⟩
        (.upstream e) := by
      refine ⟨⟨fun t' ht' => ?_, trivial⟩, hmeets e rfl⟩
      rw [hnext] at ht'
      cases ht'
      refine hends.inOrder ?_
      rw [Function.update_self]
      exact ((List.take_prefix _ _).filterMap _).filterMap _
    refine ⟨_, .single ⟨_, hmeets', hnext⟩, ⟨?_, ?_, ?_⟩⟩
    · simp only [Function.update_self]
      exact hends
    · simp only [Function.update_self]
      rw [← hout, List.length_append]
      exact Nat.le_trans hahead (Nat.le_add_right _ _)
    · simp only [Function.update_of_ne hw.apart.symm]
      exact hprepares
  · have hi' : w.i ≠ k := Ne.symm hi
    by_cases hj : k = w.j
    · -- The downstream: nothing else arrives at the input.
      subst hj
      obtain ⟨hstreams, hfeeds⟩ := hplain rfl
      obtain ⟨hprepares', hmail⟩ := change_mail hfeeds hprepares hchange
      have hends : Arriving w (Function.update s.blocks w.j b) (s.due w.i w.o)
          (sentOn w.o ((s.blocks w.i).sent.take (s.delivered w.i)))
          ⟨s.blocks w.i, b, received ++ (s.blocks w.j).handledOn w.p e,
              s.due w.i w.o⟩ := by
        refine ⟨?_, ?_, rfl, ?_⟩
        · rw [Function.update_of_ne hi']
        · rw [Function.update_self]
        · rw [Function.update_self, List.append_assoc, hmail]
          exact harrived
      have hnext :
          Link.next w.o w.p
            ⟨s.blocks w.i, s.blocks w.j, received, s.due w.i w.o⟩
          (.downstream e) = .ok ⟨s.blocks w.i, b,
            received ++ (s.blocks w.j).handledOn w.p e, s.due w.i w.o⟩ := by
        rw [Link.next, hchange]
        rfl
      have hmeets' :
          LinkMeets E w ⟨s.blocks w.i, s.blocks w.j, received, s.due w.i w.o⟩
          (.downstream e) := by
        refine ⟨⟨fun t' ht' => ?_, hstreams⟩, trivial⟩
        rw [hnext] at ht'
        cases ht'
        refine hends.inOrder ?_
        rw [Function.update_of_ne hi']
        exact ((List.take_prefix _ _).filterMap _).filterMap _
      refine ⟨_, .single ⟨_, hmeets', hnext⟩, ⟨?_, ?_, ?_⟩⟩
      · simp only [Function.update_of_ne hi']
        exact hends
      · simp only [Function.update_of_ne hi']
        exact hahead
      · simp only [Function.update_self]
        exact hprepares'
    · -- Neither of the two.
      refine ⟨_, .refl, ⟨?_, ?_, ?_⟩⟩
      · simp only [Function.update_of_ne hi']
        refine ⟨?_, ?_, rfl, ?_⟩
        · rw [Function.update_of_ne hi']
        · rw [Function.update_of_ne (Ne.symm hj)]
        · rw [Function.update_of_ne (Ne.symm hj)]
          exact harrived
      · simp only [Function.update_of_ne hi']
        exact hahead
      · simp only [Function.update_of_ne (Ne.symm hj)]
        exact hprepares

/-- **The next message of a block arrives.** -/
theorem Shows.deliver {k : Nat} (hE : ∀ b m, E b (.actor (.thread (.post m))))
    (hw : w.Routed route) (hs : Shows w s t)
    (hok : s.PlainMeeting E w (.deliver k))
    (h : s.next route (.deliver k) = .ok s') :
    ∃ t', (links E w).Steps t t' ∧ Shows w s' t' := by
  obtain ⟨⟨hinput, hplain⟩, -⟩ := hok
  simp only [Network.next] at h
  split at h
  · rw [Checked.pure_eq_ok] at h
    exact h ▸ ⟨t, .refl, hs⟩
  · rename_i out hout
    rw [Checked.pure_eq_ok] at h
    subst h
    obtain ⟨hk, hsome⟩ := List.getElem?_eq_some_iff.mp hout
    -- What is delivered of the upstream grows by what arrives.
    have htake : sentOn w.o ((s.blocks w.i).sent.take
          (Function.update s.delivered k (s.delivered k + 1) w.i)) =
        sentOn w.o ((s.blocks w.i).sent.take (s.delivered w.i)) ++
          w.arrivals (route k out) := by
      rw [hw.arrives]
      by_cases hi : k = w.i
      · subst hi
        rw [if_pos rfl, Function.update_self, List.take_add_one, hout,
          sentOn_append]
        cases hdown : out.downstreamOf w.o <;> simp [sentOn, hdown]
      · rw [if_neg hi, Function.update_of_ne (Ne.symm hi), List.append_nil]
    have hprefix :
        flowOf (sentOn w.o ((s.blocks w.i).sent.take (s.delivered w.i)) ++
        w.arrivals (route k out)) <+: flowOf
          (sentOn w.o (s.blocks w.i).sent) := by
      rw [← htake]
      exact ((List.take_prefix _ _).filterMap _).filterMap _
    obtain ⟨t', hsteps, h'⟩ :=
      hs.ends.deliver hE hw.apart _ hprefix hinput hplain
    have hsent := (foldl_arrive_rest (route k out) s.blocks w.i).1
    refine ⟨t', hsteps, ?_, ?_, ?_⟩
    · simp only [hsent, htake]
      exact h'
    · simp only [hsent]
      by_cases hi : k = w.i
      · subst hi
        rw [Function.update_self]
        exact hk
      · rw [Function.update_of_ne (Ne.symm hi)]
        exact hs.ahead
    · rw [Prepares, (foldl_arrive_rest _ _ _).2]
      exact hs.prepares

end Simulation

end Network

end Gras
