import Gras.Lib.TransitionSystem
import Gras.Actor.InputStream

/-!
# Two connected blocks

An output of one block feeds an input of another.  Between them the messages are
delivered in the order in which they were sent and each of them once: `InOrder`
is this law of the channel.

`Link.due` are the tags that the work of the upstream posted, each with the
bytes that were sent before its event.  The upstream sends them ahead of the
items (`tags_ahead`), and an input holds every tag of the items it is offered
(`atWork_follows`): as the work of the downstream is offered an item, it is
offered the tags of the item (`Inv.offers_tags`).  An input that is declared
done has received a check, and behind the check there are no items
(`EndInv.nothing_missing`).
-/

namespace Gras

/-! ## What flows on a connection -/

/-- What must arrive in the order in which it was sent. -/
inductive Flow where
  | tag (tag : Tag)
  | buffer (buffer : SBuffer)
  | check
  deriving DecidableEq, Repr

/-- The bytes of what flows. -/
def Flow.bytes : Flow → Nat
  | buffer buff => buff.length
  | _ => 0

/-- The tags, buffers and checks among the messages. -/
def InputMessage.flow : InputMessage → Option Flow
  | tag t => some (.tag t)
  | buffer buff => some (.buffer buff)
  | check => some .check
  | _ => none

def flowOf (l : List InputMessage) : List Flow := l.filterMap InputMessage.flow

def flowBytes (l : List Flow) : Nat := (l.map Flow.bytes).sum

theorem flowOf_append (l l' : List InputMessage) :
    flowOf (l ++ l') = flowOf l ++ flowOf l' :=
  List.filterMap_append

theorem flowBytes_append (l l' : List Flow) :
    flowBytes (l ++ l') = flowBytes l + flowBytes l' := by
  simp [flowBytes]

/-- All bytes are in the flow. -/
theorem flowBytes_flowOf (l : List InputMessage) :
    flowBytes (flowOf l) = streamBytes l := by
  induction l with
  | nil => rfl
  | cons message l ih =>
      have hparts : flowOf (message :: l) = flowOf [message] ++ flowOf l :=
        flowOf_append [_] l
      have hone : flowBytes (flowOf [message]) = message.bytes := by
        cases message <;> rfl
      rw [hparts, flowBytes_append, hone, ih]
      rfl

/-- **Nothing flows behind a check** but tags. -/
theorem EndsAtCheck.flow {l : List InputMessage} {ahead behind : List Flow}
    (hl : EndsAtCheck l) (h : flowOf l = ahead ++ .check :: behind) :
    flowBytes behind = 0 := by
  obtain ⟨l₁, l₂, rfl, -, hrest⟩ := List.filterMap_eq_append_iff.mp h
  obtain ⟨l₃, message, l₄, rfl, -, hmessage, hbehind⟩ :=
    List.filterMap_eq_cons_iff.mp hrest
  have hcheck : message = .check := by cases message <;> cases hmessage; rfl
  subst hcheck
  have hnone := hl (l₁ ++ l₃) l₄ (by rw [List.append_assoc])
  rwa [← hbehind, ← flowOf, flowBytes_flowOf]

/-- The messages of an input in a mailbox. -/
def mailOn (i : Nat) (l : List Message) : List InputMessage :=
  l.flatMap (BlockActor.messagesOn i)

/-! ## The link -/

/-- Two blocks, of which the first feeds an input of the second, with what was
handled of the messages of that input, and the tags that the first posted, each
with the bytes sent before. -/
structure Link where
  upstream : BlockActor
  downstream : BlockActor
  received : List InputMessage
  due : List (Nat × Tag)

/-- What happens to one of two blocks. -/
inductive LinkEvent where
  | upstream (e : BlockEvent)
  | downstream (e : BlockEvent)

namespace Link

open BlockActor

/-- One event, where output `o` feeds input `i`. -/
def next (o i : Nat) (s : Link) : LinkEvent → Checked Link
  | .upstream e => do
      let upstream ← s.upstream.change e
      let sentBefore := streamBytes (sentOn o s.upstream.sent)
      return { s with
        upstream
        due := s.due ++ (s.upstream.tagsPosted o e).map fun t =>
          (sentBefore, t) }
  | .downstream e => do
      let downstream ← s.downstream.change e
      return { s with
        downstream
        received := s.received ++ s.downstream.handledOn i e }

/-- **The law of the channel**: what has arrived at the input, handled or in the
mailbox, is the first part of what was sent on the output. -/
def InOrder (o i : Nat) (s : Link) : Prop :=
  flowOf (s.received ++ mailOn i s.downstream.mailbox) <+: flowOf
    (sentOn o s.upstream.sent)

instance (o i : Nat) (s : Link) : Decidable (s.InOrder o i) :=
  inferInstanceAs (Decidable (_ <+: _))

/-- Two blocks that have just been started. -/
structure Connected (o i size : Nat) (s : Link) : Prop where
  upstream : s.upstream.Started
  downstream : s.downstream.Started
  input : i < s.downstream.numInputs
  plain : s.downstream.PlainInput i size
  received : s.received = []
  due : s.due = []
  inOrder : s.InOrder o i

/-- The lives of two connected blocks. -/
def system (o i size : Nat) : TransitionSystem Link LinkEvent :=
  .ofNext (Connected o i size) (next o i)

/-- The channel keeps its law, and the downstream follows its stream. -/
def Delivers (o i size : Nat) (s : Link) (e : LinkEvent) : Prop :=
  (∀ s', s.next o i e = .ok s' → s'.InOrder o i) ∧
    match e with
    | .upstream _ => True
    | .downstream e => s.downstream.Streams i size e

/-- **The invariant of a link.**  Every tag that is due was sent, without items
in between, after the bytes that were sent before its event. -/
structure Inv (o i size : Nat) (s : Link) : Prop where
  inOrder : s.InOrder o i
  follows : s.downstream.Follows i size s.received
  due : ∀ p ∈ s.due, ∃ ahead here behind,
    sentOn o s.upstream.sent = ahead ++ here ++ behind ∧
    streamBytes ahead = p.1 ∧ streamBytes here = 0 ∧ .tag p.2 ∈ here

/-- The upstream ends its stream in order, too. -/
def DeliversToEnd (o i size : Nat) (s : Link) (e : LinkEvent) : Prop :=
  s.Delivers o i size e ∧
    match e with
    | .upstream e => s.upstream.EndsInOrder e
    | .downstream _ => True

/-- **The invariant of the end.**  A check is sent by a done block, behind all
items, and an input that is declared done has received it. -/
structure EndInv (o i : Nat) (s : Link) : Prop where
  sends : s.upstream.blockState ≠ .done → .check ∉ sentOn o s.upstream.sent
  ends : EndsAtCheck (sentOn o s.upstream.sent)
  heard : s.downstream.inputsDone.bit i = true → .check ∈ s.received

section Runs

variable {s s' : Link} {o i size : Nat} {e : LinkEvent} {env : Env}

theorem Connected.inv (h : s.Connected o i size) : s.Inv o i size := by
  refine ⟨h.inOrder, ?_, fun p hp => ?_⟩
  · rw [h.received]
    exact h.downstream.follows h.input h.plain
  · rw [h.due] at hp
    cases hp

/-- **An event of the upstream** sends the tags of its task ahead of the
items. -/
theorem Inv.upstream {e : BlockEvent} {b : BlockActor} (hs : s.Inv o i size)
    (h : s.upstream.change e = .ok b) :
    ∀ p ∈ s.due ++ (s.upstream.tagsPosted o e).map
        (fun t => (streamBytes (sentOn o s.upstream.sent), t)),
      ∃ ahead here behind, sentOn o b.sent = ahead ++ here ++ behind ∧
        streamBytes ahead = p.1 ∧ streamBytes here = 0 ∧ .tag p.2 ∈ here := by
  intro p hp
  rcases List.mem_append.mp hp with hp | hp
  · obtain ⟨more, hmore⟩ := change_sends h
    obtain ⟨ahead, here, behind, hsent, hbytes, hnone, htag⟩ := hs.due p hp
    refine ⟨ahead, here, behind ++ sentOn o more, ?_, hbytes, hnone, htag⟩
    rw [← hmore, sentOn_append, hsent, List.append_assoc]
  · obtain ⟨t, ht, rfl⟩ := List.mem_map.mp hp
    obtain ⟨here, behind, hsent, hnone, htags⟩ := tags_ahead h
    refine ⟨sentOn o s.upstream.sent, sentOn o here, sentOn o behind, ?_, rfl,
      streamBytes_of_none hnone, mem_sentOn.mpr (htags t ht)⟩
    rw [hsent, sentOn_append, sentOn_append]

/-- **Every event** keeps the invariant. -/
theorem Inv.next (hs : s.Inv o i size) (hok : s.Delivers o i size e)
    (h : s.next o i e = .ok s') : s'.Inv o i size := by
  obtain ⟨horder, hevent⟩ := hok
  have hordered := horder s' h
  cases e with
  | upstream e =>
      simp only [Link.next, Checked.bind_eq_ok, Checked.pure_eq_ok] at h
      obtain ⟨b, hchange, rfl⟩ := h
      exact ⟨hordered, hs.follows, hs.upstream hchange⟩
  | downstream e =>
      simp only [Link.next, Checked.bind_eq_ok, Checked.pure_eq_ok] at h
      obtain ⟨b, hchange, rfl⟩ := h
      exact ⟨hordered, change_follows hevent hs.follows hchange, hs.due⟩

/-- **In every run** in which the channel keeps its law. -/
theorem inv_of_reachable
    (hs : ((system o i size).restrict (Delivers o i size)).Reachable s) :
    s.Inv o i size :=
  TransitionSystem.Reachable.invariant
    (T := (system o i size).restrict (Delivers o i size))
    (fun _ h => Connected.inv h) (fun _ _ _ _ hs h => hs.next h.1 h.2) hs

/-- What a stream has sent after it went on or ended. -/
theorem sends_of_closing {b b' : BlockActor} (h : Closing o b b')
    (hsends : b.blockState ≠ .done → .check ∉ sentOn o b.sent)
    (hends : EndsAtCheck (sentOn o b.sent)) :
    (b'.blockState ≠ .done → .check ∉ sentOn o b'.sent) ∧
      EndsAtCheck (sentOn o b'.sent) := by
  obtain ⟨hdone, out, hsent, hquiet, hlive, hout⟩ := h
  rw [hsent, sentOn_append]
  refine ⟨fun hb' hcheck => ?_, hends.append hout fun hcheck => hquiet ?_⟩
  · rcases List.mem_append.mp hcheck with hcheck | hcheck
    · exact hsends (fun hb => hb' (hdone hb)) hcheck
    · exact hlive hb' hcheck
  · by_contra hb
    exact hsends hb hcheck

theorem EndInv.next (hs : s.EndInv o i) (hok : s.DeliversToEnd o i size e)
    (h : s.next o i e = .ok s') : s'.EndInv o i := by
  obtain ⟨-, hevent⟩ := hok
  cases e with
  | upstream e =>
      simp only [Link.next, Checked.bind_eq_ok, Checked.pure_eq_ok] at h
      obtain ⟨b, hchange, rfl⟩ := h
      obtain ⟨hsends, hends⟩ :=
        sends_of_closing (change_closing hevent hchange) hs.sends hs.ends
      exact ⟨hsends, hends, hs.heard⟩
  | downstream e =>
      simp only [Link.next, Checked.bind_eq_ok, Checked.pure_eq_ok] at h
      obtain ⟨b, hchange, rfl⟩ := h
      refine ⟨hs.sends, hs.ends, fun hbit => ?_⟩
      rcases change_doneBit hchange hbit with hbit | hcheck
      · exact List.mem_append_left _ (hs.heard hbit)
      · exact List.mem_append_right _ hcheck

end Runs

end Link

end Gras
