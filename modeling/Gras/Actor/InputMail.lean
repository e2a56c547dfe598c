import Gras.Actor.Additions
import Gras.Actor.LinkRuns

/-!
# Who puts messages of an input into a mailbox

The messages of an input come from who feeds it, by `push` from outside or by
`post_input_tag`, `post_input_buffer` and `post_input_msg` from the user code:
without that, an event leaves in the mailbox what it does not handle
(`change_mail`).
-/

namespace Gras

/-- A message of the input is sent from outside. -/
def ThreadEvent.Feeds (p : Nat) : ThreadEvent → Prop
  | .post (.input i _) => i = p
  | _ => False

/-- The same while user code runs, or the user code feeds the input itself. -/
def Call.Feeds (p : Nat) : Call → Prop
  | .postInput i _ => i = p
  | .thread event => event.Feeds p
  | _ => False

instance (p : Nat) (event : ThreadEvent) : Decidable (event.Feeds p) :=
  match event with
  | .post (.input _ _) => inferInstanceAs (Decidable (_ = p))
  | .post (.output _ _) | .post (.top _ _ _) | .post (.callable _ _) | .post
    (.getStats _)
  | .post .selfKick => isFalse id
  | .prepare _ | .send _ | .release | .return | .configureInput _ _ | .configureOutput _ _ =>
      isFalse id

instance (p : Nat) (c : Call) : Decidable (c.Feeds p) :=
  match c with
  | .postInput _ _ => inferInstanceAs (Decidable (_ = p))
  | .thread event => inferInstanceAs (Decidable (event.Feeds p))
  | .consume _ _ | .produce _ _ | .popInputMsg _ | .postOutputTag _
    _ | .postOutputMsg _ _
  | .markInputFail _ _ | .markOutputFail _ | .markDone | .getInputBuffer _
    _ | .getOutputBuffer _
  | .popOutputBuffer _ _ | .postOutputBuffer _ _ => isFalse id

namespace BlockActor

/-- What an event does not do. -/
def FeedsNot (p : Nat) : BlockEvent → Prop
  | .actor (.thread event) => ¬ event.Feeds p
  | .actor (.handle env) =>
      (∀ c, env.Calls c → ¬ c.Feeds p) ∧ ∀ c ∈ env.called, ¬ c.Feeds p
  | .topology _ _ _ _ => True

/-- The messages that bring nothing to the input. -/
def NotFor (p : Nat) (m : Message) : Prop := messagesOn p m = []

section Mail

variable {b b' : BlockActor} {p : Nat} {m : Message} {e : BlockEvent}

theorem ownIn_notFor (p : Nat) : OwnIn (NotFor p) := ⟨rfl, fun _ _ => rfl⟩

theorem mailOn_append (p : Nat) (l l' : List Message) :
    mailOn p (l ++ l') = mailOn p l ++ mailOn p l' := List.flatMap_append

theorem mailOn_notFor {l : List Message} (h : ∀ m ∈ l, NotFor p m) :
    mailOn p l = [] :=
  List.flatMap_eq_nil_iff.mpr h

theorem brings_of_not_feeds {event : ThreadEvent} (h : ¬ event.Feeds p) :
    event.Brings (NotFor p) := by
  cases event with
  | post m =>
      cases m with
      | input i message => exact if_neg h
      | _ => rfl
  | prepare m =>
      intro hm
      cases m with
      | input i message => cases hm
      | _ => rfl
  | _ => trivial

theorem call_brings {c : Call} (h : ¬ c.Feeds p) : c.Brings (NotFor p) := by
  cases c with
  | postInput i message => exact if_neg h
  | thread event => exact brings_of_not_feeds h
  | _ => trivial

theorem bringsOnly_of_feedsNot (h : FeedsNot p e) :
    BringsOnly (NotFor p) e := by
  cases e with
  | topology env n k sender => trivial
  | actor event =>
      cases event with
      | thread event => exact brings_of_not_feeds h
      | handle env =>
          exact ⟨fun c hc => call_brings (h.1 c hc),
            fun c hc => call_brings (h.2 c hc)⟩

/-- What is handled on the input is what the handled message brings. -/
theorem handledOn_eq (p : Nat) (b : BlockActor) (e : BlockEvent) :
    b.handledOn p e = mailOn p (b.handles e) := by
  cases e with
  | topology env n k sender => rfl
  | actor event =>
      cases event with
      | thread event => rfl
      | handle env =>
          cases hmail : b.mailbox with
          | nil => simp only [handledOn, handles, hmail, List.take_nil, mailOn, List.flatMap_nil]
          | cons m rest =>
              simp only [handledOn, handles, hmail, List.take_succ_cons,
                List.take_zero, mailOn, List.flatMap_cons, List.flatMap_nil,
                List.append_nil]

/-- **An event** leaves in the mailbox what it does not handle. -/
theorem change_mail (hfeeds : FeedsNot p e) (hb : b.Prepares (NotFor p))
    (h : b.change e = .ok b') :
    b'.Prepares (NotFor p) ∧ b.handledOn p e ++ mailOn p b'.mailbox =
      mailOn p b.mailbox := by
  obtain ⟨hprepares, ⟨rest, new, hmail, hmail', hnew⟩, -⟩ :=
    change_adds (ownIn_notFor p) (bringsOnly_of_feedsNot hfeeds) hb h
  refine ⟨hprepares, ?_⟩
  rw [handledOn_eq, hmail', mailOn_append, mailOn_notFor hnew, List.append_nil,
    ← mailOn_append, ← hmail]

/-- A block that has just been started has no mail, and nobody has prepared
any. -/
theorem Started.noMail (h : b.Started) :
    b.Prepares (NotFor p) ∧ mailOn p b.mailbox = [] := by
  obtain ⟨hprepares, hmail⟩ := h.adds (P := NotFor p)
  exact ⟨hprepares, mailOn_notFor hmail⟩

end Mail

end BlockActor

end Gras
