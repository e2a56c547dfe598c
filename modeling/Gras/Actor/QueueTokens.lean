import Gras.Actor.Allocation
import Gras.Actor.InputCalls

/-!
# The tokens of the output queues

The queue of an output port comes from `handle_top_alloc`, or from the answer of
a downstream block.  No other operation changes the token of a queue, and so a
property of the tokens of the queues and of the answers that wait is kept by
everything a block does, as long as the tokens that it makes have it
(`TokensMeet.change`).
-/

namespace Gras

namespace BufferQueue

variable {q q' : BufferQueue} {b : SBuffer}

theorem front_token (h : q.front = .ok (b, q')) : q'.token = q.token := by
  cases q with
  | pool q =>
      simp only [front, Checked.bind_eq_ok, Checked.pure_eq_ok,
        Prod.mk.injEq] at h
      obtain ⟨-, -, -, rfl⟩ := h
      rfl
  | circ q =>
      simp only [front, Checked.bind_eq_ok, Checked.pure_eq_ok, Prod.mk.injEq,
        Prod.exists] at h
      obtain ⟨b₁, q₁, hfront, -, rfl⟩ := h
      unfold BufferQueueCirc.front at hfront
      split at hfront
      · simp at hfront
      · simp only [Checked.bind_eq_ok, Checked.pure_eq_ok,
          Prod.mk.injEq] at hfront
        obtain ⟨-, -, -, -, -, -, -, rfl⟩ := hfront
        rfl

@[simp] theorem setFront_token (b : SBuffer) (q : BufferQueue) :
    (q.setFront b).token = q.token := by
  cases q <;> rfl

theorem pop_token (h : q.pop = .ok q') : q'.token = q.token := by
  cases q with
  | pool q =>
      simp only [pop, Checked.bind_eq_ok, Checked.pure_eq_ok] at h
      obtain ⟨q₁, hpop, rfl⟩ := h
      unfold BufferQueuePool.pop at hpop
      split at hpop
      · simp at hpop
      · split at hpop
        all_goals
          rw [Checked.pure_eq_ok] at hpop
          exact hpop ▸ rfl
  | circ q =>
      simp only [pop, Checked.bind_eq_ok, Checked.pure_eq_ok] at h
      obtain ⟨q₁, hpop, rfl⟩ := h
      unfold BufferQueueCirc.pop at hpop
      split at hpop
      · simp at hpop
      · simp only [Checked.bind_eq_ok, Checked.pure_eq_ok] at hpop
        obtain ⟨-, -, -, -, -, -, rfl⟩ := hpop
        rfl

theorem ackLoop_token (rounds : Nat) (q : BufferQueueCirc) :
    (q.ackLoop rounds).token = q.token := by
  induction rounds generalizing q with
  | zero => rfl
  | succ rounds ih =>
      unfold BufferQueueCirc.ackLoop
      split
      · rfl
      · exact ih _

theorem push_token (h : q.push b = .ok q') : q'.token = q.token := by
  cases q with
  | pool q =>
      simp only [push, Checked.bind_eq_ok, Checked.pure_eq_ok] at h
      obtain ⟨q₁, hpush, rfl⟩ := h
      unfold BufferQueuePool.push at hpush
      split at hpush
      · rw [Checked.pure_eq_ok] at hpush
        exact hpush ▸ rfl
      · simp only [Checked.bind_eq_ok, Checked.pure_eq_ok] at hpush
        obtain ⟨-, -, rfl⟩ := hpush
        rfl
  | circ q =>
      simp only [push, Checked.bind_eq_ok, Checked.pure_eq_ok] at h
      obtain ⟨q₁, hpush, rfl⟩ := h
      unfold BufferQueueCirc.push at hpush
      split at hpush
      · rw [Checked.pure_eq_ok] at hpush
        exact hpush ▸ rfl
      · simp only [Checked.bind_eq_ok, Checked.pure_eq_ok] at hpush
        obtain ⟨-, -, rfl⟩ := hpush
        exact ackLoop_token _ _

end BufferQueue

namespace OutputPort

/-- The token of the queue, if there is one, has that property. -/
def TokenMeets (P : Token → Prop) (p : OutputPort) : Prop :=
  ∀ q, p.queue = some q → P q.token

/-- Queues whose token has that property. -/
def queuesMeeting (P : Token → Prop) : Supply where
  arrives := fun _ => True
  returns := fun _ => True
  queue := fun q => P q.token

variable {P : Token → Prop} {p p' : OutputPort} {b : SBuffer} {now : Int}

/-- The queue is the same, or one with the same token. -/
theorem TokenMeets.of_token (hp : p.TokenMeets P)
    (h : ∀ q', p'.queue = some q' → ∃ q, p.queue = some q ∧
      q'.token = q.token) :
    p'.TokenMeets P := by
  intro q' hq'
  obtain ⟨q, hq, htoken⟩ := h q' hq'
  rw [htoken]
  exact hp q hq

theorem TokenMeets.update (hp : p.TokenMeets P) (h : p.update now = .ok p') :
    p'.TokenMeets P := by
  obtain ⟨isReady, q, rfl, hcase⟩ := update_parts h
  refine hp.of_token fun q' hq' => ?_
  replace hq' : q = some q' := hq'
  rcases hcase with rfl | ⟨q₀, b, q₁, hqueue, hfront, rfl⟩
  · exact ⟨q', hq', rfl⟩
  · cases hq'
    exact ⟨q₀, hqueue, BufferQueue.front_token hfront⟩

theorem TokenMeets.front (hp : p.TokenMeets P) (h : p.front = .ok (b, p')) :
    p'.TokenMeets P := by
  cases hinline : p.inlineBuffer with
  | some buff =>
      simp only [OutputPort.front, hinline, Checked.pure_eq_ok,
        Prod.mk.injEq] at h
      exact h.2 ▸ hp
  | none =>
      cases hq : p.queue with
      | none => simp [OutputPort.front, hinline, hq] at h
      | some q =>
          obtain ⟨q', hfront, rfl⟩ := front_queue hinline hq h
          refine hp.of_token fun q₁ hq₁ => ?_
          cases hq₁
          exact ⟨q, hq, BufferQueue.front_token hfront⟩

theorem TokenMeets.setFront (hp : p.TokenMeets P) (b : SBuffer) :
    (p.setFront b).TokenMeets P := by
  unfold OutputPort.setFront
  split
  · exact hp
  · refine hp.of_token fun q' hq' => ?_
    obtain ⟨q, hq, rfl⟩ := Option.map_eq_some_iff.mp hq'
    exact ⟨q, hq, BufferQueue.setFront_token b q⟩

theorem TokenMeets.pop (hp : p.TokenMeets P) (h : p.pop now = .ok p') :
    p'.TokenMeets P := by
  unfold OutputPort.pop at h
  split at h
  · rw [Checked.pure_eq_ok] at h
    exact h ▸ hp
  · split at h
    · simp at h
    · rename_i q hq
      simp only [Checked.bind_eq_ok] at h
      obtain ⟨-, -, q', hpop, h⟩ := h
      refine TokenMeets.update (hp.of_token fun q₁ hq₁ => ?_) h
      cases hq₁
      exact ⟨q, hq, BufferQueue.pop_token hpop⟩

theorem TokenMeets.consume (hp : p.TokenMeets P) (h : p.consume now = .ok p') :
    p'.TokenMeets P := by
  unfold OutputPort.consume at h
  split at h
  · rw [Checked.pure_eq_ok] at h
    exact h ▸ hp
  · simp only [Checked.bind_eq_ok, Prod.exists] at h
    obtain ⟨-, -, b, p₁, hfront, h⟩ := h
    split at h
    · rw [Checked.pure_eq_ok] at h
      exact h ▸ hp.front hfront
    · exact ((hp.front hfront).setFront _).pop h

/-- **An operation** of a port leaves the token of its queue alone, or stores a
queue. -/
theorem TokenMeets.step (hp : p.TokenMeets P)
    (h : Step (queuesMeeting P) now p p') : p'.TokenMeets P := by
  cases h with
  | look h => exact hp.front h
  | write n h => exact (hp.front h).setFront _
  | consume h => exact hp.consume h
  | pop h => exact hp.pop h
  | @push buffer p' hbuffer h =>
      unfold OutputPort.push at h
      split at h
      · rw [Checked.pure_eq_ok] at h
        exact h ▸ hp
      · rename_i q hq
        simp only [Checked.bind_eq_ok] at h
        obtain ⟨q', hpush, h⟩ := h
        refine TokenMeets.update (hp.of_token fun q₁ hq₁ => ?_) h
        cases hq₁
        exact ⟨q, hq, BufferQueue.push_token hpush⟩
  | @setBufferQueue q p' hqueue h =>
      exact TokenMeets.update (p := { p with queue := q })
        (fun q₁ hq₁ => hqueue q₁ hq₁) h
  | setReserveBytes h =>
      unfold OutputPort.setReserveBytes at h
      split at h
      · rw [Checked.pure_eq_ok] at h
        exact h ▸ hp
      · refine TokenMeets.update (hp.of_token fun q₁ hq₁ => ?_) h
        exact ⟨q₁, hq₁, rfl⟩
  | fail => exact hp
  | setInline h =>
      simp only [OutputPort.setInline, Checked.bind_eq_ok,
        Checked.pure_eq_ok] at h
      obtain ⟨-, -, rfl⟩ := h
      exact hp
  | flush => exact fun q hq => nomatch hq

theorem TokenMeets.steps
    (h : Relation.ReflTransGen (Step (queuesMeeting P) now) p p')
    (hp : p.TokenMeets P) : p'.TokenMeets P := by
  induction h with
  | refl => exact hp
  | tail _ hstep ih => exact ih.step hstep

end OutputPort

namespace BlockActor

/-- The tokens of the queues in the ports, and of the answers that wait, have a
property that may depend on the port. -/
structure TokensMeet (P : Nat → Token → Prop) (b : BlockActor) : Prop where
  queues : ∀ o < b.numOutputs, (b.outputQueues o).TokenMeets (P o)
  answers : ∀ o q, Message.output o (.alloc q) ∈ b.mailbox → P o q.token
  unanswered : b.Unanswered

/-- So do the tokens with which the block asks its downstream for buffers. -/
def AsksMeeting (P : Nat → Token → Prop) (b b' : BlockActor) : Prop :=
  ∃ out, b'.sent = b.sent ++ out ∧ ∀ m ∈ out, ∀ r, m.request = some r →
    P r.1 r.2.token

/-- So do the tokens that `handle_top_alloc` makes, and the allocator uses
them. -/
structure AllocatesMeeting (P : Nat → Token → Prop) (env : Env)
    (b : BlockActor) : Prop where
  tokens : ∀ o < b.numOutputs, P o (env.bufferToken o)
  queue : ∀ o config q, (env.outputBufferAllocator o config).1 = some q →
    q.token = config.token

section TokensMeet

variable {P : Nat → Token → Prop} {b b' : BlockActor} {env : Env} {now : Int}
  {m : Message}

/-- Nobody is asked. -/
theorem AsksMeeting.of_none
    (h : ∃ out, b'.sent = b.sent ++ out ∧ ∀ m ∈ out, m.request = none) :
    b.AsksMeeting P b' := by
  obtain ⟨out, hsent, hnone⟩ := h
  refine ⟨out, hsent, fun m hm r hr => ?_⟩
  rw [hnone m hm] at hr
  cases hr

theorem AsksMeeting.acknowledge (h : b.AsksMeeting P b')
    (sender : Option Address) : b.AsksMeeting P (b'.acknowledge sender) := by
  cases sender with
  | none => exact h
  | some a =>
      obtain ⟨out, hsent, hmeets⟩ := h
      refine ⟨out ++ [Outgoing.acknowledge a], ?_, fun m hm r hr => ?_⟩
      · rw [← List.append_assoc, ← hsent]
        rfl
      · rcases List.mem_append.mp hm with hm | hm
        · exact hmeets m hm r hr
        · rw [List.mem_singleton] at hm
          subst hm
          cases hr

/-- A weaker property. -/
theorem TokensMeet.mono {P' : Nat → Token → Prop}
    (hP : ∀ o token, P o token → P' o token) (hb : b.TokensMeet P) :
    b.TokensMeet P' :=
  ⟨fun o ho q hq => hP o _ (hb.queues o ho q hq),
    fun o q hm => hP o _ (hb.answers o q hm), hb.unanswered⟩

/-- The answers stay, and the ports have the property. -/
theorem TokensMeet.of_queues (hb : b.TokensMeet P) (hanswers : AnswersStay b b')
    (hqueues : ∀ o < b'.numOutputs, (b'.outputQueues o).TokenMeets (P o)) :
    b'.TokensMeet P := by
  obtain ⟨hunanswered, hmail⟩ := hanswers hb.unanswered
  refine ⟨hqueues, fun o q hm => ?_, hunanswered⟩
  rcases hmail _ hm with hnone | hm
  · cases hnone
  · exact hb.answers o q hm

/-- No port gets a queue. -/
theorem TokensMeet.of_ports (hb : b.TokensMeet P) (hanswers : AnswersStay b b')
    (hnum : b'.numOutputs = b.numOutputs)
    (hports : ∀ o, PortsMove (OutputPort.queuesMeeting (P o)) now b b') :
    b'.TokensMeet P :=
  hb.of_queues hanswers fun o ho =>
    OutputPort.TokenMeets.steps ((hports o).output o) (hb.queues o (hnum ▸ ho))

/-- `handle_top_alloc` uses its own tokens. -/
theorem TokensMeet.topAlloc {sender : Option Address} (hb : b.TokensMeet P)
    (halloc : b.AllocatesMeeting P env) (hanswers : AnswersStay b b')
    (h : b.handleTopAlloc env sender = .ok b') :
    b'.TokensMeet P ∧ b.AsksMeeting P b' := by
  simp only [handleTopAlloc, Checked.bind_eq_ok, Checked.pure_eq_ok] at h
  obtain ⟨b₁, hloop, rfl⟩ := h
  have hrounds : b₁.numOutputs = b.numOutputs ∧
      (∀ o < b.numOutputs, (b₁.outputQueues o).TokenMeets (P o)) ∧
      b.AsksMeeting P b₁ := by
    refine forRange_rule hloop (P := fun _ s => s.numOutputs = b.numOutputs ∧
      (∀ o < b.numOutputs, (s.outputQueues o).TokenMeets (P o)) ∧
      b.AsksMeeting P s)
      ⟨rfl, hb.queues, [], by simp, by simp⟩ ?_
    rintro o ho s s' ⟨hnum, hqueues, out, hsent, hmeets⟩ hf
    obtain ⟨config, p, htoken, hset, rfl⟩ := allocateOutput_parts hf
    refine ⟨hnum, fun o' ho' => ?_,
      out ++ [Outgoing.downstream o (.alloc config)], ?_,
      fun m hm r hr => ?_⟩
    · by_cases heq : o' = o
      · subst heq
        show OutputPort.TokenMeets (P o')
            (Function.update s.outputQueues o' p o')
        rw [Function.update_self]
        refine OutputPort.TokenMeets.update (p := { s.outputQueues o' with
          queue := (env.outputBufferAllocator o' config).1 })
            (fun q hq => ?_) hset
        rw [halloc.queue o' config q hq, htoken]
        exact halloc.tokens o' ho'
      · show OutputPort.TokenMeets (P o')
            (Function.update s.outputQueues o p o')
        rw [Function.update_of_ne heq]
        exact hqueues o' ho'
    · show s.sent ++ _ = _
      rw [hsent, List.append_assoc]
    · rcases List.mem_append.mp hm with hm | hm
      · exact hmeets m hm r hr
      · rw [List.mem_singleton] at hm
        subst hm
        cases hr
        show P o config.token
        rw [htoken]
        exact halloc.tokens o ho
  obtain ⟨hnum, hqueues, hasks⟩ := hrounds
  refine ⟨hb.of_queues hanswers fun o ho => ?_, hasks.acknowledge sender⟩
  cases sender <;> exact hqueues o (hnum ▸ ho)

/-- **Every handler** keeps the property, as long as the tokens that it makes
and the queue that it is handed have it. -/
theorem TokensMeet.handler (henv : CallsAnswerNothing env) (hb : b.TokensMeet P)
    (halloc : ∀ prio sender, m = .top .alloc prio sender →
      b.AllocatesMeeting P env)
    (hanswer : ∀ o q, m = .output o (.alloc q) → P o q.token)
    (h : b.handler env m = .ok b') : b'.TokensMeet P ∧ b.AsksMeeting P b' := by
  have hanswers : AnswersStay b b' := .handler henv h
  have hnum : b'.numOutputs = b.numOutputs := handled_numOutputs (handled h)
  by_cases hm : m.allocates = false
  · have hports : ∀ o,
        PortsMove (OutputPort.queuesMeeting (P o)) env.now b b' := by
      intro o
      refine handled_ports ?_ (fun prio sender heq => ?_) (handled h)
      · cases m with
        | input i message => cases message <;> trivial
        | output i message =>
            cases message with
            | alloc queue => cases hm
            | _ => trivial
        | _ => trivial
      · subst heq
        cases hm
    exact ⟨hb.of_ports hanswers hnum hports,
      .of_none (GetsNone.handler henv hm h).sent⟩
  · cases m with
    | top message prio sender =>
        cases message with
        | alloc => exact hb.topAlloc (halloc prio sender rfl) hanswers h
        | active =>
            rw [BlockActor.handler, Checked.pure_eq_ok] at h
            subst h
            obtain ⟨t, hactive⟩ := handleTopActive_eq env sender b
            rw [hactive] at hanswers hnum ⊢
            refine ⟨hb.of_queues hanswers fun o ho => ?_, .of_none ?_⟩
            · exact hb.queues o (hnum ▸ ho)
            · cases sender with
              | none => exact sent_of_eq (List.append_nil _)
              | some a => exact sent_of_append (m := .acknowledge a) rfl rfl
        | _ => exact absurd rfl hm
    | output i message =>
        cases message with
        | alloc queue =>
            simp only [BlockActor.handler, handleOutputAlloc,
              Checked.bind_eq_ok, Checked.pure_eq_ok] at h
            obtain ⟨p, hset, rfl⟩ := h
            refine ⟨hb.of_queues hanswers fun o ho => ?_,
              .of_none (sent_of_eq rfl)⟩
            by_cases heq : o = i
            · subst heq
              rw [setOutput_outputQueues, Function.update_self]
              refine OutputPort.TokenMeets.update (p := { b.outputQueues o with
                queue := some queue }) (fun q hq => ?_) hset
              cases hq
              exact hanswer o queue rfl
            · rw [setOutput_outputQueues, Function.update_of_ne heq]
              exact hb.queues o ho
        | _ => exact absurd rfl hm
    | _ => exact absurd rfl hm

/-- **A change of the topology** keeps the property. -/
theorem TokensMeet.topology {n k : Nat} {sender : Option Address}
    (hb : b.TokensMeet P) (h : b.handleTopology env n k sender = .ok b') :
    b'.TokensMeet P ∧ b.AsksMeeting P b' := by
  refine ⟨hb.of_queues (.topology h) fun o _ => ?_,
    .of_none (GetsNone.topology h).sent⟩
  refine OutputPort.TokenMeets.steps ((topology_ports h).output o) ?_
  show OutputPort.TokenMeets (P o)
    (if o < b.numOutputs then b.outputQueues o else .resized b.initTime env.now)
  split
  · rename_i ho
    exact hb.queues o ho
  · exact fun q hq => nomatch hq

/-- What the event may bring: other threads answer nothing, and what the block
allocates or is handed has the property. -/
def BringsMeeting (P : Nat → Token → Prop) (b : BlockActor) : BlockEvent → Prop
  | .actor (.thread event) => event.AnswersNothing
  | .actor (.handle env) => CallsAnswerNothing env ∧ ∀ prio sender rest,
      b.mailbox = .top .alloc prio sender :: rest → b.AllocatesMeeting P env
  | .topology _ _ _ _ => True

/-- **Whatever a block does** keeps the property of the tokens. -/
theorem TokensMeet.change {event : BlockEvent} (hb : b.TokensMeet P)
    (hevent : b.BringsMeeting P event) (h : b.change event = .ok b') :
    b'.TokensMeet P ∧ b.AsksMeeting P b' := by
  cases event with
  | topology env n k sender => exact hb.topology h
  | actor event =>
      rcases next_cases h with ⟨thread, rfl, rfl⟩ | ⟨env, rfl, hmail, rfl⟩ |
        ⟨env, m, rest, b₁, rfl, hmail, hhandler, rfl⟩
      · obtain ⟨-, hnum, hsent⟩ := threadStep_rest b thread
        have hports : ∀ o, PortsMove (OutputPort.queuesMeeting (P o)) 0 b
            (b.threadStep thread) :=
          fun _ => threadStep_ports b thread
        exact ⟨hb.of_ports (.threadStep hevent) hnum hports,
          .of_none (sent_of_eq hsent)⟩
      · exact ⟨hb, .of_none (sent_of_eq rfl)⟩
      · obtain ⟨henv, halloc⟩ := hevent
        have hreceive : (b.receive m rest).TokensMeet P := by
          refine ⟨hb.queues, fun o q hq => hb.answers o q ?_, hb.unanswered⟩
          rw [hmail]
          exact List.mem_cons_of_mem _ hq
        have hnew : ∀ prio sender, m = .top .alloc prio sender →
            (b.receive m rest).AllocatesMeeting P env := by
          rintro prio sender rfl
          obtain ⟨htokens, hqueue⟩ := halloc prio sender rest hmail
          exact ⟨htokens, hqueue⟩
        have hhead : ∀ o q, m = .output o (.alloc q) → P o q.token := by
          rintro o q rfl
          refine hb.answers o q ?_
          rw [hmail]
          exact List.mem_cons_self
        obtain ⟨hb₁, hasks⟩ := hreceive.handler henv hnew hhead hhandler
        exact ⟨⟨hb₁.queues, hb₁.answers, hb₁.unanswered⟩, hasks⟩

end TokensMeet

end BlockActor

end Gras
