import Gras.Actor.Allocation

/-!
# The mailbox of a finished block

`Allocating` is a block together with the requests and the answers on their way
between it and its downstream.  Handling an `OutputBufferMessage` may let go of
the buffer, and then it comes back while its token is alive.

In every run in which the block is not marked done while a request, or the
answer to one, is on its way, a block that is done owns no queue, and its
mailbox drains.

### The argument

Queues come to a block by one way only, the handler of an `OutputAllocMessage`
or of a `TopAllocMessage`, and neither asks whether the block is done.  The
invariant says that a block that is done has no queue and that no message that
would bring it one is on its way; it is established by `mark_done`, which
empties the ports, provided that nothing is under way then (`FinishesSettled`).

`finished_mailbox_spins` is the run in which something is: the buffers of the
queue that comes too late are handed round between the queue's token and the
mailbox, and each round leaves the mailbox as it was.
-/

namespace Gras

/-- A block, and what is on its way when buffers are allocated. -/
structure Allocating where
  block : BlockActor
  /-- How many blocks each port is connected to. -/
  subscribers : Nat → Nat
  /-- The requests that have not been handled, each of which holds the token. -/
  requests : List (Nat × SBufferConfig)
  /-- The answers that have not been delivered. -/
  answers : List (Nat × BufferQueue)
  /-- The top block has allocated and has not activated. -/
  committing : Bool

/-- What happens to it. -/
inductive AllocEvent where
  | block (event : BlockEvent)
  /-- The ports are connected to so many blocks from now on. -/
  | connect (subscribers : Nat → Nat)
  /-- A downstream block handles the `k`-th request, and creates buffers. -/
  | answer (k : Nat) (downstream : BlockActor) (env : Env) (port : Nat)
    (created : List SBuffer)
  /-- The `k`-th answer arrives. -/
  | deliver (k : Nat)

namespace BlockActor

/-- The buffer that the handler of the oldest message lets go of: it is not
stored. -/
def dropped (b : BlockActor) : BlockEvent → Option (Nat × SBuffer)
  | .actor (.handle _) =>
      match b.mailbox with
      | .output o (.buffer buff) :: _ =>
          if b.blockState = .done then some (o, buff)
          else
            match (b.outputQueues o).queue with
            | none => some (o, buff)
            | some q => if q.token = buff.config.token then none else some (o, buff)
      | _ => none
  | _ => none

/-- Between the two messages of the top block it is committing. -/
def commits (b : BlockActor) (committing : Bool) : BlockEvent → Bool
  | .actor (.handle _) =>
      match b.mailbox with
      | .top .alloc _ _ :: _ => true
      | .top .active _ _ :: _ => false
      | _ => committing
  | _ => committing

end BlockActor

namespace Allocating

open BlockActor

/-- Somebody holds the token. -/
def alive (s : Allocating) (token : Nat) : Bool :=
  (List.range s.block.numOutputs).any
      (fun o => (s.block.outputQueues o).queue.any fun q => q.token == token) ||
    s.block.mailbox.any (fun m => m.answer.any fun q => q.token == token) ||
    s.requests.any (fun r => r.2.token == token) ||
      s.answers.any (fun r => r.2.token == token)

/-- Nobody refers to the buffer any more: `buffer_returner` sends it back, or it
is freed. -/
def release (buffer : Option (Nat × SBuffer)) (s : Allocating) : Allocating :=
  match buffer with
  | none => s
  | some (o, buff) =>
      if s.alive buff.config.token then
        { s with block := s.block.sendSelf (.output o (.buffer buff.reset)) }
      else s

/-- The requests among the messages, one for each block the port is connected
to. -/
def asked (s : Allocating) (out : List Outgoing) : List (Nat × SBufferConfig) :=
  out.flatMap fun m =>
    match m.request with
    | none => []
    | some r => List.replicate (s.subscribers r.1) r

/-- The answers among the messages of the downstream. -/
def answered (o : Nat) (out : List Outgoing) : List (Nat × BufferQueue) :=
  out.filterMap fun m =>
    match m with
    | .upstream _ (.alloc queue) => some (o, queue)
    | _ => none

/-- One event. -/
def next (s : Allocating) : AllocEvent → Checked Allocating
  | .block event => do
      let b ← s.block.change event
      return release (s.block.dropped event)
        { s with
          block := b
          requests := s.requests ++ s.asked (b.sent.drop s.block.sent.length)
          committing := s.block.commits s.committing event }
  | .connect subscribers => return { s with subscribers }
  | .answer k downstream env port created =>
      match s.requests[k]? with
      | none => return s
      | some (o, config) =>
          let out := (downstream.handleInputAlloc env port config).sent.drop
            downstream.sent.length
          return { s with
            block :=
              created.foldl (fun b buff =>
                b.sendSelf (.output o (.buffer buff.reset))) s.block
            requests := s.requests.eraseIdx k
            answers := s.answers ++ answered o out }
  | .deliver k =>
      match s.answers[k]? with
      | none => return s
      | some (o, queue) =>
          return { s with
            block := s.block.sendSelf (.output o (.alloc queue))
            answers := s.answers.eraseIdx k }

/-- A block that was put into a topology, and nothing is on its way. -/
def Fresh (s : Allocating) : Prop :=
  s.block.Started ∧ s.requests = [] ∧ s.answers = [] ∧ s.committing = false

/-- The runs. -/
def system : TransitionSystem Allocating AllocEvent := .ofNext Fresh next

/-- Answers come from the downstream only. -/
def Addressed : AllocEvent → Prop
  | .block (.actor (.thread event)) => event.AnswersNothing
  | .block (.actor (.handle env)) => CallsAnswerNothing env
  | _ => True

/-- Nothing is on its way. -/
def Settled (s : Allocating) : Prop :=
  s.block.NoAnswers ∧ s.requests = [] ∧ s.answers = []

/-- **The block is not marked done while a request or an answer is on its
way.** -/
def FinishesSettled (s : Allocating) (e : AllocEvent) : Prop :=
  Addressed e ∧ ∀ event, e = .block event → s.committing = false →
    s.block.Finishes event →
    s.Settled

section Runs

variable {s s' : Allocating} {e : AllocEvent} {b b' : BlockActor}

/-- Whatever a block does, it gets no queue unless the message is about
queues. -/
theorem getsNone_change {event : BlockEvent} (he : Addressed (.block event))
    (hm : ∀ env m rest, event = .actor (.handle env) → b.mailbox = m :: rest →
      m.allocates = false) (h : b.change event = .ok b') : GetsNone b b' := by
  cases event with
  | topology env n k sender => exact .topology h
  | actor event =>
      rcases next_cases h with ⟨thread, rfl, rfl⟩ | ⟨env, rfl, hmail, rfl⟩ |
        ⟨env, m, rest, b₁, rfl, hmail, hhandler, rfl⟩
      · exact .threadStep he
      · exact .refl _
      · have hreceive : GetsNone b (b.receive m rest) := by
          refine .of_ports rfl rfl
            (show PortsMove _ env.now _ _ from .of_eq rfl rfl rfl)
            (fun ha => ?_)
            (sent_of_eq rfl)
          refine ⟨fun m' hm' => ha.1 m' ?_, ha.2⟩
          rw [hmail]
          exact List.mem_cons_of_mem _ hm'
        have hhandled : GetsNone (b.receive m rest) b₁ :=
          .handler he (hm env m rest rfl hmail) hhandler
        refine (hreceive.trans hhandled).trans ?_
        exact .of_ports rfl rfl
          (show PortsMove _ env.now _ _ from .of_eq rfl rfl rfl)
          (fun ha => ha)
          (sent_of_eq rfl)

theorem asked_of_none {out : List Outgoing} (h : ∀ m ∈ out, m.request = none) :
    s.asked out = [] := by
  rw [asked, List.flatMap_eq_nil_iff]
  intro m hm
  rw [h m hm]

/-- A buffer that comes back is one message more. -/
theorem release_cases (buffer : Option (Nat × SBuffer)) (s : Allocating) :
    release buffer s = s ∨ ∃ o buff, release buffer s =
      { s with block := s.block.sendSelf (.output o (.buffer buff)) } := by
  unfold release
  split
  · exact .inl rfl
  · split
    · exact .inr ⟨_, _, rfl⟩
    · exact .inl rfl

/-- **The invariant**: a block that is done and not being committed owns no
queue, and none is on its way. -/
def Released (s : Allocating) : Prop :=
  s.committing = false → s.block.blockState = .done →
    s.block.NoQueues ∧ s.Settled

theorem Released.sendSelf {m : Message} (hs : s.Released)
    (hm : m.answer = none) :
    ({ s with block := s.block.sendSelf m } : Allocating).Released := by
  intro hcommitted hdone
  obtain ⟨hqueues, hanswers, hsettled⟩ := hs hcommitted hdone
  exact ⟨hqueues, (GetsNone.sendSelf hm).answers hanswers, hsettled⟩

theorem Released.release (hs : s.Released) (buffer : Option (Nat × SBuffer)) :
    (release buffer s).Released := by
  rcases release_cases buffer s with heq | ⟨o, buff, heq⟩
  · rwa [heq]
  · rw [heq]
    exact hs.sendSelf rfl

theorem released_init (h : system.init s) : s.Released := by
  obtain ⟨hstart, hrequests, hanswers, -⟩ := h
  obtain ⟨initTime, memory, inputConfigs, outputConfigs, env, n, k,
      hstart⟩ := hstart
  have hnone := GetsNone.topology hstart
  have hmade :
      ({ made initTime memory with inputConfigs, outputConfigs } :
        BlockActor).NoAnswers :=
    ⟨fun m hm => (nomatch hm), fun m hm => (nomatch hm)⟩
  refine fun _ hdone =>
    ⟨hnone.queues hdone fun _ o ho => absurd ho (Nat.not_lt_zero o), ?_⟩
  exact ⟨hnone.answers hmade, hrequests, hanswers⟩

/-- **A handler** of the block keeps the invariant. -/
theorem released_block {event : BlockEvent} (hs : s.Released)
    (he : s.FinishesSettled (.block event))
    (h : s.block.change event = .ok b') :
    ({ s with
      block := b'
      requests := s.requests ++ s.asked (b'.sent.drop s.block.sent.length)
      committing := s.block.commits s.committing event } :
        Allocating).Released := by
  intro hcommitted hdone
  replace hdone : b'.blockState = .done := hdone
  by_cases hm : ∀ env m rest, event = .actor (.handle env) →
    s.block.mailbox = m :: rest →
      m.allocates = false
  · -- No queue comes and nobody is asked.
    have hnone := getsNone_change he.1 hm h
    have hcommitting : s.committing = false := by
      have hkept : s.block.commits s.committing event = s.committing := by
        unfold commits
        split
        · rename_i env
          split
          · rename_i prio sender rest hmail
            cases hm env _ rest rfl hmail
          · rename_i prio sender rest hmail
            cases hm env _ rest rfl hmail
          · rfl
        · rfl
      exact hkept ▸ hcommitted
    have hbefore : s.Settled ∧
        (s.block.blockState = .done → s.block.NoQueues) := by
      by_cases hwas : s.block.blockState = .done
      · obtain ⟨hqueues, hsettled⟩ := hs hcommitting hwas
        exact ⟨hsettled, fun _ => hqueues⟩
      · exact ⟨he.2 event rfl hcommitting ⟨hwas, b', h, hdone⟩,
          fun hw => absurd hw hwas⟩
    obtain ⟨⟨hanswers, hrequests, hreplies⟩, hqueues⟩ := hbefore
    refine ⟨hnone.queues hdone hqueues, hnone.answers hanswers, ?_, hreplies⟩
    obtain ⟨out, hsent, hout⟩ := hnone.sent
    show s.requests ++ s.asked (b'.sent.drop s.block.sent.length) = []
    rw [hsent, List.drop_left, asked_of_none hout, hrequests]
    rfl
  · -- The message is about queues.
    push Not at hm
    obtain ⟨env, m, rest, rfl, hmail, hm⟩ := hm
    obtain ⟨b₁, hhandler, rfl⟩ : ∃ b₁,
        (s.block.receive m rest).handler env m = .ok b₁ ∧
        b' = { b₁ with handlesPrio := false } := by
      have h : s.block.next (.handle env) = .ok b' := h
      rcases next_cases h with ⟨thread, hcase, -⟩ | ⟨env', hcase, hnil, -⟩ |
        ⟨env', m', rest', b₁, hcase, hmail', hhandler, hb⟩
      · cases hcase
      · rw [hmail] at hnil
        cases hnil
      · cases hcase
        rw [hmail] at hmail'
        cases hmail'
        exact ⟨b₁, hhandler, hb⟩
    cases m with
    | top message prio sender =>
        cases message with
        | alloc =>
            simp only [commits, hmail] at hcommitted
            cases hcommitted
        | active =>
            rw [handler, Checked.pure_eq_ok] at hhandler
            subst hhandler
            replace hdone :
              (handleTopActive env sender
                (receive (.top .active prio sender) rest
              s.block)).blockState = .done := hdone
            obtain ⟨t, hactive⟩ := handleTopActive_eq env sender
              (receive (.top .active prio sender) rest s.block)
            rw [hactive] at hdone
            cases hdone
        | _ => exact absurd rfl hm
    | output o message =>
        cases message with
        | alloc queue =>
            -- An answer leaves the state alone, so it came to a block that was done.
            simp only [handler, handleOutputAlloc, Checked.bind_eq_ok,
              Checked.pure_eq_ok]
              at hhandler
            obtain ⟨p, -, rfl⟩ := hhandler
            simp only [commits, hmail] at hcommitted
            obtain ⟨-, ⟨hanswers, -⟩, -⟩ := hs hcommitted hdone
            have hnone :=
              hanswers (.output o (.alloc queue)) (hmail ▸ List.mem_cons_self)
            cases hnone
        | _ => exact absurd rfl hm
    | _ => exact absurd rfl hm

/-- **Every event** keeps the invariant. -/
theorem released_next (hs : s.Released) (he : s.FinishesSettled e)
    (h : s.next e = .ok s') : s'.Released := by
  cases e with
  | block event =>
      simp only [next, Checked.bind_eq_ok, Checked.pure_eq_ok] at h
      obtain ⟨b', hchange, rfl⟩ := h
      exact (released_block hs he hchange).release _
  | connect subscribers =>
      simp only [next, Checked.pure_eq_ok] at h
      subst h
      exact hs
  | answer k downstream env port created =>
      simp only [next] at h
      split at h
      · rw [Checked.pure_eq_ok] at h
        exact h ▸ hs
      · rename_i o config hk
        rw [Checked.pure_eq_ok] at h
        subst h
        intro hcommitted hdone
        rw [foldl_sendSelf] at hdone
        -- A request is on its way, so the block is not done.
        obtain ⟨-, -, hrequests, -⟩ := hs hcommitted hdone
        simp [hrequests] at hk
  | deliver k =>
      simp only [next] at h
      split at h
      · rw [Checked.pure_eq_ok] at h
        exact h ▸ hs
      · rename_i o queue hk
        rw [Checked.pure_eq_ok] at h
        subst h
        intro hcommitted hdone
        obtain ⟨-, -, -, hanswers⟩ := hs hcommitted hdone
        simp [hanswers] at hk

/-- The token of every buffer has expired. -/
theorem Settled.alive_eq_false (hs : s.Settled) (hqueues : s.block.NoQueues)
    (token : Nat) : s.alive token = false := by
  obtain ⟨hanswers, hrequests, hreplies⟩ := hs
  simp only [alive, hrequests, hreplies, List.any_nil, Bool.or_false,
    Bool.or_eq_false_iff, List.any_eq_false, List.mem_range]
  constructor
  · intro o ho
    simp [hqueues o ho]
  · intro m hm
    simp [hanswers.1 m hm]

/-- **The mailbox of a finished block drains**: it owns no queue, and a buffer
that comes back is freed.

A queue that is made after `mark_done` has nobody to flush it, and its token
posts each buffer back to the block for ever.  The condition is that a block is
marked done with no allocation of its own under way, neither a request, nor an
answer, nor the message that builds the queue. -/
theorem finished_mailbox_drains
    (hs : (system.restrict FinishesSettled).Reachable s)
    (hcommitted : s.committing = false) (hdone : s.block.blockState = .done) :
    s.block.NoQueues ∧ ∀ env o buff rest,
      s.block.mailbox = .output o (.buffer buff) :: rest →
      s.alive buff.config.token = false ∧
        ∃ s', s.next (.block (.actor (.handle env))) = .ok s' ∧
        s'.block.mailbox = rest := by
  have hreleased : s.Released :=
    TransitionSystem.Reachable.invariant (T := system.restrict FinishesSettled)
      (fun _ h => released_init h)
      (fun _ _ _ _ hs h => released_next hs h.1 h.2) hs
  obtain ⟨hqueues, hsettled⟩ := hreleased hcommitted hdone
  refine ⟨hqueues, fun env o buff rest hmail =>
    ⟨hsettled.alive_eq_false hqueues _, ?_⟩⟩
  -- The handler does nothing, and then nobody refers to the buffer.
  have hchange : s.block.change (.actor (.handle env)) =
      .ok { s.block with mailbox := rest, handlesPrio := false } := by
    have hdone' : (s.block.receive (.output o (.buffer buff)) rest).blockState =
        .done := hdone
    simp only [change, BlockActor.next, handle, hmail, handler,
      handleOutputBuffer, if_pos hdone']
    rfl
  have hdropped : s.block.dropped (.actor (.handle env)) = some (o, buff) := by
    simp only [dropped, hmail, if_pos hdone]
  refine ⟨_, by rw [next, hchange]; rfl, ?_⟩
  have hafter : ({ s with
      block := { s.block with mailbox := rest, handlesPrio := false }
      requests := s.requests ++ s.asked (s.block.sent.drop s.block.sent.length)
      committing :=
        s.block.commits s.committing (.actor (.handle env)) } :
            Allocating).Settled := by
    obtain ⟨hanswers, hrequests, hreplies⟩ := hsettled
    refine ⟨⟨fun m hm => hanswers.1 m (hmail ▸ List.mem_cons_of_mem _ hm),
      hanswers.2⟩, ?_, hreplies⟩
    rw [List.drop_length, hrequests]
    rfl
  have hexpired := hafter.alive_eq_false hqueues buff.config.token
  simp only [release, hdropped, hexpired, Bool.false_eq_true, if_false]

end Runs

/-! ### A source that is done at once -/

/-- A source with one port, connected to one block, that reserves a whole
buffer. -/
def source : Option Allocating :=
  ({ made 0 addressMemory with
      outputConfigs :=
        fun _ => { reserveItems := atLeastBytes } }.handleTopology {} 0 1
    none).toOption.map fun b => ⟨b, fun _ => 1, [], [], false⟩

/-- User code that no other thread interrupts. -/
def plain : AllocEvent → Bool
  | .block (.actor (.thread (.post m))) => m.answer.isNone
  | .block (.actor (.handle env)) =>
      env.propagateTags.isNone && env.called.isEmpty &&
        env.work.all fun c => match c with | .thread _ => false | _ => true
  | .block _ => false
  | _ => true

theorem addressed_of_plain {e : AllocEvent} (h : plain e = true) :
    Addressed e := by
  cases e with
  | block event =>
      cases event with
      | topology env n k sender => cases h
      | actor event =>
          cases event with
          | thread event =>
              cases event with
              | post m =>
                  intro m' hm'
                  cases hm'
                  simpa [plain] using h
              | _ => cases h
          | handle env =>
              simp only [plain, Bool.and_eq_true, Option.isNone_iff_eq_none,
                List.isEmpty_iff, List.all_eq_true] at h
              obtain ⟨⟨htags, hcalled⟩, hwork⟩ := h
              refine ⟨fun c hc event hevent => ?_, fun c hc => ?_⟩
              · subst hevent
                rcases hc with hc | ⟨overload, ho, -⟩
                · cases hwork _ hc
                · rw [htags] at ho
                  cases ho
              · rw [hcalled] at hc
                cases hc
  | _ => trivial

/-- Nothing is on its way when the event marks the block done. -/
def plainlySettled (s : Allocating) (e : AllocEvent) : Bool :=
  plain e &&
    match e with
    | .block event =>
        s.committing ||
          (s.block.mailbox.all (·.answer.isNone) &&
            s.block.holders.prepared.isEmpty &&
            s.requests.isEmpty && s.answers.isEmpty) ||
          match s.block.change event with
          | .ok b => b.blockState != .done
          | .error _ => true
    | _ => true

theorem finishesSettled_of_plainly {s : Allocating} {e : AllocEvent}
    (h : s.plainlySettled e = true) : s.FinishesSettled e := by
  simp only [plainlySettled, Bool.and_eq_true] at h
  refine ⟨addressed_of_plain h.1, fun event hevent hcommitting hfinishes => ?_⟩
  subst hevent
  obtain ⟨-, b', hchange, hdone⟩ := hfinishes
  have hsettled := h.2
  simp only [hcommitting, hchange, hdone, bne_self_eq_false, Bool.or_false,
    Bool.false_or, Bool.and_eq_true, List.all_eq_true, List.isEmpty_iff,
    Option.isNone_iff_eq_none] at hsettled
  obtain ⟨⟨⟨hmail, hprepared⟩, hrequests⟩, hanswers⟩ := hsettled
  exact ⟨⟨hmail, fun m hm => by rw [hprepared] at hm; cases hm⟩,
    hrequests, hanswers⟩

/-- Start the source and perform events that meet a condition. -/
def runSource (ok : Allocating → AllocEvent → Bool) (es : List AllocEvent) :
    Option Allocating :=
  source.bind (TransitionSystem.runRestricted
    (fun s e => ok s e = true) next es)

theorem reachable_of_runSource {ok : Allocating → AllocEvent → Bool}
    {es : List AllocEvent} {s : Allocating} (h : runSource ok es = some s) :
    (system.restrict fun s e => ok s e = true).Reachable s := by
  obtain ⟨s₀, hsource, hrun⟩ := Option.bind_eq_some_iff.mp h
  obtain ⟨b₀, hstart, rfl⟩ := Option.map_eq_some_iff.mp hsource
  have hstarted : b₀.Started := by
    cases htopology : { made 0 addressMemory with
        outputConfigs :=
          fun _ => { reserveItems := atLeastBytes } }.handleTopology {} 0 1
        none with
    | error e => simp [htopology, Except.toOption] at hstart
    | ok b₁ =>
        rw [htopology] at hstart
        cases hstart
        exact ⟨0, addressMemory, fun _ => {}, _, {}, 0, 1, htopology⟩
  have hinit : (system.restrict fun s e => ok s e = true).init
      (⟨b₀, fun _ => 1, [], [], false⟩ : Allocating) :=
      ⟨hstarted, rfl, rfl, rfl⟩
  exact .of_restricted_events es (.init hinit) hrun

/-- A pool with room for one buffer, and a buffer of it. -/
def pool (token : Nat) : BufferQueue :=
  .pool (.make { memory := 0, length := atLeastBytes, token } 1)

def buffer (token : Nat) : SBuffer :=
  ⟨token, { memory := 100, length := atLeastBytes, token }, 0, 0, 0⟩

/-- The source allocates a pool and is activated; its first work marks it
done. -/
def allocated : List AllocEvent :=
  [.block (.actor (.thread (.post (.top .alloc false none)))),
    .block (.actor (.handle
      { bufferToken := fun _ => 5
        outputBufferAllocator := fun _ _ => (some (pool 5), [buffer 5]) })),
    .block (.actor (.thread (.post (.top .active false none)))),
    .block (.actor (.handle {})),
    .block (.actor (.handle {}))]

/-- The downstream answers with a pool of its own. -/
def downstreamAnswers : AllocEvent :=
  .answer 0 (made 0 addressMemory)
    { bufferToken := fun _ => 7, inputBufferAllocator := fun _ _ =>
      some (pool 7) } 0 [buffer 7]

/-- The work of the source. -/
def finishing : AllocEvent := .block (.actor (.handle { work := [.markDone] }))

/-- Handle a message. -/
def handling : AllocEvent := .block (.actor (.handle {}))

/-- The buffer that the oldest message brings back, and what the handler of it
leaves. -/
structure DrainReport where
  state : BlockState
  committing : Bool
  token : Option Nat
  owns : Bool
  waiting : Nat
  /-- The messages that are left afterwards. -/
  left : Option Nat
  deriving DecidableEq

/-- The report. -/
def report (s : Allocating) : DrainReport where
  state := s.block.blockState
  committing := s.committing
  token := match s.block.mailbox with
    | .output _ (.buffer buff) :: _ => some buff.config.token
    | _ => none
  owns := (s.block.outputQueues 0).queue.isSome
  waiting := s.block.mailbox.length
  left := (s.next handling).toOption.map fun s => s.block.mailbox.length

/-- The message that a report is about. -/
theorem mailbox_of_report {s : Allocating} {state : BlockState}
    {committing owns : Bool} {token : Nat} {left : Option Nat}
    (h : s.report = ⟨state, committing, some token, owns, 1, left⟩) :
    ∃ o buff, s.block.mailbox = [.output o (.buffer buff)] ∧
      buff.config.token = token := by
  simp only [report, DrainReport.mk.injEq] at h
  obtain ⟨-, -, htoken, -, hlength, -⟩ := h
  split at htoken
  · rename_i o buff rest hmail
    have hrest : rest = [] := by
      rw [hmail] at hlength
      simpa using hlength
    exact ⟨o, buff, by rw [hmail, hrest], by simpa using htoken⟩
  · cases htoken

end Allocating

/-- The source is done after the answer has arrived, and then an old buffer
comes back. -/
theorem finished_mailbox_drains_source :
    ∃ s, (Allocating.system.restrict Allocating.FinishesSettled).Reachable s ∧
      s.block.NoQueues ∧ ∃ o buff,
        s.block.mailbox = [.output o (.buffer buff)] ∧
        s.alive buff.config.token = false ∧
          ∃ s', s.next Allocating.handling = .ok s' ∧
          s'.block.mailbox = [] := by
  have hrun : (Allocating.runSource Allocating.plainlySettled
      (Allocating.allocated ++
      [Allocating.downstreamAnswers, .deliver 0, Allocating.handling,
        Allocating.handling, Allocating.handling, Allocating.handling,
        Allocating.handling, Allocating.finishing,
        .block (.actor
          (.thread (.post (.output 0 (.buffer (Allocating.buffer 5))))))])).map
      Allocating.report =
        some ⟨.done, false, some 5, false, 1, some 0⟩ := by decide
  obtain ⟨s, hs, hreport⟩ := Option.map_eq_some_iff.mp hrun
  obtain ⟨o, buff, hmail, -⟩ := Allocating.mailbox_of_report hreport
  simp only [Allocating.report, Allocating.DrainReport.mk.injEq] at hreport
  obtain ⟨hdone, hcommitted, -⟩ := hreport
  have hreach := (Allocating.reachable_of_runSource hs).restrict_mono
    fun _ _ => Allocating.finishesSettled_of_plainly
  obtain ⟨hqueues, hdrains⟩ :=
    Allocating.finished_mailbox_drains hreach hcommitted hdone
  obtain ⟨hexpired, hhandled⟩ := hdrains {} o buff [] hmail
  exact ⟨s, hreach, hqueues, o, buff, hmail, hexpired, hhandled⟩

/-- **An answer that arrives after `mark_done`** leaves a queue in a port of a
block that is done, and its buffer comes back forever. -/
theorem finished_mailbox_spins :
    ¬ ∀ s : Allocating,
      (Allocating.system.restrict fun _ e =>
        Allocating.Addressed e).Reachable s →
        s.committing = false → s.block.blockState = .done →
          s.block.NoQueues ∧ ∀ env o buff rest,
            s.block.mailbox = .output o (.buffer buff) :: rest →
              s.alive buff.config.token = false ∧
                ∃ s', s.next (.block (.actor (.handle env))) = .ok s' ∧
                  s'.block.mailbox = rest := by
  intro hall
  have hrun : (Allocating.runSource (fun _ e => Allocating.plain e)
      (Allocating.allocated ++
      [Allocating.finishing, Allocating.downstreamAnswers, .deliver 0,
        Allocating.handling, Allocating.handling])).map Allocating.report =
      some ⟨.done, false, some 7, true, 1, some 1⟩ := by decide
  obtain ⟨s, hs, hreport⟩ := Option.map_eq_some_iff.mp hrun
  obtain ⟨o, buff, hmail, -⟩ := Allocating.mailbox_of_report hreport
  simp only [Allocating.report, Allocating.DrainReport.mk.injEq] at hreport
  obtain ⟨hdone, hcommitted, -, -, -, hleft⟩ := hreport
  have hreach := (Allocating.reachable_of_runSource hs).restrict_mono
    fun _ _ => Allocating.addressed_of_plain
  obtain ⟨-, hdrains⟩ := hall s hreach hcommitted hdone
  obtain ⟨-, s', hnext, hempty⟩ := hdrains {} o buff [] hmail
  rw [Allocating.handling, hnext] at hleft
  simp [Except.toOption, hempty] at hleft

end Gras
