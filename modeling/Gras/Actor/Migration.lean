import Gras.Actor.AllocationRuns
import Gras.Actor.QueueTokens

/-!
# Migrating a block to another thread pool

`Block::commit_config` and `ElementImpl::setup_actor` of `block.cpp`, with
`buffer_returner` of `block_allocator.cpp`.

A block that is committed to another thread pool gets a new actor.  The
`BlockData` stays, the mailbox and the priority token belong to the actor.  The
actor that is replaced handles what it still has and is destroyed, and a message
to its address is lost from then on.

Two addresses are older than the new actor.  `commit_config` sends the port
updates to the actor that owned the block when it was called, and the token of
an output queue calls `buffer_returner` with the address of the actor that
handled the `TopAllocMessage`.  So updates and buffers arrive as long as a block
is only migrated while it has neither ports nor queues.
-/

namespace Gras

/-- What belongs to an actor, and not to the `BlockData` that it shares with the
others. -/
structure Mail where
  mailbox : List Message
  handlesPrio : Bool
  holders : TokenHolders

namespace Mail

/-- An actor that has just been made. -/
def empty : Mail := ⟨[], false, .none⟩

/-- A caller in `_handle_call` refers to the actor. -/
def referenced (a : Mail) : Bool :=
  a.holders.prepared.any (fun m => match m with | .callable _ _ => true | _ => false) ||
    decide (0 < a.holders.waiting + a.holders.replied)

end Mail

namespace BlockActor

/-- What belongs to the actor. -/
def mail (b : BlockActor) : Mail := ⟨b.mailbox, b.handlesPrio, b.holders⟩

/-- The data in the hands of another actor. -/
def withMail (a : Mail) (b : BlockActor) : BlockActor :=
  { b with mailbox := a.mailbox, handlesPrio := a.handlesPrio, holders := a.holders }

/-- The messages that `commit_config` sends. -/
def portUpdates (b : BlockActor) : List Message :=
  (List.range b.numInputs).map (fun i => .input i .update) ++
    (List.range b.numOutputs).map fun o => .output o .update

end BlockActor

/-- Where `commit_config` stands; `actor` is the one that it took at its
beginning. -/
inductive Committing where
  | idle
  /-- In `wait_actor_idle`. -/
  | waiting (actor : Address)
  /-- The port updates are next. -/
  | updating (actor : Address)
  deriving DecidableEq

/-- A block among its actors, and what is on its way when buffers are
allocated. -/
structure Migrating where
  /-- The data, in the hands of the actor that owns the block. -/
  block : BlockActor
  /-- The address of that actor. -/
  owner : Address
  threadPool : Nat
  /-- The actors that were replaced and have not been destroyed. -/
  replaced : Address → Option Mail
  /-- So many actors have been made. -/
  made : Nat
  committing : Committing
  subscribers : Nat → Nat
  requests : List (Nat × SBufferConfig)
  answers : List (Nat × BufferQueue)
  /-- The address and the port with which a token calls `buffer_returner`. -/
  returner : Token → Option (Address × Nat)
  /-- The messages to actors that had been destroyed. -/
  lost : List Message

/-- What happens to it. -/
inductive MigrationEvent where
  /-- The actor that owns the block does something. -/
  | block (event : BlockEvent)
  /-- A replaced actor does. -/
  | replaced (a : Address) (event : BlockEvent)
  /-- Nobody refers to the buffer any more. -/
  | release (buff : SBuffer)
  /-- The user changes `global_config()`. -/
  | configure (config : GlobalBlockConfig)
  /-- `commit_config` is called. -/
  | commit
  /-- `wait_actor_idle` returns. -/
  | waited
  /-- The last reference to a replaced actor goes. -/
  | destroy (a : Address)
  /-- `commit_config` sends the updates and returns. -/
  | update
  /-- The ports are connected to so many blocks from now on. -/
  | connect (subscribers : Nat → Nat)
  /-- A downstream block handles the `k`-th request, and creates buffers. -/
  | answer (k : Nat) (downstream : BlockActor) (env : Env) (port : Nat)
    (created : List SBuffer)
  /-- The `k`-th answer arrives. -/
  | deliver (k : Nat)

namespace Migrating

open BlockActor

/-- The block with what is on its way. -/
def traffic (s : Migrating) : Allocating :=
  ⟨s.block, s.subscribers, s.requests, s.answers, false⟩

/-- Somebody holds the token. -/
def alive (s : Migrating) (token : Token) : Bool :=
  s.traffic.alive token || (List.range s.made).any fun a =>
    (s.replaced a).any fun mail => mail.mailbox.any fun m =>
      m.answer.any fun q => q.token == token

/-- Send a message to an actor of the block. -/
def send (a : Address) (m : Message) (s : Migrating) : Migrating :=
  if a = s.owner then { s with block := s.block.sendSelf m }
  else
    match s.replaced a with
    | some mail => { s with
        replaced := Function.update s.replaced a
          (some { mail with mailbox := mail.mailbox ++ [m] }) }
    | none => { s with lost := s.lost ++ [m] }

/-- Nobody refers to the buffer any more: its token calls `buffer_returner`, or
it is freed. -/
def release (buff : SBuffer) (s : Migrating) : Migrating :=
  if s.alive buff.config.token then
    match s.returner buff.config.token with
    | some (a, o) => s.send a (.output o (.buffer buff.reset))
    | none => s
  else s

/-- The handler of a message lets go of the buffer. -/
def letGo (dropped : Option (Nat × SBuffer)) (s : Migrating) : Migrating :=
  match dropped with
  | some (_, buff) => s.release buff
  | none => s

/-- `handle_top_alloc` binds the tokens that it makes to the actor at that
address. -/
def bind (s : Migrating) (a : Address) (b : BlockActor) :
    BlockEvent → Token → Option (Address × Nat)
  | .actor (.handle env) => fun token =>
      match b.mailbox with
      | .top .alloc _ _ :: _ =>
          match (List.range b.numOutputs).find? fun o => env.bufferToken o == token with
          | some o => some (a, o)
          | none => s.returner token
      | _ => s.returner token
  | _ => s.returner

/-- `thread_pool and thread_pool != block_actor->thread_pool`. -/
def migrates (s : Migrating) : Option Nat :=
  s.block.globalConfig.threadPool.filter fun pool => pool != s.threadPool

/-- `commit_config` up to `wait_actor_idle`. -/
def commit (s : Migrating) : Migrating :=
  match s.migrates with
  | none => { s with committing := .updating s.owner }
  | some pool => { s with
      block := s.block.withMail .empty
      owner := s.made
      threadPool := pool
      replaced := Function.update s.replaced s.owner (some s.block.mail)
      made := s.made + 1
      committing := .waiting s.owner }

/-- One event. -/
def next (s : Migrating) : MigrationEvent → Checked Migrating
  | .block event => do
      let b ← s.block.change event
      return letGo (s.block.dropped event) { s with
        block := b
        requests := s.requests ++
          s.traffic.asked (b.sent.drop s.block.sent.length)
        returner := s.bind s.owner s.block event }
  | .replaced a event =>
      match s.replaced a with
      | none => return s
      | some mail => do
          let b ← (s.block.withMail mail).change event
          return letGo ((s.block.withMail mail).dropped event) { s with
            block := b.withMail s.block.mail
            replaced := Function.update s.replaced a (some b.mail)
            requests := s.requests ++
              s.traffic.asked (b.sent.drop s.block.sent.length)
            returner := s.bind a (s.block.withMail mail) event }
  | .release buff => return s.release buff
  | .configure config =>
      return { s with block := { s.block with globalConfig := config } }
  | .commit => return s.commit
  | .waited =>
      match s.committing with
      | .waiting a => return { s with committing := .updating a }
      | _ => return s
  | .destroy a =>
      match s.replaced a with
      | none => return s
      | some mail => return { s with
          replaced := Function.update s.replaced a none
          lost := s.lost ++ mail.mailbox }
  | .update =>
      match s.committing with
      | .updating a =>
          return { s.block.portUpdates.foldl (fun s m => s.send a m) s with
            committing := .idle }
      | _ => return s
  | .connect subscribers => return { s with subscribers }
  | .answer k downstream env port created =>
      match s.requests[k]? with
      | none => return s
      | some (o, config) =>
          let out := (downstream.handleInputAlloc env port config).sent.drop
            downstream.sent.length
          return created.foldl (fun s buff => s.release buff) { s with
            requests := s.requests.eraseIdx k
            answers := s.answers ++ Allocating.answered o out
            -- The new token calls what the old one calls.
            returner := Function.update s.returner (env.bufferToken port)
              (s.returner config.token) }
  | .deliver k =>
      match s.answers[k]? with
      | none => return s
      | some (o, queue) =>
          return { s.send s.owner (.output o (.alloc queue)) with
            answers := s.answers.eraseIdx k }

/-- A token that nobody has seen. -/
def NewToken (s : Migrating) (token : Token) : Prop := s.returner token = none

/-- `handle_top_alloc` makes new tokens, and the allocator gives them to its
buffers. -/
structure AllocatesNew (s : Migrating) (env : Env) (n : Nat) : Prop where
  new : ∀ o < n, s.NewToken (env.bufferToken o)
  distinct : ∀ o < n, ∀ o' < n, env.bufferToken o = env.bufferToken o' → o = o'
  queue : ∀ o config q, (env.outputBufferAllocator o config).1 = some q →
    q.token = config.token

/-- What the actor with these messages may do. -/
def Proper (s : Migrating) (b : BlockActor) : BlockEvent → Prop
  | .actor (.thread event) => event.AnswersNothing
  | .actor (.handle env) => CallsAnswerNothing env ∧ ∀ prio sender rest,
      b.mailbox = .top .alloc prio sender :: rest →
      s.AllocatesNew env b.numOutputs
  | .topology _ _ _ _ => True

/-- Answers come from the downstream, new tokens are new, and `commit_config`
takes one step after the other. -/
def Allowed (s : Migrating) : MigrationEvent → Prop
  | .block event => s.Proper s.block event
  | .replaced a event =>
      ∀ mail, s.replaced a = some mail → s.Proper (s.block.withMail mail) event
  | .commit => s.committing = .idle
  | .waited => ∃ a, s.committing = .waiting a ∧
      ∀ mail, s.replaced a = some mail → mail.mailbox = []
  | .destroy a => s.committing ≠ .waiting a ∧
      ∀ mail, s.replaced a = some mail → mail.referenced = false
  | .update => ∃ a, s.committing = .updating a ∧
      ∀ mail, s.replaced a = some mail → mail.referenced = true
  | .answer _ _ env port _ => s.NewToken (env.bufferToken port) ∧
      ∀ config q, env.inputBufferAllocator port config = some q →
      q.token = config.token
  | _ => True

/-- A block that was put into a topology, with its first actor. -/
def Fresh (s : Migrating) : Prop :=
  s.block.Started ∧ s.owner < s.made ∧ (∀ a, s.replaced a = none) ∧
    s.committing = .idle ∧
    s.requests = [] ∧ s.answers = [] ∧
    (∀ token, s.returner token = none) ∧ s.lost = []

/-- The life of a block with its actors. -/
def system : TransitionSystem Migrating MigrationEvent :=
  (TransitionSystem.ofNext Fresh next).restrict Allowed

/-! ## Where the buffers go -/

/-- A token calls `buffer_returner` with the actor that owns the block, and the
port. -/
def Homes (s : Migrating) (o : Nat) (token : Token) : Prop :=
  s.returner token = some (s.owner, o)

/-- **The invariant**: the queues of the ports, and those that are on their way,
have tokens that call the owner; no replaced actor has an answer. -/
structure Homed (s : Migrating) : Prop where
  tokens : s.block.TokensMeet s.Homes
  requests : ∀ r ∈ s.requests, s.Homes r.1 r.2.token
  answers : ∀ r ∈ s.answers, s.Homes r.1 r.2.token
  owner : s.owner < s.made
  replaced : ∀ a mail, s.replaced a = some mail →
    a < s.made ∧ a ≠ s.owner ∧ (s.block.withMail mail).NoAnswers

section Homed

variable {s s' : Migrating} {b b' : BlockActor} {env : Env} {event : BlockEvent}

/-- One entry of the table changes. -/
theorem forall_replaced {R : Address → Option Mail} {P : Address → Mail → Prop}
    {a : Address} {entry : Option Mail}
    (hR : ∀ a' mail, R a' = some mail → P a' mail)
    (hentry : ∀ mail, entry = some mail → P a mail) (a' : Address) (mail : Mail)
    (h : Function.update R a entry a' = some mail) : P a' mail := by
  by_cases heq : a' = a
  · subst heq
    rw [Function.update_self] at h
    exact hentry mail h
  · rw [Function.update_of_ne heq] at h
    exact hR a' mail h

/-- **Sending** anything but an answer keeps the invariant. -/
theorem Homed.send (hs : s.Homed) {a : Address} {m : Message}
    (hm : m.answer = none) : (s.send a m).Homed := by
  unfold Migrating.send
  split
  · refine ⟨?_, hs.requests, hs.answers, hs.owner, hs.replaced⟩
    exact hs.tokens.of_queues (.sendSelf hm) hs.tokens.queues
  · split
    · rename_i mail hmail
      obtain ⟨hmade, howner, hanswers, hprepared⟩ := hs.replaced a mail hmail
      refine ⟨hs.tokens, hs.requests, hs.answers, hs.owner,
        forall_replaced hs.replaced ?_⟩
      intro mail' hmail'
      cases hmail'
      refine ⟨hmade, howner, fun m' hm' => ?_, hprepared⟩
      rcases List.mem_append.mp hm' with hm' | hm'
      · exact hanswers m' hm'
      · rw [List.mem_singleton] at hm'
        exact hm' ▸ hm
    · exact ⟨hs.tokens, hs.requests, hs.answers, hs.owner, hs.replaced⟩

theorem Homed.sendAll (hs : s.Homed) {a : Address} {ms : List Message}
    (hms : ∀ m ∈ ms, m.answer = none) :
    (ms.foldl (fun s m => s.send a m) s).Homed := by
  induction ms generalizing s with
  | nil => exact hs
  | cons m ms ih =>
      refine ih (hs.send (hms m List.mem_cons_self)) fun m' hm' => ?_
      exact hms m' (List.mem_cons_of_mem _ hm')

theorem Homed.release (hs : s.Homed) (buff : SBuffer) :
    (s.release buff).Homed := by
  unfold Migrating.release
  split
  · split
    · exact hs.send rfl
    · exact hs
  · exact hs

theorem Homed.releaseAll (hs : s.Homed) (buffs : List SBuffer) :
    (buffs.foldl (fun s buff => s.release buff) s).Homed := by
  induction buffs generalizing s with
  | nil => exact hs
  | cons buff buffs ih => exact ih (hs.release buff)

theorem Homed.letGo (hs : s.Homed) (dropped : Option (Nat × SBuffer)) :
    (s.letGo dropped).Homed := by
  unfold Migrating.letGo
  split
  · exact hs.release _
  · exact hs

/-- A token that was bound stays bound. -/
theorem bind_of_bound {a : Address} {token : Token} {r : Address × Nat}
    (hproper : s.Proper b event) (h : s.returner token = some r) :
    s.bind a b event token = some r := by
  unfold Migrating.bind
  split
  · rename_i env
    split
    · rename_i prio sender rest hmail
      have hnone :
          (List.range b.numOutputs).find?
          (fun o => env.bufferToken o == token) =
          none := by
        refine List.find?_eq_none.mpr fun o ho heq => ?_
        have hnew :=
          (hproper.2 prio sender rest hmail).new o (List.mem_range.mp ho)
        rw [beq_iff_eq.mp heq, NewToken, h] at hnew
        cases hnew
      rw [hnone]
      exact h
    · exact h
  · exact h

/-- The tokens that `handle_top_alloc` makes. -/
theorem bind_new {a : Address} {prio : Bool} {sender : Option Address}
    {rest : List Message} (hmail : b.mailbox = .top .alloc prio sender :: rest)
    (halloc : s.AllocatesNew env b.numOutputs) {o : Nat}
    (ho : o < b.numOutputs) :
    s.bind a b (.actor (.handle env)) (env.bufferToken o) = some (a, o) := by
  have hfound : (List.range b.numOutputs).find?
      (fun o' => env.bufferToken o' == env.bufferToken o) = some o := by
    cases hfind : (List.range b.numOutputs).find?
        (fun o' => env.bufferToken o' == env.bufferToken o) with
    | none =>
        have hnone := List.find?_eq_none.mp hfind o (List.mem_range.mpr ho)
        simp at hnone
    | some o' =>
        have heq := List.find?_some hfind
        have ho' := List.mem_range.mp (List.mem_of_find?_eq_some hfind)
        rw [halloc.distinct o' ho' o ho (beq_iff_eq.mp heq)]
  simp only [Migrating.bind, hmail, hfound]

/-- No message becomes an answer to a block without one. -/
theorem answersStay_change (hproper : s.Proper b event)
    (h : b.change event = .ok b') : AnswersStay b b' := by
  cases event with
  | topology env n k sender => exact .topology h
  | actor event =>
      rcases next_cases h with ⟨thread, rfl, rfl⟩ | ⟨env, rfl, hmail, rfl⟩ |
        ⟨env, m, rest, b₁, rfl, hmail, hhandler, rfl⟩
      · exact .threadStep hproper
      · exact .refl _
      · obtain ⟨henv, -⟩ := hproper
        have hhandled : AnswersStay (b.receive m rest) b₁ :=
          .handler henv hhandler
        intro hb
        obtain ⟨hb₁, hstay⟩ := hhandled hb
        refine ⟨hb₁, fun m' hm' => (hstay m' hm').imp_right fun hm' => ?_⟩
        rw [hmail]
        exact List.mem_cons_of_mem _ hm'

/-- The requests among what was sent. -/
theorem mem_asked {P : Nat → Token → Prop} (hasks : b.AsksMeeting P b') :
    ∀ r ∈ s.traffic.asked (b'.sent.drop b.sent.length), P r.1 r.2.token := by
  intro r hr
  obtain ⟨out, hsent, hmeets⟩ := hasks
  rw [hsent, List.drop_left, Allocating.asked, List.mem_flatMap] at hr
  obtain ⟨m, hm, hr⟩ := hr
  cases hrequest : m.request with
  | none => simp [hrequest] at hr
  | some r' =>
      simp only [hrequest] at hr
      obtain ⟨-, rfl⟩ := List.mem_replicate.mp hr
      exact hmeets m hm r hrequest

/-- What an actor may bring is bound to it. -/
theorem brings_of_proper {a : Address} {P : Nat → Token → Prop}
    (hproper : s.Proper b event)
    (hP : ∀ env prio sender rest, event = .actor (.handle env) →
      b.mailbox = .top .alloc prio sender :: rest → ∀ o < b.numOutputs,
      s.bind a b event (env.bufferToken o) = some (a, o) →
      P o (env.bufferToken o)) :
    b.BringsMeeting P event := by
  cases event with
  | topology env n k sender => trivial
  | actor event =>
      cases event with
      | thread event => exact hproper
      | handle env =>
          refine ⟨hproper.1, fun prio sender rest hmail => ?_⟩
          have halloc := hproper.2 prio sender rest hmail
          refine ⟨fun o ho => ?_, halloc.queue⟩
          exact hP env prio sender rest rfl hmail o ho
            (bind_new hmail halloc ho)

/-- **The owner** binds its tokens to itself. -/
theorem Homed.block (hs : s.Homed) (hproper : s.Proper s.block event)
    (h : s.block.change event = .ok b') :
    ({ s with
      block := b'
      requests := s.requests ++
        s.traffic.asked (b'.sent.drop s.block.sent.length)
      returner := s.bind s.owner s.block event } : Migrating).Homed := by
  let P : Nat → Token → Prop := fun o token =>
    s.bind s.owner s.block event token = some (s.owner, o)
  have hmono : ∀ o token, s.Homes o token → P o token := fun o token h => bind_of_bound hproper h
  have hbrings : s.block.BringsMeeting P event :=
    brings_of_proper hproper fun _ _ _ _ _ _ _ _ hnew => hnew
  obtain ⟨hb', hasks⟩ := (hs.tokens.mono hmono).change hbrings h
  refine ⟨hb', fun r hr => ?_, fun r hr => hmono _ _ (hs.answers r hr), hs.owner, hs.replaced⟩
  rcases List.mem_append.mp hr with hr | hr
  · exact hmono _ _ (hs.requests r hr)
  · exact mem_asked hasks r hr

/-- **A replaced actor** makes no tokens. -/
theorem Homed.replacedActor {a : Address} {mail : Mail} (hs : s.Homed)
    (hmail : s.replaced a = some mail)
    (hproper : s.Proper (s.block.withMail mail) event)
    (hnone : ∀ env prio sender rest, event = .actor (.handle env) →
      mail.mailbox = .top .alloc prio sender :: rest → s.block.numOutputs = 0)
    (h : (s.block.withMail mail).change event = .ok b') :
    ({ s with
      block := b'.withMail s.block.mail
      replaced := Function.update s.replaced a (some b'.mail)
      requests := s.requests ++
        s.traffic.asked (b'.sent.drop s.block.sent.length)
      returner := s.bind a (s.block.withMail mail) event } :
        Migrating).Homed := by
  obtain ⟨hmade, howner, hanswers⟩ := hs.replaced a mail hmail
  have hmono : ∀ o token, s.Homes o token →
      s.bind a (s.block.withMail mail) event token = some (s.owner, o) :=
    fun o token h => bind_of_bound hproper h
  have htokens : (s.block.withMail mail).TokensMeet s.Homes :=
    ⟨hs.tokens.queues, fun o q hm => (nomatch hanswers.1 _ hm), hanswers.2⟩
  have hbrings : (s.block.withMail mail).BringsMeeting s.Homes event := by
    refine brings_of_proper (a := a) hproper
      fun env prio sender rest hevent hhead o ho _ => ?_
    have hzero := hnone env prio sender rest hevent hhead
    replace ho : o < s.block.numOutputs := ho
    omega
  obtain ⟨hb', hasks⟩ := htokens.change hbrings h
  have hstay := (answersStay_change hproper h).noAnswers hanswers
  refine ⟨?_, fun r hr => ?_, fun r hr => hmono _ _ (hs.answers r hr), hs.owner,
    forall_replaced hs.replaced fun mail' hmail' => ?_⟩
  · have hqueues := (hb'.mono hmono).queues
    exact ⟨hqueues, fun o q hm => hmono o _ (hs.tokens.answers o q hm), hs.tokens.unanswered⟩
  · rcases List.mem_append.mp hr with hr | hr
    · exact hmono _ _ (hs.requests r hr)
    · exact hmono _ _ (mem_asked (b := s.block.withMail mail) hasks r hr)
  · cases hmail'
    exact ⟨hmade, howner, hstay⟩

/-- **A migration** of a block without queues, while none is on its way. -/
theorem Homed.commit (hs : s.Homed)
    (hidle : s.migrates ≠ none → s.traffic.Settled ∧ s.block.NoQueues) :
    s.commit.Homed := by
  unfold Migrating.commit
  split
  · exact ⟨hs.tokens, hs.requests, hs.answers, hs.owner, hs.replaced⟩
  · rename_i pool hpool
    obtain ⟨⟨hnone, hrequests, hanswers⟩, hqueues⟩ := hidle (by simp [hpool])
    replace hrequests : s.requests = [] := hrequests
    replace hanswers : s.answers = [] := hanswers
    have howner := hs.owner
    refine ⟨⟨fun o ho q hq => ?_, fun o q hm => (nomatch hm),
      fun m hm => (nomatch hm)⟩, fun r hr => ?_, fun r hr => ?_,
      Nat.lt_succ_self _, forall_replaced ?_ ?_⟩
    · have hno : (s.block.outputQueues o).queue = none := hqueues o ho
      rw [show (s.block.outputQueues o).queue = some q from hq] at hno
      cases hno
    · rw [show _ = [] from hrequests] at hr
      cases hr
    · rw [show _ = [] from hanswers] at hr
      cases hr
    · intro a mail ha
      obtain ⟨hmade, -, hmail⟩ := hs.replaced a mail ha
      exact ⟨Nat.lt_succ_of_lt hmade, Nat.ne_of_lt hmade, hmail⟩
    · intro mail hmail
      cases hmail
      exact ⟨Nat.lt_succ_of_lt howner, Nat.ne_of_lt howner, hnone⟩

/-- The answer of a downstream block is a queue from its allocator. -/
theorem mem_answered {downstream : BlockActor} {config : SBufferConfig}
    {port o : Nat} {r : Nat × BufferQueue}
    (hr : r ∈ Allocating.answered o
      ((downstream.handleInputAlloc env port config).sent.drop
        downstream.sent.length)) :
    r.1 = o ∧ env.inputBufferAllocator port
      { config with token := env.bufferToken port } =
      some r.2 := by
  unfold handleInputAlloc at hr
  dsimp only at hr
  split at hr
  · simp [Allocating.answered] at hr
  · rename_i queue hqueue
    simp only [postUpstream, List.drop_left, Allocating.answered,
      List.filterMap_cons, List.filterMap_nil, List.mem_singleton] at hr
    subst hr
    exact ⟨rfl, hqueue⟩

/-- A downstream block **answers** a request with the callback of its token. -/
theorem Homed.answer {k port o : Nat} {downstream : BlockActor}
    {config : SBufferConfig} (hs : s.Homed)
    (hk : s.requests[k]? = some (o, config))
    (hnew : s.NewToken (env.bufferToken port))
    (hqueue : ∀ config q, env.inputBufferAllocator port config = some q →
      q.token = config.token) :
    ({ s with
      requests := s.requests.eraseIdx k
      answers := s.answers ++ Allocating.answered o
        ((downstream.handleInputAlloc env port config).sent.drop
          downstream.sent.length)
      returner := Function.update s.returner (env.bufferToken port)
        (s.returner config.token) } : Migrating).Homed := by
  have hasked : s.Homes o config.token :=
    hs.requests (o, config) (List.mem_of_getElem? hk)
  have hmono : ∀ o token, s.Homes o token →
      Function.update s.returner (env.bufferToken port)
        (s.returner config.token) token =
        some (s.owner, o) := by
    intro o token h
    have hne : token ≠ env.bufferToken port := by
      rintro rfl
      rw [Homes, hnew] at h
      cases h
    rwa [Function.update_of_ne hne]
  refine ⟨hs.tokens.mono hmono, fun r hr => ?_, fun r hr => ?_, hs.owner,
    hs.replaced⟩
  · exact hmono _ _ (hs.requests r (List.mem_of_mem_eraseIdx hr))
  · rcases List.mem_append.mp hr with hr | hr
    · exact hmono _ _ (hs.answers r hr)
    · obtain ⟨hport, halloc⟩ := mem_answered hr
      show Function.update s.returner (env.bufferToken port)
          (s.returner config.token)
        r.2.token = some (s.owner, r.1)
      rw [hqueue _ _ halloc, Function.update_self, hport]
      exact hasked

/-- An answer **arrives**. -/
theorem Homed.deliver {k o : Nat} {queue : BufferQueue} (hs : s.Homed)
    (hk : s.answers[k]? = some (o, queue)) :
    ({ s.send s.owner (.output o (.alloc queue)) with
      answers := s.answers.eraseIdx k } : Migrating).Homed := by
  have hhome : s.Homes o queue.token :=
    hs.answers (o, queue) (List.mem_of_getElem? hk)
  unfold Migrating.send
  rw [if_pos rfl]
  refine ⟨⟨hs.tokens.queues, fun o' q hm => ?_, hs.tokens.unanswered⟩,
    hs.requests, fun r hr => hs.answers r (List.mem_of_mem_eraseIdx hr),
    hs.owner, hs.replaced⟩
  rcases List.mem_append.mp hm with hm | hm
  · exact hs.tokens.answers o' q hm
  · rw [List.mem_singleton] at hm
    cases hm
    exact hhome

end Homed

/-! ## When a migration is harmless -/

/-- **The block is migrated before it is connected**: without queues, none of
which is on its way; and the updates of a `commit_config` that migrated it find
no port. -/
def BeforeConnection (s : Migrating) : MigrationEvent → Prop
  | .commit => s.migrates ≠ none → s.traffic.Settled ∧ s.block.NoQueues
  | .replaced a (.actor (.handle _)) =>
      ∀ mail prio sender rest, s.replaced a = some mail →
      mail.mailbox = .top .alloc prio sender :: rest → s.block.numOutputs = 0
  | .update =>
      s.committing = .updating s.owner ∨ s.block.numInputs = 0 ∧
      s.block.numOutputs = 0
  | _ => True

/-- The lives in which every migration is. -/
def careful : TransitionSystem Migrating MigrationEvent :=
  system.restrict BeforeConnection

section Runs

variable {s s' : Migrating} {e : MigrationEvent}

/-- An update is no answer. -/
theorem answer_portUpdates (b : BlockActor) :
    ∀ m ∈ b.portUpdates, m.answer = none := by
  intro m hm
  rcases List.mem_append.mp hm with hm | hm
  · obtain ⟨i, -, rfl⟩ := List.mem_map.mp hm
    rfl
  · obtain ⟨o, -, rfl⟩ := List.mem_map.mp hm
    rfl

theorem homed_init (h : system.init s) : s.Homed := by
  obtain ⟨hstart, howner, hreplaced, -, hrequests, hanswers, -, -⟩ := h
  obtain ⟨initTime, memory, inputConfigs, outputConfigs, env, n, k,
      hstart⟩ := hstart
  have hmade :
      ({ BlockActor.made initTime memory with inputConfigs, outputConfigs } :
      BlockActor).TokensMeet s.Homes :=
    ⟨fun o ho => absurd ho (Nat.not_lt_zero o), fun o q hm => (nomatch hm),
      fun m hm => (nomatch hm)⟩
  refine ⟨(hmade.topology hstart).1, fun r hr => ?_, fun r hr => ?_, howner,
    fun a mail ha => ?_⟩
  · rw [hrequests] at hr
    cases hr
  · rw [hanswers] at hr
    cases hr
  · rw [hreplaced] at ha
    cases ha

/-- **Every event** keeps the invariant. -/
theorem Homed.next (hs : s.Homed) (hallowed : s.Allowed e)
    (he : s.BeforeConnection e) (h : s.next e = .ok s') : s'.Homed := by
  cases e with
  | block event =>
      simp only [Migrating.next, Checked.bind_eq_ok, Checked.pure_eq_ok] at h
      obtain ⟨b, hchange, rfl⟩ := h
      exact (hs.block hallowed hchange).letGo _
  | replaced a event =>
      simp only [Migrating.next] at h
      split at h
      · rw [Checked.pure_eq_ok] at h
        exact h ▸ hs
      · rename_i mail hmail
        simp only [Checked.bind_eq_ok, Checked.pure_eq_ok] at h
        obtain ⟨b, hchange, rfl⟩ := h
        refine (hs.replacedActor hmail (hallowed mail hmail) ?_ hchange).letGo _
        rintro env prio sender rest rfl hhead
        exact he mail prio sender rest hmail hhead
  | release buff =>
      rw [Migrating.next, Checked.pure_eq_ok] at h
      exact h ▸ hs.release buff
  | configure config =>
      rw [Migrating.next, Checked.pure_eq_ok] at h
      subst h
      exact ⟨⟨hs.tokens.queues, hs.tokens.answers, hs.tokens.unanswered⟩,
        hs.requests, hs.answers, hs.owner, hs.replaced⟩
  | commit =>
      rw [Migrating.next, Checked.pure_eq_ok] at h
      exact h ▸ hs.commit he
  | waited =>
      simp only [Migrating.next] at h
      split at h <;> rw [Checked.pure_eq_ok] at h
      · exact h ▸ ⟨hs.tokens, hs.requests, hs.answers, hs.owner, hs.replaced⟩
      · exact h ▸ hs
  | destroy a =>
      simp only [Migrating.next] at h
      split at h <;> rw [Checked.pure_eq_ok] at h
      · exact h ▸ hs
      · subst h
        refine ⟨hs.tokens, hs.requests, hs.answers, hs.owner,
          forall_replaced hs.replaced fun _ hnone => ?_⟩
        cases hnone
  | update =>
      simp only [Migrating.next] at h
      split at h <;> rw [Checked.pure_eq_ok] at h
      · rename_i a ha
        subst h
        have hsent := hs.sendAll (a := a) (answer_portUpdates s.block)
        exact ⟨hsent.tokens, hsent.requests, hsent.answers, hsent.owner,
          hsent.replaced⟩
      · exact h ▸ hs
  | connect subscribers =>
      rw [Migrating.next, Checked.pure_eq_ok] at h
      subst h
      exact ⟨hs.tokens, hs.requests, hs.answers, hs.owner, hs.replaced⟩
  | answer k downstream env port created =>
      simp only [Migrating.next] at h
      split at h <;> rw [Checked.pure_eq_ok] at h
      · exact h ▸ hs
      · rename_i o config hk
        subst h
        exact (hs.answer hk hallowed.1 hallowed.2).releaseAll created
  | deliver k =>
      simp only [Migrating.next] at h
      split at h <;> rw [Checked.pure_eq_ok] at h
      · exact h ▸ hs
      · rename_i o queue hk
        exact h ▸ hs.deliver hk

theorem homed_of_reachable (h : careful.Reachable s) : s.Homed := by
  refine TransitionSystem.Reachable.invariant (T := careful)
    (fun _ hinit => homed_init hinit) (fun s e s' _ hs hstep => ?_) h
  obtain ⟨he, hallowed, hnext⟩ := hstep
  exact hs.next hallowed he hnext

/-! ## What arrives -/

/-- The updates that `commit_config` sends arrive at the actor that owns the
block. -/
def UpdatesArrive (T : TransitionSystem Migrating MigrationEvent)
    (s : Migrating) : Prop :=
  ∀ s', T.step s .update s' →
    s'.block = { s.block with
      mailbox := s.block.mailbox ++ s.block.portUpdates }

/-- A buffer of the queue of a port, wherever it is when nobody refers to it any
more, comes back to the actor that owns the block. -/
def ReturnsArrive (s : Migrating) : Prop :=
  ∀ o < s.block.numOutputs, ∀ q, (s.block.outputQueues o).queue = some q →
    ∀ buff : SBuffer, buff.config.token = q.token →
      s.next (.release buff) =
        .ok { s with
          block := s.block.sendSelf (.output o (.buffer buff.reset)) }

/-- Messages to the owner are added to its mailbox, -/
theorem sendAll_owner {a : Address} (ms : List Message) (ha : a = s.owner) :
    ms.foldl (fun s m => s.send a m) s =
      { s with block := { s.block with
        mailbox := s.block.mailbox ++ ms } } := by
  induction ms generalizing s with
  | nil => simp
  | cons m ms ih =>
      have hsend : s.send a m =
          { s with block := s.block.sendSelf m } := if_pos ha
      rw [List.foldl_cons, hsend, ih (by exact ha)]
      simp [sendSelf]

/-- and messages to another actor are not. -/
theorem sendAll_block {a : Address} (ms : List Message) (ha : a ≠ s.owner) :
    (ms.foldl (fun s m => s.send a m) s).block = s.block := by
  induction ms generalizing s with
  | nil => rfl
  | cons m ms ih =>
      have hsend : (s.send a m).block = s.block ∧
          (s.send a m).owner = s.owner := by
        unfold Migrating.send
        rw [if_neg ha]
        split <;> exact ⟨rfl, rfl⟩
      rw [List.foldl_cons, ih (by rw [hsend.2]; exact ha), hsend.1]

theorem portUpdates_eq_nil {b : BlockActor} :
    b.portUpdates = [] ↔ b.numInputs = 0 ∧ b.numOutputs = 0 := by
  simp [portUpdates]

/-- **The updates arrive** exactly when the actor that `commit_config` took at
its beginning still owns the block, or there are no ports. -/
theorem updates_arrive_iff {a : Address} (ha : s.committing = .updating a)
    (hstep : system.step s .update s') :
    s'.block = { s.block with
      mailbox := s.block.mailbox ++ s.block.portUpdates } ↔
      a = s.owner ∨ s.block.numInputs = 0 ∧ s.block.numOutputs = 0 := by
  obtain ⟨-, hnext⟩ := hstep
  simp only [TransitionSystem.ofNext_step, Migrating.next, ha,
    Checked.pure_eq_ok] at hnext
  subst hnext
  constructor
  · intro hblock
    by_cases howner : a = s.owner
    · exact .inl howner
    · right
      have hmail := congrArg BlockActor.mailbox hblock
      rw [show _ = s.block
        from sendAll_block s.block.portUpdates howner] at hmail
      exact portUpdates_eq_nil.mp (List.self_eq_append_right.mp hmail)
  · rintro (howner | hports)
    · exact congrArg Migrating.block (sendAll_owner s.block.portUpdates howner)
    · rw [portUpdates_eq_nil.mpr hports, List.append_nil]
      rfl

/-- The token of a queue is alive. -/
theorem alive_of_queue {o : Nat} {q : BufferQueue} (ho : o < s.block.numOutputs)
    (hq : (s.block.outputQueues o).queue = some q) :
    s.alive q.token = true := by
  have hport :
      ((s.block.outputQueues o).queue.any fun q' =>
        q'.token == q.token) = true := by
    simp [hq]
  have hany : (List.range s.block.numOutputs).any
      (fun o => (s.block.outputQueues o).queue.any fun q' =>
        q'.token == q.token) = true :=
    List.any_eq_true.mpr ⟨o, List.mem_range.mpr ho, hport⟩
  simp only [Migrating.alive, Allocating.alive, traffic, hany, Bool.true_or]

/-- **A buffer comes back** exactly when the token of its queue calls the
owner. -/
theorem returnsArrive_iff : s.ReturnsArrive ↔ ∀ o < s.block.numOutputs, ∀ q,
    (s.block.outputQueues o).queue = some q → s.Homes o q.token := by
  constructor
  · intro h o ho q hq
    let buff : SBuffer :=
      { impl := 0, config := { memory := 0, length := 0, token := q.token } }
    have hsent := h o ho q hq buff rfl
    simp only [Migrating.next, Migrating.release, alive_of_queue ho hq, if_true,
      Checked.pure_eq_ok, buff] at hsent
    have hblock := congrArg (fun s => s.block.mailbox) hsent
    have hother : s.block.mailbox ≠
        s.block.mailbox ++ [Message.output o (.buffer buff.reset)] := by simp
    split at hblock
    · rename_i a o' hreturner
      by_cases howner : a = s.owner
      · subst howner
        rw [show s.send s.owner _ = { s with block := s.block.sendSelf _ }
          from if_pos rfl]
          at hblock
        have hlast := List.append_cancel_left hblock
        simp only [List.cons.injEq, Message.output.injEq] at hlast
        rw [Homes, hreturner, hlast.1.1]
      · have hsame :
            (s.send a (.output o' (.buffer buff.reset))).block = s.block :=
          sendAll_block [_] howner
        exact absurd (show s.block.mailbox = _ from hsame ▸ hblock) hother
    · exact absurd hblock hother
  · intro h o ho q hq buff htoken
    have hhome : s.returner q.token = some (s.owner, o) := h o ho q hq
    simp only [Migrating.next, Migrating.release, htoken, alive_of_queue ho hq,
      hhome, if_true, Migrating.send]
    rfl

/-- **Migration.**  In every life in which a block is only migrated before it is
connected, the updates of each `commit_config` arrive at the actor that owns the
block afterwards, and so do the buffers of its output queues.

A queue keeps the address of the actor it was made for.  So the condition is
about queues that are there, or on their way, when the actor is replaced; a
block that is migrated twice before it is connected, or asks again for the pool
it has, meets it. -/
theorem migration_sound (h : careful.Reachable s) :
    UpdatesArrive careful s ∧ s.ReturnsArrive := by
  refine ⟨fun s' hstep => ?_,
    returnsArrive_iff.mpr (homed_of_reachable h).tokens.queues⟩
  obtain ⟨hcareful, hstep⟩ := hstep
  obtain ⟨a, ha, -⟩ := hstep.1
  refine (updates_arrive_iff ha hstep).mpr ?_
  rcases hcareful with howner | hports
  · rw [ha, Committing.updating.injEq] at howner
    exact .inl howner
  · exact .inr hports

end Runs

/-! ### A source that is migrated -/

/-- The default allocator with room for one buffer. -/
def poolEnv : Env where
  bufferToken := fun _ => 5
  outputBufferAllocator := fun _ config =>
    (some (.pool (.make config 1)), [{ impl := 1, config := config }])

/-- What happens in an example. -/
inductive Scene where
  | topology (numOutputs : Nat)
  /-- The top block allocates. -/
  | alloc
  | handle
  | configure (pool : Nat)
  | commit
  | waited
  | destroy (a : Address)
  | update

namespace Scene

/-- The event that it is. -/
def event : Scene → MigrationEvent
  | topology numOutputs => .block (.topology {} 0 numOutputs none)
  | alloc => .block (.actor (.thread (.post (.top .alloc false none))))
  | handle => .block (.actor (.handle poolEnv))
  | configure pool => .configure { threadPool := some pool }
  | commit => .commit
  | waited => .waited
  | destroy a => .destroy a
  | update => .update

/-- It is allowed: a source has at most one port, and the token of its pool is
new. -/
def fits (s : Migrating) : Scene → Bool
  | handle =>
      match s.block.mailbox with
      | .top .alloc _ _ :: _ =>
          decide (s.block.numOutputs ≤ 1) && (s.returner 5).isNone
      | _ => true
  | commit => s.committing == .idle
  | waited =>
      match s.committing with
      | .waiting a => (s.replaced a).all fun mail => mail.mailbox.isEmpty
      | _ => false
  | destroy a =>
      s.committing != .waiting a && (s.replaced a).all fun mail =>
        !mail.referenced
  | update =>
      match s.committing with
      | .updating a => (s.replaced a).all fun mail => mail.referenced
      | _ => false
  | _ => true

/-- It migrates nothing that is connected. -/
def early (s : Migrating) : Scene → Bool
  | commit => s.block.numOutputs == 0 && s.block.mailbox.isEmpty &&
      s.block.holders.prepared.isEmpty && s.requests.isEmpty &&
        s.answers.isEmpty
  | update => s.block.numInputs == 0 && s.block.numOutputs == 0
  | _ => true

theorem allowed_of_fits (s : Migrating) (x : Scene) (h : x.fits s = true) :
    s.Allowed x.event := by
  cases x with
  | topology numOutputs => trivial
  | alloc =>
      intro m hm
      cases hm
      rfl
  | handle =>
      refine ⟨⟨fun c hc => ?_, fun c hc => (nomatch hc)⟩,
        fun prio sender rest hmail => ?_⟩
      · rcases hc with hc | ⟨overload, ho, -⟩
        · cases hc
        · cases ho
      · simp only [fits, hmail, Bool.and_eq_true, decide_eq_true_eq,
          Option.isNone_iff_eq_none] at h
        refine ⟨fun o _ => h.2, fun o ho o' ho' _ =>
          by omega, fun o config q hq => ?_⟩
        cases hq
        rfl
  | configure pool => trivial
  | commit => exact beq_iff_eq.mp h
  | waited =>
      simp only [fits] at h
      split at h
      · rename_i a ha
        exact ⟨a, ha, by simpa [Option.all_eq_true] using h⟩
      · cases h
  | destroy a =>
      simp only [fits, Bool.and_eq_true, bne_iff_ne, Option.all_eq_true,
        Bool.not_eq_true'] at h
      exact h
  | update =>
      simp only [fits] at h
      split at h
      · rename_i a ha
        exact ⟨a, ha, by simpa [Option.all_eq_true] using h⟩
      · cases h

theorem beforeConnection_of_early (s : Migrating) (x : Scene)
    (h : x.early s = true) : s.BeforeConnection x.event := by
  cases x with
  | commit =>
      simp only [early, Bool.and_eq_true, beq_iff_eq, List.isEmpty_iff] at h
      obtain ⟨⟨⟨⟨hnum, hmail⟩, hprepared⟩, hrequests⟩, hanswers⟩ := h
      refine fun _ => ⟨⟨⟨fun m hm => ?_, fun m hm => ?_⟩, hrequests, hanswers⟩,
        fun o ho => ?_⟩
      · rw [show s.traffic.block.mailbox = [] from hmail] at hm
        cases hm
      · rw [show s.traffic.block.holders.prepared = [] from hprepared] at hm
        cases hm
      · omega
  | update =>
      simp only [early, Bool.and_eq_true, beq_iff_eq] at h
      exact .inr h
  | _ => trivial

end Scene

/-- A source with so many outputs, and its first actor. -/
def source (numOutputs : Nat) : Option Migrating :=
  ({ BlockActor.made 0 addressMemory with
      outputConfigs := fun _ => { reserveItems := 32768 } }.handleTopology
        {} 0 numOutputs
    none).toOption.map fun b =>
    { block := b
      owner := 0
      threadPool := 1
      replaced := fun _ => none
      made := 1
      committing := .idle
      subscribers := fun _ => 1
      requests := []
      answers := []
      returner := fun _ => none
      lost := [] }

theorem fresh_source {numOutputs : Nat} {s : Migrating}
    (h : source numOutputs = some s) : Fresh s := by
  obtain ⟨b, hstart, rfl⟩ := Option.map_eq_some_iff.mp h
  rw [Checked.toOption_eq_some] at hstart
  exact ⟨⟨0, addressMemory, fun _ => {}, _, {}, 0, numOutputs, hstart⟩,
    Nat.one_pos, fun _ => rfl, rfl, rfl, rfl, fun _ => rfl, rfl⟩

/-- Start the source and play a script whose scenes meet a condition. -/
def play (ok : Migrating → Scene → Bool) (numOutputs : Nat) (xs : List Scene) :
    Option Migrating :=
  (source numOutputs).bind
    (TransitionSystem.runRestricted (fun s x => ok s x = true)
      (fun s x => s.next x.event) xs)

theorem reachable_of_play {numOutputs : Nat} {xs : List Scene} {s : Migrating}
    (h : play (fun s x => x.fits s) numOutputs xs = some s) :
    system.Reachable s := by
  obtain ⟨s₀, hsource, hrun⟩ := Option.bind_eq_some_iff.mp h
  have hinit :
      ((TransitionSystem.ofNext Fresh next).restrict Allowed).Reachable s₀ :=
    .init (fresh_source hsource)
  exact .of_script Scene.event
    (fun s x => Scene.allowed_of_fits s x) xs hinit hrun

theorem careful_of_play {numOutputs : Nat} {xs : List Scene} {s : Migrating}
    (h : play (fun s x => x.early s && x.fits s) numOutputs xs = some s) :
    careful.Reachable s := by
  obtain ⟨s₀, hsource, hrun⟩ := Option.bind_eq_some_iff.mp h
  have hinit : ((TransitionSystem.ofNext Fresh next).restrict
      fun s e => BeforeConnection s e ∧ Allowed s e).Reachable s₀ :=
      .init (fresh_source hsource)
  have hreach := TransitionSystem.Reachable.of_script Scene.event
    (fun s x hx => ?_) xs hinit hrun
  · exact hreach.restrict_restrict
  · rw [Bool.and_eq_true] at hx
    exact ⟨Scene.beforeConnection_of_early s x hx.1,
      Scene.allowed_of_fits s x hx.2⟩

/-- Commit the source to another thread pool. -/
def migration : List Scene := [.configure 7, .commit, .waited, .destroy 0]

/-- What is seen of the source. -/
structure MigrationReport where
  owner : Address
  /-- Has the first actor not been destroyed? -/
  remains : Bool
  committing : Committing
  numOutputs : Nat
  /-- The token of the queue, and what it calls. -/
  token : Option Token
  returner : Option (Address × Nat)
  deriving DecidableEq

/-- The report. -/
def report (s : Migrating) : MigrationReport where
  owner := s.owner
  remains := (s.replaced 0).isSome
  committing := s.committing
  numOutputs := s.block.numOutputs
  token := (s.block.outputQueues 0).queue.map (·.token)
  returner := s.returner 5

/-- A source that is migrated and then connected gets its buffers back. -/
theorem migration_sound_source :
    ∃ s : Migrating, s.owner = 1 ∧ s.block.numOutputs = 1 ∧
      (s.block.outputQueues 0).queue.map (·.token) = some 5 ∧
        UpdatesArrive careful s ∧ s.ReturnsArrive := by
  have hrun : (play (fun s x => x.early s && x.fits s) 0
      (migration ++ [Scene.update, .topology 1, .alloc, .handle])).map report =
        some ⟨1, false, .idle, 1, some 5, some (1, 0)⟩ := by decide
  obtain ⟨s, hs, hreport⟩ := Option.map_eq_some_iff.mp hrun
  simp only [report, MigrationReport.mk.injEq] at hreport
  obtain ⟨howner, -, -, hnum, htoken, -⟩ := hreport
  exact ⟨s, howner, hnum, htoken, migration_sound (careful_of_play hs)⟩

/-- **A source that is connected and then migrated**: the updates are lost, and
so are the buffers of its queue. -/
theorem migration_loses :
    (¬ ∀ s : Migrating, system.Reachable s → UpdatesArrive system s) ∧
      ¬ ∀ s : Migrating, system.Reachable s → s.committing = .idle →
      s.ReturnsArrive := by
  constructor
  · intro hall
    have hrun : (play (fun s x => x.fits s) 1
        ([Scene.alloc, .handle, .handle] ++ migration)).map report =
          some ⟨1, false, .updating 0, 1, some 5, some (0, 0)⟩ := by decide
    obtain ⟨s, hs, hreport⟩ := Option.map_eq_some_iff.mp hrun
    simp only [report, MigrationReport.mk.injEq, Option.isSome_eq_false_iff,
      Option.isNone_iff_eq_none] at hreport
    obtain ⟨howner, hgone, hcommitting, hnum, -, -⟩ := hreport
    have hallowed : s.Allowed .update :=
      ⟨0, hcommitting, fun mail hmail => by rw [hgone] at hmail; cases hmail⟩
    have hnext : ∃ s', s.next .update = .ok s' := by
      rw [Migrating.next, hcommitting]
      exact ⟨_, rfl⟩
    obtain ⟨s', hnext⟩ := hnext
    have hstep : system.step s .update s' := ⟨hallowed, hnext⟩
    have harrive := hall s (reachable_of_play hs) s' hstep
    rcases (updates_arrive_iff hcommitting hstep).mp harrive with
      hzero | ⟨-, hnone⟩
    · rw [howner] at hzero
      cases hzero
    · rw [hnum] at hnone
      cases hnone
  · intro hall
    have hrun : (play (fun s x => x.fits s) 1
        ([Scene.alloc, .handle, .handle] ++ migration ++
          [Scene.update])).map report =
          some ⟨1, false, .idle, 1, some 5, some (0, 0)⟩ := by decide
    obtain ⟨s, hs, hreport⟩ := Option.map_eq_some_iff.mp hrun
    simp only [report, MigrationReport.mk.injEq,
      Option.map_eq_some_iff] at hreport
    obtain ⟨howner, -, hidle, hnum, ⟨q, hq, htoken⟩, hreturner⟩ := hreport
    have harrive := hall s (reachable_of_play hs) hidle
    have hhome := returnsArrive_iff.mp harrive 0 (by omega) q hq
    rw [Homes, htoken, hreturner, howner] at hhome
    cases hhome

end Migrating

end Gras
