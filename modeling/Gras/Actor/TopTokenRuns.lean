import Gras.Actor.TopToken

/-!
# Starting and committing a topology

`TopBlock::start` sends five messages to every block, and waits for the replies
to one before it sends the next.  `Topology` is the top block together with the
blocks; between two of its steps the blocks handle messages, other threads run,
and connections change.

In every run in which no block is marked done between its `TopTokenMessage` and
its `TopActiveMessage`, every live block holds the token of the top block.

### What the condition is for

A block that is marked done lets go of its token, and does not get another until
the next start.  So when it finishes between the token and the activation of one
start, the activation makes it live without a token, and the top block takes the
flow graph for finished.  `FinishesOutside` excludes just this: `given` is set
while a block has had its token and not its activation.

The invariant is about one block, and says besides what may still stand in its
mailbox: the messages of a start come in the order in which the top block sends
them.
-/

namespace Gras

/-- Blocks without repetition: what `get_workers` returns. -/
abbrev Workers := { l : List Nat // l.Nodup }

/-- The top block and all blocks. -/
structure Topology where
  blocks : Nat → BlockActor
  /-- The blocks of the topology. -/
  workers : Workers
  /-- What is to be broadcast after the current message. -/
  plan : List TopMessage
  current : TopMessage
  /-- The blocks that the current message has not been sent to. -/
  unsent : Workers
  /-- The receiver of the replies to the current message. -/
  receiver : Address
  /-- The replies that are outstanding. -/
  outstanding : Nat
  /-- The block has handled its `TopTokenMessage`, and not the `TopActiveMessage`
  after it. -/
  given : Nat → Bool

/-- What happens to a topology. -/
inductive TopologyEvent where
  /-- The top block starts or commits. -/
  | start (workers : Workers) (config : GlobalBlockConfig)
  /-- It goes on to the next message. -/
  | broadcast
  /-- It sends the current message to the next block. -/
  | send
  | block (i : Nat) (event : BlockEvent)

namespace Topology

open BlockActor

/-- A message of the top block to a block. -/
def sendTop (m : Message) (b : BlockActor) : BlockActor :=
  { b.sendSelf m with holders := b.holders.keepCopy m }

/-- The replies to the current message. -/
def replies (receiver : Address) (out : List Outgoing) : Nat :=
  out.countP fun m => match m with | .acknowledge a => a == receiver | _ => false

/-- The block has been given the token after it has handled its oldest
message. -/
def givenAfter (given : Bool) (b : BlockActor) : BlockEvent → Bool
  | .actor (.handle _) =>
      match b.mailbox with
      | .top (.token _) _ _ :: _ => true
      | .top .active _ _ :: _ => false
      | _ => given
  | _ => given

/-- One event; `token` is the token of the top block. -/
def next (token : Token) (s : Topology) : TopologyEvent → Checked Topology
  | .start workers config =>
      if s.plan = [] ∧ s.unsent.1 = [] ∧ s.outstanding = 0 then
        return { s with
          workers
          plan := [.threadGroup, .token token, .config config,
            .alloc, .active] }
      else return s
  | .broadcast =>
      match s.plan with
      | [] => return s
      | m :: plan =>
          if s.unsent.1 = [] ∧ s.outstanding = 0 then
            return { s with
              plan
              current := m
              unsent := s.workers
              receiver := s.receiver + 1
              outstanding := s.workers.1.length }
          else return s
  | .send =>
      match s.unsent with
      | ⟨[], _⟩ => return s
      | ⟨i :: rest, h⟩ =>
          return { s with
            blocks := Function.update s.blocks i
              (sendTop (.top s.current true (some s.receiver)) (s.blocks i))
            unsent := ⟨rest, h.of_cons⟩ }
  | .block i event => do
      let b ← (s.blocks i).change event
      return { s with
        blocks := Function.update s.blocks i b
        outstanding :=
          s.outstanding - replies s.receiver
            (b.sent.drop (s.blocks i).sent.length)
        given := Function.update s.given i
          (givenAfter (s.given i) (s.blocks i) event) }

/-- The blocks have been put into a topology that was never started. -/
def Fresh (s : Topology) : Prop :=
  (∀ i, (s.blocks i).Started) ∧ s.plan = [] ∧ s.unsent.1 = [] ∧
    s.outstanding = 0 ∧
    ∀ i, s.given i = false

/-- The runs. -/
def system (token : Token) : TransitionSystem Topology TopologyEvent :=
  .ofNext Fresh (next token)

/-- Only the top block gives its token and makes blocks live. -/
def Addressed : TopologyEvent → Prop
  | .block _ (.actor (.thread event)) => event.CommitsNothing
  | .block _ (.actor (.handle env)) => env.CommitsNothing
  | _ => True

/-- **No block is marked done between its token and its activation.** -/
def FinishesOutside (s : Topology) (e : TopologyEvent) : Prop :=
  Addressed e ∧ ∀ i event, e = .block i event → s.given i = true →
    ¬ (s.blocks i).Finishes event

/-- The token is unique: no block holds it, and no message carries it. -/
def TokenUnique (token : Token) (s : Topology) : Prop :=
  .token token ∉ s.plan ∧ ∀ i, token ∉ (s.blocks i).tokenPool ∧
    ∀ prio sender, Message.top (.token token) prio sender ∉ (s.blocks i).mailbox

/-! ## The invariant of one block -/

/-- The block holds the token when it has to, and what is still to be handled is
in order. -/
structure Holds (token : Token) (b : BlockActor) (given : Bool)
    (rest : List Message) : Prop where
  live : b.blockState = .live → token ∈ b.tokenPool
  pool : given = true → token ∈ b.tokenPool
  ordered : InOrder token given (b.mailbox ++ rest)
  prepared : b.Uncommitted

section Block

variable {token : Token} {b b' : BlockActor} {given : Bool}
  {rest rest' : List Message} {i : Nat}

theorem Holds.keep (hb : Holds token b given rest) (h : KeepsTokens b b')
    (hdone : given = true → b.blockState = .done ∨ b'.blockState ≠ .done) :
    Holds token b' given rest := by
  obtain ⟨hprepared, new, hmail, hnew⟩ := h.mail hb.prepared
  constructor
  · intro hlive
    have hnot : b'.blockState ≠ .done := by
      rw [hlive]
      exact fun hcase => nomatch hcase
    exact h.tokens (.inr hnot) token (hb.live (h.live hlive))
  · exact fun hgiven => h.tokens (hdone hgiven) token (hb.pool hgiven)
  · rw [hmail, List.append_assoc]
    exact hb.ordered.replace fun _ hrest => (inOrder_append_left hnew).mpr hrest
  · exact hprepared

/-- A message of another kind is taken out of the mailbox. -/
theorem Holds.receive {m : Message} {mail : List Message}
    (hb : Holds token b given rest) (hmail : b.mailbox = m :: mail)
    (hm : m.commits = false) : Holds token (b.receive m mail) given rest := by
  refine ⟨hb.live, hb.pool, ?_, hb.prepared⟩
  have hordered := hb.ordered
  rw [hmail, List.cons_append, inOrder_cons hm] at hordered
  exact hordered

theorem Holds.handlesPrio (hb : Holds token b given rest) :
    Holds token { b with handlesPrio := false } given rest :=
  ⟨hb.live, hb.pool, hb.ordered, hb.prepared⟩

/-- **An event of a block** keeps the invariant, unless it marks the block done
in between. -/
theorem Holds.change {event : BlockEvent} (hb : Holds token b given rest)
    (he : Addressed (.block i event))
    (hfinishes : given = true → ¬ b.Finishes event)
    (h : b.change event = .ok b') :
    Holds token b' (givenAfter given b event) rest := by
  have hdone : given = true → b.blockState = .done ∨ b'.blockState ≠ .done := by
    intro hgiven
    by_contra hnot
    push Not at hnot
    exact hfinishes hgiven ⟨hnot.1, b', h, hnot.2⟩
  cases event with
  | topology env n k sender => exact hb.keep (.topology h) hdone
  | actor event =>
      rcases next_cases h with ⟨thread, rfl, rfl⟩ | ⟨env, rfl, hmail, rfl⟩ |
        ⟨env, m, mail, b₁, rfl, hmail, hhandler, rfl⟩
      · exact hb.keep (.threadStep he) hdone
      · simpa only [givenAfter, hmail] using hb
      · have hordered := hb.ordered
        rw [hmail, List.cons_append] at hordered
        by_cases hm : m.commits = false
        · have hgiven : givenAfter given b (.actor (.handle env)) = given := by
            simp only [givenAfter, hmail]
            split
            · rename_i hcase
              cases hcase
              cases hm
            · rename_i hcase
              cases hcase
              cases hm
            · rfl
          rw [hgiven]
          refine Holds.handlesPrio
            ((hb.receive hmail hm).keep (.handler he ?_ hhandler) hdone)
          intro prio sender hcase
          subst hcase
          cases hm
        · cases m with
          | top message prio sender =>
              cases message with
              | token t =>
                  -- The token goes into the pool.
                  obtain ⟨rfl, hordered⟩ := hordered
                  have hkept : KeepsTokens
                      (b.receive (.top (.token t) prio sender) mail) b₁ :=
                    .handler he (fun _ _ hcase => by cases hcase) hhandler
                  rw [handler, Checked.pure_eq_ok] at hhandler
                  have hpool : t ∈ b₁.tokenPool := by
                    subst hhandler
                    exact mem_handleTopToken
                  obtain ⟨hprepared, new, hnew, hcommits⟩ :=
                    hkept.mail hb.prepared
                  simp only [givenAfter, hmail]
                  refine ⟨fun _ => hpool, fun _ => hpool, ?_, hprepared⟩
                  show InOrder t true (b₁.mailbox ++ rest)
                  rw [hnew, List.append_assoc]
                  exact hordered.replace fun _ hrest =>
                    (inOrder_append_left hcommits).mpr hrest
              | active =>
                  -- The block has the token and becomes live.
                  obtain ⟨hgiven, hordered⟩ := hordered
                  rw [handler, Checked.pure_eq_ok] at hhandler
                  obtain ⟨-, hpool, hmailbox, hholders⟩ :=
                    handleTopActive_parts env sender
                    (b.receive (.top .active prio sender) mail)
                  rw [hhandler] at hpool hmailbox hholders
                  have hmem : token ∈ b₁.tokenPool := hpool ▸ hb.pool hgiven
                  simp only [givenAfter, hmail]
                  refine ⟨fun _ => hmem, fun _ => hmem, ?_, ?_⟩
                  · show InOrder token false (b₁.mailbox ++ rest)
                    rw [hmailbox, List.append_assoc]
                    exact hordered.replace fun _ hrest => hrest
                  · show b₁.Uncommitted
                    rw [Uncommitted, hholders]
                    exact hb.prepared
              | _ => exact absurd rfl hm
          | _ => exact absurd rfl hm

end Block

/-! ## The invariant of the topology -/

/-- What is still to be sent to a block. -/
def remaining (s : Topology) (i : Nat) : List Message :=
  (if i ∈ s.unsent.1 then [.top s.current true none] else []) ++
    if i ∈ s.workers.1 then s.plan.map (Message.top · true none) else []

/-- **The invariant.** -/
def Committed (token : Token) (s : Topology) : Prop :=
  ∀ i, Holds token (s.blocks i) (s.given i) (s.remaining i)

section Runs

variable {token : Token} {s s' : Topology} {e : TopologyEvent}

theorem committed_init (h : (system token).init s) : s.Committed token := by
  obtain ⟨hstarted, hplan, hunsent, -, hgiven⟩ := h
  intro i
  obtain ⟨initTime, memory, inputConfigs, outputConfigs, env, n, k,
      hstart⟩ := hstarted i
  have hkept := KeepsTokens.topology hstart
  have hmade :
      ({ made initTime memory with inputConfigs, outputConfigs } :
        BlockActor).Uncommitted :=
    fun m hm => nomatch hm
  obtain ⟨hprepared, new, hmail, hnew⟩ := hkept.mail hmade
  have hrest : s.remaining i = [] := by
    rw [remaining, hunsent, hplan]
    simp
  refine ⟨fun hlive => (nomatch hkept.live hlive), fun hcase => ?_,
    ?_, hprepared⟩
  · rw [hgiven i] at hcase
    cases hcase
  · rw [hrest, hmail, List.append_assoc]
    exact (inOrder_append_left hnew).mpr trivial

/-- The five messages are in order, whatever came before. -/
theorem inOrder_plan (given : Bool) (config : GlobalBlockConfig) :
    InOrder token given
      (([.threadGroup, .token token, .config config, .alloc, .active] :
      List TopMessage).map (Message.top · true none)) := by
  exact ⟨rfl, rfl, trivial⟩

/-- **A start** plans the five messages for its workers. -/
theorem Committed.start (hs : s.Committed token) {workers : Workers}
    {config : GlobalBlockConfig}
    (h : s.next token (.start workers config) = .ok s') :
    s'.Committed token := by
  simp only [next] at h
  split at h
  · rename_i hidle
    rw [Checked.pure_eq_ok] at h
    subst h
    intro i
    have hrest : s.remaining i = [] := by
      rw [remaining, hidle.2.1, hidle.1]
      simp
    have hi := hs i
    rw [hrest] at hi
    refine ⟨hi.live, hi.pool, hi.ordered.replace fun given _ => ?_, hi.prepared⟩
    show InOrder token given ((if i ∈ s.unsent.1 then _ else []) ++
      if i ∈ workers.1 then _ else [])
    rw [hidle.2.1, if_neg List.not_mem_nil, List.nil_append]
    split
    · exact inOrder_plan given config
    · trivial
  · rw [Checked.pure_eq_ok] at h
    exact h ▸ hs

/-- **The next broadcast**: what remains for a block stays what it was. -/
theorem Committed.broadcast (hs : s.Committed token)
    (h : s.next token .broadcast = .ok s') : s'.Committed token := by
  simp only [next] at h
  split at h
  · rw [Checked.pure_eq_ok] at h
    exact h ▸ hs
  · rename_i m plan hplan
    split at h
    · rename_i hidle
      rw [Checked.pure_eq_ok] at h
      subst h
      intro i
      have hrest : ({ s with
          plan
          current := m
          unsent := s.workers
          receiver := s.receiver + 1
          outstanding := s.workers.1.length } : Topology).remaining i =
              s.remaining i := by
        simp only [remaining, hidle.1, hplan]
        by_cases hi : i ∈ s.workers.1 <;> simp [hi]
      have hi := hs i
      rw [← hrest] at hi
      exact hi
    · rw [Checked.pure_eq_ok] at h
      exact h ▸ hs

/-- **Sending**: the message moves from what is to be sent into the mailbox. -/
theorem Committed.send (hs : s.Committed token)
    (h : s.next token .send = .ok s') : s'.Committed token := by
  simp only [next] at h
  split at h
  · rw [Checked.pure_eq_ok] at h
    exact h ▸ hs
  · rename_i i rest hnodup hunsent
    rw [Checked.pure_eq_ok] at h
    subst h
    intro j
    have hj := hs j
    by_cases hji : j = i
    · subst hji
      have hnot : j ∉ rest := hnodup.notMem
      have hordered := hj.ordered
      simp only [remaining, hunsent, List.mem_cons_self, if_true,
        List.singleton_append]
        at hordered
      show Holds token (Function.update s.blocks j _ j) (s.given j)
        ((if j ∈ rest then [.top s.current true none] else []) ++
          if j ∈ s.workers.1 then s.plan.map (Message.top · true none) else [])
      rw [Function.update_self, if_neg hnot, List.nil_append]
      refine ⟨hj.live, hj.pool, ?_, ?_⟩
      · show InOrder token (s.given j)
          ((s.blocks j).mailbox ++
            [Message.top s.current true (some s.receiver)] ++ _)
        rw [List.append_assoc, List.singleton_append]
        exact hordered.replace fun _ hrest => (inOrder_top s.current).mp hrest
      · intro m hm
        rw [show (sendTop (.top s.current true (some s.receiver))
          (s.blocks j)).holders =
          (s.blocks j).holders.keepCopy (.top s.current true (some s.receiver))
          from rfl, TokenHolders.keepCopy_prepared] at hm
        exact hj.prepared m hm
    · have hmem : j ∈ s.unsent.1 ↔ j ∈ rest := by
        rw [hunsent]
        exact ⟨fun hj => (List.mem_cons.mp hj).resolve_left hji,
          List.mem_cons_of_mem i⟩
      have hrest : s.remaining j =
          (if j ∈ rest then [.top s.current true none] else []) ++
          if j ∈ s.workers.1 then s.plan.map (Message.top · true none)
          else [] := by
        simp only [remaining, hmem]
      rw [hrest] at hj
      show Holds token (Function.update s.blocks i _ j) (s.given j) _
      rw [Function.update_of_ne hji]
      exact hj

/-- **Every event** keeps the invariant. -/
theorem committed_next (hs : s.Committed token) (he : s.FinishesOutside e)
    (h : s.next token e = .ok s') : s'.Committed token := by
  cases e with
  | start workers config => exact hs.start h
  | broadcast => exact hs.broadcast h
  | send => exact hs.send h
  | block i event =>
      simp only [next, Checked.bind_eq_ok, Checked.pure_eq_ok] at h
      obtain ⟨b', hchange, rfl⟩ := h
      intro j
      by_cases hji : j = i
      · subst hji
        have hj := (hs j).change he.1 (he.2 j event rfl) hchange
        show Holds token (Function.update s.blocks j b' j)
          (Function.update s.given j
            (givenAfter (s.given j) (s.blocks j) event) j) (s.remaining j)
        rwa [Function.update_self, Function.update_self]
      · show Holds token (Function.update s.blocks i b' j)
          (Function.update s.given i
            (givenAfter (s.given i) (s.blocks i) event) j) (s.remaining j)
        rw [Function.update_of_ne hji, Function.update_of_ne hji]
        exact hs j

/-- **A live block holds the token of the top block**, so the token is unique
only when no block is live.

The token is dropped when a block is marked done, and a block that is done is
made live by the next `TopActiveMessage`.  The condition therefore keeps
`mark_done` out of the time between the token and the activation of one start;
everywhere else a block may finish when it likes. -/
theorem live_holds_token
    (hs : ((system token).restrict FinishesOutside).Reachable s) :
    (∀ i, (s.blocks i).blockState = .live → token ∈ (s.blocks i).tokenPool) ∧
      (s.TokenUnique token → ∀ i, (s.blocks i).blockState ≠ .live) := by
  have hcommitted : s.Committed token :=
    TransitionSystem.Reachable.invariant
      (T := (system token).restrict FinishesOutside)
      (fun _ h => committed_init h)
        (fun _ _ _ _ hs h => committed_next hs h.1 h.2) hs
  refine ⟨fun i hlive => (hcommitted i).live hlive, fun hunique i hlive => ?_⟩
  exact (hunique.2 i).1 ((hcommitted i).live hlive)

end Runs

/-! ### A sink that is committed while it is running -/

/-- Sinks with one port. -/
def sinks : Option Topology :=
  ((made 0 addressMemory).handleTopology {} 1 0 none).toOption.map fun b =>
    { blocks := fun _ => b
      workers := ⟨[], .nil⟩
      plan := []
      current := .inert
      unsent := ⟨[], .nil⟩
      receiver := 0
      outstanding := 0
      given := fun _ => false }

/-- Nobody but the top block commits. -/
def plain : TopologyEvent → Bool
  | .block _ (.actor (.thread (.post m))) => !m.commits
  | .block _ (.actor (.handle env)) =>
      env.work.isEmpty && env.propagateTags.isNone && env.called.isEmpty
  | .block _ _ => false
  | _ => true

theorem addressed_of_plain {e : TopologyEvent} (h : plain e = true) :
    Addressed e := by
  cases e with
  | block i event =>
      cases event with
      | topology env n k sender => cases h
      | actor event =>
          cases event with
          | thread event =>
              cases event with
              | post m =>
                  intro m' hm'
                  rcases hm' with hm' | hm' <;> cases hm'
                  simpa [plain] using h
              | _ => cases h
          | handle env =>
              simp only [plain, Bool.and_eq_true, List.isEmpty_iff,
                Option.isNone_iff_eq_none] at h
              obtain ⟨⟨hwork, htags⟩, hcalled⟩ := h
              refine ⟨⟨fun event hevent => ?_, fun overload ho => ?_⟩,
                fun event hevent => ?_⟩
              · rw [hwork] at hevent
                cases hevent
              · rw [htags] at ho
                cases ho
              · rw [hcalled] at hevent
                cases hevent
  | _ => trivial

/-- The event marks no block done that has been given the token. -/
def plainlyOutside (s : Topology) (e : TopologyEvent) : Bool :=
  plain e &&
    match e with
    | .block i event =>
        !s.given i ||
          match (s.blocks i).change event with
          | .ok b => b.blockState != .done
          | .error _ => true
    | _ => true

theorem finishesOutside_of_plainly {s : Topology} {e : TopologyEvent}
    (h : s.plainlyOutside e = true) : s.FinishesOutside e := by
  simp only [plainlyOutside, Bool.and_eq_true] at h
  refine ⟨addressed_of_plain h.1, fun i event hevent hgiven hfinishes => ?_⟩
  subst hevent
  obtain ⟨-, b', hchange, hdone⟩ := hfinishes
  have houtside := h.2
  simp [hgiven, hchange, hdone] at houtside

/-- Start with the sinks and perform events that meet a condition. -/
def runSinks (ok : Topology → TopologyEvent → Bool) (es : List TopologyEvent) :
    Option Topology :=
  sinks.bind (TransitionSystem.runRestricted (fun s e => ok s e = true)
    (next 5) es)

theorem reachable_of_runSinks {ok : Topology → TopologyEvent → Bool}
    {es : List TopologyEvent} {s : Topology} (h : runSinks ok es = some s) :
    ((system 5).restrict fun s e => ok s e = true).Reachable s := by
  obtain ⟨s₀, hsinks, hrun⟩ := Option.bind_eq_some_iff.mp h
  obtain ⟨b₀, hstart, rfl⟩ := Option.map_eq_some_iff.mp hsinks
  have hstarted : b₀.Started := by
    cases htopology : (made 0 addressMemory).handleTopology {} 1 0 none with
    | error e => simp [htopology, Except.toOption] at hstart
    | ok b₁ =>
        rw [htopology] at hstart
        cases hstart
        exact ⟨0, addressMemory, fun _ => {}, fun _ => {}, {}, 1, 0, htopology⟩
  refine .of_restricted_events es (.init ?_) hrun
  exact ⟨fun _ => hstarted, rfl, rfl, rfl, fun _ => rfl⟩

/-- The top block sends a message, and the block handles its oldest one. -/
def round : List TopologyEvent :=
  [.broadcast, .send, .block 0 (.actor (.handle {}))]

/-- A start, up to the token, and the rest of it. -/
def upToToken : List TopologyEvent :=
  .start ⟨[0], by decide⟩ {} :: (round ++ round)

def fromConfig : List TopologyEvent := round ++ round ++ round

/-- The upstream is done. -/
def upstreamDone : List TopologyEvent :=
  [.block 0 (.actor (.thread (.post (.input 0 .check)))),
    .block 0 (.actor (.handle { tokenUnique := fun _ => true }))]

/-- The sink has started, and handles its kick. -/
def running : List TopologyEvent :=
  upToToken ++ fromConfig ++ [TopologyEvent.block 0 (.actor (.handle {}))]

/-- What is known of the sink and of the top block. -/
structure TokenReport where
  state : BlockState
  holds : Bool
  idle : Bool
  deriving DecidableEq

/-- The report. -/
def report (s : Topology) : TokenReport where
  state := (s.blocks 0).blockState
  holds := decide (5 ∈ (s.blocks 0).tokenPool)
  idle := s.plan.isEmpty && s.outstanding == 0

end Topology

/-- A sink that is committed twice holds the token. -/
theorem live_holds_token_sink :
    ∃ s, ((Topology.system 5).restrict Topology.FinishesOutside).Reachable s ∧
      (s.blocks 0).blockState = .live ∧ 5 ∈ (s.blocks 0).tokenPool ∧
      ¬ s.TokenUnique 5 := by
  have hrun : (Topology.runSinks Topology.plainlyOutside
      (Topology.running ++ Topology.upToToken ++ Topology.fromConfig)).map
      Topology.report =
      some ⟨.live, true, true⟩ := by decide
  obtain ⟨s, hs, hreport⟩ := Option.map_eq_some_iff.mp hrun
  simp only [Topology.report, Topology.TokenReport.mk.injEq] at hreport
  have hreach := (Topology.reachable_of_runSinks hs).restrict_mono
    fun _ _ => Topology.finishesOutside_of_plainly
  obtain ⟨hholds, hunique⟩ := Topology.live_holds_token hreach
  exact ⟨s, hreach, hreport.1, hholds 0 hreport.1,
    fun hu => hunique hu 0 hreport.1⟩

/-- **The upstream of a running sink finishes between the token and the
activation**: the sink is marked done, drops the token, and is made live without
it. -/
theorem committed_sink_drops_token :
    ¬ ∀ s : Topology,
      ((Topology.system 5).restrict fun _ e =>
        Topology.Addressed e).Reachable s →
        s.plan = [] → s.outstanding = 0 →
          ∀ i, (s.blocks i).blockState = .live →
          5 ∈ (s.blocks i).tokenPool := by
  intro hall
  have hrun : (Topology.runSinks (fun _ e => Topology.plain e)
      (Topology.running ++
      Topology.upToToken ++ Topology.upstreamDone ++ Topology.fromConfig)).map
        Topology.report =
      some ⟨.live, false, true⟩ := by decide
  obtain ⟨s, hs, hreport⟩ := Option.map_eq_some_iff.mp hrun
  simp only [Topology.report, Topology.TokenReport.mk.injEq,
    decide_eq_false_iff_not, Bool.and_eq_true, List.isEmpty_iff,
    beq_iff_eq] at hreport
  obtain ⟨hlive, hlost, hplan, houtstanding⟩ := hreport
  have hreach := (Topology.reachable_of_runSinks hs).restrict_mono
    fun _ _ => Topology.addressed_of_plain
  exact hlost (hall s hreach hplan houtstanding 0 hlive)

end Gras
