import Gras.Actor.AllocationHints
import Gras.Actor.Broadcast
import Gras.Actor.NetworkRuns
import Gras.Actor.WakeUpRuns

/-!
# Starting a flow graph

When the blocks of a flow graph are started, each block tells its upstreams how
many bytes it reserves when it gets the token of the top block, and allocates
its buffers when the top block says so.  What a block sends is in the mailboxes
of its neighbours when its handler returns, and so before the block acknowledges
the message.

Since the top block waits for the acknowledgements, an upstream that allocates
has got the hint of every downstream (`allocation_heeds_hints`).

### The argument

The top block sends one kind of message at a time, and sends the next when all
of the blocks have answered.  So at the time of the allocation every block has
handled its token, and every hint that was sent then is in the mailbox of the
upstream, in front of the message to allocate.  The invariant is that of a
barrier: it says for each phase what has been handled by everyone, and what no
mailbox holds any more.
-/

namespace Gras

/-- The worker posts a message as it is. -/
def Outgoing.PostedAs : Outgoing → Message → Prop
  | .upstream _ message, .output _ message' => message' = message
  | .downstream _ message, .input _ message' => message' = message
  | _, _ => False

/-- The token of a hint. -/
def Outgoing.hintToken : Outgoing → Option Token
  | .upstream _ (.hint _ token) => some token
  | _ => none

/-- A message of the top block that makes a block allocate. -/
def Message.asksAlloc (base : Address) : Message → Bool
  | .top .alloc prio sender => (Message.top .alloc prio sender).asksFrom base
  | _ => false

section Posted

variable {out : Outgoing} {m : Message} {o : Nat}

/-- What is posted comes neither from the top block nor with a token. -/
theorem Outgoing.PostedAs.plain (h : out.PostedAs m) (base : Address) :
    m.carriesToken = false ∧ m.asksFrom base = false ∧
      m.givesToken = false := by
  cases out <;> cases m <;> first | exact h.elim | exact ⟨rfl, rfl, rfl⟩

theorem Outgoing.PostedAs.hint (h : out.PostedAs m) {hint : Nat × Token}
    (hm : m.hintOn o = some hint) :
    ∃ p, out = .upstream p (.hint hint.1 hint.2) := by
  obtain rfl := BlockActor.eq_of_hintOn hm
  cases out with
  | upstream p message => exact ⟨p, congrArg _ h.symm⟩
  | _ => exact h.elim

theorem Outgoing.PostedAs.hintOn_of_not_hint (h : out.PostedAs m)
    (hout : out.isHint = false) : m.hintOn o = none := by
  by_contra hm
  obtain ⟨hint, hm⟩ := Option.ne_none_iff_exists'.mp hm
  obtain ⟨p, rfl⟩ := h.hint hm
  cases hout

end Posted

namespace Wire

/-- The hint for the output of the wire that a message brings. -/
def hintAt (w : Wire) (target : Nat × Message) : Option (Nat × Token) :=
  if target.1 = w.i then target.2.hintOn w.o else none

/-- **What the worker does for a connection**: messages go from port to port,
and what the downstream tells its input arrives once at the output of the
upstream. -/
structure Informs (w : Wire) (route : Route) : Prop where
  posted : ∀ k out, ∀ target ∈ route k out, out.PostedAs target.2
  upstream : ∀ hint : Nat × Token,
    (route w.j (.upstream w.p (.hint hint.1 hint.2))).filterMap
    w.hintAt = [hint]

end Wire

namespace Wire

variable {w w' : Wire} {wires : List Wire} {k : Nat}

theorem posted_carry {out : Outgoing} {target : Nat × Message}
    (h : target ∈ w.carry k out) : out.PostedAs target.2 := by
  cases out with
  | upstream p message =>
      simp only [carry] at h
      split at h
      · rw [List.mem_singleton.mp h]
        rfl
      · cases h
  | downstream o message =>
      simp only [carry] at h
      split at h
      · rw [List.mem_singleton.mp h]
        rfl
      · cases h
  | _ => cases h

/-- A hint goes up the connections of its input. -/
theorem hints_carry (w w' : Wire) (hint : Nat × Token) :
    (w'.carry w.j (.upstream w.p (.hint hint.1 hint.2))).filterMap w.hintAt =
      if w'.j = w.j ∧ w'.p = w.p ∧ w'.i = w.i ∧
      w'.o = w.o then [hint] else [] := by
  simp only [carry]
  by_cases hin : w'.j = w.j ∧ w'.p = w.p
  · by_cases hi : w'.i = w.i
    · by_cases ho : w'.o = w.o
      · simp [hin, hi, ho, hintAt, Message.hintOn]
      · simp [hin, hi, ho, hintAt, Message.hintOn]
    · simp [hin, hi, hintAt]
  · rw [if_neg hin, if_neg fun h => hin ⟨h.1, h.2.1⟩]
    rfl

/-- **The connections of a flow graph**, where every input has one upstream. -/
theorem informs_connect (hw : w ∈ wires)
    (hone : (wires.map fun w => (w.j, w.p)).Nodup) :
    w.Informs (connect wires) := by
  refine ⟨fun k out target htarget => ?_, fun hint => ?_⟩
  · obtain ⟨w', -, hcarry⟩ := List.mem_flatMap.mp htarget
    exact posted_carry hcarry
  · induction wires with
    | nil => cases hw
    | cons w' wires ih =>
        rw [List.map_cons, List.nodup_cons] at hone
        show List.filterMap w.hintAt (w'.carry w.j _ ++ connect wires w.j _) = _
        rw [List.filterMap_append, hints_carry]
        rcases List.mem_cons.mp hw with rfl | hw
        · -- No other connection has this input.
          have hrest :
              (connect wires w.j
                (.upstream w.p (.hint hint.1 hint.2))).filterMap
              w.hintAt = [] := by
            refine List.filterMap_eq_nil_iff.mpr fun target htarget => ?_
            obtain ⟨w', hw', hcarry⟩ := List.mem_flatMap.mp htarget
            have hother : ¬ (w'.j = w.j ∧ w'.p = w.p) := fun heq =>
              hone.1 (List.mem_map.mpr ⟨w', hw', by rw [heq.1, heq.2]⟩)
            rw [carry, if_neg hother] at hcarry
            cases hcarry
          rw [hrest, if_pos ⟨rfl, rfl, rfl, rfl⟩, List.append_nil]
        · have hother :
              ¬ (w'.j = w.j ∧ w'.p = w.p ∧ w'.i = w.i ∧
                w'.o = w.o) := fun heq =>
            hone.1 (List.mem_map.mpr ⟨w, hw, by rw [heq.1, heq.2.1]⟩)
          rw [if_neg hother, List.nil_append]
          exact ih hw hone.2

end Wire

/-- A topology in which what the blocks send arrives at once. -/
structure FlowGraph where
  broadcasts : Broadcasts
  /-- What each block has told the upstream of each input since the last start:
  the bytes that it reserves and a token. -/
  asked : Nat → Nat → Option (Nat × Token)
  /-- The tokens that were made for the inputs. -/
  made : List Token

namespace FlowGraph

open BlockActor

/-- The blocks. -/
def blocks (s : FlowGraph) : Nat → BlockActor := s.broadcasts.topology.blocks

/-- The messages arrive. -/
def deliver (targets : List (Nat × Message)) (s : Topology) : Topology :=
  { s with blocks := targets.foldl Network.arrive s.blocks }

/-- What a block has sent in an event. -/
def sentIn (s t : Topology) (k : Nat) : List Outgoing :=
  (t.blocks k).sent.drop (s.blocks k).sent.length

/-- What the block has told the upstream of the input last. -/
def askedAfter (asked : Nat → Option (Nat × Token)) (out : List Outgoing)
    (p : Nat) : Option (Nat × Token) :=
  (out.filterMap (Outgoing.hintUp p)).getLast?.or (asked p)

/-- The top block is not broadcasting. -/
def idle (s : Topology) : Bool :=
  s.plan.isEmpty && s.unsent.1.isEmpty && s.outstanding == 0

/-- One event; `token` is the token of the top block. -/
def next (route : Route) (token : Token) (s : FlowGraph) :
    TopologyEvent → Checked FlowGraph
  | .start workers config => do
      let broadcasts ← s.broadcasts.next token (.start workers config)
      return { s with
        broadcasts
        asked := if idle s.broadcasts.topology then fun _ _ => none
          else s.asked }
  | .block k event => do
      let broadcasts ← s.broadcasts.next token (.block k event)
      let out := sentIn s.broadcasts.topology broadcasts.topology k
      return {
        broadcasts := { broadcasts with
          topology := deliver (out.flatMap (route k)) broadcasts.topology }
        asked := Function.update s.asked k (askedAfter (s.asked k) out)
        made := s.made ++ out.filterMap Outgoing.hintToken }
  | e => do
      let broadcasts ← s.broadcasts.next token e
      return { s with broadcasts }

/-- The blocks are connected, and were never started. -/
structure Fresh (w : Wire) (s : FlowGraph) : Prop where
  broadcasts : s.broadcasts.Fresh
  asked : ∀ k p, s.asked k p = none
  made : s.made = []
  input : w.p < (s.blocks w.j).numInputs
  output : w.o < (s.blocks w.i).numOutputs

/-- The runs. -/
def system (w : Wire) (route : Route) (token : Token) :
    TransitionSystem FlowGraph TopologyEvent :=
  .ofNext (Fresh w) (next route token)

/-- What others may send to a block: nothing in the name of the top block, no
token for the block, and no hint for the output of the wire. -/
structure Foreign (w : Wire) (base : Address) (k : Nat)
    (m : Message) : Prop where
  asks : m.asksFrom base = false
  token : m.givesToken = false
  hint : k = w.i → m.hintOn w.o = none

/-- **What is asked of the events.**  Only the top block speaks in its name, and
only blocks give hints; the wire stays connected; a token that is made is a new
one; and the token of a hint has not expired as long as the input holds it. -/
def Proper (w : Wire) (s : FlowGraph) : TopologyEvent → Prop
  | .block k (.topology _ numInputs numOutputs sender) =>
      (∀ a ∈ sender, a < s.broadcasts.base) ∧ (k = w.j → w.p < numInputs) ∧
        (k = w.i → w.o < numOutputs)
  | .block k (.actor event) =>
      BringsOnly (Foreign w s.broadcasts.base k) (.actor event) ∧
        ∀ env, event = .handle env →
          ((s.blocks k).mailbox.head?.any Message.givesToken = true →
            ((List.range (s.blocks k).numInputs).map env.inputToken).Nodup ∧
              ∀ i < (s.blocks k).numInputs, env.inputToken i ∉ s.made) ∧
          (k = w.i → ∀ hint ∈ s.asked w.j w.p,
            (s.blocks w.j).inputTokens w.p = hint.2 →
            env.tokenExpired hint.2 = false)
  | _ => True

/-- How far a start is: the current message and what is to be broadcast after
it.  `told` says that the downstream has told what it reserves, and `waits` that
a message waits for it. -/
inductive Stage (token : Token) (told waits : Prop) :
    TopMessage → List TopMessage → Prop where
  | threadGroup (config : GlobalBlockConfig) :
      Stage token told waits .threadGroup
        [.token token, .config config, .alloc, .active]
  | token (config : GlobalBlockConfig) (h : ¬ waits → told) :
      Stage token told waits (.token token) [.config config, .alloc, .active]
  | config (config : GlobalBlockConfig) (h : told) :
      Stage token told waits (.config config) [.alloc, .active]
  | alloc (h : told) : Stage token told waits .alloc [.active]
  | active : Stage token told waits .active []

/-- When more is told and less waits, the stage is the same. -/
theorem Stage.mono {token : Token} {told waits told' waits' : Prop}
    {current : TopMessage} {plan : List TopMessage}
    (h : Stage token told waits current plan) (htold : told → told')
    (hwaits : current = .token token → ¬ waits' → told' ∨ ¬ waits) :
    Stage token told' waits' current plan := by
  cases h with
  | threadGroup config => exact .threadGroup config
  | token config h =>
      exact .token config fun hnone => (hwaits rfl hnone).elim id fun hbefore =>
        htold (h hbefore)
  | config config h => exact .config config (htold h)
  | alloc h => exact .alloc (htold h)
  | active => exact .active

/-- The downstream has told what it reserves, if it is one of the blocks that
are started. -/
def Told (w : Wire) (s : FlowGraph) : Prop :=
  w.j ∈ s.broadcasts.topology.workers.1 → s.asked w.j w.p ≠ none

/-- A message of the top block waits for the downstream. -/
def WaitsFor (w : Wire) (s : FlowGraph) : Prop :=
  Broadcasts.waiting s.broadcasts.base s.broadcasts.topology w.j ≠ []

/-- The top block has started nothing, or is at that stage. -/
def Staged (w : Wire) (token : Token) (s : FlowGraph) : Prop :=
  (s.broadcasts.topology.outstanding = 0 ∧ s.broadcasts.topology.unsent.1 = [] ∧
    (s.broadcasts.topology.plan = [] ∨ ∃ config, s.broadcasts.topology.plan =
      [.threadGroup, .token token, .config config, .alloc, .active])) ∨
  Stage token (s.Told w) (s.WaitsFor w) s.broadcasts.topology.current
    s.broadcasts.topology.plan

/-- **The invariant.** -/
structure Heeds (w : Wire) (token : Token) (s : FlowGraph) : Prop where
  waits : s.broadcasts.Waits
  prepares : ∀ k, (s.blocks k).Prepares (Foreign w s.broadcasts.base k)
  given : ∀ k, ∀ m ∈ (s.blocks k).mailbox, m.givesToken = true →
    m.asksFrom s.broadcasts.base = true
  input : w.p < (s.blocks w.j).numInputs
  output : w.o < (s.blocks w.i).numOutputs
  held : ∀ hint ∈ s.asked w.j w.p,
    (s.blocks w.j).inputTokens w.p = hint.2 ∧ hint.2 ∈ s.made
  known : ∀ hint ∈ s.asked w.j w.p,
    ((s.blocks w.i).hintsAt w.o).filter (·.2 = hint.2) = [hint]
  made : ∀ hint ∈ (s.blocks w.i).hintsAt w.o, hint.2 ∈ s.made
  ordered : (s.blocks w.i).mailbox.Pairwise fun m m' =>
    m.asksAlloc s.broadcasts.base = true → m'.hintOn w.o = none
  staged : s.Staged w token

/-! ## What arrives -/

section Arrivals

variable {w : Wire} {route : Route} {base : Address} {k : Nat}
  {b : BlockActor} {env : Env}

/-- The messages that arrive at a block. -/
theorem foldl_arrive {targets : List (Nat × Message)}
    (h : ∀ target ∈ targets, target.2.carriesToken = false)
    (blocks : Nat → BlockActor) (k : Nat) :
    targets.foldl Network.arrive blocks k = { blocks k with
      mailbox := (blocks k).mailbox ++
        (targets.filter (·.1 = k)).map (·.2) } := by
  induction targets generalizing blocks with
  | nil => simp
  | cons target targets ih =>
      rw [List.forall_mem_cons] at h
      have hpost : (blocks target.1).threadStep (.post target.2) =
          (blocks target.1).sendSelf target.2 := by
        rw [threadStep, if_neg (by simp [h.1])]
      rw [List.foldl_cons, ih h.2, Network.arrive, hpost]
      by_cases hk : target.1 = k
      · subst hk
        simp [sendSelf]
      · simp [hk, Function.update_of_ne (Ne.symm hk)]

/-- Only hints bring hints. -/
theorem routed_hints (hw : w.Informs route) (k : Nat) (out : List Outgoing) :
    (out.flatMap (route k)).filterMap w.hintAt =
      ((out.filter Outgoing.isHint).flatMap (route k)).filterMap w.hintAt := by
  induction out with
  | nil => rfl
  | cons m out ih =>
      rw [List.flatMap_cons, List.filterMap_append, ih]
      by_cases hm : m.isHint = true
      · rw [List.filter_cons_of_pos hm, List.flatMap_cons,
          List.filterMap_append]
      · rw [List.filter_cons_of_neg hm]
        have hnone : (route k m).filterMap w.hintAt = [] := by
          refine List.filterMap_eq_nil_iff.mpr fun target htarget => ?_
          unfold Wire.hintAt
          split
          · exact (hw.posted k m target htarget).hintOn_of_not_hint
              (Bool.not_eq_true _ ▸ hm)
          · rfl
        rw [hnone, List.nil_append]

/-- A hint that arrives has been sent. -/
theorem sent_of_routed (hw : w.Informs route) {out : List Outgoing}
    {hint : Nat × Token}
    (h : hint ∈ (out.flatMap (route k)).filterMap w.hintAt) :
    ∃ p, .upstream p (.hint hint.1 hint.2) ∈ out := by
  obtain ⟨target, htarget, hhint⟩ := List.mem_filterMap.mp h
  obtain ⟨m, hm, hrouted⟩ := List.mem_flatMap.mp htarget
  unfold Wire.hintAt at hhint
  split at hhint
  · obtain ⟨p, rfl⟩ := (hw.posted k m target hrouted).hint hhint
    exact ⟨p, hm⟩
  · cases hhint

/-- One port of all. -/
theorem flatMap_range_of_one {α : Type} {f : Nat → List α} {n p : Nat}
    (hp : p < n) (hf : ∀ i < n, i ≠ p → f i = []) :
    (List.range n).flatMap f = f p := by
  induction n with
  | zero => exact absurd hp (Nat.not_lt_zero p)
  | succ n ih =>
      rw [List.range_succ, List.flatMap_append, List.flatMap_singleton]
      by_cases hn : p = n
      · subst hn
        have hrest : (List.range p).flatMap f = [] :=
          List.flatMap_eq_nil_iff.mpr fun i hi =>
            hf i (by have := List.mem_range.mp hi; omega)
              (Nat.ne_of_lt (List.mem_range.mp hi))
        rw [hrest, List.nil_append]
      · rw [ih (by omega) fun i hi => hf i (by omega),
          hf n (by omega) (Ne.symm hn), List.append_nil]

/-- **The hint of the downstream arrives once**, and no other hint has its
token. -/
theorem routed_once (hw : w.Informs route) (hp : w.p < b.numInputs)
    (hnew : ((List.range b.numInputs).map env.inputToken).Nodup) :
    ((((List.range b.numInputs).map (b.hintOf env)).flatMap
      (route w.j)).filterMap
      w.hintAt).filter (·.2 = env.inputToken w.p) =
        [(b.reserveBytes w.p, env.inputToken w.p)] := by
  rw [List.flatMap_map, List.filterMap_flatMap, List.filter_flatMap,
    flatMap_range_of_one hp fun i hi hne => ?_]
  · rw [hintOf, hw.upstream (_, _)]
    simp [reserveBytes]
  · refine List.filter_eq_nil_iff.mpr fun hint hhint => ?_
    have hrouted :
        hint ∈ ([b.hintOf env i].flatMap (route w.j)).filterMap w.hintAt := by
      simpa using hhint
    obtain ⟨p, hsent⟩ := sent_of_routed hw hrouted
    rw [List.mem_singleton, hintOf, Outgoing.upstream.injEq,
      OutputMessage.hint.injEq] at hsent
    have hdifferent : env.inputToken i ≠ env.inputToken w.p := fun heq =>
      hne (List.inj_on_of_nodup_map hnew (List.mem_range.mpr hi)
        (List.mem_range.mpr hp) heq)
    simpa [hsent.2.2] using hdifferent

end Arrivals

/-! ## Every event keeps the invariant -/

section Runs

variable {w : Wire} {route : Route} {token : Token} {s s' : FlowGraph} {k : Nat}
  {event : BlockEvent}

/-- What arrives at a block when `k` has sent messages. -/
def posts (route : Route) (k : Nat) (out : List Outgoing) (l : Nat) :
    List Message :=
  ((out.flatMap (route k)).filter (·.1 = l)).map (·.2)

theorem hints_posts (w : Wire) (route : Route) (k : Nat) (out : List Outgoing) :
    (posts route k out w.i).filterMap (Message.hintOn w.o) =
      (out.flatMap (route k)).filterMap w.hintAt := by
  rw [posts, List.filterMap_map, List.filterMap_filter]
  refine List.filterMap_congr fun target _ => ?_
  simp [Wire.hintAt]

/-- What is posted is plain. -/
theorem posts_plain (hw : w.Informs route) (base : Address)
    {out : List Outgoing} {l : Nat} {m : Message}
    (hm : m ∈ posts route k out l) :
    m.carriesToken = false ∧ m.asksFrom base = false ∧
      m.givesToken = false := by
  obtain ⟨target, htarget, rfl⟩ := List.mem_map.mp hm
  obtain ⟨o, -, hrouted⟩ := List.mem_flatMap.mp (List.mem_of_mem_filter htarget)
  exact (hw.posted k o target hrouted).plain base

/-- **What an event of a block does**: the block changes, and what it has sent
arrives. -/
structure Effect (w : Wire) (route : Route) (token : Token) (k : Nat)
    (event : BlockEvent) (s s' : FlowGraph) (t : Broadcasts) (b : BlockActor)
    (out : List Outgoing) (rest new : List Message) : Prop where
  next : s.broadcasts.next token (.block k event) = .ok t
  change : (s.blocks k).change event = .ok b
  blocks : t.topology.blocks = Function.update s.blocks k b
  broadcasts : s'.broadcasts = { t with
    topology := deliver (out.flatMap (route k)) t.topology }
  after : ∀ l, s'.blocks l = { t.topology.blocks l with
    mailbox := (t.topology.blocks l).mailbox ++ posts route k out l }
  asked : s'.asked = Function.update s.asked k (askedAfter (s.asked k) out)
  made : s'.made = s.made ++ out.filterMap Outgoing.hintToken
  hints : out.filter Outgoing.isHint = (s.blocks k).hintsSent event
  prepares : b.Prepares (Foreign w s.broadcasts.base k)
  mail : (s.blocks k).mailbox = (s.blocks k).handles event ++ rest
  mail' : b.mailbox = rest ++ new
  new : ∀ m ∈ new, Foreign w s.broadcasts.base k m

theorem deliver_blocks {targets : List (Nat × Message)}
    (h : ∀ target ∈ targets, target.2.carriesToken = false) (t : Topology)
    (l : Nat) :
    (deliver targets t).blocks l = { t.blocks l with
      mailbox := (t.blocks l).mailbox ++
        (targets.filter (·.1 = l)).map (·.2) } :=
  foldl_arrive h t.blocks l

/-- **Messages that arrive** come from no top block. -/
theorem waiting_deliver {base : Address} {targets : List (Nat × Message)}
    (h : ∀ target ∈ targets, target.2.carriesToken = false ∧
      target.2.asksFrom base = false)
    (t : Topology) (l : Nat) :
    Broadcasts.waiting base (deliver targets t) l =
      Broadcasts.waiting base t l := by
  have hmail :
      Broadcasts.topPart base ((targets.filter (·.1 = l)).map (·.2)) = [] := by
    refine Broadcasts.topPart_eq_nil fun m hm => ?_
    obtain ⟨target, htarget, rfl⟩ := List.mem_map.mp hm
    exact (h target (List.mem_of_mem_filter htarget)).2
  rw [Broadcasts.waiting, deliver_blocks fun target htarget =>
    (h target htarget).1, Broadcasts.topPart_append, hmail, List.append_nil]
  rfl

theorem waits_deliver {t : Broadcasts} (ht : t.Waits)
    {targets : List (Nat × Message)}
    (h : ∀ target ∈ targets, target.2.carriesToken = false ∧
      target.2.asksFrom t.base = false) :
    Broadcasts.Waits { t with topology := deliver targets t.topology } := by
  have hwaiting := waiting_deliver h t.topology
  refine ht.keep rfl (fun l => ?_) hwaiting (fun l => ?_) ht.outstanding
  · rw [deliver_blocks fun target htarget => (h target htarget).1]
    exact ht.prepares l
  · rw [hwaiting]
    exact ht.pending l

/-- Hints are notable. -/
theorem hints_notable (out : List Outgoing) :
    (notable out).filter Outgoing.isHint = out.filter Outgoing.isHint := by
  rw [notable, List.filter_filter]
  refine List.filter_congr fun m _ => ?_
  cases m with
  | upstream p message => cases message <;> rfl
  | _ => rfl

theorem ownIn_foreign (w : Wire) (base : Address) (k : Nat) :
    OwnIn (Foreign w base k) :=
  ⟨⟨rfl, rfl, fun _ => rfl⟩, fun _ _ => ⟨rfl, rfl, fun _ => rfl⟩⟩

theorem Proper.brings (he : s.Proper w (.block k event)) :
    BringsOnly (Foreign w s.broadcasts.base k) event := by
  cases event with
  | topology env n m sender => trivial
  | actor event => exact he.1

theorem Proper.asks (he : s.Proper w (.block k event)) :
    s.broadcasts.AsksElsewhere (.block k event) := by
  cases event with
  | topology env n m sender => exact he.1
  | actor event => exact he.1.mono fun m hm => hm.asks

/-- A block that tells what it reserves has got its token, and the tokens of its
inputs are new. -/
theorem Proper.new (he : s.Proper w (.block k event))
    (h : (s.blocks k).hintsSent event ≠ []) :
    ∃ env m rest, (s.blocks k).mailbox = m :: rest ∧ m.givesToken = true ∧
      event = .actor (.handle env) ∧
      (s.blocks k).hintsSent event =
        (List.range (s.blocks k).numInputs).map ((s.blocks k).hintOf env) ∧
      ((List.range (s.blocks k).numInputs).map env.inputToken).Nodup ∧
      ∀ i < (s.blocks k).numInputs, env.inputToken i ∉ s.made := by
  cases event with
  | topology env n m sender => exact absurd rfl h
  | actor event =>
      cases event with
      | thread event => exact absurd rfl h
      | handle env =>
          by_cases hgives :
            (s.blocks k).mailbox.head?.any Message.givesToken = true
          · obtain ⟨hnodup, hnew⟩ := (he.2 env rfl).1 hgives
            cases hmail : (s.blocks k).mailbox with
            | nil => simp [hmail] at hgives
            | cons m rest =>
                have hm : m.givesToken = true := by simpa [hmail] using hgives
                exact ⟨env, m, rest, rfl, hm, rfl, if_pos hgives, hnodup, hnew⟩
          · exact absurd (if_neg hgives) h

/-- A message that gives the token comes from the top block. -/
theorem Heeds.current (hs : s.Heeds w token) {m : Message}
    (hm : m ∈ (s.blocks k).mailbox)
    (hasks : m.asksFrom s.broadcasts.base = true) :
    m = Broadcasts.currentMessage s.broadcasts.topology ∧
      k ∈ s.broadcasts.topology.workers.1 := by
  have hmem : m ∈
      Broadcasts.waiting s.broadcasts.base s.broadcasts.topology k :=
    List.mem_append_left _ (List.mem_filter.mpr ⟨hm, hasks⟩)
  rcases hs.waits.pending k with hnone | ⟨hone, hk⟩
  · rw [hnone] at hmem
    cases hmem
  · rw [hone, List.mem_singleton] at hmem
    exact ⟨hmem, hk⟩

theorem asksFrom_of_asksAlloc {base : Address} {m : Message}
    (h : m.asksAlloc base = true) : m.asksFrom base = true := by
  cases m with
  | top message prio sender =>
      cases message with
      | alloc => exact h
      | _ => cases h
  | _ => cases h

/-- While tokens are given, no block has to allocate. -/
theorem Heeds.no_alloc (hs : s.Heeds w token) {m : Message}
    (hm : m ∈ (s.blocks k).mailbox) (hgives : m.givesToken = true) {l : Nat}
    {m' : Message} (hm' : m' ∈ (s.blocks l).mailbox) :
    m'.asksAlloc s.broadcasts.base = false := by
  by_contra halloc
  rw [Bool.not_eq_false] at halloc
  have heq := (hs.current hm (hs.given k m hm hgives)).1
  rw [← (hs.current hm' (asksFrom_of_asksAlloc halloc)).1] at heq
  obtain ⟨t, prio, sender, rfl⟩ := eq_of_givesToken hgives
  rw [← heq] at halloc
  cases halloc

theorem Heeds.effect (hw : w.Informs route) (hs : s.Heeds w token)
    (he : s.Proper w (.block k event))
    (h : s.next route token (.block k event) = .ok s') :
    ∃ t b out rest new, Effect w route token k event s s' t b out rest new := by
  simp only [FlowGraph.next, Checked.bind_eq_ok, Checked.pure_eq_ok] at h
  obtain ⟨t, hnext, rfl⟩ := h
  have hparts := hnext
  simp only [Broadcasts.next, Topology.next, Checked.bind_eq_ok,
    Checked.pure_eq_ok] at hparts
  obtain ⟨topology, ⟨b, hchange, htopology⟩, ht⟩ := hparts
  have hblocks : t.topology.blocks = Function.update s.blocks k b := by
    rw [← ht, ← htopology]
    rfl
  obtain ⟨hprepares, ⟨rest, new, hmail, hmail', hnew⟩, out, hsent, hanswers⟩ :=
    change_adds (ownIn_foreign w _ k) he.brings (hs.prepares k) hchange
  have hout : sentIn s.broadcasts.topology t.topology k = out := by
    rw [sentIn, hblocks, Function.update_self, hsent]
    exact List.drop_left
  refine ⟨t, b, out, rest, new, hnext, hchange, hblocks,
    by rw [hout], fun l => ?_, by rw [hout], by rw [hout], ?_, hprepares, hmail, hmail', hnew⟩
  · show (deliver _ t.topology).blocks l = _
    rw [hout]
    refine deliver_blocks (fun target htarget => ?_) t.topology l
    obtain ⟨o, -, hrouted⟩ := List.mem_flatMap.mp htarget
    exact ((hw.posted k o target hrouted).plain 0).1
  · rw [← hints_notable, hanswers, hints_answersIn]

section Effect

variable {t : Broadcasts} {b : BlockActor} {out : List Outgoing}
  {rest new : List Message}

/-- A block keeps its messages, gets new ones from others, and then what was
sent. -/
theorem Effect.mailbox (h : Effect w route token k event s s' t b out rest new)
    (l : Nat) :
    ∃ old mail, (s.blocks l).mailbox = old ++ mail ∧
      (old = if l = k then (s.blocks k).handles event else []) ∧
      ∃ foreign, (∀ m ∈ foreign, Foreign w s.broadcasts.base l m) ∧
        (s'.blocks l).mailbox = (mail ++ foreign) ++ posts route k out l := by
  rw [h.after l, h.blocks]
  by_cases hl : l = k
  · subst hl
    refine ⟨_, rest, h.mail, (if_pos rfl).symm, new, h.new, ?_⟩
    rw [Function.update_self, h.mail']
  · refine ⟨[], (s.blocks l).mailbox, rfl, (if_neg hl).symm, [], by simp, ?_⟩
    rw [Function.update_of_ne hl, List.append_nil]

theorem Effect.base (h : Effect w route token k event s s' t b out rest new) :
    s'.broadcasts.base = s.broadcasts.base := by
  have hnext := h.next
  simp only [Broadcasts.next, Checked.bind_eq_ok, Checked.pure_eq_ok] at hnext
  obtain ⟨_, -, ht⟩ := hnext
  rw [h.broadcasts, ← ht]

/-- What a block is left with when `k` has sent its messages. -/
theorem Effect.block (h : Effect w route token k event s s' t b out rest new)
    (l : Nat) :
    (s'.blocks l).hinting = (if l = k then b else s.blocks l).hinting ∧
      (s'.blocks l).numPorts = (if l = k then b else s.blocks l).numPorts ∧
      (s'.blocks l).holders = (if l = k then b else s.blocks l).holders := by
  rw [h.after l, h.blocks]
  by_cases hl : l = k
  · subst hl
    rw [Function.update_self, if_pos rfl]
    exact ⟨rfl, rfl, rfl⟩
  · rw [Function.update_of_ne hl, if_neg hl]
    exact ⟨rfl, rfl, rfl⟩

/-- The ports of the wire stay. -/
theorem Effect.ports (h : Effect w route token k event s s' t b out rest new)
    (hs : s.Heeds w token) (he : s.Proper w (.block k event)) :
    w.p < (s'.blocks w.j).numInputs ∧ w.o < (s'.blocks w.i).numOutputs := by
  have hkept (l : Nat) : (s'.blocks l).numPorts = (s.blocks l).numPorts ∨
      ∃ env n m sender, l = k ∧ event = .topology env n m sender ∧
        (s'.blocks l).numPorts = (n, m) := by
    rw [(h.block l).2.1]
    by_cases hl : l = k
    · subst hl
      rw [if_pos rfl]
      have hchange := h.change
      cases event with
      | topology env n m sender =>
          exact .inr ⟨env, n, m, sender, rfl, rfl, topology_numPorts hchange⟩
      | actor event => exact .inl (next_numPorts hchange)
    · rw [if_neg hl]
      exact .inl rfl
  constructor
  · rcases hkept w.j with hsame | ⟨env, n, m, sender, hk, rfl, hports⟩
    · exact hs.input.trans_eq (congrArg Prod.fst hsame).symm
    · exact (he.2.1 hk.symm).trans_eq (congrArg Prod.fst hports).symm
  · rcases hkept w.i with hsame | ⟨env, n, m, sender, hk, rfl, hports⟩
    · exact hs.output.trans_eq (congrArg Prod.snd hsame).symm
    · exact (he.2.2 hk.symm).trans_eq (congrArg Prod.snd hports).symm

/-- The hints at the output of the wire: those from before, and those that
arrive. -/
theorem Effect.hintsAt (h : Effect w route token k event s s' t b out rest new)
    (hw : w.Informs route) (hs : s.Heeds w token)
    (he : s.Proper w (.block k event)) :
    ∃ kept, (s'.blocks w.i).hintsAt w.o =
        kept ++ (((s.blocks k).hintsSent event).flatMap
          (route k)).filterMap w.hintAt ∧
      (∀ hint ∈ kept, hint.2 ∈ s.made) ∧
      ∀ hint ∈ s.asked w.j w.p, kept.filter (·.2 = hint.2) = [hint] := by
  refine ⟨(t.topology.blocks w.i).hintsAt w.o, ?_, ?_⟩
  · rw [h.after w.i, ← h.hints, ← routed_hints hw, ← hints_posts]
    simp only [BlockActor.hintsAt, List.filterMap_append, List.append_assoc]
  · rw [h.blocks]
    by_cases hi : w.i = k
    · subst hi
      rw [Function.update_self]
      have hnone : ∀ m, Foreign w s.broadcasts.base w.i m →
          m.hintOn w.o = none :=
        fun m hm => hm.hint rfl
      obtain ⟨hmem, hfilter⟩ :=
        change_hints (ownIn_foreign w _ w.i) hnone he.brings
        (hs.prepares w.i) hs.output h.change
      refine ⟨fun hint hhint => hs.made hint (hmem hint hhint),
        fun hint hhint => ?_⟩
      rw [hfilter hint.2 (fun env henv => ?_)
        (by rw [hs.known hint hhint]; rfl), hs.known hint hhint]
      subst henv
      exact (he.2 env rfl).2 rfl hint hhint (hs.held hint hhint).1
    · rw [Function.update_of_ne hi]
      exact ⟨hs.made, hs.known⟩

/-- The downstream tells its upstream about a new token, or nothing changes. -/
theorem Effect.asked_cases
    (h : Effect w route token k event s s' t b out rest new) :
    (s'.asked w.j w.p = s.asked w.j w.p ∧
        (s'.blocks w.j).inputTokens w.p = (s.blocks w.j).inputTokens w.p ∧
        (k = w.j → ((s.blocks k).hintsSent event).filterMap
          (Outgoing.hintUp w.p) = [])) ∨
      k = w.j ∧ ((s.blocks k).hintsSent event).filterMap (Outgoing.hintUp w.p) =
          [((s.blocks k).reserveBytes w.p, (s'.blocks w.j).inputTokens w.p)] ∧
        s'.asked w.j w.p =
          some ((s.blocks k).reserveBytes w.p,
            (s'.blocks w.j).inputTokens w.p) := by
  have htokens : (s'.blocks w.j).inputTokens =
      (if w.j = k then b else s.blocks w.j).inputTokens :=
    congrArg Prod.snd (h.block w.j).1
  rw [h.asked, htokens]
  by_cases hk : w.j = k
  · subst hk
    rw [Function.update_self, if_pos rfl, askedAfter]
    have hup : out.filterMap (Outgoing.hintUp w.p) =
        ((s.blocks w.j).hintsSent event).filterMap (Outgoing.hintUp w.p) := by
      rw [← h.hints, List.filterMap_filter]
      refine List.filterMap_congr fun m _ => ?_
      cases m with
      | upstream p message => cases message <;> rfl
      | _ => rfl
    rw [hup]
    rcases change_hintUp h.change w.p with ⟨hnone, hsame⟩ | hone
    · rw [hnone, hsame]
      exact .inl ⟨rfl, rfl, fun _ => rfl⟩
    · rw [hone]
      exact .inr ⟨rfl, rfl, rfl⟩
  · rw [Function.update_of_ne hk, if_neg hk]
    exact .inl ⟨rfl, rfl, fun hj => absurd hj.symm hk⟩

theorem Effect.mem_made
    (h : Effect w route token k event s s' t b out rest new) :
    (∀ x ∈ s.made, x ∈ s'.made) ∧ ∀ (p : Nat) (hint : Nat × Token),
      .upstream p (.hint hint.1 hint.2) ∈ (s.blocks k).hintsSent event →
      hint.2 ∈ s'.made := by
  rw [h.made]
  refine ⟨fun x hx => List.mem_append_left _ hx, fun p hint hsent => ?_⟩
  rw [← h.hints] at hsent
  exact List.mem_append_right _
    (List.mem_filterMap.mpr ⟨_, List.mem_of_mem_filter hsent, rfl⟩)

/-- The tokens of new hints are new. -/
theorem Proper.token_new (he : s.Proper w (.block k event)) {p : Nat}
    {hint : Nat × Token}
    (hsent : .upstream p (.hint hint.1 hint.2) ∈ (s.blocks k).hintsSent event) :
    hint.2 ∉ s.made := by
  obtain ⟨env, m, rest, -, -, -, hsends, -, hnew⟩ :=
    he.new (List.ne_nil_of_mem hsent)
  rw [hsends] at hsent
  obtain ⟨i, hi, heq⟩ := List.mem_map.mp hsent
  rw [hintOf, Outgoing.upstream.injEq, OutputMessage.hint.injEq] at heq
  exact heq.2.2 ▸ hnew i (List.mem_range.mp hi)

/-- **The hints** that were told are those of the output. -/
theorem Effect.told (h : Effect w route token k event s s' t b out rest new)
    (hw : w.Informs route) (hs : s.Heeds w token)
    (he : s.Proper w (.block k event)) :
    (∀ hint ∈ s'.asked w.j w.p,
      (s'.blocks w.j).inputTokens w.p = hint.2 ∧ hint.2 ∈ s'.made) ∧
    (∀ hint ∈ s'.asked w.j w.p,
      ((s'.blocks w.i).hintsAt w.o).filter (·.2 = hint.2) = [hint]) ∧
    ∀ hint ∈ (s'.blocks w.i).hintsAt w.o, hint.2 ∈ s'.made := by
  obtain ⟨hmade, hsent⟩ := h.mem_made
  obtain ⟨kept, hhints, hkept, hknown⟩ := h.hintsAt hw hs he
  have harrived :
      ∀ hint ∈ (((s.blocks k).hintsSent event).flatMap (route k)).filterMap
        w.hintAt,
      hint.2 ∈ s'.made ∧ hint.2 ∉ s.made := by
    intro hint hhint
    obtain ⟨p, hp⟩ := sent_of_routed hw hhint
    exact ⟨hsent p hint hp, he.token_new hp⟩
  have hall : ∀ hint ∈ (s'.blocks w.i).hintsAt w.o, hint.2 ∈ s'.made := by
    intro hint hhint
    rw [hhints] at hhint
    rcases List.mem_append.mp hhint with hhint | hhint
    · exact hmade _ (hkept hint hhint)
    · exact (harrived hint hhint).1
  rcases h.asked_cases with ⟨hasked, htokens, -⟩ | ⟨rfl, hup, hasked⟩
  · rw [hasked, htokens, hhints]
    refine ⟨fun hint hhint => ?_, fun hint hhint => ?_, hhints ▸ hall⟩
    · exact ⟨(hs.held hint hhint).1, hmade _ (hs.held hint hhint).2⟩
    · -- No hint that arrives has this token.
      rw [List.filter_append, hknown hint hhint]
      refine congrArg _ (List.filter_eq_nil_iff.mpr fun x hx heq => ?_)
      rw [decide_eq_true_eq] at heq
      exact (harrived x hx).2 (heq ▸ (hs.held hint hhint).2)
  · -- The token is new, and the hint is the one that arrives.
    have hmem : ((s.blocks w.j).reserveBytes w.p,
        (s'.blocks w.j).inputTokens w.p) ∈
        ((s.blocks w.j).hintsSent event).filterMap (Outgoing.hintUp w.p) := by
      rw [hup]
      exact List.mem_singleton_self _
    obtain ⟨m, hm, hmhint⟩ := List.mem_filterMap.mp hmem
    obtain ⟨env, m', rest', -, -, -, hsends, hnodup, hnew⟩ :=
      he.new (List.ne_nil_of_mem hm)
    have htoken : (s'.blocks w.j).inputTokens w.p = env.inputToken w.p := by
      rw [hsends] at hm
      obtain ⟨i, -, rfl⟩ := List.mem_map.mp hm
      simp only [hintOf, Outgoing.hintUp] at hmhint
      split at hmhint
      · rename_i hi
        have heq : env.inputToken i = (s'.blocks w.j).inputTokens w.p :=
          (Prod.mk.inj (Option.some.inj hmhint)).2
        rw [← heq, hi]
      · cases hmhint
    rw [hasked, htoken, hhints]
    have hold : kept.filter (·.2 = env.inputToken w.p) = [] := by
      refine List.filter_eq_nil_iff.mpr fun x hx heq => ?_
      rw [decide_eq_true_eq] at heq
      exact hnew w.p hs.input (heq ▸ hkept x hx)
    have hone := routed_once hw hs.input hnodup
    rw [← hsends] at hone
    refine ⟨?_, ?_, hhints ▸ hall⟩
    · rintro hint ⟨⟩
      exact ⟨rfl, (harrived _
        (List.mem_of_mem_filter (hone ▸ List.mem_singleton_self _))).1⟩
    · rintro hint ⟨⟩
      rw [List.filter_append, hold, List.nil_append]
      exact hone

/-- **Hints come first**: when one arrives, no block has to allocate. -/
theorem Effect.ordered (h : Effect w route token k event s s' t b out rest new)
    (hw : w.Informs route) (hs : s.Heeds w token)
    (he : s.Proper w (.block k event)) :
    (s'.blocks w.i).mailbox.Pairwise fun m m' =>
      m.asksAlloc s'.broadcasts.base = true → m'.hintOn w.o = none := by
  obtain ⟨old, mail, hmail, -, foreign, hforeign, hmail'⟩ := h.mailbox w.i
  rw [h.base, hmail']
  by_cases hsent : (s.blocks k).hintsSent event = []
  · have hkept : mail.Pairwise fun m m' =>
        m.asksAlloc s.broadcasts.base = true → m'.hintOn w.o = none :=
      hs.ordered.sublist (hmail ▸ List.sublist_append_right old mail)
    have hnone : ∀ m ∈ foreign ++ posts route k out w.i,
        m.hintOn w.o = none := by
      intro m hm
      rcases List.mem_append.mp hm with hm | hm
      · exact (hforeign m hm).hint rfl
      · have hposts :
            (posts route k out w.i).filterMap (Message.hintOn w.o) = [] := by
          rw [hints_posts, routed_hints hw, h.hints, hsent]
          rfl
        exact List.filterMap_eq_nil_iff.mp hposts m hm
    rw [List.append_assoc, List.pairwise_append]
    refine ⟨hkept, ?_, fun _ _ m hm _ => hnone m hm⟩
    exact List.pairwise_of_forall_mem_list fun _ _ m hm _ => hnone m hm
  · obtain ⟨env, m, rest', hhead, hgives, -⟩ := he.new hsent
    have hm : m ∈ (s.blocks k).mailbox := hhead ▸ List.mem_cons_self
    have hnone : ∀ m' ∈ (mail ++ foreign) ++ posts route k out w.i,
        m'.asksAlloc s.broadcasts.base = false := by
      intro m' hm'
      have hforeign' (hasks : m'.asksFrom s.broadcasts.base = false) :
          m'.asksAlloc s.broadcasts.base = false := by
        by_contra halloc
        rw [asksFrom_of_asksAlloc (Bool.not_eq_false _ ▸ halloc)] at hasks
        cases hasks
      rcases List.mem_append.mp hm' with hm' | hm'
      · rcases List.mem_append.mp hm' with hm' | hm'
        · exact hs.no_alloc hm hgives (hmail ▸ List.mem_append_right old hm')
        · exact hforeign' (hforeign m' hm').asks
      · exact hforeign' (posts_plain hw _ hm').2.1
    refine List.pairwise_of_forall_mem_list fun m' hm' _ _ halloc => ?_
    rw [hnone m' hm'] at halloc
    cases halloc

/-- What the top block does next is the same. -/
theorem Effect.same (h : Effect w route token k event s s' t b out rest new) :
    s'.broadcasts.topology.plan = s.broadcasts.topology.plan ∧
      s'.broadcasts.topology.current = s.broadcasts.topology.current ∧
      s'.broadcasts.topology.workers = s.broadcasts.topology.workers ∧
      s'.broadcasts.topology.unsent = s.broadcasts.topology.unsent ∧
      s'.broadcasts.topology.outstanding ≤ s.broadcasts.topology.outstanding ∧
      t.issued = s.broadcasts.issued := by
  have hnext := h.next
  simp only [Broadcasts.next, Topology.next, Checked.bind_eq_ok,
    Checked.pure_eq_ok] at hnext
  obtain ⟨_, ⟨_, -, rfl⟩, rfl⟩ := hnext
  rw [h.broadcasts]
  refine ⟨rfl, rfl, rfl, rfl, Nat.sub_le _ _, ?_⟩
  rw [Broadcasts.issuedIn, if_pos rfl, List.append_nil]

/-- The invariant of the top block. -/
theorem Effect.waits (h : Effect w route token k event s s' t b out rest new)
    (hw : w.Informs route) (hs : s.Heeds w token)
    (he : s.Proper w (.block k event)) :
    s'.broadcasts.Waits ∧ ∀ l,
      Broadcasts.topPart s.broadcasts.base
          (Broadcasts.handledIn s.broadcasts.topology l (.block k event)) ++
        Broadcasts.waiting s'.broadcasts.base s'.broadcasts.topology l =
        Broadcasts.waiting s.broadcasts.base s.broadcasts.topology l := by
  have hwaits : t.Waits := Broadcasts.waits_next hs.waits he.asks h.next
  have hplain : ∀ target ∈ out.flatMap (route k),
      target.2.carriesToken = false ∧ target.2.asksFrom t.base = false := by
    intro target htarget
    obtain ⟨m, -, hrouted⟩ := List.mem_flatMap.mp htarget
    have hposted := (hw.posted k m target hrouted).plain t.base
    exact ⟨hposted.1, hposted.2.1⟩
  have hbase : t.base = s.broadcasts.base := by
    rw [← h.base, h.broadcasts]
  refine ⟨h.broadcasts ▸ waits_deliver hwaits hplain, fun l => ?_⟩
  have hafter := hs.waits.after hwaits h.next h.same.2.2.2.2.2 l
  rw [h.broadcasts]
  show _ ++ Broadcasts.waiting t.base (deliver _ t.topology) l = _
  rw [waiting_deliver hplain, hbase]
  exact hafter

/-- **When the downstream has handled the message with the token**, it has told
what it reserves. -/
theorem Effect.told_of_handled
    (h : Effect w route token k event s s' t b out rest new)
    (hw : w.Informs route) (hs : s.Heeds w token)
    (he : s.Proper w (.block k event))
    (hcurrent : s.broadcasts.topology.current = .token token)
    (hbefore : s.WaitsFor w) (hafter : ¬ s'.WaitsFor w) :
    s'.asked w.j w.p ≠ none := by
  have hhandled := (h.waits hw hs he).2 w.j
  rw [not_not.mp hafter, List.append_nil] at hhandled
  rcases hs.waits.pending w.j with hnone | ⟨hone, -⟩
  · exact absurd hnone hbefore
  · rw [hone, Broadcasts.handledIn] at hhandled
    by_cases hk : w.j = k
    · subst hk
      rw [if_pos rfl] at hhandled
      cases event with
      | topology env n m sender => cases hhandled
      | actor event =>
          cases event with
          | thread event => cases hhandled
          | handle env =>
              have hmem : Broadcasts.currentMessage s.broadcasts.topology ∈
                  (s.blocks w.j).mailbox.take 1 :=
                List.mem_of_mem_filter (hhandled ▸ List.mem_singleton_self _)
              have hhead : (s.blocks w.j).mailbox.head?.any
                  Message.givesToken = true := by
                cases hmail : (s.blocks w.j).mailbox with
                | nil => simp [hmail] at hmem
                | cons m rest =>
                    rw [hmail, List.take_succ_cons, List.take_zero,
                      List.mem_singleton] at hmem
                    rw [List.head?_cons, Option.any_some, ← hmem,
                      Broadcasts.currentMessage, hcurrent]
                    rfl
              have hsent : (s.blocks w.j).hintOf env w.p ∈
                  (s.blocks w.j).hintsSent (.actor (.handle env)) := by
                rw [hintsSent, if_pos hhead]
                exact List.mem_map_of_mem (List.mem_range.mpr hs.input)
              rcases h.asked_cases with ⟨-, -, hnone⟩ | ⟨-, -, hasked⟩
              · have hup := List.filterMap_eq_nil_iff.mp (hnone rfl) _ hsent
                rw [hintOf, Outgoing.hintUp, if_pos rfl] at hup
                cases hup
              · rw [hasked]
                exact Option.some_ne_none _
    · rw [if_neg hk] at hhandled
      cases hhandled

/-- The stage of the start. -/
theorem Effect.staged (h : Effect w route token k event s s' t b out rest new)
    (hw : w.Informs route) (hs : s.Heeds w token)
    (he : s.Proper w (.block k event)) : s'.Staged w token := by
  obtain ⟨hplan, hcurrent, hworkers, hunsent, houtstanding, -⟩ := h.same
  unfold Staged
  rw [hplan, hcurrent, hunsent]
  rcases hs.staged with ⟨hzero, hnone, hstart⟩ | hstage
  · exact .inl ⟨Nat.le_zero.mp (hzero ▸ houtstanding), hnone, hstart⟩
  · refine .inr (hstage.mono (fun htold hj => ?_) fun htoken hafter => ?_)
    · rcases h.asked_cases with ⟨hasked, -⟩ | ⟨-, -, hasked⟩
      · exact hasked ▸ htold (hworkers ▸ hj)
      · rw [hasked]
        exact Option.some_ne_none _
    · by_cases hbefore : s.WaitsFor w
      · exact .inl fun _ => h.told_of_handled hw hs he htoken hbefore hafter
      · exact .inr hbefore

/-- **An event of a block** keeps the invariant. -/
theorem Effect.heeds (h : Effect w route token k event s s' t b out rest new)
    (hw : w.Informs route) (hs : s.Heeds w token)
    (he : s.Proper w (.block k event)) : s'.Heeds w token := by
  obtain ⟨hheld, hknown, hmade⟩ := h.told hw hs he
  obtain ⟨hinput, houtput⟩ := h.ports hs he
  refine ⟨(h.waits hw hs he).1, fun l => ?_, fun l m hm hgives => ?_, hinput,
    houtput, hheld, hknown, hmade, h.ordered hw hs he, h.staged hw hs he⟩
  · rw [h.base, Prepares, (h.block l).2.2]
    by_cases hl : l = k
    · subst hl
      rw [if_pos rfl]
      exact h.prepares
    · rw [if_neg hl]
      exact hs.prepares l
  · obtain ⟨old, mail, hmail, -, foreign, hforeign, hmail'⟩ := h.mailbox l
    rw [hmail'] at hm
    rw [h.base]
    rcases List.mem_append.mp hm with hm | hm
    · rcases List.mem_append.mp hm with hm | hm
      · exact hs.given l m (hmail ▸ List.mem_append_right old hm) hgives
      · exact absurd hgives (by simp [(hforeign m hm).token])
    · exact absurd hgives (by simp [(posts_plain hw 0 hm).2.2])

end Effect

theorem heeds_init (h : s.Fresh w) : s.Heeds w token := by
  have hstarted (l : Nat) : (s.blocks l).Started := h.broadcasts.1.1 l
  have hadds (l : Nat) := (hstarted l).adds (P := Foreign w s.broadcasts.base l)
  have hnone : ∀ m ∈ (s.blocks w.i).mailbox, m.hintOn w.o = none :=
    fun m hm => ((hadds w.i).2 m hm).hint rfl
  refine ⟨Broadcasts.waits_init h.broadcasts, fun l => (hadds l).1,
    fun l m hm hgives => ?_, h.input, h.output, fun hint hhint => ?_,
    fun hint hhint => ?_, fun hint hhint => ?_,
    List.pairwise_of_forall_mem_list fun _ _ m hm _ => hnone m hm, ?_⟩
  · exact absurd hgives (by simp [((hadds l).2 m hm).token])
  · rw [h.asked] at hhint
    cases hhint
  · rw [h.asked] at hhint
    cases hhint
  · rw [BlockActor.hintsAt, (hstarted w.i).hints, List.map_nil, List.nil_append,
      List.filterMap_eq_nil_iff.mpr hnone] at hhint
    cases hhint
  · obtain ⟨-, hplan, hunsent, houtstanding, -⟩ := h.broadcasts.1
    exact .inl ⟨houtstanding, hunsent, .inl hplan⟩

/-- The blocks do nothing. -/
theorem Heeds.of_blocks (hs : s.Heeds w token) (hblocks : s'.blocks = s.blocks)
    (hbase : s'.broadcasts.base = s.broadcasts.base)
    (hwaits : s'.broadcasts.Waits)
    (hasked : ∀ hint ∈ s'.asked w.j w.p, hint ∈ s.asked w.j w.p)
    (hmade : s'.made = s.made) (hstaged : s'.Staged w token) :
    s'.Heeds w token := by
  refine ⟨hwaits, ?_, ?_, ?_, ?_, fun hint hhint => ?_, fun hint hhint => ?_,
    ?_, ?_, hstaged⟩ <;>
    rw [hblocks]
  · exact hbase ▸ hs.prepares
  · exact hbase ▸ hs.given
  · exact hs.input
  · exact hs.output
  · exact hmade ▸ hs.held hint (hasked hint hhint)
  · exact hs.known hint (hasked hint hhint)
  · exact hmade ▸ hs.made
  · exact hbase ▸ hs.ordered

/-- **A start** begins with nothing told. -/
theorem Heeds.start (hs : s.Heeds w token) {workers : Workers}
    {config : GlobalBlockConfig}
    (h : s.next route token (.start workers config) = .ok s') :
    s'.Heeds w token := by
  simp only [FlowGraph.next, Checked.bind_eq_ok, Checked.pure_eq_ok] at h
  obtain ⟨t, hnext, rfl⟩ := h
  have hwaits : t.Waits :=
    Broadcasts.waits_next (e := .start workers config) hs.waits trivial hnext
  simp only [Broadcasts.next, Topology.next, Checked.bind_eq_ok,
    Checked.pure_eq_ok] at hnext
  obtain ⟨topology, htopology, rfl⟩ := hnext
  split at htopology
  · rename_i hidle
    rw [Checked.pure_eq_ok] at htopology
    subst htopology
    refine hs.of_blocks rfl rfl hwaits (fun hint hhint => ?_) rfl
      (.inl ⟨hidle.2.2, hidle.2.1, .inr ⟨config, rfl⟩⟩)
    rw [if_pos (by simp [idle, hidle])] at hhint
    cases hhint
  · rename_i hbusy
    rw [Checked.pure_eq_ok] at htopology
    subst htopology
    have hnot : idle s.broadcasts.topology = false := by
      simpa [idle, and_assoc] using hbusy
    refine hs.of_blocks rfl rfl hwaits (fun hint hhint => ?_) rfl ?_
    · simpa only [hnot, Bool.false_eq_true, if_false] using hhint
    · unfold Staged Told
      simp only [hnot, Bool.false_eq_true, if_false]
      exact hs.staged

/-- **The next message** is broadcast when nothing waits. -/
theorem Heeds.broadcast (hs : s.Heeds w token)
    (h : s.next route token .broadcast = .ok s') :
    s'.Heeds w token := by
  simp only [FlowGraph.next, Checked.bind_eq_ok, Checked.pure_eq_ok] at h
  obtain ⟨t, hnext, rfl⟩ := h
  have hwaits : t.Waits :=
    Broadcasts.waits_next (e := .broadcast) hs.waits trivial hnext
  simp only [Broadcasts.next, Topology.next, Checked.bind_eq_ok,
    Checked.pure_eq_ok] at hnext
  obtain ⟨topology, htopology, rfl⟩ := hnext
  split at htopology
  · rw [Checked.pure_eq_ok] at htopology
    subst htopology
    exact hs.of_blocks rfl rfl hwaits (fun _ hhint => hhint) rfl hs.staged
  · rename_i m plan hplan
    split at htopology
    · rename_i hidle
      rw [Checked.pure_eq_ok] at htopology
      subst htopology
      refine hs.of_blocks rfl rfl hwaits (fun _ hhint => hhint) rfl (.inr ?_)
      have hnone : ¬ s.WaitsFor w := not_not.mpr (hs.waits.nothing hidle.2 w.j)
      rcases hs.staged with ⟨-, -, hstart | ⟨config, hstart⟩⟩ | hstage
      · rw [hplan] at hstart
        cases hstart
      · rw [hplan] at hstart
        cases hstart
        exact .threadGroup config
      · rw [hplan] at hstage
        generalize s.broadcasts.topology.current = current at hstage
        cases hstage with
        | threadGroup config =>
            refine .token config fun hdone hj => absurd ?_ hdone
            -- It has not been sent yet.
            unfold WaitsFor Broadcasts.waiting
            rw [if_pos hj]
            simp
        | token config h => exact .config config (h hnone)
        | config config h => exact .alloc h
        | alloc h => exact .active
    · rw [Checked.pure_eq_ok] at htopology
      subst htopology
      exact hs.of_blocks rfl rfl hwaits (fun _ hhint => hhint) rfl hs.staged

/-- **The current message** is sent to one more block. -/
theorem Heeds.send (hs : s.Heeds w token)
    (h : s.next route token .send = .ok s') : s'.Heeds w token := by
  simp only [FlowGraph.next, Checked.bind_eq_ok, Checked.pure_eq_ok] at h
  obtain ⟨t, hnext, rfl⟩ := h
  have hwaits : t.Waits :=
    Broadcasts.waits_next (e := .send) hs.waits trivial hnext
  have hparts := hnext
  simp only [Broadcasts.next, Topology.next, Checked.bind_eq_ok,
    Checked.pure_eq_ok] at hparts
  obtain ⟨topology, htopology, rfl⟩ := hparts
  split at htopology
  · rw [Checked.pure_eq_ok] at htopology
    subst htopology
    exact hs.of_blocks rfl rfl hwaits (fun _ hhint => hhint) rfl hs.staged
  · rename_i i rest hnodup hunsent
    rw [Checked.pure_eq_ok] at htopology
    have hissued : s.broadcasts.issued ++
        Broadcasts.issuedIn s.broadcasts.topology topology =
        s.broadcasts.issued := by
      rw [Broadcasts.issuedIn, if_pos (by rw [← htopology]), List.append_nil]
    have hwaiting : Broadcasts.waiting s.broadcasts.base topology w.j =
        Broadcasts.waiting s.broadcasts.base s.broadcasts.topology w.j :=
      hs.waits.after hwaits hnext hissued w.j
    have hblock (l : Nat) : (topology.blocks l).hinting = (s.blocks l).hinting ∧
        (topology.blocks l).numPorts = (s.blocks l).numPorts ∧
        (topology.blocks l).holders.prepared = (s.blocks l).holders.prepared ∧
        (topology.blocks l).mailbox = (s.blocks l).mailbox ++
          if l = i then [Broadcasts.currentMessage s.broadcasts.topology]
          else [] := by
      rw [← htopology]
      by_cases hl : l = i
      · subst hl
        simp only [Function.update_self, if_true]
        exact ⟨rfl, rfl, TokenHolders.keepCopy_prepared .., rfl⟩
      · simp only [Function.update_of_ne hl, if_neg hl, List.append_nil]
        exact ⟨rfl, rfl, rfl, rfl⟩
    have hhints : (topology.blocks w.i).hintsAt w.o =
        (s.blocks w.i).hintsAt w.o := by
      have hstored : (topology.blocks w.i).outputAllocationHints =
          (s.blocks w.i).outputAllocationHints :=
          congrArg Prod.fst (hblock w.i).1
      rw [BlockActor.hintsAt, BlockActor.hintsAt, hstored, (hblock w.i).2.2.2,
        List.filterMap_append]
      split <;> simp [Broadcasts.currentMessage, Message.hintOn]
    refine ⟨hwaits, fun l => ?_, fun l m hm hgives => ?_, ?_, ?_,
      fun hint hhint => ?_, fun hint hhint => ?_, fun hint hhint => ?_, ?_, ?_⟩
    · show (topology.blocks l).Prepares _
      rw [Prepares, (hblock l).2.2.1]
      exact hs.prepares l
    · have hmem : m ∈ (s.blocks l).mailbox ++
          if l = i then
            [Broadcasts.currentMessage s.broadcasts.topology] else [] :=
        (hblock l).2.2.2 ▸ hm
      rcases List.mem_append.mp hmem with hmem | hmem
      · exact hs.given l m hmem hgives
      · split at hmem
        · rw [List.mem_singleton.mp hmem]
          simpa [Broadcasts.currentMessage, Message.asksFrom, Message.asker]
            using hs.waits.receiver
        · cases hmem
    · exact hs.input.trans_eq (congrArg Prod.fst (hblock w.j).2.1).symm
    · exact hs.output.trans_eq (congrArg Prod.snd (hblock w.i).2.1).symm
    · have htokens : (topology.blocks w.j).inputTokens =
          (s.blocks w.j).inputTokens :=
        congrArg Prod.snd (hblock w.j).1
      exact ⟨(congrFun htokens w.p).trans (hs.held hint hhint).1,
        (hs.held hint hhint).2⟩
    · exact hhints ▸ hs.known hint hhint
    · exact hs.made hint (hhints ▸ hhint)
    · show (topology.blocks w.i).mailbox.Pairwise _
      rw [(hblock w.i).2.2.2, List.pairwise_append]
      refine ⟨hs.ordered, by split <;> simp, fun _ _ m hm _ => ?_⟩
      split at hm
      · rw [List.mem_singleton.mp hm]
        rfl
      · cases hm
    · rcases hs.staged with ⟨-, hnone, -⟩ | hstage
      · rw [hunsent] at hnone
        cases hnone
      · refine .inr ?_
        have hworkers : topology.workers = s.broadcasts.topology.workers := by
          rw [← htopology]
        unfold Told WaitsFor
        simp only [hwaiting, hworkers]
        rw [← htopology]
        exact hstage

/-- **Every event** keeps the invariant. -/
theorem heeds_next {e : TopologyEvent} (hw : w.Informs route)
    (hs : s.Heeds w token) (he : s.Proper w e)
    (h : s.next route token e = .ok s') : s'.Heeds w token := by
  cases e with
  | start workers config => exact hs.start h
  | broadcast => exact hs.broadcast h
  | send => exact hs.send h
  | block k event =>
      obtain ⟨t, b, out, rest, new, heffect⟩ := hs.effect hw he h
      exact heffect.heeds hw hs he

/-- **An upstream that allocates heeds the hints.**  When a block handles the
message with which the top block makes it allocate, the downstream of its output
has told how many bytes it reserves, and the buffers that it asks for are that
long, up to the largest length that is allowed. -/
theorem allocation_heeds_hints {prio : Bool} {a : Address} {rest : List Message}
    {env : Env} {b : BlockActor} (hw : w.Informs route)
    (hs : ((system w route token).restrict (Proper w)).Reachable s)
    (hj : w.j ∈ s.broadcasts.topology.workers.1)
    (hmail : (s.blocks w.i).mailbox = .top .alloc prio (some a) :: rest)
    (ha : s.broadcasts.base ≤ a)
    (h : (s.blocks w.i).change (.actor (.handle env)) = .ok b) :
    ∃ bytes t, s.asked w.j w.p = some (bytes, t) ∧
      ∃ config, .downstream w.o (.alloc config) ∈
          b.sent.drop (s.blocks w.i).sent.length ∧
        min ((s.blocks w.i).capOf w.o) bytes ≤ config.length := by
  have hheeds : s.Heeds w token :=
    TransitionSystem.Reachable.invariant
      (T := (system w route token).restrict (Proper w))
      (fun _ h => heeds_init h)
        (fun _ _ _ _ hs h => heeds_next hw hs h.1 h.2) hs
  -- The downstream has handled the message with the token.
  have hasks :
      (Message.top .alloc prio (some a)).asksFrom s.broadcasts.base = true := by
    simpa [Message.asksFrom, Message.asker] using ha
  have hmem : Message.top .alloc prio (some a) ∈ (s.blocks w.i).mailbox :=
    hmail ▸ List.mem_cons_self
  obtain ⟨hcurrent, hi⟩ := hheeds.current hmem hasks
  have halloc : s.broadcasts.topology.current = .alloc := by
    rw [Broadcasts.currentMessage] at hcurrent
    injection hcurrent with hcurrent
    exact hcurrent.symm
  have htold : s.asked w.j w.p ≠ none := by
    rcases hheeds.staged with ⟨hzero, -⟩ | hstage
    · have hnothing := hheeds.waits.nothing hzero w.i
      rw [Broadcasts.waiting, List.append_eq_nil_iff] at hnothing
      exact absurd (List.mem_filter.mpr ⟨hmem, hasks⟩)
        (by rw [show (s.blocks w.i).mailbox.filter _ = [] from hnothing.1]; exact List.not_mem_nil)
    · rw [halloc] at hstage
      generalize s.broadcasts.topology.plan = plan at hstage
      cases hstage with
      | alloc h => exact h hj
  obtain ⟨⟨bytes, t⟩, hhint⟩ := Option.ne_none_iff_exists'.mp htold
  -- Its hint is not behind the message.
  have hordered := hheeds.ordered
  rw [hmail, List.pairwise_cons] at hordered
  have hrest : rest.filterMap (Message.hintOn w.o) = [] :=
    List.filterMap_eq_nil_iff.mpr fun m hm => hordered.1 m hm hasks
  have hstored : (bytes, t) ∈ (s.blocks w.i).hintsAt w.o :=
    List.mem_of_mem_filter
      (hheeds.known (bytes, t) hhint ▸ List.mem_singleton_self _)
  rw [BlockActor.hintsAt, hmail, List.filterMap_cons_none rfl, hrest,
    List.append_nil] at hstored
  obtain ⟨hint, hmem', heq⟩ := List.mem_map.mp hstored
  cases heq
  -- And so the buffers are as long as it says.
  have hnext : (s.blocks w.i).next (.handle env) = .ok b := h
  rcases next_cases hnext with ⟨thread, hcase, -⟩ | ⟨env', hcase, hempty, -⟩ |
    ⟨env', m, rest', b₁, hcase, hcons, hhandler, rfl⟩
  · cases hcase
  · rw [hmail] at hempty
    cases hempty
  · cases hcase
    rw [hmail] at hcons
    cases hcons
    obtain ⟨out, hsent, hall, hlength⟩ := topAlloc_heeds hhandler
    obtain ⟨config, hconfig⟩ := hall w.o hheeds.output
    refine ⟨_, _, hhint, config, ?_, hlength w.o config hconfig hint hmem'⟩
    have hnew : b₁.sent.drop (s.blocks w.i).sent.length = out := by
      rw [hsent]
      exact List.drop_left
    exact hnew ▸ hconfig

end Runs

/-! ### A source and two sinks -/

/-- Only the top block sends messages, the user code does nothing, and tokens
are made and expire as they should. -/
def properly (w : Wire) (s : FlowGraph) : TopologyEvent → Bool
  | .block k (.actor (.handle env)) =>
      env.work.isEmpty && env.propagateTags.isNone && env.called.isEmpty &&
        decide ((s.blocks k).mailbox.head?.any Message.givesToken = true →
          ((List.range (s.blocks k).numInputs).map env.inputToken).Nodup ∧
            ∀ i < (s.blocks k).numInputs, env.inputToken i ∉ s.made) &&
        (s.asked w.j w.p).all fun hint => !env.tokenExpired hint.2
  | .block _ _ => false
  | _ => true

theorem proper_of_properly {w : Wire} {s : FlowGraph} {e : TopologyEvent}
    (h : s.properly w e = true) : s.Proper w e := by
  cases e with
  | block k event =>
      cases event with
      | topology env n m sender => cases h
      | actor event =>
          cases event with
          | thread event => cases h
          | handle env =>
              simp only [properly, Bool.and_eq_true, List.isEmpty_iff,
                Option.isNone_iff_eq_none, decide_eq_true_eq] at h
              obtain ⟨⟨⟨⟨hwork, htags⟩, hcalled⟩, hnew⟩, hheld⟩ := h
              refine ⟨⟨fun c hc => ?_, fun c hc => ?_⟩, ?_⟩
              · rcases hc with hc | ⟨overload, ho, -⟩
                · rw [hwork] at hc
                  cases hc
                · rw [htags] at ho
                  cases ho
              · rw [hcalled] at hc
                cases hc
              · rintro env' ⟨⟩
                refine ⟨hnew, fun _ hint hhint _ => ?_⟩
                rw [Option.mem_def.mp hhint] at hheld
                simpa using hheld
  | _ => trivial

/-- Start with a source and two sinks that reserve so many bytes, and perform
events. -/
def runStart (reserve : Nat) (es : List TopologyEvent) : Option FlowGraph :=
  Counting.source.toOption.bind fun source =>
    (sink { reserveItems := reserve }).toOption.bind fun sink =>
      if 0 < sink.numInputs ∧ 0 < source.numOutputs then
        TransitionSystem.runRestricted
          (fun s e => properly ⟨0, 0, 1, 0, 1⟩ s e = true)
          (next (connect Network.fork) 5) es
          { broadcasts :=
              { topology :=
                  { blocks := fun k => if k = 0 then source else sink
                    workers := ⟨[], List.nodup_nil⟩
                    plan := []
                    current := .inert
                    unsent := ⟨[], List.nodup_nil⟩
                    receiver := 0
                    outstanding := 0
                    given := fun _ => false }
                base := 0
                issued := []
                handled := fun _ => [] }
            asked := fun _ _ => none
            made := [] }
      else none

/-- A message is broadcast and sent to the three blocks. -/
def sendAll : List TopologyEvent := [.broadcast, .send, .send, .send]

/-- A block handles its oldest messages; its inputs get that token. -/
def handles (k n : Nat) (token : Token) : List TopologyEvent :=
  .replicate n (.block k (.actor (.handle { inputToken := fun _ => token })))

/-- The flow graph is started, up to the allocation by the source. -/
def upToAlloc : List TopologyEvent :=
  .start ⟨[0, 1, 2], by decide⟩ {} :: sendAll ++ handles 0 1 0 ++
    handles 1 1 0 ++ handles 2 1 0 ++
    sendAll ++ handles 1 1 10 ++ handles 2 1 20 ++ handles 0 1 0 ++
    sendAll ++ handles 0 5 0 ++ handles 1 2 0 ++ handles 2 2 0 ++ sendAll

theorem reachable_of_runStart {reserve : Nat} {es : List TopologyEvent}
    {s : FlowGraph} (h : runStart reserve es = some s) :
    ((system ⟨0, 0, 1, 0, 1⟩ (connect Network.fork) 5).restrict
      (Proper ⟨0, 0, 1, 0, 1⟩)).Reachable s := by
  obtain ⟨source, hup, h⟩ := Option.bind_eq_some_iff.mp h
  obtain ⟨sink, hdown, h⟩ := Option.bind_eq_some_iff.mp h
  split at h
  · rename_i hports
    refine .of_stronger_events (fun _ _ => proper_of_properly) es (.init ?_) h
    refine ⟨⟨⟨fun k => ?_, rfl, rfl, rfl, fun _ => rfl⟩, rfl, rfl,
      fun _ => rfl⟩, fun _ _ => rfl, rfl, hports.1, hports.2⟩
    show (if k = 0 then source else sink).Started
    split
    · exact Counting.source_started (Checked.toOption_eq_some.mp hup)
    · exact sink_started (Checked.toOption_eq_some.mp hdown)
  · cases h

/-- Who is to be told about the allocation that the oldest message asks for. -/
def allocates : List Message → Option (Bool × Address)
  | .top .alloc prio (some a) :: _ => some (prio, a)
  | _ => none

theorem eq_of_allocates {l : List Message} {prio : Bool} {a : Address}
    (h : allocates l = some (prio, a)) :
    ∃ rest, l = .top .alloc prio (some a) :: rest := by
  unfold allocates at h
  split at h
  · rename_i rest
    cases h
    exact ⟨rest, rfl⟩
  · cases h

/-- What the first sink has told, what the source is to handle and may allocate,
and whether it can. -/
def sizes (s : FlowGraph) :
    Option (Nat × Token) × Option (Bool × Address) × Nat × Bool × Bool :=
  (s.asked 1 0, allocates (s.blocks 0).mailbox, (s.blocks 0).capOf 0,
    decide (s.broadcasts.base = 0 ∧ 1 ∈ s.broadcasts.topology.workers.1),
    ((s.blocks 0).change (.actor (.handle {}))).toOption.isSome)

end FlowGraph

/-- A sink that reserves more than `AT_LEAST_BYTES` gets buffers that are long
enough. -/
theorem allocation_heeds_hints_fork :
    ∃ s b config, FlowGraph.runStart 40000 FlowGraph.upToAlloc = some s ∧
      (s.blocks 0).change (.actor (.handle {})) = .ok b ∧
      .downstream 0 (.alloc config) ∈ b.sent.drop (s.blocks 0).sent.length ∧
      40000 ≤ config.length := by
  have hrun : (FlowGraph.runStart 40000 FlowGraph.upToAlloc).map
      FlowGraph.sizes =
      some (some (40000, 10), some (true, 4), ahhTooManyBytes, true,
        true) := by decide
  obtain ⟨s, hs, hsizes⟩ := Option.map_eq_some_iff.mp hrun
  simp only [FlowGraph.sizes, Prod.mk.injEq, decide_eq_true_eq,
    Option.isSome_iff_exists]
    at hsizes
  obtain ⟨hasked, hallocates, hcap, ⟨hbase, hworker⟩, b, hb⟩ := hsizes
  obtain ⟨rest, hmail⟩ := FlowGraph.eq_of_allocates hallocates
  have hchange := Checked.toOption_eq_some.mp hb
  obtain ⟨bytes, t, htold, config, hsent, hlength⟩ :=
    FlowGraph.allocation_heeds_hints
    (Wire.informs_connect (by simp [Network.fork]) (by decide))
    (FlowGraph.reachable_of_runStart hs) hworker hmail
      (by rw [hbase]; exact Nat.zero_le _) hchange
  rw [hasked] at htold
  cases htold
  rw [show (s.blocks 0).capOf 0 = ahhTooManyBytes from hcap] at hlength
  exact ⟨s, b, config, hs, hchange, hsent, hlength.trans' (by decide)⟩

end Gras
