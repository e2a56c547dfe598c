import Gras.Actor.ActorSystem
import Gras.Actor.Moves

/-!
# Runs through a whole life of a block

`lifetime` is the system of a block whose connections may change between two
handlers, besides what `system` allows.  What the documentation of the block API
asks of user code is `Env.Proper`: data move in and out only during `work`.

A handler is taken apart once.  Those that call `task_main` consist of what they
do before (`enter`), the task, and what they do after it (`leave`); for the
others `Reaction` writes out the members that they change and the functions that
they call.  `Handled` puts both together, with one case for all that leave the
data of the block alone.  A list of calls is taken apart into calls by
`calls_rule` and `attempt_rule`.
-/

namespace Gras

/-- What has to be called during work, as its documentation says. -/
def Call.duringWork : Call → Bool
  | consume _ _ => true
  | produce _ _ => true
  | getInputBuffer _ _ => true
  | getOutputBuffer _ => true
  | popOutputBuffer _ _ => true
  | postOutputBuffer _ _ => true
  | _ => false

/-- User code that runs outside work calls nothing of the kind. -/
structure Env.Proper (env : Env) : Prop where
  called : ∀ c ∈ env.called, c.duringWork = false
  tags : ∀ overload ∈ env.propagateTags, ∀ i, ∀ c ∈ overload i,
    c.duringWork = false

/-- A message that carries neither items nor a tag. -/
def Outgoing.carriesNothing : Outgoing → Bool
  | downstream _ (.buffer _) => false
  | downstream _ (.tag _) => false
  | _ => true

/-- The request for buffers that a message is: the port and the
configuration. -/
def Outgoing.request : Outgoing → Option (Nat × SBufferConfig)
  | downstream o (.alloc config) => some (o, config)
  | _ => none

/-- What happens to a block whose connections may change. -/
inductive BlockEvent where
  | actor (event : ActorEvent)
  /-- The block has so many ports from now on. -/
  | topology (env : Env) (numInputs numOutputs : Nat) (sender : Option Address)

namespace BlockActor

/-- One event. -/
def change (b : BlockActor) : BlockEvent → Checked BlockActor
  | .actor event => b.next event
  | .topology env numInputs numOutputs sender =>
      b.handleTopology env numInputs numOutputs sender

/-- The event marks the block done. -/
def Finishes (b : BlockActor) (event : BlockEvent) : Prop :=
  b.blockState ≠ .done ∧ ∃ b', b.change event = .ok b' ∧ b'.blockState = .done

/-- The lives of a block. -/
def lifetime : TransitionSystem BlockActor BlockEvent := .ofNext Started change

/-! ## Lists of calls -/

section Calls

variable {b b' : BlockActor} {env : Env} {now : Int}

/-- **The rule for a list of calls.** -/
theorem calls_rule {cs : List Call} (h : b.calls now cs = .ok b')
    {R : BlockActor → BlockActor → Prop} (hrefl : ∀ s, R s s)
    (htrans : ∀ {s t u}, R s t → R t u → R s u)
    (hcall : ∀ c ∈ cs, ∀ s s', s.call now c = .ok s' → R s s') : R b b' := by
  induction cs generalizing b with
  | nil =>
      rw [calls, Checked.pure_eq_ok] at h
      exact h ▸ hrefl b
  | cons c cs ih =>
      simp only [calls, Checked.bind_eq_ok] at h
      obtain ⟨b₁, hc, h⟩ := h
      have hhead := hcall c List.mem_cons_self b b₁ hc
      exact htrans hhead (ih h fun d hd => hcall d (List.mem_cons_of_mem _ hd))

/-- The same for calls of which the first failure is caught. -/
theorem attempt_rule (cs : List Call) (b : BlockActor)
    {R : BlockActor → BlockActor → Prop} (hrefl : ∀ s, R s s)
    (htrans : ∀ {s t u}, R s t → R t u → R s u)
    (hcall : ∀ c ∈ cs, ∀ s s', s.call now c = .ok s' → R s s') :
    R b (b.attempt now cs) := by
  induction cs generalizing b with
  | nil => exact hrefl b
  | cons c cs ih =>
      rw [attempt]
      split
      · rename_i b₁ hc
        have hhead := hcall c List.mem_cons_self b b₁ hc
        exact htrans hhead
          (ih b₁ fun d hd => hcall d (List.mem_cons_of_mem _ hd))
      · exact hrefl b

/-- What passing tags on does is what the calls of an overload do, or posting
tags. -/
theorem passTags_rule {i : Nat} {tags : List Tag}
    (h : b.passTags env i tags = .ok b') {R : BlockActor → BlockActor → Prop}
    (hrefl : ∀ s, R s s) (htrans : ∀ {s t u}, R s t → R t u → R s u)
    (htag : ∀ (s : BlockActor) o t, R s (s.postOutputTag o t))
    (hcall : ∀ overload ∈ env.propagateTags, ∀ c ∈ overload i, ∀ s s',
      s.call env.now c = .ok s' → R s s') : R b b' := by
  unfold passTags at h
  split at h
  · rw [Checked.pure_eq_ok] at h
    subst h
    unfold propagateTags
    refine List.foldlRecOn (motive := fun c => R b c) _ _
      (hrefl b) fun c hc o _ => ?_
    exact List.foldlRecOn (motive := fun c => R b c) _ _ hc fun c hc t _ =>
      htrans hc (htag c o _)
  · rename_i overload ho
    exact calls_rule h hrefl htrans (hcall overload ho)

/-- What `task_main` does when it does anything. -/
theorem taskMain_parts (hallowed : b.isWorkAllowed = true)
    (h : b.taskMain env = .ok b') :
    ∃ b₁ b₂ b₃, b.prepare env = .ok b₁ ∧ b₁.taskWork env = .ok b₂ ∧
      b₂.finish env = .ok b₃ ∧ b' = b₃.taskKicker := by
  unfold taskMain at h
  rw [if_neg (by simpa using hallowed)] at h
  simp only [Checked.bind_eq_ok, Checked.pure_eq_ok] at h
  obtain ⟨b₁, hprepare, b₂, hwork, b₃, hfinish, rfl⟩ := h
  exact ⟨b₁, b₂, b₃, hprepare, hwork, hfinish, rfl⟩

theorem taskMain_idle (hallowed : b.isWorkAllowed = false)
    (h : b.taskMain env = .ok b') : b' = b := by
  unfold taskMain at h
  rw [if_pos (by simp [hallowed]), Checked.pure_eq_ok] at h
  exact h.symm

end Calls

/-! ## The handlers that call `task_main` -/

/-- What the handler of a message does before it calls `task_main`, if it calls
it. -/
def enter (env : Env) (b : BlockActor) : Message → Option (Checked BlockActor)
  | .input i (.msg msg) =>
      if b.blockState = .done then none else some (b.storeInputMsg env i msg)
  | .input i (.buffer buffer) =>
      if b.blockState = .done then none
      else some (b.storeInputBuffer env i buffer)
  | .input i .check => some (return b.recheckInput env i)
  | .output i (.buffer buffer) =>
      if b.blockState = .done then none
      else some (b.storeOutputBuffer env i buffer)
  | .selfKick => some (return b)
  | _ => none

/-- What it does afterwards. -/
def leave (env : Env) (b : BlockActor) : Message → Checked BlockActor
  | .input i .check =>
      if b.inputFinished i then b.markDone env.now else return b
  | _ => return b

/-- **A handler that calls `task_main`.** -/
theorem handler_of_enter {env : Env} {b b' : BlockActor} {m : Message}
    {store : Checked BlockActor} (henter : b.enter env m = some store)
    (h : b.handler env m = .ok b') :
    ∃ b₀ b₁, store = .ok b₀ ∧ b₀.taskMain env = .ok b₁ ∧
      b₁.leave env m = .ok b' := by
  cases m with
  | input i message =>
      cases message with
      | msg msg =>
          simp only [enter] at henter
          split at henter
          · cases henter
          · rename_i hdone
            cases henter
            simp only [handler, handleInputMsg, if_neg hdone,
              Checked.bind_eq_ok] at h
            obtain ⟨b₀, hstore, htask⟩ := h
            exact ⟨b₀, b', hstore, htask, rfl⟩
      | buffer buffer =>
          simp only [enter] at henter
          split at henter
          · cases henter
          · rename_i hdone
            cases henter
            simp only [handler, handleInputBuffer, if_neg hdone,
              Checked.bind_eq_ok] at h
            obtain ⟨b₀, hstore, htask⟩ := h
            exact ⟨b₀, b', hstore, htask, rfl⟩
      | check =>
          cases henter
          simp only [handler, handleInputCheck, Checked.bind_eq_ok] at h
          obtain ⟨b₁, htask, hleave⟩ := h
          exact ⟨_, b₁, rfl, htask, hleave⟩
      | _ => cases henter
  | output i message =>
      cases message with
      | buffer buffer =>
          simp only [enter] at henter
          split at henter
          · cases henter
          · rename_i hdone
            cases henter
            simp only [handler, handleOutputBuffer, if_neg hdone,
              Checked.bind_eq_ok] at h
            obtain ⟨b₀, hstore, htask⟩ := h
            exact ⟨b₀, b', hstore, htask, rfl⟩
      | _ => cases henter
  | selfKick =>
      cases henter
      exact ⟨b, b', rfl, h, rfl⟩
  | _ => cases henter

/-- The block as it calls work, if the handler of its oldest message does. -/
def atWork (env : Env) (b : BlockActor) : Option BlockActor :=
  match b.mailbox with
  | [] => none
  | m :: rest =>
      match (b.receive m rest).enter env m with
      | some (.ok b₀) =>
          if b₀.isWorkAllowed then (b₀.prepare env).toOption else none
      | _ => none

theorem atWork_of {env : Env} {b b₀ b₁ : BlockActor} {m : Message}
    {rest : List Message} (hmail : b.mailbox = m :: rest)
    (henter : (b.receive m rest).enter env m = some (.ok b₀))
    (hallowed : b₀.isWorkAllowed = true) (hprepare : b₀.prepare env = .ok b₁) :
    b.atWork env = some b₁ := by
  simp only [atWork, hmail, henter, hallowed, hprepare]
  rfl

theorem atWork_eq_some {env : Env} {b b₁ : BlockActor}
    (h : b.atWork env = some b₁) :
    ∃ m rest b₀, b.mailbox = m :: rest ∧
      (b.receive m rest).enter env m = some (.ok b₀) ∧
      b₀.isWorkAllowed = true ∧ b₀.prepare env = .ok b₁ := by
  unfold atWork at h
  split at h
  · cases h
  · rename_i m rest hmail
    split at h
    · rename_i b₀ henter
      split at h
      · rename_i hallowed
        refine ⟨m, rest, b₀, hmail, henter, hallowed, ?_⟩
        cases hprepare : b₀.prepare env with
        | error e => simp [hprepare, Except.toOption] at h
        | ok b₂ =>
            rw [hprepare] at h
            cases h
            rfl
      · cases h
    · cases h

/-! ## What a handler does to the data -/

/-- The data that a block holds and counts. -/
structure Data where
  initTime : Int
  numInputs : Nat
  numOutputs : Nat
  inputQueues : Nat → InputPort
  outputQueues : Nat → OutputPort
  inputsAvailable : BitSet
  inputTagsChanged : Nat → Bool
  inputTags : Nat → List Tag
  numInputMsgsRead : Nat → Nat
  numInputItemsRead : Nat → Nat
  numOutputItemsRead : Nat → Nat
  totalItemsConsumed : Nat → Nat
  totalItemsProduced : Nat → Nat
  inputMsgs : Nat → List Pmc
  itemsConsumed : Nat → Nat
  itemsProduced : Nat → Nat
  outputItemSizes : Nat → Nat
  memory : Memory

/-- The data of a block. -/
def data (b : BlockActor) : Data where
  initTime := b.initTime
  numInputs := b.numInputs
  numOutputs := b.numOutputs
  inputQueues := b.inputQueues
  outputQueues := b.outputQueues
  inputsAvailable := b.inputsAvailable
  inputTagsChanged := b.inputTagsChanged
  inputTags := b.inputTags
  numInputMsgsRead := b.numInputMsgsRead
  numInputItemsRead := b.numInputItemsRead
  numOutputItemsRead := b.numOutputItemsRead
  totalItemsConsumed := b.totalItemsConsumed
  totalItemsProduced := b.totalItemsProduced
  inputMsgs := b.inputMsgs
  itemsConsumed := b.stats.itemsConsumed
  itemsProduced := b.stats.itemsProduced
  outputItemSizes := fun o => (b.outputConfigs o).itemSize
  memory := b.memory

/-- The data stay, and what is sent carries none. -/
structure SameData (b b' : BlockActor) : Prop where
  data : b'.data = b.data
  sent : ∃ out, b'.sent = b.sent ++ out ∧ ∀ m ∈ out, m.carriesNothing = true

/-- The block may kick itself, get tokens and have its inputs renewed; it asks
nobody for buffers. -/
structure QuietControl (b b' : BlockActor) : Prop where
  holders : b'.holders = b.holders
  mailbox : ∃ kicks, b'.mailbox = b.mailbox ++ kicks ∧ ∀ m ∈ kicks,
    m = .selfKick
  tokens : ∀ t ∈ b.tokenPool, t ∈ b'.tokenPool
  inputsDone : b'.inputsDone.size = b.inputsDone.size ∧
    ∀ i, b'.inputsDone.bit i = true → b.inputsDone.bit i = true
  sent : ∃ out, b'.sent = b.sent ++ out ∧ ∀ m ∈ out, m.request = none

/-- **What a handler does that calls no task**: the members that it changes,
written out, and the functions that it calls. -/
inductive Reaction (env : Env) (b : BlockActor) :
    Message → BlockActor → Prop where
  /-- The block is done and drops what arrives at an input. -/
  | droppedInput (i : Nat) (message : InputMessage)
    (hdone : b.blockState = .done) :
      Reaction env b (.input i message) b
  | droppedBuffer (i : Nat) (buffer : SBuffer) (hdone : b.blockState = .done) :
      Reaction env b (.output i (.buffer buffer)) b
  | tag (i : Nat) (tag : Tag) (hlive : b.blockState ≠ .done) :
      Reaction env b (.input i (.tag tag)) { b with
        inputTags := Function.update b.inputTags i (b.inputTags i ++ [tag])
        inputTagsChanged := Function.update b.inputTagsChanged i true }
  | inputToken (i : Nat) (token : Token) :
      Reaction env b (.input i (.token token)) (b.insertToken token)
  | outputToken (i : Nat) (token : Token) :
      Reaction env b (.output i (.token token)) (b.insertToken token)
  | noInputAlloc (i : Nat) (config : SBufferConfig) :
    Reaction env b (.input i (.alloc config)) b
  | inputAlloc (i : Nat) (config : SBufferConfig) (queue : BufferQueue) :
      Reaction env b (.input i (.alloc config))
        { b with sent := b.sent ++ [Outgoing.upstream i (.alloc queue)] }
  | inputUpdate {i : Nat} {b' : BlockActor}
    (h : b.handleInputUpdate env i = .ok b') :
      Reaction env b (.input i .update) b'
  | outputCheck (i : Nat) :
    Reaction env b (.output i .check) (b.recheckOutput env i)
  | outputsDone {i : Nat} {b' : BlockActor}
      (hall : (b.recheckOutput env i).outputsDone.all = true)
      (h : (b.recheckOutput env i).markDone env.now = .ok b') :
      Reaction env b (.output i .check) b'
  | outputHint (i reserveBytes : Nat) (token : Token)
    (hints : Nat → List OutputHint) :
      Reaction env b (.output i (.hint reserveBytes token))
        { b with outputAllocationHints := hints }
  | outputAlloc {i : Nat} {queue : BufferQueue} {p : OutputPort}
      (h : b.handleOutputAlloc env i queue = .ok (b.setOutput i p)) :
      Reaction env b (.output i (.alloc queue)) (b.setOutput i p)
  | outputUpdate {i : Nat} {b' : BlockActor}
    (h : b.handleOutputUpdate env i = .ok b') :
      Reaction env b (.output i .update) b'
  | topAlloc {prio : Bool} {sender : Option Address} {b₁ : BlockActor}
      (hloop : forRange (allocateOutput env) b.numOutputs b = .ok b₁) :
      Reaction env b (.top .alloc prio sender) (b₁.acknowledge sender)
  | topActive (prio : Bool) (sender : Option Address) :
      Reaction env b (.top .active prio sender) (b.handleTopActive env sender)
  | topInert {prio : Bool} {sender : Option Address} {b₁ : BlockActor}
      (h : b.markDone env.now = .ok b₁) :
      Reaction env b (.top .inert prio sender) (b₁.acknowledge sender)
  | topToken (token : Token) (prio : Bool) (sender : Option Address) :
      Reaction env b (.top (.token token) prio sender)
        (b.handleTopToken env token sender)
  | topConfig (config : GlobalBlockConfig) (prio : Bool)
    (sender : Option Address) :
      Reaction env b (.top (.config config) prio sender)
        (b.handleTopConfig config sender)
  | topThreadGroup (prio : Bool) (sender : Option Address) :
      Reaction env b (.top .threadGroup prio sender)
        (b.handleTopThreadGroup sender)
  | callable (key : Nat) (sender : Address) :
      Reaction env b (.callable key sender) (b.handleCallable env key sender)
  | getStats (sender : Address) :
    Reaction env b (.getStats sender) (b.handleGetStats sender)

/-- **Every handler** calls a task, or does one of these. -/
theorem reaction {env : Env} {b b' : BlockActor} {m : Message}
    (henter : b.enter env m = none) (h : b.handler env m = .ok b') :
    Reaction env b m b' := by
  cases m with
  | input i message =>
      cases message with
      | tag tag =>
          rw [handler, Checked.pure_eq_ok] at h
          subst h
          by_cases hdone : b.blockState = .done
          · rw [handleInputTag, if_pos hdone]
            exact .droppedInput i (.tag tag) hdone
          · rw [handleInputTag, if_neg hdone]
            exact .tag i tag hdone
      | msg msg =>
          simp only [enter, ite_eq_left_iff, reduceCtorEq, imp_false,
            not_not] at henter
          rw [handler, handleInputMsg, if_pos henter, Checked.pure_eq_ok] at h
          exact h ▸ .droppedInput i (.msg msg) henter
      | buffer buffer =>
          simp only [enter, ite_eq_left_iff, reduceCtorEq, imp_false,
            not_not] at henter
          rw [handler, handleInputBuffer, if_pos henter,
            Checked.pure_eq_ok] at h
          exact h ▸ .droppedInput i (.buffer buffer) henter
      | token token =>
          simp only [handler, handleInputToken, Checked.bind_eq_ok,
            Checked.pure_eq_ok] at h
          obtain ⟨-, -, rfl⟩ := h
          exact .inputToken i token
      | check => cases henter
      | alloc config =>
          rw [handler, Checked.pure_eq_ok] at h
          subst h
          unfold handleInputAlloc
          dsimp only
          split
          · exact .noInputAlloc i config
          · exact .inputAlloc i config _
      | update => exact .inputUpdate h
  | output i message =>
      cases message with
      | buffer buffer =>
          simp only [enter, ite_eq_left_iff, reduceCtorEq, imp_false,
            not_not] at henter
          rw [handler, handleOutputBuffer, if_pos henter,
            Checked.pure_eq_ok] at h
          exact h ▸ .droppedBuffer i buffer henter
      | token token =>
          simp only [handler, handleOutputToken, Checked.bind_eq_ok,
            Checked.pure_eq_ok] at h
          obtain ⟨-, -, rfl⟩ := h
          exact .outputToken i token
      | check =>
          simp only [handler, handleOutputCheck] at h
          split at h
          · rename_i hall
            exact .outputsDone hall h
          · rw [Checked.pure_eq_ok] at h
            exact h ▸ .outputCheck i
      | hint reserveBytes token =>
          rw [handler, Checked.pure_eq_ok] at h
          exact h ▸ .outputHint i reserveBytes token _
      | alloc queue =>
          have hset : b.handleOutputAlloc env i queue = .ok b' := h
          simp only [handler, handleOutputAlloc, Checked.bind_eq_ok,
            Checked.pure_eq_ok] at h
          obtain ⟨p, -, rfl⟩ := h
          exact .outputAlloc hset
      | update => exact .outputUpdate h
  | top message prio sender =>
      cases message with
      | alloc =>
          simp only [handler, handleTopAlloc, Checked.bind_eq_ok,
            Checked.pure_eq_ok] at h
          obtain ⟨b₁, hloop, rfl⟩ := h
          exact .topAlloc hloop
      | active =>
          rw [handler, Checked.pure_eq_ok] at h
          exact h ▸ .topActive prio sender
      | inert =>
          simp only [handler, handleTopInert, Checked.bind_eq_ok,
            Checked.pure_eq_ok] at h
          obtain ⟨b₁, hdone, rfl⟩ := h
          exact .topInert hdone
      | token token =>
          rw [handler, Checked.pure_eq_ok] at h
          exact h ▸ .topToken token prio sender
      | config config =>
          rw [handler, Checked.pure_eq_ok] at h
          exact h ▸ .topConfig config prio sender
      | threadGroup =>
          rw [handler, Checked.pure_eq_ok] at h
          exact h ▸ .topThreadGroup prio sender
  | callable key sender =>
      rw [handler, Checked.pure_eq_ok] at h
      exact h ▸ .callable key sender
  | getStats sender =>
      rw [handler, Checked.pure_eq_ok] at h
      exact h ▸ .getStats sender
  | selfKick => cases henter

/-- What the handler of a message does. -/
inductive Handled (env : Env) (b : BlockActor) :
    Message → BlockActor → Prop where
  | task {m : Message} {store : Checked BlockActor} {b₀ b₁ b' : BlockActor}
      (henter : b.enter env m = some store) (hstore : store = .ok b₀)
      (htask : b₀.taskMain env = .ok b₁) (hleave : b₁.leave env m = .ok b') :
      Handled env b m b'
  | tag (i : Nat) (tag : Tag) (hstate : b.blockState ≠ .done) :
      Handled env b (.input i (.tag tag)) (b.handleInputTag i tag)
  | inputUpdate {i : Nat} {b' : BlockActor}
    (h : b.handleInputUpdate env i = .ok b') :
      Handled env b (.input i .update) b'
  | outputUpdate {i : Nat} {b' : BlockActor}
    (h : b.handleOutputUpdate env i = .ok b') :
      Handled env b (.output i .update) b'
  | outputAlloc {i : Nat} {queue : BufferQueue} {b' : BlockActor}
      (h : b.handleOutputAlloc env i queue = .ok b') :
        Handled env b (.output i (.alloc queue)) b'
  | topAlloc {prio : Bool} {sender : Option Address} {b' : BlockActor}
      (h : b.handleTopAlloc env sender = .ok b') :
        Handled env b (.top .alloc prio sender) b'
  | outputsDone {i : Nat} {b' : BlockActor}
    (hdone : (b.recheckOutput env i).outputsDone.all = true)
      (h : (b.recheckOutput env i).markDone env.now = .ok b') :
      Handled env b (.output i .check) b'
  | inert {prio : Bool} {sender : Option Address} {b₁ : BlockActor}
      (h : b.markDone env.now = .ok b₁) :
      Handled env b (.top .inert prio sender) (b₁.acknowledge sender)
  | active {prio : Bool} {sender : Option Address} :
      Handled env b (.top .active prio sender) (b.handleTopActive env sender)
  | callable {key : Nat} {sender : Address} :
      Handled env b (.callable key sender) (b.handleCallable env key sender)
  | quiet {m : Message} {b' : BlockActor}
    (hstate : b'.blockState = b.blockState)
      (hdata : SameData b b') (hquiet : QuietControl b b') : Handled env b m b'

section Handled

variable {b b' : BlockActor} {env : Env} {m : Message}

theorem SameData.refl (b : BlockActor) : SameData b b :=
  ⟨rfl, [], by simp, by simp⟩

theorem SameData.trans {b'' : BlockActor} (h : SameData b b')
    (h' : SameData b' b'') : SameData b b'' := by
  obtain ⟨out, hout, hnone⟩ := h.sent
  obtain ⟨out', hout', hnone'⟩ := h'.sent
  refine ⟨h'.data.trans h.data, out ++ out',
    by rw [hout', hout, List.append_assoc], ?_⟩
  intro m hm
  rcases List.mem_append.mp hm with hm | hm
  · exact hnone m hm
  · exact hnone' m hm

/-- One more message that carries nothing. -/
theorem SameData.of_sent {out : Outgoing} (hdata : b'.data = b.data)
    (hsent : b'.sent = b.sent ++ [out]) (hnone : out.carriesNothing = true) :
    SameData b b' :=
  ⟨hdata, [out], hsent, by simpa using hnone⟩

/-- No message at all. -/
theorem SameData.of_eq (hdata : b'.data = b.data) (hsent : b'.sent = b.sent) :
    SameData b b' :=
  ⟨hdata, [], by rw [hsent, List.append_nil], by simp⟩

theorem SameData.acknowledge (h : SameData b b') (sender : Option Address) :
    SameData b (b'.acknowledge sender) := by
  cases sender with
  | none => exact h
  | some a => exact h.trans (.of_sent rfl rfl rfl)

theorem QuietControl.refl (b : BlockActor) : QuietControl b b :=
  ⟨rfl, ⟨[], by simp, by simp⟩, fun _ h => h, ⟨rfl, fun _ h => h⟩, [],
    by simp, by simp⟩

theorem QuietControl.trans {b'' : BlockActor} (h : QuietControl b b')
    (h' : QuietControl b' b'') : QuietControl b b'' := by
  obtain ⟨kicks, hkicks, hself⟩ := h.mailbox
  obtain ⟨kicks', hkicks', hself'⟩ := h'.mailbox
  obtain ⟨out, hout, hnone⟩ := h.sent
  obtain ⟨out', hout', hnone'⟩ := h'.sent
  constructor
  · exact h'.holders.trans h.holders
  · refine ⟨kicks ++ kicks',
      by rw [hkicks', hkicks, List.append_assoc], fun m hm => ?_⟩
    exact (List.mem_append.mp hm).elim (hself m) (hself' m)
  · exact fun t ht => h'.tokens t (h.tokens t ht)
  · exact ⟨h'.inputsDone.1.trans h.inputsDone.1,
      fun i hi => h.inputsDone.2 i (h'.inputsDone.2 i hi)⟩
  · refine ⟨out ++ out', by rw [hout', hout, List.append_assoc], fun m hm => ?_⟩
    exact (List.mem_append.mp hm).elim (hnone m) (hnone' m)

/-- Messages to others, and nothing else. -/
theorem QuietControl.of_sent {out : List Outgoing}
    (hholders : b'.holders = b.holders) (hmail : b'.mailbox = b.mailbox)
    (htokens : b'.tokenPool = b.tokenPool)
    (hdone : b'.inputsDone = b.inputsDone) (hsent : b'.sent = b.sent ++ out)
    (hnone : ∀ m ∈ out, m.request = none) : QuietControl b b' := by
  refine ⟨hholders, ⟨[], by rw [hmail, List.append_nil], by simp⟩, ?_, ?_, out,
    hsent, hnone⟩
  · exact fun t ht => htokens ▸ ht
  · exact ⟨by rw [hdone], fun i hi => hdone ▸ hi⟩

/-- Nothing of it changes. -/
theorem QuietControl.of_eq (hholders : b'.holders = b.holders)
    (hmail : b'.mailbox = b.mailbox) (htokens : b'.tokenPool = b.tokenPool)
    (hdone : b'.inputsDone = b.inputsDone) (hsent : b'.sent = b.sent) :
    QuietControl b b' :=
  .of_sent hholders hmail htokens hdone
    (hsent.trans (List.append_nil _).symm) (by simp)

theorem QuietControl.acknowledge (h : QuietControl b b')
    (sender : Option Address) : QuietControl b (b'.acknowledge sender) := by
  cases sender with
  | none => exact h
  | some a =>
      have hsent : (b'.acknowledge (some a)).sent =
          b'.sent ++ [Outgoing.acknowledge a] := rfl
      exact h.trans
        (.of_sent rfl rfl rfl rfl hsent (by simp [Outgoing.request]))

theorem QuietControl.insertToken (t : Token) (b : BlockActor) :
    QuietControl b (b.insertToken t) := by
  refine ⟨rfl, ⟨[], by simp [BlockActor.insertToken], by simp⟩, fun s hs => ?_,
    ⟨rfl, fun i hi => hi⟩, [], by simp [BlockActor.insertToken], by simp⟩
  show s ∈ if t ∈ b.tokenPool then b.tokenPool else b.tokenPool ++ [t]
  split
  · exact hs
  · exact List.mem_append_left _ hs

theorem acknowledge_blockState (sender : Option Address) (b : BlockActor) :
    (b.acknowledge sender).blockState = b.blockState := by
  cases sender <;> rfl

theorem handleTopToken_quietControl (env : Env) (token : Token)
    (sender : Option Address) (b : BlockActor) :
    QuietControl b (b.handleTopToken env token sender) := by
  have hin : ∀ (l : List Nat) (b : BlockActor),
      QuietControl b (l.foldl (fun b i => b.renewInput env i) b) := by
    intro l b
    refine List.foldlRecOn (motive := QuietControl b) l _
      (.refl b) fun c hc i _ => hc.trans ?_
    refine ⟨rfl, ⟨[], by simp [renewInput, postUpstream], by simp⟩,
      fun t ht => ht, ⟨rfl, fun j hj => ?_⟩, _, List.append_assoc ..,
      by simp [Outgoing.request]⟩
    by_cases hji : j = i
    · subst hji
      simp [renewInput, postUpstream] at hj
    · rwa [show (c.renewInput env i).inputsDone = c.inputsDone.set i false
        from rfl, BitSet.set_bit_of_ne hji] at hj
  have hout : ∀ (l : List Nat) (b : BlockActor),
      QuietControl b (l.foldl (fun b i => b.renewOutput env i) b) := by
    intro l b
    refine List.foldlRecOn (motive := QuietControl b) l _
      (.refl b) fun c hc i _ => hc.trans ?_
    have hsent : (c.renewOutput env i).sent
        = c.sent ++ [Outgoing.downstream i (.token (env.outputToken i))] := rfl
    exact .of_sent rfl rfl rfl rfl hsent (by simp [Outgoing.request])
  unfold handleTopToken
  dsimp only
  exact (((hin _ b).trans (hout _ _)).trans
    (.insertToken token _)).acknowledge sender

/-- New tokens for the ports. -/
theorem handleTopToken_sameData (env : Env) (token : Token)
    (sender : Option Address) (b : BlockActor) :
    SameData b (b.handleTopToken env token sender) ∧
      (b.handleTopToken env token sender).blockState = b.blockState := by
  have hin : ∀ (l : List Nat) (b : BlockActor),
      SameData b (l.foldl (fun b i => b.renewInput env i) b) ∧
        (l.foldl (fun b i => b.renewInput env i) b).blockState =
          b.blockState := by
    intro l b
    refine List.foldlRecOn (motive := fun c : BlockActor =>
      SameData b c ∧ c.blockState = b.blockState) l _
        ⟨.refl b, rfl⟩ fun c hc i _ => ?_
    refine ⟨hc.1.trans ⟨rfl, _, List.append_assoc .., ?_⟩, hc.2⟩
    simp [Outgoing.carriesNothing]
  have hout : ∀ (l : List Nat) (b : BlockActor),
      SameData b (l.foldl (fun b i => b.renewOutput env i) b) ∧
        (l.foldl (fun b i => b.renewOutput env i) b).blockState =
          b.blockState := by
    intro l b
    refine List.foldlRecOn (motive := fun c : BlockActor =>
      SameData b c ∧ c.blockState = b.blockState) l _
        ⟨.refl b, rfl⟩ fun c hc i _ => ?_
    exact ⟨hc.1.trans (.of_sent rfl rfl rfl), hc.2⟩
  obtain ⟨hin, hstate⟩ := hin (List.range b.numInputs) b
  obtain ⟨hout, hstate'⟩ := hout
    (List.range ((List.range b.numInputs).foldl
      (fun b i => b.renewInput env i) b).numOutputs)
    ((List.range b.numInputs).foldl (fun b i => b.renewInput env i) b)
  unfold handleTopToken
  dsimp only
  constructor
  · refine SameData.acknowledge ((hin.trans hout).trans ?_) sender
    exact .of_eq rfl rfl
  · exact (acknowledge_blockState sender _).trans (hstate'.trans hstate)

/-- **Every handler is one of these.** -/
theorem handled (h : b.handler env m = .ok b') : Handled env b m b' := by
  cases henter : b.enter env m with
  | some store =>
      obtain ⟨b₀, b₁, hstore, htask, hleave⟩ := handler_of_enter henter h
      exact .task henter hstore htask hleave
  | none =>
      cases reaction henter h with
      | droppedInput | droppedBuffer | noInputAlloc =>
          exact .quiet rfl (.refl b) (.refl b)
      | tag i tag hlive =>
          have htag : { b with
              inputTags :=
                Function.update b.inputTags i (b.inputTags i ++ [tag])
              inputTagsChanged := Function.update b.inputTagsChanged i true } =
            b.handleInputTag i tag := (if_neg hlive).symm
          rw [htag]
          exact .tag i tag hlive
      | inputToken i token =>
          exact .quiet rfl (.of_eq rfl rfl) (.insertToken token b)
      | outputToken i token =>
          exact .quiet rfl (.of_eq rfl rfl) (.insertToken token b)
      | inputAlloc =>
          exact .quiet rfl (.of_sent rfl rfl rfl)
            (.of_sent rfl rfl rfl rfl rfl (by simp [Outgoing.request]))
      | inputUpdate hupdate => exact .inputUpdate hupdate
      | outputCheck | outputHint =>
          exact .quiet rfl (.of_eq rfl rfl) (.of_eq rfl rfl rfl rfl rfl)
      | outputsDone hall hdone => exact .outputsDone hall hdone
      | outputAlloc hset => exact .outputAlloc hset
      | outputUpdate hupdate => exact .outputUpdate hupdate
      | topAlloc hloop => exact .topAlloc h
      | topActive => exact .active
      | topInert hdone => exact .inert hdone
      | topToken token prio sender =>
          have hsame := handleTopToken_sameData env token sender b
          exact .quiet hsame.2 hsame.1
            (handleTopToken_quietControl env token sender b)
      | topConfig config prio sender =>
          unfold handleTopConfig
          dsimp only
          refine .quiet (acknowledge_blockState sender _)
            (SameData.acknowledge ?_ sender)
            (QuietControl.acknowledge ?_ sender)
          · refine .of_eq ?_ rfl
            simp only [data, Data.mk.injEq, true_and, and_true]
            funext o
            split <;> rfl
          · exact .of_eq rfl rfl rfl rfl rfl
      | topThreadGroup prio sender =>
          unfold handleTopThreadGroup
          refine .quiet (acknowledge_blockState sender _)
            (SameData.acknowledge ?_ sender)
            (QuietControl.acknowledge ?_ sender)
          · exact .of_eq rfl rfl
          · exact .of_eq rfl rfl rfl rfl rfl
      | callable => exact .callable
      | getStats sender =>
          refine .quiet rfl (.of_sent rfl rfl rfl) ?_
          exact ⟨rfl, ⟨[.selfKick], rfl, by simp⟩, fun t ht => ht,
            ⟨rfl, fun i hi => hi⟩, [.stats sender b.currentStats], rfl,
            by simp [Outgoing.request]⟩

end Handled

end BlockActor

end Gras
