import Gras.Actor.InputStream

/-!
# What a handler adds

A handler adds messages to the mailbox of its block and to what the block has
sent.  Into the mailbox come kicks, the buffers that an allocator has made, what
the user code posts at its own inputs, and what other threads send meanwhile;
`Extends P` says that all of these are in `P`.

Of what is sent, acknowledgements and allocation hints are the `notable` part:
they answer the message that is handled, and nothing else sends any
(`handler_adds`).
-/

namespace Gras

/-- Acknowledgements and allocation hints. -/
def Outgoing.notable : Outgoing → Bool
  | .acknowledge _ => true
  | .upstream _ (.hint _ _) => true
  | _ => false

/-- What is notable among the messages. -/
def notable (out : List Outgoing) : List Outgoing := out.filter Outgoing.notable

theorem notable_append (out out' : List Outgoing) :
    notable (out ++ out') = notable out ++ notable out' := List.filter_append ..

theorem notable_of_none {out : List Outgoing}
    (h : ∀ m ∈ out, m.notable = false) :
    notable out = [] := List.filter_eq_nil_iff.mpr fun m hm => by simp [h m hm]

/-- The acknowledgement of who asks for one. -/
def acknowledgement (sender : Option Address) : List Outgoing :=
  sender.toList.map Outgoing.acknowledge

/-- What another thread sends is in `P`. -/
def ThreadEvent.Brings (P : Message → Prop) : ThreadEvent → Prop
  | .post m => P m
  | .prepare m => m.carriesToken = true → P m
  | _ => True

/-- The same while user code runs, and what the user code posts at its
inputs. -/
def Call.Brings (P : Message → Prop) : Call → Prop
  | .postInput i message => P (.input i message)
  | .thread event => event.Brings P
  | _ => True

namespace BlockActor

/-- What other threads have prepared is in `P`. -/
def Prepares (P : Message → Prop) (b : BlockActor) : Prop :=
  ∀ m ∈ b.holders.prepared, P m

/-- **Between the states** messages of `P` were put into the mailbox, and these
answers were sent. -/
structure Extends (P : Message → Prop) (answers : List Outgoing)
    (b b' : BlockActor) : Prop where
  mail : b.Prepares P →
    b'.Prepares P ∧ ∃ new, b'.mailbox = b.mailbox ++ new ∧ ∀ m ∈ new, P m
  sent : ∃ out, b'.sent = b.sent ++ out ∧ notable out = answers

/-- What a block tells the upstream of an input when it handles a
`TopTokenMessage`: the bytes that it reserves, and the token of the input. -/
def hintOf (env : Env) (b : BlockActor) (i : Nat) : Outgoing :=
  .upstream i (.hint
    (sizeMul (b.inputConfigs i).reserveItems (b.inputConfigs i).itemSize)
    (env.inputToken i))

/-- The answers to a message. -/
def answers (env : Env) (b : BlockActor) : Message → List Outgoing
  | .top (.token _) _ sender => (List.range b.numInputs).map (b.hintOf env) ++
      acknowledgement sender
  | .top _ _ sender => acknowledgement sender
  | _ => []

/-- What an event brings is in `P`. -/
def BringsOnly (P : Message → Prop) : BlockEvent → Prop
  | .actor (.thread event) => event.Brings P
  | .actor (.handle env) =>
      (∀ c, env.Calls c → c.Brings P) ∧ ∀ c ∈ env.called, c.Brings P
  | .topology _ _ _ _ => True

/-- What a block sends itself is in `P`. -/
structure OwnIn (P : Message → Prop) : Prop where
  kick : P .selfKick
  buffer : ∀ o buff, P (.output o (.buffer buff))

section Extends

variable {P : Message → Prop} {b b' b'' : BlockActor} {env : Env} {now : Int}
  {m : Message}
  {l l' : List Outgoing}

theorem Extends.refl (P : Message → Prop) (b : BlockActor) : Extends P [] b b :=
  ⟨fun hb => ⟨hb, [], by simp, by simp⟩, [], by simp, rfl⟩

theorem Extends.append (h : Extends P l b b') (h' : Extends P l' b' b'') :
    Extends P (l ++ l') b b'' := by
  constructor
  · intro hb
    obtain ⟨hb', new, hmail, hnew⟩ := h.mail hb
    obtain ⟨hb'', new', hmail', hnew'⟩ := h'.mail hb'
    refine ⟨hb'', new ++ new',
      by rw [hmail', hmail, List.append_assoc], fun m hm => ?_⟩
    exact (List.mem_append.mp hm).elim (hnew m) (hnew' m)
  · obtain ⟨out, hsent, hanswers⟩ := h.sent
    obtain ⟨out', hsent', hanswers'⟩ := h'.sent
    refine ⟨out ++ out', by rw [hsent', hsent, List.append_assoc], ?_⟩
    rw [notable_append, hanswers, hanswers']

/-- No answer was sent before. -/
theorem Extends.trans (h : Extends P [] b b') (h' : Extends P l b' b'') :
    Extends P l b b'' :=
  h.append h'

theorem Extends.of_append (new : List Message) (out : List Outgoing)
    (hprepared : b'.holders.prepared = b.holders.prepared)
    (hmail : b'.mailbox = b.mailbox ++ new) (hnew : ∀ m ∈ new, P m)
    (hsent : b'.sent = b.sent ++ out) (hanswers : notable out = l) :
    Extends P l b b' := by
  refine ⟨fun hb => ⟨?_, new, hmail, hnew⟩, out, hsent, hanswers⟩
  rwa [Prepares, hprepared]

/-- Nothing comes into the mailbox. -/
theorem Extends.of_out (out : List Outgoing)
    (hprepared : b'.holders.prepared = b.holders.prepared)
    (hmail : b'.mailbox = b.mailbox) (hsent : b'.sent = b.sent ++ out)
    (hanswers : notable out = l) : Extends P l b b' :=
  .of_append [] out hprepared (by rw [hmail, List.append_nil])
    (by simp) hsent hanswers

/-- Something is sent to other blocks. -/
theorem Extends.of_sent {out : List Outgoing}
    (hcontrol : b'.control = b.control) (hsent : b'.sent = b.sent ++ out)
    (hnone : ∀ m ∈ out, m.notable = false) : Extends P [] b b' :=
  .of_out out (congrArg (·.holders.prepared) hcontrol)
    (congrArg Control.mailbox hcontrol) hsent
    (notable_of_none hnone)

theorem Extends.of_eq (hprepared : b'.holders.prepared = b.holders.prepared)
    (hmail : b'.mailbox = b.mailbox) (hsent : b'.sent = b.sent) :
    Extends P [] b b' :=
  .of_out [] hprepared hmail (by rw [hsent, List.append_nil]) rfl

theorem Extends.of_control (hcontrol : b'.control = b.control)
    (hsent : b'.sent = b.sent) : Extends P [] b b' :=
  .of_eq (congrArg (·.holders.prepared) hcontrol)
    (congrArg Control.mailbox hcontrol) hsent

/-- A message to itself, and maybe one to somebody else. -/
theorem Extends.self {out : List Outgoing} (hm : P m)
    (hprepared : b'.holders.prepared = b.holders.prepared)
    (hmail : b'.mailbox = b.mailbox ++ [m]) (hsent : b'.sent = b.sent ++ out)
    (hanswers : notable out = l) : Extends P l b b' :=
  .of_append [m] out hprepared hmail (by simpa using hm) hsent hanswers

theorem Extends.sendSelf (hm : P m) : Extends P [] b (b.sendSelf m) :=
  .self hm rfl rfl (List.append_nil _).symm rfl

theorem Extends.taskKicker (hown : OwnIn P) (b : BlockActor) :
    Extends P [] b b.taskKicker := by
  unfold BlockActor.taskKicker
  split
  · exact .sendSelf hown.kick
  · exact .refl P b

/-- **The acknowledgement.** -/
theorem Extends.acknowledge (h : Extends P l b b') (sender : Option Address) :
    Extends P (l ++ acknowledgement sender) b (b'.acknowledge sender) := by
  cases sender with
  | none => exact (List.append_nil l).symm ▸ h
  | some a =>
      exact h.append (.of_out [.acknowledge a] rfl rfl rfl rfl)

/-- Nothing else is done. -/
theorem Extends.reply {s : BlockActor} (hholders : s.holders = b.holders)
    (hmail : s.mailbox = b.mailbox) (hsent : s.sent = b.sent)
    (sender : Option Address) :
    Extends P (acknowledgement sender) b (s.acknowledge sender) :=
  Extends.acknowledge
    (.of_eq (congrArg (·.prepared) hholders) hmail hsent) sender

theorem Extends.threadStep {event : ThreadEvent} (h : event.Brings P) :
    Extends P [] b (b.threadStep event) := by
  cases event with
  | post m =>
      rw [BlockActor.threadStep]
      split
      · exact .refl P b
      · exact .sendSelf h
  | prepare m =>
      rw [BlockActor.threadStep]
      by_cases hm : m.carriesToken = true
      · rw [if_neg (not_not.mpr hm)]
        refine ⟨fun hb =>
          ⟨fun m' hm' => ?_, [], (List.append_nil _).symm, by simp⟩, [],
          (List.append_nil _).symm, rfl⟩
        rcases List.mem_append.mp hm' with hm' | hm'
        · exact hb m' hm'
        · rw [List.mem_singleton] at hm'
          exact hm' ▸ h hm
      · rw [if_pos hm]
        exact .refl P b
  | send k =>
      rw [BlockActor.threadStep]
      cases hk : b.holders.prepared[k]? with
      | none => exact .refl P b
      | some m =>
          refine ⟨fun hb => ⟨fun m' hm' => ?_, [m], rfl, ?_⟩, [],
            (List.append_nil _).symm, rfl⟩
          · rw [TokenHolders.keepCopy_prepared] at hm'
            exact hb m' (List.mem_of_mem_eraseIdx hm')
          · simpa using hb m (List.mem_of_getElem? hk)
  | _ => exact .of_eq rfl rfl rfl

theorem Extends.markDone (h : b.markDone now = .ok b') : Extends P [] b b' := by
  by_cases hdone : b.blockState = .done
  · rw [BlockActor.markDone, if_pos hdone, Checked.pure_eq_ok] at h
    exact h ▸ .refl P b
  · rcases markDone_control h with ⟨hstate, -⟩ | ⟨-, hcontrol⟩
    · exact absurd hstate hdone
    · obtain ⟨l, -, hsent⟩ := markDone_sent hdone h
      refine .of_out _ (congrArg (·.holders.prepared) hcontrol)
        (congrArg Control.mailbox hcontrol) hsent
        (notable_of_none fun m hm => ?_)
      -- Buffers and checks are posted.
      simp only [posts, checks, List.mem_append, List.mem_flatMap,
        List.mem_map] at hm
      rcases hm with ⟨o, -, buff, -, rfl⟩ | ⟨i, -, rfl⟩ | ⟨o, -, rfl⟩ <;> rfl

/-- What a call sends to other blocks. -/
theorem call_quiet {c : Call} (h : b.call now c = .ok b') :
    (∃ out, b'.sent = b.sent ++ out ∧ ∀ m ∈ out, m.notable = false) ∨
      b.markDone now = .ok b' := by
  cases hmarks : b.marksDone c with
  | true => exact .inr (markDone_of_call hmarks h)
  | false =>
      obtain ⟨out, hsent, hout⟩ := call_posts hmarks h
      refine .inl ⟨out, hsent, fun m hm => ?_⟩
      obtain ⟨-, o, message, rfl⟩ := hout m hm
      rfl

theorem Extends.call (hown : OwnIn P) {c : Call} (hc : c.Brings P)
    (h : b.call now c = .ok b') : Extends P [] b b' := by
  rcases call_quiet h with ⟨out, hsent, hnone⟩ | hdone
  · rcases call_control h with hcontrol | ⟨b₀, hcontrol, rfl⟩ |
      ⟨j, message, rfl, rfl⟩ |
      ⟨event, rfl, rfl⟩ | hdone
    · exact .of_sent hcontrol hsent hnone
    · have hkick : b₀.taskKicker.sent = b₀.sent := by
        unfold BlockActor.taskKicker
        split <;> rfl
      exact (Extends.of_sent hcontrol (hkick ▸ hsent) hnone).trans
        (.taskKicker hown b₀)
    · exact .sendSelf hc
    · exact .threadStep hc
    · exact .markDone hdone
  · exact .markDone hdone

theorem Extends.taskMain (hown : OwnIn P) (henv : ∀ c, env.Calls c → c.Brings P)
    (h : b.taskMain env = .ok b') : Extends P [] b b' := by
  refine taskMain_rule (S := anySupply) h (.refl P) .trans
    (fun s s' hquiet => ?_) (fun c hc _ _ hcall => .call hown (henv c hc) hcall)
    (.taskKicker hown)
  obtain ⟨out, hsent, hitems⟩ := hquiet.sent
  refine .of_sent hquiet.control hsent fun m hm => ?_
  have hitem := hitems m hm
  cases m with
  | downstream o message => rfl
  | _ => cases hitem

theorem Extends.inputUpdate {i : Nat} (h : b.handleInputUpdate env i = .ok b') :
    Extends P [] b b' := by
  refine .of_control (handleInputUpdate_control h) ?_
  unfold handleInputUpdate at h
  split at h
  · rw [Checked.pure_eq_ok] at h
    rw [h]
  · simp only [Checked.bind_eq_ok, Prod.exists] at h
    obtain ⟨p, memory, -, h⟩ := h
    exact (updateInputAvail_sent h).trans rfl

theorem Extends.outputUpdate {o : Nat}
    (h : b.handleOutputUpdate env o = .ok b') : Extends P [] b b' := by
  refine .of_control (handleOutputUpdate_control h) ?_
  unfold handleOutputUpdate at h
  split at h
  · rw [Checked.pure_eq_ok] at h
    rw [h]
  · simp only [Checked.bind_eq_ok, Checked.pure_eq_ok] at h
    obtain ⟨p, -, rfl⟩ := h
    rfl

/-- A new token for an input. -/
theorem Extends.renewInput (env : Env) (i : Nat) (b : BlockActor) :
    Extends P [b.hintOf env i] b (b.renewInput env i) := by
  have hsent : (b.renewInput env i).sent =
      b.sent ++ [Outgoing.upstream i (.token (env.inputToken i)),
        b.hintOf env i] :=
    List.append_assoc ..
  exact .of_out _ rfl rfl hsent rfl

/-- A new token for an output. -/
theorem Extends.renewOutput (env : Env) (o : Nat) (b : BlockActor) :
    Extends P [] b (b.renewOutput env o) := by
  have hsent : (b.renewOutput env o).sent =
      b.sent ++ [Outgoing.downstream o (.token (env.outputToken o))] := rfl
  exact .of_out _ rfl rfl hsent rfl

/-- New tokens for the inputs. -/
theorem Extends.renewInputs (env : Env) (inputs : List Nat) (b : BlockActor) :
    Extends P (inputs.map (b.hintOf env)) b
      (inputs.foldl (fun b i => b.renewInput env i) b) := by
  suffices hall : ∀ s : BlockActor, s.inputConfigs = b.inputConfigs →
      Extends P (inputs.map (b.hintOf env)) s
        (inputs.foldl (fun b i => b.renewInput env i) s) from
    hall b rfl
  induction inputs with
  | nil => exact fun s _ => .refl P s
  | cons i inputs ih =>
      intro s hconfigs
      have hhint : b.hintOf env i = s.hintOf env i := by
        rw [hintOf, hintOf, hconfigs]
      rw [List.map_cons, List.foldl_cons, hhint]
      exact (Extends.renewInput env i s).append (ih _ hconfigs)

/-- New tokens for the ports. -/
theorem Extends.topToken (env : Env) (token : Token) (sender : Option Address)
    (b : BlockActor) :
    Extends P ((List.range b.numInputs).map (b.hintOf env) ++
      acknowledgement sender) b
      (b.handleTopToken env token sender) := by
  have hrest (l : List Nat) (s : BlockActor) :
      Extends P [] s
        ((l.foldl (fun b o => b.renewOutput env o) s).insertToken token) := by
    have hout : Extends P [] s (l.foldl (fun b o => b.renewOutput env o) s) :=
      List.foldlRecOn (motive := Extends P [] s) l _ (.refl P s) fun c hc o _ =>
        hc.trans (.renewOutput env o c)
    exact hout.trans (.of_eq rfl rfl rfl)
  have hboth (l : List Nat) :=
    (Extends.renewInputs (P := P) env (List.range b.numInputs) b).append
    (hrest l _)
  simp only [List.append_nil] at hboth
  exact (hboth _).acknowledge sender

/-- The buffers of an output. -/
theorem Extends.allocateOutput (hown : OwnIn P) {o : Nat}
    (h : b.allocateOutput env o = .ok b') : Extends P [] b b' := by
  obtain ⟨config, p, -, rfl⟩ := allocateOutput_cases h
  refine .of_append _ [.downstream o (.alloc config)] rfl rfl
    (fun m hm => ?_) rfl rfl
  obtain ⟨buff, -, rfl⟩ := List.mem_map.mp hm
  exact hown.buffer o _

/-- **Every handler** sends the answers to its message, and no other. -/
theorem handler_adds (hown : OwnIn P) (henv : ∀ c, env.Calls c → c.Brings P)
    (hcalled : ∀ c ∈ env.called, c.Brings P) (h : b.handler env m = .ok b') :
    Extends P (b.answers env m) b b' := by
  cases htask : b.enter env m with
  | some store =>
      obtain ⟨b₀, b₁, rfl, hmain, hleave⟩ := handler_of_enter htask h
      have hnone : b.answers env m = [] := by
        cases m with
        | top message prio sender => cases htask
        | _ => rfl
      obtain ⟨hcontrol, hsent⟩ := enter_control htask
      have hstored : Extends P [] b b₀ :=
        .of_eq (congrArg (·.holders.prepared) hcontrol)
          (congrArg Control.mailbox hcontrol) hsent
      rw [hnone]
      refine (hstored.trans (.taskMain hown henv hmain)).trans ?_
      unfold leave at hleave
      split at hleave
      · split at hleave
        · exact .markDone hleave
        · rw [Checked.pure_eq_ok] at hleave
          exact hleave ▸ .refl P b₁
      · rw [Checked.pure_eq_ok] at hleave
        exact hleave ▸ .refl P b₁
  | none =>
      cases reaction htask h with
      | droppedInput | droppedBuffer | noInputAlloc => exact .refl P b
      | tag | inputToken | outputToken | outputCheck | outputHint | outputAlloc =>
          exact .of_eq rfl rfl rfl
      | inputAlloc i config queue =>
          exact .of_out [.upstream i (.alloc queue)] rfl rfl rfl rfl
      | inputUpdate hupdate => exact .inputUpdate hupdate
      | outputUpdate hupdate => exact .outputUpdate hupdate
      | @outputsDone i _ hall hdone =>
          have hrecheck : Extends P [] b (b.recheckOutput env i) :=
            .of_eq rfl rfl rfl
          exact hrecheck.trans (.markDone hdone)
      | @topAlloc prio sender b₁ hloop =>
          exact Extends.acknowledge (forRange_relates hloop (.refl P) .trans
            fun o _ s s' hf => .allocateOutput hown hf) sender
      | topActive prio sender =>
          obtain ⟨t, hactive⟩ := handleTopActive_eq env sender b
          rw [hactive]
          cases sender <;> exact .self hown.kick rfl rfl rfl rfl
      | @topInert prio sender b₁ hdone =>
          exact (Extends.markDone hdone).acknowledge sender
      | topToken token prio sender => exact .topToken env token sender b
      | topConfig config prio sender =>
          show Extends P (acknowledgement sender) b
              (handleTopConfig config sender b)
          refine Extends.reply ?_ ?_ ?_ sender <;> rfl
      | topThreadGroup prio sender =>
          show Extends P (acknowledgement sender) b
              (handleTopThreadGroup sender b)
          refine Extends.reply ?_ ?_ ?_ sender <;> rfl
      | callable key sender =>
          have hcalls : Extends P [] b (b.attempt env.now env.called) :=
            attempt_rule env.called b (.refl P) .trans fun c hc s s' hcall =>
              .call hown (hcalled c hc) hcall
          exact hcalls.trans (.self hown.kick rfl rfl rfl rfl)
      | getStats => exact .self hown.kick rfl rfl rfl rfl

/-- What is in `P` is in a larger set. -/
theorem BringsOnly.mono {Q : Message → Prop} (hPQ : ∀ m, P m → Q m)
    {e : BlockEvent} (h : BringsOnly P e) : BringsOnly Q e := by
  have hthread {event : ThreadEvent} (hevent : event.Brings P) :
      event.Brings Q := by
    cases event with
    | post m => exact hPQ m hevent
    | prepare m => exact fun hm => hPQ m (hevent hm)
    | _ => trivial
  have hcall {c : Call} (hc : c.Brings P) : c.Brings Q := by
    cases c with
    | postInput i message => exact hPQ _ hc
    | thread event => exact hthread hc
    | _ => trivial
  cases e with
  | topology env n k sender => trivial
  | actor event =>
      cases event with
      | thread event => exact hthread h
      | handle env =>
          exact ⟨fun c hc => hcall (h.1 c hc), fun c hc => hcall (h.2 c hc)⟩

/-- **A change of the topology** is acknowledged. -/
theorem topology_adds {n k : Nat} {sender : Option Address}
    (h : b.handleTopology env n k sender = .ok b') :
    Extends P (acknowledgement sender) b b' := by
  simp only [handleTopology, Checked.bind_eq_ok, Checked.pure_eq_ok] at h
  obtain ⟨b₁, hrelease, b₂, hin, b₃, hout, rfl⟩ := h
  have hresize : Extends P [] b (b.resize env.now n k) := .of_eq rfl rfl rfl
  have hreleased : Extends P [] (b.resize env.now n k) b₁ := by
    unfold releaseUnconnected at hrelease
    split at hrelease
    · exact .markDone hrelease
    · rw [Checked.pure_eq_ok] at hrelease
      exact hrelease ▸ .refl P _
  have hins : Extends P [] b₁ b₂ :=
    forRange_relates hin (.refl P) .trans fun i _ s s' hf => .inputUpdate hf
  have houts : Extends P [] b₂ b₃ :=
    forRange_relates hout (.refl P) .trans fun o _ s s' hf => .outputUpdate hf
  exact (((hresize.trans hreleased).trans hins).trans houts).acknowledge sender

/-- A block that has just been started has got messages of `P` only, and nobody
has prepared any. -/
theorem Started.adds (h : b.Started) : b.Prepares P ∧ ∀ m ∈ b.mailbox, P m := by
  obtain ⟨initTime, memory, inputConfigs, outputConfigs, env, n, k, h⟩ := h
  obtain ⟨hprepares, new, hmail, hnew⟩ :=
    (topology_adds (P := P) h).mail fun m hm => by cases hm
  refine ⟨hprepares, fun m hm => hnew m ?_⟩
  rw [hmail] at hm
  exact (List.mem_append.mp hm).resolve_left fun h => by cases h

/-- What is handled in an event. -/
def handles (b : BlockActor) : BlockEvent → List Message
  | .actor (.handle _) => b.mailbox.take 1
  | _ => []

/-- The answers in an event. -/
def answersIn (b : BlockActor) : BlockEvent → List Outgoing
  | .topology _ _ _ sender => acknowledgement sender
  | .actor (.handle env) => (b.mailbox.take 1).flatMap (b.answers env)
  | .actor (.thread _) => []

/-- **Every event** takes out of the mailbox what it handles, adds messages of
`P`, and sends the answers. -/
theorem change_adds (hown : OwnIn P) {e : BlockEvent} (hbrings : BringsOnly P e)
    (hb : b.Prepares P) (h : b.change e = .ok b') :
    b'.Prepares P ∧ (∃ rest new, b.mailbox = b.handles e ++ rest ∧
      b'.mailbox = rest ++ new ∧ ∀ m ∈ new, P m) ∧
      ∃ out, b'.sent = b.sent ++ out ∧ notable out = b.answersIn e := by
  cases e with
  | topology env n k sender =>
      have hadds := topology_adds (P := P) h
      obtain ⟨hprepares, new, hmail, hnew⟩ := hadds.mail hb
      exact ⟨hprepares, ⟨b.mailbox, new, rfl, hmail, hnew⟩, hadds.sent⟩
  | actor event =>
      rcases next_cases h with ⟨thread, rfl, rfl⟩ | ⟨env, rfl, hmail, rfl⟩ |
        ⟨env, m, rest, b₁, rfl, hmail, hhandler, rfl⟩
      · have hadds : Extends P [] b (b.threadStep thread) := .threadStep hbrings
        obtain ⟨hprepares, new, hmail, hnew⟩ := hadds.mail hb
        exact ⟨hprepares, ⟨b.mailbox, new, rfl, hmail, hnew⟩, hadds.sent⟩
      · simp only [handles, answersIn, hmail, List.take_nil, List.flatMap_nil]
        exact ⟨hb, ⟨[], [], rfl, rfl, by simp⟩, [],
          (List.append_nil _).symm, rfl⟩
      · have hadds : Extends P (b.answers env m) (b.receive m rest) b₁ :=
          handler_adds hown hbrings.1 hbrings.2 hhandler
        obtain ⟨hprepares, new, hnewmail, hnew⟩ := hadds.mail hb
        simp only [handles, answersIn, hmail, List.take_succ_cons,
          List.take_zero, List.flatMap_cons, List.flatMap_nil, List.append_nil]
        exact ⟨hprepares, ⟨rest, new, rfl, hnewmail, hnew⟩, hadds.sent⟩

end Extends

end BlockActor

end Gras
