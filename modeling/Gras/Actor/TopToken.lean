import Gras.Actor.PortMoves

/-!
# The token of the top block in one block

A block gets the token of the top block with a `TopTokenMessage` and becomes
live with a later `TopActiveMessage`; `mark_done` drops the token.  So a live
block holds the token when the messages come in this order (`InOrder`) and the
block is not marked done in between.
-/

namespace Gras

/-- The messages of the top block that give the token and make a block live. -/
def Message.commits : Message → Bool
  | .top (.token _) _ _ => true
  | .top .active _ _ => true
  | _ => false

/-- Other threads do not send them. -/
def ThreadEvent.CommitsNothing (event : ThreadEvent) : Prop :=
  ∀ m, event = .post m ∨ event = .prepare m → m.commits = false

/-- Neither do the threads that run while the block works. -/
def Env.CommitsNothing (env : Env) : Prop :=
  env.WorkWithin ThreadEvent.CommitsNothing ∧
    CallsWithin ThreadEvent.CommitsNothing env.called

/-! ## The order of the messages -/

/-- Every activation comes after the token, the first of them at once when the
block has been given the token already. -/
def InOrder (token : Token) : Bool → List Message → Prop
  | _, [] => True
  | given, m :: ms =>
      match m with
      | .top (.token t) _ _ => t = token ∧ InOrder token true ms
      | .top .active _ _ => given = true ∧ InOrder token false ms
      | _ => InOrder token given ms

section InOrder

variable {token : Token} {given : Bool} {m : Message}
  {l new r r' : List Message}

/-- Any other message may come in between. -/
theorem inOrder_cons (h : m.commits = false) :
    InOrder token given (m :: l) ↔ InOrder token given l := by
  cases m with
  | top message prio sender =>
      cases message with
      | token t => cases h
      | active => cases h
      | _ => exact Iff.rfl
  | _ => exact Iff.rfl

theorem inOrder_append_left (h : ∀ m ∈ new, m.commits = false) :
    InOrder token given (new ++ r) ↔ InOrder token given r := by
  induction new with
  | nil => exact Iff.rfl
  | cons m new ih =>
      rw [List.cons_append, inOrder_cons (h m List.mem_cons_self)]
      exact ih fun m' hm' => h m' (List.mem_cons_of_mem _ hm')

/-- What follows may be replaced. -/
theorem InOrder.replace (h : InOrder token given (l ++ r))
    (hr : ∀ given', InOrder token given' r → InOrder token given' r') :
    InOrder token given (l ++ r') := by
  induction l generalizing given with
  | nil => exact hr given h
  | cons m l ih =>
      cases m with
      | top message prio sender =>
          cases message with
          | token t => exact ⟨h.1, ih h.2⟩
          | active => exact ⟨h.1, ih h.2⟩
          | _ => exact ih h
      | _ => exact ih h

/-- Who sent a message of the top block does not matter. -/
theorem inOrder_top (message : TopMessage) {prio prio' : Bool}
    {sender sender' : Option Address} :
    InOrder token given (.top message prio sender :: l) ↔
      InOrder token given (.top message prio' sender' :: l) := by
  cases message <;> exact Iff.rfl

end InOrder

namespace BlockActor

/-! ## What a block does with the token -/

/-- Nothing that another thread has prepared gives the token or makes the block
live. -/
def Uncommitted (b : BlockActor) : Prop :=
  ∀ m ∈ b.holders.prepared, m.commits = false

/-- **The tokens stay** until the block is marked done, and the block does not
become live. -/
structure KeepsTokens (b b' : BlockActor) : Prop where
  done : b.blockState = .done → b'.blockState = .done
  live : b'.blockState = .live → b.blockState = .live
  tokens : b.blockState = .done ∨ b'.blockState ≠ .done →
    ∀ t ∈ b.tokenPool, t ∈ b'.tokenPool
  mail : b.Uncommitted → b'.Uncommitted ∧
    ∃ new, b'.mailbox = b.mailbox ++ new ∧ ∀ m ∈ new, m.commits = false

section KeepsTokens

variable {b b' b'' : BlockActor} {env : Env} {now : Int}

theorem KeepsTokens.refl (b : BlockActor) : KeepsTokens b b :=
  ⟨fun h => h, fun h => h, fun _ _ h => h, fun h => ⟨h, [], by simp, by simp⟩⟩

theorem KeepsTokens.trans (h : KeepsTokens b b') (h' : KeepsTokens b' b'') :
    KeepsTokens b b'' := by
  constructor
  · exact fun hdone => h'.done (h.done hdone)
  · exact fun hlive => h.live (h'.live hlive)
  · rintro (hdone | hdone) t ht
    · exact h'.tokens (.inl (h.done hdone)) t (h.tokens (.inl hdone) t ht)
    · have hdone' : b'.blockState ≠ .done := fun hd => hdone (h'.done hd)
      exact h'.tokens (.inr hdone) t (h.tokens (.inr hdone') t ht)
  · intro hb
    obtain ⟨hb', new, hmail, hnew⟩ := h.mail hb
    obtain ⟨hb'', new', hmail', hnew'⟩ := h'.mail hb'
    refine ⟨hb'', new ++ new',
      by rw [hmail', hmail, List.append_assoc], fun m hm => ?_⟩
    exact (List.mem_append.mp hm).elim (hnew m) (hnew' m)

/-- The state stays, and messages that commit nothing are added. -/
theorem KeepsTokens.of_state (hstate : b'.blockState = b.blockState)
    (htokens : ∀ t ∈ b.tokenPool, t ∈ b'.tokenPool)
    (hmail : b.Uncommitted → b'.Uncommitted ∧
      ∃ new, b'.mailbox = b.mailbox ++ new ∧ ∀ m ∈ new, m.commits = false) :
    KeepsTokens b b' :=
  ⟨fun h => hstate.trans h, fun h => hstate.symm.trans h,
    fun _ => htokens, hmail⟩

/-- Nothing of it changes. -/
theorem KeepsTokens.of_eq (hstate : b'.blockState = b.blockState)
    (htokens : b'.tokenPool = b.tokenPool) (hmail : b'.mailbox = b.mailbox)
    (hprepared : b'.holders.prepared = b.holders.prepared) :
    KeepsTokens b b' := by
  refine .of_state hstate (fun t ht => htokens ▸ ht) fun hb =>
    ⟨?_, [], by rw [hmail, List.append_nil], by simp⟩
  rw [Uncommitted, hprepared]
  exact hb

theorem KeepsTokens.of_control (h : b'.control = b.control) :
    KeepsTokens b b' :=
  .of_eq (congrArg Control.blockState h) (congrArg Control.tokenPool h)
    (congrArg Control.mailbox h) (congrArg (·.holders.prepared) h)

theorem KeepsTokens.sendSelf {m : Message} (h : m.commits = false) :
    KeepsTokens b (b.sendSelf m) :=
  .of_state rfl (fun _ ht => ht) fun hb => ⟨hb, [m], rfl, by simpa using h⟩

theorem KeepsTokens.threadStep {event : ThreadEvent}
    (h : event.CommitsNothing) : KeepsTokens b (b.threadStep event) := by
  cases event with
  | post m =>
      rw [BlockActor.threadStep]
      split
      · exact .refl b
      · exact .sendSelf (h m (.inl rfl))
  | prepare m =>
      rw [BlockActor.threadStep]
      split
      · exact .refl b
      · refine .of_state rfl (fun _ ht => ht) fun hb =>
          ⟨fun m' hm' => ?_, [], by simp, by simp⟩
        rcases List.mem_append.mp hm' with hm' | hm'
        · exact hb m' hm'
        · rw [List.mem_singleton] at hm'
          exact hm' ▸ h m (.inr rfl)
  | send k =>
      rw [BlockActor.threadStep]
      cases hk : b.holders.prepared[k]? with
      | none => exact .refl b
      | some m =>
          refine .of_state rfl (fun _ ht => ht) fun hb =>
            ⟨fun m' hm' => ?_, [m], rfl, ?_⟩
          · rw [TokenHolders.keepCopy_prepared] at hm'
            exact hb m' (List.mem_of_mem_eraseIdx hm')
          · simpa using hb m (List.mem_of_getElem? hk)
  | _ => exact .of_eq rfl rfl rfl rfl

theorem KeepsTokens.markDone (h : b.markDone now = .ok b') :
    KeepsTokens b b' := by
  rcases markDone_control h with ⟨-, rfl⟩ | ⟨hlive, hcontrol⟩
  · exact .refl b'
  · have hdone : b'.blockState = .done := markDone_blockState h
    refine ⟨fun _ => hdone, fun hl => ?_, fun hd => ?_,
      fun hb => ⟨?_, [], ?_, by simp⟩⟩
    · rw [hdone] at hl
      cases hl
    · exact hd.elim (fun hd => absurd hd hlive) fun hd => absurd hdone hd
    · rw [Uncommitted, show b'.holders = b.holders
        from congrArg Control.holders hcontrol]
      exact hb
    · rw [List.append_nil]
      exact congrArg Control.mailbox hcontrol

/-- **A move** keeps the tokens. -/
theorem KeepsTokens.moves (h : Moves ThreadEvent.CommitsNothing b b') :
    KeepsTokens b b' := by
  refine h.rule .refl .trans fun s t hmove => ?_
  cases hmove with
  | quiet hcontrol => exact .of_control hcontrol
  | @own m hown =>
      refine .sendSelf ?_
      cases m with
      | top message prio sender => cases hown
      | _ => rfl
  | thread hevent => exact .threadStep hevent
  | done hdone => exact .markDone hdone

theorem KeepsTokens.acknowledge (h : KeepsTokens b b')
    (sender : Option Address) : KeepsTokens b (b'.acknowledge sender) := by
  cases sender with
  | none => exact h
  | some a => exact h.trans (.of_eq rfl rfl rfl rfl)

/-- **Every handler** but that of the activation keeps the tokens. -/
theorem KeepsTokens.handler {m : Message} (henv : env.CommitsNothing)
    (hm : ∀ prio sender, m ≠ .top .active prio sender)
    (h : b.handler env m = .ok b') : KeepsTokens b b' := by
  cases handled h with
  | @task m store b₀ b₁ b' henter hstore htask hleave =>
      subst hstore
      obtain ⟨hcontrol, -⟩ := enter_control henter
      have hstored : KeepsTokens b b₀ :=
        .of_eq (congrArg Control.blockState hcontrol)
          (congrArg Control.tokenPool hcontrol)
          (congrArg Control.mailbox hcontrol)
          (congrArg (·.holders.prepared) hcontrol)
      refine (hstored.trans (.moves (taskMain_moves henv.1 htask))).trans ?_
      unfold leave at hleave
      split at hleave
      · split at hleave
        · exact .markDone hleave
        · rw [Checked.pure_eq_ok] at hleave
          exact hleave ▸ .refl b₁
      · rw [Checked.pure_eq_ok] at hleave
        exact hleave ▸ .refl b₁
  | tag i tag hstate =>
      rw [handleInputTag, if_neg hstate]
      exact .of_eq rfl rfl rfl rfl
  | inputUpdate hupdate => exact .of_control (handleInputUpdate_control hupdate)
  | outputUpdate hupdate =>
      exact .of_control (handleOutputUpdate_control hupdate)
  | outputAlloc hset =>
      simp only [handleOutputAlloc, Checked.bind_eq_ok,
        Checked.pure_eq_ok] at hset
      obtain ⟨p, -, rfl⟩ := hset
      exact .of_eq rfl rfl rfl rfl
  | topAlloc halloc =>
      simp only [handleTopAlloc, Checked.bind_eq_ok,
        Checked.pure_eq_ok] at halloc
      obtain ⟨b₁, hloop, rfl⟩ := halloc
      refine KeepsTokens.acknowledge ?_ _
      refine forRange_relates hloop .refl .trans fun o _ s s' hf => ?_
      obtain ⟨config, p, -, rfl⟩ := allocateOutput_cases hf
      refine .of_state rfl (fun _ ht => ht) fun hb =>
        ⟨hb, _, rfl, fun m hm => ?_⟩
      obtain ⟨buff, -, rfl⟩ := List.mem_map.mp hm
      rfl
  | active => exact absurd rfl (hm _ _)
  | @outputsDone i b' hall hdone =>
      have hcheck : KeepsTokens b (b.recheckOutput env i) :=
        .of_eq rfl rfl rfl rfl
      exact hcheck.trans (.markDone hdone)
  | inert hdone => exact (KeepsTokens.markDone hdone).acknowledge _
  | @callable key sender =>
      have hcalls : KeepsTokens b (b.attempt env.now env.called) :=
        .moves (attempt_moves henv.2)
      refine hcalls.trans (KeepsTokens.trans ?_ (.sendSelf rfl))
      exact .of_eq rfl rfl rfl rfl
  | quiet hstate hdata hquiet =>
      obtain ⟨kicks, hmail, hkicks⟩ := hquiet.mailbox
      refine .of_state hstate hquiet.tokens fun hb =>
        ⟨?_, kicks, hmail, fun m hm => ?_⟩
      · rw [Uncommitted, hquiet.holders]
        exact hb
      · rw [hkicks m hm]
        rfl

/-- What an activation changes of this. -/
theorem handleTopActive_parts (env : Env) (sender : Option Address)
    (b : BlockActor) :
    (b.handleTopActive env sender).blockState = .live ∧
      (b.handleTopActive env sender).tokenPool = b.tokenPool ∧
      (b.handleTopActive env sender).mailbox = b.mailbox ++ [Message.selfKick] ∧
      (b.handleTopActive env sender).holders = b.holders := by
  obtain ⟨t, hactive⟩ := handleTopActive_eq env sender b
  rw [hactive]
  exact ⟨rfl, rfl, rfl, rfl⟩

/-- The token of the top block is stored. -/
theorem mem_handleTopToken {token : Token} {sender : Option Address} :
    token ∈ (b.handleTopToken env token sender).tokenPool := by
  have hinsert : ∀ s : BlockActor, token ∈ (s.insertToken token).tokenPool := by
    intro s
    show token ∈ if token ∈ s.tokenPool then s.tokenPool
        else s.tokenPool ++ [token]
    split
    · assumption
    · exact List.mem_append_right _ List.mem_cons_self
  unfold handleTopToken
  cases sender <;> exact hinsert _

/-- **A change of the topology** keeps the tokens. -/
theorem KeepsTokens.topology {n k : Nat} {sender : Option Address}
    (h : b.handleTopology env n k sender = .ok b') : KeepsTokens b b' := by
  simp only [handleTopology, Checked.bind_eq_ok, Checked.pure_eq_ok] at h
  obtain ⟨b₁, hrelease, b₂, hin, b₃, hout, rfl⟩ := h
  have hresize : KeepsTokens b (b.resize env.now n k) := .of_eq rfl rfl rfl rfl
  have hreleased : KeepsTokens (b.resize env.now n k) b₁ := by
    unfold releaseUnconnected at hrelease
    split at hrelease
    · exact .markDone hrelease
    · rw [Checked.pure_eq_ok] at hrelease
      exact hrelease ▸ .refl _
  have hupdated : KeepsTokens b₁ b₃ := .of_control
    ((forRange_control hout fun o s s' hf =>
      handleOutputUpdate_control hf).trans
      (forRange_control hin fun i s s' hf => handleInputUpdate_control hf))
  exact ((hresize.trans hreleased).trans hupdated).acknowledge sender

end KeepsTokens

end BlockActor

end Gras
