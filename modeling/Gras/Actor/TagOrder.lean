import Gras.Actor.Allocation
import Gras.Actor.ItemCounters
import Gras.Actor.MarkDone
import Gras.Actor.TagPassingRuns

/-!
# The order of tags and buffers on an output

A task sends what it produced at its very end.  The tags that its work posts,
and those that `propagate_tags` passes on where it is not overloaded, are sent
before, unless the work marks the block done: that flushes the outputs.

`taskTags` are these tags, and `tags_ahead` says that they are `Ahead` of every
buffer of the same event.
-/

namespace Gras

/-! ## What is sent on an output -/

/-- The bytes that a message brings to an input. -/
def InputMessage.bytes : InputMessage → Nat
  | buffer buff => buff.length
  | _ => 0

/-- The tag that a message brings. -/
def InputMessage.asTag : InputMessage → Option Tag
  | tag t => some t
  | _ => none

/-- The messages sent on an output. -/
def sentOn (o : Nat) (out : List Outgoing) : List InputMessage :=
  out.filterMap (Outgoing.downstreamOf o)

/-- The bytes of a stream of messages. -/
def streamBytes (l : List InputMessage) : Nat := (l.map InputMessage.bytes).sum

theorem sentOn_append (o : Nat) (out out' : List Outgoing) :
    sentOn o (out ++ out') = sentOn o out ++ sentOn o out' :=
  List.filterMap_append

theorem streamBytes_append (l l' : List InputMessage) :
    streamBytes (l ++ l') = streamBytes l + streamBytes l' := by
  simp [streamBytes]

/-- What carries no items brings no bytes. -/
theorem streamBytes_of_none {o : Nat} {out : List Outgoing}
    (h : ∀ m ∈ out, m.carriesItems = false) :
    streamBytes (sentOn o out) = 0 := by
  refine List.sum_eq_zero fun n hn => ?_
  obtain ⟨message, hmessage, rfl⟩ := List.mem_map.mp hn
  obtain ⟨m, hm, hon⟩ := List.mem_filterMap.mp hmessage
  have hnone := h m hm
  cases m with
  | downstream p message' =>
      simp only [Outgoing.downstreamOf, Option.ite_none_right_eq_some,
        Option.some.injEq] at hon
      obtain ⟨-, rfl⟩ := hon
      cases message' <;> first | rfl | cases hnone
  | _ => cases hon

theorem mem_sentOn {o : Nat} {out : List Outgoing} {message : InputMessage} :
    message ∈ sentOn o out ↔ .downstream o message ∈ out := by
  simp only [sentOn, List.mem_filterMap]
  constructor
  · rintro ⟨m, hm, hon⟩
    cases m with
    | downstream p message' =>
        simp only [Outgoing.downstreamOf, Option.ite_none_right_eq_some,
          Option.some.injEq] at hon
        obtain ⟨rfl, rfl⟩ := hon
        exact hm
    | _ => cases hon
  · exact fun hm => ⟨_, hm, if_pos rfl⟩

namespace BlockActor

/-! ## The tags of a task -/

/-- The tag that a call posts on an output, if the block is not done. -/
def tagCalled (o : Nat) (b : BlockActor) : Call → List Tag
  | .postOutputTag p tag => if p = o ∧ b.blockState ≠ .done then [tag] else []
  | _ => []

/-- The tags that calls post on an output until the block is done. -/
def tagsCalled (now : Int) (o : Nat) : List Call → BlockActor → List Tag
  | [], _ => []
  | c :: cs, b => b.tagCalled o c ++
      match b.call now c with
      | .ok b' => tagsCalled now o cs b'
      | .error _ => []

/-- The tags that are passed on after the work, where `propagate_tags` is not
overloaded. -/
def tagsPropagated (env : Env) (o : Nat) (b : BlockActor) : List Tag :=
  match env.propagateTags, forRange (finishInput env) b.numInputs b with
  | none, .ok b' =>
      (sentOn o (b'.sent.drop b.sent.length)).filterMap InputMessage.asTag
  | _, _ => []

/-- The tags that a task posts on an output. -/
def taskTags (env : Env) (o : Nat) (b : BlockActor) : List Tag :=
  match b.prepare env with
  | .ok b₁ => tagsCalled env.now o env.work b₁.atCall ++
      match b₁.taskWork env with
      | .ok b₂ => b₂.tagsPropagated env o
      | .error _ => []
  | .error _ => []

/-- The tags that the task of an event posts on an output. -/
def tagsPosted (o : Nat) (b : BlockActor) : BlockEvent → List Tag
  | .actor (.handle env) =>
      match b.atTask env with
      | some b₀ => b₀.taskTags env o
      | none => []
  | _ => []

/-- The tags were sent ahead of all items, on a block that sent no items before
it was done. -/
def Ahead (o : Nat) (b : BlockActor) (tags : List Tag)
    (s : BlockActor) : Prop :=
  ∃ ahead behind, s.sent = b.sent ++ ahead ++ behind ∧
    (∀ m ∈ ahead, m.carriesItems = false) ∧
    (s.blockState ≠ .done → behind = []) ∧ ∀ t ∈ tags,
    .downstream o (.tag t) ∈ ahead

/-- A done block has no tags left. -/
def NoTags (b : BlockActor) : Prop :=
  b.blockState = .done → ∀ i < b.numInputs, b.inputTags i = []

section Calls

variable {b b' s s' : BlockActor} {env : Env} {now : Int} {c : Call}
  {o i n : Nat}
  {tags : List Tag} {out : List Outgoing}

/-! ### What is sent -/

/-- What moves items during work sends nothing. -/
theorem call_work (hc : c.duringWork = true) (h : b.call now c = .ok b') :
    b'.sent = b.sent ∧ b'.totalItemsConsumed = b.totalItemsConsumed := by
  cases c with
  | consume i items =>
      simp only [call, Checked.bind_eq_ok, Checked.pure_eq_ok] at h
      obtain ⟨-, -, rfl⟩ := h
      exact ⟨rfl, rfl⟩
  | produce o items =>
      simp only [call, produce, Checked.bind_eq_ok, Checked.pure_eq_ok] at h
      obtain ⟨-, -, p, -, rfl⟩ := h
      exact ⟨rfl, rfl⟩
  | getInputBuffer i fresh =>
      simp only [call, getInputBuffer, Checked.bind_eq_ok, Checked.pure_eq_ok,
        Prod.exists] at h
      obtain ⟨buff, p, memory, -, rfl⟩ := h
      exact ⟨rfl, rfl⟩
  | getOutputBuffer o =>
      simp only [call, storeLength, Checked.bind_eq_ok, Checked.pure_eq_ok,
        Prod.exists] at h
      obtain ⟨buff, p, -, rfl⟩ := h
      exact ⟨rfl, rfl⟩
  | popOutputBuffer o numBytes =>
      simp only [call, storeLength, Checked.bind_eq_ok, Checked.pure_eq_ok,
        Prod.exists] at h
      obtain ⟨buff, p, -, rfl⟩ := h
      exact ⟨rfl, rfl⟩
  | postOutputBuffer o buffer =>
      simp only [call, postOutputBuffer, produce, Checked.bind_eq_ok,
        Checked.pure_eq_ok] at h
      obtain ⟨p, -, -, -, -, -, q, -, rfl⟩ := h
      exact ⟨rfl, rfl⟩
  | _ => cases hc

/-- **A call that marks no block done** sends no items, and counts nothing as
consumed. -/
theorem call_unmarked (hmarks : b.marksDone c = false)
    (h : b.call now c = .ok b') :
    (∃ out, b'.sent = b.sent ++ out ∧ ∀ m ∈ out, m.carriesItems = false) ∧
      b'.totalItemsConsumed = b.totalItemsConsumed := by
  by_cases hthread : ∃ event, c = .thread event
  · obtain ⟨event, rfl⟩ := hthread
    rw [call, Checked.pure_eq_ok] at h
    subst h
    refine ⟨⟨[],
      by rw [(threadStep_rest b event).2.2, List.append_nil], by simp⟩, ?_⟩
    cases event with
    | post m => rw [threadStep]; split <;> rfl
    | prepare m => rw [threadStep]; split <;> rfl
    | send k => rw [threadStep]; split <;> rfl
    | _ => rfl
  · cases hwork : c.duringWork with
    | true =>
        obtain ⟨hsent, htotal⟩ := call_work hwork h
        exact ⟨⟨[], by rw [hsent, List.append_nil], by simp⟩, htotal⟩
    | false =>
        have hsame := (call_same hwork hmarks
          (fun o config hc => absurd ⟨_, hc⟩ hthread) h).1
        exact ⟨hsame.sent, hsame.totalItemsConsumed⟩

/-- A call that marks no block done leaves its state alone. -/
theorem call_blockState (hmarks : b.marksDone c = false)
    (h : b.call now c = .ok b') : b'.blockState = b.blockState := by
  rcases call_tags h with ⟨i, items, -, rfl⟩ | ⟨hdone, -⟩ | ⟨-, hstate⟩
  · rfl
  · rw [hmarks] at hdone
    cases hdone
  · exact hstate

/-- **A call** takes back nothing that was sent. -/
theorem call_sends (h : b.call now c = .ok b') : b.sent <+: b'.sent := by
  rcases call_sent h with ⟨out, hsent, -⟩ | hdone
  · exact ⟨out, hsent.symm⟩
  · obtain ⟨out, hsent, -⟩ := (GetsNone.markDone hdone).sent
    exact ⟨out, hsent.symm⟩

/-! ### The calls of the work -/

/-- Something without items is sent, among it maybe another tag. -/
theorem Ahead.send {more : List Tag} (hs : Ahead o b tags s)
    (hsent : s'.sent = s.sent ++ out)
    (hnone : ∀ m ∈ out, m.carriesItems = false)
    (hstate : s'.blockState = s.blockState)
    (hmore : ∀ t ∈ more, s.blockState ≠ .done ∧ .downstream o (.tag t) ∈ out) :
    Ahead o b (tags ++ more) s' := by
  obtain ⟨ahead, behind, hparts, hitems, hbehind, htags⟩ := hs
  by_cases hdone : s.blockState = .done
  · refine ⟨ahead, behind ++ out, by rw [hsent, hparts]; simp, hitems,
      fun hlive => absurd (hstate.trans hdone) hlive, fun t ht => ?_⟩
    rcases List.mem_append.mp ht with ht | ht
    · exact htags t ht
    · exact absurd hdone (hmore t ht).1
  · refine ⟨ahead ++ out, [], ?_, fun m hm => ?_, fun _ => rfl, fun t ht => ?_⟩
    · rw [hsent, hparts, hbehind hdone]
      simp
    · exact (List.mem_append.mp hm).elim (hitems m) (hnone m)
    · rcases List.mem_append.mp ht with ht | ht
      · exact List.mem_append_left _ (htags t ht)
      · exact List.mem_append_right _ (hmore t ht).2

/-- The block is done. -/
theorem Ahead.finish (hs : Ahead o b tags s) (hsent : s.sent <+: s'.sent)
    (hdone : s'.blockState = .done) : Ahead o b tags s' := by
  obtain ⟨ahead, behind, hparts, hitems, -, htags⟩ := hs
  obtain ⟨out, hout⟩ := hsent
  refine ⟨ahead, behind ++ out, ?_, hitems,
    fun hlive => absurd hdone hlive, htags⟩
  rw [← hout, hparts, List.append_assoc]

/-- **The calls of the work** post their tags ahead. -/
theorem Ahead.calls {cs : List Call} (hs : Ahead o b tags s)
    (h : s.calls now cs = .ok s') :
    Ahead o b (tags ++ tagsCalled now o cs s) s' := by
  induction cs generalizing s tags with
  | nil =>
      rw [BlockActor.calls, Checked.pure_eq_ok] at h
      subst h
      rwa [tagsCalled, List.append_nil]
  | cons c cs ih =>
      simp only [BlockActor.calls, Checked.bind_eq_ok] at h
      obtain ⟨s₁, hcall, h⟩ := h
      rw [tagsCalled, hcall, ← List.append_assoc]
      refine ih ?_ h
      cases hmarks : s.marksDone c with
      | true =>
          have hdone := markDone_of_call hmarks hcall
          have hnone : s.tagCalled o c = [] := by
            cases c with
            | postOutputTag p tag => cases hmarks
            | _ => rfl
          rw [hnone, List.append_nil]
          exact hs.finish (call_sends hcall) (markDone_blockState hdone)
      | false =>
          obtain ⟨⟨out, hsent, hitems⟩, -⟩ := call_unmarked hmarks hcall
          refine hs.send hsent hitems
            (call_blockState hmarks hcall) fun t ht => ?_
          cases c with
          | postOutputTag p tag =>
              rw [BlockActor.call, Checked.pure_eq_ok] at hcall
              have hposted : t ∈ if p = o ∧
                  s.blockState ≠ .done then [tag] else [] := ht
              split at hposted
              · rename_i hposts
                obtain ⟨rfl, hlive⟩ := hposts
                obtain rfl := List.mem_singleton.mp hposted
                subst hcall
                refine ⟨hlive, ?_⟩
                have hone : out = [.downstream p (.tag t)] :=
                  (List.append_cancel_left hsent).symm
                rw [hone]
                exact List.mem_singleton_self _
              · cases hposted
          | _ => cases ht

/-! ### After the work -/

/-- **A call** leaves a done block without tags. -/
theorem NoTags.call (hs : s.NoTags) (h : s.call now c = .ok s') :
    s'.NoTags := by
  intro hdone i hi
  rcases call_tags h with ⟨k, items, -, rfl⟩ | ⟨-, hmark⟩ | ⟨htags, hstate⟩
  · exact hs hdone i hi
  · rcases markDone_tags hmark with rfl | ⟨-, hdata⟩
    · exact hs hdone i hi
    · have hnum : s'.numInputs = s.numInputs := congrArg TagData.numInputs hdata
      have htags := congrFun (congrArg TagData.inputTags hdata) i
      refine htags.trans ?_
      dsimp only
      rw [if_pos (hnum ▸ hi)]
  · have hnum : s'.numInputs = s.numInputs := congrArg TagData.numInputs htags
    have hin := congrFun (congrArg TagData.inputTags htags) i
    exact hin.trans (hs (hstate ▸ hdone) i (hnum ▸ hi))

theorem NoTags.calls {cs : List Call} (hs : s.NoTags)
    (h : s.calls now cs = .ok s') : s'.NoTags :=
  calls_rule h (R := fun s s' => s.NoTags → s'.NoTags) (fun _ => id)
    (fun h h' hs => h' (h hs)) (fun _ _ _ _ hcall hs => hs.call hcall) hs

/-- Something without items is sent. -/
structure PostsTags (b b' : BlockActor) : Prop where
  state : b'.blockState = b.blockState
  numInputs : b'.numInputs = b.numInputs
  tags : b'.inputTags = b.inputTags
  sent : ∃ out, b'.sent = b.sent ++ out ∧ ∀ m ∈ out, m.carriesItems = false

theorem PostsTags.tag (hs : PostsTags b s) (o : Nat) (t : Tag) :
    PostsTags b (s.postOutputTag o t) := by
  obtain ⟨hstate, hnum, htags, out, hsent, hitems⟩ := hs
  refine ⟨hstate, hnum, htags, out ++ [Outgoing.downstream o (.tag t)], ?_,
    fun m hm => ?_⟩
  · show s.sent ++ [_] = _
    rw [hsent, List.append_assoc]
  · rcases List.mem_append.mp hm with hm | hm
    · exact hitems m hm
    · rw [List.mem_singleton.mp hm]
      rfl

theorem propagateTags_postsTags (i : Nat) (tags : List Tag) (b : BlockActor) :
    PostsTags b (b.propagateTags i tags) := by
  unfold propagateTags
  refine List.foldlRecOn (motive := fun s : BlockActor => PostsTags b s) _ _
    ⟨rfl, rfl, rfl, [], by simp, by simp⟩ fun s hs p _ => ?_
  exact List.foldlRecOn (motive := fun s : BlockActor => PostsTags b s) _ _ hs
    fun s hs t _ => hs.tag p _

/-- What the post-work tasks of an input send: tags, and nothing when the block
is done. -/
structure Passes (b b' : BlockActor) : Prop where
  state : b'.blockState = b.blockState
  numInputs : b'.numInputs = b.numInputs
  noTags : b.NoTags → b'.NoTags
  sent : ∃ out, b'.sent = b.sent ++ out ∧ (∀ m ∈ out, m.carriesItems = false) ∧
    (b.blockState = .done → b.NoTags → out = [])

theorem Passes.refl (b : BlockActor) : Passes b b :=
  ⟨rfl, rfl, id, [], by simp, by simp, fun _ _ => rfl⟩

theorem Passes.trans {b'' : BlockActor} (h : Passes b b') (h' : Passes b' b'') :
    Passes b b'' := by
  obtain ⟨out, hsent, hitems, hnone⟩ := h.sent
  obtain ⟨out', hsent', hitems', hnone'⟩ := h'.sent
  refine ⟨h'.state.trans h.state, h'.numInputs.trans h.numInputs,
    fun hb => h'.noTags (h.noTags hb), out ++ out', ?_, fun m hm => ?_,
    fun hdone hb => ?_⟩
  · rw [hsent', hsent, List.append_assoc]
  · exact (List.mem_append.mp hm).elim (hitems m) (hitems' m)
  · rw [hnone hdone hb, hnone' (h.state.trans hdone) (h.noTags hb)]
    rfl

/-- Nothing is sent, and the tags stay. -/
theorem Passes.of_eq (hstate : b'.blockState = b.blockState)
    (hnum : b'.numInputs = b.numInputs) (htags : b'.inputTags = b.inputTags)
    (hsent : b'.sent = b.sent) : Passes b b' := by
  refine ⟨hstate, hnum, fun hb hdone i hi => ?_, [],
    by rw [hsent, List.append_nil], by simp, fun _ _ => rfl⟩
  rw [htags]
  exact hb (hstate ▸ hdone) i (hnum ▸ hi)

/-- Where `propagate_tags` is not overloaded, trimming passes tags on. -/
theorem trimTags_passes (henv : env.propagateTags = none) (hi : i < b.numInputs)
    (h : b.trimTags env i = .ok b') : Passes b b' := by
  rcases trimTags_cases h with ⟨-, rfl⟩ | ⟨hpassed, b₁, hpass, rfl⟩
  · exact .refl b'
  · rw [passTags, henv, Checked.pure_eq_ok] at hpass
    subst hpass
    have hposts : PostsTags b (b.propagateTags i (b.passed i)) :=
      propagateTags_postsTags i _ b
    obtain ⟨hstate, hnum, htags, out, hsent, hitems⟩ := hposts
    refine ⟨hstate, hnum, fun hb hdone k hk => ?_, out, hsent, hitems,
      fun hdone hb => ?_⟩
    · have hnone := hb (hstate ▸ hdone) k (hnum ▸ hk)
      show Function.update (b.propagateTags i (b.passed i)).inputTags i _ k = []
      by_cases hki : k = i
      · subst hki
        rw [Function.update_self, htags, hnone, List.drop_nil]
      · rw [Function.update_of_ne hki, htags, hnone]
    · -- A done block has no tags to pass on.
      refine absurd ?_ hpassed
      rw [BlockActor.passed, hb hdone i hi]
      rfl

theorem finishInput_passes (henv : env.propagateTags = none)
    (hi : i < b.numInputs) (h : b.finishInput env i = .ok b') :
    Passes b b' := by
  simp only [finishInput, Checked.bind_eq_ok, Checked.pure_eq_ok] at h
  obtain ⟨s₁, htags, s₂, hbuffs, s₃, havail, rfl⟩ := h
  have hmsgs : Passes b (b.trimMsgs i) := .of_eq rfl rfl rfl rfl
  have htrim : Passes (b.trimMsgs i) s₁ := trimTags_passes henv hi htags
  have hconsume : Passes s₁ s₂ := by
    unfold trimBuffs at hbuffs
    split at hbuffs
    · rw [Checked.pure_eq_ok] at hbuffs
      exact hbuffs ▸ .refl s₁
    · simp only [Checked.bind_eq_ok, Checked.pure_eq_ok] at hbuffs
      obtain ⟨p, -, rfl⟩ := hbuffs
      exact .of_eq rfl rfl rfl rfl
  have hupdate : Passes s₂ s₃ := by
    simp only [updateInputAvail, Checked.bind_eq_ok,
      Checked.pure_eq_ok] at havail
    obtain ⟨p, -, rfl⟩ := havail
    exact .of_eq rfl rfl rfl rfl
  exact (((hmsgs.trans htrim).trans hconsume).trans hupdate).trans
    (.of_eq rfl rfl rfl rfl)

/-- **The tags that are propagated** are sent ahead. -/
theorem Ahead.propagate (hs : Ahead o b tags s) (hnone : s.NoTags)
    (henv : env.propagateTags = none)
    (h : forRange (finishInput env) s.numInputs s = .ok s') :
    Ahead o b (tags ++ s.tagsPropagated env o) s' := by
  have hpasses : Passes s s' :=
    forRange_rule h (P := fun _ s₁ => Passes s s₁) (.refl s)
    fun k hk s₁ s₂ hs₁ hf =>
      hs₁.trans (finishInput_passes henv (hs₁.numInputs ▸ hk) hf)
  obtain ⟨out, hsent, hitems, hquiet⟩ := hpasses.sent
  have htags : s.tagsPropagated env o =
      (sentOn o out).filterMap InputMessage.asTag := by
    rw [tagsPropagated, henv, h]
    show (sentOn o (s'.sent.drop s.sent.length)).filterMap
        InputMessage.asTag = _
    rw [hsent, List.drop_left]
  refine hs.send hsent hitems hpasses.state fun t ht => ?_
  rw [htags] at ht
  obtain ⟨message, hmessage, htag⟩ := List.mem_filterMap.mp ht
  have hmem := mem_sentOn.mp hmessage
  cases message with
  | tag t' =>
      cases htag
      refine ⟨fun hdone => ?_, hmem⟩
      rw [hquiet hdone hnone] at hmem
      cases hmem
  | _ => cases htag

/-- The post-work tasks of an input take back nothing that was sent. -/
theorem finishInput_sends (h : b.finishInput env i = .ok b') :
    b.sent <+: b'.sent := by
  simp only [finishInput, Checked.bind_eq_ok, Checked.pure_eq_ok] at h
  obtain ⟨s₁, htags, s₂, hbuffs, s₃, havail, rfl⟩ := h
  have htrim : (b.trimMsgs i).sent <+: s₁.sent := by
    rcases trimTags_cases htags with ⟨-, rfl⟩ | ⟨-, s₀, hpass, rfl⟩
    · exact List.prefix_refl _
    · exact passTags_rule hpass (R := fun s s' => s.sent <+: s'.sent)
        (fun s => List.prefix_refl _) (fun h h' => h.trans h')
        (fun s o t => List.prefix_append _ _) fun _ _ c _ s s' hcall =>
          call_sends hcall
  have hconsume : s₂.sent = s₁.sent := by
    unfold trimBuffs at hbuffs
    split at hbuffs
    · rw [Checked.pure_eq_ok] at hbuffs
      rw [hbuffs]
    · simp only [Checked.bind_eq_ok, Checked.pure_eq_ok] at hbuffs
      obtain ⟨p, -, rfl⟩ := hbuffs
      rfl
  show b.sent <+: s₃.sent
  rw [updateInputAvail_sent havail, hconsume]
  exact htrim

/-- So do those of the outputs. -/
theorem finish_sends (h : forRange (finishOutput now) n b = .ok b') :
    b.sent <+: b'.sent := by
  refine forRange_relates h (R := fun s s' : BlockActor => s.sent <+: s'.sent)
    (fun s => List.prefix_refl _) (fun h h' => h.trans h') fun o _ s s' hf => ?_
  unfold finishOutput at hf
  split at hf
  · rw [Checked.pure_eq_ok] at hf
    exact hf ▸ List.prefix_refl _
  · simp only [Checked.bind_eq_ok, Checked.pure_eq_ok, Prod.exists] at hf
    obtain ⟨buff, p, -, rfl⟩ := hf
    split
    · exact List.prefix_append _ _
    · exact List.prefix_refl _

/-- **A task** takes back nothing that was sent. -/
theorem taskMain_sends (h : b.taskMain env = .ok b') : b.sent <+: b'.sent := by
  refine taskMain_rule (S := ⟨fun _ => True, fun _ => True, fun _ => True⟩) h
    (R := fun s s' => s.sent <+: s'.sent) (fun s => List.prefix_refl _)
    (fun h h' => h.trans h') (fun s s' hquiet => ?_)
    (fun c _ s s' hcall => call_sends hcall) fun s => ?_
  · obtain ⟨out, hsent, -⟩ := hquiet.sent
    exact ⟨out, hsent.symm⟩
  · unfold taskKicker
    split <;> exact List.prefix_refl _

/-- Before the work nothing is sent. -/
theorem prepare_sent (h : b.prepare env = .ok b') : b'.sent = b.sent := by
  simp only [prepare, Checked.bind_eq_ok, Prod.exists] at h
  obtain ⟨b₁, j, hin, hout⟩ := h
  have h₁ : b₁.sent = b.sent :=
    forRange_rule hin (P := fun _ s => s.1.sent = b.sent) rfl
    fun i _ s s' hs hf => (prepareInput_sent hf).trans hs
  refine forRange_rule hout (P := fun _ s => s.sent = b.sent) h₁
    fun o _ s s' hs hf => ?_
  simp only [prepareOutput, Checked.bind_eq_ok, Checked.pure_eq_ok,
    Prod.exists] at hf
  obtain ⟨-, -, buff, p, -, -, -, rfl⟩ := hf
  exact hs

/-- **In a task** the tags are sent ahead of the items. -/
theorem task_ahead (hallowed : b.isWorkAllowed = true)
    (h : b.taskMain env = .ok b') :
    ∃ ahead behind, b'.sent = b.sent ++ ahead ++ behind ∧
      (∀ m ∈ ahead, m.carriesItems = false) ∧
      ∀ t ∈ b.taskTags env o, .downstream o (.tag t) ∈ ahead := by
  obtain ⟨b₁, b₂, b₃, hprepare, hwork, hfinish, rfl⟩ :=
    taskMain_parts hallowed h
  have hlive : b₁.blockState ≠ .done := by
    have hstate : b₁.blockState = b.blockState :=
      congrArg Control.blockState (prepare_control hprepare)
    rw [hstate, (isReady_iff.mp (isWorkAllowed_iff.mp hallowed).2).1]
    exact fun h => by cases h
  have hsent : b₁.sent = b.sent := prepare_sent hprepare
  have hstart : Ahead o b [] b₁.atCall :=
    ⟨[], [], (show b₁.sent = _ by simpa using hsent),
      by simp, fun _ => rfl, by simp⟩
  have hopen : b₁.atCall.NoTags := fun hdone => absurd hdone hlive
  have htask : b.taskTags env o = tagsCalled env.now o env.work b₁.atCall ++
      b₂.tagsPropagated env o := by
    simp only [taskTags, hprepare, hwork]
  rw [htask]
  simp only [finish, Checked.bind_eq_ok] at hfinish
  obtain ⟨b₄, hin, hout⟩ := hfinish
  have hkick : b₃.sent <+: b₃.taskKicker.sent := by
    unfold taskKicker
    split <;> exact List.prefix_refl _
  obtain ⟨rest, hrest⟩ := (finish_sends hout).trans hkick
  have hworked : Ahead o b (tagsCalled env.now o env.work b₁.atCall) b₂ ∧
      b₂.NoTags := by
    simp only [taskWork, Checked.bind_eq_ok, Checked.pure_eq_ok] at hwork
    obtain ⟨b₀, hcalls, rfl⟩ := hwork
    have hcalls : b₁.atCall.calls env.now env.work = .ok b₀ := hcalls
    have hahead := hstart.calls hcalls
    have hnone := hopen.calls hcalls
    exact ⟨hahead, hnone⟩
  have hpassed : ∃ ahead behind, b₄.sent = b.sent ++ ahead ++ behind ∧
      (∀ m ∈ ahead, m.carriesItems = false) ∧
      ∀ t ∈ tagsCalled env.now o env.work b₁.atCall ++ b₂.tagsPropagated env o,
        .downstream o (.tag t) ∈ ahead := by
    cases henv : env.propagateTags with
    | none =>
        obtain ⟨ahead, behind, hparts, hitems, -, htags⟩ :=
          hworked.1.propagate hworked.2 henv hin
        exact ⟨ahead, behind, hparts, hitems, htags⟩
    | some overload =>
        have hnone : b₂.tagsPropagated env o = [] := by
          simp only [tagsPropagated, henv]
        obtain ⟨ahead, behind, hparts, hitems, -, htags⟩ := hworked.1
        obtain ⟨out, hout⟩ := forRange_relates hin
          (R := fun s s' : BlockActor => s.sent <+: s'.sent)
          (fun s => List.prefix_refl _)
          (fun h h' => h.trans h') fun k _ s s' hf => finishInput_sends hf
        refine ⟨ahead, behind ++ out, ?_, hitems, ?_⟩
        · rw [← hout, hparts, List.append_assoc]
        · rwa [hnone, List.append_nil]
  obtain ⟨ahead, behind, hparts, hitems, htags⟩ := hpassed
  exact ⟨ahead, behind ++ rest,
    by rw [← hrest, hparts, List.append_assoc], hitems, htags⟩

end Calls

/-! ## An event -/

section Events

variable {b b' : BlockActor} {env : Env} {e : BlockEvent} {m : Message}
  {now : Int} {o : Nat}

theorem markDone_sends (h : b.markDone now = .ok b') : b.sent <+: b'.sent := by
  obtain ⟨out, hsent, -⟩ := (GetsNone.markDone h).sent
  exact ⟨out, hsent.symm⟩

theorem leave_sends (h : b.leave env m = .ok b') : b.sent <+: b'.sent := by
  unfold leave at h
  split at h
  · split at h
    · exact markDone_sends h
    · rw [Checked.pure_eq_ok] at h
      exact h ▸ List.prefix_refl _
  · rw [Checked.pure_eq_ok] at h
    exact h ▸ List.prefix_refl _

theorem acknowledge_sends (sender : Option Address) (b : BlockActor) :
    b.sent <+: (b.acknowledge sender).sent := by
  cases sender with
  | none => exact List.prefix_refl _
  | some a => exact List.prefix_append _ _

/-- **A handler** takes back nothing that was sent. -/
theorem handler_sends (h : b.handler env m = .ok b') : b.sent <+: b'.sent := by
  cases handled h with
  | @task m store b₀ b₁ b' henter hstore htask hleave =>
      subst hstore
      have hentered : b₀.sent = b.sent := (enter_control henter).2
      exact hentered ▸ (taskMain_sends htask).trans (leave_sends hleave)
  | tag i tag hstate =>
      have hsent : (b.handleInputTag i tag).sent = b.sent := by
        rw [handleInputTag, if_neg hstate]
      exact hsent ▸ List.prefix_refl _
  | inputUpdate hupdate =>
      obtain ⟨out, hsent, -⟩ := (GetsNone.inputUpdate hupdate).sent
      exact ⟨out, hsent.symm⟩
  | outputUpdate hupdate =>
      obtain ⟨out, hsent, -⟩ := (GetsNone.outputUpdate hupdate).sent
      exact ⟨out, hsent.symm⟩
  | outputAlloc hset =>
      simp only [handleOutputAlloc, Checked.bind_eq_ok,
        Checked.pure_eq_ok] at hset
      obtain ⟨p, -, rfl⟩ := hset
      exact List.prefix_refl _
  | @topAlloc prio sender b' halloc =>
      simp only [handleTopAlloc, Checked.bind_eq_ok,
        Checked.pure_eq_ok] at halloc
      obtain ⟨b₁, hloop, rfl⟩ := halloc
      refine List.IsPrefix.trans ?_ (acknowledge_sends sender b₁)
      refine forRange_relates hloop
        (R := fun s s' : BlockActor => s.sent <+: s'.sent)
        (fun s => List.prefix_refl _)
          (fun h h' => h.trans h') fun p _ s s' hf => ?_
      obtain ⟨config, q, -, rfl⟩ := allocateOutput_cases hf
      exact List.prefix_append _ _
  | @outputsDone i b' hall hdone =>
      have hrecheck : (b.recheckOutput env i).sent <+: b'.sent :=
        markDone_sends hdone
      exact hrecheck
  | @inert prio sender b₁ hdone =>
      exact (markDone_sends hdone).trans (acknowledge_sends sender b₁)
  | @active prio sender =>
      refine List.IsPrefix.trans ?_ (acknowledge_sends sender _)
      split <;> exact List.prefix_refl _
  | @callable key sender =>
      have hcalls : b.sent <+: (b.attempt env.now env.called).sent :=
        attempt_rule env.called b
          (R := fun s s' : BlockActor => s.sent <+: s'.sent)
          (fun s => List.prefix_refl _) (fun h h' => h.trans h')
          fun c _ s s' hcall => call_sends hcall
      exact hcalls.trans (List.prefix_append _ _)
  | quiet hstate hdata hquiet =>
      obtain ⟨out, hsent, -⟩ := hquiet.sent
      exact ⟨out, hsent.symm⟩

/-- **An event** takes back nothing that was sent. -/
theorem change_sends (h : b.change e = .ok b') : b.sent <+: b'.sent := by
  cases e with
  | topology env n k sender =>
      obtain ⟨out, hsent, -⟩ := (GetsNone.topology h).sent
      exact ⟨out, hsent.symm⟩
  | actor event =>
      rcases next_cases h with ⟨thread, rfl, rfl⟩ | ⟨env, rfl, hmail, rfl⟩ |
        ⟨env, m, rest, b₁, rfl, hmail, hhandler, rfl⟩
      · have hsent : (b.threadStep thread).sent = b.sent :=
          (threadStep_rest b thread).2.2
        exact hsent ▸ List.prefix_refl _
      · exact List.prefix_refl _
      · have hhandled : (b.receive m rest).sent <+: b₁.sent :=
          handler_sends hhandler
        exact hhandled

/-- **In an event** the tags of the task are sent ahead of the items. -/
theorem tags_ahead (h : b.change e = .ok b') :
    ∃ ahead behind, b'.sent = b.sent ++ ahead ++ behind ∧
      (∀ m ∈ ahead, m.carriesItems = false) ∧
      ∀ t ∈ b.tagsPosted o e, .downstream o (.tag t) ∈ ahead := by
  obtain ⟨out, hout⟩ := change_sends h
  by_cases htask : ∃ env b₀, e = .actor (.handle env) ∧ b.atTask env = some b₀
  · obtain ⟨env, b₀, rfl, htask⟩ := htask
    have hposted : b.tagsPosted o (.actor (.handle env)) =
        b₀.taskTags env o := by
      simp only [tagsPosted, htask]
    obtain ⟨m, rest, hmail, henter, hallowed⟩ := atTask_eq_some htask
    have hnext : b.next (.handle env) = .ok b' := h
    rcases next_cases hnext with ⟨_, hevent, -⟩ | ⟨_, -, hnone, -⟩ |
      ⟨env, m', rest', b₁, hevent, hmail', hhandler, rfl⟩
    · cases hevent
    · rw [hmail] at hnone
      cases hnone
    · cases hevent
      rw [hmail] at hmail'
      cases hmail'
      obtain ⟨_, b₂, hstore, hmain, hleave⟩ := handler_of_enter henter hhandler
      cases hstore
      obtain ⟨ahead, behind, hsent, hitems, htags⟩ :=
        task_ahead (o := o) hallowed hmain
      obtain ⟨more, hmore⟩ := leave_sends hleave
      have hentered : b₀.sent = b.sent := (enter_control henter).2
      refine ⟨ahead, behind ++ more, ?_, hitems, hposted ▸ htags⟩
      show b₁.sent = _
      rw [← hmore, hsent, hentered, List.append_assoc]
  · refine ⟨[], out, by rw [List.append_nil, hout], by simp, fun t ht => ?_⟩
    cases e with
    | topology env n k sender => cases ht
    | actor event =>
        cases event with
        | thread event => cases ht
        | handle env =>
            simp only [tagsPosted] at ht
            split at ht
            · rename_i b₀ htask'
              exact absurd ⟨env, b₀, rfl, htask'⟩ htask
            · cases ht

end Events

end BlockActor

end Gras
