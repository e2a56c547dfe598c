import Gras.Actor.EndOfStreamRuns
import Gras.Actor.TagOrder

/-!
# The end of the stream of an output

`mark_done` sends what waits on an output and then a check.  A block that is not
done sends no check, and a done block sends no items on any output, whatever
happens to it up to the next activation: `change_closing`.  The exception is a
work that marks its block done and then posts a buffer of its own
(`post_output_buffer`), which is sent behind the check.

An input whose bit in `inputs_done` is set has handled a check:
`change_doneBit`.
-/

namespace Gras

/-- The call posts a buffer of its own. -/
def Call.postsBuffer : Call → Bool
  | postOutputBuffer _ _ => true
  | _ => false

/-- The message brings items to a downstream, or ends a stream. -/
def Outgoing.inStream : Outgoing → Bool
  | downstream _ (.buffer _) => true
  | downstream _ .check => true
  | _ => false

/-- No items come behind a check. -/
def EndsAtCheck (l : List InputMessage) : Prop :=
  ∀ ahead behind, l = ahead ++ .check :: behind → streamBytes behind = 0

theorem EndsAtCheck.append {l l' : List InputMessage} (hl : EndsAtCheck l)
    (hl' : EndsAtCheck l') (hbehind : .check ∈ l → streamBytes l' = 0) :
    EndsAtCheck (l ++ l') := by
  intro ahead behind heq
  rcases List.append_eq_append_iff.mp heq with ⟨more, rfl, hmore⟩ |
    ⟨more, hmore, htail⟩
  · exact hl' more behind hmore
  · cases more with
    | nil =>
        rw [List.append_nil] at hmore
        exact hl' [] behind htail.symm
    | cons message more =>
        obtain ⟨rfl, rfl⟩ := List.cons.inj htail
        have hcheck : InputMessage.check ∈ l := by
          rw [hmore]
          exact List.mem_append_right _ List.mem_cons_self
        have hmore := hl ahead more hmore
        show streamBytes (more ++ l') = 0
        rw [streamBytes_append, hmore, hbehind hcheck]

namespace BlockActor

/-- The messages that a message brings to an input. -/
def messagesOn (i : Nat) : Message → List InputMessage
  | .input j message => if j = i then [message] else []
  | _ => []

/-- Between the states a stream goes on or ends: a done block stays done and
sends no items, and a check is sent by a block that is done then, behind all
items. -/
structure Closing (o : Nat) (b b' : BlockActor) : Prop where
  done : b.blockState = .done → b'.blockState = .done
  sent : ∃ out, b'.sent = b.sent ++ out ∧
    (b.blockState = .done → streamBytes (sentOn o out) = 0) ∧
    (b'.blockState ≠ .done → .check ∉ sentOn o out) ∧ EndsAtCheck (sentOn o out)

/-- A done block posts no buffers of its own. -/
def PostsAlive (b : BlockActor) (c : Call) : Prop :=
  b.blockState = .done → c.postsBuffer = false

instance (b : BlockActor) (c : Call) : Decidable (b.PostsAlive c) :=
  inferInstanceAs (Decidable (_ → _))

/-- The outputs of a done block are empty. -/
def OutputsClosed (b : BlockActor) : Prop :=
  b.blockState = .done → ∀ o < b.numOutputs, (b.outputQueues o).empty = true

section Closing

variable {b b' b'' : BlockActor} {env : Env} {now : Int} {c : Call}
  {i o n : Nat}
  {out : List Outgoing} {m : Message}

/-! ### What is sent -/

theorem Closing.refl (o : Nat) (b : BlockActor) : Closing o b b := by
  refine ⟨id, [], (List.append_nil _).symm, fun _ => rfl, fun _ hmem => ?_,
    fun ahead behind h => ?_⟩
  · cases hmem
  · cases ahead <;> cases h

theorem Closing.trans (h : Closing o b b') (h' : Closing o b' b'') :
    Closing o b b'' := by
  obtain ⟨hdone, out, hsent, hquiet, hlive, hends⟩ := h
  obtain ⟨hdone', out', hsent', hquiet', hlive', hends'⟩ := h'
  refine ⟨fun hb => hdone' (hdone hb), out ++ out', ?_, fun hb => ?_,
    fun hb => ?_, ?_⟩
  · rw [hsent', hsent, List.append_assoc]
  · rw [sentOn_append, streamBytes_append, hquiet hb, hquiet' (hdone hb)]
  · rw [sentOn_append, List.mem_append]
    rintro (hcheck | hcheck)
    · exact hlive (fun hb' => hb (hdone' hb')) hcheck
    · exact hlive' hb hcheck
  · rw [sentOn_append]
    refine hends.append hends' fun hcheck => hquiet' ?_
    by_contra hb'
    exact hlive hb' hcheck

/-- Neither items nor a check are sent. -/
theorem Closing.of_quiet (hdone : b.blockState = .done → b'.blockState = .done)
    (hsent : b'.sent = b.sent ++ out) (hout : ∀ m ∈ out, m.inStream = false) :
    Closing o b b' := by
  have hnone : streamBytes (sentOn o out) =
      0 := streamBytes_of_none fun m hm => by
    have hstream := hout m hm
    cases m with
    | downstream p message => cases message <;> first | rfl | cases hstream
    | _ => rfl
  have hcheck : .check ∉ sentOn o out := fun hmem => by
    cases hout _ (mem_sentOn.mp hmem)
  refine ⟨hdone, out, hsent, fun _ => hnone, fun _ => hcheck,
    fun ahead behind heq => absurd ?_ hcheck⟩
  rw [heq]
  exact List.mem_append_right _ List.mem_cons_self

theorem Closing.of_sent (hstate : b'.blockState = b.blockState)
    (hsent : b'.sent = b.sent ++ out) (hout : ∀ m ∈ out, m.inStream = false) :
    Closing o b b' :=
  .of_quiet (fun hb => hstate.trans hb) hsent hout

theorem Closing.of_eq (hstate : b'.blockState = b.blockState)
    (hsent : b'.sent = b.sent) : Closing o b b' :=
  .of_sent hstate (hsent.trans (List.append_nil _).symm)
    (fun _ hm => by cases hm)

/-- A block that is not done posts a buffer. -/
theorem Closing.buffer {p : Nat} {buff : SBuffer} (hlive : b.blockState ≠ .done)
    (hsent : b'.sent = b.sent ++ [Outgoing.downstream p (.buffer buff)]) :
    Closing o b b' := by
  have hcheck : .check ∉
      sentOn o [.downstream p (.buffer buff)] := fun hmem => by
    cases List.mem_singleton.mp (mem_sentOn.mp hmem)
  refine ⟨fun hb => absurd hb hlive, _, hsent, fun hb => absurd hb hlive,
    fun _ => hcheck, fun ahead behind heq => absurd ?_ hcheck⟩
  rw [heq]
  exact List.mem_append_right _ List.mem_cons_self

/-- **`mark_done`** ends the streams. -/
theorem markDone_closing (h : b.markDone now = .ok b') : Closing o b b' := by
  by_cases hb : b.blockState = .done
  · rw [markDone, if_pos hb, Checked.pure_eq_ok] at h
    exact h ▸ .refl o b
  · obtain ⟨l, -, hsent⟩ := markDone_sent hb h
    have hdone := markDone_blockState h
    refine ⟨fun _ => hdone, _, hsent, fun hdone => absurd hdone hb,
      fun hlive => absurd hdone hlive, ?_⟩
    rw [sentOn_append]
    by_cases ho : o < b.numOutputs
    · have hposts : sentOn o (posts l b.numOutputs) = (l o).map .buffer :=
        posts_downstream l ho
      have hchecks : sentOn o (checks b.numInputs b.numOutputs) = [.check] :=
        checks_downstream ho
      rw [hposts, hchecks]
      have hnone : InputMessage.check ∉ (l o).map .buffer := fun hmem => by
        obtain ⟨buff, -, heq⟩ := List.mem_map.mp hmem
        cases heq
      refine EndsAtCheck.append (fun ahead behind heq => absurd ?_ hnone)
        (fun ahead behind heq => ?_) fun _ => rfl
      · rw [heq]
        exact List.mem_append_right _ List.mem_cons_self
      · cases ahead with
        | nil =>
            obtain ⟨-, rfl⟩ := List.cons.inj heq
            rfl
        | cons message ahead =>
            obtain ⟨-, htail⟩ := List.cons.inj heq
            cases ahead <;> cases htail
    · -- There is no such output, and nothing is sent on it.
      have hnone : ∀ message, message ∉ sentOn o (posts l b.numOutputs ++
          checks b.numInputs b.numOutputs) := by
        intro message hmem
        have hmem := mem_sentOn.mp hmem
        simp only [posts, checks, List.mem_append, List.mem_flatMap,
          List.mem_map, List.mem_range] at hmem
        rcases hmem with ⟨p, hp, buff, -, heq⟩ | ⟨i, -, heq⟩ | ⟨p, hp, heq⟩
        · cases heq
          exact ho hp
        · cases heq
        · cases heq
          exact ho hp
      rw [← sentOn_append]
      intro ahead behind heq
      refine absurd ?_ (hnone .check)
      rw [heq]
      exact List.mem_append_right _ List.mem_cons_self

/-- A call that marks no block done posts tags and messages at most. -/
theorem call_posts (hmarks : b.marksDone c = false)
    (h : b.call now c = .ok b') :
    ∃ out, b'.sent = b.sent ++ out ∧
      ∀ m ∈ out, m.inStream = false ∧ ∃ o message,
      m = .downstream o message := by
  have hsame : b'.sent = b.sent → ∃ out, b'.sent = b.sent ++ out ∧
      ∀ m ∈ out, m.inStream = false ∧ ∃ o message, m = .downstream o message :=
    fun hsent => ⟨[], by rw [hsent, List.append_nil], by simp⟩
  cases hwork : c.duringWork with
  | true => exact hsame (call_work hwork h).1
  | false =>
      cases c with
      | postOutputTag o tag =>
          rw [call, Checked.pure_eq_ok] at h
          subst h
          exact ⟨[.downstream o (.tag tag)], rfl, by simp [Outgoing.inStream]⟩
      | postOutputMsg o msg =>
          rw [call, Checked.pure_eq_ok] at h
          subst h
          exact ⟨[.downstream o (.msg msg)], rfl, by simp [Outgoing.inStream]⟩
      | popInputMsg i =>
          rw [call, Checked.pure_eq_ok] at h
          subst h
          refine hsame ?_
          unfold popInputMsg
          split <;> rfl
      | markInputFail i fresh =>
          simp only [call, inputFail] at h
          split at h
          · simp only [Checked.bind_eq_ok, Checked.pure_eq_ok, Prod.exists] at h
            obtain ⟨p, memory, -, rfl⟩ := h
            refine hsame ?_
            unfold taskKicker
            split <;> rfl
          · rename_i haccum
            split at h
            · rename_i hbit
              have hstate : b.blockState = .done := by
                simpa [marksDone, not_not.mp haccum, hbit] using hmarks
              rw [BlockActor.markDone, if_pos hstate, Checked.pure_eq_ok] at h
              exact hsame (h ▸ rfl)
            · split at h
              · simp at h
              · rw [Checked.pure_eq_ok] at h
                subst h
                exact hsame rfl
      | markOutputFail o =>
          simp only [call, outputFail, Checked.bind_eq_ok, Prod.exists] at h
          obtain ⟨buff, p, -, h⟩ := h
          split at h
          · simp at h
          · rw [Checked.pure_eq_ok] at h
            subst h
            exact hsame rfl
      | markDone =>
          have hstate : b.blockState = .done := by
            simpa [marksDone] using hmarks
          rw [call, BlockActor.markDone, if_pos hstate, Checked.pure_eq_ok] at h
          exact hsame (h ▸ rfl)
      | postInput i message =>
          rw [call, Checked.pure_eq_ok] at h
          subst h
          exact hsame rfl
      | thread event =>
          rw [call, Checked.pure_eq_ok] at h
          subst h
          exact hsame (threadStep_rest b event).2.2
      | _ => cases hwork

/-- **A call** lets a stream go on or ends it. -/
theorem call_closing (h : b.call now c = .ok b') : Closing o b b' := by
  cases hmarks : b.marksDone c with
  | true => exact markDone_closing (markDone_of_call hmarks h)
  | false =>
      obtain ⟨out, hsent, hout⟩ := call_posts hmarks h
      exact .of_sent (call_blockState hmarks h) hsent fun m hm => (hout m hm).1

/-! ### The outputs of a done block -/

theorem OutputsClosed.of_eq (hb : b.OutputsClosed)
    (hstate : b'.blockState = b.blockState)
    (hnum : b'.numOutputs = b.numOutputs)
    (hqueues : b'.outputQueues = b.outputQueues) :
    b'.OutputsClosed := by
  intro hdone k hk
  rw [hqueues]
  exact hb (hstate ▸ hdone) k (hnum ▸ hk)

/-- Nothing is written to an output that there is. -/
theorem OutputsClosed.set {p p' : OutputPort} {buff : SBuffer} {k : Nat}
    (hb : b.OutputsClosed) (hdone : b.blockState = .done)
    (hfront : (b.outputQueues k).front = .ok (buff, p))
    (hnum : b'.numOutputs = b.numOutputs)
    (hqueues : b'.outputQueues = Function.update b.outputQueues k p') :
    b'.OutputsClosed := by
  intro _ j hj
  have hj : j < b.numOutputs := hnum ▸ hj
  have hjk : j ≠ k := by
    rintro rfl
    have hempty := OutputPort.empty_of_front hfront
    rw [hb hdone j hj] at hempty
    cases hempty
  rw [hqueues, Function.update_of_ne hjk]
  exact hb hdone j hj

/-- **`mark_done`** empties the outputs. -/
theorem markDone_closed (hb : b.OutputsClosed) (h : b.markDone now = .ok b') :
    b'.OutputsClosed := by
  by_cases hdone : b.blockState = .done
  · rw [markDone, if_pos hdone, Checked.pure_eq_ok] at h
    exact h ▸ hb
  · obtain ⟨b₁, -, -, b₂, -, rfl⟩ := markDone_parts hdone h
    intro _ k hk
    show (if k < b₂.numOutputs then (b₂.outputQueues k).flush now
        else b₂.outputQueues k).empty =
      true
    rw [if_pos (show k < b₂.numOutputs from hk)]
    rfl

/-- **A call** leaves the outputs of a done block empty, if it posts no buffer
of its own. -/
theorem OutputsClosed.call (hb : b.OutputsClosed) (hposts : b.PostsAlive c)
    (h : b.call now c = .ok b') : b'.OutputsClosed := by
  cases hmarks : b.marksDone c with
  | true => exact markDone_closed hb (markDone_of_call hmarks h)
  | false =>
      have hstate := call_blockState hmarks h
      by_cases hdone : b.blockState = .done
      · cases c with
        | consume i items =>
            simp only [BlockActor.call, Checked.bind_eq_ok,
              Checked.pure_eq_ok] at h
            obtain ⟨-, -, rfl⟩ := h
            exact hb.of_eq rfl rfl rfl
        | produce k items =>
            simp only [BlockActor.call, produce, Checked.bind_eq_ok,
              Checked.pure_eq_ok] at h
            obtain ⟨-, -, p, hproduce, rfl⟩ := h
            simp only [OutputPort.produce, Checked.bind_eq_ok,
              Prod.exists] at hproduce
            obtain ⟨buff, q, hfront, -⟩ := hproduce
            exact hb.set hdone hfront rfl rfl
        | getInputBuffer i fresh =>
            simp only [BlockActor.call, getInputBuffer, Checked.bind_eq_ok,
              Checked.pure_eq_ok, Prod.exists] at h
            obtain ⟨buff, p, memory, -, rfl⟩ := h
            exact hb.of_eq rfl rfl rfl
        | getOutputBuffer k =>
            simp only [BlockActor.call, storeLength, Checked.bind_eq_ok,
              Checked.pure_eq_ok, Prod.exists] at h
            obtain ⟨buff, p, hfront, rfl⟩ := h
            exact hb.set hdone hfront rfl rfl
        | popOutputBuffer k numBytes =>
            simp only [BlockActor.call, storeLength, Checked.bind_eq_ok,
              Checked.pure_eq_ok, Prod.exists] at h
            obtain ⟨buff, p, hfront, rfl⟩ := h
            exact hb.set hdone hfront rfl rfl
        | postOutputBuffer k buffer => cases hposts hdone
        | markOutputFail k =>
            simp only [BlockActor.call, outputFail, Checked.bind_eq_ok,
              Prod.exists] at h
            obtain ⟨buff, p, hfront, h⟩ := h
            split at h
            · simp at h
            · rw [Checked.pure_eq_ok] at h
              subst h
              exact hb.set hdone hfront rfl rfl
        | markInputFail i fresh =>
            simp only [BlockActor.call, inputFail] at h
            split at h
            · simp only [Checked.bind_eq_ok, Checked.pure_eq_ok,
                Prod.exists] at h
              obtain ⟨p, memory, -, rfl⟩ := h
              refine hb.of_eq hstate ?_ ?_
              all_goals
                unfold taskKicker
                split <;> rfl
            · rename_i haccum
              split at h
              · exact markDone_closed hb h
              · split at h
                · simp at h
                · rw [Checked.pure_eq_ok] at h
                  subst h
                  exact hb.of_eq rfl rfl rfl
        | popInputMsg i =>
            rw [BlockActor.call, Checked.pure_eq_ok] at h
            subst h
            refine hb.of_eq hstate ?_ ?_
            all_goals
              unfold popInputMsg
              split <;> rfl
        | markDone => exact markDone_closed hb h
        | thread event =>
            rw [BlockActor.call, Checked.pure_eq_ok] at h
            subst h
            refine hb.of_eq hstate (threadStep_rest b event).2.1 ?_
            cases event with
            | post m => rw [threadStep]; split <;> rfl
            | prepare m => rw [threadStep]; split <;> rfl
            | send k => rw [threadStep]; split <;> rfl
            | _ => rfl
        | _ =>
            rw [BlockActor.call, Checked.pure_eq_ok] at h
            subst h
            exact hb.of_eq rfl rfl rfl
      · exact fun hdone' => absurd (hstate ▸ hdone') hdone

/-- A call of a task: the streams go on or end, and the outputs of a done block
are empty. -/
def Ending (o : Nat) (b b' : BlockActor) : Prop :=
  Closing o b b' ∧ (b.OutputsClosed → b'.OutputsClosed)

theorem Ending.refl (o : Nat) (b : BlockActor) : Ending o b b := ⟨.refl o b, id⟩

theorem Ending.trans (h : Ending o b b') (h' : Ending o b' b'') :
    Ending o b b'' :=
  ⟨h.1.trans h'.1, fun hb => h'.2 (h.2 hb)⟩

theorem Ending.of_eq (hstate : b'.blockState = b.blockState)
    (hsent : b'.sent = b.sent) (hnum : b'.numOutputs = b.numOutputs)
    (hqueues : b'.outputQueues = b.outputQueues) :
    Ending o b b' :=
  ⟨.of_eq hstate hsent, fun hb => hb.of_eq hstate hnum hqueues⟩

theorem Ending.call (hposts : b.PostsAlive c) (h : b.call now c = .ok b') :
    Ending o b b' :=
  ⟨call_closing h, fun hb => hb.call hposts h⟩

/-! ### A task -/

theorem Ending.tag (o p : Nat) (t : Tag) (b : BlockActor) :
    Ending o b (b.postOutputTag p t) := by
  have hsent : (b.postOutputTag p t).sent =
      b.sent ++ [Outgoing.downstream p (.tag t)] := rfl
  exact ⟨.of_sent rfl hsent (by simp [Outgoing.inStream]),
    fun hb => hb.of_eq rfl rfl rfl⟩

theorem propagateTags_ending (i : Nat) (tags : List Tag) (b : BlockActor) :
    Ending o b (b.propagateTags i tags) := by
  unfold propagateTags
  refine List.foldlRecOn (motive := fun s : BlockActor => Ending o b s) _
    _ (.refl o b)
    fun s hs p _ => ?_
  exact List.foldlRecOn (motive := fun s : BlockActor => Ending o b s) _ _ hs
    fun s hs t _ => hs.trans (.tag o p _ s)

theorem updateInputAvail_ending (h : b.updateInputAvail now i = .ok b') :
    Ending o b b' := by
  have hcontrol := updateInputAvail_control h
  simp only [updateInputAvail, Checked.bind_eq_ok, Checked.pure_eq_ok] at h
  obtain ⟨p, -, rfl⟩ := h
  exact .of_eq rfl rfl rfl rfl

/-- The post-work tasks of an input. -/
theorem finishInput_ending
    (hmeet : (b.trimMsgs i).passed i ≠ [] → ∀ overload ∈ env.propagateTags,
      CallsMeet PostsAlive env.now (overload i) (b.trimMsgs i))
    (h : b.finishInput env i = .ok b') : Ending o b b' := by
  simp only [finishInput, Checked.bind_eq_ok, Checked.pure_eq_ok] at h
  obtain ⟨s₁, htrim, s₂, hbuffs, s₃, havail, rfl⟩ := h
  have hmsgs : Ending o b (b.trimMsgs i) := .of_eq rfl rfl rfl rfl
  have htags : Ending o (b.trimMsgs i) s₁ := by
    rcases trimTags_cases htrim with ⟨-, rfl⟩ | ⟨hpassed, s₀, hpass, rfl⟩
    · exact .refl o _
    · have hpassing : Ending o (b.trimMsgs i) s₀ := by
        unfold passTags at hpass
        split at hpass
        · rw [Checked.pure_eq_ok] at hpass
          exact hpass ▸ propagateTags_ending i _ _
        · rename_i overload ho
          exact (hmeet hpassed overload ho).rule hpass (.refl o) .trans
            fun c _ s s' hc hcall => .call hc hcall
      exact hpassing.trans (.of_eq rfl rfl rfl rfl)
  have hconsume : Ending o s₁ s₂ := by
    unfold trimBuffs at hbuffs
    split at hbuffs
    · rw [Checked.pure_eq_ok] at hbuffs
      exact hbuffs ▸ .refl o s₁
    · simp only [Checked.bind_eq_ok, Checked.pure_eq_ok] at hbuffs
      obtain ⟨p, -, rfl⟩ := hbuffs
      exact .of_eq rfl rfl rfl rfl
  exact (((hmsgs.trans htags).trans hconsume).trans
    (updateInputAvail_ending havail)).trans
    (.of_eq rfl rfl rfl rfl)

/-- The post-work tasks of an output that there is: what was produced is posted,
if the block is not done. -/
theorem finishOutput_closing (hb : b.OutputsClosed) (hi : i < b.numOutputs)
    (h : b.finishOutput now i = .ok b') :
    Closing o b b' ∧ b'.OutputsClosed := by
  unfold finishOutput at h
  split at h
  · rw [Checked.pure_eq_ok] at h
    exact h ▸ ⟨.refl o b, hb⟩
  · rename_i hempty
    have hlive : b.blockState ≠ .done := fun hdone => hempty (hb hdone i hi)
    simp only [Checked.bind_eq_ok, Checked.pure_eq_ok, Prod.exists] at h
    obtain ⟨buff, p, -, rfl⟩ := h
    split
    · have hsent : ((b.setOutput i p).postDownstream i (.buffer buff)).sent =
          b.sent ++ [Outgoing.downstream i (.buffer buff)] := rfl
      exact ⟨.buffer hlive hsent, fun hdone => absurd hdone hlive⟩
    · exact ⟨.of_eq rfl rfl, fun hdone => absurd hdone hlive⟩

/-- **A task** whose work posts no buffer of its own once its block is done. -/
theorem taskMain_closing (hmeet : TaskMeets PostsAlive env b)
    (h : b.taskMain env = .ok b') : Closing o b b' := by
  cases hallowed : b.isWorkAllowed with
  | false => exact taskMain_idle hallowed h ▸ .refl o b
  | true =>
      obtain ⟨b₁, b₂, b₃, hprepare, hwork, hfinish, rfl⟩ :=
        taskMain_parts hallowed h
      obtain ⟨hcalls, htags⟩ := hmeet hallowed b₁ hprepare
      have hstate₁ : b₁.blockState = b.blockState :=
        congrArg Control.blockState (prepare_control hprepare)
      have hlive : b₁.blockState ≠ .done := by
        rw [hstate₁, (isReady_iff.mp (isWorkAllowed_iff.mp hallowed).2).1]
        exact fun h => by cases h
      have h₁ : Closing o b b₁ := .of_eq hstate₁ (prepare_sent hprepare)
      have h₂ : Ending o b₁ b₂ := by
        simp only [taskWork, Checked.bind_eq_ok, Checked.pure_eq_ok] at hwork
        obtain ⟨b₀, hrun, rfl⟩ := hwork
        have hstart : Ending o b₁ b₁.atCall := .of_eq rfl rfl rfl rfl
        have hcalled : Ending o b₁.atCall b₀ :=
          hcalls.rule hrun (.refl o) .trans
          fun c _ s s' hc hcall => .call hc hcall
        exact (hstart.trans hcalled).trans (.of_eq rfl rfl rfl rfl)
      have hclosed₂ : b₂.OutputsClosed := h₂.2 fun hdone => absurd hdone hlive
      simp only [finish, Checked.bind_eq_ok] at hfinish
      obtain ⟨b₄, hin, hout⟩ := hfinish
      have h₄ := forRange_rule hin
        (P := fun k s => forRange (finishInput env) k b₂ = .ok s ∧
          Ending o b₂ s)
        ⟨rfl, .refl o b₂⟩ fun k hk s s' hs hf =>
          ⟨forRange_succ_eq_ok.mpr ⟨s, hs.1, hf⟩, hs.2.trans
            (finishInput_ending (htags b₂ hwork k hk s hs.1) hf)⟩
      have h₃ := forRange_rule hout
        (P := fun _ s => Closing o b₄ s ∧ s.OutputsClosed ∧
          s.numOutputs = b₄.numOutputs)
        ⟨.refl o b₄, h₄.2.2 hclosed₂, rfl⟩ fun k hk s s' hs hf => by
          obtain ⟨hclosing, hclosed⟩ :=
            finishOutput_closing (o := o) hs.2.1 (hs.2.2 ▸ hk) hf
          exact ⟨hs.1.trans hclosing, hclosed,
            (congrArg Control.numOutputs
              (finishOutput_control hf)).trans hs.2.2⟩
      have hkick : Closing o b₃ b₃.taskKicker := by
        unfold taskKicker
        split <;> exact .of_eq rfl rfl
      exact (((h₁.trans h₂.1).trans h₄.2.1).trans h₃.1).trans hkick

/-! ### An event -/

theorem leave_closing (h : b.leave env m = .ok b') : Closing o b b' := by
  unfold leave at h
  split at h
  · split at h
    · exact markDone_closing h
    · rw [Checked.pure_eq_ok] at h
      exact h ▸ .refl o b
  · rw [Checked.pure_eq_ok] at h
    exact h ▸ .refl o b

theorem acknowledge_closing (sender : Option Address) (b : BlockActor) :
    Closing o b (b.acknowledge sender) := by
  cases sender with
  | none => exact .refl o b
  | some a =>
      have hsent : (b.acknowledge (some a)).sent =
          b.sent ++ [Outgoing.acknowledge a] := rfl
      exact .of_sent rfl hsent (by simp [Outgoing.inStream])

theorem renewInput_closing (env : Env) (i : Nat) (b : BlockActor) :
    Closing o b (b.renewInput env i) := by
  let config := b.inputConfigs i
  have hsent : (b.renewInput env i).sent =
      b.sent ++ [Outgoing.upstream i (.token (env.inputToken i))] ++
        [Outgoing.upstream i
        (.hint (sizeMul config.reserveItems config.itemSize)
          (env.inputToken i))] := rfl
  rw [List.append_assoc] at hsent
  exact .of_sent rfl hsent (by simp [Outgoing.inStream])

theorem renewOutput_closing (env : Env) (i : Nat) (b : BlockActor) :
    Closing o b (b.renewOutput env i) := by
  have hsent : (b.renewOutput env i).sent =
      b.sent ++ [Outgoing.downstream i (.token (env.outputToken i))] := rfl
  exact .of_sent rfl hsent (by simp [Outgoing.inStream])

/-- A message for an input that is not stored. -/
theorem input_closing {message : InputMessage}
    (hidle : b.enter env (.input i message) = none)
    (h : b.handler env (.input i message) = .ok b') : Closing o b b' := by
  cases message with
  | tag t =>
      rw [handler, Checked.pure_eq_ok] at h
      subst h
      unfold handleInputTag
      split
      · exact .refl o b
      · exact .of_eq rfl rfl
  | msg msg =>
      simp only [enter, ite_eq_left_iff, reduceCtorEq, imp_false,
        not_not] at hidle
      rw [handler, handleInputMsg, if_pos hidle, Checked.pure_eq_ok] at h
      exact h ▸ .refl o b
  | buffer buffer =>
      simp only [enter, ite_eq_left_iff, reduceCtorEq, imp_false,
        not_not] at hidle
      rw [handler, handleInputBuffer, if_pos hidle, Checked.pure_eq_ok] at h
      exact h ▸ .refl o b
  | token token =>
      simp only [handler, handleInputToken, Checked.bind_eq_ok,
        Checked.pure_eq_ok] at h
      obtain ⟨-, -, rfl⟩ := h
      exact .of_eq rfl rfl
  | alloc config =>
      rw [handler, Checked.pure_eq_ok] at h
      subst h
      unfold handleInputAlloc
      dsimp only
      split
      · exact .refl o b
      · rename_i queue _
        have hsent : (b.postUpstream i (.alloc queue)).sent =
            b.sent ++ [Outgoing.upstream i (.alloc queue)] := rfl
        exact .of_sent rfl hsent (by simp [Outgoing.inStream])
  | check => cases hidle
  | update =>
      simp only [handler, handleInputUpdate] at h
      split at h
      · rw [Checked.pure_eq_ok] at h
        exact h ▸ .refl o b
      · simp only [Checked.bind_eq_ok, Prod.exists] at h
        obtain ⟨p, memory, -, h⟩ := h
        have hset : Closing o b (({ b with memory }).setInput i p) :=
          .of_eq rfl rfl
        exact hset.trans (updateInputAvail_ending h).1

/-- A message for an output that is not stored. -/
theorem output_closing {message : OutputMessage}
    (hidle : b.enter env (.output i message) = none)
    (h : b.handler env (.output i message) = .ok b') : Closing o b b' := by
  cases message with
  | buffer buffer =>
      simp only [enter, ite_eq_left_iff, reduceCtorEq, imp_false,
        not_not] at hidle
      rw [handler, handleOutputBuffer, if_pos hidle, Checked.pure_eq_ok] at h
      exact h ▸ .refl o b
  | token token =>
      simp only [handler, handleOutputToken, Checked.bind_eq_ok,
        Checked.pure_eq_ok] at h
      obtain ⟨-, -, rfl⟩ := h
      exact .of_eq rfl rfl
  | check =>
      have hrecheck : Closing o b (b.recheckOutput env i) := .of_eq rfl rfl
      simp only [handler, handleOutputCheck] at h
      split at h
      · exact hrecheck.trans (markDone_closing h)
      · rw [Checked.pure_eq_ok] at h
        exact h ▸ hrecheck
  | hint reserveBytes token =>
      rw [handler, Checked.pure_eq_ok] at h
      exact h ▸ .of_eq rfl rfl
  | alloc queue =>
      simp only [handler, handleOutputAlloc, Checked.bind_eq_ok,
        Checked.pure_eq_ok] at h
      obtain ⟨p, -, rfl⟩ := h
      exact .of_eq rfl rfl
  | update =>
      simp only [handler, handleOutputUpdate] at h
      split at h
      · rw [Checked.pure_eq_ok] at h
        exact h ▸ .refl o b
      · simp only [Checked.bind_eq_ok, Checked.pure_eq_ok] at h
        obtain ⟨p, -, rfl⟩ := h
        exact .of_eq rfl rfl

/-- A message of the top block that does not activate a done block. -/
theorem top_closing {message : TopMessage} {prio : Bool}
    {sender : Option Address}
    (hagain : message = .active → b.blockState ≠ .done)
    (h : b.handler env (.top message prio sender) = .ok b') :
    Closing o b b' := by
  cases message with
  | alloc =>
      simp only [handler, handleTopAlloc, Checked.bind_eq_ok,
        Checked.pure_eq_ok] at h
      obtain ⟨b₁, hloop, rfl⟩ := h
      refine Closing.trans ?_ (acknowledge_closing sender b₁)
      refine forRange_relates hloop (.refl o) .trans fun p _ s s' hf => ?_
      obtain ⟨config, q, -, rfl⟩ := allocateOutput_cases hf
      exact .of_sent rfl rfl (by simp [Outgoing.inStream])
  | active =>
      rw [handler, Checked.pure_eq_ok] at h
      subst h
      -- The state changes, but not from done.
      have hlive := hagain rfl
      obtain ⟨t, hactive⟩ := handleTopActive_eq env sender b
      rw [hactive]
      exact .of_quiet (fun hdone => absurd hdone hlive) rfl
        (by cases sender <;> simp [Outgoing.inStream])
  | inert =>
      simp only [handler, handleTopInert, Checked.bind_eq_ok,
        Checked.pure_eq_ok] at h
      obtain ⟨b₁, hdone, rfl⟩ := h
      exact (markDone_closing hdone).trans (acknowledge_closing sender b₁)
  | token token =>
      rw [handler, Checked.pure_eq_ok] at h
      subst h
      unfold handleTopToken
      have h₁ : Closing o b
          ((List.range b.numInputs).foldl (fun b i => b.renewInput env i) b) :=
        List.foldlRecOn (motive := fun s : BlockActor => Closing o b s) _
          _ (.refl o b)
          fun s hs i _ => hs.trans (renewInput_closing env i s)
      have h₂ (s : BlockActor) :
          Closing o s ((List.range s.numOutputs).foldl
            (fun b i => b.renewOutput env i) s) :=
        List.foldlRecOn (motive := fun t : BlockActor => Closing o s t) _
          _ (.refl o s)
          fun t ht i _ => ht.trans (renewOutput_closing env i t)
      have h₃ (s : BlockActor) : Closing o s (s.insertToken token) :=
        .of_eq rfl rfl
      exact ((h₁.trans (h₂ _)).trans (h₃ _)).trans
        (acknowledge_closing sender _)
  | config config =>
      rw [handler, Checked.pure_eq_ok] at h
      subst h
      have hmerge : Closing o b (b.handleTopConfig config none) :=
        .of_eq rfl rfl
      exact hmerge.trans (acknowledge_closing sender _)
  | threadGroup =>
      rw [handler, Checked.pure_eq_ok] at h
      subst h
      have hset : Closing o b
          { b with interruptibleThread := b.globalConfig.interruptibleWork } :=
        .of_eq rfl rfl
      exact hset.trans (acknowledge_closing sender _)

/-- **A handler** of a message that does not activate a done block. -/
theorem handler_closing
    (hmeet : ∀ b₀, b.enter env m = some (.ok b₀) → TaskMeets PostsAlive env b₀)
    (hagain : ∀ prio sender, m = .top .active prio sender →
      b.blockState ≠ .done)
    (h : b.handler env m = .ok b') : Closing o b b' := by
  cases henter : b.enter env m with
  | some store =>
      obtain ⟨b₀, b₁, rfl, htask, hleave⟩ := handler_of_enter henter h
      obtain ⟨hcontrol, hsent⟩ := enter_control henter
      have hentered : Closing o b b₀ :=
        .of_eq (congrArg Control.blockState hcontrol) hsent
      exact (hentered.trans (taskMain_closing (hmeet b₀ henter) htask)).trans
        (leave_closing hleave)
  | none =>
      cases m with
      | input i message => exact input_closing henter h
      | output i message => exact output_closing henter h
      | top message prio sender =>
          exact top_closing
            (fun hactive => hagain prio sender (by rw [hactive])) h
      | callable key sender =>
          rw [handler, Checked.pure_eq_ok] at h
          subst h
          have hcalls : Closing o b (b.attempt env.now env.called) :=
            attempt_rule env.called b (.refl o) .trans fun c _ s s' hcall =>
              call_closing hcall
          have hsent : (b.handleCallable env key sender).sent =
              (b.attempt env.now env.called).sent ++
                [Outgoing.returned sender key] := rfl
          exact hcalls.trans (.of_sent rfl hsent (by simp [Outgoing.inStream]))
      | getStats sender =>
          rw [handler, Checked.pure_eq_ok] at h
          subst h
          have hsent : (b.handleGetStats sender).sent =
              b.sent ++ [Outgoing.stats sender b.currentStats] := rfl
          exact .of_sent rfl hsent (by simp [Outgoing.inStream])
      | selfKick => cases henter

/-- **What ends a stream in order**: the work posts no buffer of its own once
its block is done, and no done block is activated. -/
def EndsInOrder (b : BlockActor) : BlockEvent → Prop
  | .actor (.thread _) => True
  | .actor (.handle env) =>
      match b.mailbox with
      | [] => True
      | m :: rest =>
          (∀ b₀, (b.receive m rest).enter env m = some (.ok b₀) →
            TaskMeets PostsAlive env b₀) ∧
            ∀ prio sender, m = .top .active prio sender → b.blockState ≠ .done
  | .topology _ _ _ _ => True

/-- A change of the topology. -/
theorem topology_closing {k : Nat} {sender : Option Address}
    (h : b.handleTopology env n k sender = .ok b') : Closing o b b' := by
  simp only [handleTopology, Checked.bind_eq_ok, Checked.pure_eq_ok] at h
  obtain ⟨b₁, hrelease, b₂, hin, b₃, hout, rfl⟩ := h
  have hresize : Closing o b (b.resize env.now n k) := .of_eq rfl rfl
  have h₁ : Closing o (b.resize env.now n k) b₁ := by
    unfold releaseUnconnected at hrelease
    split at hrelease
    · exact markDone_closing hrelease
    · rw [Checked.pure_eq_ok] at hrelease
      exact hrelease ▸ .refl o _
  have h₂ : Closing o b₁ b₂ := forRange_relates hin
      (.refl o) .trans fun i _ s s' hf => by
    have hupdate : s.handler env (.input i .update) = .ok s' := hf
    exact input_closing rfl hupdate
  have h₃ : Closing o b₂ b₃ := forRange_relates hout
      (.refl o) .trans fun i _ s s' hf => by
    have hupdate : s.handler env (.output i .update) = .ok s' := hf
    exact output_closing rfl hupdate
  exact (((hresize.trans h₁).trans h₂).trans h₃).trans
    (acknowledge_closing sender b₃)

/-- **An event** lets the streams go on or ends them. -/
theorem change_closing {e : BlockEvent} (hends : b.EndsInOrder e)
    (h : b.change e = .ok b') : Closing o b b' := by
  cases e with
  | topology env n k sender => exact topology_closing h
  | actor event =>
      rcases next_cases h with ⟨thread, rfl, rfl⟩ | ⟨env, rfl, hmail, rfl⟩ |
        ⟨env, m, rest, b₁, rfl, hmail, hhandler, rfl⟩
      · have hrest := threadStep_rest b thread
        exact .of_eq hrest.1 hrest.2.2
      · exact .refl o _
      · simp only [EndsInOrder, hmail] at hends
        have hreceive : Closing o b (b.receive m rest) := .of_eq rfl rfl
        have hhandled : Closing o (b.receive m rest) b₁ :=
          handler_closing hends.1 hends.2 hhandler
        have hlast : Closing o b₁ { b₁ with handlesPrio := false } :=
          .of_eq rfl rfl
        exact (hreceive.trans hhandled).trans hlast

/-! ### The end of the stream of an input -/

/-- The messages of an input that are handled in an event. -/
def handledOn (i : Nat) (b : BlockActor) : BlockEvent → List InputMessage
  | .actor (.handle _) =>
      match b.mailbox with
      | [] => []
      | m :: _ => messagesOn i m
  | _ => []

/-- Only the handler of a check declares an input done. -/
theorem handler_doneBit (hcheck : m ≠ .input i .check)
    (h : b.handler env m = .ok b') (hbit : b'.inputsDone.bit i = true) :
    b.inputsDone.bit i = true := by
  have hmoves : ∀ {ok : ThreadEvent → Prop} {s s' : BlockActor}, Moves ok s s' →
      s'.inputsDone = s.inputsDone := fun h => h.ends.1
  have hdone : ∀ {s s' : BlockActor}, s.markDone env.now = .ok s' →
      s'.inputsDone = s.inputsDone := by
    intro s s' hmark
    have hmove : Moves (fun _ => True) s s' := .single (.done hmark)
    exact hmoves hmove
  have hreply : ∀ (sender : Option Address) (s : BlockActor),
      (s.acknowledge sender).inputsDone = s.inputsDone := fun sender s => by
      cases sender <;> rfl
  cases handled h with
  | @task _ _ b₀ b₁ _ henter hstore htask hleave =>
      subst hstore
      rw [← (enter_done henter).2 i hcheck,
        ← hmoves (taskMain_moves (workWithin_true env) htask)]
      unfold leave at hleave
      split at hleave
      · split at hleave
        · exact hdone hleave ▸ hbit
        · rw [Checked.pure_eq_ok] at hleave
          exact hleave ▸ hbit
      · rw [Checked.pure_eq_ok] at hleave
        exact hleave ▸ hbit
  | tag k tag hstate =>
      rw [handleInputTag, if_neg hstate] at hbit
      exact hbit
  | inputUpdate hup =>
      have hsame : b'.inputsDone = b.inputsDone :=
        congrArg Control.inputsDone (handleInputUpdate_control hup)
      exact hsame ▸ hbit
  | outputUpdate hup =>
      have hsame : b'.inputsDone = b.inputsDone :=
        congrArg Control.inputsDone (handleOutputUpdate_control hup)
      exact hsame ▸ hbit
  | outputAlloc hset =>
      simp only [handleOutputAlloc, Checked.bind_eq_ok,
        Checked.pure_eq_ok] at hset
      obtain ⟨p, -, rfl⟩ := hset
      exact hbit
  | topAlloc halloc =>
      simp only [handleTopAlloc, Checked.bind_eq_ok,
        Checked.pure_eq_ok] at halloc
      obtain ⟨b₁, hloop, rfl⟩ := halloc
      rw [hreply] at hbit
      have hsame : b₁.inputsDone = b.inputsDone := forRange_rule hloop
        (P := fun _ s => s.inputsDone = b.inputsDone) rfl
        fun o _ s s' hs hf => by
          obtain ⟨config, p, -, rfl⟩ := allocateOutput_cases hf
          exact hs
      exact hsame ▸ hbit
  | outputsDone hall hmark =>
      rw [hdone hmark] at hbit
      exact hbit
  | inert hmark => rwa [hreply, hdone hmark] at hbit
  | @active prio sender =>
      have hsame : (b.handleTopActive env sender).inputsDone =
          b.inputsDone := by
        obtain ⟨t, hactive⟩ := handleTopActive_eq env sender b
        rw [hactive]
      exact hsame ▸ hbit
  | @callable key sender =>
      have hcalls : Moves (fun _ => True) b (b.attempt env.now env.called) :=
        attempt_moves fun _ _ => trivial
      have hsame : (b.handleCallable env key sender).inputsDone =
          b.inputsDone := hcalls.ends.1
      exact hsame ▸ hbit
  | quiet hstate hdata hquiet => exact hquiet.inputsDone.2 i hbit

/-- A change of the topology declares no input done. -/
theorem topology_doneBit {k : Nat} {sender : Option Address}
    (h : b.handleTopology env n k sender = .ok b')
    (hbit : b'.inputsDone.bit i = true) : b.inputsDone.bit i = true := by
  simp only [handleTopology, Checked.bind_eq_ok, Checked.pure_eq_ok] at h
  obtain ⟨b₁, hrelease, b₂, hin, b₃, hout, rfl⟩ := h
  have h₁ : b₁.inputsDone = (b.resize env.now n k).inputsDone := by
    unfold releaseUnconnected at hrelease
    split at hrelease
    · have hmove : Moves (fun _ => True) (b.resize env.now n k) b₁ :=
        .single (.done hrelease)
      exact hmove.ends.1
    · rw [Checked.pure_eq_ok] at hrelease
      rw [hrelease]
  have h₂ : b₂.inputsDone = b₁.inputsDone := congrArg Control.inputsDone
    (forRange_control hin fun i s s' hf => handleInputUpdate_control hf)
  have h₃ : b₃.inputsDone = b₂.inputsDone := congrArg Control.inputsDone
    (forRange_control hout fun i s s' hf => handleOutputUpdate_control hf)
  have hlast : (b₃.acknowledge sender).inputsDone = b₃.inputsDone := by
    cases sender <;> rfl
  rw [hlast, h₃, h₂, h₁] at hbit
  have hresized :
      (if i < b.inputsDone.size then b.inputsDone.bit i else false) =
        true := hbit
  split at hresized
  · exact hresized
  · cases hresized

/-- **An input that is declared done** has handled a check. -/
theorem change_doneBit {e : BlockEvent} (h : b.change e = .ok b')
    (hbit : b'.inputsDone.bit i = true) :
    b.inputsDone.bit i = true ∨ .check ∈ b.handledOn i e := by
  cases e with
  | topology env n k sender => exact .inl (topology_doneBit h hbit)
  | actor event =>
      rcases next_cases h with ⟨thread, rfl, rfl⟩ | ⟨env, rfl, hmail, rfl⟩ |
        ⟨env, m, rest, b₁, rfl, hmail, hhandler, rfl⟩
      · have hmove : Moves (fun _ => True) b (b.threadStep thread) :=
          .single (.thread b trivial)
        exact .inl (hmove.ends.1 ▸ hbit)
      · exact .inl hbit
      · by_cases hcheck : m = .input i .check
        · subst hcheck
          right
          simp only [handledOn, hmail, messagesOn, if_pos]
          exact List.mem_singleton_self _
        · have hbit : b₁.inputsDone.bit i = true := hbit
          have hbefore : (b.receive m rest).inputsDone.bit i = true :=
            handler_doneBit hcheck hhandler hbit
          exact .inl hbefore

end Closing

end BlockActor

end Gras
