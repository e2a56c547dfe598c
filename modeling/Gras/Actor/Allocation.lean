import Gras.Lib.TransitionSystem
import Gras.Actor.MarkDone

/-!
# The buffers of a finished block

When the top block allocates, `handle_top_alloc` stores a queue in every output
port and asks the downstream for one of its own; `handle_input_alloc` there may
answer, and `handle_output_alloc` stores the answer.  Meanwhile the block may be
active, and may be done.

A buffer is freed when nobody refers to it and its token has expired.  While the
token is alive, `buffer_returner` sends the buffer back to the block instead,
and a block that is done lets go of it at once.  The token is held by the queue
in the port, by a request and by an answer on their way.
-/

namespace Gras

/-- The answer that a message is. -/
def Message.answer : Message → Option BufferQueue
  | .output _ (.alloc queue) => some queue
  | _ => none

/-- The messages whose handler may get the block a queue, or make it live. -/
def Message.allocates : Message → Bool
  | .top .alloc _ _ => true
  | .top .active _ _ => true
  | .output _ (.alloc _) => true
  | _ => false

/-- Other threads do not answer in the place of the downstream. -/
def ThreadEvent.AnswersNothing (event : ThreadEvent) : Prop :=
  ∀ m, event = .post m → m.answer = none

/-- A supply without queues. -/
def noQueue : Supply where
  arrives := fun _ => True
  returns := fun _ => True
  queue := fun _ => False

/-- **A port without a queue** stays without one while it is given none. -/
theorem OutputPort.queue_none_of_step {p p' : OutputPort} {now : Int}
    (hp : p.queue = none) (h : OutputPort.Step noQueue now p p') :
    p'.queue = none := by
  have hupdate : ∀ {r r' : OutputPort}, r.queue = none →
      OutputPort.update now r = .ok r' →
      r'.queue = none := by
    intro r r' hr hupdate
    obtain ⟨isReady, q, rfl, hq | ⟨q₀, b, q', hq₀, -⟩⟩ :=
      OutputPort.update_parts hupdate
    · exact hq.trans hr
    · rw [hr] at hq₀
      cases hq₀
  have hfront : ∀ {b r}, p.front = .ok (b, r) → r.queue = none := by
    intro b r hfront
    rcases OutputPort.front_cases hfront with ⟨-, rfl⟩ | ⟨-, ⟨q, q', hq, -⟩, -⟩
    · exact hp
    · rw [hp] at hq
      cases hq
  have hpop : ∀ {r r' : OutputPort}, r.queue = none →
      OutputPort.pop now r = .ok r' →
      r'.queue = none := by
    intro r r' hr hpop
    unfold OutputPort.pop at hpop
    split at hpop
    · rw [Checked.pure_eq_ok] at hpop
      exact hpop ▸ hr
    · simp [hr] at hpop
  have hset : ∀ {r : OutputPort} (c : SBuffer), r.queue = none →
      (r.setFront c).queue = none := by
    intro r c hr
    unfold OutputPort.setFront
    split
    · exact hr
    · simp [hr]
  cases h with
  | look h => exact hfront h
  | write n h => exact hset _ (hfront h)
  | consume h =>
      unfold OutputPort.consume at h
      split at h
      · rw [Checked.pure_eq_ok] at h
        exact h ▸ hp
      · simp only [Checked.bind_eq_ok, Prod.exists] at h
        obtain ⟨-, -, buff, r, hlook, h⟩ := h
        split at h
        · rw [Checked.pure_eq_ok] at h
          exact h ▸ hfront hlook
        · exact hpop (hset _ (hfront hlook)) h
  | pop h => exact hpop hp h
  | push hbuffer h =>
      simp only [OutputPort.push, hp, Checked.pure_eq_ok] at h
      exact h ▸ hp
  | @setBufferQueue q p' hqueue h =>
      cases q with
      | none => exact hupdate rfl h
      | some q => exact (hqueue q rfl).elim
  | setReserveBytes h =>
      simp only [OutputPort.setReserveBytes, hp, Checked.pure_eq_ok] at h
      subst h
      rfl
  | fail => exact hp
  | setInline h =>
      simp only [OutputPort.setInline, Checked.bind_eq_ok,
        Checked.pure_eq_ok] at h
      obtain ⟨-, -, rfl⟩ := h
      exact hp
  | flush => rfl

namespace BlockActor

/-! ## What a block owns -/

/-- No output port has a queue. -/
def NoQueues (b : BlockActor) : Prop :=
  ∀ o < b.numOutputs, (b.outputQueues o).queue = none

/-- No answer waits to be handled, or to be sent by another thread. -/
def NoAnswers (b : BlockActor) : Prop :=
  (∀ m ∈ b.mailbox, m.answer = none) ∧ ∀ m ∈ b.holders.prepared, m.answer = none

/-- No other thread has prepared an answer. -/
def Unanswered (b : BlockActor) : Prop :=
  ∀ m ∈ b.holders.prepared, m.answer = none

/-- **The answers stay**: those that wait have waited before. -/
def AnswersStay (b b' : BlockActor) : Prop :=
  b.Unanswered → b'.Unanswered ∧ ∀ m ∈ b'.mailbox,
    m.answer = none ∨ m ∈ b.mailbox

section AnswersStay

variable {b b' b'' : BlockActor} {env : Env} {now : Int}

theorem AnswersStay.refl (b : BlockActor) : AnswersStay b b :=
  fun h => ⟨h, fun _ hm => .inr hm⟩

theorem AnswersStay.trans (h : AnswersStay b b') (h' : AnswersStay b' b'') :
    AnswersStay b b'' := by
  intro hb
  obtain ⟨hb', hmail⟩ := h hb
  obtain ⟨hb'', hmail'⟩ := h' hb'
  exact ⟨hb'', fun m hm => (hmail' m hm).elim .inl (hmail m)⟩

/-- Without answers before there are none after. -/
theorem AnswersStay.noAnswers (h : AnswersStay b b') (hb : b.NoAnswers) :
    b'.NoAnswers := by
  obtain ⟨hprepared, hmail⟩ := h hb.2
  exact ⟨fun m hm => (hmail m hm).elim id (hb.1 m), hprepared⟩

/-- Messages are added, none of which is an answer. -/
theorem AnswersStay.of_append (new : List Message)
    (hprepared : b'.holders.prepared = b.holders.prepared)
    (hmail : b'.mailbox = b.mailbox ++ new)
    (hnew : ∀ m ∈ new, m.answer = none) : AnswersStay b b' := by
  intro hb
  refine ⟨by rwa [Unanswered, hprepared], fun m hm => ?_⟩
  rw [hmail] at hm
  rcases List.mem_append.mp hm with hm | hm
  · exact .inr hm
  · exact .inl (hnew m hm)

theorem AnswersStay.of_eq (hprepared : b'.holders.prepared = b.holders.prepared)
    (hmail : b'.mailbox = b.mailbox) : AnswersStay b b' :=
  .of_append [] hprepared (by rw [hmail, List.append_nil]) (by simp)

theorem AnswersStay.of_control (h : b'.control = b.control) :
    AnswersStay b b' :=
  .of_eq (congrArg (·.holders.prepared) h) (congrArg Control.mailbox h)

theorem AnswersStay.sendSelf {m : Message} (hm : m.answer = none) :
    AnswersStay b (b.sendSelf m) :=
  .of_append [m] rfl rfl (by simpa using hm)

theorem AnswersStay.taskKicker (b : BlockActor) :
    AnswersStay b b.taskKicker := by
  unfold BlockActor.taskKicker
  split
  · exact .sendSelf rfl
  · exact .refl b

theorem AnswersStay.acknowledge (h : AnswersStay b b')
    (sender : Option Address) : AnswersStay b (b'.acknowledge sender) := by
  cases sender with
  | none => exact h
  | some a => exact h.trans (.of_eq rfl rfl)

/-- A message with a copy of the priority token is no answer. -/
theorem answer_of_carriesToken {m : Message} (h : m.carriesToken = true) :
    m.answer = none := by
  cases m with
  | output i message => cases h
  | _ => rfl

theorem AnswersStay.threadStep {event : ThreadEvent}
    (h : event.AnswersNothing) : AnswersStay b (b.threadStep event) := by
  cases event with
  | post m =>
      rw [BlockActor.threadStep]
      split
      · exact .refl b
      · exact .sendSelf (h m rfl)
  | prepare m =>
      rw [BlockActor.threadStep]
      by_cases hm : m.carriesToken = true
      · rw [if_neg (not_not.mpr hm)]
        refine fun hb => ⟨fun m' hm' => ?_, fun _ hm' => .inr hm'⟩
        rcases List.mem_append.mp hm' with hm' | hm'
        · exact hb m' hm'
        · rw [List.mem_singleton] at hm'
          exact hm' ▸ answer_of_carriesToken hm
      · rw [if_pos hm]
        exact .refl b
  | send k =>
      rw [BlockActor.threadStep]
      cases hk : b.holders.prepared[k]? with
      | none => exact .refl b
      | some m =>
          refine fun hb => ⟨fun m' hm' => ?_, fun m' hm' => ?_⟩
          · rw [TokenHolders.keepCopy_prepared] at hm'
            exact hb m' (List.mem_of_mem_eraseIdx hm')
          · rcases List.mem_append.mp hm' with hm' | hm'
            · exact .inr hm'
            · rw [List.mem_singleton] at hm'
              exact .inl (hm' ▸ hb m (List.mem_of_getElem? hk))
  | _ => exact .of_eq rfl rfl

theorem AnswersStay.markDone (h : b.markDone now = .ok b') :
    AnswersStay b b' := by
  rcases markDone_control h with ⟨-, rfl⟩ | ⟨-, hcontrol⟩
  · exact .refl b'
  · exact .of_eq (congrArg (·.holders.prepared) hcontrol)
      (congrArg Control.mailbox hcontrol)

theorem AnswersStay.call {c : Call}
    (hc : ∀ event, c = .thread event → event.AnswersNothing)
    (h : b.call now c = .ok b') : AnswersStay b b' := by
  rcases call_control h with hcontrol | ⟨b₀, hcontrol, rfl⟩ | ⟨j, m, rfl, rfl⟩ |
    ⟨event, rfl, rfl⟩ | hdone
  · exact .of_control hcontrol
  · exact (AnswersStay.of_control hcontrol).trans (.taskKicker b₀)
  · exact .sendSelf rfl
  · exact .threadStep (hc event rfl)
  · exact .markDone hdone

/-- User code runs, and the threads meanwhile answer nothing. -/
def CallsAnswerNothing (env : Env) : Prop :=
  (∀ c, env.Calls c → ∀ event, c = .thread event → event.AnswersNothing) ∧
    ∀ c ∈ env.called, ∀ event, c = .thread event → event.AnswersNothing

theorem AnswersStay.taskMain (henv : CallsAnswerNothing env)
    (h : b.taskMain env = .ok b') : AnswersStay b b' :=
  taskMain_rule (S := noQueue) h .refl .trans
    (fun _ _ hquiet => .of_control hquiet.control)
    (fun c hc _ _ hcall => .call (henv.1 c hc) hcall) .taskKicker

/-- **No handler** answers its own block. -/
theorem AnswersStay.handler {m : Message} (henv : CallsAnswerNothing env)
    (h : b.handler env m = .ok b') : AnswersStay b b' := by
  cases handled h with
  | @task m store b₀ b₁ b' henter hstore htask hleave =>
      subst hstore
      obtain ⟨hcontrol, -⟩ := enter_control henter
      have hstored : AnswersStay b b₀ :=
        .of_eq (congrArg (·.holders.prepared) hcontrol)
          (congrArg Control.mailbox hcontrol)
      refine (hstored.trans (.taskMain henv htask)).trans ?_
      unfold leave at hleave
      split at hleave
      · split at hleave
        · exact .markDone hleave
        · rw [Checked.pure_eq_ok] at hleave
          exact hleave ▸ .refl b₁
      · rw [Checked.pure_eq_ok] at hleave
        exact hleave ▸ .refl b₁
  | tag i tag hstate =>
      rw [handleInputTag, if_neg hstate]
      exact .of_eq rfl rfl
  | inputUpdate hupdate => exact .of_control (handleInputUpdate_control hupdate)
  | outputUpdate hupdate =>
      exact .of_control (handleOutputUpdate_control hupdate)
  | outputAlloc hset =>
      simp only [handleOutputAlloc, Checked.bind_eq_ok,
        Checked.pure_eq_ok] at hset
      obtain ⟨p, -, rfl⟩ := hset
      exact .of_eq rfl rfl
  | topAlloc halloc =>
      simp only [handleTopAlloc, Checked.bind_eq_ok,
        Checked.pure_eq_ok] at halloc
      obtain ⟨b₁, hloop, rfl⟩ := halloc
      refine AnswersStay.acknowledge ?_ _
      refine forRange_relates hloop .refl .trans fun o _ s s' hf => ?_
      obtain ⟨config, p, -, rfl⟩ := allocateOutput_cases hf
      refine .of_append _ rfl rfl fun m hm => ?_
      obtain ⟨buff, -, rfl⟩ := List.mem_map.mp hm
      rfl
  | @active prio sender =>
      have hanswer : ∀ m ∈ [Message.selfKick], m.answer = none := by
        simp [Message.answer]
      obtain ⟨t, hactive⟩ := handleTopActive_eq env sender b
      rw [hactive]
      exact .of_append _ rfl rfl hanswer
  | @outputsDone i b' hall hdone =>
      have hcheck : AnswersStay b (b.recheckOutput env i) := .of_eq rfl rfl
      exact hcheck.trans (.markDone hdone)
  | inert hdone => exact (AnswersStay.markDone hdone).acknowledge _
  | @callable key sender =>
      have hcalls : AnswersStay b (b.attempt env.now env.called) :=
        attempt_rule env.called b .refl .trans fun c hc s s' hcall =>
          .call (henv.2 c hc) hcall
      exact hcalls.trans
        (.of_append [.selfKick] rfl rfl (by simp [Message.answer]))
  | quiet hstate hdata hquiet =>
      obtain ⟨kicks, hmail, hkicks⟩ := hquiet.mailbox
      exact .of_append kicks (by rw [hquiet.holders]) hmail fun m hm =>
        hkicks m hm ▸ rfl

/-- **A change of the topology** answers nothing. -/
theorem AnswersStay.topology {n k : Nat} {sender : Option Address}
    (h : b.handleTopology env n k sender = .ok b') : AnswersStay b b' := by
  simp only [handleTopology, Checked.bind_eq_ok, Checked.pure_eq_ok] at h
  obtain ⟨b₁, hrelease, b₂, hin, b₃, hout, rfl⟩ := h
  have hreleased : AnswersStay b b₁ := by
    unfold releaseUnconnected at hrelease
    split at hrelease
    · have hresize : AnswersStay b (b.resize env.now n k) := .of_eq rfl rfl
      exact hresize.trans (.markDone hrelease)
    · rw [Checked.pure_eq_ok] at hrelease
      exact hrelease ▸ .of_eq rfl rfl
  have hupdated : AnswersStay b₁ b₃ := .of_control
    ((forRange_control hout fun o s s' hf =>
      handleOutputUpdate_control hf).trans
      (forRange_control hin fun i s s' hf => handleInputUpdate_control hf))
  exact (hreleased.trans hupdated).acknowledge sender

end AnswersStay

/-- **The block gets no queue**: none as long as it is done, and none by
becoming done; no answer, and nobody is asked. -/
structure GetsNone (b b' : BlockActor) : Prop where
  queues : b'.blockState = .done →
    (b.blockState = .done → b.NoQueues) → b'.NoQueues
  answers : b.NoAnswers → b'.NoAnswers
  sent : ∃ out, b'.sent = b.sent ++ out ∧ ∀ m ∈ out, m.request = none

section GetsNone

variable {b b' b'' : BlockActor} {env : Env} {now : Int}

theorem GetsNone.refl (b : BlockActor) : GetsNone b b :=
  ⟨fun hdone h => h hdone, fun h => h, [], by simp, by simp⟩

theorem GetsNone.trans (h : GetsNone b b') (h' : GetsNone b' b'') :
    GetsNone b b'' := by
  obtain ⟨out, hout, hnone⟩ := h.sent
  obtain ⟨out', hout', hnone'⟩ := h'.sent
  refine ⟨fun hdone hq => h'.queues hdone fun hdone' => h.queues hdone' hq,
    fun hm => h'.answers (h.answers hm), out ++ out',
    by rw [hout', hout, List.append_assoc], ?_⟩
  intro m hm
  rcases List.mem_append.mp hm with hm | hm
  · exact hnone m hm
  · exact hnone' m hm

/-- Ports that move get no queue. -/
theorem NoQueues.move (hb : b.NoQueues) (h : PortsMove noQueue now b b')
    (hnum : b'.numOutputs = b.numOutputs) : b'.NoQueues := by
  intro o ho
  have hsteps := h.output o
  generalize b'.outputQueues o = p at hsteps ⊢
  induction hsteps with
  | refl => exact hb o (hnum ▸ ho)
  | tail _ hstep ih => exact OutputPort.queue_none_of_step ih hstep

/-- The state and the number of ports stay, and the ports move. -/
theorem GetsNone.of_ports (hstate : b'.blockState = b.blockState)
    (hnum : b'.numOutputs = b.numOutputs) (hports : PortsMove noQueue now b b')
    (hanswers : b.NoAnswers → b'.NoAnswers)
    (hsent : ∃ out, b'.sent = b.sent ++ out ∧ ∀ m ∈ out, m.request = none) :
    GetsNone b b' :=
  ⟨fun hdone hq => (hq (hstate ▸ hdone)).move hports hnum, hanswers, hsent⟩

/-- The control stays. -/
theorem GetsNone.of_control (hcontrol : b'.control = b.control)
    (hports : PortsMove noQueue now b b')
    (hsent : ∃ out, b'.sent = b.sent ++ out ∧ ∀ m ∈ out, m.request = none) :
    GetsNone b b' :=
  .of_ports (congrArg Control.blockState hcontrol)
    (congrArg Control.numOutputs hcontrol)
    hports (AnswersStay.of_control hcontrol).noAnswers hsent

/-- Nothing is sent. -/
theorem sent_of_eq (h : b'.sent = b.sent) :
    ∃ out, b'.sent = b.sent ++ out ∧ ∀ m ∈ out, m.request = none :=
  ⟨[], by rw [h, List.append_nil], by simp⟩

/-- One message more. -/
theorem sent_of_append {m : Outgoing} (h : b'.sent = b.sent ++ [m])
    (hm : m.request = none) :
    ∃ out, b'.sent = b.sent ++ out ∧ ∀ m ∈ out, m.request = none :=
  ⟨[m], h, by simpa using hm⟩

theorem GetsNone.sendSelf {m : Message} (hm : m.answer = none) :
    GetsNone b (b.sendSelf m) :=
  .of_ports rfl rfl (show PortsMove _ 0 _ _ from .of_eq rfl rfl rfl)
    (AnswersStay.sendSelf hm).noAnswers (sent_of_eq rfl)

theorem GetsNone.taskKicker (b : BlockActor) : GetsNone b b.taskKicker := by
  unfold BlockActor.taskKicker
  split
  · exact .sendSelf rfl
  · exact .refl b

/-- What another thread does leaves these alone. -/
theorem threadStep_rest (b : BlockActor) (event : ThreadEvent) :
    (b.threadStep event).blockState = b.blockState ∧
      (b.threadStep event).numOutputs = b.numOutputs ∧
      (b.threadStep event).sent = b.sent := by
  cases event with
  | post m => rw [BlockActor.threadStep]; split <;> exact ⟨rfl, rfl, rfl⟩
  | prepare m => rw [BlockActor.threadStep]; split <;> exact ⟨rfl, rfl, rfl⟩
  | send k => rw [BlockActor.threadStep]; split <;> exact ⟨rfl, rfl, rfl⟩
  | _ => exact ⟨rfl, rfl, rfl⟩

theorem GetsNone.threadStep {event : ThreadEvent} (h : event.AnswersNothing) :
    GetsNone b (b.threadStep event) := by
  obtain ⟨hstate, hnum, hsent⟩ := threadStep_rest b event
  exact .of_ports hstate hnum
    (show PortsMove _ 0 _ _ from threadStep_ports b event)
    (AnswersStay.threadStep h).noAnswers (sent_of_eq hsent)

/-! ### Calls and tasks -/

/-- **`mark_done` releases the queues.** -/
theorem GetsNone.markDone (h : b.markDone now = .ok b') : GetsNone b b' := by
  rcases markDone_control h with ⟨-, rfl⟩ | ⟨hlive, hcontrol⟩
  · exact .refl b'
  · refine ⟨fun _ _ => ?_, (AnswersStay.markDone h).noAnswers, ?_⟩
    · obtain ⟨b₁, -, -, b₂, -, rfl⟩ := markDone_parts hlive h
      intro o ho
      show (if o < b₂.numOutputs then (b₂.outputQueues o).flush now
          else b₂.outputQueues o).queue =
        none
      rw [if_pos (show o < b₂.numOutputs from ho)]
      rfl
    · obtain ⟨l, -, hsent⟩ := markDone_sent hlive h
      refine ⟨_, hsent, fun m hm => ?_⟩
      -- Buffers and checks are posted.
      simp only [posts, checks, List.mem_append, List.mem_flatMap,
        List.mem_map] at hm
      rcases hm with ⟨o, -, buff, -, rfl⟩ | ⟨i, -, rfl⟩ | ⟨o, -, rfl⟩ <;> rfl

/-- A call asks nobody for buffers, or it is `mark_done`. -/
theorem call_sent {c : Call} (h : b.call now c = .ok b') :
    (∃ out, b'.sent = b.sent ++ out ∧ ∀ m ∈ out, m.request = none) ∨
      b.markDone now = .ok b' := by
  cases c with
  | consume i items =>
      simp only [call, Checked.bind_eq_ok, Checked.pure_eq_ok] at h
      obtain ⟨-, -, rfl⟩ := h
      exact .inl (sent_of_eq rfl)
  | produce o items =>
      simp only [call, produce, Checked.bind_eq_ok, Checked.pure_eq_ok] at h
      obtain ⟨-, -, p, -, rfl⟩ := h
      exact .inl (sent_of_eq rfl)
  | popInputMsg i =>
      rw [call, Checked.pure_eq_ok] at h
      subst h
      unfold popInputMsg
      split <;> exact .inl (sent_of_eq rfl)
  | postOutputTag o tag =>
      rw [call, Checked.pure_eq_ok] at h
      subst h
      exact .inl (sent_of_append (m := .downstream o (.tag tag)) rfl rfl)
  | postOutputMsg o msg =>
      rw [call, Checked.pure_eq_ok] at h
      subst h
      exact .inl (sent_of_append (m := .downstream o (.msg msg)) rfl rfl)
  | markInputFail i fresh =>
      simp only [call, inputFail] at h
      split at h
      · simp only [Checked.bind_eq_ok, Checked.pure_eq_ok, Prod.exists] at h
        obtain ⟨p, memory, -, rfl⟩ := h
        unfold BlockActor.taskKicker
        split <;> exact .inl (sent_of_eq rfl)
      · split at h
        · exact .inr h
        · split at h
          · simp at h
          · rw [Checked.pure_eq_ok] at h
            subst h
            exact .inl (sent_of_eq rfl)
  | markOutputFail o =>
      simp only [call, outputFail, Checked.bind_eq_ok, Prod.exists] at h
      obtain ⟨buff, p, -, h⟩ := h
      split at h
      · simp at h
      · rw [Checked.pure_eq_ok] at h
        subst h
        exact .inl (sent_of_eq rfl)
  | markDone => exact .inr h
  | getInputBuffer i fresh =>
      simp only [call, getInputBuffer, Checked.bind_eq_ok, Checked.pure_eq_ok,
        Prod.exists] at h
      obtain ⟨buff, p, memory, -, rfl⟩ := h
      exact .inl (sent_of_eq rfl)
  | getOutputBuffer o =>
      simp only [call, storeLength, Checked.bind_eq_ok, Checked.pure_eq_ok,
        Prod.exists] at h
      obtain ⟨buff, p, -, rfl⟩ := h
      exact .inl (sent_of_eq rfl)
  | popOutputBuffer o numBytes =>
      simp only [call, storeLength, Checked.bind_eq_ok, Checked.pure_eq_ok,
        Prod.exists] at h
      obtain ⟨buff, p, -, rfl⟩ := h
      exact .inl (sent_of_eq rfl)
  | postOutputBuffer o buffer =>
      simp only [call, postOutputBuffer, produce, Checked.bind_eq_ok,
        Checked.pure_eq_ok] at h
      obtain ⟨p, -, -, -, -, -, q, -, rfl⟩ := h
      exact .inl (sent_of_eq rfl)
  | postInput i message =>
      rw [call, Checked.pure_eq_ok] at h
      subst h
      exact .inl (sent_of_eq rfl)
  | thread event =>
      rw [call, Checked.pure_eq_ok] at h
      subst h
      cases event with
      | post m => rw [BlockActor.threadStep]; split <;> exact .inl (sent_of_eq rfl)
      | prepare m =>
          rw [BlockActor.threadStep]; split <;> exact .inl (sent_of_eq rfl)
      | send k => rw [BlockActor.threadStep]; split <;> exact .inl (sent_of_eq rfl)
      | _ => exact .inl (sent_of_eq rfl)

/-- **A call** gets the block no queue. -/
theorem GetsNone.call {c : Call}
    (hc : ∀ event, c = .thread event → event.AnswersNothing)
    (h : b.call now c = .ok b') : GetsNone b b' := by
  have hports : PortsMove noQueue now b b' := call_ports h
  rcases call_sent h with hsent | hdone
  · rcases call_control h with hcontrol | ⟨b₀, hcontrol, rfl⟩ |
      ⟨j, m, rfl, rfl⟩ |
      ⟨event, rfl, rfl⟩ | hdone
    · exact .of_control hcontrol hports hsent
    · have hkick : b₀.taskKicker.numOutputs = b₀.numOutputs ∧
          b₀.taskKicker.blockState = b₀.blockState := by
        unfold BlockActor.taskKicker
        split <;> exact ⟨rfl, rfl⟩
      exact .of_ports (hkick.2.trans (congrArg Control.blockState hcontrol))
        (hkick.1.trans (congrArg Control.numOutputs hcontrol)) hports
        (AnswersStay.call hc h).noAnswers hsent
    · exact .sendSelf rfl
    · exact .threadStep (hc event rfl)
    · exact .markDone hdone
  · exact .markDone hdone

/-- **A task** gets the block no queue. -/
theorem GetsNone.taskMain (henv : CallsAnswerNothing env)
    (h : b.taskMain env = .ok b') : GetsNone b b' := by
  refine taskMain_rule (S := noQueue) h .refl .trans (fun s s' hquiet => ?_)
    (fun c hc s s' hcall => .call (henv.1 c hc) hcall) .taskKicker
  obtain ⟨out, hsent, hitems⟩ := hquiet.sent
  refine .of_control hquiet.control hquiet.ports ⟨out, hsent, fun m hm => ?_⟩
  have hm := hitems m hm
  cases m with
  | downstream o message =>
      cases message with
      | alloc config => cases hm
      | _ => rfl
  | _ => rfl

/-! ### The handlers -/

theorem GetsNone.acknowledge (h : GetsNone b b') (sender : Option Address) :
    GetsNone b (b'.acknowledge sender) := by
  cases sender with
  | none => exact h
  | some a =>
      exact h.trans
        (.of_control rfl (show PortsMove _ 0 _ _ from .of_eq rfl rfl rfl)
        (sent_of_append (m := .acknowledge a) rfl rfl))

theorem GetsNone.inputUpdate {i : Nat}
    (h : b.handleInputUpdate env i = .ok b') : GetsNone b b' := by
  refine .of_control (handleInputUpdate_control h) (handleInputUpdate_ports h)
    (sent_of_eq ?_)
  unfold handleInputUpdate at h
  split at h
  · rw [Checked.pure_eq_ok] at h
    rw [h]
  · simp only [Checked.bind_eq_ok, Prod.exists] at h
    obtain ⟨p, memory, -, h⟩ := h
    exact (updateInputAvail_sent h).trans rfl

theorem GetsNone.outputUpdate {o : Nat}
    (h : b.handleOutputUpdate env o = .ok b') : GetsNone b b' := by
  refine .of_control (handleOutputUpdate_control h) (handleOutputUpdate_ports h)
    (sent_of_eq ?_)
  unfold handleOutputUpdate at h
  split at h
  · rw [Checked.pure_eq_ok] at h
    rw [h]
  · simp only [Checked.bind_eq_ok, Checked.pure_eq_ok] at h
    obtain ⟨p, -, rfl⟩ := h
    rfl

/-- **Any other handler** gets the block no queue. -/
theorem GetsNone.handler {m : Message} (henv : CallsAnswerNothing env)
    (hm : m.allocates = false) (h : b.handler env m = .ok b') :
    GetsNone b b' := by
  cases handled h with
  | @task m store b₀ b₁ b' henter hstore htask hleave =>
      subst hstore
      have hsupplied : m.Supplied noQueue := by
        cases m with
        | input i message => cases message <;> trivial
        | output i message =>
            cases message with
            | alloc queue => cases hm
            | _ => trivial
        | _ => trivial
      obtain ⟨hcontrol, hsent⟩ := enter_control henter
      have hstored : GetsNone b b₀ := by
        have hanswers : AnswersStay b b₀ :=
          .of_eq (congrArg (·.holders.prepared) hcontrol)
            (congrArg Control.mailbox hcontrol)
        exact .of_ports (congrArg Control.blockState hcontrol)
          (congrArg Control.numOutputs hcontrol) (enter_ports hsupplied henter)
          hanswers.noAnswers (sent_of_eq hsent)
      refine (hstored.trans (.taskMain henv htask)).trans ?_
      unfold leave at hleave
      split at hleave
      · split at hleave
        · exact .markDone hleave
        · rw [Checked.pure_eq_ok] at hleave
          exact hleave ▸ .refl b₁
      · rw [Checked.pure_eq_ok] at hleave
        exact hleave ▸ .refl b₁
  | tag i tag hstate =>
      rw [handleInputTag, if_neg hstate]
      exact .of_control rfl
        (show PortsMove _ env.now _ _ from .of_eq rfl rfl rfl) (sent_of_eq rfl)
  | inputUpdate hupdate => exact .inputUpdate hupdate
  | outputUpdate hupdate => exact .outputUpdate hupdate
  | outputAlloc hset => cases hm
  | topAlloc halloc => cases hm
  | active => cases hm
  | @outputsDone i b' hall hdone =>
      have hcheck : GetsNone b (b.recheckOutput env i) :=
        .of_ports rfl rfl (show PortsMove _ env.now _ _ from .of_eq rfl rfl rfl)
          (fun ha => ha) (sent_of_eq rfl)
      exact hcheck.trans (.markDone hdone)
  | inert hdone => exact (GetsNone.markDone hdone).acknowledge _
  | @callable key sender =>
      have hcalls : GetsNone b (b.attempt env.now env.called) :=
        attempt_rule env.called b .refl .trans fun c hc s s' hcall =>
          .call (henv.2 c hc) hcall
      have hreply : GetsNone (b.attempt env.now env.called)
          ((b.attempt env.now env.called).reply (.returned sender key)) :=
        .of_control rfl (show PortsMove _ env.now _ _ from .of_eq rfl rfl rfl)
          (sent_of_append (m := .returned sender key) rfl rfl)
      refine (hcalls.trans hreply).trans (GetsNone.trans ?_ (.sendSelf rfl))
      exact .of_ports rfl rfl
        (show PortsMove _ env.now _ _ from .of_eq rfl rfl rfl) (fun ha => ha)
        (sent_of_eq rfl)
  | quiet hstate hdata hquiet =>
      have hports : PortsMove noQueue env.now b b' :=
        .of_eq (congrArg Data.inputQueues hdata.data)
          (congrArg Data.outputQueues hdata.data)
          (congrArg Data.initTime hdata.data)
      exact .of_ports hstate (congrArg Data.numOutputs hdata.data) hports
        (AnswersStay.handler henv h).noAnswers hquiet.sent

/-- **A change of the topology** gets the block no queue. -/
theorem GetsNone.topology {n k : Nat} {sender : Option Address}
    (h : b.handleTopology env n k sender = .ok b') : GetsNone b b' := by
  simp only [handleTopology, Checked.bind_eq_ok, Checked.pure_eq_ok] at h
  obtain ⟨b₁, hrelease, b₂, hin, b₃, hout, rfl⟩ := h
  have hresize : GetsNone b (b.resize env.now n k) := by
    refine ⟨fun hdone hq o _ => ?_, fun ha => ha, sent_of_eq rfl⟩
    show (if o < b.numOutputs then b.outputQueues o
        else .resized b.initTime env.now).queue = none
    split
    · rename_i ho
      exact hq hdone o ho
    · rfl
  have hreleased : GetsNone (b.resize env.now n k) b₁ := by
    unfold releaseUnconnected at hrelease
    split at hrelease
    · exact .markDone hrelease
    · rw [Checked.pure_eq_ok] at hrelease
      exact hrelease ▸ .refl _
  have hins : GetsNone b₁ b₂ :=
    forRange_relates hin .refl .trans fun i _ s s' hf => .inputUpdate hf
  have houts : GetsNone b₂ b₃ :=
    forRange_relates hout .refl .trans fun o _ s s' hf => .outputUpdate hf
  exact (((hresize.trans hreleased).trans hins).trans houts).acknowledge sender

end GetsNone

end BlockActor

end Gras
