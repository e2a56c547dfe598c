import Gras.Actor.Additions
import Gras.Actor.BufferSizing

/-!
# Allocation hints

A block tells the upstream of each input how many bytes it reserves, and the
upstream keeps this for its output until the token of the hint expires.
`hintsAt` are the hints that an output has or will get from the mailbox of its
block.

* `topAlloc_heeds`: the buffers that `handle_top_alloc` asks for are as long as
  each hint says, up to the largest length that is allowed.
* `change_hints`: an event takes no hint away as long as its token has not
  expired.
-/

namespace Gras

/-! ## The length of the buffers -/

section Loop

variable {hints : List OutputHint}
  {hintBytes minBytes nminBytes atLeast atMost n x : Nat}

/-- The loop does not lower its bound. -/
theorem le_of_raiseTo (hfits : hintBytes ≤ 2 ^ 63) {rounds : Nat}
    (hle : minBytes ≤ nminBytes)
    (h : raiseTo hintBytes minBytes rounds nminBytes = some x) :
    nminBytes ≤ x := by
  induction rounds generalizing nminBytes with
  | zero => cases h
  | succ rounds ih =>
      rw [raiseTo] at h
      split at h
      · rename_i hless
        rw [Nat.mod_eq_of_lt (by omega)] at h
        have hmore := ih (by omega) h
        omega
      · exact (Option.some.inj h).le

/-- **The length is at least the super-reserve**, unless it is capped. -/
theorem superReserve_le_of_recommendLength (hfits : hintBytes ≤ 2 ^ 63)
    (h : recommendLength hints hintBytes atLeast atMost = some n) :
    min (lengthCap atMost) (superReserve hints atLeast) ≤ n := by
  obtain ⟨x, hx, rfl⟩ := Option.map_eq_some_iff.mp h
  have hle : superReserve hints atLeast ≤ x := le_of_raiseTo hfits le_rfl hx
  unfold lengthCap
  split <;> omega

end Loop

/-- The hint for an output that a message brings: the bytes and the token. -/
def Message.hintOn (o : Nat) : Message → Option (Nat × Token)
  | .output o' (.hint bytes token) =>
      if o' = o then some (bytes, token) else none
  | _ => none

/-- The hint for the upstream of an input. -/
def Outgoing.hintUp (p : Nat) : Outgoing → Option (Nat × Token)
  | .upstream p' (.hint bytes token) =>
      if p' = p then some (bytes, token) else none
  | _ => none

/-- The message is a hint. -/
def Outgoing.isHint : Outgoing → Bool
  | .upstream _ (.hint _ _) => true
  | _ => false

/-- The token is given to the block. -/
def Message.givesToken : Message → Bool
  | .top (.token _) _ _ => true
  | _ => false

namespace BlockActor

/-- The largest length for the buffers of an output. -/
def capOf (b : BlockActor) (o : Nat) : Nat :=
  lengthCap (b.maximumItems o * (b.outputConfigs o).itemSize % 2 ^ 64)

/-- The hints that an output has or will get. -/
def hintsAt (b : BlockActor) (o : Nat) : List (Nat × Token) :=
  (b.outputAllocationHints o).map
    (fun hint => (hint.reserveBytes, hint.token)) ++
    b.mailbox.filterMap (Message.hintOn o)

section Length

variable {b b' : BlockActor} {env : Env} {o : Nat} {sender : Option Address}

theorem hintBytes_fits (b : BlockActor) (o : Nat) : b.hintBytes o ≤ 2 ^ 63 := by
  have hsmall : atLeastBytes ≤ 2 ^ 63 := by decide
  by_cases hitem : 1 ≤ (b.outputConfigs o).itemSize
  · exact (hintBytes_le hitem).trans hsmall
  · have hzero : (b.outputConfigs o).itemSize = 0 := by omega
    simp [hintBytes, myRoundUpMult, hzero]

/-- **The buffers of an output** are as long as each of its hints says. -/
theorem allocateOutput_heeds (h : b.allocateOutput env o = .ok b') :
    ∃ config, b'.sent = b.sent ++ [Outgoing.downstream o (.alloc config)] ∧
      ∀ hint ∈ b.outputAllocationHints o,
      min (b.capOf o) hint.reserveBytes ≤ config.length := by
  obtain ⟨config, hsent, hlength⟩ := allocateOutput_length h
  refine ⟨config, hsent, fun hint hhint => ?_⟩
  have hsuper := superReserve_le_of_recommendLength (b.hintBytes_fits o) hlength
  have hle := (superReserve_le_iff.mp (le_refl (b.superReserve o))).2 hint hhint
  exact (min_le_min_left _ hle).trans hsuper

/-- What the first `n` outputs ask for, while the hints and the configurations
stay. -/
structure HeedsUpTo (b : BlockActor) (n : Nat) (s : BlockActor) : Prop where
  hints : s.outputAllocationHints = b.outputAllocationHints
  configs : s.outputConfigs = b.outputConfigs
  globalConfig : s.globalConfig = b.globalConfig
  asked : ∃ out, s.sent = b.sent ++ out ∧
    (∀ o < n, ∃ config, .downstream o (.alloc config) ∈ out) ∧
    ∀ o config, .downstream o (.alloc config) ∈ out →
      ∀ hint ∈ b.outputAllocationHints o,
      min (b.capOf o) hint.reserveBytes ≤ config.length

theorem HeedsUpTo.zero (b : BlockActor) : HeedsUpTo b 0 b :=
  ⟨rfl, rfl, rfl, [], (List.append_nil _).symm, by simp, by simp⟩

/-- One output more. -/
theorem HeedsUpTo.succ {s s' : BlockActor} (hs : HeedsUpTo b o s)
    (h : s.allocateOutput env o = .ok s') : HeedsUpTo b (o + 1) s' := by
  obtain ⟨config, hsent', hheeds'⟩ := allocateOutput_heeds h
  obtain ⟨_, p, -, hs'⟩ := allocateOutput_cases h
  obtain ⟨out, hsent, hasked, hheeds⟩ := hs.asked
  refine ⟨hs' ▸ hs.hints, hs' ▸ hs.configs, hs' ▸ hs.globalConfig,
    out ++ [Outgoing.downstream o (.alloc config)], ?_, fun o' ho' => ?_, ?_⟩
  · rw [hsent', hsent, List.append_assoc]
  · rcases Nat.lt_succ_iff_lt_or_eq.mp ho' with ho' | rfl
    · obtain ⟨config', hmem⟩ := hasked o' ho'
      exact ⟨config', List.mem_append_left _ hmem⟩
    · exact ⟨config, List.mem_append_right _ (List.mem_singleton_self _)⟩
  · intro o' config' hmem hint hhint
    rcases List.mem_append.mp hmem with hmem | hmem
    · exact hheeds o' config' hmem hint hhint
    · rw [List.mem_singleton] at hmem
      cases hmem
      have hcap : s.capOf o = b.capOf o := by
        rw [capOf, capOf, maximumItems, maximumItems, hs.configs,
          hs.globalConfig]
      exact hcap ▸ hheeds' hint (hs.hints ▸ hhint)

/-- **The allocations that a message of the top block asks for**: one for each
output, as long as each hint of the output says. -/
theorem topAlloc_heeds (h : b.handleTopAlloc env sender = .ok b') :
    ∃ out, b'.sent = b.sent ++ out ∧
      (∀ o < b.numOutputs, ∃ config, .downstream o (.alloc config) ∈ out) ∧
      ∀ o config, .downstream o (.alloc config) ∈ out →
        ∀ hint ∈ b.outputAllocationHints o,
        min (b.capOf o) hint.reserveBytes ≤ config.length := by
  simp only [handleTopAlloc, Checked.bind_eq_ok, Checked.pure_eq_ok] at h
  obtain ⟨b₁, hloop, rfl⟩ := h
  have hall : HeedsUpTo b b.numOutputs b₁ :=
    forRange_rule hloop (.zero b) fun _ _ _ _ hs hf => hs.succ hf
  obtain ⟨out, hsent, hasked, hheeds⟩ := hall.asked
  cases sender with
  | none => exact ⟨out, hsent, hasked, hheeds⟩
  | some a =>
      refine ⟨out ++ [Outgoing.acknowledge a], ?_, fun o ho => ?_,
        fun o config hmem => hheeds o config ?_⟩
      · show b₁.sent ++ _ = _
        rw [hsent, List.append_assoc]
      · obtain ⟨config, hmem⟩ := hasked o ho
        exact ⟨config, List.mem_append_left _ hmem⟩
      · rcases List.mem_append.mp hmem with hmem | hmem
        · exact hmem
        · rw [List.mem_singleton] at hmem
          cases hmem

end Length

/-! ## Who changes hints and tokens -/

section Frame

variable {b b' : BlockActor} {env : Env} {now : Int} {m : Message} {i o : Nat}

/-- The hints that were stored, and the tokens of the inputs. -/
def hinting (b : BlockActor) : (Nat → List OutputHint) × (Nat → Token) :=
  (b.outputAllocationHints, b.inputTokens)

theorem hinting_of_control (h : b'.control = b.control) :
    b'.hinting = b.hinting :=
  Prod.ext (congrArg Control.outputAllocationHints h)
    (congrArg Control.inputTokens h)

theorem markDone_hinting (h : b.markDone now = .ok b') :
    b'.hinting = b.hinting := by
  rcases markDone_control h with ⟨-, rfl⟩ | ⟨-, hcontrol⟩
  · rfl
  · exact Prod.ext (congrArg Control.outputAllocationHints hcontrol)
      (congrArg Control.inputTokens hcontrol)

theorem acknowledge_hinting (sender : Option Address) (b : BlockActor) :
    (b.acknowledge sender).hinting = b.hinting := by
  cases sender <;> rfl

theorem threadStep_hinting (event : ThreadEvent) (b : BlockActor) :
    (b.threadStep event).hinting = b.hinting := by
  cases event with
  | post m => rw [threadStep]; split <;> rfl
  | prepare m => rw [threadStep]; split <;> rfl
  | send k => rw [threadStep]; split <;> rfl
  | _ => rfl

theorem moves_hinting {ok : ThreadEvent → Prop} (h : Moves ok b b') :
    b'.hinting = b.hinting := by
  refine h.rule (P := fun s t => t.hinting = s.hinting) (fun _ => rfl)
    (fun h h' => h'.trans h) fun s t hmove => ?_
  cases hmove with
  | quiet h => exact hinting_of_control h
  | own h => rfl
  | @thread event h => exact threadStep_hinting event s
  | done h => exact markDone_hinting h

/-- A new token for an input. -/
theorem renewInputs_hinting (env : Env) (l : List Nat) (b : BlockActor) :
    (l.foldl (fun b i => b.renewInput env i) b).outputAllocationHints =
        b.outputAllocationHints ∧
      ∀ i, (l.foldl (fun b i => b.renewInput env i) b).inputTokens i =
        if i ∈ l then env.inputToken i else b.inputTokens i := by
  induction l generalizing b with
  | nil => simp
  | cons j l ih =>
      obtain ⟨hhints, htokens⟩ := ih (b.renewInput env j)
      refine ⟨hhints, fun i => ?_⟩
      rw [List.foldl_cons, htokens i]
      by_cases hi : i ∈ l
      · simp [hi]
      · by_cases hij : i = j
        · subst hij
          simp [hi, renewInput, postUpstream]
        · simp [hi, hij, renewInput, postUpstream]

theorem renewOutputs_hinting (env : Env) (l : List Nat) (b : BlockActor) :
    (l.foldl (fun b i => b.renewOutput env i) b).hinting = b.hinting :=
  List.foldlRecOn
    (motive := fun s : BlockActor => s.hinting = b.hinting) l _ rfl
    fun _ hs _ _ => hs

/-- **Every other handler** leaves them alone. -/
theorem handler_hinting (htoken : m.givesToken = false)
    (hhint : ∀ o, m.hintOn o = none) (h : b.handler env m = .ok b') :
    b'.hinting = b.hinting := by
  cases htask : b.enter env m with
  | some store =>
      obtain ⟨b₀, b₁, rfl, hmain, hleave⟩ := handler_of_enter htask h
      have hentered : b₀.hinting = b.hinting :=
        Prod.ext (congrArg Control.outputAllocationHints
          (enter_control htask).1)
          (congrArg Control.inputTokens (enter_control htask).1)
      have hlast : b'.hinting = b₁.hinting := by
        unfold leave at hleave
        split at hleave
        · split at hleave
          · exact markDone_hinting hleave
          · rw [Checked.pure_eq_ok] at hleave
            rw [hleave]
        · rw [Checked.pure_eq_ok] at hleave
          rw [hleave]
      exact (hlast.trans
        (moves_hinting (taskMain_moves (workWithin_true env) hmain))).trans
        hentered
  | none =>
      cases reaction htask h with
      | droppedInput | droppedBuffer | tag | inputToken | outputToken | noInputAlloc | inputAlloc
      | outputCheck | outputAlloc | getStats => rfl
      | inputUpdate hupdate =>
          exact hinting_of_control (handleInputUpdate_control hupdate)
      | outputUpdate hupdate =>
          exact hinting_of_control (handleOutputUpdate_control hupdate)
      | outputsDone _ hdone => exact (markDone_hinting hdone).trans rfl
      | outputHint i =>
          have hcase := hhint i
          rw [Message.hintOn, if_pos rfl] at hcase
          cases hcase
      | topAlloc hloop =>
          rw [acknowledge_hinting]
          refine forRange_rule hloop (P := fun _ s => s.hinting = b.hinting) rfl
            fun o _ s s' hs hf => ?_
          obtain ⟨config, p, -, rfl⟩ := allocateOutput_cases hf
          exact hs
      | topActive =>
          obtain ⟨t, hactive⟩ := handleTopActive_eq env _ b
          rw [hactive]
          rfl
      | topInert hdone =>
          exact (acknowledge_hinting _ _).trans (markDone_hinting hdone)
      | topToken => cases htoken
      | topConfig | topThreadGroup => exact acknowledge_hinting _ _
      | callable =>
          have hcalls :
              Moves (fun _ => True) b (b.attempt env.now env.called) :=
            attempt_moves fun _ _ => trivial
          show (b.attempt env.now env.called).hinting = b.hinting
          exact moves_hinting hcalls

/-- A change of the topology drops the hints of the outputs that are gone. -/
theorem topology_hinting {n k : Nat} {sender : Option Address}
    (h : b.handleTopology env n k sender = .ok b') :
    b'.hinting = (b.resize env.now n k).hinting := by
  simp only [handleTopology, Checked.bind_eq_ok, Checked.pure_eq_ok] at h
  obtain ⟨b₁, hrelease, b₂, hin, b₃, hout, rfl⟩ := h
  have h₁ : b₁.hinting = (b.resize env.now n k).hinting := by
    unfold releaseUnconnected at hrelease
    split at hrelease
    · exact markDone_hinting hrelease
    · rw [Checked.pure_eq_ok] at hrelease
      rw [hrelease]
  have h₂ : b₂.control = b₁.control :=
    forRange_control hin fun i s s' hf => handleInputUpdate_control hf
  have h₃ : b₃.control = b₂.control :=
    forRange_control hout fun o s s' hf => handleOutputUpdate_control hf
  rw [acknowledge_hinting, hinting_of_control (h₃.trans h₂), h₁]

/-- A block that has just been started has no hints. -/
theorem Started.hints (h : b.Started) : b.outputAllocationHints o = [] := by
  obtain ⟨initTime, memory, inputConfigs, outputConfigs, env, n, k, h⟩ := h
  refine (congrFun (congrArg Prod.fst (topology_hinting h)) o).trans ?_
  show (if o < 0 then [] else []) = []
  exact ite_self []

/-- The tokens that the block gives to its upstreams. -/
theorem handleTopToken_hinting (env : Env) (token : Token)
    (sender : Option Address) (b : BlockActor) :
    (b.handleTopToken env token sender).outputAllocationHints =
        b.outputAllocationHints ∧
      ∀ i, (b.handleTopToken env token sender).inputTokens i =
        if i < b.numInputs then env.inputToken i else b.inputTokens i := by
  obtain ⟨hhints, htokens⟩ := renewInputs_hinting env (List.range b.numInputs) b
  have hlast : (b.handleTopToken env token sender).hinting =
      ((List.range b.numInputs).foldl
        (fun b i => b.renewInput env i) b).hinting := by
    unfold handleTopToken
    dsimp only
    rw [acknowledge_hinting]
    exact renewOutputs_hinting env _ _
  refine ⟨(congrArg Prod.fst hlast).trans hhints, fun i => ?_⟩
  refine ((congrFun (congrArg Prod.snd hlast) i).trans (htokens i)).trans ?_
  simp only [List.mem_range]

end Frame

/-! ## One event -/

section Event

variable {b b' : BlockActor} {e : BlockEvent} {o p : Nat} {token : Token}

/-- What the block tells its upstreams in an event. -/
def hintsSent (b : BlockActor) : BlockEvent → List Outgoing
  | .actor (.handle env) =>
      if b.mailbox.head?.any Message.givesToken then
        (List.range b.numInputs).map (b.hintOf env)
      else []
  | _ => []

/-- Hints are sent with the answers. -/
theorem hints_answersIn (b : BlockActor) (e : BlockEvent) :
    (b.answersIn e).filter Outgoing.isHint = b.hintsSent e := by
  have hack (sender : Option Address) :
      (acknowledgement sender).filter Outgoing.isHint = [] := by
    cases sender <;> rfl
  cases e with
  | topology env n k sender => exact hack sender
  | actor event =>
      cases event with
      | thread event => rfl
      | handle env =>
          cases hmail : b.mailbox with
          | nil => simp [answersIn, hintsSent, hmail]
          | cons m rest =>
              have hanswers : b.answersIn (.actor (.handle env)) =
                  b.answers env m := by
                simp [answersIn, hmail]
              rw [hanswers, hintsSent, hmail]
              cases m with
              | top message prio sender =>
                  cases message with
                  | token t =>
                      show (_ ++ acknowledgement sender).filter
                          Outgoing.isHint = _
                      rw [List.filter_append, hack, List.append_nil]
                      exact List.filter_eq_self.mpr fun x hx => by
                        obtain ⟨i, -, rfl⟩ := List.mem_map.mp hx
                        rfl
                  | _ => exact hack sender
              | _ => rfl

theorem eq_of_givesToken {m : Message} (h : m.givesToken = true) :
    ∃ t prio sender, m = .top (.token t) prio sender := by
  cases m with
  | top message prio sender =>
      cases message with
      | token t => exact ⟨t, prio, sender, rfl⟩
      | _ => cases h
  | _ => cases h

/-- A handler that gets no hint for an output stores none. -/
theorem handler_stored {env : Env} {m : Message} (hm : m.hintOn o = none)
    (h : b.handler env m = .ok b') :
    b'.outputAllocationHints o = b.outputAllocationHints o := by
  by_cases htoken : m.givesToken = true
  · obtain ⟨t, prio, sender, rfl⟩ := eq_of_givesToken htoken
    rw [handler, Checked.pure_eq_ok] at h
    exact h ▸ congrFun (handleTopToken_hinting env t sender b).1 o
  · by_cases hhint : ∃ o' bytes t, m = .output o' (.hint bytes t)
    · obtain ⟨o', bytes, t, rfl⟩ := hhint
      have hne : o ≠ o' := by
        rintro rfl
        simp [Message.hintOn] at hm
      rw [handler, Checked.pure_eq_ok] at h
      subst h
      exact Function.update_of_ne hne _ _
    · have hnone : ∀ o, m.hintOn o = none := by
        intro o
        cases m with
        | output o' message =>
            cases message with
            | hint bytes t => exact absurd ⟨o', bytes, t, rfl⟩ hhint
            | _ => rfl
        | _ => rfl
      have hsame := handler_hinting (Bool.not_eq_true _ ▸ htoken) hnone h
      exact congrFun (congrArg Prod.fst hsame) o

theorem eq_of_hintOn {m : Message} {hint : Nat × Token}
    (h : m.hintOn o = some hint) : m = .output o (.hint hint.1 hint.2) := by
  cases m with
  | output o' message =>
      cases message with
      | hint bytes t =>
          simp only [Message.hintOn] at h
          split at h
          · rename_i heq
            cases h
            rw [heq]
          · cases h
      | _ => cases h
  | _ => cases h

/-- What is stored of a token when a hint arrives: the hint is its only one, or
it is one of another token. -/
theorem filter_replaced {env : Env} {l : List OutputHint} {hint : Nat × Token}
    {rest : List (Nat × Token)} (hheld : env.tokenExpired token = false)
    (hone : ((l.map (fun x => (x.reserveBytes, x.token)) ++ hint :: rest).filter
      (·.2 = token)).length ≤ 1) :
    ((l.filter fun x => !env.tokenExpired x.token && x.token != hint.2).map
      fun x => (x.reserveBytes, x.token)).filter (·.2 = token) =
      (l.map fun x => (x.reserveBytes, x.token)).filter (·.2 = token) := by
  rw [List.filter_map, List.filter_map, List.filter_filter]
  congr 1
  by_cases htoken : hint.2 = token
  · -- No other hint of the token is stored.
    rw [List.filter_append,
      List.filter_cons_of_pos (by simpa using htoken)] at hone
    simp only [List.length_append, List.length_cons] at hone
    have hempty :
        (l.map fun x => (x.reserveBytes, x.token)).filter (·.2 = token) = [] :=
      List.eq_nil_of_length_eq_zero (by omega)
    rw [List.filter_map, List.map_eq_nil_iff] at hempty
    rw [hempty, List.filter_eq_nil_iff]
    intro x _
    simp only [Function.comp, htoken, Bool.and_eq_true, bne_iff_ne,
      decide_eq_true_eq]
    exact fun hx => hx.2.2 hx.1
  · refine List.filter_congr fun x _ => ?_
    by_cases hx : x.token = token
    · simp [Function.comp, hx, hheld, Ne.symm htoken]
    · simp [Function.comp, hx]

/-- **An event takes no hint away** as long as its token has not expired, and
nobody else sends hints for the output: what is handled is stored. -/
theorem change_hints {P : Message → Prop} (hown : OwnIn P)
    (hP : ∀ m, P m → m.hintOn o = none) (hbrings : BringsOnly P e)
    (hb : b.Prepares P) (ho : o < b.numOutputs) (h : b.change e = .ok b') :
    (∀ x ∈ b'.hintsAt o, x ∈ b.hintsAt o) ∧
      ∀ token, (∀ env, e = .actor (.handle env) →
        env.tokenExpired token = false) →
        ((b.hintsAt o).filter (·.2 = token)).length ≤ 1 →
        (b'.hintsAt o).filter (·.2 = token) =
          (b.hintsAt o).filter (·.2 = token) := by
  obtain ⟨-, ⟨rest, new, hmail, hmail', hnew⟩, -⟩ :=
    change_adds hown hbrings hb h
  have hnone : new.filterMap (Message.hintOn o) = [] :=
    List.filterMap_eq_nil_iff.mpr fun m hm => hP m (hnew m hm)
  -- The hints were stored before, and the message is none.
  have hsame (hstored : b'.outputAllocationHints o = b.outputAllocationHints o)
      (hhandled : (b.handles e).filterMap (Message.hintOn o) = []) :
      b'.hintsAt o = b.hintsAt o := by
    rw [hintsAt, hintsAt, hstored, hmail', hmail, List.filterMap_append,
      List.filterMap_append, hnone, hhandled, List.append_nil, List.nil_append]
  cases e with
  | topology env n k sender =>
      have hstored := congrFun (congrArg Prod.fst (topology_hinting h)) o
      have hkept : b'.outputAllocationHints o = b.outputAllocationHints o :=
        hstored.trans (if_pos ho)
      rw [hsame hkept rfl]
      exact ⟨fun _ hx => hx, fun _ _ _ => rfl⟩
  | actor event =>
      rcases next_cases h with ⟨thread, rfl, rfl⟩ | ⟨env, rfl, hempty, rfl⟩ |
        ⟨env, m, rest', b₁, rfl, hcons, hhandler, rfl⟩
      · rw [hsame (congrFun
          (congrArg Prod.fst (threadStep_hinting thread b)) o) rfl]
        exact ⟨fun _ hx => hx, fun _ _ _ => rfl⟩
      · exact ⟨fun _ hx => hx, fun _ _ _ => rfl⟩
      · have hhandles : b.handles (.actor (.handle env)) = [m] := by
          simp [handles, hcons]
        cases hm : m.hintOn o with
        | none =>
            have hstored : b₁.outputAllocationHints o =
                b.outputAllocationHints o :=
              handler_stored (b := b.receive m rest') hm hhandler
            rw [hsame hstored (by simp [hhandles, hm])]
            exact ⟨fun _ hx => hx, fun _ _ _ => rfl⟩
        | some hint =>
            -- It replaces the hints of its token.
            obtain rfl := eq_of_hintOn hm
            rw [handler, Checked.pure_eq_ok] at hhandler
            have hstored : b₁.outputAllocationHints o =
                (b.outputAllocationHints o).filter
                (fun x => !env.tokenExpired x.token && x.token != hint.2) ++
                  [⟨hint.1, hint.2⟩] := by
              rw [← hhandler]
              exact Function.update_self ..
            have hafter :
                BlockActor.hintsAt { b₁ with handlesPrio := false } o =
                ((b.outputAllocationHints o).filter
                  fun x => !env.tokenExpired x.token && x.token != hint.2).map
                    (fun x => (x.reserveBytes, x.token)) ++
                  hint :: rest.filterMap (Message.hintOn o) := by
              rw [hintsAt, hmail', List.filterMap_append, hnone,
                List.append_nil]
              show List.map _ (b₁.outputAllocationHints o) ++ _ = _
              rw [hstored, List.map_append, List.append_assoc]
              rfl
            have hbefore : b.hintsAt o = (b.outputAllocationHints o).map
                (fun x => (x.reserveBytes, x.token)) ++
                  hint :: rest.filterMap (Message.hintOn o) := by
              rw [hintsAt, hmail, hhandles, List.singleton_append,
                List.filterMap_cons_some hm]
            rw [hafter, hbefore]
            refine ⟨fun x hx => ?_, fun token hheld hone => ?_⟩
            · rcases List.mem_append.mp hx with hx | hx
              · obtain ⟨y, hy, rfl⟩ := List.mem_map.mp hx
                exact List.mem_append_left _
                  (List.mem_map_of_mem (List.mem_of_mem_filter hy))
              · exact List.mem_append_right _ hx
            · rw [List.filter_append, List.filter_append,
                filter_replaced (hheld env rfl) hone]

/-- One port of all. -/
theorem filterMap_range_of_one {α : Type} {f : Nat → Option α}
    (hf : ∀ i, i ≠ p → f i = none) (n : Nat) :
    (List.range n).filterMap f = if p < n then (f p).toList else [] := by
  induction n with
  | zero => rfl
  | succ n ih =>
      rw [List.range_succ, List.filterMap_append, ih]
      by_cases hn : p = n
      · subst hn
        cases hp : f p <;> simp [hp]
      · have hlt : p < n + 1 ↔ p < n := by omega
        simp [hf n (Ne.symm hn), hlt]

/-- The bytes that an input reserves. -/
def reserveBytes (b : BlockActor) (p : Nat) : Nat :=
  sizeMul (b.inputConfigs p).reserveItems (b.inputConfigs p).itemSize

/-- **What the upstream of an input is told**: the bytes that the input
reserves, and the token that it gets; or it keeps its token. -/
theorem change_hintUp (h : b.change e = .ok b') (p : Nat) :
    ((b.hintsSent e).filterMap (Outgoing.hintUp p) = [] ∧
      b'.inputTokens p = b.inputTokens p) ∨
      (b.hintsSent e).filterMap (Outgoing.hintUp p) =
        [(b.reserveBytes p, b'.inputTokens p)] := by
  cases e with
  | topology env n k sender =>
      exact .inl ⟨rfl, congrFun (congrArg Prod.snd (topology_hinting h)) p⟩
  | actor event =>
      rcases next_cases h with ⟨thread, rfl, rfl⟩ | ⟨env, rfl, hempty, rfl⟩ |
        ⟨env, m, rest, b₁, rfl, hcons, hhandler, rfl⟩
      · exact .inl
          ⟨rfl, congrFun (congrArg Prod.snd (threadStep_hinting thread b)) p⟩
      · exact .inl ⟨by simp [hintsSent, hempty], rfl⟩
      · by_cases htoken : m.givesToken = true
        · have hsent : b.hintsSent (.actor (.handle env)) =
              (List.range b.numInputs).map (b.hintOf env) := by
              simp [hintsSent, hcons, htoken]
          have htokens : b₁.inputTokens p =
              if p < b.numInputs then env.inputToken p
              else b.inputTokens p := by
            obtain ⟨t, prio, sender, rfl⟩ := eq_of_givesToken htoken
            rw [handler, Checked.pure_eq_ok] at hhandler
            exact hhandler ▸ (handleTopToken_hinting env t sender _).2 p
          have hup (i : Nat) : Outgoing.hintUp p (b.hintOf env i) =
              if i = p then some (b.reserveBytes i, env.inputToken i)
              else none := rfl
          have hone := filterMap_range_of_one
            (f := Outgoing.hintUp p ∘ b.hintOf env) (p := p)
            (fun i hi => (hup i).trans (if_neg hi)) b.numInputs
          show _ ∧ b₁.inputTokens p = _ ∨ _ = [(_, b₁.inputTokens p)]
          rw [hsent, List.filterMap_map, hone, htokens]
          by_cases hp : p < b.numInputs
          · refine .inr ?_
            rw [if_pos hp, if_pos hp, Function.comp_apply, hup, if_pos rfl]
            rfl
          · exact .inl ⟨if_neg hp, if_neg hp⟩
        · have hsent : b.hintsSent (.actor (.handle env)) = [] := by
            simp [hintsSent, hcons, htoken]
          refine .inl ⟨by rw [hsent]; rfl, ?_⟩
          show b₁.inputTokens p = b.inputTokens p
          by_cases hhint : ∀ o, m.hintOn o = none
          · exact congrFun (congrArg Prod.snd
              (handler_hinting (Bool.not_eq_true _ ▸ htoken) hhint hhandler)) p
          · push Not at hhint
            obtain ⟨o, hhint⟩ := hhint
            obtain ⟨hint, hm⟩ := Option.ne_none_iff_exists'.mp hhint
            obtain rfl := eq_of_hintOn hm
            rw [handler, Checked.pure_eq_ok] at hhandler
            rw [← hhandler]
            rfl

end Event

end BlockActor

end Gras
