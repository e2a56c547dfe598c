import Gras.Actor.OutputReserveRuns
import Gras.Actor.UserCalls
import Gras.Buffers.UnusedBuffers

/-!
# Buffers that work posts

`post_output_buffer` puts a buffer of the user into the one inline slot of an
output, where the post-work tasks pick it up.  The slot may hold an input buffer
that `task_main` inlined.

* `Stays`: what a work that posts leaves alone on its output; `Kept`: what every
  other call leaves alone besides.
* `Posts`: what one post does.
* A task that uses an output for posting alone delivers what it posts if and
  only if it posts nothing, or one buffer with items in it into an empty slot.
-/

namespace Gras

/-- The buffer that a message carries downstream on that output. -/
def Outgoing.bufferOn (o : Nat) : Outgoing → Option SBuffer
  | downstream i (.buffer buff) => if i = o then some buff else none
  | _ => none

/-- The buffer that a call posts on that output. -/
def Call.postedOn (o : Nat) : Call → Option SBuffer
  | postOutputBuffer i buff => if i = o then some buff else none
  | _ => none

/-- The call uses that output, or changes its item size. -/
def Call.usesOutput (o : Nat) : Call → Bool
  | produce i _ => i == o
  | markOutputFail i => i == o
  | getOutputBuffer i => i == o
  | popOutputBuffer i _ => i == o
  | postOutputBuffer i _ => i == o
  | thread (.configureOutput i _) => i == o
  | _ => false

/-- The buffers that calls post on that output, in order. -/
def postedOn (o : Nat) (cs : List Call) : List SBuffer :=
  cs.filterMap (Call.postedOn o)

theorem Call.postedOn_of_not_uses {o : Nat} {c : Call}
    (h : c.usesOutput o = false) : c.postedOn o = none := by
  cases c with
  | postOutputBuffer i buff =>
      have hne : i ≠ o := by simpa [usesOutput] using h
      exact if_neg hne
  | _ => rfl

namespace BlockActor

/-- The buffers sent downstream on that output. -/
def buffersOn (o : Nat) (b : BlockActor) : List SBuffer :=
  b.sent.filterMap (Outgoing.bufferOn o)

variable {b b' b'' : BlockActor} {env : Env} {now : Int} {o j : Nat}

/-! ## What stays on an output -/

/-- The queue of the output, its configuration and what was delivered. -/
structure Stays (o : Nat) (b b' : BlockActor) : Prop where
  front : ∀ f, (b'.outputQueues o).QueueFront f →
    (b.outputQueues o).QueueFront f
  unused : (∀ q, (b.outputQueues o).queue = some q → q.Unused) →
    ∀ q, (b'.outputQueues o).queue = some q → q.Unused
  itemSize : (b'.outputConfigs o).itemSize = (b.outputConfigs o).itemSize
  produced : b'.totalItemsProduced o = b.totalItemsProduced o
  posted : b'.buffersOn o = b.buffersOn o
  numOutputs : b'.numOutputs = b.numOutputs

/-- The slot and the items of the work besides. -/
structure Kept (o : Nat) (b b' : BlockActor) : Prop extends Stays o b b' where
  inline : (b'.outputQueues o).inlineBuffer = (b.outputQueues o).inlineBuffer
  read : b'.numOutputItemsRead o = b.numOutputItemsRead o

/-- Nothing that belongs to the output changes, and neither does the state of
the block. -/
structure Bypasses (o : Nat) (b b' : BlockActor) : Prop where
  port : b'.outputQueues o = b.outputQueues o
  config : b'.outputConfigs o = b.outputConfigs o
  read : b'.numOutputItemsRead o = b.numOutputItemsRead o
  produced : b'.totalItemsProduced o = b.totalItemsProduced o
  posted : b'.buffersOn o = b.buffersOn o
  numOutputs : b'.numOutputs = b.numOutputs
  state : b'.blockState = b.blockState

theorem Bypasses.refl (b : BlockActor) : Bypasses o b b :=
  ⟨rfl, rfl, rfl, rfl, rfl, rfl, rfl⟩

theorem Bypasses.trans (h : Bypasses o b b') (h' : Bypasses o b' b'') :
    Bypasses o b b'' :=
  ⟨h'.port.trans h.port, h'.config.trans h.config, h'.read.trans h.read,
    h'.produced.trans h.produced, h'.posted.trans h.posted,
    h'.numOutputs.trans h.numOutputs, h'.state.trans h.state⟩

theorem Stays.refl (b : BlockActor) : Stays o b b :=
  ⟨fun _ h => h, fun h => h, rfl, rfl, rfl, rfl⟩

theorem Stays.trans (h : Stays o b b') (h' : Stays o b' b'') : Stays o b b'' :=
  ⟨fun f hf => h.front f (h'.front f hf), fun hb => h'.unused (h.unused hb),
    h'.itemSize.trans h.itemSize, h'.produced.trans h.produced,
    h'.posted.trans h.posted, h'.numOutputs.trans h.numOutputs⟩

theorem Kept.refl (b : BlockActor) : Kept o b b := ⟨.refl b, rfl, rfl⟩

theorem Kept.trans (h : Kept o b b') (h' : Kept o b' b'') : Kept o b b'' :=
  ⟨h.toStays.trans h'.toStays, h'.inline.trans h.inline, h'.read.trans h.read⟩

theorem Stays.of_eq (hport : b'.outputQueues o = b.outputQueues o)
    (hconfig : b'.outputConfigs o = b.outputConfigs o)
    (hproduced : b'.totalItemsProduced o = b.totalItemsProduced o)
    (hsent : b'.buffersOn o = b.buffersOn o)
    (hnum : b'.numOutputs = b.numOutputs) : Stays o b b' := by
  refine ⟨fun f hf => ?_, fun hb q hq => ?_, congrArg _ hconfig, hproduced,
    hsent, hnum⟩
  · rwa [hport] at hf
  · rw [hport] at hq
    exact hb q hq

/-- Nothing that belongs to the output changes. -/
theorem Kept.of_eq (hport : b'.outputQueues o = b.outputQueues o)
    (hconfig : b'.outputConfigs o = b.outputConfigs o)
    (hread : b'.numOutputItemsRead o = b.numOutputItemsRead o)
    (hproduced : b'.totalItemsProduced o = b.totalItemsProduced o)
    (hsent : b'.buffersOn o = b.buffersOn o)
    (hnum : b'.numOutputs = b.numOutputs) : Kept o b b' :=
  ⟨.of_eq hport hconfig hproduced hsent hnum, congrArg _ hport, hread⟩

theorem Bypasses.kept (h : Bypasses o b b') : Kept o b b' :=
  .of_eq h.port h.config h.read h.produced h.posted h.numOutputs

/-- A message without a buffer for the output is sent. -/
theorem buffersOn_append {m : Outgoing} (hm : m.bufferOn o = none)
    (hsent : b'.sent = b.sent ++ [m]) :
    b'.buffersOn o = b.buffersOn o := by
  rw [buffersOn, hsent, List.filterMap_append, List.filterMap_cons_none hm,
    List.filterMap_nil, List.append_nil]
  rfl

/-- An output that is looked at shows the front it had. -/
theorem Stays.of_front {p : OutputPort} {buff : SBuffer}
    (hfront : (b.outputQueues o).front = .ok (buff, p))
    (hport : b'.outputQueues o = p)
    (hconfig : b'.outputConfigs o = b.outputConfigs o)
    (hproduced : b'.totalItemsProduced o = b.totalItemsProduced o)
    (hsent : b'.buffersOn o = b.buffersOn o)
    (hnum : b'.numOutputs = b.numOutputs) : Stays o b b' := by
  obtain ⟨-, -, -, -, hqueue⟩ := OutputPort.front_keeps_queue hfront
  refine ⟨fun f hf => ?_, fun hb q hq => ?_, congrArg _ hconfig, hproduced,
    hsent, hnum⟩
  · rw [hport] at hf
    rcases OutputPort.front_cases hfront with ⟨-, rfl⟩ | ⟨-, hbuff, hbuff', -⟩
    · exact hf
    · exact hbuff'.eq hf ▸ hbuff
  · rw [hport] at hq
    obtain ⟨q₀, hq₀, rfl | ⟨f, hlook⟩⟩ := hqueue q hq
    · exact hb q hq₀
    · exact (hb q₀ hq₀).front hlook

/-! ## Calls that do not use the output -/

/-- Another output is stored. -/
theorem setOutput_bypasses (hj : j ≠ o) (p : OutputPort) (b : BlockActor) :
    Bypasses o b (b.setOutput j p) :=
  ⟨Function.update_of_ne hj.symm _ _, rfl, rfl, rfl, rfl, rfl, rfl⟩

theorem produce_bypasses {items : Nat} (hj : j ≠ o)
    (h : b.produce j items = .ok b') : Bypasses o b b' := by
  simp only [produce, Checked.bind_eq_ok, Checked.pure_eq_ok] at h
  obtain ⟨p, -, rfl⟩ := h
  exact ⟨Function.update_of_ne hj.symm _ _, rfl,
    Function.update_of_ne hj.symm _ _, rfl, rfl, rfl, rfl⟩

theorem storeLength_bypasses (length : SBuffer → Nat) (hj : j ≠ o)
    (h : b.storeLength j length = .ok b') : Bypasses o b b' := by
  simp only [storeLength, Checked.bind_eq_ok, Checked.pure_eq_ok,
    Prod.exists] at h
  obtain ⟨buff, p, -, rfl⟩ := h
  exact setOutput_bypasses hj _ b

theorem threadStep_bypasses {event : ThreadEvent}
    (h : (Call.thread event).usesOutput o = false) :
    Bypasses o b (b.threadStep event) := by
  cases event with
  | configureOutput j config =>
      have hj : j ≠ o := by simpa [Call.usesOutput] using h
      exact ⟨rfl, Function.update_of_ne hj.symm _ _, rfl, rfl, rfl, rfl, rfl⟩
  | post m =>
      rw [threadStep]
      split <;> exact ⟨rfl, rfl, rfl, rfl, rfl, rfl, rfl⟩
  | prepare m =>
      rw [threadStep]
      split <;> exact ⟨rfl, rfl, rfl, rfl, rfl, rfl, rfl⟩
  | send k =>
      rw [threadStep]
      split <;> exact ⟨rfl, rfl, rfl, rfl, rfl, rfl, rfl⟩
  | _ => exact ⟨rfl, rfl, rfl, rfl, rfl, rfl, rfl⟩

theorem taskKicker_bypasses (b : BlockActor) : Bypasses o b b.taskKicker := by
  unfold taskKicker
  split <;> exact ⟨rfl, rfl, rfl, rfl, rfl, rfl, rfl⟩

/-- **A call that does not use the output** and does not mark the block done
leaves everything about the output alone. -/
theorem call_bypasses {c : Call} (hdone : b.marksDone c = false)
    (hc : c.usesOutput o = false) (h : b.call now c = .ok b') :
    Bypasses o b b' := by
  cases c with
  | consume i items =>
      simp only [call, Checked.bind_eq_ok, Checked.pure_eq_ok] at h
      obtain ⟨-, -, rfl⟩ := h
      exact ⟨rfl, rfl, rfl, rfl, rfl, rfl, rfl⟩
  | produce j items =>
      have hj : j ≠ o := by simpa [Call.usesOutput] using hc
      simp only [call, Checked.bind_eq_ok] at h
      obtain ⟨-, -, h⟩ := h
      exact produce_bypasses hj h
  | popInputMsg i =>
      rw [call, Checked.pure_eq_ok] at h
      subst h
      unfold popInputMsg
      split <;> exact ⟨rfl, rfl, rfl, rfl, rfl, rfl, rfl⟩
  | postOutputTag j tag =>
      rw [call, Checked.pure_eq_ok] at h
      subst h
      exact ⟨rfl, rfl, rfl, rfl,
        buffersOn_append (m := .downstream j (.tag tag)) rfl rfl, rfl, rfl⟩
  | postOutputMsg j msg =>
      rw [call, Checked.pure_eq_ok] at h
      subst h
      exact ⟨rfl, rfl, rfl, rfl,
        buffersOn_append (m := .downstream j (.msg msg)) rfl rfl, rfl, rfl⟩
  | markInputFail i fresh =>
      rw [call, inputFail] at h
      split at h
      · simp only [Checked.bind_eq_ok, Checked.pure_eq_ok, Prod.exists] at h
        obtain ⟨p, memory, -, rfl⟩ := h
        refine Bypasses.trans ?_ (taskKicker_bypasses _)
        exact ⟨rfl, rfl, rfl, rfl, rfl, rfl, rfl⟩
      · rename_i haccum
        split at h
        · rename_i hbit
          have hstate : b.blockState = .done := by
            simpa [marksDone, not_not.mp haccum, hbit] using hdone
          rw [markDone, if_pos hstate, Checked.pure_eq_ok] at h
          exact h ▸ .refl b
        · split at h
          · simp at h
          · rw [Checked.pure_eq_ok] at h
            subst h
            exact ⟨rfl, rfl, rfl, rfl, rfl, rfl, rfl⟩
  | markOutputFail j =>
      have hj : j ≠ o := by simpa [Call.usesOutput] using hc
      simp only [call, outputFail, Checked.bind_eq_ok, Prod.exists] at h
      obtain ⟨buff, p, -, h⟩ := h
      split at h
      · simp at h
      · rw [Checked.pure_eq_ok] at h
        exact h ▸ setOutput_bypasses hj _ b
  | markDone =>
      have hstate : b.blockState = .done := by simpa [marksDone] using hdone
      rw [call, markDone, if_pos hstate, Checked.pure_eq_ok] at h
      exact h ▸ .refl b
  | getInputBuffer i fresh =>
      simp only [call, getInputBuffer, Checked.bind_eq_ok, Checked.pure_eq_ok,
        Prod.exists] at h
      obtain ⟨buff, p, memory, -, rfl⟩ := h
      exact ⟨rfl, rfl, rfl, rfl, rfl, rfl, rfl⟩
  | getOutputBuffer j =>
      have hj : j ≠ o := by simpa [Call.usesOutput] using hc
      exact storeLength_bypasses _ hj h
  | popOutputBuffer j numBytes =>
      have hj : j ≠ o := by simpa [Call.usesOutput] using hc
      exact storeLength_bypasses (fun _ => numBytes) hj h
  | postOutputBuffer j buff =>
      have hj : j ≠ o := by simpa [Call.usesOutput] using hc
      simp only [call, postOutputBuffer, Checked.bind_eq_ok] at h
      obtain ⟨p, -, -, -, -, -, h⟩ := h
      exact (setOutput_bypasses hj p b).trans (produce_bypasses hj h)
  | postInput i message =>
      rw [call, Checked.pure_eq_ok] at h
      subst h
      exact ⟨rfl, rfl, rfl, rfl, rfl, rfl, rfl⟩
  | thread event =>
      rw [call, Checked.pure_eq_ok] at h
      exact h ▸ threadStep_bypasses hc

/-! ## Posting -/

/-- **What one post does**: the buffer is in the slot, which was empty. -/
structure Posts (o : Nat) (buff : SBuffer) (b b' : BlockActor) : Prop extends
    Stays o b b' where
  free : (b.outputQueues o).inlineBuffer = none
  items : buff.length / (b.outputConfigs o).itemSize < 2 ^ 63
  inline : (b'.outputQueues o).inlineBuffer = some buff
  read : b'.numOutputItemsRead o =
    b.numOutputItemsRead o + buff.length / (b.outputConfigs o).itemSize

/-- The post into an empty slot, as an equation: what `produce` adds to the
empty inline buffer is the length that `set_inline` took away. -/
theorem postOutputBuffer_eq {buff : SBuffer}
    (hfree : (b.outputQueues o).inlineBuffer = none)
    (hsize : buff.length < 2 ^ 64)
    (hlength : buff.length % (b.outputConfigs o).itemSize = 0)
    (hitems : buff.length / (b.outputConfigs o).itemSize < 2 ^ 63) :
    b.postOutputBuffer o buff = .ok { b.setOutput o
        { b.outputQueues o with inlineBuffer := some buff, bit := true } with
      stats := { b.stats with
        itemsProduced := Function.update b.stats.itemsProduced o
          (b.stats.itemsProduced o +
            buff.length / (b.outputConfigs o).itemSize) }
      numOutputItemsRead := Function.update b.numOutputItemsRead o
        (b.numOutputItemsRead o +
          buff.length / (b.outputConfigs o).itemSize) } := by
  have hbytes : buff.length / (b.outputConfigs o).itemSize *
      (b.outputConfigs o).itemSize =
      buff.length := Nat.div_mul_cancel (Nat.dvd_of_mod_eq_zero hlength)
  obtain ⟨p, hp⟩ : ∃ p, p = { b.outputQueues o with
      inlineBuffer := some { buff with length := 0 }, bit := true } := ⟨_, rfl⟩
  have hinline : (b.outputQueues o).setInline buff = .ok p := by
    simp only [OutputPort.setInline, assertThat_of hfree, Checked.ok_bind, hp]
    rfl
  have hlength' : buff.length % ((b.setOutput o p).outputConfigs o).itemSize =
      0 := hlength
  have hitems' : buff.length / ((b.setOutput o p).outputConfigs o).itemSize <
      2 ^ 63 := hitems
  have hproduce : ((b.setOutput o p).outputQueues o).produce
      ((b.setOutput o p).outputConfigs o).itemSize
      (buff.length / ((b.setOutput o p).outputConfigs o).itemSize) =
      .ok { b.outputQueues o with inlineBuffer := some buff, bit := true } := by
    change OutputPort.produce (b.outputConfigs o).itemSize
      (buff.length / (b.outputConfigs o).itemSize)
      (Function.update b.outputQueues o p o) = _
    rw [Function.update_self]
    have hproduced : OutputPort.producedLength (b.outputConfigs o).itemSize
        (buff.length / (b.outputConfigs o).itemSize) { buff with length := 0 } =
          buff.length := by
      rw [OutputPort.producedLength_of_lt]
      · rw [hbytes, Nat.zero_add]
      · rwa [hbytes, Nat.zero_add]
    simp only [OutputPort.produce, OutputPort.front, hp, pure_bind,
      assertThat_of (Nat.zero_mod _), Checked.ok_bind,
      OutputPort.setFront, hproduced]
    rfl
  simp only [postOutputBuffer, hinline, Checked.ok_bind, assertThat_of hlength',
    assertThat_of hitems', produce, hproduce]
  simp only [setOutput, Function.update_idem]
  rfl

/-- What a post asserts: the slot is empty, and the buffer holds whole items. -/
theorem postOutputBuffer_asserts {buff : SBuffer}
    (h : b.call now (.postOutputBuffer o buff) = .ok b') :
    (b.outputQueues o).inlineBuffer = none ∧
      buff.length % (b.outputConfigs o).itemSize = 0 ∧
      buff.length / (b.outputConfigs o).itemSize < 2 ^ 63 := by
  simp only [call, postOutputBuffer, OutputPort.setInline, Checked.bind_eq_ok,
    assertThat_eq_ok] at h
  obtain ⟨_, ⟨-, hfree, -⟩, -, hlength, -, hitems, -⟩ := h
  exact ⟨hfree, hlength, hitems⟩

/-- **Posting** succeeds only into an empty slot. -/
theorem posts_of_call {buff : SBuffer} (hsize : buff.length < 2 ^ 64)
    (h : b.call now (.postOutputBuffer o buff) = .ok b') :
    Posts o buff b b' := by
  have hkept := h
  obtain ⟨hfree, hlength, hitems⟩ := postOutputBuffer_asserts h
  rw [call, postOutputBuffer_eq hfree hsize hlength hitems,
    Except.ok.injEq] at hkept
  subst hkept
  refine ⟨⟨fun f hf => ?_, fun hb q hq => ?_, rfl, rfl, rfl, rfl⟩, hfree,
    hitems, ?_, ?_⟩
  · change (Function.update b.outputQueues o _ o).QueueFront f at hf
    rw [Function.update_self] at hf
    exact hf
  · change (Function.update b.outputQueues o _ o).queue = some q at hq
    rw [Function.update_self] at hq
    exact hb q hq
  · change (Function.update b.outputQueues o _ o).inlineBuffer = some buff
    rw [Function.update_self]
  · exact Function.update_self ..

/-- Posting fails into a slot that is taken. -/
theorem call_fails_of_taken {buff taken : SBuffer}
    (htaken : (b.outputQueues o).inlineBuffer = some taken) :
    ∃ fault, b.call now (.postOutputBuffer o buff) = .error fault := by
  cases hcall : b.call now (.postOutputBuffer o buff) with
  | error fault => exact ⟨fault, rfl⟩
  | ok b' =>
      have hfree := (postOutputBuffer_asserts hcall).1
      rw [htaken] at hfree
      cases hfree

/-- **The output is used for posting alone**: every call is a post of whole
items on the output, with a length that is a `size_t`, or leaves the output
alone; and no call marks the block done.  A work that also calls `produce` on
the output fills the queue front behind the posted buffer, and one that marks
the block done has its posted buffer flushed but not counted. -/
def PostsWhole (o : Nat) (b : BlockActor) (c : Call) : Prop :=
  b.marksDone c = false ∧ (c.usesOutput o = false ∨
    ∃ buff, c = .postOutputBuffer o buff ∧ buff.length < 2 ^ 64 ∧
      buff.length % (b.outputConfigs o).itemSize = 0)

/-- What a list of such calls does that succeeds: it posts nothing, or one
buffer into an empty slot. -/
theorem calls_posts {cs : List Call} (hmeet : CallsMeet (PostsWhole o) now cs b)
    (h : b.calls now cs = .ok b') :
    postedOn o cs = [] ∧ Kept o b b' ∨
      ∃ buff, postedOn o cs = [buff] ∧
        buff.length % (b.outputConfigs o).itemSize = 0 ∧
        Posts o buff b b' := by
  induction cs generalizing b with
  | nil =>
      rw [calls, Checked.pure_eq_ok] at h
      exact .inl ⟨rfl, h ▸ .refl b⟩
  | cons c cs ih =>
      simp only [calls, Checked.bind_eq_ok] at h
      obtain ⟨b₁, hc, h⟩ := h
      rw [CallsMeet, hc] at hmeet
      obtain ⟨⟨hdone, huses | ⟨buff, rfl, hsize, hlength⟩⟩, hrest⟩ := hmeet
      · -- The call leaves the output alone.
        have hkept := (call_bypasses hdone huses hc).kept
        have hposted : postedOn o (c :: cs) = postedOn o cs :=
          List.filterMap_cons_none (Call.postedOn_of_not_uses huses)
        rw [hposted]
        rcases ih hrest h with ⟨hnil, hkept'⟩ | ⟨buff, hone, hlength, hposts⟩
        · exact .inl ⟨hnil, hkept.trans hkept'⟩
        · refine .inr ⟨buff, hone, hkept.itemSize ▸ hlength,
            hkept.toStays.trans hposts.toStays, hkept.inline ▸ hposts.free,
            hkept.itemSize ▸ hposts.items, hposts.inline, ?_⟩
          rw [hposts.read, hkept.read, hkept.itemSize]
      · -- The slot is taken from here on.
        have hposts := posts_of_call hsize hc
        have hposted : postedOn o (.postOutputBuffer o buff :: cs) =
            buff :: postedOn o cs :=
          List.filterMap_cons_some (if_pos rfl)
        rw [hposted]
        rcases ih hrest h with ⟨hnil, hkept⟩ | ⟨buff', -, -, hposts'⟩
        · refine .inr
            ⟨buff, by rw [hnil], hlength, hposts.toStays.trans hkept.toStays,
            hposts.free, hposts.items, hkept.inline.trans hposts.inline,
            hkept.read.trans hposts.read⟩
        · have hfree := hposts'.free
          rw [hposts.inline] at hfree
          cases hfree

/-! ## Before and after the work -/

theorem sortTags_kept (i : Nat) (b : BlockActor) : Kept o b (b.sortTags i) := by
  unfold sortTags
  split
  · exact .refl b
  · exact .of_eq rfl rfl rfl rfl rfl rfl

/-- Preparing an input may fill the slot. -/
theorem prepareInput_stays {i k k' : Nat}
    (h : prepareInput env i (b, k) = .ok (b', k')) :
    Stays o b b' := by
  simp only [prepareInput, Checked.bind_eq_ok, Prod.exists] at h
  obtain ⟨-, -, buff, p, memory, -, h⟩ := h
  refine (sortTags_kept i b).toStays.trans ?_
  split at h
  · simp only [Checked.bind_eq_ok, Checked.pure_eq_ok, Prod.mk.injEq,
      OutputPort.setInline, assertThat_eq_ok] at h
    obtain ⟨q, ⟨-, -, rfl⟩, rfl, -⟩ := h
    refine ⟨fun f hf => ?_, fun hb q hq => ?_, rfl, rfl, rfl, rfl⟩
    · change (Function.update (b.sortTags i).outputQueues k _ o).QueueFront f
        at hf
      by_cases hok : o = k
      · subst hok
        rw [Function.update_self] at hf
        exact hf
      · rwa [Function.update_of_ne hok] at hf
    · change (Function.update (b.sortTags i).outputQueues k _ o).queue =
        some q at hq
      by_cases hok : o = k
      · subst hok
        rw [Function.update_self] at hq
        exact hb q hq
      · rw [Function.update_of_ne hok] at hq
        exact hb q hq
  · simp only [Checked.pure_eq_ok, Prod.mk.injEq] at h
    obtain ⟨rfl, -⟩ := h
    exact .of_eq rfl rfl rfl rfl rfl

/-- An output that was prepared: nothing was read, and what it shows is not
filled. -/
structure Vacant (o : Nat) (b : BlockActor) : Prop where
  read : b.numOutputItemsRead o = 0
  front : (b.outputQueues o).inlineBuffer = none →
    ∀ f, (b.outputQueues o).QueueFront f → f.length = 0

theorem Vacant.kept (hb : Vacant o b) (h : Kept o b b') : Vacant o b' :=
  ⟨h.read.trans hb.read, fun hnone f hf =>
    hb.front (h.inline ▸ hnone) f (h.front f hf)⟩

/-- Preparing another output. -/
theorem prepareOutput_kept (hj : j ≠ o) (h : b.prepareOutput j = .ok b') :
    Kept o b b' := by
  simp only [prepareOutput, Checked.bind_eq_ok, Checked.pure_eq_ok,
    Prod.exists] at h
  obtain ⟨-, -, buff, p, -, -, -, rfl⟩ := h
  exact .of_eq (Function.update_of_ne hj.symm _ _) rfl
    (Function.update_of_ne hj.symm _ _) rfl
    rfl rfl

/-- Preparing the output: `task_main` asserts that its front is empty. -/
theorem prepareOutput_vacant (h : b.prepareOutput o = .ok b') :
    Stays o b b' ∧ Vacant o b' := by
  simp only [prepareOutput, Checked.bind_eq_ok, Checked.pure_eq_ok, Prod.exists,
    assertThat_eq_ok] at h
  obtain ⟨-, -, buff, p, hfront, -, hlength, rfl⟩ := h
  refine ⟨.of_front hfront (Function.update_self ..) rfl rfl rfl rfl,
    Function.update_self .., fun hnone f hf => ?_⟩
  change (Function.update b.outputQueues o p o).inlineBuffer = none at hnone
  change (Function.update b.outputQueues o p o).QueueFront f at hf
  rw [Function.update_self] at hnone hf
  rcases OutputPort.front_cases hfront with ⟨hsome, rfl⟩ | ⟨-, -, hbuff, -⟩
  · rw [hnone] at hsome
    cases hsome
  · rw [hf.eq hbuff]
    exact hlength

/-- **Before the work** the output is prepared, and its queue is what it was. -/
theorem prepare_vacant (ho : o < b.numOutputs) (h : b.prepare env = .ok b') :
    Stays o b b' ∧ Vacant o b' := by
  simp only [prepare, Checked.bind_eq_ok, Prod.exists] at h
  obtain ⟨b₁, k, hin, hout⟩ := h
  have h₁ : Stays o b b₁ := by
    have hstart : Stays o b { b with inputItems := {} } :=
      .of_eq rfl rfl rfl rfl rfl
    exact forRange_rule hin (P := fun _ s => Stays o b s.1) hstart
      fun i _ s s' hs hf => hs.trans (prepareInput_stays hf)
  have hstart : Stays o b { b₁ with outputItems := {} } :=
    h₁.trans (.of_eq rfl rfl rfl rfl rfl)
  have h₂ := forRange_rule hout
    (P := fun n s => Stays o b s ∧ (o < n → Vacant o s))
    ⟨hstart, fun hlt => absurd hlt (Nat.not_lt_zero o)⟩ fun n _ s s' hs hf => by
      by_cases hno : n = o
      · subst hno
        obtain ⟨hstays, hvacant⟩ := prepareOutput_vacant hf
        exact ⟨hs.1.trans hstays, fun _ => hvacant⟩
      · have hkept := prepareOutput_kept hno hf
        exact ⟨hs.1.trans hkept.toStays,
          fun hlt => (hs.2 (by omega)).kept hkept⟩
  exact ⟨h₂.1, h₂.2 (h₁.numOutputs ▸ ho)⟩

/-- Passing tags on leaves the output alone, when the calls of an overload
do. -/
theorem passTags_kept {i : Nat} {tags : List Tag}
    (hmeet : ∀ overload ∈ env.propagateTags,
      CallsMeet (fun s c => s.marksDone c = false ∧ c.usesOutput o = false)
        env.now
        (overload i) b) (h : b.passTags env i tags = .ok b') : Kept o b b' := by
  unfold passTags at h
  split at h
  · rw [Checked.pure_eq_ok] at h
    subst h
    unfold propagateTags
    refine List.foldlRecOn (motive := fun s => Kept o b s) _ _
      (.refl b) fun s hs j _ => ?_
    refine List.foldlRecOn (motive := fun s => Kept o b s) _ _ hs
      fun s hs tag _ => ?_
    refine hs.trans (.of_eq rfl rfl rfl rfl ?_ rfl)
    exact buffersOn_append (m := .downstream j (.tag _)) rfl rfl
  · rename_i overload hoverload
    exact (hmeet overload hoverload).rule h .refl .trans
      fun c _ s s' hok hcall => (call_bypasses hok.1 hok.2 hcall).kept

/-- The post-work tasks of an input. -/
theorem finishInput_kept {i : Nat}
    (hmeet : (b.trimMsgs i).passed i ≠ [] → ∀ overload ∈ env.propagateTags,
      CallsMeet (fun s c => s.marksDone c = false ∧ c.usesOutput o = false)
        env.now
        (overload i) (b.trimMsgs i)) (h : b.finishInput env i = .ok b') :
    Kept o b b' := by
  simp only [finishInput, Checked.bind_eq_ok, Checked.pure_eq_ok] at h
  obtain ⟨b₁, htags, b₂, hbuffs, b₃, havail, rfl⟩ := h
  have hmsgs : Kept o b (b.trimMsgs i) := .of_eq rfl rfl rfl rfl rfl rfl
  have h₁ : Kept o b b₁ := by
    rcases trimTags_cases htags with ⟨-, rfl⟩ | ⟨hne, b₀, hpass, rfl⟩
    · exact hmsgs
    · refine (hmsgs.trans (passTags_kept (hmeet hne) hpass)).trans ?_
      exact .of_eq rfl rfl rfl rfl rfl rfl
  have h₂ : Kept o b₁ b₂ := by
    unfold trimBuffs at hbuffs
    split at hbuffs
    · rw [Checked.pure_eq_ok] at hbuffs
      exact hbuffs ▸ .refl b₁
    · simp only [Checked.bind_eq_ok, Checked.pure_eq_ok] at hbuffs
      obtain ⟨p, -, rfl⟩ := hbuffs
      exact .of_eq rfl rfl rfl rfl rfl rfl
  have h₃ : Kept o b₂ b₃ := by
    simp only [updateInputAvail, Checked.bind_eq_ok,
      Checked.pure_eq_ok] at havail
    obtain ⟨p, -, rfl⟩ := havail
    exact .of_eq rfl rfl rfl rfl rfl rfl
  refine ((h₁.trans h₂).trans h₃).trans ?_
  exact .of_eq rfl rfl rfl rfl rfl rfl

/-- The post-work tasks of another output. -/
theorem finishOutput_kept (hj : j ≠ o) (h : b.finishOutput now j = .ok b') :
    Kept o b b' := by
  unfold finishOutput at h
  split at h
  · rw [Checked.pure_eq_ok] at h
    exact h ▸ .refl b
  · simp only [Checked.bind_eq_ok, Checked.pure_eq_ok, Prod.exists] at h
    obtain ⟨buff, p, -, rfl⟩ := h
    refine (setOutput_bypasses hj p b).kept.trans ?_
    split
    · refine .of_eq rfl rfl rfl (Function.update_of_ne hj.symm _ _) ?_ rfl
      exact buffersOn_append (m := .downstream j (.buffer buff)) (if_neg hj) rfl
    · exact .of_eq rfl rfl rfl (Function.update_of_ne hj.symm _ _) rfl rfl

/-- What the task leaves on the output once it is finished: so many items more,
and so many buffers delivered. -/
structure Delivered (o items : Nat) (buffs : List SBuffer)
    (b b' : BlockActor) : Prop where
  front : ∀ f, (b'.outputQueues o).QueueFront f →
    (b.outputQueues o).QueueFront f
  unused : (∀ q, (b.outputQueues o).queue = some q → q.Unused) →
    ∀ q, (b'.outputQueues o).queue = some q → q.Unused
  produced : b'.totalItemsProduced o = b.totalItemsProduced o + items
  posted : b'.buffersOn o = b.buffersOn o ++ buffs

theorem Delivered.of_stays {items : Nat} {buffs : List SBuffer}
    (h : Stays o b b') (h' : Delivered o items buffs b' b'') :
    Delivered o items buffs b b'' :=
  ⟨fun f hf => h.front f (h'.front f hf), fun hb => h'.unused (h.unused hb),
    by rw [h'.produced, h.produced], by rw [h'.posted, h.posted]⟩

theorem Delivered.stays {items : Nat} {buffs : List SBuffer}
    (h : Delivered o items buffs b b') (h' : Stays o b' b'') :
    Delivered o items buffs b b'' :=
  ⟨fun f hf => h.front f (h'.front f hf), fun hb => h'.unused (h.unused hb),
    by rw [h'.produced, h.produced], by rw [h'.posted, h.posted]⟩

/-- **The post-work tasks of a filled slot**: the buffer is delivered if the
work made items. -/
theorem finishOutput_posts {buff : SBuffer}
    (hinline : (b.outputQueues o).inlineBuffer = some buff)
    (h : b.finishOutput now o = .ok b') :
    Delivered o (b.numOutputItemsRead o)
      (if b.numOutputItemsRead o = 0 then [] else [buff])
      b b' := by
  have hempty : ¬ (b.outputQueues o).empty = true := by
    simp [OutputPort.empty, hinline]
  rw [finishOutput, if_neg hempty, OutputPort.post_inline hinline,
    Checked.ok_bind, Checked.pure_eq_ok] at h
  have hport : b'.outputQueues o =
      { b.outputQueues o with inlineBuffer := none } := by
    subst h
    split <;> exact Function.update_self ..
  refine ⟨fun f hf => ?_, fun hb q hq => ?_, ?_, ?_⟩
  · rw [hport] at hf
    exact hf
  · rw [hport] at hq
    exact hb q hq
  · subst h
    split <;> exact Function.update_self ..
  · subst h
    by_cases hread : b.numOutputItemsRead o = 0
    · simp only [buffersOn, setOutput, hread]
      simp
    · simp [buffersOn, setOutput, hread, postDownstream, Outgoing.bufferOn]

/-- The post-work tasks of an output that was not used. -/
theorem finishOutput_idle (hread : b.numOutputItemsRead o = 0)
    (hfront : ∀ f, (b.outputQueues o).QueueFront f → f.length = 0)
    (hinline : (b.outputQueues o).inlineBuffer = none)
    (h : b.finishOutput now o = .ok b') : Delivered o 0 [] b b' := by
  unfold finishOutput at h
  split at h
  · rw [Checked.pure_eq_ok] at h
    subst h
    exact ⟨fun _ hf => hf, fun hb => hb, rfl, (List.append_nil _).symm⟩
  · simp only [OutputPort.post, Checked.bind_eq_ok, Checked.pure_eq_ok,
      Prod.mk.injEq, Prod.exists] at h
    obtain ⟨_, _, ⟨buff, p, hlook, p', hconsume, rfl, rfl⟩, rfl⟩ := h
    -- `consume` finds the front empty and returns before it pops.
    have hsame : p' = p := by
      rcases OutputPort.front_cases hlook with ⟨hsome, -⟩ | ⟨-, hbuff, -, q, hp⟩
      · rw [hinline] at hsome
        cases hsome
      · have hnone : p.inlineBuffer = none := by rw [hp]; exact hinline
        simp only [OutputPort.consume, hnone, OutputPort.front_front hlook,
          Checked.bind_eq_ok]
          at hconsume
        obtain ⟨-, -, _, hagain, hconsume⟩ := hconsume
        cases hagain
        rw [if_pos (hfront buff hbuff), Checked.pure_eq_ok] at hconsume
        exact hconsume.symm
    subst hsame
    have hstays : Stays o b (b.setOutput o p') :=
      .of_front hlook (Function.update_self ..) rfl rfl rfl rfl
    have hread' : ¬ (b.setOutput o p').numOutputItemsRead o ≠ 0 :=
      fun hne => hne hread
    rw [if_neg hread']
    refine ⟨hstays.front, hstays.unused, ?_, ?_⟩
    · change Function.update b.totalItemsProduced o _ o = _
      rw [Function.update_self]
      exact congrArg (b.totalItemsProduced o + ·) hread
    · rw [List.append_nil]
      rfl

/-- The output when the calls of the work are over. -/
structure AfterWork (o items : Nat) (buffs : List SBuffer)
    (b : BlockActor) : Prop where
  read : b.numOutputItemsRead o = items
  slot : (items = 0 ∧ buffs = [] ∧ ((b.outputQueues o).inlineBuffer = none →
      ∀ f, (b.outputQueues o).QueueFront f → f.length = 0)) ∨
    ∃ buff, (b.outputQueues o).inlineBuffer = some buff ∧
      buffs = if items = 0 then [] else [buff]

theorem AfterWork.kept {items : Nat} {buffs : List SBuffer}
    (hb : AfterWork o items buffs b) (h : Kept o b b') :
    AfterWork o items buffs b' := by
  refine ⟨h.read.trans hb.read, ?_⟩
  rcases hb.slot with ⟨hitems, hbuffs, hfront⟩ | ⟨buff, hinline, hbuffs⟩
  · exact .inl ⟨hitems, hbuffs, fun hnone f hf =>
      hfront (h.inline ▸ hnone) f (h.front f hf)⟩
  · exact .inr ⟨buff, h.inline.trans hinline, hbuffs⟩

theorem AfterWork.finishOutput {items : Nat} {buffs : List SBuffer}
    (hb : AfterWork o items buffs b) (h : b.finishOutput now o = .ok b') :
    Delivered o items buffs b b' := by
  have hread := hb.read
  subst hread
  rcases hb.slot with ⟨hitems, rfl, hfront⟩ | ⟨buff, hinline, rfl⟩
  · rw [hitems]
    cases hinline : (b.outputQueues o).inlineBuffer with
    | none => exact finishOutput_idle hitems (hfront hinline) hinline h
    | some buff =>
        have hposts := finishOutput_posts hinline h
        rwa [if_pos hitems, hitems] at hposts
  · exact finishOutput_posts hinline h

/-- **After the work**: what is in the slot is delivered. -/
theorem finish_delivered {items : Nat} {buffs : List SBuffer}
    (ho : o < b.numOutputs)
    (hmeet : ∀ i < b.numInputs, ∀ s, forRange (finishInput env) i b = .ok s →
      (s.trimMsgs i).passed i ≠ [] → ∀ overload ∈ env.propagateTags,
        CallsMeet (fun s c => s.marksDone c = false ∧ c.usesOutput o = false)
          env.now
          (overload i) (s.trimMsgs i))
    (hb : AfterWork o items buffs b) (h : b.finish env = .ok b') :
    Delivered o items buffs b b' := by
  simp only [finish, Checked.bind_eq_ok] at h
  obtain ⟨b₁, hin, hout⟩ := h
  obtain ⟨-, h₁⟩ := forRange_rule hin
    (P := fun i s => forRange (finishInput env) i b = .ok s ∧ Kept o b s)
    ⟨rfl, .refl b⟩
    fun i hi s s' hs hf => ⟨forRange_succ_eq_ok.mpr ⟨s, hs.1, hf⟩,
      hs.2.trans (finishInput_kept (hmeet i hi s hs.1) hf)⟩
  have h₂ := forRange_rule hout
    (P := fun n s => if o < n then Delivered o items buffs b s else Kept o b s)
    (by simpa using h₁)
    fun n _ s s' hs hf => by
      by_cases hno : n = o
      · subst hno
        rw [if_neg (Nat.lt_irrefl n)] at hs
        rw [if_pos (Nat.lt_succ_self n)]
        exact ((hb.kept hs).finishOutput hf).of_stays hs.toStays
      · have hkept := finishOutput_kept hno hf
        by_cases hlt : o < n
        · rw [if_pos hlt] at hs
          rw [if_pos (Nat.lt_succ_of_lt hlt)]
          exact hs.stays hkept.toStays
        · rw [if_neg hlt] at hs
          rw [if_neg (by omega)]
          exact hs.trans hkept
  rwa [if_pos (h₁.numOutputs ▸ ho)] at h₂

/-! ## A task that posts -/

/-- **A task that succeeds** has posted nothing on the output, or one buffer
into an empty slot; the buffer is delivered if it has items. -/
theorem taskMain_posts {b₁ : BlockActor} (hallowed : b.isWorkAllowed = true)
    (hprepare : b.prepare env = .ok b₁) (ho : o < b.numOutputs)
    (henv : env.Proper) (hmeet : WorkMeets (PostsWhole o) env b₁)
    (h : b.taskMain env = .ok b') :
    postedOn o env.work = [] ∧ Delivered o 0 [] b b' ∨
      ∃ buff, postedOn o env.work = [buff] ∧
        (b₁.outputQueues o).inlineBuffer = none ∧
        buff.length % (b.outputConfigs o).itemSize = 0 ∧
        buff.length / (b.outputConfigs o).itemSize < 2 ^ 63 ∧
        Delivered o (buff.length / (b.outputConfigs o).itemSize)
          (if buff.length / (b.outputConfigs o).itemSize = 0 then []
            else [buff]) b b' := by
  obtain ⟨b₁', b₂, b₃, hprepare', hwork, hfinish, rfl⟩ :=
    taskMain_parts hallowed h
  rw [hprepare] at hprepare'
  cases hprepare'
  obtain ⟨hstays, hvacant⟩ := prepare_vacant ho hprepare
  have hcall : Kept o b₁ b₁.atCall := .of_eq rfl rfl rfl rfl rfl rfl
  have hmeet₂ := hmeet.tags b₂ hwork
  simp only [taskWork, Checked.bind_eq_ok, Checked.pure_eq_ok] at hwork
  obtain ⟨s, hcalls, rfl⟩ := hwork
  have hover : Kept o s { s with
      stats := { s.stats with timeLastWork := env.now }, onThread := false } :=
    .of_eq rfl rfl rfl rfl rfl rfl
  -- What is in the slot after the calls is delivered by the post-work tasks.
  have hdeliver : ∀ items buffs, Stays o b₁.atCall s →
      AfterWork o items buffs s →
      Delivered o items buffs b b₃.taskKicker := by
    intro items buffs hs hafter
    have hto : Stays o b { s with
        stats := { s.stats with timeLastWork := env.now },
            onThread := false } :=
      ((hstays.trans hcall.toStays).trans hs).trans hover.toStays
    have hdelivers := finish_delivered (hto.numOutputs ▸ ho)
        (fun i hi t ht hne overload hmem =>
      (hmeet₂ i hi t ht hne overload hmem).mono fun u c hc hok => ?_)
        (hafter.kept hover) hfinish
    · exact (hdelivers.of_stays hto).stays (taskKicker_bypasses b₃).kept.toStays
    · obtain ⟨hdone, huses | ⟨buff, rfl, -⟩⟩ := hok
      · exact ⟨hdone, huses⟩
      · cases henv.tags overload hmem i _ hc
  rcases calls_posts hmeet.work hcalls with ⟨hnil, hkept⟩ |
    ⟨buff, hone, hlength, hposts⟩
  · refine .inl ⟨hnil, hdeliver 0 [] hkept.toStays ?_⟩
    have hidle := (hvacant.kept hcall).kept hkept
    exact ⟨hidle.read, .inl ⟨rfl, rfl, hidle.front⟩⟩
  · have hsize : (b₁.atCall.outputConfigs o).itemSize =
        (b.outputConfigs o).itemSize :=
      hstays.itemSize
    have hread : b₁.atCall.numOutputItemsRead o = 0 := hvacant.read
    have hitems := hposts.items
    have hafter := hposts.read
    rw [hsize] at hlength hitems hafter
    rw [hread, Nat.zero_add] at hafter
    exact .inr ⟨buff, hone, hposts.free, hlength, hitems,
      hdeliver _ _ hposts.toStays ⟨hafter, .inr ⟨buff, hposts.inline, rfl⟩⟩⟩

/-- A call of the work that posts on the output fails. -/
def PostFails (o : Nat) (env : Env) (b : BlockActor) : Prop :=
  ∃ before buff after s fault,
    env.work = before ++ .postOutputBuffer o buff :: after ∧
    b.atCall.calls env.now before = .ok s ∧
    s.call env.now (.postOutputBuffer o buff) = .error fault

/-- The condition on the calls before one of them, and on that one. -/
theorem CallsMeet.append {ok : BlockActor → Call → Prop}
    {before after : List Call} {c : Call}
    (hmeet : CallsMeet ok now (before ++ c :: after) b) :
    CallsMeet ok now before b ∧ ∀ s, b.calls now before = .ok s → ok s c := by
  induction before generalizing b with
  | nil =>
      refine ⟨trivial, fun s hs => ?_⟩
      rw [calls, Checked.pure_eq_ok] at hs
      exact hs ▸ hmeet.1
  | cons d before ih =>
      obtain ⟨hd, hrest⟩ := hmeet
      cases hcall : b.call now d with
      | error fault =>
          refine ⟨⟨hd, by rw [hcall]; trivial⟩, fun s hs => ?_⟩
          rw [calls, hcall] at hs
          cases hs
      | ok b₁ =>
          rw [hcall] at hrest
          obtain ⟨hbefore, hnext⟩ := ih hrest
          refine ⟨⟨hd, by rw [hcall]; exact hbefore⟩, fun s hs => hnext s ?_⟩
          rw [calls, hcall, Checked.ok_bind] at hs
          exact hs

/-- **The only post of a work** does not fail when the slot is empty. -/
theorem not_postFails {b₁ : BlockActor}
    (hmeet : CallsMeet (PostsWhole o) env.now env.work b₁.atCall)
    (hone : ∀ buff ∈ postedOn o env.work, postedOn o env.work = [buff] ∧
      buff.length / (b₁.outputConfigs o).itemSize < 2 ^ 63 ∧
      (b₁.outputQueues o).inlineBuffer = none) : ¬ PostFails o env b₁ := by
  rintro ⟨before, buff, after, s, fault, hwork, hcalls, hfails⟩
  have hcons : Call.postedOn o (.postOutputBuffer o buff) =
      some buff := if_pos rfl
  have hposted : postedOn o env.work =
      postedOn o before ++ buff :: postedOn o after := by
    rw [hwork, postedOn, List.filterMap_append, List.filterMap_cons_some hcons]
    rfl
  obtain ⟨hsingle, hitems, hfree⟩ :=
    hone buff (hposted ▸ List.mem_append_right _ List.mem_cons_self)
  have hnone : postedOn o before = [] := by
    rw [hposted] at hsingle
    have hlength := congrArg List.length hsingle
    simp only [List.length_append, List.length_cons, List.length_nil] at hlength
    exact List.eq_nil_of_length_eq_zero (by omega)
  rw [hwork] at hmeet
  obtain ⟨hbefore, hnext⟩ := hmeet.append
  rcases calls_posts hbefore hcalls with ⟨-, hkept⟩ | ⟨_, hsome, -⟩
  · -- The slot is as it was, so all three assertions of the post hold.
    obtain ⟨-, huses | ⟨_, heq, hsize, hlength⟩⟩ := hnext s hcalls
    · simp [Call.usesOutput] at huses
    · cases heq
      have hok := postOutputBuffer_eq (hkept.inline.trans hfree) hsize hlength
        (hkept.itemSize ▸ hitems)
      rw [call, hok] at hfails
      cases hfails
  · rw [hnone] at hsome
    cases hsome

/-- **Posting delivers.**  A task whose work uses an output for posting whole
items only, and in which nothing else fails, delivers what it posts there if and
only if it posts nothing, or one buffer with items in it into the empty slot.  A
second buffer, or one that comes to a slot in which `task_main` has put an input
buffer, fails the `ASSERT` of `set_inline`; a buffer without items is dropped,
because the post-work tasks send only where something was read. -/
theorem posted_delivered_iff {b₁ : BlockActor}
    (hallowed : b.isWorkAllowed = true) (hprepare : b.prepare env = .ok b₁)
    (ho : o < b.numOutputs) (henv : env.Proper)
    (hmeet : WorkMeets (PostsWhole o) env b₁)
    (hstop : PostFails o env b₁ ∨ ∃ b', b.taskMain env = .ok b') :
    (∃ b', b.taskMain env = .ok b' ∧
      Delivered o ((postedOn o env.work).map fun buff =>
        buff.length / (b.outputConfigs o).itemSize).sum
          (postedOn o env.work) b b') ↔
    (postedOn o env.work = [] ∨ ∃ buff, postedOn o env.work = [buff] ∧
      buff.length ≠ 0 ∧
      buff.length / (b.outputConfigs o).itemSize < 2 ^ 63 ∧
      (b₁.outputQueues o).inlineBuffer = none) := by
  constructor
  · rintro ⟨b', hok, hdelivers⟩
    rcases taskMain_posts hallowed hprepare ho henv hmeet hok with
      ⟨hnil, -⟩ | ⟨buff, hone, hfree, -, hitems, hposts⟩
    · exact .inl hnil
    · refine .inr ⟨buff, hone, fun hzero => ?_, hitems, hfree⟩
      -- Without items nothing is sent, and the buffer is lost.
      have hposted := hposts.posted
      rw [hzero, Nat.zero_div, if_pos rfl, hdelivers.posted, hone] at hposted
      have hlength := congrArg List.length hposted
      simp at hlength
  · intro hcond
    obtain ⟨hstays, -⟩ := prepare_vacant ho hprepare
    have hnot : ¬ PostFails o env b₁ := by
      refine not_postFails hmeet.work fun buff hbuff => ?_
      rcases hcond with hnil | ⟨buff', hone, -, hitems, hfree⟩
      · rw [hnil] at hbuff
        cases hbuff
      · rw [hone, List.mem_singleton] at hbuff
        subst hbuff
        exact ⟨hone, hstays.itemSize ▸ hitems, hfree⟩
    obtain ⟨b', hok⟩ := hstop.resolve_left hnot
    refine ⟨b', hok, ?_⟩
    rcases taskMain_posts hallowed hprepare ho henv hmeet hok with
      ⟨hnil, hdelivers⟩ | ⟨buff, hone, -, hlength, -, hdelivers⟩
    · rw [hnil]
      exact hdelivers
    · rcases hcond with hnil | ⟨buff', hone', hne, -, -⟩
      · rw [hone] at hnil
        cases hnil
      · rw [hone, List.cons.injEq] at hone'
        obtain ⟨rfl, -⟩ := hone'
        have hitems : buff.length / (b.outputConfigs o).itemSize ≠
            0 := fun hzero => by
          have hdiv := Nat.div_add_mod buff.length (b.outputConfigs o).itemSize
          rw [hzero, hlength, Nat.mul_zero] at hdiv
          exact hne hdiv.symm
        rw [if_neg hitems] at hdelivers
        rw [hone]
        simpa using hdelivers

/-! ### A source that posts -/

theorem postedOn_eq_some {c : Call} {buff : SBuffer} :
    c.postedOn o = some buff ↔ c = .postOutputBuffer o buff := by
  cases c with
  | postOutputBuffer i buff' =>
      rw [Call.postedOn]
      split <;> simp_all
  | _ => simp [Call.postedOn]

instance (o : Nat) (b : BlockActor) (c : Call) : Decidable (PostsWhole o b c) :=
  decidable_of_iff (b.marksDone c = false ∧ (c.usesOutput o = false ∨
    ∃ buff ∈ c.postedOn o, buff.length < 2 ^ 64 ∧
      buff.length % (b.outputConfigs o).itemSize = 0))
    (by simp only [PostsWhole, Option.mem_def, postedOn_eq_some])

/-- A source with one output for items of four bytes, which reserves a whole
buffer. -/
def poster : Checked BlockActor :=
  { made 0 addressMemory with
    outputConfigs :=
      fun _ => { itemSize := 4, reserveItems := atLeastBytes } }.handleTopology
    {} 0 1 none

/-- The source once it is started: its first task is about to be run. -/
def started : Checked BlockActor := do
  let b ← poster
  TransitionSystem.runEvents change Reserving.starts b

theorem started_reachable (h : started = .ok b) : lifetime.Reachable b := by
  simp only [started, Checked.bind_eq_ok] at h
  obtain ⟨b₀, hposter, hrun⟩ := h
  have hinit : lifetime.Reachable b₀ :=
    .init ⟨0, addressMemory, _, _, {}, 0, 1, hposter⟩
  exact hinit.of_events _ hrun

/-- The block as the handler of its oldest message calls `task_main`. -/
def entered (env : Env) (b : BlockActor) : Option BlockActor :=
  match b.mailbox with
  | [] => none
  | m :: rest => ((b.receive m rest).enter env m).bind Except.toOption

/-- A buffer of the user with two items in it. -/
def userBuffer (impl : Nat) : SBuffer :=
  { impl, config := { memory := 4096 * impl, length := 64 }, offset := 16,
    length := 8 }

/-- The post of such a buffer. -/
def posting (impl : Nat) : Call := .postOutputBuffer 0 (userBuffer impl)

/-- What is seen of a task that posts these buffers: it may run on the one
output, all its calls are posts of whole items into a free slot, and it
succeeds. -/
def seenPosting (impls : List Nat) (b : BlockActor) :
    Option (Bool × Nat × Bool × Bool × Bool) := do
  let env : Env := { work := impls.map posting }
  let b₀ ← b.entered env
  let b₁ ← (b₀.prepare env).toOption
  return (b₀.isWorkAllowed, b₀.numOutputs,
    decide (CallsMeet (PostsWhole 0) env.now env.work b₁.atCall),
    (b₁.outputQueues 0).inlineBuffer.isNone, (b₀.taskMain env).toOption.isSome)

/-- What is seen of the calls, in the states that they are made in. -/
theorem posting_of_seen {impls : List Nat} {b : BlockActor} {fine : Bool}
    (h : b.seenPosting impls = some (true, 1, true, true, fine)) :
    ∃ b₀ b₁, b.entered { work := impls.map posting } = some b₀ ∧
      b₀.isWorkAllowed = true ∧
      b₀.prepare { work := impls.map posting } = .ok b₁ ∧ 0 < b₀.numOutputs ∧
      WorkMeets (PostsWhole 0) { work := impls.map posting } b₁ ∧
      (b₁.outputQueues 0).inlineBuffer = none ∧
      (b₀.taskMain { work := impls.map posting }).toOption.isSome = fine := by
  simp only [seenPosting, Option.bind_eq_bind, Option.bind_eq_some_iff,
    Option.pure_def, Option.some.injEq, Prod.mk.injEq, Checked.toOption_eq_some,
    decide_eq_true_eq, Option.isNone_iff_eq_none] at h
  obtain ⟨b₀, hentered, b₁, hprepare, hallowed, hnum, hcalls, hfree, hfine⟩ := h
  refine ⟨b₀, b₁, hentered, hallowed, hprepare,
    by omega, ⟨hcalls, ?_⟩, hfree, hfine⟩
  intro b' _ i _ s _ _ overload hoverload
  cases hoverload

/-- The task that is about to be run posts these buffers. -/
theorem seen_started {impls : List Nat} {fine : Bool}
    (h : started.toOption.bind (seenPosting impls) =
      some (true, 1, true, true, fine)) :
    ∃ b, lifetime.Reachable b ∧ b.seenPosting impls =
      some (true, 1, true, true, fine) := by
  obtain ⟨b, hstarted, hseen⟩ := Option.bind_eq_some_iff.mp h
  exact ⟨b, started_reachable (Checked.toOption_eq_some.mp hstarted), hseen⟩

/-- One buffer is posted and delivered. -/
theorem posted_delivered_iff_one :
    ∃ b b' : BlockActor, b.taskMain { work := [posting 7] } = .ok b' ∧
      b'.buffersOn 0 = b.buffersOn 0 ++ [userBuffer 7] := by
  have hrun : started.toOption.bind (seenPosting [7]) =
      some (true, 1, true, true, true) := by
    decide
  obtain ⟨b, -, hseen⟩ := seen_started hrun
  obtain ⟨b₀, b₁, -, hallowed, hprepare, ho, hmeet, hfree, hfine⟩ :=
    posting_of_seen hseen
  obtain ⟨b', hok⟩ := Option.isSome_iff_exists.mp hfine
  have hitems :
      (userBuffer 7).length / (b₀.outputConfigs 0).itemSize < 2 ^ 63 :=
    Nat.lt_of_le_of_lt (Nat.div_le_self _ _) (by decide)
  have hcond : postedOn 0 [posting 7] = [] ∨ ∃ buff,
      postedOn 0 [posting 7] = [buff] ∧
      buff.length ≠ 0 ∧ buff.length / (b₀.outputConfigs 0).itemSize < 2 ^ 63 ∧
      (b₁.outputQueues 0).inlineBuffer = none :=
    .inr ⟨userBuffer 7, rfl, by decide, hitems, hfree⟩
  obtain ⟨b'', hok', hdelivers⟩ := (posted_delivered_iff hallowed hprepare ho
    (Reserving.proper_of_plain rfl rfl) hmeet
    (.inr ⟨b', Checked.toOption_eq_some.mp hok⟩)).mpr hcond
  exact ⟨b₀, b'', hok', hdelivers.posted⟩

/-- **The second buffer does not fit.**  Two buffers of whole items are posted
in one work, and the second post fails. -/
theorem posted_twice_fails :
    ¬ ∀ (b b₀ b₁ : BlockActor) (env : Env) (o : Nat), lifetime.Reachable b →
      b.entered env = some b₀ → b₀.isWorkAllowed = true →
      b₀.prepare env = .ok b₁ →
      o < b₀.numOutputs → env.Proper → WorkMeets (PostsWhole o) env b₁ →
      (PostFails o env b₁ ∨ ∃ b', b₀.taskMain env = .ok b') →
      ∃ b', b₀.taskMain env = .ok b' ∧
        Delivered o ((postedOn o env.work).map fun buff =>
          buff.length / (b₀.outputConfigs o).itemSize).sum
            (postedOn o env.work) b₀ b' := by
  intro hall
  have hrun : started.toOption.bind (seenPosting [7, 8]) =
      some (true, 1, true, true, false) := by
    decide
  obtain ⟨b, hreach, hseen⟩ := seen_started hrun
  obtain ⟨b₀, b₁, hentered, hallowed, hprepare, ho, hmeet, hfree, hfine⟩ :=
    posting_of_seen hseen
  -- The first buffer takes the slot that the second needs.
  have hfails : PostFails 0 { work := [7, 8].map posting } b₁ := by
    obtain ⟨-, huses | ⟨buff, heq, hsize, hlength⟩⟩ := hmeet.work.1
    · cases huses
    · cases heq
      have hitems : (userBuffer 7).length /
          (b₁.atCall.outputConfigs 0).itemSize < 2 ^ 63 :=
        Nat.lt_of_le_of_lt (Nat.div_le_self _ _) (by decide)
      have hfirst :=
        postOutputBuffer_eq (b := b₁.atCall) hfree hsize hlength hitems
      obtain ⟨s, hs⟩ : ∃ s, b₁.atCall.call 0 (posting 7) = .ok s := ⟨_, hfirst⟩
      have htaken : ∃ fault, s.call 0 (posting 8) = .error fault :=
        call_fails_of_taken (posts_of_call hsize hs).inline
      obtain ⟨fault, hsecond⟩ := htaken
      refine ⟨[posting 7], userBuffer 8, [], s, fault, rfl, ?_, hsecond⟩
      simp only [calls, hs, Checked.ok_bind]
      rfl
  obtain ⟨b', hok, -⟩ := hall b b₀ b₁ _ 0 hreach hentered hallowed hprepare ho
    (Reserving.proper_of_plain rfl rfl) hmeet (.inl hfails)
  rw [hok] at hfine
  cases hfine

end BlockActor

end Gras
