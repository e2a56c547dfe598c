import Gras.Actor.PostedBuffers
import Gras.Actor.WorkPort

/-!
# The port in the works of its block

`WorkPort` is one output while a work goes on, without the rest of the block.
This module finds it in the block.  A call of the work is, for one output, at
most one call of its port (`BlockActor.onOutput`); and a port that agrees with
the output does so after any list of calls (`WorkPort.Agrees.calls`), and after
the post-work tasks of the output (`WorkPort.Agrees.finishOutput`).  So what is
proved of a `WorkPort` holds of every output of every block, apart from the
calls that configure the output anew.
-/

namespace Gras

namespace BlockActor

variable {b b' : BlockActor} {now : Int} {o n : Nat}

/-! ## What a call is for an output -/

/-- What a call is for an output: a call of its port, or nothing. -/
def onOutput (o : Nat) (b : BlockActor) : Call → List PortCall
  | .produce i items => if i = o then [.produce items] else []
  | .markOutputFail i => if i = o then [.outputFail] else []
  | .getOutputBuffer i => if i = o then [.getOutputBuffer] else []
  | .popOutputBuffer i numBytes =>
      if i = o then [.popOutputBuffer numBytes] else []
  | .postOutputBuffer i buffer =>
      if i = o then [.postOutputBuffer buffer] else []
  | c => if b.marksDone c then [.markDone] else []

/-- A call that does not use the output is nothing for it, unless it marks the
block done. -/
theorem onOutput_of_not_uses {c : Call} (h : c.usesOutput o = false) :
    b.onOutput o c = if b.marksDone c then [.markDone] else [] := by
  cases c with
  | produce i items => simp_all [onOutput, Call.usesOutput, marksDone]
  | markOutputFail i => simp_all [onOutput, Call.usesOutput, marksDone]
  | getOutputBuffer i => simp_all [onOutput, Call.usesOutput, marksDone]
  | popOutputBuffer i numBytes =>
      simp_all [onOutput, Call.usesOutput, marksDone]
  | postOutputBuffer i buffer => simp_all [onOutput, Call.usesOutput, marksDone]
  | _ => rfl

/-- The buffers among the messages on an output. -/
theorem buffersOn_eq (o : Nat) (b : BlockActor) :
    b.buffersOn o = (b.sent.filterMap (Outgoing.downstreamOf o)).filterMap fun
      | .buffer buff => some buff
      | _ => none := by
  rw [List.filterMap_filterMap, buffersOn]
  congr 1
  funext m
  cases m with
  | downstream i message =>
      by_cases hi : i = o
      · cases message <;> simp [Outgoing.bufferOn, Outgoing.downstreamOf, hi]
      · cases message <;> simp [Outgoing.bufferOn, Outgoing.downstreamOf, hi]
  | _ => rfl

/-- The flush of the outputs leaves each port as its own flush does. -/
theorem flushOutputs_port (h : forRange (flushOutput now) n b = .ok b')
    (ho : o < n) :
    (∃ l, (b.outputQueues o).flushOut now = .ok (l, b'.outputQueues o)) ∧
      b'.numOutputItemsRead = b.numOutputItemsRead := by
  have hloop := forRange_rule h (P := fun k s =>
      (k ≤ o → s.outputQueues o = b.outputQueues o) ∧
        (o < k → ∃ l, (b.outputQueues o).flushOut now =
          .ok (l, s.outputQueues o)) ∧
        s.numOutputItemsRead = b.numOutputItemsRead)
    ⟨fun _ => rfl, fun hk => absurd hk (Nat.not_lt_zero o), rfl⟩
        fun k _ s s' hs hf => by
      obtain ⟨hbefore, hafter, hread⟩ := hs
      obtain ⟨l, p, hflush, rfl⟩ := flushOutput_eq_ok.mp hf
      by_cases hk : o = k
      · subst hk
        rw [hbefore (Nat.le_refl o)] at hflush
        have hport : Function.update s.outputQueues o p o = p :=
          Function.update_self ..
        exact ⟨fun hk => absurd hk (Nat.not_succ_le_self o),
          fun _ => ⟨l, hflush.trans
            (congrArg (fun q => Except.ok (l, q)) hport.symm)⟩, hread⟩
      · dsimp only
        rw [Function.update_of_ne hk]
        exact ⟨fun hk' => hbefore (by omega),
          fun hk' => hafter (by omega), hread⟩
  exact ⟨hloop.2.1 ho, hloop.2.2⟩

/-- **What `mark_done` does to one output**: its port is flushed, and what the
flush takes out is posted. -/
theorem markDone_output (hlive : b.blockState ≠ .done)
    (h : b.markDone now = .ok b') (ho : o < b.numOutputs) :
    ∃ l p, (b.outputQueues o).flushOut now = .ok (l, p) ∧
      b'.outputQueues o = p.flush now ∧ b'.buffersOn o = b.buffersOn o ++ l ∧
      b'.numOutputItemsRead = b.numOutputItemsRead ∧
      b'.numOutputs = b.numOutputs := by
  obtain ⟨l, hposted, hsent⟩ := markDone_sent hlive h
  obtain ⟨b₁, hout, -, b₂, hin, rfl⟩ := markDone_parts hlive h
  obtain ⟨⟨l', hport⟩, hread⟩ := flushOutputs_port hout ho
  obtain ⟨p, hflush⟩ := hposted o ho
  obtain ⟨rfl, rfl⟩ : l' = l o ∧ b₁.outputQueues o = p := by
    have heq := hport.symm.trans hflush
    simpa using heq
  obtain ⟨hqueues, hnum₂, hread₂⟩ : b₂.outputQueues = b₁.outputQueues ∧
      b₂.numOutputs = b₁.numOutputs ∧
      b₂.numOutputItemsRead = b₁.numOutputItemsRead :=
    forRange_rule hin (P := fun _ s => s.outputQueues = b₁.outputQueues ∧
        s.numOutputs = b₁.numOutputs ∧
        s.numOutputItemsRead = b₁.numOutputItemsRead)
      ⟨rfl, rfl, rfl⟩ fun i _ s s' hs hf => by
      simp only [flushInput, Checked.bind_eq_ok, Checked.pure_eq_ok] at hf
      obtain ⟨q, -, rfl⟩ := hf
      exact hs
  have hnum : b₂.numOutputs = b.numOutputs :=
    hnum₂.trans (congrArg Control.numOutputs
      (forRange_control hout fun i s s' hf => flushOutput_control hf))
  refine ⟨l o, _, hport, ?_, ?_, hread₂.trans hread, hnum⟩
  · show (if o < b₂.numOutputs then (b₂.outputQueues o).flush now
        else b₂.outputQueues o) = _
    rw [if_pos (hnum ▸ ho), hqueues]
  · rw [buffersOn_eq, hsent, List.filterMap_append, List.filterMap_append,
      ← buffersOn_eq, List.filterMap_append, posts_downstream l ho,
      checks_downstream ho, List.filterMap_append, List.filterMap_map]
    simp

/-- The post-work tasks of an output that has a front: it is posted if the work
made items. -/
theorem finishOutput_output (hempty : ¬ (b.outputQueues o).empty = true)
    (h : b.finishOutput now o = .ok b') :
    ∃ chunk p, (b.outputQueues o).post now = .ok (chunk, p) ∧
      b'.outputQueues o = p ∧
      b'.outputConfigs = b.outputConfigs ∧
      b'.numOutputItemsRead = b.numOutputItemsRead ∧
      b'.blockState = b.blockState ∧ b'.numOutputs = b.numOutputs ∧
      b'.buffersOn o = b.buffersOn o ++ if b.numOutputItemsRead o = 0 then []
        else [chunk] := by
  rw [finishOutput, if_neg hempty] at h
  simp only [Checked.bind_eq_ok, Checked.pure_eq_ok, Prod.exists] at h
  obtain ⟨chunk, p, hpost, rfl⟩ := h
  refine ⟨chunk, p, hpost, ?_⟩
  have hport : Function.update b.outputQueues o p o = p :=
    Function.update_self ..
  by_cases hread : b.numOutputItemsRead o = 0
  · have hstored : ¬ (b.setOutput o p).numOutputItemsRead o ≠ 0 :=
      not_not.mpr hread
    rw [if_neg hstored, if_pos hread, List.append_nil]
    exact ⟨hport, rfl, rfl, rfl, rfl, rfl⟩
  · have hstored : (b.setOutput o p).numOutputItemsRead o ≠ 0 := hread
    rw [if_pos hstored, if_neg hread]
    refine ⟨hport, rfl, rfl, rfl, rfl, ?_⟩
    simp [buffersOn, postDownstream, setOutput, Outgoing.bufferOn]

end BlockActor

/-! ## The port and the output -/

namespace WorkPort

open BlockActor

/-- **The port is the output of the block**: with the same queue, configuration
and counter, and what was posted on it since it had sent these buffers. -/
structure Agrees (o : Nat) (sent : List SBuffer) (b : BlockActor)
    (s : WorkPort) : Prop where
  output : o < b.numOutputs
  port : b.outputQueues o = s.port
  itemSize : (b.outputConfigs o).itemSize = s.itemSize
  maximumItems : (b.outputConfigs o).maximumItems = s.maximumItems
  read : b.numOutputItemsRead o = s.numOutputItemsRead
  done : b.blockState = .done ↔ s.done = true
  posted : (b.buffersOn o).Perm (sent ++ (s.posted ++ s.inlined))

/-- The calls of a work, one after the other. -/
def performs (now : Int) : List PortCall → WorkPort → Checked WorkPort
  | [], s => return s
  | c :: cs, s => do
      let s ← s.perform now c
      performs now cs s

theorem performs_append {cs cs' : List PortCall} {now : Int} {s : WorkPort} :
    performs now (cs ++ cs') s = performs now cs s >>= performs now cs' := by
  induction cs generalizing s with
  | nil => rfl
  | cons c cs ih =>
      rw [List.cons_append, performs, performs]
      cases s.perform now c with
      | error e => rfl
      | ok s₁ => exact ih

theorem performs_singleton {c : PortCall} {now : Int} {s : WorkPort} :
    performs now [c] s = s.perform now c := by
  rw [performs]
  cases s.perform now c <;> rfl

section Work

variable {o : Nat} {sent : List SBuffer} {b b' : BlockActor}
  {s : WorkPort} {now : Int}
  {c : Call} {cs : List Call}

theorem Agrees.bypassed (h : s.Agrees o sent b) (hu : Bypasses o b b') :
    s.Agrees o sent b' where
  output := hu.numOutputs ▸ h.output
  port := hu.port.trans h.port
  itemSize := (congrArg _ hu.config).trans h.itemSize
  maximumItems := (congrArg _ hu.config).trans h.maximumItems
  read := hu.read.trans h.read
  done := hu.state ▸ h.done
  posted := hu.posted ▸ h.posted

/-- More was posted, from the slot or from the queue. -/
theorem perm_posted {l posted inlined : List SBuffer}
    (h : l.Perm (sent ++ (posted ++ inlined))) (chunks : List SBuffer) :
    (l ++ chunks).Perm (sent ++ (posted ++ chunks ++ inlined)) ∧
      (l ++ chunks).Perm (sent ++ (posted ++ (inlined ++ chunks))) := by
  have hall : (l ++ chunks).Perm (sent ++ (posted ++ (inlined ++ chunks))) := by
    simpa only [List.append_assoc] using h.append_right chunks
  refine ⟨hall.trans ?_, hall⟩
  rw [List.append_assoc posted]
  exact (List.perm_append_comm.append_left posted).append_left sent

/-- The block is marked done. -/
theorem Agrees.markDone (h : s.Agrees o sent b) (hlive : b.blockState ≠ .done)
    (hdone : b.markDone now = .ok b') :
    ∃ s', s.perform now .markDone = .ok s' ∧ s'.Agrees o sent b' := by
  obtain ⟨l, p, hflush, hport, hposted, hread, hnum⟩ :=
    markDone_output hlive hdone h.output
  have hconfigs : b'.outputConfigs o = b.outputConfigs o :=
    congrFun (Reserving.markDone_outputConfigs hdone) o
  have hstate : b'.blockState = .done := markDone_blockState hdone
  have hperm := perm_posted h.posted l
  rw [h.port] at hflush
  rw [perform, if_neg (mt h.done.mpr hlive), hflush, Checked.ok_bind]
  dsimp only
  split
  · exact ⟨_, rfl, hnum ▸ h.output, hport, hconfigs ▸ h.itemSize,
      hconfigs ▸ h.maximumItems, (congrFun hread o).trans h.read,
      iff_of_true hstate rfl, hposted ▸ hperm.2⟩
  · exact ⟨_, rfl, hnum ▸ h.output, hport, hconfigs ▸ h.itemSize,
      hconfigs ▸ h.maximumItems, (congrFun hread o).trans h.read,
      iff_of_true hstate rfl, hposted ▸ hperm.1⟩

/-- The port of the output is stored, and its counter. -/
theorem Agrees.stored (h : s.Agrees o sent b) {p : OutputPort} {read : Nat}
    {clock : Int} {failed : Bool} {held : List SBuffer}
    (hport : b'.outputQueues o = p)
    (hread : b'.numOutputItemsRead o = read) (hconfig : b'.outputConfigs o = b.outputConfigs o)
    (hsent : b'.buffersOn o = b.buffersOn o) (hnum : b'.numOutputs = b.numOutputs)
    (hstate : b'.blockState = b.blockState) :
    Agrees o sent b' { s with port := p, numOutputItemsRead := read, clock, failed, held } where
  output := hnum ▸ h.output
  port := hport
  itemSize := (congrArg _ hconfig).trans h.itemSize
  maximumItems := (congrArg _ hconfig).trans h.maximumItems
  read := hread
  done := hstate ▸ h.done
  posted := hsent ▸ h.posted

/-- **A call of the work** is what it is for the port. -/
theorem Agrees.call (h : s.Agrees o sent b)
    (hconfig : ∀ config, c ≠ .thread (.configureOutput o config))
    (hcall : b.call now c = .ok b') :
    ∃ s', performs now (b.onOutput o c) s = .ok s' ∧ s'.Agrees o sent b' := by
  by_cases huses : c.usesOutput o = false
  · rw [onOutput_of_not_uses huses]
    by_cases hmarks : b.marksDone c = true
    · rw [if_pos hmarks, performs_singleton]
      have hlive : b.blockState ≠ .done := by
        intro hdone
        cases c <;> simp [marksDone, hdone] at hmarks
      exact h.markDone hlive (markDone_of_call hmarks hcall)
    · rw [if_neg hmarks]
      exact ⟨s, rfl,
        h.bypassed (call_bypasses (by simpa using hmarks) huses hcall)⟩
  · cases c with
    | produce i items =>
        obtain rfl : i = o := by simpa [Call.usesOutput] using huses
        simp only [BlockActor.call, BlockActor.produce, Checked.bind_eq_ok,
          Checked.pure_eq_ok] at hcall
        obtain ⟨-, -, p, hp, rfl⟩ := hcall
        rw [h.port, h.itemSize] at hp
        rw [onOutput, if_pos rfl, performs_singleton, perform, PoolPort.next, hp]
        refine ⟨_, rfl, h.stored (Function.update_self ..) ?_ rfl rfl rfl rfl⟩
        rw [← h.read]
        exact Function.update_self ..
    | markOutputFail i =>
        obtain rfl : i = o := by simpa [Call.usesOutput] using huses
        simp only [BlockActor.call, BlockActor.outputFail, Checked.bind_eq_ok,
          Prod.exists] at hcall
        obtain ⟨buff, p, hfront, hcall⟩ := hcall
        split at hcall
        · simp at hcall
        · rename_i hroom
          rw [Checked.pure_eq_ok] at hcall
          subst hcall
          rw [h.port] at hfront
          rw [h.itemSize, h.maximumItems] at hroom
          have hfail : s.port.outputFail now s.itemSize s.maximumItems =
              .ok (p.fail now) := by
            simp only [OutputPort.outputFail, hfront, Checked.ok_bind, if_neg hroom]
            rfl
          rw [onOutput, if_pos rfl, performs_singleton, perform, PoolPort.next, hfail]
          exact ⟨_, rfl, h.stored (Function.update_self ..) h.read rfl rfl rfl rfl⟩
    | getOutputBuffer i =>
        obtain rfl : i = o := by simpa [Call.usesOutput] using huses
        rw [call_getOutputBuffer, h.port] at hcall
        simp only [Checked.bind_eq_ok, Checked.pure_eq_ok, Prod.exists] at hcall
        obtain ⟨buff, p, hget, rfl⟩ := hcall
        rw [onOutput, if_pos rfl, performs_singleton, perform, hget]
        exact ⟨_, rfl,
          h.stored (Function.update_self ..) h.read rfl rfl rfl rfl⟩
    | popOutputBuffer i numBytes =>
        obtain rfl : i = o := by simpa [Call.usesOutput] using huses
        rw [call_popOutputBuffer, h.port] at hcall
        simp only [Checked.bind_eq_ok, Checked.pure_eq_ok] at hcall
        obtain ⟨p, hpop, rfl⟩ := hcall
        rw [onOutput, if_pos rfl, performs_singleton, perform, hpop]
        exact ⟨_, rfl,
          h.stored (Function.update_self ..) h.read rfl rfl rfl rfl⟩
    | postOutputBuffer i buffer =>
        obtain rfl : i = o := by simpa [Call.usesOutput] using huses
        simp only [BlockActor.call, BlockActor.postOutputBuffer,
          BlockActor.produce, Checked.bind_eq_ok, Checked.pure_eq_ok,
          assertThat_eq_ok] at hcall
        obtain ⟨p, hinline, -, hwhole, -, hsmall, p', hproduce, rfl⟩ := hcall
        rw [h.port] at hinline
        have hsize : ((b.setOutput i p).outputConfigs i).itemSize =
            s.itemSize := h.itemSize
        rw [hsize] at hwhole hsmall hproduce
        rw [show (b.setOutput i p).outputQueues i = p
          from Function.update_self ..] at hproduce
        have hperform : s.perform now (.postOutputBuffer buffer) = .ok { s with
            port := p'
            numOutputItemsRead :=
              s.numOutputItemsRead + buffer.length / s.itemSize
            clock := now } := by
          simp only [perform, hinline, assertThat_of hwhole,
            assertThat_of hsmall, hproduce, Checked.ok_bind]
          rfl
        rw [onOutput, if_pos rfl, performs_singleton, hperform]
        refine ⟨_, rfl, h.stored (Function.update_self ..) ?_ rfl rfl rfl rfl⟩
        rw [← h.read]
        exact (Function.update_self ..).trans (by rw [hsize]; rfl)
    | thread event =>
        cases event with
        | configureOutput i config =>
            obtain rfl : i = o := by simpa [Call.usesOutput] using huses
            exact absurd rfl (hconfig config)
        | _ => simp [Call.usesOutput] at huses
    | _ => simp [Call.usesOutput] at huses

/-- **The calls of a work** are calls of the port, as far as it is concerned. -/
theorem Agrees.calls (h : s.Agrees o sent b)
    (hconfig : ∀ config, .thread (.configureOutput o config) ∉ cs)
    (hcalls : b.calls now cs = .ok b') :
    ∃ performed s', performs now performed s = .ok s' ∧
      s'.Agrees o sent b' := by
  induction cs generalizing b s with
  | nil =>
      rw [BlockActor.calls, Checked.pure_eq_ok] at hcalls
      exact ⟨[], s, rfl, hcalls ▸ h⟩
  | cons c cs ih =>
      rw [BlockActor.calls, Checked.bind_eq_ok] at hcalls
      obtain ⟨b₁, hcall, hcalls⟩ := hcalls
      obtain ⟨s₁, hperform, h₁⟩ :=
        h.call (fun config hc => hconfig config (hc ▸ List.mem_cons_self)) hcall
      obtain ⟨performed, s', hperforms, h'⟩ :=
        ih h₁ (fun config hc =>
          hconfig config (List.mem_cons_of_mem _ hc)) hcalls
      refine ⟨b.onOutput o c ++ performed, s', ?_, h'⟩
      rw [performs_append, hperform]
      exact hperforms

/-- **The post-work tasks of the output** are the end of the work for the
port. -/
theorem Agrees.finishOutput (h : s.Agrees o sent b)
    (hfinish : b.finishOutput now o = .ok b') :
    ∃ s', s.finish now = .ok s' ∧ s'.Agrees o sent b' := by
  rw [finish]
  by_cases hempty : s.port.empty = true
  · rw [BlockActor.finishOutput, h.port, if_pos hempty,
      Checked.pure_eq_ok] at hfinish
    subst hfinish
    rw [if_pos hempty]
    exact ⟨_, rfl, h.output, h.port, h.itemSize, h.maximumItems, h.read,
      h.done, h.posted⟩
  · obtain ⟨chunk, p, hpost, hport, hconfigs, hread, hstate, hnum, hposted⟩ :=
      finishOutput_output (h.port ▸ hempty) hfinish
    rw [h.port] at hpost
    rw [h.read] at hposted
    have hperm :=
      perm_posted h.posted (if s.numOutputItemsRead = 0 then [] else [chunk])
    rw [if_neg hempty, hpost, Checked.ok_bind]
    dsimp only
    split
    · exact ⟨_, rfl, hnum ▸ h.output, hport, hconfigs ▸ h.itemSize,
        hconfigs ▸ h.maximumItems, (congrFun hread o).trans h.read,
        hstate ▸ h.done, hposted ▸ hperm.2⟩
    · exact ⟨_, rfl, hnum ▸ h.output, hport, hconfigs ▸ h.itemSize,
        hconfigs ▸ h.maximumItems, (congrFun hread o).trans h.read,
        hstate ▸ h.done, hposted ▸ hperm.1⟩

end Work

end WorkPort

end Gras
