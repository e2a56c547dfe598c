import Gras.Buffers.InputRuns

/-!
# The auxiliary buffers of a port in use

Accumulation and preload put buffers of the port's own into the queue.  This
module follows them through the runs of a port.

* `InputPort.OfExtent`: what depends on the memory of an entry and on how far it
  reaches survives every operation, stitching apart (`StitchFits`).
* `InputRun.Kept`: the auxiliary buffers, lent or not, are as long as the
  maximum (`sized_of_reachable`).
* `preload_inside`: in which runs the preload stays inside its buffer.

### What the condition is for

The preload is written into one auxiliary buffer, which is as long as the
maximum of the port.  A configuration raises the maximum to the reserve, but not
to the preload, so what the preload grows by may be longer than the buffer; and
an entry that was pushed may be stitched to the auxiliary buffer in front of it,
beyond its end.  The first is excluded in terms of the settings, the second in
terms of the memory behind the entry (`StitchFits`).
-/

namespace Gras

namespace InputPort

/-! ## What survives the operations -/

/-- A property of the memory of an entry and of how far it reaches. -/
def OfExtent (F : SBuffer → Prop) : Prop :=
  ∀ b b' : SBuffer, b'.config = b.config → b'.extent = b.extent → F b → F b'

/-- Every entry that takes its successor in has the property afterwards. -/
def StitchFits (F : SBuffer → Prop) : List SBuffer → Prop
  | [] => True
  | b :: rest => (Joins b rest → F (chained b rest)) ∧ StitchFits F rest

section Entries

variable {F : SBuffer → Prop} {p p' : InputPort} {now : Int} {m m' : Memory}

theorem stitchFits_of_config
    (hF : ∀ b b' : SBuffer, b'.config = b.config → F b → F b')
    {q : List SBuffer} (hq : ∀ b ∈ q, F b) : StitchFits F q := by
  induction q with
  | nil => trivial
  | cons b rest ih =>
      constructor
      · intro _
        exact hF b _ rfl (hq b List.mem_cons_self)
      · exact ih fun b' hb' => hq b' (List.mem_cons_of_mem _ hb')

theorem stitchLoop_entries (hF : OfExtent F) {q : List SBuffer}
    (hq : ∀ b ∈ q, F b) (hfits : StitchFits F q) : ∀ b ∈ stitchLoop q, F b := by
  induction q with
  | nil => exact hq
  | cons b rest ih =>
      obtain ⟨hjoin, hrest⟩ := hfits
      have hloop := ih (fun b' hb' => hq b' (List.mem_cons_of_mem _ hb')) hrest
      have hb := hq b List.mem_cons_self
      rw [stitchLoop]
      cases rest with
      | nil => exact List.forall_mem_singleton.mpr hb
      | cons next rest =>
          obtain ⟨rest', heq⟩ := stitchLoop_cons next rest
          rw [heq] at hloop ⊢
          obtain ⟨hnext, hrest'⟩ := List.forall_mem_cons.mp hloop
          by_cases hst : Stitches b next
          · rw [stitch_of (stitches_chained.mpr hst)]
            have htaken : taking b (chained next rest) =
                chained b (next :: rest) := by
              simp [chained, taking, chainLength.eq_2 b,
                show Joins b (next :: rest) from hst]
            rw [htaken]
            refine List.forall_mem_cons.mpr
              ⟨hjoin hst, List.forall_mem_cons.mpr ⟨?_, hrest'⟩⟩
            exact hF (chained next rest) _ rfl (giving_extent b _) hnext
          · rw [stitch_of_not (mt stitches_chained.mp hst)]
            exact List.forall_mem_cons.mpr ⟨hb, hloop⟩

theorem push_entries {buffer : SBuffer} (hF : OfExtent F)
    (hq : ∀ b ∈ p.queue.items, F b) (hbuffer : 0 < buffer.length → F buffer)
    (hfits : 0 < buffer.length → StitchFits F (p.queue.items ++ [buffer]))
    (h : p.push now buffer = .ok p') : ∀ b ∈ p'.queue.items, F b := by
  obtain ⟨-, -, -, ⟨-, heq⟩ | ⟨hlen, heq⟩⟩ := push_cases h
  · rw [heq]
    exact hq
  · have hall : ∀ b ∈ p.queue.items ++ [buffer], F b := by
      intro b hb
      rcases List.mem_append.mp hb with hb | hb
      · exact hq b hb
      · rw [List.mem_singleton.mp hb]
        exact hbuffer hlen
    intro b hb
    rw [heq] at hb
    exact stitchLoop_entries hF hall (hfits hlen) b (mem_of_mem_dropStitched hb)

theorem consume_entries {items : Nat} (hF : OfExtent F)
    (hq : ∀ b ∈ p.queue.items, F b) (h : p.consume now items = .ok p') :
    ∀ b ∈ p'.queue.items, F b := by
  obtain ⟨-, -, -, -, front, rest, hitems, hle, heq⟩ := consume_cases h
  intro b hb
  rw [heq, hitems] at hb
  obtain ⟨b₁, hb₁, hconfig₁, hextent₁⟩ := unstitch_extent _ b hb
  obtain ⟨b₀, hb₀, hconfig, hextent⟩ := drained_extent hle b₁ hb₁
  rw [← hitems] at hb₀
  exact hF b₀ b (hconfig₁.trans hconfig) (hextent₁.trans hextent) (hq b₀ hb₀)

theorem accumulate_entries {fresh : Allocation} (hF : OfExtent F)
    (hq : ∀ b ∈ p.queue.items, F b)
    (hfill : ∀ aux ∈ p.auxQueue,
      ∀ buff ∈ (auxAvailable fresh p.maximumBytes aux).buffers,
      ∀ bytes ≤ buff.config.length, F (preloaded bytes buff))
    (h : p.accumulate fresh m = .ok (p', m')) : ∀ b ∈ p'.queue.items, F b := by
  obtain ⟨rfl, -⟩ | ⟨aux, buff, buffers, -, haux, hbuff, -, -, -, heq, -⟩ :=
    accumulate_cases h
  · exact hq
  · obtain ⟨bytes, hbytes, haccum⟩ := gathered_accum p buff m
    rw [heq, List.forall_mem_cons]
    constructor
    · rw [haccum]
      exact hfill aux haux buff
        (by rw [hbuff]; exact List.mem_cons_self) bytes hbytes
    · intro b hb
      obtain ⟨b₀, hb₀, hconfig, hextent⟩ := gathered_extent b hb
      exact hF b₀ b hconfig hextent (hq b₀ hb₀)

end Entries

end InputPort

namespace InputRun

/-- What the surroundings promise: a new auxiliary queue has a token of its own,
a buffer of the port that arrives again lies inside its memory, and the token of
an auxiliary buffer brings back what was lent. -/
def Allowed (st : InputRun) : InputEvent → Prop
  | .configure _ fresh _ _ _ _ =>
      fresh.token ∉ st.tokens ∧ ∀ b ∈ st.port.queue.items,
        b.config.token ≠ fresh.token
  | .push _ buffer => buffer.config.token ∈ st.tokens →
      buffer.extent ≤ buffer.config.length ∧ ∃ b ∈ st.lent,
      b.config = buffer.config
  | .recycle buffer => buffer ∈ st.lent.map SBuffer.reset
  | _ => True

/-- The runs of a port in such surroundings. -/
def allowedSystem : TransitionSystem InputRun InputEvent :=
  system.restrict Allowed

/-- **What a step leaves in the queue**, for a property that survives the
operations. -/
theorem entries_rule {F : SBuffer → Prop} {st st' : InputRun} {ev : InputEvent}
    (hF : InputPort.OfExtent F) (hq : ∀ b ∈ st.port.queue.items, F b)
    (hpushed : ∀ buffer ∈ st.pushed ev, 0 < buffer.length →
      F buffer ∧ InputPort.StitchFits F (st.port.queue.items ++ [buffer]))
    (hfill : ∀ fresh, ∀ aux ∈ st.port.auxQueue,
      ∀ buff ∈ (InputPort.auxAvailable fresh st.port.maximumBytes aux).buffers,
        ∀ bytes ≤ buff.config.length, F (InputPort.preloaded bytes buff))
    (h : st.next ev = .ok st') : ∀ b ∈ st'.port.queue.items, F b := by
  refine next_rule (P := fun p => ∀ b ∈ p.queue.items, F b) ?_ ?_ ?_ ?_ ?_ hq h
  · intro p p' hitems _ hp
    rw [hitems]
    exact hp
  · intro p p' now buffer hp hitems hmem hpush
    refine InputPort.push_entries hF hp
      (fun hlen => (hpushed buffer hmem hlen).1) ?_ hpush
    intro hlen
    rw [hitems]
    exact (hpushed buffer hmem hlen).2
  · intro p p' now items hp _ _ hconsume
    exact InputPort.consume_entries hF hp hconsume
  · intro p' fresh m m' hacc
    exact InputPort.accumulate_entries hF hq (hfill fresh) hacc
  · intro p hitems _ b hb
    rw [hitems] at hb
    cases hb

/-- The auxiliary buffers of a port, and those it has lent, as long as its
maximum. -/
structure Kept (st : InputRun) : Prop where
  maximum : 0 < st.port.maximumBytes
  configured : st.port.itemsSize ≠ 0 ↔ st.port.auxQueue ≠ none
  aux : ∀ aux ∈ st.port.auxQueue, aux.token ∈ st.tokens ∧
    ∀ a ∈ aux.buffers, a.config.token = aux.token ∧
    a.config.length = st.port.maximumBytes
  lent : ∀ b ∈ st.lent, b.config.token ∈ st.tokens ∧ ∀ aux ∈ st.port.auxQueue,
    b.config.token = aux.token → b.config.length = st.port.maximumBytes
  queue : ∀ b ∈ st.port.queue.items, b.config.token ∈ st.tokens →
    ∃ b' ∈ st.lent, b'.config = b.config

/-- The entry is as long as the maximum, if it is one of the auxiliary queue. -/
def OfMaximum (p : InputPort) (b : SBuffer) : Prop :=
  ∀ aux ∈ p.auxQueue, b.config.token = aux.token →
    b.config.length = p.maximumBytes

theorem ofExtent_ofMaximum (p : InputPort) :
    InputPort.OfExtent (OfMaximum p) := by
  intro b b' hconfig _ h
  rw [OfMaximum, hconfig]
  exact h

section Step

variable {st st' : InputRun} {ev : InputEvent}

/-- The entries of the port's own are as long as the maximum. -/
theorem Kept.ofMaximum (h : st.Kept) :
    ∀ b ∈ st.port.queue.items, OfMaximum st.port b := by
  intro b hb aux haux htoken
  obtain ⟨b', hb', hconfig⟩ := h.queue b hb (htoken ▸ (h.aux aux haux).1)
  rw [← hconfig] at htoken ⊢
  exact (h.lent b' hb').2 aux haux htoken

/-- The auxiliary buffers, with a new one when there is none. -/
theorem Kept.auxAvailable (h : st.Kept) (fresh : Allocation)
    {aux : SimpleBufferQueue} (haux : aux ∈ st.port.auxQueue) :
    ∀ a ∈ (InputPort.auxAvailable fresh st.port.maximumBytes aux).buffers,
      a.config.token = aux.token ∧ a.config.length = st.port.maximumBytes := by
  unfold InputPort.auxAvailable
  split
  · intro a ha
    rcases List.mem_append.mp ha with ha | ha
    · exact (h.aux aux haux).2 a ha
    · rw [List.mem_singleton.mp ha]
      exact ⟨rfl, rfl⟩
  · exact (h.aux aux haux).2

/-- A step that leaves the auxiliary queue with the same token and the port with
the same maximum. -/
theorem Kept.after (h : st.Kept) {p : InputPort} {m : Memory}
    (hsame : InputPort.SameConfig st.port p)
    (haux : ∀ aux ∈ p.auxQueue, ∃ aux₀ ∈ st.port.auxQueue,
      aux.token = aux₀.token ∧
      ∀ a ∈ aux.buffers, a.config.token = aux.token ∧
      a.config.length = st.port.maximumBytes)
    (hnone : p.auxQueue = none ↔ st.port.auxQueue = none)
    (hentries : ∀ b ∈ p.queue.items, OfMaximum st.port b) :
    (st.after p m).Kept := by
  refine ⟨?_, ?_, ?_, ?_, ?_⟩
  · exact hsame.maximumBytes ▸ h.maximum
  · show p.itemsSize ≠ 0 ↔ p.auxQueue ≠ none
    rw [hsame.itemsSize, Ne, Ne, hnone]
    exact h.configured
  · intro aux hmem
    obtain ⟨aux₀, hmem₀, htoken, hbuffers⟩ := haux aux hmem
    refine ⟨htoken ▸ (h.aux aux₀ hmem₀).1, fun a ha => ?_⟩
    show _ ∧ _ = p.maximumBytes
    rw [hsame.maximumBytes]
    exact hbuffers a ha
  · intro b hb
    have hlent : b.config.token ∈ st.tokens ∧ OfMaximum st.port b := by
      rcases List.mem_append.mp hb with hb | hb
      · exact h.lent b hb
      · obtain ⟨hb, htoken⟩ := List.mem_filter.mp hb
        exact ⟨of_decide_eq_true htoken, hentries b hb⟩
    refine ⟨hlent.1, fun aux hmem htoken => ?_⟩
    obtain ⟨aux₀, hmem₀, htoken₀, -⟩ := haux aux hmem
    show _ = p.maximumBytes
    rw [hsame.maximumBytes]
    exact hlent.2 aux₀ hmem₀ (htoken.trans htoken₀)
  · intro b hb htoken
    refine ⟨b, List.mem_append_right _ (List.mem_filter.mpr ⟨hb, ?_⟩), rfl⟩
    exact decide_eq_true htoken

/-- The port before the preload is looked at: the auxiliary queue has the new
maximum. -/
theorem Kept.reconfigured (h : st.Kept) {now : Int}
    {fresh : InputPort.AuxAllocations}
    {itemSize preloadBytes reserveBytes maximumBytes : Nat}
    (hitem : itemSize ≠ 0)
    (hok : st.Allowed (.configure now fresh itemSize preloadBytes reserveBytes maximumBytes)) :
    Kept { st with
      tokens := fresh.token :: st.tokens
      port := st.port.reconfigured fresh itemSize reserveBytes maximumBytes } := by
  obtain ⟨hnew, hentries⟩ := hok
  -- the queue is the new one, or the old one, whose front has the new maximum
  have haux : ∀ aux ∈
        (st.port.reconfigured fresh itemSize reserveBytes
          maximumBytes).auxQueue,
      aux.token = fresh.token ∧ aux.buffers = (fresh.queue
          (st.port.configuredMaximum reserveBytes maximumBytes)).buffers ∨
        aux ∈ st.port.auxQueue ∧
          st.port.configuredMaximum reserveBytes maximumBytes =
            st.port.maximumBytes := by
    rintro _ ⟨⟩
    rcases st.port.configuredAux_cases fresh
      (st.port.configuredMaximum reserveBytes maximumBytes) with heq | ⟨aux,
        buff, buffers, haux, hbuffers, hlength, heq⟩
    · rw [heq]
      exact .inl ⟨rfl, rfl⟩
    · rw [heq]
      refine .inr ⟨haux, ?_⟩
      have hbuff : buff ∈ aux.buffers := hbuffers ▸ List.mem_cons_self
      exact hlength.symm.trans ((h.aux aux haux).2 buff hbuff).2
  refine ⟨?_, ?_, ?_, ?_, ?_⟩
  · have hmaximum := h.maximum
    show 0 < max (if maximumBytes = 0 then st.port.maximumBytes
        else maximumBytes) reserveBytes
    split <;> omega
  · exact ⟨fun _ => Option.some_ne_none _, fun _ => hitem⟩
  · intro aux hmem
    rcases haux aux hmem with ⟨htoken, hbuffers⟩ | ⟨hold, hmaximum⟩
    · refine ⟨htoken ▸ List.mem_cons_self, fun a ha => ?_⟩
      rw [hbuffers, InputPort.AuxAllocations.queue_buffers] at ha
      rw [htoken]
      simp only [List.mem_cons, List.not_mem_nil, or_false] at ha
      rcases ha with rfl | rfl | rfl
      · exact ⟨rfl, rfl⟩
      · exact ⟨rfl, rfl⟩
      · exact ⟨rfl, rfl⟩
    · refine ⟨List.mem_cons_of_mem _ (h.aux aux hold).1, fun a ha => ?_⟩
      show _ ∧ _ = st.port.configuredMaximum reserveBytes maximumBytes
      rw [hmaximum]
      exact (h.aux aux hold).2 a ha
  · intro b hb
    obtain ⟨hknown, hlength⟩ := h.lent b hb
    refine ⟨List.mem_cons_of_mem _ hknown, fun aux hmem htoken => ?_⟩
    rcases haux aux hmem with ⟨hfresh, -⟩ | ⟨hold, hmaximum⟩
    · exact absurd ((htoken.trans hfresh) ▸ hknown) hnew
    · show _ = st.port.configuredMaximum reserveBytes maximumBytes
      rw [hmaximum]
      exact hlength aux hold htoken
  · intro b hb htoken
    rcases List.mem_cons.mp htoken with htoken | htoken
    · exact absurd htoken (hentries b hb)
    · exact h.queue b hb htoken

/-- What arrives, or is enqueued as preload, is as long as the maximum if it is
one of the auxiliary queue. -/
theorem Kept.push (h : st.Kept) {p' : InputPort} {m : Memory} {now : Int}
    {buffer : SBuffer} (hbuffer : OfMaximum st.port buffer)
    (hpush : st.port.push now buffer = .ok p') : (st.after p' m).Kept := by
  obtain ⟨haux, hsame, -⟩ := InputPort.push_cases hpush
  apply h.after hsame
  · intro aux hmem
    rw [haux] at hmem
    exact ⟨aux, hmem, rfl, (h.aux aux hmem).2⟩
  · rw [haux]
  · have hconfig : ∀ b b' : SBuffer, b'.config = b.config →
        OfMaximum st.port b →
        OfMaximum st.port b' := by
      intro b b' hconfig hb
      rw [OfMaximum, hconfig]
      exact hb
    refine InputPort.push_entries (ofExtent_ofMaximum st.port) h.ofMaximum
      (fun _ => hbuffer)
      (fun _ => InputPort.stitchFits_of_config hconfig ?_) hpush
    intro b hb
    rcases List.mem_append.mp hb with hb | hb
    · exact h.ofMaximum b hb
    · rw [List.mem_singleton.mp hb]
      exact hbuffer

theorem Kept.consume (h : st.Kept) {p' : InputPort} {m : Memory} {now : Int}
    {items : Nat} (hconsume : st.port.consume now items = .ok p') :
    (st.after p' m).Kept := by
  obtain ⟨haux, hsame, -⟩ := InputPort.consume_cases hconsume
  apply h.after hsame
  · intro aux hmem
    rw [haux] at hmem
    exact ⟨aux, hmem, rfl, (h.aux aux hmem).2⟩
  · rw [haux]
  · exact InputPort.consume_entries
      (ofExtent_ofMaximum st.port) h.ofMaximum hconsume

theorem Kept.accumulate (h : st.Kept) {fresh : Allocation} {p' : InputPort}
    {m' : Memory} (hacc : st.port.accumulate fresh st.memory = .ok (p', m')) :
    (st.after p' m').Kept := by
  have hentries : ∀ b ∈ p'.queue.items, OfMaximum st.port b := by
    refine InputPort.accumulate_entries
      (ofExtent_ofMaximum st.port) h.ofMaximum ?_ hacc
    intro aux haux buff hbuff bytes _ aux' haux' _
    exact (h.auxAvailable fresh haux buff hbuff).2
  obtain ⟨rfl, -⟩ | ⟨aux, buff, buffers, -, haux, hbuff, haux', hsame, -⟩ :=
    InputPort.accumulate_cases hacc
  · exact h.after ⟨rfl, rfl, rfl, rfl⟩
      (fun aux hmem => ⟨aux, hmem, rfl, (h.aux aux hmem).2⟩)
      Iff.rfl hentries
  · apply h.after hsame _ _ hentries
    · intro aux₁ hmem
      rw [haux'] at hmem
      cases hmem
      have hnew := h.auxAvailable fresh haux
      rw [hbuff] at hnew
      have htoken :
          (InputPort.auxAvailable fresh st.port.maximumBytes aux).token =
            aux.token := by
        unfold InputPort.auxAvailable
        split <;> rfl
      refine ⟨aux, haux, htoken, fun a ha => ?_⟩
      show a.config.token =
          (InputPort.auxAvailable fresh st.port.maximumBytes aux).token ∧ _
      rw [htoken]
      exact hnew a (List.mem_cons_of_mem _ ha)
    · rw [haux', haux]
      exact iff_of_false (Option.some_ne_none _) (Option.some_ne_none _)

/-- A port whose queue and auxiliary queue are as before. -/
theorem Kept.same (h : st.Kept) {p : InputPort} {m : Memory}
    (hsame : InputPort.SameConfig st.port p)
    (haux : p.auxQueue = st.port.auxQueue)
    (hq : ∀ b ∈ p.queue.items, b ∈ st.port.queue.items) :
    (st.after p m).Kept := by
  apply h.after hsame
  · intro aux hmem
    rw [haux] at hmem
    exact ⟨aux, hmem, rfl, (h.aux aux hmem).2⟩
  · rw [haux]
  · exact fun b hb => h.ofMaximum b (hq b hb)

/-- An auxiliary buffer leaves its queue. -/
theorem Kept.popped (h : st.Kept) {aux : SimpleBufferQueue} {buff : SBuffer}
    {buffers : List SBuffer} (haux : st.port.auxQueue = some aux)
    (hbuff : aux.buffers = buff :: buffers) :
    Kept { st with
      port := { st.port with auxQueue := some { aux with buffers } } } := by
  have hold := h.aux aux haux
  rw [hbuff] at hold
  refine ⟨h.maximum, ?_, ?_, fun b hb => ?_, h.queue⟩
  · have hsome : st.port.auxQueue ≠ none := by
      rw [haux]
      exact Option.some_ne_none _
    exact iff_of_true (h.configured.mpr hsome) (Option.some_ne_none _)
  · rintro _ ⟨⟩
    exact ⟨hold.1, fun a ha => hold.2 a (List.mem_cons_of_mem _ ha)⟩
  · obtain ⟨hknown, hlength⟩ := h.lent b hb
    refine ⟨hknown, ?_⟩
    rintro _ ⟨⟩ htoken
    exact hlength aux haux htoken

theorem Kept.configure (h : st.Kept) {now : Int}
    {fresh : InputPort.AuxAllocations}
    {itemSize preloadBytes reserveBytes maximumBytes : Nat} {p' : InputPort}
    {m m' : Memory}
    (hok : st.Allowed
      (.configure now fresh itemSize preloadBytes reserveBytes maximumBytes))
    (hconfig : st.port.updateConfig now fresh itemSize preloadBytes reserveBytes
      maximumBytes m
      = .ok (p', m')) :
    ({ st with tokens := fresh.token :: st.tokens }.after p' m').Kept := by
  obtain ⟨hitem, p₁, hpre, rfl⟩ := InputPort.updateConfig_cases hconfig
  have hkept := h.reconfigured hitem hok
  suffices hk : (InputRun.after { st with
      tokens := fresh.token :: st.tokens
      port := st.port.reconfigured fresh itemSize reserveBytes maximumBytes } p₁
        m').Kept from
    ⟨hk.maximum, hk.configured, hk.aux, hk.lent, hk.queue⟩
  cases hpre with
  | @more _ aux buff buffers hlt haux hbuff hpush =>
      refine (hkept.popped haux hbuff).push (fun _ _ _ => ?_) hpush
      exact ((hkept.aux aux haux).2 buff (hbuff ▸ List.mem_cons_self)).2
  | less hlt hconsume => exact hkept.consume hconsume
  | same heq => exact hkept.same ⟨rfl, rfl, rfl, rfl⟩ rfl fun _ hb => hb

/-- What was lent comes back to the queue it is from. -/
theorem Kept.recycle (h : st.Kept) {buffer : SBuffer}
    (hok : st.Allowed (.recycle buffer)) :
    Kept { st with port := { st.port with
      auxQueue := st.port.auxQueue.map fun aux =>
        if buffer.config.token = aux.token then aux.pushBack buffer
          else aux } } := by
  obtain ⟨b, hb, rfl⟩ := List.mem_map.mp hok
  obtain ⟨hknown, hlength⟩ := h.lent b hb
  -- the queue keeps its token
  have haux : ∀ aux ∈ st.port.auxQueue.map (fun aux =>
      if b.reset.config.token = aux.token then aux.pushBack b.reset else aux),
      ∃ aux₀ ∈ st.port.auxQueue, aux.token = aux₀.token ∧
        ∀ a ∈ aux.buffers, a ∈ aux₀.buffers ∨ a = b.reset ∧
        b.config.token = aux₀.token := by
    intro aux hmem
    obtain ⟨aux₀, hmem₀, rfl⟩ := Option.map_eq_some_iff.mp hmem
    refine ⟨aux₀, hmem₀, ?_⟩
    by_cases htoken : b.reset.config.token = aux₀.token
    · rw [if_pos htoken]
      refine ⟨rfl, fun a ha => ?_⟩
      rcases List.mem_append.mp ha with ha | ha
      · exact .inl ha
      · exact .inr ⟨List.mem_singleton.mp ha, htoken⟩
    · rw [if_neg htoken]
      exact ⟨rfl, fun a ha => .inl ha⟩
  refine ⟨h.maximum, ?_, ?_, ?_, h.queue⟩
  · show st.port.itemsSize ≠ 0 ↔ Option.map _ st.port.auxQueue ≠ none
    rw [Ne, Ne, Option.map_eq_none_iff]
    exact h.configured
  · intro aux hmem
    obtain ⟨aux₀, hmem₀, htoken, hbuffers⟩ := haux aux hmem
    rw [htoken]
    refine ⟨(h.aux aux₀ hmem₀).1, fun a ha => ?_⟩
    rcases hbuffers a ha with ha | ⟨rfl, hb₀⟩
    · exact (h.aux aux₀ hmem₀).2 a ha
    · exact ⟨hb₀, hlength aux₀ hmem₀ hb₀⟩
  · intro b' hb'
    refine ⟨(h.lent b' hb').1, fun aux hmem htoken => ?_⟩
    obtain ⟨aux₀, hmem₀, htoken₀, -⟩ := haux aux hmem
    exact (h.lent b' hb').2 aux₀ hmem₀ (htoken.trans htoken₀)

/-- **One step.** -/
theorem Kept.step (h : st.Kept) (hok : st.Allowed ev)
    (hnext : st.next ev = .ok st') : st'.Kept := by
  cases outcome hnext with
  | configured hconfig => exact h.configure hok hconfig
  | pushed hpush =>
      refine h.push ?_ hpush
      intro aux haux htoken
      obtain ⟨-, b, hb, hconfig⟩ := hok (htoken ▸ (h.aux aux haux).1)
      rw [← hconfig] at htoken ⊢
      exact (h.lent b hb).2 aux haux htoken
  | consumed hconsume => exact h.consume hconsume
  | accumulated hacc => exact h.accumulate hacc
  | idle hsame haux hitems _ => exact h.same hsame haux fun b hb => hitems ▸ hb
  | flushed hsame haux hitems _ =>
      refine h.same hsame haux fun b hb => ?_
      rw [hitems] at hb
      cases hb
  | recycled => exact h.recycle hok

end Step

theorem kept_of_reachable {st : InputRun} (h : allowedSystem.Reachable st) :
    st.Kept := by
  refine h.invariant (P := Kept) ?_ ?_
  · rintro st ⟨⟨initTime, now, hport⟩, htokens, hlent⟩
    refine ⟨?_, ?_, ?_, ?_, ?_⟩
    · rw [hport]
      exact Nat.two_pow_pos 16
    · rw [hport]
      exact iff_of_false (fun h => h rfl) (fun h => h rfl)
    · rw [hport]
      intro aux hmem
      cases hmem
    · rw [hlent]
      intro b hb
      cases hb
    · rw [hport]
      intro b hb
      cases hb
  · intro st ev st' _ hkept hstep
    exact hkept.step hstep.1 hstep.2

/-- A step leaves the configuration alone, or makes the maximum as large as the
reserve. -/
theorem next_config {st st' : InputRun} {ev : InputEvent}
    (h : st.next ev = .ok st') :
    InputPort.SameConfig st.port st'.port ∨
      st'.port.itemsSize ≠ 0 ∧ st'.port.reserveBytes ≤
        st'.port.maximumBytes := by
  cases outcome h with
  | @configured _ fresh itemSize _ reserveBytes maximumBytes _ _ hconfig =>
      obtain ⟨hitem, p₁, hpre, rfl⟩ := InputPort.updateConfig_cases hconfig
      have hp₁ : InputPort.SameConfig
          (st.port.reconfigured fresh itemSize reserveBytes
            maximumBytes) p₁ := by
        cases hpre with
        | more _ _ _ hpush =>
            obtain ⟨-, hsame, -⟩ := InputPort.push_cases hpush
            exact ⟨hsame.itemsSize, hsame.reserveBytes, hsame.maximumBytes,
              hsame.preloadBytes⟩
        | less _ hconsume =>
            obtain ⟨-, hsame, -⟩ := InputPort.consume_cases hconsume
            exact hsame
        | same _ => exact ⟨rfl, rfl, rfl, rfl⟩
      refine .inr ⟨?_, ?_⟩
      · exact hp₁.itemsSize ▸ hitem
      · show reserveBytes ≤ p₁.maximumBytes
        rw [hp₁.maximumBytes]
        exact Nat.le_max_right _ _
  | pushed hpush =>
      obtain ⟨-, hsame, -⟩ := InputPort.push_cases hpush
      exact .inl hsame
  | consumed hconsume =>
      obtain ⟨-, hsame, -⟩ := InputPort.consume_cases hconsume
      exact .inl hsame
  | accumulated hacc =>
      obtain ⟨rfl, -⟩ | ⟨-, -, -, -, -, -, -, hsame, -⟩ :=
        InputPort.accumulate_cases hacc
      · exact .inl ⟨rfl, rfl, rfl, rfl⟩
      · exact .inl hsame
  | idle hsame _ _ _ => exact .inl hsame
  | flushed hsame _ _ _ => exact .inl hsame
  | recycled => exact .inl ⟨rfl, rfl, rfl, rfl⟩

/-- The reserve fits the maximum. -/
theorem reserve_le_maximum {st : InputRun} (h : system.Reachable st) :
    st.port.reserveBytes ≤ st.port.maximumBytes := by
  refine h.invariant
    (P := fun st => st.port.reserveBytes ≤ st.port.maximumBytes) ?_ ?_
  · rintro st ⟨⟨initTime, now, hport⟩, -⟩
    rw [hport]
    exact Nat.two_pow_pos 16
  · intro st ev st' _ hle hstep
    rcases next_config hstep with hsame | ⟨-, hle'⟩
    · rw [hsame.reserveBytes, hsame.maximumBytes]
      exact hle
    · exact hle'

/-- **A configured port has auxiliary buffers as long as its maximum.** -/
theorem sized_of_reachable {st : InputRun} (h : allowedSystem.Reachable st)
    (hitem : st.port.itemsSize ≠ 0) : st.port.Sized := by
  have hkept := kept_of_reachable h
  obtain ⟨aux, haux⟩ :=
    Option.ne_none_iff_exists'.mp (hkept.configured.mp hitem)
  exact {
    itemsSize := Nat.pos_of_ne_zero hitem
    maximum := hkept.maximum
    reserve := reserve_le_maximum h.of_restrict
    aux := ⟨aux, haux, fun b hb => ((hkept.aux aux haux).2 b hb).2⟩ }

/-! ## Preload -/

/-- An entry of the port's own ends inside its memory. -/
def Inside (tokens : List Nat) (b : SBuffer) : Prop :=
  b.config.token ∈ tokens → b.extent ≤ b.config.length

theorem ofExtent_inside (tokens : List Nat) :
    InputPort.OfExtent (Inside tokens) := by
  intro b b' hconfig hextent h
  rw [Inside, hconfig, hextent]
  exact h

/-- More preload is at most the maximum more. -/
def GrowthFits (st : InputRun) : InputEvent → Prop
  | .configure _ _ _ preloadBytes reserveBytes maximumBytes =>
      preloadBytes - st.port.preloadBytes ≤
        st.port.configuredMaximum reserveBytes maximumBytes
  | _ => True

/-- Nothing is stitched to an auxiliary buffer beyond its end. -/
def StitchesInside (st : InputRun) (ev : InputEvent) : Prop :=
  ∀ buffer ∈ st.pushed ev, 0 < buffer.length →
    InputPort.StitchFits (Inside st.tokens) (st.port.queue.items ++ [buffer])

/-- The runs in which the preload grows by no more than the maximum at a
time. -/
def fittingSystem : TransitionSystem InputRun InputEvent :=
  system.restrict fun st ev => st.Allowed ev ∧ st.GrowthFits ev ∧
    st.StitchesInside ev

section Fitting

variable {st st' : InputRun} {ev : InputEvent}

theorem stitchFits_imp {F G : SBuffer → Prop} {q : List SBuffer}
    {buffer : SBuffer}
    (himp : ∀ b ∈ q, ∀ b', b'.config = b.config → F b' → G b')
    (h : InputPort.StitchFits F (q ++ [buffer])) :
    InputPort.StitchFits G (q ++ [buffer]) := by
  induction q with
  | nil => exact ⟨fun hjoin => hjoin.elim, trivial⟩
  | cons b rest ih =>
      obtain ⟨hjoin, hrest⟩ := h
      constructor
      · intro hj
        exact himp b List.mem_cons_self _ rfl (hjoin hj)
      · exact ih (fun b' hb' => himp b' (List.mem_cons_of_mem _ hb')) hrest

/-- The entries of the port's own are the same ones under the tokens after the
step. -/
theorem tokens_step (hok : st.Allowed ev) (h : st.next ev = .ok st') :
    ∀ b ∈ st.port.queue.items, b.config.token ∈ st'.tokens →
      b.config.token ∈ st.tokens := by
  intro b hb htoken
  cases outcome h with
  | configured _ =>
      rcases List.mem_cons.mp htoken with htoken | htoken
      · exact absurd htoken (hok.2 b hb)
      · exact htoken
  | _ => exact htoken

/-- More preload is an auxiliary buffer of the new maximum. -/
theorem mem_pushed_configure {now : Int} {fresh : InputPort.AuxAllocations}
    {itemSize preloadBytes reserveBytes maximumBytes : Nat} {buffer : SBuffer}
    (h : buffer ∈ st.pushed
      (.configure now fresh itemSize preloadBytes reserveBytes maximumBytes)) :
    st.port.preloadBytes < preloadBytes ∧ ∃ buff : SBuffer,
      buff.config.length = st.port.configuredMaximum reserveBytes maximumBytes ∧
      buffer = InputPort.preloaded
        (preloadBytes - st.port.preloadBytes) buff := by
  unfold pushed at h
  dsimp only at h
  split at h
  · rename_i hlt
    obtain ⟨buff, hhead, rfl⟩ := Option.map_eq_some_iff.mp h
    obtain ⟨buff', buffers, hbuff, hlength⟩ := st.port.configuredAux_cons fresh
      (st.port.configuredMaximum reserveBytes maximumBytes)
    rw [hbuff] at hhead
    cases hhead
    exact ⟨hlt, buff, hlength, rfl⟩
  · cases h

/-- **One step** leaves the port's own entries inside their memory. -/
theorem inside_step (hok : st.Allowed ev) (hgrow : st.GrowthFits ev)
    (hstitch : st.StitchesInside ev)
    (hq : ∀ b ∈ st.port.queue.items, Inside st.tokens b)
    (h : st.next ev = .ok st') :
    ∀ b ∈ st'.port.queue.items, Inside st'.tokens b := by
  have hold : ∀ b ∈ st.port.queue.items, ∀ b', b'.config = b.config →
      Inside st.tokens b' →
      Inside st'.tokens b' := by
    intro b hb b' hconfig hinside htoken
    apply hinside
    rw [hconfig] at htoken ⊢
    exact tokens_step hok h b hb htoken
  refine entries_rule (ofExtent_inside _)
    (fun b hb => hold b hb b rfl (hq b hb)) ?_ ?_ h
  · intro buffer hmem hlen
    refine ⟨?_, stitchFits_imp hold (hstitch buffer hmem hlen)⟩
    cases ev with
    | push now b =>
        cases hmem
        simp only [next, Checked.bind_eq_ok, Checked.pure_eq_ok] at h
        obtain ⟨p, -, rfl⟩ := h
        exact fun htoken => (hok htoken).1
    | configure now fresh itemSize preloadBytes reserveBytes maximumBytes =>
        obtain ⟨-, buff, hlength, rfl⟩ := mem_pushed_configure hmem
        intro _
        show 0 + (preloadBytes - st.port.preloadBytes) ≤ buff.config.length
        rw [Nat.zero_add, hlength]
        exact hgrow
    | _ => cases hmem
  · intro fresh aux _ buff _ bytes hbytes _
    show 0 + bytes ≤ buff.config.length
    rw [Nat.zero_add]
    exact hbytes

theorem inside_of_reachable (h : fittingSystem.Reachable st) :
    ∀ b ∈ st.port.queue.items, Inside st.tokens b := by
  refine h.invariant (P := fun st => ∀ b ∈ st.port.queue.items,
    Inside st.tokens b) ?_ ?_
  · rintro st ⟨⟨initTime, now, hport⟩, -⟩
    rw [hport]
    intro b hb
    cases hb
  · intro st ev st' _ hinside hstep
    obtain ⟨⟨hok, hgrow, hstitch⟩, hnext⟩ := hstep
    exact inside_step hok hgrow hstitch hinside hnext

end Fitting

/-- Ports of single bytes with that preload and the maximum they start with. -/
def preloadRun (preloadBytes : Nat) : List InputEvent :=
  [.configure 0 (InputPort.flatAux maxAuxBuffBytes) 1 preloadBytes 1 0]

instance (tokens : List Nat) (b : SBuffer) : Decidable (Inside tokens b) :=
  inferInstanceAs (Decidable (_ → _))

instance (tokens : List Nat) :
    ∀ q, Decidable (InputPort.StitchFits (Inside tokens) q)
  | [] => inferInstanceAs (Decidable True)
  | _ :: rest =>
      have := instDecidableStitchFitsInside tokens rest
      inferInstanceAs (Decidable ((_ → _) ∧ _))

instance (st : InputRun) : ∀ ev, Decidable (st.Allowed ev)
  | .configure _ _ _ _ _ _ => inferInstanceAs (Decidable (_ ∧ ∀ _ ∈ _, _))
  | .push _ _ => inferInstanceAs (Decidable (_ → _ ∧ ∃ _ ∈ _, _))
  | .recycle _ => inferInstanceAs (Decidable (_ ∈ _))
  | .consume _ _ => inferInstanceAs (Decidable True)
  | .accumulate _ => inferInstanceAs (Decidable True)
  | .front _ => inferInstanceAs (Decidable True)
  | .hasMsg _ _ => inferInstanceAs (Decidable True)
  | .fail _ => inferInstanceAs (Decidable True)
  | .flush _ => inferInstanceAs (Decidable True)

instance (st : InputRun) : ∀ ev, Decidable (st.GrowthFits ev)
  | .configure _ _ _ _ _ _ => inferInstanceAs (Decidable (_ ≤ _))
  | .push _ _ => inferInstanceAs (Decidable True)
  | .recycle _ => inferInstanceAs (Decidable True)
  | .consume _ _ => inferInstanceAs (Decidable True)
  | .accumulate _ => inferInstanceAs (Decidable True)
  | .front _ => inferInstanceAs (Decidable True)
  | .hasMsg _ _ => inferInstanceAs (Decidable True)
  | .fail _ => inferInstanceAs (Decidable True)
  | .flush _ => inferInstanceAs (Decidable True)

instance (st : InputRun) (ev : InputEvent) : Decidable (st.StitchesInside ev) :=
  inferInstanceAs (Decidable (∀ buffer ∈ st.pushed ev, _ → _))

end InputRun

/-- **The preload stays inside its buffer** in every run in which it grows by no
more than the maximum at a time: a growing preload finds an auxiliary buffer
that is long enough, and every entry of the port's own ends inside its
memory. -/
theorem preload_inside {st : InputRun}
    (h : InputRun.fittingSystem.Reachable st) :
    (∀ b ∈ st.port.queue.items, b.config.token ∈ st.tokens →
      b.extent ≤ b.config.length) ∧
      ∀ now fresh itemSize preloadBytes reserveBytes maximumBytes st',
        InputRun.fittingSystem.step st
          (.configure now fresh itemSize preloadBytes reserveBytes
            maximumBytes) st' →
        st.port.preloadBytes < preloadBytes →
        ∃ buff buffers, (st.port.configuredAux fresh
            (st.port.configuredMaximum reserveBytes maximumBytes)).buffers =
              buff :: buffers ∧
          preloadBytes - st.port.preloadBytes ≤ buff.getActualLength := by
  refine ⟨InputRun.inside_of_reachable h, ?_⟩
  intro now fresh itemSize preloadBytes reserveBytes maximumBytes st' hstep _
  obtain ⟨buff, buffers, hbuff, hlength⟩ := st.port.configuredAux_cons fresh
    (st.port.configuredMaximum reserveBytes maximumBytes)
  refine ⟨buff, buffers, hbuff, ?_⟩
  show _ ≤ buff.config.length
  rw [hlength]
  exact hstep.1.2.1

/-- As much preload as the maximum, all in one auxiliary buffer. -/
theorem preload_inside_whole :
    ∃ st, InputRun.fittingSystem.Reachable st ∧
      st.port.preloadBytes = maxAuxBuffBytes ∧
      (∀ b ∈ st.port.queue.items, b.config.token ∈ st.tokens →
        b.extent ≤ b.config.length) := by
  have hrun : (TransitionSystem.runRestricted
      (fun st ev => st.Allowed ev ∧ st.GrowthFits ev ∧ st.StitchesInside ev)
      InputRun.next
      (InputRun.preloadRun maxAuxBuffBytes) InputRun.start).map
        (fun st => st.port.preloadBytes)
      = some maxAuxBuffBytes := by decide
  obtain ⟨st, hst, hpreload⟩ := Option.map_eq_some_iff.mp hrun
  have hreached : InputRun.fittingSystem.Reachable st :=
    TransitionSystem.Reachable.of_restricted_events _
      (.init InputRun.start_resized) hst
  exact ⟨st, hreached, hpreload, (preload_inside hreached).1⟩

/-- **The preload overruns its buffer** of 65536 bytes when it is 100000 bytes
and nothing else is set. -/
theorem preload_overruns :
    ∃ st, InputRun.allowedSystem.Reachable st ∧ ∃ b ∈ st.port.queue.items,
      b.config.token ∈ st.tokens ∧ b.config.length < b.extent := by
  have hrun : (TransitionSystem.runRestricted InputRun.Allowed InputRun.next
      (InputRun.preloadRun 100000) InputRun.start).map
        (fun st => (st.port.queue.items.map fun b =>
          (b.config.length, b.extent),
          st.port.queue.items.all fun b => b.config.token ∈ st.tokens))
      = some ([(65536, 100000)], true) := by decide
  obtain ⟨st, hst, hseen⟩ := Option.map_eq_some_iff.mp hrun
  rw [Prod.mk.injEq] at hseen
  obtain ⟨hlengths, hown⟩ := hseen
  obtain ⟨b, hb, hb'⟩ : ∃ b ∈ st.port.queue.items,
      (b.config.length, b.extent) = (65536, 100000) :=
    List.mem_map.mp (by rw [hlengths]; exact List.mem_singleton_self _)
  rw [Prod.mk.injEq] at hb'
  refine ⟨st, TransitionSystem.Reachable.of_restricted_events _
    (.init InputRun.start_resized) hst, b, hb, ?_, ?_⟩
  · exact of_decide_eq_true (List.all_eq_true.mp hown b hb)
  · rw [hb'.1, hb'.2]
    decide

end Gras
