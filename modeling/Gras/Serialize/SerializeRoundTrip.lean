import Gras.Serialize.SerializeTypes

/-!
# Loading what was saved

* `bytes_saved`, `sbuffer_saved`, `object_saved`: loading consumes the fields
  that saving wrote and nothing else, whatever comes behind them.
* `Heap.Keeps`: what is loaded later does not touch the buffers that are there,
  which is where the allocator's promise is used.
* `load_save`: the round trip.
-/

namespace Gras

variable {phys : Nat → Nat}

/-! ### The heap -/

/-- The blocks in use are still in use, with the same bytes. -/
structure Heap.Keeps (h h' : Heap phys) : Prop where
  live : ∀ s ∈ h.live, s ∈ h'.live
  read : ∀ s ∈ h.live, ∀ k < s.2, h'.memory.read (s.1 + k) =
    h.memory.read (s.1 + k)

theorem Heap.Keeps.refl (h : Heap phys) : h.Keeps h :=
  ⟨fun _ hs => hs, fun _ _ _ _ => rfl⟩

theorem Heap.Keeps.trans {h h' h'' : Heap phys} (hk : h.Keeps h')
    (hk' : h'.Keeps h'') : h.Keeps h'' where
  live s hs := hk'.live s (hk.live s hs)
  read s hs k hlt :=
    (hk'.read s (hk.live s hs) k hlt).trans (hk.read s hs k hlt)

/-- A new block with these bytes. -/
def Heap.filled (A : Allocator phys) (bs : List Byte) (h : Heap phys) :
    Heap phys where
  cell := (h.memory.writeRange (A.place h.live bs.length) bs).cell
  live := (A.place h.live bs.length, bs.length) :: h.live

theorem Heap.filled_memory (A : Allocator phys) (bs : List Byte)
    (h : Heap phys) :
    (h.filled A bs).memory =
      h.memory.writeRange (A.place h.live bs.length) bs := by
  have hphys := h.memory.phys_writeRange (A.place h.live bs.length) bs
  exact congrArg (fun p => (⟨p, (h.filled A bs).cell⟩ : Memory)) hphys.symm

/-- Filling a new block touches no other. -/
theorem Heap.keeps_filled (A : Allocator phys) (bs : List Byte)
    (h : Heap phys) : h.Keeps (h.filled A bs) := by
  refine ⟨fun s hs => List.mem_cons_of_mem _ hs, fun s hs k hk => ?_⟩
  rw [Heap.filled_memory]
  apply ByteMemory.read_writeRange_of_ne
  intro j hj
  exact A.apart h.live bs.length s hs k hk j hj

/-- A buffer that was loaded: it starts at its block and is as long. -/
def Loaded (h : Heap phys) (b : Handle) : Prop :=
  ∀ s ∈ b, s.offset = 0 ∧ (s.config.memory, s.length) ∈ h.live

theorem Loaded.mono {h h' : Heap phys} (hk : h.Keeps h') {b : Handle}
    (hb : Loaded h b) : Loaded h' b := by
  intro s hs
  exact ⟨(hb s hs).1, hk.live _ (hb s hs).2⟩

/-- What was loaded keeps its bytes. -/
theorem Loaded.contents_eq {h h' : Heap phys} (hk : h.Keeps h') {b : Handle}
    (hb : Loaded h b) : b.contents h'.memory = b.contents h.memory := by
  cases b with
  | none => rfl
  | some s =>
      obtain ⟨hoffset, hlive⟩ := hb s rfl
      apply congrArg some
      apply ByteMemory.readRange_congr
      intro k hk'
      have hget : s.get 0 = s.config.memory := by
        rw [SBuffer.get, hoffset]
        rfl
      rw [hget]
      exact hk.read _ hlive k hk'

namespace Loader

variable (A : Allocator phys) (m : Memory)

/-! ### One field after the other -/

theorem bind_apply {α β : Type} (x : Loader phys α) (f : α → Loader phys β)
    (ar : Archive phys) : (x >>= f) ar = (x ar).bind fun r => f r.1 r.2 := rfl

/-- The loop over the bytes reads exactly so many. -/
theorem bytes_saved (bs : List Byte) (address : Nat) (rest : List Field)
    (h : Heap phys) :
    bytes bs.length address ⟨bs.map .byte ++ rest, h⟩
      = some ((), ⟨rest,
        { h with cell := (h.memory.writeRange address bs).cell }⟩) := by
  induction bs generalizing address h with
  | nil => rfl
  | cons c bs ih =>
      rw [List.length_cons, bytes, bind_apply]
      show bytes bs.length (address + 1) ⟨bs.map .byte ++ rest, _⟩ = _
      rw [ih]
      rfl

/-- A buffer is loaded into a new block, a null one into nothing. -/
theorem sbuffer_saved (b : Handle) (rest : List Field) (h : Heap phys) :
    ∃ b' h', sbuffer A ⟨saveSBuffer m b ++ rest, h⟩ = some (b', ⟨rest, h'⟩) ∧
      h.Keeps h' ∧ Loaded h' b' ∧ b'.contents h'.memory = b.contents m := by
  cases b with
  | none => exact ⟨none, h, rfl, .refl h, (fun s hs => by cases hs), rfl⟩
  | some b =>
      -- the length that is saved is that of the bytes
      have hsave : saveSBuffer m (some b) =
          .bool false :: .size (b.bytes m).length :: (b.bytes m).map .byte := by
        rw [saveSBuffer, SBuffer.bytes_length]
      rw [hsave]
      show ∃ (b' : Handle) (h' : Heap phys), _ ∧ _ ∧ _ ∧
        b'.contents h'.memory = some (b.bytes m)
      generalize b.bytes m = bs
      have hload :
          sbuffer A ⟨.bool false :: .size bs.length ::
            bs.map .byte ++ rest, h⟩ =
          some (some ⟨h.live.length,
            { memory := A.place h.live bs.length, length := bs.length },
            0, bs.length, 0⟩, ⟨rest, h.filled A bs⟩) := by
        let h₀ : Heap phys :=
          { h with live := (A.place h.live bs.length, bs.length) :: h.live }
        have hbytes := bytes_saved bs (A.place h.live bs.length) rest h₀
        show ((bytes bs.length (A.place h.live bs.length)
            ⟨bs.map .byte ++ rest, h₀⟩).bind
          fun r => some (some _, r.2)) = _
        rw [hbytes]
        rfl
      refine ⟨_, _, hload, h.keeps_filled A bs, fun s hs => ?_,
        congrArg some ?_⟩
      · cases hs
        exact ⟨rfl, List.mem_cons_self⟩
      · show (h.filled A bs).memory.readRange
            (A.place h.live bs.length) bs.length = bs
        rw [Heap.filled_memory]
        apply ByteMemory.readRange_eq_of_getElem
        exact h.memory.read_writeRange (A.injective h.live bs.length)

/-- What loading makes of a saved object. -/
structure Restored (o : Object Handle) (h : Heap phys) (o' : Object Handle)
    (h' : Heap phys) : Prop where
  keeps : h.Keeps h'
  loaded : ∀ b ∈ o'.buffers, Loaded h' b
  same : o'.map (·.contents h'.memory) = o.map (·.contents m)

variable {A m}

/-- What is loaded afterwards does not matter. -/
theorem Restored.later {o o' : Object Handle} {h h' h'' : Heap phys}
    (hr : Restored m o h o' h') (hk : h'.Keeps h'') :
    Restored m o h o' h'' where
  keeps := hr.keeps.trans hk
  loaded b hb := (hr.loaded b hb).mono hk
  same := (Object.map_congr fun b hb =>
    (hr.loaded b hb).contents_eq hk).trans hr.same

variable (A m)

/-- After the null flag and the name, the value is loaded. -/
theorem object_named (t : TypeName) (fields rest : List Field) (depth : Nat)
    (h : Heap phys) :
    object A (depth + 1) ⟨saveName t fields ++ rest, h⟩
      = value A (object A depth) t ⟨fields ++ rest, h⟩ := by
  have hname : typeName ⟨.name t.exported :: (fields ++ rest), h⟩
      = some (t, ⟨fields ++ rest, h⟩) := by
    cases t <;> rfl
  show ((typeName ⟨.name t.exported :: (fields ++ rest), h⟩).bind fun r =>
    value A (object A depth) r.1 r.2) = _
  rw [hname]
  rfl

/-- **A saved object is restored**, by induction on the object. -/
theorem object_saved (o : Object Handle) {depth : Nat}
    (hdepth : o.depth ≤ depth) (rest : List Field) (h : Heap phys) :
    ∃ o' h', object A depth ⟨saveObject m o ++ rest, h⟩ =
        some (o', ⟨rest, h'⟩) ∧
      Restored m o h o' h' := by
  obtain ⟨d, rfl⟩ : ∃ d, depth = d + 1 :=
    Nat.exists_eq_add_one_of_ne_zero (by have := o.depth_pos; omega)
  induction o generalizing d rest h with
  | null => exact ⟨.null, h, rfl, .refl h, (fun b hb => by cases hb), rfl⟩
  | sbuffer b =>
      obtain ⟨b', h', hload, hkeeps, hloaded, hsame⟩ :=
        sbuffer_saved A m b rest h
      refine ⟨.sbuffer b', h', ?_, hkeeps, fun b₁ hb₁ => ?_,
        congrArg Object.sbuffer hsame⟩
      · rw [saveObject, object_named, value, bind_apply, hload]
        rfl
      · rw [List.mem_singleton.mp hb₁]
        exact hloaded
  | tag offset o ih =>
      rw [Object.depth] at hdepth
      obtain ⟨d, rfl⟩ : ∃ e, d = e + 1 :=
        Nat.exists_eq_add_one_of_ne_zero (by have := o.depth_pos; omega)
      obtain ⟨o', h', hload, hr⟩ := ih rest h d (by omega)
      refine ⟨.tag offset o', h', ?_, hr.keeps, hr.loaded, ?_⟩
      · rw [saveObject, object_named, value, bind_apply]
        show ((object A (d + 1) ⟨saveObject m o ++ rest, h⟩).bind fun r =>
          some (Object.tag offset r.1, r.2)) = _
        rw [hload]
        rfl
      · exact congrArg (Object.tag offset) hr.same
  | streamTag key val src ihk ihv ihs =>
      rw [Object.depth] at hdepth
      obtain ⟨d, rfl⟩ : ∃ e, d = e + 1 :=
        Nat.exists_eq_add_one_of_ne_zero (by have := key.depth_pos; omega)
      obtain ⟨key', h₁, hload₁, hr₁⟩ :=
        ihk (saveObject m val ++ (saveObject m src ++ rest)) h d (by omega)
      obtain ⟨val', h₂, hload₂, hr₂⟩ :=
        ihv (saveObject m src ++ rest) h₁ d (by omega)
      obtain ⟨src', h₃, hload₃, hr₃⟩ := ihs rest h₂ d (by omega)
      -- the later loads leave the earlier objects alone
      have hk₁ := hr₁.later (hr₂.keeps.trans hr₃.keeps)
      have hk₂ := hr₂.later hr₃.keeps
      refine ⟨.streamTag key' val' src', h₃, ?_, hk₁.keeps, ?_, ?_⟩
      · rw [saveObject, object_named, List.append_assoc, List.append_assoc,
          value, bind_apply, hload₁]
        show ((object A (d + 1)
            ⟨saveObject m val ++ (saveObject m src ++ rest), h₁⟩).bind
          fun r => (object A (d + 1) r.2).bind fun r' =>
            some (Object.streamTag key' r.1 r'.1, r'.2)) = _
        rw [hload₂]
        show ((object A (d + 1) ⟨saveObject m src ++ rest, h₂⟩).bind fun r' =>
            some (Object.streamTag key' val' r'.1, r'.2)) = _
        rw [hload₃]
        rfl
      · intro b hb
        simp only [Object.buffers, List.mem_append] at hb
        rcases hb with (hb | hb) | hb
        · exact hk₁.loaded b hb
        · exact hk₂.loaded b hb
        · exact hr₃.loaded b hb
      · rw [Object.map, Object.map, hk₁.same, hk₂.same, hr₃.same]
  | packetMsg info buff ih =>
      rw [Object.depth] at hdepth
      obtain ⟨d, rfl⟩ : ∃ e, d = e + 1 :=
        Nat.exists_eq_add_one_of_ne_zero (by have := info.depth_pos; omega)
      obtain ⟨info', h₁, hload₁, hr₁⟩ :=
        ih (saveSBuffer m buff ++ rest) h d (by omega)
      obtain ⟨buff', h₂, hload₂, hkeeps₂, hloaded₂, hsame₂⟩ :=
        sbuffer_saved A m buff rest h₁
      have hk₁ := hr₁.later hkeeps₂
      refine ⟨.packetMsg info' buff', h₂, ?_, hk₁.keeps, ?_, ?_⟩
      · rw [saveObject, object_named, List.append_assoc, value,
          bind_apply, hload₁]
        show ((sbuffer A ⟨saveSBuffer m buff ++ rest, h₁⟩).bind fun r =>
          some (Object.packetMsg info' r.1, r.2)) = _
        rw [hload₂]
        rfl
      · intro b hb
        simp only [Object.buffers, List.mem_append, List.mem_singleton] at hb
        rcases hb with hb | rfl
        · exact hk₁.loaded b hb
        · exact hloaded₂
      · rw [Object.map, Object.map, hk₁.same, hsame₂]
  | timeTag fsecs ticks =>
      refine ⟨.timeTag fsecs ticks, h, ?_, .refl h,
        (fun b hb => by cases hb), rfl⟩
      rw [saveObject, object_named]
      rfl

/-- A level of nesting takes a field at least. -/
theorem depth_le_length (o : Object Handle) :
    o.depth ≤ (saveObject m o).length := by
  induction o with
  | null => exact Nat.le_refl 1
  | sbuffer b => simp [Object.depth, saveObject, saveName]
  | tag offset o ih =>
      simp only [Object.depth, saveObject, saveName, List.length_cons]
      omega
  | streamTag key val src ihk ihv ihs =>
      simp only [Object.depth, saveObject, saveName, List.length_cons,
        List.length_append]
      omega
  | packetMsg info buff ih =>
      simp only [Object.depth, saveObject, saveName, List.length_cons,
        List.length_append]
      omega
  | timeTag fsecs ticks => simp [Object.depth, saveObject, saveName]

end Loader

/-- **Serialization round-trips.**  Loading what was saved consumes these fields
and no others; it yields the same structure, with null buffers for null ones and
otherwise buffers of the same bytes from their start on; and it leaves what was
loaded before alone. -/
theorem load_save (A : Allocator phys) (m : Memory) (o : Object Handle)
    (rest : List Field) (h : Heap phys) :
    ∃ o' h', Loader.load A ⟨saveObject m o ++ rest, h⟩ = some (o', ⟨rest, h'⟩) ∧
      h.Keeps h' ∧
      o'.map (·.contents h'.memory) = o.map (·.contents m) ∧
      ∀ b ∈ o'.buffers, ∀ s ∈ b, s.offset = 0 := by
  have hdepth : o.depth ≤ (saveObject m o ++ rest).length := by
    rw [List.length_append]
    exact Nat.le_add_right_of_le (Loader.depth_le_length m o)
  obtain ⟨o', h', hload, hr⟩ := Loader.object_saved A m o hdepth rest h
  exact ⟨o', h', hload, hr.keeps, hr.same,
    fun b hb s hs => (hr.loaded b hb s hs).1⟩

/-- A packet of three bytes, inside a tag. -/
example :
    let m : Memory := ⟨id, UInt8.ofNat⟩
    let packet : Object Handle :=
      .tag 5 (.packetMsg .null
        (some ⟨0, { memory := 40, length := 8 }, 2, 3, 0⟩))
    (Loader.load .behind
      ⟨saveObject m packet ++ [Field.size 9], ⟨fun _ => 0, [(1, 6)]⟩⟩).map
        (fun r => (r.1.map (·.contents r.2.heap.memory), r.2.fields))
      = some (.tag 5 (.packetMsg .null (some [42, 43, 44])), [.size 9]) := by
  decide

end Gras
