import Mathlib.Data.List.Basic
import Mathlib.Logic.Function.Basic
import Gras.Lib.TransitionSystem
import Gras.Buffers.SBuffer

/-!
# Releasing a buffer

`intrusive_ptr_add_ref` and `intrusive_ptr_release` of `sbuffer.cpp`, for one
`SBufferImpl` that any number of threads hold references to.

A release that lets go of the last reference takes a reference of its own for
the callback of the token, or for the deleter, and lets go of that one in turn:
`intrusive_ptr_release` calls itself.  Where a thread stands is the stack of its
activations, innermost first.

* `Phase`: the count is that of the references, and at most one thread is in
  charge of a count that has reached zero.
* What is freed is freed once, after the token has expired, with no reference
  held, and then deleted once.
* A release ends as long as a callback leaves a reference behind.  Otherwise the
  token, which the release itself has locked, is called again, and again.
-/

namespace Gras

/-- Where an activation of `intrusive_ptr_release` stands. -/
inductive ReleaseFrame where
  /-- `--impl->count` gave zero. -/
  | reachedZero
  /-- In the callback of the token: `token_deleter` is locked, and `buff` is a
  reference. -/
  | inToken
  /-- Past the deleter, which was reset: `buff` is a reference. -/
  | inDeleter
  /-- About to return; `token_deleter` may still be locked. -/
  | leaving (locked : Bool)
  deriving DecidableEq, Repr

/-- The activation holds the token. -/
def ReleaseFrame.locked : ReleaseFrame → Bool
  | inToken => true
  | leaving locked => locked
  | _ => false

/-- An `SBufferImpl` among the threads that refer to it. -/
structure ImplLife where
  /-- `impl->count`. -/
  count : Nat
  /-- The references outside of `intrusive_ptr_release`. -/
  held : Nat
  /-- The references to the token outside of `intrusive_ptr_release`. -/
  owners : Nat
  /-- Is there a `config.deleter`? -/
  deleter : Bool
  /-- How often the deleter was invoked. -/
  freed : Nat
  /-- How often the impl was deleted. -/
  deleted : Nat
  numThreads : Nat
  /-- The activations of a thread, innermost first. -/
  stack : Nat → List ReleaseFrame

/-- What a thread does. -/
inductive LifeEvent where
  /-- A reference is copied. -/
  | addRef
  /-- A thread lets go of a reference. -/
  | release (t : Nat)
  /-- An owner of the token copies it or lets go of it. -/
  | copyToken
  | dropToken
  /-- The callback copies the reference that it is handed. -/
  | handOut (t : Nat)
  /-- The innermost activation of a thread goes on. -/
  | step (t : Nat)
  deriving DecidableEq, Repr

namespace ImplLife

/-- `token.lock()` succeeds. -/
def tokenLive (s : ImplLife) : Bool :=
  decide (0 < s.owners) || (List.range s.numThreads).any fun t =>
    (s.stack t).any (·.locked)

/-- The activations of a thread are these from now on. -/
def setStack (t : Nat) (frames : List ReleaseFrame) (s : ImplLife) : ImplLife :=
  { s with stack := Function.update s.stack t frames }

/-- `if (--impl->count) return;` above those activations. -/
def decrement (t : Nat) (below : List ReleaseFrame) (s : ImplLife) : ImplLife :=
  { s with count := s.count - 1 }.setStack t
    (if s.count = 1 then .reachedZero :: below else below)

/-- The impl is still there. -/
def access (s : ImplLife) : Checked Unit :=
  if s.deleted = 0 then return () else throw (.nullPointer "impl")

/-- One event.  From a count of zero to the reference that `buff.reset(impl)`
takes, no other thread has access to the impl, so that this much is one step. -/
def next (s : ImplLife) : LifeEvent → Checked ImplLife
  | .addRef => do
      s.access
      return { s with count := s.count + 1, held := s.held + 1 }
  | .release t => do
      s.access
      return { s with held := s.held - 1 }.decrement t (s.stack t)
  | .copyToken => return { s with owners := s.owners + 1 }
  | .dropToken => return { s with owners := s.owners - 1 }
  | .handOut _ => do
      s.access
      return { s with count := s.count + 1, held := s.held + 1 }
  | .step t =>
      match s.stack t with
      | [] => return s
      | .reachedZero :: rest => do
          s.access
          if s.tokenLive then
            return { s with count := s.count + 1 }.setStack t (.inToken :: rest)
          else if s.deleter then
            return { s with
              count := s.count + 1
              freed := s.freed + 1
              deleter := false }.setStack t (.inDeleter :: rest)
          else return { s with deleted := s.deleted + 1 }.setStack t rest
      | .inToken :: rest => do
          s.access
          return s.decrement t (.leaving true :: rest)
      | .inDeleter :: rest => do
          s.access
          return s.decrement t (.leaving false :: rest)
      | .leaving _ :: rest => return s.setStack t rest

/-- A thread lets go of a reference outside of a release, or in the callback of
the token; only who has a reference copies it or lets go of it. -/
def Allowed (s : ImplLife) : LifeEvent → Prop
  | .addRef => 0 < s.held
  | .release t => 0 < s.held ∧ t < s.numThreads ∧
      (s.stack t = [] ∨ (s.stack t).head? = some .inToken)
  | .copyToken => 0 < s.owners
  | .dropToken => 0 < s.owners
  | .handOut t => t < s.numThreads ∧ (s.stack t).head? = some .inToken
  | .step t => t < s.numThreads ∧ s.stack t ≠ []

/-- A buffer that was just made, with its first reference. -/
def Fresh (s : ImplLife) : Prop :=
  s.count = 1 ∧ s.held = 1 ∧ s.deleter = true ∧ s.freed = 0 ∧ s.deleted = 0 ∧
    ∀ t, s.stack t = []

/-- The life of an impl. -/
def system : TransitionSystem ImplLife LifeEvent :=
  (TransitionSystem.ofNext Fresh next).restrict Allowed

/-! ## The phases of a life -/

/-- The thread is returning from its releases, or is in none. -/
def Leaving (s : ImplLife) (t : Nat) : Prop :=
  ∀ f ∈ s.stack t, ∃ locked, f = .leaving locked

/-- Nothing has happened to the memory. -/
def Intact (s : ImplLife) : Prop := s.deleter = true ∧ s.freed = 0

/-- The memory is freed, and the token has expired. -/
def Freed (s : ImplLife) : Prop :=
  s.deleter = false ∧ s.freed = 1 ∧ s.tokenLive = false

/-- What the innermost activation of the thread in charge knows. -/
def InCharge (s : ImplLife) : ReleaseFrame → Prop
  | .reachedZero => s.count = 0 ∧ s.held = 0 ∧ (s.Intact ∨ s.Freed)
  | .inToken => s.count = s.held + 1 ∧ s.Intact
  | .inDeleter => s.count = 1 ∧ s.held = 0 ∧ s.Freed
  | .leaving _ => False

/-- **The invariant**: references are held, one thread is in charge, or the impl
is gone. -/
inductive Phase (s : ImplLife) : Prop where
  | shared (hleaving : ∀ u, s.Leaving u) (hcount : s.count = s.held)
    (hheld : 0 < s.held)
      (hintact : s.Intact) (hthere : s.deleted = 0)
  | charged {t : Nat} {f : ReleaseFrame} {rest : List ReleaseFrame}
    (ht : t < s.numThreads)
      (hstack : s.stack t = f :: rest)
      (hrest : ∀ g ∈ rest, ∃ locked, g = .leaving locked)
      (hleaving : ∀ u, u ≠ t → s.Leaving u) (hcharge : s.InCharge f)
        (hthere : s.deleted = 0)
  | gone (hleaving : ∀ u, s.Leaving u) (hheld : s.held = 0) (hfreed : s.Freed)
      (hdeleted : s.deleted = 1)

variable {s s' : ImplLife} {t u : Nat} {f : ReleaseFrame}
  {rest : List ReleaseFrame}

theorem tokenLive_eq_false : s.tokenLive = false ↔
    s.owners = 0 ∧ ∀ t < s.numThreads, ∀ f ∈ s.stack t, f.locked = false := by
  simp [tokenLive]

theorem access_eq_ok : s.access = .ok () ↔ s.deleted = 0 := by
  unfold access
  split <;> simp_all

@[simp] theorem setStack_stack_self (t : Nat) (frames : List ReleaseFrame)
    (s : ImplLife) :
    (s.setStack t frames).stack t = frames := Function.update_self ..

theorem setStack_stack_of_ne (h : u ≠ t) (frames : List ReleaseFrame)
    (s : ImplLife) :
    (s.setStack t frames).stack u = s.stack u := Function.update_of_ne h ..

/-- The rest of the state. -/
@[simp] theorem setStack_rest (t : Nat) (frames : List ReleaseFrame)
    (s : ImplLife) :
    (s.setStack t frames).count = s.count ∧
      (s.setStack t frames).held = s.held ∧
      (s.setStack t frames).owners = s.owners ∧
      (s.setStack t frames).deleter = s.deleter ∧
      (s.setStack t frames).freed = s.freed ∧
      (s.setStack t frames).deleted = s.deleted ∧
      (s.setStack t frames).numThreads = s.numThreads :=
  ⟨rfl, rfl, rfl, rfl, rfl, rfl, rfl⟩

/-- The token stays expired while nobody locks it. -/
theorem Freed.of_frames (hs : s.Freed) (hdeleter : s'.deleter = s.deleter)
    (hfreed : s'.freed = s.freed) (howners : s'.owners = s.owners)
    (hnum : s'.numThreads = s.numThreads)
    (hframes : ∀ u, ∀ g ∈ s'.stack u, g ∈ s.stack u ∨ g.locked = false) :
    s'.Freed := by
  obtain ⟨hnone, hone, hlive⟩ := hs
  obtain ⟨howners₀, hunlocked⟩ := tokenLive_eq_false.mp hlive
  refine ⟨hdeleter.trans hnone, hfreed.trans hone,
    tokenLive_eq_false.mpr ⟨howners.trans howners₀,
    fun u hu g hg => ?_⟩⟩
  rcases hframes u g hg with hg | hg
  · exact hunlocked u (hnum ▸ hu) g hg
  · exact hg

/-- A frame less. -/
theorem mem_of_pop (hstack : s.stack t = f :: rest) :
    ∀ u, ∀ g ∈ (s.setStack t rest).stack u, g ∈ s.stack u := by
  intro u g hg
  by_cases hut : u = t
  · subst hut
    rw [setStack_stack_self] at hg
    rw [hstack]
    exact List.mem_cons_of_mem _ hg
  · rwa [setStack_stack_of_ne hut] at hg

theorem Freed.pop (hs : s.Freed) (hstack : s.stack t = f :: rest) :
    (s.setStack t rest).Freed :=
  hs.of_frames rfl rfl rfl rfl fun u g hg => .inl (mem_of_pop hstack u g hg)

theorem Leaving.pop (hs : s.Leaving u) (hstack : s.stack t = f :: rest) :
    (s.setStack t rest).Leaving u := fun g hg => hs g (mem_of_pop hstack u g hg)

/-- Every other thread is returning, and this one is too. -/
theorem leaving_setStack {frames : List ReleaseFrame}
    (hframes : ∀ g ∈ frames, ∃ locked, g = .leaving locked)
    (hothers : ∀ u, u ≠ t → s.Leaving u) (u : Nat) :
    (s.setStack t frames).Leaving u := by
  intro g hg
  by_cases hut : u = t
  · subst hut
    rw [setStack_stack_self] at hg
    exact hframes g hg
  · rw [setStack_stack_of_ne hut] at hg
    exact hothers u hut g hg

theorem leaving_cons (locked : Bool)
    (hrest : ∀ g ∈ rest, ∃ locked, g = ReleaseFrame.leaving locked) :
    ∀ g ∈ ReleaseFrame.leaving locked :: rest, ∃ locked,
      g = ReleaseFrame.leaving locked := by
  intro g hg
  rcases List.mem_cons.mp hg with rfl | hg
  · exact ⟨locked, rfl⟩
  · exact hrest g hg

/-- A thread that is in a callback or deciding is the one in charge. -/
theorem Phase.inCharge (hs : s.Phase) (hstack : s.stack t = f :: rest)
    (hf : ∀ locked, f ≠ .leaving locked) :
    (∀ g ∈ rest, ∃ locked, g = .leaving locked) ∧ (∀ u, u ≠ t → s.Leaving u) ∧
      s.InCharge f ∧
      s.deleted = 0 := by
  have hnot : ¬ s.Leaving t := fun hleaving => by
    obtain ⟨locked, rfl⟩ := hleaving f (hstack ▸ List.mem_cons_self)
    exact hf locked rfl
  cases hs with
  | shared hleaving => exact absurd (hleaving t) hnot
  | gone hleaving => exact absurd (hleaving t) hnot
  | @charged t₀ f₀ rest₀ ht hstack₀ hrest hleaving hcharge hthere =>
      by_cases heq : t = t₀
      · subst heq
        rw [hstack₀, List.cons.injEq] at hstack
        obtain ⟨rfl, rfl⟩ := hstack
        exact ⟨hrest, hleaving, hcharge, hthere⟩
      · exact absurd (hleaving t heq) hnot

/-- **A thread returns.** -/
theorem Phase.pop {locked : Bool} (hs : s.Phase)
    (hstack : s.stack t = .leaving locked :: rest) :
    (s.setStack t rest).Phase := by
  cases hs with
  | shared hleaving hcount hheld hintact hthere =>
      exact .shared (fun u => (hleaving u).pop hstack) hcount hheld
        hintact hthere
  | gone hleaving hheld hfreed hdeleted =>
      exact .gone (fun u => (hleaving u).pop hstack) hheld
        (hfreed.pop hstack) hdeleted
  | @charged t₀ f₀ rest₀ ht hstack₀ hrest hleaving hcharge hthere =>
      have hne : t₀ ≠ t := by
        rintro rfl
        rw [hstack₀, List.cons.injEq] at hstack
        rw [hstack.1] at hcharge
        exact hcharge
      refine .charged ht ((setStack_stack_of_ne hne _ _).trans hstack₀) hrest
        (fun u hu => (hleaving u hu).pop hstack) ?_ hthere
      cases f₀ with
      | reachedZero =>
          obtain ⟨hcount, hheld, hmemory⟩ := hcharge
          exact ⟨hcount, hheld, hmemory.imp_right fun hfreed =>
            hfreed.pop hstack⟩
      | inToken => exact hcharge
      | inDeleter =>
          obtain ⟨hcount, hheld, hfreed⟩ := hcharge
          exact ⟨hcount, hheld, hfreed.pop hstack⟩
      | leaving _ => exact hcharge

/-- The token callback is left, with or without another reference. -/
theorem Phase.leaveToken (hs : s.Phase) (ht : t < s.numThreads)
    (hstack : s.stack t = .inToken :: rest) :
    (s.decrement t (.leaving true :: rest)).Phase := by
  obtain ⟨hrest, hothers, ⟨hcount, hintact⟩, hthere⟩ :=
    hs.inCharge hstack (by simp)
  unfold decrement
  split
  · refine .charged (f := .reachedZero) ht (setStack_stack_self ..)
      (leaving_cons true hrest) (fun u hu g hg => ?_)
      ⟨?_, ?_, .inl hintact⟩ hthere
    · rw [setStack_stack_of_ne hu] at hg
      exact hothers u hu g hg
    · change s.count - 1 = 0
      omega
    · change s.held = 0
      omega
  · refine .shared (leaving_setStack (leaving_cons true hrest) hothers) ?_ ?_
      hintact hthere
    · change s.count - 1 = s.held
      omega
    · change 0 < s.held
      omega

/-- The deleter is left: its reference was the last. -/
theorem Phase.leaveDeleter (hs : s.Phase) (ht : t < s.numThreads)
    (hstack : s.stack t = .inDeleter :: rest) :
    (s.decrement t (.leaving false :: rest)).Phase := by
  obtain ⟨hrest, hothers, ⟨hcount, hheld, hfreed⟩, hthere⟩ :=
    hs.inCharge hstack (by simp)
  unfold decrement
  rw [if_pos hcount]
  refine .charged (f := .reachedZero) ht (setStack_stack_self ..)
    (leaving_cons false hrest) (fun u hu g hg => ?_) ⟨?_, hheld, .inr ?_⟩ hthere
  · rw [setStack_stack_of_ne hu] at hg
    exact hothers u hu g hg
  · change s.count - 1 = 0
    omega
  · refine hfreed.of_frames rfl rfl rfl rfl fun u g hg => ?_
    by_cases hut : u = t
    · subst hut
      rw [setStack_stack_self] at hg
      rcases List.mem_cons.mp hg with rfl | hg
      · exact .inr rfl
      · rcases List.mem_cons.mp hg with rfl | hg
        · exact .inr rfl
        · exact .inl (hstack ▸ List.mem_cons_of_mem _ hg)
    · rw [setStack_stack_of_ne hut] at hg
      exact .inl hg

/-- What an activation does about a count of zero. -/
theorem step_reachedZero (hstack : s.stack t = .reachedZero :: rest)
    (h : s.next (.step t) = .ok s') :
    (s.tokenLive = true ∧
      s' = { s with count := s.count + 1 }.setStack t (.inToken :: rest)) ∨
      (s.tokenLive = false ∧ s.deleter = true ∧ s' = { s with
        count := s.count + 1
        freed := s.freed + 1
        deleter := false }.setStack t (.inDeleter :: rest)) ∨
      (s.tokenLive = false ∧ s.deleter = false ∧
        s' = { s with deleted := s.deleted + 1 }.setStack t rest) := by
  simp only [next, hstack, Checked.bind_eq_ok] at h
  obtain ⟨-, -, h⟩ := h
  split at h
  · rename_i hlive
    rw [Checked.pure_eq_ok] at h
    exact .inl ⟨hlive, h.symm⟩
  · rename_i hexpired
    replace hexpired : s.tokenLive = false := by simpa using hexpired
    split at h
    · rename_i hdeleter
      rw [Checked.pure_eq_ok] at h
      exact .inr (.inl ⟨hexpired, hdeleter, h.symm⟩)
    · rename_i hdeleter
      rw [Checked.pure_eq_ok] at h
      exact .inr (.inr ⟨hexpired, by simpa using hdeleter, h.symm⟩)

/-- **A count of zero**: the token is called, or the memory is freed, or the
impl deleted. -/
theorem Phase.decide (hs : s.Phase) (ht : t < s.numThreads)
    (hstack : s.stack t = .reachedZero :: rest)
    (h : s.next (.step t) = .ok s') : s'.Phase := by
  obtain ⟨hrest, hothers, ⟨hcount, hheld, hmemory⟩, hthere⟩ :=
    hs.inCharge hstack (by simp)
  have hothers' : ∀ (x : ImplLife) (frames : List ReleaseFrame),
      x.stack = s.stack →
      ∀ u, u ≠ t → (x.setStack t frames).Leaving u := by
    intro x frames hx u hu g hg
    rw [setStack_stack_of_ne hu, hx] at hg
    exact hothers u hu g hg
  rcases step_reachedZero hstack h with
    ⟨hlive, rfl⟩ | ⟨hexpired, hdeleter, rfl⟩ | ⟨hexpired, hdeleter, rfl⟩
  · have hintact : s.Intact := hmemory.resolve_right fun hfreed => by
      rw [hfreed.2.2] at hlive
      cases hlive
    refine .charged (f := .inToken) ht (setStack_stack_self ..) hrest
      (hothers' _ _ rfl)
      ⟨?_, hintact⟩ hthere
    change s.count + 1 = s.held + 1
    omega
  · have hintact : s.Intact := hmemory.resolve_right fun hfreed => by
      rw [hfreed.1] at hdeleter
      cases hdeleter
    refine .charged (f := .inDeleter) ht (setStack_stack_self ..) hrest
      (hothers' _ _ rfl)
      ⟨?_, hheld, ?_⟩ hthere
    · change s.count + 1 = 1
      omega
    · have hfreed : Freed { s with freed := s.freed + 1, deleter := false } :=
        ⟨rfl, congrArg (· + 1) hintact.2, hexpired⟩
      refine hfreed.of_frames rfl rfl rfl rfl fun u g hg => ?_
      by_cases hut : u = t
      · subst hut
        rw [setStack_stack_self] at hg
        rcases List.mem_cons.mp hg with rfl | hg
        · exact .inr rfl
        · refine .inl ?_
          change g ∈ s.stack u
          rw [hstack]
          exact List.mem_cons_of_mem _ hg
      · rw [setStack_stack_of_ne hut] at hg
        exact .inl hg
  · have hfreed : s.Freed := hmemory.resolve_left fun hintact => by
      rw [hintact.1] at hdeleter
      cases hdeleter
    exact .gone (leaving_setStack hrest hothers) hheld (hfreed.pop hstack)
      (congrArg (· + 1) hthere)

/-- A reference is copied by who has one. -/
theorem Phase.copy (hs : s.Phase)
    (hok : 0 < s.held ∨ ∃ t, (s.stack t).head? = some .inToken) :
    Phase { s with count := s.count + 1, held := s.held + 1 } := by
  cases hs with
  | shared hleaving hcount hheld hintact hthere =>
      exact .shared hleaving (congrArg (· + 1) hcount)
        (Nat.succ_pos _) hintact hthere
  | gone hleaving hheld hfreed hdeleted =>
      exfalso
      rcases hok with hok | ⟨t, hhead⟩
      · omega
      · obtain ⟨locked, heq⟩ := hleaving t _ (List.mem_of_head? hhead)
        cases heq
  | @charged t f rest ht hstack hrest hleaving hcharge hthere =>
      cases f with
      | inToken =>
          obtain ⟨hcount, hintact⟩ := hcharge
          exact .charged ht hstack hrest hleaving
            ⟨congrArg (· + 1) hcount, hintact⟩ hthere
      | leaving _ => exact hcharge.elim
      | _ =>
          exfalso
          have hheld := hcharge.2.1
          rcases hok with hok | ⟨u, hhead⟩
          · omega
          · by_cases hut : u = t
            · subst hut
              rw [hstack] at hhead
              cases hhead
            · obtain ⟨locked, heq⟩ := hleaving u hut _ (List.mem_of_head? hhead)
              cases heq

/-- **A reference goes.**  The last one puts its thread in charge. -/
theorem Phase.release (hs : s.Phase) (hok : s.Allowed (.release t)) :
    (decrement t (s.stack t) { s with held := s.held - 1 }).Phase := by
  obtain ⟨hheld, ht, hwhere⟩ := hok
  unfold decrement
  cases hs with
  | shared hleaving hcount _ hintact hthere =>
      have hnone : s.stack t = [] := hwhere.resolve_right fun hhead => by
        obtain ⟨locked, heq⟩ := hleaving t _ (List.mem_of_head? hhead)
        cases heq
      split
      · rename_i hone
        replace hone : s.count = 1 := hone
        refine .charged (f := .reachedZero) ht (setStack_stack_self ..)
          (fun g hg => ?_) (fun u hu g hg => ?_) ⟨?_, ?_, .inl hintact⟩ hthere
        · rw [hnone] at hg
          cases hg
        · rw [setStack_stack_of_ne hu] at hg
          exact hleaving u g hg
        · change s.count - 1 = 0
          omega
        · change s.held - 1 = 0
          omega
      · rename_i hmore
        replace hmore : s.count ≠ 1 := hmore
        refine .shared (leaving_setStack (hleaving t) fun u _ => hleaving u) ?_
          ?_ hintact hthere
        · change s.count - 1 = s.held - 1
          omega
        · change 0 < s.held - 1
          omega
  | gone _ hnone => omega
  | @charged t₀ f rest ht₀ hstack hrest hleaving hcharge hthere =>
      cases f with
      | inToken =>
          obtain ⟨hcount, hintact⟩ := hcharge
          have hmore : ¬ s.count = 1 := by omega
          have hsame : ∀ u, (setStack t (s.stack t) { s with
              count := s.count - 1, held := s.held - 1 }).stack u =
                  s.stack u := by
            intro u
            by_cases hut : u = t
            · subst hut
              rw [setStack_stack_self]
            · rw [setStack_stack_of_ne hut]
          rw [if_neg hmore]
          refine .charged ht₀ ((hsame t₀).trans hstack) hrest
            (fun u hu g hg => ?_)
            ⟨?_, hintact⟩ hthere
          · rw [hsame] at hg
            exact hleaving u hu g hg
          · change s.count - 1 = s.held - 1 + 1
            omega
      | leaving _ => exact hcharge.elim
      | _ =>
          have hnone := hcharge.2.1
          omega

/-- While the token has an owner, the memory is not freed. -/
theorem Phase.owner (hs : s.Phase) (hok : 0 < s.owners) (owners : Nat) :
    Phase { s with owners := owners } := by
  have hnot : ¬ s.Freed := fun hfreed => by
    have hnone := (tokenLive_eq_false.mp hfreed.2.2).1
    omega
  cases hs with
  | shared hleaving hcount hheld hintact hthere =>
      exact .shared hleaving hcount hheld hintact hthere
  | gone _ _ hfreed => exact absurd hfreed hnot
  | @charged t f rest ht hstack hrest hleaving hcharge hthere =>
      refine .charged ht hstack hrest hleaving ?_ hthere
      cases f with
      | reachedZero =>
          obtain ⟨hcount, hheld, hmemory⟩ := hcharge
          exact ⟨hcount, hheld, .inl (hmemory.resolve_right hnot)⟩
      | inDeleter => exact absurd hcharge.2.2 hnot
      | _ => exact hcharge

/-- **One event keeps the invariant.** -/
theorem Phase.next {e : LifeEvent} (hs : s.Phase) (hok : s.Allowed e)
    (h : s.next e = .ok s') : s'.Phase := by
  cases e with
  | addRef =>
      simp only [ImplLife.next, Checked.bind_eq_ok, Checked.pure_eq_ok] at h
      obtain ⟨-, -, rfl⟩ := h
      exact hs.copy (.inl hok)
  | handOut t =>
      simp only [ImplLife.next, Checked.bind_eq_ok, Checked.pure_eq_ok] at h
      obtain ⟨-, -, rfl⟩ := h
      exact hs.copy (.inr ⟨t, hok.2⟩)
  | release t =>
      simp only [ImplLife.next, Checked.bind_eq_ok, Checked.pure_eq_ok] at h
      obtain ⟨-, -, rfl⟩ := h
      exact hs.release hok
  | copyToken =>
      rw [ImplLife.next, Checked.pure_eq_ok] at h
      exact h ▸ hs.owner hok _
  | dropToken =>
      rw [ImplLife.next, Checked.pure_eq_ok] at h
      exact h ▸ hs.owner hok _
  | step t =>
      cases hstack : s.stack t with
      | nil => exact absurd hstack hok.2
      | cons f rest =>
          cases f with
          | reachedZero => exact hs.decide hok.1 hstack h
          | inToken =>
              simp only [ImplLife.next, hstack, Checked.bind_eq_ok,
                Checked.pure_eq_ok] at h
              obtain ⟨-, -, rfl⟩ := h
              exact hs.leaveToken hok.1 hstack
          | inDeleter =>
              simp only [ImplLife.next, hstack, Checked.bind_eq_ok,
                Checked.pure_eq_ok] at h
              obtain ⟨-, -, rfl⟩ := h
              exact hs.leaveDeleter hok.1 hstack
          | leaving locked =>
              simp only [ImplLife.next, hstack, Checked.pure_eq_ok] at h
              exact h ▸ hs.pop hstack

theorem phase_of_reachable (h : system.Reachable s) : s.Phase := by
  refine h.invariant (fun s hinit => ?_) fun s e s' _ hs hstep =>
    hs.next hstep.1 hstep.2
  obtain ⟨hcount, hheld, hdeleter, hfreed, hdeleted, hstack⟩ := hinit
  refine .shared (fun u g hg => ?_) (hcount.trans hheld.symm) (by omega)
    ⟨hdeleter, hfreed⟩ hdeleted
  rw [hstack] at hg
  cases hg

/-! ## Freed once, deleted once -/

/-- What is freed is freed once, when the token has expired and no reference is
held, and then deleted once; when nobody refers to it any more, both have
happened. -/
structure Once (s : ImplLife) : Prop where
  freed_le : s.freed ≤ 1
  deleted_le : s.deleted ≤ s.freed
  expired : 0 < s.freed → s.tokenLive = false
  unheld : 0 < s.freed → s.held = 0
  settled : (∀ t, s.stack t = []) → s.held = 0 → s.freed = 1 ∧ s.deleted = 1

theorem Phase.once (hs : s.Phase) : s.Once := by
  cases hs with
  | shared hleaving hcount hheld hintact hthere =>
      have hfreed := hintact.2
      exact ⟨by omega, by omega, by omega, by omega, by omega⟩
  | gone hleaving hheld hfreed hdeleted =>
      have hone := hfreed.2.1
      exact ⟨by omega, by omega, fun _ => hfreed.2.2, fun _ => hheld, fun _ _ => ⟨hone, hdeleted⟩⟩
  | @charged t f rest ht hstack hrest hleaving hcharge hthere =>
      have hbusy : ¬ ∀ u, s.stack u = [] := fun hall => by
        rw [hall] at hstack
        cases hstack
      have hmemory : s.freed = 0 ∨ s.Freed ∧ s.held = 0 := by
        cases f with
        | reachedZero =>
            exact hcharge.2.2.imp And.right fun hfreed => ⟨hfreed, hcharge.2.1⟩
        | inToken => exact .inl hcharge.2.2
        | inDeleter => exact .inr ⟨hcharge.2.2, hcharge.2.1⟩
        | leaving _ => exact hcharge.elim
      rcases hmemory with hnone | ⟨hfreed, hheld⟩
      · exact ⟨by omega, by omega, by omega, by omega, fun hall => absurd hall hbusy⟩
      · have hone := hfreed.2.1
        exact ⟨by omega, by omega, fun _ => hfreed.2.2, fun _ => hheld,
          fun hall => absurd hall hbusy⟩

/-! ## A release ends -/

/-- The release that a thread is in returns, whatever the other threads do
meanwhile. -/
def Returns (T : TransitionSystem ImplLife LifeEvent) (t : Nat)
    (s : ImplLife) : Prop :=
  T.Ends (fun e => e = .step t) (fun s => ∃ s', system.step s (.step t) s')
    (fun s => s.stack t = []) s

/-- When a callback of the token returns, a reference is held besides its
own. -/
def Keeps (s : ImplLife) : LifeEvent → Prop
  | .step t => (s.stack t).head? = some .inToken → 1 < s.count
  | _ => True

/-- The lives in which every callback leaves a reference behind. -/
def keeping : TransitionSystem ImplLife LifeEvent := system.restrict Keeps

theorem numThreads_next {e : LifeEvent} (h : s.next e = .ok s') :
    s'.numThreads = s.numThreads := by
  cases e with
  | step t =>
      cases hstack : s.stack t with
      | nil =>
          simp only [next, hstack, Checked.pure_eq_ok] at h
          rw [h]
      | cons f rest =>
          cases f with
          | reachedZero =>
              rcases step_reachedZero hstack h with ⟨-, rfl⟩ | ⟨-, -, rfl⟩ |
                ⟨-, -, rfl⟩ <;> rfl
          | leaving locked =>
              simp only [next, hstack, Checked.pure_eq_ok] at h
              subst h
              rfl
          | _ =>
              simp only [next, hstack, Checked.bind_eq_ok,
                Checked.pure_eq_ok] at h
              obtain ⟨-, -, rfl⟩ := h
              rfl
  | copyToken =>
      rw [next, Checked.pure_eq_ok] at h
      rw [← h]
  | dropToken =>
      rw [next, Checked.pure_eq_ok] at h
      rw [← h]
  | _ =>
      simp only [next, Checked.bind_eq_ok, Checked.pure_eq_ok] at h
      obtain ⟨-, -, rfl⟩ := h
      rfl

/-- How many steps an activation takes at most: the deleter is called once. -/
def weight (deleter : Bool) : ReleaseFrame → Nat
  | .reachedZero => if deleter then 6 else 3
  | .inToken => 2
  | .inDeleter => 5
  | .leaving _ => 1

/-- How many steps a thread takes at most until it has returned. -/
def remaining (t : Nat) (s : ImplLife) : Nat :=
  ((s.stack t).map (weight s.deleter)).sum

theorem weight_false_le (d : Bool) (frames : List ReleaseFrame) :
    (frames.map (weight false)).sum ≤ (frames.map (weight d)).sum := by
  induction frames with
  | nil => exact Nat.le_refl _
  | cons f frames ih =>
      have hf : weight false f ≤ weight d f := by
        cases f <;> cases d <;> simp [weight]
      simp only [List.map_cons, List.sum_cons]
      omega

/-- What does not change the activations of a thread, and at most resets the
deleter. -/
theorem remaining_le (hstack : s'.stack t = s.stack t)
    (hdeleter : s'.deleter = s.deleter ∨ s'.deleter = false) :
    s'.remaining t ≤ s.remaining t := by
  unfold remaining
  rw [hstack]
  rcases hdeleter with hsame | hnone
  · exact Nat.le_of_eq (by rw [hsame])
  · rw [hnone]
    exact weight_false_le _ _

/-- **A step of its own** brings a thread closer to its return. -/
theorem Phase.step_lt (hs : s.Phase) (hok : s.Allowed (.step t))
    (hkeeps : s.Keeps (.step t)) (h : s.next (.step t) = .ok s') :
    s'.remaining t < s.remaining t := by
  cases hstack : s.stack t with
  | nil => exact absurd hstack hok.2
  | cons f rest =>
      have hremaining : s.remaining t =
          weight s.deleter f + (rest.map (weight s.deleter)).sum := by
        rw [remaining, hstack, List.map_cons, List.sum_cons]
      have hset : ∀ (x : ImplLife) (frames : List ReleaseFrame),
          (x.setStack t frames).remaining t =
            (frames.map (weight x.deleter)).sum := by
        intro x frames
        rw [remaining, setStack_stack_self]
        rfl
      rw [hremaining]
      cases f with
      | reachedZero =>
          rcases step_reachedZero hstack h with ⟨-, rfl⟩ | ⟨-, hdeleter, rfl⟩ |
            ⟨-, hdeleter, rfl⟩
          · rw [hset, List.map_cons, List.sum_cons]
            cases s.deleter <;> simp [weight]
          · have hle := weight_false_le s.deleter rest
            rw [hset, List.map_cons, List.sum_cons, hdeleter] at *
            simp only [weight, if_true]
            omega
          · rw [hset, hdeleter]
            simp [weight]
      | inToken =>
          have hmore : 1 < s.count := hkeeps (by rw [hstack]; rfl)
          simp only [ImplLife.next, hstack, Checked.bind_eq_ok,
            Checked.pure_eq_ok] at h
          obtain ⟨-, -, rfl⟩ := h
          rw [decrement, if_neg (by omega), hset, List.map_cons, List.sum_cons]
          simp [weight]
      | inDeleter =>
          obtain ⟨-, -, ⟨hcount, -, hfreed⟩, -⟩ := hs.inCharge hstack (by simp)
          simp only [ImplLife.next, hstack, Checked.bind_eq_ok,
            Checked.pure_eq_ok] at h
          obtain ⟨-, -, rfl⟩ := h
          rw [decrement, if_pos hcount, hset]
          simp only [List.map_cons, List.sum_cons, hfreed.1, weight]
          simp
          omega
      | leaving locked =>
          simp only [ImplLife.next, hstack, Checked.pure_eq_ok] at h
          subst h
          rw [hset]
          simp [weight]

/-- Another event leaves the activations of a thread alone that is in a
release. -/
theorem Phase.other_le {e : LifeEvent} (hs : s.Phase) (hok : s.Allowed e)
    (he : e ≠ .step t) (hbusy : s.stack t ≠ []) (h : s.next e = .ok s') :
    s'.stack t = s.stack t ∧ s'.remaining t ≤ s.remaining t := by
  have hsame : s'.stack t = s.stack t →
      (s'.deleter = s.deleter ∨ s'.deleter = false) →
      s'.stack t = s.stack t ∧ s'.remaining t ≤ s.remaining t :=
    fun hstack hdeleter => ⟨hstack, remaining_le hstack hdeleter⟩
  cases e with
  | release u =>
      simp only [ImplLife.next, Checked.bind_eq_ok, Checked.pure_eq_ok] at h
      obtain ⟨-, -, rfl⟩ := h
      refine hsame ?_ (.inl rfl)
      unfold decrement
      by_cases hut : u = t
      · -- In its callback the thread has a reference left.
        subst hut
        have hhead := hok.2.2.resolve_left hbusy
        cases hstack : s.stack u with
        | nil => exact absurd hstack hbusy
        | cons f rest =>
            rw [hstack, List.head?_cons, Option.some.injEq] at hhead
            subst hhead
            obtain ⟨-, -, ⟨hcount, -⟩, -⟩ := hs.inCharge hstack (by simp)
            have hheld := hok.1
            have hmore : ¬ s.count = 1 := by omega
            rw [if_neg hmore, setStack_stack_self]
      · exact setStack_stack_of_ne (fun h => hut h.symm) _ _
  | step u =>
      have hut : t ≠ u := fun h => he (by rw [h])
      cases hstack : s.stack u with
      | nil => exact absurd hstack hok.2
      | cons f rest =>
          cases f with
          | reachedZero =>
              rcases step_reachedZero hstack h with ⟨-, rfl⟩ |
                ⟨-, -, rfl⟩ | ⟨-, -, rfl⟩
              · exact hsame (setStack_stack_of_ne hut _ _) (.inl rfl)
              · exact hsame (setStack_stack_of_ne hut _ _) (.inr rfl)
              · exact hsame (setStack_stack_of_ne hut _ _) (.inl rfl)
          | leaving locked =>
              simp only [ImplLife.next, hstack, Checked.pure_eq_ok] at h
              subst h
              exact hsame (setStack_stack_of_ne hut _ _) (.inl rfl)
          | _ =>
              simp only [ImplLife.next, hstack, Checked.bind_eq_ok,
                Checked.pure_eq_ok] at h
              obtain ⟨-, -, rfl⟩ := h
              exact hsame (setStack_stack_of_ne hut _ _) (.inl rfl)
  | copyToken =>
      rw [ImplLife.next, Checked.pure_eq_ok] at h
      subst h
      exact hsame rfl (.inl rfl)
  | dropToken =>
      rw [ImplLife.next, Checked.pure_eq_ok] at h
      subst h
      exact hsame rfl (.inl rfl)
  | _ =>
      simp only [ImplLife.next, Checked.bind_eq_ok, Checked.pure_eq_ok] at h
      obtain ⟨-, -, rfl⟩ := h
      exact hsame rfl (.inl rfl)

/-- A thread in a release can always go on: it uses no impl that is gone. -/
theorem Phase.able (hs : s.Phase) (hok : s.Allowed (.step t)) :
    ∃ s', system.step s (.step t) s' := by
  suffices h : ∃ s', s.next (.step t) = .ok s' by
    obtain ⟨s', h⟩ := h
    exact ⟨s', hok, h⟩
  cases hstack : s.stack t with
  | nil => exact absurd hstack hok.2
  | cons f rest =>
      have hthere : (∀ locked, f ≠ .leaving locked) →
          s.access = .ok () := fun hf =>
        access_eq_ok.mpr (hs.inCharge hstack hf).2.2.2
      cases f with
      | reachedZero =>
          simp only [ImplLife.next, hstack, hthere (by simp), Checked.ok_bind]
          split
          · exact ⟨_, rfl⟩
          · split
            · exact ⟨_, rfl⟩
            · exact ⟨_, rfl⟩
      | leaving locked =>
          simp only [ImplLife.next, hstack]
          exact ⟨_, rfl⟩
      | _ =>
          simp only [ImplLife.next, hstack, hthere (by simp), Checked.ok_bind]
          exact ⟨_, rfl⟩

/-- **A release returns**, whatever the other threads do, as long as every
callback leaves a reference behind. -/
theorem returns_of_keeping (h : keeping.Reachable s) (ht : t < s.numThreads) :
    Returns keeping t s := by
  have hphase : ∀ {x : ImplLife}, keeping.Reachable x → x.Phase :=
    fun hx => phase_of_reachable hx.of_restrict
  refine TransitionSystem.Ends.of_measure (remaining t)
    (P := fun x => keeping.Reachable x ∧ t < x.numThreads) ?_ ?_ ?_ ?_ ⟨h, ht⟩
  · rintro x e x' ⟨hx, htx⟩ hstep
    refine ⟨hx.step hstep, ?_⟩
    have hnum : x'.numThreads = x.numThreads := numThreads_next hstep.2.2
    omega
  · rintro x ⟨hx, htx⟩ hbusy
    exact (hphase hx).able ⟨htx, hbusy⟩
  · rintro x e x' ⟨hx, -⟩ - rfl ⟨hkeeps, hok, hnext⟩
    exact (hphase hx).step_lt hok hkeeps hnext
  · rintro x e x' ⟨hx, -⟩ hbusy hother ⟨-, hok, hnext⟩
    obtain ⟨hstack, hle⟩ := (hphase hx).other_le hok hother hbusy hnext
    exact ⟨hstack ▸ hbusy, hle⟩

/-- **Releasing a buffer.**  In every life in which each callback of the token
leaves a reference behind, every release returns, and the memory is freed once
and the impl deleted once.

A callback that drops the last reference is called again from within itself, for
ever; that the memory is freed once and at the right time does not depend on the
condition. -/
theorem release_sound (h : keeping.Reachable s) :
    (∀ t < s.numThreads, Returns keeping t s) ∧ s.Once :=
  ⟨fun _ ht => returns_of_keeping h ht, (phase_of_reachable h.of_restrict).once⟩

/-! ### Two lives -/

instance (s : ImplLife) : (e : LifeEvent) → Decidable (s.Allowed e)
  | .addRef => inferInstanceAs (Decidable (0 < _))
  | .release _ => inferInstanceAs (Decidable (_ ∧ _ ∧ _))
  | .copyToken => inferInstanceAs (Decidable (0 < _))
  | .dropToken => inferInstanceAs (Decidable (0 < _))
  | .handOut _ => inferInstanceAs (Decidable (_ ∧ _))
  | .step _ => inferInstanceAs (Decidable (_ ∧ _))

instance (s : ImplLife) : (e : LifeEvent) → Decidable (s.Keeps e)
  | .step _ => inferInstanceAs (Decidable (_ → _))
  | .addRef => isTrue trivial
  | .release _ => isTrue trivial
  | .copyToken => isTrue trivial
  | .dropToken => isTrue trivial
  | .handOut _ => isTrue trivial

/-- A buffer that was just made by one of so many threads. -/
def fresh (numThreads owners : Nat) : ImplLife where
  count := 1
  held := 1
  owners
  deleter := true
  freed := 0
  deleted := 0
  numThreads
  stack := fun _ => []

theorem fresh_fresh (numThreads owners : Nat) :
    Fresh (fresh numThreads owners) :=
  ⟨rfl, rfl, rfl, rfl, rfl, fun _ => rfl⟩

/-- The buffer goes back to its queue, the queue is destroyed, and another
thread lets go of the buffer. -/
def queueAndFree : List LifeEvent :=
  [.release 0, .step 0, .handOut 0, .step 0, .step 0, .dropToken,
    .release 1, .step 1, .step 1, .step 1, .step 1]

/-- The buffer of that life is freed and deleted. -/
theorem release_sound_queue :
    ∃ s : ImplLife, s.freed = 1 ∧ s.deleted = 1 ∧
      (∀ t < s.numThreads, Returns keeping t s) ∧
      s.Once := by
  have hrun : (TransitionSystem.runRestricted
      (fun s e => Keeps s e ∧ Allowed s e) next
      queueAndFree (fresh 2 1)).map (fun s => (s.freed, s.deleted)) =
        some (1, 1) := by decide
  obtain ⟨s, hs, hseen⟩ := Option.map_eq_some_iff.mp hrun
  rw [Prod.mk.injEq] at hseen
  have hboth : ((TransitionSystem.ofNext Fresh next).restrict
      fun s e => Keeps s e ∧ Allowed s e).Reachable s :=
    .of_restricted_events queueAndFree (.init (fresh_fresh 2 1)) hs
  have hreach : keeping.Reachable s := hboth.restrict_restrict
  exact ⟨s, hseen.1, hseen.2, release_sound hreach⟩

/-- The token lives, and a thread is in a release that nobody else's reference
can stop. -/
def Trapped (s : ImplLife) : Prop :=
  0 < s.numThreads ∧ 0 < s.owners ∧ s.deleted = 0 ∧
    ((∃ rest, s.stack 0 = .reachedZero :: rest ∧ s.count = 0) ∨
      ∃ rest, s.stack 0 = .inToken :: rest ∧ s.count = 1)

/-- The callback lets go of what it is handed, and `buff` is the last reference
again. -/
theorem Trapped.again (hs : s.Trapped) :
    ∃ e s', e = LifeEvent.step 0 ∧ system.step s e s' ∧ s'.Trapped := by
  obtain ⟨hnum, howners, hthere,
      ⟨rest, hstack, hcount⟩ | ⟨rest, hstack, hcount⟩⟩ := hs
  all_goals have hallowed : s.Allowed (.step 0) := ⟨hnum, by simp [hstack]⟩
  all_goals have hfound : s.access = .ok () := access_eq_ok.mpr hthere
  · have hlive : s.tokenLive = true := by simp [tokenLive, howners]
    refine ⟨_, { s with count := s.count + 1 }.setStack 0 (.inToken :: rest),
      rfl, ⟨hallowed, ?_⟩, hnum, howners, hthere,
      .inr ⟨rest, setStack_stack_self .., ?_⟩⟩
    · simp only [TransitionSystem.ofNext_step, ImplLife.next, hstack, hfound,
        Checked.ok_bind, hlive, if_true]
      rfl
    · change s.count + 1 = 1
      omega
  · refine ⟨_, s.decrement 0 (.leaving true :: rest), rfl, ⟨hallowed, ?_⟩, hnum,
      howners, hthere, .inl ⟨.leaving true :: rest, ?_, ?_⟩⟩
    · simp only [TransitionSystem.ofNext_step, ImplLife.next, hstack, hfound,
        Checked.ok_bind]
      rfl
    · rw [decrement, setStack_stack_self, if_pos hcount]
    · change s.count - 1 = 0
      omega

/-- A callback that lets go of its reference is called again and again: the
release of the last reference does not return. -/
theorem release_never_returns :
    ¬ ∀ s, system.Reachable s → (∀ t < s.numThreads, Returns system t s) ∧
      s.Once := by
  intro h
  have hstep : system.step (fresh 1 1) (.release 0)
      ({ fresh 1 1 with held := 0 }.decrement 0 []) := ⟨by decide, rfl⟩
  have hreach :=
    (TransitionSystem.Reachable.init (T := system) (fresh_fresh 1 1)).step hstep
  have hends := (h _ hreach).1 0 Nat.one_pos
  refine TransitionSystem.not_ends_of_cycle (Z := Trapped) ?_ ?_ ?_ hends
  · rintro s ⟨-, -, -, ⟨rest, hstack, -⟩ | ⟨rest, hstack, -⟩⟩ hover
    all_goals
      rw [hstack] at hover
      cases hover
  · intro s hs
    exact hs.again
  · exact ⟨Nat.one_pos, Nat.one_pos, rfl, .inl ⟨[], rfl, rfl⟩⟩

end ImplLife

end Gras
