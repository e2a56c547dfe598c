import Mathlib.Data.List.Basic
import Mathlib.Data.List.DropRight

/-!
# Calls by name

A `Callable` keeps the methods that a class registers, by name: `handleCall`
looks a name up, checks the number of arguments and runs the method.

The methods themselves are user code, a parameter that gives for each member
pointer the code behind it; the conversion of the arguments (`safe_as`) is the
first thing that this code does.  A method may call other blocks, so its code is
a tree (`Body`): it ends with the object and an outcome, or it calls a block and
goes on with what the call gives.

`handleCall_afterOps`: whatever was registered and unregistered before, and
whatever of it threw, a call runs the method of the first registration since the
name was unregistered last.
-/

namespace Gras

/-- What a method throws. -/
inductive Thrown where
  /-- A `std::exception` and its text. -/
  | exception (what : String)
  /-- Anything else. -/
  | other
deriving DecidableEq, Repr

/-- How a method ends: with a value, which is null for a void one, or with an
exception. -/
abbrev CallOutcome (V : Type) := Except Thrown (Option V)

/-- What a call of a block gives the caller: a value, or the text of a
`std::runtime_error`. -/
abbrev CallResult (V : Type) := Except String (Option V)

/-- Code that runs on the actor of a block. -/
inductive Body (B O V : Type) where
  /-- It ends, and this is the object then. -/
  | done (object : O) (outcome : CallOutcome V)
  /-- It calls a block by its `x`, and goes on with the result. -/
  | call (object : O) (block : B) (name : String) (args : List V)
      (next : CallResult V → Body B O V)

/-- An entry of the registry: the arguments a method takes, and the pointer to
it. -/
structure CallableRegistryEntry (M : Type) where
  nargs : Nat
  fcn : M
deriving DecidableEq, Repr

/-- An object with its registry, a `std::map` from names, and its other
members. -/
structure Callable (M S : Type) where
  registry : Std.TreeMap String (CallableRegistryEntry M) := {}
  members : S

/-- The code behind the member pointers of a class. -/
abbrev Methods (B M S V : Type) :=
  M → List V → Callable M S → Body B (Callable M S) V

variable {B M S V : Type}

/-- `arg_check`. -/
def CallableRegistryEntry.argCheck (args : List V) (nargs : Nat) :
    Except Thrown Unit :=
  if args.length ≠ nargs then
    .error (.exception
      ("callable expected " ++ toString nargs ++ " arguments but got " ++
      toString args.length))
  else .ok ()

/-- `call` of an entry. -/
def CallableRegistryEntry.call (methods : Methods B M S V)
    (e : CallableRegistryEntry M) (args : List V) (c : Callable M S) :
    Body B (Callable M S) V :=
  match argCheck args e.nargs with
  | .error thrown => .done c (.error thrown)
  | .ok () => methods e.fcn args c

namespace Callable

/-- The text of the exception for a name that is not there. -/
def noMethod (name : String) : Thrown :=
  .exception ("Callable - no method registered for name: " ++ name)

/-- The text of the exception for a name that is there. -/
def alreadyRegistered (name : String) : Thrown :=
  .exception ("Callable - method already registered for name: " ++ name)

/-- `get_registered_names`. -/
def getRegisteredNames (c : Callable M S) : List String := c.registry.keys

/-- `unregister_call`. -/
def unregisterCall (name : String) (c : Callable M S) :
    Except Thrown (Callable M S) :=
  if c.registry.contains name then
    .ok { c with registry := c.registry.erase name }
  else .error (noMethod name)

/-- `register_call`. -/
def registerCall (name : String) (e : CallableRegistryEntry M)
    (c : Callable M S) : Except Thrown (Callable M S) :=
  if c.registry.contains name then .error (alreadyRegistered name)
  else .ok { c with registry := c.registry.insert name e }

/-- `_handle_call`. -/
def handleCall (methods : Methods B M S V) (name : String) (args : List V)
    (c : Callable M S) : Body B (Callable M S) V :=
  match c.registry[name]? with
  | none => .done c (.error (noMethod name))
  | some e => e.call methods args c

/-! ### The registry over a series of operations -/

/-- An operation of a class on its registry. -/
inductive RegistryOp (M : Type) where
  | register (name : String) (entry : CallableRegistryEntry M)
  | unregister (name : String)

namespace RegistryOp

/-- The operation itself. -/
def perform (c : Callable M S) : RegistryOp M → Except Thrown (Callable M S)
  | register name entry => c.registerCall name entry
  | unregister name => c.unregisterCall name

/-- The object after the operation, also if that throws. -/
def after (c : Callable M S) (op : RegistryOp M) : Callable M S :=
  match op.perform c with
  | .ok c' => c'
  | .error _ => c

/-- The entry that the operation would put under a name. -/
def entryFor (name : String) : RegistryOp M → Option (CallableRegistryEntry M)
  | register n entry => if n = name then some entry else none
  | unregister _ => none

/-- The operation does not take the name away. -/
def keeps (name : String) : RegistryOp M → Bool
  | register _ _ => true
  | unregister n => n ≠ name

@[simp] theorem keeps_register (name n : String) (e : CallableRegistryEntry M) :
    (register n e).keeps name = true := rfl

@[simp] theorem keeps_unregister (name n : String) :
    (unregister n : RegistryOp M).keeps name = decide (n ≠ name) := rfl

end RegistryOp

/-- An object without methods, after a series of operations of which some may
have thrown. -/
def afterOps (ops : List (RegistryOp M)) (members : S) : Callable M S :=
  ops.foldl (RegistryOp.after ·) { members }

/-- The entry of the first registration of a name since it was unregistered
last. -/
def firstRegistered (name : String) (ops : List (RegistryOp M)) :
    Option (CallableRegistryEntry M) :=
  (ops.rtakeWhile (RegistryOp.keeps name)).findSome? (RegistryOp.entryFor name)

theorem firstRegistered_concat (name : String) (ops : List (RegistryOp M))
    (op : RegistryOp M) :
    firstRegistered name (ops ++ [op]) =
      if op.keeps name then (firstRegistered name ops).or (op.entryFor name)
        else none := by
  unfold firstRegistered
  rw [List.rtakeWhile_concat]
  split
  · rw [List.findSome?_append, List.findSome?_singleton]
  · rfl

theorem after_register (name : String) (e : CallableRegistryEntry M)
    (c : Callable M S) :
    (RegistryOp.register name e).after c =
      if c.registry.contains name then c
      else { c with registry := c.registry.insert name e } := by
  unfold RegistryOp.after RegistryOp.perform registerCall
  by_cases h : c.registry.contains name = true
  · simp only [if_pos h]
  · simp only [if_neg h]

theorem after_unregister (name : String) (c : Callable M S) :
    (RegistryOp.unregister name : RegistryOp M).after c =
      if c.registry.contains name then
        { c with registry := c.registry.erase name } else c := by
  unfold RegistryOp.after RegistryOp.perform unregisterCall
  by_cases h : c.registry.contains name = true
  · simp only [if_pos h]
  · simp only [if_neg h]

/-- One operation on one name. -/
theorem registry_after (name : String) (op : RegistryOp M) (c : Callable M S) :
    (op.after c).registry[name]? =
      if op.keeps name then c.registry[name]?.or (op.entryFor name)
        else none := by
  cases op with
  | register n e =>
      rw [after_register, if_pos (RegistryOp.keeps_register name n e),
        Std.TreeMap.contains_eq_isSome_getElem?]
      by_cases hn : n = name
      · subst hn
        cases hc : c.registry[n]? with
        | none => simp [RegistryOp.entryFor]
        | some e' => simp [hc]
      · have hother : (RegistryOp.register n e).entryFor name =
            none := if_neg hn
        rw [hother, Option.or_none]
        split
        · rfl
        · simp [Std.TreeMap.getElem?_insert, hn]
  | unregister n =>
      have hentry :
          (RegistryOp.unregister n : RegistryOp M).entryFor name = none := rfl
      rw [after_unregister, hentry, Option.or_none,
        Std.TreeMap.contains_eq_isSome_getElem?]
      by_cases hn : n = name
      · subst hn
        cases hc : c.registry[n]? with
        | none => simp [hc]
        | some e' => simp
      · have hkeeps :
            (RegistryOp.unregister n : RegistryOp M).keeps name = true :=
          decide_eq_true hn
        rw [if_pos hkeeps]
        split
        · simp [Std.TreeMap.getElem?_erase, hn]
        · rfl

/-- A series of operations on one name. -/
theorem registry_afterOps (name : String) (ops : List (RegistryOp M))
    (members : S) :
    (afterOps ops members).registry[name]? = firstRegistered name ops := by
  unfold afterOps
  induction ops using List.reverseRecOn with
  | nil => simp [firstRegistered]
  | append_singleton ops op ih =>
      rw [List.foldl_append, List.foldl_cons, List.foldl_nil, registry_after,
        ih, firstRegistered_concat]

theorem members_after (op : RegistryOp M) (c : Callable M S) :
    (op.after c).members = c.members := by
  cases op with
  | register name e =>
      rw [after_register]
      split <;> rfl
  | unregister name =>
      rw [after_unregister]
      split <;> rfl

/-- The operations leave the other members alone. -/
theorem members_afterOps (ops : List (RegistryOp M)) (members : S) :
    (afterOps ops members).members = members := by
  unfold afterOps
  induction ops using List.reverseRecOn with
  | nil => rfl
  | append_singleton ops op ih =>
      rw [List.foldl_append, List.foldl_cons, List.foldl_nil]
      exact (members_after op _).trans ih

/-- **What a call by name runs.**  After any series of registrations and
unregistrations, of which some may have thrown, it is the method of the first
registration since the name was unregistered last; the names that are registered
are in order, each of them once. -/
theorem handleCall_afterOps (methods : Methods B M S V)
    (ops : List (RegistryOp M)) (members : S) :
    (afterOps ops members).members = members ∧
    (∀ name args, (afterOps ops members).handleCall methods name args =
      (firstRegistered name ops).elim
      (.done (afterOps ops members) (.error (noMethod name)))
        fun e => e.call methods args (afterOps ops members)) ∧
    (afterOps ops members).getRegisteredNames.Pairwise (· < ·) ∧
    ∀ name, name ∈ (afterOps ops members).getRegisteredNames ↔
      (firstRegistered name ops).isSome = true := by
  refine ⟨members_afterOps ops members, fun name args => ?_, ?_, fun name => ?_⟩
  · rw [handleCall, registry_afterOps]
    cases firstRegistered name ops <;> rfl
  · have hordered := (afterOps ops members).registry.ordered_keys
    exact hordered.imp fun h => compareOfLessAndEq_eq_lt.mp h
  · rw [getRegisteredNames, Std.TreeMap.mem_keys,
      ← Std.TreeMap.contains_iff_mem, Std.TreeMap.contains_eq_isSome_getElem?,
      registry_afterOps]

end Callable

end Gras
