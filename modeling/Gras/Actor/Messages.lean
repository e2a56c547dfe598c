import Gras.Buffers.BufferQueue

/-!
# Messages between the actors

`messages.hpp`, `block_config.hpp`, `token.hpp`, `bitset.hpp` and `tags.hpp`.

A `Token` is a shared pointer that is only ever compared and counted, so a token
is the identity of what it points to.  A PMC is opaque to the actors.  The
sections of `messages.hpp` are four types: what the top block sends, what
arrives at an input port, what arrives at an output port, and the messages to
just the block.
-/

namespace Gras

/-- The identity behind a `Token` or a `WeakToken`. -/
abbrev Token := Nat

/-- The address of an actor or a receiver. -/
abbrev Address := Nat

/-- The identity behind a `PMCC`. -/
abbrev Pmc := Nat

/-- An absolute item count and an object. -/
structure Tag where
  offset : Nat
  object : Pmc
  deriving DecidableEq, Repr

/-! ## Configurations -/

/-- `InputPortConfig`. -/
structure InputPortConfig where
  itemSize : Nat := 1
  reserveItems : Nat := 1
  maximumItems : Nat := 0
  inlineBuffer : Bool := false
  preloadItems : Nat := 0
  deriving DecidableEq, Repr

/-- `OutputPortConfig`. -/
structure OutputPortConfig where
  itemSize : Nat := 1
  reserveItems : Nat := 1
  maximumItems : Nat := 0
  deriving DecidableEq, Repr

/-- `GlobalBlockConfig`. -/
structure GlobalBlockConfig where
  maximumOutputItems : Nat := 0
  bufferAffinity : Int := -1
  interruptibleWork : Bool := false
  threadPool : Option Nat := none
  deriving DecidableEq, Repr

/-- `merge(config)`: overwrite what is not set. -/
def GlobalBlockConfig.merge (config this : GlobalBlockConfig) :
    GlobalBlockConfig where
  maximumOutputItems :=
    if this.maximumOutputItems = 0 then config.maximumOutputItems
    else this.maximumOutputItems
  bufferAffinity :=
    if this.bufferAffinity = -1 then config.bufferAffinity
    else this.bufferAffinity
  interruptibleWork :=
    if this.interruptibleWork then this.interruptibleWork
    else config.interruptibleWork
  threadPool := if this.threadPool.isNone then config.threadPool
    else this.threadPool

/-! ## Bit sets -/

/-- `BitSet`: a dynamic bit set. -/
structure BitSet where
  size : Nat
  bit : Nat → Bool

namespace BitSet

/-- `size` bits of that value. -/
def ofSize (size : Nat) (value : Bool) : BitSet := ⟨size, fun _ => value⟩

/-- `set(i, value)`. -/
def set (i : Nat) (value : Bool) (s : BitSet) : BitSet :=
  { s with bit := fun j => if j = i then value else s.bit j }

/-- `any()`. -/
def any (s : BitSet) : Bool := (List.range s.size).any s.bit

/-- `all()`: `count() == size()`. -/
def all (s : BitSet) : Bool := (List.range s.size).all s.bit

/-- `none()`. -/
def none (s : BitSet) : Bool := !s.any

@[simp] theorem set_size (i : Nat) (v : Bool) (s : BitSet) :
    (s.set i v).size = s.size := rfl

@[simp] theorem set_bit_self (i : Nat) (v : Bool) (s : BitSet) :
    (s.set i v).bit i = v :=
  if_pos rfl

theorem set_bit_of_ne {i j : Nat} (h : j ≠ i) (v : Bool) (s : BitSet) :
    (s.set i v).bit j = s.bit j := if_neg h

theorem any_iff (s : BitSet) : s.any = true ↔ ∃ i < s.size, s.bit i = true := by
  simp [any]

theorem all_iff (s : BitSet) : s.all = true ↔ ∀ i < s.size, s.bit i = true := by
  simp [all]

theorem none_iff (s : BitSet) :
    s.none = true ↔ ∀ i < s.size, s.bit i = false := by
  simp [none, any]

end BitSet

/-! ## Messages -/

/-- The statistics a block keeps and replies with, less the timers. -/
structure BlockStats where
  itemsConsumed : Nat → Nat := fun _ => 0
  tagsConsumed : Nat → Nat := fun _ => 0
  msgsConsumed : Nat → Nat := fun _ => 0
  itemsProduced : Nat → Nat := fun _ => 0
  tagsProduced : Nat → Nat := fun _ => 0
  msgsProduced : Nat → Nat := fun _ => 0
  bytesCopied : Nat → Nat := fun _ => 0
  inputsIdle : Nat → Int := fun _ => 0
  outputsIdle : Nat → Int := fun _ => 0
  actorQueueDepth : Nat := 0
  itemsEnqueued : Nat → Nat := fun _ => 0
  msgsEnqueued : Nat → Nat := fun _ => 0
  tagsEnqueued : Nat → Nat := fun _ => 0
  workCount : Nat := 0
  startTime : Int := 0
  stopTime : Int := 0
  timeLastWork : Int := 0

/-- What arrives at an input port. -/
inductive InputMessage where
  | tag (tag : Tag)
  | msg (msg : Pmc)
  | buffer (buffer : SBuffer)
  | token (token : Token)
  /-- The configuration of the upstream buffers, and a reference to their
  token. -/
  | alloc (config : SBufferConfig)
  | check
  | update

/-- What arrives at an output port. -/
inductive OutputMessage where
  | buffer (buffer : SBuffer)
  | token (token : Token)
  | check
  | hint (reserveBytes : Nat) (token : Token)
  | alloc (queue : BufferQueue)
  | update

/-- What the top block sends. -/
inductive TopMessage where
  | alloc
  | active
  | inert
  | token (token : Token)
  | config (config : GlobalBlockConfig)
  | threadGroup

/-- A message in the mailbox of a block.  A message of the top block carries a
copy of the priority token when it was broadcast, and has a sender to be
acknowledged. -/
inductive Message where
  | input (index : Nat) (message : InputMessage)
  | output (index : Nat) (message : OutputMessage)
  | top (message : TopMessage) (prio : Bool) (sender : Option Address)
  | callable (key : Nat) (sender : Address)
  | getStats (sender : Address)
  | selfKick

/-- A message a block sends to somebody else. -/
inductive Outgoing where
  | upstream (port : Nat) (message : OutputMessage)
  | downstream (port : Nat) (message : InputMessage)
  | acknowledge (receiver : Address)
  | returned (receiver : Address) (key : Nat)
  | stats (receiver : Address) (stats : BlockStats)

namespace Message

/-- Does the message carry a copy of the priority token? -/
def carriesToken : Message → Bool
  | top _ prio _ => prio
  | callable _ _ => true
  | getStats _ => true
  | _ => false

/-- The messages whose handler calls `task_main`. -/
def runsTask : Message → Bool
  | input _ (.msg _) => true
  | input _ (.buffer _) => true
  | input _ .check => true
  | output _ (.buffer _) => true
  | selfKick => true
  | _ => false

/-- The messages whose handler leaves a kick behind. -/
def kicks : Message → Bool
  | top .active _ _ => true
  | callable _ _ => true
  | getStats _ => true
  | _ => false

end Message

end Gras
