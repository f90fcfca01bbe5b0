import AttachedState.Extension
import AttachedState.Handle
import AttachedState.Outline
import AttachedState.SlotPool

/-!
Actions: what a thread may be told to do.  Most are single operations.  Two carry further actions:
creating the state of a context runs host code in the factories of its extensions and, later, when
the extensions are dropped; and a registry can be shown to host code while its lock is held.
-/

namespace AttachedState

abbrev Name := String

-- The name that always stands for the process-wide registry, or the process-wide key space.
def globalName : Name := "global"

-- What a key reads from: the block of a state, or a block that is held.
inductive Subject where
  | state (name : Name)
  | held (name : Name)

structure Retrieval where
  registry : Name
  address : UInt64
  -- A missing context makes the caller panic instead of giving an error.
  strict : Bool
  keys : Option (List Name)
  keepAs : Option Name

inductive Source where
  | given (value : Datum)
  | address
  -- The value that another context has for a key, perhaps with something added.
  | copied (registry : Name) (address : UInt64) (key : Name) (addend : Datum)

inductive Operation where
  -- The host may look at the new registry under its lock before it gives it the name.
  | openRegistry (registry : Name) (looks : Bool := true)
  | shareRegistry (registry source : Name)
  | dropRegistry (registry : Name)
  | openSpace (space : Name)
  | shareSpace (space source : Name)
  | dropSpace (space : Name)
  | registerKey (key space : Name) (kind : Kind)
  | dropKey (key : Name)
  | showKey (key : Name) (layout : Layout)
  | keyIsIn (key space : Name)
  | showSpace (space : Name) (layout : Layout)
  | isRegistered (space : Name) (slot : Slot)
  | destroy (state : Name)
  | retrieve (retrieval : Retrieval)
  | hold (state block : Name)
  | release (block : Name)
  | read (key : Name) (subject : Subject)
  | showSlot (slot : Slot) (subject : Subject)
  | showBlock (subject : Subject) (layout : Layout)
  | showState (state : Name) (layout : Layout)
  | showRegistry (registry : Name) (layout : Layout)
  | contains (registry : Name) (address : UInt64)
  | countContexts (registry : Name)
  | countCaches (registry : Name)
  -- The lookup is made when the thread ends.
  | retrieveAtExit (retrieval : Retrieval)
  | raceToCreate (registry : Name) (address : UInt64) (threads : Nat)
  | raceForKeys (space : Name) (threads each : Nat)
  | raceToRetrieve (registry : Name) (address : UInt64) (threads rounds : Nat)

-- One extension of a context to be created: the key whose slot it takes, where its value comes
-- from, the actions its factory runs first, the text its factory panics with, if it does, and the
-- actions that run when the extension is dropped.
structure Supply (α : Type) where
  key : Name
  source : Source
  before : List α
  failure : Option String
  onDrop : List α

structure Creation where
  registry : Name
  state : Name
  address : UInt64
  -- A duplicate makes the caller panic instead of giving an error.
  strict : Bool

inductive Action where
  | operate (operation : Operation)
  | create (creation : Creation) (supplies : List (Supply Action))
  | whileLocked (registry : Name) (actions : List Action)

end AttachedState
