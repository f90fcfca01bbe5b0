import AttachedState.Block

/-!
Answers: what an action ends with, and the causes for which it fails.
-/

namespace AttachedState

inductive Refusal where
  | duplicate (handle : Handle)
  | unregistered (handle : Handle)
deriving DecidableEq

namespace Refusal

def message : Refusal → String
  | duplicate h => "context " ++ h.text ++ " already has extension state registered"
  | unregistered h => "context " ++ h.text ++ " has no extension state registered"

def inspected : Refusal → String
  | duplicate h => "DuplicateContext(" ++ h.inspected ++ ")"
  | unregistered h => "UnregisteredContext(" ++ h.inspected ++ ")"

end Refusal

inductive Panic where
  -- A registry lock is needed by a thread that holds one.
  | lockHeld
  | refused (refusal : Refusal)
  | removedTwice (handle : Handle)
  | notOwner (handle : Handle)
  | unreserved (slot : Slot)
  | raised (text : String)
  -- A factory's value does not fit the type of its key.
  | misfit
deriving DecidableEq

def Panic.message : Panic → String
  | lockHeld => "reentrancy detected: registry lock taken while already held"
  | refused refusal => refusal.message
  | removedTwice h => "context " ++ h.text ++ " removed twice"
  | notOwner h => "context " ++ h.text ++ " does not own the extension block being removed"
  | unreserved slot => unreservedText slot
  | raised text => text
  | misfit => "bad value"

inductive Failure where
  | panic (cause : Panic)
  | refused (refusal : Refusal)
  | nullHandle
  | noSuchName
  | nameTaken
deriving DecidableEq

-- A strict action panics where another one reports.
def Refusal.raise (strict : Bool) (refusal : Refusal) : Failure :=
  if strict then .panic (.refused refusal) else .refused refusal

-- Besides what a block holds, the names that stand for this very block.
structure Description where
  handle : Handle
  slotCount : Nat
  installed : List Slot
  sameAs : List Name

inductive Answer where
  | done
  | failed (failure : Failure)
  | truth (value : Bool)
  | number (value : Nat)
  | block (description : Description) (values : Option (List (Option Value)))
  -- What a key reads.
  | value (value : Option Value)
  -- What lies in a slot, of whatever kind it is.
  | content (value : Option Value)
  | key (slot : Slot) (shown factoryShown : String)
  -- The high-water mark of the process-wide space is not told.
  | space (registered : List Slot) (size : Nat) (empty : Bool) (highWater : Option Nat)
      (shown : String)
  | blockShown (handle : Handle) (slotCount : Nat) (installed : List Slot) (shown : String)
  | state (handle : Handle) (contexts : Nat) (shown : String)
  | registry (handles : List Handle) (caches : Nat) (shown : String)
  | createdInRace (created rejected during after : Nat)
  | keysInRace (slots : List Slot) (during after highWater : Nat)
  | hitsInRace (hits : Nat)

end AttachedState
