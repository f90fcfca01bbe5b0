import AttachedState.Registry

/-!
Threads: what a thread remembers of its own lookups, and what it still has to do when it ends.
-/

namespace AttachedState

-- The block is only remembered, not kept alive.
structure Memo where
  registry : RegistryId
  line : Ticket
  block : Option BlockId

structure Thread where
  -- How many registry locks the thread holds.
  depth : Nat
  memos : List Memo
  hasLooked : Bool
  -- Whether the first lookup came after the first one left for the end.  What a thread used last
  -- is given up first, so the memos are then gone before those lookups are made.
  memosEndFirst : Bool
  memosGone : Bool
  atExit : List Retrieval

namespace Thread

def fresh : Thread := ⟨0, [], false, false, false, []⟩

def memo? (t : Thread) (registry : RegistryId) : Option Memo :=
  t.memos.find? (·.registry = registry)

def setMemo (t : Thread) (memo : Memo) : Thread :=
  { t with memos := t.memos.map fun old => if old.registry = memo.registry then memo else old }

def noteLookup (t : Thread) : Thread :=
  if t.hasLooked then t else { t with hasLooked := true, memosEndFirst := !t.atExit.isEmpty }

end Thread

end AttachedState
