import AttachedState.Answer
import AttachedState.HandleMap

/-!
Registries.  A registry says which block belongs to each context.  It also keeps, for each thread
that has looked something up, a line with the handle that thread found last; removing a context
clears the lines that hold its handle, so that no thread goes on resolving it to the old block.
-/

namespace AttachedState

structure RegistryId where
  number : Nat
deriving DecidableEq

structure BlockId where
  number : Nat
deriving DecidableEq

def globalRegistry : RegistryId := ⟨0⟩

-- The thread a session runs on, one that was started under a name, or one of those that a race
-- starts.
inductive ThreadId where
  | main
  | worker (name : Name)
  | racer (number : Nat)
deriving DecidableEq

-- The handle that a thread resolved last, unless that was cleared since.
abbrev Line := Option Handle

-- A registry has the name it was opened under as its label.
structure Registry where
  label : Name
  contexts : HandleMap BlockId
  lines : Arena Line
  holder : Option ThreadId

namespace Registry

def fresh (label : Name) (hash : Handle → UInt64) : Registry :=
  { label, contexts := .empty hash, lines := .empty, holder := none }

-- A handle that has a block keeps it.
def register (r : Registry) (h : Handle) (block : BlockId) : Option Ticket × Registry :=
  match r.contexts.insert h block with
  | .ok (entry, contexts) => (some entry, { r with contexts })
  | .error _ => (none, r)

def holding (r : Registry) (h : Handle) : Nat := r.lines.count (· == some h)

def scrub (r : Registry) (h : Handle) : Registry :=
  { r with lines := r.lines.map fun line => if line = some h then none else line }

-- Gives the number of lines cleared.  If the registration is not the owner's, it panics and
-- changes nothing.
def withdraw (r : Registry) (entry : Ticket) (h : Handle) (block : BlockId) :
    Except Panic Nat × Registry :=
  match r.contexts.remove? entry with
  | none => (.error (.removedTwice h), r)
  | some ((stored, owned), contexts) =>
    if stored = h ∧ owned = block then (.ok (r.holding h), { r with contexts }.scrub h)
    else (.error (.notOwner h), r)

def attach (r : Registry) : Ticket × Registry :=
  let (line, lines) := r.lines.insert none
  (line, { r with lines })

def detach (r : Registry) (line : Ticket) : Registry :=
  match r.lines.remove? line with
  | some (_, lines) => { r with lines }
  | none => r

-- The line holds the handle afterwards if it was found, and nothing if not.
def resolve (r : Registry) (line : Ticket) (h : Handle) : Option BlockId × Registry :=
  let found := r.contexts.get? h
  (found, { r with lines := r.lines.replace line (found.map fun _ => h) })

def lineHolds (r : Registry) (line : Ticket) (h : Handle) : Bool :=
  r.lines.get? line == some (some h)

def handles (r : Registry) : List Handle := sortedHandles (r.contexts.toList.map (·.2.1))

def blocks (r : Registry) : List BlockId := r.contexts.toList.map (·.2.2)

-- The identity differs from run to run and is masked.
def outline (r : Registry) : Outline :=
  .named "ContextRegistry"
    [("id", .atom "_"), ("contexts", .number r.contexts.size), ("caches", .number r.lines.size)]

end Registry

end AttachedState
