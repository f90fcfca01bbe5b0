import AttachedState.Event
import AttachedState.Table

/-!
The world of a session: registries, blocks, key spaces and threads, the tables of names that refer
to them, and the journal.  Registries and blocks are in the world exactly as long as something
refers to them; what is remembered by threads does not count.
-/

namespace AttachedState

structure SpaceId where
  number : Nat
deriving DecidableEq

def globalSpace : SpaceId := ⟨0⟩

structure Key where
  space : SpaceId
  slot : Slot
  kind : Kind

-- While it exists the registration stays, and giving it up removes the registration.
structure Guard where
  registry : RegistryId
  entry : Ticket
  handle : Handle
  block : BlockId
deriving DecidableEq

structure World where
  -- The hash function each registry is built with.
  hashing : RegistryId → Handle → UInt64
  registries : Table RegistryId Registry
  blocks : Table BlockId Block
  spaces : Table SpaceId SlotPool
  threads : Table ThreadId Thread
  registryNames : Table Name RegistryId
  spaceNames : Table Name SpaceId
  keys : Table Name Key
  states : Table Name Guard
  held : Table Name BlockId
  -- A number that no identity has yet, nor any greater one.
  next : Nat
  -- The latest event comes first.
  journal : List Event

namespace World

-- The process-wide registry and key space are there, and the main thread runs.
def start (hashing : RegistryId → Handle → UInt64) : World where
  hashing
  registries := Table.empty.put globalRegistry (.fresh globalName (hashing globalRegistry))
  blocks := .empty
  spaces := Table.empty.put globalSpace .empty
  threads := Table.empty.put .main .fresh
  registryNames := .empty
  spaceNames := .empty
  keys := .empty
  states := .empty
  held := .empty
  next := 1
  journal := []

def note (w : World) (e : Event) : World := { w with journal := e :: w.journal }

def takeNumber (w : World) : Nat × World := (w.next, { w with next := w.next + 1 })

/-! Looking into the tables. -/

def registryNamed? (w : World) (name : Name) : Option RegistryId :=
  if name = globalName then some globalRegistry else w.registryNames.find? name

def spaceNamed? (w : World) (name : Name) : Option SpaceId :=
  if name = globalName then some globalSpace else w.spaceNames.find? name

def registry (w : World) (r : RegistryId) : Registry :=
  (w.registries.find? r).getD (.fresh globalName (w.hashing r))

def space (w : World) (s : SpaceId) : SlotPool := (w.spaces.find? s).getD .empty

def thread (w : World) (t : ThreadId) : Thread := (w.threads.find? t).getD .fresh

def subject? (w : World) : Subject → Option BlockId
  | .state name => (w.states.find? name).map (·.block)
  | .held name => w.held.find? name

def setRegistry (w : World) (r : RegistryId) (registry : Registry) : World :=
  { w with registries := w.registries.put r registry }

def setThread (w : World) (t : ThreadId) (thread : Thread) : World :=
  { w with threads := w.threads.put t thread }

def startThread (w : World) (t : ThreadId) : World :=
  if w.threads.contains t then w else w.setThread t .fresh

/-! Locks. -/

-- A thread that holds a registry lock may not take another.
def lock? (w : World) (t : ThreadId) (r : RegistryId) : Option World :=
  let thread := w.thread t
  if thread.depth = 0 then
    some ((w.setThread t { thread with depth := thread.depth + 1 }).setRegistry r
      { w.registry r with holder := some t })
  else none

def unlock (w : World) (t : ThreadId) (r : RegistryId) : World :=
  let thread := w.thread t
  (w.setThread t { thread with depth := thread.depth - 1 }).setRegistry r
    { w.registry r with holder := none }

def underLock {α : Type} (w : World) (t : ThreadId) (r : RegistryId)
    (work : Registry → α × Registry) : Except Panic (α × World) :=
  match w.lock? t r with
  | none => .error .lockHeld
  | some w =>
    let (result, registry) := work (w.registry r)
    .ok (result, (w.setRegistry r registry).unlock t r)

def underLock? {α : Type} (w : World) (t : ThreadId) (r : RegistryId) (look : Registry → α) :
    Except Panic α :=
  (w.underLock t r fun registry => (look registry, registry)).map (·.1)

/-! References. -/

def refersToBlock (w : World) (b : BlockId) : Bool :=
  w.states.any (·.block = b) || w.held.any (· = b) || w.registries.any (·.blocks.contains b)

-- The process-wide registry always stays.
def refersToRegistry (w : World) (r : RegistryId) : Bool :=
  r = globalRegistry || w.registryNames.any (· = r) || w.states.any (·.registry = r)

/-! Telling of blocks. -/

def describe? (w : World) (b : BlockId) : Option Description :=
  (w.blocks.find? b).map fun block =>
    { handle := block.handle
      slotCount := block.slotCount
      installed := block.installed
      sameAs := sortedNames (w.states.keysWhere (·.block = b))
        ++ sortedNames (w.held.keysWhere (· = b)) }

def read? (w : World) (key : Key) (b : BlockId) : Option Value :=
  (w.blocks.find? b).bind (·.read? key.slot key.kind)

end World

end AttachedState
