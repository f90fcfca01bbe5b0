import AttachedState.Thread

/-!
Events: the journal of everything that happens, in order of time.  A session reports only some of
them, and some of those only when it is traced.
-/

namespace AttachedState

inductive Route where
  -- From the thread's own line, without a lock.
  | line
  -- From the map, noting the outcome in the thread's line.
  | map
  -- From the map, by a thread whose memos are gone.
  | direct
deriving DecidableEq

inductive Event where
  | factoryStarted (block : BlockId) (slot : Slot) (handle : Handle)
  | objectMade (block : BlockId) (slot : Slot) (object : Object)
  -- A probe finds out whether its context is registered.
  | objectDropped (block : BlockId) (handle : Handle) (object : Object)
      (registered : Option (Except Panic Bool))
  | slotOverwritten (handle : Handle) (slot : Slot)
  | keyRegistered (slot : Slot) (kind : Kind)
  | keyReleased (slot : Slot)
  | stateCreated (registry : RegistryId) (entry : Ticket) (block : BlockId) (handle : Handle)
      (slotCount : Nat)
  | stateRemoved (registry : RegistryId) (entry : Ticket) (block : BlockId) (handle : Handle)
      (scrubbed : Nat)
  -- The owner was given up, but the registration could not be removed.
  | stateOrphaned (registry : RegistryId) (entry : Ticket) (block : BlockId) (handle : Handle)
  | lineAttached (thread : ThreadId) (registry : RegistryId) (label : Name) (line : Ticket)
  | lineDetached (thread : ThreadId) (registry : RegistryId) (line : Ticket)
  | lookedUp (thread : ThreadId) (registry : RegistryId) (handle : Handle)
      (found : Option BlockId) (route : Route)
  -- The action is one that host code ran, or else what the session was told to do.
  | answered (nested : Option Action) (answer : Answer)
  -- The number of lines that the registry has then follows the answer.
  | exitRetrieved (registry : Option RegistryId) (answer : Answer) (caches : Option Nat)
  | threadEnded (thread : ThreadId)

structure Notice where
  level : String
  message : String
  fields : List (String × Datum)

inductive Entry where
  | make (slot : Slot) (handle : Handle)
  | ran (action : Action) (answer : Answer)
  | drop (value : Datum) (handle : Handle) (registered : Option (Except Panic Bool))
  | exitRetrieved (answer : Answer) (caches : Option Nat)
  | notice (notice : Notice)

namespace Event

-- The identity of a line of the process-wide registry differs from run to run and is masked.
def lineText (registry : RegistryId) (line : Ticket) : String :=
  if registry = globalRegistry then "_" else "CacheId(" ++ line.text ++ ")"

def numberField (name : String) (value : Nat) : String × Datum := (name, .number value)

def textField (name value : String) : String × Datum := (name, .text value)

-- A lookup is traced only if it went to the map through the thread's line.
def notice? : Event → Option Notice
  | keyRegistered slot kind =>
    some ⟨"DEBUG", "registered extension key",
      [numberField "slot" slot, textField "extension" kind.typeName]⟩
  | keyReleased slot => some ⟨"DEBUG", "released extension key", [numberField "slot" slot]⟩
  | slotOverwritten handle slot =>
    some ⟨"DEBUG", "extension slot supplied twice, keeping the later object",
      [textField "handle" handle.text, numberField "slot" slot]⟩
  | stateCreated _ _ _ handle slotCount =>
    some ⟨"DEBUG", "created extension state",
      [textField "handle" handle.text, numberField "slots" slotCount]⟩
  | stateRemoved _ _ _ handle scrubbed =>
    some ⟨"DEBUG", "removed extension state",
      [textField "handle" handle.text, numberField "scrubbed" scrubbed]⟩
  | lineAttached _ registry label line =>
    some ⟨"TRACE", "registered thread cache",
      [textField "registry" label, textField "id" (lineText registry line)]⟩
  | lookedUp _ _ handle found .map =>
    some ⟨"TRACE", "thread cache miss",
      [textField "handle" handle.text, ("found", .truth found.isSome)]⟩
  | _ => none

-- What is logged without tracing.
def entry? : Event → Option Entry
  | factoryStarted _ slot handle => some (.make slot handle)
  | objectDropped _ handle object registered =>
    match object.value with
    | .probe value => some (.drop value handle registered)
    | _ => none
  | answered (some action) answer => some (.ran action answer)
  | exitRetrieved _ answer caches => some (.exitRetrieved answer caches)
  | _ => none

def logged? (traced : Bool) (e : Event) : Option Entry :=
  match e.entry? with
  | some entry => some entry
  | none => if traced then e.notice?.map .notice else none

end Event

end AttachedState
