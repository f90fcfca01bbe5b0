import AttachedState.Lookup

/-!
Tasks: what a thread still has to do.  Host code that runs inside an action, in a factory or when an
extension is dropped, is put in front of the rest of the action; so the list of a thread's tasks is
all there is to know about where it stands.

A task that will give something up still refers to it until then.
-/

namespace AttachedState

-- The slot and kind are those that the key had when the creation began.
structure Factory where
  slot : Slot
  kind : Kind
  source : Source
  before : List Action
  failure : Option String
  onDrop : List Action

structure Construction where
  -- The action that created it, if host code ran that action.
  nested : Option Action
  creation : Creation
  registry : RegistryId
  block : BlockId
  handle : Handle
  slots : List (Option Object)
  pending : List Factory

inductive Task where
  -- Host code runs the action, or else the session does.
  | perform (nested : Bool) (action : Action)
  -- Goes on with the next factory of a block, or registers the block if there is none.
  | construct (site : Construction)
  -- Makes the factory's object, the factory's own actions being done.
  | make (site : Construction) (factory : Factory)
  | dropObject (block : BlockId) (handle : Handle) (object : Object)
  -- The earlier object has been dropped.
  | noteOverwritten (handle : Handle) (slot : Slot)
  | releaseBlock (block : BlockId)
  | releaseRegistry (registry : RegistryId)
  | unlock (registry : RegistryId)
  | retrieveAtExit (retrieval : Retrieval)
  | reportExit (registry : Name) (answer : Answer)
  | dropMemos
  | endThread
  -- The answer is that of an action that host code ran, or else of the session's.
  | answer (nested : Option Action) (answer : Answer)

namespace Task

def refersToBlock (b : BlockId) : Task → Bool
  | releaseBlock block => block = b
  | _ => false

def refersToRegistry (r : RegistryId) : Task → Bool
  | releaseRegistry registry => registry = r
  | construct site => site.registry = r
  | make site _ => site.registry = r
  | _ => false

end Task

def dropTasks (b : BlockId) (handle : Handle) (objects : List Object) : List Task :=
  objects.map (.dropObject b handle)

-- The tasks have to be done before the answer is given.
structure Outcome where
  world : World
  answer : Answer
  first : List Task

namespace Outcome

def of (world : World) (answer : Answer) : Outcome := ⟨world, answer, []⟩

def fail (world : World) (failure : Failure) : Outcome := of world (.failed failure)

end Outcome

end AttachedState
