import AttachedState.Machine

/-!
How much work lies before a machine at most.  Host code is carried inside the actions that are to be
performed, the objects that are in the world, and the lookups that are left for the end of a thread;
each piece of it runs once.  So every step of a machine leaves less to do, and the work that lies
before it bounds the number of its steps.
-/

namespace AttachedState

def Operation.work : Operation → Nat
  | .raceToCreate _ _ threads => 3 * threads + 6
  | _ => 6

mutual

def Action.work : Action → Nat
  | .operate operation => operation.work
  | .create _ supplies => suppliesWork supplies + 7
  | .whileLocked _ actions => actionsWork actions + 4

def actionsWork : List Action → Nat
  | [] => 0
  | action :: rest => action.work + actionsWork rest

-- What a supply's factory and its object do, and what making the object takes.
def supplyWork : Supply Action → Nat
  | ⟨_, _, before, _, onDrop⟩ => actionsWork before + actionsWork onDrop + 4

def suppliesWork : List (Supply Action) → Nat
  | [] => 0
  | supply :: rest => supplyWork supply + suppliesWork rest

end

def Object.work (object : Object) : Nat := actionsWork object.onDrop + 1

def slotsWork : List (Option Object) → Nat
  | [] => 0
  | object :: rest => (object.map Object.work).getD 0 + slotsWork rest

def Factory.work (f : Factory) : Nat := actionsWork f.before + actionsWork f.onDrop + 4

def factoriesWork : List Factory → Nat
  | [] => 0
  | factory :: rest => factory.work + factoriesWork rest

def Construction.work (site : Construction) : Nat :=
  slotsWork site.slots + factoriesWork site.pending + 6

def Task.work : Task → Nat
  | .perform _ action => action.work
  | .construct site => site.work
  | .make site factory => site.work + actionsWork factory.onDrop + 3
  | .dropObject _ _ object => object.work
  | .retrieveAtExit _ => 4
  | _ => 1

def tasksWork : List Task → Nat
  | [] => 0
  | task :: rest => task.work + tasksWork rest

def World.work (w : World) : Nat :=
  w.blocks.total (fun block => slotsWork block.slots)
    + w.registries.total (fun registry => registry.contexts.size)
    + w.threads.total (fun thread => 4 * thread.atExit.length)

namespace Machine

def work (m : Machine) : Nat := tasksWork m.tasks + m.world.work

def run (m : Machine) : Machine := m.steps m.work

end Machine

end AttachedState
