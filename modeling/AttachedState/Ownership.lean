import AttachedState.Task

/-!
Owners of registrations.  Giving an owner up removes its registration and scrubs the threads' lines
before anything of the block is dropped; only then its references go, first that to the registry.
-/

namespace AttachedState.World

def guardTasks (g : Guard) : List Task := [.releaseRegistry g.registry, .releaseBlock g.block]

-- If the registration cannot be removed, the owner is gone all the same and the registration
-- stays.
def giveUp (w : World) (t : ThreadId) (g : Guard) : Outcome :=
  match w.underLock t g.registry (·.withdraw g.entry g.handle g.block) with
  | .error cause =>
    ⟨w.note (.stateOrphaned g.registry g.entry g.block g.handle), .failed (.panic cause),
      guardTasks g⟩
  | .ok (.error cause, w) =>
    ⟨w.note (.stateOrphaned g.registry g.entry g.block g.handle), .failed (.panic cause),
      guardTasks g⟩
  | .ok (.ok scrubbed, w) =>
    ⟨w.note (.stateRemoved g.registry g.entry g.block g.handle scrubbed), .done, guardTasks g⟩

-- The name goes first.
def destroy (w : World) (t : ThreadId) (name : Name) : Outcome :=
  match w.states.find? name with
  | none => .fail w .noSuchName
  | some g => { w with states := w.states.erase name }.giveUp t g

-- The last reference to go takes the block out of the world, and its objects are dropped.
def releaseBlock (w : World) (later : List Task) (b : BlockId) : World × List Task :=
  if w.refersToBlock b || later.any (·.refersToBlock b) then (w, [])
  else
    match w.blocks.find? b with
    | none => (w, [])
    | some block =>
      ({ w with blocks := w.blocks.erase b }, dropTasks b block.handle block.objects)

-- The last one to go takes the registry out of the world, and with it the references to the
-- blocks that are still registered there.
def releaseRegistry (w : World) (later : List Task) (r : RegistryId) : World × List Task :=
  if w.refersToRegistry r || later.any (·.refersToRegistry r) then (w, [])
  else
    match w.registries.find? r with
    | none => (w, [])
    | some registry =>
      ({ w with registries := w.registries.erase r }, registry.blocks.map .releaseBlock)

end AttachedState.World
