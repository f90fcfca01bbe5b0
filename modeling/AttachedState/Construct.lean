import AttachedState.Ownership

/-!
The creation of a context's state.  Nothing of it runs under a lock but the test whether the context
has state already and the registration at the end.  In between the factories run, one after the
other, each with the actions of its host code; whatever those do, the objects made so far are either
registered together or dropped together.
-/

namespace AttachedState

namespace Supply

-- The key's slot and kind are those of now.
def factory? (w : World) (s : Supply Action) : Option Factory :=
  (w.keys.find? s.key).map fun key =>
    ⟨key.slot, key.kind, s.source, s.before, s.failure, s.onDrop⟩

end Supply

-- Only probes run anything when they are dropped.
def Factory.dropActions (f : Factory) : List Action := if f.kind = .probe then f.onDrop else []

namespace Construction

def built (site : Construction) : Block := ⟨site.handle, site.slots⟩

-- The creation's reference to its registry goes before the answer is given.
def close (site : Construction) (answer : Answer) : List Task :=
  [.releaseRegistry site.registry, .answer site.nested answer]

-- The objects made so far are dropped first.
def abandon (site : Construction) (failure : Failure) : List Task :=
  dropTasks site.block site.handle site.built.objects ++ site.close (.failed failure)

end Construction

namespace World

def beginCreation (w : World) (t : ThreadId) (nested : Option Action) (creation : Creation)
    (supplies : List (Supply Action)) : Except Failure Construction × World :=
  match Handle.ofAddress? creation.address with
  | none => (.error .nullHandle, w)
  | some h =>
  match w.registryNamed? creation.registry with
  | none => (.error .noSuchName, w)
  | some r =>
  if w.states.contains creation.state then (.error .nameTaken, w) else
  match supplies.mapM (·.factory? w) with
  | none => (.error .noSuchName, w)
  | some factories =>
  match w.underLock? t r (·.contexts.contains h) with
  | .error cause => (.error (.panic cause), w)
  | .ok true => (.error ((Refusal.duplicate h).raise creation.strict), w)
  | .ok false =>
    let (number, w) := w.takeNumber
    let size := Block.sizeFor (factories.map (·.slot))
    (.ok
      { nested, creation, registry := r, block := ⟨number⟩, handle := h
        slots := List.replicate size none, pending := factories }, w)

-- A value is copied by a lookup of this thread.
def supplied (w : World) (t : ThreadId) (handle : Handle) :
    Source → Except Panic Datum × World
  | .given value => (.ok value, w)
  | .address => (.ok (.number handle.address.toNat), w)
  | .copied registry address key addend =>
    match w.registryNamed? registry, Handle.ofAddress? address, w.keys.find? key with
    | some r, some h, some key =>
      match w.lookUp t r h with
      | (.error cause, w) => (.error cause, w)
      | (.ok none, w) => (.error (.refused (.unregistered h)), w)
      | (.ok (some b), w) =>
        (.ok ((((w.read? key b).map Value.datum).getD .null).plus addend), w)
    | _, _, _ => (.error .misfit, w)

def makeValue (w : World) (t : ThreadId) (handle : Handle) (f : Factory) :
    Except Panic Value × World :=
  match f.failure with
  | some text => (.error (.raised text), w)
  | none =>
    match w.supplied t handle f.source with
    | (.error cause, w) => (.error cause, w)
    | (.ok data, w) =>
      match Value.ofDatum? f.kind data with
      | none => (.error .misfit, w)
      | some value => (.ok value, w)

-- An earlier object in the slot is dropped before the creation goes on.  A panic ends the
-- creation.
def make (w : World) (t : ThreadId) (site : Construction) (f : Factory) : World × List Task :=
  match w.makeValue t site.handle f with
  | (.error cause, w) => (w, site.abandon (.panic cause))
  | (.ok value, w) =>
    let (number, w) := w.takeNumber
    let object : Object := ⟨⟨number⟩, value, site.creation.registry, f.dropActions⟩
    let w := w.note (.objectMade site.block f.slot object)
    let grown := { site with slots := site.slots.set f.slot (some object) }
    match site.built.object? f.slot with
    | none => (w, [.construct grown])
    | some earlier =>
      (w, [.dropObject site.block site.handle earlier, .noteOverwritten site.handle f.slot,
        .construct grown])

-- A context that got state meanwhile keeps it, and the new block is dropped.
def register (w : World) (t : ThreadId) (site : Construction) : World × List Task :=
  match w.underLock t site.registry (·.register site.handle site.block) with
  | .error cause => (w, site.abandon (.panic cause))
  | .ok (none, w) =>
    (w, site.abandon ((Refusal.duplicate site.handle).raise site.creation.strict))
  | .ok (some entry, w) =>
    let g : Guard := ⟨site.registry, entry, site.handle, site.block⟩
    let w := { w with blocks := w.blocks.put site.block site.built }.note
      (.stateCreated site.registry entry site.block site.handle site.built.slotCount)
    if w.states.contains site.creation.state then
      let outcome := w.giveUp t g
      (outcome.world, outcome.first ++ site.close (.failed .nameTaken))
    else
      let w := { w with states := w.states.put site.creation.state g }
      match w.describe? site.block with
      | some description => (w, site.close (.block description none))
      | none => (w, site.close (.failed .noSuchName))

def construct (w : World) (t : ThreadId) (site : Construction) : World × List Task :=
  match site.pending with
  | [] => w.register t site
  | f :: rest =>
    (w.note (.factoryStarted site.block f.slot site.handle),
      f.before.map (.perform true) ++ [.make { site with pending := rest } f])

-- A probe finds out whether its context is registered, in the registry that now has the name it
-- was created through.  Then the object's own actions are performed.
def dropObject (w : World) (t : ThreadId) (b : BlockId) (handle : Handle) (object : Object) :
    World × List Task :=
  let registered := if object.value.kind = .probe then
      (w.registryNamed? object.through).map fun r => w.underLock? t r (·.contexts.contains handle)
    else none
  (w.note (.objectDropped b handle object registered), object.onDrop.map (.perform true))

end World

end AttachedState
