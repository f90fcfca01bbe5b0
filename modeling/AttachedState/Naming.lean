import AttachedState.Ownership

/-!
Opening, sharing and dropping registries and key spaces, registering keys, and showing them.
-/

namespace AttachedState

namespace Key

def outline (key : Key) : Outline :=
  .named "ExtensionKey"
    [("slot", .number key.slot), ("extension", .quoted key.kind.typeName)]

def factoryOutline (key : Key) : Outline :=
  .partly "ExtensionFactory" [("slot", .number key.slot)]

end Key

def SlotPool.spaceOutline (pool : SlotPool) : Outline :=
  .named "KeySpace" [("registered", .list (pool.reserved.map .number))]

-- Entries of the process-wide registry differ from run to run; they are masked, and the mask
-- always stays on one line.
def Guard.outline (g : Guard) (block : Block) : Outline :=
  let entry : Outline := if g.registry = globalRegistry then .atom "EntryId(_)"
    else .around "EntryId" (.atom g.entry.text)
  .named "ExtensionState" [("entry", entry), ("block", block.outline)]

namespace World

/-! Registries. -/

-- A registry is made without any lock.
def makeRegistry (w : World) (label : Name) : RegistryId × World :=
  let (number, w) := w.takeNumber
  let r : RegistryId := ⟨number⟩
  (r, w.setRegistry r (.fresh label (w.hashing r)))

-- If the name is taken, the registry that was made for it is gone again at once.
def nameRegistry (w made : World) (name : Name) (r : RegistryId) : Outcome :=
  if (w.registryNamed? name).isSome then .fail w .nameTaken
  else .of { made with registryNames := made.registryNames.put name r } .done

def newRegistry (w : World) (name : Name) : Outcome :=
  let (r, made) := w.makeRegistry name
  w.nameRegistry made name r

-- The host looks at the registry under its lock before it gives it the name, so it cannot while the
-- thread holds a registry lock.
def openRegistry (w : World) (t : ThreadId) (name : Name) : Outcome :=
  let (r, made) := w.makeRegistry name
  match made.underLock t r fun registry => ((), registry) with
  | .error cause => .fail w (.panic cause)
  | .ok (_, made) => w.nameRegistry made name r

-- What had the name before is given up.
def shareRegistry (w : World) (name source : Name) : Outcome :=
  match w.registryNamed? source with
  | none => .fail w .noSuchName
  | some r =>
    ⟨{ w with registryNames := w.registryNames.put name r }, .done,
      ((w.registryNames.find? name).map .releaseRegistry).toList⟩

def dropRegistry (w : World) (name : Name) : Outcome :=
  match w.registryNames.find? name with
  | none => .fail w .noSuchName
  | some r =>
    ⟨{ w with registryNames := w.registryNames.erase name }, .done, [.releaseRegistry r]⟩

def askRegistry (w : World) (t : ThreadId) (name : Name) (tell : Registry → Answer) : Outcome :=
  match w.registryNamed? name with
  | none => .fail w .noSuchName
  | some r =>
    match w.underLock t r fun registry => (tell registry, registry) with
    | .error cause => .fail w (.panic cause)
    | .ok (answer, w) => .of w answer

def showRegistry (w : World) (t : ThreadId) (name : Name) (layout : Layout) : Outcome :=
  w.askRegistry t name fun registry =>
    .registry registry.handles registry.lines.size (registry.outline.render layout)

-- The registry is looked for before the address is looked at.
def contains (w : World) (t : ThreadId) (name : Name) (address : UInt64) : Outcome :=
  match w.registryNamed? name, Handle.ofAddress? address with
  | none, _ => .fail w .noSuchName
  | some _, none => .fail w .nullHandle
  | some _, some h => w.askRegistry t name fun registry => .truth (registry.contexts.contains h)

def showState (w : World) (t : ThreadId) (name : Name) (layout : Layout) : Outcome :=
  match w.states.find? name with
  | none => .fail w .noSuchName
  | some g =>
    match w.blocks.find? g.block with
    | none => .fail w .noSuchName
    | some block =>
      match w.underLock t g.registry fun registry => (registry.contexts.size, registry) with
      | .error cause => .fail w (.panic cause)
      | .ok (contexts, w) => .of w (.state g.handle contexts ((g.outline block).render layout))

/-! Key spaces. -/

-- The name may have had another space.
def openSpace (w : World) (name : Name) : Outcome :=
  let (number, w) := w.takeNumber
  .of { w with
    spaces := w.spaces.put ⟨number⟩ .empty
    spaceNames := w.spaceNames.put name ⟨number⟩ } .done

def shareSpace (w : World) (name source : Name) : Outcome :=
  match w.spaceNamed? source with
  | none => .fail w .noSuchName
  | some s => .of { w with spaceNames := w.spaceNames.put name s } .done

def dropSpace (w : World) (name : Name) : Outcome :=
  if w.spaceNames.contains name then
    .of { w with spaceNames := w.spaceNames.erase name } .done
  else .fail w .noSuchName

def showSpace (w : World) (name : Name) (layout : Layout) : Outcome :=
  match w.spaceNamed? name with
  | none => .fail w .noSuchName
  | some s =>
    let pool := w.space s
    .of w (.space pool.reserved pool.size pool.isEmpty
      (if name = globalName then none else some pool.highWater)
      (pool.spaceOutline.render layout))

def isRegistered (w : World) (name : Name) (slot : Slot) : Outcome :=
  match w.spaceNamed? name with
  | none => .fail w .noSuchName
  | some s => .of w (.truth ((w.space s).isReserved slot))

/-! Keys. -/

def registerKey (w : World) (name space : Name) (kind : Kind) : Outcome :=
  if w.keys.contains name then .fail w .nameTaken
  else
    match w.spaceNamed? space with
    | none => .fail w .noSuchName
    | some s =>
      let (slot, pool) := (w.space s).reserve
      .of ({ w with
        spaces := w.spaces.put s pool
        keys := w.keys.put name ⟨s, slot, kind⟩ }.note (.keyRegistered slot kind)) (.number slot)

def dropKey (w : World) (name : Name) : Outcome :=
  match w.keys.find? name with
  | none => .fail w .noSuchName
  | some key =>
    let w := { w with keys := w.keys.erase name }
    match (w.space key.space).release? key.slot with
    | none => .fail w (.panic (.unreserved key.slot))
    | some pool =>
      .of ({ w with spaces := w.spaces.put key.space pool }.note (.keyReleased key.slot)) .done

def showKey (w : World) (name : Name) (layout : Layout) : Outcome :=
  match w.keys.find? name with
  | none => .fail w .noSuchName
  | some key =>
    .of w (.key key.slot (key.outline.render layout) (key.factoryOutline.render layout))

def keyIsIn (w : World) (name space : Name) : Outcome :=
  match w.keys.find? name, w.spaceNamed? space with
  | some key, some s => .of w (.truth (key.space = s))
  | _, _ => .fail w .noSuchName

end World

end AttachedState
