import Mathlib
import AttachedState.Session
import AttachedState.Proofs.Reservations

/-!
Scenes: a machine seen from the side of what refers to what.  Every step of a machine is a sequence
of moves, and a move changes one thing: a line, a name, a registration, a reference, a block.  What
the moves keep is therefore kept by every run, and each invariant is looked at once for each move.
-/

namespace AttachedState

namespace Event

-- The events that tell of registrations and their owners.
def ofState : Event → Bool
  | stateCreated .. | stateRemoved .. | stateOrphaned .. => true
  | _ => false

-- The events that tell of extension objects and of their factories.
def ofObject : Event → Bool
  | factoryStarted .. | objectMade .. | objectDropped .. => true
  | _ => false

-- The events that tell of lookups.
def ofLookup : Event → Bool
  | lookedUp .. => true
  | _ => false

-- The events of which no invariant speaks.
def aside : Event → Bool
  | slotOverwritten .. | keyRegistered .. | keyReleased .. => true
  | answered .. | exitRetrieved .. => true
  | _ => false

-- The numbers of the identities that an event names.  A dropped object is left out: it was made.
def numbers : Event → List Nat
  | objectMade b _ object => [b.number, object.id.number]
  | objectDropped b _ _ _ => [b.number]
  | stateCreated r _ b _ _ | stateRemoved r _ b _ _ | stateOrphaned r _ b _ => [r.number, b.number]
  | lineAttached _ r _ _ | lineDetached _ r _ | lookedUp _ r _ _ _ => [r.number]
  | _ => []

end Event

namespace Task

-- The tasks that carry a reference or an object, or stand for a lock.  The others only tell or ask.
def bears : Task → Bool
  | construct _ | make _ _ | dropObject _ _ _ | releaseBlock _ | releaseRegistry _ | unlock _ => true
  | _ => false

-- The block that a task is about to finish, if it has one under construction.
def site? : Task → Option Construction
  | construct site | make site _ => some site
  | _ => none

end Task

namespace World

-- The map of a registry that is in the world.
def map? (w : World) (r : RegistryId) : Option (HandleMap BlockId) :=
  (w.registries.find? r).map (·.contexts)

-- A registration: the entry is in the map of the registry, with this handle and this block.
def Registered (w : World) (r : RegistryId) (entry : Ticket) (h : Handle) (b : BlockId) : Prop :=
  ∃ contexts, w.map? r = some contexts ∧ contexts.entry? entry = some (h, b)

end World

-- What may become of key spaces, their names, keys and the next number: a space is opened, named or
-- unnamed, a key is registered or dropped, or several threads take slots and give them back.
inductive Filing (w : World) :
    Table SpaceId SlotPool → Table Name SpaceId → Table Name Key → Nat → Prop where
  | opened (name : Name) : Filing w (w.spaces.put ⟨w.next⟩ .empty) (w.spaceNames.put name ⟨w.next⟩)
      w.keys (w.next + 1)
  | shared (name : Name) (named : w.spaceNamed? source = some s) :
      Filing w w.spaces (w.spaceNames.put name s) w.keys w.next
  | unnamed (name : Name) : Filing w w.spaces (w.spaceNames.erase name) w.keys w.next
  | registered (named : w.spaceNamed? source = some s) (new : w.keys.find? name = none) :
      Filing w (w.spaces.put s (w.space s).reserve.2) w.spaceNames
        (w.keys.put name ⟨s, (w.space s).reserve.1, kind⟩) w.next
  | released (found : w.keys.find? name = some key)
      (freed : (w.space key.space).release? key.slot = some pool) :
      Filing w (w.spaces.put key.space pool) w.spaceNames (w.keys.erase name) w.next
  | unreserved (found : w.keys.find? name = some key)
      (free : (w.space key.space).release? key.slot = none) :
      Filing w w.spaces w.spaceNames (w.keys.erase name) w.next
  | raced (named : w.spaceNamed? source = some s)
      (kept : ∀ slot, pool.isReserved slot = (w.space s).isReserved slot)
      (served : ∃ calls, pool = SlotPool.after SlotPool.answer (w.space s) calls) :
      Filing w (w.spaces.put s pool) w.spaceNames w.keys w.next

theorem Filing.next_le {w : World} {spaces : Table SpaceId SlotPool}
    {spaceNames : Table Name SpaceId} {keys : Table Name Key} {next : Nat}
    (filing : Filing w spaces spaceNames keys next) : w.next ≤ next := by
  cases filing with
  | opened => exact Nat.le_succ _
  | _ => exact Nat.le_refl _

-- Changes that touch no registration, no block and no reference: what a thread remembers and notes
-- in its lines, what it looks at under a lock, key spaces and keys, and words in the journal.
inductive Quiet : World → World → Prop where
  | noted (aside : e.aside = true) : Quiet w (w.note e)
  | filed (filing : Filing w spaces spaceNames keys next) :
      Quiet w { w with spaces, spaceNames, keys, next }
  | started (absent : w.threads.find? t = none) : Quiet w (w.setThread t .fresh)
  | looked (runs : w.threads.find? t = some thread) : Quiet w (w.setThread t thread.noteLookup)
  | left (runs : w.threads.find? t = some thread) :
      Quiet w (w.setThread t { thread with atExit := thread.atExit ++ [retrieval] })
  | pruned (runs : w.threads.find? t = some thread) : Quiet w (w.setThread t
      { thread with memos := thread.memos.filter fun memo => w.registries.contains memo.registry })
  | asked (live : w.registries.find? r = some registry) :
      Quiet w (w.setRegistry r { registry with holder := none })
  | attached (runs : w.threads.find? t = some thread) (free : thread.depth = 0)
      (live : w.registries.find? r = some registry) (new : thread.memo? r = none)
      (kept : thread.memosGone = false) :
      Quiet w (((w.setRegistry r { registry.attach.2 with holder := none }).setThread t
        { thread with memos := thread.memos ++ [⟨r, registry.attach.1, none⟩] }).note
        (.lineAttached t r registry.label registry.attach.1))
  | hit (runs : w.threads.find? t = some thread) (known : memo ∈ thread.memos)
      (live : w.registries.find? memo.registry = some registry)
      (holds : registry.lineHolds memo.line h = true) (block : memo.block = some b)
      (present : w.blocks.contains b = true) :
      Quiet w (w.note (.lookedUp t memo.registry h (some b) .line))
  | resolved (runs : w.threads.find? t = some thread) (free : thread.depth = 0)
      (known : memo ∈ thread.memos) (live : w.registries.find? memo.registry = some registry)
      (cold : w.remembered? memo h = none) :
      Quiet w (((w.setRegistry memo.registry
          { (registry.resolve memo.line h).2 with holder := none }).setThread t
        (thread.setMemo { memo with block := registry.contexts.get? h })).note
        (.lookedUp t memo.registry h (registry.contexts.get? h) .map))
  | direct (runs : w.threads.find? t = some thread) (free : thread.depth = 0)
      (gone : thread.memosGone = true) (live : w.registries.find? r = some registry) :
      Quiet w (w.note (.lookedUp t r h (registry.contexts.get? h) .direct))
  | detached (runs : w.threads.find? t = some thread) (free : thread.depth = 0)
      (memos : thread.memos = memo :: rest) (live : w.registries.find? memo.registry = some registry) :
      Quiet w (((w.setRegistry memo.registry { registry.detach memo.line with holder := none }).setThread
        t { thread with memos := rest }).note (.lineDetached t memo.registry memo.line))
  | forgot (runs : w.threads.find? t = some thread) (memos : thread.memos = memo :: rest)
      (gone : w.registries.find? memo.registry = none) :
      Quiet w (w.setThread t { thread with memos := rest })
  | gone (runs : w.threads.find? t = some thread) (memos : thread.memos = []) :
      Quiet w (w.setThread t { thread with memosGone := true })

-- The running thread and its tasks that bear something.  `owners` are the owners of registrations
-- that the code at work has in its hands, not yet or no longer under a name.
structure Scene where
  world : World
  thread : ThreadId
  owners : List Guard
  tasks : List Task

namespace Scene

def start (hashing : RegistryId → Handle → UInt64) : Scene := ⟨.start hashing, .main, [], []⟩

-- Every owner there is, under a name or in somebody's hands.
def guards (s : Scene) : List Guard := s.world.states.rows.map (·.2) ++ s.owners

def needsBlock (s : Scene) (b : BlockId) : Bool :=
  s.world.refersToBlock b || s.owners.any (·.block = b) || s.tasks.any (·.refersToBlock b)

def needsRegistry (s : Scene) (r : RegistryId) : Bool :=
  s.world.refersToRegistry r || s.owners.any (·.registry = r) || s.tasks.any (·.refersToRegistry r)

end Scene

-- What can happen, one thing at a time.  A premise is what was checked before, or what is at hand.
inductive Move : Scene → Scene → Prop where
  | turned (idle : s.tasks = []) : Move s { s with thread := t }
  | quiet (change : Quiet s.world w) : Move s { s with world := w }
  | ended (runs : s.world.threads.find? t = some thread) (free : thread.depth = 0)
      (memos : thread.memos = []) : Move s { s with
        world := { s.world with threads := s.world.threads.erase t }.note (.threadEnded t) }
  | locked (runs : s.world.threads.find? s.thread = some thread) (free : thread.depth = 0)
      (live : s.world.registries.find? r = some registry) : Move s { s with
        world := (s.world.setThread s.thread { thread with depth := 1 }).setRegistry r
          { registry with holder := some s.thread }
        tasks := .unlock r :: .releaseRegistry r :: s.tasks }
  | unlocked (first : s.tasks = .unlock r :: rest)
      (runs : s.world.threads.find? s.thread = some thread)
      (live : s.world.registries.find? r = some registry) : Move s { s with
        world := (s.world.setThread s.thread { thread with depth := thread.depth - 1 }).setRegistry r
          { registry with holder := none }
        tasks := rest }
  | opened (new : s.world.registryNames.find? name = none) : Move s { s with
      world := { s.world with
        registries := s.world.registries.put ⟨s.world.next⟩
          (.fresh name (s.world.hashing ⟨s.world.next⟩))
        registryNames := s.world.registryNames.put name ⟨s.world.next⟩
        next := s.world.next + 1 } }
  | shared (live : s.world.registries.find? r = some registry) : Move s { s with
      world := { s.world with registryNames := s.world.registryNames.put name r }
      tasks := ((s.world.registryNames.find? name).map .releaseRegistry).toList ++ s.tasks }
  | unnamed (named : s.world.registryNames.find? name = some r) : Move s { s with
      world := { s.world with registryNames := s.world.registryNames.erase name }
      tasks := .releaseRegistry r :: s.tasks }
  | retained (live : s.world.registries.find? r = some registry) :
      Move s { s with tasks := .releaseRegistry r :: s.tasks }
  | spared (first : s.tasks = .releaseRegistry r :: rest)
      (needed : Scene.needsRegistry { s with tasks := rest } r = true) : Move s { s with tasks := rest }
  | closed (r : RegistryId) (registry : Registry) (rest : List Task)
      (first : s.tasks = .releaseRegistry r :: rest)
      (last : Scene.needsRegistry { s with tasks := rest } r = false)
      (live : s.world.registries.find? r = some registry) : Move s { s with
        world := { s.world with registries := s.world.registries.erase r }
        tasks := registry.blocks.map .releaseBlock ++ rest }
  | held (present : s.world.blocks.find? b = some block) : Move s { s with
      world := { s.world with held := s.world.held.put name b }
      tasks := ((s.world.held.find? name).map .releaseBlock).toList ++ s.tasks }
  | unheld (named : s.world.held.find? name = some b) : Move s { s with
      world := { s.world with held := s.world.held.erase name }
      tasks := .releaseBlock b :: s.tasks }
  | released (first : s.tasks = .releaseBlock b :: rest)
      (needed : Scene.needsBlock { s with tasks := rest } b = true) : Move s { s with tasks := rest }
  | fell (b : BlockId) (block : Block) (rest : List Task)
      (first : s.tasks = .releaseBlock b :: rest)
      (last : Scene.needsBlock { s with tasks := rest } b = false)
      (present : s.world.blocks.find? b = some block) : Move s { s with
        world := { s.world with blocks := s.world.blocks.erase b }
        tasks := dropTasks b block.handle block.objects ++ rest }
  | begun (site : Construction) (registry : Registry)
      (live : s.world.registries.find? site.registry = some registry)
      (fresh : site.block = ⟨s.world.next⟩) (vacant : ∀ object ∈ site.slots, object = none)
      (room : ∀ f ∈ site.pending, f.slot < site.slots.length) : Move s { s with
        world := { s.world with next := s.world.next + 1 }
        tasks := .construct site :: s.tasks }
  | tried (site : Construction) (f : Factory) (later : List Factory) (rest : List Task)
      (first : s.tasks = .construct site :: rest) (pending : site.pending = f :: later) : Move s { s with
        world := s.world.note (.factoryStarted site.block f.slot site.handle)
        tasks := .make { site with pending := later } f :: rest }
  | made (site : Construction) (f : Factory) (object : Object) (rest : List Task)
      (first : s.tasks = .make site f :: rest) (fresh : object.id = ⟨s.world.next⟩) : Move s { s with
        world := { s.world with next := s.world.next + 1 }.note (.objectMade site.block f.slot object)
        tasks := ((site.built.object? f.slot).map (.dropObject site.block site.handle)).toList ++
          .construct { site with slots := site.slots.set f.slot (some object) } :: rest }
  | abandoned (task : Task) (site : Construction) (rest : List Task)
      (first : s.tasks = task :: rest) (under : task.site? = some site) : Move s { s with
      tasks := dropTasks site.block site.handle site.built.objects ++
        .releaseRegistry site.registry :: rest }
  | enrolled (site : Construction) (registry : Registry) (entry : Ticket)
      (contexts : HandleMap BlockId) (rest : List Task) (first : s.tasks = .construct site :: rest)
      (live : s.world.registries.find? site.registry = some registry)
      (inserted : registry.contexts.insert site.handle site.block = .ok (entry, contexts)) :
      Move s { s with
        world := { s.world.setRegistry site.registry { registry with contexts, holder := none } with
          blocks := s.world.blocks.put site.block site.built }.note
          (.stateCreated site.registry entry site.block site.handle site.built.slotCount)
        owners := s.owners ++ [⟨site.registry, entry, site.handle, site.block⟩]
        tasks := .releaseRegistry site.registry :: rest }
  | entitled (name : Name) (g : Guard) (hands : s.owners = [g])
      (new : s.world.states.find? name = none) : Move s { s with
      world := { s.world with states := s.world.states.put name g }
      owners := [] }
  | disowned (name : Name) (g : Guard) (named : s.world.states.find? name = some g) : Move s { s with
      world := { s.world with states := s.world.states.erase name }
      owners := g :: s.owners }
  | withdrawn (g : Guard) (registry : Registry) (contexts : HandleMap BlockId)
      (front back : List Guard) (before after : List Task)
      (hands : s.owners = front ++ g :: back) (tasks : s.tasks = before ++ after)
      (live : s.world.registries.find? g.registry = some registry)
      (removed : registry.contexts.remove? g.entry = some ((g.handle, g.block), contexts)) :
      Move s { s with
        world := (s.world.setRegistry g.registry
          { ({ registry with contexts }).scrub g.handle with holder := none }).note
          (.stateRemoved g.registry g.entry g.block g.handle (registry.holding g.handle))
        owners := front ++ back
        tasks := before ++ World.guardTasks g ++ after }
  | orphaned (g : Guard) (thread : Thread) (front back : List Guard) (before after : List Task)
      (hands : s.owners = front ++ g :: back) (tasks : s.tasks = before ++ after)
      (runs : s.world.threads.find? s.thread = some thread) (held : thread.depth ≠ 0) :
      Move s { s with
        world := s.world.note (.stateOrphaned g.registry g.entry g.block g.handle)
        owners := front ++ back
        tasks := before ++ World.guardTasks g ++ after }
  | dropped (b : BlockId) (h : Handle) (object : Object) (registered : Option (Except Panic Bool))
      (rest : List Task) (first : s.tasks = .dropObject b h object :: rest) : Move s { s with
      world := s.world.note (.objectDropped b h object registered)
      tasks := rest }

namespace Scene

abbrev Moves : Scene → Scene → Prop := Relation.ReflTransGen Move

-- The scenes that come about from the start of a session.
def Arises (hashing : RegistryId → Handle → UInt64) (s : Scene) : Prop := Moves (start hashing) s

end Scene

end AttachedState
