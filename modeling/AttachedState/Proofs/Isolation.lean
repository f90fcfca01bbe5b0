import AttachedState.Proofs.Fillings

/-!
Isolation.  Keys that are registered at the same moment share no slot.  So a block that is made with
one factory for each of some keys gives each of these what its own factory made, and nothing to any
other key, for as long as it is in the world.
-/

namespace AttachedState

-- A block is no longer than all of the slots that are supplied for it require.
theorem Block.sizeFor_le {slots : List Slot} {bound : Nat} (below : ∀ slot ∈ slots, slot < bound) :
    Block.sizeFor slots ≤ bound := by
  induction slots with
  | nil => exact Nat.zero_le _
  | cons first rest ih =>
    have later := ih fun slot listed => below slot (List.mem_cons_of_mem _ listed)
    simp only [Block.sizeFor, List.map_cons, List.foldr_cons] at later ⊢
    exact Nat.max_le.mpr ⟨below first List.mem_cons_self, later⟩

namespace World

variable {w after : World} {t : ThreadId} {s : SpaceId} {supplies : List (Supply Action)}
  {factories : List Factory}

theorem factory?_eq_some {supply : Supply Action} {f : Factory} :
    supply.factory? w = some f ↔ ∃ key, w.keys.find? supply.key = some key ∧
      f = ⟨key.slot, key.kind, supply.source, supply.before, supply.failure, supply.onDrop⟩ := by
  unfold Supply.factory?
  rw [Option.map_eq_some_iff]
  simp only [eq_comm]

theorem beginCreation_pending {asked : Option Action} {creation : Creation} {site : Construction}
    (begun : w.beginCreation t asked creation supplies = (.ok site, after)) :
    supplies.mapM (·.factory? w) = some site.pending ∧
      site.slots.length = Block.sizeFor (site.pending.map (·.slot)) := by
  unfold beginCreation at begun
  repeat' split at begun
  all_goals simp only [Prod.mk.injEq, reduceCtorEq, false_and, Except.ok.injEq] at begun
  rename_i factories found _ _ _ number numbered taken
  obtain ⟨rfl, _⟩ := begun
  exact ⟨found, List.length_replicate⟩

-- Who supplies what: each factory stands for the key of a supply, and each supply has a factory.
theorem exists_supply (made : supplies.map (·.factory? w) = factories.map some) {f : Factory}
    (listed : f ∈ factories) : ∃ supply ∈ supplies, supply.factory? w = some f := by
  have there : some f ∈ supplies.map (·.factory? w) := by
    rw [made]
    exact List.mem_map_of_mem listed
  exact List.mem_map.mp there

theorem exists_factory (made : supplies.map (·.factory? w) = factories.map some)
    {supply : Supply Action} (listed : supply ∈ supplies) :
    ∃ f ∈ factories, supply.factory? w = some f := by
  have there : supply.factory? w ∈ factories.map some := by
    rw [← made]
    exact List.mem_map_of_mem (f := (·.factory? w)) listed
  obtain ⟨f, known, same⟩ := List.mem_map.mp there
  exact ⟨f, known, same.symm⟩

theorem exists_key (made : supplies.map (·.factory? w) = factories.map some)
    (live : ∀ supply ∈ supplies, ∃ key, w.keys.find? supply.key = some key ∧ key.space = s)
    {f : Factory} (listed : f ∈ factories) : ∃ supply ∈ supplies, ∃ key,
      w.keys.find? supply.key = some key ∧ key.space = s ∧ f.slot = key.slot ∧ f.kind = key.kind := by
  obtain ⟨supply, there, makes⟩ := exists_supply made listed
  obtain ⟨key, found, here⟩ := live supply there
  obtain ⟨same, foundToo, rfl⟩ := factory?_eq_some.mp makes
  cases found.symm.trans foundToo
  exact ⟨supply, there, key, found, here, rfl, rfl⟩

-- A block for keys of one space is no longer than the space.
theorem Keyed.sizeFor_le (keyed : w.Keyed) (made : supplies.map (·.factory? w) = factories.map some)
    (live : ∀ supply ∈ supplies, ∃ key, w.keys.find? supply.key = some key ∧ key.space = s) :
    Block.sizeFor (factories.map (·.slot)) ≤ (w.space s).highWater := by
  refine Block.sizeFor_le fun slot listed => ?_
  obtain ⟨f, there, rfl⟩ := List.mem_map.mp listed
  obtain ⟨supply, _, key, found, rfl, slot, _⟩ := exists_key made live there
  rw [slot]
  exact SlotPool.lt_highWater (keyed.reserved supply.key key found)

-- Factories of different keys of one space have different slots.
theorem Keyed.slots_nodup (keyed : w.Keyed) (made : supplies.map (·.factory? w) = factories.map some)
    (family : (supplies.map (·.key)).Nodup)
    (live : ∀ supply ∈ supplies, ∃ key, w.keys.find? supply.key = some key ∧ key.space = s) :
    (factories.map (·.slot)).Nodup := by
  have slots : (factories.map (·.slot)).map some
      = supplies.map fun supply => (supply.factory? w).map (·.slot) := by
    have same := congrArg (List.map (Option.map Factory.slot)) made
    simpa only [List.map_map, Function.comp_def, Option.map_some] using same.symm
  refine List.Nodup.of_map some ?_
  rw [slots]
  refine List.Nodup.map_on (fun one listed two listedToo same => ?_) (List.Nodup.of_map _ family)
  obtain ⟨key, found, here⟩ := live one listed
  obtain ⟨key', foundToo, hereToo⟩ := live two listedToo
  simp only [Supply.factory?, found, foundToo, Option.map_some, Option.some.injEq] at same
  have name := keyed.apart one.key two.key key key' found foundToo (here.trans hereToo.symm) same
  exact List.inj_on_of_nodup_map family listed listedToo name

end World

namespace Machine

variable {hashing : RegistryId → Handle → UInt64} {start m after : Machine} {nested : Bool}
  {creation : Creation} {supplies : List (Supply Action)} {rest : List Task} {site : Construction}
  {s : SpaceId}

-- A block that holds what was made for the keys of the supplies, as they were at the start, and
-- nothing for any other key that was registered in the space then.
structure Isolated (start : Machine) (s : SpaceId) (supplies : List (Supply Action))
    (site : Construction) (block : Block) : Prop where
  handle : block.handle = site.handle
  sized : block.slotCount ≤ (start.world.space s).highWater
  supplied : ∀ supply ∈ supplies, ∀ key, start.world.keys.find? supply.key = some key →
    ∃ f object, supply.factory? start.world = some f ∧ MadeBy start site f object ∧
      block.object? key.slot = some object ∧ block.read? key.slot key.kind = some object.value
  others : ∀ name key, start.world.keys.find? name = some key → key.space = s →
    name ∉ supplies.map (·.key) →
    block.object? key.slot = none ∧ block.read? key.slot key.kind = none

theorem read?_of_object? {block : Block} {slot : Slot} {kind : Kind} {object : Object}
    (there : block.object? slot = some object) (same : object.value.kind = kind) :
    block.read? slot kind = some object.value := by
  unfold Block.read?
  rw [there, Option.bind_some, if_pos same]

theorem Filled.isolated {block : Block} (keyed : start.world.Keyed)
    (made : supplies.map (·.factory? start.world) = site.pending.map some)
    (live : ∀ supply ∈ supplies, ∃ key, start.world.keys.find? supply.key = some key ∧ key.space = s)
    (sized : site.slots.length = Block.sizeFor (site.pending.map (·.slot)))
    (handle : block.handle = site.handle) (filled : Filled start site site.pending block.slots) :
    Isolated start s supplies site block := by
  refine ⟨handle, ?_, ?_, ?_⟩
  · rw [Block.slotCount, filled.length, sized]
    exact keyed.sizeFor_le made live
  · intro supply listed key found
    obtain ⟨f, there, makes⟩ := World.exists_factory made listed
    obtain ⟨same, foundToo, isThis⟩ := World.factory?_eq_some.mp makes
    rw [found] at foundToo
    cases foundToo
    obtain ⟨object, placed, madeBy⟩ := filled.made f there
    have slot : f.slot = key.slot := by rw [isThis]
    have kind : f.kind = key.kind := by rw [isThis]
    rw [slot] at placed
    exact ⟨f, object, makes, madeBy, placed, read?_of_object? placed (madeBy.kind.trans kind)⟩
  · intro name key found here absent
    have empty : block.object? key.slot = none := by
      refine filled.clear key.slot fun taken => absent ?_
      obtain ⟨f, there, slot⟩ := List.mem_map.mp taken
      obtain ⟨supply, listed, other, foundToo, hereToo, slotToo, _⟩ := World.exists_key made live there
      have same := keyed.apart name supply.key key other found foundToo (here.trans hereToo.symm)
        (slot.symm.trans slotToo)
      rw [same]
      exact List.mem_map_of_mem listed
    refine ⟨empty, ?_⟩
    unfold Block.read?
    rw [empty, Option.bind_none]

-- What becomes of a construction that gets one factory for each of some keys of one space.
structure Separates (start : Machine) (s : SpaceId) (supplies : List (Supply Action))
    (site : Construction) (rest : List Task) : Prop where
  -- No slot is supplied twice: a factory whose turn has come finds its slot empty.
  distinct : (site.pending.map (·.slot)).Nodup
  empty : ∀ m, Later start.step m → ∀ now f behind, m.tasks = .make now f :: behind →
    now.block = site.block → now.built.object? f.slot = none
  -- In the end all factories have run, unless one of them panics.
  ends : ∃ n, (∃ slots, (start.steps n).tasks = .construct { site with slots, pending := [] } :: rest) ∨
    ∃ now f cause, (start.steps n).tasks = .make now f :: rest ∧ now.block = site.block ∧
      ((start.steps n).world.makeValue start.thread site.handle f).1 = .error cause
  built : ∀ m, Later start.step m → ∀ now behind, m.tasks = .construct now :: behind →
    now.block = site.block → now.pending = [] → Isolated start s supplies site now.built
  -- As long as the block is in the world it stays as it is, whatever is registered and dropped, and
  -- none of its objects was dropped.
  kept : ∀ m, Later start.step m → ∀ block, m.world.blocks.find? site.block = some block →
    Isolated start s supplies site block ∧ block.slotCount ≤ (m.world.space s).highWater ∧
    (∀ slot object, block.object? slot = some object →
      m.world.journal.countP (·.drops object.id) = 0) ∧
    ∀ after, Later m after → ∀ other, after.world.blocks.find? site.block = some other →
      other = block

theorem steps_of_creation (tasks : start.tasks = .perform nested (.create creation supplies) :: rest)
    (begun : (start.world.beginCreation start.thread
      (if nested then some (.create creation supplies) else none) creation supplies).1 = .ok site) :
    start.step.tasks = .construct site :: rest := by
  rw [step_of_cons tasks]
  simp only [World.take, World.perform]
  split <;> rename_i began <;> rw [began] at begun <;> cases begun
  rfl

theorem slots_isolated (reached : start.Reached hashing)
    (tasks : start.tasks = .perform nested (.create creation supplies) :: rest)
    (begun : (start.world.beginCreation start.thread
      (if nested then some (.create creation supplies) else none) creation supplies).1 = .ok site)
    (family : (supplies.map (·.key)).Nodup)
    (live : ∀ supply ∈ supplies, ∃ key, start.world.keys.find? supply.key = some key ∧ key.space = s) :
    Separates start s supplies site rest := by
  have began : start.world.beginCreation start.thread
      (if nested then some (.create creation supplies) else none) creation supplies
        = (.ok site, _) := Prod.ext begun rfl
  obtain ⟨found, sized⟩ := World.beginCreation_pending began
  obtain ⟨_, _, _, vacant, room⟩ := World.beginCreation_site began
  have keyed := Scene.Arises.keyed reached.arises
  have made := map_of_mapM found
  have distinct := keyed.slots_nodup made family live
  have first := steps_of_creation tasks begun
  have stage : Stage start site rest start.step :=
    .placing 1 site.slots [] site.pending rfl rfl (filled_nil vacant) first
  have stages : ∀ m, Later start.step m → m.Reached hashing ∧ Stage start site rest m :=
    fun m later => ⟨reached.step.on later, stage.later reached.step room distinct later⟩
  refine ⟨distinct, ?_, ?_, ?_, ?_⟩
  · intro m later now f behind waits same
    obtain ⟨reachedThen, stageThen⟩ := stages m later
    exact stageThen.of_making reachedThen distinct waits same
  · obtain ⟨k, finished | ⟨slots, f, later, cause, making, failed⟩⟩ :=
      construction_ends (n := 1) site.pending first
    · exact ⟨k, .inl finished⟩
    · exact ⟨k, .inr ⟨_, f, cause, making, rfl, failed⟩⟩
  · intro m later now behind waits same finished
    obtain ⟨reachedThen, stageThen⟩ := stages m later
    obtain ⟨handle, filled⟩ := stageThen.of_finished reachedThen waits same finished
    exact Filled.isolated keyed made live sized handle filled
  · intro m later block there
    obtain ⟨reachedThen, stageThen⟩ := stages m later
    obtain ⟨handle, filled⟩ := stageThen.of_find? reachedThen there
    have isolated := Filled.isolated keyed made live sized handle filled
    refine ⟨isolated, isolated.sized.trans ?_, ?_, ?_⟩
    · exact Scene.Arises.highWater reached.arises
        (Later.moves reached (Relation.ReflTransGen.head (.step start) later)) s
    · exact fun slot object placed => Scene.Arises.undropped reachedThen.arises there placed
    · intro after laterThen other thereToo
      have settled := Scene.Arises.settled_of_find? reachedThen.arises there
      exact ((settled.moves (Later.moves reachedThen laterThen)).blocks other thereToo)

/-! A session in which two keys of one kind are registered, and a context gets an extension for the
second of them and then one for the first. -/

def supplyByte (key : Name) (value : Int) : Supply Action :=
  ⟨key, .given (.number value), [], none, []⟩

def firstKey : Machine :=
  told ⟨.start fun _ _ => 0, .main, []⟩
    (.act .main (.operate (.registerKey "first" globalName .byte))) 2

def bothKeys : Machine :=
  firstKey.told (.act .main (.operate (.registerKey "second" globalName .byte))) 2

def pairing : Machine :=
  bothKeys.told (.act .main (.create ⟨globalName, "state", 64, false⟩
    [supplyByte "second" 2, supplyByte "first" 1])) 0

theorem pairing_reached : pairing.Reached fun _ _ => 0 := by
  have first : Later ⟨.start fun _ _ => 0, .main, []⟩ firstKey := later_told rfl (by trivial) 2
  have both : Later firstKey bothKeys := later_told rfl (by trivial) 2
  exact (first.trans both).trans (later_told rfl (by trivial) 0)

theorem slots_isolated_pairing : ∃ block,
    (pairing.steps 6).world.blocks.find? ⟨1⟩ = some block ∧
    block.read? 0 .byte = some (.byte 1) ∧ block.read? 1 .byte = some (.byte 2) ∧
    block.slotCount ≤ ((pairing.steps 6).world.space globalSpace).highWater := by
  have live : ∀ supply ∈ [supplyByte "second" 2, supplyByte "first" 1], ∃ key,
      pairing.world.keys.find? supply.key = some key ∧ key.space = globalSpace := by
    intro supply listed
    simp only [List.mem_cons, List.not_mem_nil, or_false] at listed
    rcases listed with rfl | rfl <;> exact ⟨_, rfl, rfl⟩
  have tasks : pairing.tasks = [.perform false (.create ⟨globalName, "state", 64, false⟩
      [supplyByte "second" 2, supplyByte "first" 1])] := rfl
  have separates := slots_isolated pairing_reached tasks rfl (by decide) live
  obtain ⟨_, small, _⟩ := separates.kept (pairing.steps 6) (later_steps pairing.step 5) _ rfl
  exact ⟨_, rfl, rfl, rfl, small⟩

end Machine

end AttachedState
