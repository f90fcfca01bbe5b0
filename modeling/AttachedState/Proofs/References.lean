import AttachedState.Proofs.Owners

/-!
References.  A registry or a block is in the world exactly as long as something refers to it: a name,
an owner, a registration, or a task that is still to give a reference up.  Lines and memos are not
among these.
-/

namespace AttachedState

theorem Registry.contains_blocks {registry : Registry} {b : BlockId} :
    registry.blocks.contains b = true ↔
      ∃ entry h, registry.contexts.entry? entry = some (h, b) := by
  simp only [Registry.blocks, List.contains_iff_mem, List.mem_map, Prod.exists]
  constructor
  · rintro ⟨entry, h, b, listed, rfl⟩
    exact ⟨entry, h, HandleMap.mem_toList.mp listed⟩
  · rintro ⟨entry, h, there⟩
    exact ⟨entry, h, b, HandleMap.mem_toList.mpr there, rfl⟩

theorem Registry.contains_blocks_insert {registry : Registry} (grown : Registry) {h : Handle} {b : BlockId}
    {entry : Ticket} (valid : registry.contexts.Valid)
    (inserted : registry.contexts.insert h b = .ok (entry, grown.contexts)) (other : BlockId) :
    grown.blocks.contains other = (decide (b = other) || registry.blocks.contains other) := by
  rw [Bool.eq_iff_iff, Bool.or_eq_true, Registry.contains_blocks, Registry.contains_blocks,
    decide_eq_true_iff]
  have entries := HandleMap.entry?_insert valid inserted
  constructor
  · rintro ⟨u, handle, there⟩
    rw [entries] at there
    split at there
    · cases there
      exact .inl rfl
    · exact .inr ⟨u, handle, there⟩
  · rintro (rfl | ⟨u, handle, there⟩)
    · exact ⟨entry, h, by rw [entries, if_pos rfl]⟩
    · refine ⟨u, handle, ?_⟩
      rw [entries, if_neg]
      · exact there
      · intro same
        rw [same, HandleMap.entry?_fresh valid inserted] at there
        cases there

theorem Registry.contains_blocks_remove {registry : Registry} (left : Registry) {h : Handle} {b : BlockId}
    {entry : Ticket} (removed : registry.contexts.remove? entry = some ((h, b), left.contexts))
    (other : BlockId) :
    registry.blocks.contains other
      = (decide (b = other) || left.blocks.contains other) := by
  rw [Bool.eq_iff_iff, Bool.or_eq_true, Registry.contains_blocks, Registry.contains_blocks,
    decide_eq_true_iff]
  have entries := HandleMap.entry?_remove removed
  constructor
  · rintro ⟨u, handle, there⟩
    by_cases same : u = entry
    · rw [same, HandleMap.entry?_of_remove? removed] at there
      cases there
      exact .inl rfl
    · exact .inr ⟨u, handle, by rw [entries, if_neg same]; exact there⟩
  · rintro (rfl | ⟨u, handle, there⟩)
    · exact ⟨entry, h, HandleMap.entry?_of_remove? removed⟩
    · rw [entries] at there
      split at there
      · cases there
      · exact ⟨u, handle, there⟩

namespace Task

theorem refersToRegistry_eq (r : RegistryId) :
    (∀ other, refersToRegistry r (releaseRegistry other) = decide (other = r)) ∧
    (∀ site, refersToRegistry r (construct site) = decide (site.registry = r)) ∧
    (∀ site f, refersToRegistry r (make site f) = decide (site.registry = r)) ∧
    (∀ b h object, refersToRegistry r (dropObject b h object) = false) ∧
    (∀ b, refersToRegistry r (releaseBlock b) = false) ∧
    (∀ other, refersToRegistry r (unlock other) = false) :=
  ⟨fun _ => rfl, fun _ => rfl, fun _ _ => rfl, fun _ _ _ => rfl, fun _ => rfl, fun _ => rfl⟩

theorem refersToBlock_eq (b : BlockId) :
    (∀ other, refersToBlock b (releaseBlock other) = decide (other = b)) ∧
    (∀ site, refersToBlock b (construct site) = false) ∧
    (∀ site f, refersToBlock b (make site f) = false) ∧
    (∀ other h object, refersToBlock b (dropObject other h object) = false) ∧
    (∀ r, refersToBlock b (releaseRegistry r) = false) ∧
    (∀ r, refersToBlock b (unlock r) = false) :=
  ⟨fun _ => rfl, fun _ => rfl, fun _ _ => rfl, fun _ _ _ => rfl, fun _ => rfl, fun _ => rfl⟩

end Task

theorem any_map_toList {α : Type} {f : α → Task} {p : Task → Bool} (found : Option α) :
    (found.map f).toList.any p = found.any fun a => p (f a) := by
  cases found <;> simp

theorem dropTasks_refersToRegistry (r : RegistryId) (b : BlockId) (h : Handle)
    (objects : List Object) : (dropTasks b h objects).any (·.refersToRegistry r) = false := by
  simp [dropTasks, Task.refersToRegistry_eq]

theorem dropTasks_refersToBlock (other b : BlockId) (h : Handle) (objects : List Object) :
    (dropTasks b h objects).any (·.refersToBlock other) = false := by
  simp [dropTasks, Task.refersToBlock_eq]

theorem Task.refersToRegistry_of_site? {task : Task} {site : Construction}
    (under : task.site? = some site) (r : RegistryId) :
    task.refersToRegistry r = decide (site.registry = r) := by
  cases task <;> cases under <;> rfl

theorem Task.refersToBlock_of_site? {task : Task} {site : Construction}
    (under : task.site? = some site) (b : BlockId) : task.refersToBlock b = false := by
  cases task <;> cases under <;> rfl

namespace Scene

structure Live (s : Scene) : Prop where
  registries : ∀ r, s.world.registries.contains r = s.needsRegistry r
  blocks : ∀ b, s.world.blocks.contains b = s.needsBlock b

end Scene

theorem World.contains_registries (w : World) (r : RegistryId) :
    w.registries.contains r = (w.map? r).isSome := by
  simp only [Table.contains, World.map?, Option.isSome_map]

-- The registries that are needed after a move are those that are there then.
theorem Move.registries {s s' : Scene} (tidy : s.world.Tidy)
    (live : ∀ r, s.world.registries.contains r = s.needsRegistry r) (move : Move s s')
    (r : RegistryId) : s'.world.registries.contains r = s'.needsRegistry r := by
  have there : ∀ {r : RegistryId} {registry : Registry}, s.world.registries.find? r = some registry →
      s.world.registries.contains r = true :=
    fun found => Table.contains_iff.mpr ⟨_, found⟩
  have put_back : ∀ {r' : RegistryId} {registry changed : Registry},
      s.world.registries.find? r' = some registry →
      (s.world.registries.put r' changed).contains r = s.world.registries.contains r := by
    intro r' registry changed found
    rw [Table.contains_put]
    by_cases same : r = r'
    · rw [same, there found, Bool.or_true]
    · simp [same]
  have none_any : ∀ {α : Type} (found : Option α), found.any (fun _ => false) = false := by simp
  have before := live r
  simp only [Scene.needsRegistry, World.refersToRegistry] at before
  cases move with
  | turned | ended => exact live r
  | quiet change =>
    rw [World.contains_registries, change.same.maps, ← World.contains_registries]
    simp only [Scene.needsRegistry, World.refersToRegistry, change.same.registryNames,
      change.same.states]
    exact before
  | locked runs free found =>
    apply (put_back found).trans
    have here := there found
    simp only [Scene.needsRegistry, World.refersToRegistry, World.setRegistry, World.setThread,
      List.any_cons, Task.refersToRegistry_eq]
    grind
  | unlocked first runs found =>
    apply (put_back found).trans
    rw [before, first]
    rfl
  | @opened _ name new =>
    rw [Table.any_erase tidy.registryNames name, new] at before
    simp only [Scene.needsRegistry, World.refersToRegistry, Table.contains_put,
      Table.any_put tidy.registryNames]
    grind
  | @shared _ _ name r' found =>
    have here := there found
    rw [Table.any_erase tidy.registryNames name] at before
    simp only [Scene.needsRegistry, World.refersToRegistry, Table.any_put tidy.registryNames,
      List.any_append, any_map_toList, Task.refersToRegistry_eq]
    grind
  | @unnamed r' _ name named =>
    rw [Table.any_erase tidy.registryNames name, named] at before
    simp only [Scene.needsRegistry, World.refersToRegistry, List.any_cons, Task.refersToRegistry_eq]
    grind
  | retained found =>
    have here := there found
    simp only [Scene.needsRegistry, World.refersToRegistry, List.any_cons, Task.refersToRegistry_eq]
    grind
  | spared first needed =>
    simp only [first, List.any_cons, Task.refersToRegistry_eq] at before
    simp only [Scene.needsRegistry, World.refersToRegistry] at needed ⊢
    grind
  | closed r' registry rest first last found =>
    have here := there found
    have bare : (registry.blocks.map Task.releaseBlock).any (·.refersToRegistry r) = false := by
      simp [Task.refersToRegistry_eq]
    simp only [first, List.any_cons, Task.refersToRegistry_eq] at before
    simp only [Scene.needsRegistry, World.refersToRegistry, Table.contains_erase, List.any_append,
      bare] at last ⊢
    grind
  | @held _ _ name b present =>
    simp only [Scene.needsRegistry, World.refersToRegistry, List.any_append, any_map_toList,
      Task.refersToRegistry_eq, none_any]
    grind
  | unheld =>
    simp only [Scene.needsRegistry, World.refersToRegistry, List.any_cons, Task.refersToRegistry_eq]
    grind
  | released first | dropped _ _ _ _ _ first =>
    simp only [first, List.any_cons, Task.refersToRegistry_eq] at before
    simp only [Scene.needsRegistry, World.refersToRegistry, World.note]
    grind
  | fell b block rest first last present =>
    simp only [first, List.any_cons, Task.refersToRegistry_eq] at before
    simp only [Scene.needsRegistry, World.refersToRegistry, List.any_append, dropTasks_refersToRegistry]
    grind
  | begun site registry found =>
    have here := there found
    simp only [Scene.needsRegistry, World.refersToRegistry, List.any_cons, Task.refersToRegistry_eq]
    grind
  | tried site f later rest first pending =>
    simp only [first, List.any_cons, Task.refersToRegistry_eq] at before
    simp only [Scene.needsRegistry, World.refersToRegistry, World.note, List.any_cons,
      Task.refersToRegistry_eq]
    exact before
  | made site f object rest first =>
    simp only [first, List.any_cons, Task.refersToRegistry_eq] at before
    simp only [Scene.needsRegistry, World.refersToRegistry, World.note, List.any_append, any_map_toList,
      List.any_cons, Task.refersToRegistry_eq, none_any]
    grind
  | abandoned task site rest first under =>
    simp only [first, List.any_cons, Task.refersToRegistry_of_site? under] at before
    simp only [Scene.needsRegistry, World.refersToRegistry, List.any_append, dropTasks_refersToRegistry,
      List.any_cons, Task.refersToRegistry_eq]
    grind
  | enrolled site registry entry contexts rest first found =>
    apply (put_back found).trans
    simp only [first, List.any_cons, Task.refersToRegistry_eq] at before
    simp only [Scene.needsRegistry, World.refersToRegistry, World.note, World.setRegistry,
      List.any_append, List.any_cons, List.any_nil, Task.refersToRegistry_eq]
    grind
  | entitled name g hands new =>
    rw [Table.any_erase tidy.states name, new, hands] at before
    simp only [List.any_cons, List.any_nil] at before
    simp only [Scene.needsRegistry, World.refersToRegistry, Table.any_put tidy.states, List.any_nil]
    grind
  | disowned name g named =>
    rw [Table.any_erase tidy.states name, named] at before
    simp only [Scene.needsRegistry, World.refersToRegistry, List.any_cons]
    grind
  | withdrawn g registry contexts front back before' after hands tasks found =>
    apply (put_back found).trans
    simp only [hands, tasks, List.any_append, List.any_cons] at before
    simp only [Scene.needsRegistry, World.refersToRegistry, World.note, World.setRegistry,
      World.guardTasks, List.any_append, List.any_cons, List.any_nil, Task.refersToRegistry_eq]
    grind
  | orphaned g thread front back before' after hands tasks =>
    simp only [hands, tasks, List.any_append, List.any_cons] at before
    simp only [Scene.needsRegistry, World.refersToRegistry, World.note, World.guardTasks,
      List.any_append, List.any_cons, List.any_nil, Task.refersToRegistry_eq]
    grind

theorem World.any_registered {w : World} (tidy : w.Tidy) {b : BlockId} :
    w.registries.any (·.blocks.contains b) = true ↔ ∃ r entry h, w.Registered r entry h b := by
  rw [Table.any_iff tidy.registries]
  constructor
  · rintro ⟨r, registry, found, holds⟩
    obtain ⟨entry, h, there⟩ := Registry.contains_blocks.mp holds
    exact ⟨r, entry, h, registry.contexts, World.map?_of_find? found, there⟩
  · rintro ⟨r, entry, h, contexts, found, there⟩
    obtain ⟨registry, live, rfl⟩ := World.find?_of_map? found
    exact ⟨r, registry, live, Registry.contains_blocks.mpr ⟨entry, h, there⟩⟩

theorem World.any_registered_same {w after : World} (tidy : w.Tidy) (tidyAfter : after.Tidy)
    (maps : ∀ r, after.map? r = w.map? r) (b : BlockId) :
    after.registries.any (·.blocks.contains b) = w.registries.any (·.blocks.contains b) := by
  rw [Bool.eq_iff_iff, World.any_registered tidy, World.any_registered tidyAfter]
  simp only [World.Registered, maps]

-- A name keeps its registry.
theorem World.refersToRegistry_of_named {w : World} (tidy : w.Tidy) {name : Name} {r : RegistryId}
    (named : w.registryNamed? name = some r) : w.refersToRegistry r = true := by
  unfold refersToRegistry
  unfold registryNamed? at named
  split at named
  · cases named
    simp
  · have told : w.registryNames.any (· = r) = true :=
      (Table.any_iff tidy.registryNames).mpr ⟨name, r, named, by simp⟩
    simp [told]

-- So does an owner.
theorem World.refersToRegistry_of_owner {w : World} (tidy : w.Tidy) {name : Name} {g : Guard}
    (found : w.states.find? name = some g) : w.refersToRegistry g.registry = true := by
  have told : w.states.any (·.registry = g.registry) = true :=
    (Table.any_iff tidy.states).mpr ⟨name, g, found, by simp⟩
  simp [refersToRegistry, told]

theorem releaseBlocks_refer (blocks : List BlockId) (b : BlockId) :
    (blocks.map Task.releaseBlock).any (·.refersToBlock b) = blocks.contains b := by
  rw [Bool.eq_iff_iff]
  simp [Task.refersToBlock_eq]

-- The same for blocks.
theorem Move.present {s s' : Scene} (tidy : s.world.Tidy) (numbered : s.Numbered) (owned : s.Owned)
    (live : ∀ b, s.world.blocks.contains b = s.needsBlock b) (move : Move s s')
    (b : BlockId) : s'.world.blocks.contains b = s'.needsBlock b := by
  have none_any : ∀ {α : Type} (found : Option α), found.any (fun _ => false) = false := by simp
  have tidyAfter := move.tidy tidy
  have before := live b
  simp only [Scene.needsBlock, World.refersToBlock] at before
  cases move with
  | turned | ended => exact live b
  | quiet change =>
    rw [change.same.blocks]
    simp only [Scene.needsBlock, World.refersToBlock, change.same.states, change.same.held,
      World.any_registered_same tidy tidyAfter change.same.maps]
    exact before
  | locked runs free found =>
    have maps := World.any_registered_same tidy tidyAfter
      (World.map?_put_same rfl found (by rfl)) b
    simp only [Scene.needsBlock, World.refersToBlock, maps, List.any_cons, Task.refersToBlock_eq]
    exact before
  | unlocked first runs found =>
    have maps := World.any_registered_same tidy tidyAfter
      (World.map?_put_same rfl found (by rfl)) b
    simp only [first, List.any_cons, Task.refersToBlock_eq] at before
    simp only [Scene.needsBlock, World.refersToBlock, maps]
    exact before
  | @opened _ name new =>
    have absent : s.world.registries.find? ⟨s.world.next⟩ = none := by
      cases found : s.world.registries.find? ⟨s.world.next⟩ with
      | none => rfl
      | some registry =>
        exact absurd (numbered.registries _ _ (World.map?_of_find? found)) (Nat.lt_irrefl _)
    have empty : (Registry.fresh name (s.world.hashing ⟨s.world.next⟩)).blocks = [] := rfl
    rw [Table.any_erase tidy.registries ⟨s.world.next⟩, absent] at before
    simp only [Scene.needsBlock, World.refersToBlock, Table.any_put tidy.registries, empty]
    exact before
  | shared =>
    simp only [Scene.needsBlock, World.refersToBlock, List.any_append, any_map_toList,
      Task.refersToBlock_eq, none_any]
    exact before
  | unnamed | retained | begun =>
    simp only [Scene.needsBlock, World.refersToBlock, List.any_cons, Task.refersToBlock_eq]
    exact before
  | spared first | dropped _ _ _ _ _ first | tried _ _ _ _ first =>
    simp only [first, List.any_cons, Task.refersToBlock_eq] at before
    simp only [Scene.needsBlock, World.refersToBlock, World.note, List.any_cons, Task.refersToBlock_eq]
    exact before
  | closed r registry rest first last found =>
    rw [Table.any_erase tidy.registries r, found] at before
    simp only [first, List.any_cons, Task.refersToBlock_eq] at before
    simp only [Scene.needsBlock, World.refersToBlock, List.any_append, releaseBlocks_refer]
    grind
  | @held _ _ name b' present =>
    have here : s.world.blocks.contains b' = true := Table.contains_iff.mpr ⟨_, present⟩
    rw [Table.any_erase tidy.held name] at before
    simp only [Scene.needsBlock, World.refersToBlock, Table.any_put tidy.held, List.any_append,
      any_map_toList, Task.refersToBlock_eq]
    grind
  | @unheld _ _ name named =>
    rw [Table.any_erase tidy.held name, named] at before
    simp only [Scene.needsBlock, World.refersToBlock, List.any_cons, Task.refersToBlock_eq]
    grind
  | released first needed =>
    simp only [first, List.any_cons, Task.refersToBlock_eq] at before
    simp only [Scene.needsBlock, World.refersToBlock] at needed ⊢
    grind
  | fell b' block rest first last present =>
    simp only [first, List.any_cons, Task.refersToBlock_eq] at before
    simp only [Scene.needsBlock, World.refersToBlock, Table.contains_erase, List.any_append,
      dropTasks_refersToBlock] at last ⊢
    grind
  | made site f object rest first =>
    simp only [first, List.any_cons, Task.refersToBlock_eq] at before
    simp only [Scene.needsBlock, World.refersToBlock, World.note, List.any_append, any_map_toList,
      List.any_cons, Task.refersToBlock_eq, none_any]
    exact before
  | abandoned task site rest first under =>
    simp only [first, List.any_cons, Task.refersToBlock_of_site? under] at before
    simp only [Scene.needsBlock, World.refersToBlock, List.any_append, dropTasks_refersToBlock,
      List.any_cons, Task.refersToBlock_eq]
    exact before
  | enrolled site registry entry contexts rest first found inserted =>
    have grown := Registry.contains_blocks_insert { registry with contexts, holder := none }
      (owned.valid _ _ (World.map?_of_find? found)) inserted b
    rw [Table.any_erase tidy.registries site.registry, found] at before
    simp only [first, List.any_cons, Task.refersToBlock_eq, Option.any_some] at before
    simp only [Scene.needsBlock, World.refersToBlock, World.note, World.setRegistry,
      Table.contains_put, Table.any_put tidy.registries, grown, List.any_append, List.any_cons,
      List.any_nil, Task.refersToBlock_eq]
    grind
  | entitled name g hands new =>
    rw [Table.any_erase tidy.states name, new, hands] at before
    simp only [List.any_cons, List.any_nil] at before
    simp only [Scene.needsBlock, World.refersToBlock, Table.any_put tidy.states, List.any_nil]
    grind
  | disowned name g named =>
    rw [Table.any_erase tidy.states name, named] at before
    simp only [Scene.needsBlock, World.refersToBlock, List.any_cons]
    grind
  | withdrawn g registry contexts front back before' after hands tasks found removed =>
    have less := Registry.contains_blocks_remove
      { ({ registry with contexts } : Registry).scrub g.handle with holder := none } removed b
    rw [Table.any_erase tidy.registries g.registry, found] at before
    simp only [hands, tasks, List.any_append, List.any_cons, Option.any_some, less] at before
    simp only [Scene.needsBlock, World.refersToBlock, World.note, World.setRegistry, World.guardTasks,
      Table.any_put tidy.registries, List.any_append, List.any_cons, List.any_nil,
      Task.refersToBlock_eq]
    grind
  | orphaned g thread front back before' after hands tasks =>
    simp only [hands, tasks, List.any_append, List.any_cons] at before
    simp only [Scene.needsBlock, World.refersToBlock, World.note, World.guardTasks,
      List.any_append, List.any_cons, List.any_nil, Task.refersToBlock_eq]
    grind

namespace Scene

theorem live_start (hashing : RegistryId → Handle → UInt64) : (start hashing).Live := by
  refine ⟨?_, fun _ => rfl⟩
  intro r
  simp only [start, World.start, Table.contains_put, needsRegistry, World.refersToRegistry]
  simp [Table.contains, Table.any, Table.empty, Table.find?]

theorem Arises.live {hashing : RegistryId → Handle → UInt64} {s : Scene} (arisen : Arises hashing s) :
    s.Live := by
  induction arisen with
  | refl => exact live_start hashing
  | tail before move ih =>
    exact ⟨move.registries (Arises.tidy before) ih.registries,
      move.present (Arises.tidy before) (Arises.numbered before) (Arises.owned before) ih.blocks⟩

namespace Live

variable {s : Scene}

theorem registry_of_needed (live : s.Live) {r : RegistryId} (needed : s.needsRegistry r = true) :
    ∃ registry, s.world.registries.find? r = some registry := by
  rw [← live.registries] at needed
  exact Table.contains_iff.mp needed

theorem registry_of_task (live : s.Live) {r : RegistryId} {task : Task} (listed : task ∈ s.tasks)
    (refers : task.refersToRegistry r = true) :
    ∃ registry, s.world.registries.find? r = some registry := by
  apply live.registry_of_needed
  unfold needsRegistry
  rw [List.any_eq_true.mpr ⟨task, listed, refers⟩, Bool.or_true]

theorem registry_named (live : s.Live) (tidy : s.world.Tidy) {name : Name} {r : RegistryId}
    (named : s.world.registryNamed? name = some r) :
    ∃ registry, s.world.registries.find? r = some registry := by
  apply live.registry_of_needed
  unfold needsRegistry
  rw [World.refersToRegistry_of_named tidy named]
  rfl

theorem block_of_needed (live : s.Live) {b : BlockId} (needed : s.needsBlock b = true) :
    ∃ block, s.world.blocks.find? b = some block := by
  rw [← live.blocks] at needed
  exact Table.contains_iff.mp needed

-- A block that is registered is in the world.
theorem block_registered (live : s.Live) (tidy : s.world.Tidy) {r : RegistryId} {entry : Ticket}
    {h : Handle} {b : BlockId} (there : s.world.Registered r entry h b) :
    ∃ block, s.world.blocks.find? b = some block := by
  apply live.block_of_needed
  unfold needsBlock World.refersToBlock
  rw [(World.any_registered tidy).mpr ⟨r, entry, h, there⟩]
  simp

end Live

end Scene

end AttachedState
