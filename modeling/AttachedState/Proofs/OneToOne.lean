import AttachedState.Proofs.Machines

/-!
Owners and registrations.  Every registration has one owner, except those whose owner was given up
by a thread that held a lock: they stay, and nobody owns them.
-/

namespace AttachedState

namespace World

structure OneToOne (w : World) : Prop where
  resolves : ∀ name g, w.states.find? name = some g →
    ∃ registry, w.registries.find? g.registry = some registry ∧
      registry.contexts.entry? g.entry = some (g.handle, g.block)
  distinct : ∀ name other g g', w.states.find? name = some g → w.states.find? other = some g' →
    name ≠ other → g.registry = g'.registry →
    g.entry ≠ g'.entry ∧ g.handle ≠ g'.handle ∧ g.block ≠ g'.block
  -- One owner, or none and an orphan.
  owners : ∀ r registry entry h b, w.registries.find? r = some registry →
    registry.contexts.entry? entry = some (h, b) →
    ((∃ name, w.states.find? name = some ⟨r, entry, h, b⟩ ∧
        ∀ other, w.states.find? other = some ⟨r, entry, h, b⟩ → other = name) ∧
      .stateOrphaned r entry b h ∉ w.journal) ∨
    (.stateOrphaned r entry b h ∈ w.journal ∧
      ∀ name, w.states.find? name ≠ some ⟨r, entry, h, b⟩)
  counted : ∀ r registry, w.registries.find? r = some registry →
    registry.contexts.size
      = w.states.rows.countP (·.2.registry = r) + w.orphans.countP (·.registry = r)
  -- Neither is an owner's registration gone nor is it another's.
  withdraws : ∀ name g registry, w.states.find? name = some g →
    w.registries.find? g.registry = some registry →
    (registry.withdraw g.entry g.handle g.block).1 = .ok (registry.holding g.handle)
  -- An owner that is given up takes its registration away, unless its thread holds a lock.
  destroys : ∀ t name g, w.Runs t → w.states.find? name = some g →
    ((w.thread t).depth = 0 ∧ (w.destroy t name).answer = .done ∧
      ∃ registry, (w.destroy t name).world.registries.find? g.registry = some registry ∧
        registry.contexts.entry? g.entry = none) ∨
    ((w.thread t).depth ≠ 0 ∧ (w.destroy t name).answer = .failed (.panic .lockHeld) ∧
      .stateOrphaned g.registry g.entry g.block g.handle ∈ (w.destroy t name).world.journal)

end World

namespace Machine.Reached

open World

variable {hashing : RegistryId → Handle → UInt64} {m : Machine} {name other : Name} {g g' : Guard}

-- No owner is in anybody's hands between two steps.
theorem mem_guards (reached : m.Reached hashing) :
    g ∈ m.scene.guards ↔ ∃ name, m.world.states.find? name = some g := by
  have tidy := Scene.Arises.tidy reached.arises
  rw [Scene.mem_guards]
  constructor
  · rintro (⟨name, row⟩ | hands)
    · exact ⟨name, Table.find?_of_mem tidy.states row⟩
    · cases hands
  · rintro ⟨name, found⟩
    exact .inl ⟨name, Table.mem_of_find? found⟩

theorem claims_eq (m : Machine) :
    m.scene.claims = m.world.states.rows.map (·.2) ++ m.world.orphans := by
  unfold Scene.claims Scene.guards
  rw [Machine.scene, List.append_nil]

theorem resolves (reached : m.Reached hashing) (found : m.world.states.find? name = some g) :
    ∃ registry, m.world.registries.find? g.registry = some registry ∧
      registry.contexts.entry? g.entry = some (g.handle, g.block) := by
  have owned := Scene.Arises.owned reached.arises
  have owns := reached.mem_guards.mpr ⟨name, found⟩
  obtain ⟨contexts, live⟩ := owned.live g owns
  obtain ⟨registry, there, rfl⟩ := find?_of_map? live
  exact ⟨registry, there, owned.kept g (List.mem_append_left _ owns) _ live⟩

-- Two names of one owner, or of two owners of one block, are one name.
theorem name_unique (reached : m.Reached hashing) (found : m.world.states.find? name = some g)
    (foundToo : m.world.states.find? other = some g') (same : g.block = g'.block) :
    name = other := by
  have nodup := (Scene.Arises.owned reached.arises).once
  rw [claims_eq, List.map_append, List.map_map] at nodup
  have equal := List.inj_on_of_nodup_map (List.nodup_append.mp nodup).1
    (Table.mem_of_find? found) (Table.mem_of_find? foundToo) same
  exact congrArg Prod.fst equal

theorem not_orphaned (reached : m.Reached hashing) (found : m.world.states.find? name = some g) :
    g ∉ m.world.orphans := by
  intro orphan
  have nodup := (Scene.Arises.owned reached.arises).once
  rw [claims_eq, List.map_append] at nodup
  have row := List.mem_map_of_mem (f := Prod.snd) (Table.mem_of_find? found)
  exact (List.nodup_append.mp nodup).2.2 g.block (List.mem_map_of_mem row) g.block
    (List.mem_map_of_mem orphan) rfl

theorem distinct (reached : m.Reached hashing) (found : m.world.states.find? name = some g)
    (foundToo : m.world.states.find? other = some g') (apart : name ≠ other)
    (same : g.registry = g'.registry) :
    g.entry ≠ g'.entry ∧ g.handle ≠ g'.handle ∧ g.block ≠ g'.block := by
  have different : g.block ≠ g'.block := fun equal =>
    apart (reached.name_unique found foundToo equal)
  have owned := Scene.Arises.owned reached.arises
  have owns := reached.mem_guards.mpr ⟨name, found⟩
  have ownsToo := reached.mem_guards.mpr ⟨other, foundToo⟩
  obtain ⟨contexts, live⟩ := owned.live g owns
  obtain ⟨entries, handles⟩ := owned.apart (List.mem_append_left _ owns)
    (List.mem_append_left _ ownsToo) different same live
  exact ⟨entries, handles, different⟩

theorem owner_or_orphan (reached : m.Reached hashing) {r : RegistryId} {registry : Registry}
    {entry : Ticket} {h : Handle} {b : BlockId}
    (live : m.world.registries.find? r = some registry)
    (there : registry.contexts.entry? entry = some (h, b)) :
    ((∃ name, m.world.states.find? name = some ⟨r, entry, h, b⟩ ∧
        ∀ other, m.world.states.find? other = some ⟨r, entry, h, b⟩ → other = name) ∧
      .stateOrphaned r entry b h ∉ m.world.journal) ∨
    (.stateOrphaned r entry b h ∈ m.world.journal ∧
      ∀ name, m.world.states.find? name ≠ some ⟨r, entry, h, b⟩) := by
  have claimed := (Scene.Arises.owned reached.arises).claimed r _ entry h b (map?_of_find? live) there
  rw [claims_eq] at claimed
  rcases List.mem_append.mp claimed with owner | orphan
  · obtain ⟨⟨name, g⟩, row, rfl⟩ := List.mem_map.mp owner
    have found := Table.find?_of_mem (Scene.Arises.tidy reached.arises).states row
    refine .inl ⟨⟨name, found, ?_⟩, ?_⟩
    · intro other foundToo
      exact reached.name_unique foundToo found rfl
    · intro orphan
      exact reached.not_orphaned found (mem_orphans.mpr orphan)
  · exact .inr ⟨mem_orphans.mp orphan, fun name found => reached.not_orphaned found orphan⟩

theorem withdraws (reached : m.Reached hashing) (found : m.world.states.find? name = some g)
    {registry : Registry} (live : m.world.registries.find? g.registry = some registry) :
    (registry.withdraw g.entry g.handle g.block).1 = .ok (registry.holding g.handle) := by
  obtain ⟨there, contexts, liveToo, removed⟩ :=
    remove?_of_guard reached.arises (reached.mem_guards.mpr ⟨name, found⟩)
  have same := Option.some.inj (live.symm.trans liveToo)
  rw [same, Registry.withdraw_of_remove? there removed]

theorem destroys (reached : m.Reached hashing) {t : ThreadId} (runs : m.world.Runs t)
    (found : m.world.states.find? name = some g) :
    ((m.world.thread t).depth = 0 ∧ (m.world.destroy t name).answer = .done ∧
      ∃ registry, (m.world.destroy t name).world.registries.find? g.registry = some registry ∧
        registry.contexts.entry? g.entry = none) ∨
    ((m.world.thread t).depth ≠ 0 ∧
      (m.world.destroy t name).answer = .failed (.panic .lockHeld) ∧
      .stateOrphaned g.registry g.entry g.block g.handle
        ∈ (m.world.destroy t name).world.journal) := by
  obtain ⟨registry, contexts, live, removed⟩ :=
    remove?_of_guard reached.arises (reached.mem_guards.mpr ⟨name, found⟩)
  unfold destroy
  rw [found]
  simp only
  by_cases free : (m.world.thread t).depth = 0
  · refine .inl ⟨free, ?_⟩
    rw [giveUp_free (w := { m.world with states := m.world.states.erase name }) runs free live
      removed]
    refine ⟨rfl, _, Table.find?_put_self .., ?_⟩
    exact (HandleMap.entry?_remove removed g.entry).trans (if_pos rfl)
  · refine .inr ⟨free, ?_⟩
    rw [giveUp_held (w := { m.world with states := m.world.states.erase name }) free]
    exact ⟨rfl, List.mem_cons_self⟩

theorem oneToOne (reached : m.Reached hashing) : m.world.OneToOne := by
  refine ⟨?_, ?_, ?_, ?_, ?_, ?_⟩
  · intro name g found
    exact reached.resolves found
  · intro name other g g' found foundToo apart same
    exact reached.distinct found foundToo apart same
  · intro r registry entry h b live there
    exact reached.owner_or_orphan live there
  · intro r registry live
    have counted := (Scene.Arises.owned reached.arises).counted r _ (map?_of_find? live)
    rw [claims_eq, List.countP_append, List.countP_map] at counted
    exact counted
  · intro name g registry found live
    exact reached.withdraws found live
  · intro t name g runs found
    exact reached.destroys runs found

end Machine.Reached

-- Nothing that is answered accuses an owner, and only a thread with a lock leaves orphans behind.
theorem owners_match_registrations {hashing : RegistryId → Handle → UInt64} {m : Machine}
    (reached : m.Reached hashing) : m.world.OneToOne ∧ (∀ task ∈ m.tasks, task.fair = true) ∧
      ∀ after, m.Next after → ∀ g ∈ after.world.orphans, g ∉ m.world.orphans →
        (m.world.thread m.thread).depth ≠ 0 := by
  refine ⟨reached.oneToOne, reached.steady.fair, ?_⟩
  intro after next g orphan new free
  apply new
  cases next with
  | told =>
    unfold World.orphans at orphan ⊢
    rwa [World.journal_machineFor] at orphan
  | step =>
    rwa [reached.steady.step_orphans reached.arises free] at orphan

theorem owners_match_registrations_created :
    ∃ g registry, Machine.created.world.states.find? "state" = some g ∧
      Machine.created.world.registries.find? g.registry = some registry ∧
      registry.contexts.entry? g.entry = some (g.handle, g.block) := by
  obtain ⟨registry, live, there⟩ :=
    (owners_match_registrations Machine.created_reached).1.resolves "state" _ rfl
  exact ⟨_, registry, rfl, live, there⟩

end AttachedState
