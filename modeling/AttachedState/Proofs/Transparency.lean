import AttachedState.Proofs.Machines

/-!
Transparency of the lines.  Whoever looks a handle up, by whatever way and at whatever moment, gets
what the map of the registry has for it then.
-/

namespace AttachedState

namespace World

open Scene Outcome

variable {hashing : RegistryId → Handle → UInt64} {w : World} {t : ThreadId} {r : RegistryId}
  {contexts : HandleMap BlockId} {tasks : List Task}

-- What comes of a retrieval, the lookup being answered with what the map has.
def retrieved (w : World) (t : ThreadId) (r : RegistryId) (h : Handle) (retrieval : Retrieval) :
    Option BlockId → Outcome
  | none => .fail (w.lookUp t r h).2 ((Refusal.unregistered h).raise retrieval.strict)
  | some b =>
    let told := (w.lookUp t r h).2.present retrieval b
    { told with first := told.first ++ [.releaseRegistry r] }

theorem retrieve_spec (lined : w.Lined) (runs : w.Runs t) (live : w.map? r = some contexts)
    {retrieval : Retrieval} {h : Handle} (address : Handle.ofAddress? retrieval.address = some h)
    (named : w.registryNamed? retrieval.registry = some r) :
    ((w.thread t).depth ≠ 0 ∧
      w.retrieve t retrieval = .fail (w.lookUp t r h).2 (.panic .lockHeld)) ∨
    w.retrieve t retrieval = w.retrieved t r h retrieval (contexts.get? h) := by
  have answers := (lookUp_spec runs live h).2 lined
  unfold retrieve retrieved
  rw [address, named]
  simp only
  cases looked : w.lookUp t r h with
  | mk result after =>
    rw [looked] at answers
    rcases answers with ⟨held, refused⟩ | found
    · simp only at refused
      rw [refused]
      exact .inl ⟨held, rfl⟩
    · simp only at found
      rw [found]
      apply Or.inr
      cases contexts.get? h <;> rfl

-- What an answer tells of a block: what the block holds, the names that stand for it, and what each of
-- the keys that were asked for reads from it.
structure TellsOf (w : World) (b : BlockId) (keys : Option (List Name)) (description : Description)
    (values : Option (List (Option Value))) : Prop where
  block : ∃ block, w.blocks.find? b = some block ∧ description.handle = block.handle ∧
    description.slotCount = block.slotCount ∧ description.installed = block.installed ∧
    keys.map (List.map fun name =>
      (w.keys.find? name).map fun key => block.read? key.slot key.kind) = values.map (List.map some)
  names : ∀ name, name ∈ description.sameAs ↔
    w.subject? (.state name) = some b ∨ w.subject? (.held name) = some b

theorem mem_sortedNames {names : List Name} {name : Name} : name ∈ sortedNames names ↔ name ∈ names :=
  List.mem_mergeSort

theorem describe?_spec {b : BlockId} {block : Block} (states : w.states.Distinct)
    (held : w.held.Distinct) (found : w.blocks.find? b = some block) :
    ∃ description, w.describe? b = some description ∧
      description.handle = block.handle ∧ description.slotCount = block.slotCount ∧
      description.installed = block.installed ∧ ∀ name, name ∈ description.sameAs ↔
        w.subject? (.state name) = some b ∨ w.subject? (.held name) = some b := by
  unfold describe?
  rw [found]
  refine ⟨_, rfl, rfl, rfl, rfl, fun name => ?_⟩
  simp only [List.mem_append, mem_sortedNames, Table.mem_keysWhere states,
    Table.mem_keysWhere held, subject?, Option.map_eq_some_iff, decide_eq_true_eq]
  simp only [exists_eq_right]

-- What is asked of a block that is there is told of that block, which is also the one that is held,
-- unless one of the keys is not there.
theorem present_spec {b : BlockId} {block : Block} (states : w.states.Distinct)
    (held : w.held.Distinct) (found : w.blocks.find? b = some block) (retrieval : Retrieval) :
    (∃ description values, (w.present retrieval b).answer = .block description values ∧
      w.TellsOf b retrieval.keys description values ∧
      ∀ name, retrieval.keepAs = some name → (w.present retrieval b).world.held.find? name = some b) ∨
    (∃ names, retrieval.keys = some names ∧ ∃ name ∈ names, w.keys.find? name = none) ∧
      w.present retrieval b = .fail w .noSuchName := by
  obtain ⟨description, told, same, count, installed, names⟩ := describe?_spec states held found
  have reads : ∀ key, w.read? key b = block.read? key.slot key.kind := fun key => by
    rw [read?, found]
    rfl
  unfold present
  rw [told]
  cases read : retrieval.keys.mapM (w.readAll? b) with
  | none =>
    refine .inr ⟨?_, rfl⟩
    obtain ⟨asked, keys⟩ : ∃ asked, retrieval.keys = some asked := by
      cases keys : retrieval.keys with
      | none =>
        rw [keys] at read
        cases read
      | some asked => exact ⟨asked, rfl⟩
    refine ⟨asked, keys, ?_⟩
    by_contra known
    push Not at known
    have read_all : ∀ name ∈ asked,
        ((w.keys.find? name).map fun key => w.read? key b).isSome = true := by
      intro name listed
      rw [Option.isSome_map, Option.isSome_iff_ne_none]
      exact known name listed
    obtain ⟨values, all⟩ := exists_mapM read_all
    rw [keys] at read
    simp only [Option.mapM_some, readAll?, all] at read
    cases read
  | some values =>
    refine .inl ⟨description, values, ?_, ⟨⟨block, found, same, count, installed, ?_⟩, names⟩, ?_⟩
    · cases retrieval.keepAs <;> rfl
    · cases keys : retrieval.keys with
      | none =>
        rw [keys] at read
        cases read
        rfl
      | some asked =>
        rw [keys] at read
        simp only [Option.mapM_some, readAll?, reads] at read
        obtain ⟨all, given, rfl⟩ := Option.map_eq_some_iff.mp read
        exact congrArg some (map_of_mapM given)
    · rintro name kept
      simp only [kept, keep]
      exact Table.find?_put_self ..

theorem retrieve_tells (lined : w.Lined) (tidy : w.Tidy) (runs : w.Runs t) (live : w.map? r = some contexts)
    {retrieval : Retrieval} {h : Handle} (address : Handle.ofAddress? retrieval.address = some h)
    (named : w.registryNamed? retrieval.registry = some r) {b : BlockId} {block : Block}
    (mapped : contexts.get? h = some b) (found : w.blocks.find? b = some block)
    {description : Description} {values : Option (List (Option Value))}
    (answered : (w.retrieve t retrieval).answer = .block description values) :
    w.TellsOf b retrieval.keys description values ∧
      ∀ name, retrieval.keepAs = some name → (w.retrieve t retrieval).world.held.find? name = some b := by
  rcases retrieve_spec lined runs live address named with ⟨_, refused⟩ | given
  · rw [refused] at answered
    cases answered
  · obtain ⟨threads, registries, journal, rest⟩ := lookUp_rest w t r h
    rw [given, mapped] at answered ⊢
    simp only [retrieved, rest] at answered ⊢
    rcases present_spec (w := { w with threads, registries, journal }) tidy.states tidy.held found
      retrieval with ⟨_, _, told, tells, kept⟩ | ⟨_, failed⟩
    · rw [told] at answered
      cases answered
      exact ⟨⟨tells.block, tells.names⟩, kept⟩
    · rw [failed] at answered
      cases answered

structure Transparent (w : World) : Prop where
  -- A line that holds a handle stands for the block that the map has for it.
  lines : ∀ t, ∀ memo ∈ (w.thread t).memos, ∀ registry,
    w.registries.find? memo.registry = some registry →
    ∀ h, registry.lineHolds memo.line h = true →
      ∃ b, memo.block = some b ∧ registry.contexts.get? h = some b
  -- A lookup is answered with what the map has, and leaves all maps as they are.
  lookups : ∀ t r registry, w.Runs t → w.registries.find? r = some registry → ∀ h,
    (((w.thread t).depth ≠ 0 ∧ (w.lookUp t r h).1 = .error .lockHeld) ∨
      ((w.lookUp t r h).1 = .ok (registry.contexts.get? h) ∧ ∃ route earlier,
        (w.lookUp t r h).2.journal
          = .lookedUp t r h (registry.contexts.get? h) route :: earlier)) ∧
    (∀ other, (w.lookUp t r h).2.map? other = w.map? other) ∧
    ∀ b, registry.contexts.get? h = some b → ∃ block, w.blocks.find? b = some block
  -- So is a retrieval.
  retrievals : ∀ t r registry retrieval h, w.Runs t →
    w.registryNamed? retrieval.registry = some r → w.registries.find? r = some registry →
    Handle.ofAddress? retrieval.address = some h →
    ((w.thread t).depth ≠ 0 ∧
      w.retrieve t retrieval = .fail (w.lookUp t r h).2 (.panic .lockHeld)) ∨
    w.retrieve t retrieval = w.retrieved t r h retrieval (registry.contexts.get? h)
  -- The block that was found is the one that is told of, and the one that is held if that was asked for.
  tells : ∀ t r registry retrieval h b, w.Runs t →
    w.registryNamed? retrieval.registry = some r → w.registries.find? r = some registry →
    Handle.ofAddress? retrieval.address = some h → registry.contexts.get? h = some b →
    ∀ description values, (w.retrieve t retrieval).answer = .block description values →
      w.TellsOf b retrieval.keys description values ∧
      ∀ name, retrieval.keepAs = some name → (w.retrieve t retrieval).world.held.find? name = some b
  -- The maps are what the journal tells of registrations.
  maps : ∀ r registry, w.registries.find? r = some registry → ∀ h,
    registry.contexts.get? h = mapped r h w.journal
  -- Every lookup that was answered, inside factories, drops and races and at the end of threads
  -- too, was right when it was made.
  journal : ∀ later earlier t r h found route,
    w.journal = later ++ .lookedUp t r h found route :: earlier → found = mapped r h earlier

end World

open World in
theorem lookups_transparent {hashing : RegistryId → Handle → UInt64} {m : Machine}
    (reached : m.Reached hashing) : m.world.Transparent := by
  have arisen := reached.arises
  have lined := Scene.Arises.lined arisen
  have present : ∀ r registry, m.world.registries.find? r = some registry → ∀ h b,
      registry.contexts.get? h = some b → ∃ block, m.world.blocks.find? b = some block := by
    intro r registry live h b found
    have mapped := map?_of_find? live
    have valid := (Scene.Arises.owned arisen).valid r _ mapped
    obtain ⟨entry, there⟩ := (HandleMap.get?_eq_some_iff valid).mp found
    exact (Scene.Arises.live arisen).block_registered (Scene.Arises.tidy arisen) ⟨_, mapped, there⟩
  refine ⟨?_, ?_, ?_, ?_, ?_, Scene.Arises.truthful arisen⟩
  · intro t memo known registry live h holds
    exact lined.faithful t memo known registry live h (by simpa [Registry.lineHolds] using holds)
  · intro t r registry runs live h
    obtain ⟨changes, answers⟩ := lookUp_spec runs (map?_of_find? live) h
    refine ⟨?_, changes.maps, present r registry live h⟩
    rcases answers lined with refused | found
    · exact .inl refused
    · refine .inr ⟨found, ?_⟩
      cases looked : m.world.lookUp t r h with
      | mk result after =>
        rw [looked] at found
        simp only at found
        rw [found] at looked
        exact lookUp_tells looked
  · intro t r registry retrieval h runs named live address
    exact retrieve_spec lined runs (map?_of_find? live) address named
  · intro t r registry retrieval h b runs named live address mapped description values answered
    obtain ⟨block, found⟩ := present r registry live h b mapped
    exact retrieve_tells lined (Scene.Arises.tidy arisen) runs (map?_of_find? live) address named mapped
      found answered
  · intro r registry live h
    exact Scene.Arises.recorded arisen r _ (map?_of_find? live) h

theorem lookups_transparent_created :
    (Machine.created.world.lookUp .main globalRegistry ⟨64, by decide⟩).1 = .ok (some ⟨1⟩) := by
  have answered := (lookups_transparent Machine.created_reached).lookups .main globalRegistry
    (Machine.created.world.registry globalRegistry) ⟨_, rfl⟩ rfl ⟨64, by decide⟩
  rcases answered.1 with ⟨held, _⟩ | ⟨found, _⟩
  · exact absurd rfl held
  · rw [found]
    rfl

end AttachedState
