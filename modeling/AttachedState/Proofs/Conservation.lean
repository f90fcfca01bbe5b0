import AttachedState.Proofs.Custody
import AttachedState.Proofs.Machines

/-!
Conservation.  When a machine is idle, every extension object that was ever made lies where it was
put, or was dropped once; and what is in the world is what something refers to.  The memos of
threads are no references.
-/

namespace AttachedState

namespace World

structure Conserved (w : World) : Prop where
  objects : ∀ b slot object, .objectMade b slot object ∈ w.journal →
    (∃ block, w.blocks.find? b = some block ∧ block.object? slot = some object ∧
        w.journal.countP (·.drops object.id) = 0 ∧
        ∀ b' block' slot' object', w.blocks.find? b' = some block' →
          block'.object? slot' = some object' → object'.id = object.id →
          b' = b ∧ slot' = slot ∧ object' = object) ∨
      (w.journal.countP (·.drops object.id) = 1 ∧
        ∀ b' block' slot' object', w.blocks.find? b' = some block' →
          block'.object? slot' = some object' → object'.id ≠ object.id)
  made : ∀ b block, w.blocks.find? b = some block → ∀ slot object,
    block.object? slot = some object → .objectMade b slot object ∈ w.journal
  blocks : ∀ b, w.blocks.contains b = true ↔
    (∃ name g, w.states.find? name = some g ∧ g.block = b) ∨
    (∃ name, w.held.find? name = some b) ∨
    ∃ r registry entry h, w.registries.find? r = some registry ∧
      registry.contexts.entry? entry = some (h, b)
  registries : ∀ r, w.registries.contains r = true ↔
    r = globalRegistry ∨ (∃ name, w.registryNames.find? name = some r) ∨
    ∃ name g, w.states.find? name = some g ∧ g.registry = r

variable {w : World}

theorem refersToBlock_iff (tidy : w.Tidy) {b : BlockId} : w.refersToBlock b = true ↔
    (∃ name g, w.states.find? name = some g ∧ g.block = b) ∨
    (∃ name, w.held.find? name = some b) ∨
    ∃ r registry entry h, w.registries.find? r = some registry ∧
      registry.contexts.entry? entry = some (h, b) := by
  unfold refersToBlock
  rw [Bool.or_eq_true, Bool.or_eq_true, Table.any_iff tidy.states, Table.any_iff tidy.held,
    any_registered tidy, or_assoc]
  refine or_congr ?_ (or_congr ?_ ?_)
  · simp only [decide_eq_true_eq]
  · constructor
    · rintro ⟨name, held, found, same⟩
      exact ⟨name, by rw [found, of_decide_eq_true same]⟩
    · rintro ⟨name, found⟩
      exact ⟨name, b, found, by simp⟩
  · constructor
    · rintro ⟨r, entry, h, contexts, live, there⟩
      obtain ⟨registry, found, rfl⟩ := find?_of_map? live
      exact ⟨r, registry, entry, h, found, there⟩
    · rintro ⟨r, registry, entry, h, found, there⟩
      exact ⟨r, entry, h, _, map?_of_find? found, there⟩

theorem refersToRegistry_iff (tidy : w.Tidy) {r : RegistryId} : w.refersToRegistry r = true ↔
    r = globalRegistry ∨ (∃ name, w.registryNames.find? name = some r) ∨
    ∃ name g, w.states.find? name = some g ∧ g.registry = r := by
  unfold refersToRegistry
  rw [Bool.or_eq_true, Bool.or_eq_true, Table.any_iff tidy.registryNames, Table.any_iff tidy.states,
    or_assoc]
  refine or_congr ?_ (or_congr ?_ ?_)
  · simp only [decide_eq_true_eq]
  · constructor
    · rintro ⟨name, named, found, same⟩
      exact ⟨name, by rw [found, of_decide_eq_true same]⟩
    · rintro ⟨name, found⟩
      exact ⟨name, r, found, by simp⟩
  · simp only [decide_eq_true_eq]

end World

theorem extensions_conserved {hashing : RegistryId → Handle → UInt64} {m : Machine}
    (reached : m.Reached hashing) (idle : m.tasks = []) : m.world.Conserved := by
  have arisen := reached.arises
  have tidy : m.world.Tidy := Scene.Arises.tidy arisen
  have live := Scene.Arises.live arisen
  have no_tasks : m.scene.tasks = [] := by
    rw [Machine.scene, idle]
    rfl
  have no_loads : m.scene.loads = [] := by
    unfold Scene.loads
    rw [no_tasks]
    rfl
  refine ⟨?_, (Scene.Arises.custody arisen).placed, ?_, ?_⟩
  · intro b slot object made
    exact Scene.Arises.settled arisen made (by rw [no_loads]; exact List.forall_mem_nil _)
  · intro b
    have present := live.blocks b
    rw [Scene.needsBlock, no_tasks] at present
    rw [← World.refersToBlock_iff tidy]
    simpa [Machine.scene] using congrArg (· = true) present
  · intro r
    have present := live.registries r
    rw [Scene.needsRegistry, no_tasks] at present
    rw [← World.refersToRegistry_iff tidy]
    simpa [Machine.scene] using congrArg (· = true) present

theorem extensions_conserved_created : ∃ object,
    .objectMade ⟨1⟩ 0 object ∈ Machine.created.world.journal ∧
    ∃ block, Machine.created.world.blocks.find? ⟨1⟩ = some block ∧ block.object? 0 = some object :=
  ⟨_, (extensions_conserved Machine.created_reached rfl).made ⟨1⟩ _ rfl 0 _ rfl, _, rfl, rfl⟩

end AttachedState
