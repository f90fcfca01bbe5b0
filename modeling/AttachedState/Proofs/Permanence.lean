import AttachedState.Proofs.Conservation
import AttachedState.Proofs.Fillings
import AttachedState.Proofs.OneToOne
import AttachedState.Proofs.Reentrancy

/-!
Permanence.  A destroy that is refused leaves its registration behind without an owner.  Nothing
removes the registration any more and nothing takes its place for as long as its registry is there,
and its block goes with the registry, or with the last that still holds it then.
-/

namespace AttachedState

namespace World

variable {hashing : RegistryId → Handle → UInt64} {w : World} {t u : ThreadId} {g : Guard}
  {registry : Registry} {r : RegistryId} {h : Handle} {owners : List Guard} {later : List Task}

-- Every object of the block was dropped so many times.
def Dropped (w : World) (block : Block) (times : Nat) : Prop :=
  ∀ slot object, block.object? slot = some object →
    w.journal.countP (·.drops object.id) = times

-- What there is to say of a registry with a registration that has lost its owner.
structure Occupied (w : World) (g : Guard) (registry : Registry) : Prop where
  entry : registry.contexts.entry? g.entry = some (g.handle, g.block)
  ticket : registry.contexts.find? g.handle = some g.entry
  block : registry.contexts.get? g.handle = some g.block
  owners : ∀ name other, w.states.find? name = some other → other.block ≠ g.block ∧
    (other.registry = g.registry → other.entry ≠ g.entry ∧ other.handle ≠ g.handle)
  -- A thread that holds no lock is told that the context has state, before any factory runs.
  creates : ∀ t, w.Runs t → (w.thread t).depth = 0 → ∀ nested creation supplies,
    Handle.ofAddress? creation.address = some g.handle →
    w.registryNamed? creation.registry = some g.registry → ∃ failure,
    w.perform t nested (.create creation supplies)
      = (w, [.answer (if nested then some (.create creation supplies) else none) (.failed failure)]) ∧
    (w.states.find? creation.state = none →
      (∀ supply ∈ supplies, w.keys.contains supply.key = true) →
      failure = (Refusal.duplicate g.handle).raise creation.strict)
  -- So is one that had begun before, and what it has made is dropped.
  registers : ∀ t, w.Runs t → (w.thread t).depth = 0 → ∀ site : Construction,
    site.registry = g.registry → site.handle = g.handle → w.register t site
      = (w.setRegistry g.registry { registry with holder := none },
        site.abandon ((Refusal.duplicate g.handle).raise site.creation.strict))
  races : ∀ name, w.registryNamed? name = some g.registry → ∀ threads,
    (attempts g.registry g.handle threads w).1 = []
  lookups : ∀ t, w.Runs t → (w.lookUp t g.registry g.handle).1 = .ok (some g.block) ∨
    (w.thread t).depth ≠ 0 ∧ (w.lookUp t g.registry g.handle).1 = .error .lockHeld
  destroys : ∀ t, w.Runs t → ∀ name, ∃ contexts,
    (w.destroy t name).world.map? g.registry = some contexts ∧
    contexts.entry? g.entry = some (g.handle, g.block)

/-! Creations of a context that has state. -/

theorem underLock?_free {α : Type} (runs : w.Runs t) (free : (w.thread t).depth = 0)
    (live : w.registries.find? r = some registry) (look : Registry → α) :
    w.underLock? t r look = .ok (look { registry with holder := some t }) := by
  unfold underLock?
  rw [underLock_free runs free live]
  rfl

-- Whatever is wrong with the creation, it changes nothing, and if nothing else is wrong it is that the
-- context has state.
theorem beginCreation_duplicate (runs : w.Runs t) (free : (w.thread t).depth = 0)
    (live : w.registries.find? r = some registry) (there : registry.contexts.contains h = true)
    (asked : Option Action) {creation : Creation} {supplies : List (Supply Action)}
    (address : Handle.ofAddress? creation.address = some h)
    (named : w.registryNamed? creation.registry = some r) : ∃ failure,
    w.beginCreation t asked creation supplies = (.error failure, w) ∧
    (w.states.find? creation.state = none →
      (∀ supply ∈ supplies, w.keys.contains supply.key = true) →
      failure = (Refusal.duplicate h).raise creation.strict) := by
  unfold beginCreation
  simp only [address, named]
  cases taken : w.states.contains creation.state with
  | true =>
    refine ⟨.nameTaken, rfl, fun new => ?_⟩
    rw [Table.contains, new] at taken
    cases taken
  | false =>
    cases supplied : supplies.mapM (·.factory? w) with
    | none =>
      refine ⟨.noSuchName, rfl, fun _ known => ?_⟩
      have supplied_all : ∀ supply ∈ supplies, (supply.factory? w).isSome = true := by
        intro supply listed
        rw [Supply.factory?, Option.isSome_map]
        exact known supply listed
      obtain ⟨factories, made⟩ := exists_mapM supplied_all
      rw [supplied] at made
      cases made
    | some factories =>
      rw [underLock?_free runs free live]
      simp only [there]
      exact ⟨_, rfl, fun _ _ => rfl⟩

theorem attempt_duplicate (runs : w.Runs u) (free : (w.thread u).depth = 0)
    (live : w.registries.find? r = some registry) (there : registry.contexts.contains h = true) :
    (w.attempt u r h).1 = none := by
  unfold attempt
  simp only [takeNumber]
  rw [underLock_refused (w := { w with next := w.next + 1 }) runs free live
    (HandleMap.insert_of_contains there ⟨w.next⟩)]

theorem contains_of_orphan (arisen : Scene.Arises hashing ⟨w, t, owners, later⟩) (orphan : g ∈ w.orphans)
    (live : w.registries.find? g.registry = some registry) :
    registry.contexts.contains g.handle = true := by
  have owned := arisen.owned
  have there := owned.kept g (List.mem_append_right _ orphan) _ (map?_of_find? live)
  have valid := owned.valid _ _ (map?_of_find? live)
  exact (HandleMap.contains_iff valid).mpr ⟨g.block, (HandleMap.get?_eq_some_iff valid).mpr ⟨_, there⟩⟩

theorem orphans_of_moves {s s' : Scene} (arisen : Scene.Arises hashing s) (moves : Scene.Moves s s')
    (orphan : g ∈ s.world.orphans) : g ∈ s'.world.orphans :=
  mem_orphans.mpr (arisen.still moves (mem_orphans.mp orphan))

theorem attempts_duplicate (arisen : Scene.Arises hashing ⟨w, t, owners, later⟩)
    (outside : ∀ n, t ≠ .racer n) (orphan : g ∈ w.orphans) {name : Name}
    (named : w.registryNamed? name = some g.registry) (threads : Nat) :
    (attempts g.registry g.handle threads w).1 = [] := by
  induction threads with
  | zero => rfl
  | succ n ih =>
    obtain ⟨before, names⟩ := attempts_passes arisen outside named g.handle n
    obtain ⟨starting, runs⟩ := startThread_quiets (attempts g.registry g.handle n w).2 (.racer n)
    have started := before.trans (starting.passes t _ later)
    have arisenThen := Relation.ReflTransGen.trans arisen (Scene.Passes.moves started)
    have namedThen := (registryNamed?_same (starting.same.2.2.1.trans names) name).trans named
    obtain ⟨registry, live⟩ := (Scene.Arises.live arisenThen).registry_named
      (Scene.Arises.tidy arisenThen) namedThen
    have still := orphans_of_moves arisen (Scene.Passes.moves started) orphan
    have there := contains_of_orphan arisenThen still live
    have refused := attempt_duplicate runs (free_of_waiting arisenThen (Ne.symm (outside n))) live there
    simp only [attempts]
    split <;> rename_i given <;> rw [given] at refused
    · cases refused
    · exact ih

/-! The registry of an orphan. -/

-- Whatever else is owned is another registration.
theorem owner_apart (arisen : Scene.Arises hashing ⟨w, t, [], later⟩) (orphan : g ∈ w.orphans)
    (live : w.registries.find? g.registry = some registry) {name : Name} {other : Guard}
    (found : w.states.find? name = some other) : other.block ≠ g.block ∧
      (other.registry = g.registry → other.entry ≠ g.entry ∧ other.handle ≠ g.handle) := by
  have owned := arisen.owned
  have owns : other ∈ (⟨w, t, [], later⟩ : Scene).guards :=
    Scene.mem_guards.mpr (.inl ⟨name, Table.mem_of_find? found⟩)
  have different := owned.unowned orphan owns
  refine ⟨different, fun same => ?_⟩
  exact owned.apart (List.mem_append_left _ owns) (List.mem_append_right _ orphan) different same
    (same ▸ map?_of_find? live)

theorem destroy_spares (arisen : Scene.Arises hashing ⟨w, t, [], later⟩) (orphan : g ∈ w.orphans)
    (live : w.registries.find? g.registry = some registry) (runs : w.Runs u) (name : Name) :
    ∃ contexts, (w.destroy u name).world.map? g.registry = some contexts ∧
      contexts.entry? g.entry = some (g.handle, g.block) := by
  have mapped := map?_of_find? live
  have entry := arisen.owned.kept g (List.mem_append_right _ orphan) _ mapped
  unfold destroy
  cases named : w.states.find? name with
  | none => exact ⟨_, mapped, entry⟩
  | some other =>
    simp only
    by_cases free : (w.thread u).depth = 0
    · have owns : other ∈ (⟨w, t, [], later⟩ : Scene).guards :=
        Scene.mem_guards.mpr (.inl ⟨name, Table.mem_of_find? named⟩)
      obtain ⟨theirs, left, lives, removed⟩ := remove?_of_guard arisen owns
      rw [giveUp_free (w := { w with states := w.states.erase name }) runs free lives removed]
      by_cases same : other.registry = g.registry
      · have apart := ((owner_apart arisen orphan live named).2 same).1
        refine ⟨left, (map?_put (w := w) (by rfl) (by rfl) g.registry).trans (if_pos same.symm), ?_⟩
        rw [HandleMap.entry?_remove removed, if_neg (Ne.symm apart)]
        rw [same, live] at lives
        cases lives
        exact entry
      · refine ⟨_, (map?_put (w := w) (by rfl) (by rfl) g.registry).trans ?_, entry⟩
        rw [if_neg (Ne.symm same)]
        exact mapped
    · rw [giveUp_held (w := { w with states := w.states.erase name }) free]
      exact ⟨_, mapped, entry⟩

theorem occupied (arisen : Scene.Arises hashing ⟨w, t, [], later⟩) (outside : ∀ n, t ≠ .racer n)
    (orphan : g ∈ w.orphans) (live : w.registries.find? g.registry = some registry) :
    w.Occupied g registry := by
  have owned := arisen.owned
  have mapped := map?_of_find? live
  have valid := owned.valid _ _ mapped
  have entry := owned.kept g (List.mem_append_right _ orphan) _ mapped
  have there := contains_of_orphan arisen orphan live
  have block : registry.contexts.get? g.handle = some g.block :=
    (HandleMap.get?_eq_some_iff valid).mpr ⟨_, entry⟩
  refine
    { entry
      ticket := (HandleMap.find?_eq_some_iff valid).mpr ⟨_, entry⟩
      block
      owners := fun name other found => owner_apart arisen orphan live found
      creates := fun t runs free nested creation supplies address named => ?_
      registers := fun t runs free site here same => ?_
      races := fun name named threads => attempts_duplicate arisen outside orphan named threads
      lookups := fun t runs => ?_
      destroys := fun t runs name => destroy_spares arisen orphan live runs name }
  · obtain ⟨failure, refused, duplicate⟩ := beginCreation_duplicate runs free live there
      (if nested then some (.create creation supplies) else none) address named
    refine ⟨failure, ?_, duplicate⟩
    unfold perform
    simp only [refused]
  · unfold register
    rw [here, same, underLock_refused runs free live (HandleMap.insert_of_contains there site.block)]
  · rcases (lookUp_spec runs mapped g.handle).2 arisen.lined with held | found
    · exact .inr held
    · exact .inl (found.trans (congrArg Except.ok block))

end World

namespace Scene

-- Whoever has left a registration behind owned it before.
theorem orphan_of_shift {s s' : Scene} (shift : Shift s s') {g : Guard} (orphan : g ∈ s'.world.orphans) :
    g ∈ s.world.orphans ∨ g ∈ s.guards := by
  rw [World.mem_orphans] at orphan ⊢
  cases shift with
  | opened r hash fresh maps guards journal | closed r unowned maps guards journal =>
    rw [journal] at orphan
    exact .inl orphan
  | kept told maps guards journal silent =>
    rw [journal] at orphan
    rcases List.mem_append.mp orphan with new | old
    · cases silent _ new
    · exact .inl old
  | enrolled other slots contexts grown live inserted building maps guards journal
  | withdrawn other scrubbed contexts left live removed maps guards journal =>
    rw [journal] at orphan
    rcases List.mem_cons.mp orphan with new | old
    · cases new
    · exact .inl old
  | orphaned other maps guards journal =>
    rw [journal] at orphan
    rcases List.mem_cons.mp orphan with new | old
    · obtain ⟨registry, entry, h, b⟩ := g
      obtain ⟨rfl, rfl, rfl, rfl⟩ := Event.stateOrphaned.inj new
      exact .inr (guards.mem_iff.mpr List.mem_cons_self)
    · exact .inl old

-- A registry that is gone does not come back.
theorem absent_of_moves {r : RegistryId} {s s' : Scene} (old : r.number < s.world.next)
    (gone : s.world.map? r = none) (moves : Moves s s') :
    r.number < s'.world.next ∧ s'.world.map? r = none := by
  induction moves with
  | refl => exact ⟨old, gone⟩
  | tail _ move ih =>
    obtain ⟨low, absent⟩ := ih
    refine ⟨Nat.lt_of_lt_of_le low move.next_le, Option.eq_none_iff_forall_not_mem.mpr ?_⟩
    intro contexts found
    rcases move.maps found with ⟨before, there⟩ | ⟨rfl, _⟩
    · cases absent.symm.trans there
    · exact Nat.lt_irrefl _ low

/-! What is told after the owner was given up. -/

namespace Arises

variable {hashing : RegistryId → Handle → UInt64} {s : Scene} {g : Guard}

-- The block of an orphan has been as it was when its owner was given up.
theorem left (arisen : Arises hashing s) (orphan : g ∈ s.world.orphans) :
    ∃ block, s.Settled g.block (· = block) ∧ ∀ slot object, block.object? slot = some object →
      .objectMade g.block slot object ∈ s.world.journal := by
  induction arisen with
  | refl => cases orphan
  | @tail s s' before move ih =>
    have earlier : Arises hashing s := before
    have still : ∀ {e}, e ∈ s.world.journal → e ∈ s'.world.journal := earlier.still (.single move)
    rcases orphan_of_shift (move.shift earlier.tidy) orphan with old | owns
    · obtain ⟨block, settled, placed⟩ := ih old
      exact ⟨block, settled.move move, fun slot object there => still (placed slot object there)⟩
    · obtain ⟨contexts, live⟩ := earlier.owned.live g owns
      have entry := earlier.owned.kept g (List.mem_append_left _ owns) _ live
      obtain ⟨block, found⟩ := earlier.live.block_registered earlier.tidy ⟨_, live, entry⟩
      exact ⟨block, (earlier.settled_of_find? found).move move, fun slot object there =>
        still (earlier.custody.placed g.block block found slot object there)⟩

theorem found_since (arisen : Arises hashing s) : EachLookup (fun r h found earlier =>
    r = g.registry → h = g.handle →
    .stateOrphaned g.registry g.entry g.block g.handle ∈ earlier → found = some g.block)
    s.world.journal := by
  refine arisen.eachLookup fun before r h contexts live here same orphan => ?_
  subst here same
  have owned := before.owned
  have there := owned.kept g (List.mem_append_right _ (World.mem_orphans.mpr orphan)) _ live
  exact (HandleMap.get?_eq_some_iff (owned.valid _ _ live)).mpr ⟨_, there⟩

-- The context gets no other state.
theorem uncreated_since (arisen : Arises hashing s) : s.world.journal.Pairwise fun later earlier =>
    earlier = .stateOrphaned g.registry g.entry g.block g.handle →
    ∀ entry b slots, later ≠ .stateCreated g.registry entry b g.handle slots := by
  induction arisen with
  | refl => exact .nil
  | @tail s s' before move ih =>
    -- Most of what is told is no creation.
    have still : ∀ {e : Event}, (∀ r entry b h slots, e ≠ .stateCreated r entry b h slots) →
        s'.world.journal = e :: s.world.journal → s'.world.journal.Pairwise fun later earlier =>
          earlier = .stateOrphaned g.registry g.entry g.block g.handle →
          ∀ entry b slots, later ≠ .stateCreated g.registry entry b g.handle slots := by
      intro e silent journal
      rw [journal]
      exact List.pairwise_cons.mpr ⟨fun _ _ _ entry b slots => silent _ _ _ _ _, ih⟩
    cases move.shift (Arises.tidy before) with
    | opened r hash fresh maps guards journal | closed r unowned maps guards journal =>
      rw [journal]
      exact ih
    | withdrawn other scrubbed contexts left live removed maps guards journal =>
      exact still (by intros; nofun) journal
    | orphaned other maps guards journal => exact still (by intros; nofun) journal
    | kept told maps guards journal silent =>
      have created : ∀ e ∈ told, ∀ entry b slots,
          e ≠ .stateCreated g.registry entry b g.handle slots := by
        rintro e listed entry b slots rfl
        cases silent _ listed
      rw [journal]
      refine List.pairwise_append.mpr ⟨?_, ih, fun e listed _ _ _ => created e listed⟩
      exact List.pairwise_of_forall_mem_list fun e listed _ _ _ => created e listed
    | enrolled other slots contexts grown live inserted building maps guards journal =>
      rw [journal]
      refine List.pairwise_cons.mpr ⟨fun e listed orphaned entry b slots same => ?_, ih⟩
      -- The handle was free.
      obtain ⟨here, _, _, handle, _⟩ := Event.stateCreated.inj same
      have owned := Arises.owned before
      have valid := owned.valid _ _ live
      have orphan := List.mem_append_right s.guards (World.mem_orphans.mpr (orphaned ▸ listed))
      have there := owned.kept g orphan _ (here ▸ live)
      have free := HandleMap.get?_fresh valid inserted
      rw [handle] at free
      exact absurd there ((HandleMap.get?_eq_none_iff valid).mp free _ _)

end Arises

end Scene

namespace Machine

variable {hashing : RegistryId → Handle → UInt64} {m after : Machine} {g : Guard} {block : Block}
  {front rest : List Task}

-- What still keeps the block of a registration that has lost its owner: the registry, a name that the
-- block is held under, or a task that is to give it up.
def Keeps (m : Machine) (g : Guard) : Prop :=
  m.world.registries.contains g.registry = true ∨ (∃ name, m.world.held.find? name = some g.block) ∨
    ∃ task ∈ m.tasks, task.refersToBlock g.block = true

-- After so many steps, and not before, nothing is left to be done but the rest.
def Done (m : Machine) (n : Nat) (rest : List Task) : Prop :=
  (m.steps n).tasks = rest ∧ ∀ k < n, ∃ first, first ≠ [] ∧ (m.steps k).tasks = first ++ rest

-- The objects of the block are dropped before the rest is begun, each of them once and for all time.
def Falls (m : Machine) (block : Block) (rest : List Task) : Prop :=
  ∃ n, m.Done n rest ∧ ∀ after, Later (m.steps n) after → after.world.Dropped block 1

/-! The block of an orphan. -/

-- A registration that has lost its owner, and its block as it was then.
structure LeftBehind (m : Machine) (g : Guard) (block : Block) : Prop where
  orphan : g ∈ m.world.orphans
  settled : m.scene.Settled g.block (· = block)
  placed : ∀ slot object, block.object? slot = some object →
    .objectMade g.block slot object ∈ m.world.journal

namespace LeftBehind

theorem on (left : LeftBehind m g block) (reached : m.Reached hashing) (later : Later m after) :
    LeftBehind after g block := by
  have moves := later.moves reached
  exact ⟨World.orphans_of_moves reached.arises moves left.orphan, left.settled.moves moves,
    fun slot object there => reached.arises.still moves (left.placed slot object there)⟩

theorem claims (left : LeftBehind m g block) : g ∈ m.scene.claims :=
  List.mem_append_right _ left.orphan

theorem refersToBlock_iff (left : LeftBehind m g block) (reached : m.Reached hashing) :
    m.world.refersToBlock g.block = true ↔ m.world.registries.contains g.registry = true ∨
      ∃ name, m.world.held.find? name = some g.block := by
  have arisen := reached.arises
  have owned := arisen.owned
  have tidy : m.world.Tidy := arisen.tidy
  rw [World.refersToBlock_iff tidy]
  constructor
  · rintro (⟨name, other, found, same⟩ | held | ⟨r, registry, entry, h, live, there⟩)
    · exact absurd same (owned.unowned left.orphan (reached.mem_guards.mpr ⟨name, found⟩))
    · exact .inr held
    · have claims := owned.claimed r _ entry h g.block (World.map?_of_find? live) there
      have same := List.inj_on_of_nodup_map owned.once claims left.claims rfl
      have here : r = g.registry := congrArg Guard.registry same
      exact .inl (here ▸ Table.contains_iff.mpr ⟨registry, live⟩)
  · rintro (live | held)
    · obtain ⟨registry, there⟩ := Table.contains_iff.mp live
      exact .inr (.inr ⟨g.registry, registry, g.entry, g.handle, there,
        owned.kept g left.claims _ (World.map?_of_find? there)⟩)
    · exact .inr (.inl held)

theorem contains_iff (left : LeftBehind m g block) (reached : m.Reached hashing) :
    m.world.blocks.contains g.block = true ↔ m.Keeps g := by
  have present : m.world.blocks.contains g.block
      = (m.world.refersToBlock g.block || m.tasks.any (·.refersToBlock g.block)) := by
    rw [← World.any_bearing fun task refers => by cases task <;> first | rfl | cases refers]
    simpa [Scene.needsBlock, Machine.scene] using reached.arises.live.blocks g.block
  rw [present, Bool.or_eq_true, left.refersToBlock_iff reached, List.any_eq_true, Keeps, or_assoc]

theorem find?_of_keeps (left : LeftBehind m g block) (reached : m.Reached hashing)
    (keeps : m.Keeps g) : m.world.blocks.find? g.block = some block := by
  obtain ⟨other, found⟩ := Table.contains_iff.mp ((left.contains_iff reached).mpr keeps)
  exact found.trans (congrArg some (left.settled.blocks other found))

theorem find?_of_not_keeps (left : LeftBehind m g block) (reached : m.Reached hashing)
    (gone : ¬m.Keeps g) : m.world.blocks.find? g.block = none := by
  refine Table.not_contains_iff.mp (Bool.eq_false_iff.mpr fun there => gone ?_)
  exact (left.contains_iff reached).mp there

/-! The objects of the block. -/

theorem drops_le_one (left : LeftBehind m g block) (reached : m.Reached hashing) {slot : Slot}
    {object : Object} (there : block.object? slot = some object) :
    m.world.journal.countP (·.drops object.id) ≤ 1 := by
  have one := reached.arises.copies_eq_one (left.placed slot object there)
  rw [← one]
  exact Nat.le_add_left _ _

theorem undropped (left : LeftBehind m g block) (reached : m.Reached hashing) (keeps : m.Keeps g) :
    m.world.Dropped block 0 := fun _ _ there =>
  reached.arises.undropped (left.find?_of_keeps reached keeps) there

-- When the block has fallen and none of its objects waits to be dropped, each of them was dropped.
theorem dropped (left : LeftBehind m g block) (reached : m.Reached hashing) (gone : ¬m.Keeps g)
    (idle : ∀ h object, .dropObject g.block h object ∉ m.tasks) : m.world.Dropped block 1 := by
  intro slot object there
  have unworked : ∀ task ∈ m.scene.loads, task.block? ≠ some g.block := by
    intro task listed working
    have waits := (Scene.mem_loads.mp listed).1
    have under : ∀ site, task.site? = some site → site.block ≠ g.block := fun site is same =>
      left.settled.finished (Scene.mem_building.mpr ⟨task, waits, site, is, same⟩)
    cases task with
    | construct site | make site f => exact under site rfl (Option.some.inj working)
    | dropObject b h object =>
      cases working
      exact idle h object (List.mem_of_mem_filter waits)
    | _ => cases working
  rcases reached.arises.settled (left.placed slot object there) unworked with
    ⟨other, found, _⟩ | ⟨once, _⟩
  · have absent := left.find?_of_not_keeps reached gone
    cases absent.symm.trans found
  · exact once

-- What was dropped once is not dropped again.
theorem dropped_on (left : LeftBehind m g block) (reached : m.Reached hashing)
    (dropped : m.world.Dropped block 1) (later : Later m after) : after.world.Dropped block 1 := by
  intro slot object there
  obtain ⟨told, journal⟩ := reached.arises.journal_grows (later.moves reached)
  have grown : after.world.journal = told ++ m.world.journal := journal
  have most := (left.on reached later).drops_le_one (reached.on later) there
  have once := dropped slot object there
  rw [grown, List.countP_append] at most ⊢
  omega

theorem falls (left : LeftBehind m g block) (reached : m.Reached hashing)
    (tasks : m.tasks = front ++ rest) (keeps : m.Keeps g) :
    m.Falls block rest ∨ ∃ n, m.Done n rest ∧ (m.steps n).Keeps g := by
  obtain ⟨n, done⟩ := steps_to front tasks
  have later := later_steps m n
  have reachedThen := reached.on later
  by_cases still : (m.steps n).Keeps g
  · exact .inr ⟨n, done, still⟩
  · refine .inl ⟨n, done, fun after => (left.on reached later).dropped_on reachedThen ?_⟩
    refine (left.on reached later).dropped reachedThen still fun h object waits => ?_
    -- What waits in the rest has waited since the block was still there.
    have listed : .dropObject g.block h object ∈ m.scene.tasks := by
      refine List.mem_filter.mpr ⟨?_, rfl⟩
      rw [tasks, ← done.1]
      exact List.mem_append_right _ waits
    have absent := reached.arises.absent_of_dropping listed
    cases absent.symm.trans (left.find?_of_keeps reached keeps)

end LeftBehind

/-! The end of a registry. -/

theorem Done.pos {task : Task} {n : Nat} (done : m.Done n rest) (tasks : m.tasks = task :: rest) :
    0 < n := by
  refine Nat.pos_of_ne_zero fun none_done => ?_
  subst none_done
  exact absurd (tasks.symm.trans done.1) (List.cons_ne_self _ _)

-- The last reference to the registry of an orphan goes: its references to the blocks that are
-- registered go next, and this block falls unless it is held or given up only later.
structure Closes (m : Machine) (g : Guard) (block : Block) (rest : List Task) : Prop where
  closed : ∃ registry, m.world.registries.find? g.registry = some registry ∧
    g.block ∈ registry.blocks ∧ m.step = ⟨{ m.world with
      registries := m.world.registries.erase g.registry }, m.thread,
      registry.blocks.map .releaseBlock ++ rest⟩
  gone : ∀ after, Later m.step after → after.world.registries.contains g.registry = false
  falls : m.Falls block rest ∨ ∃ n, m.Done n rest ∧
    ((∃ name, (m.steps n).world.held.find? name = some g.block) ∨
      ∃ task ∈ rest, task.refersToBlock g.block = true)

theorem LeftBehind.closes (left : LeftBehind m g block) (reached : m.Reached hashing)
    (tasks : m.tasks = .releaseRegistry g.registry :: rest)
    (unneeded : m.world.refersToRegistry g.registry = false)
    (last : rest.any (·.refersToRegistry g.registry) = false) : m.Closes g block rest := by
  have arisen := reached.arises
  have owned := arisen.owned
  have waits : .releaseRegistry g.registry ∈ m.scene.tasks :=
    List.mem_filter.mpr ⟨by rw [tasks]; exact List.mem_cons_self, rfl⟩
  obtain ⟨registry, live⟩ := arisen.live.registry_of_task (r := g.registry) waits
    (by simp [Task.refersToRegistry])
  have lived : m.world.registries.find? g.registry = some registry := live
  have entry := owned.kept g left.claims _ (World.map?_of_find? live)
  have stepped : m.step = ⟨{ m.world with registries := m.world.registries.erase g.registry }, m.thread,
      registry.blocks.map .releaseBlock ++ rest⟩ := by
    rw [step_of_cons tasks]
    simp only [World.take, World.releaseRegistry, unneeded, last, Bool.or_self, Bool.false_eq_true,
      if_false, lived]
  have gone : ∀ after, Later m.step after → after.world.registries.contains g.registry = false := by
    intro after later
    have erased : m.step.scene.world.map? g.registry = none := by
      rw [stepped]
      exact (World.map?_erase (w := m.world) (by rfl) g.registry).trans (if_pos rfl)
    have old : g.registry.number < m.step.scene.world.next := by
      rw [stepped]
      exact arisen.numbered.claims left.claims
    have absent := (Scene.absent_of_moves old erased (later.moves reached.step)).2
    rw [World.contains_registries]
    exact congrArg Option.isSome absent
  refine ⟨⟨registry, lived, ?_, stepped⟩, gone, ?_⟩
  · exact List.contains_iff_mem.mp (Registry.contains_blocks.mpr ⟨g.entry, g.handle, entry⟩)
  · have split : m.tasks = [.releaseRegistry g.registry] ++ rest := tasks
    have keeps : m.Keeps g := .inl (Table.contains_iff.mpr ⟨registry, lived⟩)
    rcases left.falls reached split keeps with falls | ⟨n, done, still⟩
    · exact .inl falls
    · obtain ⟨k, rfl⟩ := Nat.exists_eq_succ_of_ne_zero (done.pos tasks).ne'
      have closed := gone _ (later_steps m.step k)
      rcases still with live | others
      · cases closed.symm.trans live
      · exact .inr ⟨k.succ, done, by rwa [done.1] at others⟩

-- The last reference to the block of an orphan goes.
structure Frees (m : Machine) (g : Guard) (block : Block) (rest : List Task) : Prop where
  freed : m.step = ⟨{ m.world with blocks := m.world.blocks.erase g.block }, m.thread,
    dropTasks g.block block.handle block.objects ++ rest⟩
  gone : ∀ after, Later m.step after → after.world.blocks.find? g.block = none
  falls : m.Falls block rest

theorem LeftBehind.frees (left : LeftBehind m g block) (reached : m.Reached hashing)
    (tasks : m.tasks = .releaseBlock g.block :: rest)
    (last : ¬(⟨m.world, m.thread, rest⟩ : Machine).Keeps g) : m.Frees g block rest := by
  have keeps : m.Keeps g := .inr (.inr ⟨.releaseBlock g.block, by rw [tasks]; exact List.mem_cons_self,
    by simp [Task.refersToBlock]⟩)
  have there := left.find?_of_keeps reached keeps
  have unneeded : m.world.refersToBlock g.block = false := by
    refine Bool.eq_false_iff.mpr fun needed => last ?_
    rcases (left.refersToBlock_iff reached).mp needed with live | held
    · exact .inl live
    · exact .inr (.inl held)
  have alone : rest.any (·.refersToBlock g.block) = false := by
    refine Bool.eq_false_iff.mpr fun needed => last (.inr (.inr ?_))
    exact List.any_eq_true.mp needed
  have stepped : m.step = ⟨{ m.world with blocks := m.world.blocks.erase g.block }, m.thread,
      dropTasks g.block block.handle block.objects ++ rest⟩ := by
    rw [step_of_cons tasks]
    simp only [World.take, World.releaseBlock, unneeded, alone, Bool.or_self, Bool.false_eq_true,
      if_false, there]
  have gone : ∀ after, Later m.step after → after.world.blocks.find? g.block = none := by
    intro after later
    have born := reached.step.arises.owned.born g (left.on reached (later_steps m 1)).claims
    have absent : m.step.scene.world.blocks.find? g.block = none := by
      rw [stepped]
      exact Table.find?_erase_self ..
    exact (reached.step.arises.unseen born absent (later.moves reached.step)).1
  refine ⟨stepped, gone, ?_⟩
  have split : m.tasks = [.releaseBlock g.block] ++ rest := tasks
  rcases left.falls reached split keeps with falls | ⟨n, done, still⟩
  · exact falls
  · obtain ⟨k, rfl⟩ := Nat.exists_eq_succ_of_ne_zero (done.pos tasks).ne'
    have later := later_steps m (k + 1)
    have present := (left.on reached later).find?_of_keeps (reached.on later) still
    cases (gone _ (later_steps m.step k)).symm.trans present

/-! What a refused destroy leaves behind. -/

structure Permanent (m : Machine) (g : Guard) (block : Block) : Prop where
  occupied : ∀ registry, m.world.registries.find? g.registry = some registry →
    m.world.Occupied g registry
  -- Since the owner was given up every lookup has found the block, and the context got no other state.
  since : ∀ later earlier, m.world.journal
      = later ++ .stateOrphaned g.registry g.entry g.block g.handle :: earlier →
    (∀ t found route, .lookedUp t g.registry g.handle found route ∈ later → found = some g.block) ∧
    ∀ entry b slots, .stateCreated g.registry entry b g.handle slots ∉ later
  unremoved : ∀ r entry h scrubbed, .stateRemoved r entry g.block h scrubbed ∉ m.world.journal
  -- The block is as it was then, and complete, as long as something keeps it.
  kept : m.Keeps g → m.world.blocks.find? g.block = some block ∧ m.world.Dropped block 0
  gone : ¬m.Keeps g → m.world.blocks.find? g.block = none
  once : ∀ slot object, block.object? slot = some object →
    m.world.journal.countP (·.drops object.id) ≤ 1
  dropped : ¬m.Keeps g → (∀ h object, .dropObject g.block h object ∉ m.tasks) →
    m.world.Dropped block 1
  -- The registry goes, and with it the block, unless something still keeps it.
  closes : ∀ rest, m.tasks = .releaseRegistry g.registry :: rest →
    m.world.refersToRegistry g.registry = false →
    rest.any (·.refersToRegistry g.registry) = false → m.Closes g block rest
  -- Then the block goes with the last that keeps it.
  frees : ∀ rest, m.tasks = .releaseBlock g.block :: rest →
    ¬(⟨m.world, m.thread, rest⟩ : Machine).Keeps g → m.Frees g block rest

theorem LeftBehind.permanent (left : LeftBehind m g block) (reached : m.Reached hashing) :
    m.Permanent g block := by
  have arisen := reached.arises
  have owned := arisen.owned
  refine
    { occupied := fun registry live =>
        World.occupied arisen reached.steady.outside left.orphan live
      since := fun later earlier split => ⟨fun t found route listed => ?_, fun entry b slots listed => ?_⟩
      unremoved := fun r entry h scrubbed told =>
        (owned.removed r entry g.block h scrubbed told).2 g left.claims rfl
      kept := fun keeps => ⟨left.find?_of_keeps reached keeps, left.undropped reached keeps⟩
      gone := left.find?_of_not_keeps reached
      once := fun slot object there => left.drops_le_one reached there
      dropped := left.dropped reached
      closes := fun rest => left.closes reached
      frees := fun rest => left.frees reached }
  · obtain ⟨between, before, rfl⟩ := List.append_of_mem listed
    refine arisen.found_since between (before ++ _ :: earlier) t _ _ found route ?_ rfl rfl
      (List.mem_append_right _ List.mem_cons_self)
    exact split.trans (by rw [List.append_assoc]; rfl)
  · have pairs := arisen.uncreated_since (g := g)
    have told : m.scene.world.journal = _ := split
    rw [told] at pairs
    exact (List.pairwise_append.mp pairs).2.2 _ listed _ List.mem_cons_self rfl entry b slots rfl

theorem Reached.left_by_destroy (reached : m.Reached hashing) {nested : Bool} {name : Name}
    (tasks : m.tasks = .perform nested (.operate (.destroy name)) :: rest)
    (named : m.world.states.find? name = some g)
    (failed : (m.world.destroy m.thread name).answer = .failed (.panic .lockHeld)) :
    ∃ block, m.world.blocks.find? g.block = some block ∧ LeftBehind m.step g block := by
  have arisen := reached.arises
  have owns := reached.mem_guards.mpr ⟨name, named⟩
  obtain ⟨registry, contexts, live, removed⟩ := World.remove?_of_guard arisen owns
  obtain ⟨block, found⟩ := arisen.live.block_registered arisen.tidy
    ⟨_, World.map?_of_find? live, HandleMap.entry?_of_remove? removed⟩
  have runs := reached.runs_ahead _ (tasks ▸ List.mem_cons_self) rfl
  have stepped : m.step.world = (m.world.destroy m.thread name).world := by
    rw [step_of_cons tasks]
    rfl
  have orphan : g ∈ m.step.world.orphans := by
    rcases reached.destroys runs named with ⟨_, done, _⟩ | ⟨_, _, told⟩
    · cases done.symm.trans failed
    · rw [stepped]
      exact World.mem_orphans.mpr told
  have moves := (later_steps m 1).moves reached
  exact ⟨block, found, orphan, (arisen.settled_of_find? found).moves moves, fun slot object there =>
    arisen.still moves (arisen.custody.placed g.block block found slot object there)⟩

theorem Reached.left_behind (reached : m.Reached hashing) (orphan : g ∈ m.world.orphans) :
    ∃ block, LeftBehind m g block := by
  obtain ⟨block, settled, placed⟩ := reached.arises.left orphan
  exact ⟨block, orphan, settled, placed⟩

theorem failed_destroys_permanent (reached : m.Reached hashing) :
    (∀ nested name g rest, m.tasks = .perform nested (.operate (.destroy name)) :: rest →
      m.world.states.find? name = some g →
      (m.world.destroy m.thread name).answer = .failed (.panic .lockHeld) →
      ∃ block, m.world.blocks.find? g.block = some block ∧
        ∀ after, Later m.step after → after.Permanent g block) ∧
    -- So it is with every owner that was given up under a lock, after a creation or a race too.
    ∀ g ∈ m.world.orphans, ∃ block, ∀ after, Later m after → after.Permanent g block := by
  refine ⟨fun nested name g rest tasks named failed => ?_, fun g orphan => ?_⟩
  · obtain ⟨block, found, left⟩ := reached.left_by_destroy tasks named failed
    exact ⟨block, found, fun after later =>
      (left.on reached.step later).permanent (reached.step.on later)⟩
  · obtain ⟨block, left⟩ := reached.left_behind orphan
    exact ⟨block, fun after later => (left.on reached later).permanent (reached.on later)⟩

/-! A session in which a context of a registry of its own gets state, and the owner is given up under
the registry's lock.  Later the registry's name goes. -/

def ownRegistry : Machine := keyed.told (.act .main (.operate (.openRegistry "own"))) 2

def ownContext : Machine := ownRegistry.told (.act .main (.create ⟨"own", "state", 64, false⟩
  [⟨"key", .given .null, [], none, []⟩])) 6

def failing : Machine :=
  ownContext.told (.act .main (.whileLocked "own" [.operate (.destroy "state")])) 1

def closing : Machine := (failing.steps 7).told (.act .main (.operate (.dropRegistry "own"))) 1

theorem failing_reached : failing.Reached fun _ _ => 0 := by
  have registered : Later ⟨.start fun _ _ => 0, .main, []⟩ keyed := later_told rfl (by trivial) 2
  have named : Later keyed ownRegistry := later_told rfl (by trivial) 2
  have filled : Later ownRegistry ownContext := later_told rfl (by trivial) 6
  exact ((registered.trans named).trans filled).trans (later_told rfl (by trivial) 1)

-- The name is the last that refers to the registry: the block stands until then, and falls with it.
theorem failed_destroys_permanent_failing : ∃ g block,
    failing.world.states.find? "state" = some g ∧ closing.Closes g block [.answer none .done] ∧
    closing.world.Dropped block 0 ∧ (closing.steps 3).world.Dropped block 1 := by
  have tasks : failing.tasks = [.perform true (.operate (.destroy "state")), .unlock ⟨1⟩,
      .releaseRegistry ⟨1⟩, .answer none .done] := rfl
  have named : failing.world.states.find? "state" = some ⟨⟨1⟩, ⟨1, 1⟩, ⟨64, by decide⟩, ⟨2⟩⟩ := rfl
  obtain ⟨block, _, permanent⟩ := (failed_destroys_permanent failing_reached).1 _ _ _ _ tasks named rfl
  have idle : (failing.steps 7).tasks = [] := rfl
  have finished : Later failing.step (failing.steps 7) := later_after_step failing 6
  have later : Later failing.step closing := finished.trans (later_told idle (by trivial) 1)
  have before := permanent closing later
  have after := permanent (closing.steps 3) (later.trans (later_steps closing 3))
  have last : closing.tasks = [.releaseRegistry ⟨1⟩, .answer none .done] := rfl
  have alone : ¬(closing.steps 3).Keeps ⟨⟨1⟩, ⟨1, 1⟩, ⟨64, by decide⟩, ⟨2⟩⟩ := by
    rintro (live | ⟨name, held⟩ | ⟨task, listed, refers⟩)
    · cases live
    · cases held
    · cases List.mem_singleton.mp listed
      cases refers
  refine ⟨_, block, named, before.closes _ last rfl rfl, (before.kept (.inl rfl)).2, ?_⟩
  exact after.dropped alone fun h object waits => nomatch List.mem_singleton.mp waits

end Machine

end AttachedState
