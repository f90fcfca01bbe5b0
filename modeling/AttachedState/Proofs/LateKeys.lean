import AttachedState.Proofs.Isolation

/-!
Late keys.  A key that is registered after a block was begun gets a slot that nobody has any more.  If
a key that had this slot had something made for the block, the late key finds it there; it finds
nothing else.
-/

namespace AttachedState

namespace Scene

variable {s s' : Scene} {b : BlockId} {slots : List Slot}

-- All that was or will be made for the block was or will be made for one of the slots.
structure Supplied (s : Scene) (b : BlockId) (slots : List Slot) : Prop where
  old : b.number < s.world.next
  due : ∀ task ∈ s.loads, ∀ site, task.site? = some site → site.block = b →
    ∀ f ∈ task.factories, f.slot ∈ slots
  made : ∀ slot object, .objectMade b slot object ∈ s.world.journal → slot ∈ slots

theorem Supplied.move (supplied : s.Supplied b slots) (move : Move s s') : s'.Supplied b slots := by
  obtain ⟨old, due, made⟩ := supplied
  have haul := move.haul
  refine ⟨Nat.lt_of_lt_of_le old move.next_le, fun task listed site under here f waits => ?_, ?_⟩
  · rcases haul.due listed under waits with ⟨fresh, _⟩ | ⟨earlier, before, was, underToo, same, _, already⟩
    · rw [here] at fresh
      rw [fresh] at old
      exact absurd old (Nat.lt_irrefl _)
    · exact due earlier before was underToo (same.trans here) f already
  · intro slot object told
    have making := World.mem_makings.mpr told
    rcases haul.makings with same | ⟨site, f, new, rest, loads, _, more⟩
    · rw [same] at making
      exact made slot object (World.mem_makings.mp making)
    · rw [more] at making
      rcases List.mem_cons.mp making with now | before
      · cases now
        exact due _ (by rw [loads]; exact .head _) site rfl rfl f (.head _)
      · exact made slot object (World.mem_makings.mp before)

theorem Supplied.moves (supplied : s.Supplied b slots) (moves : Moves s s') :
    s'.Supplied b slots := by
  induction moves with
  | refl => exact supplied
  | tail _ move ih => exact ih.move move

-- What lies in a block that is in the world lies in one of these slots.
theorem Supplied.mem {hashing : RegistryId → Handle → UInt64} (supplied : s.Supplied b slots)
    (arisen : Arises hashing s) {block : Block} (found : s.world.blocks.find? b = some block)
    {slot : Slot} {object : Object} (there : block.object? slot = some object) : slot ∈ slots :=
  supplied.made slot object (arisen.custody.placed b block found slot object there)

end Scene

-- A key that is registered gets the first slot that is free in its space.
theorem World.registerKey_of_new {w : World} {name space : Name} {kind : Kind} {s : SpaceId}
    (named : w.spaceNamed? space = some s) (new : w.keys.find? name = none) :
    (w.registerKey name space kind).world.keys.find? name
      = some ⟨s, (w.space s).reserve.1, kind⟩ := by
  unfold registerKey
  rw [if_neg (by simp [Table.contains, new]), named]
  exact Table.find?_put_self ..

namespace Machine

variable {hashing : RegistryId → Handle → UInt64} {start m : Machine} {s : SpaceId}
  {supplies : List (Supply Action)} {site : Construction} {name : Name} {kind : Kind}

-- A key is registered in a space after a block was begun with factories for keys of the space.
structure LateKey (hashing : RegistryId → Handle → UInt64) (start m : Machine) (s : SpaceId)
    (supplies : List (Supply Action)) (site : Construction) (name : Name) (kind : Kind) : Prop where
  reached : start.Reached hashing
  creates : ∃ nested creation rest,
    start.tasks = .perform nested (.create creation supplies) :: rest ∧
    (start.world.beginCreation start.thread (if nested then some (.create creation supplies) else none)
      creation supplies).1 = .ok site
  live : ∀ supply ∈ supplies, ∃ old, start.world.keys.find? supply.key = some old ∧ old.space = s
  later : Later start.step m
  registers : ∃ nested space rest,
    m.tasks = .perform nested (.operate (.registerKey name space kind)) :: rest ∧
    m.world.spaceNamed? space = some s
  new : m.world.keys.find? name = none

-- From the step on in which the construction is begun, its factories are all that fills the block.
theorem LateKey.supplied (late : LateKey hashing start m s supplies site name kind) :
    start.step.scene.Supplied site.block (site.pending.map (·.slot)) := by
  obtain ⟨reached, ⟨nested, creation, rest, tasks, begun⟩, _, _, _, _⟩ := late
  have began : start.world.beginCreation start.thread
      (if nested then some (.create creation supplies) else none) creation supplies
        = (.ok site, _) := Prod.ext begun rfl
  obtain ⟨after, _, fresh, _⟩ := World.beginCreation_site began
  have first := steps_of_creation tasks begun
  have world : start.step.world = { start.world with next := start.world.next + 1 } := by
    rw [← after, step_of_cons tasks]
    simp only [World.take, World.perform]
    split <;> rename_i began <;> rw [began]
  have here : Task.construct site ∈ start.step.tasks := by
    rw [first]
    exact List.mem_cons_self
  refine ⟨?_, ?_, ?_⟩
  · rw [fresh, scene, world]
    exact Nat.lt_succ_self _
  · intro task listed now under same f waits
    obtain ⟨front, behind, all⟩ := List.mem_iff_append.mp
      (List.mem_filter.mp (Scene.mem_loads.mp listed).1).1
    obtain ⟨rfl, isFirst, _⟩ := reached.step.same_site _ all under first rfl same.symm
    rw [← isFirst] at waits
    exact List.mem_map_of_mem waits
  · intro slot object told
    have old := (Scene.Arises.numbered reached.arises).journal (.objectMade site.block slot object)
    rw [scene, world] at told
    have less := old told site.block.number (by simp [Event.numbers])
    rw [fresh] at less
    exact absurd less (Nat.lt_irrefl _)

-- What the late key reads from the block, now or later.
structure Inherits (start m : Machine) (supplies : List (Supply Action)) (site : Construction)
    (key : Key) (after : Machine) (block : Block) : Prop where
  -- It reads only what was made for a key that had its slot and was dropped before.
  left : ∀ value, block.read? key.slot key.kind = some value → ∃ supply ∈ supplies, ∃ old object,
    start.world.keys.find? supply.key = some old ∧ old.slot = key.slot ∧
    m.world.keys.find? supply.key ≠ some old ∧ block.object? key.slot = some object ∧
    .objectMade site.block key.slot object ∈ after.world.journal ∧
    object.value = value ∧ value.kind = key.kind
  -- So it reads nothing as long as no key that the block was supplied for was dropped.
  nothing : (∀ supply ∈ supplies, ∀ old, start.world.keys.find? supply.key = some old →
    old.slot = key.slot → m.world.keys.find? supply.key = some old) →
    block.object? key.slot = none ∧ block.read? key.slot key.kind = none

-- What lies in the late key's slot was made for a key of the space, which has the slot no more.
theorem LateKey.inherited (late : LateKey hashing start m s supplies site name kind) {after : Machine}
    (laterThen : Later m.step after) {block : Block}
    (found : after.world.blocks.find? site.block = some block) {object : Object}
    (there : block.object? (m.world.space s).reserve.1 = some object) :
    ∃ supply ∈ supplies, ∃ old, start.world.keys.find? supply.key = some old ∧
      old.slot = (m.world.space s).reserve.1 ∧ m.world.keys.find? supply.key ≠ some old ∧
      .objectMade site.block (m.world.space s).reserve.1 object ∈ after.world.journal := by
  have supplied := late.supplied
  obtain ⟨reached, ⟨nested, creation, rest, tasks, begun⟩, live, later, _, _⟩ := late
  have began : start.world.beginCreation start.thread
      (if nested then some (.create creation supplies) else none) creation supplies
        = (.ok site, _) := Prod.ext begun rfl
  have made := map_of_mapM (World.beginCreation_pending began).1
  have reachedThen : m.Reached hashing := reached.step.on later
  have reachedAfter := reachedThen.step.on laterThen
  have moves := Later.moves reached.step (later.trans (.head (.step m) laterThen))
  have listed := (supplied.moves moves).mem reachedAfter.arises found there
  obtain ⟨f, waits, slot⟩ := List.mem_map.mp listed
  obtain ⟨supply, supplied, makes⟩ := World.exists_supply made waits
  obtain ⟨old, known, rfl⟩ := World.factory?_eq_some.mp makes
  have told := (Scene.Arises.custody reachedAfter.arises).placed _ block found _ object there
  refine ⟨supply, supplied, old, known, slot, fun still => ?_, told⟩
  -- A key that is there has its slot, and the late key was given one that nobody had.
  obtain ⟨same, knownToo, here⟩ := live supply supplied
  rw [known] at knownToo
  cases knownToo
  have keyed : m.world.Keyed := Scene.Arises.keyed reachedThen.arises
  have reserved := keyed.reserved supply.key old still
  simp only at slot
  rw [here, slot, SlotPool.isReserved_reserved] at reserved
  cases reserved

theorem late_key_inherits (late : LateKey hashing start m s supplies site name kind) : ∃ key,
    m.step.world.keys.find? name = some key ∧ key.space = s ∧ key.kind = kind ∧
    ∀ after, Later m.step after → ∀ block, after.world.blocks.find? site.block = some block →
      Inherits start m supplies site key after block := by
  obtain ⟨nested, space, rest, registers, named⟩ := late.registers
  refine ⟨⟨s, (m.world.space s).reserve.1, kind⟩, ?_, rfl, rfl, fun after laterThen block found => ?_⟩
  · rw [step_of_cons registers]
    exact World.registerKey_of_new named late.new
  · refine ⟨fun value read => ?_, fun kept => ?_⟩
    · unfold Block.read? at read
      obtain ⟨object, there, fits⟩ := Option.bind_eq_some_iff.mp read
      obtain ⟨supply, listed, old, known, slot, gone, told⟩ := late.inherited laterThen found there
      split at fits <;> cases fits
      rename_i same
      exact ⟨supply, listed, old, object, known, slot, gone, there, told, rfl, same⟩
    · have empty : block.object? (m.world.space s).reserve.1 = none := by
        cases there : block.object? (m.world.space s).reserve.1 with
        | none => rfl
        | some object =>
          obtain ⟨supply, listed, old, known, slot, gone, _⟩ := late.inherited laterThen found there
          exact absurd (kept supply listed old known slot) gone
      refine ⟨empty, ?_⟩
      unfold Block.read?
      rw [empty, Option.bind_none]

/-! A session in which a context gets an extension for a key, the key is dropped, and another key of
the same kind is registered. -/

def begins : Machine :=
  firstKey.told (.act .main (.create ⟨globalName, "state", 64, false⟩ [supplyByte "first" 7])) 0

def dropsKey : Machine := (begins.steps 6).told (.act .main (.operate (.dropKey "first"))) 2

def registersLate : Machine :=
  dropsKey.told (.act .main (.operate (.registerKey "late" globalName .byte))) 0

theorem begins_reached : begins.Reached fun _ _ => 0 := by
  have first : Later ⟨.start fun _ _ => 0, .main, []⟩ firstKey := later_told rfl (by trivial) 2
  exact first.trans (later_told rfl (by trivial) 0)

theorem registersLate_later : Later begins.step registersLate := by
  have made : Later begins.step (begins.steps 6) := later_steps begins.step 5
  have dropped : Later (begins.steps 6) dropsKey := later_told rfl (by trivial) 2
  exact (made.trans dropped).trans (later_told rfl (by trivial) 0)

theorem registersLate_late : ∃ site, site.block = ⟨1⟩ ∧ LateKey (fun _ _ => 0) begins registersLate
    globalSpace [supplyByte "first" 7] site "late" .byte := by
  refine ⟨_, rfl, begins_reached, ⟨false, _, [], rfl, rfl⟩, fun supply listed => ?_,
    registersLate_later, ⟨false, globalName, [], rfl, rfl⟩, rfl⟩
  rw [List.mem_singleton.mp listed]
  exact ⟨_, rfl, rfl⟩

-- The late key reads what was made for the first one, which it can only as that one was dropped.
theorem late_key_inherits_first : ∃ key block old,
    registersLate.step.world.keys.find? "late" = some key ∧
    registersLate.step.world.blocks.find? ⟨1⟩ = some block ∧
    block.read? key.slot key.kind = some (.byte 7) ∧
    begins.world.keys.find? "first" = some old ∧ old.slot = key.slot ∧
    registersLate.world.keys.find? "first" ≠ some old := by
  obtain ⟨site, here, late⟩ := registersLate_late
  obtain ⟨key, registered, _, _, inherits⟩ := late_key_inherits late
  have slot : key = ⟨globalSpace, 0, .byte⟩ := Option.some.inj (registered.symm.trans rfl)
  rw [here] at inherits
  obtain ⟨supply, listed, old, _, known, same, gone, _⟩ :=
    (inherits registersLate.step .refl _ rfl).left (.byte 7) (by rw [slot]; rfl)
  rw [List.mem_singleton.mp listed] at known gone
  exact ⟨key, _, old, registered, rfl, by rw [slot]; rfl, known, same, gone⟩

-- So it is not true that a key that is registered after a block was built reads nothing from it.
theorem late_key_reads : ¬ ∀ start m s supplies site name kind,
    LateKey (fun _ _ => 0) start m s supplies site name kind →
    m.world.blocks.contains site.block = true → ∀ key, m.step.world.keys.find? name = some key →
    ∀ after, Later m.step after → ∀ block, after.world.blocks.find? site.block = some block →
      block.read? key.slot key.kind = none := by
  intro law
  obtain ⟨site, here, late⟩ := registersLate_late
  have nothing := law _ _ _ _ _ _ _ late (by rw [here]; rfl) _ rfl _ .refl _ (by rw [here]; rfl)
  cases nothing

end Machine

end AttachedState
