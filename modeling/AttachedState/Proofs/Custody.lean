import AttachedState.Proofs.Hauls

/-!
Custody of extension objects.  Every object that a factory made is in one place: in its slot of a
block, finished or under construction, in a task that is to drop it, or, once it was dropped, in the
journal.  No move loses an object, and none makes two of one.
-/

namespace AttachedState

namespace Event

def makes (id : ObjectId) : Event → Bool
  | objectMade _ _ object => object.id = id
  | _ => false

def drops (id : ObjectId) : Event → Bool
  | objectDropped _ _ object _ => object.id = id
  | _ => false

theorem makes_of_not_ofObject {e : Event} (silent : e.ofObject = false) (id : ObjectId) :
    e.makes id = false := by
  cases e <;> first | rfl | cases silent

theorem drops_of_not_ofObject {e : Event} (silent : e.ofObject = false) (id : ObjectId) :
    e.drops id = false := by
  cases e <;> first | rfl | cases silent

end Event

-- How many slots hold the object.
def heldIn (id : ObjectId) (slots : List (Option Object)) : Nat :=
  slots.countP fun object => object.any (·.id = id)

namespace Task

-- How many times a task has the object in its hands.
def holds (id : ObjectId) : Task → Nat
  | construct site | make site _ => heldIn id site.slots
  | dropObject _ _ object => if object.id = id then 1 else 0
  | _ => 0

-- The factories whose objects a task is still to make.
def factories : Task → List Factory
  | construct site => site.pending
  | make site f => f :: site.pending
  | _ => []

theorem holds_of_site? {task : Task} {site : Construction} (under : task.site? = some site)
    (id : ObjectId) : task.holds id = heldIn id site.slots := by
  cases task <;> cases under <;> rfl

end Task

def heldByTasks (id : ObjectId) (tasks : List Task) : Nat := (tasks.map (·.holds id)).sum

theorem heldByTasks_append (id : ObjectId) (first later : List Task) :
    heldByTasks id (first ++ later) = heldByTasks id first + heldByTasks id later := by
  simp [heldByTasks]

theorem heldByTasks_cons (id : ObjectId) (task : Task) (rest : List Task) :
    heldByTasks id (task :: rest) = task.holds id + heldByTasks id rest := by
  simp [heldByTasks]

-- What lay in the slots of a block is what the tasks that drop its objects have.
theorem heldByTasks_dropTasks (id : ObjectId) (b : BlockId) (h : Handle) (block : Block) :
    heldByTasks id (dropTasks b h block.objects) = heldIn id block.slots := by
  obtain ⟨handle, slots⟩ := block
  induction slots with
  | nil => rfl
  | cons object rest ih =>
    cases object with
    | none =>
      have first : dropTasks b h (Block.mk handle (none :: rest)).objects
          = dropTasks b h (Block.mk handle rest).objects := rfl
      rw [first, ih, heldIn, heldIn, List.countP_cons_of_neg (by simp)]
    | some object =>
      have first : dropTasks b h (Block.mk handle (some object :: rest)).objects
          = .dropObject b h object :: dropTasks b h (Block.mk handle rest).objects := rfl
      simp only [heldIn] at ih
      rw [first, heldByTasks_cons, ih, heldIn, List.countP_cons, Nat.add_comm]
      simp only [Task.holds, Option.any_some, decide_eq_true_eq]

theorem heldIn_vacant {id : ObjectId} {slots : List (Option Object)}
    (vacant : ∀ object ∈ slots, object = none) : heldIn id slots = 0 := by
  apply List.countP_eq_zero.mpr
  intro object listed
  rw [vacant object listed]
  exact Bool.false_ne_true

-- An object that goes into a slot takes the place of what was there.
theorem heldIn_set (id : ObjectId) {slots : List (Option Object)} {slot : Slot}
    (inside : slot < slots.length) (object : Object) :
    heldIn id (slots.set slot (some object)) + (if (slots[slot]?.join).any (·.id = id) then 1 else 0)
      = heldIn id slots + (if object.id = id then 1 else 0) := by
  have there : slots[slot]?.join = slots[slot] := by
    rw [List.getElem?_eq_getElem inside]
    rfl
  have counted : (if slots[slot].any (fun object => decide (object.id = id)) = true then 1 else 0)
      ≤ heldIn id slots := by
    split
    · rename_i holds
      exact List.countP_pos_iff.mpr ⟨_, List.getElem_mem inside, holds⟩
    · exact Nat.zero_le _
  unfold heldIn at counted ⊢
  rw [there, List.countP_set inside]
  simp only [Option.any_some, decide_eq_true_eq]
  omega

namespace Block

theorem mem_objects {block : Block} {object : Object} :
    object ∈ block.objects ↔ ∃ slot, block.object? slot = some object := by
  simp only [objects, object?, List.mem_filterMap, id, exists_eq_right, Option.join_eq_some_iff]
  exact List.mem_iff_getElem?

end Block

namespace Scene

-- How many times an object is somewhere: in blocks, in tasks, and among those that were dropped.
def copies (s : Scene) (id : ObjectId) : Nat :=
  s.world.blocks.total (heldIn id ·.slots) + heldByTasks id s.loads
    + s.world.journal.countP (·.drops id)

structure Custody (s : Scene) : Prop where
  born : ∀ b block, s.world.blocks.find? b = some block → b ∈ s.world.births
  placed : ∀ b block, s.world.blocks.find? b = some block → ∀ slot object,
    block.object? slot = some object → .objectMade b slot object ∈ s.world.journal
  working : ∀ task ∈ s.loads, ∀ site, task.site? = some site → ∀ slot object,
    site.built.object? slot = some object → .objectMade site.block slot object ∈ s.world.journal
  dropping : ∀ b h object, .dropObject b h object ∈ s.loads →
    ∃ slot, .objectMade b slot object ∈ s.world.journal
  room : ∀ task ∈ s.loads, ∀ site, task.site? = some site → ∀ f ∈ task.factories,
    f.slot < site.slots.length
  balanced : ∀ id, s.copies id = s.world.journal.countP (·.makes id)

theorem custody_start (hashing : RegistryId → Handle → UInt64) : (start hashing).Custody := by
  refine ⟨?_, ?_, List.forall_mem_nil _, ?_, List.forall_mem_nil _, fun _ => rfl⟩
  · intro b block found
    cases found
  · intro b block found
    cases found
  · intro b h object listed
    cases listed

end Scene

namespace Haul

variable {s s' : Scene}

theorem journal_grows (haul : Haul s s') :
    ∃ told, s'.world.journal = told ++ s.world.journal := by
  cases haul with
  | idle told loads blocks journal => exact ⟨told, journal⟩
  | begun site fresh vacant room loads blocks journal => exact ⟨[], journal⟩
  | tried site f later rest pending before loads blocks journal => exact ⟨[_], journal⟩
  | made site f object rest fresh before loads blocks journal => exact ⟨[_], journal⟩
  | abandoned task site rest under before loads blocks journal => exact ⟨[], journal⟩
  | enrolled site entry rest before loads blocks journal => exact ⟨[_], journal⟩
  | fell b block present loads blocks journal => exact ⟨[], journal⟩
  | dropped b h object registered rest before loads blocks journal => exact ⟨[_], journal⟩

theorem still (haul : Haul s s') {e : Event} (listed : e ∈ s.world.journal) :
    e ∈ s'.world.journal := by
  obtain ⟨told, journal⟩ := haul.journal_grows
  rw [journal]
  exact List.mem_append_right _ listed

-- A block that is in the world was there before, or is the one that was finished just now.
theorem present (haul : Haul s s') {b : BlockId} {block : Block}
    (found : s'.world.blocks.find? b = some block) : s.world.blocks.find? b = some block ∨
      ∃ site entry rest, s.loads = .construct site :: rest ∧ b = site.block ∧ block = site.built ∧
        s'.loads = rest ∧ s'.world.journal = .stateCreated site.registry entry site.block site.handle
          site.built.slotCount :: s.world.journal := by
  cases haul with
  | idle told loads blocks | begun site fresh vacant room loads blocks
  | tried site f later rest pending before loads blocks
  | made site f object rest fresh before loads blocks
  | abandoned task site rest under before loads blocks
  | dropped b h object registered rest before loads blocks =>
    rw [blocks] at found
    exact .inl found
  | fell b' block' present loads blocks =>
    rw [blocks, Table.find?_erase] at found
    split at found
    · cases found
    · exact .inl found
  | enrolled site entry rest before loads blocks journal =>
    rw [blocks, Table.find?_put] at found
    split at found
    · rename_i here
      cases found
      exact .inr ⟨site, entry, rest, before, here, rfl, loads, journal⟩
    · exact .inl found

theorem births (haul : Haul s s') {b : BlockId} (born : b ∈ s.world.births) :
    b ∈ s'.world.births := by
  obtain ⟨r, entry, h, slots, listed⟩ := World.mem_births.mp born
  exact World.mem_births.mpr ⟨r, entry, h, slots, haul.still listed⟩

-- Likewise a block whose state was created.
theorem born (haul : Haul s s') {b : BlockId} (born : b ∈ s'.world.births) :
    b ∈ s.world.births ∨
      ∃ site entry rest, s.loads = .construct site :: rest ∧ b = site.block ∧ s'.loads = rest ∧
        s'.world.journal = .stateCreated site.registry entry site.block site.handle
          site.built.slotCount :: s.world.journal := by
  unfold World.births at born ⊢
  cases haul with
  | idle told loads blocks journal silent =>
    rw [journal, List.filterMap_append, List.mem_append] at born
    rcases born with new | old
    · obtain ⟨e, listed, is⟩ := List.mem_filterMap.mp new
      rw [(silent e listed).2] at is
      cases is
    · exact .inl old
  | enrolled site entry rest before loads blocks journal =>
    rw [journal] at born
    rcases List.mem_cons.mp born with new | old
    · exact .inr ⟨site, entry, rest, before, new, loads, journal⟩
    · exact .inl old
  | begun site fresh vacant room loads blocks journal
  | tried site f later rest pending before loads blocks journal
  | made site f object rest fresh before loads blocks journal
  | abandoned task site rest under before loads blocks journal
  | fell b' block present loads blocks journal
  | dropped b' h object registered rest before loads blocks journal =>
    rw [journal] at born
    exact .inl born

end Haul

theorem Task.site?_of_mem_dropTasks {task : Task} {b : BlockId} {h : Handle} {objects : List Object}
    (listed : task ∈ dropTasks b h objects) : task.site? = none := by
  obtain ⟨object, _, rfl⟩ := List.mem_map.mp listed
  rfl

-- A factory that is still to run had still to run before, for the same block, unless the block was
-- begun just now.
theorem Haul.due {s s' : Scene} (haul : Haul s s') {task : Task} (listed : task ∈ s'.loads)
    {site : Construction} (under : task.site? = some site) {f : Factory} (due : f ∈ task.factories) :
    (site.block = ⟨s.world.next⟩ ∧ f.slot < site.slots.length) ∨
      ∃ earlier ∈ s.loads, ∃ was, earlier.site? = some was ∧ was.block = site.block ∧
        was.slots.length = site.slots.length ∧ f ∈ earlier.factories := by
  by_cases still : task ∈ s.loads
  · exact .inr ⟨task, still, site, under, rfl, rfl, due⟩
  cases haul with
  | idle told loads => exact absurd (loads ▸ listed) still
  | begun new fresh vacant room loads =>
    rw [loads] at listed
    rcases List.mem_cons.mp listed with rfl | before
    · cases under
      exact .inl ⟨fresh, room f due⟩
    · exact absurd before still
  | tried was g later rest pending before loads =>
    rw [loads] at listed
    rcases List.mem_cons.mp listed with rfl | behind
    · cases under
      refine .inr ⟨.construct was, by rw [before]; exact .head _, was, rfl, rfl, rfl, ?_⟩
      rw [Task.factories, pending]
      exact due
    · exact absurd (by rw [before]; exact .tail _ behind) still
  | made was g new rest fresh before loads =>
    rw [loads] at listed
    rcases List.mem_append.mp listed with drop | later
    · cases earlier : was.built.object? g.slot with
      | none => rw [earlier] at drop; cases drop
      | some object =>
        rw [earlier] at drop
        rw [List.mem_singleton.mp drop] at under
        cases under
    · rcases List.mem_cons.mp later with rfl | behind
      · cases under
        exact .inr ⟨.make was g, by rw [before]; exact .head _, was, rfl, rfl, by simp, .tail _ due⟩
      · exact absurd (by rw [before]; exact .tail _ behind) still
  | abandoned gone was rest left before loads =>
    rw [loads] at listed
    rcases List.mem_append.mp listed with drop | behind
    · rw [Task.site?_of_mem_dropTasks drop] at under
      cases under
    · exact absurd (by rw [before]; exact .tail _ behind) still
  | enrolled was entry rest before loads | dropped b h gone registered rest before loads =>
    rw [loads] at listed
    exact absurd (by rw [before]; exact .tail _ listed) still
  | fell b block present loads =>
    rw [loads] at listed
    rcases List.mem_append.mp listed with drop | behind
    · rw [Task.site?_of_mem_dropTasks drop] at under
      cases under
    · exact absurd behind still

namespace Scene.Custody

variable {s s' : Scene}

theorem placed_after (custody : s.Custody) (haul : Haul s s') {b : BlockId} {block : Block}
    (found : s'.world.blocks.find? b = some block) {slot : Slot} {object : Object}
    (there : block.object? slot = some object) : .objectMade b slot object ∈ s'.world.journal := by
  rcases haul.present found with before | ⟨site, entry, rest, loads, rfl, rfl, _⟩
  · exact haul.still (custody.placed b block before slot object there)
  · exact haul.still (custody.working _ (by rw [loads]; exact .head _) site rfl slot object there)

theorem working_after (custody : s.Custody) (haul : Haul s s') {task : Task}
    (listed : task ∈ s'.loads) {site : Construction} (under : task.site? = some site) {slot : Slot}
    {object : Object} (there : site.built.object? slot = some object) :
    .objectMade site.block slot object ∈ s'.world.journal := by
  have old : task ∈ s.loads → .objectMade site.block slot object ∈ s'.world.journal :=
    fun before => haul.still (custody.working task before site under slot object there)
  cases haul with
  | idle told loads => exact old (loads ▸ listed)
  | begun new fresh vacant room loads =>
    rw [loads] at listed
    rcases List.mem_cons.mp listed with rfl | before
    · cases under
      have nothing := vacant _ (List.mem_of_getElem? (Option.join_eq_some_iff.mp there))
      cases nothing
    · exact old before
  | tried was f later rest pending before loads blocks journal =>
    rw [loads] at listed
    rcases List.mem_cons.mp listed with rfl | behind
    · cases under
      rw [journal]
      apply List.mem_cons_of_mem _
      exact custody.working _ (by rw [before]; exact .head _) was rfl slot object there
    · exact old (by rw [before]; exact .tail _ behind)
  | made was f new rest fresh before loads blocks journal =>
    have head : Task.make was f ∈ s.loads := by rw [before]; exact .head _
    rw [loads] at listed
    rcases List.mem_append.mp listed with drop | later
    · cases earlier : was.built.object? f.slot with
      | none => rw [earlier] at drop; cases drop
      | some object =>
        rw [earlier] at drop
        rw [List.mem_singleton.mp drop] at under
        cases under
    · rcases List.mem_cons.mp later with rfl | behind
      · cases under
        rw [journal]
        simp only [Construction.built, Block.object?, Option.join_eq_some_iff] at there
        by_cases here : slot = f.slot
        · subst here
          obtain ⟨inside, _⟩ := List.getElem?_eq_some_iff.mp there
          rw [List.getElem?_set_self (by simpa using inside)] at there
          cases there
          exact .head _
        · rw [List.getElem?_set_ne (Ne.symm here)] at there
          apply List.mem_cons_of_mem _
          exact custody.working _ head was rfl slot object (Option.join_eq_some_iff.mpr there)
      · exact old (by rw [before]; exact .tail _ behind)
  | abandoned task was rest gone before loads =>
    rw [loads] at listed
    rcases List.mem_append.mp listed with drop | behind
    · rw [Task.site?_of_mem_dropTasks drop] at under
      cases under
    · exact old (by rw [before]; exact .tail _ behind)
  | enrolled was entry rest before loads | dropped b h gone registered rest before loads =>
    rw [loads] at listed
    exact old (by rw [before]; exact .tail _ listed)
  | fell b block present loads =>
    rw [loads] at listed
    rcases List.mem_append.mp listed with drop | behind
    · rw [Task.site?_of_mem_dropTasks drop] at under
      cases under
    · exact old behind

theorem dropping_after (custody : s.Custody) (haul : Haul s s') {b : BlockId} {h : Handle}
    {object : Object} (listed : .dropObject b h object ∈ s'.loads) :
    ∃ slot, .objectMade b slot object ∈ s'.world.journal := by
  have old : .dropObject b h object ∈ s.loads →
      ∃ slot, .objectMade b slot object ∈ s'.world.journal := by
    intro before
    obtain ⟨slot, made⟩ := custody.dropping b h object before
    exact ⟨slot, haul.still made⟩
  have grown := haul
  cases haul with
  | idle told loads => exact old (loads ▸ listed)
  | begun site fresh vacant room loads =>
    rw [loads] at listed
    rcases List.mem_cons.mp listed with new | before
    · cases new
    · exact old before
  | tried site f later rest pending before loads =>
    rw [loads] at listed
    rcases List.mem_cons.mp listed with new | behind
    · cases new
    · exact old (by rw [before]; exact .tail _ behind)
  | made site f new rest fresh before loads =>
    have head : Task.make site f ∈ s.loads := by rw [before]; exact .head _
    rw [loads] at listed
    rcases List.mem_append.mp listed with drop | later
    · cases earlier : site.built.object? f.slot with
      | none => rw [earlier] at drop; cases drop
      | some was =>
        rw [earlier] at drop
        cases List.mem_singleton.mp drop
        exact ⟨f.slot, grown.still (custody.working _ head site rfl f.slot object earlier)⟩
    · rcases List.mem_cons.mp later with new | behind
      · cases new
      · exact old (by rw [before]; exact .tail _ behind)
  | abandoned task site rest under before loads =>
    have head : task ∈ s.loads := by rw [before]; exact .head _
    rw [loads] at listed
    rcases List.mem_append.mp listed with drop | behind
    · obtain ⟨was, held, same⟩ := List.mem_map.mp drop
      cases same
      obtain ⟨slot, there⟩ := Block.mem_objects.mp held
      exact ⟨slot, grown.still (custody.working task head site under slot object there)⟩
    · exact old (by rw [before]; exact .tail _ behind)
  | enrolled site entry rest before loads | dropped b' h' gone registered rest before loads =>
    rw [loads] at listed
    exact old (by rw [before]; exact .tail _ listed)
  | fell b' block present loads =>
    rw [loads] at listed
    rcases List.mem_append.mp listed with drop | behind
    · obtain ⟨was, held, same⟩ := List.mem_map.mp drop
      cases same
      obtain ⟨slot, there⟩ := Block.mem_objects.mp held
      exact ⟨slot, grown.still (custody.placed b block present slot object there)⟩
    · exact old behind

theorem room_after (custody : s.Custody) (haul : Haul s s') {task : Task} (listed : task ∈ s'.loads)
    {site : Construction} (under : task.site? = some site) {f : Factory} (due : f ∈ task.factories) :
    f.slot < site.slots.length := by
  rcases haul.due listed under due with ⟨_, room⟩ | ⟨earlier, before, was, site, _, length, already⟩
  · exact room
  · rw [← length]
    exact custody.room earlier before was site f already

-- Whatever happens to an object, it leaves one place for another.
theorem balanced_after (custody : s.Custody) (tidy : s.world.Tidy)
    (absent : ∀ site rest, s.loads = .construct site :: rest →
      s.world.blocks.find? site.block = none)
    (haul : Haul s s') (id : ObjectId) :
    s'.copies id = s'.world.journal.countP (·.makes id) := by
  have before := custody.balanced id
  unfold Scene.copies at before ⊢
  cases haul with
  | idle told loads blocks journal silent =>
    have made : told.countP (·.makes id) = 0 := List.countP_eq_zero.mpr fun e listed => by
      rw [Event.makes_of_not_ofObject (silent e listed).1]
      exact Bool.false_ne_true
    have dropped : told.countP (·.drops id) = 0 := List.countP_eq_zero.mpr fun e listed => by
      rw [Event.drops_of_not_ofObject (silent e listed).1]
      exact Bool.false_ne_true
    rw [loads, blocks, journal, List.countP_append, List.countP_append, made, dropped]
    omega
  | begun site fresh vacant room loads blocks journal =>
    rw [loads, blocks, journal, heldByTasks_cons, Task.holds_of_site? rfl, heldIn_vacant vacant]
    omega
  | tried site f later rest pending was loads blocks journal =>
    rw [was, heldByTasks_cons] at before
    rw [loads, blocks, journal, heldByTasks_cons, List.countP_cons, List.countP_cons]
    exact before
  | made site f object rest fresh was loads blocks journal =>
    have head : Task.make site f ∈ s.loads := by rw [was]; exact .head _
    have inside := custody.room _ head site rfl f (.head _)
    have moved := heldIn_set id inside object
    rw [was, heldByTasks_cons, Task.holds_of_site? rfl] at before
    rw [loads, blocks, journal, heldByTasks_append, heldByTasks_cons, Task.holds_of_site? rfl,
      List.countP_cons, List.countP_cons]
    have earlier : heldByTasks id
        ((site.built.object? f.slot).map (.dropObject site.block site.handle)).toList
        = if (site.slots[f.slot]?.join).any (·.id = id) then 1 else 0 := by
      unfold Construction.built Block.object?
      cases site.slots[f.slot]?.join with
      | none => rfl
      | some was => simp [heldByTasks, Task.holds]
    simp only [Event.makes, Event.drops, decide_eq_true_eq, Bool.false_eq_true, if_false] at *
    omega
  | abandoned task site rest under was loads blocks journal =>
    rw [was, heldByTasks_cons, Task.holds_of_site? under] at before
    rw [loads, blocks, journal, heldByTasks_append]
    rw [heldByTasks_dropTasks]
    exact before
  | enrolled site entry rest was loads blocks journal =>
    rw [was, heldByTasks_cons, Task.holds_of_site? rfl] at before
    rw [loads, blocks, journal, Table.total_put_absent (absent site rest was), List.countP_cons,
      List.countP_cons]
    simp only [Event.makes, Event.drops, Construction.built, Bool.false_eq_true, if_false] at before ⊢
    omega
  | fell b block present loads blocks journal =>
    have less := Table.total_erase tidy.blocks present (heldIn id ·.slots)
    rw [loads, blocks, journal, heldByTasks_append, heldByTasks_dropTasks]
    omega
  | dropped b h object registered rest was loads blocks journal =>
    rw [was, heldByTasks_cons] at before
    rw [loads, blocks, journal, List.countP_cons, List.countP_cons]
    simp only [Event.makes, Event.drops, Task.holds, decide_eq_true_eq, Bool.false_eq_true,
      if_false] at before ⊢
    omega

end Scene.Custody

-- A block under construction is not in the world.
theorem Scene.Custody.absent_of_building {s : Scene} (custody : s.Custody)
    (nodup : s.blocksNamed.Nodup) {b : BlockId} (under : b ∈ s.building) :
    s.world.blocks.find? b = none := by
  cases found : s.world.blocks.find? b with
  | none => rfl
  | some block =>
    have born := custody.born b block found
    exact absurd rfl ((List.nodup_append.mp nodup).2.2 b under b born)

theorem Scene.building_of_loads {s : Scene} {task : Task} {site : Construction}
    (listed : task ∈ s.loads) (under : task.site? = some site) : site.block ∈ s.building :=
  Scene.mem_building.mpr ⟨task, (Scene.mem_loads.mp listed).1, site, under, rfl⟩

theorem Scene.Arises.custody {hashing : RegistryId → Handle → UInt64} {s : Scene}
    (arisen : Arises hashing s) : s.Custody := by
  induction arisen with
  | refl => exact Scene.custody_start hashing
  | @tail s s' before move ih =>
    have haul := move.haul
    refine ⟨?_, fun _ _ found _ _ there => ih.placed_after haul found there,
      fun _ listed _ under _ _ there => ih.working_after haul listed under there,
      fun _ _ _ listed => ih.dropping_after haul listed,
      fun _ listed _ under _ due => ih.room_after haul listed under due, ?_⟩
    · intro b block found
      rcases haul.present found with old | ⟨site, entry, rest, loads, rfl, rfl, _, journal⟩
      · exact haul.births (ih.born b block old)
      · rw [World.births, journal]
        exact .head _
    · intro id
      refine ih.balanced_after (Arises.tidy before) (fun site rest loads => ?_) haul id
      apply ih.absent_of_building (Arises.blocksNamed_nodup before)
      exact Scene.building_of_loads (by rw [loads]; exact .head _) rfl

/-! The identity of an object. -/

-- What an event tells to be made: the object, and the slot of the block it was made for.
def Event.made? : Event → Option (BlockId × Slot × Object)
  | objectMade b slot object => some (b, slot, object)
  | _ => none

namespace World

def makings (w : World) : List (BlockId × Slot × Object) := w.journal.filterMap Event.made?

theorem mem_makings {w : World} {b : BlockId} {slot : Slot} {object : Object} :
    (b, slot, object) ∈ w.makings ↔ .objectMade b slot object ∈ w.journal := by
  simp only [makings, List.mem_filterMap]
  constructor
  · rintro ⟨e, listed, made⟩
    cases e with
    | objectMade b slot object =>
      cases made
      exact listed
    | _ => cases made
  · intro listed
    exact ⟨_, listed, rfl⟩

theorem countP_makes (w : World) (id : ObjectId) :
    w.journal.countP (·.makes id) = (w.makings.map (·.2.2.id)).count id := by
  unfold makings
  induction w.journal with
  | nil => rfl
  | cons e rest ih =>
    cases e with
    | objectMade b slot object =>
      have first : (Event.objectMade b slot object :: rest).filterMap Event.made?
          = (b, slot, object) :: rest.filterMap Event.made? := rfl
      rw [List.countP_cons, ih, first, List.map_cons, List.count_cons]
      simp only [Event.makes, decide_eq_true_eq, beq_iff_eq]
    | _ =>
      rw [List.countP_cons_of_neg Bool.false_ne_true, ih]
      rfl

end World

theorem Haul.makings {s s' : Scene} (haul : Haul s s') : s'.world.makings = s.world.makings ∨
    ∃ site f object rest, s.loads = .make site f :: rest ∧ object.id = ⟨s.world.next⟩ ∧
      s'.world.makings = (site.block, f.slot, object) :: s.world.makings := by
  unfold World.makings
  cases haul with
  | idle told loads blocks journal silent =>
    apply Or.inl
    have none_made : told.filterMap Event.made? = [] := by
      refine List.filterMap_eq_nil_iff.mpr fun e listed => ?_
      have quiet := (silent e listed).1
      cases e <;> first | rfl | cases quiet
    rw [journal, List.filterMap_append, none_made, List.nil_append]
  | made site f object rest fresh before loads blocks journal =>
    exact .inr ⟨site, f, object, rest, before, fresh, by rw [journal]; rfl⟩
  | begun site fresh vacant room loads blocks journal
  | tried site f later rest pending before loads blocks journal
  | abandoned task site rest under before loads blocks journal
  | enrolled site entry rest before loads blocks journal
  | fell b block present loads blocks journal
  | dropped b h object registered rest before loads blocks journal =>
    apply Or.inl
    rw [journal]
    try rfl

-- No two objects have one identity.
theorem Scene.Arises.makings_nodup {hashing : RegistryId → Handle → UInt64} {s : Scene}
    (arisen : Arises hashing s) : (s.world.makings.map (·.2.2.id)).Nodup := by
  induction arisen with
  | refl => exact List.nodup_nil
  | @tail s s' before move ih =>
    rcases move.haul.makings with same | ⟨site, f, object, rest, _, fresh, more⟩
    · rw [same]
      exact ih
    · rw [more, List.map_cons, List.nodup_cons]
      refine ⟨?_, ih⟩
      intro listed
      obtain ⟨⟨b', slot', old⟩, told, same⟩ := List.mem_map.mp listed
      have low := (Arises.numbered before).journal _ (World.mem_makings.mp told) old.id.number
        (by simp [Event.numbers])
      simp only at same
      rw [same, fresh] at low
      exact Nat.lt_irrefl _ low

theorem Scene.Arises.same_object {hashing : RegistryId → Handle → UInt64} {s : Scene}
    (arisen : Arises hashing s) {b b' : BlockId} {slot slot' : Slot} {object object' : Object}
    (one : .objectMade b slot object ∈ s.world.journal)
    (two : .objectMade b' slot' object' ∈ s.world.journal) (same : object'.id = object.id) :
    b' = b ∧ slot' = slot ∧ object' = object := by
  have equal := List.inj_on_of_nodup_map arisen.makings_nodup (World.mem_makings.mpr two)
    (World.mem_makings.mpr one) same
  simpa using equal

theorem heldIn_pos_iff {id : ObjectId} {block : Block} : 0 < heldIn id block.slots ↔
    ∃ slot object, block.object? slot = some object ∧ object.id = id := by
  unfold heldIn Block.object?
  rw [List.countP_pos_iff]
  constructor
  · rintro ⟨object, listed, holds⟩
    obtain ⟨slot, there⟩ := List.mem_iff_getElem?.mp listed
    obtain ⟨object, rfl, same⟩ := (Option.any_eq_true _ _).mp holds
    exact ⟨slot, object, by rw [there]; rfl, of_decide_eq_true same⟩
  · rintro ⟨slot, object, there, same⟩
    refine ⟨some object, List.mem_of_getElem? (Option.join_eq_some_iff.mp there), ?_⟩
    simpa using same

-- An object that was made is in one place.
theorem Scene.Arises.copies_eq_one {hashing : RegistryId → Handle → UInt64} {s : Scene}
    (arisen : Arises hashing s) {b : BlockId} {slot : Slot} {object : Object}
    (made : .objectMade b slot object ∈ s.world.journal) : s.copies object.id = 1 := by
  rw [arisen.custody.balanced object.id, World.countP_makes]
  apply List.count_eq_one_of_mem arisen.makings_nodup
  exact List.mem_map_of_mem (World.mem_makings.mpr made)

-- An object that lies in a block was not dropped.
theorem Scene.Arises.undropped {hashing : RegistryId → Handle → UInt64} {s : Scene}
    (arisen : Arises hashing s) {b : BlockId} {block : Block} {slot : Slot} {object : Object}
    (found : s.world.blocks.find? b = some block) (there : block.object? slot = some object) :
    s.world.journal.countP (·.drops object.id) = 0 := by
  have one := arisen.copies_eq_one (arisen.custody.placed b block found slot object there)
  have held := heldIn_pos_iff.mpr ⟨slot, object, there, rfl⟩
  have left := Table.total_erase arisen.tidy.blocks found (heldIn object.id ·.slots)
  rw [copies] at one
  omega

-- A task that has an object in its hands works on the block that the object was made for.
theorem Scene.Arises.heldByTasks_eq_zero {hashing : RegistryId → Handle → UInt64} {s : Scene}
    (arisen : Arises hashing s) {b : BlockId} {slot : Slot} {object : Object}
    (made : .objectMade b slot object ∈ s.world.journal)
    (idle : ∀ task ∈ s.loads, task.block? ≠ some b) : heldByTasks object.id s.loads = 0 := by
  have custody := arisen.custody
  have under : ∀ task ∈ s.loads, ∀ site, task.site? = some site →
      heldIn object.id site.slots = 0 := by
    intro task listed site under
    refine Nat.eq_zero_of_not_pos fun held => ?_
    have holds : 0 < heldIn object.id site.built.slots := held
    obtain ⟨slot', other, there, same⟩ := heldIn_pos_iff.mp holds
    obtain ⟨here, _⟩ := arisen.same_object made (custody.working task listed site under slot' other there)
      same
    exact idle task listed (by rw [Task.block?_of_site? under, here])
  refine List.sum_eq_zero_iff_forall_eq_nat.mpr fun count listed => ?_
  obtain ⟨task, there, rfl⟩ := List.mem_map.mp listed
  cases task with
  | construct site | make site f => exact under _ there site rfl
  | dropObject b' h other =>
    refine if_neg fun same => ?_
    obtain ⟨slot', madeToo⟩ := custody.dropping b' h other there
    obtain ⟨rfl, _⟩ := arisen.same_object made madeToo same
    exact idle _ there rfl
  | _ => rfl

-- When nothing of a block is left to be dropped or finished, an object that was made for it lies in
-- its slot of the block and was never dropped, or it was dropped once and lies in no block.
theorem Scene.Arises.settled {hashing : RegistryId → Handle → UInt64} {s : Scene}
    (arisen : Arises hashing s) {b : BlockId} {slot : Slot} {object : Object}
    (made : .objectMade b slot object ∈ s.world.journal)
    (idle : ∀ task ∈ s.loads, task.block? ≠ some b) :
    (∃ block, s.world.blocks.find? b = some block ∧ block.object? slot = some object ∧
        s.world.journal.countP (·.drops object.id) = 0 ∧
        ∀ b' block' slot' object', s.world.blocks.find? b' = some block' →
          block'.object? slot' = some object' → object'.id = object.id →
          b' = b ∧ slot' = slot ∧ object' = object) ∨
      (s.world.journal.countP (·.drops object.id) = 1 ∧
        ∀ b' block' slot' object', s.world.blocks.find? b' = some block' →
          block'.object? slot' = some object' → object'.id ≠ object.id) := by
  have custody := arisen.custody
  have one := arisen.copies_eq_one made
  rw [copies, arisen.heldByTasks_eq_zero made idle] at one
  have same : ∀ b' block' slot' object', s.world.blocks.find? b' = some block' →
      block'.object? slot' = some object' → object'.id = object.id →
      b' = b ∧ slot' = slot ∧ object' = object := fun b' block' slot' object' found there same =>
    arisen.same_object made (custody.placed b' block' found slot' object' there) same
  by_cases installed : ∃ b' block' slot' object', s.world.blocks.find? b' = some block' ∧
      block'.object? slot' = some object' ∧ object'.id = object.id
  · obtain ⟨b', block', slot', object', found, there, matching⟩ := installed
    obtain ⟨rfl, rfl, rfl⟩ := same b' block' slot' object' found there matching
    exact .inl ⟨block', found, there, arisen.undropped found there, same⟩
  · refine .inr ⟨?_, ?_⟩
    · have nowhere : s.world.blocks.total (heldIn object.id ·.slots) = 0 := by
        rw [Table.total_eq_sum]
        refine List.sum_eq_zero_iff_forall_eq_nat.mpr fun count listed => ?_
        obtain ⟨⟨b', block'⟩, row, rfl⟩ := List.mem_map.mp listed
        refine Nat.eq_zero_of_not_pos fun held => installed ?_
        obtain ⟨slot', object', there, matching⟩ := heldIn_pos_iff.mp held
        exact ⟨b', block', slot', object', Table.find?_of_mem arisen.tidy.blocks row, there, matching⟩
      omega
    · intro b' block' slot' object' found there matching
      exact installed ⟨b', block', slot', object', found, there, matching⟩

end AttachedState
