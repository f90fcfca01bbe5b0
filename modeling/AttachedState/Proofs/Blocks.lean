import AttachedState.Proofs.Isolation
import AttachedState.Proofs.Reentrancy

/-!
Blocks.  A block is as long as its highest slot requires.  Each slot that was supplied for it holds what
the last factory for the slot made, and no other slot holds anything; an object that a later one took the
place of was dropped once, before the next factory was started.
-/

namespace AttachedState

-- The size of a block is not larger than its highest slot requires.
theorem exists_sizeFor {slots : List Slot} (some_slot : slots ≠ []) :
    ∃ slot ∈ slots, Block.sizeFor slots = slot + 1 := by
  induction slots with
  | nil => exact absurd rfl some_slot
  | cons first rest ih =>
    have size : Block.sizeFor (first :: rest) = max (first + 1) (Block.sizeFor rest) := rfl
    rcases Nat.le_total (Block.sizeFor rest) (first + 1) with small | large
    · exact ⟨first, List.mem_cons_self, size.trans (Nat.max_eq_left small)⟩
    · cases rest with
      | nil => exact absurd large (Nat.not_succ_le_zero first)
      | cons second rest =>
        obtain ⟨slot, listed, same⟩ := ih (List.cons_ne_nil _ _)
        exact ⟨slot, List.mem_cons_of_mem _ listed, (size.trans (Nat.max_eq_right large)).trans same⟩

namespace Block

-- What a block holds for which these factories made these objects, in this order.
structure Holds (block : Block) (h : Handle) (made : List (Factory × Object)) : Prop where
  handle : block.handle = h
  empty : made = [] → block.slotCount = 0
  highest : made ≠ [] → ∃ pair ∈ made, block.slotCount = pair.1.slot + 1
  within : ∀ pair ∈ made, pair.1.slot < block.slotCount
  addressable : (∀ pair ∈ made, pair.1.slot < 2 ^ 64 - 1) → block.slotCount < 2 ^ 64
  last : ∀ slot, block.object? slot = lastFor made slot
  ascending : block.installed.Pairwise (· < ·)
  installed : ∀ slot, slot ∈ block.installed ↔ slot ∈ made.map (·.1.slot)
  absent : ∀ slot, slot ∉ block.installed → block.object? slot = none
  beyond : ∀ slot, block.slotCount ≤ slot → block.object? slot = none
  read : ∀ slot kind value, block.read? slot kind = some value ↔
    ∃ object, block.object? slot = some object ∧ object.value.kind = kind ∧ object.value = value

theorem read?_eq_some {block : Block} {slot : Slot} {kind : Kind} {value : Value} :
    block.read? slot kind = some value ↔
      ∃ object, block.object? slot = some object ∧ object.value.kind = kind ∧ object.value = value := by
  unfold read?
  simp only [Option.bind_eq_some_iff, Option.ite_none_right_eq_some, Option.some.injEq]

theorem mem_installed {block : Block} {slot : Slot} :
    slot ∈ block.installed ↔ (block.object? slot).isSome = true := by
  unfold installed
  rw [List.mem_filter, List.mem_range, and_iff_right_iff_imp]
  intro there
  refine Nat.lt_of_not_le fun beyond => ?_
  rw [object?, List.getElem?_eq_none beyond] at there
  cases there

theorem holds_place (h : Handle) (made : List (Factory × Object)) :
    (Block.mk h (place (List.replicate (sizeFor (made.map (·.1.slot))) none) made)).Holds h made := by
  have count : (Block.mk h (place (List.replicate (sizeFor (made.map (·.1.slot))) none) made)).slotCount
      = sizeFor (made.map (·.1.slot)) := by
    rw [slotCount, length_place, List.length_replicate]
  generalize placed : place (List.replicate (sizeFor (made.map (·.1.slot))) none) made = slots at count ⊢
  have within : ∀ pair ∈ made, pair.1.slot < sizeFor (made.map (·.1.slot)) := fun pair listed =>
    World.lt_sizeFor (List.mem_map_of_mem (f := fun pair : Factory × Object => pair.1.slot) listed)
  have highest : made ≠ [] → ∃ pair ∈ made, sizeFor (made.map (·.1.slot)) = pair.1.slot + 1 := by
    intro some_made
    obtain ⟨slot, listed, size⟩ := exists_sizeFor (List.map_eq_nil_iff.not.mpr some_made)
    obtain ⟨pair, there, rfl⟩ := List.mem_map.mp listed
    exact ⟨pair, there, size⟩
  have last : ∀ slot, (Block.mk h slots).object? slot = lastFor made slot := by
    intro slot
    have vacant : (List.replicate (sizeFor (made.map (·.1.slot))) (none : Option Object))[slot]?.join = none := by
      rw [List.getElem?_replicate]
      split <;> rfl
    rw [object?, ← placed, getElem?_place (by simpa using within), vacant, Option.or_none]
  have absent : ∀ slot, slot ∉ (Block.mk h slots).installed → (Block.mk h slots).object? slot = none := by
    intro slot out
    rwa [mem_installed, Bool.not_eq_true, Option.isSome_eq_false_iff, Option.isNone_iff_eq_none] at out
  refine ⟨rfl, ?_, ?_, ?_, ?_, last, ?_, ?_, absent, ?_, fun slot kind value => read?_eq_some⟩
  · rintro rfl
    exact count
  · rwa [count]
  · rwa [count]
  · intro bounded
    rw [count]
    by_cases none_made : made = []
    · subst none_made
      exact Nat.two_pow_pos 64
    · obtain ⟨pair, listed, size⟩ := highest none_made
      rw [size]
      exact Nat.add_lt_of_lt_sub (bounded pair listed)
  · exact List.pairwise_lt_range.filter _
  · intro slot
    rw [mem_installed, last, lastFor_isSome]
  · intro slot beyond
    rw [object?, List.getElem?_eq_none beyond]
    rfl

end Block

theorem lastFor_append (front back : List (Factory × Object)) (slot : Slot) :
    lastFor (front ++ back) slot = (lastFor back slot).or (lastFor front slot) := by
  unfold lastFor
  rw [List.filter_append, List.getLast?_append, Option.map_or]

namespace Machine

variable {hashing : RegistryId → Handle → UInt64} {start : Machine} {rest : List Task}
  {site last : Construction} {f : Factory} {object earlier : Object} {made front back : List (Factory × Object)}
  {slot : Slot} {k j n : Nat}

theorem Reached.still_later (reached : start.Reached hashing) {e : Event} (later : k ≤ n)
    (told : e ∈ (start.steps k).world.journal) : e ∈ (start.steps n).world.journal := by
  obtain ⟨d, rfl⟩ := Nat.exists_eq_add_of_le later
  have reachedThen := reached.on (later_steps start k)
  rw [steps_add]
  exact Scene.Arises.still reachedThen.arises (Later.moves reachedThen (later_steps _ d)) told

-- An object that lay in the slot of a factory is dropped in its turn.
theorem Makes.drops (makes : start.Makes rest site f object k j n)
    (lies : site.built.object? f.slot = some earlier) :
    j + 2 ≤ n ∧ ∃ registered, .objectDropped site.block site.handle earlier registered ∈
      (start.steps (j + 2)).world.journal := by
  obtain ⟨later, dropping, _⟩ := makes.overwrites earlier lies
  refine ⟨later, ?_⟩
  rw [steps_succ, step_of_cons dropping]
  exact ⟨_, List.mem_cons_self⟩

namespace Forms

theorem le (forms : start.Forms rest site k made n last) : k ≤ n := by
  induction forms with
  | nil => exact Nat.le_refl _
  | cons first later ih => exact Nat.le_trans (Nat.le_of_lt (Nat.lt_trans first.after first.later)) ih

-- So is an object that lies in a slot when the first of the factories is started, if one of them is for the
-- slot.
theorem drops (forms : start.Forms rest site k made n last) (reached : start.Reached hashing)
    (lies : site.built.object? slot = some object) (supplied : slot ∈ made.map (·.1.slot)) :
    ∃ registered, .objectDropped site.block site.handle object registered ∈ (start.steps n).world.journal := by
  induction forms with
  | nil => cases supplied
  | @cons site last f newer k j n i made first later ih =>
    by_cases here : f.slot = slot
    · subst here
      obtain ⟨soon, registered, told⟩ := first.drops lies
      exact ⟨registered, reached.still_later (Nat.le_trans soon later.le) told⟩
    · refine ih ?_ ((List.mem_cons.mp supplied).resolve_left (Ne.symm here))
      rw [← lies]
      show (site.slots.set f.slot (some newer))[slot]?.join = site.slots[slot]?.join
      rw [List.getElem?_set_ne here]

-- What becomes of the object of a factory.
theorem told (forms : start.Forms rest site k made n last) (reached : start.Reached hashing)
    (room : ∀ pair ∈ made, pair.1.slot < site.slots.length) (split : made = front ++ (f, object) :: back) :
    .objectMade site.block f.slot object ∈ (start.steps n).world.journal ∧
      (f.slot ∈ back.map (·.1.slot) → ∃ registered,
        .objectDropped site.block site.handle object registered ∈ (start.steps n).world.journal) := by
  induction forms generalizing front with
  | nil => cases front <;> cases split
  | @cons site last g newer k j n i made first later ih =>
    cases front with
    | nil =>
      cases split
      refine ⟨reached.still_later (Nat.le_trans first.later later.le) first.told, later.drops reached ?_⟩
      show (site.slots.set f.slot (some object))[f.slot]?.join = some object
      rw [List.getElem?_set_self (room _ List.mem_cons_self)]
      rfl
    | cons pair front =>
      cases split
      refine ih (fun pair listed => ?_) rfl
      rw [List.length_set]
      exact room pair (List.mem_cons_of_mem _ listed)

-- In the end it was dropped once if another object took its place, and never otherwise.
theorem countP_drops (forms : start.Forms rest site k made n last) (reached : start.Reached hashing)
    (room : ∀ pair ∈ made, pair.1.slot < site.slots.length)
    (finished : (start.steps n).tasks = .construct last :: rest) (split : made = front ++ (f, object) :: back) :
    (start.steps n).world.journal.countP (·.drops object.id)
      = if f.slot ∈ back.map (·.1.slot) then 1 else 0 := by
  obtain ⟨told, dropped⟩ := forms.told reached room split
  have one := (reached.on (later_steps start n)).arises.copies_eq_one told
  unfold Scene.copies at one
  have journal : (start.steps n).scene.world = (start.steps n).world := rfl
  rw [journal] at one
  split
  · rename_i overwritten
    obtain ⟨registered, event⟩ := dropped overwritten
    have some_drop : 0 < (start.steps n).world.journal.countP (·.drops object.id) :=
      List.countP_pos_iff.mpr ⟨_, event, decide_eq_true rfl⟩
    omega
  · rename_i kept
    have lies : last.built.object? f.slot = some object := by
      have none_later : lastFor back f.slot = none := by
        rwa [← Option.isNone_iff_eq_none, ← Option.isSome_eq_false_iff, ← Bool.not_eq_true, lastFor_isSome]
      rw [forms.ends.2]
      show (place site.slots made)[f.slot]?.join = some object
      rw [getElem?_place room, split, lastFor_append, lastFor_cons, none_later, if_pos rfl]
      rfl
    have held := heldIn_pos_iff.mpr ⟨f.slot, object, lies, rfl⟩
    have loads : (start.steps n).scene.loads = .construct last :: (bearing rest).filter Task.carries := by
      rw [scene, finished]
      rfl
    rw [loads, heldByTasks_cons] at one
    have holds : (Task.construct last).holds object.id = heldIn object.id last.built.slots := rfl
    omega

end Forms

-- A block that was formed: from the construction to the end of its factories.
structure Formed (start : Machine) (rest : List Task) (site : Construction) (made : List (Factory × Object))
    (n : Nat) (block : Block) : Prop where
  -- Each factory has one turn, in the order of the list, and makes one object.
  factories : made.map (·.1) = site.pending
  forms : start.Forms rest site 0 made n { site with slots := block.slots, pending := [] }
  finished : (start.steps n).tasks
    = .construct { site with slots := block.slots, pending := [] } :: rest
  holds : block.Holds site.handle made
  drops : ∀ hashing, start.Reached hashing → ∀ front f object back, made = front ++ (f, object) :: back →
    (start.steps n).world.journal.countP (·.drops object.id)
      = if f.slot ∈ back.map (·.1.slot) then 1 else 0

theorem blocks_formed (tasks : start.tasks = .construct site :: rest)
    (vacant : site.slots = List.replicate (Block.sizeFor (site.pending.map (·.slot))) none) :
    (∃ made k last f later j cause, start.Forms rest site 0 made k last ∧
      site.pending = made.map (·.1) ++ f :: later ∧ k < j ∧
      (start.steps j).tasks = .make { last with pending := later } f :: rest ∧
      ((start.steps j).world.makeValue start.thread site.handle f).1 = .error cause) ∨
    ∃ made n block, start.Formed rest site made n block := by
  have waits : (start.steps 0).tasks = .construct site :: rest := tasks
  obtain ⟨made, n, last, forms, ends⟩ := forms_or_panics site site.pending waits
  obtain ⟨pending, same⟩ := forms.ends
  rcases ends with ⟨none_left, finished⟩ | ⟨f, later, j, cause, some_left, after, making, panics⟩
  · rw [none_left, List.append_nil] at pending
    rw [none_left] at same
    rw [same] at forms finished
    have slots : site.pending.map (·.slot) = made.map (·.1.slot) := by
      rw [pending, List.map_map]
      rfl
    have room : ∀ pair ∈ made, pair.1.slot < site.slots.length := by
      intro pair listed
      rw [vacant, List.length_replicate, slots]
      exact World.lt_sizeFor (List.mem_map_of_mem (f := fun pair : Factory × Object => pair.1.slot) listed)
    refine .inr ⟨made, n, ⟨site.handle, place site.slots made⟩, pending.symm, forms, finished, ?_,
      fun hashing reached front f object back split => forms.countP_drops reached room finished split⟩
    have holds := Block.holds_place site.handle made
    rwa [← slots, ← vacant] at holds
  · exact .inl ⟨made, n, last, f, later, j, cause, forms, some_left ▸ pending, after, making, panics⟩

/-! A session in which a context gets two extensions for one key, and in between one for another key. -/

def twice : List (Supply Action) := [supplyByte "second" 2, supplyByte "first" 1, supplyByte "second" 5]

def doubled : Machine :=
  bothKeys.told (.act .main (.create ⟨globalName, "state", 64, false⟩ twice)) 1

def byteFactory (slot : Slot) (value : Int) : Factory := ⟨slot, .byte, .given (.number value), [], none, []⟩

def doubledSite : Construction where
  nested := none
  creation := ⟨globalName, "state", 64, false⟩
  registry := globalRegistry
  block := ⟨1⟩
  handle := soleHandle
  slots := [none, none]
  pending := [byteFactory 1 2, byteFactory 0 1, byteFactory 1 5]

theorem blocks_formed_doubled : doubled.tasks = [.construct doubledSite] ∧
    ∃ made n block, doubled.Formed [] doubledSite made n block ∧
      ∀ slot, slot ∈ block.installed ↔ slot = 0 ∨ slot = 1 := by
  have tasks : doubled.tasks = [.construct doubledSite] := rfl
  refine ⟨tasks, ?_⟩
  rcases blocks_formed tasks rfl with panics | formed
  · obtain ⟨made, k, last, f, later, j, cause, _, pending, _, _, panics⟩ := panics
    have listed : f ∈ doubledSite.pending := by
      rw [pending]
      exact List.mem_append_right _ List.mem_cons_self
    simp only [doubledSite, List.mem_cons, List.not_mem_nil, or_false] at listed
    rcases listed with rfl | rfl | rfl <;> cases panics
  · obtain ⟨made, n, block, formed⟩ := formed
    have slots : made.map (·.1.slot) = [1, 0, 1] := by
      have same := congrArg (List.map Factory.slot) formed.factories
      rwa [List.map_map] at same
    refine ⟨made, n, block, formed, fun slot => ?_⟩
    rw [formed.holds.installed, slots]
    simp only [List.mem_cons, List.not_mem_nil, or_false]
    rw [or_left_comm, or_self]

end Machine

end AttachedState
