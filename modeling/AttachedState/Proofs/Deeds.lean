import AttachedState.Proofs.Fillings
import AttachedState.Proofs.Teardown

/-!
Deeds.  What was done to a block, and what is still to be dropped of it, make one list that grows as
the factories of the block run, in the order of the factories, and not any more once its construction
was given up.
-/

namespace AttachedState

-- Something that is done to a block: a factory for it is started, its object is put into its slot, an
-- object is dropped, the block is registered.
inductive Deed where
  | started (slot : Slot)
  | made (slot : Slot) (object : Object)
  | dropped (object : Object)
  | created (entry : Ticket)

def Event.deed? (b : BlockId) : Event → Option Deed
  | factoryStarted block slot _ => if block = b then some (.started slot) else none
  | objectMade block slot object => if block = b then some (.made slot object) else none
  | objectDropped block _ object _ => if block = b then some (.dropped object) else none
  | stateCreated _ entry block _ _ => if block = b then some (.created entry) else none
  | _ => none

-- A task that is to make an object has started the factory.
def Task.starting : Task → List Deed
  | make _ f => [.started f.slot]
  | _ => []

-- What the factories of a block do to it, one after the other, and what is in its slots then.  An
-- object that lies in a factory's slot before is dropped.
inductive Fills (start : List (Option Object)) :
    List Factory → List Deed → List (Option Object) → Prop
  | nil : Fills start [] [] start
  | snoc {done : List Factory} {deeds : List Deed} {slots : List (Option Object)}
      (before : Fills start done deeds slots) (f : Factory) (object : Object) :
      Fills start (done ++ [f])
        (deeds ++ [.started f.slot, .made f.slot object]
          ++ (slots[f.slot]?.join).toList.map .dropped)
        (slots.set f.slot (some object))

variable {b : BlockId}

namespace World

variable {w after : World}

-- What was done to a block, in the order in which it was done.
def deeds (w : World) (b : BlockId) : List Deed := w.journal.reverse.filterMap (Event.deed? b)

theorem deeds_cons {e : Event} (journal : after.journal = e :: w.journal) (b : BlockId) :
    after.deeds b = w.deeds b ++ (e.deed? b).toList := by
  unfold deeds
  rw [journal, List.reverse_cons, List.filterMap_append]
  cases told : e.deed? b <;> simp [told]

theorem deeds_of_same (journal : after.journal = w.journal) (b : BlockId) :
    after.deeds b = w.deeds b := by
  unfold deeds
  rw [journal]

theorem deeds_of_later {told : List Event} (journal : after.journal = told ++ w.journal) (b : BlockId) :
    ∃ more, after.deeds b = w.deeds b ++ more := by
  unfold deeds
  rw [journal, List.reverse_append, List.filterMap_append]
  exact ⟨_, rfl⟩

theorem deeds_of_silent {told : List Event} (journal : after.journal = told ++ w.journal)
    (silent : ∀ e ∈ told, e.ofObject = false ∧ e.born? = none) (b : BlockId) :
    after.deeds b = w.deeds b := by
  unfold deeds
  rw [journal, List.reverse_append, List.filterMap_append]
  refine List.append_right_eq_self.mpr (List.filterMap_eq_nil_iff.mpr fun e listed => ?_)
  obtain ⟨noObject, unborn⟩ := silent e (List.mem_reverse.mp listed)
  cases e with
  | factoryStarted | objectMade | objectDropped => cases noObject
  | stateCreated => cases unborn
  | _ => rfl

end World

theorem Quiets.deeds {w after : World} (changes : Quiets w after) (b : BlockId) :
    after.deeds b = w.deeds b := by
  induction changes with
  | refl => rfl
  | tail _ change ih =>
    obtain ⟨told, journal, silent⟩ := change.same.journal
    refine (World.deeds_of_silent journal (fun e listed => ?_) b).trans ih
    exact ⟨(silent e listed).2, Event.born?_of_not_ofState (silent e listed).1⟩

namespace Scene

variable {s s' : Scene}

-- What was done to a block, and what is still to be dropped of it.
def told (s : Scene) (b : BlockId) : List Deed :=
  s.world.deeds b ++ (drops b s.loads).map .dropped

end Scene

theorem drops_dropTasks_of_ne {other : BlockId} (apart : other ≠ b) (h : Handle)
    (objects : List Object) : drops b (dropTasks other h objects) = [] := by
  refine drops_of_idle fun task listed working => ?_
  rw [block?_of_mem_dropTasks listed] at working
  exact apart (Option.some.inj working)

-- Nothing more is told of a block that nobody is at work on and that does not fall.
theorem Haul.told {s s' : Scene} (haul : Haul s s')
    (spared : ∀ task rest, s.loads = task :: rest → ∀ site, task.site? = some site → site.block ≠ b)
    (absent : s.world.blocks.find? b = none) : s'.told b = s.told b := by
  unfold Scene.told
  cases haul with
  | idle told loads blocks journal silent => rw [loads, World.deeds_of_silent journal silent]
  | begun site fresh vacant room loads blocks journal =>
    rw [loads, World.deeds_of_same journal]
    rfl
  | tried site f later rest pending before loads blocks journal =>
    have apart := spared _ _ before site rfl
    rw [before, loads, World.deeds_cons journal]
    simp [Event.deed?, apart, drops]
  | made site f object rest fresh before loads blocks journal =>
    have apart := spared _ _ before site rfl
    rw [before, loads, World.deeds_cons journal]
    cases earlier : site.built.object? f.slot <;> simp [Event.deed?, apart, drops]
  | abandoned task site rest under before loads blocks journal =>
    have apart := spared _ _ before site under
    have other : task.block? ≠ some b := by
      rw [Task.block?_of_site? under]
      exact fun same => apart (Option.some.inj same)
    rw [before, loads, World.deeds_of_same journal, drops_append, drops_dropTasks_of_ne apart,
      drops_cons_of_other other, List.nil_append]
  | enrolled site entry rest before loads blocks journal =>
    have apart := spared _ _ before site rfl
    rw [before, loads, World.deeds_cons journal]
    simp [Event.deed?, apart, drops]
  | fell other block present loads blocks journal =>
    have apart : other ≠ b := by
      rintro rfl
      rw [absent] at present
      cases present
    rw [loads, World.deeds_of_same journal, drops_append, drops_dropTasks_of_ne apart, List.nil_append]
  | dropped other h object registered rest before loads blocks journal =>
    rw [before, loads, World.deeds_cons journal]
    by_cases same : other = b <;> simp [Event.deed?, same, drops]

-- A task at work on a block was there before, or takes the place of the first task, or is new with
-- its block.
theorem Haul.under {s s' : Scene} (haul : Haul s s') {task : Task} (listed : task ∈ s'.loads)
    {site : Construction} (under : task.site? = some site) :
    task ∈ s.loads ∨ site.block = ⟨s.world.next⟩ ∨
      ∃ first rest now, s.loads = first :: rest ∧ first.site? = some now ∧ now.block = site.block := by
  have behind : ∀ {front rest : List Task}, (∀ task ∈ front, task.site? = none) →
      task ∈ front ++ rest → task ∈ rest := by
    intro front rest bare there
    rcases List.mem_append.mp there with drop | later
    · rw [bare task drop] at under
      cases under
    · exact later
  cases haul with
  | idle told loads => exact .inl (loads ▸ listed)
  | begun new fresh vacant room loads =>
    rw [loads] at listed
    rcases List.mem_cons.mp listed with rfl | earlier
    · cases under
      exact .inr (.inl fresh)
    · exact .inl earlier
  | tried old f later rest pending before loads =>
    rw [loads] at listed
    rcases List.mem_cons.mp listed with rfl | there
    · cases under
      exact .inr (.inr ⟨_, _, old, before, rfl, rfl⟩)
    · exact .inl (before ▸ .tail _ there)
  | made old f object rest fresh before loads =>
    rw [loads] at listed
    have bare : ∀ task ∈ ((old.built.object? f.slot).map (Task.dropObject old.block old.handle)).toList,
        task.site? = none := by
      intro task drop
      obtain ⟨was, _, rfl⟩ := List.mem_map.mp (Option.toList_map .. ▸ drop)
      rfl
    rcases List.mem_cons.mp (behind bare listed) with rfl | there
    · cases under
      exact .inr (.inr ⟨_, _, old, before, rfl, rfl⟩)
    · exact .inl (before ▸ .tail _ there)
  | abandoned first old rest now before loads =>
    rw [loads] at listed
    exact .inl (before ▸ .tail _ (behind (fun task => Task.site?_of_mem_dropTasks) listed))
  | enrolled old entry rest before loads | dropped other h object registered rest before loads =>
    rw [loads] at listed
    exact .inl (before ▸ .tail _ listed)
  | fell other block present loads =>
    rw [loads] at listed
    exact .inl (behind (fun task => Task.site?_of_mem_dropTasks) listed)

namespace Scene

variable {hashing : RegistryId → Handle → UInt64} {s s' : Scene}

-- Nothing is told of a block that has no number yet.
theorem Arises.told_of_new (arisen : Arises hashing s) (new : s.world.next ≤ b.number) :
    s.told b = [] := by
  induction arisen with
  | refl => rfl
  | tail before move ih =>
    have numbered := Arises.numbered before
    have newBefore := Nat.le_trans move.next_le new
    refine (move.haul.told (fun task rest loads site under same => ?_) ?_).trans (ih newBefore)
    · have listed : task ∈ Scene.loads _ := loads ▸ List.mem_cons_self
      have low := numbered.works task (mem_loads.mp listed).1 _ (Task.block?_of_site? under)
      rw [same] at low
      exact Nat.lt_irrefl _ (Nat.lt_of_lt_of_le low newBefore)
    · refine Option.eq_none_iff_forall_not_mem.mpr fun block found => ?_
      exact Nat.lt_irrefl _ (Nat.lt_of_lt_of_le (numbered.blocks b block found) newBefore)

-- A block whose construction was given up, with all that was done to it and is still to be dropped.
structure Sealed (s : Scene) (b : BlockId) (deeds : List Deed) : Prop where
  settled : s.Settled b fun _ => False
  told : s.told b = deeds

theorem Sealed.move {deeds : List Deed} (closed : s.Sealed b deeds) (move : Move s s') :
    s'.Sealed b deeds := by
  refine ⟨closed.settled.move move, (move.haul.told ?_ ?_).trans closed.told⟩
  · rintro task rest loads site under rfl
    exact closed.settled.finished (building_of_loads (by rw [loads]; exact .head _) under)
  · exact Option.eq_none_iff_forall_not_mem.mpr fun block found => closed.settled.blocks block found

theorem Sealed.moves {deeds : List Deed} (closed : s.Sealed b deeds) (moves : Moves s s') :
    s'.Sealed b deeds := by
  induction moves with
  | refl => exact closed
  | tail _ move ih => exact ih.move move

variable {start : List (Option Object)} {factories : List Factory}

-- What was done to a block under construction is what its factories did that have had their turn.
structure Told (s : Scene) (b : BlockId) (start : List (Option Object)) (factories : List Factory) :
    Prop where
  old : b.number < s.world.next
  under : ∀ task ∈ s.loads, ∀ site, task.site? = some site → site.block = b →
    ∃ done deeds, factories = done ++ task.factories ∧ Fills start done deeds site.slots ∧
      s.told b = deeds ++ task.starting

-- What was done to a block is what was done by the factories whose turn was before the task.
def Upto (s : Scene) (b : BlockId) (start : List (Option Object)) (factories : List Factory) (task : Task)
    (slots : List (Option Object)) : Prop :=
  ∃ done deeds, factories = done ++ task.factories ∧ Fills start done deeds slots ∧
    s.told b = deeds ++ task.starting

namespace Upto

variable {now : Construction} {f : Factory} {rest : List Task}

-- A factory has its turn.
theorem tried {left : List Factory} (upto : s.Upto b start factories (.construct now) now.slots)
    (here : now.block = b) (pending : now.pending = f :: left) (idle : drops b rest = [])
    (before : s.loads = .construct now :: rest)
    (loads : s'.loads = .make { now with pending := left } f :: rest)
    (journal : s'.world.journal = .factoryStarted now.block f.slot now.handle :: s.world.journal) :
    s'.Upto b start factories (.make { now with pending := left } f) now.slots := by
  obtain ⟨done, deeds, all, filled, told⟩ := upto
  have bare : drops b s.loads = [] := before ▸ idle
  have empty : drops b s'.loads = [] := loads ▸ idle
  unfold Scene.told at told
  rw [bare, List.map_nil, List.append_nil] at told
  refine ⟨done, deeds, ?_, filled, ?_⟩
  · rw [all]
    simp [Task.factories, pending]
  · unfold Scene.told
    rw [World.deeds_cons journal, told, empty]
    simp [Event.deed?, here, Task.starting]

-- It made its object.
theorem made {object : Object} (upto : s.Upto b start factories (.make now f) now.slots)
    (here : now.block = b) (idle : drops b rest = []) (before : s.loads = .make now f :: rest)
    (loads : s'.loads
      = ((now.built.object? f.slot).map (.dropObject now.block now.handle)).toList ++
        .construct { now with slots := now.slots.set f.slot (some object) } :: rest)
    (journal : s'.world.journal = .objectMade now.block f.slot object :: s.world.journal) :
    s'.Upto b start factories (.construct { now with slots := now.slots.set f.slot (some object) })
      (now.slots.set f.slot (some object)) := by
  obtain ⟨done, deeds, all, filled, told⟩ := upto
  have bare : drops b s.loads = [] := before ▸ idle
  have empty : drops b (.construct { now with slots := now.slots.set f.slot (some object) } :: rest)
      = [] := idle
  unfold Scene.told at told
  rw [bare, List.map_nil, List.append_nil] at told
  refine ⟨done ++ [f], _, ?_, filled.snoc f object, ?_⟩
  · rw [all]
    simp [Task.factories]
  · unfold Scene.told
    rw [World.deeds_cons journal, told, loads, drops_append, empty, here]
    show _ = _ ++ (now.built.object? f.slot).toList.map Deed.dropped ++ []
    cases earlier : now.built.object? f.slot <;> simp [Event.deed?, Task.starting, drops]

end Upto

-- The first task is at work on the block.
theorem Told.worked (told : s.Told b start factories) (orderly : s.Orderly) (haul : Haul s s')
    {first : Task} {rest : List Task} {now : Construction} (loads : s.loads = first :: rest)
    (is : first.site? = some now) (here : now.block = b) {task : Task} (listed : task ∈ s'.loads)
    {site : Construction} (under : task.site? = some site) (same : site.block = b) :
    s'.Upto b start factories task site.slots := by
  have upto : s.Upto b start factories first now.slots := told.under first (loads ▸ .head _) now is here
  -- Nothing behind the first task works on the block.
  have pairs := orderly.apart
  rw [loads, List.pairwise_cons] at pairs
  have idle : ∀ later ∈ rest, later.block? ≠ some b := fun later there =>
    here ▸ pairs.1 later there now is
  have notBehind : task ∉ rest := by
    intro there
    apply idle task there
    rw [Task.block?_of_site? under, same]
  have nothing : drops b rest = [] := drops_of_idle idle
  have here_first : task ∈ s.loads → task = first := by
    intro there
    rw [loads] at there
    exact (List.mem_cons.mp there).resolve_right notBehind
  have stays : task = first → s'.told b = s.told b → s'.Upto b start factories task site.slots := by
    rintro rfl kept
    rw [is] at under
    cases under
    obtain ⟨done, deeds, all, filled, toldNow⟩ := upto
    exact ⟨done, deeds, all, filled, kept.trans toldNow⟩
  have later : ∀ {front : List Task}, (∀ task ∈ front, task.site? = none) → task ∈ front ++ s.loads →
      task ∈ s.loads := by
    intro front none_under there
    refine (List.mem_append.mp there).resolve_left fun drop => ?_
    rw [none_under task drop] at under
    cases under
  cases haul with
  | idle told loadsThen blocks journal silent =>
    refine stays (here_first (loadsThen ▸ listed)) ?_
    unfold Scene.told
    rw [loadsThen, World.deeds_of_silent journal silent]
  | begun new fresh vacant room loadsThen blocks journal =>
    rw [loadsThen] at listed
    rcases List.mem_cons.mp listed with rfl | before
    · cases under
      have old := told.old
      rw [← same, fresh] at old
      exact absurd old (Nat.lt_irrefl _)
    · refine stays (here_first before) ?_
      unfold Scene.told
      rw [loadsThen, World.deeds_of_same journal]
      rfl
  | fell other block present loadsThen blocks journal =>
    have apart : other ≠ b := by
      rintro rfl
      refine orderly.idle other block present first (loads ▸ .head _) ?_
      rw [Task.block?_of_site? is, here]
    rw [loadsThen] at listed
    refine stays (here_first (later (fun task => Task.site?_of_mem_dropTasks) listed)) ?_
    unfold Scene.told
    rw [loadsThen, World.deeds_of_same journal, drops_append, drops_dropTasks_of_ne apart,
      List.nil_append]
  | tried old f left behind pending before loadsThen blocks journal =>
    rw [loads] at before
    cases before
    cases is
    rw [loadsThen] at listed
    cases (List.mem_cons.mp listed).resolve_right notBehind
    cases under
    exact upto.tried here pending nothing loads loadsThen journal
  | made old f object behind fresh before loadsThen blocks journal =>
    rw [loads] at before
    cases before
    cases is
    rw [loadsThen] at listed
    have first : task = .construct { now with slots := now.slots.set f.slot (some object) } := by
      rcases List.mem_append.mp listed with drop | there
      · obtain ⟨was, _, rfl⟩ := List.mem_map.mp (Option.toList_map .. ▸ drop)
        cases under
      · exact (List.mem_cons.mp there).resolve_right notBehind
    cases first
    cases under
    exact upto.made here nothing loads loadsThen journal
  | abandoned old site behind was before loadsThen blocks journal =>
    rw [loads] at before
    cases before
    rw [loadsThen] at listed
    rcases List.mem_append.mp listed with drop | there
    · rw [Task.site?_of_mem_dropTasks drop] at under
      cases under
    · exact absurd there notBehind
  | enrolled old entry behind before loadsThen blocks journal
  | dropped other h object registered behind before loadsThen blocks journal =>
    rw [loads] at before
    cases before
    exact absurd (loadsThen ▸ listed) notBehind

theorem Told.move (told : s.Told b start factories) (orderly : s.Orderly) (move : Move s s') :
    s'.Told b start factories := by
  refine ⟨Nat.lt_of_lt_of_le told.old move.next_le, fun task listed site under same => ?_⟩
  by_cases worked : ∃ first rest now, s.loads = first :: rest ∧ first.site? = some now ∧ now.block = b
  · obtain ⟨first, rest, now, loads, is, here⟩ := worked
    exact told.worked orderly move.haul loads is here listed under same
  · rcases move.haul.under listed under with before | fresh | ⟨first, rest, now, loads, is, here⟩
    · obtain ⟨done, deeds, all, filled, toldNow⟩ := told.under task before site under same
      refine ⟨done, deeds, all, filled, ?_⟩
      rw [move.haul.told ?_ ?_, toldNow]
      · exact fun first rest loads now is here => worked ⟨first, rest, now, loads, is, here⟩
      · cases found : s.world.blocks.find? b with
        | none => rfl
        | some block =>
          refine absurd ?_ (orderly.idle b block found task before)
          rw [Task.block?_of_site? under, same]
    · have old := told.old
      rw [← same, fresh] at old
      exact absurd old (Nat.lt_irrefl _)
    · exact absurd ⟨first, rest, now, loads, is, here.trans same⟩ worked

theorem Told.moves (told : s.Told b start factories)
    (arisen : Arises hashing s) (moves : Moves s s') : s'.Told b start factories := by
  induction moves with
  | refl => exact told
  | tail before move ih => exact ih.move (Arises.orderly (arisen.trans before)) move

end Scene

end AttachedState
