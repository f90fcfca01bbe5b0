import AttachedState.Proofs.Chronicle
import AttachedState.Proofs.Custody
import AttachedState.Proofs.References

/-!
Teardown.  A block that was finished is torn down only after it has left the world, all of it at
once, and it never comes back: its objects are dropped in the order of their slots, and no lookup
finds it any more.
-/

namespace AttachedState

-- The objects of a block that were dropped after its state was created, the latest first.
def torn (b : BlockId) : List Event → List Object
  | [] => []
  | .objectDropped block _ object _ :: earlier =>
    if block = b ∧ b ∈ earlier.filterMap Event.born? then object :: torn b earlier else torn b earlier
  | _ :: earlier => torn b earlier

theorem torn_cons_of_not_ofObject {b : BlockId} {e : Event} (silent : e.ofObject = false)
    (earlier : List Event) : torn b (e :: earlier) = torn b earlier := by
  cases e <;> first | rfl | cases silent

theorem torn_append_of_not_ofObject {b : BlockId} {told : List Event}
    (silent : ∀ e ∈ told, e.ofObject = false) (earlier : List Event) :
    torn b (told ++ earlier) = torn b earlier := by
  induction told with
  | nil => rfl
  | cons e rest ih =>
    rw [List.cons_append, torn_cons_of_not_ofObject (silent e (.head _))]
    exact ih fun e listed => silent e (.tail _ listed)

theorem torn_of_unborn {b : BlockId} {journal : List Event} (unborn : b ∉ journal.filterMap Event.born?) :
    torn b journal = [] := by
  induction journal with
  | nil => rfl
  | cons e earlier ih =>
    have before : b ∉ earlier.filterMap Event.born? := by
      intro born
      apply unborn
      obtain ⟨told, listed, is⟩ := List.mem_filterMap.mp born
      exact List.mem_filterMap.mpr ⟨told, .tail _ listed, is⟩
    cases e with
    | objectDropped block handle object registered =>
      rw [torn, if_neg fun both => before both.2]
      exact ih before
    | _ => exact ih before

-- After a block's state was created every drop of one of its objects counts.
theorem torn_dropped {b : BlockId} {h : Handle} {object : Object}
    {registered : Option (Except Panic Bool)} {earlier : List Event}
    (born : b ∈ earlier.filterMap Event.born?) :
    torn b (.objectDropped b h object registered :: earlier) = object :: torn b earlier := by
  rw [torn, if_pos ⟨rfl, born⟩]

theorem torn_sublist {b : BlockId} (later earlier : List Event) :
    (torn b earlier).Sublist (torn b (later ++ earlier)) := by
  induction later with
  | nil => exact List.Sublist.refl _
  | cons e rest ih =>
    rw [List.cons_append]
    cases e with
    | objectDropped block handle object registered =>
      simp only [torn]
      split
      · exact ih.trans (List.sublist_cons_self _ _)
      · exact ih
    | _ => exact ih

-- The objects of a block that some tasks are to drop.
def drops (b : BlockId) (tasks : List Task) : List Object :=
  tasks.filterMap fun
    | .dropObject block _ object => if block = b then some object else none
    | _ => none

theorem drops_append (b : BlockId) (first later : List Task) :
    drops b (first ++ later) = drops b first ++ drops b later := List.filterMap_append

theorem drops_of_idle {b : BlockId} {tasks : List Task} (idle : ∀ task ∈ tasks, task.block? ≠ some b) :
    drops b tasks = [] := by
  refine List.filterMap_eq_nil_iff.mpr fun task listed => ?_
  cases task with
  | dropObject block h object =>
    have other : block ≠ b := fun same => idle _ listed (by rw [same]; rfl)
    simp only [if_neg other]
  | _ => rfl

theorem drops_cons_of_other {b : BlockId} {task : Task} (other : task.block? ≠ some b)
    (rest : List Task) : drops b (task :: rest) = drops b rest := by
  have alone : drops b [task] = [] := drops_of_idle fun one listed => by
    rw [List.mem_singleton.mp listed]
    exact other
  rw [← List.singleton_append, drops_append, alone, List.nil_append]

theorem drops_dropTasks (b : BlockId) (h : Handle) (objects : List Object) :
    drops b (dropTasks b h objects) = objects := by
  induction objects with
  | nil => rfl
  | cons object rest ih =>
    have first : drops b (dropTasks b h (object :: rest)) = object :: drops b (dropTasks b h rest) := by
      simp [drops, dropTasks]
    rw [first, ih]

theorem block?_of_mem_dropTasks {b : BlockId} {h : Handle} {objects : List Object} {task : Task}
    (listed : task ∈ dropTasks b h objects) : task.block? = some b := by
  obtain ⟨object, _, rfl⟩ := List.mem_map.mp listed
  rfl

-- Of two objects of one block, the first lies in the lower slot.
def Below (journal : List Event) (b : BlockId) (object other : Object) : Prop :=
  ∃ slot slot', slot < slot' ∧ .objectMade b slot object ∈ journal ∧
    .objectMade b slot' other ∈ journal

-- The objects of a block stand in the order of their slots.
theorem below_objects {journal : List Event} {b : BlockId} {block : Block}
    (made : ∀ slot object, block.object? slot = some object → .objectMade b slot object ∈ journal) :
    block.objects.Pairwise (Below journal b) := by
  unfold Block.objects
  rw [List.pairwise_filterMap, List.pairwise_iff_getElem]
  intro i j inside insideToo less object here other there
  refine ⟨i, j, less, made i object ?_, made j other ?_⟩
  · unfold Block.object?
    rw [List.getElem?_eq_getElem inside, Option.join_some]
    exact here
  · unfold Block.object?
    rw [List.getElem?_eq_getElem insideToo, Option.join_some]
    exact there

-- A task works on what was worked on before, on a block that has a number since now, or on one
-- that has left the world.
theorem Haul.works {s s' : Scene} (haul : Haul s s') {task : Task} (listed : task ∈ s'.loads)
    {b : BlockId} (working : task.block? = some b) : (∃ old ∈ s.loads, old.block? = some b) ∨
      b = ⟨s.world.next⟩ ∨ s'.world.blocks.find? b = none := by
  have drops : ∀ {b' : BlockId} {h : Handle} {objects : List Object},
      task ∈ dropTasks b' h objects → b' = b := by
    intro b' h objects there
    rw [block?_of_mem_dropTasks there] at working
    exact Option.some.inj working
  cases haul with
  | idle told loads => exact .inl ⟨task, loads ▸ listed, working⟩
  | begun site fresh vacant room loads =>
    rw [loads] at listed
    rcases List.mem_cons.mp listed with rfl | old
    · cases working
      exact .inr (.inl fresh)
    · exact .inl ⟨task, old, working⟩
  | tried site f later rest pending before loads =>
    rw [loads] at listed
    apply Or.inl
    rcases List.mem_cons.mp listed with rfl | behind
    · exact ⟨.construct site, by rw [before]; exact .head _, working⟩
    · exact ⟨task, by rw [before]; exact .tail _ behind, working⟩
  | made site f object rest fresh before loads =>
    have head : Task.make site f ∈ s.loads := by rw [before]; exact .head _
    rw [loads] at listed
    apply Or.inl
    rcases List.mem_append.mp listed with drop | later
    · cases earlier : site.built.object? f.slot with
      | none => rw [earlier] at drop; cases drop
      | some object =>
        rw [earlier] at drop
        rw [List.mem_singleton.mp drop] at working
        exact ⟨_, head, working⟩
    · rcases List.mem_cons.mp later with rfl | behind
      · exact ⟨_, head, working⟩
      · exact ⟨task, by rw [before]; exact .tail _ behind, working⟩
  | abandoned gone site rest under before loads =>
    rw [loads] at listed
    apply Or.inl
    rcases List.mem_append.mp listed with drop | behind
    · exact ⟨gone, by rw [before]; exact .head _, drops drop ▸ Task.block?_of_site? under⟩
    · exact ⟨task, by rw [before]; exact .tail _ behind, working⟩
  | enrolled site entry rest before loads | dropped b' h object registered rest before loads =>
    rw [loads] at listed
    exact .inl ⟨task, by rw [before]; exact .tail _ listed, working⟩
  | fell b' block present loads blocks =>
    rw [loads] at listed
    rcases List.mem_append.mp listed with drop | old
    · refine .inr (.inr ?_)
      rw [blocks, drops drop, Table.find?_erase_self]
    · exact .inl ⟨task, old, working⟩

namespace Scene

-- A block under construction is not born yet.
theorem unborn_of_loads {s : Scene} (nodup : s.blocksNamed.Nodup) {site : Construction} {task : Task}
    (listed : task ∈ s.loads) (under : task.site? = some site) : site.block ∉ s.world.births :=
  fun born => (List.nodup_append.mp nodup).2.2 _ (building_of_loads listed under) _ born rfl

structure Orderly (s : Scene) : Prop where
  -- A block under construction is not worked on by any task behind that of its construction.
  apart : s.loads.Pairwise fun task later => ∀ site, task.site? = some site →
    later.block? ≠ some site.block
  idle : ∀ b block, s.world.blocks.find? b = some block → ∀ task ∈ s.loads, task.block? ≠ some b
  whole : ∀ b block, s.world.blocks.find? b = some block → torn b s.world.journal = []
  ordered : ∀ b ∈ s.world.births, ((torn b s.world.journal).reverse ++ drops b s.loads).Pairwise
    (Below s.world.journal b)

theorem orderly_start (hashing : RegistryId → Handle → UInt64) : (start hashing).Orderly := by
  refine ⟨.nil, ?_, ?_, List.forall_mem_nil _⟩
  · intro b block found
    cases found
  · intro b block found
    cases found

namespace Orderly

variable {s s' : Scene}

theorem apart_after (orderly : s.Orderly) (numbered : s.Numbered) (haul : Haul s s') :
    s'.loads.Pairwise fun task later => ∀ site, task.site? = some site →
      later.block? ≠ some site.block := by
  have pairs := orderly.apart
  -- A task without a construction may stand anywhere.
  have bare : ∀ {front rest : List Task}, (∀ task ∈ front, task.site? = none) →
      (rest.Pairwise fun task later => ∀ site, task.site? = some site →
        later.block? ≠ some site.block) →
      (front ++ rest).Pairwise fun task later => ∀ site, task.site? = some site →
        later.block? ≠ some site.block := by
    intro front rest none_under later
    have under : ∀ task ∈ front, ∀ other : Task, ∀ site, task.site? = some site →
        other.block? ≠ some site.block := by
      intro task listed other site is
      rw [none_under task listed] at is
      cases is
    refine List.pairwise_append.mpr ⟨?_, later, fun task listed other _ => under task listed other⟩
    exact List.pairwise_of_forall_mem_list fun task listed other _ => under task listed other
  cases haul with
  | idle told loads => rwa [loads]
  | begun site fresh vacant room loads =>
    rw [loads]
    refine List.pairwise_cons.mpr ⟨fun other listed new under working => ?_, pairs⟩
    cases under
    have low := numbered.works other (mem_loads.mp listed).1 _ working
    rw [fresh] at low
    exact Nat.lt_irrefl _ low
  | tried site f later rest pending before loads =>
    rw [before, List.pairwise_cons] at pairs
    rw [loads]
    refine List.pairwise_cons.mpr ⟨fun other listed new under => ?_, pairs.2⟩
    cases under
    exact pairs.1 other listed site rfl
  | made site f object rest fresh before loads =>
    rw [before, List.pairwise_cons] at pairs
    rw [loads]
    refine bare ?_ (List.pairwise_cons.mpr ⟨fun other listed new under => ?_, pairs.2⟩)
    · intro task listed
      obtain ⟨was, _, rfl⟩ := List.mem_map.mp (Option.toList_map .. ▸ listed)
      rfl
    · cases under
      exact pairs.1 other listed site rfl
  | abandoned task site rest under before loads =>
    rw [before, List.pairwise_cons] at pairs
    rw [loads]
    exact bare (fun task listed => Task.site?_of_mem_dropTasks listed) pairs.2
  | enrolled site entry rest before loads | dropped b h object registered rest before loads =>
    rw [before, List.pairwise_cons] at pairs
    rw [loads]
    exact pairs.2
  | fell b block present loads =>
    rw [loads]
    exact bare (fun task listed => Task.site?_of_mem_dropTasks listed) pairs

theorem idle_after (orderly : s.Orderly) (numbered : s.Numbered) (haul : Haul s s') {b : BlockId}
    {block : Block} (found : s'.world.blocks.find? b = some block) {task : Task}
    (listed : task ∈ s'.loads) : task.block? ≠ some b := by
  intro working
  rcases haul.present found with before | ⟨site, entry, rest, loads, rfl, _, after, journal⟩
  · rcases haul.works listed working with ⟨old, there, same⟩ | rfl | gone
    · exact orderly.idle b block before old there same
    · exact Nat.lt_irrefl _ (numbered.blocks _ block before)
    · rw [gone] at found
      cases found
  · -- The block was finished just now, and nothing behind its construction works on it.
    have pairs := orderly.apart
    rw [loads, List.pairwise_cons] at pairs
    rw [after] at listed
    exact pairs.1 task listed site rfl working

theorem whole_after (orderly : s.Orderly) (nodup : s.blocksNamed.Nodup) (haul : Haul s s')
    {b : BlockId} {block : Block} (found : s'.world.blocks.find? b = some block) :
    torn b s'.world.journal = [] := by
  rcases haul.present found with before | ⟨site, entry, rest, loads, rfl, _, after, journal⟩
  · have whole := orderly.whole b block before
    cases haul with
    | idle told loads blocks journal silent =>
      rw [journal, torn_append_of_not_ofObject fun e listed => (silent e listed).1]
      exact whole
    | begun site fresh vacant room loads blocks journal
    | abandoned task site rest under was loads blocks journal
    | fell b' block' present loads blocks journal => rwa [journal]
    | tried site f later rest pending was loads blocks journal
    | made site f object rest fresh was loads blocks journal
    | enrolled site entry rest was loads blocks journal =>
      rw [journal]
      exact whole
    | dropped b' h object registered rest was loads blocks journal =>
      have other : b' ≠ b := by
        rintro rfl
        exact orderly.idle b' block before _ (by rw [was]; exact .head _) rfl
      rw [journal, torn, if_neg fun both => other both.1]
      exact whole
  · -- A block that was under construction until now was not born before.
    have unborn := unborn_of_loads nodup (by rw [loads]; exact .head _) rfl
    rw [journal]
    exact (torn_cons_of_not_ofObject rfl _).trans (torn_of_unborn unborn)

theorem ordered_after (orderly : s.Orderly) (custody : s.Custody) (nodup : s.blocksNamed.Nodup)
    (haul : Haul s s') {b : BlockId} (born : b ∈ s.world.births) :
    ((torn b s'.world.journal).reverse ++ drops b s'.loads).Pairwise (Below s'.world.journal b) := by
  have before := orderly.ordered b born
  have grown : ∀ {list : List Object}, list.Pairwise (Below s.world.journal b) →
      list.Pairwise (Below s'.world.journal b) := by
    intro list pairs
    refine pairs.imp fun {object other} below => ?_
    obtain ⟨slot, slot', less, one, two⟩ := below
    exact ⟨slot, slot', less, haul.still one, haul.still two⟩
  have unborn : ∀ {site : Construction} {task : Task}, task ∈ s.loads → task.site? = some site →
      site.block ≠ b := by
    rintro site task listed under rfl
    exact unborn_of_loads nodup listed under born
  have others : ∀ (b' : BlockId) (h : Handle) (objects : List Object), b' ≠ b →
      drops b (dropTasks b' h objects) = [] := by
    intro b' h objects apart
    refine drops_of_idle fun task listed working => ?_
    rw [block?_of_mem_dropTasks listed] at working
    exact apart (Option.some.inj working)
  apply grown
  cases haul with
  | idle told loads blocks journal silent =>
    rw [journal, loads, torn_append_of_not_ofObject fun e listed => (silent e listed).1]
    exact before
  | begun site fresh vacant room loads blocks journal =>
    rw [journal, loads]
    exact before
  | tried site f later rest pending was loads blocks journal =>
    rw [journal, loads]
    rw [was] at before
    exact before
  | made site f object rest fresh was loads blocks journal =>
    have head : Task.make site f ∈ s.loads := by rw [was]; exact .head _
    have apart := unborn head rfl
    have first : drops b
        ((site.built.object? f.slot).map (.dropObject site.block site.handle)).toList = [] := by
      cases site.built.object? f.slot with
      | none => rfl
      | some earlier =>
        exact others site.block site.handle [earlier] apart
    rw [journal, loads, drops_append, first]
    rw [was] at before
    exact before
  | abandoned task site rest under was loads blocks journal =>
    have apart := unborn (by rw [was]; exact .head _) under
    have other : task.block? ≠ some b := by
      rw [Task.block?_of_site? under]
      exact fun same => apart (Option.some.inj same)
    rw [journal, loads, drops_append, others _ _ _ apart]
    rw [was, drops_cons_of_other other] at before
    exact before
  | enrolled site entry rest was loads blocks journal =>
    rw [journal, loads]
    rw [was] at before
    exact before
  | fell b' block present loads blocks journal =>
    rw [journal, loads, drops_append]
    by_cases same : b' = b
    · -- The whole block is about to be dropped, and nothing of it was dropped before.
      subst same
      rw [orderly.whole b' block present, drops_of_idle (orderly.idle b' block present),
        drops_dropTasks, List.append_nil]
      exact below_objects (custody.placed b' block present)
    · rw [others _ _ _ same]
      exact before
  | dropped b' h object registered rest was loads blocks journal =>
    rw [was] at before
    rw [journal, loads]
    by_cases same : b' = b
    · subst same
      rw [torn_dropped born, List.reverse_cons, List.append_assoc, List.singleton_append]
      have first : drops b' (.dropObject b' h object :: rest) = object :: drops b' rest := by
        simp [drops]
      rw [first] at before
      exact before
    · rw [torn, if_neg fun both => same both.1]
      have other : (Task.dropObject b' h object).block? ≠ some b :=
        fun working => same (Option.some.inj working)
      rw [drops_cons_of_other other] at before
      exact before

end Orderly

-- A block that is being torn down is worked on in the order of its slots, and nothing else happens
-- to it.
theorem Arises.orderly {hashing : RegistryId → Handle → UInt64} {s : Scene}
    (arisen : Arises hashing s) : s.Orderly := by
  induction arisen with
  | refl => exact orderly_start hashing
  | @tail s s' before move ih =>
    have haul := move.haul
    have numbered := Arises.numbered before
    have nodup := Arises.blocksNamed_nodup before
    refine ⟨ih.apart_after numbered haul, fun b block found task listed =>
      ih.idle_after numbered haul found listed, fun b block found => ih.whole_after nodup haul found,
      fun b born => ?_⟩
    rcases haul.born born with old | ⟨site, entry, rest, loads, rfl, after, journal⟩
    · exact ih.ordered_after (Arises.custody before) nodup haul old
    · -- Nothing of a block was dropped, and nothing is to be dropped, when it was finished just now.
      have unborn := unborn_of_loads nodup (by rw [loads]; exact .head _) rfl
      have pairs := ih.apart
      rw [loads, List.pairwise_cons] at pairs
      rw [journal, torn_cons_of_not_ofObject rfl, torn_of_unborn unborn, after,
        drops_of_idle fun task listed => pairs.1 task listed site rfl]
      exact .nil

namespace Arises

variable {hashing : RegistryId → Handle → UInt64} {s : Scene} {b : BlockId}

theorem unregistered_of_absent (arisen : Arises hashing s)
    (absent : s.world.blocks.find? b = none) (r : RegistryId) (entry : Ticket) (h : Handle) :
    ¬ s.world.Registered r entry h b := by
  intro there
  obtain ⟨block, present⟩ := arisen.live.block_registered arisen.tidy there
  rw [absent] at present
  cases present

theorem absent_of_dropping (arisen : Arises hashing s) {h : Handle} {object : Object}
    (listed : .dropObject b h object ∈ s.tasks) : s.world.blocks.find? b = none := by
  cases found : s.world.blocks.find? b with
  | none => rfl
  | some block =>
    have load : Task.dropObject b h object ∈ s.loads := Scene.mem_loads.mpr ⟨listed, rfl⟩
    exact absurd rfl (arisen.orderly.idle b block found _ load)

theorem get?_ne_of_absent (arisen : Arises hashing s) (absent : s.world.blocks.find? b = none)
    {r : RegistryId} {contexts : HandleMap BlockId} (live : s.world.map? r = some contexts)
    (h : Handle) : contexts.get? h ≠ some b := by
  intro found
  obtain ⟨entry, there⟩ := (HandleMap.get?_eq_some_iff (arisen.owned.valid r contexts live)).mp found
  exact arisen.unregistered_of_absent absent r entry h ⟨contexts, live, there⟩

-- A block that has left the world does not come back, and no lookup finds it.
theorem unseen (arisen : Arises hashing s) (born : b ∈ s.world.births)
    (absent : s.world.blocks.find? b = none) {s' : Scene} (moves : Moves s s') :
    s'.world.blocks.find? b = none ∧ ∃ told, s'.world.journal = told ++ s.world.journal ∧
      ∀ t r h found route, .lookedUp t r h found route ∈ told → found ≠ some b := by
  induction moves with
  | refl => exact ⟨absent, [], rfl, nofun⟩
  | @tail between s' before move ih =>
    obtain ⟨absentThen, told, journal, unseen⟩ := ih
    have arisenThen : Arises hashing between := Relation.ReflTransGen.trans arisen before
    refine ⟨?_, ?_⟩
    · cases found : s'.world.blocks.find? b with
      | none => rfl
      | some block =>
        rcases move.haul.present found with there | ⟨site, entry, rest, loads, rfl, _⟩
        · rw [absentThen] at there
          cases there
        · refine absurd ?_ (unborn_of_loads arisenThen.blocksNamed_nodup
            (by rw [loads]; exact .head _) rfl)
          obtain ⟨r, entry, h, slots, created⟩ := World.mem_births.mp born
          exact World.mem_births.mpr ⟨r, entry, h, slots, by
            rw [journal]
            exact List.mem_append_right _ created⟩
    · rcases move.tells arisenThen.lined with same | ⟨e, silent, more⟩ |
        ⟨t, r, h, route, contexts, live, more⟩
      · exact ⟨told, by rw [same, journal], unseen⟩
      · refine ⟨e :: told, by rw [more, journal, List.cons_append], ?_⟩
        intro t r h found route listed
        rcases List.mem_cons.mp listed with rfl | earlier
        · cases silent
        · exact unseen t r h found route earlier
      · refine ⟨_ :: told, by rw [more, journal, List.cons_append], ?_⟩
        intro t' r' h' found route' listed
        rcases List.mem_cons.mp listed with here | earlier
        · cases here
          exact arisenThen.get?_ne_of_absent absentThen live h
        · exact unseen t' r' h' found route' earlier

end Arises

end Scene

end AttachedState
