import AttachedState.Proofs.Races

/-!
Constructions, and the giving up of references.  Each task of a thread is taken by passes; what it
puts in front of the other tasks neither ends the thread nor accuses an owner.
-/

namespace AttachedState

namespace Task

-- The tasks with which a thread ends.
def closes : Task → Bool
  | dropMemos | endThread => true
  | _ => false

-- No answer says that a registration was not its owner's.
def fair : Task → Bool
  | answer _ given | reportExit _ given => !given.accuses
  | _ => true

theorem bears_of_releases {task : Task} (releases : task.releases = true) : task.bears = true := by
  cases task <;> first | rfl | cases releases

theorem plain_of_releases {task : Task} (releases : task.releases = true) :
    task.closes = false ∧ task.fair = true := by
  cases task <;> first | exact ⟨rfl, rfl⟩ | cases releases

end Task

-- The tasks of a thread that bear something.
def bearing (tasks : List Task) : List Task := tasks.filter Task.bears

theorem bearing_append (first later : List Task) :
    bearing (first ++ later) = bearing first ++ bearing later :=
  List.filter_append ..

theorem bearing_of_releases {tasks : List Task} (releases : ∀ task ∈ tasks, task.releases = true) :
    bearing tasks = tasks :=
  List.filter_eq_self.mpr fun task listed => Task.bears_of_releases (releases task listed)

theorem bearing_performs (nested : Bool) (actions : List Action) :
    bearing (actions.map (.perform nested)) = [] := by
  refine List.filter_eq_nil_iff.mpr fun task listed => ?_
  obtain ⟨action, _, rfl⟩ := List.mem_map.mp listed
  exact Bool.false_ne_true

theorem bearing_dropTasks (b : BlockId) (h : Handle) (objects : List Object) :
    bearing (dropTasks b h objects) = dropTasks b h objects := by
  refine List.filter_eq_self.mpr fun task listed => ?_
  obtain ⟨object, _, rfl⟩ := List.mem_map.mp listed
  rfl

namespace World

open Scene Outcome

-- A task that was taken: `later` are the other tasks that bear something.
structure Taken (w : World) (t : ThreadId) (task : Task) (later : List Task)
    (after : World × List Task) : Prop where
  passes : Passes ⟨w, t, [], bearing [task] ++ later⟩ ⟨after.1, t, [], bearing after.2 ++ later⟩
  plain : ∀ new ∈ after.2, new.closes = false ∧ new.fair = true

variable {hashing : RegistryId → Handle → UInt64} {w : World} {t : ThreadId} {later : List Task}

/-! The objects of a construction. -/

theorem plain_performs (nested : Bool) (actions : List Action) :
    ∀ new ∈ actions.map (Task.perform nested), new.closes = false ∧ new.fair = true := by
  intro new listed
  obtain ⟨action, _, rfl⟩ := List.mem_map.mp listed
  exact ⟨rfl, rfl⟩

theorem plain_dropTasks (b : BlockId) (h : Handle) (objects : List Object) :
    ∀ new ∈ dropTasks b h objects, new.closes = false ∧ new.fair = true := by
  intro new listed
  obtain ⟨object, _, rfl⟩ := List.mem_map.mp listed
  exact ⟨rfl, rfl⟩

theorem plain_close (site : Construction) {answer : Answer} (fair : answer.accuses = false) :
    ∀ new ∈ site.close answer, new.closes = false ∧ new.fair = true := by
  intro new listed
  simp only [Construction.close, List.mem_cons, List.not_mem_nil, or_false] at listed
  rcases listed with rfl | rfl
  · exact ⟨rfl, rfl⟩
  · exact ⟨rfl, by simp only [Task.fair, fair, Bool.not_false]⟩

theorem bearing_close (site : Construction) (answer : Answer) :
    bearing (site.close answer) = [.releaseRegistry site.registry] := rfl

theorem bearing_abandon (site : Construction) (failure : Failure) :
    bearing (site.abandon failure) = dropTasks site.block site.handle site.built.objects
      ++ [.releaseRegistry site.registry] := by
  unfold Construction.abandon
  rw [bearing_append, bearing_dropTasks]
  rfl

-- A construction that fails, after whatever quiet changes, drops what it made.
theorem abandon_taken {after : World} {task : Task} {site : Construction} {failure : Failure}
    (changes : Quiets w after) (under : task.site? = some site)
    (fair : (Answer.failed failure).accuses = false) :
    w.Taken t task later (after, site.abandon failure) := by
  have only : bearing [task] = [task] := by
    cases task <;> first | rfl | cases under
  refine ⟨?_, ?_⟩
  · rw [only, bearing_abandon, List.append_assoc]
    exact (changes.passes t [] _).tail (Pass.of_move (.abandoned task site later rfl under) rfl rfl)
  · intro new listed
    rcases List.mem_append.mp listed with drop | last
    · exact plain_dropTasks _ _ _ new drop
    · exact plain_close site fair new last

theorem supplied_spec (arisen : Arises hashing ⟨w, t, [], later⟩) (runs : w.Runs t) (h : Handle)
    (source : Source) : Quiets w (w.supplied t h source).2 ∧
      ∀ cause, (w.supplied t h source).1 = .error cause →
        (Answer.failed (.panic cause)).accuses = false := by
  unfold supplied
  split
  · exact ⟨.refl, nofun⟩
  · exact ⟨.refl, nofun⟩
  · split
    · rename_i r other key named _ _
      obtain ⟨registry, live⟩ := (Arises.live arisen).registry_named (Arises.tidy arisen) named
      obtain ⟨changes, answers⟩ := lookUp_spec runs (map?_of_find? live) other
      have answers := answers (Arises.lined arisen)
      split
      · rename_i cause after looked
        rw [looked] at changes answers
        refine ⟨changes, ?_⟩
        rcases answers with ⟨_, refused⟩ | found
        · cases refused
          intro cause failed
          cases failed
          rfl
        · cases found
      · rename_i after looked
        rw [looked] at changes
        refine ⟨changes, fun cause failed => ?_⟩
        cases failed
        rfl
      · rename_i b after looked
        rw [looked] at changes
        exact ⟨changes, nofun⟩
    · refine ⟨.refl, fun cause failed => ?_⟩
      cases failed
      rfl

theorem makeValue_spec (arisen : Arises hashing ⟨w, t, [], later⟩) (runs : w.Runs t) (h : Handle)
    (f : Factory) : Quiets w (w.makeValue t h f).2 ∧
      ∀ cause, (w.makeValue t h f).1 = .error cause →
        (Answer.failed (.panic cause)).accuses = false := by
  obtain ⟨changes, causes⟩ := supplied_spec arisen runs h f.source
  unfold makeValue
  split
  · refine ⟨.refl, fun cause failed => ?_⟩
    cases failed
    rfl
  · split
    · rename_i cause after supplied
      rw [supplied] at changes causes
      refine ⟨changes, fun other failed => ?_⟩
      cases failed
      exact causes cause rfl
    · rename_i data after supplied
      rw [supplied] at changes
      split
      · refine ⟨changes, fun cause failed => ?_⟩
        cases failed
        rfl
      · exact ⟨changes, nofun⟩

theorem make_taken {site : Construction} {f : Factory}
    (arisen : Arises hashing ⟨w, t, [], .make site f :: later⟩) (runs : w.Runs t) :
    w.Taken t (.make site f) later (w.make t site f) := by
  obtain ⟨changes, causes⟩ := makeValue_spec arisen runs site.handle f
  unfold make
  split
  · rename_i cause after made
    rw [made] at changes causes
    exact abandon_taken changes rfl (causes cause rfl)
  · rename_i value after made
    rw [made] at changes
    have before := changes.passes t [] (.make site f :: later)
    have placed := Pass.of_move (Move.made site f
      ⟨⟨after.next⟩, value, site.creation.registry, f.dropActions⟩ later
      (s := ⟨after, t, [], .make site f :: later⟩) rfl rfl) rfl rfl
    simp only [takeNumber]
    split <;> rename_i earlier <;> rw [earlier] at placed
    · exact ⟨before.tail placed, by simp [Task.closes, Task.fair]⟩
    · exact ⟨before.tail placed, by simp [Task.closes, Task.fair]⟩

/-! Registering what was constructed. -/

-- The owner of a new registration gets its name, or is given up where the name was taken meanwhile.
theorem settle_passes {site : Construction} {g : Guard}
    (arisen : Arises hashing ⟨w, t, [g], .releaseRegistry site.registry :: later⟩)
    (runs : w.Runs t) :
    let after :=
      if w.states.contains site.creation.state then
        ((w.giveUp t g).world, (w.giveUp t g).first ++ site.close (.failed .nameTaken))
      else
        let w := { w with states := w.states.put site.creation.state g }
        match w.describe? site.block with
        | some description => (w, site.close (.block description none))
        | none => (w, site.close (.failed .noSuchName))
    Passes ⟨w, t, [g], .releaseRegistry site.registry :: later⟩
      ⟨after.1, t, [], bearing after.2 ++ later⟩ ∧
    ∀ new ∈ after.2, new.closes = false ∧ new.fair = true := by
  obtain ⟨pass, first, _⟩ := giveUp_spec [] arisen runs
  have releases := guardTasks_release g
  rw [← first] at releases
  simp only
  split
  · refine ⟨?_, ?_⟩
    · simp only [bearing_append, bearing_of_releases releases, bearing_close, List.append_assoc]
      exact .single pass
    · intro new listed
      rcases List.mem_append.mp listed with given | last
      · exact Task.plain_of_releases (releases new given)
      · exact plain_close site rfl new last
  · rename_i absent
    have clear : w.states.contains site.creation.state = false := eq_false_of_ne_true absent
    have entitled := Pass.of_move (Move.entitled site.creation.state g rfl
      (Table.not_contains_iff.mp clear)
      (s := ⟨w, t, [g], .releaseRegistry site.registry :: later⟩)) rfl rfl
    split
    · exact ⟨.single entitled, plain_close site rfl⟩
    · exact ⟨.single entitled, plain_close site rfl⟩

theorem register_taken {site : Construction}
    (arisen : Arises hashing ⟨w, t, [], .construct site :: later⟩) (runs : w.Runs t) :
    w.Taken t (.construct site) later (w.register t site) := by
  obtain ⟨registry, live⟩ := (Arises.live arisen).registry_of_task (r := site.registry)
    List.mem_cons_self (by simp [Task.refersToRegistry])
  unfold register
  by_cases free : (w.thread t).depth = 0
  · cases inserted : registry.contexts.insert site.handle site.block with
    | error back =>
      rw [underLock_refused runs free live inserted]
      exact abandon_taken (.single (.asked live)) rfl (Answer.accuses_refusal _ _)
    | ok done =>
      obtain ⟨entry, contexts⟩ := done
      rw [underLock_register runs free live inserted]
      have enrolled := Pass.of_move (Move.enrolled site registry entry contexts later
        (s := ⟨w, t, [], .construct site :: later⟩) rfl live inserted) rfl rfl
      obtain ⟨settled, plain⟩ := settle_passes (arisen.tail enrolled.move) (enrolled.runs runs)
      exact ⟨Relation.ReflTransGen.head enrolled settled, plain⟩
  · rw [underLock_held free]
    exact abandon_taken .refl rfl rfl

theorem construct_taken {site : Construction}
    (arisen : Arises hashing ⟨w, t, [], .construct site :: later⟩) (runs : w.Runs t) :
    w.Taken t (.construct site) later (w.construct t site) := by
  unfold construct
  split
  · exact register_taken arisen runs
  · rename_i f rest pending
    refine ⟨?_, ?_⟩
    · rw [bearing_append, bearing_performs]
      exact .single (Pass.of_move (.tried site f rest later rfl pending) rfl rfl)
    · intro new listed
      rcases List.mem_append.mp listed with before | last
      · exact plain_performs true f.before new before
      · rw [List.mem_singleton.mp last]
        exact ⟨rfl, rfl⟩

-- A block has a slot for everything that was supplied for it.
theorem lt_sizeFor {slots : List Slot} {slot : Slot} (supplied : slot ∈ slots) :
    slot < Block.sizeFor slots := by
  induction slots with
  | nil => cases supplied
  | cons first rest ih =>
    simp only [Block.sizeFor, List.map_cons, List.foldr_cons] at ih ⊢
    rcases List.mem_cons.mp supplied with rfl | later
    · exact Nat.lt_of_lt_of_le (Nat.lt_succ_self _) (Nat.le_max_left ..)
    · exact Nat.lt_of_lt_of_le (ih later) (Nat.le_max_right ..)

theorem beginCreation_fair {after : World} {nested : Option Action} {creation : Creation}
    {supplies : List (Supply Action)} {failure : Failure}
    (begun : w.beginCreation t nested creation supplies = (.error failure, after)) :
    (Answer.failed failure).accuses = false := by
  unfold beginCreation at begun
  repeat' split at begun
  all_goals simp only [Prod.mk.injEq, reduceCtorEq, false_and, Except.error.injEq] at begun
  all_goals obtain ⟨rfl, _⟩ := begun
  · rfl
  · rfl
  · rfl
  · rfl
  · rename_i cause refused _
    rw [underLock?_error refused]
    rfl
  · exact Answer.accuses_refusal _ _

theorem beginCreation_site {after : World} {nested : Option Action} {creation : Creation}
    {supplies : List (Supply Action)} {site : Construction}
    (begun : w.beginCreation t nested creation supplies = (.ok site, after)) :
    after = { w with next := w.next + 1 } ∧
      w.registryNamed? creation.registry = some site.registry ∧ site.block = ⟨w.next⟩ ∧
      (∀ object ∈ site.slots, object = none) ∧
      ∀ f ∈ site.pending, f.slot < site.slots.length := by
  unfold beginCreation at begun
  repeat' split at begun
  all_goals simp only [Prod.mk.injEq, reduceCtorEq, false_and, Except.ok.injEq] at begun
  rename_i r named _ _ factories _ _ _ _ number numbered taken
  cases taken
  obtain ⟨rfl, rfl⟩ := begun
  refine ⟨rfl, named, rfl, fun object listed => List.eq_of_mem_replicate listed, ?_⟩
  intro f listed
  simp only [List.length_replicate]
  exact lt_sizeFor (List.mem_map_of_mem listed)

theorem begin_taken (arisen : Arises hashing ⟨w, t, [], later⟩) (asked : Option Action)
    (creation : Creation) (supplies : List (Supply Action)) {task : Task}
    (light : task.bears = false) :
    w.Taken t task later (match w.beginCreation t asked creation supplies with
      | (.error failure, w) => (w, [.answer asked (.failed failure)])
      | (.ok site, w) => (w, [.construct site])) := by
  have none_borne : bearing [task] = [] := by simp [bearing, light]
  split <;> rename_i begun
  · have fair := beginCreation_fair begun
    rw [beginCreation_error begun]
    refine ⟨?_, ?_⟩
    · rw [none_borne]
      exact .refl
    · intro new listed
      rw [List.mem_singleton.mp listed]
      exact ⟨rfl, by simp only [Task.fair, fair, Bool.not_false]⟩
  · obtain ⟨rfl, named, fresh, vacant, room⟩ := beginCreation_site begun
    obtain ⟨registry, live⟩ := (Arises.live arisen).registry_named (Arises.tidy arisen) named
    refine ⟨?_, by simp [Task.closes, Task.fair]⟩
    rw [none_borne]
    exact .single (Pass.of_move (.begun _ registry live fresh vacant room) rfl rfl)

/-! Drops and releases. -/

theorem dropObject_taken (w : World) (t : ThreadId) (later : List Task) (b : BlockId) (h : Handle)
    (object : Object) : w.Taken t (.dropObject b h object) later (w.dropObject t b h object) := by
  refine ⟨?_, plain_performs true object.onDrop⟩
  have dropped := fun registered => Pass.of_move (Move.dropped b h object registered later
    (s := ⟨w, t, [], .dropObject b h object :: later⟩) rfl) rfl rfl
  unfold dropObject
  rw [bearing_performs]
  exact .single (dropped _)

theorem any_bearing {p : Task → Bool} (bears : ∀ task, p task = true → task.bears = true)
    (tasks : List Task) : (bearing tasks).any p = tasks.any p := by
  unfold bearing
  rw [List.any_filter]
  congr 1
  funext task
  cases holds : p task with
  | false => rw [Bool.and_false]
  | true => rw [bears task holds, Bool.and_true]

theorem releaseBlock_taken {tasks : List Task} {b : BlockId}
    (arisen : Arises hashing ⟨w, t, [], .releaseBlock b :: bearing tasks⟩) :
    w.Taken t (.releaseBlock b) (bearing tasks) (w.releaseBlock tasks b) := by
  have same : tasks.any (·.refersToBlock b) = (bearing tasks).any (·.refersToBlock b) :=
    (any_bearing (fun task refers => by cases task <;> first | rfl | cases refers) tasks).symm
  obtain ⟨block, present⟩ := (Arises.live arisen).block_of_needed (b := b)
    (by simp [needsBlock, Task.refersToBlock])
  unfold releaseBlock
  rw [same]
  split
  · rename_i needed
    have released : Pass ⟨w, t, [], .releaseBlock b :: bearing tasks⟩ ⟨w, t, [], bearing tasks⟩ :=
      Pass.of_move (.released rfl (by simpa [needsBlock] using needed)) rfl rfl
    exact ⟨.single released, List.forall_mem_nil _⟩
  · rename_i last
    rw [present]
    refine ⟨?_, plain_dropTasks b block.handle block.objects⟩
    rw [bearing_dropTasks]
    exact .single (Pass.of_move (.fell b block (bearing tasks) rfl (by simpa [needsBlock] using last)
      present) rfl rfl)

theorem releaseRegistry_taken {tasks : List Task} {r : RegistryId}
    (arisen : Arises hashing ⟨w, t, [], .releaseRegistry r :: bearing tasks⟩) :
    w.Taken t (.releaseRegistry r) (bearing tasks) (w.releaseRegistry tasks r) := by
  have same : tasks.any (·.refersToRegistry r) = (bearing tasks).any (·.refersToRegistry r) :=
    (any_bearing (fun task refers => by cases task <;> first | rfl | cases refers) tasks).symm
  obtain ⟨registry, live⟩ := (Arises.live arisen).registry_of_task (r := r) List.mem_cons_self
    (by simp [Task.refersToRegistry])
  unfold releaseRegistry
  rw [same]
  split
  · rename_i needed
    have spared : Pass ⟨w, t, [], .releaseRegistry r :: bearing tasks⟩ ⟨w, t, [], bearing tasks⟩ :=
      Pass.of_move (.spared rfl (by simpa [needsRegistry] using needed)) rfl rfl
    exact ⟨.single spared, List.forall_mem_nil _⟩
  · rename_i last
    rw [live]
    have light : ∀ task ∈ registry.blocks.map Task.releaseBlock, task.releases = true := by
      intro task listed
      obtain ⟨b, _, rfl⟩ := List.mem_map.mp listed
      rfl
    refine ⟨?_, fun new listed => Task.plain_of_releases (light new listed)⟩
    simp only [bearing_of_releases light]
    exact .single (Pass.of_move (.closed r registry (bearing tasks) rfl
      (by simpa [needsRegistry] using last) live) rfl rfl)

end World

end AttachedState
