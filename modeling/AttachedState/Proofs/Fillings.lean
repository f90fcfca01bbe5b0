import AttachedState.Proofs.Formation
import AttachedState.Proofs.Keys

/-!
Fillings.  A construction that was begun is followed until its block is finished or given up: while
no slot is supplied twice, each factory finds its slot empty, and what it makes stays there.  A block
that is in the world keeps what it was finished with.
-/

namespace AttachedState

/-! Finished blocks. -/

namespace Scene

-- The block is under construction no more, and what is in the world under its number is good.
structure Settled (s : Scene) (b : BlockId) (good : Block → Prop) : Prop where
  old : b.number < s.world.next
  finished : b ∉ s.building
  blocks : ∀ block, s.world.blocks.find? b = some block → good block

theorem Settled.move {s s' : Scene} {b : BlockId} {good : Block → Prop} (settled : s.Settled b good)
    (move : Move s s') : s'.Settled b good := by
  obtain ⟨old, finished, blocks⟩ := settled
  refine ⟨Nat.lt_of_lt_of_le old move.next_le, fun under => ?_, fun block found => ?_⟩
  · rcases move.building with fewer | ⟨more, _⟩
    · exact finished (fewer.subset under)
    · rw [more] at under
      rcases List.mem_cons.mp under with new | before
      · rw [new] at old
        exact Nat.lt_irrefl _ old
      · exact finished before
  · rcases move.haul.present found with before | ⟨site, entry, rest, loads, here, _⟩
    · exact blocks block before
    · rw [here] at finished
      exact absurd (building_of_loads (by rw [loads]; exact .head _) rfl) finished

theorem Settled.moves {s s' : Scene} {b : BlockId} {good : Block → Prop} (settled : s.Settled b good)
    (moves : Moves s s') : s'.Settled b good := by
  induction moves with
  | refl => exact settled
  | tail _ move ih => exact ih.move move

-- What is in the world is finished.
theorem Arises.settled_of_find? {hashing : RegistryId → Handle → UInt64} {s : Scene}
    (arisen : Arises hashing s) {b : BlockId} {block : Block}
    (found : s.world.blocks.find? b = some block) : s.Settled b (· = block) := by
  have born := arisen.custody.born b block found
  have nodup := arisen.blocksNamed_nodup
  refine ⟨arisen.numbered.blocksNamed (List.mem_append_right _ born), fun under => ?_, fun other there => ?_⟩
  · exact (List.nodup_append.mp nodup).2.2 b under b born rfl
  · rw [found] at there
    exact (Option.some.inj there).symm

end Scene

theorem underConstruction_bearing (tasks : List Task) :
    underConstruction (bearing tasks) = underConstruction tasks := by
  induction tasks with
  | nil => rfl
  | cons task rest ih =>
    rw [bearing_cons, underConstruction_append, ih]
    have one : underConstruction (bearing [task]) = underConstruction [task] := by
      cases task <;> rfl
    rw [one, ← underConstruction_append, List.singleton_append]

namespace World

variable {w after : World} {t : ThreadId} {r : RegistryId}

theorem giveUp_blocks (w : World) (t : ThreadId) (g : Guard) :
    (w.giveUp t g).world.blocks = w.blocks := by
  unfold giveUp
  split
  · rfl
  · rename_i locked
    have same := (underLock_same locked).1
    exact same
  · rename_i locked
    have same := (underLock_same locked).1
    exact same

theorem underConstruction_close (front : List Task) (bare : ∀ task ∈ front, task.site? = none)
    (site : Construction) (answer : Answer) : underConstruction (front ++ site.close answer) = [] := by
  rw [underConstruction_append, underConstruction_of_bare bare]
  rfl

theorem underConstruction_abandon (site : Construction) (failure : Failure) :
    underConstruction (site.abandon failure) = [] :=
  underConstruction_close _ (fun _ listed => Task.site?_of_mem_dropTasks listed) site _

-- A block whose factories have all run goes into the world, or nothing does.
theorem register_blocks (w : World) (t : ThreadId) (site : Construction) :
    ((w.register t site).1.blocks = w.blocks ∨
      (w.register t site).1.blocks = w.blocks.put site.block site.built) ∧
    underConstruction (w.register t site).2 = [] := by
  unfold register
  split
  · exact ⟨.inl rfl, underConstruction_abandon site _⟩
  · rename_i locked
    exact ⟨.inl (underLock_same locked).1, underConstruction_abandon site _⟩
  · rename_i entry after locked
    have put : after.blocks.put site.block site.built = w.blocks.put site.block site.built := by
      rw [(underLock_same locked).1]
    simp only
    split
    · refine ⟨.inr ((giveUp_blocks _ t _).trans put), ?_⟩
      refine underConstruction_close _ (fun task listed => ?_) site _
      have first : task.releases = true := by
        unfold giveUp at listed
        split at listed <;> exact guardTasks_release _ task listed
      cases task <;> first | rfl | cases first
    · split
      · exact ⟨.inr put, underConstruction_close [] (List.forall_mem_nil _) site _⟩
      · exact ⟨.inr put, underConstruction_close [] (List.forall_mem_nil _) site _⟩

theorem makeValue_kind {h : Handle} {f : Factory} {value : Value}
    (made : (w.makeValue t h f).1 = .ok value) : value.kind = f.kind := by
  unfold makeValue at made
  split at made
  · cases made
  · split at made
    · cases made
    · split at made
      · cases made
      · rename_i fits
        cases made
        exact Value.kind_of_ofDatum? fits

end World

namespace Machine

variable {hashing : RegistryId → Handle → UInt64} {start m after : Machine} {site : Construction}
  {rest : List Task} {f : Factory} {done : List Factory} {slots : List (Option Object)}
  {object : Object}

/-! What factories make. -/

-- The factory made the object, for the handle of its block, when its turn came.
def MadeBy (start : Machine) (site : Construction) (f : Factory) (object : Object) : Prop :=
  ∃ n now behind, (start.steps n).tasks = .make now f :: behind ∧ now.block = site.block ∧
    ((start.steps n).world.makeValue start.thread site.handle f).1 = .ok object.value ∧
    .objectMade site.block f.slot object ∈ (start.steps (n + 1)).world.journal

theorem MadeBy.kind (made : MadeBy start site f object) : object.value.kind = f.kind := by
  obtain ⟨_, _, _, _, _, value, _⟩ := made
  exact World.makeValue_kind value

-- What is in the slots after so many factories, and what is not.
structure Filled (start : Machine) (site : Construction) (done : List Factory)
    (slots : List (Option Object)) : Prop where
  length : slots.length = site.slots.length
  made : ∀ f ∈ done, ∃ object, slots[f.slot]?.join = some object ∧ MadeBy start site f object
  clear : ∀ slot, slot ∉ done.map (·.slot) → slots[slot]?.join = none

theorem filled_nil (vacant : ∀ object ∈ site.slots, object = none) :
    Filled start site [] site.slots := by
  refine ⟨rfl, List.forall_mem_nil _, fun slot _ => ?_⟩
  cases there : site.slots[slot]? with
  | none => rfl
  | some object => rw [vacant object (List.mem_of_getElem? there)]; rfl

theorem Filled.set (filled : Filled start site done slots) (room : f.slot < site.slots.length)
    (apart : f.slot ∉ done.map (·.slot)) (made : MadeBy start site f object) :
    Filled start site (done ++ [f]) (slots.set f.slot (some object)) := by
  obtain ⟨length, before, clear⟩ := filled
  refine ⟨by rw [List.length_set, length], fun g listed => ?_, fun slot absent => ?_⟩
  · rcases List.mem_append.mp listed with earlier | last
    · obtain ⟨old, there, madeBy⟩ := before g earlier
      have other : f.slot ≠ g.slot := fun same => apart (same ▸ List.mem_map_of_mem earlier)
      exact ⟨old, by rwa [List.getElem?_set_ne other], madeBy⟩
    · rw [List.mem_singleton.mp last]
      exact ⟨object, by rw [List.getElem?_set_self (by rwa [length])]; rfl, made⟩
  · rw [List.map_append, List.mem_append, not_or] at absent
    have other : f.slot ≠ slot := fun same => absent.2 (by simp [same])
    rw [List.getElem?_set_ne other]
    exact clear slot absent.1

/-! Stages. -/

-- Where a machine stands that began the construction: it goes on with the factories that are left,
-- it is at work on one of them, or it has come to an end with them.
inductive Stage (start : Machine) (site : Construction) (rest : List Task) (m : Machine) : Prop where
  | placing (n : Nat) (slots : List (Option Object)) (done left : List Factory)
      (here : m = start.steps n) (factories : site.pending = done ++ left)
      (filled : Filled start site done slots)
      (tasks : m.tasks = .construct { site with slots, pending := left } :: rest)
  | making (n : Nat) (slots : List (Option Object)) (done left : List Factory) (f : Factory)
      (front : List Task) (here : m = start.steps n) (factories : site.pending = done ++ f :: left)
      (filled : Filled start site done slots)
      (tasks : m.tasks = front ++ .make { site with slots, pending := left } f :: rest)
  | settled (settled : m.scene.Settled site.block fun block =>
      block.handle = site.handle ∧ Filled start site site.pending block.slots)

theorem Reached.building_behind (reached : m.Reached hashing) (front : List Task) {task : Task}
    (tasks : m.tasks = front ++ task :: rest) {now : Construction} (under : task.site? = some now) :
    now.block ∈ m.scene.building ∧ now.block ∉ underConstruction (front ++ rest) := by
  have all : m.scene.building = underConstruction front ++ now.block :: underConstruction rest := by
    unfold scene Scene.building
    rw [underConstruction_bearing, tasks, underConstruction_append, List.append_cons, List.append_assoc]
    congr 1
    show underConstruction ([task] ++ rest) = _
    rw [underConstruction_append]
    have one : underConstruction [task] = [now.block] := by
      simp [underConstruction, under]
    rw [one]
  have nodup := (List.nodup_append.mp (Scene.Arises.blocksNamed_nodup reached.arises)).1
  rw [all] at nodup ⊢
  refine ⟨List.mem_append_right _ List.mem_cons_self, ?_⟩
  rw [underConstruction_append]
  exact (List.nodup_middle.mp nodup |> List.nodup_cons.mp).1

-- Nothing is under construction under the number of a block once its construction is no task.
theorem Reached.settled_step (reached : m.Reached hashing) {now : Construction} {task : Task}
    (tasks : m.tasks = task :: rest) (under : task.site? = some now)
    (ends : underConstruction (m.world.take m.thread rest task).2 = []) {good : Block → Prop}
    (blocks : ∀ block, (m.world.take m.thread rest task).1.blocks.find? now.block = some block →
      good block) : m.step.scene.Settled now.block good := by
  have moves := (reached.steady.step reached.arises).1
  obtain ⟨building, behind⟩ := reached.building_behind [] tasks under
  have old := (Scene.Arises.numbered reached.arises).blocksNamed (List.mem_append_left _ building)
  have stepped := step_of_cons tasks
  refine ⟨Nat.lt_of_lt_of_le old (Scene.Moves.next_le moves), ?_, ?_⟩
  · unfold scene Scene.building
    rw [underConstruction_bearing, stepped, underConstruction_append, ends]
    exact behind
  · rw [stepped]
    exact blocks

theorem Reached.runs_of_site (reached : m.Reached hashing) {now : Construction} {task : Task}
    (tasks : m.tasks = task :: rest) (under : task.site? = some now) : m.world.Runs m.thread := by
  refine reached.runs_ahead task (tasks ▸ List.mem_cons_self) ?_
  cases task <;> first | rfl | cases under

theorem Reached.absent_of_site (reached : m.Reached hashing) (front : List Task)
    {now : Construction} {task : Task} (tasks : m.tasks = front ++ task :: rest) (under : task.site? = some now) :
    m.world.blocks.find? now.block = none :=
  (Scene.Arises.custody reached.arises).absent_of_building
    (Scene.Arises.blocksNamed_nodup reached.arises) (reached.building_behind _ tasks under).1

-- The next of the factories that are left makes its object, or its panic ends the construction.
theorem Stage.made (reached : m.Reached hashing) (room : ∀ f ∈ site.pending, f.slot < site.slots.length)
    (nodup : (site.pending.map (·.slot)).Nodup) {n : Nat} {left : List Factory}
    (here : m = start.steps n) (factories : site.pending = done ++ f :: left)
    (filled : Filled start site done slots)
    (tasks : m.tasks = .make { site with slots, pending := left } f :: rest) :
    ((∃ cause, (m.world.makeValue m.thread site.handle f).1 = .error cause) ∧
      m.step.scene.Settled site.block fun _ => False) ∨
    ∃ object, Filled start site (done ++ [f]) (slots.set f.slot (some object)) ∧
      m.step.tasks
        = .construct { site with slots := slots.set f.slot (some object), pending := left } :: rest := by
  have apart : f.slot ∉ done.map (·.slot) := by
    rw [factories, List.map_append, List.map_cons] at nodup
    exact fun earlier => (List.nodup_append.mp nodup).2.2 f.slot earlier f.slot List.mem_cons_self rfl
  have fits : f.slot < site.slots.length := by
    apply room
    rw [factories]
    exact List.mem_append_right _ List.mem_cons_self
  have empty : ({ site with slots, pending := left } : Construction).built.object? f.slot = none :=
    filled.clear f.slot apart
  have stepped := step_of_cons tasks
  have taken : m.world.take m.thread rest (.make { site with slots, pending := left } f)
      = m.world.make m.thread { site with slots, pending := left } f := rfl
  unfold World.make at taken
  cases made : m.world.makeValue m.thread site.handle f with
  | mk result after =>
    simp only [made] at taken
    cases result with
    | error cause =>
      refine .inl ⟨⟨cause, rfl⟩, ?_⟩
      have changes := (World.makeValue_spec (reached.arises_cons tasks)
        (reached.runs_of_site tasks rfl) site.handle f).1
      rw [made] at changes
      refine reached.settled_step tasks rfl ?_ fun block found => ?_
      · rw [taken]
        exact World.underConstruction_abandon _ _
      · rw [taken] at found
        have absent := reached.absent_of_site [] tasks rfl
        have same : after.blocks = m.world.blocks := changes.same.2.1
        simp only [same] at found
        cases found.symm.trans absent
    | ok value =>
      simp only [empty] at taken
      refine .inr ⟨⟨⟨after.next⟩, value, site.creation.registry, f.dropActions⟩, ?_, ?_⟩
      · refine filled.set fits apart ⟨n, { site with slots, pending := left }, rest, ?_, rfl, ?_, ?_⟩
        · rw [← here, tasks]
        · rw [← here, ← thread_steps start n, ← here, made]
        · rw [steps_succ, ← here, stepped, taken]
          exact List.mem_cons_self
      · rw [stepped, taken]
        rfl

theorem Stage.next (reached : m.Reached hashing) (room : ∀ f ∈ site.pending, f.slot < site.slots.length)
    (nodup : (site.pending.map (·.slot)).Nodup) (stage : Stage start site rest m)
    (next : Next m after) : Stage start site rest after := by
  have still : ∀ {good : Block → Prop}, m.scene.Settled site.block good →
      after.scene.Settled site.block good := fun settled =>
    settled.moves (next.spec reached.arises reached.steady).1
  cases stage with
  | settled settled => exact .settled (still settled)
  | placing n slots done left here factories filled tasks =>
    cases next with
    | told idle =>
      rw [idle] at tasks
      cases tasks
    | step =>
      have stepped := step_of_cons tasks
      cases left with
      | nil =>
        rw [List.append_nil] at factories
        have taken : m.world.take m.thread rest (.construct { site with slots, pending := [] })
            = m.world.register m.thread { site with slots, pending := [] } := rfl
        obtain ⟨blocks, ends⟩ := World.register_blocks m.world m.thread { site with slots, pending := [] }
        have absent := reached.absent_of_site [] tasks rfl
        refine .settled (reached.settled_step tasks rfl (by rw [taken, ends]) fun block found => ?_)
        rw [taken] at found
        rcases blocks with same | put
        · rw [same, absent] at found
          cases found
        · rw [put, Table.find?_put_self] at found
          cases found
          exact ⟨rfl, by rw [factories]; exact filled⟩
      | cons f left =>
        refine .making (n + 1) slots done left f (f.before.map (.perform true)) ?_ factories filled ?_
        · rw [steps_succ, ← here]
        · rw [stepped]
          simp [World.take, World.construct]
  | making n slots done left f front here factories filled tasks =>
    cases next with
    | told idle =>
      rw [idle] at tasks
      cases front <;> cases tasks
    | step =>
      have beyond : m.step = start.steps (n + 1) := by rw [steps_succ, ← here]
      cases front with
      | nil =>
        rcases Stage.made reached room nodup here factories filled tasks with
          ⟨_, settled⟩ | ⟨object, filledThen, tasksThen⟩
        · exact .settled ⟨settled.old, settled.finished, fun block found => (settled.blocks block found).elim⟩
        · exact .placing (n + 1) _ _ left beyond (by rw [factories, List.append_assoc]; rfl)
            filledThen tasksThen
      | cons first front =>
        obtain ⟨more, stepped⟩ := step_behind tasks
        exact .making (n + 1) slots done left f more beyond factories filled stepped

theorem Stage.later (reached : m.Reached hashing) (room : ∀ f ∈ site.pending, f.slot < site.slots.length)
    (nodup : (site.pending.map (·.slot)).Nodup) (stage : Stage start site rest m)
    (later : Later m after) : Stage start site rest after := by
  induction later with
  | refl => exact stage
  | tail before next ih => exact ih.next (reached.on before) room nodup next

/-! What follows from the stage. -/

variable {now : Construction} {behind : List Task}

-- One task at most is at work on a block.
theorem Reached.same_site (reached : m.Reached hashing) (front : List Task) {task other : Task}
    {stood : Construction} (tasks : m.tasks = front ++ task :: rest) (under : task.site? = some stood)
    (tasksToo : m.tasks = other :: behind) (underToo : other.site? = some now)
    (same : now.block = stood.block) : front = [] ∧ other = task ∧ behind = rest := by
  have apart := (reached.building_behind _ tasks under).2
  rw [tasks] at tasksToo
  cases front with
  | nil =>
    cases tasksToo
    exact ⟨rfl, rfl, rfl⟩
  | cons first front =>
    cases tasksToo
    refine absurd ?_ apart
    rw [← same]
    simp [underConstruction, underToo]

theorem Reached.unsettled (reached : m.Reached hashing) {good : Block → Prop} {task : Task}
    (settled : m.scene.Settled site.block good) (tasks : m.tasks = task :: behind)
    (under : task.site? = some now) (same : now.block = site.block) : False := by
  have building := (reached.building_behind [] tasks under).1
  rw [same] at building
  exact settled.finished building

-- A factory whose turn has come finds its slot empty.
theorem Stage.of_making (stage : Stage start site rest m) (reached : m.Reached hashing)
    (nodup : (site.pending.map (·.slot)).Nodup) (tasks : m.tasks = .make now f :: behind)
    (same : now.block = site.block) : now.built.object? f.slot = none := by
  cases stage with
  | placing n slots done left here factories filled placed =>
    rw [placed] at tasks
    cases tasks
  | making n slots done left g front here factories filled made =>
    obtain ⟨_, first, _⟩ := reached.same_site _ made rfl tasks rfl same
    cases first
    rw [factories, List.map_append, List.map_cons] at nodup
    exact filled.clear f.slot fun earlier =>
      (List.nodup_append.mp nodup).2.2 f.slot earlier f.slot List.mem_cons_self rfl
  | settled settled => exact (reached.unsettled settled tasks rfl same).elim

-- When all factories have run, the block holds what they made.
theorem Stage.of_finished (stage : Stage start site rest m) (reached : m.Reached hashing)
    (tasks : m.tasks = .construct now :: behind) (same : now.block = site.block)
    (finished : now.pending = []) :
    now.handle = site.handle ∧ Filled start site site.pending now.slots := by
  cases stage with
  | placing n slots done left here factories filled placed =>
    obtain ⟨_, first, _⟩ := reached.same_site [] placed rfl tasks rfl same
    cases first
    simp only at finished
    rw [finished, List.append_nil] at factories
    exact ⟨rfl, by rw [factories]; exact filled⟩
  | making n slots done left g front here factories filled made =>
    obtain ⟨_, first, _⟩ := reached.same_site _ made rfl tasks rfl same
    cases first
  | settled settled => exact (reached.unsettled settled tasks rfl same).elim

-- So does the block that is in the world.
theorem Stage.of_find? (stage : Stage start site rest m) (reached : m.Reached hashing) {block : Block}
    (found : m.world.blocks.find? site.block = some block) :
    block.handle = site.handle ∧ Filled start site site.pending block.slots := by
  cases stage with
  | placing n slots done left here factories filled tasks =>
    have absent := reached.absent_of_site [] tasks rfl
    cases found.symm.trans absent
  | making n slots done left g front here factories filled tasks =>
    have absent := reached.absent_of_site _ tasks rfl
    cases found.symm.trans absent
  | settled settled => exact settled.blocks block found

/-! Ends. -/

-- A construction comes to an end: all factories have run, or one of them panics.
theorem construction_ends {n : Nat} (left : List Factory)
    (tasks : (start.steps n).tasks = .construct { site with slots, pending := left } :: rest) :
    ∃ k, (∃ slots, (start.steps k).tasks = .construct { site with slots, pending := [] } :: rest) ∨
      ∃ slots f later cause,
        (start.steps k).tasks = .make { site with slots, pending := later } f :: rest ∧
        ((start.steps k).world.makeValue start.thread site.handle f).1 = .error cause := by
  obtain ⟨made, k, last, forms, ends⟩ := forms_or_panics { site with slots } left tasks
  have same := forms.ends.2
  rcases ends with ⟨none_left, finished⟩ | ⟨f, later, j, cause, _, _, making, panics⟩
  · rw [none_left] at same
    exact ⟨k, .inl ⟨_, by rw [finished, same]⟩⟩
  · exact ⟨j, .inr ⟨_, f, later, cause, by rw [making, same], panics⟩⟩

end Machine

end AttachedState
