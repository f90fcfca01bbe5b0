import AttachedState.Proofs.References

/-!
Locks.  A thread that holds a registry lock has yet to give it back, and will give up a reference to
the registry only after that; so the registry of a lock that is held is in the world.
-/

namespace AttachedState

namespace Task

def unlocks : Task → Bool
  | unlock _ => true
  | _ => false

theorem unlocks_of_site? {task : Task} {site : Construction} (under : task.site? = some site) :
    task.unlocks = false := by
  cases task <;> cases under <;> rfl

end Task

-- The number of locks that some tasks give back.
def lockCount (tasks : List Task) : Nat := tasks.countP Task.unlocks

theorem lockCount_append (first later : List Task) :
    lockCount (first ++ later) = lockCount first + lockCount later := List.countP_append

theorem lockCount_cons_of_bare {task : Task} (bare : task.unlocks = false) (rest : List Task) :
    lockCount (task :: rest) = lockCount rest := by
  unfold lockCount
  rw [List.countP_cons, bare]
  rfl

theorem lockCount_unlock (r : RegistryId) (rest : List Task) :
    lockCount (.unlock r :: rest) = lockCount rest + 1 := by
  unfold lockCount
  rw [List.countP_cons]
  rfl

theorem lockCount_of_bare {tasks : List Task} (bare : ∀ task ∈ tasks, task.unlocks = false) :
    lockCount tasks = 0 := by
  apply List.countP_eq_zero.mpr
  intro task listed
  rw [bare task listed]
  exact Bool.false_ne_true

-- Whoever is to give a lock back is to give a reference to the registry up after that.
def Backed : List Task → Prop
  | [] => True
  | .unlock r :: rest => .releaseRegistry r ∈ rest ∧ Backed rest
  | _ :: rest => Backed rest

theorem backed_cons {task : Task} {rest : List Task} (bare : task.unlocks = false) :
    Backed (task :: rest) ↔ Backed rest := by
  cases task <;> first | rfl | cases bare

theorem backed_append {front rest : List Task} (bare : ∀ task ∈ front, task.unlocks = false) :
    Backed (front ++ rest) ↔ Backed rest := by
  induction front with
  | nil => rfl
  | cons task front ih =>
    rw [List.cons_append, backed_cons (bare task List.mem_cons_self)]
    exact ih fun task listed => bare task (List.mem_cons_of_mem _ listed)

theorem Backed.behind {tasks : List Task} {r : RegistryId} (backed : Backed tasks)
    (waits : .unlock r ∈ tasks) : .releaseRegistry r ∈ tasks := by
  induction tasks with
  | nil => cases waits
  | cons task rest ih =>
    rcases List.mem_cons.mp waits with rfl | later
    · exact List.mem_cons_of_mem _ backed.1
    · refine List.mem_cons_of_mem _ (ih ?_ later)
      cases task <;> first | exact backed.2 | exact backed

theorem Backed.insert {middle after : List Task} (bare : ∀ task ∈ middle, task.unlocks = false)
    (before : List Task) (backed : Backed (before ++ after)) : Backed (before ++ (middle ++ after)) := by
  induction before with
  | nil => exact (backed_append bare).mpr backed
  | cons task before ih =>
    rw [List.cons_append] at backed ⊢
    cases task with
    | unlock r =>
      obtain ⟨behind, later⟩ := backed
      refine ⟨?_, ih later⟩
      simp only [List.mem_append] at behind ⊢
      rcases behind with one | two
      · exact .inl one
      · exact .inr (.inr two)
    | _ => exact ih backed

namespace Scene

-- A thread holds as many locks as it has to give back, at most one; no other thread holds any.
structure Locks (s : Scene) : Prop where
  depth : ∀ t, (s.world.thread t).depth = if t = s.thread then lockCount s.tasks else 0
  one : lockCount s.tasks ≤ 1
  backed : Backed s.tasks

theorem locks_start (hashing : RegistryId → Handle → UInt64) : (start hashing).Locks := by
  refine ⟨?_, Nat.zero_le _, trivial⟩
  intro t
  have none_held : lockCount [] = 0 := rfl
  simp only [start, World.start, World.thread, Table.find?_put, Table.find?_empty, none_held, ite_self]
  split <;> rfl

theorem Locks.counted {s s' : Scene} (held : s.Locks)
    (depth : ∀ t, (s'.world.thread t).depth = (s.world.thread t).depth)
    (thread : s'.thread = s.thread) (count : lockCount s'.tasks = lockCount s.tasks)
    (backed : Backed s'.tasks) : s'.Locks := by
  refine ⟨?_, ?_, backed⟩
  · intro t
    rw [depth, thread, count]
    exact held.depth t
  · rw [count]
    exact held.one

-- Most moves change the tasks in front and take or give back no lock.
theorem Locks.bare {s s' : Scene} (held : s.Locks) {rest old new : List Task}
    (depth : ∀ t, (s'.world.thread t).depth = (s.world.thread t).depth) (thread : s'.thread = s.thread)
    (before : s.tasks = old ++ rest) (after : s'.tasks = new ++ rest)
    (bareOld : ∀ task ∈ old, task.unlocks = false) (bareNew : ∀ task ∈ new, task.unlocks = false) :
    s'.Locks := by
  have count : lockCount s'.tasks = lockCount s.tasks := by
    rw [before, after, lockCount_append, lockCount_append, lockCount_of_bare bareOld,
      lockCount_of_bare bareNew]
  apply held.counted depth thread count
  rw [after]
  apply (backed_append bareNew).mpr
  apply (backed_append bareOld).mp
  rw [← before]
  exact held.backed

end Scene

-- Or they put tasks that take or give back no lock somewhere in between.
theorem Scene.Locks.inserted {s s' : Scene} (held : s.Locks) {before middle after : List Task}
    (depth : ∀ t, (s'.world.thread t).depth = (s.world.thread t).depth) (thread : s'.thread = s.thread)
    (tasks : s.tasks = before ++ after) (tasks' : s'.tasks = before ++ middle ++ after)
    (bare : ∀ task ∈ middle, task.unlocks = false) : s'.Locks := by
  have count : lockCount s'.tasks = lockCount s.tasks := by
    rw [tasks, tasks', lockCount_append, lockCount_append, lockCount_append,
      lockCount_of_bare bare, Nat.add_zero]
  apply held.counted depth thread count
  rw [tasks', List.append_assoc]
  apply Backed.insert bare before
  rw [← tasks]
  exact held.backed

theorem Quiet.depth {w after : World} (change : Quiet w after) (t : ThreadId) :
    (after.thread t).depth = (w.thread t).depth := by
  rcases change.threads with same | ⟨u, new, put, depth, _⟩
  · unfold World.thread
    rw [same]
  · rw [World.thread_put put]
    split
    · rename_i here
      rw [here, depth]
    · rfl

theorem Move.locks {s s' : Scene} (held : s.Locks) (move : Move s s') : s'.Locks := by
  have drops : ∀ (b : BlockId) (h : Handle) (objects : List Object),
      ∀ task ∈ dropTasks b h objects, task.unlocks = false := by
    intro b h objects task listed
    obtain ⟨object, _, rfl⟩ := List.mem_map.mp listed
    rfl
  have named : ∀ {α : Type} (f : α → Task) (found : Option α), (∀ a, (f a).unlocks = false) →
      ∀ task ∈ (found.map f).toList, task.unlocks = false := by
    intro α f found bare task listed
    cases found with
    | none => cases listed
    | some a => rw [List.mem_singleton.mp listed, bare]
  have none_new : ∀ task ∈ ([] : List Task), task.unlocks = false :=
    List.forall_mem_nil _
  have one : ∀ {task : Task}, task.unlocks = false → ∀ other ∈ [task], other.unlocks = false := by
    intro task bare other listed
    rw [List.mem_singleton.mp listed, bare]
  cases move with
  | @turned _ t idle =>
    refine ⟨?_, ?_, ?_⟩
    · intro u
      rw [held.depth, idle]
      split <;> split <;> rfl
    · exact held.one
    · exact held.backed
  | quiet change => exact held.bare change.depth rfl rfl rfl none_new none_new
  | ended runs free =>
    refine held.bare (fun u => ?_) rfl rfl rfl none_new none_new
    rw [World.thread_erase rfl]
    split
    · rename_i here
      rw [here, World.thread_of_find? runs, free]
      rfl
    · rfl
  | @locked thread _ _ r runs free =>
    have none_held : lockCount s.tasks = 0 := by
      have mine := held.depth s.thread
      rw [World.thread_of_find? runs, free, if_pos rfl] at mine
      exact mine.symm
    have count : lockCount (.unlock r :: .releaseRegistry r :: s.tasks) = 1 := by
      rw [lockCount_unlock, lockCount_cons_of_bare rfl, none_held]
    refine ⟨?_, Nat.le_of_eq count, ?_⟩
    · intro t
      rw [World.thread_put rfl, count]
      split
      · rfl
      · rename_i other
        rw [held.depth t, if_neg other]
    · exact ⟨List.mem_cons_self, held.backed⟩
  | @unlocked rest thread _ _ r first runs =>
    have mine := held.depth s.thread
    have count := held.one
    have backed := held.backed
    rw [first, lockCount_unlock] at count
    rw [World.thread_of_find? runs, if_pos rfl, first, lockCount_unlock] at mine
    rw [first] at backed
    refine ⟨?_, Nat.le_of_succ_le count, backed.2⟩
    intro t
    rw [World.thread_put rfl]
    split
    · rw [mine]
      rfl
    · rename_i other
      rw [held.depth t, if_neg other]
  | opened | entitled | disowned =>
    exact held.bare (fun _ => rfl) rfl rfl rfl none_new none_new
  | shared | held => exact held.bare (fun _ => rfl) rfl rfl rfl none_new (named _ _ fun _ => rfl)
  | unnamed | retained | unheld | begun => exact held.bare (fun _ => rfl) rfl rfl rfl none_new (one rfl)
  | spared first | released first | dropped _ _ _ _ _ first =>
    exact held.bare (fun _ => rfl) rfl first rfl (one rfl) none_new
  | closed r registry rest first =>
    refine held.bare (fun _ => rfl) rfl first rfl (one rfl) ?_
    intro task listed
    obtain ⟨b, _, rfl⟩ := List.mem_map.mp listed
    rfl
  | fell b block rest first => exact held.bare (fun _ => rfl) rfl first rfl (one rfl) (drops _ _ _)
  | tried site f later rest first => exact held.bare (fun _ => rfl) rfl first rfl (one rfl) (one rfl)
  | made site f object rest first =>
    refine held.bare (fun _ => rfl) rfl first (List.append_cons _ _ _) (one rfl) ?_
    intro task listed
    rcases List.mem_append.mp listed with earlier | last
    · exact named _ _ (fun _ => rfl) task earlier
    · exact one rfl task last
  | abandoned task site rest first under =>
    refine held.bare (fun _ => rfl) rfl first (List.append_cons _ _ _)
      (one (Task.unlocks_of_site? under)) ?_
    intro task listed
    rcases List.mem_append.mp listed with earlier | last
    · exact drops _ _ _ task earlier
    · exact one rfl task last
  | enrolled site registry entry contexts rest first =>
    exact held.bare (fun _ => rfl) rfl first rfl (one rfl) (one rfl)
  | withdrawn g registry contexts front back before after hands tasks
  | orphaned g thread front back before after hands tasks =>
    refine held.inserted (fun _ => rfl) rfl tasks rfl ?_
    intro task listed
    simp only [World.guardTasks, List.mem_cons, List.not_mem_nil, or_false] at listed
    rcases listed with rfl | rfl <;> rfl

namespace Scene

theorem Arises.locks {hashing : RegistryId → Handle → UInt64} {s : Scene}
    (arisen : Arises hashing s) : s.Locks := by
  induction arisen with
  | refl => exact locks_start hashing
  | tail before move ih => exact move.locks ih

-- The registry of a lock that is about to be given back is in the world.
theorem Locks.registry {s : Scene} (held : s.Locks) (live : s.Live) {r : RegistryId}
    {rest : List Task} (first : s.tasks = .unlock r :: rest) :
    ∃ registry, s.world.registries.find? r = some registry := by
  have listed := held.backed.behind (first ▸ List.mem_cons_self)
  exact live.registry_of_task listed (by simp [Task.refersToRegistry_eq])

end Scene

/-! Marks.  A registry that is marked as held is one whose lock the thread at work has to give back. -/

namespace World

def Marked (w : World) (r : RegistryId) (t : ThreadId) : Prop :=
  ∃ registry, w.registries.find? r = some registry ∧ registry.holder = some t

theorem Marked.of_put {w after : World} {r marked : RegistryId} {t : ThreadId} {changed : Registry}
    (put : after.registries = w.registries.put r changed) (free : changed.holder = none)
    (held : after.Marked marked t) : marked ≠ r ∧ w.Marked marked t := by
  obtain ⟨registry, found, holder⟩ := held
  rw [put, Table.find?_put] at found
  split at found
  · cases found
    rw [free] at holder
    cases holder
  · rename_i other
    exact ⟨other, registry, found, holder⟩

end World

theorem Quiet.marked {w after : World} {r : RegistryId} {t : ThreadId} (change : Quiet w after)
    (held : after.Marked r t) : w.Marked r t := by
  cases change with
  | noted | filed | started | looked | left | pruned | hit | direct | forgot | gone => exact held
  | asked | attached | resolved | detached => exact (World.Marked.of_put rfl rfl held).2

namespace Scene

def Marks (s : Scene) : Prop :=
  ∀ r t, s.world.Marked r t → t = s.thread ∧ .unlock r ∈ s.tasks

theorem Marks.kept {s s' : Scene} (marks : s.Marks)
    (marked : ∀ r t, s'.world.Marked r t → s.world.Marked r t) (thread : s'.thread = s.thread)
    (tasks : ∀ r, .unlock r ∈ s.tasks → .unlock r ∈ s'.tasks) : s'.Marks := by
  intro r t held
  obtain ⟨here, waits⟩ := marks r t (marked r t held)
  exact ⟨here.trans thread.symm, tasks r waits⟩

end Scene

theorem Move.marks {s s' : Scene} (marks : s.Marks) (move : Move s s') : s'.Marks := by
  have behind : ∀ (new : List Task) {task : Task} {rest : List Task}, s.tasks = task :: rest →
      task.unlocks = false → ∀ r, .unlock r ∈ s.tasks → Task.unlock r ∈ new ++ rest := by
    intro new task rest first bare r waits
    rw [first] at waits
    rcases List.mem_cons.mp waits with here | later
    · rw [← here] at bare
      cases bare
    · exact List.mem_append_right _ later
  have between : ∀ {before middle after : List Task}, s.tasks = before ++ after →
      ∀ r, .unlock r ∈ s.tasks → Task.unlock r ∈ before ++ middle ++ after := by
    intro before middle after tasks r waits
    rw [tasks] at waits
    rcases List.mem_append.mp waits with one | two
    · exact List.mem_append_left _ (List.mem_append_left _ one)
    · exact List.mem_append_right _ two
  cases move with
  | turned idle =>
    intro r t held
    have waits := (marks r t held).2
    rw [idle] at waits
    cases waits
  | quiet change => exact marks.kept (fun _ _ held => change.marked held) rfl fun _ waits => waits
  | locked runs free live =>
    rename_i r
    intro marked t held
    obtain ⟨registry, found, holder⟩ := held
    simp only [World.setRegistry, Table.find?_put] at found
    split at found
    · rename_i here
      cases found
      cases holder
      exact ⟨rfl, by rw [here]; exact List.mem_cons_self⟩
    · obtain ⟨here, waits⟩ := marks marked t ⟨registry, found, holder⟩
      exact ⟨here, List.mem_cons_of_mem _ (List.mem_cons_of_mem _ waits)⟩
  | unlocked first runs live =>
    rename_i r
    intro marked t held
    obtain ⟨other, before⟩ := World.Marked.of_put rfl rfl held
    obtain ⟨here, waits⟩ := marks marked t before
    rw [first] at waits
    rcases List.mem_cons.mp waits with same | later
    · cases same
      exact absurd rfl other
    · exact ⟨here, later⟩
  | ended | opened | entitled | disowned =>
    refine marks.kept (fun r t held => ?_) rfl fun _ waits => waits
    first | exact held | exact (World.Marked.of_put (by rfl) (by rfl) held).2
  | shared | unnamed | retained | held | unheld | begun =>
    refine marks.kept (fun _ _ held => held) rfl fun _ waits => ?_
    first | exact List.mem_append_right _ waits | exact List.mem_cons_of_mem _ waits
  | spared first | released first | dropped _ _ _ _ _ first =>
    exact marks.kept (fun _ _ held => held) rfl (behind [] first rfl)
  | closed r registry rest first =>
    refine marks.kept (fun marked t held => ?_) rfl (behind _ first rfl)
    obtain ⟨present, found, holder⟩ := held
    simp only [Table.find?_erase] at found
    split at found
    · cases found
    · exact ⟨present, found, holder⟩
  | fell b block rest first => exact marks.kept (fun _ _ held => held) rfl (behind _ first rfl)
  | tried site f later rest first =>
    exact marks.kept (fun _ _ held => held) rfl (behind [_] first rfl)
  | made site f object rest first =>
    refine marks.kept (fun _ _ held => held) rfl fun r waits => ?_
    exact List.mem_append_right _ (behind [_] first rfl r waits)
  | abandoned task site rest first under =>
    refine marks.kept (fun _ _ held => held) rfl fun r waits => ?_
    exact List.mem_append_right _ (behind [_] first (Task.unlocks_of_site? under) r waits)
  | enrolled site registry entry contexts rest first =>
    refine marks.kept (fun _ _ held => ?_) rfl (behind [_] first rfl)
    exact (World.Marked.of_put (by rfl) (by rfl) held).2
  | withdrawn g registry contexts front back before after hands tasks =>
    refine marks.kept (fun _ _ held => ?_) rfl (between tasks)
    exact (World.Marked.of_put (by rfl) (by rfl) held).2
  | orphaned g thread front back before after hands tasks =>
    exact marks.kept (fun _ _ held => held) rfl (between tasks)

theorem Scene.Arises.marks {hashing : RegistryId → Handle → UInt64} {s : Scene}
    (arisen : Arises hashing s) : s.Marks := by
  induction arisen with
  | refl =>
    rintro r t ⟨registry, found, holder⟩
    simp only [start, World.start, Table.find?_put, Table.find?_empty] at found
    split at found <;> cases found
    cases holder
  | tail before move ih => exact move.marks ih

end AttachedState
