import AttachedState.Proofs.Lockouts

/-!
Reentrancy.  A thread is at work inside host code that is shown a registry, or it holds no lock at
all; only in the former case is anything refused to it for the lock it holds, and whatever it does,
it holds as many locks afterwards as before.
-/

namespace AttachedState

open Scene

-- Every refusal of a lock that is to be told has a lock behind it that is to be given back.
def Fenced : List Task → Prop
  | [] => True
  | task :: rest => (task.lockedOut = true → lockCount rest ≠ 0) ∧ Fenced rest

theorem fenced_append {front rest : List Task}
    (silent : lockCount rest = 0 → ∀ task ∈ front, task.lockedOut = false) (fenced : Fenced rest) :
    Fenced (front ++ rest) := by
  induction front with
  | nil => exact fenced
  | cons task front ih =>
    refine ⟨fun lockedOut none_held => ?_, ih fun none_held other listed =>
      silent none_held other (List.mem_cons_of_mem _ listed)⟩
    have none_behind : lockCount rest = 0 :=
      Nat.eq_zero_of_add_eq_zero_left ((lockCount_append front rest).symm.trans none_held)
    have clear := silent none_behind task List.mem_cons_self
    rw [clear] at lockedOut
    cases lockedOut

theorem lockCount_eq_zero {tasks : List Task} :
    lockCount tasks = 0 ↔ ∀ r, Task.unlock r ∉ tasks := by
  unfold lockCount
  rw [List.countP_eq_zero]
  constructor
  · exact fun bare r waits => bare _ waits rfl
  · intro bare task listed unlocks
    cases task <;> first | exact bare _ listed | cases unlocks

theorem exists_unlock {tasks : List Task} (held : lockCount tasks ≠ 0) :
    ∃ r, Task.unlock r ∈ tasks := by
  by_contra none_waits
  exact held (lockCount_eq_zero.mpr fun r waits => none_waits ⟨r, waits⟩)

theorem unlocks_of_behind {task : Task} {later : List Task} {r : RegistryId}
    (one : lockCount (task :: later) ≤ 1) (waits : .unlock r ∈ later) : task.unlocks = false := by
  cases task with
  | unlock =>
    rw [lockCount_unlock] at one
    exact absurd waits (lockCount_eq_zero.mp (Nat.le_zero.mp (Nat.le_of_succ_le_succ one)) r)
  | _ => rfl

namespace Event

-- Tells that something was refused to a thread for the lock it held.
def refuses (e : Event) : Bool := e.lockedOut || e.orphan?.isSome

end Event

theorem World.silent_of_same {w after : World} {told : List Event}
    (journal : after.journal = told ++ w.journal) (lockouts : after.lockouts = w.lockouts)
    (orphans : after.orphans = w.orphans) : ∀ e ∈ told, e.refuses = false := by
  unfold World.lockouts at lockouts
  unfold World.orphans at orphans
  rw [journal, List.filter_append, List.append_left_eq_self, List.filter_eq_nil_iff] at lockouts
  rw [journal, List.filterMap_append, List.append_left_eq_self, List.filterMap_eq_nil_iff] at orphans
  intro e listed
  rw [Event.refuses, orphans e listed, eq_false_of_ne_true (lockouts e listed)]
  rfl

theorem Scene.Arises.journal_grows {hashing : RegistryId → Handle → UInt64} {s s' : Scene}
    (arisen : Arises hashing s) (moves : Moves s s') :
    ∃ told, s'.world.journal = told ++ s.world.journal := by
  induction moves with
  | refl => exact ⟨[], rfl⟩
  | tail before move ih =>
    obtain ⟨told, journal⟩ := ih
    have tidy := Arises.tidy (Relation.ReflTransGen.trans arisen before)
    obtain ⟨more, grown⟩ := (move.shift tidy).journal_grows
    exact ⟨more ++ told, by rw [grown, journal, List.append_assoc]⟩

theorem Scene.Arises.still {hashing : RegistryId → Handle → UInt64} {s s' : Scene}
    (arisen : Arises hashing s) (moves : Moves s s') {e : Event} (listed : e ∈ s.world.journal) :
    e ∈ s'.world.journal := by
  obtain ⟨told, journal⟩ := arisen.journal_grows moves
  rw [journal]
  exact List.mem_append_right _ listed

-- No command begins inside a lock, nor with a refusal.
theorem World.tasks_machineFor (w : World) (command : Command) :
    ∀ task ∈ (w.machineFor command).tasks, task.unlocks = false ∧ task.lockedOut = false := by
  intro task listed
  cases command with
  | act t action =>
    rw [List.mem_singleton.mp listed]
    exact ⟨rfl, rfl⟩
  | endThread name =>
    simp only [machineFor] at listed
    split at listed
    · rename_i thread _
      obtain ⟨front, _, only, tasks⟩ := Machine.exitTasks_eq thread
      rw [tasks] at listed
      simp only [List.mem_append, List.mem_cons, List.not_mem_nil, or_false] at listed
      rcases listed with early | rfl | rfl
      · rcases only task early with rfl | ⟨retrieval, rfl⟩ <;> exact ⟨rfl, rfl⟩
      · exact ⟨rfl, rfl⟩
      · exact ⟨rfl, rfl⟩
    · rw [List.mem_singleton.mp listed]
      exact ⟨rfl, rfl⟩

theorem World.thread_machineFor (w : World) (command : Command) (u : ThreadId) :
    (w.machineFor command).world.thread u = w.thread u := by
  cases command with
  | act t action => exact w.thread_startThread t u
  | endThread name =>
    simp only [machineFor]
    split <;> rfl

namespace Machine

variable {hashing : RegistryId → Handle → UInt64} {m : Machine} {task : Task} {later : List Task}
  {r : RegistryId}

theorem Reached.depth (reached : m.Reached hashing) (t : ThreadId) :
    (m.world.thread t).depth = if t = m.thread then lockCount m.tasks else 0 := by
  have depth := (Arises.locks reached.arises).depth t
  rwa [scene, lockCount_bearing] at depth

theorem Reached.one (reached : m.Reached hashing) : lockCount m.tasks ≤ 1 := by
  have one := (Arises.locks reached.arises).one
  rwa [scene, lockCount_bearing] at one

theorem Reached.free (reached : m.Reached hashing) (bare : lockCount m.tasks = 0) :
    (m.world.thread m.thread).depth = 0 := by
  rw [reached.depth, if_pos rfl, bare]

/-! Steps. -/

-- What is done first by a task that neither takes a lock nor gives one back does neither.
theorem Reached.bare_first (reached : m.Reached hashing) (tasks : m.tasks = task :: later)
    (ordinary : task.turns = false) : lockCount (m.world.take m.thread later task).2 = 0 := by
  have arisen := reached.arises_cons tasks
  rcases reached.steady.runs with runs | answers
  · have taken := World.take_taken arisen runs reached.steady.outside ordinary
      (reached.steady.dropMemos_free reached.arises tasks)
    have before := (Arises.locks arisen).depth m.thread
    have after := (Arises.locks reached.step.arises).depth m.thread
    have depth := taken.passes.depth
    have bare : task.unlocks = false := by
      cases task <;> first | rfl | cases ordinary
    rw [step_of_cons tasks, scene, if_pos rfl, lockCount_bearing, lockCount_append] at after
    rw [if_pos rfl, lockCount_bearing, lockCount_cons_of_bare bare] at before
    simp only at depth after before
    omega
  · rw [tasks] at answers
    have now := answers task List.mem_cons_self
    cases task <;> first | rfl | cases now

theorem Reached.marked (reached : m.Reached hashing) {t : ThreadId} (marked : m.world.Marked r t) :
    t = m.thread ∧ .unlock r ∈ m.tasks := by
  obtain ⟨here, waits⟩ := Arises.marks reached.arises r t marked
  exact ⟨here, List.mem_of_mem_filter waits⟩

-- The reference to a registry that is held goes after its lock.
theorem Reached.kept (reached : m.Reached hashing) (tasks : m.tasks = task :: later)
    (drops : task = .releaseRegistry r) (marked : m.world.Marked r m.thread) :
    .releaseRegistry r ∈ later := by
  subst drops
  have waits := (reached.marked marked).2
  have backed := (Arises.locks reached.arises).backed
  rw [scene, tasks] at backed
  rw [tasks] at waits
  have waitsLater : Task.unlock r ∈ bearing later := by
    rcases List.mem_cons.mp waits with here | behind
    · cases here
    · exact List.mem_filter.mpr ⟨behind, rfl⟩
  exact List.mem_of_mem_filter (((backed_cons rfl).mp backed).behind waitsLater)

theorem Reached.undisturbed (reached : m.Reached hashing) (tasks : m.tasks = task :: later)
    (ordinary : task.turns = false)
    (other : (m.world.thread m.thread).depth = 0 → task.lockedOut = false) :
    m.world.Undisturbed m.thread (m.world.take m.thread later task) := by
  rcases reached.steady.runs with runs | answers
  · exact World.take_undisturbed (reached.arises_cons tasks) runs reached.steady.outside ordinary other
      fun _ drops => reached.kept tasks drops
  · rw [tasks] at answers
    have now := answers task List.mem_cons_self
    cases task with
    | answer asked given => exact .mk (.tell (.refl _ _) other) fun _ => List.forall_mem_nil _
    | _ => cases now

theorem Reached.unrefused (reached : m.Reached hashing) (tasks : m.tasks = task :: later)
    (other : task.lockedOut = false) :
    m.world.Unrefused m.thread (m.world.take m.thread later task) := by
  cases turns : task.turns with
  | false => exact (reached.undisturbed tasks turns fun _ => other).unrefused
  | true => exact World.turn_unrefused turns

-- The tasks that take or give back a lock, or end the thread, put nothing in front but the first.
theorem first_of_turns (turns : task.turns = true) (w : World) (t : ThreadId) :
    (w.take t later task).2 = [] ∨
      ∃ nested name actions, task = .perform nested (.whileLocked name actions) := by
  cases task with
  | perform nested action =>
    cases action with
    | whileLocked name actions => exact .inr ⟨nested, name, actions, rfl⟩
    | operate | create => cases turns
  | unlock | endThread => exact .inl rfl
  | _ => cases turns

theorem Reached.fenced (reached : m.Reached hashing) : Fenced m.tasks := by
  induction reached with
  | refl => trivial
  | @tail m _ before next ih =>
    have reached : m.Reached hashing := before
    cases next with
    | told =>
      rw [← List.append_nil (World.machineFor _ _).tasks]
      exact fenced_append (fun _ task listed => (World.tasks_machineFor _ _ task listed).2) trivial
    | step =>
      cases tasks : m.tasks with
      | nil =>
        rw [step_of_nil tasks]
        exact ih
      | cons task later =>
        rw [tasks] at ih
        obtain ⟨fence, behind⟩ := ih
        rw [step_of_cons tasks]
        refine fenced_append (fun none_held new listed => ?_) behind
        have other : task.lockedOut = false := eq_false_of_ne_true fun lockedOut =>
          fence lockedOut none_held
        cases unlocks : task.unlocks with
        | true =>
          cases task <;> first | cases listed | cases unlocks
        | false =>
          refine (reached.unrefused tasks other).tasks (reached.free ?_) new listed
          rw [tasks, lockCount_cons_of_bare unlocks, none_held]

theorem Reached.untold (reached : m.Reached hashing) (tasks : m.tasks = task :: later)
    (bare : lockCount m.tasks = 0) : task.lockedOut = false := by
  have fenced := reached.fenced
  rw [tasks] at fenced bare
  have none_behind : lockCount later = 0 := by
    have split := lockCount_append [task] later
    rw [List.singleton_append, bare] at split
    exact Nat.eq_zero_of_add_eq_zero_left split.symm
  exact eq_false_of_ne_true fun lockedOut => fenced.1 lockedOut none_behind

-- What a step of a thread that holds no lock tells of is no refusal.
theorem Reached.silent_step (reached : m.Reached hashing) (bare : lockCount m.tasks = 0)
    {told : List Event} (journal : m.step.world.journal = told ++ m.world.journal) :
    ∀ e ∈ told, e.refuses = false := by
  cases tasks : m.tasks with
  | nil =>
    rw [step_of_nil tasks] at journal
    exact World.silent_of_same journal rfl rfl
  | cons task later =>
    refine World.silent_of_same journal ?_
      (reached.steady.step_orphans reached.arises (reached.free bare))
    have silent := (reached.unrefused tasks (reached.untold tasks bare)).silent
    rw [step_of_cons tasks]
    exact silent (reached.free bare)

/-! Inside host code that is shown a registry. -/

-- The machine is at work on what `before` was told to perform while a registry is shown: since then
-- the lock waited to be given back, then the reference to the registry, then the answer.
def Inside (before : Machine) (r : RegistryId) (m : Machine) : Prop :=
  ∃ nested name actions rest n,
    before.tasks = .perform nested (.whileLocked name actions) :: rest ∧
    before.world.registryNamed? name = some r ∧ m = before.steps (n + 1) ∧
    ∀ k ≤ n, ∃ front, (before.steps (k + 1)).tasks = front ++ .unlock r :: .releaseRegistry r ::
      .answer (if nested then some (.whileLocked name actions) else none) .done :: rest

-- It stays inside until it gives the lock back.
theorem Inside.step {before : Machine} (inside : Inside before r m) (tasks : m.tasks = task :: later)
    (waits : .unlock r ∈ later) (one : lockCount m.tasks ≤ 1) : Inside before r m.step := by
  obtain ⟨nested, name, actions, rest, n, told, named, here, behind⟩ := inside
  refine ⟨nested, name, actions, rest, n + 1, told, named, by rw [here, ← steps_succ], ?_⟩
  intro k within
  rcases Nat.lt_or_eq_of_le within with less | rfl
  · exact behind k (Nat.le_of_lt_succ less)
  · obtain ⟨front, now⟩ := behind n (Nat.le_refl n)
    rw [steps_succ, ← here, step_of_cons tasks]
    rw [← here, tasks] at now
    cases front with
    | nil =>
      -- The lock is given back now, so there is no other to be given back later.
      cases now
      rw [tasks] at one
      cases unlocks_of_behind one waits
    | cons first front =>
      cases now
      exact ⟨_ ++ front, (List.append_assoc _ _ _).symm⟩

theorem inside_whileLocked {nested : Bool} {name : Name} {actions : List Action}
    (tasks : m.tasks = .perform nested (.whileLocked name actions) :: later)
    (waits : .unlock r ∈ (m.world.take m.thread later (.perform nested (.whileLocked name actions))).2) :
    Inside m r m.step := by
  have stepped := step_of_cons tasks
  simp only [World.take, World.perform] at waits stepped
  split at waits
  · simp at waits
  · rename_i shown named
    rw [named] at stepped
    simp only at stepped waits
    split at waits
    · simp at waits
    · rename_i taken
      rw [taken] at stepped
      have same : r = shown := by simpa using waits
      subst same
      refine ⟨nested, name, actions, later, 0, tasks, named, rfl, fun k within => ?_⟩
      rw [Nat.le_zero.mp within]
      refine ⟨actions.map (.perform true), ?_⟩
      show m.step.tasks = _
      rw [stepped, List.append_assoc]
      rfl

-- A lock that has to be given back was taken to show a registry to host code.
theorem Reached.taken (reached : m.Reached hashing) (tasks : m.tasks = task :: later)
    (new : .unlock r ∈ (m.world.take m.thread later task).2) :
    ∃ nested name actions, task = .perform nested (.whileLocked name actions) := by
  cases turns : task.turns with
  | false => exact absurd new (lockCount_eq_zero.mp (reached.bare_first tasks turns) r)
  | true =>
    rcases first_of_turns turns m.world m.thread with none_first | shows
    · rw [none_first] at new
      cases new
    · exact shows

theorem Reached.inside (reached : m.Reached hashing) (waits : .unlock r ∈ m.tasks) :
    ∃ before : Machine, before.Reached hashing ∧ Inside before r m := by
  induction reached with
  | refl => cases waits
  | @tail m _ before next ih =>
    have reached : m.Reached hashing := before
    cases next with
    | told => cases (World.tasks_machineFor _ _ _ waits).1
    | step =>
      cases tasks : m.tasks with
      | nil =>
        rw [step_of_nil tasks] at waits ⊢
        exact ih waits
      | cons task later =>
        rw [step_of_cons tasks] at waits
        rcases List.mem_append.mp waits with new | old
        · obtain ⟨nested, name, actions, rfl⟩ := reached.taken tasks new
          exact ⟨m, reached, inside_whileLocked tasks new⟩
        · obtain ⟨start, begun, inside⟩ := ih (by rw [tasks]; exact List.mem_cons_of_mem _ old)
          exact ⟨start, begun, inside.step tasks old reached.one⟩

-- A thread that is inside holds one lock, that of the registry it is shown.
theorem Reached.only (reached : m.Reached hashing) {other : RegistryId} (waits : .unlock r ∈ m.tasks)
    (waitsToo : .unlock other ∈ m.tasks) : other = r := by
  have one := reached.one
  obtain ⟨front, rest, tasks⟩ := List.append_of_mem waits
  rw [tasks] at one waitsToo
  have split := lockCount_append front (.unlock r :: rest)
  rw [lockCount_unlock] at split
  rcases List.mem_append.mp waitsToo with before | after
  · exact absurd before (lockCount_eq_zero.mp (by omega) other)
  · rcases List.mem_cons.mp after with here | behind
    · cases here
      rfl
    · exact absurd behind (lockCount_eq_zero.mp (by omega) other)

/-! Marks. -/

theorem Reached.calm (reached : m.Reached hashing) (tasks : m.tasks = task :: later)
    (ordinary : task.turns = false) :
    World.Calm m.thread m.world (m.world.take m.thread later task).1 := by
  refine (reached.undisturbed tasks ordinary fun free => reached.untold tasks ?_).calm
  rw [← free, reached.depth, if_pos rfl]

-- Of the threads of races nothing is left between two steps.
theorem Reached.alone (reached : m.Reached hashing) : m.world.Alone m.thread := by
  induction reached with
  | refl => exact fun n => ⟨nofun, rfl⟩
  | @tail m _ before next ih =>
    have reached : m.Reached hashing := before
    have steady := Reached.steady (before.tail next)
    cases next with
    | told => exact fun n => ⟨steady.outside n, by rw [World.thread_machineFor, (ih n).2]⟩
    | step =>
      cases tasks : m.tasks with
      | nil =>
        rw [step_of_nil tasks]
        exact ih
      | cons task later =>
        rw [step_of_cons tasks]
        cases turns : task.turns with
        | false => exact (reached.calm tasks turns).alone ih
        | true => exact ih.of_others (World.turn_others turns)

-- From when the lock of a registry is taken until it is given back, the registry is marked as held.
theorem Reached.held (reached : m.Reached hashing) (waits : .unlock r ∈ m.tasks) :
    m.world.Marked r m.thread := by
  induction reached with
  | refl => cases waits
  | @tail m _ before next ih =>
    have reached : m.Reached hashing := before
    cases next with
    | told => cases (World.tasks_machineFor _ _ _ waits).1
    | step =>
      cases tasks : m.tasks with
      | nil =>
        rw [step_of_nil tasks] at waits ⊢
        exact ih waits
      | cons task later =>
        rw [step_of_cons tasks] at waits ⊢
        rcases List.mem_append.mp waits with new | old
        · obtain ⟨nested, name, actions, rfl⟩ := reached.taken tasks new
          exact World.marked_whileLocked new
        · have marked := ih (by rw [tasks]; exact List.mem_cons_of_mem _ old)
          have holds : (m.world.thread m.thread).depth ≠ 0 := by
            rw [reached.depth, if_pos rfl, tasks]
            exact fun bare => lockCount_eq_zero.mp bare r (List.mem_cons_of_mem _ old)
          cases turns : task.turns with
          | false => exact (reached.calm tasks turns).marks reached.alone holds r marked
          | true =>
            have one := reached.one
            rw [tasks] at one
            have same : (m.world.take m.thread later task).1.registries = m.world.registries :=
              World.turn_registries turns (unlocks_of_behind one old) holds
            exact marked.of_find? (by rw [same])

-- An event that was told, some time ago, by a step inside.
def ToldInside (hashing : RegistryId → Handle → UInt64) (e : Event) (m : Machine) : Prop :=
  ∃ (before earlier : Machine) (r : RegistryId) (told : List Event),
    before.Reached hashing ∧ Inside before r earlier ∧ Later earlier.step m ∧
    earlier.step.world.journal = told ++ earlier.world.journal ∧ e ∈ told

-- Whatever was refused for a lock was refused inside.
theorem Reached.refused (reached : m.Reached hashing) {e : Event} (listed : e ∈ m.world.journal)
    (refuses : e.refuses = true) : ToldInside hashing e m := by
  induction reached with
  | refl => cases listed
  | @tail m _ before next ih =>
    have reached : m.Reached hashing := before
    -- What was told before stays told.
    have further : ∀ {after : Machine}, Next m after → e ∈ m.world.journal →
        ToldInside hashing e after := by
      intro after next old
      obtain ⟨start, earlier, r, told, begun, inside, later, rest⟩ := ih old
      exact ⟨start, earlier, r, told, begun, inside, later.tail next, rest⟩
    cases next with
    | told idle ofSession =>
      rw [World.journal_machineFor] at listed
      exact further (.told idle ofSession) listed
    | step =>
      obtain ⟨told, journal⟩ := Arises.journal_grows reached.arises
        (reached.steady.step reached.arises).1
      have journal : m.step.world.journal = told ++ m.world.journal := journal
      rw [journal] at listed
      rcases List.mem_append.mp listed with new | old
      · have held : lockCount m.tasks ≠ 0 := fun bare => by
          rw [reached.silent_step bare journal e new] at refuses
          cases refuses
        obtain ⟨r, waits⟩ := exists_unlock held
        obtain ⟨start, begun, inside⟩ := reached.inside waits
        exact ⟨start, m, r, told, begun, inside, .refl, journal, new⟩
      · exact further (.step m) old

/-! Sessions in which no registry is shown to host code. -/

def Shows (m : Machine) : Prop :=
  ∃ nested name actions rest, m.tasks = .perform nested (.whileLocked name actions) :: rest

abbrev Bare (before after : Machine) : Prop :=
  Relation.ReflTransGen (fun m next => Next m next ∧ ¬ m.Shows) before after

theorem Bare.reached (bare : Bare ⟨.start hashing, .main, []⟩ m) : m.Reached hashing :=
  Relation.ReflTransGen.mono (fun _ _ step => step.1) _ _ bare

theorem Bare.unheld (bare : Bare ⟨.start hashing, .main, []⟩ m) :
    lockCount m.tasks = 0 ∧ ∀ e ∈ m.world.journal, e.refuses = false := by
  induction bare with
  | refl => exact ⟨rfl, List.forall_mem_nil _⟩
  | @tail m _ before step ih =>
    have reached := Bare.reached before
    obtain ⟨unheld, silent⟩ := ih
    obtain ⟨next, hides⟩ := step
    cases next with
    | told =>
      refine ⟨lockCount_of_bare fun task listed => (World.tasks_machineFor _ _ task listed).1, ?_⟩
      rw [World.journal_machineFor]
      exact silent
    | step =>
      refine ⟨?_, ?_⟩
      · cases tasks : m.tasks with
        | nil =>
          rw [step_of_nil tasks]
          exact unheld
        | cons task later =>
          have split := lockCount_append [task] later
          rw [tasks] at unheld
          rw [List.singleton_append, unheld] at split
          rw [step_of_cons tasks, lockCount_append, Nat.eq_zero_of_add_eq_zero_left split.symm]
          cases turns : task.turns with
          | false => exact reached.bare_first tasks turns
          | true =>
            rcases first_of_turns turns m.world m.thread with none_first | ⟨nested, name, actions, rfl⟩
            · rw [none_first]
              rfl
            · exact absurd ⟨nested, name, actions, later, tasks⟩ hides
      · obtain ⟨told, journal⟩ := Arises.journal_grows reached.arises
          (reached.steady.step reached.arises).1
        have journal : m.step.world.journal = told ++ m.world.journal := journal
        rw [journal]
        intro e listed
        rcases List.mem_append.mp listed with new | old
        · exact reached.silent_step unheld journal e new
        · exact silent e old

end Machine

/-! Answers.  An action that was begun is answered, whatever it came to. -/

-- The last task of an action that is to be answered.
def Task.Answering (asked : Option Action) : Task → Prop
  | perform nested action => (if nested then some action else none) = asked
  | construct site | make site _ => site.nested = asked
  | answer nested _ => nested = asked
  | _ => False

namespace World

variable {w after : World} {t : ThreadId} {asked : Option Action} {task : Task} {later : List Task}

theorem beginCreation_nested {creation : Creation} {supplies : List (Supply Action)}
    {site : Construction} (begun : w.beginCreation t asked creation supplies = (.ok site, after)) :
    site.nested = asked := by
  unfold beginCreation at begun
  repeat' split at begun
  all_goals simp only [Prod.mk.injEq, reduceCtorEq, false_and, Except.ok.injEq] at begun
  obtain ⟨rfl, _⟩ := begun
  rfl

theorem close_answering (site : Construction) (front : List Task) (answer : Answer) :
    ∃ before, front ++ site.close answer = before ++ [.answer site.nested answer] :=
  ⟨front ++ [.releaseRegistry site.registry], by rw [List.append_assoc]; rfl⟩

theorem register_answering (w : World) (t : ThreadId) (site : Construction) :
    ∃ front given, (w.register t site).2 = front ++ [.answer site.nested given] := by
  have closed : ∀ front given, ∃ before last,
      front ++ site.close given = before ++ [.answer site.nested last] := fun front given =>
    ⟨_, _, (close_answering site front given).choose_spec⟩
  unfold register
  split
  · exact closed _ _
  · exact closed _ _
  · simp only
    split
    · exact closed _ _
    · split <;> exact closed [] _

-- A task that is to be answered leaves one such task, the last of what it leaves.
theorem take_answering (w : World) (t : ThreadId) (later : List Task)
    (answering : task.Answering asked) :
    (∃ given, task = .answer asked given) ∨
    ∃ front last, (w.take t later task).2 = front ++ [last] ∧ last.Answering asked := by
  have last : ∀ (front : List Task) {task : Task}, task.Answering asked →
      ∃ before last, front ++ [task] = before ++ [last] ∧ last.Answering asked :=
    fun _ _ answering => ⟨_, _, rfl, answering⟩
  cases task with
  | perform nested action =>
    refine .inr ?_
    cases action with
    | operate operation => exact last _ answering
    | create creation supplies =>
      simp only [take, perform]
      split
      · exact last [] answering
      · rename_i begun
        exact last [] ((beginCreation_nested begun).trans answering)
    | whileLocked name actions =>
      simp only [take, perform]
      split
      · exact last [] answering
      · split
        · exact last [] answering
        · rename_i r _ _ _ _
          exact ⟨actions.map (.perform true) ++ [.unlock r, .releaseRegistry r], .answer _ .done,
            by rw [List.append_assoc]; rfl, answering⟩
  | construct site =>
    refine .inr ?_
    simp only [take, construct]
    split
    · obtain ⟨front, given, tasks⟩ := register_answering w t site
      exact ⟨front, _, tasks, answering⟩
    · exact last _ answering
  | make site f =>
    refine .inr ?_
    simp only [take, make]
    split
    · obtain ⟨before, closed⟩ := close_answering site _ _
      exact ⟨before, _, closed, answering⟩
    · split
      · exact last [] answering
      · exact last [_, _] answering
  | answer nested given =>
    cases answering
    exact .inl ⟨given, rfl⟩
  | _ => cases answering

end World

namespace Machine

variable {hashing : RegistryId → Handle → UInt64} {m : Machine} {task : Task} {later : List Task}
  {r : RegistryId}

-- Induction on the work that is left: before the answer is given, the tasks in front of it are done.
theorem answered (front : List Task) {rest : List Task} {asked : Option Action}
    (tasks : m.tasks = front ++ task :: rest) (answering : task.Answering asked) :
    ∃ n given, (m.steps n).tasks = .answer asked given :: rest ∧
      ∀ k ≤ n, ∃ first, first ≠ [] ∧ (m.steps k).tasks = first ++ rest := by
  induction bound : m.work using Nat.strongRecOn generalizing m front task with
  | _ work ih =>
    have busy : m.tasks ≠ [] := by simp [tasks]
    have less := work_step_lt busy
    rw [bound] at less
    have here : ∃ first, first ≠ [] ∧ m.tasks = first ++ rest :=
      ⟨front ++ [task], by simp, by rw [tasks, List.append_assoc]; rfl⟩
    have further : (∃ n given, (m.step.steps n).tasks = .answer asked given :: rest ∧
        ∀ k ≤ n, ∃ first, first ≠ [] ∧ (m.step.steps k).tasks = first ++ rest) →
        ∃ n given, (m.steps n).tasks = .answer asked given :: rest ∧
          ∀ k ≤ n, ∃ first, first ≠ [] ∧ (m.steps k).tasks = first ++ rest := by
      rintro ⟨n, given, done, between⟩
      refine ⟨n + 1, given, done, fun k within => ?_⟩
      cases k with
      | zero => exact here
      | succ k => exact between k (Nat.le_of_succ_le_succ within)
    cases front with
    | nil =>
      rcases m.world.take_answering m.thread rest answering with
        ⟨given, rfl⟩ | ⟨before, last, left, still⟩
      · refine ⟨0, given, tasks, fun k within => ?_⟩
        rw [Nat.le_zero.mp within]
        exact here
      · have stepped : m.step.tasks = before ++ last :: rest := by
          rw [step_of_cons tasks, left, List.append_assoc]
          rfl
        exact further (ih _ less before stepped still rfl)
    | cons first front =>
      obtain ⟨more, stepped⟩ := step_behind tasks
      exact further (ih _ less more stepped answering rfl)

-- A machine that came as far as the tasks behind has given back what it took since.
theorem Reached.depth_steps (reached : m.Reached hashing) {n : Nat}
    (count : lockCount (m.steps n).tasks = lockCount m.tasks) (t : ThreadId) :
    ((m.steps n).world.thread t).depth = (m.world.thread t).depth := by
  rw [(reached.on (later_steps m n)).depth, reached.depth, thread_steps, count]

structure Unhindered (hashing : RegistryId → Handle → UInt64) (m : Machine) : Prop where
  -- No thread holds a lock and no registry is held; or the thread at work is inside host code that
  -- is shown a registry, and the lock of that one is the only one that is held.
  inside : ((∀ t, (m.world.thread t).depth = 0) ∧ ∀ r t, ¬ m.world.Marked r t) ∨
    ∃ (before : Machine) (r : RegistryId), before.Reached hashing ∧ Inside before r m ∧
      (∀ t, (m.world.thread t).depth = if t = m.thread then 1 else 0) ∧
      ∀ other t, m.world.Marked other t ↔ other = r ∧ t = m.thread
  -- So a thread counts one lock exactly while it holds a registry, and none otherwise.
  counted : ∀ t, (m.world.thread t).depth ≤ 1 ∧
    ((m.world.thread t).depth = 1 ↔ ∃ r, m.world.Marked r t)
  -- Whoever holds no lock gets one, holds one lock while the work under it is done, and none after.
  sections : ∀ t r registry, m.world.Runs t → m.world.registries.find? r = some registry →
    (m.world.thread t).depth = 0 → ∃ locked, m.world.lock? t r = some locked ∧
      (locked.thread t).depth = 1 ∧ locked.Marked r t ∧
      ∀ changed, ((locked.setRegistry r changed).unlock t r).threads = m.world.threads ∧
        ∀ u, ¬ ((locked.setRegistry r changed).unlock t r).Marked r u
  -- Whatever was refused for a lock, to an action, a last lookup, a drop or an owner that was given
  -- up, was refused inside host code that was shown a registry.
  refused : ∀ e ∈ m.world.journal, e.refuses = true → ToldInside hashing e m
  -- So nothing is refused in a session that shows no registry.
  bare : Bare ⟨.start hashing, .main, []⟩ m →
    (∀ t, (m.world.thread t).depth = 0) ∧ ∀ e ∈ m.world.journal, e.refuses = false
  -- An action is answered, and then every thread holds as many locks as when it was begun.
  answered : ∀ nested action rest, m.tasks = .perform nested action :: rest → ∃ n given,
    (m.steps n).tasks = .answer (if nested then some action else none) given :: rest ∧
    (m.steps (n + 1)).tasks = rest ∧
    (m.steps (n + 1)).world.journal
      = .answered (if nested then some action else none) given :: (m.steps n).world.journal ∧
    ∀ t, ((m.steps n).world.thread t).depth = (m.world.thread t).depth ∧
      ((m.steps (n + 1)).world.thread t).depth = (m.world.thread t).depth
  -- So it is with every other task, but for the giving back of a lock.
  restored : ∀ task rest, m.tasks = task :: rest → task.unlocks = false → ∃ n,
    (m.steps n).tasks = rest ∧ ∀ t, ((m.steps n).world.thread t).depth = (m.world.thread t).depth

theorem Reached.none_held (reached : m.Reached hashing) (bare : lockCount m.tasks = 0) :
    (∀ t, (m.world.thread t).depth = 0) ∧ ∀ r t, ¬ m.world.Marked r t := by
  refine ⟨fun t => ?_, fun r t marked => ?_⟩
  · rw [reached.depth, bare, ite_self]
  · exact lockCount_eq_zero.mp bare r (reached.marked marked).2

theorem Reached.inside_or_free (reached : m.Reached hashing) :
    ((∀ t, (m.world.thread t).depth = 0) ∧ ∀ r t, ¬ m.world.Marked r t) ∨
    ∃ (before : Machine) (r : RegistryId), before.Reached hashing ∧ Inside before r m ∧
      (∀ t, (m.world.thread t).depth = if t = m.thread then 1 else 0) ∧
      ∀ other t, m.world.Marked other t ↔ other = r ∧ t = m.thread := by
  by_cases bare : lockCount m.tasks = 0
  · exact .inl (reached.none_held bare)
  · obtain ⟨r, waits⟩ := exists_unlock bare
    obtain ⟨before, begun, inside⟩ := reached.inside waits
    refine .inr ⟨before, r, begun, inside, fun t => ?_, fun other t => ⟨fun marked => ?_, ?_⟩⟩
    · have one := reached.one
      have count : lockCount m.tasks = 1 := by omega
      rw [reached.depth, count]
    · obtain ⟨here, waitsToo⟩ := reached.marked marked
      exact ⟨reached.only waits waitsToo, here⟩
    · rintro ⟨rfl, rfl⟩
      exact reached.held waits

theorem Reached.one_iff_marked (reached : m.Reached hashing) (t : ThreadId) :
    (m.world.thread t).depth ≤ 1 ∧ ((m.world.thread t).depth = 1 ↔ ∃ r, m.world.Marked r t) := by
  rcases reached.inside_or_free with ⟨free, unmarked⟩ | ⟨_, r, _, _, depth, marked⟩
  · refine ⟨by rw [free]; exact Nat.zero_le 1, fun one => ?_, fun ⟨r, marked⟩ => ?_⟩
    · rw [free] at one
      cases one
    · exact absurd marked (unmarked r t)
  · rw [depth]
    split
    · rename_i here
      exact ⟨Nat.le_refl 1, fun _ => ⟨r, (marked r t).mpr ⟨rfl, here⟩⟩, fun _ => rfl⟩
    · rename_i other
      refine ⟨Nat.zero_le 1, nofun, fun ⟨q, held⟩ => ?_⟩
      exact absurd ((marked q t).mp held).2 other

theorem lock_section {w : World} {t : ThreadId} {registry : Registry} (runs : w.Runs t)
    (live : w.registries.find? r = some registry) (free : (w.thread t).depth = 0) :
    ∃ locked, w.lock? t r = some locked ∧ (locked.thread t).depth = 1 ∧ locked.Marked r t ∧
      ∀ changed, ((locked.setRegistry r changed).unlock t r).threads = w.threads ∧
        ∀ u, ¬ ((locked.setRegistry r changed).unlock t r).Marked r u := by
  refine ⟨_, World.lock?_free free live, ?_, ⟨_, Table.find?_put_self .., rfl⟩, fun changed => ⟨?_, ?_⟩⟩
  · rw [World.thread_put_self (w := w) rfl]
  · have back : { w.thread t with depth := 0 } = w.thread t := by rw [← free]
    simp only [World.unlock, World.setRegistry, World.setThread, World.thread, Table.put_put,
      Table.find?_put_self, Option.getD_some, Nat.sub_self] at back ⊢
    rw [back]
    exact Table.put_of_find? (World.find?_of_runs runs)
  · intro u marked
    exact (World.Marked.of_put rfl rfl marked).1 rfl

theorem extensions_unhindered (reached : m.Reached hashing) : m.Unhindered hashing := by
  refine ⟨reached.inside_or_free, reached.one_iff_marked, ?_, ?_, ?_, ?_, ?_⟩
  · exact fun t r registry runs live free => lock_section runs live free
  · exact fun e listed refuses => reached.refused listed refuses
  · intro bare
    obtain ⟨unheld, silent⟩ := bare.unheld
    exact ⟨fun t => by rw [reached.depth, unheld, ite_self], silent⟩
  · intro nested action rest tasks
    obtain ⟨n, given, waits, _⟩ := answered [] tasks (by rfl)
    have stepped : m.steps (n + 1) = _ := (steps_succ m n).trans (step_of_cons waits)
    have tasksThen : (m.steps (n + 1)).tasks = rest := congrArg Machine.tasks stepped
    refine ⟨n, given, waits, tasksThen, by rw [stepped]; rfl, fun t => ⟨?_, ?_⟩⟩
    · apply reached.depth_steps
      rw [waits, tasks, lockCount_cons_of_bare rfl, lockCount_cons_of_bare rfl]
    · apply reached.depth_steps
      rw [tasksThen, tasks, lockCount_cons_of_bare rfl]
  · intro task rest tasks bare
    obtain ⟨n, done, _⟩ := steps_to [task] tasks
    refine ⟨n, done, reached.depth_steps ?_⟩
    rw [done, tasks, lockCount_cons_of_bare bare]

/-! A session in which a registry is shown to host code that asks it something. -/

def shown : Machine :=
  told ⟨.start fun _ _ => 0, .main, []⟩
    (.act .main (.whileLocked globalName [.operate (.contains globalName 64)])) 3

theorem shown_reached : shown.Reached fun _ _ => 0 := later_told rfl (by trivial) 3

theorem extensions_unhindered_shown : ∃ asked,
    .answered asked (.failed (.panic .lockHeld)) ∈ shown.world.journal ∧
    ToldInside (fun _ _ => 0) (.answered asked (.failed (.panic .lockHeld))) shown :=
  ⟨_, List.mem_cons_self, (extensions_unhindered shown_reached).refused _ List.mem_cons_self rfl⟩

end Machine

end AttachedState
