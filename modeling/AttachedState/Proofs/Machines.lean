import AttachedState.Proofs.Constructions

/-!
Machines.  The machines of a session are those that are reached from its start by telling an idle
machine the next command and by taking steps.  Each is a scene that arises by moves, so whatever
moves keep holds before and after every step of every session.
-/

namespace AttachedState

namespace Task

def answers : Task → Bool
  | answer .. => true
  | _ => false

-- The tasks that take a lock or give it back, and the last one of a thread.
def turns : Task → Bool
  | perform _ (.whileLocked ..) | unlock _ | endThread => true
  | _ => false

end Task

theorem lockCount_bearing (tasks : List Task) : lockCount (bearing tasks) = lockCount tasks := by
  unfold lockCount bearing
  rw [List.countP_filter]
  congr 1
  funext task
  cases task <;> rfl

theorem bearing_cons (task : Task) (later : List Task) :
    bearing (task :: later) = bearing [task] ++ bearing later :=
  bearing_append [task] later

open Scene Outcome

variable {hashing : RegistryId → Handle → UInt64} {w : World} {t : ThreadId} {later : List Task}
  {task : Task}


theorem Outcome.Passed.taken {outcome : Outcome} (passed : outcome.Passed w t later)
    (light : task.bears = false) {last : Task} (lastLight : last.bears = false)
    (plain : last.closes = false ∧ last.fair = true) :
    w.Taken t task later (outcome.world, outcome.first ++ [last]) := by
  obtain ⟨passes, releases, fair⟩ := passed
  have none_borne : bearing [task] = [] := by simp [bearing, light]
  have no_last : bearing [last] = [] := by simp [bearing, lastLight]
  refine ⟨?_, ?_⟩
  · rw [none_borne, bearing_append, bearing_of_releases releases, no_last, List.append_nil]
    exact passes
  · intro new listed
    rcases List.mem_append.mp listed with given | here
    · exact Task.plain_of_releases (releases new given)
    · rw [List.mem_singleton.mp here]
      exact plain

namespace World

-- A step of the thread at work.  Taking a lock and giving it back are no passes, so of these two it
-- is said here what passes keep.
structure Advanced (w : World) (t : ThreadId) (task : Task) (later : List Task)
    (after : World × List Task) : Prop where
  moves : Moves ⟨w, t, [], bearing (task :: later)⟩ ⟨after.1, t, [], bearing (after.2 ++ later)⟩
  plain : ∀ new ∈ after.2, new.closes = false ∧ new.fair = true
  runs : after.1.Runs t
  memosGone : (w.thread t).memosGone = true → (after.1.thread t).memosGone = true
  orphans : (w.thread t).depth = 0 → after.1.orphans = w.orphans

theorem Taken.advanced {after : World × List Task} (taken : w.Taken t task (bearing later) after)
    (runs : w.Runs t) : w.Advanced t task later after := by
  obtain ⟨passes, plain⟩ := taken
  refine ⟨?_, plain, passes.runs runs, passes.memosGone, passes.orphans⟩
  rw [bearing_cons, bearing_append]
  exact passes.moves

theorem quiets_taken {after : World} {first : List Task} (changes : Quiets w after)
    (light : task.bears = false) (none_first : bearing first = [])
    (plain : ∀ new ∈ first, new.closes = false ∧ new.fair = true) :
    w.Taken t task later (after, first) := by
  have none_borne : bearing [task] = [] := by simp [bearing, light]
  refine ⟨?_, plain⟩
  rw [none_borne, none_first]
  exact changes.passes t [] later

-- A registry is shown to host code: the lock is taken, and what is to be done under it comes first.
theorem whileLocked_advanced (arisen : Arises hashing ⟨w, t, [], bearing later⟩) (runs : w.Runs t)
    (nested : Bool) (name : Name) (actions : List Action) :
    w.Advanced t (.perform nested (.whileLocked name actions)) later
      (w.perform t nested (.whileLocked name actions)) := by
  have refused : ∀ failure : Failure, (Answer.failed failure).accuses = false →
      w.Advanced t (.perform nested (.whileLocked name actions)) later
        (w, [.answer (if nested then some (.whileLocked name actions) else none) (.failed failure)]) := by
    intro failure fair
    refine (quiets_taken .refl rfl rfl ?_).advanced runs
    intro new listed
    rw [List.mem_singleton.mp listed]
    exact ⟨rfl, by simp only [Task.fair, fair, Bool.not_false]⟩
  unfold perform
  simp only
  split
  · exact refused _ rfl
  · rename_i r named
    obtain ⟨registry, live⟩ := (Arises.live arisen).registry_named (Arises.tidy arisen) named
    by_cases free : (w.thread t).depth = 0
    · rw [lock?_free free live]
      refine ⟨?_, ?_, ?_, ?_, fun _ => rfl⟩
      · simp only [bearing_append, bearing_performs, List.nil_append]
        exact .single (.locked (find?_of_runs runs) free live)
      · intro new listed
        rcases List.mem_append.mp listed with inside | last
        · exact plain_performs true actions new inside
        · simp only [List.mem_cons, List.not_mem_nil, or_false] at last
          rcases last with rfl | rfl | rfl <;> exact ⟨rfl, rfl⟩
      · exact ⟨_, Table.find?_put_self ..⟩
      · intro gone
        rw [thread_put_self (w := w) rfl]
        exact gone
    · rw [lock?_held free]
      exact refused _ rfl

theorem unlock_advanced {r : RegistryId}
    (arisen : Arises hashing ⟨w, t, [], .unlock r :: bearing later⟩) (runs : w.Runs t) :
    w.Advanced t (.unlock r) later (w.unlock t r, []) := by
  obtain ⟨registry, live⟩ := (Arises.locks arisen).registry (Arises.live arisen) rfl
  rw [unlock_eq live]
  refine ⟨?_, List.forall_mem_nil _, ⟨_, Table.find?_put_self ..⟩, ?_, fun _ => rfl⟩
  · exact .single (.unlocked rfl (find?_of_runs runs) live)
  · intro gone
    rw [thread_put_self (w := w) rfl]
    exact gone

theorem take_taken (arisen : Arises hashing ⟨w, t, [], bearing (task :: later)⟩)
    (runs : w.Runs t) (outside : ∀ n, t ≠ .racer n) (ordinary : task.turns = false)
    (free : task = .dropMemos → (w.thread t).depth = 0) :
    w.Taken t task (bearing later) (w.take t later task) := by
  have silent : ∀ new ∈ ([] : List Task), new.closes = false ∧ new.fair = true :=
    List.forall_mem_nil _
  cases task with
  | perform nested action =>
    have before : Arises hashing ⟨w, t, [], bearing later⟩ := arisen
    cases action with
    | operate operation =>
      have passed := operate_passed before runs outside operation
      exact passed.taken rfl rfl ⟨rfl, by simp only [Task.fair, passed.fair, Bool.not_false]⟩
    | create creation supplies => exact begin_taken before _ creation supplies rfl
    | whileLocked => cases ordinary
  | construct site => exact construct_taken arisen runs
  | make site f => exact make_taken arisen runs
  | dropObject b h object => exact dropObject_taken w t _ b h object
  | releaseBlock b => exact releaseBlock_taken arisen
  | releaseRegistry r => exact releaseRegistry_taken arisen
  | retrieveAtExit retrieval =>
    have before : Arises hashing ⟨w, t, [], bearing later⟩ := arisen
    have passed := retrieve_passed before runs retrieval
    exact passed.taken rfl rfl ⟨rfl, by simp only [Task.fair, passed.fair, Bool.not_false]⟩
  | noteOverwritten | reportExit | answer => exact quiets_taken (.single (.noted rfl)) rfl rfl silent
  | dropMemos => exact quiets_taken (dropMemos_quiets (free rfl)) rfl rfl silent
  | unlock | endThread => cases ordinary

theorem take_advanced (arisen : Arises hashing ⟨w, t, [], bearing (task :: later)⟩)
    (runs : w.Runs t) (outside : ∀ n, t ≠ .racer n) (goes : task ≠ .endThread)
    (free : task = .dropMemos → (w.thread t).depth = 0) :
    w.Advanced t task later (w.take t later task) := by
  cases ordinary : task.turns with
  | false => exact (take_taken arisen runs outside ordinary free).advanced runs
  | true =>
    cases task with
    | perform nested action =>
      have before : Arises hashing ⟨w, t, [], bearing later⟩ := arisen
      cases action with
      | whileLocked name actions => exact whileLocked_advanced before runs nested name actions
      | operate | create => cases ordinary
    | unlock r => exact unlock_advanced arisen runs
    | endThread => exact absurd rfl goes
    | _ => cases ordinary

end World

theorem World.journal_machineFor (w : World) (command : Command) :
    (w.machineFor command).world.journal = w.journal := by
  cases command with
  | act t action =>
    simp only [machineFor, startThread]
    split <;> rfl
  | endThread name =>
    simp only [machineFor]
    split <;> rfl

-- The threads that a race starts belong to the race; a session is told of the others.
def Command.ofSession : Command → Prop
  | .act (.racer _) _ => False
  | _ => True

namespace Machine

def scene (m : Machine) : Scene := ⟨m.world, m.thread, [], bearing m.tasks⟩

-- What may happen to the machine of a session: it is idle and told the next command, or takes a step.
inductive Next : Machine → Machine → Prop where
  | told (idle : m.tasks = []) (ofSession : command.ofSession) :
      Next m (m.world.machineFor command)
  | step (m : Machine) : Next m m.step

abbrev Later : Machine → Machine → Prop := Relation.ReflTransGen Next

def Reached (hashing : RegistryId → Handle → UInt64) (m : Machine) : Prop :=
  Later ⟨.start hashing, .main, []⟩ m

-- How the tasks of a thread stand.  The thread runs until it has ended, and then only an answer is
-- left; it ends after its memos are gone, and these go when it holds no lock.
structure Steady (m : Machine) : Prop where
  outside : ∀ n, m.thread ≠ .racer n
  runs : m.world.Runs m.thread ∨ ∀ task ∈ m.tasks, task.answers = true
  ended : m.tasks.Pairwise fun first later => first = .endThread → later.answers = true
  dropped : m.tasks.Pairwise fun first later => first = .dropMemos → later.unlocks = false
  gone : .endThread ∈ m.tasks →
    .dropMemos ∈ m.tasks ∨ (m.world.thread m.thread).memosGone = true
  fair : ∀ task ∈ m.tasks, task.fair = true

variable {hashing : RegistryId → Handle → UInt64} {m : Machine}

theorem step_of_cons {task : Task} {later : List Task} (tasks : m.tasks = task :: later) :
    m.step = ⟨(m.world.take m.thread later task).1, m.thread,
      (m.world.take m.thread later task).2 ++ later⟩ := by
  unfold step
  rw [tasks]

-- What stands behind others is not touched by a step.
theorem step_behind {first : Task} {front behind : List Task}
    (tasks : m.tasks = first :: front ++ behind) : ∃ more, m.step.tasks = more ++ behind :=
  ⟨_, (congrArg Machine.tasks (step_of_cons tasks)).trans (List.append_assoc _ _ _).symm⟩

theorem step_of_nil (idle : m.tasks = []) : m.step = m := by
  unfold step
  rw [idle]

theorem steady_start (hashing : RegistryId → Handle → UInt64) :
    Steady ⟨.start hashing, .main, []⟩ := by
  refine ⟨?_, .inl ⟨_, Table.find?_put_self ..⟩, .nil, .nil, ?_, List.forall_mem_nil _⟩
  · intro n same
    cases same
  · intro listed
    cases listed

-- What was put in front neither ends the thread nor gives up its memos.
theorem Steady.advanced {task : Task} {later : List Task} (steady : Steady m)
    (tasks : m.tasks = task :: later) (advanced : m.world.Advanced m.thread task later
      (m.world.take m.thread later task)) (goes : task ≠ .endThread) : Steady m.step := by
  obtain ⟨outside, _, ended, dropped, gone, fair⟩ := steady
  obtain ⟨_, plain, runs, memosGone, _⟩ := advanced
  rw [tasks] at ended dropped gone fair
  rw [step_of_cons tasks]
  have from_later : ∀ {p : Task → Task → Prop}, (∀ a b, a.closes = false → p a b) →
      (task :: later).Pairwise p →
      ((m.world.take m.thread later task).2 ++ later).Pairwise p := by
    intro p vacuous pairs
    refine List.pairwise_append.mpr ⟨?_, (List.pairwise_cons.mp pairs).2, ?_⟩
    · exact List.pairwise_of_forall_mem_list fun a new b _ => vacuous a b (plain a new).1
    · exact fun a new b _ => vacuous a b (plain a new).1
  refine ⟨outside, .inl runs, ?_, ?_, ?_, ?_⟩
  · exact from_later (fun a b open_ same => by subst same; cases open_) ended
  · exact from_later (fun a b open_ same => by subst same; cases open_) dropped
  · intro listed
    rcases List.mem_append.mp listed with new | old
    · cases (plain _ new).1
    · rcases gone (List.mem_cons_of_mem _ old) with waits | already
      · rcases List.mem_cons.mp waits with here | behind
        · subst here
          obtain ⟨thread, there, _, done⟩ := World.thread_dropMemos m.world m.thread
          apply Or.inr
          show ((m.world.dropMemos m.thread).thread m.thread).memosGone = true
          rw [World.thread_of_find? there, done]
        · exact .inl (List.mem_append_right _ behind)
      · exact .inr (memosGone already)
  · intro new listed
    rcases List.mem_append.mp listed with front | old
    · exact (plain new front).2
    · exact fair new (List.mem_cons_of_mem _ old)

-- A thread gives its memos up when it holds no lock.
theorem Steady.dropMemos_free {task : Task} {later : List Task} (steady : Steady m)
    (arisen : Scene.Arises hashing m.scene) (tasks : m.tasks = task :: later)
    (drops : task = .dropMemos) : (m.world.thread m.thread).depth = 0 := by
  subst drops
  have free : lockCount later = 0 := by
    have dropped := steady.dropped
    rw [tasks] at dropped
    exact lockCount_of_bare fun task listed => (List.pairwise_cons.mp dropped).1 task listed rfl
  have depth := (Arises.locks arisen).depth m.thread
  rw [scene, if_pos rfl, lockCount_bearing, tasks, lockCount_cons_of_bare rfl] at depth
  exact depth.trans free

-- A step that is not the thread's end.
theorem Steady.step_advanced {task : Task} {later : List Task} (steady : Steady m)
    (arisen : Scene.Arises hashing m.scene) (tasks : m.tasks = task :: later)
    (goes : task ≠ .endThread) (runs : m.world.Runs m.thread) :
    m.world.Advanced m.thread task later (m.world.take m.thread later task) := by
  have before : Scene.Arises hashing ⟨m.world, m.thread, [], bearing (task :: later)⟩ := by
    rw [← tasks]
    exact arisen
  exact World.take_advanced before runs steady.outside goes (steady.dropMemos_free arisen tasks)

-- The end of a thread: it holds no lock, and what it remembered is given up.
theorem Steady.step_ended {later : List Task} (steady : Steady m)
    (arisen : Scene.Arises hashing m.scene) (tasks : m.tasks = .endThread :: later)
    (runs : m.world.Runs m.thread) : Move m.scene m.step.scene := by
  have rest : ∀ task ∈ later, task.answers = true := by
    have ended := steady.ended
    rw [tasks] at ended
    exact fun task listed => (List.pairwise_cons.mp ended).1 task listed rfl
  have free : (m.world.thread m.thread).depth = 0 := by
    have depth := (Arises.locks arisen).depth m.thread
    have none_later : lockCount later = 0 :=
      lockCount_of_bare fun task listed => by
        have answers := rest task listed
        cases task <;> first | rfl | cases answers
    rw [scene, if_pos rfl, lockCount_bearing, tasks, lockCount_cons_of_bare rfl] at depth
    exact depth.trans none_later
  have gone : (m.world.thread m.thread).memosGone = true := by
    rcases steady.gone (by rw [tasks]; exact List.mem_cons_self) with waits | already
    · rw [tasks] at waits
      rcases List.mem_cons.mp waits with here | behind
      · cases here
      · cases rest _ behind
    · exact already
  have ended := Move.ended (s := m.scene) (World.find?_of_runs runs) free
    (Arises.forgotten arisen m.thread gone)
  have same : bearing m.tasks = bearing later := by
    rw [tasks]
    rfl
  rw [step_of_cons tasks]
  unfold scene at ended ⊢
  rw [same] at ended ⊢
  exact ended

-- Once a thread has ended, only its answer is to be given.
theorem steady_of_answers {w : World} {t : ThreadId} {tasks : List Task}
    (outside : ∀ n, t ≠ .racer n) (answers : ∀ task ∈ tasks, task.answers = true)
    (fair : ∀ task ∈ tasks, task.fair = true) : Steady ⟨w, t, tasks⟩ := by
  have vacuous : ∀ {p : Task → Task → Prop}, (∀ a b, a.answers = true → p a b) → tasks.Pairwise p :=
    fun holds => List.pairwise_of_forall_mem_list fun a listed b _ => holds a b (answers a listed)
  refine ⟨outside, .inr answers, ?_, ?_, ?_, fair⟩
  · exact vacuous fun a b given same => by subst same; cases given
  · exact vacuous fun a b given same => by subst same; cases given
  · intro listed
    cases answers _ listed

theorem Steady.step (steady : Steady m) (arisen : Scene.Arises hashing m.scene) :
    Scene.Moves m.scene m.step.scene ∧ Steady m.step := by
  cases tasks : m.tasks with
  | nil =>
    rw [step_of_nil tasks]
    exact ⟨.refl, steady⟩
  | cons task later =>
    have fair : ∀ other ∈ later, other.fair = true := fun other listed =>
      steady.fair other (by rw [tasks]; exact List.mem_cons_of_mem _ listed)
    rcases steady.runs with runs | answers
    · by_cases ends : task = .endThread
      · subst ends
        refine ⟨.single (steady.step_ended arisen tasks runs), ?_⟩
        have ended := steady.ended
        rw [tasks] at ended
        rw [step_of_cons tasks]
        exact steady_of_answers steady.outside
          (fun task listed => (List.pairwise_cons.mp ended).1 task listed rfl) fair
      · have advanced := steady.step_advanced arisen tasks ends runs
        refine ⟨?_, steady.advanced tasks advanced ends⟩
        rw [step_of_cons tasks]
        unfold scene
        rw [tasks]
        exact advanced.moves
    · rw [tasks] at answers
      have now := answers task List.mem_cons_self
      cases task with
      | answer asked given =>
        have told : Move m.scene { m.scene with world := m.world.note (.answered asked given) } :=
          .quiet (.noted rfl)
        have same : bearing m.tasks = bearing later := by
          rw [tasks]
          rfl
        refine ⟨.single ?_, ?_⟩
        · rw [step_of_cons tasks]
          unfold scene at told ⊢
          rw [same] at told ⊢
          exact told
        · rw [step_of_cons tasks]
          exact steady_of_answers steady.outside
            (fun other listed => answers other (List.mem_cons_of_mem _ listed)) fair
      | _ => cases now

-- A registration loses its owner only in a step of a thread that holds a lock.
theorem Steady.step_orphans (steady : Steady m) (arisen : Scene.Arises hashing m.scene)
    (free : (m.world.thread m.thread).depth = 0) : m.step.world.orphans = m.world.orphans := by
  cases tasks : m.tasks with
  | nil => rw [step_of_nil tasks]
  | cons task later =>
    rcases steady.runs with runs | answers
    · by_cases ends : task = .endThread
      · subst ends
        rw [step_of_cons tasks]
        rfl
      · rw [step_of_cons tasks]
        exact (steady.step_advanced arisen tasks ends runs).orphans free
    · have now := answers task (by rw [tasks]; exact List.mem_cons_self)
      cases task with
      | answer asked given =>
        rw [step_of_cons tasks]
        rfl
      | _ => cases now

/-! Commands. -/

theorem steady_act {w : World} {t : ThreadId} (action : Action) (outside : ∀ n, t ≠ .racer n) :
    Steady ⟨w.startThread t, t, [.perform false action]⟩ := by
  refine ⟨outside, .inl (World.startThread_quiets w t).2, List.pairwise_singleton ..,
    List.pairwise_singleton .., ?_, ?_⟩
  · intro listed
    cases List.mem_singleton.mp listed
  · intro task listed
    rw [List.mem_singleton.mp listed]
    rfl

-- A thread that ends makes its last lookups and gives up its memos, in whatever order, and is gone.
theorem exitTasks_eq (thread : Thread) : ∃ front, .dropMemos ∈ front ∧
    (∀ task ∈ front, task = .dropMemos ∨ ∃ retrieval, task = .retrieveAtExit retrieval) ∧
    thread.exitTasks = front ++ [.endThread, .answer none .done] := by
  refine ⟨_, ?_, ?_, rfl⟩
  · split <;> simp
  · intro task listed
    split at listed <;> simp only [List.mem_cons, List.mem_append, List.mem_map, List.not_mem_nil,
      or_false] at listed
    · rcases listed with drop | ⟨retrieval, _, rfl⟩
      · exact .inl drop
      · exact .inr ⟨retrieval, rfl⟩
    · rcases listed with ⟨retrieval, _, rfl⟩ | drop
      · exact .inr ⟨retrieval, rfl⟩
      · exact .inl drop

theorem steady_exit {w : World} {name : Name} {thread : Thread}
    (runs : w.threads.find? (.worker name) = some thread) :
    Steady ⟨w, .worker name, thread.exitTasks⟩ := by
  obtain ⟨front, drops, only, tasks⟩ := exitTasks_eq thread
  have clear : ∀ task ∈ front, task ≠ .endThread := by
    intro task listed
    rcases only task listed with rfl | ⟨retrieval, rfl⟩ <;> nofun
  have either : ∀ task ∈ front ++ [.endThread, .answer none .done],
      task.unlocks = false ∧ task.fair = true := by
    intro task listed
    simp only [List.mem_append, List.mem_cons, List.not_mem_nil, or_false] at listed
    rcases listed with early | rfl | rfl
    · rcases only task early with rfl | ⟨retrieval, rfl⟩ <;> exact ⟨rfl, rfl⟩
    · exact ⟨rfl, rfl⟩
    · exact ⟨rfl, rfl⟩
  rw [tasks]
  have outside : ∀ n, ThreadId.worker name ≠ .racer n := by
    intro n same
    cases same
  refine ⟨outside, .inl ⟨thread, runs⟩, ?_, ?_, fun _ => .inl (List.mem_append_left _ drops), ?_⟩
  · refine List.pairwise_append.mpr ⟨?_, ?_, ?_⟩
    · exact List.pairwise_of_forall_mem_list fun a listed b _ same => absurd same (clear a listed)
    · exact List.pairwise_pair.mpr fun _ => rfl
    · exact fun a listed b _ same => absurd same (clear a listed)
  · exact List.pairwise_of_forall_mem_list fun a _ b listed _ => (either b listed).1
  · exact fun task listed => (either task listed).2

theorem steady_told {command : Command} (idle : m.tasks = []) (ofSession : command.ofSession) :
    Scene.Moves m.scene (m.world.machineFor command).scene ∧ Steady (m.world.machineFor command) := by
  have still : m.scene.tasks = [] := by
    rw [scene, idle]
    rfl
  have turned : ∀ t, Scene.Moves m.scene ⟨m.world, t, [], []⟩ := by
    intro t
    have turn := Move.turned (t := t) still
    unfold scene at turn ⊢
    rw [idle] at turn ⊢
    exact .single turn
  cases command with
  | act t action =>
    refine ⟨?_, steady_act action ?_⟩
    · have starting := (World.startThread_quiets m.world t).1.passes t [] []
      exact Relation.ReflTransGen.trans (turned t) starting.moves
    · rintro n rfl
      cases ofSession
  | endThread name =>
    unfold World.machineFor
    simp only
    split
    · rename_i thread runs
      refine ⟨?_, steady_exit runs⟩
      obtain ⟨front, _, only, tasks⟩ := exitTasks_eq thread
      have light : bearing thread.exitTasks = [] := by
        rw [tasks]
        refine List.filter_eq_nil_iff.mpr fun task listed => ?_
        simp only [List.mem_append, List.mem_cons, List.not_mem_nil, or_false] at listed
        rcases listed with early | rfl | rfl
        · rcases only task early with rfl | ⟨retrieval, rfl⟩ <;> exact Bool.false_ne_true
        · exact Bool.false_ne_true
        · exact Bool.false_ne_true
      unfold scene at turned ⊢
      rw [light]
      exact turned (.worker name)
    · refine ⟨turned .main, steady_of_answers (fun n same => by cases same) ?_ ?_⟩
      · intro task listed
        rw [List.mem_singleton.mp listed]
        rfl
      · intro task listed
        rw [List.mem_singleton.mp listed]
        rfl

theorem Next.spec {after : Machine} (next : Next m after) (arisen : Scene.Arises hashing m.scene)
    (steady : Steady m) : Scene.Moves m.scene after.scene ∧ Steady after := by
  cases next with
  | told idle ofSession => exact steady_told idle ofSession
  | step => exact steady.step arisen

theorem Reached.spec (reached : Reached hashing m) : Scene.Arises hashing m.scene ∧ Steady m := by
  induction reached with
  | refl => exact ⟨.refl, steady_start hashing⟩
  | tail _ next ih =>
    obtain ⟨moves, steady⟩ := next.spec ih.1 ih.2
    exact ⟨Relation.ReflTransGen.trans ih.1 moves, steady⟩

theorem Reached.arises (reached : Reached hashing m) : Scene.Arises hashing m.scene := reached.spec.1

theorem Reached.arises_cons {task : Task} {later : List Task} (reached : Reached hashing m)
    (tasks : m.tasks = task :: later) :
    Scene.Arises hashing ⟨m.world, m.thread, [], bearing (task :: later)⟩ := by
  have arises := reached.arises
  rwa [scene, tasks] at arises

theorem Reached.steady (reached : Reached hashing m) : Steady m := reached.spec.2

-- The thread runs as long as something other than an answer is to be done.
theorem Reached.runs_ahead (reached : Reached hashing m) (task : Task) (listed : task ∈ m.tasks)
    (active : task.answers = false) : m.world.Runs m.thread :=
  reached.steady.runs.resolve_right fun answers => by
    rw [answers task listed] at active
    cases active

theorem Reached.on {after : Machine} (reached : Reached hashing m) (later : Later m after) :
    Reached hashing after :=
  Relation.ReflTransGen.trans reached later

theorem later_steps (m : Machine) (n : Nat) : Later m (m.steps n) := by
  induction n generalizing m with
  | zero => exact .refl
  | succ n ih => exact Relation.ReflTransGen.head (.step m) (ih m.step)

theorem later_after_step (m : Machine) (n : Nat) : Later m.step (m.steps (n + 1)) :=
  later_steps m.step n

theorem steps_succ (m : Machine) (n : Nat) : m.steps (n + 1) = (m.steps n).step := by
  induction n generalizing m with
  | zero => rfl
  | succ n ih => exact ih m.step

theorem steps_add (m : Machine) (n k : Nat) : m.steps (n + k) = (m.steps n).steps k := by
  induction k with
  | zero => rfl
  | succ k ih => rw [← Nat.add_assoc, steps_succ, steps_succ, ih]

theorem steps_of_nil (idle : m.tasks = []) (n : Nat) : m.steps n = m := by
  induction n with
  | zero => rfl
  | succ n ih => rw [steps_succ, ih, step_of_nil idle]

-- Steps after those that finish a machine do nothing.
theorem run_eq_steps (m : Machine) (n : Nat) : m.steps (m.work + n) = m.run := by
  rw [steps_add]
  exact steps_of_nil (tasks_run m) n

theorem run_of_idle {n : Nat} (idle : (m.steps n).tasks = []) : m.run = m.steps n := by
  rw [← run_eq_steps m n, Nat.add_comm, steps_add, steps_of_nil idle]

theorem thread_steps (m : Machine) (n : Nat) : (m.steps n).thread = m.thread := by
  induction n with
  | zero => rfl
  | succ n ih =>
    rw [steps_succ, ← ih]
    unfold step
    split <;> rfl

theorem Reached.step (reached : m.Reached hashing) : m.step.Reached hashing :=
  Relation.ReflTransGen.tail reached (.step m)

-- A machine that is told a command, some steps later.
def told (m : Machine) (command : Command) (n : Nat) : Machine := (m.world.machineFor command).steps n

theorem later_told (idle : m.tasks = []) {command : Command} (ofSession : command.ofSession)
    (n : Nat) : Later m (m.told command n) :=
  Relation.ReflTransGen.head (.told idle ofSession) (later_steps _ n)

theorem Later.moves {after : Machine} (reached : Reached hashing m) (later : Later m after) :
    Scene.Moves m.scene after.scene := by
  induction later with
  | refl => exact .refl
  | tail before next ih =>
    have between := reached.on before
    exact Relation.ReflTransGen.trans ih (next.spec between.arises between.steady).1

-- Tasks in front are done, with whatever they bring about, before those behind are begun.
theorem steps_to (front : List Task) {rest : List Task} (tasks : m.tasks = front ++ rest) :
    ∃ n, (m.steps n).tasks = rest ∧
      ∀ k < n, ∃ first, first ≠ [] ∧ (m.steps k).tasks = first ++ rest := by
  induction bound : m.work using Nat.strongRecOn generalizing m front with
  | _ work ih =>
    cases front with
    | nil => exact ⟨0, tasks, nofun⟩
    | cons task later =>
      rw [List.cons_append] at tasks
      have less := work_step_lt (m := m) (by rw [tasks]; exact List.cons_ne_nil _ _)
      rw [bound] at less
      have stepped : m.step.tasks
          = ((m.world.take m.thread (later ++ rest) task).2 ++ later) ++ rest := by
        rw [step_of_cons tasks, List.append_assoc]
      obtain ⟨n, done, busy⟩ := ih _ less _ stepped rfl
      refine ⟨n + 1, done, fun k within => ?_⟩
      cases k with
      | zero => exact ⟨task :: later, List.cons_ne_nil _ _, tasks⟩
      | succ k => exact busy k (Nat.lt_of_succ_lt_succ within)

-- So it is from any step on.
theorem steps_on {k : Nat} (front : List Task) {rest : List Task} (tasks : (m.steps k).tasks = front ++ rest) :
    ∃ n, k ≤ n ∧ (m.steps n).tasks = rest ∧ ∀ i, k ≤ i → i < n →
      ∃ first, first ≠ [] ∧ (m.steps i).tasks = first ++ rest := by
  obtain ⟨d, done, busy⟩ := steps_to front tasks
  rw [← steps_add] at done
  refine ⟨k + d, Nat.le_add_right k d, done, fun i low high => ?_⟩
  obtain ⟨first, some_left, waits⟩ := busy (i - k) (by omega)
  rw [← steps_add, Nat.add_sub_cancel' low] at waits
  exact ⟨first, some_left, waits⟩

/-! A session.  A context gets state with one extension, which gives the context new state when it
is dropped; then the first state is given up. -/

def returning : Supply Action :=
  ⟨"key", .given .null, [], none, [.create ⟨globalName, "again", 64, false⟩ []]⟩

-- The context of the sessions.
def soleHandle : Handle := ⟨64, by decide⟩

def keyed : Machine :=
  told ⟨.start fun _ _ => 0, .main, []⟩
    (.act .main (.operate (.registerKey "key" globalName .probe))) 2

def created : Machine :=
  keyed.told (.act .main (.create ⟨globalName, "state", 64, false⟩ [returning])) 6

-- The extension is about to be dropped.
def dropping : Machine := created.told (.act .main (.operate (.destroy "state"))) 3

theorem created_reached : created.Reached fun _ _ => 0 := by
  have registered : Later ⟨.start fun _ _ => 0, .main, []⟩ keyed := later_told rfl (by trivial) 2
  exact Relation.ReflTransGen.trans registered (later_told rfl (by trivial) 6)

theorem dropping_reached : dropping.Reached fun _ _ => 0 :=
  created_reached.on (later_told rfl (by trivial) 3)

end Machine

end AttachedState
