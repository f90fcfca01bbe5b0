import AttachedState.Proofs.Accounts

/-!
Counts of lines.  A registry has one line for each thread that has looked something up there and has
not given its memos up.  A thread that gives them up finds every one of its lines, once, and after its
end nothing is left of it in any registry, whatever it looked up meanwhile.
-/

namespace AttachedState

open Scene

namespace World

variable {w : World} {t : ThreadId} {r : RegistryId} {registry : Registry} {memo : Memo}

/-! Lines and the threads that have them. -/

-- The threads that know a registry.
def threadsKnowing (w : World) (r : RegistryId) : List ThreadId :=
  (w.threads.rows.map Prod.fst).filter fun t => (w.thread t).knows r

theorem mem_threadsKnowing : t ∈ w.threadsKnowing r ↔ (w.thread t).knows r = true := by
  simp only [threadsKnowing, List.mem_filter, and_iff_right_iff_imp]
  intro knows
  cases runs : w.threads.find? t with
  | none =>
    rw [thread_of_absent runs] at knows
    cases knows
  | some thread => exact List.mem_map.mpr ⟨(t, thread), Table.mem_of_find? runs, rfl⟩

theorem nodup_threadsKnowing (tidy : w.Tidy) : (w.threadsKnowing r).Nodup :=
  List.Nodup.filter _ tidy.threads

-- Each of these threads has one of the lines, and each line has one of them.
theorem Tended.perm_all (tended : w.Tended) (lined : w.Lined) (tidy : w.Tidy)
    (live : w.registries.find? r = some registry) :
    ((w.threadsKnowing r).map fun t => ((w.thread t).memo? r).map Memo.line).Perm
      ((registry.lines.toList.map Prod.fst).map some) := by
  have mem : ∀ t, t ∈ w.threadsKnowing r ↔ ∃ memo line, (w.thread t).memo? r = some memo ∧
      registry.lines.get? memo.line = some line ∧ true = true := by
    intro t
    rw [mem_threadsKnowing, Thread.knows, Option.isSome_iff_exists]
    constructor
    · rintro ⟨memo, found⟩
      have here := Thread.memo?_registry found
      obtain ⟨line, stored⟩ := lined.filed t memo (List.mem_of_find?_eq_some found) registry
        (by rw [here, live])
      exact ⟨memo, line, found, stored, rfl⟩
    · rintro ⟨memo, _, found, _⟩
      exact ⟨memo, found⟩
  have perm := tended.perm lined live (p := fun _ => true) (nodup_threadsKnowing tidy) mem
  rwa [List.filter_true] at perm

/-! Giving memos up. -/

-- When the turn of a memo comes, its line is still there.
theorem Lined.detaches {front rest : List Memo} (runs : w.Runs t) (free : (w.thread t).depth = 0)
    (lined : (w.setThread t { w.thread t with memos := front ++ memo :: rest }).Lined)
    (live : (front.foldl (detachMemo t) w).registries.find? memo.registry = some registry) :
    ∃ line left, registry.lines.remove? memo.line = some (line, left) := by
  induction front generalizing w with
  | nil =>
    have mine : (w.setThread t { w.thread t with memos := [] ++ memo :: rest }).thread t
        = { w.thread t with memos := [] ++ memo :: rest } := thread_put_self rfl
    obtain ⟨line, stored⟩ := lined.filed t memo (by rw [mine]; exact List.mem_cons_self) registry live
    exact ⟨line, _, by rw [Arena.remove?, stored]; rfl⟩
  | cons first front ih =>
    obtain ⟨threads, change⟩ := detachMemo_quiet runs free first (front ++ memo :: rest)
    have same : (detachMemo t w first).thread t = w.thread t := by
      rw [World.thread, threads, World.thread]
    have runsThen : (detachMemo t w first).Runs t := by
      unfold Runs
      rwa [threads]
    have linedThen := change.lined lined
    rw [← same] at linedThen
    exact ih runsThen (by rwa [same]) linedThen live

-- Each line that is given up was added by its thread, which has had no other since.
def Punctual (journal : List Event) : Prop :=
  ∀ later t r line earlier, journal = later ++ .lineDetached t r line :: earlier →
    ∃ since, Since earlier t ⟨r, line, none⟩ since

end World

open World in
theorem Quiet.detaching {w after : World} {t : ThreadId} {r : RegistryId} {line : Ticket}
    (change : Quiet w after) (told : after.journal = .lineDetached t r line :: w.journal) :
    ∃ memo ∈ (w.thread t).memos, memo.registry = r ∧ memo.line = line := by
  cases change with
  | noted aside =>
    cases told
    cases aside
  | detached runs free memos live =>
    cases told
    rw [thread_of_find? runs, memos]
    exact ⟨_, List.mem_cons_self, rfl, rfl⟩
  | attached | hit | resolved | direct => cases told
  | _ => exact absurd told (List.ne_cons_self)

open World in
theorem Move.detaching {s s' : Scene} {t : ThreadId} {r : RegistryId} {line : Ticket}
    (move : Move s s') (told : s'.world.journal = .lineDetached t r line :: s.world.journal) :
    ∃ memo ∈ (s.world.thread t).memos, memo.registry = r ∧ memo.line = line := by
  cases move with
  | quiet change => exact change.detaching told
  | ended | tried | made | orphaned | dropped | enrolled | withdrawn => cases told
  | _ => exact absurd told (List.ne_cons_self)

theorem Scene.Arises.punctual {hashing : RegistryId → Handle → UInt64} {s : Scene}
    (arisen : Arises hashing s) : World.Punctual s.world.journal := by
  induction arisen with
  | refl =>
    intro later t r line earlier split
    cases later <;> cases split
  | tail before move ih =>
    rcases Arises.right_of_move before move with same | ⟨e, _, told⟩
    · rwa [same]
    · intro later t r line earlier split
      rw [told] at split
      cases later with
      | nil =>
        cases split
        obtain ⟨memo, known, rfl, rfl⟩ := move.detaching told
        obtain ⟨since, age⟩ := Arises.dated before t memo known
        exact ⟨since, age.added, age.kept⟩
      | cons first rest => exact ih rest t r line earlier (List.cons.inj split).2

namespace Machine

variable {hashing : RegistryId → Handle → UInt64} {m : Machine} {r : RegistryId} {registry : Registry}

-- No registry is locked while the thread at work holds no lock.
theorem Reached.unheld (reached : m.Reached hashing) (free : (m.world.thread m.thread).depth = 0)
    (live : m.world.registries.find? r = some registry) : registry.holder = none := by
  cases holder : registry.holder with
  | none => rfl
  | some t =>
    obtain ⟨_, waits⟩ := Arises.marks reached.arises r t ⟨registry, live, holder⟩
    have count := (Arises.locks reached.arises).depth m.thread
    have held : 0 < lockCount m.scene.tasks := List.countP_pos_iff.mpr ⟨_, waits, rfl⟩
    exact absurd ((count.trans (if_pos rfl)).symm.trans free) (Nat.ne_of_gt held)

-- A lookup by a thread that holds no lock gives what the map has.  Before the thread has given its
-- memos up, it makes one of the registry; afterwards, it leaves nothing there.
theorem Reached.looks (reached : m.Reached hashing) (runs : m.world.Runs m.thread)
    (free : (m.world.thread m.thread).depth = 0) (live : m.world.registries.find? r = some registry)
    (h : Handle) : (m.world.lookUp m.thread r h).1 = .ok (registry.contexts.get? h) ∧
      ((m.world.thread m.thread).memosGone = false →
        ((m.world.lookUp m.thread r h).2.thread m.thread).knows r = true) ∧
      ((m.world.thread m.thread).memosGone = true → (m.world.lookUp m.thread r h).2
        = m.world.note (.lookedUp m.thread r h (registry.contexts.get? h) .direct)) := by
  have lined : m.world.Lined := reached.arises.lined
  have found : (m.world.lookUp m.thread r h).1 = .ok (registry.contexts.get? h) := by
    rcases (World.lookUp_spec runs (World.map?_of_find? live) h).2 lined with ⟨held, _⟩ | found
    · exact absurd free held
    · exact found
  refine ⟨found, (World.lookUp_learns runs live h).2.1 _ found, fun gone => ?_⟩
  have same : ({ registry with holder := none } : Registry) = registry := by
    rw [← reached.unheld free live]
  have back : m.world.setRegistry r { registry with holder := none } = m.world := by
    unfold World.setRegistry
    rw [same, Table.put_of_find? live]
  unfold World.lookUp World.resolveDirectly
  simp only [gone, if_true]
  rw [World.underLock_free runs free live]
  simp only [back]

-- A thread that is told to end is gone when that is done.
theorem ended_run {name : Name} (runs : m.world.Runs (.worker name)) :
    ¬ (m.world.machineFor (.endThread name)).run.world.Runs (.worker name) := by
  obtain ⟨thread, found⟩ := runs
  obtain ⟨front, _, _, tasks⟩ := exitTasks_eq thread
  have begun : m.world.machineFor (.endThread name)
      = ⟨m.world, .worker name, front ++ [.endThread, .answer none .done]⟩ := by
    unfold World.machineFor
    simp only [found, tasks]
  obtain ⟨n, waits, _⟩ := steps_to front (congrArg Machine.tasks begun)
  have same := thread_steps (m.world.machineFor (.endThread name)) n
  rw [begun] at waits same ⊢
  have second := (steps_succ _ n).trans (step_of_cons waits)
  have third := (steps_succ _ (n + 1)).trans (step_of_cons (congrArg Machine.tasks second))
  have idle := congrArg Machine.tasks third
  rw [run_of_idle idle, third, second, same]
  rintro ⟨_, there⟩
  cases (Table.find?_erase_self _ _).symm.trans there

/-! Last lookups. -/

-- From one step to another, lookups are made that were left for the end of a thread.  Each is answered
-- in the world that those before have left, and reported before the next one is made.
inductive LastLookups (m : Machine) : Nat → List Retrieval → Nat → Prop where
  | nil {n : Nat} : LastLookups m n [] n
  | cons {n k last : Nat} {retrieval : Retrieval} {later : List Retrieval} {rest : List Task}
      {answer : Answer} {caches : Option Nat}
      (made : (m.steps n).tasks = .retrieveAtExit retrieval :: rest)
      (answered : answer = ((m.steps n).world.retrieve m.thread retrieval).answer)
      (after : n < k) (waits : (m.steps k).tasks = .reportExit retrieval.registry answer :: rest)
      (told : m.steps (k + 1)
        = ⟨(m.steps k).world.note (.exitRetrieved ((m.steps k).world.registryNamed? retrieval.registry)
          answer caches), m.thread, rest⟩)
      (others : LastLookups m (k + 1) later last) : LastLookups m n (retrieval :: later) last

-- Whatever is to be done besides waits for them, or has been done.
theorem lastLookups_of_tasks (lookups : List Retrieval) {n : Nat} {rest : List Task}
    (tasks : (m.steps n).tasks = lookups.map .retrieveAtExit ++ rest) :
    ∃ last, LastLookups m n lookups last ∧ n ≤ last ∧ (m.steps last).tasks = rest ∧
      ∀ i, n ≤ i → i < last → ∃ first, first ≠ [] ∧ (m.steps i).tasks = first ++ rest := by
  induction lookups generalizing n with
  | nil => exact ⟨n, .nil, Nat.le_refl n, tasks, fun i low high => absurd low (Nat.not_le.mpr high)⟩
  | cons retrieval later ih =>
    have made : (m.steps n).tasks
        = .retrieveAtExit retrieval :: (later.map .retrieveAtExit ++ rest) := tasks
    have same := thread_steps m n
    have stepped : (m.steps (n + 1)).tasks = ((m.steps n).world.retrieve m.thread retrieval).first ++
        .reportExit retrieval.registry ((m.steps n).world.retrieve m.thread retrieval).answer
          :: (later.map .retrieveAtExit ++ rest) := by
      rw [steps_succ, step_of_cons made, same]
      exact List.append_assoc _ _ _
    obtain ⟨k, after, waits, busy⟩ := steps_on _ stepped
    have told := (steps_succ m k).trans (step_of_cons waits)
    rw [thread_steps m k] at told
    obtain ⟨last, others, low, done, busyThen⟩ := ih (congrArg Machine.tasks told)
    refine ⟨last, .cons made rfl after waits told others, by omega, done, fun i begun unfinished => ?_⟩
    rcases Nat.lt_trichotomy i n with early | rfl | later_on
    · omega
    · exact ⟨_, List.cons_ne_nil _ _, tasks⟩
    · rcases Nat.lt_trichotomy i k with inside | rfl | behind
      · obtain ⟨first, _, stands⟩ := busy i later_on inside
        refine ⟨first ++ .reportExit retrieval.registry
          ((m.steps n).world.retrieve m.thread retrieval).answer :: later.map .retrieveAtExit, ?_, ?_⟩
        · exact List.append_ne_nil_of_right_ne_nil _ (List.cons_ne_nil _ _)
        · rw [stands, List.append_assoc]
          rfl
      · exact ⟨_ :: later.map .retrieveAtExit, List.cons_ne_nil _ _, waits⟩
      · exact busyThen i behind unfinished

-- While the thread is not at its end, what it has given up stays given up.
theorem Reached.kept_gone (reached : m.Reached hashing) (runs : m.world.Runs m.thread)
    (ends : .endThread ∉ m.tasks.take 1) (gone : (m.world.thread m.thread).memosGone = true) :
    m.step.world.Runs m.thread ∧ (m.step.world.thread m.thread).memosGone = true := by
  cases tasks : m.tasks with
  | nil =>
    rw [step_of_nil tasks]
    exact ⟨runs, gone⟩
  | cons task later =>
    rw [tasks, List.take_succ_cons, List.mem_cons, not_or] at ends
    have advanced := reached.steady.step_advanced reached.arises tasks (Ne.symm ends.1) runs
    rw [step_of_cons tasks]
    exact ⟨advanced.runs, advanced.memosGone gone⟩

theorem exitTasks_early {thread : Thread} (first : thread.memosEndFirst = true) : thread.exitTasks
    = .dropMemos :: (thread.atExit.map .retrieveAtExit ++ [.endThread, .answer none .done]) := by
  unfold Thread.exitTasks
  simp only [first, if_true, List.cons_append]

theorem exitTasks_late {thread : Thread} (last : thread.memosEndFirst = false) : thread.exitTasks
    = thread.atExit.map .retrieveAtExit ++ [.dropMemos, .endThread, .answer none .done] := by
  unfold Thread.exitTasks
  simp only [last, Bool.false_eq_true, if_false, List.append_assoc, List.cons_append, List.nil_append]

theorem machineFor_endThread {w : World} {name : Name} {thread : Thread}
    (found : w.threads.find? (.worker name) = some thread) :
    w.machineFor (.endThread name) = ⟨w, .worker name, thread.exitTasks⟩ := by
  unfold World.machineFor
  simp only [found]

-- A thread that is told to end makes the lookups that were left for that, in the order in which they
-- were left.  It has given its memos up before all of them, or gives them up after all of them.
structure Lasts (w : World) (name : Name) (thread : Thread) (run : Machine) (first last : Nat) : Prop where
  lookups : LastLookups run first thread.atExit last
  memosFirst : thread.memosEndFirst = true → first = 1 ∧ run.step.world = w.dropMemos (.worker name) ∧
    (run.steps last).tasks = [.endThread, .answer none .done] ∧
    ∀ i, first ≤ i → i ≤ last → ((run.steps i).world.thread (.worker name)).memosGone = true
  memosLast : thread.memosEndFirst = false → first = 0 ∧ run.world = w ∧
    (run.steps last).tasks = [.dropMemos, .endThread, .answer none .done]

theorem Reached.lasts (reached : m.Reached hashing) (idle : m.tasks = []) {name : Name} {thread : Thread}
    (found : m.world.threads.find? (.worker name) = some thread) :
    ∃ first last, Lasts m.world name thread (m.world.machineFor (.endThread name)) first last := by
  have begun := machineFor_endThread found
  have reachedAt : ∀ i, ((m.world.machineFor (.endThread name)).steps i).Reached hashing :=
    fun i => reached.on (later_told idle (by trivial) i)
  generalize m.world.machineFor (.endThread name) = run at begun reachedAt ⊢
  have same : ∀ i, (run.steps i).thread = .worker name := fun i => by rw [thread_steps, begun]
  cases order : thread.memosEndFirst with
  | false =>
    have tasks : (run.steps 0).tasks
        = thread.atExit.map .retrieveAtExit ++ [.dropMemos, .endThread, .answer none .done] :=
      (congrArg Machine.tasks begun).trans (exitTasks_late order)
    obtain ⟨last, lookups, _, done, _⟩ := lastLookups_of_tasks _ tasks
    exact ⟨0, last, lookups, fun first => absurd (order.symm.trans first) Bool.false_ne_true,
      fun _ => ⟨rfl, by rw [begun], done⟩⟩
  | true =>
    have dropped : run.steps 1 = ⟨m.world.dropMemos (.worker name), .worker name,
        thread.atExit.map .retrieveAtExit ++ [.endThread, .answer none .done]⟩ := by
      refine (step_of_cons ((congrArg Machine.tasks begun).trans (exitTasks_early order))).trans ?_
      rw [begun]
      rfl
    obtain ⟨last, lookups, _, done, busy⟩ := lastLookups_of_tasks _ (congrArg Machine.tasks dropped)
    refine ⟨1, last, lookups, fun _ => ⟨rfl, congrArg Machine.world dropped, done, fun i low high => ?_⟩,
      fun first => absurd (first.symm.trans order) Bool.false_ne_true⟩
    suffices kept : (run.steps i).world.Runs (.worker name) ∧
        ((run.steps i).world.thread (.worker name)).memosGone = true from kept.2
    induction i, low using Nat.le_induction with
    | base =>
      obtain ⟨after, there, _, gone⟩ := World.thread_dropMemos m.world (.worker name)
      rw [dropped]
      exact ⟨⟨after, there⟩, (congrArg Thread.memosGone (World.thread_of_find? there)).trans gone⟩
    | succ i low ih =>
      obtain ⟨runs, gone⟩ := ih (by omega)
      -- The thread is not at its end, which waits behind its last lookups.
      have ahead : .endThread ∉ (run.steps i).tasks.take 1 := by
        obtain ⟨front, some, stands⟩ := busy i low (by omega)
        obtain ⟨task, front, rfl⟩ := List.exists_cons_of_ne_nil some
        have ended := (reachedAt i).steady.ended
        rw [stands, List.cons_append] at ended ⊢
        intro now
        have here : task = .endThread := (List.mem_singleton.mp now).symm
        have behind := (List.pairwise_cons.mp ended).1 .endThread
          (List.mem_append_right _ List.mem_cons_self) here
        cases behind
      rw [steps_succ, ← same i]
      exact (reachedAt i).kept_gone (by rwa [same i]) ahead (by rwa [same i])

-- What the registries have lines of, and what becomes of these.
structure CachesCounted (m : Machine) : Prop where
  -- A registry has one line for each thread that has been answered a lookup there since it started and
  -- has not given its memos up, and no other.  These are counted.
  counted : ∀ r registry, m.world.registries.find? r = some registry → ∃ threads : List ThreadId,
    threads.Nodup ∧
    (∀ t, t ∈ threads ↔
      (m.world.thread t).memosGone = false ∧ lookedSince t r m.world.journal = true) ∧
    (threads.map fun t => ((m.world.thread t).memo? r).map Memo.line).Perm
      ((registry.lines.toList.map Prod.fst).map some) ∧
    registry.lines.size = threads.length ∧
    ∀ t name, m.world.Runs t → (m.world.thread t).depth = 0 → m.world.registryNamed? name = some r →
      (m.world.operate t (.countCaches name)).answer = .number threads.length
  -- What a thread remembers is a line of its own.
  own : ∀ t, ∀ memo ∈ (m.world.thread t).memos, ∀ registry,
    m.world.registries.find? memo.registry = some registry →
    (∃ line, registry.lines.get? memo.line = some line) ∧
    (∃ since, Since m.world.journal t memo since) ∧
    ∀ u, ∀ other ∈ (m.world.thread u).memos, other.registry = memo.registry →
      (other.line = memo.line ↔ u = t)
  -- It is there until it is given up, which is done once.
  detaches : ∀ t, m.world.Runs t → (m.world.thread t).depth = 0 → ∀ front memo rest,
    (m.world.thread t).memos = front ++ memo :: rest → ∀ registry,
    (front.foldl (World.detachMemo t) m.world).registries.find? memo.registry = some registry →
    ∃ line left, registry.lines.remove? memo.line = some (line, left)
  punctual : World.Punctual m.world.journal
  -- A lookup may make a line as long as the thread has not given its memos up.  Afterwards it is
  -- answered alike, and changes nothing.
  lookups : m.world.Runs m.thread → (m.world.thread m.thread).depth = 0 → ∀ r registry,
    m.world.registries.find? r = some registry → ∀ h,
    (m.world.lookUp m.thread r h).1 = .ok (registry.contexts.get? h) ∧
    ((m.world.thread m.thread).memosGone = false →
      ((m.world.lookUp m.thread r h).2.thread m.thread).knows r = true) ∧
    ((m.world.thread m.thread).memosGone = true → (m.world.lookUp m.thread r h).2
      = m.world.note (.lookedUp m.thread r h (registry.contexts.get? h) .direct))
  lasts : m.tasks = [] → ∀ name thread, m.world.threads.find? (.worker name) = some thread →
    ∃ first last, Lasts m.world name thread (m.world.machineFor (.endThread name)) first last
  -- In whatever order a thread gives its memos up and makes its last lookups, nothing is left of it.
  exits : m.tasks = [] → ∀ name, m.world.Runs (.worker name) →
    ∀ after, after = (m.world.machineFor (.endThread name)).run →
    ¬ after.world.Runs (.worker name) ∧ ∀ r registry, after.world.registries.find? r = some registry →
      ∀ ticket line, registry.lines.get? ticket = some line →
        ∃ t, t ≠ .worker name ∧ ∃ memo ∈ (after.world.thread t).memos,
          memo.registry = r ∧ memo.line = ticket

theorem caches_counted (reached : m.Reached hashing) : CachesCounted m := by
  have arisen := reached.arises
  have lined : m.world.Lined := arisen.lined
  have tidy : m.world.Tidy := Arises.tidy arisen
  refine ⟨fun r registry live => ?_, fun t memo known registry live => ?_,
    fun t runs free front memo rest memos registry live => ?_, arisen.punctual,
    fun runs free r registry live h => reached.looks runs free live h,
    fun idle _ _ found => reached.lasts idle found, fun idle name runs after done => ?_⟩
  · have there : m.world.registries.contains r = true := Table.contains_iff.mpr ⟨registry, live⟩
    have perm := arisen.tended.perm_all lined tidy live
    have size : registry.lines.size = (m.world.threadsKnowing r).length := by
      have length := perm.length_eq
      rw [List.length_map, List.length_map, List.length_map, Arena.length_toList] at length
      exact length.symm
    refine ⟨m.world.threadsKnowing r, World.nodup_threadsKnowing tidy, fun t => ?_, perm, size,
      fun t name runs free named => ?_⟩
    · rw [World.mem_threadsKnowing]
      exact reached.counted t r there
    · simp only [World.operate, World.askRegistry, named]
      rw [World.underLock_free runs free live]
      exact congrArg Answer.number size
  · refine ⟨lined.filed t memo known registry live, Arises.dated arisen t memo known,
      fun u other knownToo same => ⟨fun line => ?_, ?_⟩⟩
    · exact (lined.apart t u memo known other knownToo registry live same.symm line.symm).symm
    · rintro rfl
      rw [lined.memo_unique knownToo known same]
  · have same : m.world.setThread t { m.world.thread t with memos := front ++ memo :: rest } = m.world := by
      rw [← memos]
      unfold World.setThread
      rw [Table.put_of_find? (World.find?_of_runs runs)]
    exact World.Lined.detaches runs free (by rwa [same]) live
  · subst done
    have gone := ended_run runs
    have reachedThen : (m.world.machineFor (.endThread name)).run.Reached hashing :=
      reached.on (later_told idle (by trivial) _)
    refine ⟨gone, fun r registry live ticket line stored => ?_⟩
    obtain ⟨t, memo, known, here, same⟩ := reachedThen.arises.tended r ticket ⟨registry, line, live, stored⟩
    refine ⟨t, ?_, memo, known, here, same⟩
    rintro rfl
    exact gone (World.runs_of_memo known)

/-! A session in which two threads retrieve a context, and one of them ends. -/

def visited : Machine :=
  (created.told (.act .main retrieves) 3).told (.act (.worker "visitor") retrieves) 3

theorem caches_counted_visited : CachesCounted visited ∧
    (∃ registry, visited.world.registries.find? globalRegistry = some registry ∧
      registry.lines.size = 2) ∧
    ¬ (visited.world.machineFor (.endThread "visitor")).run.world.Runs (.worker "visitor") ∧
    ∃ registry, (visited.world.machineFor (.endThread "visitor")).run.world.registries.find?
      globalRegistry = some registry ∧ registry.lines.size = 1 := by
  have lookedLater : Later created (created.told (.act .main retrieves) 3) :=
    later_told rfl (by trivial) 3
  have reached : visited.Reached fun _ _ => 0 :=
    created_reached.on (lookedLater.trans (later_told rfl (by trivial) 3))
  have counts := caches_counted reached
  obtain ⟨gone, _⟩ := counts.exits rfl "visitor" ⟨_, rfl⟩ _ rfl
  exact ⟨counts, ⟨_, rfl, rfl⟩, gone, _, rfl, rfl⟩

end Machine

end AttachedState
