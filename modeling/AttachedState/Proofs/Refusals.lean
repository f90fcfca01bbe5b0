import AttachedState.Proofs.Likeness
import AttachedState.Proofs.Reentrancy

/-!
Refusals.  Whatever a thread that holds a registry lock asks of a registry is refused, unless its own
line answers, and nothing comes of it.  So a run with such refusals goes the way of the same run
without the operations that were refused.
-/

namespace AttachedState

open Scene

namespace Thread.Like

variable {live : RegistryId → Bool} {ordered : Prop} {one middle other : Thread}

theorem symm (like : Like live ordered one other) : Like live ordered other one :=
  ⟨like.depth.symm, like.memos.symm, like.memosGone.symm, like.atExit.symm, fun holds =>
    ⟨(like.order holds).1.symm, (like.order holds).2.symm⟩⟩

theorem trans (like : Like live ordered one middle) (next : Like live ordered middle other) :
    Like live ordered one other :=
  ⟨next.depth.trans like.depth, next.memos.trans like.memos, next.memosGone.trans like.memosGone,
    next.atExit.trans like.atExit, fun holds =>
      ⟨(next.order holds).1.trans (like.order holds).1, (next.order holds).2.trans (like.order holds).2⟩⟩

-- A lookup that is refused leaves its thread like this, whichever way it went.
theorem of_refused {thread : Thread} (refused : thread = one ∨ thread = one.noteLookup ∨
      thread = { one.noteLookup with memos := one.memos.filter fun memo => live memo.registry }) :
    Like live False one thread := by
  have depth := noteLookup_depth one
  have atExit := noteLookup_atExit one
  rcases refused with rfl | rfl | rfl
  · exact .refl _ _ _
  · exact ⟨depth, by rw [noteLookup_memos], noteLookup_memosGone _, atExit, nofun⟩
  · refine ⟨depth, ?_, noteLookup_memosGone _, atExit, nofun⟩
    simp only [List.filter_filter, Bool.and_self]

end Thread.Like

namespace World

variable {w : World} {t : ThreadId}

-- Nothing has come of what a thread did: all registries with their contexts and lines are the same,
-- nothing was made or told, and so are the other threads and the thread's own memos, but for those
-- of registries that are gone.
structure Untouched (t : ThreadId) (w after : World) : Prop where
  rest : ∃ threads, after = { w with threads }
  runs : ∀ u, after.Runs u ↔ w.Runs u
  others : ∀ u, u ≠ t → after.thread u = w.thread u
  own : (w.thread t).Like w.registries.contains False (after.thread t)

namespace Untouched

theorem refl (t : ThreadId) (w : World) : Untouched t w w :=
  ⟨⟨_, rfl⟩, fun _ => Iff.rfl, fun _ _ => rfl, .refl _ _ _⟩

theorem put {thread : Thread} (runs : w.Runs t)
    (like : (w.thread t).Like w.registries.contains False thread) :
    Untouched t w (w.setThread t thread) := by
  refine ⟨⟨_, rfl⟩, fun u => ?_, fun u other => ?_, ?_⟩
  · unfold Runs setThread
    rw [Table.find?_put]
    split
    · rename_i here
      subst here
      exact ⟨fun _ => runs, fun _ => ⟨_, rfl⟩⟩
    · exact Iff.rfl
  · have same : (w.setThread t thread).thread u = if u = t then thread else w.thread u :=
      thread_put rfl u
    rw [same, if_neg other]
  · have same : (w.setThread t thread).thread t = if t = t then thread else w.thread t :=
      thread_put rfl t
    rw [same, if_pos rfl]
    exact like

end Untouched

-- The action asks for the lock of a registry: what it names is there, and the thread's line does not
-- hold the handle that it looks up.
inductive NeedsLock (w : World) (t : ThreadId) : Action → Prop where
  | create {creation : Creation} {supplies : List (Supply Action)} {factories : List Factory}
      (address : Handle.ofAddress? creation.address = some h)
      (named : w.registryNamed? creation.registry = some r)
      (new : w.states.contains creation.state = false)
      (supplied : supplies.mapM (·.factory? w) = some factories) :
      NeedsLock w t (.create creation supplies)
  | retrieve {retrieval : Retrieval} (address : Handle.ofAddress? retrieval.address = some h)
      (named : w.registryNamed? retrieval.registry = some r) (cold : w.lineOf t r ≠ some h) :
      NeedsLock w t (.operate (.retrieve retrieval))
  | contains {name : Name} {address : UInt64} (handle : Handle.ofAddress? address = some h)
      (named : w.registryNamed? name = some r) :
      NeedsLock w t (.operate (.contains name address))
  | countContexts {name : Name} (named : w.registryNamed? name = some r) :
      NeedsLock w t (.operate (.countContexts name))
  | countCaches {name : Name} (named : w.registryNamed? name = some r) :
      NeedsLock w t (.operate (.countCaches name))
  | showRegistry {name : Name} {layout : Layout} (named : w.registryNamed? name = some r) :
      NeedsLock w t (.operate (.showRegistry name layout))
  | showState {name : Name} {layout : Layout} {g : Guard} {block : Block}
      (named : w.states.find? name = some g) (found : w.blocks.find? g.block = some block) :
      NeedsLock w t (.operate (.showState name layout))
  | openRegistry {name : Name} : NeedsLock w t (.operate (.openRegistry name true))
  | whileLocked {name : Name} {actions : List Action} (named : w.registryNamed? name = some r) :
      NeedsLock w t (.whileLocked name actions)

variable {u : ThreadId} {r : RegistryId} {registry : Registry} {h : Handle} {tasks : List Task}
  {hashing : RegistryId → Handle → UInt64}

-- A lookup that the line does not answer.
theorem lookUp_untouched (arisen : Arises hashing ⟨w, u, [], tasks⟩) (runs : w.Runs t)
    (held : (w.thread t).depth ≠ 0) (live : w.registries.find? r = some registry)
    (cold : w.lineOf t r ≠ some h) :
    ∃ after, w.lookUp t r h = (.error .lockHeld, after) ∧ w.Untouched t after := by
  obtain ⟨thread, refused, left⟩ := lookUp_held runs held (arisen.cold_memo live cold)
  exact ⟨_, refused, .put runs (.of_refused left)⟩

theorem askRegistry_held (held : (w.thread t).depth ≠ 0) {name : Name}
    (named : w.registryNamed? name = some r) (tell : Registry → Answer) :
    w.askRegistry t name tell = .fail w (.panic .lockHeld) := by
  unfold askRegistry
  rw [named]
  simp only
  rw [underLock_held held]

-- All that is left of a refused action is its answer.
theorem perform_refused (arisen : Arises hashing ⟨w, u, [], tasks⟩) (runs : w.Runs t)
    (held : (w.thread t).depth ≠ 0) {action : Action} (needs : w.NeedsLock t action) (nested : Bool) :
    ∃ after, w.perform t nested action = (after,
        [.answer (if nested then some action else none) (.failed (.panic .lockHeld))]) ∧
      w.Untouched t after := by
  -- Most are asked for the lock before anything else is done.
  have asks : ∀ operation : Operation, w.operate t operation = .fail w (.panic .lockHeld) →
      ∃ after, w.perform t nested (.operate operation) = (after,
        [.answer (if nested then some (.operate operation) else none) (.failed (.panic .lockHeld))]) ∧
      w.Untouched t after := by
    intro operation refused
    refine ⟨w, ?_, .refl t w⟩
    simp only [perform, refused]
    rfl
  cases needs with
  | create address named new supplied =>
    refine ⟨w, ?_, .refl t w⟩
    simp only [perform, beginCreation, address, named, new, supplied, underLock?, underLock_held held]
    rfl
  | retrieve address named cold =>
    obtain ⟨registry, live⟩ := (Arises.live arisen).registry_named (Arises.tidy arisen) named
    obtain ⟨after, refused, untouched⟩ := lookUp_untouched arisen runs held live cold
    refine ⟨after, ?_, untouched⟩
    simp only [perform, operate, retrieve, address, named, refused]
    rfl
  | contains handle named =>
    refine asks _ ?_
    simp only [operate, contains, named, handle]
    exact askRegistry_held held named _
  | countContexts named => exact asks _ (askRegistry_held held named _)
  | countCaches named => exact asks _ (askRegistry_held held named _)
  | showRegistry named => exact asks _ (askRegistry_held held named _)
  | showState named found =>
    refine asks _ ?_
    simp only [operate, showState, named, found]
    rw [underLock_held held]
  | openRegistry => exact asks _ (openRegistry_held held _)
  | whileLocked named =>
    refine ⟨w, ?_, .refl t w⟩
    simp only [perform, named, lock?_held held]

end World

-- The world without an owner, whose registration stays.
def World.orphaned (w : World) (name : Name) (g : Guard) : World :=
  { w with states := w.states.erase name }.note (.stateOrphaned g.registry g.entry g.block g.handle)

namespace Machine

-- The answer to a refused attempt to give an owner up.
def refusal (nested : Bool) (name : Name) : Task :=
  .answer (if nested then some (.operate (.destroy name)) else none) (.failed (.panic .lockHeld))

-- Whether the registry of an owner is still referred to without that owner.
def referredTo (m : Machine) (name : Name) (rest : List Task) (g : Guard) : Bool :=
  (m.world.orphaned name g).refersToRegistry g.registry || rest.any (·.refersToRegistry g.registry)

variable {hashing : RegistryId → Handle → UInt64} {m : Machine} {nested : Bool} {name : Name}
  {rest : List Task} {g : Guard}

/-! Owners that are given up under a lock. -/

-- What is left when an owner is given up that its registry cannot be asked to forget: the owner is
-- gone, which is told, and its references go, before the refusal is answered.
structure Orphans (m : Machine) (nested : Bool) (name : Name) (rest : List Task) (g : Guard) : Prop where
  gone : m.step = ⟨m.world.orphaned name g, m.thread,
    .releaseRegistry g.registry :: .releaseBlock g.block :: refusal nested name :: rest⟩
  -- As long as anything else refers to the registry, that is all.
  kept : m.referredTo name rest g = true →
    m.steps 3 = ⟨m.world.orphaned name g, m.thread, refusal nested name :: rest⟩
  -- If nothing does, the registry ends, and all its blocks are given up.
  last : m.referredTo name rest g = false → ∃ registry,
    m.world.registries.find? g.registry = some registry ∧ g.block ∈ registry.blocks ∧
    m.steps 2 = ⟨{ m.world.orphaned name g with registries := m.world.registries.erase g.registry },
      m.thread, registry.blocks.map .releaseBlock ++ .releaseBlock g.block :: refusal nested name :: rest⟩

theorem Reached.orphans (reached : m.Reached hashing) (held : (m.world.thread m.thread).depth ≠ 0)
    (tasks : m.tasks = .perform nested (.operate (.destroy name)) :: rest)
    (named : m.world.states.find? name = some g) : m.Orphans nested name rest g := by
  have arisen := reached.arises
  have owns : g ∈ m.scene.guards := Scene.mem_guards.mpr (.inl ⟨name, Table.mem_of_find? named⟩)
  obtain ⟨registry, contexts, live, removed⟩ := World.remove?_of_guard arisen owns
  have inside : g.block ∈ registry.blocks := List.contains_iff_mem.mp
    (Registry.contains_blocks.mpr ⟨_, _, HandleMap.entry?_of_remove? removed⟩)
  have gone : m.step = ⟨m.world.orphaned name g, m.thread,
      .releaseRegistry g.registry :: .releaseBlock g.block :: refusal nested name :: rest⟩ := by
    have given := World.giveUp_held (w := { m.world with states := m.world.states.erase name }) held g
    rw [step_of_cons tasks]
    simp only [World.take, World.perform, World.operate, World.destroy, named, given]
    rfl
  have stillLive : (m.world.orphaned name g).registries.find? g.registry = some registry := live
  refine ⟨gone, fun still => ?_, fun last => ⟨registry, live, inside, ?_⟩⟩
  · have kept : (m.world.orphaned name g).releaseRegistry
        (.releaseBlock g.block :: refusal nested name :: rest) g.registry
          = (m.world.orphaned name g, []) := if_pos still
    -- The registration that stays refers to the block.
    have stays : (m.world.orphaned name g).refersToBlock g.block = true := by
      have any : m.world.registries.any (·.blocks.contains g.block) = true :=
        (Table.any_iff (Arises.tidy arisen).registries).mpr
          ⟨_, _, live, List.contains_iff_mem.mpr inside⟩
      unfold World.refersToBlock
      exact Bool.or_eq_true_iff.mpr (.inr any)
    have there : (m.world.orphaned name g).releaseBlock (refusal nested name :: rest) g.block
        = (m.world.orphaned name g, []) := if_pos (by rw [stays, Bool.true_or])
    have second : m.step.step = ⟨m.world.orphaned name g, m.thread,
        .releaseBlock g.block :: refusal nested name :: rest⟩ := by
      rw [gone, step_of_cons rfl]
      simp only [World.take, kept, List.nil_append]
    show m.step.step.step = _
    rw [second, step_of_cons rfl]
    simp only [World.take, there, List.nil_append]
  · have ends : (m.world.orphaned name g).releaseRegistry
        (.releaseBlock g.block :: refusal nested name :: rest) g.registry
          = ({ m.world.orphaned name g with registries := m.world.registries.erase g.registry },
            registry.blocks.map .releaseBlock) := by
      refine (if_neg (Bool.eq_false_iff.mp last)).trans ?_
      rw [stillLive]
      rfl
    show m.step.step = _
    rw [gone, step_of_cons rfl]
    simp only [World.take, ends]

end Machine

/-! The same run without what was refused. -/

namespace World.Like

variable {t : ThreadId} {past pastToo : List Event} {w after w' : World}

theorem refl (t : ThreadId) (w : World) : w.Like t w.journal w.journal w :=
  ⟨⟨_, _, rfl⟩, fun _ => Iff.rfl, fun _ => .refl _ _ _, [], rfl, rfl⟩

-- What was told of both may be taken for what was told before.
theorem rebased (like : w.Like t past pastToo w') : w.Like t w.journal w'.journal w' :=
  ⟨like.rest, like.runs, like.threads, [], rfl, rfl⟩

-- Nothing came of what the thread did in the first world, so the other is like what is left.
theorem of_untouched (like : w.Like t past pastToo w') (untouched : w.Untouched t after) (e : Event) :
    (after.note e).Like t (after.note e).journal w'.journal w' := by
  obtain ⟨⟨threads, rfl⟩, runsAfter, others, own⟩ := untouched
  obtain ⟨⟨threadsToo, journal, rfl⟩, runs, alike, told⟩ := like
  refine ⟨⟨threadsToo, journal, rfl⟩, fun u => (runs u).trans (runsAfter u).symm, fun u => ?_, [], rfl,
    rfl⟩
  by_cases here : u = t
  · subst here
    have since := own.symm.trans ⟨(alike u).depth, (alike u).memos, (alike u).memosGone,
      (alike u).atExit, False.elim⟩
    exact ⟨since.depth, since.memos, since.memosGone, since.atExit, absurd rfl⟩
  · have same := others u here
    have before := alike u
    rw [← same] at before
    exact before

end World.Like

-- The command is not that the thread is to end.  What it then gives up first depends on which of its
-- lookups it made first, and a refused lookup counts among these.
def Command.spares (t : ThreadId) : Command → Prop
  | .act .. => True
  | .endThread name => .worker name ≠ t

namespace Machine

-- The other machine has done what the one did since the start, without the actions that were refused
-- to the thread for the lock that it held.  It is rid as well of owners that were given up in vain.
inductive Spared (t : ThreadId) (start : Machine) : Machine → Machine → Prop where
  | same : Spared t start start start
  | step (before : Spared t start one other) : Spared t start one.step other.step
  | told {command : Command} (before : Spared t start one other) (idle : one.tasks = [])
      (ofSession : command.ofSession) (spares : command.spares t) :
      Spared t start (one.world.machineFor command) (other.world.machineFor command)
  | refused {nested : Bool} {action : Action} {rest : List Task} (before : Spared t start one other)
      (here : one.thread = t) (tasks : one.tasks = .perform nested action :: rest)
      (held : (one.world.thread t).depth ≠ 0) (needs : one.world.NeedsLock t action) :
      Spared t start (one.steps 2) { other with tasks := rest }

variable {hashing : RegistryId → Handle → UInt64} {t : ThreadId} {start one other : Machine}

-- Two machines that have the same to do in worlds that differ in what a refused lookup leaves.
abbrev Matches (t : ThreadId) (one other : Machine) : Prop :=
  one.Paired (World.Like t one.world.journal other.world.journal) other

theorem Matches.machineFor {past pastToo : List Event}
    (related : one.world.Like t past pastToo other.world) {command : Command}
    (spares : command.spares t) :
    (one.world.machineFor command).Paired (World.Like t past pastToo)
      (other.world.machineFor command) := by
  cases command with
  | act u action => exact ⟨rfl, rfl, related.started u⟩
  | endThread name =>
    have runs := related.runs (.worker name)
    have alike := related.threads (.worker name)
    unfold World.machineFor
    simp only
    cases found : one.world.threads.find? (.worker name) with
    | none =>
      cases foundToo : other.world.threads.find? (.worker name) with
      | none => exact ⟨rfl, rfl, related⟩
      | some thread =>
        obtain ⟨_, some⟩ := runs.mp ⟨thread, foundToo⟩
        cases found.symm.trans some
    | some thread =>
      obtain ⟨threadToo, foundToo⟩ := runs.mpr ⟨thread, found⟩
      rw [World.thread_of_find? found, World.thread_of_find? foundToo] at alike
      have tasks : threadToo.exitTasks = thread.exitTasks := by
        unfold Thread.exitTasks
        rw [alike.atExit, (alike.order spares).2]
      simp only [foundToo]
      exact ⟨rfl, tasks, related⟩

-- Where the two machines stand.
structure Kin (hashing : RegistryId → Handle → UInt64) (t : ThreadId) (one other : Machine) : Prop where
  reached : one.Reached hashing
  arises : Scene.Arises hashing other.scene
  steady : Steady other
  matching : one.Matches t other

theorem Kin.step (kin : Kin hashing t one other) : Kin hashing t one.step other.step := by
  obtain ⟨reached, arises, steady, matching⟩ := kin
  obtain ⟨moves, steadyThen⟩ := steady.step arises
  have paired := (World.Like.congruence hashing t one.world.journal other.world.journal).step
    reached.arises reached.steady arises matching
  exact ⟨reached.step, Relation.ReflTransGen.trans arises moves, steadyThen, paired.thread, paired.tasks,
    paired.worlds.rebased⟩

theorem Kin.told (kin : Kin hashing t one other) {command : Command} (idle : one.tasks = [])
    (ofSession : command.ofSession) (spares : command.spares t) :
    Kin hashing t (one.world.machineFor command) (other.world.machineFor command) := by
  obtain ⟨reached, arises, _, matching⟩ := kin
  obtain ⟨moves, steadyThen⟩ := steady_told (matching.tasks.trans idle) ofSession
  have paired := Matches.machineFor matching.worlds spares
  exact ⟨Relation.ReflTransGen.tail reached (.told idle ofSession),
    Relation.ReflTransGen.trans arises moves, steadyThen, paired.thread, paired.tasks,
    paired.worlds.rebased⟩

-- A machine that leaves out an action stands as steadily.
theorem Steady.spared {nested : Bool} {action : Action} {rest : List Task} (steady : Steady other)
    (tasks : other.tasks = .perform nested action :: rest) : Steady { other with tasks := rest } := by
  obtain ⟨outside, runs, ended, dropped, gone, fair⟩ := steady
  rw [tasks] at runs ended dropped gone fair
  refine ⟨outside, runs.imp id fun answers task listed => answers task (List.mem_cons_of_mem _ listed),
    (List.pairwise_cons.mp ended).2, (List.pairwise_cons.mp dropped).2, fun listed => ?_,
    fun task listed => fair task (List.mem_cons_of_mem _ listed)⟩
  rcases gone (List.mem_cons_of_mem _ listed) with waits | already
  · rcases List.mem_cons.mp waits with first | behind
    · cases first
    · exact .inl behind
  · exact .inr already

theorem Kin.refused (kin : Kin hashing t one other) {nested : Bool} {action : Action}
    {rest : List Task} (here : one.thread = t) (tasks : one.tasks = .perform nested action :: rest)
    (held : (one.world.thread t).depth ≠ 0) (needs : one.world.NeedsLock t action) :
    Kin hashing t (one.steps 2) { other with tasks := rest } := by
  obtain ⟨reached, arises, steady, thread, same, related⟩ := kin
  subst here
  have runs := reached.runs_ahead _ (tasks ▸ List.mem_cons_self) rfl
  obtain ⟨after, refused, untouched⟩ := World.perform_refused reached.arises runs held needs nested
  have stepped : one.steps 2 = ⟨after.note (.answered (if nested then some action else none)
      (.failed (.panic .lockHeld))), one.thread, rest⟩ := by
    show one.step.step = _
    rw [step_of_cons tasks]
    simp only [World.take, refused]
    rfl
  have waits := same.trans tasks
  have scene : Machine.scene { other with tasks := rest } = other.scene := by
    unfold Machine.scene
    rw [waits]
    rfl
  refine ⟨reached.on (later_steps one 2), by rwa [scene], steady.spared waits, ?_⟩
  rw [stepped]
  exact ⟨thread, rfl, related.of_untouched untouched _⟩

theorem Spared.kin (reached : start.Reached hashing) (spared : Spared t start one other) :
    Kin hashing t one other := by
  induction spared with
  | same => exact ⟨reached, reached.arises, reached.steady, rfl, rfl, .refl t _⟩
  | step _ ih => exact ih.step
  | told _ idle ofSession spares ih => exact ih.told idle ofSession spares
  | refused _ here tasks held needs ih => exact ih.refused here tasks held needs

/-! Reports. -/

theorem report_of_journal {w after : World} {traced : Bool} {told : List Event}
    (journal : after.journal = told ++ w.journal) :
    reportOf traced (after.journal.take (after.journal.length - w.journal.length))
      = reportOf traced told := by
  rw [journal, List.length_append, Nat.add_sub_cancel, List.take_left]

-- A session gets the same report of the one and of the other.
theorem Kin.report (kin : Kin hashing t one other) {command : Command} (idle : one.tasks = [])
    (ofSession : command.ofSession) (spares : command.spares t) (traced : Bool) :
    (other.world.obey traced command).1 = (one.world.obey traced command).1 := by
  have begun := kin.told idle ofSession spares
  have paired : ∀ n, ((one.world.machineFor command).steps n).Paired
      (World.Like t one.world.journal other.world.journal)
      ((other.world.machineFor command).steps n) ∧
      Kin hashing t ((one.world.machineFor command).steps n)
        ((other.world.machineFor command).steps n) := by
    intro n
    induction n with
    | zero => exact ⟨Matches.machineFor kin.matching.worlds spares, begun⟩
    | succ n ih =>
      obtain ⟨paired, before⟩ := ih
      rw [steps_succ, steps_succ]
      exact ⟨(World.Like.congruence hashing t one.world.journal other.world.journal).step
        before.reached.arises before.reached.steady before.arises paired, before.step⟩
  obtain ⟨last, _⟩ := paired ((one.world.machineFor command).work + (other.world.machineFor command).work)
  rw [run_eq_steps, Nat.add_comm, run_eq_steps] at last
  obtain ⟨told, journal, journalToo⟩ := last.worlds.told
  exact (report_of_journal journalToo).trans (report_of_journal journal).symm

-- Each step tells the same of both.
theorem Kin.step_told (kin : Kin hashing t one other) : ∃ told,
    one.step.world.journal = told ++ one.world.journal ∧
    other.step.world.journal = told ++ other.world.journal :=
  ((World.Like.congruence hashing t one.world.journal other.world.journal).step kin.reached.arises
    kin.reached.steady kin.arises kin.matching).worlds.told

/-! Operations of a thread that holds a registry lock. -/

-- A retrieval that the line answers.
theorem Reached.served {m : Machine} (reached : m.Reached hashing) {retrieval : Retrieval}
    {r : RegistryId} {registry : Registry} {h : Handle}
    (address : Handle.ofAddress? retrieval.address = some h)
    (named : m.world.registryNamed? retrieval.registry = some r)
    (live : m.world.registries.find? r = some registry) (holds : m.world.lineOf t r = some h) :
    ∃ b after, registry.contexts.get? h = some b ∧ m.world.lookUp t r h = (.ok (some b), after) ∧
      after.registries = m.world.registries ∧ m.world.retrieve t retrieval = { after.present retrieval b
        with first := (after.present retrieval b).first ++ [.releaseRegistry r] } := by
  obtain ⟨_, _, found, _⟩ := reached.arises.mapped_of_lineOf live holds
  have runs : m.world.Runs t := World.runs_of_memo (List.mem_of_find?_eq_some found)
  obtain ⟨b, stored, ⟨after, looked, registries, _⟩, _⟩ :=
    (reached.nextLookup runs live h).warm holds
  refine ⟨b, after, stored, looked, registries, ?_⟩
  simp only [World.retrieve, address, named, looked]

-- What comes of the operations of a thread that holds a registry lock.
structure Reentrant (hashing : RegistryId → Handle → UInt64) (t : ThreadId) (m : Machine) : Prop where
  refused : ∀ nested action, m.world.NeedsLock t action → ∃ after,
    m.world.perform t nested action = (after,
      [.answer (if nested then some action else none) (.failed (.panic .lockHeld))]) ∧
    m.world.Untouched t after
  served : ∀ retrieval r registry h, Handle.ofAddress? retrieval.address = some h →
    m.world.registryNamed? retrieval.registry = some r → m.world.registries.find? r = some registry →
    m.world.lineOf t r = some h → ∃ b after, registry.contexts.get? h = some b ∧
      m.world.lookUp t r h = (.ok (some b), after) ∧ after.registries = m.world.registries ∧
      m.world.retrieve t retrieval = { after.present retrieval b with
        first := (after.present retrieval b).first ++ [.releaseRegistry r] }
  destroyed : ∀ nested name rest g, m.tasks = .perform nested (.operate (.destroy name)) :: rest →
    m.world.states.find? name = some g → m.Orphans nested name rest g
  -- However many operations were refused, now and later, it is as if they had been left out.
  spared : ∀ one other, Spared t m one other → one.Matches t other ∧
    (∃ told, one.step.world.journal = told ++ one.world.journal ∧
      other.step.world.journal = told ++ other.world.journal) ∧
    (one.tasks = [] → ∀ command : Command, command.ofSession → command.spares t → ∀ traced,
      (other.world.obey traced command).1 = (one.world.obey traced command).1)

theorem reentrant_without_effect {m : Machine} (reached : m.Reached hashing)
    (held : (m.world.thread t).depth ≠ 0) : m.Reentrant hashing t := by
  have depth := reached.depth t
  have here : t = m.thread := by
    by_contra elsewhere
    rw [if_neg elsewhere] at depth
    exact held depth
  have runs : m.world.Runs t := by
    rcases reached.steady.runs with runs | answers
    · rwa [here]
    · -- A thread that has ended holds no lock.
      have none_held : lockCount m.tasks = 0 := lockCount_of_bare fun task listed => by
        have last := answers task listed
        cases task <;> first | rfl | cases last
      rw [none_held, ite_self] at depth
      exact absurd depth held
  refine ⟨fun nested action needs => World.perform_refused reached.arises runs held needs nested,
    fun retrieval r registry h address named live holds => reached.served address named live holds,
    fun nested name rest g tasks named => reached.orphans (by rwa [here] at held) tasks named,
    fun one other spared => ?_⟩
  have kin := spared.kin reached
  exact ⟨kin.matching, kin.step_told, fun idle command ofSession spares traced =>
    kin.report idle ofSession spares traced⟩

-- A registry is shown to host code that asks whether a context is registered there.
def asking : Machine :=
  told ⟨.start fun _ _ => 0, .main, []⟩
    (.act .main (.whileLocked globalName [.operate (.contains globalName 64)])) 1

theorem reentrant_without_effect_asking : (asking.world.thread .main).depth = 1 ∧
    asking.Reentrant (fun _ _ => 0) .main ∧ ∃ after,
      asking.world.perform .main true (.operate (.contains globalName 64))
        = (after, [.answer (some (.operate (.contains globalName 64))) (.failed (.panic .lockHeld))]) ∧
      asking.world.Untouched .main after := by
  have reached : asking.Reached fun _ _ => 0 := later_told rfl (by trivial) 1
  have held : (asking.world.thread .main).depth ≠ 0 := by decide
  have reentrant := reentrant_without_effect reached held
  have needs : asking.world.NeedsLock .main (.operate (.contains globalName 64)) :=
    .contains (h := ⟨64, by decide⟩) rfl rfl
  exact ⟨rfl, reentrant, reentrant.refused true _ needs⟩

end Machine

end AttachedState
