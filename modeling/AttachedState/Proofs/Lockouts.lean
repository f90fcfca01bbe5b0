import AttachedState.Proofs.Workings

/-!
Lockouts.  A thread that holds a registry lock is refused every further one.  Whatever is done by a
thread that holds none is done without a refusal: neither its answer nor anything that the journal
tells of it is one, and it leaves the depth of all threads as it was.

What follows goes through the operations in the order of the modules that hold them.
-/

namespace AttachedState

namespace Task

-- Is about to tell that a lock was refused.
def lockedOut : Task → Bool
  | answer _ given | reportExit _ given => given.lockedOut
  | _ => false

end Task

namespace World

-- A thread is none of those of a race, and of those none remembers anything.
def Alone (w : World) (t : ThreadId) : Prop := ∀ n, t ≠ .racer n ∧ (w.thread (.racer n)).memos = []

-- A change that leaves a thread with the locks it has, and that tells of no refusal if it has none.
structure Calm (t : ThreadId) (w after : World) : Prop where
  depth : (after.thread t).depth = (w.thread t).depth
  silent : (w.thread t).depth = 0 → after.lockouts = w.lockouts
  alone : w.Alone t → after.Alone t
  marks : w.Alone t → (w.thread t).depth ≠ 0 → ∀ r, w.Marked r t → after.Marked r t

theorem Marked.of_find? {w after : World} {r : RegistryId} {t : ThreadId}
    (same : after.registries.find? r = w.registries.find? r) (marked : w.Marked r t) :
    after.Marked r t := by
  obtain ⟨registry, found, holder⟩ := marked
  exact ⟨registry, same.trans found, holder⟩

theorem Works.calm {t : ThreadId} {w after : World} (works : Works t w after) : Calm t w after where
  depth := works.depth
  silent _ := works.lockouts
  alone alone n := ⟨(alone n).1, by rw [works.others _ (Ne.symm (alone n).1), (alone n).2]⟩
  marks _ held _ marked := marked.of_find? (by rw [works.barred held])

namespace Calm

variable {t : ThreadId} {w middle after : World}

theorem refl (t : ThreadId) (w : World) : Calm t w w := (Works.refl t w).calm

theorem trans (first : Calm t w middle) (second : Calm t middle after) : Calm t w after where
  depth := second.depth.trans first.depth
  silent free := (second.silent (first.depth.trans free)).trans (first.silent free)
  alone alone := second.alone (first.alone alone)
  marks alone held r marked :=
    second.marks (first.alone alone) (by rwa [first.depth]) r (first.marks alone held r marked)

theorem of_same (threads : after.threads = w.threads) (lockouts : after.lockouts = w.lockouts)
    (registries : after.registries = w.registries) : Calm t w after :=
  (Works.of_same threads lockouts registries).calm

-- A thread that holds a lock may be told of a refusal.
theorem tell {e : Event} (calm : Calm t w after)
    (silent : (w.thread t).depth = 0 → e.lockedOut = false) : Calm t w (after.note e) where
  depth := calm.depth
  silent free := (lockouts_note after (silent free)).trans (calm.silent free)
  alone := calm.alone
  marks := calm.marks

theorem note {e : Event} (calm : Calm t w after) (silent : e.lockedOut = false) :
    Calm t w (after.note e) :=
  calm.tell fun _ => silent

end Calm

end World

open World

namespace Outcome

-- Neither what an operation tells nor what it answers is a refusal of a lock, unless its thread
-- holds one.
structure Calm (outcome : Outcome) (t : ThreadId) (w : World) : Prop where
  world : World.Calm t w outcome.world
  answer : outcome.answer.lockedOut = true → (w.thread t).depth ≠ 0

variable {t : ThreadId} {w middle after : World} {answer : Answer} {failure : Failure}
  {outcome : Outcome} {first : List Task}

theorem Calm.since (calm : outcome.Calm t middle) (before : World.Calm t w middle) :
    outcome.Calm t w := by
  refine ⟨before.trans calm.world, fun lockedOut => ?_⟩
  rw [← before.depth]
  exact calm.answer lockedOut

theorem calm_of (calm : World.Calm t w after) (other : answer.lockedOut = false) :
    (Outcome.mk after answer first).Calm t w :=
  ⟨calm, fun lockedOut => by rw [other] at lockedOut; cases lockedOut⟩

theorem calm_held (calm : World.Calm t w after) (held : (w.thread t).depth ≠ 0) :
    (Outcome.mk after answer first).Calm t w :=
  ⟨calm, fun _ => held⟩

theorem calm_unchanged (other : answer.lockedOut = false) :
    (Outcome.mk w answer first).Calm t w :=
  calm_of (.refl t w) other

end Outcome

namespace World

open Outcome

variable {hashing : RegistryId → Handle → UInt64} {w after : World} {t : ThreadId} {r : RegistryId}
  {task : Task} {later : List Task}

/-! Owners and registries. -/

theorem withdraw_ne_lockHeld (registry : Registry) (entry : Ticket) (h : Handle) (b : BlockId) :
    (registry.withdraw entry h b).1 ≠ .error .lockHeld := by
  unfold Registry.withdraw
  split
  · nofun
  · split <;> nofun

theorem giveUp_calm (w : World) (t : ThreadId) (g : Guard) : (w.giveUp t g).Calm t w := by
  refine ⟨(giveUp_works w t g).calm, ?_⟩
  unfold giveUp
  split
  · exact fun _ => (underLock_error ‹_›).2
  · rename_i cause after locked
    obtain ⟨registry, given⟩ := underLock_result locked
    cases cause with
    | lockHeld => exact absurd given.symm (withdraw_ne_lockHeld _ _ _ _)
    | _ => nofun
  · nofun

theorem destroy_calm (w : World) (t : ThreadId) (name : Name) : (w.destroy t name).Calm t w := by
  unfold destroy
  split
  · exact calm_unchanged rfl
  · exact (giveUp_calm _ t _).since (.of_same rfl rfl rfl)

-- A registry that a thread holds is not the one that is made.
theorem newRegistry_calm (arisen : Scene.Arises hashing ⟨w, t, [], later⟩) (name : Name) :
    (w.newRegistry name).Calm t w := by
  rw [newRegistry_eq]
  split
  · exact calm_unchanged rfl
  · refine calm_of ⟨rfl, fun _ => rfl, id, fun _ _ r marked => marked.of_find? ?_⟩ rfl
    obtain ⟨registry, found, _⟩ := marked
    have old := (Scene.Arises.numbered arisen).registries r _ (map?_of_find? found)
    refine Table.find?_put_of_ne _ _ fun same => ?_
    rw [same] at old
    exact Nat.lt_irrefl _ old

theorem openRegistry_calm (arisen : Scene.Arises hashing ⟨w, t, [], later⟩) (runs : w.Runs t)
    (name : Name) : (w.openRegistry t name).Calm t w := by
  by_cases free : (w.thread t).depth = 0
  · rw [openRegistry_free runs free]
    exact newRegistry_calm arisen name
  · rw [openRegistry_held free]
    exact calm_held (.refl t w) free

theorem shareRegistry_calm (w : World) (t : ThreadId) (name source : Name) :
    (w.shareRegistry name source).Calm t w := by
  unfold shareRegistry
  split
  · exact calm_unchanged rfl
  · exact calm_of (.of_same rfl rfl rfl) rfl

theorem dropRegistry_calm (w : World) (t : ThreadId) (name : Name) :
    (w.dropRegistry name).Calm t w := by
  unfold dropRegistry
  split
  · exact calm_unchanged rfl
  · exact calm_of (.of_same rfl rfl rfl) rfl

theorem askRegistry_calm (w : World) (t : ThreadId) (name : Name) {tell : Registry → Answer}
    (tells : ∀ registry, (tell registry).lockedOut = false) :
    (w.askRegistry t name tell).Calm t w := by
  unfold askRegistry
  split
  · exact calm_unchanged rfl
  · split
    · rename_i refused
      exact calm_held (.refl t w) (underLock_error refused).2
    · rename_i answer after locked
      obtain ⟨registry, given⟩ := underLock_result locked
      refine calm_of (underLock_works locked).calm ?_
      rw [given]
      exact tells registry

theorem contains_calm (w : World) (t : ThreadId) (name : Name) (address : UInt64) :
    (w.contains t name address).Calm t w := by
  unfold contains
  split
  · exact calm_unchanged rfl
  · exact calm_unchanged rfl
  · exact askRegistry_calm w t name fun _ => rfl

theorem showState_calm (w : World) (t : ThreadId) (name : Name) (layout : Layout) :
    (w.showState t name layout).Calm t w := by
  unfold showState
  split
  · exact calm_unchanged rfl
  · split
    · exact calm_unchanged rfl
    · split
      · rename_i refused
        exact calm_held (.refl t w) (underLock_error refused).2
      · rename_i locked
        exact calm_of (underLock_works locked).calm rfl

/-! Key spaces and keys. -/

theorem openSpace_calm (w : World) (t : ThreadId) (name : Name) : (w.openSpace name).Calm t w :=
  calm_of (.of_same rfl rfl rfl) rfl

theorem shareSpace_calm (w : World) (t : ThreadId) (name source : Name) :
    (w.shareSpace name source).Calm t w := by
  unfold shareSpace
  split
  · exact calm_unchanged rfl
  · exact calm_of (.of_same rfl rfl rfl) rfl

theorem dropSpace_calm (w : World) (t : ThreadId) (name : Name) : (w.dropSpace name).Calm t w := by
  unfold dropSpace
  split
  · exact calm_of (.of_same rfl rfl rfl) rfl
  · exact calm_unchanged rfl

theorem showSpace_calm (w : World) (t : ThreadId) (name : Name) (layout : Layout) :
    (w.showSpace name layout).Calm t w := by
  unfold showSpace
  split <;> exact calm_unchanged rfl

theorem isRegistered_calm (w : World) (t : ThreadId) (name : Name) (slot : Slot) :
    (w.isRegistered name slot).Calm t w := by
  unfold isRegistered
  split <;> exact calm_unchanged rfl

theorem registerKey_calm (w : World) (t : ThreadId) (name space : Name) (kind : Kind) :
    (w.registerKey name space kind).Calm t w := by
  unfold registerKey
  split
  · exact calm_unchanged rfl
  · split
    · exact calm_unchanged rfl
    · exact calm_of (.note (.of_same rfl rfl rfl) rfl) rfl

theorem dropKey_calm (w : World) (t : ThreadId) (name : Name) : (w.dropKey name).Calm t w := by
  unfold dropKey
  split
  · exact calm_unchanged rfl
  · simp only
    split
    · exact calm_of (.of_same rfl rfl rfl) rfl
    · exact calm_of (.note (.of_same rfl rfl rfl) rfl) rfl

theorem showKey_calm (w : World) (t : ThreadId) (name : Name) (layout : Layout) :
    (w.showKey name layout).Calm t w := by
  unfold showKey
  split <;> exact calm_unchanged rfl

theorem keyIsIn_calm (w : World) (t : ThreadId) (name space : Name) :
    (w.keyIsIn name space).Calm t w := by
  unfold keyIsIn
  split <;> exact calm_unchanged rfl

theorem raceForKeys_calm (w : World) (t : ThreadId) (name : Name) (threads each : Nat) :
    (w.raceForKeys name threads each).Calm t w := by
  unfold raceForKeys
  split
  · exact calm_unchanged rfl
  · exact calm_of (.of_same rfl rfl rfl) rfl

/-! Blocks. -/

theorem present_calm (w : World) (t : ThreadId) (retrieval : Retrieval) (b : BlockId) :
    (w.present retrieval b).Calm t w := by
  unfold present
  split
  · simp only
    split
    · exact calm_unchanged rfl
    · exact calm_of (.of_same rfl rfl rfl) rfl
  · exact calm_unchanged rfl

theorem retrieve_calm (w : World) (t : ThreadId) (retrieval : Retrieval) :
    (w.retrieve t retrieval).Calm t w := by
  unfold retrieve
  split
  · exact calm_unchanged rfl
  · split
    · exact calm_unchanged rfl
    · split
      · rename_i cause after looked
        obtain ⟨works, held⟩ := lookUp_works looked
        exact calm_held works.calm (held cause rfl)
      · rename_i after looked
        exact calm_of (lookUp_works looked).1.calm (Answer.lockedOut_raise _ _)
      · rename_i b after looked
        have presented := (present_calm after t retrieval b).since (lookUp_works looked).1.calm
        exact ⟨presented.world, presented.answer⟩

theorem leaveForExit_calm (w : World) (t : ThreadId) (retrieval : Retrieval) :
    (w.leaveForExit t retrieval).Calm t w :=
  calm_of (Works.calm (.put rfl rfl rfl rfl)) rfl

theorem hold_calm (w : World) (t : ThreadId) (state name : Name) : (w.hold state name).Calm t w := by
  unfold hold
  split
  · exact calm_unchanged rfl
  · exact calm_of (.of_same rfl rfl rfl) rfl

theorem release_calm (w : World) (t : ThreadId) (name : Name) : (w.release name).Calm t w := by
  unfold release
  split
  · exact calm_unchanged rfl
  · exact calm_of (.of_same rfl rfl rfl) rfl

theorem ofSubject_calm (w : World) (t : ThreadId) (subject : Subject) {tell : Block → Answer}
    (tells : ∀ block, (tell block).lockedOut = false) : (w.ofSubject subject tell).Calm t w := by
  unfold ofSubject
  split
  · exact calm_unchanged rfl
  · exact calm_unchanged (tells _)

theorem readKey_calm (w : World) (t : ThreadId) (name : Name) (subject : Subject) :
    (w.readKey name subject).Calm t w := by
  unfold readKey
  split
  · exact calm_unchanged rfl
  · exact ofSubject_calm w t subject fun _ => rfl

/-! Races.  What the threads of a race meet is not told; only the one that waits for them counts. -/

-- A thread that starts a race may do something itself before the race ends.
theorem race_calm {middle : World} {n : Nat} (outside : ∀ n, t ≠ .racer n) (raced : Raced r n w middle)
    (worked : Works t middle after) (apart : ∀ q, w.Marked q t → n = 0 ∨ q ≠ r) :
    Calm t w (endRacers n after) := by
  obtain ⟨ended, gone⟩ := endRacers_raced (Nat.le_refl n) after r
  have mine : ∀ k < n, t ≠ .racer k := fun k _ => outside k
  have depth : (middle.thread t).depth = (w.thread t).depth := by rw [raced.others t mine]
  refine ⟨?_, fun _ => ?_, fun alone k => ⟨outside k, ?_⟩, fun alone held q marked => ?_⟩
  · rw [ended.others t mine, worked.depth, depth]
  · rw [ended.lockouts, worked.lockouts, raced.lockouts]
  · by_cases entered : k < n
    · exact gone k entered
    · have idle : ∀ j < n, ThreadId.racer k ≠ .racer j := by
        intro j less same
        cases same
        exact entered less
      rw [ended.others _ idle, worked.others _ (Ne.symm (outside k)), raced.others _ idle, (alone k).2]
  · have known : ∀ k, w.KnowsOnly (.racer k) r := by
      intro k memo listed
      rw [(alone k).2] at listed
      cases listed
    have knownThen : ∀ k, after.KnowsOnly (.racer k) r := by
      intro k
      rw [KnowsOnly, worked.others _ (Ne.symm (outside k))]
      exact raced.knows known k
    refine marked.of_find? ?_
    rw [ended.elsewhere knownThen q (apart q marked), worked.barred (by rwa [depth]),
      raced.elsewhere known q (apart q marked)]

theorem raceToCreate_calm (outside : ∀ n, t ≠ .racer n) (w : World) (name : Name) (address : UInt64)
    (threads : Nat) : (w.raceToCreate t name address threads).Calm t w := by
  unfold raceToCreate
  split
  · exact calm_unchanged rfl
  · exact calm_unchanged rfl
  · rename_i r h _ _
    have tried := attempts_raced (Nat.le_refl (w.entrants r threads)) w r h
    have given := giveUps_works t (attempts r h (w.entrants r threads) w).1
      (attempts r h (w.entrants r threads) w).2 []
    refine ⟨race_calm outside tried given fun q marked => entrants_of_marked marked r threads, ?_⟩
    -- The counts are the only thing that may be refused.
    have mine := tried.others t fun n _ => outside n
    simp only
    split
    · nofun
    · rename_i refused
      rw [← mine]
      exact fun _ => underLock?_lockedOut refused
    · rename_i refused _
      rw [← mine, ← given.depth]
      exact fun _ => underLock?_lockedOut refused

theorem raceToRetrieve_calm (outside : ∀ n, t ≠ .racer n) (w : World) (name : Name)
    (address : UInt64) (threads rounds : Nat) :
    (w.raceToRetrieve name address threads rounds).Calm t w := by
  unfold raceToRetrieve
  split
  · exact calm_unchanged rfl
  · exact calm_unchanged rfl
  · rename_i r h _ _
    have looked := lookUpRacing_raced (Nat.le_refl (w.entrants r threads)) w r h rounds
    exact calm_of (race_calm outside looked (.refl t _) fun q marked =>
      entrants_of_marked marked r threads) rfl

/-! Every operation. -/

theorem operate_calm (arisen : Scene.Arises hashing ⟨w, t, [], later⟩) (runs : w.Runs t)
    (outside : ∀ n, t ≠ .racer n) (operation : Operation) : (w.operate t operation).Calm t w := by
  cases operation with
  | openRegistry registry looks =>
    cases looks
    · exact newRegistry_calm arisen registry
    · exact openRegistry_calm arisen runs registry
  | shareRegistry => exact shareRegistry_calm w t _ _
  | dropRegistry => exact dropRegistry_calm w t _
  | openSpace => exact openSpace_calm w t _
  | shareSpace => exact shareSpace_calm w t _ _
  | dropSpace => exact dropSpace_calm w t _
  | registerKey => exact registerKey_calm w t _ _ _
  | dropKey => exact dropKey_calm w t _
  | showKey => exact showKey_calm w t _ _
  | keyIsIn => exact keyIsIn_calm w t _ _
  | showSpace => exact showSpace_calm w t _ _
  | isRegistered => exact isRegistered_calm w t _ _
  | destroy => exact destroy_calm w t _
  | retrieve => exact retrieve_calm w t _
  | hold => exact hold_calm w t _ _
  | release => exact release_calm w t _
  | read => exact readKey_calm w t _ _
  | showSlot | showBlock => exact ofSubject_calm w t _ fun _ => rfl
  | showState => exact showState_calm w t _ _
  | showRegistry | countContexts | countCaches => exact askRegistry_calm w t _ fun _ => rfl
  | contains => exact contains_calm w t _ _
  | retrieveAtExit => exact leaveForExit_calm w t _
  | raceToCreate => exact raceToCreate_calm outside w _ _ _
  | raceForKeys => exact raceForKeys_calm w t _ _ _
  | raceToRetrieve => exact raceToRetrieve_calm outside w _ _ _ _

/-! Every task. -/

-- What comes of a task that a thread takes: nothing that tells of a refusal, unless the thread holds
-- a lock.
structure Unrefused (w : World) (t : ThreadId) (after : World × List Task) : Prop where
  silent : (w.thread t).depth = 0 → after.1.lockouts = w.lockouts
  tasks : (w.thread t).depth = 0 → ∀ task ∈ after.2, task.lockedOut = false

-- The same, if the thread is left with the locks it has.
structure Undisturbed (w : World) (t : ThreadId) (after : World × List Task) : Prop where
  calm : Calm t w after.1
  tasks : (w.thread t).depth = 0 → ∀ task ∈ after.2, task.lockedOut = false

theorem Undisturbed.unrefused {after : World × List Task} (undisturbed : w.Undisturbed t after) :
    w.Unrefused t after :=
  ⟨undisturbed.calm.silent, undisturbed.tasks⟩

theorem lockedOut_performs (nested : Bool) (actions : List Action) :
    ∀ task ∈ actions.map (Task.perform nested), task.lockedOut = false := by
  intro task listed
  obtain ⟨action, _, rfl⟩ := List.mem_map.mp listed
  rfl

theorem lockedOut_close (site : Construction) {answer : Answer} (other : answer.lockedOut = false) :
    ∀ task ∈ site.close answer, task.lockedOut = false := by
  intro task listed
  simp only [Construction.close, List.mem_cons, List.not_mem_nil, or_false] at listed
  rcases listed with rfl | rfl
  · rfl
  · exact other

theorem lockedOut_abandon (site : Construction) {failure : Failure}
    (other : (Answer.failed failure).lockedOut = false) :
    ∀ task ∈ site.abandon failure, task.lockedOut = false := by
  intro task listed
  rcases List.mem_append.mp listed with drop | last
  · obtain ⟨object, _, rfl⟩ := List.mem_map.mp drop
    rfl
  · exact lockedOut_close site other task last

theorem lockedOut_of_releases {tasks : List Task} (releases : ∀ task ∈ tasks, task.releases = true) :
    ∀ task ∈ tasks, task.lockedOut = false := by
  intro task listed
  have gives := releases task listed
  cases task <;> first | rfl | cases gives

theorem begin_undisturbed (w : World) (t : ThreadId) (asked : Option Action) (creation : Creation)
    (supplies : List (Supply Action)) :
    w.Undisturbed t (match w.beginCreation t asked creation supplies with
      | (.error failure, w) => (w, [.answer asked (.failed failure)])
      | (.ok site, w) => (w, [.construct site])) := by
  split <;> rename_i begun
  · rename_i failure after
    rw [beginCreation_error begun]
    refine .mk (.refl t w) fun free task listed => ?_
    rw [List.mem_singleton.mp listed]
    unfold beginCreation at begun
    repeat' split at begun
    all_goals simp only [Prod.mk.injEq, reduceCtorEq, false_and, Except.error.injEq] at begun
    all_goals obtain ⟨rfl, _⟩ := begun
    all_goals first | rfl | exact Answer.lockedOut_raise _ _ | skip
    exact absurd free (underLock?_lockedOut ‹_›)
  · obtain ⟨rfl, _⟩ := beginCreation_site begun
    refine .mk (.of_same rfl rfl rfl) fun _ task listed => ?_
    rw [List.mem_singleton.mp listed]
    rfl

theorem supplied_calm {source : Source} {h : Handle} {result : Except Panic Datum}
    (supplied : w.supplied t h source = (result, after)) :
    Calm t w after ∧ (result = .error .lockHeld → (w.thread t).depth ≠ 0) := by
  unfold World.supplied at supplied
  split at supplied
  · cases supplied
    exact ⟨.refl t w, nofun⟩
  · cases supplied
    exact ⟨.refl t w, nofun⟩
  · split at supplied
    · split at supplied <;> rename_i looked <;> cases supplied <;>
        obtain ⟨works, held⟩ := lookUp_works looked
      · exact ⟨works.calm, fun _ => held _ rfl⟩
      · exact ⟨works.calm, nofun⟩
      · exact ⟨works.calm, nofun⟩
    · cases supplied
      exact ⟨.refl t w, nofun⟩

theorem makeValue_calm {f : Factory} {h : Handle} {result : Except Panic Value}
    (made : w.makeValue t h f = (result, after)) :
    Calm t w after ∧ (result = .error .lockHeld → (w.thread t).depth ≠ 0) := by
  unfold makeValue at made
  split at made
  · cases made
    exact ⟨.refl t w, nofun⟩
  · split at made
    · rename_i cause _ supplied
      cases made
      obtain ⟨calm, held⟩ := supplied_calm supplied
      refine ⟨calm, fun refused => held ?_⟩
      cases refused
      rfl
    · rename_i supplied
      have calm := (supplied_calm supplied).1
      split at made <;> cases made <;> exact ⟨calm, nofun⟩

theorem make_undisturbed (w : World) (t : ThreadId) (site : Construction) (f : Factory) :
    w.Undisturbed t (w.make t site f) := by
  unfold make
  split
  · rename_i cause after made
    obtain ⟨calm, held⟩ := makeValue_calm made
    refine .mk calm fun free => lockedOut_abandon site ?_
    cases cause with
    | lockHeld => exact absurd free (held rfl)
    | _ => rfl
  · rename_i value after made
    have calm : ∀ object, Calm t w (after.takeNumber.2.note (.objectMade site.block f.slot object)) :=
      fun object => .note ((makeValue_calm made).1.trans (.of_same rfl rfl rfl)) rfl
    simp only
    split
    · refine .mk (calm _) fun _ task listed => ?_
      rw [List.mem_singleton.mp listed]
      rfl
    · refine .mk (calm _) fun _ task listed => ?_
      simp only [List.mem_cons, List.not_mem_nil, or_false] at listed
      rcases listed with rfl | rfl | rfl <;> rfl

theorem giveUp_first (w : World) (t : ThreadId) (g : Guard) :
    (w.giveUp t g).first = guardTasks g := by
  unfold giveUp
  split <;> rfl

theorem register_undisturbed (w : World) (t : ThreadId) (site : Construction) :
    w.Undisturbed t (w.register t site) := by
  unfold register
  split
  · rename_i refused
    obtain ⟨_, held⟩ := underLock_error refused
    exact .mk (.refl t w) fun free => absurd free held
  · rename_i after locked
    exact .mk (underLock_works locked).calm fun _ =>
      lockedOut_abandon site (Answer.lockedOut_raise _ _)
  · rename_i entry after locked
    have enrolled : Calm t w ({ after with
        blocks := after.blocks.put site.block site.built }.note (.stateCreated site.registry entry
          site.block site.handle site.built.slotCount)) :=
      .note ((underLock_works locked).calm.trans (.of_same rfl rfl rfl)) rfl
    simp only
    split
    · refine .mk (enrolled.trans (giveUp_calm _ t _).world) fun _ task listed => ?_
      rw [giveUp_first] at listed
      rcases List.mem_append.mp listed with given | last
      · exact lockedOut_of_releases (guardTasks_release _) task given
      · exact lockedOut_close site rfl task last
    · have entitled : ∀ states, Calm t w { ({ after with
          blocks := after.blocks.put site.block site.built }.note (.stateCreated site.registry entry
            site.block site.handle site.built.slotCount)) with states } :=
        fun states => enrolled.trans (.of_same rfl rfl rfl)
      split
      · exact .mk (entitled _) fun _ => lockedOut_close site rfl
      · exact .mk (entitled _) fun _ => lockedOut_close site rfl

theorem construct_undisturbed (w : World) (t : ThreadId) (site : Construction) :
    w.Undisturbed t (w.construct t site) := by
  unfold construct
  split
  · exact register_undisturbed w t site
  · rename_i f rest _
    refine .mk (.note (.refl t w) rfl) fun _ task listed => ?_
    rcases List.mem_append.mp listed with before | last
    · exact lockedOut_performs true f.before task before
    · rw [List.mem_singleton.mp last]
      rfl

theorem dropObject_undisturbed (w : World) (t : ThreadId) (b : BlockId) (h : Handle) (object : Object) :
    w.Undisturbed t (w.dropObject t b h object) := by
  unfold dropObject
  refine .mk (.tell (.refl t w) fun free => ?_) fun _ => lockedOut_performs true object.onDrop
  split
  · cases w.registryNamed? object.through with
    | none => rfl
    | some r =>
      cases asked : w.underLock? t r (·.contexts.contains h) with
      | ok answer =>
        simp only [Option.map_some, asked]
        rfl
      | error cause => exact absurd free (underLock?_lockedOut asked)
  · rfl

theorem releaseBlock_undisturbed (w : World) (t : ThreadId) (later : List Task) (b : BlockId) :
    w.Undisturbed t (w.releaseBlock later b) := by
  unfold releaseBlock
  split
  · exact .mk (.refl t w) fun _ => List.forall_mem_nil _
  · split
    · exact .mk (.refl t w) fun _ => List.forall_mem_nil _
    · refine .mk (.of_same rfl rfl rfl) fun _ task listed => ?_
      obtain ⟨object, _, rfl⟩ := List.mem_map.mp listed
      rfl

-- A registry that a thread shows to host code is not given up meanwhile.
theorem releaseRegistry_undisturbed (kept : w.Marked r t → .releaseRegistry r ∈ later) :
    w.Undisturbed t (w.releaseRegistry later r) := by
  unfold releaseRegistry
  split
  · exact .mk (.refl t w) fun _ => List.forall_mem_nil _
  · rename_i unneeded
    split
    · exact .mk (.refl t w) fun _ => List.forall_mem_nil _
    · refine .mk ⟨rfl, fun _ => rfl, id, fun _ _ q marked => ?_⟩ fun _ task listed => ?_
      · refine marked.of_find? ?_
        have other : q ≠ r := by
          rintro rfl
          refine unneeded (Bool.or_eq_true _ _ |>.mpr (.inr ?_))
          exact List.any_eq_true.mpr ⟨_, kept marked, by simp [Task.refersToRegistry]⟩
        exact (Table.find?_erase _ _ _).trans (if_neg other)
      · obtain ⟨b, _, rfl⟩ := List.mem_map.mp listed
        rfl

-- Most tasks neither take a lock for good nor give one back.
theorem take_undisturbed (arisen : Scene.Arises hashing ⟨w, t, [], bearing (task :: later)⟩)
    (runs : w.Runs t) (outside : ∀ n, t ≠ .racer n) (ordinary : task.turns = false)
    (other : (w.thread t).depth = 0 → task.lockedOut = false)
    (kept : ∀ r, task = .releaseRegistry r → w.Marked r t → .releaseRegistry r ∈ later) :
    w.Undisturbed t (w.take t later task) := by
  have silent : ∀ task ∈ ([] : List Task), task.lockedOut = false := List.forall_mem_nil _
  cases task with
  | perform nested action =>
    have before : Scene.Arises hashing ⟨w, t, [], bearing later⟩ := arisen
    cases action with
    | operate operation =>
      obtain ⟨calm, held⟩ := operate_calm before runs outside operation
      have releases := (operate_passed before runs outside operation).releases
      refine .mk calm fun free task listed => ?_
      rcases List.mem_append.mp listed with first | last
      · exact lockedOut_of_releases releases task first
      · rw [List.mem_singleton.mp last]
        exact eq_false_of_ne_true fun lockedOut => held lockedOut free
    | create creation supplies => exact begin_undisturbed w t _ creation supplies
    | whileLocked => cases ordinary
  | construct site => exact construct_undisturbed w t site
  | make site f => exact make_undisturbed w t site f
  | dropObject b h object => exact dropObject_undisturbed w t b h object
  | releaseBlock b => exact releaseBlock_undisturbed w t later b
  | releaseRegistry r => exact releaseRegistry_undisturbed (kept r rfl)
  | retrieveAtExit retrieval =>
    have before : Scene.Arises hashing ⟨w, t, [], bearing later⟩ := arisen
    obtain ⟨calm, held⟩ := retrieve_calm w t retrieval
    have releases := (retrieve_passed before runs retrieval).releases
    refine .mk calm fun free task listed => ?_
    rcases List.mem_append.mp listed with first | last
    · exact lockedOut_of_releases releases task first
    · rw [List.mem_singleton.mp last]
      exact eq_false_of_ne_true fun lockedOut => held lockedOut free
  | noteOverwritten => exact .mk (.note (.refl t w) rfl) fun _ => silent
  | reportExit | answer => exact .mk (.tell (.refl t w) other) fun _ => silent
  | dropMemos => exact .mk (dropMemos_works w t).calm fun _ => silent
  | unlock | endThread => cases ordinary

/-! The tasks that take a lock, give one back or end the thread. -/

theorem whileLocked_unrefused (w : World) (t : ThreadId) (nested : Bool) (name : Name)
    (actions : List Action) : w.Unrefused t (w.perform t nested (.whileLocked name actions)) := by
  have answered : ∀ {asked : Option Action} {failure : Failure},
      (Answer.failed failure).lockedOut = false → w.Unrefused t (w, [.answer asked (.failed failure)]) := by
    intro asked failure other
    refine ⟨fun _ => rfl, fun _ task listed => ?_⟩
    rw [List.mem_singleton.mp listed]
    exact other
  unfold perform
  simp only
  split
  · exact answered rfl
  · split
    · rename_i r _ refused
      refine ⟨fun _ => rfl, fun free => ?_⟩
      unfold lock? at refused
      simp only [if_pos free, reduceCtorEq] at refused
    · rename_i r _ after taken
      refine ⟨fun free => ?_, fun _ task listed => ?_⟩
      · unfold lock? at taken
        simp only [if_pos free, Option.some.injEq] at taken
        subst taken
        rfl
      · rcases List.mem_append.mp listed with inside | last
        · exact lockedOut_performs true actions task inside
        · simp only [List.mem_cons, List.not_mem_nil, or_false] at last
          rcases last with rfl | rfl | rfl <;> rfl

theorem turn_unrefused (turns : task.turns = true) : w.Unrefused t (w.take t later task) := by
  cases task with
  | perform nested action =>
    cases action with
    | whileLocked name actions => exact whileLocked_unrefused w t nested name actions
    | operate | create => cases turns
  | unlock | endThread => exact ⟨fun _ => rfl, fun _ => List.forall_mem_nil _⟩
  | _ => cases turns

theorem Alone.of_others (alone : w.Alone t) (others : ∀ u, u ≠ t → after.thread u = w.thread u) :
    after.Alone t :=
  fun n => ⟨(alone n).1, by rw [others _ (Ne.symm (alone n).1), (alone n).2]⟩

theorem turn_others (turns : task.turns = true) (u : ThreadId) (other : u ≠ t) :
    (w.take t later task).1.thread u = w.thread u := by
  cases task with
  | perform nested action =>
    cases action with
    | whileLocked name actions =>
      simp only [take, perform]
      split
      · rfl
      · split
        · rfl
        · rename_i after taken
          unfold lock? at taken
          simp only at taken
          split at taken <;> cases taken
          exact (thread_put (w := w) (by rfl) u).trans (if_neg other)
    | operate | create => cases turns
  | unlock r => exact (thread_put (w := w) (by rfl) u).trans (if_neg other)
  | endThread => exact (thread_erase (w := w) (by rfl) u).trans (if_neg other)
  | _ => cases turns

-- A thread that holds a lock does not get another one.
theorem turn_registries (turns : task.turns = true) (keeps : task.unlocks = false)
    (held : (w.thread t).depth ≠ 0) : (w.take t later task).1.registries = w.registries := by
  cases task with
  | perform nested action =>
    cases action with
    | whileLocked name actions =>
      simp only [take, perform]
      split
      · rfl
      · rw [lock?_held held]
    | operate | create => cases turns
  | unlock => cases keeps
  | endThread => rfl
  | _ => cases turns

theorem marked_whileLocked {nested : Bool} {name : Name} {actions : List Action}
    (waits : .unlock r ∈ (w.perform t nested (.whileLocked name actions)).2) :
    (w.perform t nested (.whileLocked name actions)).1.Marked r t := by
  simp only [perform] at waits ⊢
  split at waits
  · simp at waits
  · rename_i shown _
    split at waits
    · simp at waits
    · rename_i after taken
      have same : r = shown := by simpa using waits
      subst same
      unfold lock? at taken
      simp only at taken
      split at taken <;> cases taken
      exact ⟨_, Table.find?_put_self .., rfl⟩

end World

end AttachedState
