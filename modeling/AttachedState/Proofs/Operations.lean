import AttachedState.Proofs.Slots
import AttachedState.Proofs.Teardown
import AttachedState.Proofs.Lookups

/-!
Operations.  What an operation does is a sequence of passes of the thread that performs it, and what
it leaves to be done only gives references up.
-/

namespace AttachedState

-- The tasks that an operation leaves.
def Task.releases : Task → Bool
  | releaseBlock _ | releaseRegistry _ => true
  | _ => false

namespace Answer

-- Says that a registration was gone before its owner, or belonged to another.
def accuses : Answer → Bool
  | failed (.panic (.removedTwice _)) | failed (.panic (.notOwner _)) => true
  | _ => false

theorem accuses_refusal (refusal : Refusal) (strict : Bool) :
    (failed (refusal.raise strict)).accuses = false := by
  cases strict <;> rfl

end Answer

namespace Outcome

structure Passed (outcome : Outcome) (w : World) (t : ThreadId) (later : List Task) : Prop where
  passes : Scene.Passes ⟨w, t, [], later⟩ ⟨outcome.world, t, [], outcome.first ++ later⟩
  releases : ∀ task ∈ outcome.first, task.releases = true
  fair : outcome.answer.accuses = false

variable {w after : World} {t : ThreadId} {later : List Task} {answer : Answer} {failure : Failure}

theorem passed_of (changes : Quiets w after) (fair : answer.accuses = false) :
    (of after answer).Passed w t later :=
  ⟨changes.passes t [] later, List.forall_mem_nil _, fair⟩

theorem passed_fail (fair : (Answer.failed failure).accuses = false) :
    (fail w failure).Passed w t later :=
  passed_of .refl fair

end Outcome

theorem Registry.withdraw_of_remove? (registry : Registry) {entry : Ticket} {h : Handle} {b : BlockId}
    {contexts : HandleMap BlockId}
    (removed : registry.contexts.remove? entry = some ((h, b), contexts)) :
    registry.withdraw entry h b
      = (.ok (registry.holding h), ({ registry with contexts } : Registry).scrub h) := by
  unfold Registry.withdraw
  rw [removed]
  exact if_pos ⟨rfl, rfl⟩

theorem Registry.register_of_insert (registry : Registry) {entry : Ticket} {h : Handle} {b : BlockId}
    {contexts : HandleMap BlockId}
    (inserted : registry.contexts.insert h b = .ok (entry, contexts)) :
    registry.register h b = (some entry, { registry with contexts }) := by
  unfold Registry.register
  rw [inserted]

theorem Registry.register_of_refused (registry : Registry) {h : Handle} {b : BlockId}
    {back : Rejected BlockId} (refused : registry.contexts.insert h b = .error back) :
    registry.register h b = (none, registry) := by
  unfold Registry.register
  rw [refused]

namespace World

open Outcome Scene

variable {hashing : RegistryId → Handle → UInt64} {w : World} {t : ThreadId} {later : List Task}

/-! Owners. -/

theorem underLock_register {r : RegistryId} {registry : Registry} {entry : Ticket} {h : Handle}
    {b : BlockId} {contexts : HandleMap BlockId} (runs : w.Runs t) (free : (w.thread t).depth = 0)
    (live : w.registries.find? r = some registry)
    (inserted : registry.contexts.insert h b = .ok (entry, contexts)) :
    w.underLock t r (·.register h b)
      = .ok (some entry, w.setRegistry r { registry with contexts, holder := none }) := by
  have grown := Registry.register_of_insert { registry with holder := some t } inserted
  rw [underLock_free runs free live, grown]

theorem underLock_refused {r : RegistryId} {registry : Registry} {h : Handle} {b : BlockId}
    {back : Rejected BlockId} (runs : w.Runs t) (free : (w.thread t).depth = 0)
    (live : w.registries.find? r = some registry)
    (refused : registry.contexts.insert h b = .error back) :
    w.underLock t r (·.register h b)
      = .ok (none, w.setRegistry r { registry with holder := none }) := by
  have kept := Registry.register_of_refused { registry with holder := some t } refused
  rw [underLock_free runs free live, kept]

-- The registration of an owner is there, and is the owner's.
theorem remove?_of_guard {s : Scene} (arisen : Arises hashing s) {g : Guard} (owns : g ∈ s.guards) :
    ∃ registry contexts, s.world.registries.find? g.registry = some registry ∧
      registry.contexts.remove? g.entry = some ((g.handle, g.block), contexts) := by
  have owned := Arises.owned arisen
  obtain ⟨contexts, live⟩ := owned.live g owns
  obtain ⟨registry, there, rfl⟩ := find?_of_map? live
  have kept := owned.kept g (List.mem_append_left _ owns) _ live
  obtain ⟨left, removed⟩ := HandleMap.remove?_of_entry? kept
  exact ⟨registry, left, there, removed⟩

theorem giveUp_held (held : (w.thread t).depth ≠ 0) (g : Guard) :
    w.giveUp t g = ⟨w.note (.stateOrphaned g.registry g.entry g.block g.handle),
      .failed (.panic .lockHeld), guardTasks g⟩ := by
  unfold giveUp
  rw [underLock_held held]

theorem giveUp_free {g : Guard} {registry : Registry} {contexts : HandleMap BlockId}
    (runs : w.Runs t) (free : (w.thread t).depth = 0)
    (live : w.registries.find? g.registry = some registry)
    (removed : registry.contexts.remove? g.entry = some ((g.handle, g.block), contexts)) :
    w.giveUp t g = ⟨(w.setRegistry g.registry
        { ({ registry with contexts } : Registry).scrub g.handle with holder := none }).note
        (.stateRemoved g.registry g.entry g.block g.handle (registry.holding g.handle)),
      .done, guardTasks g⟩ := by
  unfold giveUp
  rw [underLock_free runs free live]
  have took := Registry.withdraw_of_remove? { registry with holder := some t } removed
  simp only [took]
  rfl

-- The owner at hand is given up; its references are to go after what is to be done before.
theorem giveUp_spec (before : List Task) {after : List Task} {back : List Guard} {g : Guard}
    (arisen : Arises hashing ⟨w, t, g :: back, before ++ after⟩) (runs : w.Runs t) :
    Pass ⟨w, t, g :: back, before ++ after⟩
      ⟨(w.giveUp t g).world, t, back, before ++ (w.giveUp t g).first ++ after⟩ ∧
    (w.giveUp t g).first = guardTasks g ∧
    (w.giveUp t g).answer
      = if (w.thread t).depth = 0 then .done else .failed (.panic .lockHeld) := by
  have owns : g ∈ (⟨w, t, g :: back, before ++ after⟩ : Scene).guards :=
    mem_guards.mpr (.inr List.mem_cons_self)
  obtain ⟨registry, contexts, live, removed⟩ := remove?_of_guard arisen owns
  by_cases free : (w.thread t).depth = 0
  · rw [giveUp_free runs free live removed]
    refine ⟨Pass.of_move ?_ rfl rfl, rfl, (if_pos free).symm⟩
    exact .withdrawn g registry contexts [] back before after rfl rfl live removed
  · rw [giveUp_held free]
    refine ⟨Pass.of_move ?_ rfl rfl, rfl, (if_neg free).symm⟩
    exact .orphaned g (w.thread t) [] back before after rfl rfl (find?_of_runs runs) free

theorem guardTasks_release (g : Guard) : ∀ task ∈ guardTasks g, task.releases = true := by
  intro task listed
  simp only [guardTasks, List.mem_cons, List.not_mem_nil, or_false] at listed
  rcases listed with rfl | rfl <;> rfl

theorem destroy_passed (arisen : Arises hashing ⟨w, t, [], later⟩) (runs : w.Runs t) (name : Name) :
    (w.destroy t name).Passed w t later := by
  unfold destroy
  split
  · exact passed_fail rfl
  · rename_i g named
    have disowned : Pass ⟨w, t, [], later⟩
        ⟨{ w with states := w.states.erase name }, t, [g], later⟩ :=
      Pass.of_move (.disowned name g named) rfl rfl
    obtain ⟨pass, first, answer⟩ :=
      giveUp_spec [] (arisen.tail disowned.move) (disowned.runs runs)
    refine ⟨(Relation.ReflTransGen.single disowned).tail pass, ?_, ?_⟩
    · rw [first]
      exact guardTasks_release g
    · rw [answer]
      split <;> rfl

/-! Registries. -/

theorem quiet_asked {r : RegistryId} {registry : Registry}
    (live : w.registries.find? r = some registry) :
    Quiets w (w.setRegistry r { registry with holder := none }) :=
  .single (.asked live)

-- A registry is made whatever locks the thread holds.
theorem newRegistry_eq (w : World) (name : Name) : w.newRegistry name
    = if (w.registryNamed? name).isSome then .fail w .nameTaken else .of { w with
      registries := w.registries.put ⟨w.next⟩ (.fresh name (w.hashing ⟨w.next⟩))
      registryNames := w.registryNames.put name ⟨w.next⟩
      next := w.next + 1 } .done := rfl

-- Nobody holds it yet, so looking at it changes nothing.
theorem openRegistry_free (runs : w.Runs t) (free : (w.thread t).depth = 0) (name : Name) :
    w.openRegistry t name = w.newRegistry name := by
  let made := ({ w with next := w.next + 1 } : World).setRegistry ⟨w.next⟩
    (.fresh name (w.hashing ⟨w.next⟩))
  have there : made.registries.find? ⟨w.next⟩ = some (.fresh name (w.hashing ⟨w.next⟩)) :=
    Table.find?_put_self ..
  have runsThen : made.Runs t := runs
  have freeThen : (made.thread t).depth = 0 := free
  have worked := underLock_free runsThen freeThen there fun registry => ((), registry)
  unfold openRegistry newRegistry
  simp only [makeRegistry, takeNumber]
  rw [worked]
  simp only [made, setRegistry, Table.put_put]
  rfl

-- For a thread that holds no lock it makes no difference whether the host looks.
theorem operate_openRegistry (runs : w.Runs t) (free : (w.thread t).depth = 0) (name : Name)
    (looks : Bool) : w.operate t (.openRegistry name looks) = w.newRegistry name := by
  cases looks
  · rfl
  · exact openRegistry_free runs free name

theorem openRegistry_held (held : (w.thread t).depth ≠ 0) (name : Name) :
    w.openRegistry t name = .fail w (.panic .lockHeld) := by
  let made := ({ w with next := w.next + 1 } : World).setRegistry ⟨w.next⟩
    (.fresh name (w.hashing ⟨w.next⟩))
  have heldThen : (made.thread t).depth ≠ 0 := held
  have refused := underLock_held (r := ⟨w.next⟩) heldThen fun registry => ((), registry)
  unfold openRegistry
  simp only [makeRegistry, takeNumber]
  rw [refused]

theorem newRegistry_passed (w : World) (t : ThreadId) (later : List Task) (name : Name) :
    (w.newRegistry name).Passed w t later := by
  rw [newRegistry_eq]
  split
  · exact passed_fail rfl
  · rename_i absent
    have new : w.registryNames.find? name = none := by
      unfold registryNamed? at absent
      split at absent <;> simp_all
    exact ⟨.single (Pass.of_move (.opened new) rfl rfl), List.forall_mem_nil _, rfl⟩

theorem openRegistry_passed (runs : w.Runs t) (name : Name) :
    (w.openRegistry t name).Passed w t later := by
  by_cases free : (w.thread t).depth = 0
  · rw [openRegistry_free runs free]
    exact newRegistry_passed w t later name
  · rw [openRegistry_held free]
    exact passed_fail rfl

theorem shareRegistry_passed (arisen : Arises hashing ⟨w, t, [], later⟩) (name source : Name) :
    (w.shareRegistry name source).Passed w t later := by
  unfold shareRegistry
  split
  · exact passed_fail rfl
  · rename_i r named
    obtain ⟨registry, live⟩ := (Arises.live arisen).registry_named (Arises.tidy arisen) named
    refine ⟨.single (Pass.of_move (.shared live) rfl rfl), ?_, rfl⟩
    intro task listed
    simp only [Option.mem_toList, Option.map_eq_some_iff] at listed
    obtain ⟨old, _, rfl⟩ := listed
    rfl

theorem dropRegistry_passed (w : World) (t : ThreadId) (later : List Task) (name : Name) :
    (w.dropRegistry name).Passed w t later := by
  unfold dropRegistry
  split
  · exact passed_fail rfl
  · rename_i r named
    refine ⟨.single (Pass.of_move (.unnamed named) rfl rfl), ?_, rfl⟩
    intro task listed
    rw [List.mem_singleton.mp listed]
    rfl

theorem askRegistry_passed (arisen : Arises hashing ⟨w, t, [], later⟩) (runs : w.Runs t) (name : Name)
    {tell : Registry → Answer} (fair : ∀ registry, (tell registry).accuses = false) :
    (w.askRegistry t name tell).Passed w t later := by
  unfold askRegistry
  split
  · exact passed_fail rfl
  · rename_i r named
    obtain ⟨registry, live⟩ := (Arises.live arisen).registry_named (Arises.tidy arisen) named
    by_cases free : (w.thread t).depth = 0
    · have asked := quiet_asked live
      rw [underLock_free runs free live]
      exact passed_of asked (fair _)
    · rw [underLock_held free]
      exact passed_fail rfl

theorem contains_passed (arisen : Arises hashing ⟨w, t, [], later⟩) (runs : w.Runs t) (name : Name)
    (address : UInt64) : (w.contains t name address).Passed w t later := by
  unfold contains
  split
  · exact passed_fail rfl
  · exact passed_fail rfl
  · exact askRegistry_passed arisen runs name fun _ => rfl

theorem showState_passed (arisen : Arises hashing ⟨w, t, [], later⟩) (runs : w.Runs t) (name : Name)
    (layout : Layout) : (w.showState t name layout).Passed w t later := by
  unfold showState
  split
  · exact passed_fail rfl
  · rename_i g named
    split
    · exact passed_fail rfl
    · have owns : g ∈ (⟨w, t, [], later⟩ : Scene).guards :=
        mem_guards.mpr (.inl ⟨name, Table.mem_of_find? named⟩)
      obtain ⟨registry, _, live, _⟩ := remove?_of_guard arisen owns
      by_cases free : (w.thread t).depth = 0
      · have asked := quiet_asked live
        rw [underLock_free runs free live]
        exact passed_of asked rfl
      · rw [underLock_held free]
        exact passed_fail rfl

/-! Key spaces and keys. -/

theorem passed_filed {later : List Task} {spaces : Table SpaceId SlotPool}
    {spaceNames : Table Name SpaceId} {keys : Table Name Key} {next : Nat}
    (filing : Filing w spaces spaceNames keys next) {answer : Answer}
    (fair : answer.accuses = false) :
    (of { w with spaces, spaceNames, keys, next } answer).Passed w t later :=
  passed_of (.single (.filed filing)) fair

theorem passed_noted {later : List Task} {spaces : Table SpaceId SlotPool} {keys : Table Name Key}
    (filing : Filing w spaces w.spaceNames keys w.next) {e : Event} (aside : e.aside = true)
    {answer : Answer} (fair : answer.accuses = false) :
    (of ({ w with spaces, keys }.note e) answer).Passed w t later := by
  have filed : Quiet w { w with spaces, keys } := .filed filing
  exact passed_of ((Relation.ReflTransGen.single filed).tail (.noted aside)) fair

theorem openSpace_passed (w : World) (t : ThreadId) (later : List Task) (name : Name) :
    (w.openSpace name).Passed w t later := by
  unfold openSpace
  simp only [takeNumber]
  exact passed_filed (.opened name) rfl

theorem shareSpace_passed (w : World) (t : ThreadId) (later : List Task) (name source : Name) :
    (w.shareSpace name source).Passed w t later := by
  unfold shareSpace
  split
  · exact passed_fail rfl
  · rename_i named
    exact passed_filed (.shared name named) rfl

theorem dropSpace_passed (w : World) (t : ThreadId) (later : List Task) (name : Name) :
    (w.dropSpace name).Passed w t later := by
  unfold dropSpace
  split
  · exact passed_filed (.unnamed name) rfl
  · exact passed_fail rfl

theorem registerKey_passed (w : World) (t : ThreadId) (later : List Task) (name space : Name)
    (kind : Kind) : (w.registerKey name space kind).Passed w t later := by
  unfold registerKey
  split
  · exact passed_fail rfl
  · rename_i absent
    have new : w.keys.find? name = none := Table.not_contains_iff.mp (by simpa using absent)
    split
    · exact passed_fail rfl
    · rename_i named
      exact passed_noted (.registered named new) rfl rfl

theorem dropKey_passed (w : World) (t : ThreadId) (later : List Task) (name : Name) :
    (w.dropKey name).Passed w t later := by
  unfold dropKey
  split
  · exact passed_fail rfl
  · rename_i found
    simp only
    split
    · rename_i free
      exact passed_filed (.unreserved found free) rfl
    · rename_i freed
      exact passed_noted (.released found freed) rfl rfl

theorem raceForKeys_passed (w : World) (t : ThreadId) (later : List Task) (name : Name)
    (threads each : Nat) : (w.raceForKeys name threads each).Passed w t later := by
  unfold raceForKeys
  split
  · exact passed_fail rfl
  · rename_i s named
    exact passed_filed (.raced named (SlotPool.isReserved_race _ _) (SlotPool.after_race _ _)) rfl

/-! Retrievals. -/

theorem keep_passed {b : BlockId} {block : Block} {answer : Answer}
    (present : w.blocks.find? b = some block) (fair : answer.accuses = false) (name : Name) :
    (⟨(w.keep name b).1, answer, (w.keep name b).2⟩ : Outcome).Passed w t later := by
  refine ⟨.single (Pass.of_move (.held present) rfl rfl), ?_, fair⟩
  intro task listed
  simp only [keep, Option.mem_toList, Option.map_eq_some_iff] at listed
  obtain ⟨old, _, rfl⟩ := listed
  rfl

theorem present_passed (w : World) (t : ThreadId) (later : List Task) (retrieval : Retrieval)
    (b : BlockId) : (w.present retrieval b).Passed w t later := by
  unfold present
  split
  · rename_i description values told _
    obtain ⟨block, there, _⟩ := Option.map_eq_some_iff.mp told
    simp only
    split
    · exact passed_of .refl rfl
    · exact keep_passed there rfl _
  · exact passed_fail rfl

theorem retrieve_passed (arisen : Arises hashing ⟨w, t, [], later⟩) (runs : w.Runs t)
    (retrieval : Retrieval) : (w.retrieve t retrieval).Passed w t later := by
  unfold retrieve
  split
  · exact passed_fail rfl
  · rename_i h _
    split
    · exact passed_fail rfl
    · rename_i r named
      obtain ⟨registry, live⟩ := (Arises.live arisen).registry_named (Arises.tidy arisen) named
      obtain ⟨changes, answers⟩ := lookUp_spec runs (map?_of_find? live) h
      have answers := answers (Arises.lined arisen)
      split
      · rename_i cause after looked
        rw [looked] at changes answers
        apply passed_of changes
        rcases answers with ⟨_, refused⟩ | found
        · cases refused
          rfl
        · cases found
      · rename_i after looked
        rw [looked] at changes
        exact passed_of changes (Answer.accuses_refusal _ _)
      · rename_i b after looked
        rw [looked] at changes
        obtain ⟨registryThen, liveThen, _⟩ :=
          find?_of_map? ((changes.maps r).trans (map?_of_find? live))
        have retained : Pass ⟨after, t, [], later⟩ ⟨after, t, [], .releaseRegistry r :: later⟩ :=
          Pass.of_move (.retained liveThen) rfl rfl
        obtain ⟨passes, releases, fair⟩ :=
          present_passed after t (.releaseRegistry r :: later) retrieval b
        refine ⟨?_, ?_, fair⟩
        · simp only [List.append_assoc, List.singleton_append]
          exact ((changes.passes t [] later).tail retained).trans passes
        · intro task listed
          rcases List.mem_append.mp listed with one | last
          · exact releases task one
          · rw [List.mem_singleton.mp last]
            rfl

theorem leaveForExit_passed (runs : w.Runs t) (retrieval : Retrieval) :
    (w.leaveForExit t retrieval).Passed w t later :=
  passed_of (.single (.left (find?_of_runs runs))) rfl

theorem hold_passed (arisen : Arises hashing ⟨w, t, [], later⟩) (state name : Name) :
    (w.hold state name).Passed w t later := by
  unfold hold
  split
  · exact passed_fail rfl
  · rename_i g named
    have needed : w.states.any (·.block = g.block) = true :=
      (Table.any_iff (Arises.tidy arisen).states).mpr ⟨state, g, named, by simp⟩
    obtain ⟨block, present⟩ := (Arises.live arisen).block_of_needed (b := g.block)
      (by simp [needsBlock, refersToBlock, needed])
    exact keep_passed present rfl name

theorem release_passed (w : World) (t : ThreadId) (later : List Task) (name : Name) :
    (w.release name).Passed w t later := by
  unfold release
  split
  · exact passed_fail rfl
  · rename_i b named
    refine ⟨.single (Pass.of_move (.unheld named) rfl rfl), ?_, rfl⟩
    intro task listed
    rw [List.mem_singleton.mp listed]
    rfl

theorem ofSubject_passed (w : World) (t : ThreadId) (later : List Task) (subject : Subject)
    {tell : Block → Answer} (fair : ∀ block, (tell block).accuses = false) :
    (w.ofSubject subject tell).Passed w t later := by
  unfold ofSubject
  split
  · exact passed_fail rfl
  · exact passed_of .refl (fair _)

theorem readKey_passed (w : World) (t : ThreadId) (later : List Task) (name : Name)
    (subject : Subject) : (w.readKey name subject).Passed w t later := by
  unfold readKey
  split
  · exact passed_fail rfl
  · exact ofSubject_passed w t later subject fun _ => rfl

end World

end AttachedState
