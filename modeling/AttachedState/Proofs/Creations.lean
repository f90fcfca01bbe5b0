import AttachedState.Proofs.Deeds
import AttachedState.Proofs.Permanence

/-!
Creations.  Whatever its factories do, a creation registers all that they made or nothing of it: it
is refused before any of them runs, or one of them panics, or the context has got state from somewhere
else when all have run, or else the new block is registered, and nothing besides it.
-/

namespace AttachedState

-- The answer to a creation of state that the context has already.
def Construction.duplicate (site : Construction) : Answer :=
  .failed ((Refusal.duplicate site.handle).raise site.creation.strict)

namespace World

variable {w after : World} {r : RegistryId} {entry : Ticket} {h : Handle} {b : BlockId}
  {contexts grown : HandleMap BlockId}

theorem registered_iff (live : w.map? r = some contexts) :
    w.Registered r entry h b ↔ contexts.entry? entry = some (h, b) := by
  constructor
  · rintro ⟨other, found, there⟩
    cases live.symm.trans found
    exact there
  · exact fun there => ⟨contexts, live, there⟩

theorem contains_iff_registered (live : w.map? r = some contexts) (valid : contexts.Valid) :
    contexts.contains h = true ↔ ∃ entry b, w.Registered r entry h b := by
  simp only [HandleMap.contains_iff valid, HandleMap.get?_eq_some_iff valid, registered_iff live]
  exact exists_comm

theorem registered_of_map?_eq (same : after.map? r = w.map? r) :
    after.Registered r entry h b ↔ w.Registered r entry h b := by
  unfold Registered
  rw [same]

-- A context that had none gets a registration, and no other registration is touched.
structure Enrolls (w after : World) (r : RegistryId) (entry : Ticket) (h : Handle) (b : BlockId) :
    Prop where
  absent : ∀ u other, ¬w.Registered r u h other
  fresh : ∀ h' other, ¬w.Registered r entry h' other
  entries : ∀ s u h' other, after.Registered s u h' other ↔
    (s = r ∧ u = entry ∧ h' = h ∧ other = b) ∨ w.Registered s u h' other

theorem Enrolls.of_maps {w' after' : World} (enrolls : w.Enrolls after r entry h b)
    (same : ∀ s, w'.map? s = w.map? s) (sameThen : ∀ s, after'.map? s = after.map? s) :
    w'.Enrolls after' r entry h b := by
  refine ⟨fun u other => ?_, fun h' other => ?_, fun s u h' other => ?_⟩
  · rw [registered_of_map?_eq (same r)]
    exact enrolls.absent u other
  · rw [registered_of_map?_eq (same r)]
    exact enrolls.fresh h' other
  · rw [registered_of_map?_eq (sameThen s), registered_of_map?_eq (same s)]
    exact enrolls.entries s u h' other

theorem enrolls_of_insert (live : w.map? r = some contexts) (valid : contexts.Valid)
    (inserted : contexts.insert h b = .ok (entry, grown))
    (maps : ∀ s, after.map? s = if s = r then some grown else w.map? s) :
    w.Enrolls after r entry h b := by
  have entries := HandleMap.entry?_insert valid inserted
  have fresh := HandleMap.entry?_fresh valid inserted
  refine ⟨fun u other there => ?_, fun h' other there => ?_, fun s u h' other => ?_⟩
  · have none_there := (HandleMap.insert_eq_ok.mp inserted).1
    rw [(contains_iff_registered live valid).mpr ⟨u, other, there⟩] at none_there
    cases none_there
  · rw [registered_iff live, fresh] at there
    cases there
  · by_cases here : s = r
    · subst here
      have liveThen : after.map? s = some grown := (maps s).trans (if_pos rfl)
      rw [registered_iff liveThen, registered_iff live, entries]
      by_cases same : u = entry
      · rw [if_pos same, same, fresh]
        simp only [Option.some.injEq, Prod.mk.injEq, true_and, reduceCtorEq, or_false]
        exact and_congr eq_comm eq_comm
      · simp [same]
    · rw [registered_of_map?_eq ((maps s).trans (if_neg here))]
      simp [here]

/-! Registering what was constructed. -/

variable {t : ThreadId} {registry : Registry}

-- The world in which the block of a construction is registered.
def enrolled (w : World) (site : Construction) (registry : Registry) (entry : Ticket)
    (contexts : HandleMap BlockId) : World :=
  { w.setRegistry site.registry { registry with contexts, holder := none } with
    blocks := w.blocks.put site.block site.built }.note
    (.stateCreated site.registry entry site.block site.handle site.built.slotCount)

theorem map?_enrolled (w : World) (site : Construction) (registry : Registry) (entry : Ticket)
    (contexts : HandleMap BlockId) (s : RegistryId) : (w.enrolled site registry entry contexts).map? s
      = if s = site.registry then some contexts else w.map? s := by
  have put : (w.enrolled site registry entry contexts).registries
      = w.registries.put site.registry { registry with contexts, holder := none } := rfl
  exact map?_put put rfl s

theorem register_named (site : Construction) (runs : w.Runs t) (free : (w.thread t).depth = 0)
    (live : w.registries.find? site.registry = some registry)
    (inserted : registry.contexts.insert site.handle site.block = .ok (entry, grown))
    (untaken : w.states.find? site.creation.state = none) : ∃ description,
    w.register t site
      = ({ w.enrolled site registry entry grown with
        states := w.states.put site.creation.state ⟨site.registry, entry, site.handle, site.block⟩ },
        site.close (.block description none)) ∧
    { w.enrolled site registry entry grown with
      states := w.states.put site.creation.state
        ⟨site.registry, entry, site.handle, site.block⟩ }.describe? site.block = some description := by
  have clear := Table.not_contains_iff.mpr untaken
  have there : (w.blocks.put site.block site.built).find? site.block = some site.built :=
    Table.find?_put_self ..
  simp [register, underLock_register runs free live inserted, note, setRegistry, clear, describe?,
    there, enrolled]

-- An owner that finds its name taken is given up.
theorem register_taken_name (site : Construction) (runs : w.Runs t) (free : (w.thread t).depth = 0)
    (live : w.registries.find? site.registry = some registry)
    (inserted : registry.contexts.insert site.handle site.block = .ok (entry, grown))
    (taken : w.states.contains site.creation.state = true) :
    w.register t site = (((w.enrolled site registry entry grown).giveUp t
      ⟨site.registry, entry, site.handle, site.block⟩).world,
      ((w.enrolled site registry entry grown).giveUp t
        ⟨site.registry, entry, site.handle, site.block⟩).first ++ site.close (.failed .nameTaken)) := by
  have there : (w.enrolled site registry entry grown).states.contains site.creation.state = true := taken
  simp only [register, underLock_register runs free live inserted]
  exact if_pos there

-- With it goes the registration.
theorem register_renamed (site : Construction) (runs : w.Runs t) (free : (w.thread t).depth = 0)
    (live : w.registries.find? site.registry = some registry) (valid : registry.contexts.Valid)
    (inserted : registry.contexts.insert site.handle site.block = .ok (entry, grown))
    (taken : w.states.contains site.creation.state = true) : ∃ scrubbed after,
    w.register t site = (after, [.releaseRegistry site.registry, .releaseBlock site.block] ++
      site.close (.failed .nameTaken)) ∧
    after.journal = .stateRemoved site.registry entry site.block site.handle scrubbed ::
      .stateCreated site.registry entry site.block site.handle site.built.slotCount :: w.journal ∧
    ∀ s u h b, after.Registered s u h b ↔ w.Registered s u h b := by
  have found := map?_of_find? live
  have entries := HandleMap.entry?_insert valid inserted
  obtain ⟨back, removed⟩ := HandleMap.remove?_of_entry? ((entries entry).trans (if_pos rfl))
  have liveThen : (w.enrolled site registry entry grown).registries.find? site.registry
      = some { registry with contexts := grown, holder := none } := Table.find?_put_self ..
  have gaveUp := giveUp_free (w := w.enrolled site registry entry grown)
    (g := ⟨site.registry, entry, site.handle, site.block⟩) runs free liveThen removed
  have registers := register_taken_name site runs free live inserted taken
  rw [gaveUp] at registers
  refine ⟨_, _, registers, rfl, fun s u h b => ?_⟩
  by_cases here : s = site.registry
  · subst here
    have same : back.entry? u = registry.contexts.entry? u := by
      rw [HandleMap.entry?_remove removed, entries]
      split
      · rename_i same
        rw [same, HandleMap.entry?_fresh valid inserted]
      · rfl
    rw [registered_iff found, ← same]
    exact registered_iff ((map?_put (w := w.enrolled site registry entry grown) rfl rfl _).trans (if_pos rfl))
  · refine registered_of_map?_eq ((map?_put (w := w.enrolled site registry entry grown) rfl rfl s).trans ?_)
    rw [if_neg here, map?_enrolled, if_neg here]

end World

namespace Machine

variable {hashing : RegistryId → Handle → UInt64} {m start : Machine} {site now : Construction}
  {nested : Bool} {supplies : List (Supply Action)} {task : Task} {rest : List Task}
  {objects : List Object} {deeds : List Deed} {answer : Answer}

-- The thread at work holds no lock.  It is about to begin the creation of a block, and what that names
-- is there.
structure Begins (hashing : RegistryId → Handle → UInt64) (m : Machine) (nested : Bool)
    (supplies : List (Supply Action)) (site : Construction) (rest : List Task) : Prop where
  reached : m.Reached hashing
  free : (m.world.thread m.thread).depth = 0
  tasks : m.tasks = .perform nested (.create site.creation supplies) :: rest
  asked : site.nested = if nested then some (.create site.creation supplies) else none
  address : Handle.ofAddress? site.creation.address = some site.handle
  named : m.world.registryNamed? site.creation.registry = some site.registry
  new : m.world.states.find? site.creation.state = none
  known : supplies.mapM (·.factory? m.world) = some site.pending
  fresh : site.block = ⟨m.world.next⟩
  vacant : site.slots = List.replicate (Block.sizeFor (site.pending.map (·.slot))) none

-- From a step on, the objects of a block that nobody gets are dropped, one after the other in the
-- order of their slots and each with what it does then, while nothing is locked.  Then the creation
-- is answered, and nothing more is ever done to the block.
structure Undone (start : Machine) (site : Construction) (rest : List Task) (k : Nat)
    (objects : List Object) (deeds : List Deed) (answer : Answer) (n : Nat) : Prop where
  later : k ≤ n
  each : ∀ front object back, objects = front ++ object :: back → ∃ i, k ≤ i ∧ i < n ∧
    (start.steps i).tasks = .dropObject site.block site.handle object ::
      (dropTasks site.block site.handle back ++ site.close answer ++ rest) ∧
    (start.steps i).world.deeds site.block = deeds ++ front.map .dropped ∧
    (∀ t, ((start.steps i).world.thread t).depth = 0) ∧
    ∀ r t, ¬(start.steps i).world.Marked r t
  answered : (start.steps n).tasks = .answer site.nested answer :: rest
  ever : ∀ after, Later (start.steps n) after →
    after.world.deeds site.block = deeds ++ objects.map .dropped

-- How a creation that was begun comes to its end.
inductive Settles (start : Machine) (site : Construction) (rest : List Task) : Prop where
  -- A factory panics: none of the later ones is started, and nothing is registered.
  | panicked (k n : Nat) (done later : List Factory) (f : Factory) (slots : List (Option Object))
      (deeds : List Deed) (cause : Panic) (factories : site.pending = done ++ f :: later)
      (filled : Fills site.slots done deeds slots)
      (making : (start.steps k).tasks = .make { site with slots, pending := later } f :: rest)
      (panics : ((start.steps k).world.makeValue start.thread site.handle f).1 = .error cause)
      (kept : ∀ r, (start.steps (k + 1)).world.map? r = (start.steps k).world.map? r)
      (undone : start.Undone site rest (k + 1) (Block.mk site.handle slots).objects
        (deeds ++ [.started f.slot]) (.failed (.panic cause)) n)
  -- All factories have run, but the context has state: that stays.
  | rejected (k n : Nat) (slots : List (Option Object)) (deeds : List Deed) (entry : Ticket)
      (b : BlockId) (filled : Fills site.slots site.pending deeds slots)
      (finished : (start.steps k).tasks = .construct { site with slots, pending := [] } :: rest)
      (registered : (start.steps k).world.Registered site.registry entry site.handle b)
      (kept : ∀ r, (start.steps (k + 1)).world.map? r = (start.steps k).world.map? r)
      (undone : start.Undone site rest (k + 1) (Block.mk site.handle slots).objects deeds
        site.duplicate n)
  -- All factories have run, and the block is registered.
  | created (k : Nat) (slots : List (Option Object)) (deeds : List Deed) (entry : Ticket)
      (description : Description) (filled : Fills site.slots site.pending deeds slots)
      (finished : (start.steps k).tasks = .construct { site with slots, pending := [] } :: rest)
      (enrolls : (start.steps k).world.Enrolls (start.steps (k + 1)).world site.registry entry
        site.handle site.block)
      (owned : (start.steps (k + 2)).world.states.find? site.creation.state
        = some ⟨site.registry, entry, site.handle, site.block⟩)
      (block : (start.steps (k + 2)).world.blocks.find? site.block = some ⟨site.handle, slots⟩)
      (all : (start.steps (k + 2)).world.deeds site.block = deeds ++ [.created entry])
      (described : (start.steps (k + 2)).world.describe? site.block = some description)
      (answered : (start.steps (k + 2)).tasks
        = .answer site.nested (.block description none) :: rest)
  -- It is registered too where the name for it was given away meanwhile, but then the new owner has
  -- nowhere to go and is given up at once.
  | renamed (k n : Nat) (slots : List (Option Object)) (deeds : List Deed) (entry : Ticket)
      (scrubbed : Nat) (filled : Fills site.slots site.pending deeds slots)
      (finished : (start.steps k).tasks = .construct { site with slots, pending := [] } :: rest)
      (taken : (start.steps k).world.states.contains site.creation.state = true)
      (absent : ∀ u b, ¬(start.steps k).world.Registered site.registry u site.handle b)
      (kept : ∀ r u h b, (start.steps (k + 1)).world.Registered r u h b ↔
        (start.steps k).world.Registered r u h b)
      (told : (start.steps (k + 1)).world.journal
        = .stateRemoved site.registry entry site.block site.handle scrubbed ::
          .stateCreated site.registry entry site.block site.handle slots.length ::
          (start.steps k).world.journal)
      (answered : (start.steps n).tasks = .answer site.nested (.failed .nameTaken) :: rest)

/-! The beginning. -/

namespace Begins

variable (begins : Begins hashing m nested supplies site rest)

include begins

theorem runs : m.world.Runs m.thread := by
  have listed := List.mem_cons_self (a := .perform nested (.create site.creation supplies)) (l := rest)
  rw [← begins.tasks] at listed
  exact begins.reached.runs_ahead _ listed rfl

theorem bare : lockCount rest = 0 := by
  have depth := begins.reached.depth m.thread
  rw [begins.free, if_pos rfl, begins.tasks, lockCount_cons_of_bare rfl] at depth
  exact depth.symm

theorem live : ∃ registry, m.world.registries.find? site.registry = some registry ∧
    registry.contexts.Valid := by
  have arisen := begins.reached.arises
  obtain ⟨registry, live⟩ := arisen.live.registry_named arisen.tidy begins.named
  exact ⟨registry, live, arisen.owned.valid _ _ (World.map?_of_find? live)⟩

theorem refused (there : ∃ entry b, m.world.Registered site.registry entry site.handle b) :
    m.step = ⟨m.world, m.thread, .answer site.nested site.duplicate :: rest⟩ := by
  obtain ⟨registry, live, valid⟩ := begins.live
  have contained := (World.contains_iff_registered (World.map?_of_find? live) valid).mpr there
  have untaken := Table.not_contains_iff.mpr begins.new
  rw [step_of_cons begins.tasks]
  simp [World.take, World.perform, World.beginCreation, begins.address, begins.named, untaken,
    begins.known, World.underLock?_free begins.runs begins.free live, contained, begins.asked,
    Construction.duplicate]

theorem begun (absent : ∀ entry b, ¬m.world.Registered site.registry entry site.handle b) :
    m.step = ⟨{ m.world with next := m.world.next + 1 }, m.thread, .construct site :: rest⟩ := by
  obtain ⟨registry, live, valid⟩ := begins.live
  have contained : registry.contexts.contains site.handle = false := by
    refine Bool.eq_false_iff.mpr fun there => ?_
    obtain ⟨entry, b, registered⟩ :=
      (World.contains_iff_registered (World.map?_of_find? live) valid).mp there
    exact absent entry b registered
  have untaken := Table.not_contains_iff.mpr begins.new
  rw [step_of_cons begins.tasks]
  simp [World.take, World.perform, World.beginCreation, begins.address, begins.named, untaken,
    begins.known, World.underLock?_free begins.runs begins.free live, contained, World.takeNumber,
    ← begins.asked, ← begins.fresh, ← begins.vacant]

theorem told (absent : ∀ entry b, ¬m.world.Registered site.registry entry site.handle b) :
    m.step.scene.Told site.block site.slots site.pending := by
  have arisen := begins.reached.arises
  have new : m.scene.world.next ≤ site.block.number := by
    rw [begins.fresh]
    exact Nat.le_refl _
  have loads : m.step.scene.loads = .construct site :: m.scene.loads := by
    rw [begins.begun absent, scene, scene, begins.tasks]
    rfl
  refine ⟨?_, fun task listed site' under same => ?_⟩
  · rw [begins.begun absent, begins.fresh]
    exact Nat.lt_succ_self _
  · rw [loads] at listed
    rcases List.mem_cons.mp listed with rfl | before
    · cases under
      refine ⟨[], [], rfl, .nil, ?_⟩
      show m.step.scene.told site.block = []
      rw [← arisen.told_of_new new]
      unfold Scene.told
      rw [loads, begins.begun absent]
      rfl
    · have low := arisen.numbered.works task (Scene.mem_loads.mp before).1 _ (Task.block?_of_site? under)
      rw [same] at low
      exact absurd low (Nat.not_lt.mpr new)

end Begins

/-! The end of a block that nobody gets. -/

theorem drops_filter {b : BlockId} {tasks : List Task} {p : Task → Bool}
    (kept : ∀ task, task.block? = some b → p task = true) :
    drops b (tasks.filter p) = drops b tasks := by
  induction tasks with
  | nil => rfl
  | cons task rest ih =>
    by_cases here : task.block? = some b
    · rw [List.filter_cons_of_pos (kept task here), ← List.singleton_append, drops_append, ih,
        ← drops_append, List.singleton_append]
    · rw [drops_cons_of_other here, ← ih, List.filter_cons]
      split
      · exact drops_cons_of_other here _
      · rfl

theorem drops_loads (m : Machine) (b : BlockId) : drops b m.scene.loads = drops b m.tasks := by
  have carried : drops b m.scene.loads = drops b (bearing m.tasks) :=
    drops_filter fun task here => by rw [Task.carries, here]; rfl
  rw [carried]
  exact drops_filter fun task here => by cases task <;> first | rfl | cases here

theorem told_scene (m : Machine) (b : BlockId) :
    m.scene.told b = m.world.deeds b ++ (drops b m.tasks).map .dropped := by
  rw [← drops_loads]
  rfl

theorem Reached.drops_behind (reached : m.Reached hashing) (tasks : m.tasks = task :: rest)
    (under : task.site? = some now) : drops now.block rest = [] := by
  have pairs := reached.arises.orderly.apart
  have loads : m.scene.loads = task :: (bearing rest).filter Task.carries := by
    rw [scene, tasks]
    cases task <;> cases under <;> rfl
  rw [loads, List.pairwise_cons] at pairs
  have behind := drops_loads ⟨m.world, m.thread, rest⟩ now.block
  rw [← behind]
  exact drops_of_idle fun later listed => pairs.1 later listed now under

theorem Reached.deeds_first (reached : m.Reached hashing) (tasks : m.tasks = task :: rest)
    (under : task.site? = some now) {slots : List (Option Object)} {factories : List Factory}
    (told : m.scene.Told now.block slots factories) : ∃ done deeds,
    factories = done ++ task.factories ∧ Fills slots done deeds now.slots ∧
      m.world.deeds now.block = deeds ++ task.starting := by
  have listed : task ∈ m.scene.loads := by
    rw [scene, tasks]
    cases task <;> cases under <;> exact List.mem_cons_self
  obtain ⟨done, deeds, all, filled, toldNow⟩ := told.under task listed now under rfl
  refine ⟨done, deeds, all, filled, ?_⟩
  have nothing : drops now.block m.tasks = [] := by
    have behind := reached.drops_behind tasks under
    rw [tasks]
    cases task <;> cases under <;> exact behind
  rw [told_scene, nothing] at toldNow
  simpa using toldNow

-- A step that gives a construction up leaves the objects made so far to be dropped.
theorem Reached.seals (reached : m.Reached hashing) (tasks : m.tasks = task :: rest)
    (under : task.site? = some now) {failure : Failure} {w : World}
    (taken : m.world.take m.thread rest task = (w, now.abandon failure))
    (blocks : w.blocks = m.world.blocks) (silent : w.deeds now.block = m.world.deeds now.block) :
    m.step.scene.Sealed now.block
      (m.world.deeds now.block ++ now.built.objects.map .dropped) := by
  have absent := reached.absent_of_site [] tasks under
  refine ⟨reached.settled_step tasks under ?_ fun block found => ?_, ?_⟩
  · rw [taken]
    exact World.underConstruction_abandon now failure
  · rw [taken, blocks, absent] at found
    cases found
  · rw [told_scene, step_of_cons tasks, taken, silent]
    have ends : drops now.block (now.close (.failed failure)) = [] := rfl
    simp only [Construction.abandon, drops_append, drops_dropTasks, ends,
      reached.drops_behind tasks under, List.append_nil]

theorem undoes (site : Construction) (reached : start.Reached hashing) (bare : lockCount rest = 0)
    (nothing : drops site.block rest = []) (objects : List Object) {k : Nat}
    (tasks : (start.steps k).tasks
      = dropTasks site.block site.handle objects ++ site.close answer ++ rest)
    (closed : (start.steps k).scene.Sealed site.block (deeds ++ objects.map .dropped)) :
    ∃ n, start.Undone site rest k objects deeds answer n := by
  -- What was done so far is told by what is still to be done.
  have far : ∀ {k : Nat} {deeds : List Deed} {objects : List Object},
      (start.steps k).tasks = dropTasks site.block site.handle objects ++ site.close answer ++ rest →
      (start.steps k).scene.Sealed site.block (deeds ++ objects.map .dropped) →
      (start.steps k).world.deeds site.block = deeds := by
    intro k deeds objects tasks closed
    have told := closed.told
    have ends : drops site.block (site.close answer) = [] := rfl
    rw [told_scene, tasks, drops_append, drops_append, drops_dropTasks, ends, nothing,
      List.append_nil, List.append_nil] at told
    exact List.append_cancel_right told
  induction objects generalizing k deeds with
  | nil =>
    have closing : (start.steps k).tasks = [.releaseRegistry site.registry] ++
        .answer site.nested answer :: rest := tasks
    obtain ⟨n, answered, _⟩ := steps_to _ closing
    rw [← steps_add] at answered
    refine ⟨k + n, ⟨Nat.le_add_right k n, fun front object back split => ?_, answered, fun after later => ?_⟩⟩
    · cases front <;> cases split
    · rw [steps_add] at later
      have moves := Later.moves (reached.on (later_steps start k))
        ((later_steps (start.steps k) n).trans later)
      have done : (start.steps k).world.deeds site.block = deeds := far tasks closed
      obtain ⟨more, journal⟩ := (reached.on (later_steps start k)).arises.journal_grows moves
      obtain ⟨extra, grown⟩ := World.deeds_of_later journal site.block
      have told := (closed.moves moves).told
      rw [told_scene] at told
      have grew : after.world.deeds site.block = (start.steps k).world.deeds site.block ++ extra := grown
      rw [grew, done, List.map_nil, List.append_nil, List.append_assoc] at told
      have nothing_more := List.append_eq_nil_iff.mp (List.append_right_eq_self.mp told)
      rw [grew, done, nothing_more.1, List.map_nil]
  | cons object objects ih =>
    have first : (start.steps k).tasks = [.dropObject site.block site.handle object] ++
        (dropTasks site.block site.handle objects ++ site.close answer ++ rest) := tasks
    obtain ⟨j, behind, _⟩ := steps_to _ first
    rw [← steps_add] at behind
    have moves := Later.moves (reached.on (later_steps start k)) (later_steps (start.steps k) j)
    rw [← steps_add] at moves
    have closedThen := closed.moves moves
    have split : deeds ++ (object :: objects).map Deed.dropped
        = (deeds ++ [.dropped object]) ++ objects.map .dropped := by simp
    rw [split] at closedThen
    obtain ⟨n, undone⟩ := ih behind closedThen
    have later : k < n := by
      have some_steps : j ≠ 0 := by
        rintro rfl
        exact List.cons_ne_self _ _ (first.symm.trans behind)
      have after := undone.later
      omega
    have unlocked : lockCount (start.steps k).tasks = 0 := by
      have drops : lockCount (dropTasks site.block site.handle (object :: objects)) = 0 :=
        lockCount_of_bare fun task listed => by
          obtain ⟨_, _, rfl⟩ := List.mem_map.mp listed
          rfl
      rw [tasks, lockCount_append, lockCount_append, drops, bare]
      rfl
    refine ⟨n, ⟨Nat.le_of_lt later, fun front other back parts => ?_, undone.answered,
      fun after following => ?_⟩⟩
    · cases front with
      | nil =>
        cases parts
        refine ⟨k, Nat.le_refl _, later, tasks, ?_, (reached.on (later_steps start k)).none_held unlocked⟩
        rw [far tasks closed, List.map_nil, List.append_nil]
      | cons one front =>
        cases parts
        obtain ⟨i, low, high, waits, done, free⟩ := undone.each front other back rfl
        exact ⟨i, Nat.le_trans (Nat.le_add_right k j) low, high, waits, by rw [done]; simp, free⟩
    · rw [undone.ever after following, split]

/-! The end of a creation. -/

theorem thread_after_step (m : Machine) (k : Nat) : (m.step.steps k).thread = m.thread :=
  thread_steps m (k + 1)

namespace Begins

variable (begins : Begins hashing m nested supplies site rest)

include begins

-- While the creation goes on nothing is locked, and the tasks behind it wait.
theorem free_at {k : Nat} (tasks : (m.step.steps k).tasks = task :: rest) (under : task.site? = some now) :
    (m.step.steps k).world.Runs m.thread ∧ ((m.step.steps k).world.thread m.thread).depth = 0 := by
  have reached := begins.reached.step.on (later_steps m.step k)
  refine ⟨thread_after_step m k ▸ reached.runs_of_site tasks under, ?_⟩
  have unlocked : lockCount (m.step.steps k).tasks = 0 := by
    rw [tasks, lockCount_cons_of_bare (Task.unlocks_of_site? under), begins.bare]
  exact (reached.none_held unlocked).1 m.thread

-- A step gives the creation up.
theorem gives_up {k : Nat} {slots : List (Option Object)} {left : List Factory} {failure : Failure}
    {w : World} (absent : ∀ entry b, ¬m.world.Registered site.registry entry site.handle b)
    (waits : (m.step.steps k).tasks = task :: rest)
    (under : task.site? = some { site with slots, pending := left })
    (taken : (m.step.steps k).world.take m.thread rest task
      = (w, Construction.abandon { site with slots, pending := left } failure))
    (changes : Quiets (m.step.steps k).world w) : ∃ done deeds n,
      site.pending = done ++ task.factories ∧ Fills site.slots done deeds slots ∧
      (∀ r, (m.step.steps (k + 1)).world.map? r = (m.step.steps k).world.map? r) ∧
      m.step.Undone site rest (k + 1) (Block.mk site.handle slots).objects (deeds ++ task.starting)
        (.failed failure) n := by
  have reached := begins.reached.step.on (later_steps m.step k)
  have told := (begins.told absent).moves begins.reached.step.arises
    ((later_steps m.step k).moves begins.reached.step)
  obtain ⟨done, deeds, factories, filled, far⟩ := reached.deeds_first waits under told
  have stepped := step_of_cons waits
  rw [← steps_succ, thread_after_step] at stepped
  have closed := reached.seals waits under (thread_after_step m k ▸ taken) changes.same.2.1
    (changes.deeds _)
  rw [far, ← steps_succ] at closed
  have tasks : (m.step.steps (k + 1)).tasks
      = dropTasks site.block site.handle (Block.mk site.handle slots).objects ++
        site.close (.failed failure) ++ rest := by
    rw [stepped, taken]
    rfl
  have behind := reached.drops_behind waits under
  obtain ⟨n, undone⟩ := undoes site begins.reached.step begins.bare behind _ tasks closed
  refine ⟨done, deeds, n, factories, filled, fun r => ?_, undone⟩
  rw [stepped, taken]
  exact changes.maps r

theorem panicked {k : Nat} {slots : List (Option Object)} {f : Factory} {later : List Factory}
    {cause : Panic} (absent : ∀ entry b, ¬m.world.Registered site.registry entry site.handle b)
    (making : (m.step.steps k).tasks = .make { site with slots, pending := later } f :: rest)
    (panics : ((m.step.steps k).world.makeValue m.thread site.handle f).1 = .error cause) :
    m.step.Settles site rest := by
  have reached := begins.reached.step.on (later_steps m.step k)
  obtain ⟨runs, _⟩ := begins.free_at making rfl
  have arisen := reached.arises_cons making
  rw [thread_after_step] at arisen
  have changes := (World.makeValue_spec arisen runs site.handle f).1
  have taken : (m.step.steps k).world.take m.thread rest (.make { site with slots, pending := later } f)
      = (((m.step.steps k).world.makeValue m.thread site.handle f).2,
        Construction.abandon { site with slots, pending := later } (.panic cause)) := by
    simp only [World.take, World.make]
    split <;> rename_i made
    · rw [made] at panics ⊢
      cases panics
      rfl
    · rw [made] at panics
      cases panics
  obtain ⟨done, deeds, n, factories, filled, kept, undone⟩ :=
    begins.gives_up absent making rfl taken changes
  have same : m.step.thread = m.thread := thread_after_step m 0
  exact .panicked k n done later f slots deeds cause factories filled making (same ▸ panics) kept undone

theorem rejected {k : Nat} {slots : List (Option Object)} {entry : Ticket} {b : BlockId}
    (absent : ∀ entry b, ¬m.world.Registered site.registry entry site.handle b)
    (finished : (m.step.steps k).tasks = .construct { site with slots, pending := [] } :: rest)
    (there : (m.step.steps k).world.Registered site.registry entry site.handle b) :
    m.step.Settles site rest := by
  have reached := begins.reached.step.on (later_steps m.step k)
  obtain ⟨runs, free⟩ := begins.free_at finished rfl
  obtain ⟨contexts, found, listed⟩ := id there
  obtain ⟨registry, live, rfl⟩ := World.find?_of_map? found
  have valid := reached.arises.owned.valid _ _ found
  have contained := (World.contains_iff_registered found valid).mpr ⟨entry, b, there⟩
  have refused := World.underLock_refused runs free live (HandleMap.insert_of_contains contained site.block)
  have taken : (m.step.steps k).world.take m.thread rest (.construct { site with slots, pending := [] })
      = ((m.step.steps k).world.setRegistry site.registry { registry with holder := none },
        Construction.abandon { site with slots, pending := [] }
          ((Refusal.duplicate site.handle).raise site.creation.strict)) := by
    simp only [World.take, World.construct, World.register, refused]
  obtain ⟨done, deeds, n, factories, filled, kept, undone⟩ :=
    begins.gives_up absent finished rfl taken (.single (.asked live))
  obtain rfl : site.pending = done := factories.trans (List.append_nil done)
  simp only [Task.starting, List.append_nil] at undone
  exact .rejected k n slots deeds entry b filled finished there kept undone

theorem inserts {k : Nat} {slots : List (Option Object)}
    (finished : (m.step.steps k).tasks = .construct { site with slots, pending := [] } :: rest)
    (free : ∀ entry b, ¬(m.step.steps k).world.Registered site.registry entry site.handle b) :
    ∃ registry entry contexts, (m.step.steps k).world.registries.find? site.registry = some registry ∧
      registry.contexts.Valid ∧ registry.contexts.insert site.handle site.block = .ok (entry, contexts) := by
  have arisen := (begins.reached.step.on (later_steps m.step k)).arises
  have waits : .construct { site with slots, pending := [] } ∈ (m.step.steps k).scene.tasks := by
    refine List.mem_filter.mpr ⟨?_, rfl⟩
    rw [finished]
    exact List.mem_cons_self
  obtain ⟨registry, live⟩ := arisen.live.registry_of_task (r := site.registry) waits
    (by simp [Task.refersToRegistry])
  have found := World.map?_of_find? live
  have valid := arisen.owned.valid _ _ found
  cases inserted : registry.contexts.insert site.handle site.block with
  | error back =>
    have contained := (HandleMap.insert_eq_error inserted).1
    obtain ⟨entry, b, there⟩ := (World.contains_iff_registered found valid).mp contained
    exact absurd there (free entry b)
  | ok grown => exact ⟨registry, grown.1, grown.2, live, valid, inserted⟩

-- A block whose factories have all run is registered, and its owner gets a name that is free.
theorem enrolls {k : Nat} {slots : List (Option Object)}
    (finished : (m.step.steps k).tasks = .construct { site with slots, pending := [] } :: rest)
    (free : ∀ entry b, ¬(m.step.steps k).world.Registered site.registry entry site.handle b)
    (untaken : (m.step.steps k).world.states.find? site.creation.state = none) :
    ∃ entry description, (m.step.steps k).world.Enrolls (m.step.steps (k + 1)).world site.registry entry
        site.handle site.block ∧
      (m.step.steps (k + 1)).world.states.find? site.creation.state
        = some ⟨site.registry, entry, site.handle, site.block⟩ ∧
      (m.step.steps (k + 1)).world.blocks.find? site.block = some ⟨site.handle, slots⟩ ∧
      (m.step.steps (k + 1)).world.deeds site.block
        = (m.step.steps k).world.deeds site.block ++ [.created entry] ∧
      (m.step.steps (k + 1)).world.describe? site.block = some description ∧
      m.step.steps (k + 2) = ⟨(m.step.steps (k + 1)).world, m.thread,
        .answer site.nested (.block description none) :: rest⟩ := by
  obtain ⟨runs, unlocked⟩ := begins.free_at finished rfl
  obtain ⟨registry, entry, contexts, live, valid, inserted⟩ := begins.inserts finished free
  obtain ⟨description, registered, described⟩ :=
    World.register_named { site with slots, pending := [] } runs unlocked live inserted untaken
  have stepped := step_of_cons finished
  rw [← steps_succ, thread_after_step] at stepped
  simp only [World.take, World.construct, registered] at stepped
  have owned : (m.step.steps (k + 1)).world.states.find? site.creation.state
      = some ⟨site.registry, entry, site.handle, site.block⟩ := by
    rw [stepped]
    exact Table.find?_put_self ..
  -- The owner refers to the registry, so that stays.
  have needed : (m.step.steps (k + 1)).world.refersToRegistry site.registry = true :=
    World.refersToRegistry_of_owner (begins.reached.step.on (later_steps m.step (k + 1))).arises.tidy owned
  have next : (m.step.steps (k + 1)).tasks = .releaseRegistry site.registry ::
      .answer site.nested (.block description none) :: rest := by
    rw [stepped]
    rfl
  refine ⟨entry, description, ?_, owned, ?_, ?_, ?_, ?_⟩
  · rw [stepped]
    exact World.enrolls_of_insert (World.map?_of_find? live) valid inserted
      (World.map?_enrolled _ { site with slots, pending := [] } registry entry contexts)
  · rw [stepped]
    exact Table.find?_put_self ..
  · rw [stepped]
    refine (World.deeds_cons (w := (m.step.steps k).world) rfl site.block).trans ?_
    simp [Event.deed?]
  · rw [stepped]
    exact described
  · rw [steps_succ, step_of_cons next, thread_after_step]
    simp only [World.take, World.releaseRegistry, needed, Bool.true_or, if_true, List.nil_append]

theorem registers {k : Nat} {slots : List (Option Object)}
    (absent : ∀ entry b, ¬m.world.Registered site.registry entry site.handle b)
    (finished : (m.step.steps k).tasks = .construct { site with slots, pending := [] } :: rest)
    (free : ∀ entry b, ¬(m.step.steps k).world.Registered site.registry entry site.handle b) :
    m.step.Settles site rest := by
  have reached := begins.reached.step.on (later_steps m.step k)
  have told := (begins.told absent).moves begins.reached.step.arises
    ((later_steps m.step k).moves begins.reached.step)
  obtain ⟨done, deeds, factories, filled, far⟩ := reached.deeds_first finished rfl told
  obtain rfl : site.pending = done := factories.trans (List.append_nil done)
  simp only [Task.starting, List.append_nil] at far
  cases owner : (m.step.steps k).world.states.find? site.creation.state with
  | some g =>
    obtain ⟨runs, unlocked⟩ := begins.free_at finished rfl
    obtain ⟨registry, entry, contexts, live, valid, inserted⟩ := begins.inserts finished free
    have taken := Table.contains_iff.mpr ⟨g, owner⟩
    obtain ⟨scrubbed, after, registered, told, kept⟩ :=
      World.register_renamed { site with slots, pending := [] } runs unlocked live valid inserted taken
    have stepped := step_of_cons finished
    rw [← steps_succ, thread_after_step] at stepped
    simp only [World.take, World.construct, registered] at stepped
    have ending : (m.step.steps (k + 1)).tasks = [.releaseRegistry site.registry,
        .releaseBlock site.block, .releaseRegistry site.registry] ++
        .answer site.nested (.failed .nameTaken) :: rest := by
      rw [stepped]
      rfl
    obtain ⟨n, _, answered, _⟩ := steps_on _ ending
    refine .renamed k _ slots deeds entry scrubbed filled finished taken free ?_ ?_ answered
    · rw [stepped]
      exact kept
    · rw [stepped]
      exact told
  | none =>
    obtain ⟨entry, description, enrolled, owned, block, deed, described, next⟩ :=
      begins.enrolls finished free owner
    rw [far] at deed
    refine .created k slots deeds entry description filled finished enrolled ?_ ?_ ?_ ?_ ?_ <;> rw [next]
    · exact owned
    · exact block
    · exact deed
    · exact described

theorem settles (absent : ∀ entry b, ¬m.world.Registered site.registry entry site.handle b) :
    m.step.Settles site rest := by
  have waits : (m.step.steps 0).tasks = .construct { site with pending := site.pending } :: rest := by
    show m.step.tasks = _
    rw [begins.begun absent]
  obtain ⟨k, ⟨slots, finished⟩ | ⟨slots, f, later, cause, making, panics⟩⟩ :=
    construction_ends site.pending waits
  · by_cases there : ∃ entry b, (m.step.steps k).world.Registered site.registry entry site.handle b
    · obtain ⟨entry, b, registered⟩ := there
      exact begins.rejected absent finished registered
    · exact begins.registers absent finished fun entry b registered => there ⟨entry, b, registered⟩
  · have same : m.step.thread = m.thread := thread_after_step m 0
    rw [same] at panics
    exact begins.panicked absent making panics

end Begins

theorem creation_all_or_nothing (begins : Begins hashing m nested supplies site rest) :
    ((∃ entry b, m.world.Registered site.registry entry site.handle b) →
      m.step = ⟨m.world, m.thread, .answer site.nested site.duplicate :: rest⟩) ∧
    ((∀ entry b, ¬m.world.Registered site.registry entry site.handle b) →
      m.step.tasks = .construct site :: rest ∧ m.step.Settles site rest) :=
  ⟨begins.refused, fun absent => ⟨by rw [begins.begun absent], begins.settles absent⟩⟩

/-! A session in which a context gets state from the factory of an extension that is made for it. -/

def overtaking : Supply Action :=
  ⟨"key", .given .null, [.create ⟨globalName, "first", 64, false⟩ []], none, []⟩

def overtaken : Machine :=
  keyed.told (.act .main (.create ⟨globalName, "second", 64, false⟩ [overtaking])) 0

def overtakenSite : Construction where
  nested := none
  creation := ⟨globalName, "second", 64, false⟩
  registry := globalRegistry
  block := ⟨1⟩
  handle := soleHandle
  slots := [none]
  pending := [⟨0, .probe, .given .null, overtaking.before, none, []⟩]

theorem begins_overtaken : Begins (fun _ _ => 0) overtaken false [overtaking] overtakenSite [] := by
  have registered : Later ⟨.start fun _ _ => 0, .main, []⟩ keyed := later_told rfl (by trivial) 2
  exact ⟨registered.trans (later_told rfl (by trivial) 0), rfl, rfl, rfl, rfl, rfl, rfl, rfl, rfl, rfl⟩

-- The context keeps the state that the factory gave it.
theorem creation_all_or_nothing_overtaken : overtaken.step.Settles overtakenSite [] ∧
    (overtaken.steps 10).tasks = [.answer none overtakenSite.duplicate] ∧
    ∃ entry, (overtaken.steps 10).world.Registered globalRegistry entry ⟨64, by decide⟩ ⟨2⟩ := by
  have absent : ∀ entry b,
      ¬overtaken.world.Registered overtakenSite.registry entry overtakenSite.handle b := by
    rintro entry b ⟨contexts, found, there⟩
    cases found
    cases (HandleMap.entry?_empty _ entry).symm.trans there
  exact ⟨((creation_all_or_nothing begins_overtaken).2 absent).2, rfl, ⟨1, 1⟩, _, rfl, rfl⟩

end Machine

end AttachedState
