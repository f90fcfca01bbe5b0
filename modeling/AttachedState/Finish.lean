import AttachedState.Work

/-!
Every machine finishes: each step leaves less work than there was before, so a machine that is run
for as many steps as there is work has no tasks left.

What follows goes through the operations in the order of the modules that hold them.  Each lemma says
by how much the stored work may grow, or how much of it turns into tasks.
-/

namespace AttachedState

theorem tasksWork_append (first later : List Task) :
    tasksWork (first ++ later) = tasksWork first + tasksWork later := by
  induction first with
  | nil => simp [tasksWork]
  | cons task rest ih => simp [tasksWork, ih]; omega

theorem tasksWork_cons (task : Task) (later : List Task) :
    tasksWork (task :: later) = task.work + tasksWork later := rfl

@[simp] theorem tasksWork_nil : tasksWork [] = 0 := rfl

theorem tasksWork_performs (nested : Bool) (actions : List Action) :
    tasksWork (actions.map (.perform nested)) = actionsWork actions := by
  induction actions with
  | nil => simp [actionsWork]
  | cons action rest ih => simp [tasksWork_cons, Task.work, actionsWork, ih]

theorem tasksWork_dropTasks (b : BlockId) (handle : Handle) (slots : List (Option Object)) :
    tasksWork (dropTasks b handle (slots.filterMap id)) = slotsWork slots := by
  induction slots with
  | nil => simp [dropTasks, slotsWork]
  | cons slot rest ih =>
    cases slot <;>
      simp [dropTasks, slotsWork, tasksWork_cons, Task.work] at ih ⊢ <;> simp [ih]

namespace World

/-! The tables. -/

theorem work_setRegistry (w : World) (r : RegistryId) (registry : Registry) :
    (w.setRegistry r registry).work + (w.registry r).contexts.size
      = w.work + registry.contexts.size := by
  have moved := w.registries.total_put r registry fun registry => registry.contexts.size
  have same : ((w.registries.find? r).map fun registry => registry.contexts.size).getD 0
      = (w.registry r).contexts.size := by
    unfold World.registry
    cases w.registries.find? r <;> rfl
  simp only [work, setRegistry]
  omega

theorem work_setThread (w : World) (t : ThreadId) (thread : Thread) :
    (w.setThread t thread).work + 4 * (w.thread t).atExit.length
      = w.work + 4 * thread.atExit.length := by
  have moved := w.threads.total_put t thread fun thread => 4 * thread.atExit.length
  have same : ((w.threads.find? t).map fun thread => 4 * thread.atExit.length).getD 0
      = 4 * (w.thread t).atExit.length := by
    unfold World.thread
    cases w.threads.find? t <;> rfl
  simp only [work, setThread]
  omega

theorem work_setThread_eq {w : World} {t : ThreadId} {thread : Thread}
    (same : thread.atExit = (w.thread t).atExit) : (w.setThread t thread).work = w.work := by
  have moved := w.work_setThread t thread
  rw [same] at moved
  omega

theorem work_setRegistry_eq {w : World} {r : RegistryId} {registry : Registry}
    (same : registry.contexts.size = (w.registry r).contexts.size) :
    (w.setRegistry r registry).work = w.work := by
  have moved := w.work_setRegistry r registry
  omega

@[simp] theorem work_note (w : World) (e : Event) : (w.note e).work = w.work := rfl

theorem work_startThread (w : World) (t : ThreadId) : (w.startThread t).work = w.work := by
  unfold startThread
  split
  · rfl
  · rename_i absent
    have missing : w.threads.find? t = none := by simpa [Table.contains] using absent
    exact work_setThread_eq (by simp [World.thread, missing])

/-! Locks. -/

theorem registry_setRegistry (w : World) (r : RegistryId) (registry : Registry) :
    (w.setRegistry r registry).registry r = registry := by
  simp [World.registry, setRegistry, Table.find?_put_self]

theorem lock?_eq_some {w held : World} {t : ThreadId} {r : RegistryId}
    (taken : w.lock? t r = some held) :
    held.work = w.work ∧ held.registry r = { w.registry r with holder := some t } := by
  unfold lock? at taken
  simp only at taken
  split at taken
  · cases taken
    refine ⟨?_, registry_setRegistry _ _ _⟩
    rw [work_setRegistry_eq (by rfl), work_setThread_eq (by rfl)]
  · cases taken

theorem work_unlock (w : World) (t : ThreadId) (r : RegistryId) :
    (w.unlock t r).work = w.work := by
  unfold unlock
  simp only
  rw [work_setRegistry_eq (by rfl), work_setThread_eq (by rfl)]

-- What is done under a lock changes the stored work only by the contexts it adds or removes.
theorem work_underLock {α : Type} {w after : World} {t : ThreadId} {r : RegistryId}
    {body : Registry → α × Registry} {result : α} (grows : Nat)
    (bounded : ∀ registry, (body registry).2.contexts.size ≤ registry.contexts.size + grows)
    (worked : w.underLock t r body = .ok (result, after)) : after.work ≤ w.work + grows := by
  unfold underLock at worked
  split at worked
  · cases worked
  · rename_i held taken
    obtain ⟨sameWork, sameRegistry⟩ := lock?_eq_some taken
    simp only [Except.ok.injEq, Prod.mk.injEq] at worked
    obtain ⟨_, rfl⟩ := worked
    have moved := held.work_setRegistry r (body (held.registry r)).2
    have grown := bounded (held.registry r)
    rw [work_unlock]
    omega

/-! Registries. -/

theorem size_register_le (registry : Registry) (h : Handle) (block : BlockId) :
    (registry.register h block).2.contexts.size ≤ registry.contexts.size + 1 := by
  unfold Registry.register
  split
  · rename_i inserted
    exact HandleMap.size_insert_le inserted
  · simp

theorem size_withdraw_le (registry : Registry) (entry : Ticket) (h : Handle) (block : BlockId) :
    (registry.withdraw entry h block).2.contexts.size ≤ registry.contexts.size := by
  unfold Registry.withdraw
  split
  · simp
  · rename_i removed
    split
    · exact HandleMap.size_remove_le removed
    · simp

theorem size_detach (registry : Registry) (line : Ticket) :
    (registry.detach line).contexts.size = registry.contexts.size := by
  unfold Registry.detach
  split <;> rfl

/-! Lookups. -/

theorem work_pruneMemos (w : World) (t : ThreadId) : (w.pruneMemos t).work = w.work :=
  work_setThread_eq (by rfl)

theorem work_attachMemo_le (w : World) (t : ThreadId) (r : RegistryId) :
    (w.attachMemo t r).2.work ≤ w.work := by
  have pruned := w.work_pruneMemos t
  unfold attachMemo
  simp only
  split
  · simp [pruned]
  · rename_i line after worked
    have bound := work_underLock 0 (by intro registry; simp [Registry.attach]) worked
    simp only [work_note]
    rw [work_setThread_eq (by rfl)]
    omega

theorem work_memoFor_le (w : World) (t : ThreadId) (r : RegistryId) :
    (w.memoFor t r).2.work ≤ w.work := by
  unfold memoFor
  split
  · simp
  · exact w.work_attachMemo_le t r

theorem work_resolveThrough_le (w : World) (t : ThreadId) (memo : Memo) (h : Handle) :
    (w.resolveThrough t memo h).2.work ≤ w.work := by
  unfold resolveThrough
  split
  · simp
  · rename_i found after worked
    have bound := work_underLock 0 (by intro registry; simp [Registry.resolve]) worked
    simp only [work_note]
    rw [work_setThread_eq (by rfl)]
    omega

theorem work_resolveDirectly_le (w : World) (t : ThreadId) (r : RegistryId) (h : Handle) :
    (w.resolveDirectly t r h).2.work ≤ w.work := by
  unfold resolveDirectly
  split
  · simp
  · rename_i found after worked
    have bound := work_underLock 0 (by intro registry; simp) worked
    simpa using bound

theorem work_lookUp_le (w : World) (t : ThreadId) (r : RegistryId) (h : Handle) :
    (w.lookUp t r h).2.work ≤ w.work := by
  have noted : (w.setThread t (w.thread t).noteLookup).work = w.work := by
    refine work_setThread_eq ?_
    unfold Thread.noteLookup
    split <;> rfl
  unfold lookUp
  simp only
  split
  · exact w.work_resolveDirectly_le t r h
  · have made := (w.setThread t (w.thread t).noteLookup).work_memoFor_le t r
    split
    · rename_i cause after found
      rw [found] at made
      simp only at made ⊢
      omega
    · rename_i memo after found
      rw [found] at made
      simp only at made ⊢
      split
      · simp only [work_note]; omega
      · have resolved := after.work_resolveThrough_le t memo h
        omega

theorem work_detachMemo_le (t : ThreadId) (w : World) (memo : Memo) :
    (detachMemo t w memo).work ≤ w.work := by
  unfold detachMemo
  split
  · split
    · simp
    · rename_i after worked
      have bound := work_underLock 0 (by intro registry; simp [size_detach]) worked
      simpa using bound
  · simp

theorem work_dropMemos_le (w : World) (t : ThreadId) : (w.dropMemos t).work ≤ w.work := by
  have folded : ∀ (memos : List Memo) (w : World), (memos.foldl (detachMemo t) w).work ≤ w.work := by
    intro memos
    induction memos with
    | nil => simp
    | cons memo rest ih =>
      intro w
      exact Nat.le_trans (ih _) (work_detachMemo_le t w memo)
  unfold dropMemos
  simp only
  rw [work_setThread_eq (by rfl)]
  exact folded _ w

theorem work_eraseThread_le (w : World) (t : ThreadId) :
    ({ w with threads := w.threads.erase t } : World).work ≤ w.work := by
  have less := w.threads.total_erase_le t fun thread => 4 * thread.atExit.length
  simp only [work]
  omega

end World

-- What an outcome stores and leaves to be done is at most so much more than what was stored.
def Outcome.Within (outcome : Outcome) (w : World) (more : Nat) : Prop :=
  outcome.world.work + tasksWork outcome.first ≤ w.work + more

namespace Outcome

theorem within_of {w after : World} {answer : Answer} {more : Nat}
    (bounded : after.work ≤ w.work + more) : (of after answer).Within w more := by
  simpa [Within, of] using bounded

theorem within_fail {w after : World} {failure : Failure} {more : Nat}
    (bounded : after.work ≤ w.work + more) : (fail after failure).Within w more :=
  within_of bounded

theorem Within.mono {outcome : Outcome} {w : World} {less more : Nat}
    (within : outcome.Within w less) (le : less ≤ more) : outcome.Within w more :=
  Nat.le_trans within (Nat.add_le_add_left le _)

end Outcome

namespace World

open Outcome

/-! Owners. -/

theorem giveUp_within (w : World) (t : ThreadId) (g : Guard) : (w.giveUp t g).Within w 2 := by
  have bounded : ∀ registry : Registry, (registry.withdraw g.entry g.handle g.block).2.contexts.size
      ≤ registry.contexts.size + 0 := fun registry => size_withdraw_le registry _ _ _
  unfold giveUp
  split
  · simp [Within, guardTasks, tasksWork, Task.work]
  · rename_i worked
    have bound := work_underLock 0 bounded worked
    simp [Within, guardTasks, tasksWork, Task.work]
    omega
  · rename_i worked
    have bound := work_underLock 0 bounded worked
    simp [Within, guardTasks, tasksWork, Task.work]
    omega

theorem destroy_within (w : World) (t : ThreadId) (name : Name) :
    (w.destroy t name).Within w 2 := by
  unfold destroy
  split
  · exact within_fail (by omega)
  · exact giveUp_within _ _ _

theorem work_releaseBlock_le (w : World) (later : List Task) (b : BlockId) :
    (w.releaseBlock later b).1.work + tasksWork (w.releaseBlock later b).2 ≤ w.work := by
  unfold releaseBlock
  split
  · simp
  · split
    · simp
    · rename_i block found
      have less := w.blocks.total_erase_le b fun block => slotsWork block.slots
      rw [found] at less
      simp only [Option.map_some, Option.getD_some] at less
      simp only [work, Block.objects, tasksWork_dropTasks]
      omega

theorem work_releaseRegistry_le (w : World) (later : List Task) (r : RegistryId) :
    (w.releaseRegistry later r).1.work + tasksWork (w.releaseRegistry later r).2 ≤ w.work := by
  unfold releaseRegistry
  split
  · simp
  · split
    · simp
    · rename_i registry found
      have less := w.registries.total_erase_le r fun registry => registry.contexts.size
      rw [found] at less
      simp only [Option.map_some, Option.getD_some] at less
      have released : ∀ blocks : List BlockId, tasksWork (blocks.map .releaseBlock) = blocks.length := by
        intro blocks
        induction blocks with
        | nil => simp
        | cons b rest ih => simp [tasksWork_cons, Task.work, ih]; omega
      have many : registry.blocks.length = registry.contexts.size := by
        simp [Registry.blocks, HandleMap.length_toList]
      simp only [work, released, many]
      omega

/-! Constructions. -/

theorem work_supplies {w : World} {supplies : List (Supply Action)} {factories : List Factory}
    (found : supplies.mapM (·.factory? w) = some factories) :
    factoriesWork factories = suppliesWork supplies := by
  induction supplies generalizing factories with
  | nil => cases found; rfl
  | cons supply rest ih =>
    simp only [List.mapM_cons, Option.bind_eq_bind, Option.bind_eq_some_iff, Option.pure_def,
      Option.some.injEq] at found
    obtain ⟨factory, made, others, later, rfl⟩ := found
    simp only [Supply.factory?, Option.map_eq_some_iff] at made
    obtain ⟨key, _, rfl⟩ := made
    cases supply
    simp [suppliesWork, supplyWork, factoriesWork, ih later, Factory.work]

theorem slotsWork_replicate (n : Nat) : slotsWork (List.replicate n none) = 0 := by
  induction n with
  | zero => rfl
  | succ n ih => simp [List.replicate_succ, slotsWork, ih]

theorem beginCreation_ok {w after : World} {t : ThreadId} {nested : Option Action}
    {creation : Creation} {supplies : List (Supply Action)} {site : Construction}
    (begun : w.beginCreation t nested creation supplies = (.ok site, after)) :
    after.work = w.work ∧ site.work = suppliesWork supplies + 6 := by
  unfold beginCreation at begun
  repeat' split at begun
  all_goals simp only [Prod.mk.injEq, reduceCtorEq, false_and, Except.ok.injEq] at begun
  rename_i factories found _ _ _ number numbered taken
  obtain ⟨sameSite, sameWorld⟩ := begun
  subst sameSite sameWorld
  cases taken
  refine ⟨rfl, ?_⟩
  simp [Construction.work, slotsWork_replicate, work_supplies found]

theorem beginCreation_error {w after : World} {t : ThreadId} {nested : Option Action}
    {creation : Creation} {supplies : List (Supply Action)} {failure : Failure}
    (begun : w.beginCreation t nested creation supplies = (.error failure, after)) :
    after = w := by
  unfold beginCreation at begun
  repeat' split at begun
  all_goals simp only [Prod.mk.injEq, reduceCtorEq, false_and] at begun
  all_goals exact begun.2.symm

theorem work_supplied_le (w : World) (t : ThreadId) (handle : Handle) (source : Source) :
    (w.supplied t handle source).2.work ≤ w.work := by
  unfold supplied
  split
  · simp
  · simp
  · rename_i registry address key addend
    split
    · rename_i r h found _ _ _
      have looked := w.work_lookUp_le t r h
      split <;> rename_i after seen <;> rw [seen] at looked <;> exact looked
    · simp

theorem work_makeValue_le (w : World) (t : ThreadId) (handle : Handle) (f : Factory) :
    (w.makeValue t handle f).2.work ≤ w.work := by
  have bound := w.work_supplied_le t handle f.source
  unfold makeValue
  split
  · simp
  · split
    · rename_i after seen
      rw [seen] at bound
      exact bound
    · rename_i after seen
      rw [seen] at bound
      split <;> exact bound

theorem tasksWork_abandon (site : Construction) (failure : Failure) :
    tasksWork (site.abandon failure) = slotsWork site.slots + 2 := by
  simp only [Construction.abandon, Construction.close, Construction.built, Block.objects,
    tasksWork_append, tasksWork_dropTasks, tasksWork_cons, tasksWork_nil, Task.work]

-- Putting an object into a slot adds its work and takes away that of the object it replaces.
theorem slotsWork_set_le (slots : List (Option Object)) (slot : Slot) (object : Object) :
    slotsWork (slots.set slot (some object)) + ((slots[slot]?.join).map Object.work).getD 0
      ≤ slotsWork slots + object.work := by
  induction slots generalizing slot with
  | nil => simp [slotsWork]
  | cons head rest ih =>
    cases slot with
    | zero => cases head <;> simp [slotsWork] <;> omega
    | succ slot =>
      have later := ih slot
      simp [slotsWork] at later ⊢
      omega

theorem actionsWork_dropActions_le (f : Factory) :
    actionsWork f.dropActions ≤ actionsWork f.onDrop := by
  unfold Factory.dropActions
  split <;> simp [actionsWork]

theorem work_make_lt (w : World) (t : ThreadId) (site : Construction) (f : Factory) :
    (w.make t site f).1.work + tasksWork (w.make t site f).2
      < w.work + (Task.make site f).work := by
  have bound := w.work_makeValue_le t site.handle f
  have dropped := actionsWork_dropActions_le f
  unfold make
  split
  · rename_i cause after seen
    rw [seen] at bound
    simp only [tasksWork_abandon, Task.work, Construction.work] at bound ⊢
    omega
  · rename_i value after seen
    rw [seen] at bound
    simp only [takeNumber]
    have placed := slotsWork_set_le site.slots f.slot
      ⟨⟨after.next⟩, value, site.creation.registry, f.dropActions⟩
    have sameWork : ({ after with next := after.next + 1 } : World).work = after.work := rfl
    split
    · rename_i vacant
      simp only [Block.object?, Construction.built] at vacant
      simp only [vacant, Option.map_none, Option.getD_none, Object.work] at placed
      simp only [work_note, sameWork, tasksWork_cons, tasksWork_nil, Task.work,
        Construction.work] at bound ⊢
      omega
    · rename_i earlier taken
      simp only [Block.object?, Construction.built] at taken
      simp only [taken, Option.map_some, Option.getD_some, Object.work] at placed
      simp only [work_note, sameWork, tasksWork_cons, tasksWork_nil, Task.work,
        Construction.work, Object.work] at bound ⊢
      omega

theorem work_putBlock_le (w : World) (b : BlockId) (block : Block) :
    ({ w with blocks := w.blocks.put b block } : World).work ≤ w.work + slotsWork block.slots := by
  have moved := w.blocks.total_put b block fun block => slotsWork block.slots
  simp only [work]
  omega

theorem work_register_lt (w : World) (t : ThreadId) (site : Construction) :
    (w.register t site).1.work + tasksWork (w.register t site).2
      < w.work + slotsWork site.slots + 6 := by
  have bounded := fun registry : Registry => size_register_le registry site.handle site.block
  unfold register
  split
  · simp only [tasksWork_abandon]
    omega
  · rename_i after worked
    have bound := work_underLock 1 bounded worked
    simp only [tasksWork_abandon]
    omega
  · rename_i entry after worked
    have bound := work_underLock 1 bounded worked
    have stored := after.work_putBlock_le site.block site.built
    simp only [Construction.built] at stored
    simp only
    split
    · have given := giveUp_within
        (({ after with blocks := after.blocks.put site.block site.built } : World).note
          (.stateCreated site.registry entry site.block site.handle site.built.slotCount)) t
        ⟨site.registry, entry, site.handle, site.block⟩
      simp only [Within, work_note, Construction.built] at given
      simp only [tasksWork_append, Construction.close, tasksWork_cons, tasksWork_nil, Task.work,
        Construction.built]
      omega
    · split <;>
        simp only [Construction.close, tasksWork_cons, tasksWork_nil, Task.work] <;>
        simp only [work, note, Construction.built] at stored bound ⊢ <;> omega

theorem work_construct_lt (w : World) (t : ThreadId) (site : Construction) :
    (w.construct t site).1.work + tasksWork (w.construct t site).2 < w.work + site.work := by
  unfold construct
  split
  · rename_i pending
    have bound := w.work_register_lt t site
    simp only [Construction.work, pending, factoriesWork]
    omega
  · rename_i f rest pending
    simp only [work_note, tasksWork_append, tasksWork_performs, tasksWork_cons, tasksWork_nil,
      Task.work, Construction.work, pending, factoriesWork, Factory.work]
    omega

theorem work_dropObject_lt (w : World) (t : ThreadId) (b : BlockId) (handle : Handle)
    (object : Object) :
    (w.dropObject t b handle object).1.work + tasksWork (w.dropObject t b handle object).2
      < w.work + object.work := by
  simp only [dropObject, work_note, tasksWork_performs, Object.work]
  omega

/-! Retrievals. -/

theorem keep_within (w : World) (name : Name) (b : BlockId) :
    (w.keep name b).1.work + tasksWork (w.keep name b).2 ≤ w.work + 1 := by
  simp only [keep]
  cases w.held.find? name <;> simp [work, tasksWork_cons, Task.work]

theorem present_within (w : World) (retrieval : Retrieval) (b : BlockId) :
    (w.present retrieval b).Within w 1 := by
  unfold present
  split
  · simp only
    split
    · exact within_of (by omega)
    · exact w.keep_within _ b
  · exact within_fail (by omega)

theorem retrieve_within (w : World) (t : ThreadId) (retrieval : Retrieval) :
    (w.retrieve t retrieval).Within w 2 := by
  unfold retrieve
  split
  · exact within_fail (by omega)
  · split
    · exact within_fail (by omega)
    · rename_i h _ _ r _
      have looked := w.work_lookUp_le t r h
      split
      · rename_i seen
        rw [seen] at looked
        exact within_fail (by simp only at looked; omega)
      · rename_i seen
        rw [seen] at looked
        exact within_fail (by simp only at looked; omega)
      · rename_i b after seen
        rw [seen] at looked
        have presented := after.present_within retrieval b
        simp only [Within, tasksWork_append, tasksWork_cons, tasksWork_nil, Task.work] at presented looked ⊢
        omega

theorem leaveForExit_within (w : World) (t : ThreadId) (retrieval : Retrieval) :
    (w.leaveForExit t retrieval).Within w 4 := by
  refine within_of ?_
  have moved := w.work_setThread t
    { w.thread t with atExit := (w.thread t).atExit ++ [retrieval] }
  simp only [List.length_append, List.length_cons, List.length_nil] at moved
  omega

theorem hold_within (w : World) (state name : Name) : (w.hold state name).Within w 1 := by
  unfold hold
  split
  · exact within_fail (by omega)
  · exact w.keep_within _ _

theorem release_within (w : World) (name : Name) : (w.release name).Within w 1 := by
  unfold release
  split
  · exact within_fail (by omega)
  · simp [Within, work, tasksWork_cons, Task.work]

theorem ofSubject_within (w : World) (subject : Subject) (tell : Block → Answer) :
    (w.ofSubject subject tell).Within w 0 := by
  unfold ofSubject
  split
  · exact within_fail (by omega)
  · exact within_of (by omega)

theorem readKey_within (w : World) (name : Name) (subject : Subject) :
    (w.readKey name subject).Within w 0 := by
  unfold readKey
  split
  · exact within_fail (by omega)
  · exact w.ofSubject_within _ _

/-! Names. -/

theorem work_underLock_keeping {α : Type} {w after : World} {t : ThreadId} {r : RegistryId}
    {look : Registry → α} {result : α}
    (worked : w.underLock t r (fun registry => (look registry, registry)) = .ok (result, after)) :
    after.work ≤ w.work :=
  work_underLock 0 (by intro registry; simp) worked

theorem askRegistry_within (w : World) (t : ThreadId) (name : Name) (tell : Registry → Answer) :
    (w.askRegistry t name tell).Within w 0 := by
  unfold askRegistry
  split
  · exact within_fail (by omega)
  · split
    · exact within_fail (by omega)
    · rename_i worked
      exact within_of (work_underLock_keeping worked)

theorem work_makeRegistry_le (w : World) (label : Name) : (w.makeRegistry label).2.work ≤ w.work := by
  have moved := ({ w with next := w.next + 1 } : World).work_setRegistry ⟨w.next⟩
    (.fresh label (w.hashing ⟨w.next⟩))
  have empty : (Registry.fresh label (w.hashing ⟨w.next⟩)).contexts.size = 0 := rfl
  have same : ({ w with next := w.next + 1 } : World).work = w.work := rfl
  simp only [makeRegistry, takeNumber]
  omega

theorem nameRegistry_within {w made : World} (kept : made.work ≤ w.work) (name : Name)
    (r : RegistryId) : (w.nameRegistry made name r).Within w 0 := by
  unfold nameRegistry
  split
  · exact within_fail (by omega)
  · exact within_of kept

theorem newRegistry_within (w : World) (name : Name) : (w.newRegistry name).Within w 0 :=
  nameRegistry_within (w.work_makeRegistry_le name) name _

theorem openRegistry_within (w : World) (t : ThreadId) (name : Name) :
    (w.openRegistry t name).Within w 0 := by
  unfold openRegistry
  simp only
  split
  · exact within_fail (by omega)
  · rename_i worked
    exact nameRegistry_within
      (Nat.le_trans (work_underLock_keeping worked) (w.work_makeRegistry_le name)) name _

theorem shareRegistry_within (w : World) (name source : Name) :
    (w.shareRegistry name source).Within w 1 := by
  unfold shareRegistry
  split
  · exact within_fail (by omega)
  · cases w.registryNames.find? name <;> simp [Within, work, tasksWork_cons, Task.work]

theorem dropRegistry_within (w : World) (name : Name) : (w.dropRegistry name).Within w 1 := by
  unfold dropRegistry
  split
  · exact within_fail (by omega)
  · simp [Within, work, tasksWork_cons, Task.work]

theorem contains_within (w : World) (t : ThreadId) (name : Name) (address : UInt64) :
    (w.contains t name address).Within w 0 := by
  unfold contains
  split
  · exact within_fail (by omega)
  · exact within_fail (by omega)
  · exact w.askRegistry_within _ _ _

theorem showState_within (w : World) (t : ThreadId) (name : Name) (layout : Layout) :
    (w.showState t name layout).Within w 0 := by
  unfold showState
  split
  · exact within_fail (by omega)
  · split
    · exact within_fail (by omega)
    · split
      · exact within_fail (by omega)
      · rename_i worked
        exact within_of (work_underLock_keeping worked)

theorem spaces_within (w : World) :
    (∀ name, (w.openSpace name).Within w 0) ∧
    (∀ name source, (w.shareSpace name source).Within w 0) ∧
    (∀ name, (w.dropSpace name).Within w 0) ∧
    (∀ name layout, (w.showSpace name layout).Within w 0) ∧
    ∀ name slot, (w.isRegistered name slot).Within w 0 := by
  refine ⟨?_, ?_, ?_, ?_, ?_⟩
  · intro name; exact within_of (by simp [work])
  · intro name source; unfold shareSpace; split
    · exact within_fail (by omega)
    · exact within_of (by simp [work])
  · intro name; unfold dropSpace; split
    · exact within_of (by simp [work])
    · exact within_fail (by omega)
  · intro name layout; unfold showSpace; split
    · exact within_fail (by omega)
    · exact within_of (by omega)
  · intro name slot; unfold isRegistered; split
    · exact within_fail (by omega)
    · exact within_of (by omega)

theorem keys_within (w : World) :
    (∀ name space kind, (w.registerKey name space kind).Within w 0) ∧
    (∀ name, (w.dropKey name).Within w 0) ∧
    (∀ name layout, (w.showKey name layout).Within w 0) ∧
    ∀ name space, (w.keyIsIn name space).Within w 0 := by
  refine ⟨?_, ?_, ?_, ?_⟩
  · intro name space kind; unfold registerKey; split
    · exact within_fail (by omega)
    · split
      · exact within_fail (by omega)
      · exact within_of (by simp [work, note])
  · intro name; unfold dropKey; split
    · exact within_fail (by omega)
    · simp only
      split
      · exact within_fail (by simp [work])
      · exact within_of (by simp [work, note])
  · intro name layout; unfold showKey; split
    · exact within_fail (by omega)
    · exact within_of (by omega)
  · intro name space; unfold keyIsIn; split
    · exact within_of (by omega)
    · exact within_fail (by omega)

/-! Races. -/

theorem work_attempt_le (w : World) (t : ThreadId) (r : RegistryId) (h : Handle) :
    (w.attempt t r h).2.work ≤ w.work + 1 := by
  have bounded := fun registry : Registry => size_register_le registry h ⟨w.next⟩
  unfold attempt
  simp only [takeNumber]
  have same : ({ w with next := w.next + 1 } : World).work = w.work := rfl
  split
  · rename_i entry after worked
    have bound := work_underLock 1 bounded worked
    have stored := after.work_putBlock_le ⟨w.next⟩ ⟨h, []⟩
    simp only [slotsWork] at stored
    simp only [work_note]
    omega
  · rename_i after worked
    have bound := work_underLock 1 bounded worked
    simp only
    omega
  · simp only
    omega

theorem work_attempts_le (r : RegistryId) (h : Handle) (n : Nat) (w : World) :
    (attempts r h n w).2.work ≤ w.work + n ∧ (attempts r h n w).1.length ≤ n := by
  induction n with
  | zero => simp [attempts]
  | succ n ih =>
    obtain ⟨stored, many⟩ := ih
    simp only [attempts]
    have tried := ((attempts r h n w).2.startThread (.racer n)).work_attempt_le (.racer n) r h
    rw [work_startThread] at tried
    split <;> rename_i seen <;> rw [seen] at tried <;> simp at tried ⊢ <;> omega

theorem work_giveUpAll_le (t : ThreadId) (owners : List Guard) (w : World) (first : List Task) :
    let after := owners.foldl (fun (w, first) g =>
      ((w.giveUp t g).world, first ++ (w.giveUp t g).first)) (w, first)
    after.1.work + tasksWork after.2 ≤ w.work + tasksWork first + 2 * owners.length := by
  induction owners generalizing w first with
  | nil => simp
  | cons g rest ih =>
    have later := ih (w.giveUp t g).world (first ++ (w.giveUp t g).first)
    have given := w.giveUp_within t g
    simp only [Within] at given
    simp only [List.foldl_cons, tasksWork_append, List.length_cons] at later ⊢
    omega

theorem work_endRacers_le (n : Nat) (w : World) : (endRacers n w).work ≤ w.work := by
  induction n with
  | zero => simp [endRacers]
  | succ n ih =>
    simp only [endRacers, work_note]
    have dropped := (endRacers n w).work_dropMemos_le (.racer n)
    have erased := ((endRacers n w).dropMemos (.racer n)).work_eraseThread_le (.racer n)
    omega

theorem entrants_le (w : World) (r : RegistryId) (threads : Nat) : w.entrants r threads ≤ threads := by
  unfold entrants
  split <;> omega

theorem raceToCreate_within (w : World) (t : ThreadId) (name : Name) (address : UInt64)
    (threads : Nat) : (w.raceToCreate t name address threads).Within w (3 * threads) := by
  unfold raceToCreate
  split
  · exact within_fail (by omega)
  · exact within_fail (by omega)
  · rename_i r h _ _
    have within := w.entrants_le r threads
    obtain ⟨stored, many⟩ := work_attempts_le r h (w.entrants r threads) w
    have given := work_giveUpAll_le t (attempts r h (w.entrants r threads) w).1
      (attempts r h (w.entrants r threads) w).2 []
    have ended := work_endRacers_le (w.entrants r threads)
      ((attempts r h (w.entrants r threads) w).2.giveUpAll t
        (attempts r h (w.entrants r threads) w).1).1
    simp only [Within, giveUpAll, tasksWork_nil] at given ended ⊢
    omega

theorem work_lookUpTimes_le (t : ThreadId) (r : RegistryId) (h : Handle) (n : Nat) (w : World) :
    (lookUpTimes t r h n w).2.work ≤ w.work := by
  induction n with
  | zero => simp [lookUpTimes]
  | succ n ih =>
    simp only [lookUpTimes]
    have looked := (lookUpTimes t r h n w).2.work_lookUp_le t r h
    split <;> rename_i seen <;> rw [seen] at looked <;> exact Nat.le_trans looked ih

theorem work_lookUpRacing_le (r : RegistryId) (h : Handle) (rounds n : Nat) (w : World) :
    (lookUpRacing r h rounds n w).2.work ≤ w.work := by
  induction n with
  | zero => simp [lookUpRacing]
  | succ n ih =>
    simp only [lookUpRacing]
    have looked := work_lookUpTimes_le (.racer n) r h rounds
      ((lookUpRacing r h rounds n w).2.startThread (.racer n))
    rw [work_startThread] at looked
    exact Nat.le_trans looked ih

theorem raceToRetrieve_within (w : World) (name : Name) (address : UInt64) (threads rounds : Nat) :
    (w.raceToRetrieve name address threads rounds).Within w 0 := by
  unfold raceToRetrieve
  split
  · exact within_fail (by omega)
  · exact within_fail (by omega)
  · rename_i r h _ _
    exact within_of (Nat.le_trans (work_endRacers_le _ _) (work_lookUpRacing_le r h rounds _ w))

theorem raceForKeys_within (w : World) (name : Name) (threads each : Nat) :
    (w.raceForKeys name threads each).Within w 0 := by
  unfold raceForKeys
  split
  · exact within_fail (by omega)
  · exact within_of (by simp [work])

/-! Steps. -/

theorem operate_within (w : World) (t : ThreadId) (operation : Operation) :
    (w.operate t operation).Within w (operation.work - 2) := by
  cases operation with
  | openRegistry registry looks =>
    cases looks
    · exact (w.newRegistry_within registry).mono (by simp)
    · exact (w.openRegistry_within t registry).mono (by simp)
  | shareRegistry => exact (w.shareRegistry_within _ _).mono (by simp [Operation.work])
  | dropRegistry => exact (w.dropRegistry_within _).mono (by simp [Operation.work])
  | openSpace => exact (w.spaces_within.1 _).mono (by simp)
  | shareSpace => exact (w.spaces_within.2.1 _ _).mono (by simp)
  | dropSpace => exact (w.spaces_within.2.2.1 _).mono (by simp)
  | registerKey => exact (w.keys_within.1 _ _ _).mono (by simp)
  | dropKey => exact (w.keys_within.2.1 _).mono (by simp)
  | showKey => exact (w.keys_within.2.2.1 _ _).mono (by simp)
  | keyIsIn => exact (w.keys_within.2.2.2 _ _).mono (by simp)
  | showSpace => exact (w.spaces_within.2.2.2.1 _ _).mono (by simp)
  | isRegistered => exact (w.spaces_within.2.2.2.2 _ _).mono (by simp)
  | destroy => exact (w.destroy_within _ _).mono (by simp [Operation.work])
  | retrieve => exact (w.retrieve_within _ _).mono (by simp [Operation.work])
  | hold => exact (w.hold_within _ _).mono (by simp [Operation.work])
  | release => exact (w.release_within _).mono (by simp [Operation.work])
  | read => exact (w.readKey_within _ _).mono (by simp)
  | showSlot => exact (w.ofSubject_within _ _).mono (by simp)
  | showBlock => exact (w.ofSubject_within _ _).mono (by simp)
  | showState => exact (w.showState_within _ _ _).mono (by simp)
  | showRegistry => exact (w.askRegistry_within _ _ _).mono (by simp)
  | contains => exact (w.contains_within _ _ _).mono (by simp)
  | countContexts => exact (w.askRegistry_within _ _ _).mono (by simp)
  | countCaches => exact (w.askRegistry_within _ _ _).mono (by simp)
  | retrieveAtExit => exact (w.leaveForExit_within _ _).mono (by simp [Operation.work])
  | raceToCreate => exact (w.raceToCreate_within _ _ _ _).mono (by simp [Operation.work])
  | raceForKeys => exact (w.raceForKeys_within _ _ _).mono (by simp)
  | raceToRetrieve => exact (w.raceToRetrieve_within _ _ _ _).mono (by simp)

theorem work_perform_lt (w : World) (t : ThreadId) (nested : Bool) (action : Action) :
    (w.perform t nested action).1.work + tasksWork (w.perform t nested action).2
      < w.work + action.work := by
  unfold perform
  simp only
  split
  · rename_i operation
    have bound := w.operate_within t operation
    have two : 6 ≤ operation.work := by unfold Operation.work; split <;> omega
    simp only [Within] at bound
    simp only [tasksWork_append, tasksWork_cons, tasksWork_nil, Task.work, Action.work]
    omega
  · rename_i creation supplies
    split
    · rename_i begun
      rw [beginCreation_error begun]
      simp only [tasksWork_cons, tasksWork_nil, Task.work, Action.work]
      omega
    · rename_i begun
      obtain ⟨same, siteWork⟩ := beginCreation_ok begun
      simp only [tasksWork_cons, tasksWork_nil, Task.work, Action.work, siteWork, same]
      omega
  · rename_i name actions
    split
    · simp only [tasksWork_cons, tasksWork_nil, Task.work, Action.work]
      omega
    · split
      · simp only [tasksWork_cons, tasksWork_nil, Task.work, Action.work]
        omega
      · rename_i taken
        have same := (lock?_eq_some taken).1
        simp only [tasksWork_append, tasksWork_performs, tasksWork_cons, tasksWork_nil, Task.work,
          Action.work, same]
        omega

theorem work_take_lt (w : World) (t : ThreadId) (later : List Task) (task : Task) :
    (w.take t later task).1.work + tasksWork (w.take t later task).2 < w.work + task.work := by
  cases task with
  | perform nested action => exact w.work_perform_lt t nested action
  | construct site => exact w.work_construct_lt t site
  | make site f => exact w.work_make_lt t site f
  | dropObject b handle object => exact w.work_dropObject_lt t b handle object
  | noteOverwritten handle slot => simp [take, Task.work]
  | releaseBlock b =>
    have bound := w.work_releaseBlock_le later b
    simp only [take, Task.work]
    omega
  | releaseRegistry r =>
    have bound := w.work_releaseRegistry_le later r
    simp only [take, Task.work]
    omega
  | unlock r => simp [take, work_unlock, Task.work]
  | retrieveAtExit retrieval =>
    have bound := w.retrieve_within t retrieval
    simp only [Within] at bound
    simp only [take, tasksWork_append, tasksWork_cons, tasksWork_nil, Task.work]
    omega
  | reportExit name answer => simp [take, Task.work]
  | dropMemos =>
    have bound := w.work_dropMemos_le t
    simp only [take, tasksWork_nil, Task.work]
    omega
  | endThread =>
    have bound := w.work_eraseThread_le t
    simp only [take, work_note, tasksWork_nil, Task.work]
    omega
  | answer nested answer => simp [take, Task.work]

end World

namespace Machine

theorem work_step_lt {m : Machine} (busy : m.tasks ≠ []) : m.step.work < m.work := by
  unfold step
  split
  · contradiction
  · rename_i task later tasks
    have bound := m.world.work_take_lt m.thread later task
    simp only [work, tasks, tasksWork_append, tasksWork_cons]
    omega

theorem steps_of_finished {m : Machine} (finished : m.tasks = []) (n : Nat) : m.steps n = m := by
  have still : m.step = m := by unfold step; rw [finished]
  induction n with
  | zero => rfl
  | succ n ih => rw [steps, still, ih]

theorem tasks_steps {m : Machine} {n : Nat} (enough : m.work ≤ n) : (m.steps n).tasks = [] := by
  induction n generalizing m with
  | zero =>
    by_cases finished : m.tasks = []
    · exact finished
    · have less := work_step_lt finished
      omega
  | succ n ih =>
    by_cases finished : m.tasks = []
    · rw [steps_of_finished finished]; exact finished
    · have less := work_step_lt finished
      exact ih (by omega)

theorem tasks_run (m : Machine) : m.run.tasks = [] := tasks_steps (Nat.le_refl _)

end Machine

end AttachedState
