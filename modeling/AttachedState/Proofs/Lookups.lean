import AttachedState.Finish
import AttachedState.Proofs.Passes

/-!
Lookups.  Whatever way a lookup takes, it changes nothing but what its thread remembers, and it
answers with the block that the map has, or fails since the thread holds a registry lock.
-/

namespace AttachedState

namespace World

variable {w : World} {t : ThreadId} {r : RegistryId} {registry : Registry}

theorem find?_of_runs (runs : w.Runs t) : w.threads.find? t = some (w.thread t) := by
  obtain ⟨thread, found⟩ := runs
  rw [found, thread_of_find? found]

theorem registry_of_find? (live : w.registries.find? r = some registry) :
    w.registry r = registry := by
  rw [World.registry, live, Option.getD_some]

/-! Work under a lock.  Taking the lock and giving it back leaves the thread as it was. -/

theorem lock?_held (held : (w.thread t).depth ≠ 0) : w.lock? t r = none := if_neg held

theorem lock?_free (free : (w.thread t).depth = 0) (live : w.registries.find? r = some registry) :
    w.lock? t r = some ((w.setThread t { w.thread t with depth := 1 }).setRegistry r
      { registry with holder := some t }) := by
  unfold lock?
  simp only [free, if_true, Nat.zero_add, registry_of_find? live]

theorem unlock_eq (live : w.registries.find? r = some registry) :
    w.unlock t r = (w.setThread t { w.thread t with depth := (w.thread t).depth - 1 }).setRegistry r
      { registry with holder := none } := by
  unfold unlock
  rw [registry_of_find? live]

theorem underLock_held {α : Type} (held : (w.thread t).depth ≠ 0) (work : Registry → α × Registry) :
    w.underLock t r work = .error .lockHeld := by
  unfold underLock
  rw [lock?_held held]

theorem underLock_free {α : Type} (runs : w.Runs t) (free : (w.thread t).depth = 0)
    (live : w.registries.find? r = some registry) (work : Registry → α × Registry) :
    w.underLock t r work = .ok ((work { registry with holder := some t }).1,
      w.setRegistry r { (work { registry with holder := some t }).2 with holder := none }) := by
  have back : w.threads.put t { w.thread t with depth := 0 } = w.threads := by
    have same : { w.thread t with depth := 0 } = w.thread t := by rw [← free]
    rw [same, Table.put_of_find? (find?_of_runs runs)]
  unfold underLock
  rw [lock?_free free live]
  simp only [registry_setRegistry, unlock]
  simp only [setRegistry, setThread, thread, Table.find?_put_self, Table.put_put, Option.getD_some,
    Nat.sub_self] at back ⊢
  rw [back]

-- Work under a lock is work on one registry.
theorem underLock_rest {α : Type} {work : Registry → α × Registry} {result : α} {after : World}
    (worked : w.underLock t r work = .ok (result, after)) :
    ∃ threads registries, after = { w with threads, registries } := by
  unfold underLock lock? at worked
  simp only at worked
  split at worked
  · cases worked
  · rename_i taken
    split at taken <;> cases taken
    cases worked
    exact ⟨_, _, rfl⟩

theorem underLock_same {α : Type} {work : Registry → α × Registry} {result : α} {after : World}
    (worked : w.underLock t r work = .ok (result, after)) :
    after.blocks = w.blocks ∧ after.journal = w.journal := by
  obtain ⟨threads, registries, rfl⟩ := underLock_rest worked
  exact ⟨rfl, rfl⟩

-- So is a lookup.
theorem lookUp_rest (w : World) (t : ThreadId) (r : RegistryId) (h : Handle) :
    ∃ threads registries journal, (w.lookUp t r h).2 = { w with threads, registries, journal } := by
  have attached : ∃ threads registries journal, ((w.setThread t (w.thread t).noteLookup).memoFor t r).2
      = { w with threads, registries, journal } := by
    unfold memoFor attachMemo
    split
    · exact ⟨_, _, _, rfl⟩
    · simp only
      split
      · exact ⟨_, _, _, rfl⟩
      · rename_i line after locked
        obtain ⟨threads, registries, rfl⟩ := underLock_rest locked
        exact ⟨_, _, _, rfl⟩
  unfold lookUp
  simp only
  split
  · unfold resolveDirectly
    split
    · exact ⟨_, _, _, rfl⟩
    · rename_i found after locked
      obtain ⟨threads, registries, rfl⟩ := underLock_rest locked
      exact ⟨_, _, _, rfl⟩
  · split
    · rename_i cause after made
      rw [made] at attached
      exact attached
    · rename_i memo after made
      rw [made] at attached
      obtain ⟨threads, registries, journal, rfl⟩ := attached
      split
      · exact ⟨_, _, _, rfl⟩
      · unfold resolveThrough
        split
        · exact ⟨_, _, _, rfl⟩
        · rename_i found after locked
          obtain ⟨threads, registries, rfl⟩ := underLock_rest locked
          exact ⟨_, _, _, rfl⟩

end World

namespace Quiets

variable {w after : World}

theorem depth (changes : Quiets w after) (t : ThreadId) :
    (after.thread t).depth = (w.thread t).depth := by
  induction changes with
  | refl => rfl
  | tail _ change ih => exact (change.depth t).trans ih

theorem lined (changes : Quiets w after) (lined : w.Lined) : after.Lined := by
  induction changes with
  | refl => exact lined
  | tail _ change ih => exact change.lined ih

theorem same (changes : Quiets w after) : after.hashing = w.hashing ∧ after.blocks = w.blocks ∧
    after.registryNames = w.registryNames ∧ after.states = w.states ∧ after.held = w.held := by
  induction changes with
  | refl => exact ⟨rfl, rfl, rfl, rfl, rfl⟩
  | tail _ change ih =>
    obtain ⟨hashing, blocks, names, states, held⟩ := ih
    have same := change.same
    exact ⟨same.hashing.trans hashing, same.blocks.trans blocks, same.registryNames.trans names,
      same.states.trans states, same.held.trans held⟩

end Quiets

namespace World

variable {w : World} {t : ThreadId} {r : RegistryId} {contexts : HandleMap BlockId}

/-! Memos. -/

theorem pruneMemos_quiet (runs : w.Runs t) : Quiet w (w.pruneMemos t) :=
  .pruned (find?_of_runs runs)

-- A memo of a registry is one that was there, or one that is made now, with a new line.
theorem memoFor_spec (runs : w.Runs t) (live : w.map? r = some contexts)
    (kept : (w.thread t).memosGone = false) : ∃ after, Quiets w after ∧
      (((w.thread t).depth ≠ 0 ∧ w.memoFor t r = (.error .lockHeld, after)) ∨
      ∃ memo, w.memoFor t r = (.ok memo, after) ∧ memo.registry = r ∧
        memo ∈ (after.thread t).memos) := by
  unfold memoFor
  cases found : (w.thread t).memo? r with
  | some memo =>
    refine ⟨w, .refl, .inr ⟨memo, rfl, ?_, List.mem_of_find?_eq_some found⟩⟩
    simpa using List.find?_some found
  | none =>
    have pruned := pruneMemos_quiet runs
    have runsThen := pruned.runs runs
    have depth := pruned.depth t
    have mine : (w.pruneMemos t).thread t = { w.thread t with
        memos := (w.thread t).memos.filter fun memo => w.registries.contains memo.registry } := by
      rw [thread_put_self (w := w) rfl]
    obtain ⟨registry, there, _⟩ := find?_of_map? live
    have thereThen : (w.pruneMemos t).registries.find? r = some registry := there
    unfold attachMemo
    simp only
    by_cases free : (w.thread t).depth = 0
    · have freeThen := depth.trans free
      rw [underLock_free runsThen freeThen thereThen]
      refine ⟨_, (Relation.ReflTransGen.single pruned).tail
        (.attached (find?_of_runs runsThen) freeThen thereThen ?_ ?_),
        .inr ⟨⟨r, registry.attach.1, none⟩, ?_, rfl, ?_⟩⟩
      · rw [mine]
        refine List.find?_eq_none.mpr fun memo known => ?_
        exact List.find?_eq_none.mp found memo (List.mem_of_mem_filter known)
      · rw [mine]
        exact kept
      · simp only [registry_setRegistry]
        rfl
      · rw [thread_put_self (w := w.pruneMemos t) rfl]
        exact List.mem_append_right _ (List.mem_singleton.mpr rfl)
    · have heldThen : ((w.pruneMemos t).thread t).depth ≠ 0 := by rwa [depth]
      rw [underLock_held heldThen]
      exact ⟨_, .single pruned, .inl ⟨free, rfl⟩⟩

/-! Lookups. -/

-- What a lookup may give: a refusal to take a lock, or the block of the map.
def Answers (w : World) (t : ThreadId) (found : Option BlockId)
    (result : Except Panic (Option BlockId)) : Prop :=
  ((w.thread t).depth ≠ 0 ∧ result = .error .lockHeld) ∨ result = .ok found

theorem resolveThrough_spec (runs : w.Runs t) {memo : Memo} (known : memo ∈ (w.thread t).memos)
    (live : w.map? memo.registry = some contexts) {h : Handle} (cold : w.remembered? memo h = none) :
    Quiets w (w.resolveThrough t memo h).2 ∧
      w.Answers t (contexts.get? h) (w.resolveThrough t memo h).1 := by
  obtain ⟨registry, there, rfl⟩ := find?_of_map? live
  unfold resolveThrough
  by_cases free : (w.thread t).depth = 0
  · rw [underLock_free runs free there]
    have resolved := Quiet.resolved (find?_of_runs runs) free known there cold
    exact ⟨.single resolved, .inr rfl⟩
  · rw [underLock_held free]
    exact ⟨.refl, .inl ⟨free, rfl⟩⟩

theorem resolveDirectly_spec (runs : w.Runs t) (gone : (w.thread t).memosGone = true)
    (live : w.map? r = some contexts) (h : Handle) :
    Quiets w (w.resolveDirectly t r h).2 ∧
      w.Answers t (contexts.get? h) (w.resolveDirectly t r h).1 := by
  obtain ⟨registry, there, rfl⟩ := find?_of_map? live
  unfold resolveDirectly
  by_cases free : (w.thread t).depth = 0
  · rw [underLock_free runs free there]
    have asked : Quiet w (w.setRegistry r { registry with holder := none }) := .asked there
    have told := Quiet.direct (h := h) (find?_of_runs (asked.runs runs)) free gone
      (Table.find?_put_self ..)
    exact ⟨(Relation.ReflTransGen.single asked).tail told, .inr rfl⟩
  · rw [underLock_held free]
    exact ⟨.refl, .inl ⟨free, rfl⟩⟩

theorem remembered?_eq_some {memo : Memo} {h : Handle} {b : BlockId} :
    w.remembered? memo h = some b ↔ (w.registry memo.registry).lineHolds memo.line h = true ∧
      memo.block = some b ∧ w.blocks.contains b = true := by
  unfold remembered?
  split
  · rename_i holds
    rw [Option.filter_eq_some_iff]
    exact ⟨fun found => ⟨holds, found⟩, fun found => found.2⟩
  · rename_i clear
    exact ⟨fun found => (by cases found), fun found => absurd found.1 clear⟩

-- What a line and a memo remember together is what the map has.
theorem Lined.remembered (lined : w.Lined) (runs : w.Runs t) {memo : Memo}
    (known : memo ∈ (w.thread t).memos) (live : w.map? memo.registry = some contexts) {h : Handle}
    {b : BlockId} (found : w.remembered? memo h = some b) : contexts.get? h = some b := by
  obtain ⟨registry, there, rfl⟩ := find?_of_map? live
  obtain ⟨holds, block, _⟩ := remembered?_eq_some.mp found
  rw [registry_of_find? there] at holds
  obtain ⟨kept, remembered, mapped⟩ :=
    lined.get?_of_lineHolds (find?_of_runs runs) known there holds
  rw [mapped, ← remembered, block]

theorem lookUp_spec (runs : w.Runs t) (live : w.map? r = some contexts) (h : Handle) :
    Quiets w (w.lookUp t r h).2 ∧
      (w.Lined → w.Answers t (contexts.get? h) (w.lookUp t r h).1) := by
  unfold lookUp
  simp only
  split
  · rename_i gone
    have direct := resolveDirectly_spec runs gone live h
    exact ⟨direct.1, fun _ => direct.2⟩
  · rename_i kept
    have looked : Quiet w (w.setThread t (w.thread t).noteLookup) := .looked (find?_of_runs runs)
    have keptThen : ((w.setThread t (w.thread t).noteLookup).thread t).memosGone = false := by
      rw [thread_put_self (w := w) rfl, Thread.noteLookup_memosGone]
      simpa using kept
    obtain ⟨after, changes, ⟨held, got⟩ | ⟨memo, got, rfl, known⟩⟩ :=
      memoFor_spec (looked.runs runs) live keptThen
    · rw [got]
      refine ⟨Relation.ReflTransGen.head looked changes, fun _ => .inl ⟨?_, rfl⟩⟩
      rwa [looked.depth] at held
    · rw [got]
      have before : Quiets w after := Relation.ReflTransGen.head looked changes
      have runsThen := before.runs runs
      have liveThen : after.map? memo.registry = some contexts := (before.maps _).trans live
      cases remembers : after.remembered? memo h with
      | some b =>
        obtain ⟨holds, block, present⟩ := remembered?_eq_some.mp remembers
        obtain ⟨registry, there, _⟩ := find?_of_map? liveThen
        rw [registry_of_find? there] at holds
        simp only [remembers]
        refine ⟨before.tail (.hit (find?_of_runs runsThen) known there holds block present), ?_⟩
        intro lined
        rw [(before.lined lined).remembered runsThen known liveThen remembers]
        exact .inr rfl
      | none =>
        obtain ⟨resolving, answers⟩ := resolveThrough_spec runsThen known liveThen remembers
        simp only [remembers]
        refine ⟨before.trans resolving, fun _ => ?_⟩
        unfold Answers at answers ⊢
        rwa [before.depth] at answers

theorem memoFor_registry {memo : Memo} {after : World}
    (made : w.memoFor t r = (.ok memo, after)) : memo.registry = r := by
  unfold memoFor at made
  split at made
  · rename_i found
    cases made
    simpa using List.find?_some found
  · unfold attachMemo at made
    simp only at made
    split at made <;> cases made
    rfl

-- A lookup that is answered is told of.
theorem lookUp_tells {h : Handle} {found : Option BlockId} {after : World}
    (answered : w.lookUp t r h = (.ok found, after)) :
    ∃ route earlier, after.journal = .lookedUp t r h found route :: earlier := by
  unfold lookUp at answered
  simp only at answered
  split at answered
  · unfold resolveDirectly at answered
    split at answered <;> cases answered
    exact ⟨.direct, _, rfl⟩
  · split at answered
    · cases answered
    · rename_i memo made
      have same := memoFor_registry made
      subst same
      split at answered
      · cases answered
        exact ⟨.line, _, rfl⟩
      · unfold resolveThrough at answered
        split at answered <;> cases answered
        exact ⟨.map, _, rfl⟩

/-! Giving memos up. -/

theorem detach_holder (registry : Registry) (holder : Option ThreadId) (line : Ticket) :
    { ({ registry with holder } : Registry).detach line with holder := none }
      = { registry.detach line with holder := none } := by
  unfold Registry.detach
  cases registry.lines.remove? line <;> rfl

-- A line is given up while the memo is still there; in the moves both go at once.
theorem detachMemo_quiet (runs : w.Runs t) (free : (w.thread t).depth = 0) (memo : Memo)
    (rest : List Memo) : (detachMemo t w memo).threads = w.threads ∧
      Quiet (w.setThread t { w.thread t with memos := memo :: rest })
        ((detachMemo t w memo).setThread t { w.thread t with memos := rest }) := by
  have runsNow : (w.setThread t { w.thread t with memos := memo :: rest }).threads.find? t
      = some { w.thread t with memos := memo :: rest } := Table.find?_put_self ..
  unfold detachMemo
  split
  · rename_i present
    obtain ⟨registry, live⟩ := Table.contains_iff.mp present
    rw [underLock_free runs free live]
    refine ⟨rfl, ?_⟩
    have detached := Quiet.detached runsNow free rfl live
    simp only [setThread, setRegistry, note, Table.put_put, detach_holder] at detached ⊢
    exact detached
  · rename_i absent
    have missing : w.registries.find? memo.registry = none :=
      Table.not_contains_iff.mp (by simpa using absent)
    refine ⟨rfl, ?_⟩
    have forgot := Quiet.forgot runsNow rfl missing
    simp only [setThread, Table.put_put] at forgot ⊢
    exact forgot

theorem detachMemos_quiets (memos : List Memo) (runs : w.Runs t) (free : (w.thread t).depth = 0) :
    (memos.foldl (detachMemo t) w).threads = w.threads ∧
      Quiets (w.setThread t { w.thread t with memos })
        ((memos.foldl (detachMemo t) w).setThread t { w.thread t with memos := [] }) := by
  induction memos generalizing w with
  | nil => exact ⟨rfl, .refl⟩
  | cons memo rest ih =>
    obtain ⟨threads, first⟩ := detachMemo_quiet runs free memo rest
    have same : (detachMemo t w memo).thread t = w.thread t := by
      unfold thread
      rw [threads]
    have runsThen : (detachMemo t w memo).Runs t := by
      unfold Runs
      rwa [threads]
    obtain ⟨threadsThen, later⟩ := ih runsThen (by rwa [same])
    rw [same] at later
    exact ⟨threadsThen.trans threads, Relation.ReflTransGen.head first later⟩

theorem dropMemos_quiets_of_runs (runs : w.Runs t) (free : (w.thread t).depth = 0) :
    Quiets w (w.dropMemos t) := by
  obtain ⟨threads, changes⟩ := detachMemos_quiets (w.thread t).memos runs free
  have back : w.setThread t { w.thread t with memos := (w.thread t).memos } = w := by
    unfold setThread
    rw [Table.put_of_find? (find?_of_runs runs)]
  rw [back] at changes
  have gone := Quiet.gone (t := t) (w := ((w.thread t).memos.foldl (detachMemo t) w).setThread t
    { w.thread t with memos := [] }) (Table.find?_put_self ..) rfl
  have same : ((w.thread t).memos.foldl (detachMemo t) w).thread t = w.thread t := by
    rw [thread, threads, thread]
  unfold dropMemos
  simp only [same]
  simp only [setThread, Table.put_put] at gone changes ⊢
  exact changes.tail gone

theorem thread_dropMemos (w : World) (t : ThreadId) :
    ∃ thread, (w.dropMemos t).threads.find? t = some thread ∧ thread.memos = [] ∧
      thread.memosGone = true := by
  unfold dropMemos
  exact ⟨_, Table.find?_put_self .., rfl, rfl⟩

theorem dropMemos_quiets (free : (w.thread t).depth = 0) : Quiets w (w.dropMemos t) := by
  cases found : w.threads.find? t with
  | some thread => exact dropMemos_quiets_of_runs ⟨thread, found⟩ free
  | none =>
    have started : Quiet w (w.setThread t .fresh) := .started found
    have there : (w.setThread t .fresh).thread t = .fresh := by
      rw [thread_put_self (w := w) rfl]
    have dropped := dropMemos_quiets_of_runs (w := w.setThread t .fresh)
      ⟨_, Table.find?_put_self ..⟩ (by rw [there]; rfl)
    have same : (w.setThread t .fresh).dropMemos t = w.dropMemos t := by
      have bare : Thread.fresh.memos = [] := rfl
      unfold dropMemos
      rw [there, thread_of_absent found, bare, List.foldl_nil, List.foldl_nil]
      simp only [there, thread_of_absent found]
      simp only [setThread, Table.put_put]
    rw [same] at dropped
    exact Relation.ReflTransGen.head started dropped

end World

end AttachedState
