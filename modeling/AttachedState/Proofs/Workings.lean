import AttachedState.Proofs.Machines

/-!
Workings.  What threads do with registries and with what they remember of them.  A thread leaves the
memos and the locks of the others alone and keeps the locks it has; while it holds one it changes no
registry at all.  The threads of a race work on one registry, and not while it is held.  None of this
tells of a refused lock.
-/

namespace AttachedState

namespace Answer

-- Tells that a lock was refused.
def lockedOut : Answer → Bool
  | failed (.panic .lockHeld) => true
  | _ => false

theorem lockedOut_raise (refusal : Refusal) (strict : Bool) :
    (failed (refusal.raise strict)).lockedOut = false := by
  cases strict <;> rfl

end Answer

namespace Event

-- Tells that a lock was refused: to an action, to a lookup left for the end of a thread, or to an
-- extension that is dropped.
def lockedOut : Event → Bool
  | answered _ answer | exitRetrieved _ answer _ => answer.lockedOut
  | objectDropped _ _ _ (some (.error .lockHeld)) => true
  | _ => false

end Event

namespace World

-- Everything that tells of a refused lock, the latest first.
def lockouts (w : World) : List Event := w.journal.filter Event.lockedOut

theorem lockouts_note {e : Event} (w : World) (silent : e.lockedOut = false) :
    (w.note e).lockouts = w.lockouts := by
  simp only [lockouts, note, List.filter_cons, silent, Bool.false_eq_true, if_false]

-- A thread remembers nothing of registries other than this one.
def KnowsOnly (w : World) (t : ThreadId) (r : RegistryId) : Prop :=
  ∀ memo ∈ (w.thread t).memos, memo.registry = r

-- What a thread does with registries and its own memos: it keeps the locks it has and tells of no
-- refusal, and if it holds a lock it leaves all registries as they are.
structure Works (t : ThreadId) (w after : World) : Prop where
  depth : (after.thread t).depth = (w.thread t).depth
  others : ∀ u, u ≠ t → after.thread u = w.thread u
  lockouts : after.lockouts = w.lockouts
  barred : (w.thread t).depth ≠ 0 → after.registries = w.registries

-- The same, if all of it concerns one registry.
structure WorksAt (t : ThreadId) (r : RegistryId) (w after : World) : Prop extends Works t w after where
  elsewhere : ∀ q, q ≠ r → after.registries.find? q = w.registries.find? q
  knows : w.KnowsOnly t r → after.KnowsOnly t r

namespace Works

variable {t : ThreadId} {w middle after : World}

theorem refl (t : ThreadId) (w : World) : Works t w w := ⟨rfl, fun _ _ => rfl, rfl, fun _ => rfl⟩

theorem trans (first : Works t w middle) (second : Works t middle after) : Works t w after where
  depth := second.depth.trans first.depth
  others u other := (second.others u other).trans (first.others u other)
  lockouts := second.lockouts.trans first.lockouts
  barred held := (second.barred (by rwa [first.depth])).trans (first.barred held)

theorem note {e : Event} (works : Works t w after) (silent : e.lockedOut = false) :
    Works t w (after.note e) :=
  ⟨works.depth, works.others, (lockouts_note after silent).trans works.lockouts, works.barred⟩

-- A change of what the thread remembers.
theorem put {new : Thread} (threads : after.threads = w.threads.put t new)
    (depth : new.depth = (w.thread t).depth) (lockouts : after.lockouts = w.lockouts)
    (registries : after.registries = w.registries) : Works t w after := by
  refine ⟨?_, fun u other => ?_, lockouts, fun _ => registries⟩
  · rw [thread_put threads, if_pos rfl, depth]
  · rw [thread_put threads, if_neg other]

-- A change of neither threads nor registries.
theorem of_same (threads : after.threads = w.threads) (lockouts : after.lockouts = w.lockouts)
    (registries : after.registries = w.registries) : Works t w after := by
  have same : ∀ u, after.thread u = w.thread u := fun u => by rw [World.thread, threads, World.thread]
  exact ⟨by rw [same], fun u _ => same u, lockouts, fun _ => registries⟩

end Works

namespace WorksAt

variable {t : ThreadId} {r : RegistryId} {w middle after : World}

theorem refl (t : ThreadId) (r : RegistryId) (w : World) : WorksAt t r w w :=
  ⟨.refl t w, fun _ _ => rfl, id⟩

theorem trans (first : WorksAt t r w middle) (second : WorksAt t r middle after) :
    WorksAt t r w after :=
  ⟨first.toWorks.trans second.toWorks,
    fun q other => (second.elsewhere q other).trans (first.elsewhere q other),
    fun before => second.knows (first.knows before)⟩

theorem note {e : Event} (works : WorksAt t r w after) (silent : e.lockedOut = false) :
    WorksAt t r w (after.note e) :=
  ⟨works.toWorks.note silent, works.elsewhere, works.knows⟩

-- What the thread remembers then, it remembered before, but for what it learnt of the registry.
theorem put {new : Thread} (threads : after.threads = w.threads.put t new)
    (depth : new.depth = (w.thread t).depth) (lockouts : after.lockouts = w.lockouts)
    (registries : after.registries = w.registries)
    (memos : ∀ memo ∈ new.memos, memo.registry = r ∨ memo ∈ (w.thread t).memos) :
    WorksAt t r w after := by
  refine ⟨.put threads depth lockouts registries, fun q _ => by rw [registries], ?_⟩
  intro before memo listed
  rw [thread_put threads, if_pos rfl] at listed
  exact (memos memo listed).elim id (before memo)

theorem of_same (threads : after.threads = w.threads) (lockouts : after.lockouts = w.lockouts)
    (registries : after.registries = w.registries) : WorksAt t r w after := by
  refine ⟨.of_same threads lockouts registries, fun q _ => by rw [registries], fun before => ?_⟩
  rwa [KnowsOnly, World.thread, threads, ← World.thread]

end WorksAt

variable {w after : World} {t u : ThreadId} {r : RegistryId}

/-! Locks. -/

theorem underLock_error {α : Type} {work : Registry → α × Registry} {cause : Panic}
    (refused : w.underLock t r work = .error cause) :
    cause = .lockHeld ∧ (w.thread t).depth ≠ 0 := by
  unfold underLock lock? at refused
  simp only at refused
  split at refused
  · rename_i untaken
    cases refused
    refine ⟨rfl, fun free => ?_⟩
    rw [if_pos free] at untaken
    cases untaken
  · cases refused

theorem underLock_ok {α : Type} {work : Registry → α × Registry} {done : α × World}
    (worked : w.underLock t r work = .ok done) : (w.thread t).depth = 0 := by
  by_contra held
  rw [underLock_held held] at worked
  cases worked

theorem underLock_result {α : Type} {work : Registry → α × Registry} {result : α}
    (worked : w.underLock t r work = .ok (result, after)) : ∃ registry, result = (work registry).1 := by
  unfold underLock at worked
  split at worked <;> cases worked
  exact ⟨_, rfl⟩

-- Whoever gives a lock back has the locks that it had before it took it.
theorem thread_unlock {locked : World} (taken : w.lock? t r = some locked) (changed : Registry)
    (u : ThreadId) : ((locked.setRegistry r changed).unlock t r).thread u = w.thread u := by
  unfold lock? at taken
  simp only at taken
  split at taken <;> cases taken
  rw [thread_put (w := w) (Table.put_put ..)]
  split
  · rename_i here
    rw [here]
    simp only [thread, setRegistry, setThread, Table.find?_put_self, Option.getD_some,
      Nat.add_sub_cancel]
  · rfl

theorem underLock_works {α : Type} {work : Registry → α × Registry} {result : α}
    (worked : w.underLock t r work = .ok (result, after)) : WorksAt t r w after := by
  unfold underLock at worked
  split at worked
  · cases worked
  · rename_i locked taken
    cases worked
    have thread := thread_unlock taken (work (locked.registry r)).2
    unfold lock? at taken
    simp only at taken
    split at taken <;> cases taken
    rename_i free
    refine ⟨⟨by rw [thread], fun u _ => thread u, rfl, fun held => absurd free held⟩,
      fun q other => ?_, fun known => by rwa [KnowsOnly, thread]⟩
    simp only [unlock, setRegistry, setThread, Table.find?_put, if_neg other]

theorem underLock?_lockedOut {α : Type} {look : Registry → α} {cause : Panic}
    (refused : w.underLock? t r look = .error cause) : (w.thread t).depth ≠ 0 := by
  unfold underLock? at refused
  cases worked : w.underLock t r (fun registry => (look registry, registry)) with
  | error other => exact (underLock_error worked).2
  | ok done =>
    rw [worked] at refused
    cases refused

theorem startThread_works (w : World) (t : ThreadId) (r : RegistryId) :
    WorksAt t r w (w.startThread t) := by
  unfold startThread
  split
  · exact .refl t r w
  · rename_i absent
    have missing : w.threads.find? t = none := Table.not_contains_iff.mp (by simpa using absent)
    exact .put rfl (by rw [thread_of_absent missing]) rfl rfl (List.forall_mem_nil _)

/-! Lookups. -/

theorem pruneMemos_works (w : World) (t : ThreadId) (r : RegistryId) : WorksAt t r w (w.pruneMemos t) :=
  .put rfl rfl rfl rfl fun _ listed => .inr (List.mem_of_mem_filter listed)

theorem memoFor_works {result : Except Panic Memo} (made : w.memoFor t r = (result, after)) :
    WorksAt t r w after ∧ ∀ cause, result = .error cause → (w.thread t).depth ≠ 0 := by
  unfold memoFor attachMemo at made
  split at made
  · cases made
    exact ⟨.refl t r w, nofun⟩
  · have pruned := pruneMemos_works w t r
    simp only at made
    split at made
    · rename_i cause refused
      cases made
      obtain ⟨_, held⟩ := underLock_error refused
      exact ⟨pruned, fun _ _ => by rwa [pruned.depth] at held⟩
    · rename_i line attached locked
      cases made
      refine ⟨.note ((pruned.trans (underLock_works locked)).trans ?_) rfl, nofun⟩
      refine .put rfl rfl rfl rfl fun memo listed => ?_
      rcases List.mem_append.mp listed with old | new
      · exact .inr old
      · exact .inl (by rw [List.mem_singleton.mp new])

theorem resolveThrough_works {memo : Memo} {h : Handle} {result : Except Panic (Option BlockId)}
    (resolved : w.resolveThrough t memo h = (result, after)) :
    WorksAt t memo.registry w after ∧ ∀ cause, result = .error cause → (w.thread t).depth ≠ 0 := by
  unfold resolveThrough at resolved
  split at resolved
  · rename_i cause refused
    cases resolved
    exact ⟨.refl t _ w, fun _ _ => (underLock_error refused).2⟩
  · rename_i found worked locked
    cases resolved
    refine ⟨.note ((underLock_works locked).trans ?_) rfl, nofun⟩
    refine .put rfl rfl rfl rfl fun memo listed => ?_
    obtain ⟨old, known, rfl⟩ := List.mem_map.mp listed
    split
    · exact .inl rfl
    · exact .inr known

theorem resolveDirectly_works {h : Handle} {result : Except Panic (Option BlockId)}
    (resolved : w.resolveDirectly t r h = (result, after)) :
    WorksAt t r w after ∧ ∀ cause, result = .error cause → (w.thread t).depth ≠ 0 := by
  unfold resolveDirectly at resolved
  split at resolved
  · rename_i cause refused
    cases resolved
    exact ⟨.refl t r w, fun _ _ => (underLock_error refused).2⟩
  · rename_i found worked locked
    cases resolved
    exact ⟨(underLock_works locked).note rfl, nofun⟩

theorem lookUp_works {h : Handle} {result : Except Panic (Option BlockId)}
    (looked : w.lookUp t r h = (result, after)) :
    WorksAt t r w after ∧ ∀ cause, result = .error cause → (w.thread t).depth ≠ 0 := by
  unfold lookUp at looked
  simp only at looked
  split at looked
  · exact resolveDirectly_works looked
  · have noted : WorksAt t r w (w.setThread t (w.thread t).noteLookup) :=
      .put rfl (Thread.noteLookup_depth _) rfl rfl fun _ listed =>
        .inr (by rwa [Thread.noteLookup_memos] at listed)
    split at looked
    · rename_i cause refused made
      cases looked
      obtain ⟨works, held⟩ := memoFor_works made
      exact ⟨noted.trans works, fun _ _ => by simpa only [noted.depth] using held _ rfl⟩
    · rename_i memo made attached
      have before := noted.trans (memoFor_works attached).1
      split at looked
      · cases looked
        exact ⟨before.note rfl, nofun⟩
      · obtain ⟨resolved, held⟩ := resolveThrough_works looked
        rw [memoFor_registry attached] at resolved
        refine ⟨before.trans resolved, fun cause refused => ?_⟩
        rw [← before.depth]
        exact held cause refused

theorem detachMemo_works (w : World) (t : ThreadId) (memo : Memo) :
    WorksAt t memo.registry w (detachMemo t w memo) := by
  unfold detachMemo
  split
  · split
    · exact .refl t _ w
    · rename_i locked
      exact (underLock_works locked).note rfl
  · exact .refl t _ w

theorem detachMemos_works (t : ThreadId) (memos : List Memo) (w : World) :
    Works t w (memos.foldl (detachMemo t) w) := by
  induction memos generalizing w with
  | nil => exact .refl t w
  | cons memo rest ih => exact (detachMemo_works w t memo).toWorks.trans (ih _)

theorem dropMemos_works (w : World) (t : ThreadId) : Works t w (w.dropMemos t) :=
  (detachMemos_works t _ w).trans (.put rfl rfl rfl rfl)

-- A thread that remembers but one registry touches no other when it gives its memos up.
theorem dropMemos_worksAt (known : w.KnowsOnly t r) : WorksAt t r w (w.dropMemos t) := by
  have detached : ∀ (memos : List Memo) (w : World), (∀ memo ∈ memos, memo.registry = r) →
      WorksAt t r w (memos.foldl (detachMemo t) w) := by
    intro memos
    induction memos with
    | nil => exact fun w _ => .refl t r w
    | cons memo rest ih =>
      intro w known
      obtain ⟨here, others⟩ := List.forall_mem_cons.mp known
      exact (here ▸ detachMemo_works w t memo).trans (ih _ others)
  exact (detached _ w known).trans (.put rfl rfl rfl rfl (List.forall_mem_nil _))

/-! Owners. -/

theorem giveUp_works (w : World) (t : ThreadId) (g : Guard) : Works t w (w.giveUp t g).world := by
  unfold giveUp
  split
  · exact .note (.refl t w) rfl
  · exact (underLock_works ‹_›).toWorks.note rfl
  · exact (underLock_works ‹_›).toWorks.note rfl

theorem giveUps_works (t : ThreadId) (owners : List Guard) (w : World) (first : List Task) :
    Works t w (owners.foldl (fun (w, first) g =>
      ((w.giveUp t g).world, first ++ (w.giveUp t g).first)) (w, first)).1 := by
  induction owners generalizing w first with
  | nil => exact .refl t w
  | cons g rest ih => exact (giveUp_works w t g).trans (ih _ _)

theorem attempt_works (w : World) (t : ThreadId) (r : RegistryId) (h : Handle) :
    WorksAt t r w (w.attempt t r h).2 := by
  have numbered : WorksAt t r w w.takeNumber.2 := .of_same rfl rfl rfl
  unfold attempt
  simp only
  split
  · rename_i entry after locked
    exact .note ((numbered.trans (underLock_works locked)).trans (.of_same rfl rfl rfl)) rfl
  · rename_i after locked
    exact numbered.trans (underLock_works locked)
  · exact numbered

theorem lookUpTimes_works (t : ThreadId) (r : RegistryId) (h : Handle) (n : Nat) (w : World) :
    WorksAt t r w (lookUpTimes t r h n w).2 := by
  induction n with
  | zero => exact .refl t r w
  | succ n ih =>
    simp only [lookUpTimes]
    split <;> rename_i looked <;> exact ih.trans (lookUp_works looked).1

/-! Races. -/

end World

-- What so many threads of a race for a registry do: they touch no other thread, and, knowing no other
-- registry, none but that one.
structure Raced (r : RegistryId) (threads : Nat) (w after : World) : Prop where
  others : ∀ u, (∀ n < threads, u ≠ .racer n) → after.thread u = w.thread u
  lockouts : after.lockouts = w.lockouts
  elsewhere : (∀ n, w.KnowsOnly (.racer n) r) → ∀ q, threads = 0 ∨ q ≠ r →
    after.registries.find? q = w.registries.find? q
  knows : (∀ n, w.KnowsOnly (.racer n) r) → ∀ n, after.KnowsOnly (.racer n) r

namespace Raced

variable {w middle after : World} {r : RegistryId} {threads n : Nat}

theorem refl (r : RegistryId) (threads : Nat) (w : World) : Raced r threads w w :=
  ⟨fun _ _ => rfl, rfl, fun _ _ _ => rfl, id⟩

theorem trans (first : Raced r threads w middle) (second : Raced r threads middle after) :
    Raced r threads w after where
  others u other := (second.others u other).trans (first.others u other)
  lockouts := second.lockouts.trans first.lockouts
  elsewhere known q apart :=
    (second.elsewhere (first.knows known) q apart).trans (first.elsewhere known q apart)
  knows known := second.knows (first.knows known)

theorem of_works (works : World.Works (.racer n) w after)
    (here : w.KnowsOnly (.racer n) r → World.WorksAt (.racer n) r w after) (one : n < threads) :
    Raced r threads w after where
  others u other := works.others u (other n one)
  lockouts := works.lockouts
  elsewhere known q apart :=
    (here (known n)).elsewhere q (apart.resolve_left (Nat.ne_zero_of_lt one))
  knows known k := by
    by_cases same : k = n
    · rw [same]
      exact (here (known n)).knows (known n)
    · intro memo listed
      rw [works.others _ fun here => same (ThreadId.racer.inj here)] at listed
      exact known k memo listed

theorem of_worksAt (works : World.WorksAt (.racer n) r w after) (one : n < threads) :
    Raced r threads w after :=
  .of_works works.toWorks (fun _ => works) one

end Raced

namespace World

variable {w : World} {r q : RegistryId} {t : ThreadId} {n threads : Nat}

theorem attempts_raced (within : n ≤ threads) (w : World) (r : RegistryId) (h : Handle) :
    Raced r threads w (attempts r h n w).2 := by
  induction n with
  | zero => exact .refl r threads w
  | succ n ih =>
    have started := (ih (Nat.le_of_succ_le within)).trans
      (.of_worksAt (startThread_works _ _ r) within)
    have tried := started.trans (.of_worksAt (attempt_works _ _ r h) within)
    simp only [attempts]
    split <;> rename_i given <;> rw [given] at tried <;> exact tried

theorem lookUpRacing_raced (within : n ≤ threads) (w : World) (r : RegistryId) (h : Handle)
    (rounds : Nat) : Raced r threads w (lookUpRacing r h rounds n w).2 := by
  induction n with
  | zero => exact .refl r threads w
  | succ n ih =>
    have started := (ih (Nat.le_of_succ_le within)).trans
      (.of_worksAt (startThread_works _ _ r) within)
    exact started.trans (.of_worksAt (lookUpTimes_works _ r h rounds _) within)

-- The threads that have ended remember nothing.
theorem endRacers_raced (within : n ≤ threads) (w : World) (r : RegistryId) :
    Raced r threads w (endRacers n w) ∧ ∀ k < n, ((endRacers n w).thread (.racer k)).memos = [] := by
  induction n with
  | zero => exact ⟨.refl r threads w, nofun⟩
  | succ n ih =>
    obtain ⟨before, ended⟩ := ih (Nat.le_of_succ_le within)
    have dropped : Raced r threads w ((endRacers n w).dropMemos (.racer n)) :=
      before.trans (.of_works (dropMemos_works _ _) dropMemos_worksAt within)
    have erased : ∀ u, (endRacers (n + 1) w).thread u
        = if u = .racer n then .fresh else ((endRacers n w).dropMemos (.racer n)).thread u :=
      thread_erase (by rfl)
    refine ⟨⟨fun u other => ?_, ?_, dropped.elsewhere, fun known k => ?_⟩, fun k less => ?_⟩
    · rw [erased, if_neg (other n within), dropped.others u other]
    · exact (lockouts_note _ (by rfl)).trans dropped.lockouts
    · intro memo listed
      rw [erased] at listed
      split at listed
      · cases listed
      · exact dropped.knows known k memo listed
    · rw [erased]
      split
      · rfl
      · rename_i other
        have earlier : k ≠ n := fun same => other (by rw [same])
        rw [(dropMemos_works _ _).others _ other]
        exact ended k (Nat.lt_of_le_of_ne (Nat.le_of_lt_succ less) earlier)

-- No thread of a race works on a registry that is held.
theorem entrants_of_marked (marked : w.Marked q t) (r : RegistryId) (threads : Nat) :
    w.entrants r threads = 0 ∨ q ≠ r := by
  by_cases here : q = r
  · obtain ⟨registry, found, holder⟩ := marked
    refine .inl ?_
    rw [entrants, ← here, registry_of_find? found, holder]
    rfl
  · exact .inr here

end World

end AttachedState
