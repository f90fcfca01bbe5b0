import AttachedState.Proofs.CacheLines
import AttachedState.Proofs.Lockouts
import AttachedState.Proofs.Parallels

/-!
Accounts of lookups.  A thread has a memo of a registry that is in the world just when it has not given
its memos up and some lookup of it there was answered since it started.  A lookup that is refused makes
no memo that lasts.
-/

namespace AttachedState

-- The thread was answered a lookup in the registry, and has not ended since.
def lookedSince (t : ThreadId) (r : RegistryId) : List Event → Bool
  | [] => false
  | .lookedUp thread registry _ _ _ :: earlier =>
    decide (thread = t ∧ registry = r) || lookedSince t r earlier
  | .threadEnded thread :: earlier => decide (thread ≠ t) && lookedSince t r earlier
  | _ :: earlier => lookedSince t r earlier

section

variable {t u : ThreadId} {r : RegistryId} {told journal : List Event} {e : Event}

-- Other events are no matter.
theorem lookedSince_of_silent (silent : ∀ e ∈ told, ∀ earlier,
    lookedSince t r (e :: earlier) = lookedSince t r earlier) :
    lookedSince t r (told ++ journal) = lookedSince t r journal := by
  induction told with
  | nil => rfl
  | cons e rest ih =>
    rw [List.cons_append, silent e List.mem_cons_self]
    exact ih fun e listed => silent e (List.mem_cons_of_mem _ listed)

theorem lookedSince_cons_of_aside (aside : e.ofLines = false) :
    lookedSince t r (e :: journal) = lookedSince t r journal := by
  cases e <;> first | rfl | cases aside

-- Nothing was looked up in a registry that the journal does not name.
theorem lookedSince_eq_false (unnamed : ∀ e ∈ journal, r.number ∉ e.numbers) :
    lookedSince t r journal = false := by
  induction journal with
  | nil => rfl
  | cons e rest ih =>
    have before := ih fun e listed => unnamed e (List.mem_cons_of_mem _ listed)
    have here := unnamed e List.mem_cons_self
    cases e with
    | lookedUp thread registry h found route =>
      have other : registry ≠ r := by
        rintro rfl
        exact here List.mem_cons_self
      simp only [lookedSince, before, other, and_false, decide_false, Bool.or_false]
    | threadEnded thread => simp only [lookedSince, before, Bool.and_false]
    | _ => exact before

end

namespace Thread

-- Whether the thread has a memo of the registry.
def knows (thread : Thread) (r : RegistryId) : Bool := (thread.memo? r).isSome

variable {one other thread : Thread} {r : RegistryId} {memo : Memo} {live : RegistryId → Bool}

theorem knows_congr (same : other.memos = one.memos) (r : RegistryId) :
    other.knows r = one.knows r := congrArg Option.isSome (memo?_congr same r)

theorem knows_setMemo (thread : Thread) (memo : Memo) (r : RegistryId) :
    (thread.setMemo memo).knows r = thread.knows r := by
  unfold knows
  rw [memo?_setMemo]
  split
  · exact Option.isSome_map
  · rfl

-- Only registries that are gone are forgotten.
theorem knows_prune (there : live r = true) :
    ({ thread with memos := thread.memos.filter fun memo => live memo.registry } : Thread).knows r
      = thread.knows r := by
  unfold knows memo?
  rw [List.find?_filter]
  refine congrArg Option.isSome (congrArg (fun p => thread.memos.find? p) (funext fun memo => ?_))
  by_cases here : memo.registry = r
  · simp [here, there]
  · simp [here]

theorem knows_append (thread : Thread) (memo : Memo) (r : RegistryId) :
    ({ thread with memos := thread.memos ++ [memo] } : Thread).knows r
      = (thread.knows r || decide (memo.registry = r)) := by
  unfold knows memo?
  rw [List.find?_append, Option.isSome_or]
  congr 1
  by_cases here : memo.registry = r <;> simp [here]

end Thread

namespace World

variable {w middle after : World} {t u : ThreadId} {r : RegistryId} {registry : Registry} {h : Handle}

-- Of all that threads remember, only this may change: the thread may come to know the registry, or
-- not, and it may forget registries that are gone.
structure Learns (u : ThreadId) (r : RegistryId) (w after : World) : Prop where
  others : ∀ v, v ≠ u → after.thread v = w.thread v
  kept : (after.thread u).memosGone = (w.thread u).memosGone
  contains : after.registries.contains = w.registries.contains
  elsewhere : ∀ q, w.registries.contains q = true → q ≠ r →
    (after.thread u).knows q = (w.thread u).knows q
  here : (w.thread u).knows r = true → (after.thread u).knows r = true

namespace Learns

theorem trans (first : Learns u r w middle) (second : Learns u r middle after) : Learns u r w after := by
  refine ⟨fun v other => (second.others v other).trans (first.others v other),
    second.kept.trans first.kept, second.contains.trans first.contains, fun q live other => ?_,
    fun known => second.here (first.here known)⟩
  have liveThen : middle.registries.contains q = true := by rwa [first.contains]
  exact (second.elsewhere q liveThen other).trans (first.elsewhere q live other)

theorem of_same (threads : after.threads = w.threads)
    (contains : after.registries.contains = w.registries.contains) : Learns u r w after := by
  have same : after.thread = w.thread := by
    funext v
    rw [World.thread, threads, World.thread]
  exact ⟨fun v _ => congrFun same v, by rw [same], contains, fun q _ _ => by rw [same], fun known => by
    rwa [same]⟩

theorem put {new : Thread} (threads : after.threads = w.threads.put u new)
    (contains : after.registries.contains = w.registries.contains)
    (kept : new.memosGone = (w.thread u).memosGone)
    (elsewhere : ∀ q, w.registries.contains q = true → q ≠ r → new.knows q = (w.thread u).knows q)
    (here : (w.thread u).knows r = true → new.knows r = true) : Learns u r w after := by
  have mine : after.thread u = new := thread_put_self threads
  refine ⟨fun v other => ?_, ?_, contains, ?_, ?_⟩
  · rw [thread_put threads, if_neg other]
  · rw [mine, kept]
  · rwa [mine]
  · rwa [mine]

end Learns

theorem contains_setRegistry (live : w.registries.find? r = some registry) (new : Registry) :
    (w.setRegistry r new).registries.contains = w.registries.contains := by
  funext q
  simp only [setRegistry, Table.contains_put]
  by_cases here : q = r
  · rw [here, Table.contains_iff.mpr ⟨registry, live⟩, Bool.or_true]
  · simp [here]

-- A memo is made only under the lock, so a thread that holds one has made none.
theorem memoFor_learns (live : w.registries.find? r = some registry) :
    Learns u r w (w.memoFor u r).2 ∧
      (∀ memo, (w.memoFor u r).1 = .ok memo → ((w.memoFor u r).2.thread u).knows r = true ∧
        ((w.thread u).depth ≠ 0 → (w.thread u).knows r = true)) ∧
      (∀ cause, (w.memoFor u r).1 = .error cause →
        ((w.memoFor u r).2.thread u).knows r = (w.thread u).knows r) := by
  unfold memoFor
  cases found : (w.thread u).memo? r with
  | some memo =>
    have known : (w.thread u).knows r = true := by rw [Thread.knows, found]; rfl
    exact ⟨.of_same rfl rfl, fun _ _ => ⟨known, fun _ => known⟩, nofun⟩
  | none =>
    have there : w.registries.contains r = true := Table.contains_iff.mpr ⟨registry, live⟩
    have pruned : Learns u r w (w.pruneMemos u) :=
      .put rfl rfl rfl (fun q live _ => Thread.knows_prune live) fun known =>
        (Thread.knows_prune there).trans known
    have mine : (w.pruneMemos u).thread u = { w.thread u with
        memos := (w.thread u).memos.filter fun memo => w.registries.contains memo.registry } := by
      rw [thread_put_self (w := w) rfl]
    have runsThen : (w.pruneMemos u).Runs u := ⟨_, Table.find?_put_self ..⟩
    have liveThen : (w.pruneMemos u).registries.find? r = some registry := live
    unfold attachMemo
    simp only
    by_cases free : (w.thread u).depth = 0
    · have freeThen : ((w.pruneMemos u).thread u).depth = 0 := by rw [mine]; exact free
      rw [underLock_free runsThen freeThen liveThen]
      simp only
      have attached := contains_setRegistry liveThen
        { ({ registry with holder := some u } : Registry).attach.2 with holder := none }
      refine ⟨pruned.trans (.put rfl attached rfl (fun q _ other => ?_) fun known => ?_),
        fun _ _ => ⟨?_, fun held => absurd free held⟩, nofun⟩
      · exact (Thread.knows_append _ _ q).trans (by rw [decide_eq_false (Ne.symm other), Bool.or_false]; rfl)
      · exact (Thread.knows_append _ _ r).trans (by rw [decide_eq_true rfl, Bool.or_true])
      · exact (congrArg (Thread.knows · r) (thread_put_self (by rfl))).trans
          ((Thread.knows_append _ _ r).trans (by rw [decide_eq_true rfl, Bool.or_true]))
    · have heldThen : ((w.pruneMemos u).thread u).depth ≠ 0 := by rw [mine]; exact free
      rw [underLock_held heldThen]
      refine ⟨pruned, nofun, fun _ _ => ?_⟩
      rw [mine]
      exact Thread.knows_prune there

-- A lookup in the map changes what a memo remembers.
theorem resolveThrough_learns {memo : Memo} (runs : w.Runs u)
    (live : w.registries.find? memo.registry = some registry) (h : Handle) :
    Learns u memo.registry w (w.resolveThrough u memo h).2 ∧
      ((w.resolveThrough u memo h).2.thread u).knows memo.registry
        = (w.thread u).knows memo.registry := by
  unfold resolveThrough
  by_cases free : (w.thread u).depth = 0
  · rw [underLock_free runs free live]
    have kept : ∀ new : Memo, ((w.thread u).setMemo new).memosGone = (w.thread u).memosGone := fun _ => rfl
    refine ⟨.put rfl (contains_setRegistry live _) (kept _) (fun q _ _ => Thread.knows_setMemo _ _ q)
      (Thread.knows_setMemo _ _ _).trans, ?_⟩
    exact (congrArg (Thread.knows · memo.registry) (thread_put_self (by rfl))).trans
      (Thread.knows_setMemo _ _ _)
  · rw [underLock_held free]
    exact ⟨.of_same rfl rfl, rfl⟩

-- A lookup without memos teaches nothing.
theorem resolveDirectly_learns (runs : w.Runs u) (live : w.registries.find? r = some registry)
    (h : Handle) : Learns u r w (w.resolveDirectly u r h).2 ∧
      ((w.resolveDirectly u r h).2.thread u).knows r = (w.thread u).knows r := by
  unfold resolveDirectly
  by_cases free : (w.thread u).depth = 0
  · rw [underLock_free runs free live]
    exact ⟨.of_same rfl (contains_setRegistry live _), rfl⟩
  · rw [underLock_held free]
    exact ⟨.of_same rfl rfl, rfl⟩

theorem noteLookup_learns (w : World) (u : ThreadId) (r : RegistryId) :
    Learns u r w (w.setThread u (w.thread u).noteLookup) ∧
      ((w.setThread u (w.thread u).noteLookup).thread u).knows r = (w.thread u).knows r := by
  have same := Thread.noteLookup_memos (w.thread u)
  refine ⟨.put rfl rfl (Thread.noteLookup_memosGone _) (fun q _ _ => Thread.knows_congr same q)
    (Thread.knows_congr same r).trans, ?_⟩
  rw [thread_put_self (w := w) rfl]
  exact Thread.knows_congr same r

-- A thread knows the registry that it was answered a lookup in, unless its memos are gone; a lookup
-- that is refused, or made without memos, teaches nothing.
theorem lookUp_learns (runs : w.Runs u) (live : w.registries.find? r = some registry) (h : Handle) :
    Learns u r w (w.lookUp u r h).2 ∧
      (∀ found, (w.lookUp u r h).1 = .ok found → (w.thread u).memosGone = false →
        ((w.lookUp u r h).2.thread u).knows r = true) ∧
      ((∃ cause, (w.lookUp u r h).1 = .error cause) ∨ (w.thread u).memosGone = true →
        ((w.lookUp u r h).2.thread u).knows r = (w.thread u).knows r) := by
  unfold lookUp
  simp only
  cases gone : (w.thread u).memosGone with
  | true =>
    simp only [if_true]
    obtain ⟨learns, same⟩ := resolveDirectly_learns runs live h
    exact ⟨learns, nofun, fun _ => same⟩
  | false =>
    simp only [Bool.false_eq_true, if_false, or_false]
    obtain ⟨noted, same⟩ := noteLookup_learns w u r
    have runsThen : (w.setThread u (w.thread u).noteLookup).Runs u := ⟨_, Table.find?_put_self ..⟩
    have liveThen : (w.setThread u (w.thread u).noteLookup).registries.find? r = some registry := live
    obtain ⟨made, found, refused⟩ := memoFor_learns (u := u) liveThen
    obtain ⟨_, changes, given⟩ := memoFor_spec runsThen (map?_of_find? liveThen) (noted.kept.trans gone)
    cases equal : (w.setThread u (w.thread u).noteLookup).memoFor u r with
    | mk result middle =>
      rw [equal] at made found refused
      cases result with
      | error cause => exact ⟨noted.trans made, nofun, fun _ => (refused cause rfl).trans same⟩
      | ok memo =>
        obtain ⟨knows, before⟩ := found memo rfl
        have here := memoFor_registry equal
        subst here
        simp only
        cases middle.remembered? memo h with
        | some b =>
          simp only
          exact ⟨(noted.trans made).trans (.of_same rfl rfl), fun _ _ _ => knows, nofun⟩
        | none =>
          have runsLast : middle.Runs u := by
            rcases given with ⟨_, refused⟩ | ⟨_, got, _⟩
            · cases equal.symm.trans refused
            · cases equal.symm.trans got
              exact changes.runs runsThen
          obtain ⟨registry, liveLast⟩ := Table.contains_iff.mp
            ((congrFun (noted.trans made).contains _).trans (Table.contains_iff.mpr ⟨registry, live⟩))
          obtain ⟨resolved, still⟩ := resolveThrough_learns runsLast liveLast h
          refine ⟨(noted.trans made).trans resolved, fun _ _ _ => still.trans knows, ?_⟩
          rintro ⟨cause, refused⟩
          -- Under a lock no memo was made now.
          have held := (resolveThrough_works (Prod.ext refused rfl)).2 cause rfl
          have heldThen : ((w.setThread u (w.thread u).noteLookup).thread u).depth ≠ 0 := by
            rwa [← (memoFor_works equal).1.depth]
          exact (still.trans knows).trans ((before heldThen).symm.trans same)

/-! Ends of threads. -/

theorem detachMemo_told (w : World) (memo : Memo) :
    ∃ told, (detachMemo u w memo).journal = told ++ w.journal ∧
      ∀ e ∈ told, e = .lineDetached u memo.registry memo.line := by
  unfold detachMemo
  split
  · split
    · exact ⟨[], rfl, List.forall_mem_nil _⟩
    · rename_i locked
      exact ⟨[_], congrArg (List.cons _) (underLock_same locked).2, List.forall_mem_singleton.mpr rfl⟩
  · exact ⟨[], rfl, List.forall_mem_nil _⟩

-- A thread that gives its memos up tells of lines only.
theorem dropMemos_told (w : World) (u : ThreadId) :
    ∃ told, (w.dropMemos u).journal = told ++ w.journal ∧
      ∀ e ∈ told, ∃ memo ∈ (w.thread u).memos, e = .lineDetached u memo.registry memo.line := by
  have detached : ∀ (memos : List Memo) (w : World),
      ∃ told, (memos.foldl (detachMemo u) w).journal = told ++ w.journal ∧
        ∀ e ∈ told, ∃ memo ∈ memos, e = .lineDetached u memo.registry memo.line := by
    intro memos
    induction memos with
    | nil => exact fun w => ⟨[], rfl, List.forall_mem_nil _⟩
    | cons memo rest ih =>
      intro w
      obtain ⟨first, journalFirst, ofFirst⟩ := detachMemo_told (u := u) w memo
      obtain ⟨told, journal, ofRest⟩ := ih (detachMemo u w memo)
      refine ⟨told ++ first, ?_, ?_⟩
      · rw [List.foldl_cons, journal, journalFirst, List.append_assoc]
      · refine List.forall_mem_append.mpr ⟨fun e listed => ?_, fun e listed => ?_⟩
        · obtain ⟨other, later, same⟩ := ofRest e listed
          exact ⟨other, List.mem_cons_of_mem _ later, same⟩
        · exact ⟨memo, List.mem_cons_self, ofFirst e listed⟩
  exact detached (w.thread u).memos w

/-! The account. -/

def Counted (w : World) : Prop :=
  ∀ t r, w.registries.contains r = true → ((w.thread t).knows r = true ↔
    (w.thread t).memosGone = false ∧ lookedSince t r w.journal = true)

namespace Counted

theorem kept (counted : w.Counted)
    (contains : ∀ r, after.registries.contains r = true → w.registries.contains r = true)
    (threads : ∀ t, (after.thread t).memos = (w.thread t).memos ∧
      (after.thread t).memosGone = (w.thread t).memosGone)
    (journal : ∀ t r, lookedSince t r after.journal = lookedSince t r w.journal) : after.Counted := by
  intro t r there
  obtain ⟨memos, gone⟩ := threads t
  rw [Thread.knows_congr memos, gone, journal]
  exact counted t r (contains r there)

theorem threadSet (counted : w.Counted) {new : Thread} (memos : new.memos = (w.thread u).memos)
    (gone : new.memosGone = (w.thread u).memosGone) : (w.setThread u new).Counted := by
  refine counted.kept (fun _ there => there) (fun t => ?_) fun _ _ => rfl
  have put : (w.setThread u new).thread t = if t = u then new else w.thread t := thread_put rfl t
  rw [put]
  split
  · rename_i here
    rw [here]
    exact ⟨memos, gone⟩
  · exact ⟨rfl, rfl⟩

-- Nobody has looked anything up in a registry that is only being made.
theorem opened {hashing : RegistryId → Handle → UInt64} {tasks : List Task} (counted : w.Counted)
    (arisen : Scene.Arises hashing ⟨w, u, [], tasks⟩) (new : Registry) :
    ({ w with registries := w.registries.put ⟨w.next⟩ new, next := w.next + 1 } : World).Counted := by
  intro t r there
  by_cases here : r = ⟨w.next⟩
  · subst here
    have unknown : (w.thread t).memo? ⟨w.next⟩ = none := by
      refine List.find?_eq_none.mpr fun memo known same => ?_
      have less := arisen.numbered.memos t memo known
      rw [of_decide_eq_true same] at less
      exact absurd less (Nat.lt_irrefl _)
    have unlooked : lookedSince t ⟨w.next⟩ w.journal = false := lookedSince_eq_false fun e listed named =>
      absurd (arisen.numbered.journal e listed _ named) (Nat.lt_irrefl _)
    have ignorant : (w.thread t).knows ⟨w.next⟩ = false := by rw [Thread.knows, unknown]; rfl
    show (w.thread t).knows ⟨w.next⟩ = true ↔ (w.thread t).memosGone = false ∧
      lookedSince t ⟨w.next⟩ w.journal = true
    rw [ignorant, unlooked]
    simp
  · refine counted t r ?_
    rw [Table.contains_put, decide_eq_false here, Bool.false_or] at there
    exact there

theorem looked (counted : w.Counted) (runs : w.Runs u)
    (live : w.registries.find? r = some registry) (h : Handle) : (w.lookUp u r h).2.Counted := by
  obtain ⟨learns, knows, ignores⟩ := lookUp_learns runs live h
  obtain ⟨told, attaches, outcome⟩ := lookUp_journal w u r h
  have silent : ∀ t q, lookedSince t q (told ++ w.journal) = lookedSince t q w.journal := by
    intro t q
    rcases attaches with rfl | ⟨_, _, _, rfl⟩ <;> rfl
  -- What the journal says of others, and of this thread elsewhere, is what it said before.
  have elsewhere : ∀ t q, ¬(t = u ∧ q = r) →
      lookedSince t q (w.lookUp u r h).2.journal = lookedSince t q w.journal := by
    intro t q apart
    rcases outcome with ⟨_, journal⟩ | ⟨found, route, _, journal, _⟩
    · rw [journal, silent]
    · have other : ¬(u = t ∧ r = q) := fun both => apart ⟨both.1.symm, both.2.symm⟩
      rw [journal, List.cons_append, lookedSince, silent, decide_eq_false other, Bool.false_or]
  intro t q there
  rw [learns.contains] at there
  by_cases mine : t = u
  · subst mine
    rw [learns.kept]
    by_cases here : q = r
    · subst here
      rcases outcome with ⟨⟨cause, refused⟩, journal⟩ | ⟨found, route, answered, journal, _⟩
      · rw [ignores (.inl ⟨cause, refused⟩), journal, silent]
        exact counted t q there
      · have looked : lookedSince t q (w.lookUp t q h).2.journal = true := by
          rw [journal, List.cons_append, lookedSince, decide_eq_true ⟨rfl, rfl⟩, Bool.true_or]
        rw [looked]
        cases gone : (w.thread t).memosGone with
        | false => exact ⟨fun _ => ⟨rfl, rfl⟩, fun _ => knows found answered gone⟩
        | true =>
          have before := counted t q there
          rw [ignores (.inr gone), before, gone]
          simp
    · rw [learns.elsewhere q there here, elsewhere t q fun both => here both.2]
      exact counted t q there
  · rw [learns.others t mine, elsewhere t q fun both => mine both.1]
    exact counted t q there

theorem dropped (counted : w.Counted) (free : (w.thread u).depth = 0) : (w.dropMemos u).Counted := by
  have others := (dropMemos_works w u).others
  obtain ⟨told, journal, ofLines⟩ := dropMemos_told w u
  have contains : (w.dropMemos u).registries.contains = w.registries.contains := by
    funext q
    rw [contains_registries, contains_registries, (dropMemos_quiets free).maps]
  have silent : ∀ t q, lookedSince t q (w.dropMemos u).journal = lookedSince t q w.journal := by
    intro t q
    rw [journal]
    refine lookedSince_of_silent fun e listed earlier => ?_
    obtain ⟨memo, _, rfl⟩ := ofLines e listed
    rfl
  intro t q there
  rw [contains] at there
  rw [silent]
  by_cases mine : t = u
  · subst mine
    obtain ⟨thread, runs, memos, gone⟩ := thread_dropMemos w t
    rw [thread_of_find? runs, gone]
    simp [Thread.knows, Thread.memo?, memos]
  · rw [others t mine]
    exact counted t q there

-- A thread that has ended has not looked anything up since.
theorem ended (counted : w.Counted) (u : ThreadId) :
    ({ w with threads := w.threads.erase u }.note (.threadEnded u) : World).Counted := by
  intro t q there
  have erased : ({ w with threads := w.threads.erase u }.note (.threadEnded u) : World).thread t
      = if t = u then .fresh else w.thread t := thread_erase rfl t
  rw [erased]
  show _ ↔ _ ∧ (decide (u ≠ t) && lookedSince t q w.journal) = true
  split
  · rename_i here
    subst here
    simp [Thread.knows, Thread.memo?, Thread.fresh]
  · rename_i other
    rw [decide_eq_true (Ne.symm other), Bool.true_and]
    exact counted t q there

theorem started (counted : w.Counted) (u : ThreadId) : (w.startThread u).Counted := by
  unfold startThread
  split
  · exact counted
  · rename_i absent
    have missing : w.threads.find? u = none := Table.not_contains_iff.mp (by simpa using absent)
    exact counted.threadSet (by rw [thread_of_absent missing]) (by rw [thread_of_absent missing])

-- All the changes that a session is made of keep the account.
theorem congruence (hashing : RegistryId → Handle → UInt64) :
    Congruence hashing fun w w' => w' = w ∧ w.Counted where
  rest related := ⟨_, _, related.1⟩
  runs related running := by rwa [related.1]
  thread u related := by
    rw [related.1]
    exact ⟨rfl, rfl⟩
  rewritten {w w' r registry} related live new := by
    obtain ⟨rfl, counted⟩ := related
    refine ⟨rfl, counted.kept (fun q there => ?_) (fun _ => ⟨rfl, rfl⟩) fun _ _ => rfl⟩
    rwa [contains_setRegistry live] at there
  noted related aside := by
    obtain ⟨rfl, counted⟩ := related
    exact ⟨rfl, counted.kept (fun _ there => there) (fun _ => ⟨rfl, rfl⟩) fun t r =>
      lookedSince_cons_of_aside aside⟩
  edited related _ := by
    obtain ⟨rfl, counted⟩ := related
    exact ⟨rfl, counted.kept (fun _ there => there) (fun _ => ⟨rfl, rfl⟩) fun _ _ => rfl⟩
  opened arisen _ related new := by
    obtain ⟨rfl, counted⟩ := related
    exact ⟨rfl, counted.opened arisen new⟩
  closed r related := by
    obtain ⟨rfl, counted⟩ := related
    refine ⟨rfl, counted.kept (fun q there => ?_) (fun _ => ⟨rfl, rfl⟩) fun _ _ => rfl⟩
    rw [Table.contains_erase] at there
    exact (Bool.and_eq_true_iff.mp there).2
  threaded related _ depth atExit := by
    obtain ⟨rfl, counted⟩ := related
    exact ⟨rfl, counted.threadSet rfl rfl⟩
  started u related := by
    obtain ⟨rfl, counted⟩ := related
    exact ⟨rfl, counted.started u⟩
  looked h related runs live := by
    obtain ⟨rfl, counted⟩ := related
    exact ⟨_, _, _, rfl, rfl, rfl, counted.looked runs live h⟩
  dropped related free := by
    obtain ⟨rfl, counted⟩ := related
    exact ⟨rfl, counted.dropped free⟩
  ended u related := by
    obtain ⟨rfl, counted⟩ := related
    exact ⟨rfl, counted.ended u⟩

end Counted

theorem counted_start (hashing : RegistryId → Handle → UInt64) : (start hashing).Counted := by
  intro t r _
  simp only [start, World.thread, Table.find?_put, Table.find?_empty]
  split <;> simp [Thread.knows, Thread.memo?, Thread.fresh, lookedSince]

theorem Counted.machineFor (counted : w.Counted) (command : Command) :
    (w.machineFor command).world.Counted := by
  cases command with
  | act u action => exact counted.started u
  | endThread name =>
    unfold World.machineFor
    simp only
    split <;> exact counted

end World

theorem Machine.Reached.counted {hashing : RegistryId → Handle → UInt64} {m : Machine}
    (reached : m.Reached hashing) : m.world.Counted := by
  induction reached with
  | refl => exact World.counted_start hashing
  | @tail m _ before next ih =>
    have reached : m.Reached hashing := before
    cases next with
    | told => exact ih.machineFor _
    | step =>
      have paired : m.Paired (fun w w' => w' = w ∧ w.Counted) m := ⟨rfl, rfl, rfl, ih⟩
      exact ((World.Counted.congruence hashing).step reached.arises reached.steady reached.arises
        paired).worlds.2

end AttachedState
