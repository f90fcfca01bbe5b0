import AttachedState.Proofs.CacheLines
import AttachedState.Proofs.Parallels

/-!
Likeness.  A lookup that is refused leaves two traces in the private memory of its thread: the thread
has made a lookup, and the memos of registries that are gone are forgotten.  Two worlds that differ in
nothing else go the same way, and the same is told of both.
-/

namespace AttachedState

variable {t u : ThreadId} {r : RegistryId} {registry : Registry} {h : Handle} {memo : Memo}

namespace Thread

-- The same thread but for the memos of registries that are gone and, unless it is `ordered`, for
-- which of its lookups and its lookups left for the end came first.
structure Like (live : RegistryId → Bool) (ordered : Prop) (one other : Thread) : Prop where
  depth : other.depth = one.depth
  memos : (other.memos.filter fun memo => live memo.registry)
    = one.memos.filter fun memo => live memo.registry
  memosGone : other.memosGone = one.memosGone
  atExit : other.atExit = one.atExit
  order : ordered → other.hasLooked = one.hasLooked ∧ other.memosEndFirst = one.memosEndFirst

namespace Like

variable {live : RegistryId → Bool} {ordered : Prop} {one other : Thread}

theorem refl (live : RegistryId → Bool) (ordered : Prop) (thread : Thread) :
    Like live ordered thread thread := ⟨rfl, rfl, rfl, rfl, fun _ => ⟨rfl, rfl⟩⟩

theorem memo? (like : Like live ordered one other) (there : live r = true) :
    other.memo? r = one.memo? r := by
  have narrow : ∀ thread : Thread, thread.memo? r
      = (thread.memos.filter fun memo => live memo.registry).find? fun memo => memo.registry = r := by
    intro thread
    rw [List.find?_filter]
    refine congrArg (fun p => thread.memos.find? p) (funext fun memo => ?_)
    by_cases here : memo.registry = r
    · simp [here, there]
    · simp [here]
  rw [narrow, narrow, like.memos]

-- With fewer registries there is less to be told apart.
theorem narrow (like : Like live ordered one other) {fewer : RegistryId → Bool}
    (still : ∀ r, fewer r = true → live r = true) : Like fewer ordered one other := by
  refine ⟨like.depth, ?_, like.memosGone, like.atExit, like.order⟩
  have again : ∀ memos : List Memo, (memos.filter fun memo => fewer memo.registry)
      = (memos.filter fun memo => live memo.registry).filter fun memo => fewer memo.registry := by
    intro memos
    rw [List.filter_filter]
    refine List.filter_congr fun memo _ => ?_
    cases there : fewer memo.registry with
    | false => rfl
    | true => rw [still _ there]; rfl
  rw [again, again one.memos, like.memos]

theorem noteLookup (like : Like live ordered one other) :
    Like live ordered one.noteLookup other.noteLookup := by
  refine ⟨?_, ?_, ?_, ?_, fun holds => ?_⟩
  · rw [noteLookup_depth, noteLookup_depth, like.depth]
  · rw [noteLookup_memos, noteLookup_memos, like.memos]
  · rw [noteLookup_memosGone, noteLookup_memosGone, like.memosGone]
  · rw [noteLookup_atExit, noteLookup_atExit, like.atExit]
  · obtain ⟨looked, first⟩ := like.order holds
    unfold Thread.noteLookup
    rw [looked, like.atExit]
    split
    · exact ⟨looked, first⟩
    · exact ⟨rfl, rfl⟩

theorem setMemo (like : Like live ordered one other) (memo : Memo) :
    Like live ordered (one.setMemo memo) (other.setMemo memo) := by
  refine ⟨like.depth, ?_, like.memosGone, like.atExit, like.order⟩
  have inside : ∀ memos : List Memo, ((memos.map fun old =>
        if old.registry = memo.registry then memo else old).filter fun memo => live memo.registry)
      = (memos.filter fun memo => live memo.registry).map fun old =>
        if old.registry = memo.registry then memo else old := by
    intro memos
    rw [List.filter_map]
    refine congrArg _ (List.filter_congr fun old _ => ?_)
    simp only [Function.comp]
    split
    · rename_i same
      rw [same]
    · rfl
  simp only [Thread.setMemo]
  rw [inside, inside, like.memos]

theorem append (like : Like live ordered one other) (memo : Memo) :
    Like live ordered { one with memos := one.memos ++ [memo] }
      { other with memos := other.memos ++ [memo] } := by
  refine ⟨like.depth, ?_, like.memosGone, like.atExit, like.order⟩
  simp only [List.filter_append, like.memos]

theorem prune (like : Like live ordered one other) :
    Like live ordered { one with memos := one.memos.filter fun memo => live memo.registry }
      { other with memos := other.memos.filter fun memo => live memo.registry } := by
  refine ⟨like.depth, ?_, like.memosGone, like.atExit, like.order⟩
  simp only [like.memos]

end Like

end Thread

namespace World

-- The same world but for what such lookups of one thread leave, and for what was told before.
structure Like (t : ThreadId) (past pastToo : List Event) (w w' : World) : Prop where
  rest : ∃ threads journal, w' = { w with threads, journal }
  runs : ∀ u, w'.Runs u ↔ w.Runs u
  threads : ∀ u, (w.thread u).Like w.registries.contains (u ≠ t) (w'.thread u)
  told : ∃ told, w.journal = told ++ past ∧ w'.journal = told ++ pastToo

namespace Like

variable {past pastToo : List Event} {w w' : World}

theorem note (like : w.Like t past pastToo w') (e : Event) :
    (w.note e).Like t past pastToo (w'.note e) := by
  obtain ⟨⟨threads, journal, rfl⟩, runs, alike, told, one, other⟩ := like
  refine ⟨⟨threads, _, rfl⟩, runs, alike, e :: told, congrArg (List.cons e) one, ?_⟩
  exact congrArg (List.cons e) other

theorem put (like : w.Like t past pastToo w') {new newToo : Thread}
    (alike : new.Like w.registries.contains (u ≠ t) newToo) :
    (w.setThread u new).Like t past pastToo (w'.setThread u newToo) := by
  obtain ⟨⟨threads, journal, rfl⟩, runs, before, told⟩ := like
  refine ⟨⟨_, journal, rfl⟩, fun v => ?_, fun v => ?_, told⟩
  · have same := runs v
    unfold Runs at same ⊢
    simp only [setThread, Table.find?_put]
    split
    · exact ⟨fun _ => ⟨_, rfl⟩, fun _ => ⟨_, rfl⟩⟩
    · exact same
  · have one : (w.setThread u new).thread v = if v = u then new else w.thread v := thread_put rfl v
    have other : (({ w with threads, journal } : World).setThread u newToo).thread v
        = if v = u then newToo else ({ w with threads, journal } : World).thread v := thread_put rfl v
    rw [one, other]
    split
    · rename_i here
      subst here
      exact alike
    · exact before v

-- The registries may change alike, if none is new.
theorem registries (like : w.Like t past pastToo w') (registries : Table RegistryId Registry)
    (still : ∀ r, registries.contains r = true → w.registries.contains r = true) :
    ({ w with registries } : World).Like t past pastToo { w' with registries } := by
  obtain ⟨⟨threads, journal, rfl⟩, runs, before, told⟩ := like
  exact ⟨⟨threads, journal, rfl⟩, runs, fun u => (before u).narrow still, told⟩

theorem abreast (t : ThreadId) (past pastToo : List Event) : Abreast (Like t past pastToo) where
  rest like := like.rest
  runs like := (like.runs _).mpr
  thread u like := ⟨(like.threads u).depth, (like.threads u).atExit⟩
  rewritten {w w' r registry} like live new := by
    have changed := like.registries (w.registries.put r new) fun q there => by
      rw [Table.contains_put] at there
      by_cases here : q = r
      · rw [here]
        exact Table.contains_iff.mpr ⟨registry, live⟩
      · simpa [here] using there
    obtain ⟨threads, journal, rfl⟩ := like.rest
    exact changed

/-! Lookups. -/

theorem memoFor (like : w.Like t past pastToo w') (live : w.registries.find? r = some registry) :
    Alongside (Like t past pastToo) (w.memoFor u r) (w'.memoFor u r) := by
  have there : w.registries.contains r = true := Table.contains_iff.mpr ⟨registry, live⟩
  have same := (like.threads u).memo? there
  have pruned : (w.pruneMemos u).Like t past pastToo (w'.pruneMemos u) := by
    have alike := like.put (like.threads u).prune
    obtain ⟨threads, journal, rfl⟩ := like.rest
    exact alike
  have runsThen : (w.pruneMemos u).Runs u := ⟨_, Table.find?_put_self ..⟩
  have liveThen : (w.pruneMemos u).registries.find? r = some registry := live
  unfold World.memoFor
  rw [same]
  cases (w.thread u).memo? r with
  | some memo => exact ⟨_, w, w', rfl, rfl, like⟩
  | none =>
    unfold attachMemo
    simp only
    rcases (abreast t past pastToo).underLock pruned runsThen liveThen Registry.attach with
      ⟨one, other⟩ | ⟨line, new, one, other, after⟩
    · rw [one, other]
      exact ⟨_, _, _, rfl, rfl, pruned⟩
    · rw [one, other]
      have label : (w'.pruneMemos u |>.setRegistry r new).registry r
          = ((w.pruneMemos u).setRegistry r new).registry r := by
        rw [registry_setRegistry, registry_setRegistry]
      simp only [label]
      exact ⟨_, _, _, rfl, rfl, (after.put ((after.threads u).append _)).note _⟩

theorem remembered? (like : w.Like t past pastToo w') (memo : Memo) (h : Handle) :
    w'.remembered? memo h = w.remembered? memo h := by
  obtain ⟨threads, journal, rfl⟩ := like.rest
  rfl

theorem resolveThrough (like : w.Like t past pastToo w') (runs : w.Runs u)
    (live : w.registries.find? memo.registry = some registry) (h : Handle) :
    Alongside (Like t past pastToo) (w.resolveThrough u memo h) (w'.resolveThrough u memo h) := by
  unfold World.resolveThrough
  rcases (abreast t past pastToo).underLock like runs live (·.resolve memo.line h) with
    ⟨one, other⟩ | ⟨found, new, one, other, after⟩
  · rw [one, other]
    exact ⟨_, _, _, rfl, rfl, like⟩
  · rw [one, other]
    exact ⟨_, _, _, rfl, rfl, (after.put ((after.threads u).setMemo _)).note _⟩

theorem resolveDirectly (like : w.Like t past pastToo w') (runs : w.Runs u)
    (live : w.registries.find? r = some registry) (h : Handle) :
    Alongside (Like t past pastToo) (w.resolveDirectly u r h) (w'.resolveDirectly u r h) := by
  unfold World.resolveDirectly
  rcases (abreast t past pastToo).underLock like runs live
      (fun registry => (registry.contexts.get? h, registry)) with
    ⟨one, other⟩ | ⟨found, new, one, other, after⟩
  · rw [one, other]
    exact ⟨_, _, _, rfl, rfl, like⟩
  · rw [one, other]
    exact ⟨_, _, _, rfl, rfl, after.note _⟩

theorem lookUp (like : w.Like t past pastToo w') (runs : w.Runs u)
    (live : w.registries.find? r = some registry) (h : Handle) :
    Alongside (Like t past pastToo) (w.lookUp u r h) (w'.lookUp u r h) := by
  have noted := like.put (like.threads u).noteLookup
  have runsThen : (w.setThread u (w.thread u).noteLookup).Runs u := ⟨_, Table.find?_put_self ..⟩
  unfold World.lookUp
  simp only
  rw [(like.threads u).memosGone]
  cases kept : (w.thread u).memosGone with
  | true => exact like.resolveDirectly runs live h
  | false =>
    have keptThen : ((w.setThread u (w.thread u).noteLookup).thread u).memosGone = false := by
      rw [thread_put_self (w := w) rfl, Thread.noteLookup_memosGone]
      exact kept
    obtain ⟨middle, changes, given⟩ := memoFor_spec (r := r) runsThen (map?_of_find? live) keptThen
    obtain ⟨result, after, afterToo, one, other, made⟩ := noted.memoFor (u := u) live
    simp only [Bool.false_eq_true, if_false, one, other]
    cases result with
    | error cause => exact ⟨_, _, _, rfl, rfl, made⟩
    | ok memo =>
      have same := memoFor_registry one
      subst same
      have here : middle = after := by
        rcases given with ⟨_, refused⟩ | ⟨_, got, _⟩
        · cases one.symm.trans refused
        · cases one.symm.trans got
          rfl
      subst here
      obtain ⟨registry, liveLast, _⟩ := find?_of_map? ((changes.maps _).trans (map?_of_find? live))
      have runsLast := changes.runs runsThen
      simp only [made.remembered?]
      cases middle.remembered? memo h with
      | some b => exact ⟨_, _, _, rfl, rfl, made.note _⟩
      | none => exact made.resolveThrough runsLast liveLast h

/-! Ends of threads. -/

theorem detachMemo (like : w.Like t past pastToo w') (runs : w.Runs u) (memo : Memo) :
    (World.detachMemo u w memo).Like t past pastToo (World.detachMemo u w' memo) := by
  have same : w'.registries.contains memo.registry = w.registries.contains memo.registry := by
    obtain ⟨threads, journal, rfl⟩ := like.rest
    rfl
  unfold World.detachMemo
  rw [same]
  cases there : w.registries.contains memo.registry with
  | false => exact like
  | true =>
    obtain ⟨registry, live⟩ := Table.contains_iff.mp there
    simp only [if_true]
    rcases (abreast t past pastToo).underLock like runs live
        (fun registry => ((), registry.detach memo.line)) with
      ⟨one, other⟩ | ⟨result, new, one, other, after⟩
    · rw [one, other]
      exact like
    · rw [one, other]
      exact after.note _

end Like

-- A detachment takes no registry out of the world and leaves the threads alone.
theorem detachMemo_keeps {w : World} (runs : w.Runs u) (free : (w.thread u).depth = 0) (memo : Memo) :
    (detachMemo u w memo).threads = w.threads ∧
      (detachMemo u w memo).registries.contains = w.registries.contains := by
  obtain ⟨threads, change⟩ := detachMemo_quiet runs free memo []
  refine ⟨threads, funext fun r => ?_⟩
  rw [contains_registries, contains_registries]
  exact congrArg Option.isSome (change.same.maps r)

-- The memos of registries that are gone have no line to detach.
theorem detachMemos_live {w : World} (memos : List Memo) (runs : w.Runs u)
    (free : (w.thread u).depth = 0) : memos.foldl (detachMemo u) w
      = (memos.filter fun memo => w.registries.contains memo.registry).foldl (detachMemo u) w := by
  induction memos generalizing w with
  | nil => rfl
  | cons memo rest ih =>
    obtain ⟨threads, contains⟩ := detachMemo_keeps runs free memo
    have runsThen : (detachMemo u w memo).Runs u := by
      unfold Runs
      rwa [threads]
    have freeThen : ((detachMemo u w memo).thread u).depth = 0 := by
      rw [World.thread, threads]
      exact free
    rw [List.foldl_cons, ih runsThen freeThen, contains, List.filter_cons]
    cases there : w.registries.contains memo.registry with
    | true => rfl
    | false =>
      have untouched : detachMemo u w memo = w := by
        unfold detachMemo
        rw [there]
        rfl
      rw [untouched]
      rfl

namespace Like

variable {past pastToo : List Event} {w w' : World}

theorem detachMemos (like : w.Like t past pastToo w') (memos : List Memo) (runs : w.Runs u)
    (free : (w.thread u).depth = 0) : (memos.foldl (World.detachMemo u) w).Like t past pastToo
      (memos.foldl (World.detachMemo u) w') := by
  induction memos generalizing w w' with
  | nil => exact like
  | cons memo rest ih =>
    obtain ⟨threads, _⟩ := detachMemo_keeps runs free memo
    refine ih (like.detachMemo runs memo) ?_ ?_
    · unfold Runs
      rwa [threads]
    · rw [World.thread, threads]
      exact free

theorem dropMemos (like : w.Like t past pastToo w') (free : (w.thread u).depth = 0) :
    (w.dropMemos u).Like t past pastToo (w'.dropMemos u) := by
  have detached : ((w.thread u).memos.foldl (World.detachMemo u) w).Like t past pastToo
      ((w'.thread u).memos.foldl (World.detachMemo u) w') := by
    by_cases runs : w.Runs u
    · have freeToo := (like.threads u).depth.trans free
      have memos := (like.threads u).memos
      have registries : w'.registries = w.registries := by
        obtain ⟨threads, journal, rfl⟩ := like.rest
        rfl
      rw [detachMemos_live _ runs free, detachMemos_live _ ((like.runs u).mpr runs) freeToo, registries,
        memos]
      exact like.detachMemos _ runs free
    · have absent : ∀ {v : World}, ¬ v.Runs u → v.thread u = .fresh := fun none =>
        thread_of_absent (Option.eq_none_iff_forall_ne_some.mpr fun thread found => none ⟨thread, found⟩)
      rw [absent runs, absent fun runsToo => runs ((like.runs u).mp runsToo)]
      exact like
  have alike := detached.threads u
  exact detached.put ⟨alike.depth, rfl, rfl, alike.atExit, alike.order⟩

theorem ended (like : w.Like t past pastToo w') (u : ThreadId) :
    ({ w with threads := w.threads.erase u }.note (.threadEnded u)).Like t past pastToo
      ({ w' with threads := w'.threads.erase u }.note (.threadEnded u)) := by
  refine note ?_ _
  obtain ⟨⟨threads, journal, rfl⟩, runs, before, told⟩ := like
  refine ⟨⟨_, journal, rfl⟩, fun v => ?_, fun v => ?_, told⟩
  · have same := runs v
    unfold Runs at same ⊢
    simp only [Table.find?_erase]
    split
    · exact Iff.rfl
    · exact same
  · have one : ({ w with threads := w.threads.erase u } : World).thread v
        = if v = u then .fresh else w.thread v := thread_erase rfl v
    have other : ({ w with threads := threads.erase u, journal } : World).thread v
        = if v = u then .fresh else ({ w with threads, journal } : World).thread v := thread_erase rfl v
    simp only at one other ⊢
    rw [one, other]
    split
    · exact .refl _ _ _
    · exact before v

theorem started (like : w.Like t past pastToo w') (u : ThreadId) :
    (w.startThread u).Like t past pastToo (w'.startThread u) := by
  have same : w'.threads.contains u = w.threads.contains u := by
    rw [Bool.eq_iff_iff, Table.contains_iff, Table.contains_iff]
    exact like.runs u
  unfold startThread
  rw [same]
  split
  · exact like
  · exact like.put (.refl _ _ _)

theorem threaded (like : w.Like t past pastToo w') (u : ThreadId) (depth : Nat)
    (atExit : List Retrieval) : (w.setThread u { w.thread u with depth, atExit }).Like t past pastToo
      (w'.setThread u { w'.thread u with depth, atExit }) := by
  have alike := like.threads u
  exact like.put ⟨rfl, alike.memos, alike.memosGone, rfl, alike.order⟩

-- No memo is of a registry that is only being made.
theorem opened {hashing : RegistryId → Handle → UInt64} {v : ThreadId} {tasks : List Task}
    (arisen : Scene.Arises hashing ⟨w, v, [], tasks⟩) (arisenToo : Scene.Arises hashing ⟨w', v, [], tasks⟩)
    (like : w.Like t past pastToo w') (new : Registry) :
    ({ w with registries := w.registries.put ⟨w.next⟩ new, next := w.next + 1 } : World).Like t past
      pastToo { w' with registries := w'.registries.put ⟨w'.next⟩ new, next := w'.next + 1 } := by
  have memos := arisen.numbered.memos
  have memosToo := arisenToo.numbered.memos
  obtain ⟨⟨threads, journal, rfl⟩, runs, before, told⟩ := like
  refine ⟨⟨threads, journal, rfl⟩, runs, fun u => ?_, told⟩
  have same : ∀ list : List Memo, (∀ memo ∈ list, memo.registry.number < w.next) →
      (list.filter fun memo => (w.registries.put ⟨w.next⟩ new).contains memo.registry)
        = list.filter fun memo => w.registries.contains memo.registry := by
    intro list below
    refine List.filter_congr fun memo listed => ?_
    have old : memo.registry ≠ ⟨w.next⟩ := by
      intro same
      have less := below memo listed
      rw [same] at less
      exact Nat.lt_irrefl _ less
    rw [Table.contains_put, decide_eq_false old, Bool.false_or]
  obtain ⟨depth, memosBefore, gone, atExit, order⟩ := before u
  refine ⟨depth, ?_, gone, atExit, order⟩
  have one := same _ (memos u)
  have other := same _ (memosToo u)
  exact other.trans (memosBefore.trans one.symm)

theorem congruence (hashing : RegistryId → Handle → UInt64) (t : ThreadId) (past pastToo : List Event) :
    Congruence hashing (Like t past pastToo) where
  toAbreast := abreast t past pastToo
  noted like _ := like.note _
  edited like _ := by
    obtain ⟨⟨threads, journal, rfl⟩, runs, before, told⟩ := like
    exact ⟨⟨threads, journal, rfl⟩, runs, before, told⟩
  opened arisen arisenToo like new := like.opened arisen arisenToo new
  closed {w w'} r like := by
    have changed := like.registries (w.registries.erase r) fun q there => by
      rw [Table.contains_erase] at there
      exact (Bool.and_eq_true_iff.mp there).2
    obtain ⟨threads, journal, rfl⟩ := like.rest
    exact changed
  threaded like _ depth atExit := like.threaded _ depth atExit
  started u like := like.started u
  looked h like runs live := like.lookUp runs live h
  dropped like free := like.dropMemos free
  ended u like := like.ended u

end Like

end World

end AttachedState
