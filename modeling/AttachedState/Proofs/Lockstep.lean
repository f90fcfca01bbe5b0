import AttachedState.Proofs.Counterparts

/-!
Lockstep.  What is done with a registry in one world and with its counterpart in another goes the same
way: step by step the two machines do the same, the same is told of it, and in the end the registries
are counterparts again.
-/

namespace AttachedState

namespace Thread

variable {thread : Thread}

theorem Plain.noteLookup (plain : thread.Plain) : thread.noteLookup.Plain := by
  refine ⟨?_, ?_⟩
  · rw [noteLookup_depth, plain.depth]
  · rw [noteLookup_memosGone, plain.memosGone]

theorem memo?_eq_head? (thread : Thread) (r : RegistryId) :
    thread.memo? r = (thread.memos.filter (·.registry = r)).head? := by
  unfold memo?
  rw [List.head?_filter]

end Thread

namespace Counterpart

variable {c : Counterpart}

/-! What threads remember. -/

namespace Threads

variable {live : Prop} {x y : Thread} {memo : Memo}

theorem memo? (threads : c.Threads live x y) (lives : live) :
    y.memo? c.there = (x.memo? c.here).map c.memo := by
  rw [Thread.memo?_eq_head?, Thread.memo?_eq_head?, threads.memos lives, List.head?_map]

theorem noteLookup (threads : c.Threads live x y) : c.Threads live x.noteLookup y.noteLookup := by
  refine ⟨threads.plain.noteLookup, threads.plainToo.noteLookup, ?_, ?_, ?_⟩
  · rw [Thread.noteLookup_memos, Thread.noteLookup_memos]
    exact threads.memos
  · rw [Thread.noteLookup_memos]
    exact threads.blocks
  · rw [Thread.noteLookup_memos]
    exact threads.alone

-- What is remembered of registries that are gone may be forgotten.
theorem prune (threads : c.Threads live x y) {keeps keepsToo : RegistryId → Bool}
    (kept : keeps c.here = true) (keptToo : keepsToo c.there = true) : c.Threads live
      { x with memos := x.memos.filter fun memo => keeps memo.registry }
      { y with memos := y.memos.filter fun memo => keepsToo memo.registry } := by
  have spared : ∀ {memos : List Memo} {r : RegistryId} {keeps : RegistryId → Bool}, keeps r = true →
      (memos.filter fun memo => keeps memo.registry).filter (·.registry = r)
        = memos.filter (·.registry = r) := by
    intro memos r keeps kept
    rw [List.filter_filter]
    refine List.filter_congr fun memo _ => ?_
    by_cases here : memo.registry = r <;> simp [here, kept]
  refine ⟨⟨threads.plain.1, threads.plain.2⟩, ⟨threads.plainToo.1, threads.plainToo.2⟩, fun lives => ?_,
    fun memo listed => threads.blocks memo (List.mem_of_mem_filter listed),
    fun memo listed => threads.alone memo (List.mem_of_mem_filter listed)⟩
  simp only [spared kept, spared keptToo]
  exact threads.memos lives

-- Threads that have just been started remember nothing.
theorem fresh : c.Threads live .fresh .fresh where
  plain := ⟨rfl, rfl⟩
  plainToo := ⟨rfl, rfl⟩
  memos _ := rfl
  blocks _ listed := absurd listed List.not_mem_nil
  alone _ listed := absurd listed List.not_mem_nil

theorem append (threads : c.Threads live x y) (memo : Memo) (here : memo.registry = c.here)
    (owned : ∀ b, memo.block = some b → c.owns b = true) : c.Threads live
      { x with memos := x.memos ++ [memo] } { y with memos := y.memos ++ [c.memo memo] } := by
  refine ⟨⟨threads.plain.1, threads.plain.2⟩, ⟨threads.plainToo.1, threads.plainToo.2⟩, fun lives => ?_,
    fun other listed => ?_, fun other listed => ?_⟩
  · simp [List.filter_append, threads.memos lives, here, Counterpart.memo]
  · rcases List.mem_append.mp listed with before | new
    · exact threads.blocks other before
    · cases List.mem_singleton.mp new
      exact fun _ => owned
  · rcases List.mem_append.mp listed with before | new
    · exact threads.alone other before
    · cases List.mem_singleton.mp new
      rfl

theorem setMemo (threads : c.Threads live x y) (memo : Memo) (here : memo.registry = c.here)
    (owned : ∀ b, memo.block = some b → c.owns b = true) :
    c.Threads live (x.setMemo memo) (y.setMemo (c.memo memo)) := by
  have changed : ∀ (memos : List Memo) (memo : Memo),
      (memos.map fun old => if old.registry = memo.registry then memo else old).filter
          (·.registry = memo.registry)
        = (memos.filter (·.registry = memo.registry)).map fun _ => memo := by
    intro memos memo
    induction memos with
    | nil => rfl
    | cons old rest ih =>
      by_cases same : old.registry = memo.registry <;> simp_all
  refine ⟨⟨threads.plain.1, threads.plain.2⟩, ⟨threads.plainToo.1, threads.plainToo.2⟩, fun lives => ?_,
    fun other listed same => ?_, fun other listed => ?_⟩
  · have there : (y.setMemo (c.memo memo)).memos.filter (·.registry = c.there)
        = (y.memos.filter (·.registry = c.there)).map fun _ => c.memo memo :=
      changed y.memos (c.memo memo)
    have mine : (x.setMemo memo).memos.filter (·.registry = c.here)
        = (x.memos.filter (·.registry = c.here)).map fun _ => memo := by
      rw [← here]
      exact changed x.memos memo
    rw [there, mine, threads.memos lives, List.map_map, List.map_map]
    rfl
  · obtain ⟨old, before, rfl⟩ := List.mem_map.mp listed
    split at same
    · rename_i replaced
      rw [if_pos replaced]
      exact owned
    · rename_i untouched
      rw [if_neg untouched]
      exact threads.blocks old before same
  · obtain ⟨old, before, rfl⟩ := List.mem_map.mp listed
    split
    · rfl
    · exact threads.alone old before

end Threads

/-! Changes of worlds. -/

namespace Worlds

variable {w w' : World} {x y x' y' : Registry} {t : ThreadId}

theorem told (worlds : c.Worlds w w') (told : List Event) (silent : ∀ e ∈ told, e.born? = none)
    (journal : List Event) :
    c.Worlds { w with journal := told ++ w.journal } { w' with journal } := by
  refine { worlds with created := fun r entry b h slots listed => ?_ }
  rcases List.mem_append.mp listed with new | before
  · cases silent _ new
  · exact worlds.created r entry b h slots before

theorem note (worlds : c.Worlds w w') {e e' : Event} (silent : e.born? = none) :
    c.Worlds (w.note e) (w'.note e') := worlds.told [e] (List.forall_mem_singleton.mpr silent) _

theorem rewritten (worlds : c.Worlds w w') (live : w.registries.find? c.here = some x)
    (related : c.Registries x' y') :
    c.Worlds (w.setRegistry c.here x') (w'.setRegistry c.there y') := by
  have still : (w.setRegistry c.here x').registries.contains c.here
      = w.registries.contains c.here := by
    unfold World.setRegistry
    rw [Table.contains_put, Table.contains_iff.mpr ⟨x, live⟩, Bool.or_true]
  refine { worlds with registry := ?_, threads := ?_, apart := ?_, alone := ?_ }
  · unfold World.setRegistry
    rw [Table.find?_put_self, Table.find?_put_self]
    exact .some related
  · intro u
    rw [still]
    exact worlds.threads u
  · intro r contexts t h b found entry
    have put : (w.setRegistry c.here x').registries = w.registries.put c.here x' := rfl
    rw [World.map?_put put rfl] at found
    split at found
    · rename_i here
      cases found
      exact iff_of_true (related.maps.owned t h b entry) here
    · exact worlds.apart r contexts t h b found entry
  · intro r contexts t entry found there
    have put : (w'.setRegistry c.there y').registries = w'.registries.put c.there y' := rfl
    rw [World.map?_put put rfl] at found
    split at found
    · assumption
    · exact worlds.alone r contexts t entry found there

theorem threaded (worlds : c.Worlds w w') (t : ThreadId) {one other : Thread}
    (related : c.Threads (w.registries.contains c.here = true) one other) :
    c.Worlds (w.setThread t one) (w'.setThread t other) := by
  refine { worlds with running := ?_, threads := ?_ }
  · intro u there
    unfold World.setThread at there ⊢
    rw [Table.contains_put, Bool.or_eq_true, decide_eq_true_eq] at there ⊢
    exact there.imp_right (worlds.running u)
  · intro u
    have mine : (w.setThread t one).thread u = if u = t then one else w.thread u := World.thread_put rfl u
    have theirs : (w'.setThread t other).thread u = if u = t then other else w'.thread u :=
      World.thread_put rfl u
    rw [mine, theirs]
    split
    · exact related
    · exact worlds.threads u

end Worlds

/-! What is told. -/

-- The same is told of blocks that correspond to each other.
inductive Events (c : Counterpart) : Event → Event → Prop where
  | factoryStarted {b : BlockId} (owns : c.owns b = true) (slot : Slot) (h : Handle) :
      Events c (.factoryStarted b slot h) (.factoryStarted (c.block b) slot h)
  | objectMade {b : BlockId} {object other : Object} (owns : c.owns b = true) (slot : Slot)
      (alike : other.nameless = object.nameless) :
      Events c (.objectMade b slot object) (.objectMade (c.block b) slot other)
  | objectDropped {b : BlockId} {object other : Object} (owns : c.owns b = true) (h : Handle)
      (alike : other.nameless = object.nameless) :
      Events c (.objectDropped b h object none) (.objectDropped (c.block b) h other none)
  | slotOverwritten (h : Handle) (slot : Slot) :
      Events c (.slotOverwritten h slot) (.slotOverwritten h slot)
  | stateCreated {b : BlockId} (owns : c.owns b = true) (entry : Ticket) (h : Handle) (count : Nat) :
      Events c (.stateCreated c.here entry b h count) (.stateCreated c.there entry (c.block b) h count)
  | stateRemoved {b : BlockId} (owns : c.owns b = true) (entry : Ticket) (h : Handle) (scrubbed : Nat) :
      Events c (.stateRemoved c.here entry b h scrubbed)
        (.stateRemoved c.there entry (c.block b) h scrubbed)
  | lineAttached (t : ThreadId) (label : Name) (line : Ticket) :
      Events c (.lineAttached t c.here label line) (.lineAttached t c.there label line)
  | lineDetached (t : ThreadId) (line : Ticket) :
      Events c (.lineDetached t c.here line) (.lineDetached t c.there line)
  | lookedUp {found : Option BlockId} (owned : ∀ b, found = some b → c.owns b = true) (t : ThreadId)
      (h : Handle) (route : Route) :
      Events c (.lookedUp t c.here h found route) (.lookedUp t c.there h (found.map c.block) route)
  | answered (answer : Answer) : Events c (.answered none answer) (.answered none answer)
  | exitRetrieved (answer : Answer) (caches : Option Nat) :
      Events c (.exitRetrieved (some c.here) answer caches) (.exitRetrieved (some c.there) answer caches)

-- What is told alike is told of the registry and of its counterpart, or of neither.
theorem Events.about? {e e' : Event} (same : c.Events e e') :
    e'.about? = some c.there ↔ e.about? = some c.here := by
  cases same <;> simp [Event.about?]

-- The same was told since.
def Tells (c : Counterpart) (w w' after after' : World) : Prop :=
  ∃ told told', after.journal = told ++ w.journal ∧ after'.journal = told' ++ w'.journal ∧
    List.Forall₂ c.Events told told'

theorem Tells.trans {w w' after after' last last' : World} (first : c.Tells w w' after after')
    (next : c.Tells after after' last last') : c.Tells w w' last last' := by
  obtain ⟨told, told', one, other, both⟩ := first
  obtain ⟨more, more', oneMore, otherMore, bothMore⟩ := next
  refine ⟨more ++ told, more' ++ told', ?_, ?_, List.rel_append bothMore both⟩
  · rw [oneMore, one, List.append_assoc]
  · rw [otherMore, other, List.append_assoc]

-- How threads will end stays as it was, and so do the registries of the lookups that they have left.
structure Plans (c : Counterpart) (w w' after after' : World) : Prop where
  one : ∀ u, (w.thread u).Keeps (after.thread u)
  other : ∀ u, (w'.thread u).Keeps (after'.thread u)
  names : ∀ u, ∀ retrieval ∈ (w.thread u).atExit,
    after.isIn c.here retrieval = w.isIn c.here retrieval

namespace Plans

variable {w w' after after' last last' : World}

theorem same (threads : after.threads = w.threads) (threadsToo : after'.threads = w'.threads)
    (names : after.registryNames = w.registryNames) : c.Plans w w' after after' := by
  refine ⟨World.keeps_of_same threads, World.keeps_of_same threadsToo, fun u retrieval _ => ?_⟩
  unfold World.isIn World.registryNamed?
  rw [names]

theorem of_threads (plans : c.Plans w w' after after') {v v' : World}
    (threads : ∀ u, w.thread u = v.thread u) (threadsToo : ∀ u, w'.thread u = v'.thread u)
    (names : w.registryNames = v.registryNames) : c.Plans v v' after after' := by
  refine ⟨fun u => threads u ▸ plans.one u, fun u => threadsToo u ▸ plans.other u,
    fun u retrieval listed => ?_⟩
  rw [plans.names u retrieval (by rwa [threads u])]
  unfold World.isIn World.registryNamed?
  rw [names]

-- A name is given away, or given up, under which no lookup was left.
theorem unleft (threads : after.threads = w.threads) (threadsToo : after'.threads = w'.threads)
    {name : Name} (unleft : w.Unleft name)
    (names : ∀ other, other ≠ name → after.registryNames.find? other = w.registryNames.find? other) :
    c.Plans w w' after after' := by
  refine ⟨World.keeps_of_same threads, World.keeps_of_same threadsToo, fun u retrieval listed => ?_⟩
  unfold World.isIn World.registryNamed?
  rw [names _ (unleft u retrieval listed)]

theorem trans (first : c.Plans w w' after after') (next : c.Plans after after' last last') :
    c.Plans w w' last last' := by
  refine ⟨fun u => (first.one u).trans (next.one u), fun u => (first.other u).trans (next.other u),
    fun u retrieval listed => (next.names u retrieval ?_).trans (first.names u retrieval listed)⟩
  rwa [(Thread.plan_eq (first.one u).plan).2.2]

end Plans

-- The worlds come to be the two others, and the same is told of it.  No state of another registry
-- gets a name meanwhile.
structure Goes (c : Counterpart) (w w' after after' : World) : Prop where
  worlds : c.Worlds after after'
  told : c.Tells w w' after after'
  strangers : ∀ name g, after.states.find? name = some g →
    g.registry = c.here ∨ w.states.find? name = some g
  plans : c.Plans w w' after after'

namespace Goes

variable {w w' after after' last last' : World}

theorem refl (worlds : c.Worlds w w') : c.Goes w w' w w' :=
  ⟨worlds, ⟨[], [], rfl, rfl, .nil⟩, fun _ _ => .inr, .same rfl rfl rfl⟩

theorem trans (first : c.Goes w w' after after') (next : c.Goes after after' last last') :
    c.Goes w w' last last' := by
  refine ⟨next.worlds, first.told.trans next.told, fun name g found => ?_, first.plans.trans next.plans⟩
  exact (next.strangers name g found).elim .inl (first.strangers name g)

-- Nothing is told, and no name is given away.
theorem still (worlds : c.Worlds after after') (journal : after.journal = w.journal)
    (journalToo : after'.journal = w'.journal) (states : after.states = w.states)
    (plans : c.Plans w w' after after') : c.Goes w w' after after' :=
  ⟨worlds, ⟨[], [], journal, journalToo, .nil⟩, fun _ _ found => .inr (states ▸ found), plans⟩

theorem note (goes : c.Goes w w' after after') {e e' : Event} (same : c.Events e e')
    (silent : e.born? = none) : c.Goes w w' (after.note e) (after'.note e') := by
  obtain ⟨told, told', one, other, both⟩ := goes.told
  refine ⟨goes.worlds.note silent, ⟨e :: told, e' :: told', ?_, ?_, .cons same both⟩, goes.strangers,
    goes.plans.trans (.same rfl rfl rfl)⟩
  · exact congrArg (e :: ·) one
  · exact congrArg (e' :: ·) other

end Goes

namespace Worlds

variable {w w' : World} {x : Registry} {t : ThreadId} {b : BlockId} {α : Type}

theorem free (worlds : c.Worlds w w') (t : ThreadId) :
    (w.thread t).depth = 0 ∧ (w'.thread t).depth = 0 :=
  ⟨(worlds.threads t).plain.depth, (worlds.threads t).plainToo.depth⟩

-- Work under the locks of both registries is work on counterparts.
theorem underLock (worlds : c.Worlds w w') (runs : w.Runs t) (runsToo : w'.Runs t)
    (live : w.registries.find? c.here = some x) (work workToo : Registry → α × Registry) :
    ∃ y, c.Registries { x with holder := some t } y ∧
      w.underLock t c.here work = .ok ((work { x with holder := some t }).1,
        w.setRegistry c.here { (work { x with holder := some t }).2 with holder := none }) ∧
      w'.underLock t c.there workToo = .ok ((workToo y).1,
        w'.setRegistry c.there { (workToo y).2 with holder := none }) := by
  obtain ⟨y, found, related⟩ := worlds.registry_of_find? live
  exact ⟨{ y with holder := some t }, ⟨related.label, related.lines, related.maps⟩,
    World.underLock_free runs (worlds.free t).1 live work,
    World.underLock_free runsToo (worlds.free t).2 found workToo⟩

theorem pruneMemos (worlds : c.Worlds w w') (live : w.registries.find? c.here = some x) :
    c.Worlds (w.pruneMemos t) (w'.pruneMemos t) := by
  have lives := Table.contains_iff.mpr ⟨x, live⟩
  exact worlds.threaded t ((worlds.threads t).prune lives (worlds.live_iff.trans lives))

-- Either thread, now that it looks something up, has a memo of its registry, and these correspond to
-- each other.
theorem memoFor (worlds : c.Worlds w w') (runs : w.Runs t) (runsToo : w'.Runs t)
    (looked : (w.thread t).hasLooked = true) (lookedToo : (w'.thread t).hasLooked = true)
    (live : w.registries.find? c.here = some x) : ∃ memo after after' now,
    w.memoFor t c.here = (.ok memo, after) ∧ w'.memoFor t c.there = (.ok (c.memo memo), after') ∧
    c.Goes w w' after after' ∧ memo.registry = c.here ∧
    (∀ b, memo.block = some b → c.owns b = true) ∧ after.registries.find? c.here = some now ∧
    after.Runs t ∧ after'.Runs t := by
  have lives := Table.contains_iff.mpr ⟨x, live⟩
  have same := (worlds.threads t).memo? lives
  unfold World.memoFor
  rw [same]
  cases known : (w.thread t).memo? c.here with
  | some memo =>
    have here : memo.registry = c.here := by
      have found := List.find?_some known
      simpa using found
    have listed : memo ∈ (w.thread t).memos := List.mem_of_find?_eq_some known
    exact ⟨memo, w, w', x, rfl, rfl, .refl worlds, here, (worlds.threads t).blocks memo listed here,
      live, runs, runsToo⟩
  | none =>
    have pruned := worlds.pruneMemos live (t := t)
    have runsThen : (w.pruneMemos t).Runs t := ⟨_, Table.find?_put_self ..⟩
    have runsThenToo : (w'.pruneMemos t).Runs t := ⟨_, Table.find?_put_self ..⟩
    obtain ⟨y, related, one, other⟩ := pruned.underLock runsThen runsThenToo live
      Registry.attach Registry.attach
    have line : y.attach.1 = x.attach.1 := by
      simp only [Registry.attach, related.lines]
    have attached : c.Registries { x.attach.2 with holder := none } { y.attach.2 with holder := none } := by
      refine ⟨related.label, ?_, related.maps⟩
      simp only [Registry.attach, related.lines]
    have before := pruned.rewritten live attached
    have unset : ∀ b, (⟨c.here, x.attach.1, none⟩ : Memo).block = some b → c.owns b = true := by
      intro b set
      cases set
    have appended := (before.threads t).append ⟨c.here, x.attach.1, none⟩ rfl unset
    simp only [World.attachMemo, one, other, line, World.registry_setRegistry]
    refine ⟨_, _, _, _, rfl, rfl, .note ?_ ?_ rfl, rfl, unset, Table.find?_put_self ..,
      ⟨_, Table.find?_put_self ..⟩, ⟨_, Table.find?_put_self ..⟩⟩
    · exact .still (before.threaded t appended) rfl rfl rfl
        ⟨World.keeps_attached looked _, World.keeps_attached lookedToo _, fun _ _ _ => rfl⟩
    · simp only [Registry.attach, related.label]
      exact .lineAttached t x.label x.attach.1

-- What a line holds of one registry, it holds of the other.
theorem remembered? (worlds : c.Worlds w w') (live : w.registries.find? c.here = some x) {memo : Memo}
    (here : memo.registry = c.here) (owned : ∀ b, memo.block = some b → c.owns b = true) (h : Handle) :
    w'.remembered? (c.memo memo) h = (w.remembered? memo h).map c.block := by
  obtain ⟨y, found, related⟩ := worlds.registry_of_find? live
  have lines : (w'.registry c.there).lineHolds memo.line h = (w.registry c.here).lineHolds memo.line h := by
    rw [World.registry_of_find? found, World.registry_of_find? live]
    unfold Registry.lineHolds
    rw [related.lines]
  unfold World.remembered?
  simp only [Counterpart.memo, here, lines]
  split
  · cases block : memo.block with
    | none => rfl
    | some b =>
      simp only [Option.map_some, Option.filter_some, worlds.present_iff (owned b block)]
      split <;> rfl
  · rfl

theorem noted (worlds : c.Worlds w w') (t : ThreadId) : c.Worlds (w.noted t) (w'.noted t) :=
  worlds.threaded t (worlds.threads t).noteLookup

theorem lookUp (worlds : c.Worlds w w') (t : ThreadId)
    (live : w.registries.find? c.here = some x) (h : Handle) : ∃ found after after',
    w.lookUp t c.here h = (.ok found, after) ∧
    w'.lookUp t c.there h = (.ok (found.map c.block), after') ∧
    c.Goes (w.noted t) (w'.noted t) after after' ∧ ∀ b, found = some b → c.owns b = true := by
  obtain ⟨memo, one, other, now, first, firstToo, goes, here, owned, liveThen, runsThen, runsThenToo⟩ :=
    (worlds.noted t).memoFor (x := x) ⟨_, Table.find?_put_self ..⟩ ⟨_, Table.find?_put_self ..⟩
      (w.looked_noted t) (w'.looked_noted t) live
  have remembered := goes.worlds.remembered? liveThen here owned h
  unfold World.noted at first firstToo
  unfold World.lookUp
  simp only [(worlds.threads t).plain.memosGone, (worlds.threads t).plainToo.memosGone,
    Bool.false_eq_true, if_false, first, firstToo, remembered]
  cases known : one.remembered? memo h with
  | some b =>
    have mine : c.owns b = true := by
      unfold World.remembered? at known
      split at known
      · exact owned b (Option.filter_eq_some_iff.mp known).1
      · cases known
    refine ⟨some b, _, _, rfl, rfl, goes.note ?_ rfl, ?_⟩
    · exact .lookedUp (fun d same => Option.some.inj same ▸ mine) t h .line
    · exact fun d same => Option.some.inj same ▸ mine
  | none =>
    obtain ⟨r, line, block⟩ := memo
    cases here
    obtain ⟨y, related, locked, lockedToo⟩ := goes.worlds.underLock runsThen runsThenToo liveThen
      (·.resolve line h) (·.resolve line h)
    have found : y.contexts.get? h = (now.contexts.get? h).map c.block := related.maps.get? h
    have mine : ∀ b, now.contexts.get? h = some b → c.owns b = true := fun b => related.maps.owned_get?
    have resolved : c.Registries { (now.resolve line h).2 with holder := none }
        { (y.resolve line h).2 with holder := none } := by
      refine ⟨related.label, ?_, related.maps⟩
      simp only [Registry.resolve, related.lines, found, Option.map_map]
      rfl
    have before := goes.worlds.rewritten liveThen resolved
    have changed := (before.threads t).setMemo ⟨c.here, line, now.contexts.get? h⟩ rfl mine
    have same : y.resolve line h = ((now.contexts.get? h).map c.block, (y.resolve line h).2) := by
      rw [← found]
      rfl
    rw [same] at lockedToo
    have resolves : ∀ {w : World} {memo : Memo} (u : ThreadId),
        (w.thread u).Keeps ((w.setThread t ((w.thread t).setMemo memo)).thread u) :=
      World.keeps_of_put rfl ⟨rfl, fun _ bare => by simp only [Thread.setMemo, bare, List.map_nil]⟩
    simp only [Option.map_none, World.resolveThrough, Counterpart.memo, locked, lockedToo]
    refine ⟨now.contexts.get? h, _, _, rfl, rfl, .note ?_ ?_ rfl, mine⟩
    · exact goes.trans (.still (before.threaded t changed) rfl rfl rfl
        ⟨resolves, resolves, fun _ _ _ => rfl⟩)
    · exact .lookedUp mine t h .map

end Worlds

end Counterpart

end AttachedState
