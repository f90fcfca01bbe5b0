import AttachedState.Proofs.Lifetimes
import AttachedState.Proofs.Machines

/-!
Cache lines.  A thread's line holds a handle just when the thread's latest lookup through the line
found it and the block that was found is still registered.  Then, and only then, the next lookup of
the handle needs no lock.
-/

namespace AttachedState

namespace World

variable {w after : World} {t : ThreadId} {r : RegistryId} {h : Handle}

/-! What a lookup tells. -/

theorem runs_of_memo {memo : Memo} (known : memo ∈ (w.thread t).memos) : w.Runs t := by
  cases found : w.threads.find? t with
  | some thread => exact ⟨thread, found⟩
  | none =>
    rw [thread_of_absent found] at known
    cases known

-- The line that a lookup adds first, if the thread has none.
def Attaches (w : World) (t : ThreadId) (r : RegistryId) (told : List Event) : Prop :=
  told = [] ∨ (w.thread t).memo? r = none ∧ ∃ label line, told = [.lineAttached t r label line]

theorem memoFor_journal (w : World) (t : ThreadId) (r : RegistryId) : ∃ told, w.Attaches t r told ∧
    (w.memoFor t r).2.journal = told ++ w.journal := by
  unfold memoFor
  split
  · exact ⟨[], .inl rfl, rfl⟩
  · rename_i unknown
    unfold attachMemo
    simp only
    split
    · exact ⟨[], .inl rfl, rfl⟩
    · rename_i line after locked
      refine ⟨[.lineAttached t r (after.registry r).label line], .inr ⟨unknown, _, line, rfl⟩, ?_⟩
      exact congrArg (List.cons _) (underLock_same locked).2

-- A lookup that is answered is told of, after the line that it may have added; one that is refused
-- is not told of.
theorem lookUp_journal (w : World) (t : ThreadId) (r : RegistryId) (h : Handle) :
    ∃ told, w.Attaches t r told ∧
      (((∃ cause, (w.lookUp t r h).1 = .error cause) ∧
          (w.lookUp t r h).2.journal = told ++ w.journal) ∨
        ∃ found route, (w.lookUp t r h).1 = .ok found ∧
          (w.lookUp t r h).2.journal = .lookedUp t r h found route :: told ++ w.journal ∧
          (route = .direct → (w.thread t).memosGone = true)) := by
  unfold lookUp
  simp only
  split
  · rename_i gone
    refine ⟨[], .inl rfl, ?_⟩
    unfold resolveDirectly
    split
    · exact .inl ⟨⟨_, rfl⟩, rfl⟩
    · rename_i found _ locked
      refine .inr ⟨found, .direct, rfl, ?_, fun _ => gone⟩
      exact congrArg (List.cons _) (underLock_same locked).2
  · obtain ⟨told, attaches, journal⟩ := memoFor_journal (w.setThread t (w.thread t).noteLookup) t r
    have before : w.Attaches t r told := by
      unfold Attaches Thread.memo? at attaches ⊢
      rwa [thread_put_self (w := w) rfl, Thread.noteLookup_memos] at attaches
    refine ⟨told, before, ?_⟩
    split
    · rename_i made
      rw [made] at journal
      exact .inl ⟨⟨_, rfl⟩, journal⟩
    · rename_i memo after made
      have same := memoFor_registry made
      rw [made] at journal
      split
      · refine .inr ⟨_, .line, rfl, ?_, nofun⟩
        exact congrArg (List.cons _) journal
      · unfold resolveThrough
        split
        · exact .inl ⟨⟨_, rfl⟩, journal⟩
        · rename_i found _ locked
          refine .inr ⟨found, .map, rfl, ?_, nofun⟩
          rw [← same]
          exact congrArg (List.cons _) ((underLock_same locked).2.trans journal)

-- A lookup that is answered from the line.
theorem lookUp_remembered {memo : Memo} {b : BlockId} (kept : (w.thread t).memosGone = false)
    (found : (w.thread t).memo? r = some memo) (remembers : w.remembered? memo h = some b) :
    w.lookUp t r h = (.ok (some b), (w.setThread t (w.thread t).noteLookup).note
      (.lookedUp t r h (some b) .line)) := by
  have memoFor : (w.setThread t (w.thread t).noteLookup).memoFor t r
      = (.ok memo, w.setThread t (w.thread t).noteLookup) := by
    have same : ((w.setThread t (w.thread t).noteLookup).thread t).memo? r = some memo := by
      rw [thread_put_self (w := w) rfl, Thread.memo?, Thread.noteLookup_memos]
      exact found
    unfold World.memoFor
    rw [same]
  have still : (w.setThread t (w.thread t).noteLookup).remembered? memo h = some b := remembers
  unfold lookUp
  simp only [kept, Bool.false_eq_true, if_false, memoFor, still]

-- A lookup that no line answers asks for the lock, and is refused by a thread that holds one.  It is
-- noted at most that the thread has made a lookup, and registries that are gone may be forgotten.
theorem lookUp_held (runs : w.Runs t) (held : (w.thread t).depth ≠ 0)
    (cold : ∀ memo, (w.thread t).memo? r = some memo → w.remembered? memo h = none) :
    ∃ thread, w.lookUp t r h = (.error .lockHeld, w.setThread t thread) ∧
      (thread = w.thread t ∨ thread = (w.thread t).noteLookup ∨
        thread = { (w.thread t).noteLookup with
          memos := (w.thread t).memos.filter fun memo => w.registries.contains memo.registry }) := by
  have noted : (w.setThread t (w.thread t).noteLookup).thread t = (w.thread t).noteLookup := by
    rw [thread_put_self (w := w) rfl]
  have heldThen : ((w.setThread t (w.thread t).noteLookup).thread t).depth ≠ 0 := by
    rwa [noted, Thread.noteLookup_depth]
  unfold lookUp
  simp only
  split
  · refine ⟨w.thread t, ?_, .inl rfl⟩
    unfold resolveDirectly setThread
    rw [underLock_held held, Table.put_of_find? (find?_of_runs runs)]
  · unfold memoFor
    cases found : ((w.setThread t (w.thread t).noteLookup).thread t).memo? r with
    | some memo =>
      have before : (w.thread t).memo? r = some memo := by
        rwa [noted, Thread.memo?, Thread.noteLookup_memos] at found
      have still : (w.setThread t (w.thread t).noteLookup).remembered? memo h = none := cold memo before
      simp only [still]
      unfold resolveThrough
      rw [underLock_held heldThen]
      exact ⟨_, rfl, .inr (.inl rfl)⟩
    | none =>
      have forgets : (w.setThread t (w.thread t).noteLookup).pruneMemos t
          = w.setThread t { (w.thread t).noteLookup with
            memos := (w.thread t).memos.filter fun memo => w.registries.contains memo.registry } := by
        unfold pruneMemos
        simp only [noted, Thread.noteLookup_memos]
        simp only [setThread, Table.put_put]
      have pruned : (((w.setThread t (w.thread t).noteLookup).pruneMemos t).thread t).depth ≠ 0 := by
        unfold pruneMemos
        rw [thread_put_self (w := w.setThread t (w.thread t).noteLookup) rfl]
        exact heldThen
      unfold attachMemo
      simp only
      rw [underLock_held pruned, forgets]
      exact ⟨_, rfl, .inr (.inr rfl)⟩

/-! What a factory, giving up an owner and registering a block tell. -/

-- A factory that copies nothing looks nothing up.
theorem make_journal (w : World) (t : ThreadId) (site : Construction) {f : Factory}
    (own : ∀ registry address key addend, f.source ≠ .copied registry address key addend) :
    (w.make t site f).1.journal = w.journal ∨ ∃ object,
      (w.make t site f).1.journal = .objectMade site.block f.slot object :: w.journal := by
  have supplied : (w.supplied t site.handle f.source).2 = w := by
    cases source : f.source with
    | given | address => rfl
    | copied registry address key addend => exact absurd source (own registry address key addend)
  have same : (w.makeValue t site.handle f).2 = w := by
    unfold makeValue
    split
    · rfl
    · split <;> rename_i made <;> rw [made] at supplied
      · exact supplied
      · split <;> exact supplied
  unfold make
  split
  · rename_i made
    rw [made] at same
    exact .inl (congrArg journal same)
  · rename_i after made
    rw [made] at same
    have told : after.journal = w.journal := congrArg journal same
    simp only [takeNumber]
    split <;> exact .inr ⟨_, congrArg (List.cons _) told⟩

theorem giveUp_journal (w : World) (t : ThreadId) (g : Guard) : ∃ e : Event,
    (w.giveUp t g).world.journal = e :: w.journal ∧ (∀ u r, e.writes u r = false) ∧
    ∀ r h, e.removes r h = true → r = g.registry ∧ h = g.handle := by
  have removed : ∀ scrubbed r h,
      (Event.stateRemoved g.registry g.entry g.block g.handle scrubbed).removes r h = true →
      r = g.registry ∧ h = g.handle := by
    intro scrubbed r h removes
    obtain ⟨here, same⟩ := of_decide_eq_true removes
    exact ⟨here.symm, same.symm⟩
  unfold giveUp
  split
  · exact ⟨.stateOrphaned g.registry g.entry g.block g.handle, rfl, fun _ _ => rfl, nofun⟩
  · rename_i locked
    exact ⟨_, congrArg (List.cons _) (underLock_same locked).2, fun _ _ => rfl, nofun⟩
  · rename_i locked
    exact ⟨_, congrArg (List.cons _) (underLock_same locked).2, fun _ _ => rfl, removed _⟩

-- Registering a block tells of the block's state, and then of nothing but that it was given up.
theorem register_journal (w : World) (t : ThreadId) (site : Construction) :
    (w.register t site).1.journal = w.journal ∨ ∃ later entry slots, (w.register t site).1.journal
      = later ++ .stateCreated site.registry entry site.block site.handle slots :: w.journal ∧
    ∀ e ∈ later, (∀ u r, e.writes u r = false) ∧
      ∀ r h, e.removes r h = true → r = site.registry ∧ h = site.handle := by
  unfold register
  split
  · exact .inl rfl
  · rename_i locked
    exact .inl (underLock_same locked).2
  · rename_i entry after locked
    have journal := (underLock_same locked).2
    refine .inr ?_
    simp only
    split
    · obtain ⟨e, told, unwritten, removes⟩ := giveUp_journal (({ after with
          blocks := after.blocks.put site.block site.built } : World).note
        (.stateCreated site.registry entry site.block site.handle site.built.slotCount)) t
        ⟨site.registry, entry, site.handle, site.block⟩
      refine ⟨[e], entry, site.built.slotCount, told.trans ?_, fun e' listed => ?_⟩
      · rw [← journal]
        rfl
      · rw [List.mem_singleton.mp listed]
        exact ⟨unwritten, removes⟩
    · refine ⟨[], entry, site.built.slotCount, ?_, List.forall_mem_nil _⟩
      rw [← journal]
      split <;> rfl

end World

namespace Scene.Arises

variable {hashing : RegistryId → Handle → UInt64} {s s' : Scene} {t : ThreadId} {r : RegistryId}
  {h : Handle}

-- A line stays as it was if its thread does not write it and the handle it holds is not removed.
theorem lineOf_of_silent (arisen : Arises hashing s) (moves : Moves s s') {told : List Event}
    (journal : s'.world.journal = told ++ s.world.journal)
    (there : s.world.registries.contains r = true) (still : s'.world.registries.contains r = true)
    (unwritten : ∀ e ∈ told, e.writes t r = false)
    (kept : ∀ h, s.world.lineOf t r = some h → ∀ e ∈ told, e.removes r h = false) :
    s'.world.lineOf t r = s.world.lineOf t r := by
  have arisenThen : Arises hashing s' := Relation.ReflTransGen.trans arisen moves
  rw [arisen.lineOf_eq r there] at kept ⊢
  rw [arisenThen.lineOf_eq r still, journal]
  exact lineTold_append_of_silent unwritten kept

-- A thread that has given its lines up knows none.
theorem kept_of_memo (arisen : Arises hashing s) {memo : Memo}
    (found : (s.world.thread t).memo? r = some memo) : (s.world.thread t).memosGone = false := by
  cases gone : (s.world.thread t).memosGone with
  | false => rfl
  | true =>
    unfold Thread.memo? at found
    rw [arisen.forgotten t gone] at found
    cases found

-- A line that holds a handle stands for the block that the handle has.
theorem mapped_of_lineOf (arisen : Arises hashing s) {registry : Registry}
    (live : s.world.registries.find? r = some registry) (holds : s.world.lineOf t r = some h) :
    ∃ memo b, (s.world.thread t).memo? r = some memo ∧ s.world.remembered? memo h = some b ∧
      registry.contexts.get? h = some b := by
  obtain ⟨memo, found, _⟩ := (World.lineOf_eq_some live).mp holds
  have known : memo ∈ (s.world.thread t).memos := List.mem_of_find?_eq_some found
  have same := Thread.memo?_registry found
  subst same
  obtain ⟨b, remembers⟩ := arisen.remembered?_of_lineOf known live holds
  exact ⟨memo, b, found, remembers, arisen.lined.remembered (World.runs_of_memo known) known
    (World.map?_of_find? live) remembers⟩

-- A line that does not hold a handle does not answer for it.
theorem cold_memo (arisen : Arises hashing s) {registry : Registry}
    (live : s.world.registries.find? r = some registry) (cold : s.world.lineOf t r ≠ some h)
    (memo : Memo) (found : (s.world.thread t).memo? r = some memo) :
    s.world.remembered? memo h = none := by
  cases remembers : s.world.remembered? memo h with
  | none => rfl
  | some b =>
    have same := Thread.memo?_registry found
    subst same
    obtain ⟨here, _⟩ := World.remembered?_eq_some.mp remembers
    rw [World.registry_of_find? live] at here
    exact absurd ((arisen.lined.lineHolds_iff (List.mem_of_find?_eq_some found) live).mp here) cold

end Scene.Arises

namespace World

-- A lookup is answered from the line: no registry is touched, and nothing is told but the answer.
def AnswersFromLine (w : World) (t : ThreadId) (r : RegistryId) (h : Handle) (b : BlockId) : Prop :=
  ∃ after, w.lookUp t r h = (.ok (some b), after) ∧ after.registries = w.registries ∧
    after.journal = .lookedUp t r h (some b) .line :: w.journal

-- What the next lookup of a handle does, as the thread's line says.
structure NextLookup (w : World) (t : ThreadId) (r : RegistryId) (registry : Registry) (h : Handle) :
    Prop where
  -- A line that holds the handle answers, and would do so however many locks the thread held.
  warm : w.lineOf t r = some h → ∃ b, registry.contexts.get? h = some b ∧
    w.AnswersFromLine t r h b ∧
    ∀ depth, (w.setThread t { w.thread t with depth }).AnswersFromLine t r h b
  -- Otherwise the map answers, which is a miss of the line unless the thread has given its lines up.
  cold : w.lineOf t r ≠ some h → (w.thread t).depth = 0 →
    (w.lookUp t r h).1 = .ok (registry.contexts.get? h) ∧ ∃ told route,
      (w.lookUp t r h).2.journal
        = .lookedUp t r h (registry.contexts.get? h) route :: told ++ w.journal ∧
      w.Attaches t r told ∧ route ≠ .line ∧ (route = .direct → (w.thread t).memosGone = true)
  -- The map is behind the lock, which a thread that holds one may not take.
  refused : w.lineOf t r ≠ some h → (w.thread t).depth ≠ 0 →
    (w.lookUp t r h).1 = .error .lockHeld ∧ (w.lookUp t r h).2.registries = w.registries ∧
      (w.lookUp t r h).2.journal = w.journal

end World

namespace Machine

variable {hashing : RegistryId → Handle → UInt64} {m : Machine}

-- A lookup of a handle that the line does not hold is not answered from the line.
theorem Reached.route_of_cold (reached : m.Reached hashing) {t : ThreadId} {r : RegistryId}
    {registry : Registry} {h : Handle} (runs : m.world.Runs t)
    (live : m.world.registries.find? r = some registry) (cold : m.world.lineOf t r ≠ some h)
    {told : List Event} (attaches : m.world.Attaches t r told) {found : Option BlockId} {route : Route}
    (journal : (m.world.lookUp t r h).2.journal
      = .lookedUp t r h found route :: told ++ m.world.journal) : route ≠ .line := by
  intro line
  have arisen := reached.arises
  have changes := (World.lookUp_spec runs (World.map?_of_find? live) h).1
  have arisenThen : Scene.Arises hashing ⟨(m.world.lookUp t r h).2, m.thread, [], bearing m.tasks⟩ :=
    Relation.ReflTransGen.trans arisen (changes.passes m.thread [] (bearing m.tasks)).moves
  have reported := arisenThen.reported
  rw [journal] at reported
  have holds : lineTold t r (told ++ m.world.journal) = some h := reported.head.mp line
  rcases attaches with rfl | ⟨_, label, ticket, rfl⟩
  · exact cold ((arisen.lineOf_eq r (Table.contains_iff.mpr ⟨registry, live⟩) t).trans holds)
  · have empty : lineTold t r ([.lineAttached t r label ticket] ++ m.world.journal) = none :=
      if_pos ⟨rfl, rfl⟩
    cases empty.symm.trans holds

theorem Reached.nextLookup (reached : m.Reached hashing) {t : ThreadId} {r : RegistryId}
    {registry : Registry} (runs : m.world.Runs t) (live : m.world.registries.find? r = some registry)
    (h : Handle) : m.world.NextLookup t r registry h := by
  have arisen := reached.arises
  have lined : m.world.Lined := arisen.lined
  refine ⟨fun holds => ?_, fun cold free => ?_, fun cold held => ?_⟩
  · obtain ⟨memo, b, found, remembers, stored⟩ := arisen.mapped_of_lineOf live holds
    have kept : (m.world.thread t).memosGone = false := arisen.kept_of_memo found
    refine ⟨b, stored, ⟨_, World.lookUp_remembered kept found remembers, rfl, rfl⟩, fun depth => ?_⟩
    have same : (m.world.setThread t { m.world.thread t with depth }).thread t
        = { m.world.thread t with depth } := by
      rw [World.thread_put_self (w := m.world) rfl]
    have remembersThen : (m.world.setThread t { m.world.thread t with depth }).remembered? memo h
        = some b := remembers
    exact ⟨_, World.lookUp_remembered (by rw [same]; exact kept) (by rw [same]; exact found)
      remembersThen, rfl, rfl⟩
  · rcases (World.lookUp_spec runs (World.map?_of_find? live) h).2 lined with ⟨held, _⟩ | found
    · exact absurd free held
    · refine ⟨found, ?_⟩
      obtain ⟨told, attaches, ⟨⟨cause, refused⟩, _⟩ | ⟨_, route, result, journal, direct⟩⟩ :=
        World.lookUp_journal m.world t r h
      · cases refused.symm.trans found
      · rw [found] at result
        cases result
        have missed := reached.route_of_cold runs live cold attaches journal
        exact ⟨told, route, journal, attaches, missed, direct⟩
  · obtain ⟨thread, refused, _⟩ := World.lookUp_held runs held (reached.arises.cold_memo live cold)
    rw [refused]
    exact ⟨rfl, rfl, rfl⟩

/-! What does not change a line. -/

-- A lookup touches no line but that of its thread in its registry.
theorem Reached.lineOf_lookUp (reached : m.Reached hashing) {t u : ThreadId} {r r' : RegistryId}
    {registry : Registry} (runs : m.world.Runs u)
    (live : m.world.registries.find? r' = some registry) (h : Handle) (apart : t ≠ u ∨ r ≠ r') :
    (m.world.lookUp u r' h).2.lineOf t r = m.world.lineOf t r := by
  have changes := (World.lookUp_spec runs (World.map?_of_find? live) h).1
  have contains : (m.world.lookUp u r' h).2.registries.contains r = m.world.registries.contains r := by
    rw [World.contains_registries, World.contains_registries, changes.maps]
  cases there : m.world.registries.contains r with
  | false =>
    rw [World.lineOf_of_absent (Table.not_contains_iff.mp (contains.trans there)),
      World.lineOf_of_absent (Table.not_contains_iff.mp there)]
  | true =>
    have other : ∀ {v : ThreadId} {q : RegistryId}, v = u → q = r' → ¬(v = t ∧ q = r) := by
      rintro v q rfl rfl ⟨rfl, rfl⟩
      exact apart.elim (absurd rfl) (absurd rfl)
    have silent : ∃ told, (m.world.lookUp u r' h).2.journal = told ++ m.world.journal ∧
        ∀ e ∈ told, e.writes t r = false ∧ ∀ h, e.removes r h = false := by
      obtain ⟨told, attaches, rest⟩ := World.lookUp_journal m.world u r' h
      have first : ∀ e ∈ told, e.writes t r = false ∧ ∀ h, e.removes r h = false := by
        rcases attaches with rfl | ⟨_, label, line, rfl⟩
        · exact List.forall_mem_nil _
        · intro e listed
          rw [List.mem_singleton.mp listed]
          exact ⟨decide_eq_false (other rfl rfl), fun _ => rfl⟩
      rcases rest with ⟨_, journal⟩ | ⟨found, route, _, journal, _⟩
      · exact ⟨told, journal, first⟩
      · refine ⟨.lookedUp u r' h found route :: told, journal, List.forall_mem_cons.mpr ⟨?_, first⟩⟩
        exact ⟨decide_eq_false fun all => other rfl rfl ⟨all.1, all.2.1⟩, fun _ => rfl⟩
    obtain ⟨told, journal, silent⟩ := silent
    have moves : Scene.Moves m.scene ⟨(m.world.lookUp u r' h).2, m.thread, [], bearing m.tasks⟩ :=
      (changes.passes m.thread [] (bearing m.tasks)).moves
    exact reached.arises.lineOf_of_silent moves journal there (contains.trans there)
      (fun e listed => (silent e listed).1) fun h _ e listed => (silent e listed).2 h

-- What a destroy does to lines, and what it reports: if it removes a registration, it clears the
-- lines that held the handle and counts their threads; if it fails, it clears none.
structure Scrubs (w : World) (name : Name) (outcome : Outcome) : Prop where
  done : outcome.answer = .done → ∃ (g : Guard) (threads : List ThreadId),
    w.states.find? name = some g ∧ threads.Nodup ∧
    (∀ t, t ∈ threads ↔ w.lineOf t g.registry = some g.handle) ∧
    outcome.world.journal
      = .stateRemoved g.registry g.entry g.block g.handle threads.length :: w.journal ∧
    ∀ t r, outcome.world.lineOf t r
      = if g.registry = r ∧ w.lineOf t r = some g.handle then none else w.lineOf t r
  failed : outcome.answer ≠ .done → ∀ t r, outcome.world.lineOf t r = w.lineOf t r

theorem Reached.scrubs (reached : m.Reached hashing) {u : ThreadId} (runs : m.world.Runs u)
    (name : Name) : Scrubs m.world name (m.world.destroy u name) := by
  have arisen := reached.arises
  unfold World.destroy
  cases named : m.world.states.find? name with
  | none => exact ⟨nofun, fun _ _ _ => rfl⟩
  | some g =>
    have owns : g ∈ m.scene.guards := Scene.mem_guards.mpr (.inl ⟨name, Table.mem_of_find? named⟩)
    obtain ⟨registry, contexts, live, removed⟩ := World.remove?_of_guard arisen owns
    have lived : m.world.registries.find? g.registry = some registry := live
    simp only
    by_cases free : (m.world.thread u).depth = 0
    · rw [World.giveUp_free (w := { m.world with states := m.world.states.erase name }) runs free lived
        removed]
      refine ⟨fun _ => ⟨g, m.world.threadsHolding g.registry g.handle, named,
        World.nodup_threadsHolding arisen.tidy, fun t => World.mem_threadsHolding, ?_, fun t r => ?_⟩,
        fun failed => absurd rfl failed⟩
      · have counted : registry.holding g.handle = (m.world.threadsHolding g.registry g.handle).length :=
          arisen.tended.holding arisen.lined arisen.tidy lived g.handle
        rw [← counted]
        rfl
      · exact World.lineOf_scrubbed (by rfl) lived (by rfl) t r
    · rw [World.giveUp_held (w := { m.world with states := m.world.states.erase name }) free]
      exact ⟨nofun, fun _ _ _ => rfl⟩

-- The steps by which a creation is begun, goes on to its next factory, gets what a factory made, and
-- registers its block.  A factory that copies a value looks it up, which is a lookup of its own.
def creates : Task → Bool
  | .perform _ (.create ..) | .construct _ => true
  | .make _ f => match f.source with
    | .copied .. => false
    | _ => true
  | _ => false

-- What a step of a creation tells: it writes no line, and what it removes is what it registered.
theorem Reached.creates_journal (reached : m.Reached hashing) {task : Task} {rest : List Task}
    (tasks : m.tasks = task :: rest) (creation : creates task = true) :
    ∃ told, m.step.world.journal = told ++ m.world.journal ∧
      ∀ e ∈ told, (∀ t r, e.writes t r = false) ∧
        ∀ r h, e.removes r h = true → mapped r h m.world.journal = none := by
  have stepped := congrArg (fun after : Machine => after.world.journal) (step_of_cons tasks)
  have single : ∀ {e : Event}, (∀ t r, e.writes t r = false) → (∀ r h, e.removes r h = false) →
      ∀ e' ∈ [e], (∀ t r, e'.writes t r = false) ∧
        ∀ r h, e'.removes r h = true → mapped r h m.world.journal = none := by
    intro e unwritten kept
    refine List.forall_mem_singleton.mpr ⟨unwritten, fun r h removed => ?_⟩
    cases (kept r h).symm.trans removed
  cases task with
  | perform nested action =>
    cases action with
    | create creation supplies =>
      refine ⟨[], stepped.trans ?_, List.forall_mem_nil _⟩
      simp only [World.take, World.perform]
      split
      · rename_i begun
        rw [World.beginCreation_error begun]
        rfl
      · rename_i begun
        rw [(World.beginCreation_site begun).1]
        rfl
    | operate | whileLocked => cases creation
  | make site f =>
    have own : ∀ registry address key addend, f.source ≠ .copied registry address key addend := by
      intro registry address key addend copied
      simp [creates, copied] at creation
    rcases World.make_journal m.world m.thread site own with same | ⟨object, made⟩
    · exact ⟨[], stepped.trans same, List.forall_mem_nil _⟩
    · exact ⟨[.objectMade site.block f.slot object], stepped.trans made,
        single (fun _ _ => rfl) fun _ _ => rfl⟩
  | construct site =>
    cases pending : site.pending with
    | cons f later =>
      refine ⟨[.factoryStarted site.block f.slot site.handle], stepped.trans ?_,
        single (fun _ _ => rfl) fun _ _ => rfl⟩
      simp only [World.take, World.construct, pending]
      rfl
    | nil =>
      simp only [World.take, World.construct, pending] at stepped
      rcases World.register_journal m.world m.thread site with same | ⟨later, entry, slots, told, after⟩
      · exact ⟨[], stepped.trans same, List.forall_mem_nil _⟩
      · -- What the step removes it has registered itself, so the handle had no block before.
        have journal := stepped.trans told
        have free : mapped site.registry site.handle m.world.journal = none :=
          reached.step.arises.reported _ _ _ journal
        refine ⟨later ++ [.stateCreated site.registry entry site.block site.handle slots], ?_, ?_⟩
        · rw [journal, List.append_assoc]
          rfl
        · refine List.forall_mem_append.mpr ⟨fun e listed => ⟨(after e listed).1, ?_⟩,
            single (fun _ _ => rfl) fun _ _ => rfl⟩
          rintro r h removes
          obtain ⟨rfl, rfl⟩ := (after e listed).2 r h removes
          exact free
  | _ => cases creation

theorem Reached.lineOf_creates (reached : m.Reached hashing) {task : Task} {rest : List Task}
    (tasks : m.tasks = task :: rest) (creation : creates task = true) {t : ThreadId} {r : RegistryId}
    (there : m.world.registries.contains r = true)
    (still : m.step.world.registries.contains r = true) :
    m.step.world.lineOf t r = m.world.lineOf t r := by
  have arisen := reached.arises
  obtain ⟨told, journal, silent⟩ := reached.creates_journal tasks creation
  refine arisen.lineOf_of_silent (reached.steady.step arisen).1 journal there still
    (fun e listed => (silent e listed).1 t r) fun h holds e listed => ?_
  cases removes : e.removes r h with
  | false => rfl
  | true =>
    obtain ⟨registry, live⟩ := Table.contains_iff.mp there
    obtain ⟨_, b, _, _, has⟩ := arisen.mapped_of_lineOf live holds
    rw [arisen.recorded _ _ (World.map?_of_find? live)] at has
    cases has.symm.trans ((silent e listed).2 r h removes)

/-! What lines hold. -/

-- What the lines of a machine's world hold, what becomes of them, and what is reported of them.
structure LinesExact (m : Machine) : Prop where
  -- A memo of a registry names a line that its thread added.  The line holds a handle just when the
  -- last lookup through it found the handle and the block that was found has not been removed since.
  -- A lookup that is refused is not told of.
  history : ∀ t, ∀ memo ∈ (m.world.thread t).memos, ∀ registry,
    m.world.registries.find? memo.registry = some registry →
    ∃ since, Since m.world.journal t memo since ∧ ∀ h,
      (registry.lineHolds memo.line h = true ↔ m.world.lineOf t memo.registry = some h) ∧
      (m.world.lineOf t memo.registry = some h ↔ ∃ later earlier b route,
        since = later ++ .lookedUp t memo.registry h (some b) route :: earlier ∧ route ≠ .direct ∧
        (∀ e ∈ later, e.consults t memo.registry = false) ∧
        ∀ entry scrubbed, .stateRemoved memo.registry entry b h scrubbed ∉ later)
  told : ∀ r, m.world.registries.contains r = true → ∀ t,
    m.world.lineOf t r = lineTold t r m.world.journal
  -- The line says what the next lookup does, and has said so for each lookup that was made.
  next : ∀ t, m.world.Runs t → ∀ r registry, m.world.registries.find? r = some registry →
    ∀ h, m.world.NextLookup t r registry h
  routes : ∀ later t r h found route earlier,
    m.world.journal = later ++ .lookedUp t r h found route :: earlier →
    (route = .line ↔ lineTold t r earlier = some h)
  -- A line stays as it is as long as its thread does not write it and the handle that it holds is not
  -- removed.
  kept : ∀ after, Later m after → ∀ told, after.world.journal = told ++ m.world.journal →
    ∀ t r, m.world.registries.contains r = true → after.world.registries.contains r = true →
    (∀ e ∈ told, e.writes t r = false) →
    (∀ h, m.world.lineOf t r = some h → ∀ e ∈ told, e.removes r h = false) →
    after.world.lineOf t r = m.world.lineOf t r
  lookups : ∀ u, m.world.Runs u → ∀ r', m.world.registries.contains r' = true → ∀ h t r,
    t ≠ u ∨ r ≠ r' → (m.world.lookUp u r' h).2.lineOf t r = m.world.lineOf t r
  creations : ∀ task rest, m.tasks = task :: rest → creates task = true → ∀ t r,
    m.world.registries.contains r = true → m.step.world.registries.contains r = true →
    m.step.world.lineOf t r = m.world.lineOf t r
  destroys : ∀ u, m.world.Runs u → ∀ name, Scrubs m.world name (m.world.destroy u name)
  -- So it was for each removal: the threads that were counted are those whose line held the handle.
  scrubs : ∀ later r entry b h scrubbed earlier,
    m.world.journal = later ++ .stateRemoved r entry b h scrubbed :: earlier →
    ∃ threads : List ThreadId, threads.Nodup ∧ (∀ t, t ∈ threads ↔ lineTold t r earlier = some h) ∧
      scrubbed = threads.length

theorem lines_exact (reached : m.Reached hashing) : LinesExact m := by
  have arisen := reached.arises
  have lined : m.world.Lined := arisen.lined
  have reported : Reported m.world.journal := arisen.reported
  have truthful : Truthful m.world.journal := Scene.Arises.truthful arisen
  refine
    { history := fun t memo known registry live => ?_
      told := arisen.lineOf_eq
      next := fun t runs r registry live h => reached.nextLookup runs live h
      routes := fun later t r h found route earlier split => reported _ _ _ split
      kept := fun after later told journal t r there still unwritten kept => ?_
      lookups := fun u runs r' there h t r apart => ?_
      creations := fun task rest tasks creation t r there still =>
        reached.lineOf_creates tasks creation there still
      destroys := fun u runs name => reached.scrubs runs name
      scrubs := fun later r entry b h scrubbed earlier split => (reported _ _ _ split).2 }
  · obtain ⟨since, age⟩ := Scene.Arises.dated arisen t memo known
    refine ⟨since, age, fun h => ⟨lined.lineHolds_iff known live, ?_⟩⟩
    have told : m.world.lineOf t memo.registry = lineTold t memo.registry m.world.journal :=
      arisen.lineOf_eq _ (Table.contains_iff.mpr ⟨registry, live⟩) t
    rw [told]
    exact age.lineTold_eq_some_iff reported truthful
  · exact arisen.lineOf_of_silent (later.moves reached) journal there still unwritten kept
  · obtain ⟨registry, live⟩ := Table.contains_iff.mp there
    exact reached.lineOf_lookUp runs live h apart

/-! A session in which a context is retrieved, and then retrieved again under a lock. -/

def retrieves : Action := .operate (.retrieve ⟨globalName, 64, false, none, none⟩)

def looked : Machine := created.told (.act .main retrieves) 3

def looksAgain : Machine := looked.told (.act .main (.whileLocked globalName [retrieves])) 1

-- The thread holds a lock, and the line answers.
theorem lines_exact_looksAgain : ∃ h b, LinesExact looksAgain ∧
    (looksAgain.world.thread .main).depth = 1 ∧
    looksAgain.world.lineOf .main globalRegistry = some h ∧
    looksAgain.world.AnswersFromLine .main globalRegistry h b := by
  have lookedLater : Later created looked := later_told rfl (by trivial) 3
  have later : Later created looksAgain := lookedLater.trans (later_told rfl (by trivial) 1)
  have exact := lines_exact (created_reached.on later)
  have holds : looksAgain.world.lineOf .main globalRegistry = some ⟨64, by decide⟩ := rfl
  obtain ⟨b, _, answers, _⟩ := (exact.next .main ⟨_, rfl⟩ globalRegistry _ rfl _).warm holds
  exact ⟨⟨64, by decide⟩, b, exact, rfl, holds, answers⟩

end Machine

end AttachedState
