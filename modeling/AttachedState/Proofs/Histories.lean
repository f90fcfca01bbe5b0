import AttachedState.Proofs.Passes

/-!
Histories of lines.  What a thread's line holds can be read off the journal: a lookup through the line
writes it anew, and a removal clears it if it held the handle that lost its block.
-/

namespace AttachedState

namespace Event

variable {t : ThreadId} {r : RegistryId} {e : Event} {line : Line}

-- The events in which a thread writes its line of a registry: it gets the line, looks something up
-- through it, or gives it up.
def writes (t : ThreadId) (r : RegistryId) : Event → Bool
  | lookedUp thread registry _ _ route => thread = t ∧ registry = r ∧ route ≠ .direct
  | lineAttached thread registry _ _ | lineDetached thread registry _ => thread = t ∧ registry = r
  | _ => false

-- The events in which a handle loses its block in a registry.
def removes (r : RegistryId) (h : Handle) : Event → Bool
  | stateRemoved registry _ _ handle _ => registry = r ∧ handle = h
  | _ => false

-- What becomes of a thread's line of a registry when an event is told.
def relines (t : ThreadId) (r : RegistryId) : Event → Line → Line
  | lookedUp thread registry h found route, line =>
    if thread = t ∧ registry = r ∧ route ≠ .direct then found.map fun _ => h else line
  | lineAttached thread registry _ _, line | lineDetached thread registry _, line =>
    if thread = t ∧ registry = r then none else line
  | stateRemoved registry _ _ h _, line => if registry = r ∧ line = some h then none else line
  | _, line => line

-- A line changes only if its thread writes it or the handle that it holds is removed.
theorem relines_of_silent (unwritten : e.writes t r = false)
    (kept : ∀ h, line = some h → e.removes r h = false) : e.relines t r line = line := by
  cases e with
  | lookedUp | lineAttached | lineDetached =>
    simp only [writes, decide_eq_false_iff_not] at unwritten
    simp only [relines, if_neg unwritten]
  | stateRemoved registry entry b h scrubbed =>
    simp only [relines]
    rw [if_neg]
    rintro ⟨here, held⟩
    have apart := kept h held
    simp [removes, here] at apart
  | _ => rfl

theorem relines_eq_some {h : Handle} (unwritten : e.writes t r = false)
    (holds : e.relines t r line = some h) : line = some h ∧ e.removes r h = false := by
  cases e with
  | lookedUp | lineAttached | lineDetached =>
    simp only [writes, decide_eq_false_iff_not] at unwritten
    simp only [relines, if_neg unwritten] at holds
    exact ⟨holds, rfl⟩
  | stateRemoved registry entry b handle scrubbed =>
    simp only [relines] at holds
    split at holds
    · cases holds
    · rename_i other
      refine ⟨holds, decide_eq_false fun both => other ⟨both.1, ?_⟩⟩
      rw [holds, both.2]
  | _ => exact ⟨holds, rfl⟩

theorem writes_of_aside (aside : e.aside = true) : e.writes t r = false := by
  cases e <;> first | rfl | cases aside

theorem removes_of_aside {h : Handle} (aside : e.aside = true) : e.removes r h = false := by
  cases e <;> first | rfl | cases aside

end Event

-- A thread's line of a registry as a journal tells it.
def lineTold (t : ThreadId) (r : RegistryId) (journal : List Event) : Line :=
  journal.foldr (Event.relines t r) none

theorem lineTold_append (t : ThreadId) (r : RegistryId) (told earlier : List Event) :
    lineTold t r (told ++ earlier) = told.foldr (Event.relines t r) (lineTold t r earlier) :=
  List.foldr_append

-- What is not told of leaves the line as it was.
theorem lineTold_append_of_silent {t : ThreadId} {r : RegistryId} {told earlier : List Event}
    (unwritten : ∀ e ∈ told, e.writes t r = false)
    (kept : ∀ h, lineTold t r earlier = some h → ∀ e ∈ told, e.removes r h = false) :
    lineTold t r (told ++ earlier) = lineTold t r earlier := by
  induction told with
  | nil => rfl
  | cons e rest ih =>
    have same := ih (fun e listed => unwritten e (List.mem_cons_of_mem _ listed))
      fun h held e listed => kept h held e (List.mem_cons_of_mem _ listed)
    have first : lineTold t r (e :: rest ++ earlier) = e.relines t r (lineTold t r (rest ++ earlier)) := rfl
    rw [first, same]
    exact Event.relines_of_silent (unwritten e List.mem_cons_self)
      fun h held => kept h held e List.mem_cons_self

-- A line that holds a handle holds what its thread found last.
theorem lookedUp_of_lineTold {t : ThreadId} {r : RegistryId} {h : Handle} {journal : List Event}
    (holds : lineTold t r journal = some h) : ∃ later earlier b route,
      journal = later ++ .lookedUp t r h (some b) route :: earlier ∧ route ≠ .direct ∧
      ∀ e ∈ later, e.writes t r = false ∧ e.removes r h = false := by
  induction journal with
  | nil => cases holds
  | cons e rest ih =>
    have now : e.relines t r (lineTold t r rest) = some h := holds
    cases written : e.writes t r with
    | false =>
      obtain ⟨before, kept⟩ := Event.relines_eq_some written now
      obtain ⟨later, earlier, b, route, rfl, cached, silent⟩ := ih before
      exact ⟨e :: later, earlier, b, route, rfl, cached,
        List.forall_mem_cons.mpr ⟨⟨written, kept⟩, silent⟩⟩
    | true =>
      cases e with
      | lookedUp thread registry handle found route =>
        simp only [Event.writes, decide_eq_true_eq] at written
        simp only [Event.relines, if_pos written, Option.map_eq_some_iff] at now
        obtain ⟨rfl, rfl, cached⟩ := written
        obtain ⟨b, rfl, rfl⟩ := now
        exact ⟨[], rest, b, route, rfl, cached, List.forall_mem_nil _⟩
      | lineAttached | lineDetached =>
        simp only [Event.writes, decide_eq_true_eq] at written
        simp only [Event.relines, if_pos written] at now
        cases now
      | _ => cases written

/-! Lines. -/

namespace Thread

variable {thread : Thread} {memo : Memo} {r : RegistryId}

theorem memo?_registry (found : thread.memo? r = some memo) : memo.registry = r := by
  simpa using List.find?_some found

theorem memo?_congr {other : Thread} (same : other.memos = thread.memos) (r : RegistryId) :
    other.memo? r = thread.memo? r := by
  unfold memo?
  rw [same]

theorem memo?_setMemo (thread : Thread) (memo : Memo) (r : RegistryId) :
    (thread.setMemo memo).memo? r
      = if r = memo.registry then (thread.memo? r).map fun _ => memo else thread.memo? r := by
  unfold memo? setMemo
  simp only [List.find?_map]
  have same : ((fun other : Memo => decide (other.registry = r)) ∘
      fun old => if old.registry = memo.registry then memo else old)
      = fun old => decide (old.registry = r) := by
    funext old
    simp only [Function.comp]
    split
    · rename_i here
      rw [here]
    · rfl
  rw [same]
  cases found : thread.memos.find? fun old => decide (old.registry = r) with
  | none => simp
  | some old =>
    have here : old.registry = r := by simpa using List.find?_some found
    simp only [Option.map_some, here]
    split <;> rfl

end Thread

namespace World

variable {w after : World} {t u : ThreadId} {r r₀ : RegistryId} {registry changed : Registry}
  {new : Thread} {memo : Memo} {h : Handle}

-- A thread comes, goes or changes, and every thread keeps its memos.
theorem memos_put (threads : after.threads = w.threads.put u new)
    (kept : new.memos = (w.thread u).memos) (t : ThreadId) :
    (after.thread t).memos = (w.thread t).memos := by
  rw [thread_put threads]
  split
  · rename_i here
    rw [here, kept]
  · rfl

theorem memos_erase {thread : Thread} (threads : after.threads = w.threads.erase u)
    (runs : w.threads.find? u = some thread) (empty : thread.memos = []) (t : ThreadId) :
    (after.thread t).memos = (w.thread t).memos := by
  rw [thread_erase threads]
  split
  · rename_i here
    rw [here, thread_of_find? runs, empty]
    rfl
  · rfl

-- What a thread's line of a registry holds; nothing if there is no such line.
def lineOf (w : World) (t : ThreadId) (r : RegistryId) : Line :=
  (w.registries.find? r).bind fun registry =>
    ((w.thread t).memo? r).bind fun memo => (registry.lines.get? memo.line).join

theorem lineOf_of_find? (live : w.registries.find? r = some registry) : w.lineOf t r
    = ((w.thread t).memo? r).bind fun memo => (registry.lines.get? memo.line).join := by
  unfold lineOf
  rw [live, Option.bind_some]

theorem lineOf_of_absent (absent : w.registries.find? r = none) : w.lineOf t r = none := by
  unfold lineOf
  rw [absent, Option.bind_none]

theorem lineOf_of_forgotten (unknown : (w.thread t).memo? r = none) : w.lineOf t r = none := by
  unfold lineOf
  rw [unknown]
  cases w.registries.find? r <;> rfl

theorem Lined.memo?_eq (lined : w.Lined) (known : memo ∈ (w.thread t).memos) :
    (w.thread t).memo? memo.registry = some memo := by
  cases found : (w.thread t).memo? memo.registry with
  | none => simpa using List.find?_eq_none.mp found memo known
  | some other =>
    rw [lined.memo_unique (List.mem_of_find?_eq_some found) known (Thread.memo?_registry found)]

theorem Lined.lineOf_eq (lined : w.Lined) (known : memo ∈ (w.thread t).memos)
    (live : w.registries.find? memo.registry = some registry) :
    w.lineOf t memo.registry = (registry.lines.get? memo.line).join := by
  rw [lineOf_of_find? live, lined.memo?_eq known, Option.bind_some]

theorem Lined.lineHolds_iff (lined : w.Lined) (known : memo ∈ (w.thread t).memos)
    (live : w.registries.find? memo.registry = some registry) :
    registry.lineHolds memo.line h = true ↔ w.lineOf t memo.registry = some h := by
  rw [lined.lineOf_eq known live, Option.join_eq_some_iff]
  simp [Registry.lineHolds]

theorem lineOf_congr (registries : after.registries = w.registries)
    (memo? : (after.thread t).memo? r = (w.thread t).memo? r) : after.lineOf t r = w.lineOf t r := by
  unfold lineOf
  rw [registries, memo?]

-- A registry may change in whatever is not a line.
theorem lineOf_put (put : after.registries = w.registries.put r₀ changed)
    (live : w.registries.find? r₀ = some registry) (lines : changed.lines = registry.lines)
    (memo? : (after.thread t).memo? r = (w.thread t).memo? r) : after.lineOf t r = w.lineOf t r := by
  unfold lineOf
  rw [put, memo?, Table.find?_put]
  split
  · rename_i here
    rw [here, live, Option.bind_some, Option.bind_some, lines]
  · rfl

-- A registry that is opened has no lines.
theorem lineOf_opened (put : after.registries = w.registries.put r₀ changed)
    (empty : changed.lines = .empty) (absent : w.registries.find? r₀ = none)
    (threads : after.threads = w.threads) : after.lineOf t r = w.lineOf t r := by
  unfold lineOf thread
  rw [put, threads, Table.find?_put]
  split
  · rename_i here
    rw [here, absent, Option.bind_none, Option.bind_some, empty]
    cases ((w.threads.find? t).getD .fresh).memo? r₀ with
    | none => rfl
    | some memo => rw [Option.bind_some, Arena.get?_empty]; rfl
  · rfl

-- One thread's line of one registry is written.
theorem lineOf_rewritten {line : Line} (put : after.registries = w.registries.put r₀ changed)
    (threads : after.threads = w.threads.put u new)
    (live : w.registries.find? r₀ = some registry)
    (mine : ((new.memo? r₀).bind fun memo => (changed.lines.get? memo.line).join) = line)
    (elsewhere : ∀ r, r ≠ r₀ → new.memo? r = (w.thread u).memo? r)
    (others : ∀ t, t ≠ u → ∀ memo ∈ (w.thread t).memos, memo.registry = r₀ →
      changed.lines.get? memo.line = registry.lines.get? memo.line) (t : ThreadId) (r : RegistryId) :
    after.lineOf t r = if u = t ∧ r₀ = r then line else w.lineOf t r := by
  unfold lineOf
  rw [put, thread_put threads, Table.find?_put]
  by_cases here : r = r₀
  · subst here
    rw [if_pos rfl, Option.bind_some]
    by_cases same : t = u
    · rw [if_pos same, if_pos ⟨same.symm, rfl⟩, mine]
    · rw [if_neg same, if_neg (fun both => same both.1.symm), live, Option.bind_some]
      cases found : (w.thread t).memo? r with
      | none => rfl
      | some memo =>
        have known : memo ∈ (w.thread t).memos := List.mem_of_find?_eq_some found
        simp only [Option.bind_some, others t same memo known (Thread.memo?_registry found)]
  · rw [if_neg here, if_neg (show ¬(u = t ∧ r₀ = r) from fun both => here both.2.symm)]
    split
    · rename_i same
      rw [same, elsewhere r here]
    · rfl

-- The line that a thread adds is empty.
theorem lineOf_attached {thread : Thread} (lined : w.Lined) (runs : w.threads.find? u = some thread)
    (live : w.registries.find? r₀ = some registry) (unknown : thread.memo? r₀ = none)
    (put : after.registries = w.registries.put r₀ { registry.attach.2 with holder := none })
    (threads : after.threads = w.threads.put u
      { thread with memos := thread.memos ++ [⟨r₀, registry.attach.1, none⟩] })
    (t : ThreadId) (r : RegistryId) :
    after.lineOf t r = if u = t ∧ r₀ = r then none else w.lineOf t r := by
  have valid := lined.arenas r₀ registry live
  have lines := Arena.get?_insert valid (none : Line)
  have mine : ∀ r, ({ thread with memos := thread.memos ++ [⟨r₀, registry.attach.1, none⟩] } :
      Thread).memo? r
        = (thread.memo? r).or (if r₀ = r then some ⟨r₀, registry.attach.1, none⟩ else none) := by
    intro r
    simp [Thread.memo?, List.find?_append, List.find?_cons]
    split <;> simp_all
  refine lineOf_rewritten put threads live ?_ (fun r elsewhere => ?_) (fun t other memo known here => ?_) t r
  · rw [mine, unknown, if_pos rfl, Option.none_or, Option.bind_some]
    show (registry.attach.2.lines.get? registry.attach.1).join = none
    have stored : registry.attach.2.lines.get? registry.attach.1 = some none :=
      Arena.get?_insert_self valid none
    rw [stored]
    rfl
  · rw [mine, if_neg (Ne.symm elsewhere), Option.or_none, thread_of_find? runs]
  · obtain ⟨line, was⟩ := lined.filed t memo known registry (by rw [here, live])
    refine (lines _).trans (if_neg fun same => ?_)
    rw [same, Arena.get?_insert_fresh valid] at was
    cases was

-- A lookup in the map writes the line of its thread.
theorem lineOf_resolved {thread : Thread} (lined : w.Lined) (runs : w.threads.find? u = some thread)
    (known : memo ∈ thread.memos) (live : w.registries.find? memo.registry = some registry)
    (put : after.registries = w.registries.put memo.registry
      { (registry.resolve memo.line h).2 with holder := none })
    (threads : after.threads = w.threads.put u
      (thread.setMemo { memo with block := registry.contexts.get? h })) (t : ThreadId) (r : RegistryId) :
    after.lineOf t r = if u = t ∧ memo.registry = r then (registry.contexts.get? h).map fun _ => h
      else w.lineOf t r := by
  have mine : memo ∈ (w.thread u).memos := by rwa [thread_of_find? runs]
  obtain ⟨line, filed⟩ := lined.filed u memo mine registry live
  have lines := Arena.get?_replace filed ((registry.contexts.get? h).map fun _ => h)
  have found := lined.memo?_eq mine
  rw [thread_of_find? runs] at found
  refine lineOf_rewritten put threads live ?_ (fun r elsewhere => ?_) (fun t other memo' there here => ?_) t r
  · rw [Thread.memo?_setMemo, if_pos rfl, found, Option.map_some, Option.bind_some]
    have written := (lines memo.line).trans (if_pos rfl)
    simp only [Registry.resolve, written]
    rfl
  · rw [Thread.memo?_setMemo, if_neg elsewhere, thread_of_find? runs]
  · exact (lines _).trans (if_neg (lined.line_ne mine live there (fun same => absurd same other) here))

-- A line that is given up is no thread's any more.
theorem lineOf_detached {thread : Thread} {rest : List Memo} (lined : w.Lined)
    (runs : w.threads.find? u = some thread) (memos : thread.memos = memo :: rest)
    (live : w.registries.find? memo.registry = some registry)
    (put : after.registries = w.registries.put memo.registry
      { registry.detach memo.line with holder := none })
    (threads : after.threads = w.threads.put u { thread with memos := rest }) (t : ThreadId)
    (r : RegistryId) :
    after.lineOf t r = if u = t ∧ memo.registry = r then none else w.lineOf t r := by
  have old : w.thread u = thread := thread_of_find? runs
  have mine : memo ∈ (w.thread u).memos := by rw [old, memos]; exact List.mem_cons_self
  have once := lined.once u
  rw [old, memos, List.map_cons, List.nodup_cons] at once
  obtain ⟨line, filed⟩ := lined.filed u memo mine registry live
  obtain ⟨left, removed⟩ := Arena.remove?_of_get? filed
  have detach : registry.detach memo.line = { registry with lines := left } := by
    unfold Registry.detach
    rw [removed]
  rw [detach] at put
  refine lineOf_rewritten put threads live ?_ (fun r elsewhere => ?_) (fun t other memo' there here => ?_) t r
  · have gone : ({ thread with memos := rest } : Thread).memo? memo.registry = none := by
      refine List.find?_eq_none.mpr fun other listed same => once.1 ?_
      rw [← of_decide_eq_true same]
      exact List.mem_map_of_mem listed
    rw [gone, Option.bind_none]
  · unfold Thread.memo?
    rw [old, memos, List.find?_cons_of_neg (by simpa using Ne.symm elsewhere)]
  · exact (Arena.get?_remove removed _).trans
      (if_neg (lined.line_ne mine live there (fun same => absurd same other) here))

-- A removal clears the lines that hold the handle.
theorem lineOf_scrubbed {contexts : HandleMap BlockId} {holder : Option ThreadId}
    (put : after.registries = w.registries.put r₀
      { ({ registry with contexts }).scrub h with holder })
    (live : w.registries.find? r₀ = some registry) (threads : after.threads = w.threads)
    (t : ThreadId) (r : RegistryId) :
    after.lineOf t r = if r₀ = r ∧ w.lineOf t r = some h then none else w.lineOf t r := by
  have same : after.thread t = w.thread t := by
    unfold thread
    rw [threads]
  by_cases here : r₀ = r
  · subst here
    have now := (lineOf_of_find? (w := after) (t := t) (r := r₀) (by rw [put, Table.find?_put_self]))
    rw [now, lineOf_of_find? live, same]
    cases (w.thread t).memo? r₀ with
    | none => simp
    | some memo =>
      have cleared := Registry.get?_scrub { registry with contexts } h memo.line
      simp only [Option.bind_some, cleared]
      cases registry.lines.get? memo.line with
      | none => simp
      | some line => by_cases held : line = some h <;> simp [held]
  · rw [if_neg (fun both => here both.1)]
    unfold lineOf
    rw [put, Table.find?_put, if_neg (Ne.symm here), same]

end World

/-! Moves. -/

open World in
theorem Quiet.lines {w after : World} (lined : w.Lined) (change : Quiet w after) :
    ∃ told, after.journal = told ++ w.journal ∧ ∀ r, w.registries.contains r = true → ∀ t,
      after.lineOf t r = told.foldr (Event.relines t r) (w.lineOf t r) := by
  have still : ∀ {u : ThreadId} {thread new : Thread} {r : RegistryId} (t : ThreadId),
      w.threads.find? u = some thread → new.memo? r = thread.memo? r →
      ((w.setThread u new).thread t).memo? r = (w.thread t).memo? r := by
    intro u thread new r t runs same
    rw [thread_put (w := w) rfl]
    split
    · rename_i here
      rw [here, thread_of_find? runs, same]
    · rfl
  cases change with
  | @noted _ e aside =>
    refine ⟨[e], rfl, fun r _ t => (Event.relines_of_silent (Event.writes_of_aside aside) ?_).symm⟩
    exact fun h _ => Event.removes_of_aside aside
  | filed => exact ⟨[], rfl, fun _ _ _ => rfl⟩
  | @started _ u absent =>
    refine ⟨[], rfl, fun r _ t => lineOf_congr rfl (Thread.memo?_congr (memos_put rfl ?_ t) r)⟩
    rw [thread_of_absent absent]
  | looked runs =>
    refine ⟨[], rfl, fun r _ t => lineOf_congr rfl (still t runs ?_)⟩
    exact Thread.memo?_congr (Thread.noteLookup_memos _) r
  | left runs => exact ⟨[], rfl, fun r _ t => lineOf_congr rfl (still t runs rfl)⟩
  | gone runs memos => exact ⟨[], rfl, fun r _ t => lineOf_congr rfl (still t runs rfl)⟩
  | pruned runs =>
    refine ⟨[], rfl, fun r live t => lineOf_congr rfl (still t runs ?_)⟩
    unfold Thread.memo?
    rw [List.find?_filter]
    congr 1
    funext memo
    by_cases here : memo.registry = r <;> simp [here, live]
  | forgot runs memos gone =>
    rename_i thread memo rest u
    refine ⟨[], rfl, fun r live t => lineOf_congr rfl (still t runs ?_)⟩
    have apart : memo.registry ≠ r := by
      intro here
      rw [here] at gone
      rw [Table.contains, gone] at live
      cases live
    unfold Thread.memo?
    rw [memos, List.find?_cons_of_neg (by simpa using apart)]
  | asked live => exact ⟨[], rfl, fun r _ t => lineOf_put rfl live rfl rfl⟩
  | direct =>
    refine ⟨[_], rfl, fun r _ t => ?_⟩
    show _ = if _ then _ else _
    rw [if_neg (fun both => both.2.2 rfl)]
    rfl
  | hit runs known live holds block present =>
    rename_i thread memo registry b u h
    refine ⟨[_], rfl, fun r _ t => ?_⟩
    show _ = if _ then _ else _
    split
    · rename_i here
      obtain ⟨rfl, rfl, _⟩ := here
      have mine : memo ∈ (w.thread u).memos := by rwa [thread_of_find? runs]
      exact (lined.lineHolds_iff mine live).mp holds
    · rfl
  | attached runs free live new kept =>
    exact ⟨[_], rfl, fun r _ t => lineOf_attached lined runs live new rfl rfl t r⟩
  | resolved runs free known live cold =>
    refine ⟨[_], rfl, fun r _ t => (lineOf_resolved lined runs known live rfl rfl t r).trans ?_⟩
    exact if_congr ⟨fun both => ⟨both.1, both.2, by decide⟩, fun all => ⟨all.1, all.2.1⟩⟩ rfl rfl
  | detached runs free memos live =>
    exact ⟨[_], rfl, fun r _ t => lineOf_detached lined runs memos live rfl rfl t r⟩

-- A line of a registry that is still there changes as the journal tells.
theorem Move.lines {s s' : Scene} (numbered : s.Numbered) (lined : s.world.Lined) (move : Move s s') :
    ∃ told, s'.world.journal = told ++ s.world.journal ∧
      ∀ r, s'.world.registries.contains r = true → ∀ t,
        s'.world.lineOf t r = told.foldr (Event.relines t r) (s.world.lineOf t r) := by
  cases move with
  | turned | shared | unnamed | retained | spared | held | unheld | released | fell | begun | abandoned
  | entitled | disowned => exact ⟨[], rfl, fun _ _ _ => rfl⟩
  | tried | made | orphaned | dropped => exact ⟨[_], rfl, fun _ _ _ => rfl⟩
  | quiet change =>
    obtain ⟨told, journal, lines⟩ := change.lines lined
    refine ⟨told, journal, fun r there t => lines r ?_ t⟩
    rw [World.contains_registries, ← change.same.maps, ← World.contains_registries]
    exact there
  | ended runs free memos =>
    refine ⟨[_], rfl, fun r _ t => World.lineOf_congr rfl ?_⟩
    exact Thread.memo?_congr (World.memos_erase rfl runs memos t) r
  | locked runs free live | unlocked first runs live =>
    refine ⟨[], rfl, fun r _ t => World.lineOf_put rfl live rfl ?_⟩
    exact Thread.memo?_congr (World.memos_put rfl (by rw [World.thread_of_find? runs]) t) r
  | enrolled site registry entry contexts rest first live =>
    exact ⟨[_], rfl, fun r _ t => World.lineOf_put rfl live rfl rfl⟩
  | opened new =>
    refine ⟨[], rfl, fun r _ t => World.lineOf_opened (by rfl) (by rfl) ?_ (by rfl)⟩
    cases found : s.world.registries.find? ⟨s.world.next⟩ with
    | none => rfl
    | some registry =>
      exact absurd (numbered.registries _ _ (World.map?_of_find? found)) (Nat.lt_irrefl _)
  | closed r registry rest first last live =>
    refine ⟨[], rfl, fun other there t => ?_⟩
    have apart : other ≠ r := by
      intro here
      rw [Table.contains, here, Table.find?_erase, if_pos rfl] at there
      cases there
    show World.lineOf _ t other = _
    unfold World.lineOf
    rw [Table.find?_erase, if_neg apart]
    rfl
  | withdrawn g registry contexts front back before after hands tasks live removed =>
    refine ⟨[_], rfl, fun r _ t => ?_⟩
    exact World.lineOf_scrubbed (by rfl) live (by rfl) t r

-- A line holds what the journal tells of it.
theorem Scene.Arises.lineOf_eq {hashing : RegistryId → Handle → UInt64} {s : Scene}
    (arisen : Arises hashing s) : ∀ r, s.world.registries.contains r = true → ∀ t,
      s.world.lineOf t r = lineTold t r s.world.journal := by
  induction arisen with
  | refl =>
    intro r _ t
    refine World.lineOf_of_forgotten ?_
    simp only [start, World.start, World.thread, Table.find?_put, Table.find?_empty]
    split <;> rfl
  | @tail s s' before move ih =>
    intro r there t
    have numbered := Arises.numbered before
    obtain ⟨told, journal, lines⟩ := move.lines numbered (Arises.lined before)
    have old : s.world.lineOf t r = lineTold t r s.world.journal := by
      by_cases live : s.world.registries.contains r = true
      · exact ih r live t
      · -- The registry was opened just now, so no event tells of it.
        have absent := Table.not_contains_iff.mp (by simpa using live)
        obtain ⟨registry, found⟩ := Table.contains_iff.mp there
        rw [World.lineOf_of_absent absent]
        rcases move.maps (World.map?_of_find? found) with ⟨contexts, earlier⟩ | ⟨fresh, _⟩
        · rw [World.map?, absent] at earlier
          cases earlier
        · cases holds : lineTold t r s.world.journal with
          | none => rfl
          | some h =>
            obtain ⟨later, earlier, b, route, split, _⟩ := lookedUp_of_lineTold holds
            have less := numbered.journal (.lookedUp t r h (some b) route)
              (by rw [split]; exact List.mem_append_right _ List.mem_cons_self) r.number
              (by simp [Event.numbers])
            rw [fresh] at less
            exact absurd less (Nat.lt_irrefl _)
    rw [lines r there t, journal, lineTold_append, old]

end AttachedState
