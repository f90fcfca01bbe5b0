import AttachedState.Proofs.Owners

/-!
Lines and memos.  What a thread resolved last is kept in two halves: the handle in a line of the
registry, where whoever removes the context can clear it, and the block in the thread's own memo.
The halves never part: a line that holds a handle stands for the block that the map has for it.
-/

namespace AttachedState

theorem Thread.registries_setMemo (thread : Thread) (memo : Memo) :
    (thread.setMemo memo).memos.map (·.registry) = thread.memos.map (·.registry) := by
  unfold Thread.setMemo
  rw [List.map_map]
  apply List.map_congr_left
  intro earlier _
  simp only [Function.comp]
  split
  · rename_i here
    exact here.symm
  · rfl

namespace World

structure Lined (w : World) : Prop where
  arenas : ∀ r registry, w.registries.find? r = some registry → registry.lines.Valid
  once : ∀ t, ((w.thread t).memos.map (·.registry)).Nodup
  filed : ∀ t, ∀ memo ∈ (w.thread t).memos, ∀ registry,
    w.registries.find? memo.registry = some registry → ∃ line, registry.lines.get? memo.line = some line
  apart : ∀ t u, ∀ memo ∈ (w.thread t).memos, ∀ other ∈ (w.thread u).memos, ∀ registry,
    w.registries.find? memo.registry = some registry → memo.registry = other.registry →
    memo.line = other.line → t = u
  faithful : ∀ t, ∀ memo ∈ (w.thread t).memos, ∀ registry,
    w.registries.find? memo.registry = some registry → ∀ h,
    registry.lines.get? memo.line = some (some h) →
    ∃ b, memo.block = some b ∧ registry.contexts.get? h = some b

theorem lined_start (hashing : RegistryId → Handle → UInt64) : (start hashing).Lined := by
  have memos : ∀ t, ((start hashing).thread t).memos = [] := by
    intro t
    simp only [start, World.thread, Table.find?_put, Table.find?_empty]
    split <;> rfl
  refine ⟨?_, ?_, ?_, ?_, ?_⟩
  · intro r registry live
    simp only [start, Table.find?_put, Table.find?_empty] at live
    split at live <;> cases live
    exact Arena.valid_empty
  · intro t
    rw [memos]
    exact List.nodup_nil
  · intro t memo known
    rw [memos] at known
    cases known
  · intro t u memo known
    rw [memos] at known
    cases known
  · intro t memo known
    rw [memos] at known
    cases known

namespace Lined

variable {w after : World} {t : ThreadId} {thread : Thread} {memo : Memo} {r : RegistryId}
  {registry changed : Registry}

-- A thread has one memo of a registry at most.
theorem memo_unique (lined : w.Lined) {other : Memo} (known : memo ∈ (w.thread t).memos)
    (knownToo : other ∈ (w.thread t).memos) (same : memo.registry = other.registry) : memo = other :=
  List.inj_on_of_nodup_map (lined.once t) known knownToo same

-- Threads may forget, and registries may go.
theorem fewer (lined : w.Lined)
    (registries : ∀ r registry, after.registries.find? r = some registry →
      w.registries.find? r = some registry)
    (memos : ∀ t, (after.thread t).memos.Sublist (w.thread t).memos) : after.Lined := by
  refine ⟨?_, ?_, ?_, ?_, ?_⟩
  · exact fun r registry live => lined.arenas r registry (registries r registry live)
  · exact fun t => (lined.once t).sublist ((memos t).map _)
  · exact fun t memo known registry live =>
      lined.filed t memo ((memos t).subset known) registry (registries _ _ live)
  · exact fun t u memo known other knownToo registry live =>
      lined.apart t u memo ((memos t).subset known) other ((memos u).subset knownToo) registry
        (registries _ _ live)
  · exact fun t memo known registry live =>
      lined.faithful t memo ((memos t).subset known) registry (registries _ _ live)

theorem find?_before (put : after.registries = w.registries.put r changed)
    (live : w.registries.find? r = some registry) {other : RegistryId} {present : Registry}
    (found : after.registries.find? other = some present) :
    ∃ old, w.registries.find? other = some old := by
  rw [put, Table.find?_put] at found
  split at found
  · rename_i here
    exact ⟨registry, by rw [here, live]⟩
  · exact ⟨present, found⟩

theorem arenas_put (lined : w.Lined) (put : after.registries = w.registries.put r changed)
    (valid : changed.lines.Valid) (other : RegistryId) (present : Registry)
    (found : after.registries.find? other = some present) : present.lines.Valid := by
  rw [put, Table.find?_put] at found
  split at found
  · cases found
    exact valid
  · exact lined.arenas other present found

-- A registry may change as long as no line is taken away or filled, and no handle that a line still
-- holds is given another block.
theorem altered (lined : w.Lined) (put : after.registries = w.registries.put r changed)
    (live : w.registries.find? r = some registry)
    (memos : ∀ t, (after.thread t).memos = (w.thread t).memos) (valid : changed.lines.Valid)
    (filed : ∀ ticket line, registry.lines.get? ticket = some line →
      ∃ line, changed.lines.get? ticket = some line)
    (faithful : ∀ ticket h, changed.lines.get? ticket = some (some h) →
      registry.lines.get? ticket = some (some h) ∧
      ∀ b, registry.contexts.get? h = some b → changed.contexts.get? h = some b) : after.Lined := by
  have find : ∀ other, after.registries.find? other
      = if other = r then some changed else w.registries.find? other := by
    intro other
    rw [put, Table.find?_put]
  refine ⟨lined.arenas_put put valid, ?_, ?_, ?_, ?_⟩
  · intro t
    rw [memos]
    exact lined.once t
  · intro t memo known present found
    rw [memos] at known
    rw [find] at found
    split at found
    · rename_i here
      cases found
      obtain ⟨line, was⟩ := lined.filed t memo known registry (by rw [here, live])
      exact filed _ line was
    · exact lined.filed t memo known present found
  · intro t u memo known other knownToo present found
    rw [memos] at known knownToo
    obtain ⟨old, was⟩ := find?_before put live found
    exact lined.apart t u memo known other knownToo old was
  · intro t memo known present found h holds
    rw [memos] at known
    rw [find] at found
    split at found
    · rename_i here
      cases found
      obtain ⟨held, kept⟩ := faithful _ h holds
      obtain ⟨b, block, was⟩ := lined.faithful t memo known registry (by rw [here, live]) h held
      exact ⟨b, block, kept b was⟩
    · exact lined.faithful t memo known present found h holds

theorem reheld (lined : w.Lined) {holder : Option ThreadId}
    (put : after.registries = w.registries.put r { registry with holder })
    (live : w.registries.find? r = some registry)
    (memos : ∀ t, (after.thread t).memos = (w.thread t).memos) : after.Lined :=
  lined.altered put live memos (lined.arenas r registry live) (fun _ line was => ⟨line, was⟩)
    fun _ _ holds => ⟨holds, fun _ was => was⟩

theorem opened (lined : w.Lined) (put : after.registries = w.registries.put r changed)
    (memos : ∀ t, (after.thread t).memos = (w.thread t).memos) (empty : changed.lines = .empty)
    (new : ∀ t, ∀ memo ∈ (w.thread t).memos, memo.registry ≠ r) : after.Lined := by
  have find : ∀ {other : RegistryId} {present : Registry}, other ≠ r →
      after.registries.find? other = some present → w.registries.find? other = some present := by
    intro other present elsewhere found
    rwa [put, Table.find?_put, if_neg elsewhere] at found
  have valid : changed.lines.Valid := by
    rw [empty]
    exact Arena.valid_empty
  refine ⟨lined.arenas_put put valid, ?_, ?_, ?_, ?_⟩
  · intro t
    rw [memos]
    exact lined.once t
  · intro t memo known present found
    rw [memos] at known
    exact lined.filed t memo known present (find (new t memo known) found)
  · intro t u memo known other knownToo present found
    rw [memos] at known knownToo
    exact lined.apart t u memo known other knownToo present (find (new t memo known) found)
  · intro t memo known present found
    rw [memos] at known
    exact lined.faithful t memo known present (find (new t memo known) found)

-- One line of a registry is written, added or given up, and the one memo that knows it.
theorem rewritten (lined : w.Lined) (t : ThreadId) (new : Memo)
    (put : after.registries = w.registries.put r changed)
    (live : w.registries.find? r = some registry) (valid : changed.lines.Valid)
    (contexts : changed.contexts = registry.contexts)
    (lines : ∀ line, line ≠ new.line → changed.lines.get? line = registry.lines.get? line)
    (once : ∀ u, ((after.thread u).memos.map (·.registry)).Nodup)
    (memos : ∀ u, ∀ memo ∈ (after.thread u).memos,
      (memo ∈ (w.thread u).memos ∧ (memo.registry = r → memo.line ≠ new.line)) ∨
      (u = t ∧ memo = new ∧ new.registry = r ∧ ∃ line, changed.lines.get? new.line = some line ∧
        ∀ h, line = some h → ∃ b, new.block = some b ∧ registry.contexts.get? h = some b)) :
    after.Lined := by
  have find : ∀ other, after.registries.find? other
      = if other = r then some changed else w.registries.find? other := by
    intro other
    rw [put, Table.find?_put]
  refine ⟨lined.arenas_put put valid, once, ?_, ?_, ?_⟩
  · intro u memo known present found
    rw [find] at found
    rcases memos u memo known with ⟨earlier, apart⟩ | ⟨_, rfl, here, line, stored, _⟩
    · split at found
      · rename_i here
        cases found
        obtain ⟨line, was⟩ := lined.filed u memo earlier registry (by rw [here, live])
        exact ⟨line, (lines _ (apart here)).trans was⟩
      · exact lined.filed u memo earlier present found
    · rw [if_pos here] at found
      cases found
      exact ⟨line, stored⟩
  · intro u v memo known other knownToo present found same line
    obtain ⟨old, was⟩ := find?_before put live found
    rcases memos u memo known with ⟨one, apart⟩ | ⟨atOne, rfl, here, _⟩ <;>
      rcases memos v other knownToo with ⟨two, apartToo⟩ | ⟨atTwo, rfl, hereToo, _⟩
    · exact lined.apart u v memo one other two old was same line
    · exact absurd line (apart (same.trans hereToo))
    · exact absurd line.symm (apartToo (same.symm.trans here))
    · rw [atOne, atTwo]
  · intro u memo known present found h holds
    rw [find] at found
    rcases memos u memo known with ⟨earlier, apart⟩ | ⟨_, rfl, here, line, stored, faithful⟩
    · split at found
      · rename_i here
        cases found
        rw [lines _ (apart here)] at holds
        rw [contexts]
        exact lined.faithful u memo earlier registry (by rw [here, live]) h holds
      · exact lined.faithful u memo earlier present found h holds
    · rw [if_pos here] at found
      cases found
      rw [contexts]
      exact faithful h (Option.some.inj (stored.symm.trans holds))

-- The line that a thread adds is nobody's yet.
theorem attached (lined : w.Lined) (runs : w.threads.find? t = some thread)
    (live : w.registries.find? r = some registry) (new : thread.memo? r = none)
    (put : after.registries = w.registries.put r { registry.attach.2 with holder := none })
    (threads : after.threads = w.threads.put t
      { thread with memos := thread.memos ++ [⟨r, registry.attach.1, none⟩] }) : after.Lined := by
  have valid := lined.arenas r registry live
  have lines := Arena.get?_insert valid (none : Line)
  have fresh := Arena.get?_insert_fresh valid (none : Line)
  have old : w.thread t = thread := thread_of_find? runs
  have unknown : ∀ memo ∈ thread.memos, memo.registry ≠ r := by
    intro memo known
    have absent := List.find?_eq_none.mp new memo known
    simpa using absent
  -- An old memo's line was there before, so it is not the new one.
  have elsewhere : ∀ {u : ThreadId} {memo : Memo}, memo ∈ (w.thread u).memos → memo.registry = r →
      memo.line ≠ registry.attach.1 := by
    intro u memo known same here
    obtain ⟨line, was⟩ := lined.filed u memo known registry (by rw [same, live])
    rw [here] at was
    cases fresh.symm.trans was
  apply lined.rewritten t ⟨r, registry.attach.1, none⟩ put live (Arena.valid_insert valid none) rfl
  · intro line other
    exact (lines line).trans (if_neg other)
  · intro u
    rw [thread_put threads]
    split
    · have once := lined.once t
      rw [old] at once
      rw [List.map_append, List.nodup_append]
      refine ⟨once, List.nodup_singleton _, ?_⟩
      intro a listed b last
      obtain ⟨memo, known, rfl⟩ := List.mem_map.mp listed
      rw [List.map_cons, List.map_nil, List.mem_singleton] at last
      rw [last]
      exact unknown memo known
    · exact lined.once u
  · intro u memo known
    rw [thread_put threads] at known
    split at known
    · rename_i here
      rcases List.mem_append.mp known with earlier | last
      · have mine : memo ∈ (w.thread u).memos := by rwa [here, old]
        exact .inl ⟨mine, elsewhere mine⟩
      · refine .inr ⟨here, List.mem_singleton.mp last, rfl, none, (lines _).trans (if_pos rfl), ?_⟩
        intro h filled
        cases filled
    · exact .inl ⟨known, elsewhere known⟩

theorem line_ne (lined : w.Lined) (mine : memo ∈ (w.thread t).memos)
    (live : w.registries.find? memo.registry = some registry) {u : ThreadId} {other : Memo}
    (listed : other ∈ (w.thread u).memos) (differs : u = t → other.registry ≠ memo.registry)
    (same : other.registry = memo.registry) : other.line ≠ memo.line := by
  intro line
  have here := lined.apart u t other listed memo mine registry (by rw [same, live]) same line
  exact differs here same

-- A lookup in the map writes both halves anew.
theorem resolved (lined : w.Lined) {h : Handle} (runs : w.threads.find? t = some thread)
    (known : memo ∈ thread.memos) (live : w.registries.find? memo.registry = some registry)
    (put : after.registries = w.registries.put memo.registry
      { (registry.resolve memo.line h).2 with holder := none })
    (threads : after.threads = w.threads.put t
      (thread.setMemo { memo with block := registry.contexts.get? h })) : after.Lined := by
  have old : w.thread t = thread := thread_of_find? runs
  have mine : memo ∈ (w.thread t).memos := by rwa [old]
  obtain ⟨line, filed⟩ := lined.filed t memo mine registry live
  have lines := Arena.get?_replace filed ((registry.contexts.get? h).map fun _ => h)
  apply lined.rewritten t { memo with block := registry.contexts.get? h } put live
    (Arena.valid_replace (lined.arenas _ registry live) _ _) rfl
  · intro line other
    exact (lines line).trans (if_neg other)
  · intro u
    rw [thread_put threads]
    split
    · rw [Thread.registries_setMemo, ← old]
      exact lined.once t
    · exact lined.once u
  · intro u new there
    rw [thread_put threads] at there
    split at there
    · rename_i here
      obtain ⟨earlier, listed, rfl⟩ := List.mem_map.mp there
      split
      · refine .inr ⟨here, rfl, rfl, _, (lines _).trans (if_pos rfl), ?_⟩
        intro h' written
        obtain ⟨b, stored, rfl⟩ := Option.map_eq_some_iff.mp written
        exact ⟨b, stored, stored⟩
      · rename_i other
        have before : earlier ∈ (w.thread u).memos := by rwa [here, old]
        exact .inl ⟨before, lined.line_ne mine live before fun _ => other⟩
    · rename_i apart
      exact .inl ⟨there, lined.line_ne mine live there fun same => absurd same apart⟩

theorem detached (lined : w.Lined) {rest : List Memo} (runs : w.threads.find? t = some thread)
    (memos : thread.memos = memo :: rest) (live : w.registries.find? memo.registry = some registry)
    (put : after.registries = w.registries.put memo.registry
      { registry.detach memo.line with holder := none })
    (threads : after.threads = w.threads.put t { thread with memos := rest }) : after.Lined := by
  have old : w.thread t = thread := thread_of_find? runs
  have mine : memo ∈ (w.thread t).memos := by rw [old, memos]; exact List.mem_cons_self
  have once := lined.once t
  rw [old, memos, List.map_cons, List.nodup_cons] at once
  obtain ⟨line, filed⟩ := lined.filed t memo mine registry live
  obtain ⟨left, removed⟩ := Arena.remove?_of_get? filed
  have detach : registry.detach memo.line = { registry with lines := left } := by
    unfold Registry.detach
    rw [removed]
  rw [detach] at put
  apply lined.rewritten t memo put live
    (Arena.valid_remove (lined.arenas _ registry live) removed) rfl
  · intro line other
    exact (Arena.get?_remove removed line).trans (if_neg other)
  · intro u
    rw [thread_put threads]
    split
    · exact once.2
    · exact lined.once u
  · intro u other listed
    rw [thread_put threads] at listed
    split at listed
    · rename_i here
      have before : other ∈ (w.thread u).memos := by
        rw [here, old, memos]
        exact List.mem_cons_of_mem _ listed
      refine .inl ⟨before, lined.line_ne mine live before fun _ same => once.1 ?_⟩
      rw [← same]
      exact List.mem_map_of_mem listed
    · rename_i apart
      exact .inl ⟨listed, lined.line_ne mine live listed fun same => absurd same apart⟩

-- A thread may change in whatever is not a new memo.
theorem put (lined : w.Lined) {new : Thread} (registries : after.registries = w.registries)
    (threads : after.threads = w.threads.put t new)
    (fewer : new.memos.Sublist (w.thread t).memos) : after.Lined := by
  refine lined.fewer (fun r registry live => by rwa [registries] at live) ?_
  intro u
  rw [thread_put threads]
  split
  · rename_i here
    rw [here]
    exact fewer
  · exact List.Sublist.refl _

end Lined

end World

theorem Quiet.lined {w after : World} (lined : w.Lined) (change : Quiet w after) : after.Lined := by
  cases change with
  | noted | filed | hit | direct => exact lined.fewer (fun _ _ live => live) fun _ => List.Sublist.refl _
  | started => exact lined.put rfl rfl (List.nil_sublist _)
  | looked runs =>
    refine lined.put rfl rfl ?_
    rw [World.thread_of_find? runs, Thread.noteLookup_memos]
  | left runs | gone runs =>
    refine lined.put rfl rfl ?_
    rw [World.thread_of_find? runs]
  | pruned runs =>
    refine lined.put rfl rfl ?_
    rw [World.thread_of_find? runs]
    exact List.filter_sublist
  | forgot runs memos =>
    refine lined.put rfl rfl ?_
    rw [World.thread_of_find? runs, memos]
    exact List.sublist_cons_self _ _
  | asked live => exact lined.reheld rfl live fun _ => rfl
  | attached runs free live new => exact lined.attached runs live new (by rfl) (by rfl)
  | resolved runs free known live => exact lined.resolved runs known live (by rfl) (by rfl)
  | detached runs free memos live => exact lined.detached runs memos live (by rfl) (by rfl)

theorem Registry.get?_scrub (registry : Registry) (h : Handle) (ticket : Ticket) :
    (registry.scrub h).lines.get? ticket
      = (registry.lines.get? ticket).map fun line => if line = some h then none else line :=
  Arena.get?_map _ _

theorem Move.lined {s s' : Scene} (numbered : s.Numbered) (owned : s.Owned) (lined : s.world.Lined)
    (move : Move s s') : s'.world.Lined := by
  cases move with
  | turned | shared | unnamed | retained | spared | held | unheld | released | fell | begun | tried
  | made | abandoned | entitled | disowned | orphaned | dropped =>
    exact lined.fewer (fun _ _ live => live) fun _ => List.Sublist.refl _
  | quiet change => exact change.lined lined
  | ended runs =>
    refine lined.fewer (fun _ _ live => live) fun t => ?_
    rw [World.thread_erase (by rfl)]
    split
    · exact List.nil_sublist _
    · exact List.Sublist.refl _
  | locked runs free live | unlocked first runs live =>
    refine lined.reheld rfl live fun t => ?_
    rw [World.thread_put rfl]
    split
    · rename_i here
      rw [here, World.thread_of_find? runs]
    · rfl
  | opened new =>
    refine lined.opened (by rfl) (fun _ => rfl) rfl ?_
    intro t memo known same
    have old := numbered.memos t memo known
    rw [same] at old
    exact Nat.lt_irrefl _ old
  | closed r registry rest first last live =>
    refine lined.fewer (fun other present found => ?_) fun _ => List.Sublist.refl _
    simp only [Table.find?_erase] at found
    split at found
    · cases found
    · exact found
  | enrolled site registry entry contexts rest first live inserted =>
    have valid := owned.valid _ _ (World.map?_of_find? live)
    refine lined.altered rfl live (fun _ => rfl) (lined.arenas site.registry registry live)
      (fun _ line was => ⟨line, was⟩) fun ticket h holds => ⟨holds, fun b was => ?_⟩
    -- The handle that is registered had no block before.
    show contexts.get? h = some b
    rw [HandleMap.get?_insert valid inserted, if_neg]
    · exact was
    · intro same
      rw [same, HandleMap.get?_fresh valid inserted] at was
      cases was
  | withdrawn g registry contexts front back before after hands tasks live removed =>
    have valid := owned.valid _ _ (World.map?_of_find? live)
    refine lined.altered rfl live (fun _ => rfl)
      (Arena.valid_map (lined.arenas g.registry registry live) _) (fun ticket line was => ?_)
      fun ticket h holds => ?_
    · exact ⟨_, by simp only [Registry.get?_scrub, was]; rfl⟩
    · simp only [Registry.get?_scrub, Option.map_eq_some_iff] at holds
      obtain ⟨line, was, kept⟩ := holds
      split at kept
      · cases kept
      · rename_i other
        subst kept
        refine ⟨was, fun b stored => ?_⟩
        show contexts.get? h = some b
        rw [HandleMap.get?_remove valid removed, if_neg]
        · exact stored
        · intro same
          exact other (congrArg some same)

theorem Scene.Arises.lined {hashing : RegistryId → Handle → UInt64} {s : Scene}
    (arisen : Arises hashing s) : s.world.Lined := by
  induction arisen with
  | refl => exact World.lined_start hashing
  | tail before move ih => exact move.lined (Arises.numbered before) (Arises.owned before) ih

end AttachedState
