import AttachedState.Proofs.Histories

/-!
What a removal scrubs.  Every line of a registry is the line of some thread, and no two threads have
one line.  So the lines that hold a handle are as many as the threads whose line holds it.
-/

namespace AttachedState

/-! Storage. -/

namespace Arena

variable {α : Type} (a : Arena α)

theorem nodup_toList : a.toList.Nodup := by
  have offsets : (a.cells.zipIdx.map Prod.snd).Nodup := by
    rw [List.zipIdx_map_snd]
    exact List.nodup_range'
  refine List.Nodup.filterMap ?_ (List.Nodup.of_map _ offsets)
  rintro ⟨one, offset⟩ ⟨two, other⟩ ⟨ticket, value⟩ here there
  simp only [Option.mem_def, Option.map_eq_some_iff, Prod.mk.injEq] at here there
  obtain ⟨_, held, rfl, rfl⟩ := here
  obtain ⟨_, heldToo, same, rfl⟩ := there
  obtain ⟨version, content⟩ := one
  obtain ⟨version', content'⟩ := two
  simp only [Ticket.mk.injEq, Nat.add_right_cancel_iff] at held heldToo same
  obtain ⟨rfl, rfl⟩ := same
  rw [held, heldToo]

-- A ticket is good for one value.
theorem nodup_tickets : (a.toList.map Prod.fst).Nodup := by
  refine List.Nodup.map_on ?_ a.nodup_toList
  rintro ⟨ticket, one⟩ listed ⟨other, two⟩ listedToo same
  simp only at same
  subst same
  have here := mem_toList.mp listed
  rw [mem_toList.mp listedToo] at here
  rw [Option.some.inj here]

theorem count_eq (p : α → Bool) : a.count p = (a.toList.filter fun row => p row.2).length := by
  have counted : ∀ (cells : List (Cell α)) (offset : Nat),
      cells.countP (·.content.any p) = (((cells.zipIdx offset).filterMap fun place =>
        place.1.content.map fun value => ((⟨place.2 + 1, place.1.version⟩ : Ticket), value)).filter
          fun row => p row.2).length := by
    intro cells
    induction cells with
    | nil => exact fun _ => rfl
    | cons cell rest ih =>
      intro offset
      cases held : cell.content with
      | none => simpa [held] using ih (offset + 1)
      | some value => by_cases here : p value = true <;> simpa [held, here] using ih (offset + 1)
  exact counted a.cells 0

end Arena

/-! Lines. -/

namespace World

variable {w after : World} {t u : ThreadId} {r r₀ : RegistryId} {registry changed : Registry} {h : Handle}

-- A registry that is there has a line under the ticket.
def HasLine (w : World) (r : RegistryId) (ticket : Ticket) : Prop :=
  ∃ registry line, w.registries.find? r = some registry ∧ registry.lines.get? ticket = some line

-- Every line of a registry is known to a thread.
def Tended (w : World) : Prop :=
  ∀ r ticket, w.HasLine r ticket →
    ∃ t, ∃ memo ∈ (w.thread t).memos, memo.registry = r ∧ memo.line = ticket

theorem tended_start (hashing : RegistryId → Handle → UInt64) : (start hashing).Tended := by
  rintro r ticket ⟨registry, line, live, stored⟩
  simp only [start, Table.find?_put, Table.find?_empty] at live
  split at live <;> cases live
  cases (Arena.get?_empty ticket).symm.trans stored

-- Nobody may forget a line that is still there, and no line may come that nobody has.
theorem Tended.kept (tended : w.Tended)
    (lines : ∀ r ticket, after.HasLine r ticket → w.HasLine r ticket ∨
      ∃ t, ∃ memo ∈ (after.thread t).memos, memo.registry = r ∧ memo.line = ticket)
    (memos : ∀ t, ∀ memo ∈ (w.thread t).memos, after.HasLine memo.registry memo.line →
      ∃ still ∈ (after.thread t).memos, still.registry = memo.registry ∧ still.line = memo.line) :
    after.Tended := by
  intro r ticket there
  rcases lines r ticket there with before | now
  · obtain ⟨t, memo, known, rfl, rfl⟩ := tended r ticket before
    obtain ⟨still, knownStill, same, sameLine⟩ := memos t memo known there
    exact ⟨t, still, knownStill, same, sameLine⟩
  · exact now

-- There may be fewer lines if no thread forgets.
theorem Tended.fewer (tended : w.Tended)
    (lines : ∀ r ticket, after.HasLine r ticket → w.HasLine r ticket)
    (memos : ∀ t, (after.thread t).memos = (w.thread t).memos) : after.Tended :=
  tended.kept (fun r ticket there => .inl (lines r ticket there))
    fun t memo known _ => ⟨memo, by rwa [memos], rfl, rfl⟩

theorem hasLine_of_put (put : after.registries = w.registries.put r₀ changed)
    (live : w.registries.find? r₀ = some registry)
    (lines : ∀ ticket line, changed.lines.get? ticket = some line →
      ∃ was, registry.lines.get? ticket = some was) (r : RegistryId) (ticket : Ticket)
    (there : after.HasLine r ticket) : w.HasLine r ticket := by
  obtain ⟨present, line, found, stored⟩ := there
  rw [put, Table.find?_put] at found
  split at found
  · rename_i here
    cases found
    obtain ⟨was, before⟩ := lines ticket line stored
    exact ⟨registry, was, by rw [here, live], before⟩
  · exact ⟨present, line, found, stored⟩

-- A thread is given a new line.
theorem tended_attached {thread : Thread} (tended : w.Tended) (valid : registry.lines.Valid)
    (runs : w.threads.find? u = some thread) (live : w.registries.find? r₀ = some registry)
    (put : after.registries = w.registries.put r₀ { registry.attach.2 with holder := none })
    (threads : after.threads = w.threads.put u
      { thread with memos := thread.memos ++ [⟨r₀, registry.attach.1, none⟩] }) : after.Tended := by
  have still : ∀ t, ∀ memo ∈ (w.thread t).memos, memo ∈ (after.thread t).memos := by
    intro t memo known
    rw [thread_put threads]
    split
    · rename_i here
      rw [here, thread_of_find? runs] at known
      exact List.mem_append_left _ known
    · exact known
  refine tended.kept ?_ fun t memo known _ => ⟨memo, still t memo known, rfl, rfl⟩
  rintro r ticket ⟨present, line, found, stored⟩
  rw [put, Table.find?_put] at found
  split at found
  · rename_i here
    cases found
    have lines : registry.attach.2.lines.get? ticket
        = if ticket = registry.attach.1 then some none else registry.lines.get? ticket :=
      Arena.get?_insert valid (none : Line) ticket
    rw [lines] at stored
    split at stored
    · rename_i new
      refine .inr ⟨u, ⟨r₀, registry.attach.1, none⟩, ?_, here.symm, new.symm⟩
      rw [thread_put threads, if_pos rfl]
      exact List.mem_append_right _ (List.mem_singleton.mpr rfl)
    · exact .inl ⟨registry, line, by rw [here, live], stored⟩
  · exact .inl ⟨present, line, found, stored⟩

-- A lookup in the map writes a line and a memo, and leaves the memo with its line.
theorem tended_resolved {thread : Thread} {memo : Memo} {line : Line} {block : Option BlockId}
    (tended : w.Tended) (runs : w.threads.find? u = some thread)
    (live : w.registries.find? memo.registry = some registry)
    (filed : registry.lines.get? memo.line = some line)
    (put : after.registries = w.registries.put memo.registry
      { (registry.resolve memo.line h).2 with holder := none })
    (threads : after.threads = w.threads.put u (thread.setMemo { memo with block }))
    (known : memo ∈ thread.memos) (once : (thread.memos.map (·.registry)).Nodup) : after.Tended := by
  have kept : ∀ ticket new, (registry.resolve memo.line h).2.lines.get? ticket = some new →
      ∃ was, registry.lines.get? ticket = some was := by
    intro ticket new stored
    have lines := Arena.get?_replace filed ((registry.contexts.get? h).map fun _ => h) ticket
    simp only [Registry.resolve, lines] at stored
    split at stored
    · rename_i here
      exact ⟨line, by rw [here, filed]⟩
    · exact ⟨new, stored⟩
  refine tended.kept (fun r ticket there => .inl (hasLine_of_put put live kept r ticket there))
    fun t other there _ => ?_
  rw [thread_put threads]
  split
  · rename_i here
    rw [here, thread_of_find? runs] at there
    refine ⟨_, List.mem_map_of_mem there, ?_⟩
    split
    · rename_i same
      rw [List.inj_on_of_nodup_map once there known same]
      exact ⟨rfl, rfl⟩
    · exact ⟨rfl, rfl⟩
  · exact ⟨other, there, rfl, rfl⟩

-- A line that is given up goes with its memo.
theorem tended_detached {thread : Thread} {memo : Memo} {rest : List Memo} {line : Line}
    (tended : w.Tended) (runs : w.threads.find? u = some thread) (memos : thread.memos = memo :: rest)
    (live : w.registries.find? memo.registry = some registry)
    (filed : registry.lines.get? memo.line = some line)
    (put : after.registries = w.registries.put memo.registry
      { registry.detach memo.line with holder := none })
    (threads : after.threads = w.threads.put u { thread with memos := rest }) : after.Tended := by
  obtain ⟨left, removed⟩ := Arena.remove?_of_get? filed
  have detach : registry.detach memo.line = { registry with lines := left } := by
    unfold Registry.detach
    rw [removed]
  rw [detach] at put
  have lines := Arena.get?_remove removed
  have kept : ∀ ticket new, left.get? ticket = some new →
      ∃ was, registry.lines.get? ticket = some was := by
    intro ticket new stored
    rw [lines] at stored
    split at stored
    · cases stored
    · exact ⟨new, stored⟩
  refine tended.kept (fun r ticket there => .inl (hasLine_of_put put live kept r ticket there)) ?_
  rintro t other there ⟨present, held, found, stored⟩
  refine ⟨other, ?_, rfl, rfl⟩
  rw [thread_put threads]
  split
  · rename_i here
    rw [here, thread_of_find? runs, memos] at there
    rcases List.mem_cons.mp there with rfl | behind
    · -- Its line is gone.
      rw [put, Table.find?_put_self] at found
      cases found
      rw [lines, if_pos rfl] at stored
      cases stored
    · exact behind
  · exact there

-- The threads whose line of a registry holds a handle.
def threadsHolding (w : World) (r : RegistryId) (h : Handle) : List ThreadId :=
  (w.threads.rows.map Prod.fst).filter fun t => w.lineOf t r = some h

theorem lineOf_eq_some (live : w.registries.find? r = some registry) : w.lineOf t r = some h ↔
    ∃ memo, (w.thread t).memo? r = some memo ∧ registry.lines.get? memo.line = some (some h) := by
  rw [lineOf_of_find? live, Option.bind_eq_some_iff]
  simp only [Option.join_eq_some_iff]

theorem mem_threadsHolding : t ∈ w.threadsHolding r h ↔ w.lineOf t r = some h := by
  simp only [threadsHolding, List.mem_filter, decide_eq_true_eq, and_iff_right_iff_imp]
  intro holds
  cases runs : w.threads.find? t with
  | none =>
    have unknown : (w.thread t).memo? r = none := by
      rw [thread_of_absent runs]
      rfl
    cases (lineOf_of_forgotten unknown).symm.trans holds
  | some thread => exact List.mem_map.mpr ⟨(t, thread), Table.mem_of_find? runs, rfl⟩

theorem nodup_threadsHolding (tidy : w.Tidy) : (w.threadsHolding r h).Nodup :=
  List.Nodup.filter _ tidy.threads

-- Each thread whose line is of some sort has one of the lines of this sort, and each such line has a
-- thread.
theorem Tended.perm (tended : w.Tended) (lined : w.Lined) (live : w.registries.find? r = some registry)
    {p : Line → Bool} {threads : List ThreadId} (nodup : threads.Nodup)
    (mem : ∀ t, t ∈ threads ↔ ∃ memo line, (w.thread t).memo? r = some memo ∧
      registry.lines.get? memo.line = some line ∧ p line = true) :
    (threads.map fun t => ((w.thread t).memo? r).map Memo.line).Perm
      (((registry.lines.toList.filter fun row => p row.2).map Prod.fst).map some) := by
  refine (List.perm_ext_iff_of_nodup (List.Nodup.map_on ?_ nodup) ?_).mpr ?_
  · intro t listed u listedToo same
    obtain ⟨memo, _, found, _⟩ := (mem t).mp listed
    obtain ⟨other, _, foundToo, _⟩ := (mem u).mp listedToo
    simp only [found, foundToo, Option.map_some, Option.some.injEq] at same
    have here := Thread.memo?_registry found
    have hereToo := Thread.memo?_registry foundToo
    exact lined.apart t u memo (List.mem_of_find?_eq_some found) other
      (List.mem_of_find?_eq_some foundToo) registry (by rw [here, live]) (here.trans hereToo.symm) same
  · exact List.Nodup.map (Option.some_injective _)
      (registry.lines.nodup_tickets.sublist (List.filter_sublist.map _))
  · intro one
    simp only [List.mem_map, List.mem_filter, Prod.exists, exists_and_right, exists_eq_right]
    constructor
    · rintro ⟨t, listed, rfl⟩
      obtain ⟨memo, line, found, stored, holds⟩ := (mem t).mp listed
      exact ⟨memo.line, ⟨line, Arena.mem_toList.mpr stored, holds⟩, by simp [found]⟩
    · rintro ⟨ticket, ⟨line, listed, holds⟩, rfl⟩
      have stored := Arena.mem_toList.mp listed
      obtain ⟨t, memo, known, here, same⟩ := tended r ticket ⟨registry, _, live, stored⟩
      have found := lined.memo?_eq known
      rw [here] at found
      rw [← same] at stored
      refine ⟨t, (mem t).mpr ⟨memo, line, found, stored, holds⟩, ?_⟩
      rw [found, Option.map_some, same]

-- So the lines that hold a handle are as many as the threads whose line holds it.
theorem Tended.holding (tended : w.Tended) (lined : w.Lined) (tidy : w.Tidy)
    (live : w.registries.find? r = some registry) (h : Handle) :
    registry.holding h = (w.threadsHolding r h).length := by
  have mem : ∀ t, t ∈ w.threadsHolding r h ↔ ∃ memo line, (w.thread t).memo? r = some memo ∧
      registry.lines.get? memo.line = some line ∧ (line == some h) = true := by
    intro t
    rw [mem_threadsHolding, lineOf_eq_some live]
    simp
  have length := (tended.perm lined live (nodup_threadsHolding tidy) mem).length_eq
  rw [List.length_map, List.length_map, List.length_map] at length
  rw [length, Registry.holding, Arena.count_eq]

end World

open World in
theorem Quiet.tended {w after : World} (lined : w.Lined) (tended : w.Tended) (change : Quiet w after) :
    after.Tended := by
  -- A thread may change in whatever is not a memo of a registry that is there.
  have put : ∀ {u : ThreadId} {thread new : Thread}, w.threads.find? u = some thread →
      (∀ memo ∈ thread.memos, ∀ present, w.registries.find? memo.registry = some present →
        memo ∈ new.memos) → (w.setThread u new).Tended := by
    intro u thread new runs still
    refine tended.kept (fun _ _ there => .inl there) ?_
    rintro t memo known ⟨present, _, found, _⟩
    refine ⟨memo, ?_, rfl, rfl⟩
    rw [thread_put (w := w) rfl]
    split
    · rename_i here
      rw [here, thread_of_find? runs] at known
      exact still memo known present found
    · exact known
  have filed : ∀ {u : ThreadId} {thread : Thread} {memo : Memo} {registry : Registry},
      w.threads.find? u = some thread → memo ∈ thread.memos →
      w.registries.find? memo.registry = some registry →
      ∃ line, registry.lines.get? memo.line = some line := by
    intro u thread memo registry runs known live
    exact lined.filed u memo (by rwa [thread_of_find? runs]) registry live
  cases change with
  | noted | filed | hit | direct =>
    exact tended.fewer (fun _ _ there => there) fun _ => rfl
  | @started _ u absent =>
    exact tended.fewer (fun _ _ there => there) (memos_put rfl (by rw [thread_of_absent absent]))
  | looked runs => exact put runs fun memo known _ _ => by rwa [Thread.noteLookup_memos]
  | left runs | gone runs => exact put runs fun memo known _ _ => known
  | pruned runs =>
    refine put runs fun memo known present live => List.mem_filter.mpr ⟨known, ?_⟩
    exact Table.contains_iff.mpr ⟨present, live⟩
  | forgot runs memos gone =>
    refine put runs fun memo known present live => ?_
    rw [memos] at known
    rcases List.mem_cons.mp known with rfl | behind
    · cases gone.symm.trans live
    · exact behind
  | asked live =>
    exact tended.fewer (hasLine_of_put rfl live fun _ line stored => ⟨line, stored⟩) fun _ => rfl
  | attached runs free live new kept =>
    exact tended_attached tended (lined.arenas _ _ live) runs live rfl rfl
  | resolved runs free known live cold =>
    obtain ⟨line, stored⟩ := filed runs known live
    refine tended_resolved tended runs live stored rfl rfl known ?_
    rw [← thread_of_find? runs]
    exact lined.once _
  | detached runs free memos live =>
    obtain ⟨line, stored⟩ := filed runs (by rw [memos]; exact List.mem_cons_self) live
    exact tended_detached tended runs memos live stored rfl rfl

open World in
theorem Move.tended {s s' : Scene} (lined : s.world.Lined) (tended : s.world.Tended)
    (move : Move s s') : s'.world.Tended := by
  cases move with
  | turned | shared | unnamed | retained | spared | held | unheld | released | fell | begun | tried
  | made | abandoned | entitled | disowned | orphaned | dropped =>
    exact tended.fewer (fun _ _ there => there) fun _ => rfl
  | quiet change => exact change.tended lined tended
  | ended runs free memos =>
    exact tended.fewer (fun _ _ there => there) (memos_erase rfl runs memos)
  | locked runs free live | unlocked first runs live =>
    exact tended.fewer (hasLine_of_put rfl live fun _ line stored => ⟨line, stored⟩)
      (memos_put rfl (by rw [thread_of_find? runs]))
  | opened new =>
    refine tended.fewer ?_ fun _ => rfl
    rintro r ticket ⟨present, line, found, stored⟩
    simp only [Table.find?_put] at found
    split at found
    · cases found
      cases (Arena.get?_empty ticket).symm.trans stored
    · exact ⟨present, line, found, stored⟩
  | closed r registry rest first last live =>
    refine tended.fewer ?_ fun _ => rfl
    rintro other ticket ⟨present, line, found, stored⟩
    simp only [Table.find?_erase] at found
    split at found
    · cases found
    · exact ⟨present, line, found, stored⟩
  | enrolled site registry entry contexts rest first live =>
    exact tended.fewer (hasLine_of_put rfl live fun _ line stored => ⟨line, stored⟩) fun _ => rfl
  | withdrawn g registry contexts front back before after hands tasks live removed =>
    refine tended.fewer (hasLine_of_put (by rfl) live fun ticket line stored => ?_) fun _ => rfl
    simp only [Registry.get?_scrub, Option.map_eq_some_iff] at stored
    obtain ⟨was, there, _⟩ := stored
    exact ⟨was, there⟩

theorem Scene.Arises.tended {hashing : RegistryId → Handle → UInt64} {s : Scene}
    (arisen : Arises hashing s) : s.world.Tended := by
  induction arisen with
  | refl => exact World.tended_start hashing
  | tail before move ih => exact move.tended (Arises.lined before) ih

end AttachedState
