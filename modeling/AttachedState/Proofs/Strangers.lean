import AttachedState.Proofs.Rounds

/-!
Strangers.  What is done with other registries leaves a registry alone: its contexts, its lines, what
threads remember of it, its names, its states and its blocks.  So it stays the counterpart of a
registry of a world in which nothing of this is done.
-/

namespace AttachedState

-- What is registered in a registry was created there.
theorem Scene.Arises.created_of_entry {hashing : RegistryId → Handle → UInt64} {s : Scene}
    (arisen : Arises hashing s) {r : RegistryId} {contexts : HandleMap BlockId} {ticket : Ticket}
    {h : Handle} {b : BlockId} (found : s.world.map? r = some contexts)
    (entry : contexts.entry? ticket = some (h, b)) :
    ∃ entry slots, .stateCreated r entry b h slots ∈ s.world.journal := by
  have got := (HandleMap.get?_eq_some_iff (arisen.owned.valid r contexts found)).mpr ⟨ticket, entry⟩
  rw [arisen.recorded r contexts found h] at got
  exact created_of_mapped got

namespace Counterpart

variable {c : Counterpart}

-- Nothing of the registry is touched or told, and no block of it is made.
structure Spares (c : Counterpart) (w after : World) : Prop where
  keys : after.keys = w.keys
  next : w.next ≤ after.next
  names : after.registryNames.narrow c.name = w.registryNames.narrow c.name
  states : after.states.narrow c.guard = w.states.narrow c.guard
  held : after.held.narrow c.kept = w.held.narrow c.kept
  registry : after.registries.find? c.here = w.registries.find? c.here
  running : ∀ u, w.threads.contains u = true → after.threads.contains u = true
  plain : ∀ u, (w.thread u).Plain → (after.thread u).Plain
  memos : w.registries.contains c.here = true → ∀ u,
    (after.thread u).memos.filter (·.registry = c.here) = (w.thread u).memos.filter (·.registry = c.here)
  known : ∀ u, ∀ memo ∈ (after.thread u).memos, memo.registry = c.here → memo ∈ (w.thread u).memos
  blocks : ∀ b, c.owns b = true → after.blocks.find? b = w.blocks.find? b
  inert : ∀ b block, after.blocks.find? b = some block → w.blocks.find? b = some block ∨
    ∀ object ∈ block.objects, object.Inert
  created : ∀ r entry b h slots, .stateCreated r entry b h slots ∈ after.journal →
    .stateCreated r entry b h slots ∈ w.journal ∨ (r ≠ c.here ∧ c.owns b = false)
  told : ∃ told, after.journal = told ++ w.journal ∧ ∀ e ∈ told, e.about? ≠ some c.here
  plans : ∀ u, (after.thread u).plan = (w.thread u).plan ∨
    (after.thread u).plan = (w.thread u).noteLookup.plan

namespace Spares

variable {w after last : World} {t : ThreadId} {r : RegistryId} {b : BlockId} {name : Name}

theorem refl (c : Counterpart) (w : World) : c.Spares w w :=
  ⟨rfl, Nat.le_refl _, rfl, rfl, rfl, rfl, fun _ => id, fun _ => id, fun _ _ => rfl,
    fun _ _ listed _ => listed, fun _ _ => rfl, fun _ _ => .inl, fun _ _ _ _ _ => .inl,
    ⟨[], rfl, List.forall_mem_nil _⟩, fun _ => .inl rfl⟩

theorem trans (first : c.Spares w after) (next : c.Spares after last) : c.Spares w last where
  keys := next.keys.trans first.keys
  next := Nat.le_trans first.next next.next
  names := next.names.trans first.names
  states := next.states.trans first.states
  held := next.held.trans first.held
  registry := next.registry.trans first.registry
  running u there := next.running u (first.running u there)
  plain u plain := next.plain u (first.plain u plain)
  memos live u := by
    have liveThen : after.registries.contains c.here = true := by
      unfold Table.contains at live ⊢
      rwa [first.registry]
    rw [next.memos liveThen u, first.memos live u]
  known u memo listed here := first.known u memo (next.known u memo listed here) here
  blocks b owns := (next.blocks b owns).trans (first.blocks b owns)
  inert b block found := (next.inert b block found).elim (first.inert b block) .inr
  created r entry b h slots listed :=
    (next.created r entry b h slots listed).elim (first.created r entry b h slots) .inr
  told := by
    obtain ⟨told, journal, others⟩ := first.told
    obtain ⟨more, journalThen, othersThen⟩ := next.told
    refine ⟨more ++ told, by rw [journalThen, journal, List.append_assoc], ?_⟩
    exact List.forall_mem_append.mpr ⟨othersThen, others⟩
  plans u := Thread.plan_noted (first.plans u) (next.plans u)

/-! Single changes. -/

theorem note {e : Event} (silent : e.born? = none) (other : e.about? ≠ some c.here) :
    c.Spares w (w.note e) :=
  { refl c w with
    created := fun r entry b h slots listed => by
      rcases List.mem_cons.mp listed with rfl | before
      · cases silent
      · exact .inl before
    told := ⟨[e], rfl, List.forall_mem_singleton.mpr other⟩ }

-- What is told is about another registry, or about none.
theorem note_away {e : Event} (silent : e.born? = none) (about : e.about? = some r)
    (away : r ≠ c.here) : c.Spares w (w.note e) :=
  note silent fun here => away (Option.some.inj (about.symm.trans here))

theorem note_aside {e : Event} (silent : e.born? = none) (about : e.about? = none) :
    c.Spares w (w.note e) :=
  note silent (by rw [about]; exact (Option.some_ne_none _).symm)

theorem setRegistry (away : r ≠ c.here) (registry : Registry) : c.Spares w (w.setRegistry r registry) :=
  { refl c w with registry := Table.find?_put_of_ne _ _ (Ne.symm away) }

theorem setThread {thread : Thread} (plain : (w.thread t).Plain → thread.Plain)
    (memos : w.registries.contains c.here = true →
      thread.memos.filter (·.registry = c.here) = (w.thread t).memos.filter (·.registry = c.here))
    (known : ∀ memo ∈ thread.memos, memo.registry = c.here → memo ∈ (w.thread t).memos)
    (plan : thread.plan = (w.thread t).plan ∨ thread.plan = (w.thread t).noteLookup.plan) :
    c.Spares w (w.setThread t thread) := by
  have put : ∀ u, (w.setThread t thread).thread u = if u = t then thread else w.thread u :=
    World.thread_put rfl
  refine { refl c w with
    running := fun u there => ?_, plain := fun u => ?_, memos := fun live u => ?_, known := fun u => ?_
    plans := fun u => ?_ }
  · unfold World.setThread
    rw [Table.contains_put, there, Bool.or_true]
  all_goals rw [put u]; split <;> rename_i same
  · rw [same]
    exact plain
  · exact id
  · rw [same]
    exact memos live
  · rfl
  · rw [same]
    exact known
  · exact fun memo listed _ => listed
  · rw [same]
    exact plan
  · exact .inl rfl

theorem counted (c : Counterpart) (w : World) : c.Spares w { w with next := w.next + 1 } :=
  { refl c w with next := Nat.le_succ _ }

theorem named (away : r ≠ c.here) (free : w.registryNames.find? name = none) :
    c.Spares w { w with registryNames := w.registryNames.put name r } :=
  { refl c w with
    names := Table.narrow_put_none (fun old found => by rw [free] at found; cases found) (if_neg away) }

theorem unnamed (tidy : w.Tidy) (away : r ≠ c.here) (named : w.registryNames.find? name = some r) :
    c.Spares w { w with registryNames := w.registryNames.erase name } :=
  { refl c w with
    names := Table.narrow_erase_none tidy.registryNames fun old found => by
      cases named.symm.trans found
      exact if_neg away }

theorem entitled {g : Guard} (away : g.registry ≠ c.here) (free : w.states.find? name = none) :
    c.Spares w { w with states := w.states.put name g } :=
  { refl c w with
    states := Table.narrow_put_none (fun old found => by rw [free] at found; cases found) (if_neg away) }

theorem disowned (tidy : w.Tidy) {g : Guard} (away : g.registry ≠ c.here)
    (named : w.states.find? name = some g) : c.Spares w { w with states := w.states.erase name } :=
  { refl c w with
    states := Table.narrow_erase_none tidy.states fun old found => by
      cases named.symm.trans found
      exact if_neg away }

theorem kept_of_not (strange : c.owns b = false) : c.kept b = none := by
  unfold kept
  rw [strange]
  rfl

theorem reheld (strange : c.owns b = false)
    (names : ∀ d, w.held.find? name = some d → c.owns d = false) :
    c.Spares w { w with held := w.held.put name b } :=
  { refl c w with
    held := Table.narrow_put_none (fun d found => kept_of_not (names d found)) (kept_of_not strange) }

theorem unheld (tidy : w.Tidy) (strange : c.owns b = false) (held : w.held.find? name = some b) :
    c.Spares w { w with held := w.held.erase name } :=
  { refl c w with
    held := Table.narrow_erase_none tidy.held fun d found => by
      cases held.symm.trans found
      exact kept_of_not strange }

theorem fell (strange : c.owns b = false) : c.Spares w { w with blocks := w.blocks.erase b } := by
  refine { refl c w with blocks := fun d owns => ?_, inert := fun d block found => ?_ }
  · refine Table.find?_erase_of_ne _ ?_
    rintro rfl
    rw [strange] at owns
    cases owns
  · rw [Table.find?_erase] at found
    split at found
    · cases found
    · exact .inl found

theorem closed (away : r ≠ c.here) : c.Spares w { w with registries := w.registries.erase r } :=
  { refl c w with registry := Table.find?_erase_of_ne _ (Ne.symm away) }

theorem enrolled {site : Construction} (away : site.registry ≠ c.here)
    (strange : c.owns site.block = false) (inert : ∀ object ∈ site.built.objects, object.Inert)
    (entry : Ticket) : c.Spares w ({ w with blocks := w.blocks.put site.block site.built }.note
      (.stateCreated site.registry entry site.block site.handle site.built.slotCount)) := by
  refine { refl c w with
    blocks := fun d owns => ?_, inert := fun d block found => ?_
    created := fun r entry b h slots listed => ?_
    told := ⟨[_], rfl, List.forall_mem_singleton.mpr fun here => away (Option.some.inj here)⟩ }
  · refine Table.find?_put_of_ne _ _ ?_
    rintro rfl
    rw [strange] at owns
    cases owns
  · simp only [World.note, Table.find?_put] at found
    split at found
    · cases found
      exact .inr inert
    · exact .inl found
  · rcases List.mem_cons.mp listed with told | before
    · cases told
      exact .inr ⟨away, strange⟩
    · exact .inl before

theorem startThread (c : Counterpart) (w : World) (t : ThreadId) : c.Spares w (w.startThread t) := by
  obtain ⟨threads, started⟩ := w.startThread_eq t
  have same := w.thread_startThread t
  have runs := w.contains_startThread t
  rw [started] at same runs ⊢
  refine { refl c w with
    running := fun u there => ?_, plain := fun u => ?_, memos := fun _ u => ?_, known := fun u => ?_
    plans := fun u => .inl (congrArg Thread.plan (same u)) }
  · rw [runs, there, Bool.or_true]
  · rw [same]
    exact id
  · rw [same]
  · rw [same]
    exact fun memo listed _ => listed

/-! Work under locks, and lookups. -/

theorem underLock {α : Type} (away : r ≠ c.here) {work : Registry → α × Registry} {result : α}
    (worked : w.underLock t r work = .ok (result, after)) : c.Spares w after := by
  unfold World.underLock World.lock? at worked
  simp only at worked
  split at worked
  · cases worked
  · rename_i locked taken
    split at taken <;> cases taken
    cases worked
    have back : ∀ registry changed : Registry,
        (((w.setThread t { w.thread t with depth := (w.thread t).depth + 1 }).setRegistry r
          registry).setRegistry r changed).unlock t r
        = (w.setThread t (w.thread t)).setRegistry r { changed with holder := none } := by
      intro registry changed
      simp only [World.unlock, World.registry, World.setRegistry, World.setThread, World.thread,
        Table.find?_put_self, Table.put_put, Option.getD_some, Nat.add_sub_cancel]
    rw [back]
    exact (setThread id (fun _ => rfl) (fun _ listed _ => listed) (.inl rfl)).trans (setRegistry away _)

theorem pruneMemos (c : Counterpart) (w : World) (t : ThreadId) : c.Spares w (w.pruneMemos t) := by
  refine setThread (fun plain => ⟨plain.depth, plain.memosGone⟩) (fun live => ?_)
    (fun memo listed _ => List.mem_of_mem_filter listed) (.inl rfl)
  rw [List.filter_filter]
  refine List.filter_congr fun memo _ => ?_
  by_cases here : memo.registry = c.here <;> simp [here, live]

theorem memoFor (away : r ≠ c.here) (w : World) (t : ThreadId) : c.Spares w (w.memoFor t r).2 := by
  unfold World.memoFor World.attachMemo
  split
  · exact refl c w
  · simp only
    split
    · exact pruneMemos c w t
    · rename_i line locked worked
      refine ((pruneMemos c w t).trans (underLock away worked)).trans (.trans
        (setThread ?_ ?_ ?_ ?_) (note_away rfl rfl away))
      · exact fun plain => ⟨plain.depth, plain.memosGone⟩
      · intro _
        rw [List.filter_append]
        simp [away]
      · intro memo listed here
        rcases List.mem_append.mp listed with before | new
        · exact before
        · cases List.mem_singleton.mp new
          exact absurd here away
      · exact .inl rfl

theorem resolveThrough {memo : Memo} (away : memo.registry ≠ c.here) (w : World) (t : ThreadId)
    (h : Handle) : c.Spares w (w.resolveThrough t memo h).2 := by
  unfold World.resolveThrough
  split
  · exact refl c w
  · rename_i found locked worked
    have others : ∀ other : Memo, other.registry = c.here → other.registry ≠ memo.registry :=
      fun other here same => away (same.symm.trans here)
    refine (underLock away worked).trans (.trans (setThread ?_ ?_ ?_ ?_) (note_away rfl rfl away))
    · exact fun plain => ⟨plain.depth, plain.memosGone⟩
    · intro _
      simp only [Thread.setMemo]
      generalize (locked.thread t).memos = memos
      induction memos with
      | nil => rfl
      | cons old rest ih =>
        rw [List.map_cons, List.filter_cons, List.filter_cons, ih]
        by_cases same : old.registry = memo.registry
        · have ne : old.registry ≠ c.here := fun here => others old here same
          simp [same, away]
        · rw [if_neg same]
    · intro other listed here
      obtain ⟨old, before, rfl⟩ := List.mem_map.mp listed
      split at here
      · exact absurd here away
      · rename_i untouched
        rw [if_neg untouched]
        exact before
    · exact .inl rfl

theorem resolveDirectly (away : r ≠ c.here) (w : World) (t : ThreadId) (h : Handle) :
    c.Spares w (w.resolveDirectly t r h).2 := by
  unfold World.resolveDirectly
  split
  · exact refl c w
  · rename_i worked
    exact (underLock away worked).trans (note_away rfl rfl away)

-- A lookup in another registry.
theorem lookUp (away : r ≠ c.here) (w : World) (t : ThreadId) (h : Handle) :
    c.Spares w (w.lookUp t r h).2 := by
  have noted : c.Spares w (w.setThread t (w.thread t).noteLookup) := by
    refine setThread Thread.Plain.noteLookup (fun _ => ?_) (fun memo listed _ => ?_) (.inr rfl)
    · rw [Thread.noteLookup_memos]
    · rwa [Thread.noteLookup_memos] at listed
  unfold World.lookUp
  simp only
  split
  · exact resolveDirectly away w t h
  · have known := noted.trans (memoFor away (w.setThread t (w.thread t).noteLookup) t)
    split
    · rename_i made
      rw [made] at known
      exact known
    · rename_i memo after made
      have registry := World.memoFor_registry made
      rw [made] at known
      split
      · exact known.trans (note_away rfl rfl away)
      · exact known.trans (resolveThrough (by rwa [registry]) after t h)

end Spares

/-! What is left to be done elsewhere. -/

-- A block of another registry that is under construction.
structure Away (c : Counterpart) (site : Construction) : Prop where
  asked : site.nested = none
  away : site.registry ≠ c.here
  strange : c.owns site.block = false
  inert : ∀ object ∈ site.built.objects, object.Inert
  simple : ∀ f ∈ site.pending, f.Inert

inductive Foreign (c : Counterpart) : Task → Prop where
  | construct {site : Construction} (away : c.Away site) : Foreign c (.construct site)
  | make {site : Construction} {f : Factory} (away : c.Away site) (simple : f.Inert) :
      Foreign c (.make site f)
  | dropObject (b : BlockId) (h : Handle) {object : Object} (inert : object.Inert) :
      Foreign c (.dropObject b h object)
  | noteOverwritten (h : Handle) (slot : Slot) : Foreign c (.noteOverwritten h slot)
  | releaseBlock {b : BlockId} (strange : c.owns b = false) : Foreign c (.releaseBlock b)
  | releaseRegistry {r : RegistryId} (away : r ≠ c.here) : Foreign c (.releaseRegistry r)
  | answer (answer : Answer) : Foreign c (.answer none answer)

structure Elsewhere (c : Counterpart) (w after : World) (first : List Task) : Prop where
  spares : c.Spares w after
  foreign : ∀ task ∈ first, c.Foreign task

namespace Elsewhere

variable {w after last : World} {t : ThreadId} {r : RegistryId} {b : BlockId} {name : Name}
  {first more : List Task}

theorem still (c : Counterpart) (w : World) : c.Elsewhere w w [] := ⟨.refl c w, List.forall_mem_nil _⟩

theorem of_spares (spares : c.Spares w after) : c.Elsewhere w after [] := ⟨spares, List.forall_mem_nil _⟩

theorem head (before : c.Spares w after) (next : c.Elsewhere after last first) :
    c.Elsewhere w last first := ⟨before.trans next.spares, next.foreign⟩

theorem append (next : c.Elsewhere w after first) (foreign : ∀ task ∈ more, c.Foreign task) :
    c.Elsewhere w after (first ++ more) :=
  ⟨next.spares, fun task listed => (List.mem_append.mp listed).elim (next.foreign task) (foreign task)⟩

/-! Operations. -/

theorem askRegistry (w : World) (t : ThreadId) (name : Name) (tell : Registry → Answer)
    (off : w.registryNamed? name ≠ some c.here) : c.Elsewhere w (w.askRegistry t name tell).world
      (w.askRegistry t name tell).first := by
  unfold World.askRegistry
  split
  · exact still c w
  · rename_i r named
    split
    · exact still c w
    · rename_i worked
      exact of_spares (.underLock (fun here => off (here ▸ named)) worked)

theorem contains (w : World) (t : ThreadId) (name : Name) (address : UInt64)
    (off : w.registryNamed? name ≠ some c.here) :
    c.Elsewhere w (w.contains t name address).world (w.contains t name address).first := by
  unfold World.contains
  split
  · exact still c w
  · exact still c w
  · exact askRegistry w t name _ off

theorem keep (strange : c.owns b = false) (names : ∀ d, w.held.find? name = some d → c.owns d = false) :
    c.Elsewhere w (w.keep name b).1 (w.keep name b).2 := by
  refine ⟨.reheld strange names, fun task listed => ?_⟩
  obtain ⟨d, held, rfl⟩ := Option.map_eq_some_iff.mp (Option.mem_toList.mp listed)
  exact .releaseBlock (names d held)

theorem present (strange : c.owns b = false) {retrieval : Retrieval}
    (names : ∀ name d, retrieval.keepAs = some name → w.held.find? name = some d → c.owns d = false) :
    c.Elsewhere w (w.present retrieval b).world (w.present retrieval b).first := by
  unfold World.present
  split
  · split
    · exact still c w
    · rename_i name kept
      exact keep strange fun d => names name d kept
  · exact still c w

theorem giveUp {g : Guard} (away : g.registry ≠ c.here) (strange : c.owns g.block = false) :
    c.Elsewhere w (w.giveUp t g).world (w.giveUp t g).first := by
  have foreign : ∀ task ∈ World.guardTasks g, c.Foreign task := by
    intro task listed
    simp only [World.guardTasks, List.mem_cons, List.not_mem_nil, or_false] at listed
    rcases listed with rfl | rfl
    · exact .releaseRegistry away
    · exact .releaseBlock strange
  unfold World.giveUp
  split
  · exact ⟨.note_away rfl rfl away, foreign⟩
  · rename_i worked
    exact ⟨(Spares.underLock away worked).trans (.note_away rfl rfl away), foreign⟩
  · rename_i worked
    exact ⟨(Spares.underLock away worked).trans (.note_away rfl rfl away), foreign⟩

theorem newRegistry {looks : Bool}
    (off : Operation.registry? w (.openRegistry name looks) ≠ some c.here) :
    c.Elsewhere w (w.newRegistry name).world (w.newRegistry name).first := by
  rw [World.newRegistry_eq]
  split
  · exact still c w
  · rename_i unnamed
    have away : (⟨w.next⟩ : RegistryId) ≠ c.here := by
      intro here
      simp only [Operation.registry?, if_neg unnamed, here] at off
      exact off rfl
    have absent : w.registryNames.find? name = none := by
      have clear := Option.not_isSome_iff_eq_none.mp unnamed
      unfold World.registryNamed? at clear
      split at clear
      · cases clear
      · exact clear
    have opened := (Spares.counted c w).trans
      (.setRegistry away (.fresh name (w.hashing ⟨w.next⟩)))
    exact of_spares (opened.trans (.named away absent))

theorem dropRegistry (tidy : w.Tidy) (off : w.registryNames.find? name ≠ some c.here) :
    c.Elsewhere w (w.dropRegistry name).world (w.dropRegistry name).first := by
  unfold World.dropRegistry
  split
  · exact still c w
  · rename_i r named
    have away : r ≠ c.here := fun here => off (here ▸ named)
    exact ⟨.unnamed tidy away named, List.forall_mem_singleton.mpr (.releaseRegistry away)⟩

theorem release (tidy : w.Tidy) (strange : ∀ d, w.held.find? name = some d → c.owns d = false) :
    c.Elsewhere w (w.release name).world (w.release name).first := by
  unfold World.release
  split
  · exact still c w
  · rename_i b held
    exact ⟨.unheld tidy (strange b held) held, List.forall_mem_singleton.mpr (.releaseBlock (strange b held))⟩

theorem destroy (tidy : w.Tidy) (t : ThreadId)
    (off : ∀ g, w.states.find? name = some g → g.registry ≠ c.here ∧ c.owns g.block = false) :
    c.Elsewhere w (w.destroy t name).world (w.destroy t name).first := by
  unfold World.destroy
  split
  · exact still c w
  · rename_i g named
    obtain ⟨away, strange⟩ := off g named
    exact head (.disowned tidy away named) (giveUp away strange)

theorem retrieve (w : World) (t : ThreadId) {retrieval : Retrieval}
    (off : w.registryNamed? retrieval.registry ≠ some c.here)
    (found : ∀ r h b after, w.registryNamed? retrieval.registry = some r →
      w.lookUp t r h = (.ok (some b), after) → c.owns b = false ∧ after.held = w.held)
    (names : ∀ name d, retrieval.keepAs = some name → w.held.find? name = some d → c.owns d = false) :
    c.Elsewhere w (w.retrieve t retrieval).world (w.retrieve t retrieval).first := by
  unfold World.retrieve
  split
  · exact still c w
  · rename_i h address
    split
    · exact still c w
    · rename_i r named
      have away : r ≠ c.here := fun here => off (here ▸ named)
      have looked := Spares.lookUp away w t h
      split <;> rename_i after answered <;> rw [answered] at looked
      · exact of_spares looked
      · exact of_spares looked
      · rename_i b
        obtain ⟨strange, held⟩ := found r h b after named answered
        have presented : c.Elsewhere after (after.present retrieval b).world (after.present retrieval b).first :=
          present strange fun name d kept there => names name d kept (held ▸ there)
        exact (head looked presented).append (List.forall_mem_singleton.mpr (.releaseRegistry away))

/-! Tasks. -/

theorem dropTasks (b : BlockId) (h : Handle) {objects : List Object}
    (inert : ∀ object ∈ objects, object.Inert) :
    ∀ task ∈ AttachedState.dropTasks b h objects, c.Foreign task := by
  intro task listed
  obtain ⟨object, there, rfl⟩ := List.mem_map.mp listed
  exact .dropObject b h (inert object there)

theorem dropObject (w : World) (t : ThreadId) (b : BlockId) (h : Handle) {object : Object}
    (inert : object.Inert) :
    c.Elsewhere w (w.dropObject t b h object).1 (w.dropObject t b h object).2 := by
  unfold World.dropObject
  simp only [inert.2, List.map_nil]
  exact of_spares (.note_aside rfl rfl)

theorem releaseBlock (w : World) (later : List Task) (strange : c.owns b = false)
    (inert : ∀ block, w.blocks.find? b = some block → ∀ object ∈ block.objects, object.Inert) :
    c.Elsewhere w (w.releaseBlock later b).1 (w.releaseBlock later b).2 := by
  unfold World.releaseBlock
  split
  · exact still c w
  · split
    · exact still c w
    · rename_i block found
      exact ⟨.fell strange, dropTasks b block.handle (inert block found)⟩

theorem releaseRegistry (w : World) (later : List Task) (away : r ≠ c.here)
    (strange : ∀ registry, w.registries.find? r = some registry → ∀ b ∈ registry.blocks,
      c.owns b = false) :
    c.Elsewhere w (w.releaseRegistry later r).1 (w.releaseRegistry later r).2 := by
  unfold World.releaseRegistry
  split
  · exact still c w
  · split
    · exact still c w
    · rename_i registry live
      refine ⟨.closed away, fun task listed => ?_⟩
      obtain ⟨b, there, rfl⟩ := List.mem_map.mp listed
      exact .releaseBlock (strange registry live b there)

/-! Creations. -/

variable {site : Construction}

theorem close (away : c.Away site) (answer : Answer) : ∀ task ∈ site.close answer, c.Foreign task := by
  intro task listed
  simp only [Construction.close, away.asked, List.mem_cons, List.not_mem_nil, or_false] at listed
  rcases listed with rfl | rfl
  · exact .releaseRegistry away.away
  · exact .answer answer

theorem abandon (away : c.Away site) (failure : Failure) :
    ∀ task ∈ site.abandon failure, c.Foreign task := by
  intro task listed
  rcases List.mem_append.mp listed with drop | last
  · exact dropTasks site.block site.handle away.inert task drop
  · exact close away _ task last

theorem make (w : World) (t : ThreadId) (away : c.Away site) {f : Factory} (simple : f.Inert) :
    c.Elsewhere w (w.make t site f).1 (w.make t site f).2 := by
  obtain ⟨result, made⟩ := simple.makeValue site.handle
  unfold World.make
  rw [made]
  cases given : result with
  | error cause => exact ⟨.refl c w, abandon away _⟩
  | ok value =>
    have inert := simple.object (w := w) (t := t) (h := site.handle) (by rw [made, given])
      ⟨w.next⟩ site.creation.registry
    have grown : c.Away { site with
        slots := site.slots.set f.slot
          (some ⟨⟨w.next⟩, value, site.creation.registry, f.dropActions⟩) } :=
      { away with inert := site.inert_grown away.inert inert f.slot }
    have told : c.Spares w (({ w with next := w.next + 1 } : World).note (.objectMade site.block f.slot
        ⟨⟨w.next⟩, value, site.creation.registry, f.dropActions⟩)) := (Spares.counted c w).trans (.note_aside rfl rfl)
    simp only [World.takeNumber]
    split
    · exact ⟨told, List.forall_mem_singleton.mpr (.construct grown)⟩
    · rename_i earlier there
      refine ⟨told, fun task listed => ?_⟩
      simp only [List.mem_cons, List.not_mem_nil, or_false] at listed
      rcases listed with rfl | rfl | rfl
      · exact .dropObject _ _ (away.inert earlier (Block.mem_objects.mpr ⟨f.slot, there⟩))
      · exact .noteOverwritten _ _
      · exact .construct grown

theorem register (w : World) (t : ThreadId) (away : c.Away site) :
    c.Elsewhere w (w.register t site).1 (w.register t site).2 := by
  unfold World.register
  split
  · exact ⟨.refl c w, abandon away _⟩
  · rename_i worked
    exact ⟨.underLock away.away worked, abandon away _⟩
  · rename_i entry after worked
    have enrolled := (Spares.underLock away.away worked).trans
      (.enrolled away.away away.strange away.inert entry)
    simp only
    split
    · exact (head enrolled (giveUp away.away away.strange)).append (close away _)
    · rename_i free
      have titled := enrolled.trans (.entitled
        (g := ⟨site.registry, entry, site.handle, site.block⟩) away.away
        (Table.not_contains_iff.mp (Bool.not_eq_true _ ▸ free)))
      split <;> exact ⟨titled, close away _⟩

theorem construct (w : World) (t : ThreadId) (away : c.Away site) :
    c.Elsewhere w (w.construct t site).1 (w.construct t site).2 := by
  unfold World.construct
  cases pending : site.pending with
  | nil => exact register w t away
  | cons f rest =>
    have simple := away.simple
    rw [pending] at simple
    have now := simple f List.mem_cons_self
    simp only [now.before, List.map_nil, List.nil_append]
    refine ⟨.note_aside rfl rfl, List.forall_mem_singleton.mpr (.make { away with simple := fun g listed => ?_ } now)⟩
    exact simple g (List.mem_cons_of_mem _ listed)

end Elsewhere

namespace Worlds

variable {hashing : RegistryId → Handle → UInt64} {w w' after : World} {m : Machine} {t u : ThreadId}
  {action : Action} {later : List Task}

-- So the registries stay counterparts, whatever is done elsewhere in the one world only.
theorem spared (worlds : c.Worlds w w') (spares : c.Spares w after)
    (arisen : Scene.Arises hashing ⟨after, t, [], later⟩) : c.Worlds after w' := by
  have live : after.registries.contains c.here = w.registries.contains c.here := by
    unfold Table.contains
    rw [spares.registry]
  have created : ∀ r entry b h slots, .stateCreated r entry b h slots ∈ after.journal →
      (c.owns b = true ↔ r = c.here) := by
    intro r entry b h slots listed
    rcases spares.created r entry b h slots listed with before | ⟨away, strange⟩
    · exact worlds.created r entry b h slots before
    · exact iff_of_false (by rw [strange]; exact Bool.false_ne_true) away
  have apart : ∀ r contexts t h b, after.map? r = some contexts → contexts.entry? t = some (h, b) →
      (c.owns b = true ↔ r = c.here) := by
    intro r contexts ticket h b found entry
    obtain ⟨entry, slots, listed⟩ := Scene.Arises.created_of_entry arisen found entry
    exact created r entry b h slots listed
  refine ⟨worlds.injective, fun b owns => ?_, fun unborn => worlds.unborn (Nat.le_trans spares.next unborn),
    worlds.global, worlds.keys.trans spares.keys.symm, worlds.names.trans spares.names.symm,
    worlds.states.trans spares.states.symm, worlds.held.trans spares.held.symm, ?_,
    fun u there => spares.running u (worlds.running u there), fun u => ?_, fun b owns => ?_, ?_, ?_, apart,
    worlds.alone, created⟩
  · obtain ⟨one, other⟩ := worlds.old b owns
    exact ⟨Nat.lt_of_lt_of_le one spares.next, other⟩
  · rw [spares.registry]
    exact worlds.registry
  · have before := worlds.threads u
    refine ⟨spares.plain u before.plain, before.plainToo, fun lives => ?_, fun memo listed here => ?_,
      before.alone⟩
    · rw [live] at lives
      rw [spares.memos lives u]
      exact before.memos lives
    · exact before.blocks memo (spares.known u memo listed here) here
  · rw [spares.blocks b owns]
    exact worlds.blocks b owns
  · intro b block found
    exact (spares.inert b block found).elim (worlds.inert b block) id
  · intro name g found
    have owned := Scene.Arises.owned arisen
    have listed : g ∈ (⟨after, t, [], later⟩ : Scene).guards :=
      Scene.mem_guards.mpr (.inl ⟨name, Table.mem_of_find? found⟩)
    obtain ⟨contexts, live⟩ := owned.live g listed
    exact apart _ _ _ _ _ live (owned.kept g (List.mem_append_left _ listed) contexts live)

-- A block that is held belongs to the registry if it was registered there.
theorem strange_of_home (worlds : c.Worlds w w') (arisen : Scene.Arises hashing ⟨w, t, [], later⟩)
    {name : Name} {b : BlockId} (held : w.held.find? name = some b) (away : w.home? b ≠ some c.here) :
    c.owns b = false := by
  rw [Bool.eq_false_iff]
  exact fun owns => away ((worlds.home_iff (births_held arisen held)).mpr owns)

theorem retrieve_elsewhere (worlds : c.Worlds w w') (arisen : Scene.Arises hashing ⟨w, t, [], later⟩)
    (runs : w.Runs t) {retrieval : Retrieval} (off : w.registryNamed? retrieval.registry ≠ some c.here)
    (names : ∀ name d, retrieval.keepAs = some name → w.held.find? name = some d → c.owns d = false) :
    c.Elsewhere w (w.retrieve t retrieval).world (w.retrieve t retrieval).first := by
  refine .retrieve w t off (fun r h b after named answered => ?_) names
  obtain ⟨x, live⟩ := (Scene.Arises.live arisen).registry_named (Scene.Arises.tidy arisen) named
  obtain ⟨changes, answers⟩ := World.lookUp_spec runs (World.map?_of_find? live) h
  rw [answered] at changes answers
  refine ⟨?_, changes.same.2.2.2.2⟩
  obtain ⟨held, refused⟩ | got := answers (Scene.Arises.lined arisen)
  · cases refused
  · have valid := (Scene.Arises.owned arisen).valid _ _ (World.map?_of_find? live)
    obtain ⟨ticket, entry⟩ := (HandleMap.get?_eq_some_iff valid).mp (Except.ok.inj got).symm
    have mine := worlds.apart r _ ticket h b (World.map?_of_find? live) entry
    refine Bool.eq_false_iff.mpr fun owns => off ?_
    exact named.trans (congrArg some (mine.mp owns))

-- What is not on the registry is done elsewhere.
theorem operate_elsewhere (worlds : c.Worlds w w') (arisen : Scene.Arises hashing ⟨w, t, [], later⟩)
    (runs : w.Runs t) {operation : Operation} (orderly : operation.Orderly w)
    (off : operation.registry? w ≠ some c.here) :
    c.Elsewhere w (w.operate t operation).world (w.operate t operation).first := by
  have tidy := Scene.Arises.tidy arisen
  cases orderly with
  | openRegistry name looks unleft =>
    rw [World.operate_openRegistry runs (worlds.free t).1]
    exact .newRegistry off
  | dropRegistry name unleft => exact .dropRegistry tidy off
  | destroy state =>
    refine .destroy tidy t fun g named => ?_
    have away : g.registry ≠ c.here := by
      intro here
      simp only [Operation.registry?, named, Option.map_some, here, ne_eq, not_true_eq_false] at off
    refine ⟨away, Bool.eq_false_iff.mpr fun owns => away ((worlds.guards state g named).mp owns)⟩
  | retrieve retrieval names =>
    refine worlds.retrieve_elsewhere arisen runs off fun name d kept held => worlds.strange_of_home arisen held ?_
    rw [names name d kept held]
    exact off
  | release block =>
    refine .release tidy fun d held => worlds.strange_of_home arisen held ?_
    simpa only [Operation.registry?, held, Option.bind_some] using off
  | showRegistry name layout => exact .askRegistry w t name _ off
  | contains name address => exact .contains w t name address off
  | countContexts name => exact .askRegistry w t name _ off
  | countCaches name => exact .askRegistry w t name _ off

theorem perform_elsewhere (worlds : c.Worlds w w') (arisen : Scene.Arises hashing ⟨w, t, [], later⟩)
    (runs : w.Runs t) (orderly : action.Orderly w) (off : action.registry? w ≠ some c.here) :
    c.Elsewhere w (w.perform t false action).1 (w.perform t false action).2 := by
  cases orderly with
  | @operate operation orderly =>
    exact (worlds.operate_elsewhere arisen runs orderly off).append
      (List.forall_mem_singleton.mpr (.answer _))
  | create creation supplies names simple =>
    simp only [World.perform, Bool.false_eq_true, if_false]
    split
    · rename_i failure after refused
      cases World.beginCreation_error refused
      exact ⟨.refl c w, List.forall_mem_singleton.mpr (.answer _)⟩
    · rename_i site after begun
      obtain ⟨rfl, named, block, vacant, _⟩ := World.beginCreation_site begun
      obtain ⟨made, _⟩ := World.beginCreation_pending begun
      refine ⟨.counted c w, List.forall_mem_singleton.mpr (.construct ?_)⟩
      refine ⟨World.beginCreation_nested begun, fun here => off (here ▸ named), ?_, ?_,
        World.factories_inert made simple⟩
      · rw [block]
        exact worlds.not_owns
      · intro object listed
        simp only [Construction.built, Block.objects, List.mem_filterMap, id_eq, exists_eq_right] at listed
        cases vacant _ listed

-- So it is with every task that comes of it, and with all of them.
theorem step_elsewhere (worlds : c.Worlds m.world w') (foreign : ∀ task ∈ m.tasks, c.Foreign task) :
    c.Spares m.world m.step.world ∧ ∀ task ∈ m.step.tasks, c.Foreign task := by
  obtain ⟨w, t, tasks⟩ := m
  cases tasks with
  | nil => exact ⟨.refl c w, foreign⟩
  | cons task later =>
    rw [Machine.step_of_cons (m := ⟨w, t, task :: later⟩) rfl]
    have elsewhere : c.Elsewhere w (w.take t later task).1 (w.take t later task).2 := by
      cases foreign task List.mem_cons_self with
      | construct away => exact .construct w t away
      | make away simple => exact .make w t away simple
      | dropObject b h inert => exact .dropObject w t b h inert
      | noteOverwritten h slot => exact .of_spares (.note_aside rfl rfl)
      | @releaseBlock b strange => exact .releaseBlock w later strange (worlds.inert b)
      | releaseRegistry away =>
        refine .releaseRegistry w later away fun registry live b there => ?_
        obtain ⟨ticket, h, entry⟩ := Registry.contains_blocks.mp (List.contains_iff_mem.mpr there)
        have mine := worlds.apart _ _ ticket h b (World.map?_of_find? live) entry
        exact Bool.eq_false_iff.mpr fun owns => away (mine.mp owns)
      | answer answer => exact .of_spares (.note_aside rfl rfl)
    refine ⟨elsewhere.spares, fun next listed => ?_⟩
    rcases List.mem_append.mp listed with new | behind
    · exact elsewhere.foreign next new
    · exact foreign next (List.mem_cons_of_mem _ behind)

theorem steps_elsewhere (worlds : c.Worlds m.world w') (reached : m.Reached hashing)
    (foreign : ∀ task ∈ m.tasks, c.Foreign task) (n : Nat) :
    c.Spares m.world (m.steps n).world ∧ c.Worlds (m.steps n).world w' ∧
      ∀ task ∈ (m.steps n).tasks, c.Foreign task := by
  induction n with
  | zero => exact ⟨.refl c m.world, worlds, foreign⟩
  | succ n ih =>
    obtain ⟨spares, worldsThen, foreignThen⟩ := ih
    have reachedThen := reached.on (Machine.later_steps m n)
    obtain ⟨more, left⟩ := worldsThen.step_elsewhere foreignThen
    rw [Machine.steps_succ]
    exact ⟨spares.trans more, worldsThen.spared more reachedThen.step.arises, left⟩

theorem round_elsewhere (worlds : c.Worlds w w') (reached : Machine.Reached hashing ⟨w, u, []⟩)
    (ofSession : (Command.act t action).ofSession) (orderly : action.Orderly w)
    (off : action.registry? w ≠ some c.here) :
    c.Spares w (w.machineFor (.act t action)).run.world ∧
      c.Worlds (w.machineFor (.act t action)).run.world w' := by
  obtain ⟨begun, runs, arisen⟩ := reached.begun ofSession
  have started := Spares.startThread c w t
  have worldsThen := worlds.spared started arisen
  have performed := worldsThen.perform_elsewhere arisen runs (orderly.startThread t)
    (by rwa [Action.registry?_startThread])
  have first := Machine.step_machineFor w t action
  have after := worldsThen.spared (t := t) performed.spares
    (by have next := begun.step.arises; rw [first] at next; exact next)
  obtain ⟨spares, last, _⟩ := steps_elsewhere (m := (w.machineFor (.act t action)).step)
    (by rw [first]; exact after) begun.step (by rw [first]; exact performed.foreign)
    (w.machineFor (.act t action)).step.work
  rw [show (w.machineFor (.act t action)).step.steps (w.machineFor (.act t action)).step.work
    = (w.machineFor (.act t action)).run from Machine.run_step _] at spares last
  rw [first] at spares
  exact ⟨(started.trans performed.spares).trans spares, last⟩

end Worlds

end Counterpart

end AttachedState
