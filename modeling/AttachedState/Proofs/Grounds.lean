import AttachedState.Proofs.Scenes
import AttachedState.Proofs.Tables
import AttachedState.Proofs.Entries

/-!
What all other invariants stand on: no table lists a key twice, maps and lines are well kept, and a
number that is taken for a new identity is the number of no other.
-/

namespace AttachedState

namespace Task

-- The block that a task works on, under construction or being torn down.
def block? : Task → Option BlockId
  | construct site | make site _ => some site.block
  | dropObject b _ _ => some b
  | _ => none

theorem block?_of_site? {task : Task} {site : Construction} (under : task.site? = some site) :
    task.block? = some site.block := by
  cases task <;> cases under <;> rfl

end Task

/-! Tables. -/

structure World.Tidy (w : World) : Prop where
  registries : w.registries.Distinct
  blocks : w.blocks.Distinct
  threads : w.threads.Distinct
  registryNames : w.registryNames.Distinct
  states : w.states.Distinct
  held : w.held.Distinct

theorem World.tidy_start (hashing : RegistryId → Handle → UInt64) : (World.start hashing).Tidy := by
  have empty {κ α : Type} : (Table.empty : Table κ α).Distinct := Table.distinct_empty
  exact ⟨empty.put _ _, empty, empty.put _ _, empty, empty, empty⟩

theorem Quiet.tidy {w after : World} (tidy : w.Tidy) (change : Quiet w after) : after.Tidy := by
  obtain ⟨registries, blocks, threads, registryNames, states, held⟩ := tidy
  cases change with
  | noted | filed | hit | direct => exact ⟨registries, blocks, threads, registryNames, states, held⟩
  | started | looked | left | pruned | forgot | gone =>
    exact ⟨registries, blocks, threads.put _ _, registryNames, states, held⟩
  | asked => exact ⟨registries.put _ _, blocks, threads, registryNames, states, held⟩
  | attached | resolved | detached =>
    exact ⟨registries.put _ _, blocks, threads.put _ _, registryNames, states, held⟩

theorem Move.tidy {s s' : Scene} (tidy : s.world.Tidy) (move : Move s s') : s'.world.Tidy := by
  cases move with
  | turned | retained | spared | released | made | abandoned | orphaned | dropped | begun | tried =>
    exact ⟨tidy.registries, tidy.blocks, tidy.threads, tidy.registryNames, tidy.states, tidy.held⟩
  | quiet change => exact change.tidy tidy
  | ended => exact ⟨tidy.registries, tidy.blocks, tidy.threads.erase _, tidy.registryNames, tidy.states,
      tidy.held⟩
  | locked | unlocked => exact ⟨tidy.registries.put _ _, tidy.blocks, tidy.threads.put _ _,
      tidy.registryNames, tidy.states, tidy.held⟩
  | opened => exact ⟨tidy.registries.put _ _, tidy.blocks, tidy.threads, tidy.registryNames.put _ _,
      tidy.states, tidy.held⟩
  | shared => exact ⟨tidy.registries, tidy.blocks, tidy.threads, tidy.registryNames.put _ _,
      tidy.states, tidy.held⟩
  | unnamed => exact ⟨tidy.registries, tidy.blocks, tidy.threads, tidy.registryNames.erase _,
      tidy.states, tidy.held⟩
  | closed => exact ⟨tidy.registries.erase _, tidy.blocks, tidy.threads, tidy.registryNames,
      tidy.states, tidy.held⟩
  | held => exact ⟨tidy.registries, tidy.blocks, tidy.threads, tidy.registryNames, tidy.states,
      tidy.held.put _ _⟩
  | unheld => exact ⟨tidy.registries, tidy.blocks, tidy.threads, tidy.registryNames, tidy.states,
      tidy.held.erase _⟩
  | fell => exact ⟨tidy.registries, tidy.blocks.erase _, tidy.threads, tidy.registryNames, tidy.states,
      tidy.held⟩
  | enrolled => exact ⟨tidy.registries.put _ _, tidy.blocks.put _ _, tidy.threads, tidy.registryNames,
      tidy.states, tidy.held⟩
  | entitled => exact ⟨tidy.registries, tidy.blocks, tidy.threads, tidy.registryNames,
      tidy.states.put _ _, tidy.held⟩
  | disowned => exact ⟨tidy.registries, tidy.blocks, tidy.threads, tidy.registryNames,
      tidy.states.erase _, tidy.held⟩
  | withdrawn => exact ⟨tidy.registries.put _ _, tidy.blocks, tidy.threads, tidy.registryNames,
      tidy.states, tidy.held⟩

/-! What a quiet change leaves alone. -/

structure World.Same (w after : World) : Prop where
  hashing : after.hashing = w.hashing
  blocks : after.blocks = w.blocks
  registryNames : after.registryNames = w.registryNames
  states : after.states = w.states
  held : after.held = w.held
  maps : ∀ r, after.map? r = w.map? r
  next : w.next ≤ after.next
  journal : ∃ told, after.journal = told ++ w.journal ∧
    ∀ e ∈ told, e.ofState = false ∧ e.ofObject = false

theorem World.map?_of_find? {w : World} {r : RegistryId} {registry : Registry}
    (live : w.registries.find? r = some registry) : w.map? r = some registry.contexts := by
  simp only [World.map?, live, Option.map_some]

theorem World.find?_of_map? {w : World} {r : RegistryId} {contexts : HandleMap BlockId}
    (found : w.map? r = some contexts) :
    ∃ registry, w.registries.find? r = some registry ∧ registry.contexts = contexts := by
  simpa only [World.map?, Option.map_eq_some_iff] using found

-- A registry that is put back with the contexts it had is, for all maps, the one that was there.
theorem World.map?_put_same {w after : World} {r : RegistryId} {registry changed : Registry}
    (put : after.registries = w.registries.put r changed)
    (live : w.registries.find? r = some registry) (same : changed.contexts = registry.contexts)
    (other : RegistryId) : after.map? other = w.map? other := by
  simp only [World.map?, put, Table.find?_put]
  split
  · rename_i here
    rw [here, live, Option.map_some, Option.map_some, same]
  · rfl

theorem Registry.detach_contexts (registry : Registry) (line : Ticket) :
    (registry.detach line).contexts = registry.contexts := by
  unfold Registry.detach
  split <;> rfl

theorem Quiet.same {w after : World} (change : Quiet w after) : w.Same after := by
  have silent : ∃ told, w.journal = told ++ w.journal ∧
      ∀ e ∈ told, e.ofState = false ∧ e.ofObject = false := ⟨[], rfl, by simp⟩
  have tells : ∀ e : Event, e.ofState = false → e.ofObject = false → ∃ told,
      e :: w.journal = told ++ w.journal ∧ ∀ e ∈ told, e.ofState = false ∧ e.ofObject = false :=
    fun e one two => ⟨[e], rfl, by simpa using ⟨one, two⟩⟩
  cases change with
  | @noted _ e aside =>
    refine ⟨rfl, rfl, rfl, rfl, rfl, fun _ => rfl, Nat.le_refl _, tells e ?_ ?_⟩ <;>
      cases e <;> first | rfl | cases aside
  | filed filing => exact ⟨rfl, rfl, rfl, rfl, rfl, fun _ => rfl, filing.next_le, silent⟩
  | started | looked | left | pruned | forgot | gone =>
    exact ⟨rfl, rfl, rfl, rfl, rfl, fun _ => rfl, Nat.le_refl _, silent⟩
  | asked live =>
    exact ⟨rfl, rfl, rfl, rfl, rfl, World.map?_put_same rfl live rfl, Nat.le_refl _, silent⟩
  | hit | direct =>
    exact ⟨rfl, rfl, rfl, rfl, rfl, fun _ => rfl, Nat.le_refl _, tells _ rfl rfl⟩
  | attached runs free live =>
    exact ⟨rfl, rfl, rfl, rfl, rfl, World.map?_put_same rfl live rfl, Nat.le_refl _,
      tells _ rfl rfl⟩
  | resolved runs free known live =>
    exact ⟨rfl, rfl, rfl, rfl, rfl, World.map?_put_same rfl live rfl, Nat.le_refl _,
      tells _ rfl rfl⟩
  | detached runs free memos live =>
    exact ⟨rfl, rfl, rfl, rfl, rfl,
      World.map?_put_same rfl live (Registry.detach_contexts _ _), Nat.le_refl _,
      tells _ rfl rfl⟩

/-! Threads.  A thread that is not running has no locks and remembers nothing, as a fresh one. -/

namespace Thread

variable (thread : Thread)

theorem noteLookup_depth : thread.noteLookup.depth = thread.depth := by
  unfold noteLookup
  split <;> rfl

theorem noteLookup_memos : thread.noteLookup.memos = thread.memos := by
  unfold noteLookup
  split <;> rfl

theorem noteLookup_memosGone : thread.noteLookup.memosGone = thread.memosGone := by
  unfold noteLookup
  split <;> rfl

theorem noteLookup_atExit : thread.noteLookup.atExit = thread.atExit := by
  unfold noteLookup
  split <;> rfl

end Thread

namespace World

theorem thread_of_find? {w : World} {t : ThreadId} {thread : Thread}
    (runs : w.threads.find? t = some thread) : w.thread t = thread := by
  simp only [World.thread, runs, Option.getD_some]

theorem thread_of_absent {w : World} {t : ThreadId} (absent : w.threads.find? t = none) :
    w.thread t = .fresh := by
  simp only [World.thread, absent, Option.getD_none]

theorem thread_put {w after : World} {u : ThreadId} {new : Thread}
    (put : after.threads = w.threads.put u new) (t : ThreadId) :
    after.thread t = if t = u then new else w.thread t := by
  simp only [World.thread, put, Table.find?_put]
  split <;> rfl

theorem thread_put_self {w after : World} {u : ThreadId} {new : Thread}
    (put : after.threads = w.threads.put u new) : after.thread u = new := by
  rw [thread_put put, if_pos rfl]

theorem thread_erase {w after : World} {u : ThreadId} (erase : after.threads = w.threads.erase u)
    (t : ThreadId) : after.thread t = if t = u then .fresh else w.thread t := by
  simp only [World.thread, erase, Table.find?_erase]
  split <;> rfl

end World

-- A quiet change is one thread's at most.  It takes no lock and gives none back, and the memos it
-- leaves behind are of registries that are in the world or were remembered before.
theorem Quiet.threads {w after : World} (change : Quiet w after) : after.threads = w.threads ∨
    ∃ u new, after.threads = w.threads.put u new ∧ new.depth = (w.thread u).depth ∧
      ∀ memo ∈ new.memos, (∃ old ∈ (w.thread u).memos, old.registry = memo.registry) ∨
        ∃ contexts, w.map? memo.registry = some contexts := by
  have old : ∀ {thread : Thread} {t : ThreadId} {memo : Memo}, w.threads.find? t = some thread →
      memo ∈ thread.memos → (∃ old ∈ (w.thread t).memos, old.registry = memo.registry) ∨
        ∃ contexts, w.map? memo.registry = some contexts := by
    intro thread t memo runs known
    exact .inl ⟨memo, by rwa [World.thread_of_find? runs], rfl⟩
  cases change with
  | noted | filed | asked | hit | direct => exact .inl rfl
  | started absent =>
    refine .inr ⟨_, _, rfl, by rw [World.thread_of_absent absent], ?_⟩
    intro memo known
    cases known
  | looked runs =>
    refine .inr ⟨_, _, rfl, ?_, fun memo known => old runs ?_⟩
    · rw [Thread.noteLookup_depth, World.thread_of_find? runs]
    · rwa [Thread.noteLookup_memos] at known
  | left runs =>
    exact .inr ⟨_, _, rfl, by rw [World.thread_of_find? runs], fun memo known => old runs known⟩
  | pruned runs =>
    refine .inr ⟨_, _, rfl, by rw [World.thread_of_find? runs], ?_⟩
    intro memo known
    exact old runs (List.mem_filter.mp known).1
  | attached runs free live new =>
    refine .inr ⟨_, _, rfl, by rw [World.thread_of_find? runs], ?_⟩
    intro memo known
    rcases List.mem_append.mp known with earlier | last
    · exact old runs earlier
    · rw [List.mem_singleton] at last
      subst last
      exact .inr ⟨_, World.map?_of_find? live⟩
  | resolved runs free known live =>
    refine .inr ⟨_, _, rfl, by rw [World.thread_of_find? runs]; rfl, ?_⟩
    intro memo there
    obtain ⟨earlier, listed, rfl⟩ := List.mem_map.mp there
    rw [World.thread_of_find? runs]
    refine .inl ⟨earlier, listed, ?_⟩
    split
    · rename_i same
      exact same
    · rfl
  | detached runs free memos | forgot runs memos =>
    refine .inr ⟨_, _, rfl, by rw [World.thread_of_find? runs], ?_⟩
    intro memo known
    exact old runs (memos ▸ List.mem_cons_of_mem _ known)
  | gone runs memos =>
    exact .inr ⟨_, _, rfl, by rw [World.thread_of_find? runs], fun memo known => old runs known⟩

/-! Numbers. -/

theorem Event.numbers_of_aside {e : Event} (aside : e.aside = true) : e.numbers = [] := by
  cases e <;> first | rfl | cases aside

namespace Scene

-- Every identity that can still be met has a number below the next one.
structure Numbered (s : Scene) : Prop where
  registries : ∀ r contexts, s.world.map? r = some contexts → r.number < s.world.next
  memos : ∀ t, ∀ memo ∈ (s.world.thread t).memos, memo.registry.number < s.world.next
  blocks : ∀ b block, s.world.blocks.find? b = some block → b.number < s.world.next
  works : ∀ task ∈ s.tasks, ∀ b, task.block? = some b → b.number < s.world.next
  guards : ∀ g ∈ s.guards, g.registry.number < s.world.next ∧ g.block.number < s.world.next
  journal : ∀ e ∈ s.world.journal, ∀ n ∈ e.numbers, n < s.world.next

theorem numbered_start (hashing : RegistryId → Handle → UInt64) : (start hashing).Numbered := by
  refine ⟨?_, ?_, ?_, List.forall_mem_nil _, List.forall_mem_nil _, List.forall_mem_nil _⟩
  · intro r contexts found
    simp only [start, World.start, World.map?, Table.find?_put, Table.find?_empty] at found
    split at found
    · rename_i same
      subst same
      exact Nat.one_pos
    · cases found
  · intro t memo known
    simp only [start, World.start, World.thread, Table.find?_put, Table.find?_empty] at known
    split at known <;> cases known
  · intro b block found
    cases found

theorem mem_guards {s : Scene} {g : Guard} :
    g ∈ s.guards ↔ (∃ name, (name, g) ∈ s.world.states.rows) ∨ g ∈ s.owners := by
  simp [guards]

end Scene

theorem Quiet.numbers {w after : World} (change : Quiet w after) {e : Event}
    (listed : e ∈ after.journal) {n : Nat} (named : n ∈ e.numbers) :
    e ∈ w.journal ∨ ∃ r contexts, w.map? r = some contexts ∧ n = r.number := by
  have one : ∀ {r : RegistryId} {registry : Registry} {new : Event},
      w.registries.find? r = some registry → new.numbers = [r.number] → e ∈ new :: w.journal →
      e ∈ w.journal ∨ ∃ r contexts, w.map? r = some contexts ∧ n = r.number := by
    intro r registry new live single listed
    rcases List.mem_cons.mp listed with here | earlier
    · subst here
      rw [single, List.mem_singleton] at named
      exact .inr ⟨r, _, World.map?_of_find? live, named⟩
    · exact .inl earlier
  cases change with
  | noted aside =>
    rcases List.mem_cons.mp listed with new | earlier
    · rw [new, Event.numbers_of_aside aside] at named
      cases named
    · exact .inl earlier
  | filed | started | looked | left | pruned | asked | forgot | gone => exact .inl listed
  | hit runs known live => exact one live rfl listed
  | direct runs free gone live => exact one live rfl listed
  | attached runs free live => exact one live rfl listed
  | resolved runs free known live => exact one live rfl listed
  | detached runs free memos live => exact one live rfl listed

-- Where tasks come from: a new task works on a block that was worked on, that was in the world, or
-- that was given its number just now.
theorem Move.works {s s' : Scene} (move : Move s s') {task : Task} (listed : task ∈ s'.tasks)
    {b : BlockId} (working : task.block? = some b) :
    (∃ old ∈ s.tasks, old.block? = some b) ∨ (∃ block, s.world.blocks.find? b = some block) ∨
      b = ⟨s.world.next⟩ ∧ s'.world.next = s.world.next + 1 := by
  have stays : ∀ (first : List Task), (∀ task ∈ first, task.block? = none) →
      task ∈ first ++ s.tasks → ∃ old ∈ s.tasks, old.block? = some b := by
    intro first bare there
    rcases List.mem_append.mp there with new | old
    · rw [bare task new] at working
      cases working
    · exact ⟨task, old, working⟩
  have named : ∀ {α : Type} (found : Option α) (f : α → Task), (∀ a, (f a).block? = none) →
      ∀ task ∈ (found.map f).toList, task.block? = none := by
    intro α found f bare task there
    cases found with
    | none => cases there
    | some a => rw [List.mem_singleton.mp there]; exact bare a
  have drops : ∀ {b' : BlockId} {h : Handle} {objects : List Object}, task ∈ dropTasks b' h objects →
      b' = b := by
    intro b' h objects there
    obtain ⟨object, _, rfl⟩ := List.mem_map.mp there
    exact Option.some.inj working
  cases move with
  | turned | quiet | ended | opened | entitled | disowned => exact .inl ⟨task, listed, working⟩
  | locked => exact .inl (stays [_, _] (by simp [Task.block?]) listed)
  | unnamed | retained | unheld => exact .inl (stays [_] (by simp [Task.block?]) listed)
  | shared | held => exact .inl (stays _ (named _ _ fun _ => rfl) listed)
  | unlocked first | spared first | released first | dropped _ _ _ _ _ first =>
    exact .inl ⟨task, by rw [first]; exact .tail _ listed, working⟩
  | closed r registry rest first =>
    rcases List.mem_append.mp listed with new | old
    · obtain ⟨b', _, rfl⟩ := List.mem_map.mp new
      cases working
    · exact .inl ⟨task, by rw [first]; exact .tail _ old, working⟩
  | fell b block rest first last present =>
    rcases List.mem_append.mp listed with new | old
    · rw [← drops new]
      exact .inr (.inl ⟨_, present⟩)
    · exact .inl ⟨task, by rw [first]; exact .tail _ old, working⟩
  | begun site registry live fresh =>
    rcases List.mem_cons.mp listed with rfl | old
    · cases working
      exact .inr (.inr ⟨fresh, rfl⟩)
    · exact .inl ⟨task, old, working⟩
  | tried site f later rest first =>
    rcases List.mem_cons.mp listed with rfl | old
    · cases working
      exact .inl ⟨_, by rw [first]; exact .head _, rfl⟩
    · exact .inl ⟨task, by rw [first]; exact .tail _ old, working⟩
  | made site f object rest first =>
    apply Or.inl
    have head : Task.make site f ∈ s.tasks := by rw [first]; exact .head _
    rcases List.mem_append.mp listed with new | later
    · cases earlier : site.built.object? f.slot with
      | none => rw [earlier] at new; cases new
      | some object =>
        rw [earlier] at new
        rw [List.mem_singleton.mp new] at working
        exact ⟨_, head, working⟩
    · rcases List.mem_cons.mp later with rfl | old
      · exact ⟨_, head, working⟩
      · exact ⟨task, by rw [first]; exact .tail _ old, working⟩
  | abandoned head site rest first under =>
    apply Or.inl
    rcases List.mem_append.mp listed with new | later
    · rw [← drops new]
      exact ⟨head, by rw [first]; exact .head _, Task.block?_of_site? under⟩
    · rcases List.mem_cons.mp later with rfl | old
      · cases working
      · exact ⟨task, by rw [first]; exact .tail _ old, working⟩
  | enrolled site registry entry contexts rest first =>
    rcases List.mem_cons.mp listed with rfl | old
    · cases working
    · exact .inl ⟨task, by rw [first]; exact .tail _ old, working⟩
  | withdrawn g registry contexts front back before after hands tasks
  | orphaned g thread front back before after hands tasks =>
    simp only [World.guardTasks, List.mem_append, List.mem_cons, List.not_mem_nil, or_false] at listed
    rcases listed with (before | rfl | rfl) | after
    · exact .inl ⟨task, by rw [tasks]; exact List.mem_append_left _ before, working⟩
    · cases working
    · cases working
    · exact .inl ⟨task, by rw [tasks]; exact List.mem_append_right _ after, working⟩

theorem Move.guards {s s' : Scene} (move : Move s s') {g : Guard} (listed : g ∈ s'.guards) :
    g ∈ s.guards ∨ ∃ site rest registry, s.tasks = .construct site :: rest ∧
      s.world.registries.find? site.registry = some registry ∧ g.registry = site.registry ∧
      g.block = site.block := by
  rw [Scene.mem_guards] at listed ⊢
  cases move with
  | quiet change => rw [change.same.states] at listed; exact .inl listed
  | turned | ended | locked | unlocked | opened | shared | unnamed | retained | spared | closed | held
  | unheld | released | fell | begun | tried | made | abandoned | dropped => exact .inl listed
  | enrolled site registry entry contexts rest first live inserted =>
    rcases listed with named | hands
    · exact .inl (.inl named)
    · rcases List.mem_append.mp hands with old | new
      · exact .inl (.inr old)
      · rw [List.mem_singleton] at new
        subst new
        exact .inr ⟨site, rest, registry, first, live, rfl, rfl⟩
  | entitled name g hands new =>
    rcases listed with ⟨name, row⟩ | none
    · simp only [Table.rows_put new, List.mem_append, List.mem_singleton, Prod.mk.injEq] at row
      rcases row with old | ⟨_, rfl⟩
      · exact .inl (.inl ⟨name, old⟩)
      · exact .inl (.inr (by rw [hands]; exact .head _))
    · cases none
  | disowned name g named =>
    rcases listed with ⟨name, row⟩ | hands
    · exact .inl (.inl ⟨name, (List.mem_filter.mp row).1⟩)
    · rcases List.mem_cons.mp hands with rfl | old
      · exact .inl (.inl ⟨_, Table.mem_of_find? named⟩)
      · exact .inl (.inr old)
  | withdrawn g registry contexts front back before after hands
  | orphaned g thread front back before after hands =>
    rcases listed with named | left
    · exact .inl (.inl named)
    · refine .inl (.inr ?_)
      rw [hands]
      rcases List.mem_append.mp left with front | back
      · exact List.mem_append_left _ front
      · exact List.mem_append_right _ (.tail _ back)

-- Which registries are in the world: a move opens the one whose number is next, or closes one.
theorem Move.maps {s s' : Scene} (move : Move s s') {r : RegistryId} {contexts : HandleMap BlockId}
    (found : s'.world.map? r = some contexts) :
    (∃ old, s.world.map? r = some old) ∨ r = ⟨s.world.next⟩ ∧ s'.world.next = s.world.next + 1 := by
  cases move with
  | quiet change => exact .inl ⟨contexts, by rw [← change.same.maps]; exact found⟩
  | turned | ended | shared | unnamed | retained | spared | held | unheld | released | fell | begun
  | tried | made | abandoned | entitled | disowned | orphaned | dropped => exact .inl ⟨contexts, found⟩
  | locked runs free live | unlocked first runs live =>
    refine .inl ⟨contexts, ?_⟩
    rw [← found]
    exact (World.map?_put_same rfl live (by rfl) r).symm
  | opened =>
    simp only [World.map?, Table.find?_put] at found
    split at found
    · rename_i new
      exact .inr ⟨new, rfl⟩
    · exact .inl ⟨contexts, found⟩
  | closed r' registry rest first last live =>
    simp only [World.map?, Table.find?_erase] at found
    split at found
    · cases found
    · exact .inl ⟨contexts, found⟩
  | enrolled site registry entry grown rest first live =>
    have grew := found
    simp only [World.note, World.map?, World.setRegistry, Table.find?_put] at grew
    split at grew
    · rename_i here
      exact .inl ⟨_, by rw [here, World.map?_of_find? live]⟩
    · exact .inl ⟨contexts, grew⟩
  | withdrawn g registry left front back before after hands tasks live =>
    have shrank := found
    simp only [World.note, World.map?, World.setRegistry, Table.find?_put] at shrank
    split at shrank
    · rename_i here
      exact .inl ⟨_, by rw [here, World.map?_of_find? live]⟩
    · exact .inl ⟨contexts, shrank⟩

theorem Move.next_le {s s' : Scene} (move : Move s s') : s.world.next ≤ s'.world.next := by
  cases move with
  | quiet change => exact change.same.next
  | opened | begun | made => exact Nat.le_succ _
  | turned | ended | locked | unlocked | shared | unnamed | retained | spared | closed | held | unheld
  | released | fell | tried | abandoned | enrolled | entitled | disowned | withdrawn | orphaned
  | dropped => exact Nat.le_refl _

theorem Move.blocks {s s' : Scene} (move : Move s s') {b : BlockId} {block : Block}
    (present : s'.world.blocks.find? b = some block) :
    s.world.blocks.find? b = some block ∨ ∃ site rest, s.tasks = .construct site :: rest ∧
      b = site.block ∧ block = site.built := by
  cases move with
  | quiet change => rw [change.same.blocks] at present; exact .inl present
  | turned | ended | locked | unlocked | opened | shared | unnamed | retained | spared | closed | held
  | unheld | released | begun | tried | made | abandoned | entitled | disowned | withdrawn | orphaned
  | dropped => exact .inl present
  | fell =>
    simp only [Table.find?_erase] at present
    split at present
    · cases present
    · exact .inl present
  | enrolled site registry entry contexts rest first live =>
    simp only [World.note, World.setRegistry, Table.find?_put] at present
    split at present
    · rename_i here
      cases present
      exact .inr ⟨site, rest, first, here, rfl⟩
    · exact .inl present

-- The memos of threads are lost in a move, or they are a quiet change's.
theorem Move.memos {s s' : Scene} (move : Move s s') {t : ThreadId} {memo : Memo}
    (known : memo ∈ (s'.world.thread t).memos) :
    (∃ old ∈ (s.world.thread t).memos, old.registry = memo.registry) ∨
      ∃ contexts, s.world.map? memo.registry = some contexts := by
  cases move with
  | quiet change =>
    rcases change.threads with equal | ⟨u, new, put, _, sub⟩
    · exact .inl ⟨memo, by simpa only [World.thread, equal] using known, rfl⟩
    · rw [World.thread_put put] at known
      split at known
      · rename_i here
        rw [here]
        exact sub memo known
      · exact .inl ⟨memo, known, rfl⟩
  | ended runs =>
    rw [World.thread_erase rfl] at known
    split at known
    · cases known
    · exact .inl ⟨memo, known, rfl⟩
  | locked runs | unlocked first runs =>
    rw [World.thread_put rfl] at known
    split at known
    · rename_i here
      exact .inl ⟨memo, by rw [here, World.thread_of_find? runs]; exact known, rfl⟩
    · exact .inl ⟨memo, known, rfl⟩
  | turned | opened | shared | unnamed | retained | spared | closed | held | unheld | released | fell
  | begun | tried | made | abandoned | enrolled | entitled | disowned | withdrawn | orphaned
  | dropped => exact .inl ⟨memo, known, rfl⟩

theorem Move.numbered {s s' : Scene} (numbered : s.Numbered) (move : Move s s') : s'.Numbered := by
  have next := move.next_le
  have ahead : ∀ {n : Nat}, n < s.world.next → n < s'.world.next := fun old => Nat.lt_of_lt_of_le old next
  have under : ∀ task ∈ s.tasks, ∀ site, task.site? = some site → site.block.number < s.world.next :=
    fun task listed site under => numbered.works task listed _ (Task.block?_of_site? under)
  refine ⟨?_, ?_, ?_, ?_, ?_, ?_⟩
  · intro r contexts found
    rcases move.maps found with ⟨old, before⟩ | ⟨rfl, grew⟩
    · exact ahead (numbered.registries r old before)
    · rw [grew]
      exact Nat.lt_succ_self _
  · intro t memo known
    rcases move.memos known with ⟨old, before, same⟩ | ⟨contexts, live⟩
    · rw [← same]
      exact ahead (numbered.memos t old before)
    · exact ahead (numbered.registries _ contexts live)
  · intro b block present
    rcases move.blocks present with before | ⟨site, rest, first, rfl, _⟩
    · exact ahead (numbered.blocks b block before)
    · exact ahead (under _ (by rw [first]; exact .head _) site rfl)
  · intro task listed b working
    rcases move.works listed working with ⟨old, before, same⟩ | ⟨block, present⟩ | ⟨rfl, grew⟩
    · exact ahead (numbered.works old before b same)
    · exact ahead (numbered.blocks b block present)
    · rw [grew]
      exact Nat.lt_succ_self _
  · intro g listed
    rcases move.guards listed with before | ⟨site, rest, registry, first, live, registryIs, blockIs⟩
    · exact ⟨ahead (numbered.guards g before).1, ahead (numbered.guards g before).2⟩
    · rw [registryIs, blockIs]
      exact ⟨ahead (numbered.registries _ _ (World.map?_of_find? live)),
        ahead (under _ (by rw [first]; exact .head _) site rfl)⟩
  · intro e listed n named
    have old : ∀ {e : Event}, e ∈ s.world.journal → n ∈ e.numbers → n < s'.world.next :=
      fun before named => ahead (numbered.journal _ before n named)
    have hands : ∀ {front back : List Guard} {g : Guard}, s.owners = front ++ g :: back →
        n ∈ [g.registry.number, g.block.number] → n < s'.world.next := by
      intro front back g hands named
      have both := numbered.guards g (Scene.mem_guards.mpr (.inr (by rw [hands]; simp)))
      simp only [List.mem_cons, List.not_mem_nil, or_false] at named
      rcases named with rfl | rfl
      · exact ahead both.1
      · exact ahead both.2
    cases move with
    | quiet change =>
      rcases change.numbers listed named with before | ⟨r, contexts, live, rfl⟩
      · exact old before named
      · exact ahead (numbered.registries r contexts live)
    | turned | locked | unlocked | opened | shared | unnamed | retained | spared | closed | held
    | unheld | released | fell | begun | abandoned | entitled | disowned => exact old listed named
    | ended | tried =>
      rcases List.mem_cons.mp listed with rfl | before
      · cases named
      · exact old before named
    | made site f object rest first fresh =>
      rcases List.mem_cons.mp listed with rfl | before
      · simp only [Event.numbers, List.mem_cons, List.not_mem_nil, or_false] at named
        rcases named with rfl | rfl
        · exact ahead (under _ (by rw [first]; exact .head _) site rfl)
        · rw [fresh]
          exact Nat.lt_succ_self _
      · exact old before named
    | enrolled site registry entry contexts rest first live =>
      rcases List.mem_cons.mp listed with rfl | before
      · simp only [Event.numbers, List.mem_cons, List.not_mem_nil, or_false] at named
        rcases named with rfl | rfl
        · exact ahead (numbered.registries _ _ (World.map?_of_find? live))
        · exact ahead (under _ (by rw [first]; exact .head _) site rfl)
      · exact old before named
    | withdrawn g registry contexts front back before after owned =>
      rcases List.mem_cons.mp listed with rfl | before
      · exact hands owned named
      · exact old before named
    | orphaned g thread front back before after owned =>
      rcases List.mem_cons.mp listed with rfl | before
      · exact hands owned named
      · exact old before named
    | dropped b h object registered rest first =>
      rcases List.mem_cons.mp listed with rfl | before
      · simp only [Event.numbers, List.mem_singleton] at named
        subst named
        exact ahead (numbered.works (.dropObject b h object) (by rw [first]; exact .head _) b rfl)
      · exact old before named

namespace Scene.Arises

theorem tidy {hashing : RegistryId → Handle → UInt64} {s : Scene} (arisen : Arises hashing s) :
    s.world.Tidy := by
  induction arisen with
  | refl => exact World.tidy_start hashing
  | tail _ move ih => exact move.tidy ih

theorem numbered {hashing : RegistryId → Handle → UInt64} {s : Scene} (arisen : Arises hashing s) :
    s.Numbered := by
  induction arisen with
  | refl => exact Scene.numbered_start hashing
  | tail _ move ih => exact move.numbered ih

end Scene.Arises

end AttachedState
