import AttachedState.Proofs.Isolation
import AttachedState.Proofs.Turns

/-!
Rounds.  A command that is on a registry is carried out on its counterpart in the same way, from the
first task to the last; a block that it makes has a counterpart from then on.
-/

namespace AttachedState

-- The factories of simple supplies are inert.
theorem World.factories_inert {w : World} {supplies : List (Supply Action)} {factories : List Factory}
    (made : supplies.mapM (·.factory? w) = some factories)
    (simple : ∀ supply ∈ supplies, supply.Simple w) : ∀ f ∈ factories, f.Inert := by
  intro f listed
  obtain ⟨supply, supplied, same⟩ := World.exists_supply (map_of_mapM made) listed
  obtain ⟨key, found, rfl⟩ := World.factory?_eq_some.mp same
  obtain ⟨before, source, kind⟩ := simple supply supplied
  exact ⟨kind key found, before, source⟩

theorem Machine.run_step (m : Machine) : m.step.run = m.run := by
  rw [← m.step.run_eq_steps m.work, ← m.run_eq_steps (m.step.work + 1), Nat.add_comm m.step.work,
    ← Nat.add_assoc]
  rfl

/-! Starting a thread, which nothing else depends on. -/

theorem World.contains_startThread (w : World) (t u : ThreadId) :
    (w.startThread t).threads.contains u = (decide (u = t) || w.threads.contains u) := by
  unfold World.startThread
  split
  · rename_i there
    by_cases here : u = t
    · rw [here, there, Bool.or_true]
    · simp [here]
  · exact Table.contains_put ..

theorem Action.registry?_startThread (w : World) (t : ThreadId) (action : Action) :
    action.registry? (w.startThread t) = action.registry? w := by
  obtain ⟨threads, started⟩ := w.startThread_eq t
  rw [started]
  cases action with
  | operate operation => cases operation <;> rfl
  | create | whileLocked => rfl

theorem Action.Orderly.startThread {w : World} {action : Action} (orderly : action.Orderly w)
    (t : ThreadId) : action.Orderly (w.startThread t) := by
  obtain ⟨threads, started⟩ := w.startThread_eq t
  have same := w.thread_startThread t
  rw [started] at same ⊢
  have unleft : ∀ {name : Name}, w.Unleft name → ({ w with threads } : World).Unleft name := by
    intro name unleft u retrieval listed
    rw [same] at listed
    exact unleft u retrieval listed
  cases orderly with
  | create creation supplies names simple =>
    exact .create creation supplies names fun supply listed =>
      ⟨(simple supply listed).before, (simple supply listed).source, (simple supply listed).kind⟩
  | operate orderly =>
    refine .operate ?_
    cases orderly with
    | openRegistry name looks clear => exact .openRegistry name looks (unleft clear)
    | dropRegistry name clear => exact .dropRegistry name (unleft clear)
    | retrieve retrieval names => exact .retrieve retrieval names
    | _ => constructor

namespace Counterpart

variable {c d : Counterpart} {mine : Name → Prop}

/-! More blocks. -/

-- The same counterparts, with more blocks that correspond to each other.
structure Extends (c d : Counterpart) : Prop where
  here : d.here = c.here
  there : d.there = c.there
  blocks : ∀ b, c.owns b = true → d.owns b = true ∧ d.block b = c.block b

namespace Extends

variable {e : Counterpart}

theorem refl (c : Counterpart) : c.Extends c := ⟨rfl, rfl, fun _ owns => ⟨owns, rfl⟩⟩

theorem trans (first : c.Extends d) (next : d.Extends e) : c.Extends e := by
  refine ⟨next.here.trans first.here, next.there.trans first.there, fun b owns => ?_⟩
  obtain ⟨one, same⟩ := first.blocks b owns
  obtain ⟨two, sameToo⟩ := next.blocks b one
  exact ⟨two, sameToo.trans same⟩

theorem map_block (extends' : c.Extends d) {found : Option BlockId}
    (owned : ∀ b, found = some b → c.owns b = true) : found.map d.block = found.map c.block := by
  cases found with
  | none => rfl
  | some b => rw [Option.map_some, Option.map_some, (extends'.blocks b (owned b rfl)).2]

theorem maps (extends' : c.Extends d) {m n : HandleMap BlockId} (maps : c.Maps m n) : d.Maps m n := by
  have same : m.renamed d.block = m.renamed c.block :=
    HandleMap.renamed_congr fun t h b there => (extends'.blocks b (maps.owned t h b there)).2
  refine ⟨maps.valid, maps.validToo, ?_, fun t h b there => (extends'.blocks b (maps.owned t h b there)).1⟩
  rw [same]
  exact maps.alike

theorem registries (extends' : c.Extends d) {x y : Registry} (related : c.Registries x y) :
    d.Registries x y := ⟨related.label, related.lines, extends'.maps related.maps⟩

theorem both (extends' : c.Extends d) {x y : Option Registry} (related : Option.Rel c.Registries x y) :
    Option.Rel d.Registries x y := by
  cases related with
  | none => exact .none
  | some related => exact .some (extends'.registries related)

theorem threads (extends' : c.Extends d) {live : Prop} {x y : Thread} (threads : c.Threads live x y) :
    d.Threads live x y := by
  refine ⟨threads.plain, threads.plainToo, fun lives => ?_, fun memo listed here b block => ?_, ?_⟩
  · rw [extends'.there, extends'.here, threads.memos lives]
    refine List.map_congr_left fun memo listed => ?_
    obtain ⟨known, here⟩ := List.mem_filter.mp listed
    have owned := threads.blocks memo known (of_decide_eq_true here)
    simp only [Counterpart.memo, extends'.there, extends'.map_block owned]
  · rw [extends'.here] at here
    exact (extends'.blocks b (threads.blocks memo listed here b block)).1
  · rw [extends'.there]
    exact threads.alone

-- What was told alike stays alike.
theorem events (extends' : c.Extends d) {e e' : Event} (same : c.Events e e') : d.Events e e' := by
  have blocks := extends'.blocks
  cases same with
  | factoryStarted owns slot h =>
    rw [← (blocks _ owns).2]
    exact .factoryStarted (blocks _ owns).1 slot h
  | objectMade owns slot alike =>
    rw [← (blocks _ owns).2]
    exact .objectMade (blocks _ owns).1 slot alike
  | objectDropped owns h alike =>
    rw [← (blocks _ owns).2]
    exact .objectDropped (blocks _ owns).1 h alike
  | slotOverwritten h slot => exact .slotOverwritten h slot
  | stateCreated owns entry h count =>
    rw [← (blocks _ owns).2, ← extends'.here, ← extends'.there]
    exact .stateCreated (blocks _ owns).1 entry h count
  | stateRemoved owns entry h scrubbed =>
    rw [← (blocks _ owns).2, ← extends'.here, ← extends'.there]
    exact .stateRemoved (blocks _ owns).1 entry h scrubbed
  | lineAttached t label line =>
    rw [← extends'.here, ← extends'.there]
    exact .lineAttached t label line
  | lineDetached t line =>
    rw [← extends'.here, ← extends'.there]
    exact .lineDetached t line
  | lookedUp owned t h route =>
    rw [← extends'.map_block owned, ← extends'.here, ← extends'.there]
    exact .lookedUp (fun b found => (blocks b (owned b found)).1) t h route
  | answered answer => exact .answered answer
  | exitRetrieved answer caches =>
    rw [← extends'.here, ← extends'.there]
    exact .exitRetrieved answer caches

end Extends

-- A further block here, and one there.
def extended (c : Counterpart) (b b' : BlockId) : Counterpart :=
  { c with
    owns := fun other => other = b || c.owns other
    block := fun other => if other = b then b' else c.block other }

section Extended

variable {b b' other : BlockId}

theorem extended_owns (c : Counterpart) (b b' : BlockId) : (c.extended b b').owns b = true := by
  simp [extended]

theorem extended_block (c : Counterpart) (b b' : BlockId) : (c.extended b b').block b = b' := if_pos rfl

theorem extended_owns_of_ne (ne : other ≠ b) : (c.extended b b').owns other = c.owns other := by
  simp [extended, ne]

theorem extended_block_of_ne (ne : other ≠ b) : (c.extended b b').block other = c.block other :=
  if_neg ne

theorem extends_extended (new : c.owns b = false) (b' : BlockId) : c.Extends (c.extended b b') := by
  refine ⟨rfl, rfl, fun other owns => ?_⟩
  have ne : other ≠ b := by
    rintro rfl
    rw [new] at owns
    cases owns
  rw [extended_owns_of_ne ne, extended_block_of_ne ne]
  exact ⟨owns, rfl⟩

end Extended

end Counterpart

/-! The next block, which nothing stands for yet. -/

namespace Scene.Arises

variable {hashing : RegistryId → Handle → UInt64} {w : World} {t : ThreadId} {later : List Task}
  {b : BlockId} {name : Name}

theorem absent_next (arisen : Scene.Arises hashing ⟨w, t, [], later⟩) : w.blocks.find? ⟨w.next⟩ = none := by
  rw [Option.eq_none_iff_forall_not_mem]
  exact fun block found => Nat.lt_irrefl _ ((Scene.Arises.numbered arisen).blocks _ block found)

theorem ne_next (arisen : Scene.Arises hashing ⟨w, t, [], later⟩) (there : w.blocks.contains b = true) :
    b ≠ ⟨w.next⟩ := by
  rintro rfl
  rw [Table.not_contains_iff.mpr (absent_next arisen)] at there
  cases there

theorem guard_ne_next (arisen : Scene.Arises hashing ⟨w, t, [], later⟩) {g : Guard}
    (named : w.states.find? name = some g) : g.block ≠ ⟨w.next⟩ := by
  have owner : g ∈ (⟨w, t, [], later⟩ : Scene).guards :=
    Scene.mem_guards.mpr (.inl ⟨name, Table.mem_of_find? named⟩)
  have less := ((Scene.Arises.numbered arisen).guards g owner).2
  intro new
  rw [new] at less
  exact Nat.lt_irrefl _ less

theorem held_ne_next (arisen : Scene.Arises hashing ⟨w, t, [], later⟩)
    (named : w.held.find? name = some b) : b ≠ ⟨w.next⟩ := by
  have held : w.held.any (· = b) = true :=
    (Table.any_iff (Scene.Arises.tidy arisen).held).mpr ⟨name, b, named, by simp⟩
  have needed : (⟨w, t, [], later⟩ : Scene).needsBlock b = true := by
    simp [Scene.needsBlock, World.refersToBlock, held]
  exact ne_next arisen (((Scene.Arises.live arisen).blocks b).trans needed)

theorem registered_ne_next (arisen : Scene.Arises hashing ⟨w, t, [], later⟩) {r : RegistryId}
    {contexts : HandleMap BlockId} {entry : Ticket} {h : Handle} (found : w.map? r = some contexts)
    (there : contexts.entry? entry = some (h, b)) : b ≠ ⟨w.next⟩ := by
  obtain ⟨block, here⟩ :=
    (Scene.Arises.live arisen).block_registered (Scene.Arises.tidy arisen) ⟨contexts, found, there⟩
  exact ne_next arisen (Table.contains_iff.mpr ⟨block, here⟩)

theorem created_ne_next (arisen : Scene.Arises hashing ⟨w, t, [], later⟩) {r : RegistryId}
    {entry : Ticket} {h : Handle} {slots : Nat} (told : .stateCreated r entry b h slots ∈ w.journal) :
    b ≠ ⟨w.next⟩ := by
  have less := (Scene.Arises.numbered arisen).journal _ told b.number (by simp [Event.numbers])
  rintro rfl
  exact Nat.lt_irrefl _ less

end Scene.Arises

namespace Counterpart

variable {c : Counterpart}

namespace Worlds

variable {hashing hashingToo : RegistryId → Handle → UInt64} {w w' : World} {t u : ThreadId}
  {b : BlockId} {later laterToo : List Task}

theorem not_owns (worlds : c.Worlds w w') : c.owns ⟨w.next⟩ = false := by
  cases owns : c.owns ⟨w.next⟩ with
  | false => rfl
  | true => exact absurd (worlds.old _ owns).1 (Nat.lt_irrefl _)

theorem injective_extended (worlds : c.Worlds w w') {d : BlockId}
    (owns : (c.extended ⟨w.next⟩ ⟨w'.next⟩).owns b = true)
    (ownsToo : (c.extended ⟨w.next⟩ ⟨w'.next⟩).owns d = true)
    (same : (c.extended ⟨w.next⟩ ⟨w'.next⟩).block b = (c.extended ⟨w.next⟩ ⟨w'.next⟩).block d) : b = d := by
  have old : ∀ {b : BlockId}, b ≠ ⟨w.next⟩ → (c.extended ⟨w.next⟩ ⟨w'.next⟩).owns b = true →
      c.owns b = true ∧ c.block b ≠ ⟨w'.next⟩ := by
    intro b ne owns
    rw [extended_owns_of_ne ne] at owns
    refine ⟨owns, fun new => ?_⟩
    have less := (worlds.old b owns).2
    rw [new] at less
    exact Nat.lt_irrefl _ less
  by_cases new : b = ⟨w.next⟩ <;> by_cases newToo : d = ⟨w.next⟩
  · rw [new, newToo]
  · rw [new, extended_block, extended_block_of_ne newToo] at same
    exact absurd same.symm (old newToo ownsToo).2
  · rw [newToo, extended_block, extended_block_of_ne new] at same
    exact absurd same (old new owns).2
  · rw [extended_block_of_ne new, extended_block_of_ne newToo] at same
    exact worlds.injective b d (old new owns).1 (old newToo ownsToo).1 same

-- The next block of one world corresponds to the next one of the other.
theorem extended (worlds : c.Worlds w w') (arisen : Scene.Arises hashing ⟨w, t, [], later⟩)
    (arisenToo : Scene.Arises hashingToo ⟨w', u, [], laterToo⟩) (born : c.here.number < w.next) :
    (c.extended ⟨w.next⟩ ⟨w'.next⟩).Worlds
      { w with next := w.next + 1 } { w' with next := w'.next + 1 } := by
  have extends' := extends_extended worlds.not_owns ⟨w'.next⟩
  have tidy := Scene.Arises.tidy arisen
  have fewer := worlds.counted born
  refine ⟨fun b d => worlds.injective_extended, fun d owns => ?_, fewer.unborn, worlds.global, worlds.keys,
    worlds.names, ?_, ?_, ?_, worlds.running, fun u => extends'.threads (worlds.threads u),
    fun d owns => ?_, worlds.inert, ?_, ?_, worlds.alone, ?_⟩
  · by_cases new : d = ⟨w.next⟩
    · rw [new, extended_block]
      exact ⟨Nat.lt_succ_self _, Nat.lt_succ_self _⟩
    · rw [extended_owns_of_ne new] at owns
      rw [extended_block_of_ne new]
      exact fewer.old d owns
  · rw [worlds.states]
    refine Table.narrow_congr fun row listed => ?_
    have old := Scene.Arises.guard_ne_next arisen (Table.find?_of_mem tidy.states listed)
    simp only [guard, extended_block_of_ne old]
    rfl
  · rw [worlds.held]
    refine Table.narrow_congr fun row listed => ?_
    have old := Scene.Arises.held_ne_next arisen (Table.find?_of_mem tidy.held listed)
    simp only [kept, extended_owns_of_ne old, extended_block_of_ne old]
  · exact extends'.both worlds.registry
  · by_cases new : d = ⟨w.next⟩
    · simp only [new, extended_block, Scene.Arises.absent_next arisen, Scene.Arises.absent_next arisenToo]
    · rw [extended_owns_of_ne new] at owns
      rw [extended_block_of_ne new]
      exact worlds.blocks d owns
  · intro name g found
    rw [extended_owns_of_ne (Scene.Arises.guard_ne_next arisen found)]
    exact worlds.guards name g found
  · intro r contexts ticket h b found entry
    rw [extended_owns_of_ne (Scene.Arises.registered_ne_next arisen found entry)]
    exact worlds.apart r contexts ticket h b found entry
  · intro r entry b h slots listed
    rw [extended_owns_of_ne (Scene.Arises.created_ne_next arisen listed)]
    exact worlds.created r entry b h slots listed

-- A thread that is started is as one that is not there.
theorem started (worlds : c.Worlds w w') (t : ThreadId) :
    c.Worlds (w.startThread t) (w'.startThread t) := by
  obtain ⟨threads, started⟩ := w.startThread_eq t
  obtain ⟨threadsToo, startedToo⟩ := w'.startThread_eq t
  have same := w.thread_startThread t
  have sameToo := w'.thread_startThread t
  have runs := w.contains_startThread t
  have runsToo := w'.contains_startThread t
  rw [started] at same runs ⊢
  rw [startedToo] at sameToo runsToo ⊢
  refine { worlds with running := fun u there => ?_, threads := fun u => ?_ }
  · rw [runsToo, Bool.or_eq_true] at there
    rw [runs, Bool.or_eq_true]
    exact there.imp_right (worlds.running u)
  · rw [same, sameToo]
    exact worlds.threads u

/-! Operations. -/

theorem births_held (arisen : Scene.Arises hashing ⟨w, t, [], later⟩) {name : Name}
    (held : w.held.find? name = some b) : b ∈ w.births := by
  have named : w.held.any (· = b) = true :=
    (Table.any_iff (Scene.Arises.tidy arisen).held).mpr ⟨name, b, held, by simp⟩
  obtain ⟨block, found⟩ := (Scene.Arises.live arisen).block_of_needed (b := b)
    (by simp [Scene.needsBlock, World.refersToBlock, named])
  exact (Scene.Arises.custody arisen).born b block found

theorem operate (worlds : c.Worlds w w') (arisen : Scene.Arises hashing ⟨w, t, [], later⟩)
    (arisenToo : Scene.Arises hashingToo ⟨w', t, [], laterToo⟩) (runs : w.Runs t) (runsToo : w'.Runs t)
    {operation : Operation} (orderly : operation.Orderly w) (on : operation.registry? w = some c.here) :
    c.Outcomes mine (w.asked t (.operate operation)) (w'.asked t (.operate operation))
      (w.operate t operation) (w'.operate t operation) := by
  have tidy := Scene.Arises.tidy arisen
  have live := Scene.Arises.live arisen
  cases orderly with
  | openRegistry name looks unleft =>
    rw [World.operate_openRegistry runs (worlds.free t).1,
      World.operate_openRegistry runsToo (worlds.free t).2]
    simp only [Operation.registry?] at on
    split at on
    · cases on
    · rename_i unnamed
      exact worlds.newRegistry tidy (Option.not_isSome_iff_eq_none.mp unnamed) unleft
        (Option.some.inj on).symm (Scene.Arises.numbered arisen).memos
        (Scene.Arises.numbered arisenToo).memos
  | dropRegistry name unleft => exact worlds.dropRegistry tidy unleft on
  | destroy state =>
    obtain ⟨g, named, here⟩ := Option.map_eq_some_iff.mp on
    obtain ⟨x, left, found, removed⟩ := World.remove?_of_guard arisen
      (Scene.mem_guards.mpr (.inl ⟨state, Table.mem_of_find? named⟩))
    rw [here] at found
    exact worlds.destroy tidy runs runsToo named here found (HandleMap.entry?_of_remove? removed)
  | retrieve retrieval names =>
    obtain ⟨x, found⟩ := live.registry_named tidy on
    refine worlds.retrieve arisen runs found on fun name d kept held => ?_
    exact (worlds.home_iff (births_held arisen held)).mp ((names name d kept held).trans on)
  | release block =>
    obtain ⟨b, held, home⟩ := Option.bind_eq_some_iff.mp on
    exact worlds.release tidy held ((worlds.home_iff (births_held arisen held)).mp home)
  | showRegistry name layout =>
    obtain ⟨x, found⟩ := live.registry_named tidy on
    refine worlds.askRegistry tidy runs runsToo found on fun x y related => ?_
    rw [related.handles, related.lines, related.outline]
  | contains name address =>
    obtain ⟨x, found⟩ := live.registry_named tidy on
    exact worlds.contains tidy runs runsToo found on address
  | countContexts name =>
    obtain ⟨x, found⟩ := live.registry_named tidy on
    refine worlds.askRegistry tidy runs runsToo found on fun x y related => ?_
    rw [related.maps.size]
  | countCaches name =>
    obtain ⟨x, found⟩ := live.registry_named tidy on
    refine worlds.askRegistry tidy runs runsToo found on fun x y related => ?_
    rw [related.lines]

-- Either creation is refused for the same reason, or both begin.
theorem beginCreation (worlds : c.Worlds w w') (arisen : Scene.Arises hashing ⟨w, t, [], later⟩)
    (runs : w.Runs t) (runsToo : w'.Runs t) {creation : Creation} {supplies : List (Supply Action)}
    (named : w.registryNamed? creation.registry = some c.here)
    (names : ∀ g, w.states.find? creation.state = some g → g.registry = c.here)
    (simple : ∀ supply ∈ supplies, supply.Simple w) :
    (∃ failure, w.beginCreation t none creation supplies = (.error failure, w) ∧
      w'.beginCreation t none creation supplies = (.error failure, w')) ∨
    ∃ site other, w.beginCreation t none creation supplies = (.ok site, { w with next := w.next + 1 }) ∧
      w'.beginCreation t none creation supplies = (.ok other, { w' with next := w'.next + 1 }) ∧
      (c.extended ⟨w.next⟩ ⟨w'.next⟩).Sites (· = creation.state) site other := by
  have tidy := Scene.Arises.tidy arisen
  obtain ⟨x, live⟩ := (Scene.Arises.live arisen).registry_named tidy named
  obtain ⟨y, found, related⟩ := worlds.registry_of_find? live
  have states : w'.states.contains creation.state = w.states.contains creation.state := by
    unfold Table.contains
    rw [worlds.state tidy]
    cases stands : w.states.find? creation.state with
    | none => rfl
    | some g =>
      rw [Option.bind_some, guard_eq_some.mpr ⟨names g stands, rfl⟩]
      rfl
  have factories : supplies.mapM (·.factory? w') = supplies.mapM (·.factory? w) := by
    unfold Supply.factory?
    rw [worlds.keys]
  unfold World.beginCreation
  rw [named, (worlds.named tidy).mpr named, states, factories]
  cases Handle.ofAddress? creation.address with
  | none => exact .inl ⟨_, rfl, rfl⟩
  | some h =>
    cases w.states.contains creation.state with
    | true => exact .inl ⟨_, rfl, rfl⟩
    | false =>
      cases made : supplies.mapM (·.factory? w) with
      | none => exact .inl ⟨_, rfl, rfl⟩
      | some factories =>
        simp only [World.underLock?_free runs (worlds.free t).1 live,
          World.underLock?_free runsToo (worlds.free t).2 found, related.maps.contains, Bool.false_eq_true,
          if_false]
        cases x.contexts.contains h with
        | true => exact .inl ⟨_, rfl, rfl⟩
        | false =>
          refine .inr ⟨_, _, rfl, rfl, ?_⟩
          refine ⟨rfl, rfl, rfl, rfl, rfl, rfl, extended_owns c _ _, (extended_block c _ _).symm, rfl, rfl,
            rfl, fun object listed => ?_, World.factories_inert made simple⟩
          simp [Construction.built, Block.objects] at listed

end Worlds

/-! Machines. -/

-- Two machines that have corresponding things to do with counterparts.  What is to be registered gets
-- no name that another registry's state has.
structure Turns (c : Counterpart) (mine : Name → Prop) (m m' : Machine) : Prop where
  thread : m'.thread = m.thread
  worlds : c.Worlds m.world m'.world
  tasks : List.Forall₂ (c.Tasks mine) m.tasks m'.tasks
  names : ∀ name, mine name → ∀ g, m.world.states.find? name = some g → g.registry = c.here

section Machines

variable {hashing hashingToo : RegistryId → Handle → UInt64} {m m' : Machine}

theorem Sites.live {site other : Construction} (sites : c.Sites mine site other)
    (reached : m.Reached hashing) {task : Task} (listed : task ∈ m.tasks) (under : task.site? = some site) :
    ∃ registry, m.world.registries.find? c.here = some registry := by
  have bears : task.bears = true := by
    cases task <;> first | rfl | cases under
  refine (Scene.Arises.live reached.arises).registry_of_task (List.mem_filter.mpr ⟨listed, bears⟩) ?_
  rw [Task.refersToRegistry_of_site? under, decide_eq_true_eq]
  exact sites.here

theorem Turns.step (turns : c.Turns mine m m') (reached : m.Reached hashing)
    (reachedToo : m'.Reached hashingToo) :
    c.Tells m.world m'.world m.step.world m'.step.world ∧
      c.Plans m.world m'.world m.step.world m'.step.world ∧ c.Turns mine m.step m'.step := by
  obtain ⟨w, t, tasks⟩ := m
  obtain ⟨w', t', tasksToo⟩ := m'
  obtain ⟨thread, worlds, both, names⟩ := turns
  simp only at thread worlds both names
  subst thread
  have tidy : w.Tidy := Scene.Arises.tidy reached.arises
  have tidyToo : w'.Tidy := Scene.Arises.tidy reachedToo.arises
  cases both with
  | nil => exact ⟨⟨[], [], rfl, rfl, .nil⟩, .same rfl rfl rfl, rfl, worlds, .nil, names⟩
  | @cons task taskToo later laterToo first both =>
    have steps : c.Steps mine w w' (w.take t' later task) (w'.take t' laterToo taskToo) := by
      cases first with
      | @construct site other sites =>
        obtain ⟨x, live⟩ := sites.live reached List.mem_cons_self rfl
        exact worlds.construct tidy (reached.runs_of_site rfl rfl) (reachedToo.runs_of_site rfl rfl) sites
          live (names _ sites.name)
      | @make site other f sites simple =>
        obtain ⟨x, live⟩ := sites.live reached List.mem_cons_self rfl
        exact worlds.make ((Scene.Arises.numbered reached.arises).registries _ _
          (World.map?_of_find? live)) sites simple
      | dropObject owns alike inert h => exact worlds.dropObject t' owns alike inert h
      | noteOverwritten h slot => exact worlds.notes (.slotOverwritten h slot) rfl
      | releaseBlock owns => exact worlds.releaseBlock tidy tidyToo both owns
      | releaseRegistry => exact worlds.releaseRegistry both
      | answer answer => exact worlds.notes (.answered answer) rfl
    rw [Machine.step_of_cons (m := ⟨w, t', task :: later⟩) rfl,
      Machine.step_of_cons (m := ⟨w', t', taskToo :: laterToo⟩) rfl]
    refine ⟨steps.goes.told, steps.goes.plans, rfl, steps.goes.worlds, List.rel_append steps.first both,
      fun name own g found => ?_⟩
    exact (steps.goes.strangers name g found).elim id (names name own g)

theorem Turns.steps (turns : c.Turns mine m m') (reached : m.Reached hashing)
    (reachedToo : m'.Reached hashingToo) (n : Nat) :
    c.Tells m.world m'.world (m.steps n).world (m'.steps n).world ∧
      c.Plans m.world m'.world (m.steps n).world (m'.steps n).world ∧
      c.Turns mine (m.steps n) (m'.steps n) := by
  induction n with
  | zero => exact ⟨⟨[], [], rfl, rfl, .nil⟩, .same rfl rfl rfl, turns⟩
  | succ n ih =>
    obtain ⟨told, plans, before⟩ := ih
    obtain ⟨toldThen, plansThen, after⟩ := before.step (reached.on (Machine.later_steps m n))
      (reachedToo.on (Machine.later_steps m' n))
    rw [Machine.steps_succ, Machine.steps_succ]
    exact ⟨told.trans toldThen, plans.trans plansThen, after⟩

theorem Turns.run (turns : c.Turns mine m m') (reached : m.Reached hashing)
    (reachedToo : m'.Reached hashingToo) :
    c.Tells m.world m'.world m.run.world m'.run.world ∧
      c.Plans m.world m'.world m.run.world m'.run.world ∧ c.Worlds m.run.world m'.run.world := by
  obtain ⟨told, plans, last⟩ := turns.steps reached reachedToo (m.work + m'.work)
  rw [Machine.run_eq_steps, Nat.add_comm, Machine.run_eq_steps] at told plans last
  exact ⟨told, plans, last.worlds⟩

end Machines

/-! Commands. -/

end Counterpart

namespace Machine

variable {hashing : RegistryId → Handle → UInt64} {w : World} {t u : ThreadId} {action : Action}

-- A command has begun, and has not done anything.
theorem Reached.begun (reached : Reached hashing ⟨w, u, []⟩) (ofSession : (Command.act t action).ofSession) :
    (w.machineFor (.act t action)).Reached hashing ∧ (w.startThread t).Runs t ∧
      Scene.Arises hashing ⟨w.startThread t, t, [], bearing [.perform false action]⟩ := by
  have begun : (w.machineFor (.act t action)).Reached hashing := reached.on (.single (.told rfl ofSession))
  have runs : (w.startThread t).Runs t := begun.runs_ahead _ List.mem_cons_self rfl
  exact ⟨begun, runs, begun.arises⟩

theorem step_machineFor (w : World) (t : ThreadId) (action : Action) : (w.machineFor (.act t action)).step
    = ⟨((w.startThread t).perform t false action).1, t, ((w.startThread t).perform t false action).2⟩ := by
  rw [step_of_cons rfl, List.append_nil]
  rfl

end Machine

namespace Counterpart

variable {c : Counterpart}

namespace Worlds

variable {hashing hashingToo : RegistryId → Handle → UInt64} {w w' : World} {t u v : ThreadId}
  {action : Action} {later laterToo : List Task}

-- The first task of a command does the same with both, and leaves corresponding things to be done.
theorem perform (worlds : c.Worlds w w') (arisen : Scene.Arises hashing ⟨w, t, [], later⟩)
    (arisenToo : Scene.Arises hashingToo ⟨w', t, [], laterToo⟩) (runs : w.Runs t) (runsToo : w'.Runs t)
    (orderly : action.Orderly w) (on : action.registry? w = some c.here) :
    ∃ d mine, c.Extends d ∧
      d.Tells w w' (w.perform t false action).1 (w'.perform t false action).1 ∧
      d.Plans (w.asked t action) (w'.asked t action)
        (w.perform t false action).1 (w'.perform t false action).1 ∧
      d.Turns mine ⟨(w.perform t false action).1, t, (w.perform t false action).2⟩
        ⟨(w'.perform t false action).1, t, (w'.perform t false action).2⟩ := by
  cases orderly with
  | @operate operation orderly =>
    have outcomes : c.Outcomes (fun _ => False) (w.asked t (.operate operation)) _
        (w.operate t operation) (w'.operate t operation) :=
      worlds.operate arisen arisenToo runs runsToo orderly on
    obtain ⟨threads, noted⟩ := w.asked_rest t (.operate operation)
    obtain ⟨threadsToo, notedToo⟩ := w'.asked_rest t (.operate operation)
    have told := outcomes.goes.told
    rw [noted, notedToo] at told
    refine ⟨c, fun _ => False, .refl c, told, outcomes.goes.plans, rfl, outcomes.goes.worlds, ?_, nofun⟩
    refine List.rel_append outcomes.first (.cons ?_ .nil)
    rw [outcomes.answer]
    exact .answer _
  | create creation supplies names simple =>
    have own : ∀ g, w.states.find? creation.state = some g → g.registry = c.here := fun g found =>
      Option.some.inj ((names g found).symm.trans on)
    unfold World.perform
    obtain ⟨failure, refused, refusedToo⟩ | ⟨site, other, begun, begunToo, sites⟩ :=
      worlds.beginCreation arisen runs runsToo on own simple
    · simp only [Bool.false_eq_true, if_false, refused, refusedToo]
      exact ⟨c, fun _ => False, .refl c, ⟨[], [], rfl, rfl, .nil⟩, .same rfl rfl rfl, rfl, worlds,
        .cons (.answer _) .nil, nofun⟩
    · obtain ⟨x, live⟩ := (Scene.Arises.live arisen).registry_named (Scene.Arises.tidy arisen) on
      have born := (Scene.Arises.numbered arisen).registries _ _ (World.map?_of_find? live)
      simp only [Bool.false_eq_true, if_false, begun, begunToo]
      refine ⟨_, (· = creation.state), extends_extended worlds.not_owns ⟨w'.next⟩,
        ⟨[], [], rfl, rfl, .nil⟩, .same rfl rfl rfl, rfl, worlds.extended arisen arisenToo born,
        .cons (.construct sites) .nil, ?_⟩
      rintro _ rfl
      exact own

theorem round (worlds : c.Worlds w w') (reached : Machine.Reached hashing ⟨w, u, []⟩)
    (reachedToo : Machine.Reached hashingToo ⟨w', v, []⟩) (ofSession : (Command.act t action).ofSession)
    (orderly : action.Orderly w) (on : action.registry? w = some c.here) : ∃ d, c.Extends d ∧
      d.Tells w w' (w.machineFor (.act t action)).run.world (w'.machineFor (.act t action)).run.world ∧
      d.Plans (w.asked t action) (w'.asked t action)
        (w.machineFor (.act t action)).run.world (w'.machineFor (.act t action)).run.world ∧
      d.Worlds (w.machineFor (.act t action)).run.world (w'.machineFor (.act t action)).run.world := by
  obtain ⟨begun, runs, arisen⟩ := reached.begun ofSession
  obtain ⟨begunToo, runsToo, arisenToo⟩ := reachedToo.begun ofSession
  obtain ⟨d, mine, extends', told, plans, turns⟩ := (worlds.started t).perform arisen arisenToo runs runsToo
    (orderly.startThread t) ((Action.registry?_startThread w t action).trans on)
  have first := Machine.step_machineFor w t action
  have firstToo := Machine.step_machineFor w' t action
  rw [← first, ← firstToo] at turns
  obtain ⟨toldThen, plansThen, last⟩ := turns.run begun.step begunToo.step
  rw [Machine.run_step, Machine.run_step] at last toldThen plansThen
  rw [first, firstToo] at toldThen plansThen
  have both := told.trans toldThen
  unfold Tells at both ⊢
  rw [show (w.startThread t).journal = w.journal from w.journal_machineFor (.act t action),
    show (w'.startThread t).journal = w'.journal from w'.journal_machineFor (.act t action)] at both
  refine ⟨d, extends', both, ?_, last⟩
  exact (plans.trans plansThen).of_threads (fun u => w.thread_asked_startThread t u action)
    (fun u => w'.thread_asked_startThread t u action) (w.names_asked_startThread t action)

end Worlds

end Counterpart

end AttachedState
