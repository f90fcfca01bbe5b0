import AttachedState.Proofs.Creations
import AttachedState.Proofs.Lockstep

/-!
Turns.  Two threads that have corresponding things to do with counterparts do them in turn: whatever
task comes first, they leave counterparts behind and corresponding things to be done.
-/

namespace AttachedState

-- A factory that does nothing but make its object makes the same of it everywhere.
theorem Factory.Inert.makeValue {f : Factory} (simple : f.Inert) (h : Handle) :
    ∃ result, ∀ (w : World) (t : ThreadId), w.makeValue t h f = (result, w) := by
  have supplied : ∃ data, ∀ (w : World) (t : ThreadId), w.supplied t h f.source = (.ok data, w) := by
    have source := simple.source
    cases given : f.source with
    | given value => exact ⟨value, fun _ _ => rfl⟩
    | address => exact ⟨.number h.address.toNat, fun _ _ => rfl⟩
    | copied registry address key addend => exact absurd given (source registry address key addend)
  obtain ⟨data, supplied⟩ := supplied
  unfold World.makeValue
  cases f.failure with
  | some text => exact ⟨_, fun _ _ => rfl⟩
  | none =>
    simp only [supplied]
    cases Value.ofDatum? f.kind data with
    | none => exact ⟨_, fun _ _ => rfl⟩
    | some value => exact ⟨_, fun _ _ => rfl⟩

-- What it makes is inert.
theorem Factory.Inert.object {f : Factory} (simple : f.Inert) {w : World} {t : ThreadId} {h : Handle}
    {value : Value} (made : (w.makeValue t h f).1 = .ok value) (id : ObjectId) (through : Name) :
    Object.Inert ⟨id, value, through, f.dropActions⟩ := by
  refine ⟨?_, if_neg simple.kind⟩
  rw [World.makeValue_kind made]
  exact simple.kind

theorem Construction.inert_grown (site : Construction) {object : Object}
    (still : ∀ object ∈ site.built.objects, object.Inert) (inert : object.Inert) (slot : Slot) :
    ∀ old ∈ ({ site with slots := site.slots.set slot (some object) } : Construction).built.objects,
      old.Inert := by
  intro old listed
  simp only [Construction.built, Block.objects, List.mem_filterMap, id_eq, exists_eq_right] at still listed
  rcases List.mem_or_eq_of_mem_set listed with before | new
  · exact still old before
  · cases new
    exact inert

namespace Counterpart

variable {c : Counterpart} {mine : Name → Prop}

/-! What is left to be done. -/

-- Blocks under construction that correspond to each other.  Nothing is done for them but making
-- objects, and what they are to be registered under is a name of the registry's own.
structure Sites (c : Counterpart) (mine : Name → Prop) (site other : Construction) : Prop where
  asked : site.nested = none
  askedToo : other.nested = none
  creation : other.creation = site.creation
  name : mine site.creation.state
  here : site.registry = c.here
  there : other.registry = c.there
  owns : c.owns site.block = true
  block : other.block = c.block site.block
  handle : other.handle = site.handle
  slots : nameless other.slots = nameless site.slots
  pending : other.pending = site.pending
  inert : ∀ object ∈ site.built.objects, object.Inert
  simple : ∀ f ∈ site.pending, f.Inert

inductive Tasks (c : Counterpart) (mine : Name → Prop) : Task → Task → Prop where
  | construct {site other : Construction} (sites : c.Sites mine site other) :
      Tasks c mine (.construct site) (.construct other)
  | make {site other : Construction} {f : Factory} (sites : c.Sites mine site other) (simple : f.Inert) :
      Tasks c mine (.make site f) (.make other f)
  | dropObject {b : BlockId} {object other : Object} (owns : c.owns b = true)
      (alike : other.nameless = object.nameless) (inert : object.Inert) (h : Handle) :
      Tasks c mine (.dropObject b h object) (.dropObject (c.block b) h other)
  | noteOverwritten (h : Handle) (slot : Slot) :
      Tasks c mine (.noteOverwritten h slot) (.noteOverwritten h slot)
  | releaseBlock {b : BlockId} (owns : c.owns b = true) :
      Tasks c mine (.releaseBlock b) (.releaseBlock (c.block b))
  | releaseRegistry : Tasks c mine (.releaseRegistry c.here) (.releaseRegistry c.there)
  | answer (answer : Answer) : Tasks c mine (.answer none answer) (.answer none answer)

-- The same is answered, and the same is left to be done.
structure Outcomes (c : Counterpart) (mine : Name → Prop) (w w' : World) (one other : Outcome) :
    Prop where
  goes : c.Goes w w' one.world other.world
  answer : other.answer = one.answer
  first : List.Forall₂ (c.Tasks mine) one.first other.first

-- So it is after a task.
structure Steps (c : Counterpart) (mine : Name → Prop) (w w' : World) (one other : World × List Task) :
    Prop where
  goes : c.Goes w w' one.1 other.1
  first : List.Forall₂ (c.Tasks mine) one.2 other.2

namespace Registries

variable {x y : Registry}

theorem handles (related : c.Registries x y) : y.handles = x.handles := by
  unfold Registry.handles
  rw [related.maps.toList, List.map_map]
  rfl

theorem outline (related : c.Registries x y) : y.outline = x.outline := by
  unfold Registry.outline
  rw [related.maps.size, related.lines]

theorem blocks (related : c.Registries x y) : y.blocks = x.blocks.map c.block := by
  unfold Registry.blocks
  rw [related.maps.toList, List.map_map, List.map_map]
  rfl

theorem owns (related : c.Registries x y) {b : BlockId} (listed : b ∈ x.blocks) : c.owns b = true := by
  obtain ⟨entry, h, there⟩ := Registry.contains_blocks.mp (List.contains_iff_mem.mpr listed)
  exact related.maps.owned entry h b there

end Registries

namespace Worlds

variable {hashing hashingToo : RegistryId → Handle → UInt64} {w w' : World} {x : Registry}
  {t : ThreadId} {b : BlockId} {name : Name}

/-! Operations. -/

theorem fails (worlds : c.Worlds w w') (failure : Failure) :
    c.Outcomes mine w w' (.fail w failure) (.fail w' failure) := ⟨.refl worlds, rfl, .nil⟩

theorem askRegistry (worlds : c.Worlds w w') (tidy : w.Tidy) (runs : w.Runs t) (runsToo : w'.Runs t)
    (live : w.registries.find? c.here = some x) (named : w.registryNamed? name = some c.here)
    {tell : Registry → Answer} (tells : ∀ x y, c.Registries x y → tell y = tell x) :
    c.Outcomes mine w w' (w.askRegistry t name tell) (w'.askRegistry t name tell) := by
  obtain ⟨y, related, one, other⟩ := worlds.underLock runs runsToo live
    (fun registry => (tell registry, registry)) (fun registry => (tell registry, registry))
  unfold World.askRegistry
  simp only [named, (worlds.named tidy).mpr named, one, other]
  refine ⟨.still (worlds.rewritten live ⟨related.label, related.lines, related.maps⟩) rfl rfl rfl
    (.same rfl rfl rfl), ?_, .nil⟩
  exact tells _ y related

theorem contains (worlds : c.Worlds w w') (tidy : w.Tidy) (runs : w.Runs t) (runsToo : w'.Runs t)
    (live : w.registries.find? c.here = some x) (named : w.registryNamed? name = some c.here)
    (address : UInt64) :
    c.Outcomes mine w w' (w.contains t name address) (w'.contains t name address) := by
  unfold World.contains
  rw [named, (worlds.named tidy).mpr named]
  cases Handle.ofAddress? address with
  | none => exact worlds.fails _
  | some h =>
    refine worlds.askRegistry tidy runs runsToo live named fun x y related => ?_
    rw [related.maps.contains]

-- A block that was found is held under a name; a block that had the name is one of the registry too.
theorem keep (worlds : c.Worlds w w') (tidy : w.Tidy) (owns : c.owns b = true)
    (names : ∀ d, w.held.find? name = some d → c.owns d = true) :
    c.Goes w w' (w.keep name b).1 (w'.keep name (c.block b)).1 ∧
      List.Forall₂ (c.Tasks mine) (w.keep name b).2 (w'.keep name (c.block b)).2 := by
  have stands : ∀ d, c.owns d = true → c.kept d = some (c.block d) := fun d owns => if_pos owns
  have held : w'.held.find? name = (w.held.find? name).bind c.kept := by
    rw [worlds.held, Table.find?_narrow tidy.held]
  have kept := Table.narrow_put_some (f := c.kept) (fun d found => by rw [stands d (names d found)]; rfl)
    (stands b owns)
  refine ⟨.still { worlds with held := ?_ } rfl rfl rfl (.same rfl rfl rfl), ?_⟩
  · unfold World.keep
    rw [kept, worlds.held]
  · unfold World.keep
    rw [held]
    cases found : w.held.find? name with
    | none => exact .nil
    | some d =>
      rw [Option.bind_some, stands d (names d found)]
      exact .cons (.releaseBlock (names d found)) .nil

theorem present (worlds : c.Worlds w w') (tidy : w.Tidy) (owns : c.owns b = true) {retrieval : Retrieval}
    (names : ∀ name d, retrieval.keepAs = some name → w.held.find? name = some d → c.owns d = true) :
    c.Outcomes mine w w' (w.present retrieval b) (w'.present retrieval (c.block b)) := by
  unfold World.present
  rw [worlds.described tidy.states owns, worlds.readAll? owns]
  cases w.describe? b with
  | none => exact worlds.fails _
  | some description =>
    cases retrieval.keys.mapM (w.readAll? b) with
    | none => exact worlds.fails _
    | some values =>
      cases kept : retrieval.keepAs with
      | none => exact ⟨.refl worlds, rfl, .nil⟩
      | some name =>
        have keeps : _ ∧ List.Forall₂ (c.Tasks mine) (w.keep name b).2 (w'.keep name (c.block b)).2 :=
          worlds.keep tidy owns fun d => names name d kept
        exact ⟨keeps.1, rfl, keeps.2⟩

theorem retrieve (worlds : c.Worlds w w') {later : List Task}
    (arisen : Scene.Arises hashing ⟨w, t, [], later⟩) (runs : w.Runs t)
    (live : w.registries.find? c.here = some x) {retrieval : Retrieval}
    (named : w.registryNamed? retrieval.registry = some c.here)
    (names : ∀ name d, retrieval.keepAs = some name → w.held.find? name = some d → c.owns d = true) :
    c.Outcomes mine (w.asked t (.operate (.retrieve retrieval))) (w'.asked t (.operate (.retrieve retrieval)))
      (w.retrieve t retrieval) (w'.retrieve t retrieval) := by
  unfold World.retrieve World.asked
  simp only
  cases Handle.ofAddress? retrieval.address with
  | none => exact worlds.fails _
  | some h =>
    obtain ⟨found, after, after', one, other, goes, owned⟩ := worlds.lookUp t live h
    have changes : Quiets w after := by
      have spec := (World.lookUp_spec runs (World.map?_of_find? live) h).1
      rwa [one] at spec
    simp only [named, (worlds.named (Scene.Arises.tidy arisen)).mpr named, one, other]
    cases found with
    | none => exact ⟨goes, rfl, .nil⟩
    | some b =>
      have tidy : after.Tidy := Scene.Arises.tidy (arisen.trans (changes.passes t [] later).moves)
      have presented : c.Outcomes mine after after' (after.present retrieval b)
          (after'.present retrieval (c.block b)) :=
        goes.worlds.present tidy (owned b rfl) fun name d kept => changes.same.2.2.2.2 ▸ names name d kept
      refine ⟨goes.trans presented.goes, presented.answer, ?_⟩
      exact List.rel_append presented.first (.cons .releaseRegistry .nil)

-- Either registration is the owner's, so both are taken away.
theorem giveUp (worlds : c.Worlds w w') (runs : w.Runs t) (runsToo : w'.Runs t) {g : Guard}
    (here : g.registry = c.here) (live : w.registries.find? c.here = some x)
    (entry : x.contexts.entry? g.entry = some (g.handle, g.block)) :
    c.Outcomes mine w w' (w.giveUp t g)
      (w'.giveUp t ⟨c.there, g.entry, g.handle, c.block g.block⟩) := by
  obtain ⟨r, ticket, h, b⟩ := g
  cases here
  obtain ⟨y, found, related⟩ := worlds.registry_of_find? live
  obtain ⟨left, removed⟩ := HandleMap.remove?_of_entry? entry
  obtain ⟨absent, _⟩ | ⟨h, b, rest, restToo, one, other, owns, maps⟩ := related.maps.remove? ticket
  · rw [absent] at removed
    cases removed
  · cases removed.symm.trans one
    rw [World.giveUp_free runs (worlds.free t).1 live removed,
      World.giveUp_free runsToo (worlds.free t).2 found other]
    have scrubbed : c.Registries { ({ x with contexts := left } : Registry).scrub h with holder := none }
        { ({ y with contexts := restToo } : Registry).scrub h with holder := none } := by
      refine ⟨related.label, ?_, maps⟩
      simp only [Registry.scrub, related.lines]
    have holding : y.holding h = x.holding h := by
      unfold Registry.holding
      rw [related.lines]
    refine ⟨.note ?_ ?_ rfl, rfl, ?_⟩
    · exact .still (worlds.rewritten live scrubbed) rfl rfl rfl (.same rfl rfl rfl)
    · rw [holding]
      exact .stateRemoved owns _ h _
    · exact .cons .releaseRegistry (.cons (.releaseBlock owns) .nil)

theorem disowned (worlds : c.Worlds w w') (name : Name) :
    c.Goes w w' { w with states := w.states.erase name } { w' with states := w'.states.erase name } := by
  have fewer : ∀ {other : Name} {g : Guard}, (w.states.erase name).find? other = some g →
      w.states.find? other = some g := by
    intro other g found
    rw [Table.find?_erase] at found
    split at found
    · cases found
    · exact found
  refine ⟨{ worlds with states := ?_, guards := ?_ }, ⟨[], [], rfl, rfl, .nil⟩, ?_, .same rfl rfl rfl⟩
  · rw [worlds.states, Table.narrow_erase]
  · exact fun other g found => worlds.guards other g (fewer found)
  · exact fun other g found => .inr (fewer found)

theorem destroy (worlds : c.Worlds w w') (tidy : w.Tidy) (runs : w.Runs t) (runsToo : w'.Runs t)
    {g : Guard} (named : w.states.find? name = some g) (here : g.registry = c.here)
    (live : w.registries.find? c.here = some x)
    (entry : x.contexts.entry? g.entry = some (g.handle, g.block)) :
    c.Outcomes mine w w' (w.destroy t name) (w'.destroy t name) := by
  have namedToo : w'.states.find? name = some ⟨c.there, g.entry, g.handle, c.block g.block⟩ := by
    rw [worlds.state tidy, named]
    exact guard_eq_some.mpr ⟨here, rfl⟩
  have erased := worlds.disowned name
  have gone : c.Outcomes mine _ _ (World.giveUp { w with states := w.states.erase name } t g) _ :=
    erased.worlds.giveUp runs runsToo here live entry
  unfold World.destroy
  rw [named, namedToo]
  exact ⟨erased.trans gone.goes, gone.answer, gone.first⟩

-- Nobody remembers anything of a registry that is to come.
theorem filter_memos_eq_nil {memos : List Memo} {r : RegistryId} {next : Nat} (new : r = ⟨next⟩)
    (known : ∀ memo ∈ memos, memo.registry.number < next) : memos.filter (·.registry = r) = [] := by
  refine List.filter_eq_nil_iff.mpr fun memo listed here => ?_
  have less := known memo listed
  rw [of_decide_eq_true here, new] at less
  exact Nat.lt_irrefl _ less

-- The registry that is opened is the one that was to come.
theorem newRegistry (worlds : c.Worlds w w') (tidy : w.Tidy) (unnamed : w.registryNamed? name = none)
    (unleft : w.Unleft name) (next : c.here = ⟨w.next⟩)
    (memos : ∀ u, ∀ memo ∈ (w.thread u).memos, memo.registry.number < w.next)
    (memosToo : ∀ u, ∀ memo ∈ (w'.thread u).memos, memo.registry.number < w'.next) :
    c.Outcomes mine w w' (w.newRegistry name) (w'.newRegistry name) := by
  have nextToo : c.there = ⟨w'.next⟩ := worlds.unborn (by rw [next])
  have absent : w.registryNames.find? name = none := by
    unfold World.registryNamed? at unnamed
    split at unnamed
    · cases unnamed
    · exact unnamed
  rw [World.newRegistry_eq, World.newRegistry_eq, unnamed, worlds.unnamed tidy unnamed, ← next, ← nextToo]
  simp only [Option.isSome_none, Bool.false_eq_true, if_false]
  refine ⟨.still { worlds with
      old := fun b owns => ?_, unborn := ?_, names := ?_, registry := ?_, threads := fun u => ?_,
      apart := ?_, alone := ?_ } rfl rfl rfl ?_, rfl, .nil⟩
  · obtain ⟨one, other⟩ := worlds.old b owns
    exact ⟨Nat.lt_succ_of_lt one, Nat.lt_succ_of_lt other⟩
  · intro unborn
    rw [next] at unborn
    exact absurd unborn (Nat.not_succ_le_self _)
  · have put : (w.registryNames.put name c.here).narrow c.name
        = (w.registryNames.narrow c.name).put name c.there :=
      Table.narrow_put_some (fun r found => by rw [absent] at found; cases found) (name_eq_some.mpr rfl)
    rw [worlds.names]
    exact put.symm
  · simp only [Outcome.of, Table.find?_put_self]
    exact .some ⟨rfl, rfl, .empty c _ _⟩
  · have before := worlds.threads u
    refine ⟨before.plain, before.plainToo, fun _ => ?_, before.blocks, before.alone⟩
    have none_here := filter_memos_eq_nil next (memos u)
    have none_there := filter_memos_eq_nil nextToo (memosToo u)
    exact none_there.trans (congrArg (List.map c.memo) none_here).symm
  · intro r contexts u h b found entry
    rw [World.map?_put (w := w) rfl rfl] at found
    split at found
    · cases found
      rw [Registry.fresh, HandleMap.entry?_empty] at entry
      cases entry
    · exact worlds.apart r contexts u h b found entry
  · intro r contexts u entry found there
    rw [World.map?_put (w := w') rfl rfl] at found
    split at found
    · assumption
    · exact worlds.alone r contexts u entry found there
  · exact .unleft rfl rfl unleft fun other ne => Table.find?_put_of_ne _ _ ne

theorem dropRegistry (worlds : c.Worlds w w') (tidy : w.Tidy) (unleft : w.Unleft name)
    (named : w.registryNames.find? name = some c.here) :
    c.Outcomes mine w w' (w.dropRegistry name) (w'.dropRegistry name) := by
  have namedToo : w'.registryNames.find? name = some c.there := by
    rw [worlds.names, Table.find?_narrow tidy.registryNames, named]
    exact name_eq_some.mpr rfl
  unfold World.dropRegistry
  rw [named, namedToo]
  refine ⟨.still { worlds with names := ?_ } rfl rfl rfl ?_, rfl, .cons .releaseRegistry .nil⟩
  · rw [worlds.names, Table.narrow_erase]
  · exact .unleft rfl rfl unleft fun other ne => Table.find?_erase_of_ne _ ne

theorem release (worlds : c.Worlds w w') (tidy : w.Tidy) (held : w.held.find? name = some b)
    (owns : c.owns b = true) : c.Outcomes mine w w' (w.release name) (w'.release name) := by
  have heldToo : w'.held.find? name = some (c.block b) := by
    rw [worlds.held, Table.find?_narrow tidy.held, held]
    exact if_pos owns
  unfold World.release
  rw [held, heldToo]
  refine ⟨.still { worlds with held := ?_ } rfl rfl rfl (.same rfl rfl rfl), rfl, .cons (.releaseBlock owns) .nil⟩
  rw [worlds.held, Table.narrow_erase]

/-! Tasks. -/

theorem notes (worlds : c.Worlds w w') {e e' : Event} (same : c.Events e e') (silent : e.born? = none) :
    c.Steps mine w w' (w.note e, []) (w'.note e', []) := ⟨.note (.refl worlds) same silent, .nil⟩

theorem dropObject (worlds : c.Worlds w w') (t : ThreadId) {object other : Object} (owns : c.owns b = true)
    (alike : other.nameless = object.nameless) (inert : object.Inert) (h : Handle) :
    c.Steps mine w w' (w.dropObject t b h object) (w'.dropObject t (c.block b) h other) := by
  unfold World.dropObject
  simp only [Object.value_eq alike, Object.onDrop_eq alike, if_neg inert.1, inert.2, List.map_nil]
  exact worlds.notes (.objectDropped owns h alike) rfl

theorem taskToo (worlds : c.Worlds w w') {later laterToo : List Task}
    (tasks : List.Forall₂ (c.Tasks mine) later laterToo) (owns : c.owns b = true) :
    laterToo.any (·.refersToBlock (c.block b)) = later.any (·.refersToBlock b) := by
  induction tasks with
  | nil => rfl
  | cons task _ ih =>
    rw [List.any_cons, List.any_cons, ih]
    congr 1
    cases task with
    | releaseBlock ownsToo =>
      simp only [Task.refersToBlock, worlds.block_eq_iff owns ownsToo]
    | _ => rfl

end Worlds

theorem Tasks.refersToRegistry {later laterToo : List Task}
    (tasks : List.Forall₂ (c.Tasks mine) later laterToo) :
    laterToo.any (·.refersToRegistry c.there) = later.any (·.refersToRegistry c.here) := by
  induction tasks with
  | nil => rfl
  | cons task _ ih =>
    rw [List.any_cons, List.any_cons, ih]
    congr 1
    cases task with
    | construct sites | make sites => simp only [Task.refersToRegistry, sites.here, sites.there, decide_true]
    | releaseRegistry => simp only [Task.refersToRegistry, decide_true]
    | _ => rfl

-- The objects of a block are dropped in the same order.
theorem Tasks.dropTasks {b : BlockId} (owns : c.owns b = true) (h : Handle) {objects others : List Object}
    (alike : others.map Object.nameless = objects.map Object.nameless)
    (inert : ∀ object ∈ objects, object.Inert) : List.Forall₂ (c.Tasks mine)
      (AttachedState.dropTasks b h objects) (AttachedState.dropTasks (c.block b) h others) := by
  induction objects generalizing others with
  | nil =>
    cases List.map_eq_nil_iff.mp alike
    exact .nil
  | cons object rest ih =>
    obtain ⟨other, more, rfl, same, alikeToo⟩ := List.map_eq_cons_iff.mp alike
    refine .cons (.dropObject owns same (inert object List.mem_cons_self) h) (ih alikeToo ?_)
    exact fun object listed => inert object (List.mem_cons_of_mem _ listed)

namespace Sites

variable {site other : Construction}

theorem built (sites : c.Sites mine site other) : other.built.nameless = site.built.nameless := by
  unfold Block.nameless Construction.built
  rw [sites.slots, sites.handle]

theorem abandon (sites : c.Sites mine site other) (failure : Failure) :
    List.Forall₂ (c.Tasks mine) (site.abandon failure) (other.abandon failure) := by
  have objects : other.built.objects.map Object.nameless = site.built.objects.map Object.nameless := by
    rw [← Block.objects_nameless, ← Block.objects_nameless, sites.built]
  unfold Construction.abandon Construction.close
  rw [sites.asked, sites.askedToo, sites.here, sites.there, sites.block, sites.handle]
  exact List.rel_append (Tasks.dropTasks sites.owns site.handle objects sites.inert)
    (.cons .releaseRegistry (.cons (.answer _) .nil))

theorem close (sites : c.Sites mine site other) (answer : Answer) :
    List.Forall₂ (c.Tasks mine) (site.close answer) (other.close answer) := by
  unfold Construction.close
  rw [sites.asked, sites.askedToo, sites.here, sites.there]
  exact .cons .releaseRegistry (.cons (.answer _) .nil)

-- What lies in a slot lies in the slot of the other.
theorem object? (sites : c.Sites mine site other) (slot : Slot) :
    (site.built.object? slot = none ∧ other.built.object? slot = none) ∨
      ∃ object object', site.built.object? slot = some object ∧ other.built.object? slot = some object' ∧
        object'.nameless = object.nameless ∧ object.Inert := by
  have same : (other.built.object? slot).map Object.nameless = (site.built.object? slot).map Object.nameless := by
    rw [← Block.object?_nameless, ← Block.object?_nameless, sites.built]
  cases found : site.built.object? slot with
  | none =>
    rw [found, Option.map_none, Option.map_eq_none_iff] at same
    exact .inl ⟨rfl, same⟩
  | some object =>
    rw [found, Option.map_some, Option.map_eq_some_iff] at same
    obtain ⟨object', there, alike⟩ := same
    exact .inr ⟨object, object', rfl, there, alike, sites.inert object (Block.mem_objects.mpr ⟨slot, found⟩)⟩

theorem grown (sites : c.Sites mine site other) {object object' : Object}
    (alike : object'.nameless = object.nameless) (inert : object.Inert) (slot : Slot) :
    c.Sites mine { site with slots := site.slots.set slot (some object) }
      { other with slots := other.slots.set slot (some object') } := by
  refine { sites with slots := ?_, inert := site.inert_grown sites.inert inert slot }
  have same := sites.slots
  unfold nameless at same ⊢
  rw [List.map_set, List.map_set, same, Option.map_some, Option.map_some, alike]

end Sites

namespace Worlds

variable {hashing hashingToo : RegistryId → Handle → UInt64} {w w' : World} {x : Registry}
  {t : ThreadId} {b : BlockId} {name : Name} {later laterToo : List Task}

theorem releaseBlock (worlds : c.Worlds w w') (tidy : w.Tidy) (tidyToo : w'.Tidy)
    (tasks : List.Forall₂ (c.Tasks mine) later laterToo) (owns : c.owns b = true) :
    c.Steps mine w w' (w.releaseBlock later b) (w'.releaseBlock laterToo (c.block b)) := by
  have same := worlds.blocks b owns
  unfold World.releaseBlock
  rw [worlds.needsBlock tidy tidyToo owns, worlds.taskToo tasks owns]
  split
  · exact ⟨.refl worlds, .nil⟩
  · cases found : w.blocks.find? b with
    | none =>
      rw [found, Option.map_none, Option.map_eq_none_iff] at same
      rw [same]
      exact ⟨.refl worlds, .nil⟩
    | some block =>
      rw [found, Option.map_some, Option.map_eq_some_iff] at same
      obtain ⟨other, there, alike⟩ := same
      have objects : other.objects.map Object.nameless = block.objects.map Object.nameless := by
        rw [← Block.objects_nameless, ← Block.objects_nameless, alike]
      rw [there]
      refine ⟨.still { worlds with blocks := fun d ownsToo => ?_, inert := fun d block' there => ?_ }
        rfl rfl rfl (.same rfl rfl rfl), ?_⟩
      · simp only [Table.find?_erase, worlds.block_eq_iff owns ownsToo]
        split
        · rfl
        · exact worlds.blocks d ownsToo
      · rw [Table.find?_erase] at there
        split at there
        · cases there
        · exact worlds.inert d block' there
      · simp only [Block.handle_eq _ alike]
        exact Tasks.dropTasks owns block.handle objects (worlds.inert b block found)

theorem releaseRegistry (worlds : c.Worlds w w') (tasks : List.Forall₂ (c.Tasks mine) later laterToo) :
    c.Steps mine w w' (w.releaseRegistry later c.here) (w'.releaseRegistry laterToo c.there) := by
  unfold World.releaseRegistry
  rw [worlds.needsRegistry, Tasks.refersToRegistry tasks]
  split
  · exact ⟨.refl worlds, .nil⟩
  · cases live : w.registries.find? c.here with
    | none =>
      have gone := worlds.live_iff
      rw [Table.not_contains_iff.mpr live, Table.not_contains_iff] at gone
      rw [gone]
      exact ⟨.refl worlds, .nil⟩
    | some x =>
      obtain ⟨y, found, related⟩ := worlds.registry_of_find? live
      have gone : (w.registries.erase c.here).contains c.here = false :=
        Table.not_contains_iff.mpr (Table.find?_erase_self ..)
      rw [found]
      refine ⟨.still { worlds with
          registry := ?_, threads := fun u => ?_, apart := ?_, alone := ?_ } rfl rfl rfl
        (.same rfl rfl rfl), ?_⟩
      · simp only [Table.find?_erase_self]
        exact .none
      · have before := worlds.threads u
        refine ⟨before.plain, before.plainToo, fun lives => ?_, before.blocks, before.alone⟩
        rw [gone] at lives
        cases lives
      · intro r contexts u h b found entry
        rw [World.map?_erase (w := w) rfl] at found
        split at found
        · cases found
        · exact worlds.apart r contexts u h b found entry
      · intro r contexts u entry found there
        rw [World.map?_erase (w := w') rfl] at found
        split at found
        · cases found
        · exact worlds.alone r contexts u entry found there
      · simp only [related.blocks, List.map_map]
        rw [List.forall₂_map_left_iff, List.forall₂_map_right_iff,
          List.forall₂_same]
        exact fun b listed => .releaseBlock (related.owns listed)

/-! Creations. -/

theorem counted (worlds : c.Worlds w w') (born : c.here.number < w.next) :
    c.Worlds { w with next := w.next + 1 } { w' with next := w'.next + 1 } := by
  refine { worlds with old := fun b owns => ?_, unborn := fun unborn => ?_ }
  · obtain ⟨one, other⟩ := worlds.old b owns
    exact ⟨Nat.lt_succ_of_lt one, Nat.lt_succ_of_lt other⟩
  · exact absurd (Nat.lt_of_succ_le unborn) (Nat.lt_asymm born)

variable {site other : Construction}

theorem make (worlds : c.Worlds w w') (born : c.here.number < w.next) (sites : c.Sites mine site other)
    {f : Factory} (simple : f.Inert) :
    c.Steps mine w w' (w.make t site f) (w'.make t other f) := by
  obtain ⟨result, made⟩ := simple.makeValue site.handle
  have madeToo : w'.makeValue t other.handle f = (result, w') := by rw [sites.handle, made]
  unfold World.make
  rw [made, madeToo]
  cases given : result with
  | error cause => exact ⟨.refl worlds, sites.abandon _⟩
  | ok value =>
    have inert := simple.object (w := w) (t := t) (h := site.handle) (by rw [made, given])
      ⟨w.next⟩ site.creation.registry
    have alike : Object.nameless ⟨⟨w'.next⟩, value, other.creation.registry, f.dropActions⟩
        = Object.nameless ⟨⟨w.next⟩, value, site.creation.registry, f.dropActions⟩ := by
      rw [sites.creation]
      rfl
    have grown := sites.grown alike inert f.slot
    have told : c.Goes w w'
        (({ w with next := w.next + 1 } : World).note (.objectMade site.block f.slot
          ⟨⟨w.next⟩, value, site.creation.registry, f.dropActions⟩))
        (({ w' with next := w'.next + 1 } : World).note (.objectMade other.block f.slot
          ⟨⟨w'.next⟩, value, other.creation.registry, f.dropActions⟩)) := by
      refine .note ?_ ?_ rfl
      · exact .still (worlds.counted born) rfl rfl rfl (.same rfl rfl rfl)
      · rw [sites.block]
        exact .objectMade sites.owns f.slot alike
    simp only [World.takeNumber]
    obtain ⟨vacant, vacantToo⟩ | ⟨earlier, earlierToo, there, thereToo, same, still⟩ :=
      sites.object? f.slot
    · rw [vacant, vacantToo]
      exact ⟨told, .cons (.construct grown) .nil⟩
    · have drops : c.Tasks mine (.dropObject site.block site.handle earlier)
          (.dropObject other.block other.handle earlierToo) := by
        rw [sites.block, sites.handle]
        exact .dropObject sites.owns same still site.handle
      have notes : c.Tasks mine (.noteOverwritten site.handle f.slot)
          (.noteOverwritten other.handle f.slot) := by
        rw [sites.handle]
        exact .noteOverwritten site.handle f.slot
      rw [there, thereToo]
      exact ⟨told, .cons drops (.cons notes (.cons (.construct grown) .nil))⟩

-- The blocks are registered under the same entry.
theorem enrolled (worlds : c.Worlds w w') (sites : c.Sites mine site other) {y : Registry} {entry : Ticket}
    {grown grownToo : HandleMap BlockId} (live : w.registries.find? c.here = some x)
    (related : c.Registries x y) (maps : c.Maps grown grownToo) :
    c.Goes w w' (w.enrolled site x entry grown) (w'.enrolled other y entry grownToo) := by
  have changed : c.Registries { x with contexts := grown, holder := none }
      { y with contexts := grownToo, holder := none } := ⟨related.label, related.lines, maps⟩
  have base := worlds.rewritten live changed
  have slotCount : other.built.slotCount = site.built.slotCount := by
    rw [← Block.slotCount_nameless, sites.built, Block.slotCount_nameless]
  unfold World.enrolled
  rw [sites.here, sites.there, sites.block, sites.handle, slotCount]
  refine ⟨{ base with
      blocks := fun d owns => ?_, inert := fun d block found => ?_, created := ?_ },
    ⟨[_], [_], rfl, rfl, .cons (.stateCreated sites.owns entry site.handle _) .nil⟩, fun _ _ => .inr,
    .same rfl rfl rfl⟩
  · simp only [World.note, World.setRegistry, Table.find?_put, worlds.block_eq_iff sites.owns owns]
    split
    · rw [Option.map_some, Option.map_some, sites.built]
    · exact worlds.blocks d owns
  · simp only [World.note, World.setRegistry, Table.find?_put] at found
    split at found
    · cases found
      exact sites.inert
    · exact worlds.inert d block found
  · intro r entry' d h slots listed
    rcases List.mem_cons.mp listed with told | before
    · cases told
      exact iff_of_true sites.owns rfl
    · exact worlds.created r entry' d h slots before

-- An owner gets a name that was free.
theorem entitled (worlds : c.Worlds w w') {g : Guard} (here : g.registry = c.here)
    (owns : c.owns g.block = true) (free : w.states.find? name = none) :
    c.Goes w w' { w with states := w.states.put name g }
      { w' with states := w'.states.put name ⟨c.there, g.entry, g.handle, c.block g.block⟩ } := by
  have put : (w.states.put name g).narrow c.guard
      = (w.states.narrow c.guard).put name ⟨c.there, g.entry, g.handle, c.block g.block⟩ :=
    Table.narrow_put_some (fun old found => by rw [free] at found; cases found)
      (guard_eq_some.mpr ⟨here, rfl⟩)
  refine ⟨{ worlds with states := ?_, guards := fun other g' found => ?_ }, ⟨[], [], rfl, rfl, .nil⟩,
    fun other g' found => ?_, .same rfl rfl rfl⟩
  · rw [put, worlds.states]
  · rw [Table.find?_put] at found
    split at found
    · cases found
      exact iff_of_true owns here
    · exact worlds.guards other g' found
  · rw [Table.find?_put] at found
    split at found
    · cases found
      exact .inl here
    · exact .inr found

section Register

variable {y : Registry} {entry : Ticket} {grown grownToo : HandleMap BlockId}

-- Both blocks are registered, and their owners get the name.
theorem register_named (worlds : c.Worlds w w') (tidy : w.Tidy) (runs : w.Runs t) (runsToo : w'.Runs t)
    (sites : c.Sites mine site other) (live : w.registries.find? c.here = some x)
    (found : w'.registries.find? c.there = some y) (related : c.Registries x y) (maps : c.Maps grown grownToo)
    (one : x.contexts.insert site.handle site.block = .ok (entry, grown))
    (two : y.contexts.insert other.handle other.block = .ok (entry, grownToo))
    (named : w.states.find? site.creation.state = none) :
    c.Steps mine w w' (w.register t site) (w'.register t other) := by
  obtain ⟨free, freeToo⟩ := worlds.free t
  have untaken : w'.states.find? other.creation.state = none := by
    rw [sites.creation, worlds.state tidy, named]
    rfl
  obtain ⟨description, registers, described⟩ :=
    World.register_named site runs free (sites.here ▸ live) one named
  obtain ⟨descriptionToo, registersToo, describedToo⟩ :=
    World.register_named other runsToo freeToo (sites.there ▸ found) two untaken
  have enrolls : c.Goes w w' (w.enrolled site x entry grown) (w'.enrolled other y entry grownToo) :=
    worlds.enrolled sites live related maps
  have still : (w.enrolled site x entry grown).states.find? site.creation.state = none := named
  have entitles := enrolls.worlds.entitled
    (g := ⟨site.registry, entry, site.handle, site.block⟩) sites.here sites.owns still
  have goes := enrolls.trans entitles
  have distinct := tidy.states.put site.creation.state ⟨site.registry, entry, site.handle, site.block⟩
  have same := goes.worlds.described distinct sites.owns
  rw [registers, registersToo]
  rw [sites.there, sites.block, sites.handle, sites.creation] at describedToo ⊢
  cases describedToo.symm.trans (same.trans described)
  exact ⟨goes, sites.close _⟩

-- Both blocks are registered, and given up again: the name is that of another owner.
theorem register_taken (worlds : c.Worlds w w') (tidy : w.Tidy) (runs : w.Runs t) (runsToo : w'.Runs t)
    (sites : c.Sites mine site other) (live : w.registries.find? c.here = some x)
    (found : w'.registries.find? c.there = some y) (related : c.Registries x y) (maps : c.Maps grown grownToo)
    (one : x.contexts.insert site.handle site.block = .ok (entry, grown))
    (two : y.contexts.insert other.handle other.block = .ok (entry, grownToo)) {g : Guard}
    (named : w.states.find? site.creation.state = some g) (here : g.registry = c.here) :
    c.Steps mine w w' (w.register t site) (w'.register t other) := by
  obtain ⟨free, freeToo⟩ := worlds.free t
  have takenToo : w'.states.contains other.creation.state = true := by
    rw [sites.creation]
    refine Table.contains_iff.mpr ⟨⟨c.there, g.entry, g.handle, c.block g.block⟩, ?_⟩
    rw [worlds.state tidy, named]
    exact guard_eq_some.mpr ⟨here, rfl⟩
  have enrolls : c.Goes w w' (w.enrolled site x entry grown) (w'.enrolled other y entry grownToo) :=
    worlds.enrolled sites live related maps
  have liveThen : (w.enrolled site x entry grown).registries.find? c.here
      = some { x with contexts := grown, holder := none } := by
    rw [← sites.here]
    exact Table.find?_put_self ..
  have there := HandleMap.entry?_insert related.maps.valid one entry
  have gone : c.Outcomes mine _ _
      ((w.enrolled site x entry grown).giveUp t ⟨site.registry, entry, site.handle, site.block⟩) _ :=
    enrolls.worlds.giveUp runs runsToo sites.here liveThen (there.trans (if_pos rfl))
  rw [World.register_taken_name site runs free (sites.here ▸ live) one (Table.contains_iff.mpr ⟨g, named⟩),
    World.register_taken_name other runsToo freeToo (sites.there ▸ found) two takenToo]
  rw [sites.there, sites.block, sites.handle]
  exact ⟨enrolls.trans gone.goes, List.rel_append gone.first (sites.close _)⟩

end Register

-- Both blocks are registered, and get their names, or neither is or does.
theorem register (worlds : c.Worlds w w') (tidy : w.Tidy) (runs : w.Runs t) (runsToo : w'.Runs t)
    (sites : c.Sites mine site other) (live : w.registries.find? c.here = some x)
    (names : ∀ g, w.states.find? site.creation.state = some g → g.registry = c.here) :
    c.Steps mine w w' (w.register t site) (w'.register t other) := by
  obtain ⟨y, found, related⟩ := worlds.registry_of_find? live
  obtain ⟨entry, grown, grownToo, one, two, maps⟩ | ⟨back, backToo, one, two⟩ :=
    related.maps.insert sites.owns site.handle
  · have twoToo : y.contexts.insert other.handle other.block = .ok (entry, grownToo) := by
      rw [sites.handle, sites.block, two]
    cases named : w.states.find? site.creation.state with
    | none => exact worlds.register_named tidy runs runsToo sites live found related maps one twoToo named
    | some g =>
      exact worlds.register_taken tidy runs runsToo sites live found related maps one twoToo named
        (names g named)
  · have twoToo : y.contexts.insert other.handle other.block = .error backToo := by
      rw [sites.handle, sites.block, two]
    have still : c.Registries { x with holder := none } { y with holder := none } :=
      ⟨related.label, related.lines, related.maps⟩
    unfold World.register
    rw [World.underLock_refused runs (worlds.free t).1 (sites.here ▸ live) one,
      World.underLock_refused runsToo (worlds.free t).2 (sites.there ▸ found) twoToo]
    simp only [sites.here, sites.there, sites.handle, sites.creation]
    exact ⟨.still (worlds.rewritten live still) rfl rfl rfl (.same rfl rfl rfl), sites.abandon _⟩

theorem construct (worlds : c.Worlds w w') (tidy : w.Tidy) (runs : w.Runs t) (runsToo : w'.Runs t)
    (sites : c.Sites mine site other) (live : w.registries.find? c.here = some x)
    (names : ∀ g, w.states.find? site.creation.state = some g → g.registry = c.here) :
    c.Steps mine w w' (w.construct t site) (w'.construct t other) := by
  unfold World.construct
  rw [sites.pending]
  cases pending : site.pending with
  | nil => exact worlds.register tidy runs runsToo sites live names
  | cons f rest =>
    have simple := sites.simple
    rw [pending] at simple
    have now := simple f List.mem_cons_self
    have told : c.Events (.factoryStarted site.block f.slot site.handle)
        (.factoryStarted other.block f.slot other.handle) := by
      rw [sites.block, sites.handle]
      exact .factoryStarted sites.owns f.slot site.handle
    simp only [now.before, List.map_nil, List.nil_append]
    refine ⟨.note (.refl worlds) told rfl, ?_⟩
    refine .cons (.make { sites with pending := rfl, simple := fun g listed => ?_ } now) .nil
    exact simple g (List.mem_cons_of_mem _ listed)

end Worlds

end Counterpart

end AttachedState
