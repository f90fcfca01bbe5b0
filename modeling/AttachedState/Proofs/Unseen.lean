import AttachedState.Proofs.Machines

/-!
Teardown.  Before anything of a block is dropped the block is out of every map and every line, and
it never gets back: what is dropped cannot be found any more, whatever the drop does meanwhile.
-/

namespace AttachedState

theorem Registry.lineHolds_scrub (registry : Registry) (h : Handle) (line : Ticket) :
    (registry.scrub h).lineHolds line h = false := by
  unfold Registry.lineHolds
  rw [Registry.get?_scrub]
  cases registry.lines.get? line with
  | none => rfl
  | some held => by_cases same : held = some h <;> simp [same]

namespace World

-- No map has the block, no line stands for it, and so no lookup finds it.
structure Hidden (w : World) (b : BlockId) : Prop where
  maps : ∀ r registry, w.registries.find? r = some registry → ∀ h,
    registry.contexts.get? h ≠ some b
  lines : ∀ t, ∀ memo ∈ (w.thread t).memos, ∀ registry,
    w.registries.find? memo.registry = some registry →
    ∀ h, registry.lineHolds memo.line h = true → memo.block ≠ some b
  -- A lookup of the handle gives what the handle has now, if anything.
  lookups : ∀ t r registry, w.Runs t → w.registries.find? r = some registry → ∀ h,
    (w.lookUp t r h).1 = .error .lockHeld ∨ (w.lookUp t r h).1 = .ok (registry.contexts.get? h)

end World

namespace Machine

variable {hashing : RegistryId → Handle → UInt64} {m : Machine} {b : BlockId}

theorem Reached.hidden (reached : m.Reached hashing) (absent : m.world.blocks.find? b = none) :
    m.world.Hidden b := by
  have arisen := reached.arises
  have lined := Scene.Arises.lined arisen
  have maps : ∀ r registry, m.world.registries.find? r = some registry → ∀ h,
      registry.contexts.get? h ≠ some b := fun r registry live h =>
    Scene.Arises.get?_ne_of_absent arisen absent (World.map?_of_find? live) h
  refine ⟨maps, ?_, ?_⟩
  · intro t memo known registry live h holds remembered
    obtain ⟨block, same, mapped⟩ := lined.faithful t memo known registry live h
      (by simpa [Registry.lineHolds] using holds)
    rw [remembered] at same
    cases same
    exact maps _ registry live h mapped
  · intro t r registry runs live h
    rcases (World.lookUp_spec runs (World.map?_of_find? live) h).2 lined with ⟨_, refused⟩ | found
    · exact .inl refused
    · exact .inr found

-- The registration of a block that is being dropped was removed, if its registry is still there.
theorem Reached.removed (reached : m.Reached hashing) {r : RegistryId} {entry : Ticket} {h : Handle}
    {slots : Nat} (registered : .stateCreated r entry b h slots ∈ m.world.journal)
    (live : m.world.registries.contains r = true) (absent : m.world.blocks.find? b = none) :
    ∃ scrubbed, .stateRemoved r entry b h scrubbed ∈ m.world.journal := by
  have arisen := reached.arises
  rcases Scene.Arises.fate arisen registered with removed | claims
  · exact removed
  · obtain ⟨registry, there⟩ := Table.contains_iff.mp live
    have kept := (Scene.Arises.owned arisen).kept _ claims _ (World.map?_of_find? there)
    exact absurd ⟨_, World.map?_of_find? there, kept⟩
      (Scene.Arises.unregistered_of_absent arisen absent r entry h)

-- Of two objects of a block that were dropped, the first lay in the lower slot.
theorem Reached.ascending (reached : m.Reached hashing) {late mid early : List Event}
    {h h' : Handle} {object object' : Object} {found found' : Option (Except Panic Bool)}
    (journal : m.world.journal = late ++ .objectDropped b h' object' found' :: mid
      ++ .objectDropped b h object found :: early)
    {r : RegistryId} {entry : Ticket} {handle : Handle} {slots : Nat}
    (registered : .stateCreated r entry b handle slots ∈ early) {slot slot' : Slot}
    (made : .objectMade b slot object ∈ m.world.journal)
    (made' : .objectMade b slot' object' ∈ m.world.journal) : slot < slot' := by
  have arisen := reached.arises
  have born : b ∈ early.filterMap Event.born? := List.mem_filterMap.mpr ⟨_, registered, rfl⟩
  have first : (object :: torn b early).Sublist
      (torn b (mid ++ .objectDropped b h object found :: early)) := by
    rw [← torn_dropped (h := h) born]
    exact torn_sublist mid _
  have bornThen : b ∈ (mid ++ .objectDropped b h object found :: early).filterMap Event.born? := by
    rw [List.filterMap_append]
    exact List.mem_append_right _ born
  have both : [object', object].Sublist (torn b m.world.journal) := by
    rw [journal, List.append_assoc, List.cons_append]
    refine List.Sublist.trans ?_ (torn_sublist late _)
    rw [torn_dropped bornThen]
    apply List.Sublist.cons_cons
    exact List.Sublist.trans (List.Sublist.cons_cons _ (List.nil_sublist _)) first
  have bornNow : b ∈ m.world.births := by
    refine World.mem_births.mpr ⟨r, entry, handle, slots, ?_⟩
    rw [journal]
    exact List.mem_append_right _ (List.mem_cons_of_mem _ registered)
  have ordered := (Scene.Arises.orderly arisen).ordered b bornNow
  have pair := (List.pairwise_append.mp ordered).1.sublist (List.reverse_sublist.mpr both)
  obtain ⟨low, high, less, one, two⟩ := List.pairwise_pair.mp pair
  obtain ⟨_, rfl, _⟩ := Scene.Arises.same_object arisen made one rfl
  obtain ⟨_, rfl, _⟩ := Scene.Arises.same_object arisen made' two rfl
  exact less

-- While a block is registered nothing of it has been dropped since it was registered.
theorem Reached.whole (reached : m.Reached hashing) {block : Block}
    (present : m.world.blocks.find? b = some block) {late early : List Event} {h : Handle}
    {object : Object} {found : Option (Except Panic Bool)}
    (journal : m.world.journal = late ++ .objectDropped b h object found :: early)
    {r : RegistryId} {entry : Ticket} {handle : Handle} {slots : Nat} :
    .stateCreated r entry b handle slots ∉ early := by
  intro registered
  have whole := (Scene.Arises.orderly reached.arises).whole b block present
  have dropped : object ∈ torn b m.world.journal := by
    rw [journal]
    apply (torn_sublist late _).subset
    rw [torn_dropped (List.mem_filterMap.mpr ⟨_, registered, rfl⟩)]
    exact List.mem_cons_self
  have none_torn : torn b m.world.journal = [] := whole
  rw [none_torn] at dropped
  cases dropped

-- What a destroy leaves that gave the owner up: the registration is out of the map and out of all
-- lines, and the block still stands.
theorem Reached.destroyed (reached : m.Reached hashing) {t : ThreadId} {name : Name} {g : Guard}
    (runs : m.world.Runs t) (named : m.world.states.find? name = some g)
    (done : (m.world.destroy t name).answer = .done) :
    ∃ registry scrubbed block,
      (m.world.destroy t name).world.journal
        = .stateRemoved g.registry g.entry g.block g.handle scrubbed :: m.world.journal ∧
      m.world.blocks.find? g.block = some block ∧
      (m.world.destroy t name).world.blocks.find? g.block = some block ∧
      (m.world.destroy t name).world.registries.find? g.registry = some registry ∧
      registry.contexts.get? g.handle = none ∧
      ∀ line, registry.lineHolds line g.handle = false := by
  have arisen := reached.arises
  have tidy : m.world.Tidy := Scene.Arises.tidy arisen
  have owns : g ∈ m.scene.guards := Scene.mem_guards.mpr (.inl ⟨name, Table.mem_of_find? named⟩)
  obtain ⟨registry, contexts, live, removed⟩ := World.remove?_of_guard arisen owns
  have mapped := World.map?_of_find? live
  obtain ⟨block, present⟩ := (Scene.Arises.live arisen).block_registered tidy
    ⟨_, mapped, HandleMap.entry?_of_remove? removed⟩
  unfold World.destroy at done ⊢
  rw [named] at done ⊢
  simp only at done ⊢
  by_cases free : (m.world.thread t).depth = 0
  · rw [World.giveUp_free (w := { m.world with states := m.world.states.erase name }) runs free live
      removed]
    refine ⟨_, _, block, rfl, present, present, Table.find?_put_self .., ?_, ?_⟩
    · have valid := (Scene.Arises.owned arisen).valid _ _ mapped
      exact (HandleMap.get?_remove valid removed g.handle).trans (if_pos rfl)
    · exact Registry.lineHolds_scrub _ g.handle
  · rw [World.giveUp_held (w := { m.world with states := m.world.states.erase name }) free] at done
    cases done

structure TearsDown (m : Machine) : Prop where
  -- A block of which an object is to be dropped is out of sight from now on, for nested steps of the
  -- drop as for whatever comes later.
  hidden : ∀ b h object r entry handle slots, .dropObject b h object ∈ m.tasks →
    .stateCreated r entry b handle slots ∈ m.world.journal →
    m.world.Hidden b ∧
    (m.world.registries.contains r = true →
      ∃ scrubbed, .stateRemoved r entry b handle scrubbed ∈ m.world.journal) ∧
    ∀ after, m.Later after → after.world.Hidden b ∧
      ∃ told, after.world.journal = told ++ m.world.journal ∧
        ∀ t r h found route, .lookedUp t r h found route ∈ told → found ≠ some b
  -- An object's drop is done, with all that it brings about, before the next task is begun.
  finished : ∀ b h object rest, m.tasks = .dropObject b h object :: rest →
    ∃ n, (m.steps n).tasks = rest ∧
      ∀ k < n, ∃ first, first ≠ [] ∧ (m.steps k).tasks = first ++ rest
  ascending : ∀ late mid early b h h' object object' found found' r entry handle slots slot slot',
    m.world.journal = late ++ .objectDropped b h' object' found' :: mid
      ++ .objectDropped b h object found :: early →
    .stateCreated r entry b handle slots ∈ early →
    .objectMade b slot object ∈ m.world.journal → .objectMade b slot' object' ∈ m.world.journal →
    slot < slot'
  -- A destroy that gives the owner up takes the handle out of the map and all lines, and nothing of
  -- the block was dropped until then.
  destroyed : ∀ t name g, m.world.Runs t → m.world.states.find? name = some g →
    (m.world.destroy t name).answer = .done →
    (∃ registry scrubbed block,
      (m.world.destroy t name).world.journal
        = .stateRemoved g.registry g.entry g.block g.handle scrubbed :: m.world.journal ∧
      m.world.blocks.find? g.block = some block ∧
      (m.world.destroy t name).world.blocks.find? g.block = some block ∧
      (m.world.destroy t name).world.registries.find? g.registry = some registry ∧
      registry.contexts.get? g.handle = none ∧
      ∀ line, registry.lineHolds line g.handle = false) ∧
    ∀ late early h object found r entry handle slots,
      m.world.journal = late ++ .objectDropped g.block h object found :: early →
      .stateCreated r entry g.block handle slots ∉ early

theorem teardown_unseen (reached : m.Reached hashing) : m.TearsDown := by
  have arisen := reached.arises
  refine ⟨?_, ?_, ?_, ?_⟩
  · intro b h object r entry handle slots drops registered
    have waits : .dropObject b h object ∈ m.scene.tasks := List.mem_filter.mpr ⟨drops, rfl⟩
    have absent := Scene.Arises.absent_of_dropping arisen waits
    have born : b ∈ m.world.births := World.mem_births.mpr ⟨r, entry, handle, slots, registered⟩
    refine ⟨reached.hidden absent, fun live => reached.removed registered live absent, ?_⟩
    intro after later
    obtain ⟨absentThen, told, journal, unseen⟩ :=
      Scene.Arises.unseen arisen born absent (Later.moves reached later)
    exact ⟨(reached.on later).hidden absentThen, told, journal, unseen⟩
  · intro b h object rest tasks
    exact steps_to [.dropObject b h object] tasks
  · intro late mid early b h h' object object' found found' r entry handle slots slot slot'
      journal registered made made'
    exact reached.ascending journal registered made made'
  · intro t name g runs named done
    obtain ⟨registry, scrubbed, block, journal, present, rest⟩ := reached.destroyed runs named done
    refine ⟨⟨registry, scrubbed, block, journal, present, rest⟩, ?_⟩
    intro late early h object found r entry handle slots split
    exact reached.whole present split

-- The extension that is dropped gives its context new state: only the new block is found then.
theorem teardown_unseen_dropping :
    (dropping.steps 6).world.Hidden ⟨1⟩ ∧
      ((dropping.steps 6).world.registry globalRegistry).contexts.get? ⟨64, by decide⟩
        = some ⟨3⟩ := by
  have drops : ∃ h object, .dropObject ⟨1⟩ h object ∈ dropping.tasks := ⟨_, _, List.mem_cons_self⟩
  have registered : ∃ r entry h slots,
      .stateCreated r entry ⟨1⟩ h slots ∈ dropping.world.journal :=
    ⟨_, _, _, _, List.mem_cons_of_mem _ (List.mem_cons_of_mem _ List.mem_cons_self)⟩
  obtain ⟨h, object, drops⟩ := drops
  obtain ⟨r, entry, handle, slots, registered⟩ := registered
  have hidden := (teardown_unseen dropping_reached).hidden _ _ _ _ _ _ _ drops registered
  exact ⟨(hidden.2.2 _ (later_steps dropping 6)).1, rfl⟩

end Machine

end AttachedState
