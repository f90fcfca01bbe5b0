import AttachedState.Proofs.Grounds

/-!
Registrations come and go: what a move does to the maps of the registries, to the owners, and to what
the journal tells of both.  There are six ways, and most moves do none of it.
-/

namespace AttachedState

-- The block whose state an event tells to be created.
def Event.born? : Event → Option BlockId
  | stateCreated _ _ b _ _ => some b
  | _ => none

theorem Event.born?_of_not_ofState {e : Event} (silent : e.ofState = false) : e.born? = none := by
  cases e <;> first | rfl | cases silent

namespace World

-- The blocks whose state was created, the latest first.
def births (w : World) : List BlockId := w.journal.filterMap Event.born?

theorem mem_births {w : World} {b : BlockId} :
    b ∈ w.births ↔ ∃ r entry h slots, .stateCreated r entry b h slots ∈ w.journal := by
  simp only [births, List.mem_filterMap]
  constructor
  · rintro ⟨e, listed, born⟩
    cases e with
    | stateCreated r entry block h slots =>
      cases born
      exact ⟨r, entry, h, slots, listed⟩
    | _ => cases born
  · rintro ⟨r, entry, h, slots, listed⟩
    exact ⟨_, listed, rfl⟩

end World

-- The blocks that some tasks have under construction.
def underConstruction (tasks : List Task) : List BlockId :=
  tasks.filterMap fun task => task.site?.map (·.block)

theorem underConstruction_append (first later : List Task) :
    underConstruction (first ++ later) = underConstruction first ++ underConstruction later :=
  List.filterMap_append

theorem underConstruction_of_bare {tasks : List Task} (bare : ∀ task ∈ tasks, task.site? = none) :
    underConstruction tasks = [] := by
  apply List.filterMap_eq_nil_iff.mpr
  intro task listed
  rw [bare task listed]
  rfl

theorem underConstruction_toList {α : Type} {f : α → Task} (found : Option α)
    (bare : ∀ a, (f a).site? = none) : underConstruction (found.map f).toList = [] := by
  apply underConstruction_of_bare
  intro task listed
  cases found with
  | none => cases listed
  | some a => rw [List.mem_singleton.mp listed, bare a]

theorem underConstruction_map {α : Type} {f : α → Task} (all : List α)
    (bare : ∀ a, (f a).site? = none) : underConstruction (all.map f) = [] := by
  apply underConstruction_of_bare
  intro task listed
  obtain ⟨a, _, rfl⟩ := List.mem_map.mp listed
  exact bare a

namespace Scene

def building (s : Scene) : List BlockId := underConstruction s.tasks

theorem mem_building {s : Scene} {b : BlockId} :
    b ∈ s.building ↔ ∃ task ∈ s.tasks, ∃ site, task.site? = some site ∧ site.block = b := by
  simp [building, underConstruction]

end Scene

-- A move begins a construction with a new number, or it begins none.
theorem Move.building {s s' : Scene} (move : Move s s') : s'.building.Sublist s.building ∨
    s'.building = ⟨s.world.next⟩ :: s.building ∧ s'.world.births = s.world.births := by
  unfold Scene.building
  cases move with
  | turned | quiet | ended | opened | entitled | disowned | locked | unnamed | retained | unheld =>
    exact .inl (List.Sublist.refl _)
  | shared | held =>
    apply Or.inl
    rw [underConstruction_append, underConstruction_toList _ (by intro a; rfl)]
    exact List.Sublist.refl _
  | unlocked first | spared first | released first | dropped _ _ _ _ _ first =>
    rw [first]
    exact .inl (List.Sublist.refl _)
  | closed r registry rest first | fell b block rest first =>
    apply Or.inl
    rw [first, underConstruction_append]
    first
    | rw [underConstruction_map _ (by intro a; rfl)]
    | rw [dropTasks, underConstruction_map _ (by intro a; rfl)]
    exact List.Sublist.refl _
  | begun site registry live fresh =>
    refine .inr ⟨?_, rfl⟩
    rw [← fresh]
    rfl
  | tried site f later rest first =>
    rw [first]
    exact .inl (List.Sublist.refl _)
  | made site f object rest first =>
    apply Or.inl
    rw [first, underConstruction_append, underConstruction_toList _ (by intro a; rfl)]
    exact List.Sublist.refl _
  | abandoned task site rest first under =>
    apply Or.inl
    rw [first, underConstruction_append, dropTasks, underConstruction_map _ (by intro a; rfl)]
    simp only [underConstruction, List.filterMap_cons, under]
    exact List.sublist_cons_self _ _
  | enrolled site registry entry contexts rest first =>
    rw [first]
    exact .inl (List.sublist_cons_self _ _)
  | withdrawn g registry contexts front back before after hands tasks
  | orphaned g thread front back before after hands tasks =>
    apply Or.inl
    have bare : underConstruction (World.guardTasks g) = [] := rfl
    rw [tasks, underConstruction_append, underConstruction_append, underConstruction_append, bare,
      List.append_nil]

inductive Shift (s s' : Scene) : Prop where
  | kept (told : List Event) (maps : ∀ r, s'.world.map? r = s.world.map? r)
      (guards : s'.guards.Perm s.guards) (journal : s'.world.journal = told ++ s.world.journal)
      (silent : ∀ e ∈ told, e.ofState = false)
  | opened (r : RegistryId) (hash : Handle → UInt64) (fresh : r = ⟨s.world.next⟩)
      (maps : ∀ other, s'.world.map? other
        = if other = r then some (.empty hash) else s.world.map? other)
      (guards : s'.guards = s.guards) (journal : s'.world.journal = s.world.journal)
  | closed (r : RegistryId) (unowned : ∀ g ∈ s.guards, g.registry ≠ r)
      (maps : ∀ other, s'.world.map? other = if other = r then none else s.world.map? other)
      (guards : s'.guards = s.guards) (journal : s'.world.journal = s.world.journal)
  | enrolled (g : Guard) (slots : Nat) (contexts grown : HandleMap BlockId)
      (live : s.world.map? g.registry = some contexts)
      (inserted : contexts.insert g.handle g.block = .ok (g.entry, grown))
      (building : s.building = g.block :: s'.building)
      (maps : ∀ other, s'.world.map? other
        = if other = g.registry then some grown else s.world.map? other)
      (guards : s'.guards.Perm (g :: s.guards))
      (journal : s'.world.journal
        = .stateCreated g.registry g.entry g.block g.handle slots :: s.world.journal)
  | withdrawn (g : Guard) (scrubbed : Nat) (contexts left : HandleMap BlockId)
      (live : s.world.map? g.registry = some contexts)
      (removed : contexts.remove? g.entry = some ((g.handle, g.block), left))
      (maps : ∀ other, s'.world.map? other
        = if other = g.registry then some left else s.world.map? other)
      (guards : s.guards.Perm (g :: s'.guards))
      (journal : s'.world.journal
        = .stateRemoved g.registry g.entry g.block g.handle scrubbed :: s.world.journal)
  | orphaned (g : Guard) (maps : ∀ r, s'.world.map? r = s.world.map? r)
      (guards : s.guards.Perm (g :: s'.guards))
      (journal : s'.world.journal
        = .stateOrphaned g.registry g.entry g.block g.handle :: s.world.journal)

theorem World.map?_put {w after : World} {r : RegistryId} {changed : Registry}
    {contexts : HandleMap BlockId} (put : after.registries = w.registries.put r changed)
    (holds : changed.contexts = contexts) (other : RegistryId) :
    after.map? other = if other = r then some contexts else w.map? other := by
  simp only [World.map?, put, Table.find?_put, ← holds]
  split <;> rfl

theorem World.map?_erase {w after : World} {r : RegistryId}
    (erase : after.registries = w.registries.erase r) (other : RegistryId) :
    after.map? other = if other = r then none else w.map? other := by
  simp only [World.map?, erase, Table.find?_erase]
  split <;> rfl

-- A registry that nothing needs has no owner.
theorem Scene.unowned_of_not_needed {s : Scene} {r : RegistryId} (last : s.needsRegistry r = false) :
    ∀ g ∈ s.guards, g.registry ≠ r := by
  intro g listed same
  simp only [Scene.needsRegistry, World.refersToRegistry, Bool.or_eq_false_iff, Table.any,
    List.any_eq_false, decide_eq_true_eq] at last
  rcases Scene.mem_guards.mp listed with ⟨name, row⟩ | hands
  · exact last.1.1.2 _ row same
  · exact last.1.2 _ hands same

-- Taking an owner out of the hands takes it out of all owners.
theorem guards_without (states : Table Name Guard) (front back : List Guard) (g : Guard) :
    (states.rows.map (·.2) ++ (front ++ g :: back)).Perm
      (g :: (states.rows.map (·.2) ++ (front ++ back))) := by
  rw [← List.append_assoc, ← List.append_assoc]
  exact List.perm_middle

theorem Move.shift {s s' : Scene} (tidy : s.world.Tidy) (move : Move s s') : Shift s s' := by
  have quietly : ∀ (told : List Event), (∀ r, s'.world.map? r = s.world.map? r) →
      s'.guards.Perm s.guards → s'.world.journal = told ++ s.world.journal →
      (∀ e ∈ told, e.ofState = false) → Shift s s' :=
    fun told maps guards journal silent => .kept told maps guards journal silent
  cases move with
  | turned | retained | spared | released | shared | unnamed | held | unheld | fell | begun
  | abandoned =>
    exact quietly [] (fun _ => rfl) (List.Perm.refl _) rfl (by simp)
  | quiet change =>
    obtain ⟨told, journal, silent⟩ := change.same.journal
    refine quietly told change.same.maps ?_ journal fun e listed => (silent e listed).1
    simp only [Scene.guards, change.same.states]
    exact List.Perm.refl _
  | ended | tried | made | dropped =>
    exact quietly [_] (fun _ => rfl) (List.Perm.refl _) rfl (by simp [Event.ofState])
  | locked runs free live | unlocked first runs live =>
    exact quietly [] (World.map?_put_same (by rfl) live (by rfl)) (List.Perm.refl _) rfl
      (by simp)
  | opened new =>
    exact .opened ⟨s.world.next⟩ (s.world.hashing ⟨s.world.next⟩) rfl
      (World.map?_put (by rfl) (by rfl)) rfl rfl
  | closed r registry rest first last live =>
    refine .closed r ?_ (World.map?_erase rfl) rfl rfl
    exact Scene.unowned_of_not_needed (s := { s with tasks := rest }) last
  | enrolled site registry entry contexts rest first live inserted =>
    refine .enrolled ⟨site.registry, entry, site.handle, site.block⟩ _ registry.contexts contexts
      (World.map?_of_find? live) inserted ?_ (World.map?_put (by rfl) (by rfl)) ?_ rfl
    · simp only [Scene.building, first]
      rfl
    · simp only [Scene.guards, World.note, World.setRegistry]
      rw [← List.append_assoc]
      exact List.perm_append_singleton _ _
  | entitled name g hands new =>
    refine quietly [] (fun _ => rfl) ?_ rfl (by simp)
    simp only [Scene.guards, Table.rows_put new, hands, List.map_append, List.map_cons, List.map_nil,
      List.append_nil]
    exact List.Perm.refl _
  | disowned name g named =>
    refine quietly [] (fun _ => rfl) ?_ rfl (by simp)
    obtain ⟨front, back, whole, left⟩ := Table.rows_erase tidy.states named
    simp only [Scene.guards, whole, left, List.map_append, List.map_cons]
    apply List.perm_middle.trans
    rw [List.append_assoc, List.append_assoc, List.cons_append]
    exact List.perm_middle.symm
  | withdrawn g registry contexts front back before after hands tasks live removed =>
    refine .withdrawn g _ registry.contexts contexts (World.map?_of_find? live) removed
      (World.map?_put (by rfl) (by rfl)) ?_ rfl
    simp only [Scene.guards, hands]
    exact guards_without _ _ _ _
  | orphaned g thread front back before after hands =>
    refine .orphaned g (fun _ => rfl) ?_ rfl
    simp only [Scene.guards, hands]
    exact guards_without _ _ _ _

namespace Shift

variable {s s' : Scene}

theorem journal_grows (shift : Shift s s') :
    ∃ told, s'.world.journal = told ++ s.world.journal := by
  cases shift with
  | kept told maps guards journal => exact ⟨told, journal⟩
  | opened r hash fresh maps guards journal | closed r unowned maps guards journal =>
    exact ⟨[], journal⟩
  | enrolled g slots contexts grown live inserted building maps guards journal
  | withdrawn g scrubbed contexts left live removed maps guards journal
  | orphaned g maps guards journal => exact ⟨[_], journal⟩

-- What is told once is told for ever.
theorem still (shift : Shift s s') {e : Event} (listed : e ∈ s.world.journal) :
    e ∈ s'.world.journal := by
  obtain ⟨told, journal⟩ := shift.journal_grows
  rw [journal]
  exact List.mem_append_right _ listed

-- A creation is told when its construction ends, and else never.
theorem births (shift : Shift s s') : s'.world.births = s.world.births ∨
    ∃ b, s.building = b :: s'.building ∧ s'.world.births = b :: s.world.births := by
  cases shift with
  | kept told maps guards journal silent =>
    apply Or.inl
    simp only [World.births, journal, List.filterMap_append]
    rw [List.filterMap_eq_nil_iff.mpr fun e listed => Event.born?_of_not_ofState (silent e listed)]
    rfl
  | opened r hash fresh maps guards journal | closed r unowned maps guards journal =>
    exact .inl (by rw [World.births, journal, World.births])
  | enrolled g slots contexts grown live inserted building maps guards journal =>
    exact .inr ⟨g.block, building, by rw [World.births, journal]; rfl⟩
  | withdrawn g scrubbed contexts left live removed maps guards journal
  | orphaned g maps guards journal =>
    exact .inl (by rw [World.births, journal]; rfl)

end Shift

namespace Scene

-- The blocks that are or were under construction, those that were never finished left out.
def blocksNamed (s : Scene) : List BlockId := s.building ++ s.world.births

theorem Numbered.blocksNamed {s : Scene} (numbered : s.Numbered) {b : BlockId}
    (listed : b ∈ s.blocksNamed) : b.number < s.world.next := by
  rcases List.mem_append.mp listed with under | born
  · obtain ⟨task, there, site, isSite, rfl⟩ := mem_building.mp under
    exact numbered.works task there _ (Task.block?_of_site? isSite)
  · obtain ⟨r, entry, h, slots, told⟩ := World.mem_births.mp born
    exact numbered.journal _ told _ (by simp [Event.numbers])

-- No block is finished twice, and none is finished that is still under construction.
theorem Arises.blocksNamed_nodup {hashing : RegistryId → Handle → UInt64} {s : Scene}
    (arisen : Arises hashing s) : s.blocksNamed.Nodup := by
  induction arisen with
  | refl => exact List.nodup_nil
  | @tail s s' before move ih =>
    have numbered := Arises.numbered before
    rcases (move.shift (Arises.tidy before)).births with same | ⟨b, building, births⟩
    · rcases move.building with less | ⟨more, _⟩
      · unfold Scene.blocksNamed
        rw [same]
        exact ih.sublist (List.Sublist.append_right less _)
      · unfold Scene.blocksNamed
        rw [same, more, List.cons_append, List.nodup_cons]
        refine ⟨?_, ih⟩
        intro listed
        exact Nat.lt_irrefl _ (numbered.blocksNamed listed)
    · unfold Scene.blocksNamed at ih ⊢
      rw [building, List.cons_append] at ih
      rw [births]
      exact List.perm_middle.nodup_iff.mpr ih

end Scene

end AttachedState
