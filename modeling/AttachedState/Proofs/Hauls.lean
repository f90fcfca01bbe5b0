import AttachedState.Proofs.Turnover

/-!
Where extension objects are moved.  An object is made in a block under construction; from there it
goes into a block of the world or is dropped, and from a block of the world it is dropped.  A move
does one of eight things to objects; most do the first, which is nothing.
-/

namespace AttachedState

namespace Task

-- The tasks that carry objects: a block under construction, or an object to be dropped.
def carries (task : Task) : Bool := task.block?.isSome

theorem carries_of_site? {task : Task} {site : Construction} (under : task.site? = some site) :
    task.carries = true := by
  unfold carries
  rw [block?_of_site? under]
  rfl

end Task

namespace Scene

def loads (s : Scene) : List Task := s.tasks.filter Task.carries

theorem mem_loads {s : Scene} {task : Task} :
    task ∈ s.loads ↔ task ∈ s.tasks ∧ task.carries = true := List.mem_filter

end Scene

inductive Haul (s s' : Scene) : Prop where
  | idle (told : List Event) (loads : s'.loads = s.loads)
      (blocks : s'.world.blocks = s.world.blocks) (journal : s'.world.journal = told ++ s.world.journal)
      (silent : ∀ e ∈ told, e.ofObject = false ∧ e.born? = none)
  | begun (site : Construction) (fresh : site.block = ⟨s.world.next⟩)
      (vacant : ∀ object ∈ site.slots, object = none)
      (room : ∀ f ∈ site.pending, f.slot < site.slots.length)
      (loads : s'.loads = .construct site :: s.loads) (blocks : s'.world.blocks = s.world.blocks)
      (journal : s'.world.journal = s.world.journal)
  | tried (site : Construction) (f : Factory) (later : List Factory) (rest : List Task)
      (pending : site.pending = f :: later) (before : s.loads = .construct site :: rest)
      (loads : s'.loads = .make { site with pending := later } f :: rest)
      (blocks : s'.world.blocks = s.world.blocks)
      (journal : s'.world.journal = .factoryStarted site.block f.slot site.handle :: s.world.journal)
  | made (site : Construction) (f : Factory) (object : Object) (rest : List Task)
      (fresh : object.id = ⟨s.world.next⟩) (before : s.loads = .make site f :: rest)
      (loads : s'.loads
        = ((site.built.object? f.slot).map (.dropObject site.block site.handle)).toList ++
          .construct { site with slots := site.slots.set f.slot (some object) } :: rest)
      (blocks : s'.world.blocks = s.world.blocks)
      (journal : s'.world.journal = .objectMade site.block f.slot object :: s.world.journal)
  | abandoned (task : Task) (site : Construction) (rest : List Task)
      (under : task.site? = some site) (before : s.loads = task :: rest)
      (loads : s'.loads = dropTasks site.block site.handle site.built.objects ++ rest)
      (blocks : s'.world.blocks = s.world.blocks) (journal : s'.world.journal = s.world.journal)
  | enrolled (site : Construction) (entry : Ticket) (rest : List Task)
      (before : s.loads = .construct site :: rest) (loads : s'.loads = rest)
      (blocks : s'.world.blocks = s.world.blocks.put site.block site.built)
      (journal : s'.world.journal = .stateCreated site.registry entry site.block site.handle
        site.built.slotCount :: s.world.journal)
  | fell (b : BlockId) (block : Block) (present : s.world.blocks.find? b = some block)
      (loads : s'.loads = dropTasks b block.handle block.objects ++ s.loads)
      (blocks : s'.world.blocks = s.world.blocks.erase b)
      (journal : s'.world.journal = s.world.journal)
  | dropped (b : BlockId) (h : Handle) (object : Object)
      (registered : Option (Except Panic Bool)) (rest : List Task)
      (before : s.loads = .dropObject b h object :: rest) (loads : s'.loads = rest)
      (blocks : s'.world.blocks = s.world.blocks)
      (journal : s'.world.journal = .objectDropped b h object registered :: s.world.journal)

theorem filter_carries_toList {α : Type} {f : α → Task} (found : Option α)
    (bare : ∀ a, (f a).carries = false) : (found.map f).toList.filter Task.carries = [] := by
  apply List.filter_eq_nil_iff.mpr
  intro task listed
  cases found with
  | none => cases listed
  | some a =>
    rw [List.mem_singleton.mp listed, bare a]
    exact Bool.false_ne_true

theorem filter_carries_dropTasks (b : BlockId) (h : Handle) (objects : List Object) :
    (dropTasks b h objects).filter Task.carries = dropTasks b h objects := by
  apply List.filter_eq_self.mpr
  intro task listed
  obtain ⟨object, _, rfl⟩ := List.mem_map.mp listed
  rfl

theorem Move.haul {s s' : Scene} (move : Move s s') : Haul s s' := by
  have no_news : ∀ e ∈ ([] : List Event), e.ofObject = false ∧ e.born? = none :=
    List.forall_mem_nil _
  cases move with
  | turned | locked | opened | unnamed | retained | unheld | entitled | disowned =>
    exact .idle [] rfl rfl rfl no_news
  | quiet change =>
    obtain ⟨told, journal, silent⟩ := change.same.journal
    refine .idle told rfl change.same.blocks journal fun e listed => ?_
    exact ⟨(silent e listed).2, Event.born?_of_not_ofState (silent e listed).1⟩
  | ended =>
    refine .idle [_] rfl rfl rfl fun e listed => ?_
    rw [List.mem_singleton.mp listed]
    exact ⟨rfl, rfl⟩
  | shared =>
    refine .idle [] ?_ rfl rfl no_news
    simp only [Scene.loads, List.filter_append]
    rw [filter_carries_toList (f := .releaseRegistry) _ fun _ => rfl, List.nil_append]
  | held =>
    refine .idle [] ?_ rfl rfl no_news
    simp only [Scene.loads, List.filter_append]
    rw [filter_carries_toList (f := .releaseBlock) _ fun _ => rfl, List.nil_append]
  | unlocked first | spared first | released first =>
    refine .idle [] ?_ rfl rfl no_news
    simp only [Scene.loads, first]
    rfl
  | closed r registry rest first =>
    refine .idle [] ?_ rfl rfl no_news
    have bare : (registry.blocks.map Task.releaseBlock).filter Task.carries = [] := by
      refine List.filter_eq_nil_iff.mpr fun task listed => ?_
      obtain ⟨b, _, rfl⟩ := List.mem_map.mp listed
      exact Bool.false_ne_true
    unfold Scene.loads
    rw [first, List.filter_append, bare]
    rfl
  | fell b block rest first last present =>
    refine .fell b block present ?_ rfl rfl
    simp only [Scene.loads, first, List.filter_append, filter_carries_dropTasks]
    rfl
  | begun site registry live fresh vacant room => exact .begun site fresh vacant room rfl rfl rfl
  | tried site f later rest first pending =>
    refine .tried site f later (rest.filter Task.carries) pending ?_ rfl rfl rfl
    simp only [Scene.loads, first]
    rfl
  | made site f object rest first fresh =>
    refine .made site f object (rest.filter Task.carries) fresh ?_ ?_ rfl rfl
    · simp only [Scene.loads, first]
      rfl
    · simp only [Scene.loads, List.filter_append]
      cases site.built.object? f.slot <;> rfl
  | abandoned task site rest first under =>
    refine .abandoned task site (rest.filter Task.carries) under ?_ ?_ rfl rfl
    · simp only [Scene.loads, first]
      rw [List.filter_cons_of_pos (Task.carries_of_site? under)]
    · simp only [Scene.loads, List.filter_append, filter_carries_dropTasks]
      rfl
  | enrolled site registry entry contexts rest first =>
    refine .enrolled site entry (rest.filter Task.carries) ?_ rfl rfl rfl
    simp only [Scene.loads, first]
    rfl
  | withdrawn g registry contexts front back before after hands tasks
  | orphaned g thread front back before after hands tasks =>
    refine .idle [_] ?_ rfl rfl fun e listed => ?_
    · simp only [Scene.loads, tasks, List.filter_append]
      have bare : (World.guardTasks g).filter Task.carries = [] := rfl
      rw [bare, List.append_nil]
    · rw [List.mem_singleton.mp listed]
      exact ⟨rfl, rfl⟩
  | dropped b h object registered rest first =>
    refine .dropped b h object registered (rest.filter Task.carries) ?_ rfl rfl rfl
    simp only [Scene.loads, first]
    rfl

end AttachedState
