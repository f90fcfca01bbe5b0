import AttachedState.Proofs.Endings
import AttachedState.Proofs.Refusals
import AttachedState.Proofs.Rolls

/-!
Counterparts.  A registry of one world and a registry of another are counterparts if the same was
done with both: they have the same entries under the same tickets and the same lines, and their
blocks correspond to each other.  What the worlds hold besides is of no account.
-/

namespace AttachedState

/-! Maps with other values. -/

theorem Arena.map_congr {α : Type} {a : Arena α} {f g : α → α}
    (same : ∀ t value, a.get? t = some value → f value = g value) : a.map f = a.map g := by
  unfold map
  congr 1
  refine List.map_congr_left fun cell listed => ?_
  obtain ⟨offset, inside, rfl⟩ := List.mem_iff_getElem.mp listed
  cases held : a.cells[offset].content with
  | none => simp only [Option.map_none]
  | some value =>
    have found : a.get? ⟨offset + 1, a.cells[offset].version⟩ = some value := by
      rw [get?_succ, List.getElem?_eq_getElem inside]
      simp [held]
    simp only [Option.map_some, same _ value found]

namespace HandleMap

variable {α : Type} {m n : HandleMap α} {f g : α → α} {h : Handle} {value : α} {t : Ticket}

def renamed (m : HandleMap α) (f : α → α) : HandleMap α :=
  { m with rows := m.rows.map fun row => { row with value := f row.value } }

theorem entry?_renamed (m : HandleMap α) (f : α → α) (t : Ticket) :
    HandleMap.entry? (m.renamed f) t = (m.entry? t).map fun entry => (entry.1, f entry.2) := by
  simp only [renamed, HandleMap.entry?, Arena.get?_map, Option.map_map]
  rfl

theorem renamed_congr (same : ∀ t h value, m.entry? t = some (h, value) → f value = g value) :
    m.renamed f = m.renamed g := by
  unfold renamed
  congr 1
  refine Arena.map_congr fun t row stored => ?_
  rw [same t row.handle row.value (entry?_eq_some.mpr ⟨row, stored, rfl, rfl⟩)]

theorem valid_renamed (valid : m.Valid) (f : α → α) : (m.renamed f).Valid := by
  have found : ∀ t row, (m.renamed f).rows.get? t = some row → ∃ old, m.rows.get? t = some old ∧
      row.handle = old.handle ∧ row.hash = old.hash := by
    intro t row there
    rw [renamed, Arena.get?_map] at there
    obtain ⟨old, stored, rfl⟩ := Option.map_eq_some_iff.mp there
    exact ⟨old, stored, rfl, rfl⟩
  refine ⟨Arena.valid_map valid.rows _, valid.once, fun t row there => ?_, fun hash t listed => ?_,
    fun t u row other one two same => ?_⟩
  · obtain ⟨old, stored, handle, hash⟩ := found t row there
    rw [handle, hash]
    exact valid.filed t old stored
  · obtain ⟨old, stored, rfl⟩ := valid.found hash t listed
    exact ⟨{ old with value := f old.value }, by rw [renamed, Arena.get?_map, stored]; rfl, rfl⟩
  · obtain ⟨old, stored, handle, _⟩ := found t row one
    obtain ⟨old', stored', handle', _⟩ := found u other two
    exact valid.apart t u old old' stored stored' (handle ▸ handle' ▸ same)

theorem contains_renamed (valid : m.Valid) (f : α → α) (h : Handle) :
    (m.renamed f).contains h = m.contains h := by
  have found : (m.renamed f).find? h = m.find? h := by
    refine Option.ext fun t => ?_
    rw [find?_eq_some_iff valid, find?_eq_some_iff (valid_renamed valid f)]
    simp [entry?_renamed]
  rw [contains, contains, found]

theorem toList_renamed (m : HandleMap α) (f : α → α) :
    (m.renamed f).toList = m.toList.map fun row => (row.1, row.2.1, f row.2.2) := by
  simp [renamed, HandleMap.toList, Arena.toList_map]

theorem insert_renamed (valid : m.Valid) (inserted : m.insert h value = .ok (t, n)) (f : α → α) :
    (m.renamed f).insert h (f value) = .ok (t, n.renamed f) := by
  obtain ⟨absent, rfl, rfl⟩ := insert_eq_ok.mp inserted
  have rows := m.rows.map_insert (fun row : Row α => { row with value := f row.value })
    ⟨h, value, m.hash h⟩
  refine insert_eq_ok.mpr ⟨(contains_renamed valid f h).trans absent, ?_, ?_⟩
  · exact (congrArg Prod.fst rows).symm
  · unfold renamed
    congr 1
    exact (congrArg Prod.snd rows).symm

theorem remove?_renamed (m : HandleMap α) (f : α → α) (t : Ticket) : (m.renamed f).remove? t
    = (m.remove? t).map fun taken => ((taken.1.1, f taken.1.2), taken.2.renamed f) := by
  simp only [renamed, HandleMap.remove?, Arena.map_remove?, Option.map_map]
  rfl

end HandleMap

/-! What is not told of objects and blocks, and what is asked of them. -/

def Object.nameless (object : Object) : Object := { object with id := ⟨0⟩ }

namespace Object

variable {object other : Object}

theorem value_eq (alike : other.nameless = object.nameless) : other.value = object.value :=
  show other.nameless.value = object.nameless.value from congrArg Object.value alike

theorem onDrop_eq (alike : other.nameless = object.nameless) : other.onDrop = object.onDrop :=
  show other.nameless.onDrop = object.nameless.onDrop from congrArg Object.onDrop alike

end Object

-- An object that does nothing when it is dropped.
def Object.Inert (object : Object) : Prop := object.value.kind ≠ .probe ∧ object.onDrop = []

-- A factory that does nothing but make its object, which is inert.
structure Factory.Inert (f : Factory) : Prop where
  kind : f.kind ≠ .probe
  before : f.before = []
  source : ∀ registry address key addend, f.source ≠ .copied registry address key addend

def nameless (slots : List (Option Object)) : List (Option Object) := slots.map (Option.map Object.nameless)

def Block.nameless (block : Block) : Block := { block with slots := AttachedState.nameless block.slots }

namespace Block

variable (block : Block)

theorem object?_nameless (slot : Slot) : block.nameless.object? slot = (block.object? slot).map Object.nameless := by
  unfold Block.object? Block.nameless AttachedState.nameless
  rw [List.getElem?_map]
  cases block.slots[slot]? <;> rfl

theorem handle_eq {other : Block} (alike : other.nameless = block.nameless) :
    other.handle = block.handle :=
  show other.nameless.handle = block.nameless.handle from congrArg Block.handle alike

theorem slotCount_nameless : block.nameless.slotCount = block.slotCount := List.length_map _

theorem installed_nameless : block.nameless.installed = block.installed := by
  unfold installed
  simp only [slotCount_nameless, object?_nameless, Option.isSome_map]

theorem read?_nameless (slot : Slot) (kind : Kind) : block.nameless.read? slot kind = block.read? slot kind := by
  unfold read?
  rw [object?_nameless, Option.bind_map]
  rfl

theorem objects_nameless : block.nameless.objects = block.objects.map Object.nameless := by
  unfold objects Block.nameless AttachedState.nameless
  rw [List.filterMap_map, List.map_filterMap]
  rfl

end Block

-- The registry in which a block was registered.
def Event.home? (b : BlockId) : Event → Option RegistryId
  | stateCreated r _ block _ _ => if block = b then some r else none
  | _ => none

def World.home? (w : World) (b : BlockId) : Option RegistryId := w.journal.findSome? (Event.home? b)

theorem World.created_of_home? {w : World} {b : BlockId} {r : RegistryId} (home : w.home? b = some r) :
    ∃ entry h slots, .stateCreated r entry b h slots ∈ w.journal := by
  obtain ⟨e, listed, told⟩ := List.exists_of_findSome?_eq_some home
  cases e with
  | stateCreated r' entry b' h slots =>
    simp only [Event.home?, Option.ite_none_right_eq_some, Option.some.injEq] at told
    obtain ⟨rfl, rfl⟩ := told
    exact ⟨entry, h, slots, listed⟩
  | _ => cases told

theorem World.exists_home {w : World} {b : BlockId} (born : b ∈ w.births) : ∃ r, w.home? b = some r := by
  obtain ⟨r, entry, h, slots, listed⟩ := World.mem_births.mp born
  refine Option.isSome_iff_exists.mp (List.findSome?_isSome_iff.mpr ⟨_, listed, ?_⟩)
  simp only [Event.home?, if_true, Option.isSome_some]

-- The registry that an event is about.
def Event.about? : Event → Option RegistryId
  | stateCreated r .. | stateRemoved r .. | stateOrphaned r .. => some r
  | lineAttached _ r .. | lineDetached _ r _ | lookedUp _ r .. => some r
  | exitRetrieved r .. => r
  | _ => none

-- The registry that an operation is on, in this world.  A registry that is opened is the one to come,
-- unless the name is taken, and a block is one of the registry in which it was registered.
def Operation.registry? (w : World) : Operation → Option RegistryId
  | openRegistry name _ => if (w.registryNamed? name).isSome then none else some ⟨w.next⟩
  | dropRegistry name => w.registryNames.find? name
  | destroy state => (w.states.find? state).map (·.registry)
  | retrieve retrieval | retrieveAtExit retrieval => w.registryNamed? retrieval.registry
  | release block => (w.held.find? block).bind w.home?
  | showRegistry name _ | contains name _ | countContexts name | countCaches name => w.registryNamed? name
  | _ => none

def Action.registry? (w : World) : Action → Option RegistryId
  | operate operation => operation.registry? w
  | create creation _ => w.registryNamed? creation.registry
  | whileLocked name _ => w.registryNamed? name

-- A supply whose factory does nothing but make an object, which does nothing when it is dropped.
structure Supply.Simple (w : World) (s : Supply Action) : Prop where
  before : s.before = []
  source : ∀ registry address key addend, s.source ≠ .copied registry address key addend
  kind : ∀ key, w.keys.find? s.key = some key → key.kind ≠ .probe

-- The operations on registries.  A block is held under a name that stands for no block of another
-- registry, and no name is given away or given up under which a lookup was left.
inductive Operation.Orderly (w : World) : Operation → Prop where
  | openRegistry (name : Name) (looks : Bool) (unleft : w.Unleft name) :
      Orderly w (.openRegistry name looks)
  | dropRegistry (name : Name) (unleft : w.Unleft name) : Orderly w (.dropRegistry name)
  | destroy (state : Name) : Orderly w (.destroy state)
  | retrieve (retrieval : Retrieval) (names : ∀ name b, retrieval.keepAs = some name →
      w.held.find? name = some b → w.home? b = w.registryNamed? retrieval.registry) :
      Orderly w (.retrieve retrieval)
  | release (block : Name) : Orderly w (.release block)
  | showRegistry (name : Name) (layout : Layout) : Orderly w (.showRegistry name layout)
  | contains (name : Name) (address : UInt64) : Orderly w (.contains name address)
  | countContexts (name : Name) : Orderly w (.countContexts name)
  | countCaches (name : Name) : Orderly w (.countCaches name)

-- So it is with the names of states.
inductive Action.Orderly (w : World) : Action → Prop where
  | operate {operation : Operation} (orderly : operation.Orderly w) : Orderly w (.operate operation)
  | create (creation : Creation) (supplies : List (Supply Action))
      (names : ∀ g, w.states.find? creation.state = some g →
        w.registryNamed? creation.registry = some g.registry)
      (simple : ∀ supply ∈ supplies, supply.Simple w) : Orderly w (.create creation supplies)

-- A thread between two commands.
structure Thread.Plain (thread : Thread) : Prop where
  depth : thread.depth = 0
  memosGone : thread.memosGone = false

-- A registry here and its counterpart there, which of the blocks here belong to it, and the block
-- that each of them corresponds to.
structure Counterpart where
  here : RegistryId
  there : RegistryId
  owns : BlockId → Bool
  block : BlockId → BlockId

namespace Counterpart

variable {c : Counterpart}

/-! Maps and registries. -/

-- The same entries under the same tickets, for blocks that correspond to each other.
structure Maps (c : Counterpart) (m n : HandleMap BlockId) : Prop where
  valid : m.Valid
  validToo : n.Valid
  alike : (m.renamed c.block).Alike n
  owned : ∀ t h b, m.entry? t = some (h, b) → c.owns b = true

namespace Maps

variable {m n rest : HandleMap BlockId} {h : Handle} {b : BlockId} {t : Ticket}

theorem empty (c : Counterpart) (hash hashToo : Handle → UInt64) :
    c.Maps (.empty hash) (.empty hashToo) := by
  refine ⟨HandleMap.valid_empty hash, HandleMap.valid_empty hashToo, rfl, fun t h b there => ?_⟩
  rw [HandleMap.entry?_empty] at there
  cases there

theorem entry? (maps : c.Maps m n) (t : Ticket) :
    n.entry? t = (m.entry? t).map fun entry => (entry.1, c.block entry.2) := by
  rw [← maps.alike.entry?, HandleMap.entry?_renamed]

theorem contains (maps : c.Maps m n) (h : Handle) : n.contains h = m.contains h := by
  rw [← maps.alike.contains (HandleMap.valid_renamed maps.valid _) maps.validToo,
    HandleMap.contains_renamed maps.valid]

theorem toList (maps : c.Maps m n) :
    n.toList = m.toList.map fun row => (row.1, row.2.1, c.block row.2.2) := by
  rw [← maps.alike.toList, HandleMap.toList_renamed]

theorem size (maps : c.Maps m n) : n.size = m.size := by
  rw [← HandleMap.length_toList, ← HandleMap.length_toList, maps.toList, List.length_map]

theorem get? (maps : c.Maps m n) (h : Handle) : n.get? h = (m.get? h).map c.block := by
  refine Option.ext fun b => ?_
  rw [HandleMap.get?_eq_some_iff maps.validToo, Option.map_eq_some_iff]
  simp only [HandleMap.get?_eq_some_iff maps.valid, maps.entry?, Option.map_eq_some_iff, Prod.mk.injEq,
    Prod.exists]
  constructor
  · rintro ⟨t, _, b, there, rfl, rfl⟩
    exact ⟨b, ⟨t, there⟩, rfl⟩
  · rintro ⟨b, ⟨t, there⟩, rfl⟩
    exact ⟨t, h, b, there, rfl, rfl⟩

theorem owned_get? (maps : c.Maps m n) (found : m.get? h = some b) : c.owns b = true := by
  obtain ⟨t, there⟩ := (HandleMap.get?_eq_some_iff maps.valid).mp found
  exact maps.owned t h b there

-- An entry is added to both or to none of them.
theorem insert (maps : c.Maps m n) (owns : c.owns b = true) (h : Handle) :
    (∃ t grown grownToo, m.insert h b = .ok (t, grown) ∧ n.insert h (c.block b) = .ok (t, grownToo) ∧
      c.Maps grown grownToo) ∨
    ∃ back backToo, m.insert h b = .error back ∧ n.insert h (c.block b) = .error backToo := by
  have contains := maps.contains h
  cases inserted : m.insert h b with
  | error back =>
    have full := (HandleMap.insert_eq_error inserted).1
    exact .inr ⟨back, _, rfl, HandleMap.insert_of_contains (contains.trans full) _⟩
  | ok grown =>
    obtain ⟨t, grown⟩ := grown
    have there := HandleMap.insert_renamed maps.valid inserted c.block
    have alike := maps.alike.answer (HandleMap.valid_renamed maps.valid _) maps.validToo
      (.insert h (c.block b))
    cases insertedToo : n.insert h (c.block b) with
    | error back =>
      have full := (HandleMap.insert_eq_error insertedToo).1
      rw [contains, (HandleMap.insert_eq_ok.mp inserted).1] at full
      cases full
    | ok grownToo =>
      obtain ⟨u, grownToo⟩ := grownToo
      simp only [HandleMap.answer, there, insertedToo] at alike
      obtain ⟨same, alike⟩ := alike
      cases same
      refine .inl ⟨t, grown, grownToo, rfl, rfl, HandleMap.valid_insert maps.valid inserted,
        HandleMap.valid_insert maps.validToo insertedToo, alike, fun u h' b' found => ?_⟩
      rw [HandleMap.entry?_insert maps.valid inserted] at found
      split at found
      · cases found
        exact owns
      · exact maps.owned u h' b' found

-- So is one removed from both, or neither has it.
theorem remove? (maps : c.Maps m n) (t : Ticket) : (m.remove? t = none ∧ n.remove? t = none) ∨
    ∃ h b rest restToo, m.remove? t = some ((h, b), rest) ∧
      n.remove? t = some ((h, c.block b), restToo) ∧ c.owns b = true ∧ c.Maps rest restToo := by
  have alike := maps.alike.answer (HandleMap.valid_renamed maps.valid _) maps.validToo (.remove t)
  simp only [HandleMap.answer, HandleMap.remove?_renamed] at alike
  cases removed : m.remove? t with
  | none =>
    cases removedToo : n.remove? t with
    | none => exact .inl ⟨rfl, rfl⟩
    | some taken => simp [removed, removedToo] at alike
  | some taken =>
    obtain ⟨⟨h, b⟩, rest⟩ := taken
    cases removedToo : n.remove? t with
    | none => simp [removed, removedToo] at alike
    | some taken =>
      obtain ⟨⟨h', b'⟩, restToo⟩ := taken
      simp only [removed, removedToo, Option.map_some, Reply.removed.injEq, Option.some.injEq,
        Prod.mk.injEq] at alike
      obtain ⟨⟨rfl, rfl⟩, alike⟩ := alike
      refine .inr ⟨h, b, rest, restToo, rfl, rfl, maps.owned t h b (HandleMap.entry?_of_remove? removed),
        HandleMap.valid_remove maps.valid removed, HandleMap.valid_remove maps.validToo removedToo, alike,
        fun u h' b' found => ?_⟩
      rw [HandleMap.entry?_remove removed] at found
      split at found
      · cases found
      · exact maps.owned u h' b' found

end Maps

-- The same label, entries and lines.
structure Registries (c : Counterpart) (x y : Registry) : Prop where
  label : y.label = x.label
  lines : y.lines = x.lines
  maps : c.Maps x.contexts y.contexts

/-! Threads. -/

def memo (c : Counterpart) (memo : Memo) : Memo := ⟨c.there, memo.line, memo.block.map c.block⟩

-- As long as the registry is there, a thread remembers the same of it.
structure Threads (c : Counterpart) (live : Prop) (x y : Thread) : Prop where
  plain : x.Plain
  plainToo : y.Plain
  memos : live → y.memos.filter (·.registry = c.there)
    = (x.memos.filter (·.registry = c.here)).map c.memo
  blocks : ∀ memo ∈ x.memos, memo.registry = c.here → ∀ b, memo.block = some b → c.owns b = true
  alone : ∀ memo ∈ y.memos, memo.registry = c.there

/-! Worlds. -/

def name (c : Counterpart) (r : RegistryId) : Option RegistryId :=
  if r = c.here then some c.there else none

def guard (c : Counterpart) (g : Guard) : Option Guard :=
  if g.registry = c.here then some ⟨c.there, g.entry, g.handle, c.block g.block⟩ else none

def kept (c : Counterpart) (b : BlockId) : Option BlockId := if c.owns b then some (c.block b) else none

-- Two worlds, as far as the registry and its blocks are concerned.  The other world knows nothing else.
structure Worlds (c : Counterpart) (w w' : World) : Prop where
  injective : ∀ b d, c.owns b = true → c.owns d = true → c.block b = c.block d → b = d
  old : ∀ b, c.owns b = true → b.number < w.next ∧ (c.block b).number < w'.next
  unborn : w.next ≤ c.here.number → c.there = ⟨w'.next⟩
  global : c.there = globalRegistry ↔ c.here = globalRegistry
  keys : w'.keys = w.keys
  names : w'.registryNames = w.registryNames.narrow c.name
  states : w'.states = w.states.narrow c.guard
  held : w'.held = w.held.narrow c.kept
  registry : Option.Rel c.Registries (w.registries.find? c.here) (w'.registries.find? c.there)
  running : ∀ t, w'.threads.contains t = true → w.threads.contains t = true
  threads : ∀ t, c.Threads (w.registries.contains c.here = true) (w.thread t) (w'.thread t)
  blocks : ∀ b, c.owns b = true →
    (w'.blocks.find? (c.block b)).map Block.nameless = (w.blocks.find? b).map Block.nameless
  inert : ∀ b block, w.blocks.find? b = some block → ∀ object ∈ block.objects, object.Inert
  guards : ∀ name g, w.states.find? name = some g → (c.owns g.block = true ↔ g.registry = c.here)
  apart : ∀ r contexts t h b, w.map? r = some contexts → contexts.entry? t = some (h, b) →
    (c.owns b = true ↔ r = c.here)
  alone : ∀ r contexts t entry, w'.map? r = some contexts → contexts.entry? t = some entry →
    r = c.there
  created : ∀ r entry b h slots, .stateCreated r entry b h slots ∈ w.journal →
    (c.owns b = true ↔ r = c.here)

namespace Worlds

variable {w w' : World} {b : BlockId} {h : Handle} {x : Registry}

theorem name_eq_some {r : RegistryId} : c.name r = some c.there ↔ r = c.here := by
  unfold name
  split <;> simp_all

theorem guard_eq_some {g g' : Guard} : c.guard g = some g' ↔
    g.registry = c.here ∧ g' = ⟨c.there, g.entry, g.handle, c.block g.block⟩ := by
  unfold guard
  split <;> simp_all [eq_comm]

theorem named (worlds : c.Worlds w w') (tidy : w.Tidy) {name : Name} :
    w'.registryNamed? name = some c.there ↔ w.registryNamed? name = some c.here := by
  unfold World.registryNamed?
  split
  · simp only [Option.some.injEq]
    rw [eq_comm, worlds.global, eq_comm]
  · rw [worlds.names, Table.find?_narrow tidy.registryNames, Option.bind_eq_some_iff]
    simp [name_eq_some]

-- A block belongs to the registry in which it was registered.
theorem home_iff (worlds : c.Worlds w w') (born : b ∈ w.births) :
    w.home? b = some c.here ↔ c.owns b = true := by
  obtain ⟨r, home⟩ := World.exists_home born
  obtain ⟨entry, h, slots, listed⟩ := World.created_of_home? home
  rw [worlds.created r entry b h slots listed, home, Option.some.injEq]

-- What has no name here has none there.
theorem unnamed (worlds : c.Worlds w w') (tidy : w.Tidy) {name : Name}
    (free : w.registryNamed? name = none) : w'.registryNamed? name = none := by
  unfold World.registryNamed? at free ⊢
  split
  · rename_i global
    rw [if_pos global] at free
    cases free
  · rename_i other
    rw [if_neg other] at free
    rw [worlds.names, Table.find?_narrow tidy.registryNames, free]
    rfl

theorem state (worlds : c.Worlds w w') (tidy : w.Tidy) (name : Name) :
    w'.states.find? name = (w.states.find? name).bind c.guard := by
  rw [worlds.states, Table.find?_narrow tidy.states]

theorem registry_of_find? (worlds : c.Worlds w w') (live : w.registries.find? c.here = some x) :
    ∃ y, w'.registries.find? c.there = some y ∧ c.Registries x y := by
  have both := worlds.registry
  rw [live] at both
  cases found : w'.registries.find? c.there with
  | none =>
    rw [found] at both
    cases both
  | some y =>
    rw [found] at both
    cases both with
    | some related => exact ⟨y, rfl, related⟩

theorem live_iff (worlds : c.Worlds w w') :
    w'.registries.contains c.there = w.registries.contains c.here := by
  have both := worlds.registry
  unfold Table.contains
  generalize w.registries.find? c.here = x at both ⊢
  generalize w'.registries.find? c.there = y at both ⊢
  cases both <;> rfl

theorem present_iff (worlds : c.Worlds w w') (owns : c.owns b = true) :
    w'.blocks.contains (c.block b) = w.blocks.contains b := by
  have same := congrArg Option.isSome (worlds.blocks b owns)
  rwa [Option.isSome_map, Option.isSome_map] at same

theorem block_eq_iff (worlds : c.Worlds w w') {d : BlockId} (owns : c.owns b = true)
    (ownsToo : c.owns d = true) : c.block d = c.block b ↔ d = b :=
  ⟨worlds.injective d b ownsToo owns, congrArg c.block⟩

-- A block that belongs to the registry is told of in the same words.
theorem described (worlds : c.Worlds w w') (distinct : w.states.Distinct) (owns : c.owns b = true) :
    w'.describe? (c.block b) = w.describe? b := by
  have states : w'.states.keysWhere (·.block = c.block b) = w.states.keysWhere (·.block = b) := by
    rw [worlds.states, Table.keysWhere_narrow]
    refine congrArg (List.map Prod.fst) (List.filter_congr fun row listed => ?_)
    have mine := worlds.guards row.1 row.2 (Table.find?_of_mem distinct listed)
    simp only [guard]
    split
    · rename_i here
      simp [worlds.block_eq_iff owns (mine.mpr here)]
    · rename_i other
      have apart : row.2.block ≠ b := fun same => other (mine.mp (same ▸ owns))
      simp [apart]
  have held : w'.held.keysWhere (· = c.block b) = w.held.keysWhere (· = b) := by
    rw [worlds.held, Table.keysWhere_narrow]
    refine congrArg (List.map Prod.fst) (List.filter_congr fun row _ => ?_)
    simp only [kept]
    split
    · rename_i mine
      simp [worlds.block_eq_iff owns mine]
    · rename_i other
      have apart : row.2 ≠ b := fun same => other (same ▸ owns)
      simp [apart]
  have same := worlds.blocks b owns
  unfold World.describe?
  rw [states, held]
  cases found : w.blocks.find? b with
  | none =>
    rw [found, Option.map_none, Option.map_eq_none_iff] at same
    rw [same]
  | some block =>
    rw [found, Option.map_some, Option.map_eq_some_iff] at same
    obtain ⟨other, there, alike⟩ := same
    rw [there, Option.map_some, Option.map_some]
    rw [block.handle_eq alike, ← block.slotCount_nameless, ← block.installed_nameless, ← alike,
      other.slotCount_nameless, other.installed_nameless]

theorem read? (worlds : c.Worlds w w') (owns : c.owns b = true) (key : Key) :
    w'.read? key (c.block b) = w.read? key b := by
  have same := worlds.blocks b owns
  unfold World.read?
  cases found : w.blocks.find? b with
  | none =>
    rw [found, Option.map_none, Option.map_eq_none_iff] at same
    rw [same]
  | some block =>
    rw [found, Option.map_some, Option.map_eq_some_iff] at same
    obtain ⟨other, there, alike⟩ := same
    rw [there, Option.bind_some, Option.bind_some, ← block.read?_nameless, ← alike, other.read?_nameless]

theorem readAll? (worlds : c.Worlds w w') (owns : c.owns b = true) :
    w'.readAll? (c.block b) = w.readAll? b := by
  unfold World.readAll?
  simp only [worlds.keys, worlds.read? owns]

theorem needsRegistry (worlds : c.Worlds w w') : w'.refersToRegistry c.there = w.refersToRegistry c.here := by
  unfold World.refersToRegistry
  rw [worlds.names, worlds.states, Table.any_narrow, Table.any_narrow]
  congr 1
  · congr 1
    · simp only [worlds.global]
    · refine congrArg w.registryNames.any (funext fun r => ?_)
      unfold name
      split <;> simp_all
  · refine congrArg w.states.any (funext fun g => ?_)
    unfold guard
    split <;> simp_all

-- Only the registry has entries for its blocks, in either world.
theorem registered_iff (worlds : c.Worlds w w') (tidy : w.Tidy) (tidyToo : w'.Tidy)
    (owns : c.owns b = true) : w'.registries.any (·.blocks.contains (c.block b))
      = w.registries.any (·.blocks.contains b) := by
  rw [Bool.eq_iff_iff, Table.any_iff tidyToo.registries, Table.any_iff tidy.registries]
  simp only [Registry.contains_blocks]
  constructor
  · rintro ⟨r, y, found, t, h, there⟩
    obtain rfl := worlds.alone r _ t _ (World.map?_of_find? found) there
    obtain ⟨x, live⟩ := Table.contains_iff.mp (worlds.live_iff ▸ Table.contains_iff.mpr ⟨y, found⟩)
    obtain ⟨y', foundToo, related⟩ := worlds.registry_of_find? live
    cases found.symm.trans foundToo
    rw [related.maps.entry?, Option.map_eq_some_iff] at there
    obtain ⟨⟨h', d⟩, entry, same⟩ := there
    simp only [Prod.mk.injEq] at same
    obtain ⟨rfl, same⟩ := same
    have mine := related.maps.owned t h' d entry
    obtain rfl := worlds.injective d b mine owns same
    exact ⟨c.here, x, live, t, h', entry⟩
  · rintro ⟨r, x, live, t, h, entry⟩
    obtain rfl := (worlds.apart r _ t h b (World.map?_of_find? live) entry).mp owns
    obtain ⟨y, found, related⟩ := worlds.registry_of_find? live
    exact ⟨c.there, y, found, t, h, by rw [related.maps.entry?, entry]; rfl⟩

theorem needsBlock (worlds : c.Worlds w w') (tidy : w.Tidy) (tidyToo : w'.Tidy) (owns : c.owns b = true) :
    w'.refersToBlock (c.block b) = w.refersToBlock b := by
  have states : w'.states.any (·.block = c.block b) = w.states.any (·.block = b) := by
    rw [worlds.states, Table.any_narrow, Bool.eq_iff_iff, Table.any_iff tidy.states, Table.any_iff tidy.states]
    refine exists_congr fun name => exists_congr fun g => and_congr_right fun found => ?_
    have mine := worlds.guards name g found
    unfold guard
    split
    · rename_i here
      simp [worlds.block_eq_iff owns (mine.mpr here)]
    · rename_i other
      have apart : g.block ≠ b := fun same => other (mine.mp (same ▸ owns))
      simp [apart]
  have held : w'.held.any (· = c.block b) = w.held.any (· = b) := by
    rw [worlds.held, Table.any_narrow]
    refine congrArg w.held.any (funext fun d => ?_)
    unfold kept
    split
    · rename_i mine
      simp [worlds.block_eq_iff owns mine]
    · rename_i other
      have apart : d ≠ b := fun same => other (same ▸ owns)
      simp [apart]
  unfold World.refersToBlock
  rw [states, held, worlds.registered_iff tidy tidyToo owns]

end Worlds

end Counterpart

end AttachedState
