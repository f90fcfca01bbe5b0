import AttachedState.Proofs.Machines

/-!
Parallels.  Two worlds that differ only in what threads remember and in what was told go the same
way: a thread takes every task alike in both.  What such a relation of worlds has to keep is said
once, for the few changes that all operations are made of.  A property of one world is such a relation
as well, between the world and itself.

What follows goes through the operations in the order of the modules that hold them.
-/

namespace AttachedState

-- The events that tell of lines, of lookups and of the ends of threads.
def Event.ofLines : Event → Bool
  | lineAttached .. | lineDetached .. | lookedUp .. | threadEnded _ => true
  | _ => false

open Scene

-- A result and a world after it: the result is the same, and the worlds are related.
def Alongside {α : Type} (R : World → World → Prop) (one other : α × World) : Prop :=
  ∃ result after afterToo, one = (result, after) ∧ other = (result, afterToo) ∧ R after afterToo

-- A relation of worlds that are the same but for their threads and journals, in which every lock is
-- granted in both or refused in both.
structure Abreast (R : World → World → Prop) : Prop where
  rest : ∀ {w w'}, R w w' → ∃ threads journal, w' = { w with threads, journal }
  runs : ∀ {w w' u}, R w w' → w.Runs u → w'.Runs u
  thread : ∀ {w w'} u, R w w' →
    (w'.thread u).depth = (w.thread u).depth ∧ (w'.thread u).atExit = (w.thread u).atExit
  rewritten : ∀ {w w' r registry}, R w w' → w.registries.find? r = some registry →
    ∀ new, R (w.setRegistry r new) (w'.setRegistry r new)

-- Such a relation that all the changes keep which a session is made of.
structure Congruence (hashing : RegistryId → Handle → UInt64) (R : World → World → Prop) : Prop
    extends Abreast R where
  noted : ∀ {w w' e}, R w w' → e.ofLines = false → R (w.note e) (w'.note e)
  edited : ∀ {w w' blocks spaces registryNames spaceNames keys states held next}, R w w' →
    w.next ≤ next →
    R { w with blocks, spaces, registryNames, spaceNames, keys, states, held, next }
      { w' with blocks, spaces, registryNames, spaceNames, keys, states, held, next }
  opened : ∀ {w w' t tasks}, Arises hashing ⟨w, t, [], tasks⟩ → Arises hashing ⟨w', t, [], tasks⟩ →
    R w w' → ∀ new, R { w with registries := w.registries.put ⟨w.next⟩ new, next := w.next + 1 }
      { w' with registries := w'.registries.put ⟨w'.next⟩ new, next := w'.next + 1 }
  closed : ∀ {w w'} r, R w w' → R { w with registries := w.registries.erase r }
    { w' with registries := w'.registries.erase r }
  threaded : ∀ {w w' u}, R w w' → w.Runs u → ∀ depth atExit,
    R (w.setThread u { w.thread u with depth, atExit })
      (w'.setThread u { w'.thread u with depth, atExit })
  started : ∀ {w w'} u, R w w' → R (w.startThread u) (w'.startThread u)
  looked : ∀ {w w' u r registry} h, R w w' → w.Runs u → w.registries.find? r = some registry →
    Alongside R (w.lookUp u r h) (w'.lookUp u r h)
  dropped : ∀ {w w' u}, R w w' → (w.thread u).depth = 0 → R (w.dropMemos u) (w'.dropMemos u)
  ended : ∀ {w w'} u, R w w' → R ({ w with threads := w.threads.erase u }.note (.threadEnded u))
    ({ w' with threads := w'.threads.erase u }.note (.threadEnded u))

-- What an operation answers and leaves to be done in one of two related worlds, it answers and
-- leaves in the other.
structure Outcome.Alike (R : World → World → Prop) (one other : Outcome) : Prop where
  world : R one.world other.world
  answer : other.answer = one.answer
  first : other.first = one.first

namespace Abreast

variable {R : World → World → Prop} {w w' : World} {u : ThreadId} {r : RegistryId} {registry : Registry}

theorem find? (c : Abreast R) (related : R w w') : w'.registries.find? r = w.registries.find? r := by
  obtain ⟨threads, journal, rfl⟩ := c.rest related
  rfl

-- Both worlds grant the lock or refuse it, and the work gives the same and does the same.
theorem underLock (c : Abreast R) (related : R w w') (runs : w.Runs u)
    (live : w.registries.find? r = some registry) {α : Type} (work : Registry → α × Registry) :
    (w.underLock u r work = .error .lockHeld ∧ w'.underLock u r work = .error .lockHeld) ∨
    ∃ result new, w.underLock u r work = .ok (result, w.setRegistry r new) ∧
      w'.underLock u r work = .ok (result, w'.setRegistry r new) ∧
      R (w.setRegistry r new) (w'.setRegistry r new) := by
  have same := (c.thread u related).1
  have liveToo : w'.registries.find? r = some registry := (c.find? related).trans live
  by_cases free : (w.thread u).depth = 0
  · have freeToo := same.trans free
    exact .inr ⟨_, _, World.underLock_free runs free live work,
      World.underLock_free (c.runs related runs) freeToo liveToo work, c.rewritten related live _⟩
  · have heldToo : (w'.thread u).depth ≠ 0 := by rwa [same]
    exact .inl ⟨World.underLock_held free work, World.underLock_held heldToo work⟩

theorem underLock? (c : Abreast R) (related : R w w') (runs : w.Runs u)
    (live : w.registries.find? r = some registry) {α : Type} (look : Registry → α) :
    w'.underLock? u r look = w.underLock? u r look := by
  unfold World.underLock?
  rcases c.underLock related runs live fun registry => (look registry, registry) with
    ⟨one, other⟩ | ⟨result, new, one, other, _⟩
  · rw [one, other]
  · rw [one, other]
    rfl

end Abreast

namespace Congruence

variable {hashing : RegistryId → Handle → UInt64} {R : World → World → Prop} {w w' : World}
  {t u : ThreadId} {r : RegistryId} {registry : Registry} {later : List Task} {owners : List Guard}

theorem alike_of (related : R w w') {answer : Answer} {first : List Task} :
    Outcome.Alike R ⟨w, answer, first⟩ ⟨w', answer, first⟩ := ⟨related, rfl, rfl⟩

theorem alike_fail (related : R w w') {failure : Failure} :
    Outcome.Alike R (.fail w failure) (.fail w' failure) := alike_of related

theorem alongside {α : Type} (result : α) (related : R w w') : Alongside R (result, w) (result, w') :=
  ⟨result, w, w', rfl, rfl, related⟩

/-! What is read alike. -/

theorem named (c : Congruence hashing R) (related : R w w') (name : Name) :
    w'.registryNamed? name = w.registryNamed? name := by
  obtain ⟨threads, journal, rfl⟩ := c.rest related
  rfl

theorem spaceNamed (c : Congruence hashing R) (related : R w w') (name : Name) :
    w'.spaceNamed? name = w.spaceNamed? name := by
  obtain ⟨threads, journal, rfl⟩ := c.rest related
  rfl

theorem space (c : Congruence hashing R) (related : R w w') (s : SpaceId) : w'.space s = w.space s := by
  obtain ⟨threads, journal, rfl⟩ := c.rest related
  rfl

theorem subject (c : Congruence hashing R) (related : R w w') (subject : Subject) :
    w'.subject? subject = w.subject? subject := by
  obtain ⟨threads, journal, rfl⟩ := c.rest related
  cases subject <;> rfl

theorem described (c : Congruence hashing R) (related : R w w') (b : BlockId) :
    w'.describe? b = w.describe? b := by
  obtain ⟨threads, journal, rfl⟩ := c.rest related
  rfl

theorem readAll (c : Congruence hashing R) (related : R w w') (b : BlockId) :
    w'.readAll? b = w.readAll? b := by
  obtain ⟨threads, journal, rfl⟩ := c.rest related
  rfl

theorem read (c : Congruence hashing R) (related : R w w') (key : Key) (b : BlockId) :
    w'.read? key b = w.read? key b := by
  obtain ⟨threads, journal, rfl⟩ := c.rest related
  rfl

/-! Tables that are changed alike. -/

theorem entitled (c : Congruence hashing R) (related : R w w') (states : Table Name Guard) :
    R { w with states } { w' with states } := by
  obtain ⟨threads, journal, rfl⟩ := c.rest related
  exact c.edited related (Nat.le_refl _)

theorem renamed (c : Congruence hashing R) (related : R w w') (registryNames : Table Name RegistryId) :
    R { w with registryNames } { w' with registryNames } := by
  obtain ⟨threads, journal, rfl⟩ := c.rest related
  exact c.edited related (Nat.le_refl _)

theorem reheld (c : Congruence hashing R) (related : R w w') (blocks : Table BlockId Block)
    (held : Table Name BlockId) : R { w with blocks, held } { w' with blocks, held } := by
  obtain ⟨threads, journal, rfl⟩ := c.rest related
  exact c.edited related (Nat.le_refl _)

theorem numbered (c : Congruence hashing R) (related : R w w') :
    R { w with next := w.next + 1 } { w' with next := w.next + 1 } := by
  obtain ⟨threads, journal, rfl⟩ := c.rest related
  exact c.edited related (Nat.le_succ _)

theorem filed (c : Congruence hashing R) (related : R w w') (spaces : Table SpaceId SlotPool)
    (spaceNames : Table Name SpaceId) (keys : Table Name Key) {next : Nat} (le : w.next ≤ next) :
    R { w with spaces, spaceNames, keys, next } { w' with spaces, spaceNames, keys, next } := by
  obtain ⟨threads, journal, rfl⟩ := c.rest related
  exact c.edited related le

/-! Locks. -/

theorem deepened (c : Congruence hashing R) (related : R w w') (runs : w.Runs u) (depth : Nat) :
    R (w.setThread u { w.thread u with depth }) (w'.setThread u { w'.thread u with depth }) := by
  have changed := c.threaded related runs depth (w.thread u).atExit
  have same : { w'.thread u with depth, atExit := (w.thread u).atExit } = { w'.thread u with depth } := by
    rw [← (c.thread u related).2]
  rwa [same] at changed

/-! Owners and registries. -/

theorem giveUp (c : Congruence hashing R) (related : R w w') (runs : w.Runs t) {g : Guard}
    (live : w.registries.find? g.registry = some registry) :
    (w.giveUp t g).Alike R (w'.giveUp t g) := by
  unfold World.giveUp
  rcases c.underLock related runs live fun registry => registry.withdraw g.entry g.handle g.block with
    ⟨one, other⟩ | ⟨result, new, one, other, after⟩
  · rw [one, other]
    exact alike_of (c.noted related (by rfl))
  · rw [one, other]
    cases result with
    | error cause => exact alike_of (c.noted after (by rfl))
    | ok scrubbed => exact alike_of (c.noted after (by rfl))

theorem destroy (c : Congruence hashing R) (arisen : Arises hashing ⟨w, t, [], later⟩) (runs : w.Runs t)
    (related : R w w') (name : Name) : (w.destroy t name).Alike R (w'.destroy t name) := by
  have erased := c.entitled related (w.states.erase name)
  obtain ⟨threads, journal, rfl⟩ := c.rest related
  unfold World.destroy
  cases named : w.states.find? name with
  | none => exact alike_fail related
  | some g =>
    obtain ⟨_, _, live, _⟩ := World.remove?_of_guard arisen
      (mem_guards.mpr (.inl ⟨name, Table.mem_of_find? named⟩))
    exact c.giveUp erased runs live

theorem newRegistry (c : Congruence hashing R) (arisen : Arises hashing ⟨w, t, [], later⟩)
    (arisenToo : Arises hashing ⟨w', t, [], later⟩) (related : R w w') (name : Name) :
    (w.newRegistry name).Alike R (w'.newRegistry name) := by
  have made := fun new : Registry => c.renamed (c.opened arisen arisenToo related new)
    (w.registryNames.put name ⟨w.next⟩)
  obtain ⟨threads, journal, rfl⟩ := c.rest related
  rw [World.newRegistry_eq, World.newRegistry_eq, c.named related]
  split
  · exact alike_fail related
  · exact alike_of (made _)

theorem openRegistry (c : Congruence hashing R) (arisen : Arises hashing ⟨w, t, [], later⟩)
    (arisenToo : Arises hashing ⟨w', t, [], later⟩) (runs : w.Runs t) (related : R w w') (name : Name) :
    (w.openRegistry t name).Alike R (w'.openRegistry t name) := by
  have same := (c.thread t related).1
  have runsToo := c.runs related runs
  by_cases free : (w.thread t).depth = 0
  · rw [World.openRegistry_free runs free, World.openRegistry_free runsToo (same.trans free)]
    exact c.newRegistry arisen arisenToo related name
  · rw [World.openRegistry_held free, World.openRegistry_held (by rwa [same])]
    exact alike_fail related

theorem shareRegistry (c : Congruence hashing R) (related : R w w') (name source : Name) :
    (w.shareRegistry name source).Alike R (w'.shareRegistry name source) := by
  have renamed := c.renamed related
  obtain ⟨threads, journal, rfl⟩ := c.rest related
  unfold World.shareRegistry
  rw [c.named related]
  cases w.registryNamed? source with
  | none => exact alike_fail related
  | some r => exact alike_of (renamed _)

theorem dropRegistry (c : Congruence hashing R) (related : R w w') (name : Name) :
    (w.dropRegistry name).Alike R (w'.dropRegistry name) := by
  have renamed := c.renamed related
  obtain ⟨threads, journal, rfl⟩ := c.rest related
  unfold World.dropRegistry
  cases w.registryNames.find? name with
  | none => exact alike_fail related
  | some r => exact alike_of (renamed _)

theorem askRegistry (c : Congruence hashing R) (arisen : Arises hashing ⟨w, t, [], later⟩)
    (runs : w.Runs t) (related : R w w') (name : Name) (tell : Registry → Answer) :
    (w.askRegistry t name tell).Alike R (w'.askRegistry t name tell) := by
  have locked := fun r (registry : Registry) (live : w.registries.find? r = some registry) =>
    c.underLock related runs live fun registry => (tell registry, registry)
  obtain ⟨threads, journal, rfl⟩ := c.rest related
  unfold World.askRegistry
  rw [c.named related]
  cases named : w.registryNamed? name with
  | none => exact alike_fail related
  | some r =>
    obtain ⟨registry, live⟩ := (Arises.live arisen).registry_named (Arises.tidy arisen) named
    rcases locked r registry live with ⟨one, other⟩ | ⟨result, new, one, other, after⟩
    · simp only [one, other]
      exact alike_fail related
    · simp only [one, other]
      exact alike_of after

theorem contains (c : Congruence hashing R) (arisen : Arises hashing ⟨w, t, [], later⟩)
    (runs : w.Runs t) (related : R w w') (name : Name) (address : UInt64) :
    (w.contains t name address).Alike R (w'.contains t name address) := by
  have asked := c.askRegistry arisen runs related name
  obtain ⟨threads, journal, rfl⟩ := c.rest related
  unfold World.contains
  rw [c.named related]
  cases w.registryNamed? name with
  | none => exact alike_fail related
  | some r =>
    cases Handle.ofAddress? address with
    | none => exact alike_fail related
    | some h => exact asked _

theorem showState (c : Congruence hashing R) (arisen : Arises hashing ⟨w, t, [], later⟩)
    (runs : w.Runs t) (related : R w w') (name : Name) (layout : Layout) :
    (w.showState t name layout).Alike R (w'.showState t name layout) := by
  have locked := fun r (registry : Registry) (live : w.registries.find? r = some registry) =>
    c.underLock related runs live fun registry => (registry.contexts.size, registry)
  obtain ⟨threads, journal, rfl⟩ := c.rest related
  unfold World.showState
  cases named : w.states.find? name with
  | none => exact alike_fail related
  | some g =>
    simp only
    cases w.blocks.find? g.block with
    | none => exact alike_fail related
    | some block =>
      obtain ⟨registry, _, live, _⟩ := World.remove?_of_guard arisen
        (mem_guards.mpr (.inl ⟨name, Table.mem_of_find? named⟩))
      rcases locked _ registry live with ⟨one, other⟩ | ⟨result, new, one, other, after⟩
      · simp only [one, other]
        exact alike_fail related
      · simp only [one, other]
        exact alike_of after

/-! Key spaces and keys. -/

theorem openSpace (c : Congruence hashing R) (related : R w w') (name : Name) :
    (w.openSpace name).Alike R (w'.openSpace name) := by
  have filed := c.filed related (w.spaces.put ⟨w.next⟩ .empty) (w.spaceNames.put name ⟨w.next⟩) w.keys
    (Nat.le_succ _)
  obtain ⟨threads, journal, rfl⟩ := c.rest related
  exact alike_of filed

theorem shareSpace (c : Congruence hashing R) (related : R w w') (name source : Name) :
    (w.shareSpace name source).Alike R (w'.shareSpace name source) := by
  have filed := fun spaceNames => c.filed related w.spaces spaceNames w.keys (Nat.le_refl _)
  obtain ⟨threads, journal, rfl⟩ := c.rest related
  unfold World.shareSpace
  rw [c.spaceNamed related]
  cases w.spaceNamed? source with
  | none => exact alike_fail related
  | some s => exact alike_of (filed _)

theorem dropSpace (c : Congruence hashing R) (related : R w w') (name : Name) :
    (w.dropSpace name).Alike R (w'.dropSpace name) := by
  have filed := fun spaceNames => c.filed related w.spaces spaceNames w.keys (Nat.le_refl _)
  obtain ⟨threads, journal, rfl⟩ := c.rest related
  unfold World.dropSpace
  cases w.spaceNames.contains name with
  | true => exact alike_of (filed _)
  | false => exact alike_fail related

theorem showSpace (c : Congruence hashing R) (related : R w w') (name : Name) (layout : Layout) :
    (w.showSpace name layout).Alike R (w'.showSpace name layout) := by
  obtain ⟨threads, journal, rfl⟩ := c.rest related
  unfold World.showSpace
  rw [c.spaceNamed related]
  cases w.spaceNamed? name with
  | none => exact alike_fail related
  | some s => exact alike_of related

theorem isRegistered (c : Congruence hashing R) (related : R w w') (name : Name) (slot : Slot) :
    (w.isRegistered name slot).Alike R (w'.isRegistered name slot) := by
  obtain ⟨threads, journal, rfl⟩ := c.rest related
  unfold World.isRegistered
  rw [c.spaceNamed related]
  cases w.spaceNamed? name with
  | none => exact alike_fail related
  | some s => exact alike_of related

theorem registerKey (c : Congruence hashing R) (related : R w w') (name space : Name) (kind : Kind) :
    (w.registerKey name space kind).Alike R (w'.registerKey name space kind) := by
  have filed := fun spaces keys => c.filed related spaces w.spaceNames keys (Nat.le_refl _)
  obtain ⟨threads, journal, rfl⟩ := c.rest related
  unfold World.registerKey
  rw [c.spaceNamed related]
  cases w.keys.contains name with
  | true => exact alike_fail related
  | false =>
    cases w.spaceNamed? space with
    | none => exact alike_fail related
    | some s => exact alike_of (c.noted (filed _ _) (by rfl))

theorem dropKey (c : Congruence hashing R) (related : R w w') (name : Name) :
    (w.dropKey name).Alike R (w'.dropKey name) := by
  have filed := fun spaces keys => c.filed related spaces w.spaceNames keys (Nat.le_refl _)
  obtain ⟨threads, journal, rfl⟩ := c.rest related
  unfold World.dropKey
  cases w.keys.find? name with
  | none => exact alike_fail related
  | some key =>
    have same := c.space (filed w.spaces (w.keys.erase name)) key.space
    simp only at same ⊢
    rw [same]
    cases (({ w with keys := w.keys.erase name } : World).space key.space).release? key.slot with
    | none => exact alike_fail (filed _ _)
    | some pool => exact alike_of (c.noted (filed _ _) (by rfl))

theorem showKey (c : Congruence hashing R) (related : R w w') (name : Name) (layout : Layout) :
    (w.showKey name layout).Alike R (w'.showKey name layout) := by
  obtain ⟨threads, journal, rfl⟩ := c.rest related
  unfold World.showKey
  cases w.keys.find? name with
  | none => exact alike_fail related
  | some key => exact alike_of related

theorem keyIsIn (c : Congruence hashing R) (related : R w w') (name space : Name) :
    (w.keyIsIn name space).Alike R (w'.keyIsIn name space) := by
  obtain ⟨threads, journal, rfl⟩ := c.rest related
  unfold World.keyIsIn
  rw [c.spaceNamed related]
  cases w.keys.find? name with
  | none => exact alike_fail related
  | some key =>
    cases w.spaceNamed? space with
    | none => exact alike_fail related
    | some s => exact alike_of related

theorem raceForKeys (c : Congruence hashing R) (related : R w w') (name : Name) (count each : Nat) :
    (w.raceForKeys name count each).Alike R (w'.raceForKeys name count each) := by
  have filed := fun spaces => c.filed related spaces w.spaceNames w.keys (Nat.le_refl _)
  obtain ⟨threads, journal, rfl⟩ := c.rest related
  unfold World.raceForKeys
  rw [c.spaceNamed related]
  cases w.spaceNamed? name with
  | none => exact alike_fail related
  | some s => exact alike_of (filed _)

/-! Retrievals and blocks. -/

theorem keep (c : Congruence hashing R) (related : R w w') (name : Name) (b : BlockId)
    (answer : Answer) : Outcome.Alike R ⟨(w.keep name b).1, answer, (w.keep name b).2⟩
      ⟨(w'.keep name b).1, answer, (w'.keep name b).2⟩ := by
  have held := c.reheld related w.blocks (w.held.put name b)
  obtain ⟨threads, journal, rfl⟩ := c.rest related
  exact alike_of held

theorem present (c : Congruence hashing R) (related : R w w') (retrieval : Retrieval) (b : BlockId) :
    (w.present retrieval b).Alike R (w'.present retrieval b) := by
  have kept := fun answer name => c.keep related name b answer
  obtain ⟨threads, journal, rfl⟩ := c.rest related
  unfold World.present
  rw [c.described related, c.readAll related]
  cases w.describe? b with
  | none => exact alike_fail related
  | some description =>
    cases retrieval.keys.mapM (w.readAll? b) with
    | none => exact alike_fail related
    | some values =>
      cases retrieval.keepAs with
      | none => exact alike_of related
      | some name => exact kept _ name

theorem retrieve (c : Congruence hashing R) (arisen : Arises hashing ⟨w, t, [], later⟩)
    (runs : w.Runs t) (related : R w w') (retrieval : Retrieval) :
    (w.retrieve t retrieval).Alike R (w'.retrieve t retrieval) := by
  have looked := fun r (registry : Registry) (live : w.registries.find? r = some registry) h =>
    c.looked h related runs live
  obtain ⟨threads, journal, rfl⟩ := c.rest related
  unfold World.retrieve
  rw [c.named related]
  cases Handle.ofAddress? retrieval.address with
  | none => exact alike_fail related
  | some h =>
    cases named : w.registryNamed? retrieval.registry with
    | none => exact alike_fail related
    | some r =>
      obtain ⟨registry, live⟩ := (Arises.live arisen).registry_named (Arises.tidy arisen) named
      obtain ⟨result, middle, middleToo, one, other, after⟩ := looked r registry live h
      simp only [one, other]
      cases result with
      | error cause => exact alike_fail after
      | ok found =>
        cases found with
        | none => exact alike_fail after
        | some b =>
          obtain ⟨world, answer, first⟩ := c.present after retrieval b
          exact ⟨world, answer, congrArg (· ++ [Task.releaseRegistry r]) first⟩

theorem leaveForExit (c : Congruence hashing R) (runs : w.Runs t) (related : R w w')
    (retrieval : Retrieval) : (w.leaveForExit t retrieval).Alike R (w'.leaveForExit t retrieval) := by
  obtain ⟨depth, atExit⟩ := c.thread t related
  have left := c.threaded related runs (w.thread t).depth ((w.thread t).atExit ++ [retrieval])
  unfold World.leaveForExit
  simp only [depth, atExit]
  exact alike_of left

theorem hold (c : Congruence hashing R) (related : R w w') (state name : Name) :
    (w.hold state name).Alike R (w'.hold state name) := by
  have kept := fun b => c.keep related name b .done
  obtain ⟨threads, journal, rfl⟩ := c.rest related
  unfold World.hold
  cases w.states.find? state with
  | none => exact alike_fail related
  | some g => exact kept g.block

theorem release (c : Congruence hashing R) (related : R w w') (name : Name) :
    (w.release name).Alike R (w'.release name) := by
  have held := c.reheld related w.blocks (w.held.erase name)
  obtain ⟨threads, journal, rfl⟩ := c.rest related
  unfold World.release
  cases w.held.find? name with
  | none => exact alike_fail related
  | some b => exact alike_of held

theorem ofSubject (c : Congruence hashing R) (related : R w w') (subject : Subject)
    (tell : Block → Answer) : (w.ofSubject subject tell).Alike R (w'.ofSubject subject tell) := by
  obtain ⟨threads, journal, rfl⟩ := c.rest related
  unfold World.ofSubject
  rw [c.subject related]
  cases (w.subject? subject).bind w.blocks.find? with
  | none => exact alike_fail related
  | some block => exact alike_of related

theorem readKey (c : Congruence hashing R) (related : R w w') (name : Name) (subject : Subject) :
    (w.readKey name subject).Alike R (w'.readKey name subject) := by
  have told := fun tell => c.ofSubject related subject tell
  obtain ⟨threads, journal, rfl⟩ := c.rest related
  unfold World.readKey
  cases w.keys.find? name with
  | none => exact alike_fail related
  | some key => exact told _

/-! Races. -/

theorem entrants (c : Congruence hashing R) (related : R w w') (r : RegistryId) (threads : Nat) :
    w'.entrants r threads = w.entrants r threads := by
  obtain ⟨_, _, rfl⟩ := c.rest related
  rfl

theorem attempt (c : Congruence hashing R) (related : R w w') (runs : w.Runs u)
    (live : w.registries.find? r = some registry) (h : Handle) :
    Alongside R (w.attempt u r h) (w'.attempt u r h) := by
  have numbered := c.numbered related
  have locked := c.underLock numbered runs live (·.register h ⟨w.next⟩)
  obtain ⟨threads, journal, rfl⟩ := c.rest related
  unfold World.attempt
  simp only [World.takeNumber]
  rcases locked with ⟨one, other⟩ | ⟨result, new, one, other, after⟩
  · simp only [one, other]
    exact alongside _ numbered
  · simp only [one, other]
    cases result with
    | none => exact alongside _ after
    | some entry => exact alongside _ (c.noted (c.reheld after _ w.held) (by rfl))

theorem attempts (c : Congruence hashing R) (arisen : Arises hashing ⟨w, t, [], later⟩)
    (outside : ∀ n, t ≠ .racer n) (related : R w w') {name : Name} (named : w.registryNamed? name = some r)
    (h : Handle) (n : Nat) : Alongside R (World.attempts r h n w) (World.attempts r h n w') := by
  induction n with
  | zero => exact alongside _ related
  | succ n ih =>
    obtain ⟨owners, middle, middleToo, tried, triedToo, before⟩ := ih
    obtain ⟨passes, names⟩ := World.attempts_passes arisen outside named h n
    rw [tried] at passes names
    have arisenThen : Arises hashing _ := Relation.ReflTransGen.trans arisen passes.moves
    obtain ⟨registry, live⟩ := (Arises.live arisenThen).registry_named (Arises.tidy arisenThen)
      ((World.registryNamed?_same names name).trans named)
    obtain ⟨starting, runs⟩ := World.startThread_quiets middle (.racer n)
    obtain ⟨registry, liveThen, _⟩ :=
      World.find?_of_map? ((starting.maps r).trans (World.map?_of_find? live))
    obtain ⟨owner, last, lastToo, one, other, after⟩ :=
      c.attempt (c.started (.racer n) before) runs liveThen h
    simp only [World.attempts, tried, triedToo, one, other]
    cases owner with
    | none => exact alongside _ after
    | some g => exact alongside _ after

theorem underLock_names {α : Type} {work : Registry → α × Registry} {result : α} {after : World}
    (worked : w.underLock u r work = .ok (result, after)) : after.registryNames = w.registryNames := by
  obtain ⟨threads, registries, rfl⟩ := World.underLock_rest worked
  rfl

theorem giveUp_names (w : World) (t : ThreadId) (g : Guard) :
    (w.giveUp t g).world.registryNames = w.registryNames := by
  unfold World.giveUp
  split
  · rfl
  · rename_i locked
    have names := underLock_names locked
    exact names
  · rename_i locked
    have names := underLock_names locked
    exact names

theorem giveUps_names (owners : List Guard) (w : World) (first : List Task) :
    (owners.foldl (fun (w, first) g =>
      ((w.giveUp t g).world, first ++ (w.giveUp t g).first)) (w, first)).1.registryNames
      = w.registryNames := by
  induction owners generalizing w first with
  | nil => rfl
  | cons g rest ih => exact (ih _ _).trans (giveUp_names w t g)

theorem giveUps (c : Congruence hashing R) (owners : List Guard) (first : List Task)
    (arisen : Arises hashing ⟨w, t, owners, first ++ later⟩) (runs : w.Runs t) (related : R w w') :
    let after := owners.foldl (fun (w, first) g =>
      ((w.giveUp t g).world, first ++ (w.giveUp t g).first)) (w, first)
    let afterToo := owners.foldl (fun (w, first) g =>
      ((w.giveUp t g).world, first ++ (w.giveUp t g).first)) (w', first)
    R after.1 afterToo.1 ∧ afterToo.2 = after.2 := by
  induction owners generalizing w w' first with
  | nil => exact ⟨related, rfl⟩
  | cons g rest ih =>
    obtain ⟨pass, _⟩ := World.giveUp_spec first arisen runs
    obtain ⟨_, _, live, _⟩ := World.remove?_of_guard arisen (mem_guards.mpr (.inr List.mem_cons_self))
    obtain ⟨world, _, given⟩ := c.giveUp related runs live
    simp only [List.foldl_cons, given]
    exact ih _ (arisen.tail pass.move) (pass.runs runs) world

theorem endRacers (c : Congruence hashing R) (arisen : Arises hashing ⟨w, t, owners, later⟩)
    (outside : ∀ n, t ≠ .racer n) (related : R w w') (n : Nat) :
    R (World.endRacers n w) (World.endRacers n w') := by
  induction n with
  | zero => exact related
  | succ n ih =>
    have arisenThen : Arises hashing _ :=
      Relation.ReflTransGen.trans arisen (World.endRacers_passes arisen outside n).moves
    have free := World.free_of_waiting arisenThen (Ne.symm (outside n))
    exact c.ended (.racer n) (c.dropped ih free)

theorem raceToCreate (c : Congruence hashing R) (arisen : Arises hashing ⟨w, t, [], later⟩)
    (runs : w.Runs t) (outside : ∀ n, t ≠ .racer n) (related : R w w') (name : Name) (address : UInt64)
    (count : Nat) : (w.raceToCreate t name address count).Alike R
      (w'.raceToCreate t name address count) := by
  unfold World.raceToCreate
  rw [c.named related]
  cases named : w.registryNamed? name with
  | none => exact alike_fail related
  | some r =>
    cases Handle.ofAddress? address with
    | none => exact alike_fail related
    | some h =>
      simp only [c.entrants related]
      obtain ⟨trying, names⟩ := World.attempts_passes arisen outside named h (w.entrants r count)
      have arisenThen : Arises hashing _ := Relation.ReflTransGen.trans arisen trying.moves
      have runsThen := trying.runs runs
      obtain ⟨registry, live⟩ := (Arises.live arisenThen).registry_named (Arises.tidy arisenThen)
        ((World.registryNamed?_same names name).trans named)
      obtain ⟨owners, middle, middleToo, one, other, tried⟩ :=
        c.attempts arisen outside related named h (w.entrants r count)
      rw [one] at arisenThen runsThen live names
      have during := c.underLock? tried runsThen live (·.contexts.size)
      obtain ⟨giving, _⟩ := World.giveUps_passes owners [] arisenThen runsThen (List.forall_mem_nil _)
      have arisenLast : Arises hashing _ := Relation.ReflTransGen.trans arisenThen giving.moves
      obtain ⟨registry, liveLast⟩ := (Arises.live arisenLast).registry_named (Arises.tidy arisenLast)
        ((World.registryNamed?_same ((giveUps_names _ _ []).trans names) name).trans named)
      obtain ⟨given, first⟩ := c.giveUps owners [] arisenThen runsThen tried
      have after := c.underLock? given (giving.runs runsThen) liveLast (·.contexts.size)
      unfold World.giveUpAll World.countContexts
      simp only [one, other, during, first, after]
      exact ⟨c.endRacers arisenLast outside given _, rfl, rfl⟩

theorem lookUpTimes (c : Congruence hashing R) (runs : w.Runs u)
    (live : w.registries.find? r = some registry) (related : R w w') (h : Handle) (n : Nat) :
    Alongside R (World.lookUpTimes u r h n w) (World.lookUpTimes u r h n w') := by
  induction n with
  | zero => exact alongside _ related
  | succ n ih =>
    obtain ⟨hits, middle, middleToo, before, beforeToo, looked⟩ := ih
    have looking := World.lookUpTimes_quiets runs (World.map?_of_find? live) h n
    rw [before] at looking
    obtain ⟨registry, liveThen, _⟩ :=
      World.find?_of_map? ((looking.maps r).trans (World.map?_of_find? live))
    obtain ⟨result, last, lastToo, one, other, after⟩ := c.looked h looked (looking.runs runs) liveThen
    simp only [World.lookUpTimes, before, beforeToo, one, other]
    cases result with
    | error cause => exact alongside _ after
    | ok found =>
      cases found with
      | none => exact alongside _ after
      | some b => exact alongside _ after

theorem lookUpRacing (c : Congruence hashing R) (live : w.registries.find? r = some registry)
    (related : R w w') (h : Handle) (rounds n : Nat) :
    Alongside R (World.lookUpRacing r h rounds n w) (World.lookUpRacing r h rounds n w') := by
  induction n with
  | zero => exact alongside _ related
  | succ n ih =>
    obtain ⟨hits, middle, middleToo, before, beforeToo, looked⟩ := ih
    have looking := World.lookUpRacing_quiets (World.map?_of_find? live) h rounds n
    rw [before] at looking
    obtain ⟨starting, runs⟩ := World.startThread_quiets middle (.racer n)
    obtain ⟨registry, liveThen, _⟩ := World.find?_of_map?
      ((starting.maps r).trans ((looking.maps r).trans (World.map?_of_find? live)))
    obtain ⟨more, last, lastToo, one, other, after⟩ :=
      c.lookUpTimes runs liveThen (c.started (.racer n) looked) h rounds
    simp only [World.lookUpRacing, before, beforeToo, one, other]
    exact alongside _ after

theorem raceToRetrieve (c : Congruence hashing R) (arisen : Arises hashing ⟨w, t, [], later⟩)
    (outside : ∀ n, t ≠ .racer n) (related : R w w') (name : Name) (address : UInt64)
    (count rounds : Nat) : (w.raceToRetrieve name address count rounds).Alike R
      (w'.raceToRetrieve name address count rounds) := by
  unfold World.raceToRetrieve
  rw [c.named related]
  cases named : w.registryNamed? name with
  | none => exact alike_fail related
  | some r =>
    cases Handle.ofAddress? address with
    | none => exact alike_fail related
    | some h =>
      simp only [c.entrants related]
      obtain ⟨registry, live⟩ := (Arises.live arisen).registry_named (Arises.tidy arisen) named
      obtain ⟨hits, middle, middleToo, one, other, looked⟩ :=
        c.lookUpRacing live related h rounds (w.entrants r count)
      have looking := (World.lookUpRacing_quiets (World.map?_of_find? live) h rounds
        (w.entrants r count)).passes t [] later
      rw [one] at looking
      have arisenThen : Arises hashing _ := Relation.ReflTransGen.trans arisen looking.moves
      simp only [one, other]
      exact alike_of (c.endRacers arisenThen outside looked _)

/-! Every operation. -/

theorem operate (c : Congruence hashing R) (arisen : Arises hashing ⟨w, t, [], later⟩)
    (arisenToo : Arises hashing ⟨w', t, [], later⟩) (runs : w.Runs t) (outside : ∀ n, t ≠ .racer n)
    (related : R w w') (operation : Operation) :
    (w.operate t operation).Alike R (w'.operate t operation) := by
  cases operation with
  | openRegistry registry looks =>
    cases looks
    · exact c.newRegistry arisen arisenToo related registry
    · exact c.openRegistry arisen arisenToo runs related registry
  | shareRegistry => exact c.shareRegistry related _ _
  | dropRegistry => exact c.dropRegistry related _
  | openSpace => exact c.openSpace related _
  | shareSpace => exact c.shareSpace related _ _
  | dropSpace => exact c.dropSpace related _
  | registerKey => exact c.registerKey related _ _ _
  | dropKey => exact c.dropKey related _
  | showKey => exact c.showKey related _ _
  | keyIsIn => exact c.keyIsIn related _ _
  | showSpace => exact c.showSpace related _ _
  | isRegistered => exact c.isRegistered related _ _
  | destroy => exact c.destroy arisen runs related _
  | retrieve => exact c.retrieve arisen runs related _
  | hold => exact c.hold related _ _
  | release => exact c.release related _
  | read => exact c.readKey related _ _
  | showSlot | showBlock => exact c.ofSubject related _ _
  | showState => exact c.showState arisen runs related _ _
  | showRegistry | countContexts | countCaches => exact c.askRegistry arisen runs related _ _
  | contains => exact c.contains arisen runs related _ _
  | retrieveAtExit => exact c.leaveForExit runs related _
  | raceToCreate => exact c.raceToCreate arisen runs outside related _ _ _
  | raceForKeys => exact c.raceForKeys related _ _ _
  | raceToRetrieve => exact c.raceToRetrieve arisen outside related _ _ _ _

/-! Creations. -/

theorem beginCreation (c : Congruence hashing R) (arisen : Arises hashing ⟨w, t, [], later⟩)
    (runs : w.Runs t) (related : R w w') (nested : Option Action) (creation : Creation)
    (supplies : List (Supply Action)) :
    Alongside R (w.beginCreation t nested creation supplies)
      (w'.beginCreation t nested creation supplies) := by
  have asked := fun r (registry : Registry) (live : w.registries.find? r = some registry) h =>
    c.underLock? related runs live (·.contexts.contains h)
  have numbered := c.numbered related
  have factories : supplies.mapM (·.factory? w') = supplies.mapM (·.factory? w) := by
    obtain ⟨threads, journal, rfl⟩ := c.rest related
    rfl
  unfold World.beginCreation
  rw [c.named related, factories]
  obtain ⟨threads, journal, rfl⟩ := c.rest related
  cases Handle.ofAddress? creation.address with
  | none => exact alongside _ related
  | some h =>
    cases named : w.registryNamed? creation.registry with
    | none => exact alongside _ related
    | some r =>
      obtain ⟨registry, live⟩ := (Arises.live arisen).registry_named (Arises.tidy arisen) named
      cases w.states.contains creation.state with
      | true => exact alongside _ related
      | false =>
        cases supplies.mapM (·.factory? w) with
        | none => exact alongside _ related
        | some factories =>
          simp only [asked r registry live h]
          cases w.underLock? t r (·.contexts.contains h) with
          | error cause => exact alongside _ related
          | ok there =>
            cases there with
            | true => exact alongside _ related
            | false => exact alongside _ numbered

theorem supplied (c : Congruence hashing R) (arisen : Arises hashing ⟨w, t, [], later⟩)
    (runs : w.Runs t) (related : R w w') (h : Handle) (source : Source) :
    Alongside R (w.supplied t h source) (w'.supplied t h source) := by
  cases source with
  | given value => exact alongside _ related
  | address => exact alongside _ related
  | copied name address key addend =>
    have keys : w'.keys = w.keys := by
      obtain ⟨threads, journal, rfl⟩ := c.rest related
      rfl
    simp only [World.supplied, c.named related name, keys]
    cases named : w.registryNamed? name with
    | none => exact alongside _ related
    | some r =>
      cases Handle.ofAddress? address with
      | none => exact alongside _ related
      | some copied =>
        cases w.keys.find? key with
        | none => exact alongside _ related
        | some key =>
          obtain ⟨registry, live⟩ := (Arises.live arisen).registry_named (Arises.tidy arisen) named
          obtain ⟨result, middle, middleToo, one, other, after⟩ := c.looked copied related runs live
          simp only [one, other]
          cases result with
          | error cause => exact alongside _ after
          | ok found =>
            cases found with
            | none => exact alongside _ after
            | some b =>
              simp only [c.read after]
              exact alongside _ after

theorem makeValue (c : Congruence hashing R) (arisen : Arises hashing ⟨w, t, [], later⟩)
    (runs : w.Runs t) (related : R w w') (h : Handle) (f : Factory) :
    Alongside R (w.makeValue t h f) (w'.makeValue t h f) := by
  obtain ⟨result, middle, middleToo, one, other, after⟩ := c.supplied arisen runs related h f.source
  unfold World.makeValue
  cases f.failure with
  | some text => exact alongside _ related
  | none =>
    simp only [one, other]
    cases result with
    | error cause => exact alongside _ after
    | ok data =>
      simp only
      cases Value.ofDatum? f.kind data with
      | none => exact alongside _ after
      | some value => exact alongside _ after

/-! Tasks.  What comes of a task are a world and the tasks to be done first. -/

theorem make (c : Congruence hashing R) (arisen : Arises hashing ⟨w, t, [], later⟩)
    (runs : w.Runs t) (related : R w w') (site : Construction) (f : Factory) :
    R (w.make t site f).1 (w'.make t site f).1 ∧ (w'.make t site f).2 = (w.make t site f).2 := by
  obtain ⟨result, middle, middleToo, one, other, after⟩ :=
    c.makeValue arisen runs related site.handle f
  unfold World.make
  simp only [one, other]
  cases result with
  | error cause => exact ⟨after, rfl⟩
  | ok value =>
    have numbered := c.numbered after
    obtain ⟨threads, journal, rfl⟩ := c.rest after
    simp only [World.takeNumber]
    cases site.built.object? f.slot with
    | none => exact ⟨c.noted numbered (by rfl), rfl⟩
    | some earlier => exact ⟨c.noted numbered (by rfl), rfl⟩

-- The owner of a new registration gets its name, or is given up where the name was taken meanwhile.
theorem settle (c : Congruence hashing R) (related : R w w') (runs : w.Runs t) (site : Construction)
    (g : Guard) (live : w.registries.find? g.registry = some registry) :
    let after := fun w : World =>
      if w.states.contains site.creation.state then
        ((w.giveUp t g).world, (w.giveUp t g).first ++ site.close (.failed .nameTaken))
      else
        let w := { w with states := w.states.put site.creation.state g }
        match w.describe? site.block with
        | some description => (w, site.close (.block description none))
        | none => (w, site.close (.failed .noSuchName))
    R (after w).1 (after w').1 ∧ (after w').2 = (after w).2 := by
  obtain ⟨world, _, first⟩ := c.giveUp related runs live
  have entitled := c.entitled related (w.states.put site.creation.state g)
  have same := c.described entitled site.block
  obtain ⟨threads, journal, rfl⟩ := c.rest related
  simp only at same ⊢
  cases w.states.contains site.creation.state with
  | true => exact ⟨world, congrArg (· ++ _) first⟩
  | false =>
    simp only [Bool.false_eq_true, if_false, same]
    cases ({ w with states := w.states.put site.creation.state g } : World).describe? site.block with
    | none => exact ⟨entitled, rfl⟩
    | some description => exact ⟨entitled, rfl⟩

theorem register (c : Congruence hashing R) {site : Construction}
    (arisen : Arises hashing ⟨w, t, [], .construct site :: later⟩) (runs : w.Runs t)
    (related : R w w') : R (w.register t site).1 (w'.register t site).1 ∧
      (w'.register t site).2 = (w.register t site).2 := by
  obtain ⟨registry, live⟩ := (Arises.live arisen).registry_of_task (r := site.registry)
    List.mem_cons_self (by simp [Task.refersToRegistry])
  unfold World.register
  rcases c.underLock related runs live (·.register site.handle site.block) with
    ⟨one, other⟩ | ⟨result, new, one, other, after⟩
  · simp only [one, other]
    exact ⟨related, trivial⟩
  · simp only [one, other]
    cases result with
    | none => exact ⟨after, rfl⟩
    | some entry =>
      have enrolled := c.reheld after (w.blocks.put site.block site.built) w.held
      have told := c.noted (e := .stateCreated site.registry entry site.block site.handle
        site.built.slotCount) enrolled rfl
      have there : (w.setRegistry site.registry new).registries.find? site.registry = some new :=
        Table.find?_put_self ..
      have settled := c.settle (t := t) told runs site ⟨site.registry, entry, site.handle, site.block⟩
        there
      obtain ⟨threads, journal, rfl⟩ := c.rest related
      exact settled

theorem construct (c : Congruence hashing R) {site : Construction}
    (arisen : Arises hashing ⟨w, t, [], .construct site :: later⟩) (runs : w.Runs t)
    (related : R w w') : R (w.construct t site).1 (w'.construct t site).1 ∧
      (w'.construct t site).2 = (w.construct t site).2 := by
  unfold World.construct
  cases site.pending with
  | nil => exact c.register arisen runs related
  | cons f rest => exact ⟨c.noted related (by rfl), rfl⟩

theorem dropObject (c : Congruence hashing R) (arisen : Arises hashing ⟨w, t, [], later⟩)
    (runs : w.Runs t) (related : R w w') (b : BlockId) (h : Handle) (object : Object) :
    R (w.dropObject t b h object).1 (w'.dropObject t b h object).1 ∧
      (w'.dropObject t b h object).2 = (w.dropObject t b h object).2 := by
  have asked : ((w'.registryNamed? object.through).map fun r => w'.underLock? t r (·.contexts.contains h))
      = (w.registryNamed? object.through).map fun r => w.underLock? t r (·.contexts.contains h) := by
    rw [c.named related]
    cases named : w.registryNamed? object.through with
    | none => rfl
    | some r =>
      obtain ⟨registry, live⟩ := (Arises.live arisen).registry_named (Arises.tidy arisen) named
      exact congrArg some (c.underLock? related runs live (·.contexts.contains h))
  unfold World.dropObject
  rw [asked]
  exact ⟨c.noted related (by rfl), rfl⟩

theorem releaseBlock (c : Congruence hashing R) (related : R w w') (tasks : List Task) (b : BlockId) :
    R (w.releaseBlock tasks b).1 (w'.releaseBlock tasks b).1 ∧
      (w'.releaseBlock tasks b).2 = (w.releaseBlock tasks b).2 := by
  have fell := c.reheld related (w.blocks.erase b) w.held
  have same : w'.refersToBlock b = w.refersToBlock b := by
    obtain ⟨threads, journal, rfl⟩ := c.rest related
    rfl
  unfold World.releaseBlock
  rw [same]
  obtain ⟨threads, journal, rfl⟩ := c.rest related
  cases w.refersToBlock b || tasks.any (·.refersToBlock b) with
  | true => exact ⟨related, rfl⟩
  | false =>
    cases w.blocks.find? b with
    | none => exact ⟨related, rfl⟩
    | some block => exact ⟨fell, rfl⟩

theorem releaseRegistry (c : Congruence hashing R) (related : R w w') (tasks : List Task)
    (r : RegistryId) : R (w.releaseRegistry tasks r).1 (w'.releaseRegistry tasks r).1 ∧
      (w'.releaseRegistry tasks r).2 = (w.releaseRegistry tasks r).2 := by
  have closed := c.closed r related
  have same : w'.refersToRegistry r = w.refersToRegistry r := by
    obtain ⟨threads, journal, rfl⟩ := c.rest related
    rfl
  unfold World.releaseRegistry
  rw [same]
  obtain ⟨threads, journal, rfl⟩ := c.rest related
  cases w.refersToRegistry r || tasks.any (·.refersToRegistry r) with
  | true => exact ⟨related, rfl⟩
  | false =>
    cases w.registries.find? r with
    | none => exact ⟨related, rfl⟩
    | some registry => exact ⟨closed, rfl⟩

theorem whileLocked (c : Congruence hashing R) (arisen : Arises hashing ⟨w, t, [], later⟩)
    (runs : w.Runs t) (related : R w w') (nested : Bool) (name : Name) (actions : List Action) :
    R (w.perform t nested (.whileLocked name actions)).1
      (w'.perform t nested (.whileLocked name actions)).1 ∧
    (w'.perform t nested (.whileLocked name actions)).2
      = (w.perform t nested (.whileLocked name actions)).2 := by
  have depth := (c.thread t related).1
  unfold World.perform
  simp only
  rw [c.named related]
  cases named : w.registryNamed? name with
  | none => exact ⟨related, rfl⟩
  | some r =>
    obtain ⟨registry, live⟩ := (Arises.live arisen).registry_named (Arises.tidy arisen) named
    have liveToo : w'.registries.find? r = some registry := (c.find? related).trans live
    by_cases free : (w.thread t).depth = 0
    · simp only [World.lock?_free free live, World.lock?_free (depth.trans free) liveToo]
      exact ⟨c.rewritten (c.deepened related runs 1) live _, trivial⟩
    · simp only [World.lock?_held free, World.lock?_held (w := w') (by rwa [depth])]
      exact ⟨related, trivial⟩

theorem unlock (c : Congruence hashing R) (arisen : Arises hashing ⟨w, t, [], .unlock r :: later⟩)
    (runs : w.Runs t) (related : R w w') : R (w.unlock t r) (w'.unlock t r) := by
  obtain ⟨registry, live⟩ := (Arises.locks arisen).registry (Arises.live arisen) rfl
  have liveToo : w'.registries.find? r = some registry := (c.find? related).trans live
  rw [World.unlock_eq live, World.unlock_eq liveToo, (c.thread t related).1]
  exact c.rewritten (c.deepened related runs _) live _

theorem reportExit (c : Congruence hashing R) (arisen : Arises hashing ⟨w, t, [], later⟩)
    (runs : w.Runs t) (related : R w w') (name : Name) :
    ((w'.registryNamed? name).bind fun r => (w'.underLock? t r (·.lines.size)).toOption)
      = (w.registryNamed? name).bind fun r => (w.underLock? t r (·.lines.size)).toOption := by
  rw [c.named related]
  cases named : w.registryNamed? name with
  | none => rfl
  | some r =>
    obtain ⟨registry, live⟩ := (Arises.live arisen).registry_named (Arises.tidy arisen) named
    exact congrArg Except.toOption (c.underLock? related runs live (·.lines.size))

-- Related worlds stay related whatever their thread is about to do, and it then has the same to do.
theorem take (c : Congruence hashing R) {task : Task}
    (arisen : Arises hashing ⟨w, t, [], bearing (task :: later)⟩)
    (arisenToo : Arises hashing ⟨w', t, [], bearing (task :: later)⟩) (runs : w.Runs t)
    (outside : ∀ n, t ≠ .racer n) (free : task = .dropMemos → (w.thread t).depth = 0)
    (related : R w w') : R (w.take t later task).1 (w'.take t later task).1 ∧
      (w'.take t later task).2 = (w.take t later task).2 := by
  cases task with
  | perform nested action =>
    have before : Arises hashing ⟨w, t, [], bearing later⟩ := arisen
    have beforeToo : Arises hashing ⟨w', t, [], bearing later⟩ := arisenToo
    cases action with
    | operate operation =>
      obtain ⟨world, answer, first⟩ := c.operate before beforeToo runs outside related operation
      refine ⟨world, ?_⟩
      simp only [World.take, World.perform, first, answer]
    | create creation supplies =>
      obtain ⟨result, middle, middleToo, one, other, after⟩ := c.beginCreation before runs related
        (if nested then some (.create creation supplies) else none) creation supplies
      simp only [World.take, World.perform, one, other]
      cases result with
      | error failure => exact ⟨after, rfl⟩
      | ok site => exact ⟨after, rfl⟩
    | whileLocked name actions => exact c.whileLocked before runs related nested name actions
  | construct site => exact c.construct arisen runs related
  | make site f => exact c.make arisen runs related site f
  | dropObject b h object => exact c.dropObject arisen runs related b h object
  | noteOverwritten h slot => exact ⟨c.noted related (by rfl), rfl⟩
  | releaseBlock b => exact c.releaseBlock related later b
  | releaseRegistry r => exact c.releaseRegistry related later r
  | unlock r => exact ⟨c.unlock arisen runs related, rfl⟩
  | retrieveAtExit retrieval =>
    have before : Arises hashing ⟨w, t, [], bearing later⟩ := arisen
    obtain ⟨world, answer, first⟩ := c.retrieve before runs related retrieval
    refine ⟨world, ?_⟩
    simp only [World.take, first, answer]
  | reportExit name answer =>
    have before : Arises hashing ⟨w, t, [], bearing later⟩ := arisen
    have same := c.reportExit before runs related name
    simp only [World.take]
    rw [same, c.named related]
    exact ⟨c.noted related (by rfl), trivial⟩
  | dropMemos => exact ⟨c.dropped related (free rfl), rfl⟩
  | endThread => exact ⟨c.ended t related, rfl⟩
  | answer asked answer => exact ⟨c.noted related (by rfl), rfl⟩

end Congruence

-- Two machines that have the same to do in related worlds.
structure Machine.Paired (R : World → World → Prop) (one other : Machine) : Prop where
  thread : other.thread = one.thread
  tasks : other.tasks = one.tasks
  worlds : R one.world other.world

-- They step alike.
theorem Congruence.step {hashing : RegistryId → Handle → UInt64} {R : World → World → Prop}
    (c : Congruence hashing R) {one other : Machine} (arisen : Arises hashing one.scene)
    (steady : one.Steady) (arisenToo : Arises hashing other.scene) (paired : one.Paired R other) :
    one.step.Paired R other.step := by
  obtain ⟨w, _, _⟩ := one
  obtain ⟨w', _, _⟩ := other
  obtain ⟨rfl, rfl, related⟩ := paired
  rename_i t tasks
  cases tasks with
  | nil => exact ⟨rfl, rfl, related⟩
  | cons task later =>
    have stepped : R (w.take t later task).1 (w'.take t later task).1 ∧
        (w'.take t later task).2 = (w.take t later task).2 := by
      rcases steady.runs with runs | answers
      · exact c.take arisen arisenToo runs steady.outside (steady.dropMemos_free arisen rfl) related
      · have now := answers task List.mem_cons_self
        cases task with
        | answer asked answer => exact ⟨c.noted related (by rfl), rfl⟩
        | _ => cases now
    exact ⟨rfl, congrArg (· ++ later) stepped.2, stepped.1⟩

end AttachedState
