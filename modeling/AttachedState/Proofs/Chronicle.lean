import AttachedState.Proofs.Lines

/-!
The journal as a witness.  What a registry maps a handle to can be read off the journal alone, and
every lookup that the journal tells of found just that, whichever way it was answered.
-/

namespace AttachedState

-- The block of a handle as a journal tells it: that of the latest creation, unless it was removed
-- since.
def mapped (r : RegistryId) (h : Handle) : List Event → Option BlockId
  | [] => none
  | .stateCreated registry _ b handle _ :: earlier =>
    if registry = r ∧ handle = h then some b else mapped r h earlier
  | .stateRemoved registry _ _ handle _ :: earlier =>
    if registry = r ∧ handle = h then none else mapped r h earlier
  | _ :: earlier => mapped r h earlier

theorem mapped_cons_of_not_ofState {r : RegistryId} {h : Handle} {e : Event} (silent : e.ofState = false)
    (earlier : List Event) : mapped r h (e :: earlier) = mapped r h earlier := by
  cases e <;> first | rfl | cases silent

theorem mapped_append_of_not_ofState {r : RegistryId} {h : Handle} {told : List Event}
    (silent : ∀ e ∈ told, e.ofState = false) (earlier : List Event) :
    mapped r h (told ++ earlier) = mapped r h earlier := by
  induction told with
  | nil => rfl
  | cons e rest ih =>
    rw [List.cons_append, mapped_cons_of_not_ofState (silent e List.mem_cons_self)]
    exact ih fun e listed => silent e (List.mem_cons_of_mem _ listed)

-- A block that is mapped was created for that handle.
theorem created_of_mapped {r : RegistryId} {h : Handle} {b : BlockId} {journal : List Event}
    (found : mapped r h journal = some b) :
    ∃ entry slots, .stateCreated r entry b h slots ∈ journal := by
  induction journal with
  | nil => cases found
  | cons e earlier ih =>
    have later : mapped r h earlier = some b →
        ∃ entry slots, .stateCreated r entry b h slots ∈ e :: earlier := by
      intro before
      obtain ⟨entry, slots, listed⟩ := ih before
      exact ⟨entry, slots, List.mem_cons_of_mem _ listed⟩
    cases e with
    | stateCreated registry entry block handle slots =>
      simp only [mapped] at found
      split at found
      · rename_i here
        obtain ⟨rfl, rfl⟩ := here
        cases found
        exact ⟨entry, slots, List.mem_cons_self⟩
      · exact later found
    | stateRemoved registry entry block handle scrubbed =>
      simp only [mapped] at found
      split at found
      · cases found
      · exact later found
    | _ => exact later found

-- Every lookup that a journal tells of found what it should, as far as the journal went then.
def EachLookup (right : RegistryId → Handle → Option BlockId → List Event → Prop)
    (journal : List Event) : Prop :=
  ∀ later earlier t r h found route, journal = later ++ .lookedUp t r h found route :: earlier →
    right r h found earlier

namespace EachLookup

variable {right : RegistryId → Handle → Option BlockId → List Event → Prop} {journal : List Event}

theorem nil : EachLookup right [] := by
  intro later earlier t r h found route split
  cases later <;> cases split

theorem cons {e : Event} (each : EachLookup right journal) (silent : e.ofLookup = false) :
    EachLookup right (e :: journal) := by
  intro later earlier t r h found route split
  cases later with
  | nil =>
    cases split
    cases silent
  | cons first rest =>
    cases split
    exact each rest earlier t r h found route rfl

theorem lookedUp {t : ThreadId} {r : RegistryId} {h : Handle} {found : Option BlockId} {route : Route}
    (each : EachLookup right journal) (now : right r h found journal) :
    EachLookup right (.lookedUp t r h found route :: journal) := by
  intro later earlier t' r' h' found' route' split
  cases later with
  | nil =>
    cases split
    exact now
  | cons first rest =>
    cases split
    exact each rest earlier t' r' h' found' route' rfl

end EachLookup

namespace Scene

-- The journal knows all maps of the registries that are in the world.
def Recorded (s : Scene) : Prop :=
  ∀ r contexts, s.world.map? r = some contexts → ∀ h, contexts.get? h = mapped r h s.world.journal

theorem recorded_start (hashing : RegistryId → Handle → UInt64) : (start hashing).Recorded := by
  intro r contexts found h
  simp only [start, World.start, World.map?, Table.find?_put, Table.find?_empty] at found
  split at found <;> cases found
  rfl

theorem Recorded.shift {s s' : Scene} (owned : s.Owned) (numbered : s.Numbered)
    (recorded : s.Recorded) (shift : Shift s s') : s'.Recorded := by
  intro r contexts found h
  cases shift with
  | kept told maps guards journal silent =>
    rw [maps] at found
    rw [journal, mapped_append_of_not_ofState silent]
    exact recorded r contexts found h
  | opened new hash fresh maps guards journal =>
    rw [maps] at found
    rw [journal]
    split at found
    · rename_i here
      cases found
      -- No event tells of a registry that was opened just now.
      cases told : mapped r h s.world.journal with
      | none => rfl
      | some b =>
        obtain ⟨entry, slots, listed⟩ := created_of_mapped told
        have old := numbered.journal _ listed r.number (by simp [Event.numbers])
        rw [here, fresh] at old
        exact absurd old (Nat.lt_irrefl _)
    · exact recorded r contexts found h
  | closed gone unowned maps guards journal =>
    rw [maps] at found
    rw [journal]
    split at found
    · cases found
    · exact recorded r contexts found h
  | enrolled g slots before grown live inserted building maps guards journal =>
    rw [maps] at found
    rw [journal, mapped]
    split at found
    · rename_i here
      cases found
      rw [HandleMap.get?_insert (owned.valid _ _ live) inserted, recorded _ _ live, here]
      simp only [true_and, eq_comm]
    · rename_i apart
      rw [if_neg (fun both => apart both.1.symm)]
      exact recorded r contexts found h
  | withdrawn g scrubbed before left live removed maps guards journal =>
    rw [maps] at found
    rw [journal, mapped]
    split at found
    · rename_i here
      cases found
      rw [HandleMap.get?_remove (owned.valid _ _ live) removed, recorded _ _ live, here]
      simp only [true_and, eq_comm]
    · rename_i apart
      rw [if_neg (fun both => apart both.1.symm)]
      exact recorded r contexts found h
  | orphaned g maps guards journal =>
    rw [maps] at found
    rw [journal]
    exact recorded r contexts found h

theorem Arises.recorded {hashing : RegistryId → Handle → UInt64} {s : Scene}
    (arisen : Arises hashing s) : s.Recorded := by
  induction arisen with
  | refl => exact recorded_start hashing
  | tail before move ih =>
    exact ih.shift (Arises.owned before) (Arises.numbered before) (move.shift (Arises.tidy before))

end Scene

theorem World.Lined.get?_of_lineHolds {w : World} (lined : w.Lined) {t : ThreadId} {thread : Thread}
    {memo : Memo} {registry : Registry} {h : Handle} (runs : w.threads.find? t = some thread)
    (known : memo ∈ thread.memos) (live : w.registries.find? memo.registry = some registry)
    (holds : registry.lineHolds memo.line h = true) :
    ∃ b, memo.block = some b ∧ registry.contexts.get? h = some b := by
  refine lined.faithful t memo ?_ registry live h ?_
  · rwa [thread_of_find? runs]
  · simpa [Registry.lineHolds] using holds

-- A lookup, however it is answered, tells what the map holds; whatever else a move tells of is no
-- lookup.
theorem Quiet.tells {w after : World} (lined : w.Lined) (change : Quiet w after) :
    after.journal = w.journal ∨ (∃ e : Event, e.ofLookup = false ∧ after.journal = e :: w.journal) ∨
      ∃ t r h route contexts, w.map? r = some contexts ∧
        after.journal = .lookedUp t r h (contexts.get? h) route :: w.journal := by
  cases change with
  | @noted _ e aside =>
    refine .inr (.inl ⟨e, ?_, rfl⟩)
    cases e <;> first | rfl | cases aside
  | filed | started | looked | left | pruned | asked | forgot | gone => exact .inl rfl
  | attached | detached => exact .inr (.inl ⟨_, rfl, rfl⟩)
  | hit runs known live holds block present =>
    obtain ⟨b, remembered, stored⟩ := lined.get?_of_lineHolds runs known live holds
    rw [block] at remembered
    exact .inr (.inr ⟨_, _, _, _, _, World.map?_of_find? live, by rw [stored, ← remembered]; rfl⟩)
  | resolved runs free known live | direct runs free gone live =>
    exact .inr (.inr ⟨_, _, _, _, _, World.map?_of_find? live, rfl⟩)

theorem Move.tells {s s' : Scene} (lined : s.world.Lined) (move : Move s s') :
    s'.world.journal = s.world.journal ∨
      (∃ e : Event, e.ofLookup = false ∧ s'.world.journal = e :: s.world.journal) ∨
      ∃ t r h route contexts, s.world.map? r = some contexts ∧
        s'.world.journal = .lookedUp t r h (contexts.get? h) route :: s.world.journal := by
  cases move with
  | quiet change => exact change.tells lined
  | turned | locked | unlocked | opened | shared | unnamed | retained | spared | closed | held | unheld
  | released | fell | begun | abandoned | entitled | disowned => exact .inl rfl
  | ended | tried | made | enrolled | withdrawn | orphaned | dropped =>
    exact .inr (.inl ⟨_, rfl, rfl⟩)

-- So what holds of the map's answers holds of all lookups.
theorem Scene.Arises.eachLookup {hashing : RegistryId → Handle → UInt64} {s : Scene}
    {right : RegistryId → Handle → Option BlockId → List Event → Prop} (arisen : Arises hashing s)
    (answers : ∀ {s : Scene}, Arises hashing s → ∀ r h contexts, s.world.map? r = some contexts →
      right r h (contexts.get? h) s.world.journal) : EachLookup right s.world.journal := by
  induction arisen with
  | refl => exact EachLookup.nil
  | tail before move ih =>
    rcases move.tells (Arises.lined before) with
      same | ⟨e, silent, told⟩ | ⟨t, r, h, route, contexts, live, told⟩
    · rw [same]
      exact ih
    · rw [told]
      exact ih.cons silent
    · rw [told]
      exact ih.lookedUp (answers before r h contexts live)

-- A journal in which every lookup found what the map held at that moment.
def Truthful (journal : List Event) : Prop :=
  EachLookup (fun r h found earlier => found = mapped r h earlier) journal

theorem Scene.Arises.truthful {hashing : RegistryId → Handle → UInt64} {s : Scene}
    (arisen : Arises hashing s) : Truthful s.world.journal :=
  arisen.eachLookup fun before r h contexts live => Arises.recorded before r contexts live h

end AttachedState
