import AttachedState.Proofs.Grounds
import AttachedState.Proofs.Slots

/-!
Keys.  As long as a key is registered its slot is reserved in its space, for this key alone.
-/

namespace AttachedState

namespace World

variable {w after : World} {s : SpaceId}

structure Keyed (w : World) : Prop where
  -- A space that is opened later is a new one.
  old : globalSpace.number < w.next
  known : ∀ s pool, w.spaces.find? s = some pool → s.number < w.next
  named : ∀ name s, w.spaceNames.find? name = some s → s.number < w.next
  filed : ∀ name key, w.keys.find? name = some key → key.space.number < w.next
  reserved : ∀ name key, w.keys.find? name = some key →
    (w.space key.space).isReserved key.slot = true
  apart : ∀ name other key key', w.keys.find? name = some key → w.keys.find? other = some key' →
    key.space = key'.space → key.slot = key'.slot → name = other

theorem keyed_start (hashing : RegistryId → Handle → UInt64) : (start hashing).Keyed := by
  refine ⟨Nat.one_pos, fun s pool found => ?_, nofun, nofun, nofun, nofun⟩
  simp only [start, Table.find?_put, Table.find?_empty] at found
  split at found <;> cases found
  rename_i here
  rw [here]
  exact Nat.one_pos

-- All slots are free at the start.
theorem space_start (hashing : RegistryId → Handle → UInt64) (s : SpaceId) :
    (start hashing).space s = .empty := by
  unfold space start
  rw [Table.find?_put]
  split <;> rfl

theorem space_put {s : SpaceId} {pool : SlotPool} (put : after.spaces = w.spaces.put s pool)
    (other : SpaceId) : after.space other = if other = s then pool else w.space other := by
  unfold space
  rw [put, Table.find?_put]
  split <;> rfl

namespace Keyed

theorem spaceNamed (keyed : w.Keyed) {name : Name} (named : w.spaceNamed? name = some s) :
    s.number < w.next := by
  unfold spaceNamed? at named
  split at named
  · cases named
    exact keyed.old
  · exact keyed.named name s named

-- Nothing is asked of a world but that slots of keys stay reserved and that no key is new.
theorem fewer (keyed : w.Keyed) (next : w.next ≤ after.next)
    (spaces : ∀ s pool, after.spaces.find? s = some pool → s.number < after.next)
    (names : ∀ name s, after.spaceNames.find? name = some s → s.number < after.next)
    (keys : ∀ name key, after.keys.find? name = some key → w.keys.find? name = some key)
    (reserved : ∀ name key, after.keys.find? name = some key →
      (w.space key.space).isReserved key.slot = true →
      (after.space key.space).isReserved key.slot = true) : after.Keyed := by
  refine ⟨Nat.lt_of_lt_of_le keyed.old next, spaces, names, ?_, ?_, ?_⟩
  · exact fun name key found => Nat.lt_of_lt_of_le (keyed.filed name key (keys name key found)) next
  · exact fun name key found =>
      reserved name key found (keyed.reserved name key (keys name key found))
  · exact fun name other key key' found foundToo =>
      keyed.apart name other key key' (keys name key found) (keys other key' foundToo)

theorem same (keyed : w.Keyed) (next : w.next ≤ after.next) (spaces : after.spaces = w.spaces)
    (spaceNames : after.spaceNames = w.spaceNames) (keys : after.keys = w.keys) : after.Keyed := by
  refine keyed.fewer next ?_ ?_ ?_ ?_
  · rw [spaces]
    exact fun s pool found => Nat.lt_of_lt_of_le (keyed.known s pool found) next
  · rw [spaceNames]
    exact fun name s named => Nat.lt_of_lt_of_le (keyed.named name s named) next
  · rw [keys]
    exact fun _ _ found => found
  · intro name key _ reserved
    rwa [space, spaces]

theorem known_put (keyed : w.Keyed) {pool : SlotPool} (known : s.number < w.next) (other : SpaceId)
    (found : SlotPool) (there : (w.spaces.put s pool).find? other = some found) :
    other.number < w.next := by
  rw [Table.find?_put] at there
  split at there
  · rename_i here
    rwa [here]
  · exact keyed.known other found there

-- A key that is registered gets a slot that no other key of its space has.
theorem registered (keyed : w.Keyed) (name : Name) (kind : Kind) (known : s.number < w.next) :
    World.Keyed { w with
      spaces := w.spaces.put s (w.space s).reserve.2
      keys := w.keys.put name ⟨s, (w.space s).reserve.1, kind⟩ } := by
  have find : ∀ {other : Name} {key : Key},
      (w.keys.put name ⟨s, (w.space s).reserve.1, kind⟩).find? other = some key →
      (other = name ∧ key = ⟨s, (w.space s).reserve.1, kind⟩) ∨
        (other ≠ name ∧ w.keys.find? other = some key) := by
    intro other key found
    rw [Table.find?_put] at found
    split at found
    · rename_i here
      exact .inl ⟨here, (Option.some.inj found).symm⟩
    · rename_i elsewhere
      exact .inr ⟨elsewhere, found⟩
  have taken : ∀ {other : Name} {key : Key}, w.keys.find? other = some key → key.space = s →
      key.slot ≠ (w.space s).reserve.1 := by
    intro other key found here slot
    have reserved := keyed.reserved other key found
    rw [here, slot, SlotPool.isReserved_reserved] at reserved
    cases reserved
  refine ⟨keyed.old, keyed.known_put known, keyed.named, ?_, ?_, ?_⟩
  · intro other key found
    rcases find found with ⟨_, rfl⟩ | ⟨_, old⟩
    · exact known
    · exact keyed.filed other key old
  · intro other key found
    rw [space_put (w := w) rfl]
    rcases find found with ⟨_, rfl⟩ | ⟨_, old⟩
    · rw [if_pos rfl, SlotPool.isReserved_reserve]
      simp
    · have reserved := keyed.reserved other key old
      split
      · rename_i here
        rw [SlotPool.isReserved_reserve, ← here, reserved, Bool.or_true]
      · exact reserved
  · intro one two key key' found foundToo here slot
    rcases find found with ⟨rfl, rfl⟩ | ⟨_, old⟩ <;>
      rcases find foundToo with ⟨rfl, rfl⟩ | ⟨_, oldToo⟩
    · rfl
    · exact absurd slot.symm (taken oldToo here.symm)
    · exact absurd slot (taken old here)
    · exact keyed.apart one two key key' old oldToo here slot

-- A key that is dropped frees its own slot and no other key's.
theorem released (keyed : w.Keyed) {name : Name} {key : Key} {pool : SlotPool}
    (found : w.keys.find? name = some key)
    (freed : (w.space key.space).release? key.slot = some pool) :
    World.Keyed { w with
      spaces := w.spaces.put key.space pool
      keys := w.keys.erase name } := by
  have find : ∀ {other : Name} {key' : Key}, (w.keys.erase name).find? other = some key' →
      other ≠ name ∧ w.keys.find? other = some key' := by
    intro other key' left
    rw [Table.find?_erase] at left
    split at left
    · cases left
    · rename_i elsewhere
      exact ⟨elsewhere, left⟩
  refine keyed.fewer (Nat.le_refl _) (keyed.known_put (keyed.filed name key found)) keyed.named
    (fun _ _ left => (find left).2) ?_
  intro other key' left reserved
  obtain ⟨elsewhere, old⟩ := find left
  rw [space_put (w := w) rfl]
  split
  · rename_i here
    have apart : key'.slot ≠ key.slot := fun slot =>
      elsewhere (keyed.apart other name key' key old found here slot)
    rw [SlotPool.isReserved_release freed, ← here, reserved]
    simp [apart]
  · exact reserved

theorem filing (keyed : w.Keyed) {spaces : Table SpaceId SlotPool}
    {spaceNames : Table Name SpaceId} {keys : Table Name Key} {next : Nat}
    (filing : Filing w spaces spaceNames keys next) :
    World.Keyed { w with spaces, spaceNames, keys, next } := by
  cases filing with
  | opened name =>
    refine keyed.fewer (Nat.le_succ _) ?_ ?_ (fun _ _ found => found) ?_
    · intro other pool found
      simp only [Table.find?_put] at found
      split at found
      · rename_i here
        rw [here]
        exact Nat.lt_succ_self _
      · exact Nat.lt_succ_of_lt (keyed.known other pool found)
    · intro other s named
      simp only [Table.find?_put] at named
      split at named
      · cases named
        exact Nat.lt_succ_self _
      · exact Nat.lt_succ_of_lt (keyed.named other s named)
    · intro other key found reserved
      rw [space_put (w := w) rfl, if_neg]
      · exact reserved
      · intro new
        have older := keyed.filed other key found
        rw [new] at older
        exact Nat.lt_irrefl _ older
  | shared name named =>
    refine keyed.fewer (Nat.le_refl _) keyed.known ?_ (fun _ _ found => found)
      fun _ _ _ reserved => reserved
    intro other s found
    simp only [Table.find?_put] at found
    split at found
    · cases found
      exact keyed.spaceNamed named
    · exact keyed.named other s found
  | unnamed name =>
    refine keyed.fewer (Nat.le_refl _) keyed.known ?_ (fun _ _ found => found)
      fun _ _ _ reserved => reserved
    intro other s found
    simp only [Table.find?_erase] at found
    split at found
    · cases found
    · exact keyed.named other s found
  | registered named new => exact keyed.registered _ _ (keyed.spaceNamed named)
  | released found freed => exact keyed.released found freed
  | unreserved found free =>
    refine keyed.fewer (Nat.le_refl _) keyed.known keyed.named (fun other key left => ?_)
      fun _ _ _ reserved => reserved
    simp only [Table.find?_erase] at left
    split at left
    · cases left
    · exact left
  | raced named kept =>
    refine keyed.fewer (Nat.le_refl _) (keyed.known_put (keyed.spaceNamed named)) keyed.named
      (fun _ _ found => found) fun _ key _ reserved => ?_
    rw [space_put (w := w) rfl]
    split
    · rename_i here
      rw [kept, ← here, reserved]
    · exact reserved

end Keyed

-- What becomes of a pool of slots comes from calls.
def Serves (w after : World) : Prop :=
  ∀ s, ∃ calls, after.space s = SlotPool.after SlotPool.answer (w.space s) calls

theorem Serves.refl (w : World) : w.Serves w := fun _ => ⟨[], rfl⟩

theorem Serves.trans {last : World} (one : w.Serves after) (two : after.Serves last) : w.Serves last := by
  intro s
  obtain ⟨calls, first⟩ := one s
  obtain ⟨later, second⟩ := two s
  exact ⟨calls ++ later, by rw [second, first, SlotPool.after_append]⟩

theorem Serves.put {pool : SlotPool} (calls : List SlotPool.Call)
    (put : after.spaces = w.spaces.put s pool)
    (served : pool = SlotPool.after SlotPool.answer (w.space s) calls) : w.Serves after := by
  intro other
  rw [space_put put]
  split
  · rename_i here
    exact ⟨calls, by rw [here, served]⟩
  · exact ⟨[], rfl⟩

theorem Keyed.serves_filing (keyed : w.Keyed) {spaces : Table SpaceId SlotPool}
    {spaceNames : Table Name SpaceId} {keys : Table Name Key} {next : Nat}
    (filing : Filing w spaces spaceNames keys next) :
    w.Serves { w with spaces, spaceNames, keys, next } := by
  cases filing with
  | opened =>
    -- There was no space of that number.
    have absent : w.space ⟨w.next⟩ = .empty := by
      cases found : w.spaces.find? ⟨w.next⟩ with
      | none => rw [space, found]; rfl
      | some pool => exact absurd (keyed.known _ pool found) (Nat.lt_irrefl _)
    exact .put [] rfl absent.symm
  | shared | unnamed | unreserved => exact fun _ => ⟨[], rfl⟩
  | registered => exact .put [.reserve] rfl rfl
  | @released _ key _ found freed =>
    refine .put [.release key.slot] rfl ?_
    simp only [SlotPool.after, List.foldl_cons, List.foldl_nil, SlotPool.answer, freed]
  | raced named kept served =>
    obtain ⟨calls, served⟩ := served
    exact .put calls rfl served

end World

/-! Moves. -/

-- What becomes of spaces and keys: they are filed anew, or nothing becomes of them.
theorem Quiet.filings {w after : World} (change : Quiet w after) :
    (after.spaces = w.spaces ∧ after.spaceNames = w.spaceNames ∧ after.keys = w.keys) ∨
    ∃ spaces spaceNames keys next, Filing w spaces spaceNames keys next ∧
      after = { w with spaces, spaceNames, keys, next } := by
  cases change with
  | filed filing => exact .inr ⟨_, _, _, _, filing, rfl⟩
  | noted | started | looked | left | pruned | asked | attached | hit | resolved | direct | detached
  | forgot | gone => exact .inl ⟨rfl, rfl, rfl⟩

theorem Move.filings {s s' : Scene} (move : Move s s') :
    (s'.world.spaces = s.world.spaces ∧ s'.world.spaceNames = s.world.spaceNames ∧
      s'.world.keys = s.world.keys) ∨
    ∃ spaces spaceNames keys next, Filing s.world spaces spaceNames keys next ∧
      s'.world = { s.world with spaces, spaceNames, keys, next } := by
  cases move with
  | quiet change => exact change.filings
  | turned | ended | locked | unlocked | opened | shared | unnamed | retained | spared | closed | held
  | unheld | released | fell | begun | tried | made | abandoned | enrolled | entitled | disowned
  | withdrawn | orphaned | dropped => exact .inl ⟨rfl, rfl, rfl⟩

theorem Move.keyed {s s' : Scene} (keyed : s.world.Keyed) (move : Move s s') : s'.world.Keyed := by
  rcases move.filings with ⟨spaces, spaceNames, keys⟩ | ⟨_, _, _, _, filing, after⟩
  · exact keyed.same move.next_le spaces spaceNames keys
  · rw [after]
    exact keyed.filing filing

theorem Move.serves {s s' : Scene} (keyed : s.world.Keyed) (move : Move s s') :
    s.world.Serves s'.world := by
  rcases move.filings with ⟨spaces, _⟩ | ⟨_, _, _, _, filing, after⟩
  · exact fun space => ⟨[], by rw [World.space, spaces]; rfl⟩
  · rw [after]
    exact keyed.serves_filing filing

namespace Scene

theorem Arises.keyed {hashing : RegistryId → Handle → UInt64} {s : Scene}
    (arisen : Arises hashing s) : s.world.Keyed := by
  induction arisen with
  | refl => exact World.keyed_start hashing
  | tail before move ih => exact move.keyed ih

theorem Moves.next_le {s s' : Scene} (moves : Moves s s') : s.world.next ≤ s'.world.next := by
  induction moves with
  | refl => exact Nat.le_refl _
  | tail _ move ih => exact ih.trans move.next_le

theorem Arises.serves {hashing : RegistryId → Handle → UInt64} {s s' : Scene}
    (arisen : Arises hashing s) (moves : Moves s s') : s.world.Serves s'.world := by
  induction moves with
  | refl => exact .refl _
  | tail before move ih =>
    exact ih.trans (move.serves (keyed (Relation.ReflTransGen.trans arisen before)))

-- No space ever has fewer slots.
theorem Arises.highWater {hashing : RegistryId → Handle → UInt64} {s s' : Scene}
    (arisen : Arises hashing s) (moves : Moves s s') (space : SpaceId) :
    (s.world.space space).highWater ≤ (s'.world.space space).highWater := by
  obtain ⟨calls, served⟩ := arisen.serves moves space
  rw [served]
  exact SlotPool.highWater_after _ calls

end Scene

end AttachedState
