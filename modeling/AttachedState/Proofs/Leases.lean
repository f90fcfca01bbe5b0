import AttachedState.Proofs.Isolation

/-!
Leases.  A key holds its slot from its registration until it is dropped, whatever becomes of the
names of its space.  The reserved slots of a space are those of its keys and no others, so what is
told of a space is told of its keys, and no key of another space has to do with it.
-/

namespace AttachedState

namespace World

variable {w after : World} {s other : SpaceId} {name : Name} {key : Key} {slot : Slot} {t u : ThreadId}
  {operation question : Operation}

-- The slots of the keys of a space, in ascending order.
def slotsOf (w : World) (s : SpaceId) : List Slot :=
  ((w.keys.rows.filter (·.2.space = s)).map (·.2.slot)).mergeSort fun a b => decide (a ≤ b)

-- No slot is reserved that no key has, and the reserved ones are counted.
structure Leased (w : World) : Prop where
  distinct : w.keys.Distinct
  leased : ∀ s slot, (w.space s).isReserved slot = true →
    ∃ name key, w.keys.find? name = some key ∧ key.space = s ∧ key.slot = slot
  counted : ∀ s, (w.space s).Counted

theorem isReserved_empty (slot : Slot) : SlotPool.empty.isReserved slot = false := rfl

theorem leased_start (hashing : RegistryId → Handle → UInt64) : (start hashing).Leased := by
  refine ⟨Table.distinct_empty, fun s slot reserved => ?_, fun s => ?_⟩
  · rw [space_start, isReserved_empty] at reserved
    cases reserved
  · rw [space_start]
    rfl

namespace Leased

theorem same (leased : w.Leased) (spaces : after.spaces = w.spaces) (keys : after.keys = w.keys) :
    after.Leased := by
  have space : after.space = w.space := by
    funext s
    unfold World.space
    rw [spaces]
  obtain ⟨distinct, taken, counted⟩ := leased
  exact ⟨by rwa [keys], by rwa [space, keys], by rwa [space]⟩

-- Nothing is asked of a space that is changed but that its slots are those of its keys again.
theorem put (leased : w.Leased) {s : SpaceId} {pool : SlotPool}
    (spaces : after.spaces = w.spaces.put s pool) (distinct : after.keys.Distinct)
    (counted : pool.Counted)
    (here : ∀ slot, pool.isReserved slot = true →
      ∃ name key, after.keys.find? name = some key ∧ key.space = s ∧ key.slot = slot)
    (elsewhere : ∀ name key, w.keys.find? name = some key → key.space ≠ s →
      after.keys.find? name = some key) : after.Leased := by
  refine ⟨distinct, fun other slot reserved => ?_, fun other => ?_⟩
  · rw [space_put spaces] at reserved
    split at reserved
    · rename_i same
      subst same
      exact here slot reserved
    · rename_i apart
      obtain ⟨name, key, found, rfl, at_slot⟩ := leased.leased other slot reserved
      exact ⟨name, key, elsewhere name key found apart, rfl, at_slot⟩
  · rw [space_put spaces]
    split
    · exact counted
    · exact leased.counted other

theorem registered (leased : w.Leased) (s : SpaceId) (kind : Kind) (new : w.keys.find? name = none) :
    World.Leased { w with
      spaces := w.spaces.put s (w.space s).reserve.2
      keys := w.keys.put name ⟨s, (w.space s).reserve.1, kind⟩ } := by
  have still : ∀ other key, w.keys.find? other = some key →
      (w.keys.put name ⟨s, (w.space s).reserve.1, kind⟩).find? other = some key := by
    intro other key found
    rw [Table.find?_put, if_neg, found]
    rintro rfl
    rw [new] at found
    cases found
  refine leased.put rfl (leased.distinct.put _ _) (leased.counted s).reserve (fun slot reserved => ?_)
    fun other key found _ => still other key found
  rw [SlotPool.isReserved_reserve, Bool.or_eq_true, decide_eq_true_eq] at reserved
  rcases reserved with rfl | before
  · exact ⟨name, _, Table.find?_put_self .., rfl, rfl⟩
  · obtain ⟨other, key, found, here⟩ := leased.leased s slot before
    exact ⟨other, key, still other key found, here⟩

theorem released (leased : w.Leased) (found : w.keys.find? name = some key) {pool : SlotPool}
    (freed : (w.space key.space).release? key.slot = some pool) :
    World.Leased { w with
      spaces := w.spaces.put key.space pool
      keys := w.keys.erase name } := by
  have still : ∀ other held, w.keys.find? other = some held → held ≠ key →
      (w.keys.erase name).find? other = some held := by
    intro other held there apart
    rw [Table.find?_erase, if_neg, there]
    rintro rfl
    rw [found, Option.some.injEq] at there
    exact apart there.symm
  refine leased.put rfl (leased.distinct.erase _) ((leased.counted _).release freed)
    (fun slot reserved => ?_) fun other held there apart => still other held there ?_
  · rw [SlotPool.isReserved_release freed, Bool.and_eq_true, decide_eq_true_eq] at reserved
    obtain ⟨other, held, there, here, rfl⟩ := leased.leased _ slot reserved.2
    refine ⟨other, held, still other held there ?_, here, rfl⟩
    rintro rfl
    exact reserved.1 rfl
  · rintro rfl
    exact apart rfl

theorem filing (leased : w.Leased) (keyed : w.Keyed) {spaces : Table SpaceId SlotPool}
    {spaceNames : Table Name SpaceId} {keys : Table Name Key} {next : Nat}
    (filing : Filing w spaces spaceNames keys next) :
    World.Leased { w with spaces, spaceNames, keys, next } := by
  cases filing with
  | opened =>
    refine leased.put rfl leased.distinct rfl (fun slot reserved => ?_) fun _ _ found _ => found
    rw [isReserved_empty] at reserved
    cases reserved
  | shared | unnamed => exact leased.same rfl rfl
  | registered named new => exact (leased.registered _ _ new).same rfl rfl
  | released found freed => exact (leased.released found freed).same rfl rfl
  | unreserved found free =>
    obtain ⟨pool, freed⟩ := SlotPool.release?_of_reserved (keyed.reserved _ _ found)
    rw [free] at freed
    cases freed
  | raced named kept served =>
    obtain ⟨calls, rfl⟩ := served
    refine leased.put rfl leased.distinct ((leased.counted _).after calls) (fun slot reserved => ?_)
      fun _ _ found _ => found
    rw [kept] at reserved
    exact leased.leased _ slot reserved

end Leased

theorem mem_slotsOf (distinct : w.keys.Distinct) : slot ∈ w.slotsOf s ↔
    ∃ name key, w.keys.find? name = some key ∧ key.space = s ∧ key.slot = slot := by
  unfold slotsOf
  rw [List.mem_mergeSort, List.mem_map]
  constructor
  · rintro ⟨⟨name, key⟩, listed, rfl⟩
    obtain ⟨row, here⟩ := List.mem_filter.mp listed
    exact ⟨name, key, Table.find?_of_mem distinct row, of_decide_eq_true here, rfl⟩
  · rintro ⟨name, key, found, here, rfl⟩
    exact ⟨(name, key), List.mem_filter.mpr ⟨Table.mem_of_find? found, decide_eq_true here⟩, rfl⟩

theorem nodup_slotsOf (distinct : w.keys.Distinct) (keyed : w.Keyed) (s : SpaceId) :
    (w.slotsOf s).Nodup := by
  unfold slotsOf
  rw [(List.mergeSort_perm _ _).nodup_iff, List.Nodup, List.pairwise_map]
  refine ((List.pairwise_map.mp distinct).filter _).imp_of_mem ?_
  rintro ⟨name, key⟩ ⟨other, key'⟩ listed listedToo apart slot
  obtain ⟨row, here⟩ := List.mem_filter.mp listed
  obtain ⟨rowToo, there⟩ := List.mem_filter.mp listedToo
  refine apart (keyed.apart name other key key' (Table.find?_of_mem distinct row)
    (Table.find?_of_mem distinct rowToo) ?_ slot)
  exact (of_decide_eq_true here).trans (of_decide_eq_true there).symm

theorem ascending_slotsOf (distinct : w.keys.Distinct) (keyed : w.Keyed) (s : SpaceId) :
    (w.slotsOf s).Pairwise (· < ·) := by
  have sorted : (w.slotsOf s).Pairwise fun a b => decide (a ≤ b) = true :=
    List.pairwise_mergeSort (fun a b c => by simpa using Nat.le_trans) (fun a b => by
      simpa using Nat.le_total a b) _
  refine (sorted.and (nodup_slotsOf distinct keyed s)).imp ?_
  rintro a b ⟨before, apart⟩
  exact Nat.lt_of_le_of_ne (of_decide_eq_true before) apart

theorem isReserved_eq (leased : w.Leased) (keyed : w.Keyed) :
    (w.space s).isReserved slot = true ↔ slot ∈ w.slotsOf s := by
  rw [mem_slotsOf leased.distinct]
  constructor
  · exact leased.leased s slot
  · rintro ⟨name, key, found, rfl, rfl⟩
    exact keyed.reserved name key found

theorem reserved_eq (leased : w.Leased) (keyed : w.Keyed) (s : SpaceId) :
    (w.space s).reserved = w.slotsOf s := by
  refine (w.space s).ascending_reserved.eq_of_mem_iff (ascending_slotsOf leased.distinct keyed s) ?_
  exact fun slot => SlotPool.mem_reserved.trans (isReserved_eq leased keyed)

theorem size_eq (leased : w.Leased) (keyed : w.Keyed) (s : SpaceId) :
    (w.space s).size = (w.slotsOf s).length := by
  rw [leased.counted s, ← SlotPool.length_reserved, reserved_eq leased keyed]

/-! One space beside others. -/

-- Whether an operation is about a key space or about one of its keys.
def Concerns (w : World) (s : SpaceId) : Operation → Prop
  | .showSpace space _ | .isRegistered space _ | .registerKey _ space _ | .raceForKeys space _ _ =>
    w.spaceNamed? space = some s
  | .showKey name _ | .keyIsIn name _ | .dropKey name =>
    ∃ key, w.keys.find? name = some key ∧ key.space = s
  | _ => False

-- Nothing but one space and its keys has changed.
structure Confined (w after : World) (s : SpaceId) : Prop where
  spaces : ∀ other ≠ s, after.space other = w.space other
  names : ∀ name, after.spaceNamed? name = w.spaceNamed? name
  keys : ∀ name key, w.keys.find? name = some key → key.space ≠ s → after.keys.find? name = some key

theorem Confined.refl (w : World) (s : SpaceId) : w.Confined w s :=
  ⟨fun _ _ => rfl, fun _ => rfl, fun _ _ found _ => found⟩

theorem Confined.put {pool : SlotPool} (spaces : after.spaces = w.spaces.put s pool)
    (names : after.spaceNames = w.spaceNames)
    (keys : ∀ name key, w.keys.find? name = some key → key.space ≠ s →
      after.keys.find? name = some key) : w.Confined after s := by
  refine ⟨fun other apart => ?_, fun name => ?_, keys⟩
  · rw [space_put spaces, if_neg apart]
  · unfold spaceNamed?
    rw [names]

theorem confined_operate (concerns : w.Concerns s operation) :
    w.Confined (w.operate t operation).world s := by
  cases operation with
  | showSpace space layout =>
    simp only [operate, showSpace]
    split <;> exact .refl w s
  | isRegistered space slot =>
    simp only [operate, isRegistered]
    split <;> exact .refl w s
  | showKey name layout =>
    simp only [operate, showKey]
    split <;> exact .refl w s
  | keyIsIn name space =>
    simp only [operate, keyIsIn]
    split <;> exact .refl w s
  | registerKey name space kind =>
    have named : w.spaceNamed? space = some s := concerns
    simp only [operate, registerKey, named]
    split
    · exact .refl w s
    · rename_i free
      have apart : ∀ other key, w.keys.find? other = some key → key.space ≠ s →
          (w.keys.put name ⟨s, (w.space s).reserve.1, kind⟩).find? other = some key := by
        intro other key found _
        rw [Table.find?_put, if_neg, found]
        rintro rfl
        exact free (Table.contains_iff.mpr ⟨key, found⟩)
      exact .put rfl rfl apart
  | dropKey name =>
    obtain ⟨key, found, rfl⟩ := concerns
    have apart : ∀ other held, w.keys.find? other = some held → held.space ≠ key.space →
        (w.keys.erase name).find? other = some held := by
      intro other held there elsewhere
      rw [Table.find?_erase, if_neg, there]
      rintro rfl
      rw [found, Option.some.injEq] at there
      exact elsewhere (by rw [there])
    simp only [operate, dropKey, found]
    split
    · exact ⟨fun _ _ => rfl, fun _ => rfl, apart⟩
    · exact .put rfl rfl apart
  | raceForKeys space threads each =>
    have named : w.spaceNamed? space = some s := concerns
    simp only [operate, raceForKeys, named]
    exact .put rfl rfl fun _ _ found _ => found
  | _ => cases concerns

-- The name that is to be free for a new key.
def newKey? : Operation → Option Name
  | .registerKey name _ _ => some name
  | _ => none

theorem Confined.answer (confined : w.Confined after s) (apart : other ≠ s)
    (concerns : w.Concerns other question)
    (free : ∀ name ∈ newKey? question, after.keys.contains name = w.keys.contains name) :
    (after.operate u question).answer = (w.operate u question).answer := by
  obtain ⟨spaces, names, keys⟩ := confined
  have still : ∀ {name : Name} {key : Key}, w.keys.find? name = some key → key.space = other →
      after.keys.find? name = some key := by
    rintro name key found rfl
    exact keys name key found apart
  cases question with
  | showSpace space layout =>
    have named : w.spaceNamed? space = some other := concerns
    simp only [operate, showSpace, names, named, spaces other apart]
    rfl
  | isRegistered space slot =>
    have named : w.spaceNamed? space = some other := concerns
    simp only [operate, isRegistered, names, named, spaces other apart]
    rfl
  | showKey name layout =>
    obtain ⟨key, found, here⟩ := concerns
    simp only [operate, showKey, found, still found here]
    rfl
  | keyIsIn name space =>
    obtain ⟨key, found, here⟩ := concerns
    simp only [operate, keyIsIn, names, found, still found here]
    cases w.spaceNamed? space <;> rfl
  | registerKey name space kind =>
    have named : w.spaceNamed? space = some other := concerns
    simp only [operate, registerKey, names, named, free name rfl, spaces other apart]
    split <;> rfl
  | dropKey name =>
    obtain ⟨key, found, rfl⟩ := concerns
    have same : ∀ v : World, ({ v with keys := v.keys.erase name } : World).space = v.space :=
      fun _ => rfl
    simp only [operate, dropKey, found, still found rfl, same, spaces _ apart]
    cases (w.space key.space).release? key.slot <;> rfl
  | raceForKeys space threads each =>
    have named : w.spaceNamed? space = some other := concerns
    simp only [operate, raceForKeys, names, named, spaces other apart]
    rfl
  | _ => cases concerns

theorem raceForKeys_eq (named : w.spaceNamed? name = some s) (threads each : Nat) :
    w.raceForKeys name threads each =
      let (slots, during) := reserveMany (threads * each) (w.space s)
      let after := slots.foldl (fun pool slot => (pool.release? slot).getD pool) during
      .of { w with spaces := w.spaces.put s after }
        (.keysInRace (slots.mergeSort fun a b => decide (a ≤ b)) during.size after.size
          after.highWater) := by
  unfold raceForKeys
  rw [named]

-- What the keys of a space make of it.
structure Leases (w : World) (s : SpaceId) : Prop where
  -- No two keys have the same slot.
  apart : ∀ name other key key', w.keys.find? name = some key → w.keys.find? other = some key' →
    key.space = s → key'.space = s → key.slot = key'.slot → name = other
  -- Under each of its names the space shows the slots of its keys.
  shown : ∀ t name layout, w.spaceNamed? name = some s → w.operate t (.showSpace name layout)
    = .of w (.space (w.slotsOf s) (w.slotsOf s).length (w.slotsOf s).isEmpty
      (if name = globalName then none else some (w.space s).highWater)
      ((Outline.named "KeySpace" [("registered", .list ((w.slotsOf s).map .number))]).render layout))
  asked : ∀ t name slot, w.spaceNamed? name = some s → ∃ there : Bool,
    w.operate t (.isRegistered name slot) = .of w (.truth there) ∧ (there = true ↔
      ∃ name key, w.keys.find? name = some key ∧ key.space = s ∧ key.slot = slot)
  -- A key that is dropped frees its slot, with or without a name of the space left.
  dropped : ∀ t name key, w.keys.find? name = some key → key.space = s →
    ∃ after, w.operate t (.dropKey name) = .of after .done ∧ after.keys = w.keys.erase name ∧
      after.slotsOf s = (w.slotsOf s).erase key.slot ∧ (after.space s).reserved = after.slotsOf s
  -- A key that is registered takes the first slot that no key has.
  registered : ∀ t name source kind, w.keys.find? name = none → w.spaceNamed? source = some s →
    ∃ after slot, w.operate t (.registerKey name source kind) = .of after (.number slot) ∧
      after.keys = w.keys.put name ⟨s, slot, kind⟩ ∧
      slot ∉ w.slotsOf s ∧ (∀ less < slot, less ∈ w.slotsOf s) ∧
      (after.space s).reserved = after.slotsOf s
  -- Keys that several threads register at once, and drop again, have slots that no other key has.
  raced : ∀ t name threads each, w.spaceNamed? name = some s → ∃ after slots highWater,
    w.operate t (.raceForKeys name threads each) = .of after (.keysInRace slots
      ((w.slotsOf s).length + slots.length) (w.slotsOf s).length highWater) ∧
    slots.length = threads * each ∧ slots.Nodup ∧ (∀ slot ∈ slots, slot ∉ w.slotsOf s) ∧
    after.keys = w.keys ∧ (after.space s).reserved = w.slotsOf s
  -- Another space is told of as before, whatever is done here; a name for a new key may be free or not.
  others : ∀ t u operation other question, other ≠ s → w.Concerns s operation →
    w.Concerns other question →
    (∀ name ∈ newKey? question,
      (w.operate t operation).world.keys.contains name = w.keys.contains name) →
    ((w.operate t operation).world.operate u question).answer = (w.operate u question).answer

theorem Leased.dropKey (leased : w.Leased) (keyed : w.Keyed) (found : w.keys.find? name = some key) :
    ∃ after, w.dropKey name = .of after .done ∧ after.keys = w.keys.erase name ∧
      after.slotsOf key.space = (w.slotsOf key.space).erase key.slot ∧
      (after.space key.space).reserved = after.slotsOf key.space := by
  obtain ⟨pool, freed⟩ := SlotPool.release?_of_reserved (keyed.reserved name key found)
  have leasedThen := leased.released found freed
  have keyedThen := keyed.released found freed
  refine ⟨({ w with
      spaces := w.spaces.put key.space pool
      keys := w.keys.erase name } : World).note (.keyReleased key.slot), ?_, rfl, ?_,
    reserved_eq leasedThen keyedThen key.space⟩
  · have same : ({ w with keys := w.keys.erase name } : World).space = w.space := rfl
    simp only [World.dropKey, found, same, freed]
  · show World.slotsOf _ key.space = _
    refine (ascending_slotsOf leasedThen.distinct keyedThen key.space).eq_of_mem_iff
      ((ascending_slotsOf leased.distinct keyed key.space).sublist List.erase_sublist) ?_
    intro slot
    rw [(nodup_slotsOf leased.distinct keyed key.space).mem_erase_iff,
      ← isReserved_eq leasedThen keyedThen, ← isReserved_eq leased keyed, space_put (w := w) rfl,
      if_pos rfl, SlotPool.isReserved_release freed, Bool.and_eq_true, decide_eq_true_eq]

theorem Leased.registerKey (leased : w.Leased) (keyed : w.Keyed) (new : w.keys.find? name = none)
    {source : Name} (named : w.spaceNamed? source = some s) (kind : Kind) :
    ∃ after slot, w.registerKey name source kind = .of after (.number slot) ∧
      after.keys = w.keys.put name ⟨s, slot, kind⟩ ∧
      slot ∉ w.slotsOf s ∧ (∀ less < slot, less ∈ w.slotsOf s) ∧
      (after.space s).reserved = after.slotsOf s := by
  have leasedThen := leased.registered s kind new
  have keyedThen := keyed.registered name kind (keyed.spaceNamed named)
  refine ⟨({ w with
      spaces := w.spaces.put s (w.space s).reserve.2
      keys := w.keys.put name ⟨s, (w.space s).reserve.1, kind⟩ } : World).note
        (.keyRegistered (w.space s).reserve.1 kind), (w.space s).reserve.1, ?_, rfl, ?_,
    fun less below => ?_, reserved_eq leasedThen keyedThen s⟩
  · simp only [World.registerKey, Table.not_contains_iff.mpr new, named, Bool.false_eq_true, if_false]
  · rw [← isReserved_eq leased keyed, SlotPool.isReserved_reserved]
    exact Bool.false_ne_true
  · exact (isReserved_eq leased keyed).mp (SlotPool.isReserved_of_lt_reserve below)

theorem Leased.raceForKeys (leased : w.Leased) (keyed : w.Keyed)
    (named : w.spaceNamed? name = some s) (threads each : Nat) :
    ∃ after slots highWater, w.raceForKeys name threads each = .of after (.keysInRace slots
      ((w.slotsOf s).length + slots.length) (w.slotsOf s).length highWater) ∧
    slots.length = threads * each ∧ slots.Nodup ∧ (∀ slot ∈ slots, slot ∉ w.slotsOf s) ∧
    after.keys = w.keys ∧ (after.space s).reserved = w.slotsOf s := by
  obtain ⟨nodup, free, _⟩ := SlotPool.reserveMany_spec (threads * each) (w.space s)
  have race := Filing.raced named (SlotPool.isReserved_race (w.space s) (threads * each))
    (SlotPool.after_race _ _)
  have size := size_eq (leased.filing keyed race) (keyed.filing race) s
  have reserved := reserved_eq (leased.filing keyed race) (keyed.filing race) s
  have during := SlotPool.size_reserveMany (threads * each) (w.space s)
  have length := SlotPool.length_reserveMany (threads * each) (w.space s)
  have told := raceForKeys_eq named threads each
  generalize reserveMany (threads * each) (w.space s) = taken at *
  obtain ⟨slots, full⟩ := taken
  simp only at *
  generalize slots.foldl (fun pool slot => (pool.release? slot).getD pool) full = left at *
  have order := List.mergeSort_perm slots fun a b => decide (a ≤ b)
  have after : left.size = (w.slotsOf s).length := by
    rwa [space_put (w := w) rfl, if_pos rfl] at size
  refine ⟨{ w with spaces := w.spaces.put s left }, slots.mergeSort fun a b => decide (a ≤ b),
    left.highWater, ?_, order.length_eq.trans length, order.nodup_iff.mpr nodup, ?_, rfl, reserved⟩
  · rw [told, order.length_eq, length, ← size_eq leased keyed, ← during, size_eq leased keyed, after]
  · intro slot listed
    rw [← isReserved_eq leased keyed, free slot (order.mem_iff.mp listed)]
    exact Bool.false_ne_true

theorem Leased.leases (leased : w.Leased) (keyed : w.Keyed) (s : SpaceId) : w.Leases s := by
  have reserved := reserved_eq leased keyed s
  have size := size_eq leased keyed s
  refine ⟨?_, ?_, ?_, ?_, ?_, ?_, ?_⟩
  · intro name other key key' found foundToo here there slot
    exact keyed.apart name other key key' found foundToo (here.trans there.symm) slot
  · intro t name layout named
    have none_left : (w.space s).isEmpty = (w.slotsOf s).isEmpty := by
      rw [Bool.eq_iff_iff, List.isEmpty_iff_length_eq_zero, ← size]
      exact beq_iff_eq
    simp only [operate, showSpace, named, reserved, size, none_left, SlotPool.spaceOutline]
  · intro t name slot named
    refine ⟨(w.space s).isReserved slot, ?_, ?_⟩
    · simp only [operate, isRegistered, named]
    · rw [isReserved_eq leased keyed, mem_slotsOf leased.distinct]
  · rintro t name key found rfl
    exact leased.dropKey keyed found
  · intro t name source kind new named
    exact leased.registerKey keyed new named kind
  · intro t name threads each named
    exact leased.raceForKeys keyed named threads each
  · intro t u operation other question apart concerns concernsToo free
    exact (confined_operate concerns).answer apart concernsToo free

end World

/-! Moves. -/

theorem Move.leased {s s' : Scene} (leased : s.world.Leased) (keyed : s.world.Keyed)
    (move : Move s s') : s'.world.Leased := by
  rcases move.filings with ⟨spaces, _, keys⟩ | ⟨_, _, _, _, filing, after⟩
  · exact leased.same spaces keys
  · rw [after]
    exact leased.filing keyed filing

theorem Scene.Arises.leased {hashing : RegistryId → Handle → UInt64} {s : Scene}
    (arisen : Arises hashing s) : s.world.Leased := by
  induction arisen with
  | refl => exact World.leased_start hashing
  | tail before move ih => exact move.leased ih (Arises.keyed before)

namespace Machine

variable {hashing : RegistryId → Handle → UInt64} {m : Machine}

-- At any time of any session, the slots of a space are those of its keys, whether the space still
-- has a name or not.
theorem keys_own_slots (reached : m.Reached hashing) (s : SpaceId) : m.world.Leases s :=
  (Scene.Arises.leased reached.arises).leases (Scene.Arises.keyed reached.arises) s

-- Two keys are registered in a space that then loses its name.
def nameless : Machine :=
  let opened := told ⟨.start fun _ _ => 0, .main, []⟩ (.act .main (.operate (.openSpace "space"))) 2
  let first := opened.told (.act .main (.operate (.registerKey "first" "space" .byte))) 2
  let second := first.told (.act .main (.operate (.registerKey "second" "space" .byte))) 2
  second.told (.act .main (.operate (.dropSpace "space"))) 2

theorem nameless_reached : nameless.Reached fun _ _ => 0 :=
  (((later_told rfl (by trivial) 2).trans (later_told rfl (by trivial) 2)).trans
    (later_told rfl (by trivial) 2)).trans (later_told rfl (by trivial) 2)

-- The first key still gives its slot back, and the second one keeps its own.
theorem keys_own_slots_nameless : nameless.Reached (fun _ _ => 0) ∧
    nameless.world.spaceNamed? "space" = none ∧
    ∃ after, nameless.world.operate .main (.dropKey "first") = .of after .done ∧
      after.slotsOf ⟨1⟩ = [1] := by
  obtain ⟨after, answer, _, _, reserved⟩ :=
    (keys_own_slots nameless_reached ⟨1⟩).dropped .main "first" ⟨⟨1⟩, 0, .byte⟩ rfl rfl
  refine ⟨nameless_reached, rfl, after, answer, ?_⟩
  have world : after = (nameless.world.operate .main (.dropKey "first")).world := by rw [answer]; rfl
  rw [← reserved, world]
  rfl

end Machine

end AttachedState
