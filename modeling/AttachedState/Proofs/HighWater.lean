import AttachedState.Proofs.Blocks
import AttachedState.Proofs.Creations
import AttachedState.Proofs.Leases

/-!
High water.  A pool of slots gets longer only when all its slots are reserved.  So it is as long as the
number of slots that were ever reserved at once, and no block with extensions for its slots is longer,
however many keys had these slots one after the other.
-/

namespace AttachedState

namespace SlotPool

variable {pool : SlotPool} {calls : List Call} {slot : Slot}

/-! What calls do to the length. -/

theorem Counted.size_le (counted : pool.Counted) : pool.size ≤ pool.highWater := by
  rw [counted]
  exact List.count_le_length

-- Without a hole in it all slots of a pool are reserved.
theorem Counted.full (counted : pool.Counted) (last : pool.reserve.1 = pool.highWater) :
    pool.size = pool.highWater := by
  have all : pool.reserved = List.range pool.highWater := by
    refine List.filter_eq_self.mpr fun slot listed => ?_
    exact isReserved_of_lt_reserve (last ▸ List.mem_range.mp listed)
  rw [counted, ← length_reserved, all, List.length_range]

theorem Counted.highWater_answer (counted : pool.Counted) (call : Call) :
    (pool.answer call).2.highWater = max (pool.answer call).2.size pool.highWater := by
  cases call with
  | reserve =>
    have within := counted.reserve.size_le
    rcases reserve_cases pool with ⟨_, _, taken⟩ | ⟨last, taken⟩
    · have same : pool.reserve.2.highWater = pool.highWater := by
        rw [highWater, taken, List.length_set, highWater]
      rw [same] at within
      exact same.trans (Nat.max_eq_right within).symm
    · have longer : pool.reserve.2.highWater = pool.highWater + 1 := by
        rw [highWater, taken, List.length_append, List.length_singleton, highWater]
      have size : pool.reserve.2.size = pool.highWater + 1 := by
        rw [size_reserve, counted.full last]
      have larger : pool.highWater ≤ pool.reserve.2.size := size ▸ Nat.le_succ _
      exact (longer.trans size.symm).trans (Nat.max_eq_left larger).symm
  | release slot =>
    have same := highWater_released pool slot
    have within := (counted.answer (.release slot)).size_le
    rw [same] at within
    exact same.trans (Nat.max_eq_right within).symm

theorem highWater_reserved (pool : SlotPool) :
    pool.reserve.2.highWater = max (pool.reserve.1 + 1) pool.highWater := by
  rcases reserve_cases pool with ⟨inside, _, taken⟩ | ⟨last, taken⟩
  · rw [highWater, taken, List.length_set]
    exact (Nat.max_eq_right inside).symm
  · rw [highWater, taken, List.length_append, List.length_singleton, last]
    exact (Nat.max_eq_left (Nat.le_succ _)).symm

/-! What was handed out. -/

def Reply.given? : Reply → Option Slot
  | .gave slot => some slot
  | _ => none

theorem given?_release (pool : SlotPool) (slot : Slot) :
    (pool.answer (.release slot)).1.given? = none := by
  simp only [answer]
  split <;> rfl

def handedOut (calls : List Call) : List Slot := (replies answer empty calls).filterMap (·.given?)

theorem handedOut_concat (calls : List Call) (call : Call) : handedOut (calls ++ [call])
    = handedOut calls ++ ((after answer empty calls).answer call).1.given?.toList := by
  unfold handedOut
  rw [replies_append, List.filterMap_append]
  congr 1

/-! The peak. -/

-- The numbers of reserved slots that there were at some point.
def sizes (calls : List Call) : Set Nat :=
  {n | ∃ front, front <+: calls ∧ (after answer empty front).size = n}

-- By induction on the calls, from the last one back.
theorem isGreatest_sizes (calls : List Call) :
    IsGreatest (sizes calls) (after answer empty calls).highWater := by
  induction calls using List.reverseRecOn with
  | nil =>
    refine ⟨⟨[], List.prefix_refl _, rfl⟩, ?_⟩
    rintro n ⟨front, before, rfl⟩
    rw [List.prefix_nil.mp before]
    exact Nat.le_refl _
  | append_singleton calls call ih =>
    have counted : (after answer empty calls).Counted := Stands.start.counted.after calls
    have now : after answer empty (calls ++ [call]) = ((after answer empty calls).answer call).2 :=
      after_append
    have more : sizes (calls ++ [call])
        = insert ((after answer empty calls).answer call).2.size (sizes calls) := by
      ext n
      constructor
      · rintro ⟨front, before, rfl⟩
        rcases List.prefix_concat_iff.mp before with rfl | earlier
        · exact .inl (congrArg size now)
        · exact .inr ⟨front, earlier, rfl⟩
      · rintro (rfl | ⟨front, before, rfl⟩)
        · exact ⟨_, List.prefix_refl _, congrArg size now⟩
        · exact ⟨front, before.trans (List.prefix_append _ _), rfl⟩
    rw [more, now, counted.highWater_answer]
    exact ih.insert _

theorem sizeFor_concat (slots : List Slot) (slot : Slot) :
    Block.sizeFor (slots ++ [slot]) = max (slot + 1) (Block.sizeFor slots) := by
  induction slots with
  | nil => rfl
  | cons first rest ih =>
    show max (first + 1) (Block.sizeFor (rest ++ [slot]))
      = max (slot + 1) (max (first + 1) (Block.sizeFor rest))
    rw [ih, Nat.max_left_comm]

theorem highWater_eq_sizeFor (calls : List Call) :
    (after answer empty calls).highWater = Block.sizeFor (handedOut calls) := by
  induction calls using List.reverseRecOn with
  | nil => rfl
  | append_singleton calls call ih =>
    rw [handedOut_concat, after_append]
    cases call with
    | reserve =>
      show (after answer empty calls).reserve.2.highWater
        = Block.sizeFor (handedOut calls ++ [(after answer empty calls).reserve.1])
      rw [highWater_reserved, sizeFor_concat, ih]
    | release slot =>
      show ((after answer empty calls).answer (.release slot)).2.highWater = _
      rw [highWater_released, given?_release, Option.toList_none, List.append_nil, ih]

-- The length after some calls, which may be any of those that are made.
structure Peaks (calls : List Call) : Prop where
  peak : IsGreatest (sizes calls) (after answer empty calls).highWater
  unused : handedOut calls = [] → (after answer empty calls).highWater = 0
  used : handedOut calls ≠ [] →
    IsGreatest {n | ∃ slot ∈ handedOut calls, slot + 1 = n} (after answer empty calls).highWater
  above : ∀ slot, (after answer empty calls).isReserved slot = true →
    slot < (after answer empty calls).highWater
  blocks : ∀ slots, (∀ slot ∈ slots, slot ∈ handedOut calls) → ∃ n ∈ sizes calls, Block.sizeFor slots ≤ n

theorem peaks (calls : List Call) : Peaks calls := by
  have peak := isGreatest_sizes calls
  have size := highWater_eq_sizeFor calls
  refine ⟨peak, fun nothing => ?_, fun something => ?_, fun slot => lt_highWater, fun slots given => ?_⟩
  · rw [size, nothing]
    rfl
  · rw [size]
    obtain ⟨slot, listed, same⟩ := exists_sizeFor something
    refine ⟨⟨slot, listed, same.symm⟩, ?_⟩
    rintro n ⟨other, there, rfl⟩
    exact World.lt_sizeFor there
  · refine ⟨_, peak.1, Block.sizeFor_le fun slot listed => ?_⟩
    rw [size]
    exact World.lt_sizeFor (given slot listed)

-- One slot may be handed out any number of times.
theorem exists_turnover (n : Nat) : ∃ calls, (handedOut calls).length = n + 1 ∧
    after answer empty calls = ⟨[true], 1⟩ := by
  induction n with
  | zero => exact ⟨[.reserve], rfl, rfl⟩
  | succ n ih =>
    obtain ⟨calls, length, taken⟩ := ih
    refine ⟨calls ++ [.release 0] ++ [.reserve], ?_, ?_⟩
    · rw [handedOut_concat, handedOut_concat, given?_release, List.length_append, List.length_append,
        length]
      rfl
    · rw [after_append, after_append, taken]
      rfl

end SlotPool

namespace Machine

variable {hashing : RegistryId → Handle → UInt64} {m : Machine} {s : SpaceId} {nested : Bool}
  {supplies : List (Supply Action)} {site : Construction} {rest : List Task}

theorem Begins.slotCount_le (begins : Begins hashing m nested supplies site rest)
    (live : ∀ supply ∈ supplies, ∃ key, m.world.keys.find? supply.key = some key ∧ key.space = s) :
    site.built.slotCount ≤ (m.world.space s).highWater := by
  have size : site.built.slotCount = Block.sizeFor (site.pending.map (·.slot)) := by
    show site.slots.length = _
    rw [begins.vacant, List.length_replicate]
  rw [size]
  exact (Scene.Arises.keyed begins.reached.arises).sizeFor_le (map_of_mapM begins.known) live

end Machine

open SlotPool Machine

-- However many slots were handed out, one may have been enough.  In a session the slots of a space come
-- from calls, one slot is reserved for each of its keys, and its keys' blocks are no longer than a peak.
theorem high_water_is_peak :
    (∀ calls, Peaks calls) ∧
    (∀ n, ∃ calls, (handedOut calls).length = n + 1 ∧ (after answer empty calls).highWater = 1) ∧
    ∀ hashing m, m.Reached hashing → ∀ s, ∃ calls, m.world.space s = after answer empty calls ∧
      (m.world.slotsOf s).length = (after answer empty calls).size ∧
      (∀ m', Later m m' → ∃ later, m'.world.space s = after answer empty (calls ++ later)) ∧
      ∀ nested supplies site rest, Begins hashing m nested supplies site rest →
        (∀ supply ∈ supplies, ∃ key, m.world.keys.find? supply.key = some key ∧ key.space = s) →
        ∃ n ∈ sizes calls, site.built.slotCount ≤ n := by
  refine ⟨peaks, fun n => ?_, fun hashing m reached s => ?_⟩
  · obtain ⟨calls, length, taken⟩ := exists_turnover n
    exact ⟨calls, length, by rw [taken]; rfl⟩
  · obtain ⟨calls, served⟩ := Scene.Arises.serves .refl reached.arises s
    have all : m.world.space s = after answer empty calls := World.space_start hashing s ▸ served
    have keyed := Scene.Arises.keyed reached.arises
    have leased := Scene.Arises.leased reached.arises
    refine ⟨calls, all, all ▸ (World.size_eq leased keyed s).symm, fun m' later => ?_,
      fun nested supplies site rest begins live => ?_⟩
    · obtain ⟨more, servedToo⟩ := Scene.Arises.serves reached.arises (Later.moves reached later) s
      exact ⟨more, by rw [after_append, ← all]; exact servedToo⟩
    · exact ⟨_, (peaks calls).peak.1, all ▸ begins.slotCount_le live⟩

-- The block of a context for which one extension is made.
theorem high_water_is_peak_overtaken : ∃ calls,
    overtaken.world.space globalSpace = after answer empty calls ∧
    (overtaken.world.slotsOf globalSpace).length = 1 ∧
    ∃ n ∈ sizes calls, overtakenSite.built.slotCount ≤ n := by
  have live : ∀ supply ∈ [overtaking], ∃ key,
      overtaken.world.keys.find? supply.key = some key ∧ key.space = globalSpace := by
    intro supply listed
    cases List.mem_singleton.mp listed
    exact ⟨_, rfl, rfl⟩
  obtain ⟨calls, all, length, _, blocks⟩ :=
    high_water_is_peak.2.2 _ overtaken begins_overtaken.reached globalSpace
  exact ⟨calls, all, by rw [length, ← all]; rfl, blocks _ _ _ _ begins_overtaken live⟩

end AttachedState
