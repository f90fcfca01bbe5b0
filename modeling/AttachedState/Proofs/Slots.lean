import Mathlib
import AttachedState.Race

/-!
Slots.  A pool of slots is the set of the reserved ones: reserving adds the lowest slot that is not
in it, and releasing takes one out.
-/

namespace AttachedState.SlotPool

variable {pool rest : SlotPool} {slot other : Slot}

theorem lt_highWater (reserved : pool.isReserved slot = true) : slot < pool.highWater := by
  by_contra past
  unfold isReserved at reserved
  rw [List.getElem?_eq_none (Nat.le_of_not_lt past)] at reserved
  cases reserved

/-! Reserving. -/

-- Reserving takes the lowest slot that is free, and lengthens the pool only if there is none.
theorem reserve_cases (pool : SlotPool) :
    (∃ inside : pool.reserve.1 < pool.taken.length, pool.taken[pool.reserve.1] = false ∧
        pool.reserve.2.taken = pool.taken.set pool.reserve.1 true) ∨
      pool.reserve.1 = pool.taken.length ∧ pool.reserve.2.taken = pool.taken ++ [true] := by
  unfold reserve
  split
  · rename_i slot found
    obtain ⟨inside, free, _⟩ := List.findIdx?_eq_some_iff_getElem.mp found
    exact .inl ⟨inside, by simpa using free, rfl⟩
  · exact .inr ⟨rfl, rfl⟩

theorem isReserved_reserve (pool : SlotPool) (slot : Slot) :
    pool.reserve.2.isReserved slot = (slot = pool.reserve.1 || pool.isReserved slot) := by
  unfold isReserved
  rcases reserve_cases pool with ⟨inside, _, taken⟩ | ⟨last, taken⟩
  · rw [taken, List.getElem?_set]
    by_cases here : pool.reserve.1 = slot
    · simp [here.symm, inside]
    · simp [here, Ne.symm here]
  · rw [taken, last]
    rcases Nat.lt_trichotomy slot pool.taken.length with less | rfl | more
    · simp [List.getElem?_append_left less, Nat.ne_of_lt less]
    · simp
    · simp [List.getElem?_append_right (Nat.le_of_lt more), Nat.ne_of_gt more,
        List.getElem?_eq_none (Nat.le_of_lt more), Nat.sub_ne_zero_of_lt more]

-- The slot was free.
theorem isReserved_reserved (pool : SlotPool) : pool.isReserved pool.reserve.1 = false := by
  unfold isReserved
  rcases reserve_cases pool with ⟨inside, free, _⟩ | ⟨last, _⟩
  · rw [List.getElem?_eq_getElem inside, free]
    rfl
  · rw [last, List.getElem?_eq_none (Nat.le_refl _)]
    rfl

-- All slots below it were reserved.
theorem isReserved_of_lt_reserve {less : Slot} (below : less < pool.reserve.1) :
    pool.isReserved less = true := by
  unfold reserve at below
  unfold isReserved
  split at below
  · rename_i slot found
    obtain ⟨inside, _, before⟩ := List.findIdx?_eq_some_iff_getElem.mp found
    have taken := before less below
    rw [List.getElem?_eq_getElem (below.trans inside)]
    simpa using taken
  · rename_i full
    rw [List.getElem?_eq_getElem below]
    simpa using List.findIdx?_eq_none_iff.mp full _ (List.getElem_mem below)

theorem highWater_reserve (pool : SlotPool) : pool.highWater ≤ pool.reserve.2.highWater := by
  unfold highWater
  rcases reserve_cases pool with ⟨_, _, taken⟩ | ⟨_, taken⟩ <;> rw [taken] <;> simp

/-! Releasing. -/

theorem release?_of_reserved (reserved : pool.isReserved slot = true) :
    ∃ rest, pool.release? slot = some rest := by
  unfold release?
  rw [if_pos reserved]
  exact ⟨_, rfl⟩

theorem isReserved_release (released : pool.release? slot = some rest) (other : Slot) :
    rest.isReserved other = (other ≠ slot && pool.isReserved other) := by
  unfold release? at released
  split at released <;> cases released
  rename_i reserved
  unfold isReserved
  simp only [List.getElem?_set]
  by_cases here : slot = other
  · subst here
    have inside : slot < pool.taken.length := lt_highWater reserved
    simp [inside]
  · simp [here, Ne.symm here]

theorem highWater_release (released : pool.release? slot = some rest) :
    rest.highWater = pool.highWater := by
  unfold release? at released
  split at released <;> cases released
  simp [highWater]

/-! Listing and counting. -/

theorem mem_reserved : slot ∈ pool.reserved ↔ pool.isReserved slot = true := by
  unfold reserved
  rw [List.mem_filter, List.mem_range]
  exact and_iff_right_of_imp lt_highWater

theorem ascending_reserved (pool : SlotPool) : pool.reserved.Pairwise (· < ·) :=
  List.pairwise_lt_range.filter _

-- As many slots are reserved as are counted.
def Counted (pool : SlotPool) : Prop := pool.size = pool.taken.count true

theorem length_reserved (pool : SlotPool) : pool.reserved.length = pool.taken.count true := by
  have flags : (List.range pool.taken.length).map pool.isReserved = pool.taken := by
    refine List.ext_getElem (by simp) fun slot _ inside => ?_
    simp [isReserved, inside]
  rw [← flags, List.count, List.countP_map, reserved, ← List.countP_eq_length_filter]
  exact List.countP_congr fun slot _ => by simp

theorem size_reserve (pool : SlotPool) : pool.reserve.2.size = pool.size + 1 := by
  unfold reserve
  split <;> rfl

theorem Counted.reserve (counted : pool.Counted) : pool.reserve.2.Counted := by
  unfold Counted at counted ⊢
  rw [size_reserve, counted]
  rcases reserve_cases pool with ⟨inside, free, taken⟩ | ⟨_, taken⟩
  · rw [taken, List.count_set inside, free]
    rfl
  · rw [taken, List.count_append]
    rfl

theorem Counted.release (counted : pool.Counted) (released : pool.release? slot = some rest) :
    rest.Counted := by
  unfold release? at released
  split at released <;> cases released
  rename_i here
  have inside : slot < pool.taken.length := lt_highWater here
  unfold isReserved at here
  rw [List.getElem?_eq_getElem inside, Option.getD_some] at here
  unfold Counted size at counted ⊢
  rw [List.count_set inside, here, counted]
  rfl

/-! Races for slots. -/

open World

-- The slots that are taken one after the other are all different, and were free.
theorem reserveMany_spec (n : Nat) (pool : SlotPool) :
    (reserveMany n pool).1.Nodup ∧ (∀ slot ∈ (reserveMany n pool).1, pool.isReserved slot = false) ∧
    ∀ slot, (reserveMany n pool).2.isReserved slot
      = (decide (slot ∈ (reserveMany n pool).1) || pool.isReserved slot) := by
  induction n with
  | zero => exact ⟨.nil, List.forall_mem_nil _, fun _ => rfl⟩
  | succ n ih =>
    obtain ⟨nodup, free, reserved⟩ := ih
    have last := isReserved_reserved (reserveMany n pool).2
    rw [reserved, Bool.or_eq_false_iff] at last
    simp only [reserveMany]
    refine ⟨?_, ?_, fun slot => ?_⟩
    · rw [List.nodup_append]
      refine ⟨nodup, List.nodup_singleton _, fun a listed b here same => ?_⟩
      rw [List.mem_singleton.mp here] at same
      rw [same] at listed
      exact absurd listed (of_decide_eq_false last.1)
    · intro slot listed
      rcases List.mem_append.mp listed with earlier | here
      · exact free slot earlier
      · rw [List.mem_singleton.mp here]
        exact last.2
    · rw [isReserved_reserve, reserved, ← Bool.or_assoc]
      congr 1
      simp [Bool.or_comm]

theorem releases_spec (pool : SlotPool) (slots : List Slot) (nodup : slots.Nodup)
    (reserved : ∀ slot ∈ slots, pool.isReserved slot = true) (slot : Slot) :
    (slots.foldl (fun pool slot => (pool.release? slot).getD pool) pool).isReserved slot
      = (decide (slot ∉ slots) && pool.isReserved slot) := by
  induction slots generalizing pool with
  | nil => simp
  | cons first rest ih =>
    rw [List.nodup_cons] at nodup
    obtain ⟨left, released⟩ := release?_of_reserved (reserved first List.mem_cons_self)
    have still : ∀ slot ∈ rest, left.isReserved slot = true := by
      intro slot listed
      have apart : slot ≠ first := fun same => nodup.1 (same ▸ listed)
      rw [isReserved_release released, reserved slot (List.mem_cons_of_mem _ listed)]
      simp [apart]
    simp only [List.foldl_cons, released, Option.getD_some]
    rw [ih left nodup.2 still, isReserved_release released]
    by_cases here : slot = first <;> by_cases listed : slot ∈ rest <;> simp [here, listed]

theorem length_reserveMany (n : Nat) (pool : SlotPool) : (reserveMany n pool).1.length = n := by
  induction n with
  | zero => rfl
  | succ n ih => rw [reserveMany, List.length_append, ih, List.length_singleton]

theorem size_reserveMany (n : Nat) (pool : SlotPool) :
    (reserveMany n pool).2.size = pool.size + n := by
  induction n with
  | zero => rfl
  | succ n ih => rw [reserveMany, size_reserve, ih, Nat.add_assoc]

-- A race leaves what was reserved before.
theorem isReserved_race (pool : SlotPool) (n : Nat) (slot : Slot) :
    ((reserveMany n pool).1.foldl (fun pool slot => (pool.release? slot).getD pool)
      (reserveMany n pool).2).isReserved slot = pool.isReserved slot := by
  obtain ⟨nodup, free, reserved⟩ := reserveMany_spec n pool
  have taken : ∀ slot ∈ (reserveMany n pool).1, (reserveMany n pool).2.isReserved slot = true :=
    fun slot listed => by rw [reserved, decide_eq_true listed, Bool.true_or]
  rw [releases_spec _ _ nodup taken, reserved]
  by_cases listed : slot ∈ (reserveMany n pool).1
  · simp [listed, free slot listed]
  · simp [listed]

end AttachedState.SlotPool
