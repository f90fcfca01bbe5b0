import AttachedState.Proofs.Slots

/-!
Reservations.  Slots are reserved and released in any order, and slots may be released that are not
reserved.  To all of it a pool of slots answers as the set of the reserved ones.
-/

namespace AttachedState.SlotPool

-- What is asked of a pool, and what it answers.
inductive Call where
  | reserve
  | release (slot : Slot)

inductive Reply where
  | gave (slot : Slot)
  | freed
  | refused (text : String)

def answer (pool : SlotPool) : Call → Reply × SlotPool
  | .reserve => (.gave pool.reserve.1, pool.reserve.2)
  | .release slot =>
    match pool.release? slot with
    | some rest => (.freed, rest)
    | none => (.refused (unreservedText slot), pool)

-- A set of slots, asked the same: the lowest slot that is not in it is added, or one is taken out.
def answerOf (set : Finset Slot) : Call → Reply × Finset Slot
  | .reserve =>
    let lowest := Nat.find (Infinite.exists_notMem_finset set)
    (.gave lowest, insert lowest set)
  | .release slot =>
    if slot ∈ set then (.freed, set.erase slot)
    else (.refused ("release of slot " ++ toString slot ++ " that is not reserved"), set)

/-! Calls that are made one after the other. -/

section Calls

variable {σ τ : Type} {answers : σ → Call → Reply × σ} {answers' : τ → Call → Reply × τ} {s : σ}
  {t : τ} {calls later : List Call} {call : Call}

def after (answers : σ → Call → Reply × σ) (s : σ) (calls : List Call) : σ :=
  calls.foldl (fun s call => (answers s call).2) s

def replies (answers : σ → Call → Reply × σ) (s : σ) : List Call → List Reply
  | [] => []
  | call :: rest => (answers s call).1 :: replies answers (answers s call).2 rest

theorem after_append : after answers s (calls ++ later) = after answers (after answers s calls) later :=
  List.foldl_append

theorem replies_append : replies answers s (calls ++ later)
    = replies answers s calls ++ replies answers (after answers s calls) later := by
  induction calls generalizing s with
  | nil => rfl
  | cons call rest ih => exact congrArg _ ih

-- What agrees call by call agrees in the long run.
theorem replies_alike {R : σ → τ → Prop}
    (step : ∀ {s t}, R s t → ∀ call, (answers s call).1 = (answers' t call).1 ∧
      R (answers s call).2 (answers' t call).2) (start : R s t) (calls : List Call) :
    replies answers s calls = replies answers' t calls ∧
      R (after answers s calls) (after answers' t calls) := by
  induction calls generalizing s t with
  | nil => exact ⟨rfl, start⟩
  | cons call rest ih =>
    obtain ⟨same, next⟩ := step start call
    obtain ⟨later, last⟩ := ih next
    exact ⟨List.cons_eq_cons.mpr ⟨same, later⟩, last⟩

end Calls

/-! A pool and its set. -/

variable {pool rest : SlotPool} {set : Finset Slot} {slot : Slot}

structure Stands (pool : SlotPool) (set : Finset Slot) : Prop where
  counted : pool.Counted
  reserved : ∀ slot, pool.isReserved slot = true ↔ slot ∈ set

namespace Stands

theorem start : empty.Stands ∅ :=
  ⟨rfl, fun slot => iff_of_false Bool.false_ne_true (Finset.notMem_empty slot)⟩

theorem free (stands : pool.Stands set) : pool.isReserved slot = false ↔ slot ∉ set := by
  rw [← stands.reserved, Bool.not_eq_true]

theorem refuses (stands : pool.Stands set) (out : slot ∉ set) : pool.release? slot = none := by
  unfold release?
  rw [stands.free.mpr out]
  rfl

theorem refused (stands : pool.Stands set) (out : slot ∉ set) :
    pool.answer (.release slot) = (.refused (unreservedText slot), pool) := by
  simp only [answer, stands.refuses out]

theorem lowest (stands : pool.Stands set) : IsLeast {slot | slot ∉ set} pool.reserve.1 := by
  refine ⟨stands.free.mp (isReserved_reserved pool), fun slot out => ?_⟩
  by_contra below
  have taken := isReserved_of_lt_reserve (Nat.lt_of_not_le below)
  exact out ((stands.reserved slot).mp taken)

theorem reserve (stands : pool.Stands set) : pool.reserve.2.Stands (insert pool.reserve.1 set) := by
  refine ⟨stands.counted.reserve, fun slot => ?_⟩
  rw [isReserved_reserve, Bool.or_eq_true, decide_eq_true_eq, stands.reserved, Finset.mem_insert]

theorem release (stands : pool.Stands set) (released : pool.release? slot = some rest) :
    rest.Stands (set.erase slot) := by
  refine ⟨stands.counted.release released, fun other => ?_⟩
  rw [isReserved_release released, Bool.and_eq_true, decide_eq_true_eq, stands.reserved,
    Finset.mem_erase]

theorem step (stands : pool.Stands set) (call : Call) :
    (pool.answer call).1 = (answerOf set call).1 ∧ (pool.answer call).2.Stands (answerOf set call).2 := by
  cases call with
  | reserve =>
    have same : Nat.find (Infinite.exists_notMem_finset set) = pool.reserve.1 :=
      (Nat.isLeast_find _).unique stands.lowest
    simp only [answer, answerOf, same]
    exact ⟨trivial, stands.reserve⟩
  | release slot =>
    unfold answer answerOf
    by_cases here : slot ∈ set
    · obtain ⟨rest, released⟩ := release?_of_reserved ((stands.reserved slot).mpr here)
      simp only [released, if_pos here]
      exact ⟨trivial, stands.release released⟩
    · simp only [stands.refuses here, if_neg here]
      exact ⟨rfl, stands⟩

theorem listed (stands : pool.Stands set) : pool.reserved = set.sort := by
  have same : pool.reserved.toFinset = set := by
    ext slot
    rw [List.mem_toFinset, mem_reserved, stands.reserved]
  have ascending := ascending_reserved pool
  rw [← same]
  exact ((List.toFinset_sort _ ascending.nodup).mpr (ascending.imp Nat.le_of_lt)).symm

theorem size (stands : pool.Stands set) : pool.size = set.card := by
  rw [stands.counted, ← length_reserved, stands.listed, Finset.length_sort]

end Stands

-- What is seen of a pool.
structure Shows (pool : SlotPool) (set : Finset Slot) : Prop where
  reserved : ∀ slot, pool.isReserved slot = true ↔ slot ∈ set
  listed : pool.reserved = set.sort
  size : pool.size = set.card
  isEmpty : pool.isEmpty = true ↔ set = ∅
  flags : pool.inUse = pool.taken.count true
  lowest : IsLeast {slot | slot ∉ set} pool.reserve.1
  -- The count is not zero when it goes down.
  down : ∀ slot rest, pool.release? slot = some rest → rest.inUse + 1 = pool.inUse

theorem Stands.shows (stands : pool.Stands set) : pool.Shows set where
  reserved := stands.reserved
  listed := stands.listed
  size := stands.size
  isEmpty := by
    rw [← Finset.card_eq_zero, ← stands.size]
    exact beq_iff_eq
  flags := stands.counted
  lowest := stands.lowest
  down slot rest released := by
    have fewer := (stands.release released).size
    have member : slot ∈ set := by
      by_contra out
      cases released.symm.trans (stands.refuses out)
    have some_left := Finset.card_erase_add_one member
    rw [← fewer, ← stands.size] at some_left
    exact some_left

-- A release that is refused might as well not have been asked for.
theorem reserved_as_set (calls : List Call) :
    replies answer empty calls = replies answerOf ∅ calls ∧
    (after answer empty calls).Shows (after answerOf ∅ calls) ∧
    ∀ slot, slot ∉ after answerOf ∅ calls → ∀ later,
      after answer empty (calls ++ .release slot :: later) = after answer empty (calls ++ later) ∧
      replies answer empty (calls ++ later)
        = replies answer empty calls ++ replies answer (after answer empty calls) later ∧
      replies answer empty (calls ++ .release slot :: later) = replies answer empty calls ++
        .refused ("release of slot " ++ toString slot ++ " that is not reserved") ::
          replies answer (after answer empty calls) later := by
  obtain ⟨same, stands⟩ := replies_alike Stands.step Stands.start calls
  refine ⟨same, stands.shows, fun slot out later => ?_⟩
  have refused := stands.refused out
  have through : after answer (after answer empty calls) (.release slot :: later)
      = after answer ((after answer empty calls).answer (.release slot)).2 later := rfl
  have told : replies answer (after answer empty calls) (.release slot :: later)
      = ((after answer empty calls).answer (.release slot)).1 ::
        replies answer ((after answer empty calls).answer (.release slot)).2 later := rfl
  rw [refused] at through told
  refine ⟨?_, replies_append, ?_⟩
  · rw [after_append, after_append, through]
  · rw [replies_append, told]
    rfl

example : replies answer empty [.reserve, .reserve, .release 0, .release 7, .reserve]
    = [.gave 0, .gave 1, .freed, .refused "release of slot 7 that is not reserved", .gave 0] := rfl

/-! What calls leave. -/

theorem Counted.answer (counted : pool.Counted) (call : Call) : (pool.answer call).2.Counted := by
  cases call with
  | reserve => exact counted.reserve
  | release slot =>
    simp only [SlotPool.answer]
    split
    · rename_i released
      exact counted.release released
    · exact counted

theorem Counted.after (counted : pool.Counted) (calls : List Call) :
    (after SlotPool.answer pool calls).Counted := by
  induction calls generalizing pool with
  | nil => exact counted
  | cons call rest ih => exact ih (counted.answer call)

theorem highWater_released (pool : SlotPool) (slot : Slot) :
    (pool.answer (.release slot)).2.highWater = pool.highWater := by
  simp only [answer]
  split
  · rename_i released
    exact highWater_release released
  · rfl

theorem highWater_after (pool : SlotPool) (calls : List Call) :
    pool.highWater ≤ (after answer pool calls).highWater := by
  induction calls generalizing pool with
  | nil => exact Nat.le_refl _
  | cons call rest ih =>
    refine Nat.le_trans ?_ (ih (pool.answer call).2)
    cases call with
    | reserve => exact highWater_reserve pool
    | release slot => exact Nat.le_of_eq (highWater_released pool slot).symm

/-! Races for slots. -/

open World

theorem after_reserveMany (n : Nat) (pool : SlotPool) :
    (reserveMany n pool).2 = after answer pool (List.replicate n .reserve) := by
  induction n with
  | zero => rfl
  | succ n ih =>
    rw [List.replicate_succ', after_append, ← ih]
    rfl

theorem after_releases (slots : List Slot) (pool : SlotPool) :
    slots.foldl (fun pool slot => (pool.release? slot).getD pool) pool
      = after answer pool (slots.map .release) := by
  induction slots generalizing pool with
  | nil => rfl
  | cons slot rest ih =>
    have first : (pool.release? slot).getD pool = (pool.answer (.release slot)).2 := by
      simp only [answer]
      cases pool.release? slot <;> rfl
    rw [List.foldl_cons, ih, first]
    rfl

-- A race is so many calls.
theorem after_race (n : Nat) (pool : SlotPool) : ∃ calls,
    (reserveMany n pool).1.foldl (fun pool slot => (pool.release? slot).getD pool) (reserveMany n pool).2
      = after answer pool calls := by
  refine ⟨List.replicate n .reserve ++ (reserveMany n pool).1.map .release, ?_⟩
  rw [after_releases, after_append, ← after_reserveMany]

end AttachedState.SlotPool
