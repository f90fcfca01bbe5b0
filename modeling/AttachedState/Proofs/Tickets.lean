import AttachedState.Arena

/-!
What tickets find.  Each operation of an arena is described by the value that every ticket finds
after it; the places, their versions and the list of vacant ones do not show outside this module.
-/

namespace AttachedState.Arena

variable {α : Type} {a rest : Arena α} {t other : Ticket} {value old : α}

-- The vacant offsets are those of the places that hold nothing, each of them once.  So the place
-- that is filled next holds nothing that a ticket could still find.
structure Valid (a : Arena α) : Prop where
  once : a.vacant.Nodup
  vacant_iff : ∀ offset, offset ∈ a.vacant ↔ ∃ cell, a.cells[offset]? = some cell ∧ cell.content = none

theorem get?_zero (version : UInt32) : a.get? ⟨0, version⟩ = none := rfl

theorem get?_succ (offset : Nat) (version : UInt32) :
    a.get? ⟨offset + 1, version⟩
      = (a.cells[offset]?).bind fun cell => if cell.version = version then cell.content else none := by
  simp only [get?, cell?]
  cases a.cells[offset]? <;> rfl

theorem get?_eq_some (found : a.get? t = some value) :
    ∃ offset, t.place = offset + 1 ∧ a.cells[offset]? = some ⟨t.version, some value⟩ := by
  obtain ⟨place, version⟩ := t
  cases place with
  | zero => cases found
  | succ offset =>
    rw [get?_succ, Option.bind_eq_some_iff] at found
    obtain ⟨⟨current, content⟩, here, stored⟩ := found
    split at stored
    · rename_i same
      cases same
      cases stored
      exact ⟨offset, rfl, here⟩
    · cases stored

theorem cell_of_get? (found : a.get? t = some value) :
    a.cells[t.place - 1]? = some ⟨t.version, some value⟩ := by
  obtain ⟨offset, place, here⟩ := get?_eq_some found
  rw [place]
  exact here

theorem get?_empty (t : Ticket) : (empty : Arena α).get? t = none := by
  unfold get? cell?
  cases t.place <;> rfl

theorem valid_empty : (empty : Arena α).Valid := ⟨List.nodup_nil, by simp [empty]⟩

-- What a ticket finds after one place was written anew.
theorem get?_set (cells : List (Cell α)) (vacant : List Nat) (offset : Nat) (cell : Cell α)
    (inside : offset < cells.length) (t : Ticket) :
    (⟨cells.set offset cell, vacant⟩ : Arena α).get? t
      = if t.place = offset + 1 then (if cell.version = t.version then cell.content else none)
        else (⟨cells, vacant⟩ : Arena α).get? t := by
  obtain ⟨place, version⟩ := t
  cases place with
  | zero => simp [get?_zero]
  | succ place =>
    simp only [get?_succ, Nat.add_right_cancel_iff]
    by_cases same : place = offset
    · subst same
      simp [List.getElem?_set_self inside]
    · rw [List.getElem?_set_ne (Ne.symm same), if_neg same]

/-! Insertion. -/

theorem get?_insert_vacant {offset : Nat} {vacant : List Nat} (valid : a.Valid)
    (free : a.vacant = offset :: vacant) :
    offset < a.cells.length ∧ ∀ version, a.get? ⟨offset + 1, version⟩ = none := by
  have listed : offset ∈ a.vacant := by rw [free]; exact List.mem_cons_self
  obtain ⟨cell, here, nothing⟩ := (valid.vacant_iff offset).mp listed
  have inside : offset < a.cells.length := by
    obtain ⟨bound, _⟩ := List.getElem?_eq_some_iff.mp here
    exact bound
  refine ⟨inside, ?_⟩
  intro version
  simp [get?_succ, here, nothing]

theorem get?_insert_new (t : Ticket) (cell : Cell α) :
    (⟨a.cells ++ [cell], a.vacant⟩ : Arena α).get? t
      = if t.place = a.cells.length + 1 then (if cell.version = t.version then cell.content else none)
        else a.get? t := by
  obtain ⟨place, version⟩ := t
  cases place with
  | zero => simp [get?_zero]
  | succ place =>
    simp only [get?_succ, Nat.add_right_cancel_iff]
    by_cases same : place = a.cells.length
    · subst same
      simp
    · rw [if_neg same]
      rcases Nat.lt_or_gt_of_ne same with before | after
      · rw [List.getElem?_append_left before]
      · rw [List.getElem?_eq_none (by simp; omega), List.getElem?_eq_none (by omega)]

-- The new ticket finds the value, and every other ticket what it found before.
theorem get?_insert (valid : a.Valid) (value : α) (t : Ticket) :
    (a.insert value).2.get? t = if t = (a.insert value).1 then some value else a.get? t := by
  obtain ⟨place, version⟩ := t
  unfold insert
  split
  · rw [get?_insert_new]
    by_cases same : place = a.cells.length + 1
    · subst same
      have none_before : a.get? ⟨a.cells.length + 1, version⟩ = none := by simp [get?_succ]
      by_cases first : (1 : UInt32) = version
      · simp [first]
      · have apart : version ≠ 1 := fun e => first e.symm
        simp [first, apart, none_before]
    · simp [same]
  · rename_i offset vacant free
    obtain ⟨inside, nothing⟩ := get?_insert_vacant valid free
    simp only [get?_set _ _ _ _ inside, Ticket.mk.injEq]
    by_cases same : place = offset + 1
    · subst same
      by_cases current : filledVersion ((a.cells[offset]?.map Cell.version).getD 0) = version
      · simp [current]
      · have apart : version ≠ filledVersion ((a.cells[offset]?.map Cell.version).getD 0) :=
          fun e => current e.symm
        simp [current, apart, nothing version]
    · simp only [same, if_false, false_and]
      rfl

theorem get?_insert_self (valid : a.Valid) (value : α) :
    (a.insert value).2.get? (a.insert value).1 = some value := by
  rw [get?_insert valid, if_pos rfl]

theorem get?_insert_fresh (valid : a.Valid) (value : α) : a.get? (a.insert value).1 = none := by
  unfold insert
  split
  · simp [get?_succ]
  · rename_i offset vacant free
    exact (get?_insert_vacant valid free).2 _

theorem valid_insert (valid : a.Valid) (value : α) : (a.insert value).2.Valid := by
  unfold insert
  split
  · rename_i full
    refine ⟨valid.once, ?_⟩
    intro offset
    have before := valid.vacant_iff offset
    rw [full] at before ⊢
    simp only [List.not_mem_nil, false_iff] at before ⊢
    rintro ⟨cell, here, nothing⟩
    rcases Nat.lt_trichotomy offset a.cells.length with left | same | right
    · rw [List.getElem?_append_left left] at here
      exact before ⟨cell, here, nothing⟩
    · subst same
      simp at here
      subst here
      cases nothing
    · rw [List.getElem?_eq_none (by simp; omega)] at here
      cases here
  · rename_i offset vacant free
    have once := valid.once
    rw [free, List.nodup_cons] at once
    have inside := (get?_insert_vacant valid free).1
    refine ⟨once.2, ?_⟩
    intro place
    have before := valid.vacant_iff place
    rw [free, List.mem_cons] at before
    by_cases same : place = offset
    · subst same
      simp [List.getElem?_set_self inside, once.1]
    · rw [List.getElem?_set_ne (Ne.symm same), ← before]
      simp [same]

theorem size_insert (valid : a.Valid) (value : α) : (a.insert value).2.size = a.size + 1 := by
  unfold insert
  split
  · simp [size]
  · rename_i offset vacant free
    have listed : offset ∈ a.vacant := by rw [free]; exact List.mem_cons_self
    obtain ⟨cell, here, nothing⟩ := (valid.vacant_iff offset).mp listed
    obtain ⟨inside, holds⟩ := List.getElem?_eq_some_iff.mp here
    simp only [size, List.countP_set inside, holds, nothing]
    simp

/-! Removal. -/

theorem remove?_eq_some :
    a.remove? t = some (value, rest) ↔ a.get? t = some value ∧
      rest = ⟨a.cells.set (t.place - 1) ⟨t.version + 1, none⟩, (t.place - 1) :: a.vacant⟩ := by
  simp only [remove?, Option.map_eq_some_iff, Prod.mk.injEq]
  constructor
  · rintro ⟨v, found, rfl, rfl⟩
    exact ⟨found, rfl⟩
  · rintro ⟨found, rfl⟩
    exact ⟨value, found, rfl, rfl⟩

theorem remove?_of_get? (found : a.get? t = some value) : ∃ rest, a.remove? t = some (value, rest) :=
  ⟨_, remove?_eq_some.mpr ⟨found, rfl⟩⟩

theorem remove?_eq_none_iff : a.remove? t = none ↔ a.get? t = none := by simp [remove?]

theorem get?_remove (removed : a.remove? t = some (value, rest)) (other : Ticket) :
    rest.get? other = if other = t then none else a.get? other := by
  obtain ⟨found, rfl⟩ := remove?_eq_some.mp removed
  obtain ⟨offset, place, here⟩ := get?_eq_some found
  obtain ⟨inside, _⟩ := List.getElem?_eq_some_iff.mp here
  have back : t.place - 1 = offset := by omega
  rw [back, get?_set _ _ _ _ inside]
  obtain ⟨place', version'⟩ := other
  obtain ⟨place₀, version₀⟩ := t
  simp only at place here
  subst place
  by_cases same : place' = offset + 1
  · subst same
    -- Another version of the same place found nothing before either.
    by_cases current : version' = version₀
    · simp [current]
    · have apart : version₀ ≠ version' := fun e => current e.symm
      simp [get?_succ, here, current, apart]
  · simp only [same, if_false, Ticket.mk.injEq, false_and]
    rfl

theorem valid_remove (valid : a.Valid) (removed : a.remove? t = some (value, rest)) : rest.Valid := by
  obtain ⟨found, rfl⟩ := remove?_eq_some.mp removed
  have here := cell_of_get? found
  obtain ⟨inside, _⟩ := List.getElem?_eq_some_iff.mp here
  refine ⟨?_, ?_⟩
  · refine List.nodup_cons.mpr ⟨?_, valid.once⟩
    intro listed
    obtain ⟨cell, same, nothing⟩ := (valid.vacant_iff _).mp listed
    rw [here, Option.some.injEq] at same
    subst same
    cases nothing
  · intro offset
    rw [List.mem_cons]
    by_cases same : offset = t.place - 1
    · subst same
      simp [List.getElem?_set_self inside]
    · rw [List.getElem?_set_ne (Ne.symm same), ← valid.vacant_iff]
      simp [same]

theorem size_remove (removed : a.remove? t = some (value, rest)) : rest.size + 1 = a.size := by
  obtain ⟨found, rfl⟩ := remove?_eq_some.mp removed
  have here := cell_of_get? found
  obtain ⟨inside, holds⟩ := List.getElem?_eq_some_iff.mp here
  have some_there : 0 < a.cells.countP (·.content.isSome) :=
    List.countP_pos_iff.mpr ⟨_, List.getElem_mem inside, by simp [holds]⟩
  simp only [size, List.countP_set inside, holds]
  simp
  omega

/-! Changing values where they lie. -/

theorem contains_iff : a.contains t = true ↔ ∃ value, a.get? t = some value := by
  simp only [contains, Option.isSome_iff_exists]

theorem get?_replace (found : a.get? t = some old) (value : α) (other : Ticket) :
    (a.replace t value).get? other = if other = t then some value else a.get? other := by
  obtain ⟨offset, place, here⟩ := get?_eq_some found
  obtain ⟨inside, _⟩ := List.getElem?_eq_some_iff.mp here
  have back : t.place - 1 = offset := by omega
  have there : a.contains t = true := contains_iff.mpr ⟨old, found⟩
  simp only [replace, there, if_true, back, get?_set _ _ _ _ inside]
  obtain ⟨place', version'⟩ := other
  obtain ⟨place₀, version₀⟩ := t
  simp only at place here
  subst place
  by_cases same : place' = offset + 1
  · subst same
    by_cases current : version' = version₀
    · simp [current]
    · have apart : version₀ ≠ version' := fun e => current e.symm
      simp [get?_succ, here, current, apart]
  · simp only [same, if_false, Ticket.mk.injEq, false_and]

theorem valid_replace (valid : a.Valid) (t : Ticket) (value : α) : (a.replace t value).Valid := by
  unfold replace
  split
  · rename_i there
    obtain ⟨old, found⟩ := contains_iff.mp there
    have here := cell_of_get? found
    obtain ⟨inside, _⟩ := List.getElem?_eq_some_iff.mp here
    refine ⟨valid.once, ?_⟩
    intro offset
    have before := valid.vacant_iff offset
    by_cases same : offset = t.place - 1
    · subst same
      rw [here] at before
      simpa [List.getElem?_set_self inside] using before
    · rw [List.getElem?_set_ne (Ne.symm same)]
      exact before
  · exact valid

theorem get?_map (f : α → α) (t : Ticket) : (a.map f).get? t = (a.get? t).map f := by
  obtain ⟨place, version⟩ := t
  cases place with
  | zero => rfl
  | succ offset =>
    simp only [get?_succ, map, List.getElem?_map]
    cases a.cells[offset]? with
    | none => rfl
    | some cell => by_cases same : cell.version = version <;> simp [same]

theorem valid_map (valid : a.Valid) (f : α → α) : (a.map f).Valid := by
  refine ⟨valid.once, ?_⟩
  intro offset
  simp only [map, valid.vacant_iff, List.getElem?_map]
  cases a.cells[offset]? with
  | none => simp
  | some cell => cases held : cell.content <;> simp [held]

/-! The list of what is stored. -/

theorem mem_toList : (t, value) ∈ a.toList ↔ a.get? t = some value := by
  simp only [toList, List.mem_filterMap]
  constructor
  · rintro ⟨⟨cell, offset⟩, listed, told⟩
    have here : a.cells[offset]? = some cell := by
      rw [← List.mk_mem_zipIdx_iff_getElem?]
      exact listed
    simp only [Option.map_eq_some_iff, Prod.mk.injEq] at told
    obtain ⟨v, held, rfl, rfl⟩ := told
    simp [get?_succ, here, held]
  · intro found
    obtain ⟨offset, place, here⟩ := get?_eq_some found
    refine ⟨(⟨t.version, some value⟩, offset), List.mk_mem_zipIdx_iff_getElem?.mpr here, ?_⟩
    obtain ⟨place', version⟩ := t
    simp only at place
    simp [place]

end AttachedState.Arena
