import Mathlib
import AttachedState.Table

/-!
Tables in which no key has two rows.  Of such a table a row is there exactly if its key stands for
its value, so what is asked of all rows can be asked of the keys.
-/

namespace AttachedState

/-! Lists of which each element is to have a value. -/

section Values

variable {α β : Type} {f : α → Option β} {elements : List α} {values : List β}

theorem map_of_mapM (all : elements.mapM f = some values) : elements.map f = values.map some := by
  induction elements generalizing values with
  | nil =>
    cases all
    rfl
  | cons element rest ih =>
    simp only [List.mapM_cons, Option.bind_eq_bind, Option.bind_eq_some_iff, Option.pure_def,
      Option.some.injEq] at all
    obtain ⟨value, found, others, later, rfl⟩ := all
    rw [List.map_cons, List.map_cons, found, ih later]

theorem exists_mapM (all : ∀ element ∈ elements, (f element).isSome = true) :
    ∃ values, elements.mapM f = some values := by
  induction elements with
  | nil => exact ⟨[], rfl⟩
  | cons element rest ih =>
    obtain ⟨value, found⟩ := Option.isSome_iff_exists.mp (all element List.mem_cons_self)
    obtain ⟨others, later⟩ := ih fun other listed => all other (List.mem_cons_of_mem _ listed)
    exact ⟨value :: others, by rw [List.mapM_cons, found, later]; rfl⟩

end Values

namespace Table

variable {κ α : Type} [DecidableEq κ] {t : Table κ α} {key other : κ} {value : α}

-- A table that was put together by `put` and `erase` alone never lists a key twice.  A row behind
-- another of the same key would be shadowed for `find?`, but not for `any` and `total`.
def Distinct (t : Table κ α) : Prop := (t.rows.map Prod.fst).Nodup

omit [DecidableEq κ] in
theorem distinct_empty : (empty : Table κ α).Distinct := List.nodup_nil

theorem keys_putRow (rows : List (κ × α)) (key : κ) (value : α) :
    (putRow key value rows).map Prod.fst
      = if key ∈ rows.map Prod.fst then rows.map Prod.fst else rows.map Prod.fst ++ [key] := by
  induction rows with
  | nil => simp [putRow]
  | cons row rest ih =>
    by_cases same : row.1 = key
    · simp [putRow, same]
    · have apart : key ≠ row.1 := fun e => same e.symm
      simp only [putRow, same, if_false, List.map_cons, ih, List.mem_cons, apart, false_or]
      split <;> simp

theorem Distinct.put (distinct : t.Distinct) (key : κ) (value : α) : (t.put key value).Distinct := by
  unfold Distinct Table.put
  rw [keys_putRow]
  split
  · exact distinct
  · rename_i absent
    refine List.nodup_append.mpr ⟨distinct, by simp, ?_⟩
    intro a listed b last equal
    rw [List.mem_singleton] at last
    exact absent (last ▸ equal ▸ listed)

theorem Distinct.erase (distinct : t.Distinct) (key : κ) : (t.erase key).Distinct := by
  have sub : (t.erase key).rows.Sublist t.rows := List.filter_sublist
  exact List.Nodup.sublist (sub.map _) distinct

theorem mem_of_find? (found : t.find? key = some value) : (key, value) ∈ t.rows := by
  simp only [find?, Option.map_eq_some_iff] at found
  obtain ⟨row, first, rfl⟩ := found
  have here := List.find?_some first
  have listed := List.mem_of_find?_eq_some first
  have named : row.1 = key := by simpa using here
  rw [← named]
  exact listed

theorem find?_of_mem (distinct : t.Distinct) (listed : (key, value) ∈ t.rows) :
    t.find? key = some value := by
  obtain ⟨rows⟩ := t
  induction rows with
  | nil => cases listed
  | cons row rest ih =>
    unfold Distinct at distinct
    rw [List.map_cons, List.nodup_cons] at distinct
    obtain ⟨fresh, later⟩ := distinct
    rcases List.mem_cons.mp listed with head | tail
    · subst head
      simp [find?]
    · have apart : row.1 ≠ key := by
        intro same
        exact fresh (same ▸ List.mem_map_of_mem (f := Prod.fst) tail)
      have behind := ih later tail
      simpa [find?, apart] using behind

theorem mem_keysWhere (distinct : t.Distinct) {p : α → Bool} :
    key ∈ t.keysWhere p ↔ ∃ value, t.find? key = some value ∧ p value = true := by
  simp only [keysWhere, List.mem_map, List.mem_filter]
  constructor
  · rintro ⟨⟨key, value⟩, ⟨listed, holds⟩, rfl⟩
    exact ⟨value, find?_of_mem distinct listed, holds⟩
  · rintro ⟨value, found, holds⟩
    exact ⟨(key, value), ⟨mem_of_find? found, holds⟩, rfl⟩

theorem any_iff (distinct : t.Distinct) {p : α → Bool} :
    t.any p = true ↔ ∃ key value, t.find? key = some value ∧ p value = true := by
  simp only [any, List.any_eq_true]
  constructor
  · rintro ⟨⟨key, value⟩, listed, holds⟩
    exact ⟨key, value, find?_of_mem distinct listed, holds⟩
  · rintro ⟨key, value, found, holds⟩
    exact ⟨(key, value), mem_of_find? found, holds⟩

theorem contains_iff : t.contains key = true ↔ ∃ value, t.find? key = some value := by
  simp only [contains, Option.isSome_iff_exists]

theorem not_contains_iff : t.contains key = false ↔ t.find? key = none := by
  simp only [contains, Option.isSome_eq_false_iff, Option.isNone_iff_eq_none]

theorem find?_put (t : Table κ α) (key other : κ) (value : α) :
    (t.put key value).find? other = if other = key then some value else t.find? other := by
  split
  · rename_i same
    subst same
    exact t.find?_put_self _ _
  · rename_i apart
    exact t.find?_put_of_ne _ apart

theorem find?_erase (t : Table κ α) (key other : κ) :
    (t.erase key).find? other = if other = key then none else t.find? other := by
  split
  · rename_i same
    subst same
    exact t.find?_erase_self _
  · rename_i apart
    exact t.find?_erase_of_ne apart

-- A key that is put into a table where it stood for nothing adds a row and moves none.
theorem rows_put (absent : t.find? key = none) : (t.put key value).rows = t.rows ++ [(key, value)] := by
  obtain ⟨rows⟩ := t
  induction rows with
  | nil => rfl
  | cons row rest ih =>
    by_cases same : row.1 = key
    · simp [find?, same] at absent
    · have later : (⟨rest⟩ : Table κ α).find? key = none := by simpa [find?, same] using absent
      have behind : putRow key value rest = rest ++ [(key, value)] := ih later
      simp [Table.put, putRow, same, behind]

-- Erasing a key takes its one row out from between the others.
theorem rows_erase (distinct : t.Distinct) (found : t.find? key = some value) :
    ∃ front back, t.rows = front ++ (key, value) :: back ∧ (t.erase key).rows = front ++ back := by
  obtain ⟨front, back, split⟩ := List.append_of_mem (mem_of_find? found)
  have keys : ((front ++ (key, value) :: back).map Prod.fst).Nodup := by rw [← split]; exact distinct
  rw [List.map_append, List.map_cons, List.nodup_append] at keys
  obtain ⟨_, backKeys, apart⟩ := keys
  rw [List.nodup_cons] at backKeys
  refine ⟨front, back, split, ?_⟩
  have inFront : ∀ row ∈ front, row.1 ≠ key := by
    intro row listed
    exact apart _ (List.mem_map_of_mem listed) key (by simp)
  have inBack : ∀ row ∈ back, row.1 ≠ key := by
    intro row listed same
    have here := List.mem_map_of_mem (f := Prod.fst) listed
    rw [same] at here
    exact backKeys.1 here
  simp only [Table.erase, split, List.filter_append, List.filter_cons]
  rw [List.filter_eq_self.mpr (by simpa using inFront), List.filter_eq_self.mpr (by simpa using inBack)]
  simp

theorem contains_put (t : Table κ α) (key other : κ) (value : α) :
    (t.put key value).contains other = (decide (other = key) || t.contains other) := by
  simp only [contains, find?_put]
  by_cases same : other = key <;> simp [same]

theorem contains_erase (t : Table κ α) (key other : κ) :
    (t.erase key).contains other = (!decide (other = key) && t.contains other) := by
  simp only [contains, find?_erase]
  by_cases same : other = key <;> simp [same]

-- What holds of some value holds of the one that the key stands for, or of another.
theorem any_erase (distinct : t.Distinct) (key : κ) (p : α → Bool) :
    t.any p = ((t.find? key).any p || (t.erase key).any p) := by
  rw [Bool.eq_iff_iff, Bool.or_eq_true, any_iff distinct, any_iff (distinct.erase key),
    Option.any_eq_true]
  constructor
  · rintro ⟨other, value, found, holds⟩
    by_cases same : other = key
    · exact .inl ⟨value, same ▸ found, holds⟩
    · exact .inr ⟨other, value, by rw [find?_erase, if_neg same, found], holds⟩
  · rintro (⟨value, found, holds⟩ | ⟨other, value, found, holds⟩)
    · exact ⟨key, value, found, holds⟩
    · rw [find?_erase] at found
      split at found
      · cases found
      · exact ⟨other, value, found, holds⟩

theorem any_put (distinct : t.Distinct) (key : κ) (value : α) (p : α → Bool) :
    (t.put key value).any p = (p value || (t.erase key).any p) := by
  have same : ((t.put key value).erase key).any p = (t.erase key).any p := by
    rw [Bool.eq_iff_iff, any_iff ((distinct.put key value).erase key), any_iff (distinct.erase key)]
    refine exists_congr fun other => exists_congr fun value => and_congr_left fun _ => ?_
    rw [find?_erase, find?_erase, find?_put]
    by_cases here : other = key <;> simp [here]
  rw [any_erase (distinct.put key value) key, same, find?_put, if_pos rfl]
  rfl

omit [DecidableEq κ] in
theorem total_eq_sum (t : Table κ α) (f : α → Nat) : t.total f = (t.rows.map (f ·.2)).sum := by
  rw [total, List.sum_eq_foldr, List.foldr_map]

theorem total_erase (distinct : t.Distinct) (found : t.find? key = some value) (f : α → Nat) :
    (t.erase key).total f + f value = t.total f := by
  obtain ⟨front, back, whole, left⟩ := rows_erase distinct found
  simp only [total_eq_sum, whole, left, List.map_append, List.map_cons, List.sum_append,
    List.sum_cons]
  omega

theorem total_put_absent (absent : t.find? key = none) (value : α) (f : α → Nat) :
    (t.put key value).total f = t.total f + f value := by
  have moved := t.total_put key value f
  rw [absent] at moved
  simpa using moved

/-! A table of those values only that stand for something else. -/

section Narrow

variable {β : Type} {f g : α → Option β}

def narrow (t : Table κ α) (f : α → Option β) : Table κ β :=
  ⟨t.rows.filterMap fun row => (f row.2).map fun value => (row.1, value)⟩

omit [DecidableEq κ] in
theorem mem_narrow {value : β} :
    (key, value) ∈ (t.narrow f).rows ↔ ∃ old, (key, old) ∈ t.rows ∧ f old = some value := by
  constructor
  · intro listed
    obtain ⟨⟨other, old⟩, there, named⟩ := List.mem_filterMap.mp listed
    obtain ⟨_, stands, same⟩ := Option.map_eq_some_iff.mp named
    cases same
    exact ⟨old, there, stands⟩
  · rintro ⟨old, there, stands⟩
    refine List.mem_filterMap.mpr ⟨(key, old), there, ?_⟩
    simp only [stands, Option.map_some]

omit [DecidableEq κ] in
theorem Distinct.narrow (distinct : t.Distinct) (f : α → Option β) : (t.narrow f).Distinct := by
  unfold Distinct List.Nodup Table.narrow at *
  rw [List.pairwise_map] at distinct ⊢
  rw [List.pairwise_filterMap]
  refine distinct.imp fun {row other} apart one here two there => ?_
  obtain ⟨_, _, rfl⟩ := Option.map_eq_some_iff.mp here
  obtain ⟨_, _, rfl⟩ := Option.map_eq_some_iff.mp there
  exact apart

theorem find?_narrow (distinct : t.Distinct) (f : α → Option β) (key : κ) :
    (t.narrow f).find? key = (t.find? key).bind f := by
  refine Option.ext fun value => ?_
  rw [Option.bind_eq_some_iff]
  constructor
  · intro found
    obtain ⟨old, listed, stands⟩ := mem_narrow.mp (mem_of_find? found)
    exact ⟨old, find?_of_mem distinct listed, stands⟩
  · rintro ⟨old, found, stands⟩
    exact find?_of_mem (distinct.narrow f) (mem_narrow.mpr ⟨old, mem_of_find? found, stands⟩)

omit [DecidableEq κ] in
theorem any_narrow (t : Table κ α) (f : α → Option β) (p : β → Bool) :
    (t.narrow f).any p = t.any fun value => (f value).any p := by
  obtain ⟨rows⟩ := t
  induction rows with
  | nil => rfl
  | cons row rest ih =>
    cases stands : f row.2 <;> simp_all [narrow, any]

omit [DecidableEq κ] in
theorem keysWhere_narrow (t : Table κ α) (f : α → Option β) (p : β → Bool) :
    (t.narrow f).keysWhere p = t.keysWhere fun value => (f value).any p := by
  obtain ⟨rows⟩ := t
  induction rows with
  | nil => rfl
  | cons row rest ih =>
    cases stands : f row.2 with
    | none => simp_all [narrow, keysWhere]
    | some value => cases holds : p value <;> simp_all [narrow, keysWhere]

omit [DecidableEq κ] in
theorem narrow_congr (same : ∀ row ∈ t.rows, f row.2 = g row.2) : t.narrow f = t.narrow g := by
  unfold narrow
  refine congrArg _ (List.filterMap_congr fun row listed => ?_)
  rw [same row listed]

theorem narrow_put_some {value' : β} (kept : ∀ old, t.find? key = some old → (f old).isSome = true)
    (stands : f value = some value') : (t.put key value).narrow f = (t.narrow f).put key value' := by
  obtain ⟨rows⟩ := t
  induction rows with
  | nil => simp [put, putRow, narrow, stands]
  | cons row rest ih =>
    by_cases same : row.1 = key
    · obtain ⟨old, stood⟩ := Option.isSome_iff_exists.mp (kept row.2 (by simp [find?, same]))
      simp [put, putRow, narrow, same, stands, stood]
    · have later := ih fun old found => kept old (by simpa [find?, same] using found)
      cases stood : f row.2 <;> simp_all [put, putRow, narrow]

theorem narrow_put_none (gone : ∀ old, t.find? key = some old → f old = none) (stands : f value = none) :
    (t.put key value).narrow f = t.narrow f := by
  obtain ⟨rows⟩ := t
  induction rows with
  | nil => simp [put, putRow, narrow, stands]
  | cons row rest ih =>
    by_cases same : row.1 = key
    · have stood : f row.2 = none := gone row.2 (by simp [find?, same])
      simp [put, putRow, narrow, same, stands, stood]
    · have later := ih fun old found => gone old (by simpa [find?, same] using found)
      cases stood : f row.2 <;> simp_all [put, putRow, narrow]

theorem narrow_erase (t : Table κ α) (f : α → Option β) (key : κ) :
    (t.erase key).narrow f = (t.narrow f).erase key := by
  obtain ⟨rows⟩ := t
  induction rows with
  | nil => rfl
  | cons row rest ih =>
    by_cases same : row.1 = key <;> cases stands : f row.2 <;> simp_all [narrow, erase]

-- A row that was left out is not missed.
theorem narrow_erase_none (distinct : t.Distinct) (gone : ∀ old, t.find? key = some old → f old = none) :
    (t.erase key).narrow f = t.narrow f := by
  have stood : ∀ row ∈ t.rows, row.1 = key → f row.2 = none := fun row listed same =>
    gone row.2 (find?_of_mem distinct (same ▸ listed))
  obtain ⟨rows⟩ := t
  unfold narrow erase
  congr 1
  rw [List.filterMap_filter]
  refine List.filterMap_congr fun row listed => ?_
  by_cases same : row.1 = key
  · simp [same, stood row listed same]
  · simp [same]

end Narrow

end Table

end AttachedState
