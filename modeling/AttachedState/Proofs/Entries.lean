import AttachedState.HandleMap
import AttachedState.Proofs.Tickets

/-!
What a map of handles holds.  Each operation is described by the entry that every ticket has after
it; that the index never misses an entry, nor keeps one that is gone, is an invariant of the two
structures together and holds for every hash function.
-/

namespace AttachedState.HandleMap

variable {α : Type} {m rest grown : HandleMap α} {h other : Handle} {value : α} {t u : Ticket}

-- Index and rows name the same tickets, a ticket is filed once and under the hash of its handle,
-- and no handle has two rows.
structure Valid (m : HandleMap α) : Prop where
  rows : m.rows.Valid
  once : m.index.Nodup
  filed : ∀ t row, m.rows.get? t = some row → (row.hash, t) ∈ m.index ∧ row.hash = m.hash row.handle
  found : ∀ hash t, (hash, t) ∈ m.index → ∃ row, m.rows.get? t = some row ∧ row.hash = hash
  apart : ∀ t u row other, m.rows.get? t = some row → m.rows.get? u = some other →
    row.handle = other.handle → t = u

theorem valid_empty (hash : Handle → UInt64) : (empty hash : HandleMap α).Valid := by
  refine ⟨Arena.valid_empty, List.nodup_nil, ?_, ?_, ?_⟩
  · intro t row found
    obtain ⟨offset, _, here⟩ := Arena.get?_eq_some found
    cases here
  · intro hash t listed
    cases listed
  · intro t u row other found
    obtain ⟨offset, _, here⟩ := Arena.get?_eq_some found
    cases here

theorem entry?_eq_some : m.entry? t = some (h, value) ↔
    ∃ row, m.rows.get? t = some row ∧ row.handle = h ∧ row.value = value := by
  simp only [ entry?, Option.map_eq_some_iff, Prod.mk.injEq]

theorem entry?_empty (hash : Handle → UInt64) (t : Ticket) :
    HandleMap.entry? (empty hash : HandleMap α) t = none := by
  cases found : HandleMap.entry? (empty hash : HandleMap α) t with
  | none => rfl
  | some entry =>
    obtain ⟨row, stored, _⟩ := entry?_eq_some.mp found
    obtain ⟨offset, _, here⟩ := Arena.get?_eq_some stored
    cases here

theorem entry?_unique (valid : m.Valid) {v w : α} (one : m.entry? t = some (h, v))
    (two : m.entry? u = some (h, w)) : t = u := by
  obtain ⟨row, stored, named, _⟩ := entry?_eq_some.mp one
  obtain ⟨row', stored', named', _⟩ := entry?_eq_some.mp two
  exact valid.apart _ _ _ _ stored stored' (named.trans named'.symm)

/-! Looking handles up. -/

theorem find?_eq_some_iff (valid : m.Valid) :
    m.find? h = some t ↔ ∃ value, m.entry? t = some (h, value) := by
  constructor
  · intro found
    simp only [find?, Option.map_eq_some_iff] at found
    obtain ⟨⟨filed, ticket⟩, first, rfl⟩ := found
    have matching := List.find?_some first
    simp only [Bool.and_eq_true, Option.any_eq_true] at matching
    obtain ⟨_, row, stored, same⟩ := matching
    exact ⟨row.value, entry?_eq_some.mpr ⟨row, stored, by simpa using same, rfl⟩⟩
  · rintro ⟨value, held⟩
    obtain ⟨row, stored, named, _⟩ := entry?_eq_some.mp held
    obtain ⟨listed, hashed⟩ := valid.filed t row stored
    -- The search stops at some entry of the handle; there is only one.
    have matching : (row.hash == m.hash h && (m.rows.get? t).any (·.handle == h)) = true := by
      simp [stored, named, hashed]
    cases search : m.index.find? fun key =>
        key.1 == m.hash h && (m.rows.get? key.2).any (·.handle == h) with
    | none => exact absurd matching (List.find?_eq_none.mp search _ listed)
    | some first =>
      obtain ⟨filed, ticket⟩ := first
      have stopped := List.find?_some search
      simp only [Bool.and_eq_true, Option.any_eq_true] at stopped
      obtain ⟨_, row', stored', same⟩ := stopped
      have equal : ticket = t :=
        valid.apart _ _ _ _ stored' stored (by simpa [named] using same)
      simp only [find?, search, Option.map_some, equal]

theorem get?_eq_some_iff (valid : m.Valid) :
    m.get? h = some value ↔ ∃ t, m.entry? t = some (h, value) := by
  simp only [get?, Option.bind_eq_some_iff, Option.map_eq_some_iff, find?_eq_some_iff valid]
  constructor
  · rintro ⟨t, ⟨v, held⟩, ⟨handle, w⟩, again, rfl⟩
    rw [held] at again
    cases again
    exact ⟨t, held⟩
  · rintro ⟨t, held⟩
    exact ⟨t, ⟨value, held⟩, (h, value), held, rfl⟩

theorem get?_eq_none_iff (valid : m.Valid) :
    m.get? h = none ↔ ∀ t value, m.entry? t ≠ some (h, value) := by
  rw [Option.eq_none_iff_forall_not_mem]
  simp only [Option.mem_def, get?_eq_some_iff valid]
  exact ⟨fun none t value held => none value ⟨t, held⟩, fun none value ⟨t, held⟩ => none t value held⟩

theorem contains_iff (valid : m.Valid) : m.contains h = true ↔ ∃ value, m.get? h = some value := by
  simp only [contains, Option.isSome_iff_exists, find?_eq_some_iff valid, get?_eq_some_iff valid]
  exact exists_comm

theorem contains_eq_isSome (valid : m.Valid) : m.contains h = (m.get? h).isSome := by
  rw [Bool.eq_iff_iff, contains_iff valid, Option.isSome_iff_exists]

/-! Insertion. -/

theorem insert_eq_ok : m.insert h value = .ok (t, grown) ↔ m.contains h = false ∧
    t = (m.rows.insert ⟨h, value, m.hash h⟩).1 ∧
    grown = ⟨m.hash, (m.hash h, t) :: m.index, (m.rows.insert ⟨h, value, m.hash h⟩).2⟩ := by
  unfold insert
  cases there : m.contains h with
  | true => simp
  | false =>
    simp only [Bool.false_eq_true, if_false, Except.ok.injEq, Prod.mk.injEq, true_and]
    constructor
    · rintro ⟨rfl, rfl⟩
      exact ⟨rfl, rfl⟩
    · rintro ⟨rfl, rfl⟩
      exact ⟨rfl, rfl⟩

theorem insert_of_contains (there : m.contains h = true) (value : α) :
    m.insert h value = .error ⟨value⟩ := if_pos there

theorem insert_eq_error {back : Rejected α} (refused : m.insert h value = .error back) :
    m.contains h = true ∧ back = ⟨value⟩ := by
  unfold insert at refused
  split at refused
  · rename_i there
    cases refused
    exact ⟨there, rfl⟩
  · cases refused

theorem entry?_insert (valid : m.Valid) (inserted : m.insert h value = .ok (t, grown)) (u : Ticket) :
    grown.entry? u = if u = t then some (h, value) else m.entry? u := by
  obtain ⟨_, rfl, rfl⟩ := insert_eq_ok.mp inserted
  simp only [ entry?, Arena.get?_insert valid.rows]
  split <;> rfl

theorem entry?_fresh (valid : m.Valid) (inserted : m.insert h value = .ok (t, grown)) :
    m.entry? t = none := by
  obtain ⟨_, rfl, rfl⟩ := insert_eq_ok.mp inserted
  simp only [ entry?, Arena.get?_insert_fresh valid.rows, Option.map_none]

theorem get?_fresh (valid : m.Valid) (inserted : m.insert h value = .ok (t, grown)) :
    m.get? h = none := by
  obtain ⟨absent, _, _⟩ := insert_eq_ok.mp inserted
  rw [contains_eq_isSome valid] at absent
  simpa using absent

theorem valid_insert (valid : m.Valid) (inserted : m.insert h value = .ok (t, grown)) : grown.Valid := by
  have absent := (get?_eq_none_iff valid).mp (get?_fresh valid inserted)
  obtain ⟨_, rfl, rfl⟩ := insert_eq_ok.mp inserted
  have found := Arena.get?_insert valid.rows (⟨h, value, m.hash h⟩ : Row α)
  have fresh := Arena.get?_insert_fresh valid.rows (⟨h, value, m.hash h⟩ : Row α)
  have noOther : ∀ u row, m.rows.get? u = some row → row.handle ≠ h := by
    intro u row stored same
    exact absent u row.value (entry?_eq_some.mpr ⟨row, stored, same, rfl⟩)
  refine ⟨Arena.valid_insert valid.rows _, ?_, ?_, ?_, ?_⟩
  · refine List.nodup_cons.mpr ⟨?_, valid.once⟩
    intro listed
    obtain ⟨row, stored, _⟩ := valid.found _ _ listed
    rw [fresh] at stored
    cases stored
  · intro u row stored
    rw [found] at stored
    split at stored
    · rename_i new
      cases stored
      subst new
      exact ⟨List.mem_cons_self, rfl⟩
    · obtain ⟨listed, hashed⟩ := valid.filed u row stored
      exact ⟨List.mem_cons_of_mem _ listed, hashed⟩
  · intro hash u listed
    rcases List.mem_cons.mp listed with new | earlier
    · cases new
      exact ⟨_, by rw [found, if_pos rfl], rfl⟩
    · obtain ⟨row, stored, hashed⟩ := valid.found hash u earlier
      refine ⟨row, ?_, hashed⟩
      rw [found, if_neg]
      · exact stored
      · intro new
        rw [new, fresh] at stored
        cases stored
  · intro u v row other stored stored' same
    rw [found] at stored stored'
    split at stored <;> split at stored'
    · rename_i left right
      exact left.trans right.symm
    · cases stored
      exact absurd same.symm (noOther _ _ stored')
    · cases stored'
      exact absurd same (noOther _ _ stored)
    · exact valid.apart u v row other stored stored' same

theorem get?_insert (valid : m.Valid) (inserted : m.insert h value = .ok (t, grown)) (other : Handle) :
    grown.get? other = if other = h then some value else m.get? other := by
  have entries := entry?_insert valid inserted
  have fresh := entry?_fresh valid inserted
  have grownValid := valid_insert valid inserted
  split
  · rename_i same
    subst same
    exact (get?_eq_some_iff grownValid).mpr ⟨t, by rw [entries, if_pos rfl]⟩
  · rename_i different
    apply Option.ext
    intro v
    rw [get?_eq_some_iff grownValid, get?_eq_some_iff valid]
    constructor
    · rintro ⟨u, held⟩
      rw [entries] at held
      split at held
      · cases held
        exact absurd rfl different
      · exact ⟨u, held⟩
    · rintro ⟨u, held⟩
      refine ⟨u, ?_⟩
      rw [entries, if_neg]
      · exact held
      · intro new
        rw [new, fresh] at held
        cases held

theorem size_insert (valid : m.Valid) (inserted : m.insert h value = .ok (t, grown)) :
    grown.size = m.size + 1 := by
  obtain ⟨_, rfl, rfl⟩ := insert_eq_ok.mp inserted
  exact Arena.size_insert valid.rows _

/-! Removal. -/

theorem remove?_eq_some (removed : m.remove? t = some ((h, value), rest)) :
    ∃ row, m.rows.remove? t = some (row, rest.rows) ∧ row.handle = h ∧ row.value = value ∧
      rest.hash = m.hash ∧ rest.index = m.index.erase (row.hash, t) := by
  simp only [remove?, Option.map_eq_some_iff, Prod.mk.injEq] at removed
  obtain ⟨⟨row, rows⟩, took, ⟨rfl, rfl⟩, rfl⟩ := removed
  exact ⟨row, took, rfl, rfl, rfl, rfl⟩

theorem entry?_of_remove? (removed : m.remove? t = some ((h, value), rest)) :
    m.entry? t = some (h, value) := by
  obtain ⟨row, took, named, valued, _⟩ := remove?_eq_some removed
  exact entry?_eq_some.mpr ⟨row, (Arena.remove?_eq_some.mp took).1, named, valued⟩

theorem remove?_of_entry? (held : m.entry? t = some (h, value)) :
    ∃ rest, m.remove? t = some ((h, value), rest) := by
  obtain ⟨row, stored, rfl, rfl⟩ := entry?_eq_some.mp held
  obtain ⟨rows, took⟩ := Arena.remove?_of_get? stored
  exact ⟨_, by simp [remove?, took]; rfl⟩

theorem remove?_eq_none_iff : m.remove? t = none ↔ m.entry? t = none := by
  simp only [remove?, Option.map_eq_none_iff, Arena.remove?_eq_none_iff, entry?]

theorem entry?_remove (removed : m.remove? t = some ((h, value), rest)) (u : Ticket) :
    rest.entry? u = if u = t then none else m.entry? u := by
  obtain ⟨row, took, _⟩ := remove?_eq_some removed
  simp only [ entry?, Arena.get?_remove took]
  split <;> rfl

theorem valid_remove (valid : m.Valid) (removed : m.remove? t = some ((h, value), rest)) :
    rest.Valid := by
  obtain ⟨row, took, _, _, hash, index⟩ := remove?_eq_some removed
  have left := Arena.get?_remove took
  have before := (Arena.remove?_eq_some.mp took).1
  have stays : ∀ u other, rest.rows.get? u = some other → u ≠ t ∧ m.rows.get? u = some other := by
    intro u other stored
    rw [left] at stored
    split at stored
    · cases stored
    · rename_i apart
      exact ⟨apart, stored⟩
  refine ⟨Arena.valid_remove valid.rows took, ?_, ?_, ?_, ?_⟩
  · rw [index]
    exact valid.once.erase _
  · intro u other stored
    obtain ⟨apart, stored⟩ := stays u other stored
    obtain ⟨listed, hashed⟩ := valid.filed u other stored
    rw [index, hash]
    refine ⟨(List.mem_erase_of_ne ?_).mpr listed, hashed⟩
    intro same
    exact apart (Prod.mk.inj same).2
  · intro filed u listed
    rw [index, valid.once.mem_erase_iff] at listed
    obtain ⟨different, listed⟩ := listed
    obtain ⟨other, stored, hashed⟩ := valid.found filed u listed
    refine ⟨other, ?_, hashed⟩
    rw [left, if_neg]
    · exact stored
    · rintro rfl
      rw [before, Option.some.injEq] at stored
      exact different (by rw [← hashed, stored])
  · intro u v one two stored stored' same
    exact valid.apart u v one two (stays u one stored).2 (stays v two stored').2 same

theorem get?_remove (valid : m.Valid) (removed : m.remove? t = some ((h, value), rest))
    (other : Handle) : rest.get? other = if other = h then none else m.get? other := by
  have entries := entry?_remove removed
  have before := entry?_of_remove? removed
  have leftValid := valid_remove valid removed
  split
  · rename_i same
    subst same
    rw [get?_eq_none_iff leftValid]
    intro u v held
    rw [entries] at held
    split at held
    · cases held
    · rename_i different
      exact different (entry?_unique valid held before)
  · rename_i different
    apply Option.ext
    intro v
    rw [get?_eq_some_iff leftValid, get?_eq_some_iff valid]
    constructor
    · rintro ⟨u, held⟩
      rw [entries] at held
      split at held
      · cases held
      · exact ⟨u, held⟩
    · rintro ⟨u, held⟩
      refine ⟨u, ?_⟩
      rw [entries, if_neg]
      · exact held
      · rintro rfl
        rw [before] at held
        cases held
        exact different rfl

theorem size_remove (removed : m.remove? t = some ((h, value), rest)) : rest.size + 1 = m.size := by
  obtain ⟨row, took, _⟩ := remove?_eq_some removed
  exact Arena.size_remove took

/-! The list of entries. -/

theorem mem_toList : (t, h, value) ∈ m.toList ↔ m.entry? t = some (h, value) := by
  simp only [toList, List.mem_map, entry?_eq_some]
  constructor
  · rintro ⟨⟨ticket, row⟩, listed, same⟩
    cases same
    exact ⟨row, Arena.mem_toList.mp listed, rfl, rfl⟩
  · rintro ⟨row, stored, rfl, rfl⟩
    exact ⟨(t, row), Arena.mem_toList.mpr stored, rfl⟩

end AttachedState.HandleMap
