import AttachedState.Proofs.Entries
import AttachedState.Proofs.Scrubs

/-!
A map of handles against a plain list.  The list has a row for every entry, in order of place, and
answers every request by searching its rows; it has no index, no cached hash and no vacant place.
Whatever the hash function, a map gives the answers of the list, and the only thing the list leaves
open is which ticket a new row is given.  Not even that depends on the hash.
-/

namespace AttachedState

/-! What a map can be asked. -/

variable {α : Type}

inductive Request (α : Type) where
  | insert (h : Handle) (value : α)
  | remove (t : Ticket)
  | entry (t : Ticket)
  | find (h : Handle)
  | contains (h : Handle)
  | get (h : Handle)
  | iter
  | len

inductive Reply (α : Type) where
  | inserted (result : Except (Rejected α) Ticket)
  | removed (entry : Option (Handle × α))
  | entry (entry : Option (Handle × α))
  | found (ticket : Option Ticket)
  | contained (there : Bool)
  | got (value : Option α)
  | listed (rows : List (Ticket × Handle × α))
  | counted (count : Nat)

def HandleMap.answer (m : HandleMap α) : Request α → Reply α × HandleMap α
  | .insert h value =>
    match m.insert h value with
    | .error back => (.inserted (.error back), m)
    | .ok (ticket, grown) => (.inserted (.ok ticket), grown)
  | .remove t =>
    match m.remove? t with
    | none => (.removed none, m)
    | some (entry, rest) => (.removed (some entry), rest)
  | .entry t => (.entry (m.entry? t), m)
  | .find h => (.found (m.find? h), m)
  | .contains h => (.contained (m.contains h), m)
  | .get h => (.got (m.get? h), m)
  | .iter => (.listed m.toList, m)
  | .len => (.counted m.size, m)

def HandleMap.answers (m : HandleMap α) : List (Request α) → List (Reply α) × HandleMap α
  | [] => ([], m)
  | request :: requests =>
    ((m.answer request).1 :: ((m.answer request).2.answers requests).1,
      ((m.answer request).2.answers requests).2)

/-! The plain list. -/

abbrev Roll (α : Type) := List (Ticket × Handle × α)

namespace Roll

-- The rows lie in order of place, and no handle has two.
structure Sound (rows : Roll α) : Prop where
  ordered : rows.Pairwise fun one other => one.1.place < other.1.place
  apart : (rows.map fun row => row.2.1).Nodup

def ofHandle? (rows : Roll α) (h : Handle) : Option (Ticket × Handle × α) :=
  rows.find? fun row => row.2.1 = h

def ofTicket? (rows : Roll α) (t : Ticket) : Option (Ticket × Handle × α) :=
  rows.find? fun row => row.1 = t

def add (rows : Roll α) (row : Ticket × Handle × α) : Roll α :=
  rows.orderedInsert (fun one other => one.1.place ≤ other.1.place) row

-- The answer and the rows after it, if a new row is given the ticket `new`.
def answer (rows : Roll α) (new : Ticket) : Request α → Reply α × Roll α
  | .insert h value =>
    if (rows.ofHandle? h).isSome then (.inserted (.error ⟨value⟩), rows)
    else (.inserted (.ok new), rows.add (new, h, value))
  | .remove t => (.removed ((rows.ofTicket? t).map (·.2)), rows.filter fun row => row.1 ≠ t)
  | .entry t => (.entry ((rows.ofTicket? t).map (·.2)), rows)
  | .find h => (.found ((rows.ofHandle? h).map (·.1)), rows)
  | .contains h => (.contained (rows.ofHandle? h).isSome, rows)
  | .get h => (.got ((rows.ofHandle? h).map (·.2.2)), rows)
  | .iter => (.listed rows, rows)
  | .len => (.counted rows.length, rows)

-- The replies are those of the list to the requests in turn, each new row being given a ticket that
-- no row has.
inductive Follows : Roll α → List (Request α) → List (Reply α) → Roll α → Prop
  | nil (rows : Roll α) : Follows rows [] [] rows
  | cons {rows last : Roll α} {request : Request α} {requests : List (Request α)}
      {replies : List (Reply α)} (new : Ticket) (fresh : ∀ row ∈ rows, row.1 ≠ new)
      (rest : Follows (rows.answer new request).2 requests replies last) :
      Follows rows (request :: requests) ((rows.answer new request).1 :: replies) last

-- Rows in order of place are determined by what they are.
theorem eq_of_mem_iff {rows others : Roll α}
    (ordered : rows.Pairwise fun one other => one.1.place < other.1.place)
    (orderedToo : others.Pairwise fun one other => one.1.place < other.1.place)
    (same : ∀ row, row ∈ rows ↔ row ∈ others) : rows = others := by
  have once : ∀ {list : Roll α}, list.Pairwise (fun one other => one.1.place < other.1.place) →
      list.Nodup := by
    intro list sorted
    refine sorted.imp ?_
    rintro one other before rfl
    exact Nat.lt_irrefl _ before
  refine List.Perm.eq_of_pairwise ?_ ordered orderedToo
    ((List.perm_ext_iff_of_nodup (once ordered) (once orderedToo)).mpr same)
  intro one other _ _ before after
  omega

theorem ordered_add {rows : Roll α} {row : Ticket × Handle × α}
    (ordered : rows.Pairwise fun one other => one.1.place < other.1.place)
    (apart : ∀ other ∈ rows, other.1.place ≠ row.1.place) :
    (rows.add row).Pairwise fun one other => one.1.place < other.1.place := by
  induction rows with
  | nil => exact List.pairwise_singleton _ _
  | cons first rest ih =>
    obtain ⟨below, sorted⟩ := List.pairwise_cons.mp ordered
    have differs := apart first List.mem_cons_self
    unfold add
    rw [List.orderedInsert_cons]
    split
    · refine List.pairwise_cons.mpr ⟨?_, ordered⟩
      intro other listed
      rcases List.mem_cons.mp listed with rfl | later
      · omega
      · have := below other later
        omega
    · refine List.pairwise_cons.mpr ⟨?_, ih sorted fun other listed =>
        apart other (List.mem_cons_of_mem _ listed)⟩
      intro other listed
      rcases (List.mem_orderedInsert _).mp listed with rfl | later
      · omega
      · exact below other later

end Roll

/-! Storage in order of place, and storage whose values are changed where they lie. -/

namespace Arena

variable {β : Type} (a : Arena α) (f : α → α)

theorem ordered_toList : a.toList.Pairwise fun one other => one.1.place < other.1.place := by
  have offsets : a.cells.zipIdx.Pairwise fun one other => one.2 < other.2 := by
    rw [← List.pairwise_map, List.zipIdx_map_snd]
    exact List.pairwise_lt_range'
  refine List.Pairwise.filterMap _ ?_ offsets
  rintro ⟨one, offset⟩ ⟨two, other⟩ before ⟨ticket, value⟩ here ⟨ticket', value'⟩ there
  simp only [Option.map_eq_some_iff, Prod.mk.injEq] at here there
  obtain ⟨_, _, rfl, _⟩ := here
  obtain ⟨_, _, rfl, _⟩ := there
  exact Nat.succ_lt_succ before

-- A place has one version at a time.
theorem ticket_eq_of_place {t u : Ticket} {value other : α} (found : a.get? t = some value)
    (foundToo : a.get? u = some other) (same : t.place = u.place) : t = u := by
  have here := cell_of_get? found
  rw [same, cell_of_get? foundToo, Option.some.injEq, Cell.mk.injEq] at here
  obtain ⟨place, version⟩ := t
  obtain ⟨place', version'⟩ := u
  simp only at same here
  rw [same, here.1]

theorem map_insert (value : α) :
    (a.map f).insert (f value) = ((a.insert value).1, (a.insert value).2.map f) := by
  obtain ⟨cells, vacant⟩ := a
  cases vacant with
  | nil => simp [insert, map]
  | cons offset rest =>
    have version : ((cells.map fun cell => { cell with content := cell.content.map f })[offset]?.map
        Cell.version) = cells[offset]?.map Cell.version := by
      rw [List.getElem?_map, Option.map_map]
      rfl
    simp only [insert, map, version, List.map_set, Option.map_some]

theorem map_remove? (t : Ticket) :
    (a.map f).remove? t = (a.remove? t).map fun taken => (f taken.1, taken.2.map f) := by
  simp only [remove?, get?_map, Option.map_map]
  refine Option.map_congr ?_
  intro value _
  simp [map, List.map_set]

theorem toList_map : (a.map f).toList = a.toList.map fun row => (row.1, f row.2) := by
  simp only [toList, map, List.zipIdx_map, List.filterMap_map, List.map_filterMap]
  refine List.filterMap_congr ?_
  rintro ⟨cell, offset⟩ _
  simp [Function.comp_def]

end Arena

namespace HandleMap

variable {m n rest grown : HandleMap α} {h : Handle} {value : α} {t : Ticket}

/-! The rows of a map. -/

theorem ordered_toList (m : HandleMap α) :
    m.toList.Pairwise fun one other => one.1.place < other.1.place := by
  unfold toList
  rw [List.pairwise_map]
  exact m.rows.ordered_toList

theorem sound_toList (valid : m.Valid) : Roll.Sound m.toList := by
  refine ⟨m.ordered_toList, ?_⟩
  rw [List.Nodup, List.pairwise_map]
  refine m.ordered_toList.imp_of_mem ?_
  rintro ⟨t, h, value⟩ ⟨u, other, w⟩ here there before same
  simp only at same
  subst same
  rw [entry?_unique valid (mem_toList.mp here) (mem_toList.mp there)] at before
  exact Nat.lt_irrefl _ before

theorem ofTicket?_toList (m : HandleMap α) (t : Ticket) :
    (Roll.ofTicket? m.toList t).map (·.2) = m.entry? t := by
  cases held : m.entry? t with
  | none =>
    rw [Option.map_eq_none_iff, Roll.ofTicket?, List.find?_eq_none]
    rintro ⟨u, h, value⟩ listed
    have found := mem_toList.mp listed
    simp only [decide_eq_true_eq]
    rintro rfl
    rw [held] at found
    cases found
  | some entry =>
    obtain ⟨h, value⟩ := entry
    have listed := mem_toList.mpr held
    cases search : Roll.ofTicket? m.toList t with
    | none => simpa using List.find?_eq_none.mp search _ listed
    | some row =>
      obtain ⟨u, other⟩ := row
      have named : u = t := by simpa using List.find?_some search
      subst named
      have found := mem_toList.mp (List.mem_of_find?_eq_some search)
      rw [held] at found
      exact congrArg some (Option.some.inj found).symm

theorem ofHandle?_toList (valid : m.Valid) (h : Handle) (row : Ticket × Handle × α) :
    Roll.ofHandle? m.toList h = some row ↔ row.2.1 = h ∧ m.entry? row.1 = some row.2 := by
  obtain ⟨t, other, value⟩ := row
  constructor
  · intro search
    exact ⟨by simpa using List.find?_some search, mem_toList.mp (List.mem_of_find?_eq_some search)⟩
  · rintro ⟨rfl, held⟩
    have listed := mem_toList.mpr held
    cases search : Roll.ofHandle? m.toList other with
    | none => simpa using List.find?_eq_none.mp search _ listed
    | some row =>
      obtain ⟨u, handle, w⟩ := row
      have named : handle = other := by simpa using List.find?_some search
      subst named
      have found := mem_toList.mp (List.mem_of_find?_eq_some search)
      have same := entry?_unique valid found held
      subst same
      rw [held] at found
      rw [(Prod.mk.inj (Option.some.inj found)).2]

theorem find?_toList (valid : m.Valid) (h : Handle) :
    (Roll.ofHandle? m.toList h).map (·.1) = m.find? h := by
  apply Option.ext
  intro t
  simp only [Option.map_eq_some_iff, ofHandle?_toList valid, find?_eq_some_iff valid]
  constructor
  · rintro ⟨⟨u, other, value⟩, ⟨rfl, held⟩, rfl⟩
    exact ⟨value, held⟩
  · rintro ⟨value, held⟩
    exact ⟨(t, h, value), ⟨rfl, held⟩, rfl⟩

theorem get?_toList (valid : m.Valid) (h : Handle) :
    (Roll.ofHandle? m.toList h).map (·.2.2) = m.get? h := by
  apply Option.ext
  intro value
  simp only [Option.map_eq_some_iff, ofHandle?_toList valid, get?_eq_some_iff valid]
  constructor
  · rintro ⟨⟨t, other, w⟩, ⟨rfl, held⟩, rfl⟩
    exact ⟨t, held⟩
  · rintro ⟨t, held⟩
    exact ⟨(t, h, value), ⟨rfl, held⟩, rfl⟩

theorem contains_toList (valid : m.Valid) (h : Handle) :
    (Roll.ofHandle? m.toList h).isSome = m.contains h := by
  rw [contains, ← find?_toList valid, Option.isSome_map]

theorem toList_insert (valid : m.Valid) (inserted : m.insert h value = .ok (t, grown)) :
    grown.toList = Roll.add m.toList (t, h, value) := by
  have entries := entry?_insert valid inserted
  refine Roll.eq_of_mem_iff grown.ordered_toList ?_ ?_
  · refine Roll.ordered_add m.ordered_toList ?_
    rintro ⟨u, other, w⟩ listed same
    have before := mem_toList.mp listed
    have fresh := entry?_fresh valid inserted
    have apart : u ≠ t := by
      rintro rfl
      rw [fresh] at before
      cases before
    -- The row at the place of the new one would still be found beside it.
    have stays : grown.entry? u = some (other, w) := by rw [entries, if_neg apart, before]
    have new : grown.entry? t = some (h, value) := by rw [entries, if_pos rfl]
    obtain ⟨row, stored, _⟩ := entry?_eq_some.mp stays
    obtain ⟨row', stored', _⟩ := entry?_eq_some.mp new
    exact apart (grown.rows.ticket_eq_of_place stored stored' same)
  · rintro ⟨u, other, w⟩
    rw [mem_toList, entries, Roll.add, List.mem_orderedInsert, mem_toList, Prod.mk.injEq]
    by_cases new : u = t
    · subst new
      simp [entry?_fresh valid inserted, eq_comm]
    · simp [new]

theorem toList_remove (removed : m.remove? t = some ((h, value), rest)) :
    rest.toList = m.toList.filter fun row => row.1 ≠ t := by
  refine Roll.eq_of_mem_iff rest.ordered_toList (m.ordered_toList.filter _) ?_
  rintro ⟨u, other, w⟩
  rw [List.mem_filter, mem_toList, mem_toList, entry?_remove removed, decide_eq_true_eq]
  by_cases gone : u = t <;> simp [gone]

theorem toList_absent (absent : m.entry? t = none) :
    (m.toList.filter fun row => row.1 ≠ t) = m.toList := by
  rw [List.filter_eq_self]
  rintro ⟨u, other, w⟩ listed
  have held := mem_toList.mp listed
  rw [decide_eq_true_eq]
  rintro rfl
  rw [absent] at held
  cases held

/-! One request, and many. -/

theorem valid_answer (valid : m.Valid) (request : Request α) : (m.answer request).2.Valid := by
  cases request with
  | insert h value =>
    cases inserted : m.insert h value with
    | error back => simpa only [answer, inserted] using valid
    | ok result => simpa only [answer, inserted] using valid_insert valid inserted
  | remove t =>
    cases removed : m.remove? t with
    | none => simpa only [answer, removed] using valid
    | some taken => simpa only [answer, removed] using valid_remove valid removed
  | entry t => exact valid
  | find h => exact valid
  | contains h => exact valid
  | get h => exact valid
  | iter => exact valid
  | len => exact valid

theorem fresh_of_entry? (absent : m.entry? t = none) : ∀ row ∈ m.toList, row.1 ≠ t := by
  rintro ⟨u, other, w⟩ listed rfl
  have held := mem_toList.mp listed
  rw [absent] at held
  cases held

-- The place of the ticket is counted from one.
theorem entry?_zero (m : HandleMap α) : m.entry? ⟨0, 0⟩ = none := by
  rw [HandleMap.entry?, Arena.get?_zero, Option.map_none]

theorem answer_insert (valid : m.Valid) (h : Handle) (value : α) :
    ∃ new, (∀ row ∈ m.toList, row.1 ≠ new) ∧ Roll.answer m.toList new (.insert h value)
      = ((m.answer (.insert h value)).1, (m.answer (.insert h value)).2.toList) := by
  cases inserted : m.insert h value with
  | error back =>
    obtain ⟨there, rfl⟩ := insert_eq_error inserted
    refine ⟨⟨0, 0⟩, fresh_of_entry? m.entry?_zero, ?_⟩
    simp only [Roll.answer, contains_toList valid, there, if_true, answer, inserted]
  | ok result =>
    obtain ⟨ticket, grown⟩ := result
    have absent := (insert_eq_ok.mp inserted).1
    refine ⟨ticket, fresh_of_entry? (entry?_fresh valid inserted), ?_⟩
    simp only [Roll.answer, contains_toList valid, absent, Bool.false_eq_true, if_false, answer,
      inserted, toList_insert valid inserted]

theorem answer_remove (m : HandleMap α) (t new : Ticket) : Roll.answer m.toList new (.remove t)
    = ((m.answer (.remove t)).1, (m.answer (.remove t)).2.toList) := by
  cases removed : m.remove? t with
  | none =>
    have absent := remove?_eq_none_iff.mp removed
    simp only [Roll.answer, ofTicket?_toList, absent, toList_absent absent, answer, removed]
  | some taken =>
    obtain ⟨⟨h, value⟩, rest⟩ := taken
    simp only [Roll.answer, ofTicket?_toList, entry?_of_remove? removed, answer, removed,
      toList_remove removed]

-- The map gives the reply of the list to any request, and lists the rows the list has then.
theorem answer_toList (valid : m.Valid) (request : Request α) :
    ∃ new, (∀ row ∈ m.toList, row.1 ≠ new) ∧
      Roll.answer m.toList new request = ((m.answer request).1, (m.answer request).2.toList) := by
  have nowhere := fresh_of_entry? m.entry?_zero
  cases request with
  | insert h value => exact answer_insert valid h value
  | remove t => exact ⟨_, nowhere, m.answer_remove t _⟩
  | entry t => exact ⟨_, nowhere, by simp only [Roll.answer, ofTicket?_toList, answer]⟩
  | find h => exact ⟨_, nowhere, by simp only [Roll.answer, find?_toList valid, answer]⟩
  | contains h => exact ⟨_, nowhere, by simp only [Roll.answer, contains_toList valid, answer]⟩
  | get h => exact ⟨_, nowhere, by simp only [Roll.answer, get?_toList valid, answer]⟩
  | iter => exact ⟨_, nowhere, rfl⟩
  | len => exact ⟨_, nowhere, by simp only [Roll.answer, length_toList, answer]⟩

theorem valid_answers (requests : List (Request α)) :
    ∀ {m : HandleMap α}, m.Valid → (m.answers requests).2.Valid := by
  induction requests with
  | nil => exact fun valid => valid
  | cons request requests ih => exact fun valid => ih (valid_answer valid request)

theorem follows_answers (requests : List (Request α)) : ∀ {m : HandleMap α}, m.Valid →
    Roll.Follows m.toList requests (m.answers requests).1 (m.answers requests).2.toList := by
  induction requests with
  | nil => exact fun _ => .nil _
  | cons request requests ih =>
    intro m valid
    obtain ⟨new, fresh, same⟩ := answer_toList valid request
    have rest := ih (valid_answer valid request)
    have reply : (Roll.answer m.toList new request).1 = (m.answer request).1 := by rw [same]
    have rows : (Roll.answer m.toList new request).2 = (m.answer request).2.toList := by rw [same]
    rw [← rows] at rest
    have first := Roll.Follows.cons new fresh rest
    rwa [reply] at first

/-! Maps that differ in their hash functions only. -/

def unhashed (row : Row α) : Row α := { row with hash := 0 }

-- The same rows at the same places, whatever hash is kept in them.
def Alike (m n : HandleMap α) : Prop := m.rows.map unhashed = n.rows.map unhashed

theorem Alike.entry? (alike : m.Alike n) (t : Ticket) : m.entry? t = n.entry? t := by
  have read : ∀ k : HandleMap α, k.entry? t
      = ((k.rows.map unhashed).get? t).map fun row => (row.handle, row.value) := by
    intro k
    rw [Arena.get?_map, Option.map_map]
    rfl
  rw [read m, read n, alike]

theorem Alike.find? (alike : m.Alike n) (valid : m.Valid) (validToo : n.Valid) (h : Handle) :
    m.find? h = n.find? h := by
  apply Option.ext
  intro t
  rw [find?_eq_some_iff valid, find?_eq_some_iff validToo, alike.entry?]

theorem Alike.contains (alike : m.Alike n) (valid : m.Valid) (validToo : n.Valid) (h : Handle) :
    m.contains h = n.contains h := by
  rw [HandleMap.contains, HandleMap.contains, alike.find? valid validToo]

theorem Alike.toList (alike : m.Alike n) : m.toList = n.toList := by
  have read : ∀ k : HandleMap α, k.toList
      = (k.rows.map unhashed).toList.map fun row => (row.1, row.2.handle, row.2.value) := by
    intro k
    rw [Arena.toList_map, List.map_map]
    rfl
  rw [read m, read n, alike]

theorem Alike.insert (alike : m.Alike n) (h : Handle) (value : α) :
    (m.rows.insert ⟨h, value, m.hash h⟩).1 = (n.rows.insert ⟨h, value, n.hash h⟩).1 ∧
      (m.rows.insert ⟨h, value, m.hash h⟩).2.map unhashed
        = (n.rows.insert ⟨h, value, n.hash h⟩).2.map unhashed := by
  have one := m.rows.map_insert unhashed ⟨h, value, m.hash h⟩
  have other := n.rows.map_insert unhashed ⟨h, value, n.hash h⟩
  rw [alike] at one
  exact Prod.mk.inj (one.symm.trans other)

theorem Alike.answer (alike : m.Alike n) (valid : m.Valid) (validToo : n.Valid) (request : Request α) :
    (m.answer request).1 = (n.answer request).1 ∧ (m.answer request).2.Alike (n.answer request).2 := by
  cases request with
  | insert h value =>
    obtain ⟨ticket, rows⟩ := alike.insert h value
    simp only [HandleMap.answer, HandleMap.insert, alike.contains valid validToo]
    cases n.contains h with
    | true => exact ⟨rfl, alike⟩
    | false => exact ⟨by simp only [Bool.false_eq_true, if_false, ticket], rows⟩
  | remove t =>
    have one := m.rows.map_remove? unhashed t
    rw [alike, Arena.map_remove?] at one
    simp only [HandleMap.answer, HandleMap.remove?]
    cases removed : m.rows.remove? t with
    | none =>
      cases removedToo : n.rows.remove? t with
      | none => exact ⟨rfl, alike⟩
      | some taken => simp [removed, removedToo] at one
    | some taken =>
      cases removedToo : n.rows.remove? t with
      | none => simp [removed, removedToo] at one
      | some takenToo =>
        simp only [removed, removedToo, Option.map_some, Option.some.injEq, Prod.mk.injEq,
          unhashed, Row.mk.injEq] at one
        obtain ⟨⟨handle, value, _⟩, rows⟩ := one
        exact ⟨by simp [handle, value], rows.symm⟩
  | entry t => exact ⟨congrArg Reply.entry (alike.entry? t), alike⟩
  | find h => exact ⟨congrArg Reply.found (alike.find? valid validToo h), alike⟩
  | contains h => exact ⟨congrArg Reply.contained (alike.contains valid validToo h), alike⟩
  | get h =>
    refine ⟨congrArg Reply.got ?_, alike⟩
    simp only [HandleMap.get?, alike.find? valid validToo, alike.entry?]
  | iter => exact ⟨congrArg Reply.listed alike.toList, alike⟩
  | len =>
    refine ⟨congrArg Reply.counted ?_, alike⟩
    rw [← length_toList, ← length_toList, alike.toList]

theorem Alike.answers (requests : List (Request α)) : ∀ {m n : HandleMap α}, m.Alike n → m.Valid →
    n.Valid → (m.answers requests).1 = (n.answers requests).1 := by
  induction requests with
  | nil => exact fun _ _ _ => rfl
  | cons request requests ih =>
    intro m n alike valid validToo
    obtain ⟨reply, after⟩ := alike.answer valid validToo request
    simp only [HandleMap.answers, reply,
      ih after (valid_answer valid request) (valid_answer validToo request)]

-- Whatever the hash function, a map that was empty answers as the list of its rows does, an entry
-- is what its handle is found by, and another hash function would not have been noticed.
theorem answers_as_roll (hash : Handle → UInt64) (requests : List (Request α)) :
    let (replies, m) := (empty hash).answers requests
    Roll.Follows [] requests replies m.toList ∧ Roll.Sound m.toList ∧
      (∀ h t, m.find? h = some t ↔ ∃ value, m.entry? t = some (h, value)) ∧
      (∀ h value, m.get? h = some value ↔ ∃ t, m.entry? t = some (h, value)) ∧
      (∀ h, m.contains h = true ↔ ∃ t value, m.entry? t = some (h, value)) ∧
      ∀ other : Handle → UInt64, ((empty other).answers requests).1 = replies := by
  have valid := valid_answers requests (valid_empty (α := α) hash)
  refine ⟨follows_answers requests (valid_empty hash), sound_toList valid,
    fun _ _ => find?_eq_some_iff valid, fun _ _ => get?_eq_some_iff valid, ?_, ?_⟩
  · intro h
    simp only [contains, Option.isSome_iff_exists, find?_eq_some_iff valid]
  · intro other
    exact Alike.answers requests rfl (valid_empty other) (valid_empty hash)

end HandleMap

end AttachedState
