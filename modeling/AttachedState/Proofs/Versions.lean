import AttachedState.Proofs.Rolls

/-!
Versions.  Filling a vacant place and vacating it again each raise the version of the place, so a
place that is used again never has a version that a ticket of it had before.  Only after 2 ^ 31
removals could a version come round again.  Until then a ticket is given out once, it finds what it
was given for until that is removed, and nothing ever after.
-/

namespace AttachedState

variable {α : Type}

-- How many values a place holds.
def Cell.load (cell : Cell α) : Nat := if cell.content.isSome then 1 else 0

namespace Arena

variable {a rest : Arena α} {issued : List Ticket} {removals : Nat} {value : α} {t : Ticket}

-- How old the places can be after so many removals.  A place is vacant in its even versions and
-- filled in its odd ones; a ticket that was given out has no later version than its place, and an
-- earlier one if the place is vacant.
structure Aged (a : Arena α) (issued : List Ticket) (removals : Nat) : Prop where
  young : ∀ (offset : Nat) (cell : Cell α), a.cells[offset]? = some cell →
    ∃ uses ≤ removals, cell.version.toNat = 2 * uses + cell.load
  behind : ∀ t ∈ issued, ∃ (offset : Nat) (cell : Cell α), t.place = offset + 1 ∧
    a.cells[offset]? = some cell ∧ t.version.toNat < cell.version.toNat + cell.load

theorem aged_empty : (empty : Arena α).Aged [] 0 := by
  refine ⟨fun offset cell here => ?_, List.forall_mem_nil _⟩
  cases here

theorem toNat_filledVersion {version : UInt32} {uses : Nat} (even : version.toNat = 2 * uses) :
    (filledVersion version).toNat = 2 * uses + 1 := by
  unfold filledVersion
  rw [UInt32.toNat_or, even]
  exact (Nat.two_pow_add_eq_or_of_lt (i := 1) (by decide) uses).symm

-- A place that was just written has its new cell, and every other one the cell it had.
theorem Aged.written {cells : List (Cell α)} {vacant : List Nat} {offset : Nat} {cell : Cell α}
    (aged : a.Aged issued removals) (inside : offset < a.cells.length) {uses most : Nat}
    (more : removals ≤ most) (few : uses ≤ most)
    (version : cell.version.toNat = 2 * uses + cell.load)
    (older : ∀ old, a.cells[offset]? = some old →
      old.version.toNat + old.load ≤ cell.version.toNat + cell.load)
    (cellsAre : cells = a.cells.set offset cell) : Aged ⟨cells, vacant⟩ issued most := by
  subst cellsAre
  refine ⟨fun place other here => ?_, fun t listed => ?_⟩
  · rw [List.getElem?_set] at here
    split at here
    · cases here
      exact ⟨uses, few, version⟩
    · obtain ⟨before, less, same⟩ := aged.young place other here
      exact ⟨before, less.trans more, same⟩
  · obtain ⟨place, old, here, there, less⟩ := aged.behind t listed
    by_cases same : offset = place
    · subst same
      exact ⟨offset, cell, here, List.getElem?_set_self inside, Nat.lt_of_lt_of_le less (older old there)⟩
    · exact ⟨place, old, here, by rwa [List.getElem?_set_ne same], less⟩

-- A ticket that is given out was not given out before.
theorem Aged.insert (aged : a.Aged issued removals) (valid : a.Valid) (value : α) :
    (a.insert value).1 ∉ issued ∧
      (a.insert value).2.Aged (issued ++ [(a.insert value).1]) removals := by
  unfold Arena.insert
  split
  · refine ⟨fun listed => ?_, ?_, ?_⟩
    · obtain ⟨offset, cell, place, here, _⟩ := aged.behind _ listed
      obtain ⟨inside, _⟩ := List.getElem?_eq_some_iff.mp here
      simp only at place
      omega
    · intro offset cell here
      rw [List.getElem?_append] at here
      split at here
      · exact aged.young offset cell here
      · rw [List.getElem?_singleton] at here
        split at here <;> cases here
        exact ⟨0, Nat.zero_le _, rfl⟩
    · intro t listed
      rcases List.mem_append.mp listed with earlier | new
      · obtain ⟨offset, cell, place, here, less⟩ := aged.behind t earlier
        obtain ⟨inside, _⟩ := List.getElem?_eq_some_iff.mp here
        exact ⟨offset, cell, place, by rwa [List.getElem?_append_left inside], less⟩
      · rw [List.mem_singleton.mp new]
        exact ⟨a.cells.length, _, rfl, List.getElem?_concat_length, Nat.lt_succ_self _⟩
  · rename_i offset vacant free
    obtain ⟨cell, here, nothing⟩ := (valid.vacant_iff offset).mp (by rw [free]; exact List.mem_cons_self)
    obtain ⟨inside, _⟩ := List.getElem?_eq_some_iff.mp here
    obtain ⟨uses, few, even⟩ := aged.young offset cell here
    simp only [Cell.load, nothing, Option.isSome_none, Bool.false_eq_true, if_false, Nat.add_zero] at even
    have odd := toNat_filledVersion even
    simp only [here, Option.map_some, Option.getD_some]
    have written : Aged ⟨a.cells.set offset ⟨filledVersion cell.version, some value⟩, vacant⟩ issued
        removals := by
      refine aged.written inside (Nat.le_refl _) few odd (fun old there => ?_) rfl
      rw [here, Option.some.injEq] at there
      subst there
      simp only [Cell.load, nothing, odd, even, Option.isSome_none, Option.isSome_some,
        Bool.false_eq_true, if_false, if_true]
      omega
    refine ⟨fun listed => ?_, written.young, fun t listed => ?_⟩
    · obtain ⟨place, old, named, there, less⟩ := aged.behind _ listed
      simp only [Nat.add_right_cancel_iff] at named
      subst named
      rw [here, Option.some.injEq] at there
      subst there
      simp only [Cell.load, nothing, odd, even, Option.isSome_none, Bool.false_eq_true, if_false] at less
      omega
    · rcases List.mem_append.mp listed with earlier | new
      · exact written.behind t earlier
      · rw [List.mem_singleton.mp new]
        exact ⟨offset, _, rfl, List.getElem?_set_self inside, Nat.lt_succ_self _⟩

-- A place that is vacated goes on to its next version, if there is one left.
theorem Aged.remove (aged : a.Aged issued removals) (few : removals + 1 < 2 ^ 31)
    (removed : a.remove? t = some (value, rest)) : rest.Aged issued (removals + 1) := by
  obtain ⟨found, rfl⟩ := remove?_eq_some.mp removed
  have here := cell_of_get? found
  obtain ⟨inside, _⟩ := List.getElem?_eq_some_iff.mp here
  obtain ⟨uses, less, odd⟩ := aged.young _ _ here
  simp only [Cell.load, Option.isSome_some, if_true] at odd
  have next : (t.version + 1).toNat = 2 * (uses + 1) := by
    rw [UInt32.toNat_add, odd]
    simp only [UInt32.toNat_one]
    omega
  refine aged.written inside (Nat.le_succ _) (Nat.succ_le_succ less) next (fun old there => ?_) rfl
  rw [here, Option.some.injEq] at there
  subst there
  simp only [Cell.load, next, odd, Option.isSome_none, Option.isSome_some, Bool.false_eq_true, if_false,
    if_true]
  omega

end Arena

/-! What was asked of a map and what it replied. -/

abbrev Exchange (α : Type) := Request α × Reply α

namespace Exchange

-- A new entry was made.
def given (h : Handle) (value : α) (t : Ticket) : Exchange α := (.insert h value, .inserted (.ok t))

-- An entry was removed.
def taken (t : Ticket) (h : Handle) (value : α) : Exchange α := (.remove t, .removed (some (h, value)))

-- The ticket that a new entry was given.
def issued? : Exchange α → Option Ticket
  | (.insert _ _, .inserted (.ok t)) => some t
  | _ => none

-- The ticket whose entry was removed.
def retired? : Exchange α → Option Ticket
  | (.remove t, .removed (some _)) => some t
  | _ => none

variable (h : Handle) (value : α) (t : Ticket)

@[simp] theorem issued?_given : (given h value t).issued? = some t := rfl
@[simp] theorem issued?_taken : (taken t h value).issued? = none := rfl
@[simp] theorem retired?_given : (given h value t).retired? = none := rfl
@[simp] theorem retired?_taken : (taken t h value).retired? = some t := rfl

end Exchange

namespace HandleMap

variable {m after : HandleMap α} {past : List (Exchange α)} {request : Request α} {reply : Reply α}

def history (m : HandleMap α) (requests : List (Request α)) : List (Exchange α) :=
  requests.zip (m.answers requests).1

-- What tickets find in a map after all that was asked of it.
structure Resolves (past : List (Exchange α)) (m : HandleMap α) : Prop where
  -- A ticket that was not given out finds nothing.
  unissued : ∀ t, t ∉ past.filterMap Exchange.issued? → m.entry? t = none
  -- A ticket that was finds what it was given for, until that is removed.
  standing : ∀ early late h value t, past = early ++ Exchange.given h value t :: late →
    t ∉ late.filterMap Exchange.retired? → m.entry? t = some (h, value)
  -- After that it finds nothing.
  retired : ∀ t ∈ past.filterMap Exchange.retired?, m.entry? t = none
  -- A removal finds the same.
  removal : ∀ t, (m.remove? t).map Prod.fst = m.entry? t

-- A map that was asked all this, without a version coming round again.
structure Dated (past : List (Exchange α)) (m : HandleMap α) : Prop where
  valid : m.Valid
  aged : m.rows.Aged (past.filterMap Exchange.issued?) (past.filterMap Exchange.retired?).length
  once : (past.filterMap Exchange.issued?).Nodup
  known : ∀ t ∈ past.filterMap Exchange.retired?, t ∈ past.filterMap Exchange.issued?
  resolves : m.Resolves past

theorem remove?_fst (m : HandleMap α) (t : Ticket) : (m.remove? t).map Prod.fst = m.entry? t := by
  cases held : m.entry? t with
  | none => rw [remove?_eq_none_iff.mpr held, Option.map_none]
  | some entry =>
    obtain ⟨rest, removed⟩ := remove?_of_entry? held
    rw [removed, Option.map_some]

theorem dated_empty (hash : Handle → UInt64) : (empty hash : HandleMap α).Dated [] := by
  refine ⟨valid_empty hash, Arena.aged_empty, .nil, List.forall_mem_nil _, ?_, ?_, List.forall_mem_nil _,
    (empty hash).remove?_fst⟩
  · exact fun t _ => entry?_empty hash t
  · intro early late h value t none_asked
    simp at none_asked

-- The last of all exchanges is a given one, or comes after it.
theorem last_exchange {early late : List (Exchange α)} {one last : Exchange α}
    (all : past ++ [last] = early ++ one :: late) :
    (late = [] ∧ past = early ∧ last = one) ∨ ∃ mid, late = mid ++ [last] ∧ past = early ++ one :: mid := by
  rcases List.eq_nil_or_concat late with rfl | ⟨mid, final, rfl⟩
  · obtain ⟨before, same⟩ := List.append_inj' all rfl
    cases same
    exact .inl ⟨rfl, before, rfl⟩
  · rw [List.concat_eq_append, ← List.cons_append, ← List.append_assoc] at all
    obtain ⟨before, same⟩ := List.append_inj' all rfl
    cases same
    exact .inr ⟨mid, List.concat_eq_append, before⟩

-- Most exchanges give out no ticket and retire none, and leave the map as it was.
theorem Dated.asked (dated : m.Dated past) {last : Exchange α} (issues : last.issued? = none)
    (retires : last.retired? = none) : m.Dated (past ++ [last]) := by
  have issued : (past ++ [last]).filterMap Exchange.issued? = past.filterMap Exchange.issued? := by
    simp [List.filterMap_append, issues]
  have retired : (past ++ [last]).filterMap Exchange.retired? = past.filterMap Exchange.retired? := by
    simp [List.filterMap_append, retires]
  obtain ⟨valid, aged, once, known, unissued, standing, gone, removal⟩ := dated
  rw [← issued] at aged once known unissued
  rw [← retired] at aged known gone
  refine ⟨valid, aged, once, known, unissued, fun early late h value t all stays => ?_, gone, removal⟩
  rcases last_exchange all with ⟨_, _, rfl⟩ | ⟨mid, rfl, before⟩
  · cases issues
  · rw [List.filterMap_append, List.mem_append, not_or] at stays
    exact standing early mid h value t before stays.1

theorem Dated.insert (dated : m.Dated past) {h : Handle} {value : α} {t : Ticket}
    (inserted : m.insert h value = .ok (t, after)) :
    after.Dated (past ++ [Exchange.given h value t]) := by
  obtain ⟨valid, aged, once, known, unissued, standing, gone, _⟩ := dated
  have entries := entry?_insert valid inserted
  obtain ⟨fresh, older⟩ := aged.insert valid.rows ⟨h, value, m.hash h⟩
  obtain ⟨_, ticket, map⟩ := insert_eq_ok.mp inserted
  rw [← ticket] at fresh older
  have rows : after.rows = (m.rows.insert ⟨h, value, m.hash h⟩).2 := by rw [map]
  rw [← rows] at older
  have issued : (past ++ [Exchange.given h value t]).filterMap Exchange.issued?
      = past.filterMap Exchange.issued? ++ [t] := List.filterMap_append
  have retired : (past ++ [Exchange.given h value t]).filterMap Exchange.retired?
      = past.filterMap Exchange.retired? := by
    simp [List.filterMap_append]
  have still : ∀ {u}, u ∈ past.filterMap Exchange.issued? → after.entry? u = m.entry? u := by
    intro u listed
    rw [entries, if_neg]
    rintro rfl
    exact fresh listed
  refine ⟨valid_insert valid inserted, ?_, ?_, ?_, ?_, ?_, ?_, after.remove?_fst⟩
  · rwa [issued, retired]
  · rw [issued, List.nodup_append]
    refine ⟨once, List.nodup_singleton t, fun u listed v new same => ?_⟩
    rw [List.mem_singleton.mp new] at same
    exact fresh (same ▸ listed)
  · rw [issued, retired]
    exact fun u listed => List.mem_append_left _ (known u listed)
  · intro u absent
    rw [issued, List.mem_append, not_or, List.mem_singleton] at absent
    rw [entries, if_neg absent.2]
    exact unissued u absent.1
  · intro early late other w u all stays
    rcases last_exchange all with ⟨_, _, same⟩ | ⟨mid, rfl, before⟩
    · cases same
      rw [entries, if_pos rfl]
    · rw [List.filterMap_append, List.mem_append, not_or] at stays
      rw [still (List.mem_filterMap.mpr ⟨Exchange.given other w u, by simp [before], rfl⟩)]
      exact standing early mid other w u before stays.1
  · rw [retired]
    exact fun u listed => (still (known u listed)).trans (gone u listed)

theorem Dated.remove (dated : m.Dated past) {h : Handle} {value : α} {t : Ticket}
    (few : (past.filterMap Exchange.retired?).length + 1 < 2 ^ 31)
    (removed : m.remove? t = some ((h, value), after)) :
    after.Dated (past ++ [Exchange.taken t h value]) := by
  obtain ⟨valid, aged, once, known, unissued, standing, gone, _⟩ := dated
  have entries := entry?_remove removed
  have held := entry?_of_remove? removed
  obtain ⟨row, took, _⟩ := remove?_eq_some removed
  have older := aged.remove few took
  have issued : (past ++ [Exchange.taken t h value]).filterMap Exchange.issued?
      = past.filterMap Exchange.issued? := by
    simp [List.filterMap_append]
  have retired : (past ++ [Exchange.taken t h value]).filterMap Exchange.retired?
      = past.filterMap Exchange.retired? ++ [t] := List.filterMap_append
  have given : t ∈ past.filterMap Exchange.issued? := by
    by_contra absent
    rw [unissued t absent] at held
    cases held
  refine ⟨valid_remove valid removed, ?_, ?_, ?_, ?_, ?_, ?_, after.remove?_fst⟩
  · rw [issued, retired, List.length_append]
    exact older
  · rwa [issued]
  · rw [issued, retired]
    intro u listed
    rcases List.mem_append.mp listed with earlier | last
    · exact known u earlier
    · rwa [List.mem_singleton.mp last]
  · intro u absent
    rw [issued] at absent
    rw [entries, unissued u absent, ite_self]
  · intro early late other w u all stays
    rcases last_exchange all with ⟨_, _, same⟩ | ⟨mid, rfl, before⟩
    · cases same
    · rw [List.filterMap_append, List.mem_append, not_or] at stays
      rw [entries, if_neg]
      · exact standing early mid other w u before stays.1
      · rintro rfl
        exact stays.2 (List.mem_singleton_self u)
  · rw [retired]
    intro u listed
    rw [entries]
    split
    · rfl
    · rename_i other
      rcases List.mem_append.mp listed with earlier | last
      · exact gone u earlier
      · exact absurd (List.mem_singleton.mp last) other

-- No request makes a version come round again, if there were few removals with it.
theorem Dated.answer (dated : m.Dated past) (request : Request α)
    (few : ((past ++ [(request, (m.answer request).1)]).filterMap Exchange.retired?).length < 2 ^ 31) :
    (m.answer request).2.Dated (past ++ [(request, (m.answer request).1)]) := by
  cases request with
  | insert h value =>
    cases inserted : m.insert h value with
    | error back =>
      simp only [HandleMap.answer, inserted]
      exact dated.asked rfl rfl
    | ok done =>
      simp only [HandleMap.answer, inserted]
      exact dated.insert inserted
  | remove t =>
    cases removed : m.remove? t with
    | none =>
      simp only [HandleMap.answer, removed]
      exact dated.asked rfl rfl
    | some taken =>
      obtain ⟨⟨h, value⟩, rest⟩ := taken
      simp only [HandleMap.answer, removed, List.filterMap_append, List.length_append] at few ⊢
      exact dated.remove few removed
  | entry | find | contains | get | iter | len => exact dated.asked rfl rfl

theorem Dated.answers (requests : List (Request α)) : ∀ {m : HandleMap α} {past : List (Exchange α)},
    m.Dated past → ((past ++ m.history requests).filterMap Exchange.retired?).length < 2 ^ 31 →
    (m.answers requests).2.Dated (past ++ m.history requests) := by
  induction requests with
  | nil =>
    intro m past dated _
    rwa [history, List.zip_nil_left, List.append_nil]
  | cons request requests ih =>
    intro m past dated few
    have all : past ++ m.history (request :: requests)
        = (past ++ [(request, (m.answer request).1)]) ++ (m.answer request).2.history requests := by
      rw [List.append_assoc]
      rfl
    rw [all] at few ⊢
    refine ih (dated.answer request (Nat.lt_of_le_of_lt ?_ few)) few
    exact ((List.sublist_append_left _ _).filterMap _).length_le

theorem history_append (m : HandleMap α) (early late : List (Request α)) :
    m.history (early ++ late) = m.history early ++ (m.answers early).2.history late := by
  induction early generalizing m with
  | nil => rfl
  | cons request early ih => exact congrArg ((request, (m.answer request).1) :: ·) (ih _)

-- Whatever is asked of a map, with fewer removals than there are versions to a place, no ticket is
-- given out twice, and at any time in between each finds what it stands for then, or nothing.
theorem tickets_given_once (hash : Handle → UInt64) (requests : List (Request α))
    (few : (((empty hash).history requests).filterMap Exchange.retired?).length < 2 ^ 31) :
    (((empty hash).history requests).filterMap Exchange.issued?).Nodup ∧
    ∀ early late, requests = early ++ late →
      ((empty hash).answers early).2.Resolves ((empty hash).history early) := by
  refine ⟨(Dated.answers requests (dated_empty hash) few).once, fun early late all => ?_⟩
  refine (Dated.answers early (dated_empty hash) (Nat.lt_of_le_of_lt ?_ few)).resolves
  rw [all, history_append]
  exact ((List.sublist_append_left _ _).filterMap _).length_le

-- An entry is made, removed, and made again.
def turns (h : Handle) : List (Request Nat) := [.insert h 1, .remove ⟨1, 1⟩, .insert h 2]

-- The only place is vacated and taken again by the same handle, whose first ticket stays dead.
theorem tickets_given_once_reused :
    let past := (empty fun _ => 0).history (turns ⟨7, by decide⟩)
    let m := ((empty fun _ => 0).answers (turns ⟨7, by decide⟩)).2
    (past.filterMap Exchange.retired?).length < 2 ^ 31 ∧
      past.filterMap Exchange.issued? = [⟨1, 1⟩, ⟨1, 3⟩] ∧
      (past.filterMap Exchange.issued?).Nodup ∧
      m.entry? ⟨1, 1⟩ = none ∧ m.entry? ⟨1, 3⟩ = some (⟨7, by decide⟩, 2) := by
  have few : (((empty fun _ => 0).history (turns ⟨7, by decide⟩)).filterMap Exchange.retired?).length
      < 2 ^ 31 := by decide
  have resolves := (tickets_given_once (fun _ => 0) _ few).2 _ [] (List.append_nil _).symm
  exact ⟨few, rfl, (tickets_given_once (fun _ => 0) _ few).1, resolves.retired _ (by decide),
    resolves.standing [_, _] [] _ 2 _ rfl List.not_mem_nil⟩

end HandleMap

end AttachedState
