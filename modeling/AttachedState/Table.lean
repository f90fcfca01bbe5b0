/-!
Finite tables: each key stands for at most one value.  Rows keep the order in which their keys were
first put in.
-/

namespace AttachedState

structure Table (κ α : Type) where
  rows : List (κ × α)

namespace Table

variable {κ α : Type} [DecidableEq κ]

def empty : Table κ α := ⟨[]⟩

def find? (t : Table κ α) (key : κ) : Option α := (t.rows.find? (·.1 = key)).map (·.2)

def contains (t : Table κ α) (key : κ) : Bool := (t.find? key).isSome

-- The row of the key is changed, or one is added at the end.
def putRow (key : κ) (value : α) : List (κ × α) → List (κ × α)
  | [] => [(key, value)]
  | row :: rest => if row.1 = key then (key, value) :: rest else row :: putRow key value rest

def put (t : Table κ α) (key : κ) (value : α) : Table κ α := ⟨putRow key value t.rows⟩

def erase (t : Table κ α) (key : κ) : Table κ α := ⟨t.rows.filter (·.1 ≠ key)⟩

def any (t : Table κ α) (p : α → Bool) : Bool := t.rows.any (p ·.2)

def keysWhere (t : Table κ α) (p : α → Bool) : List κ := (t.rows.filter (p ·.2)).map (·.1)

def total (t : Table κ α) (f : α → Nat) : Nat :=
  t.rows.foldr (fun row rest => f row.2 + rest) 0

@[simp] theorem find?_empty (key : κ) : (empty : Table κ α).find? key = none := rfl

theorem find?_put_self (t : Table κ α) (key : κ) (value : α) :
    (t.put key value).find? key = some value := by
  obtain ⟨rows⟩ := t
  induction rows with
  | nil => simp [put, putRow, find?]
  | cons row rest ih => by_cases h : row.1 = key <;> simp_all [put, putRow, find?]

theorem find?_put_of_ne (t : Table κ α) {key other : κ} (value : α) (ne : other ≠ key) :
    (t.put key value).find? other = t.find? other := by
  obtain ⟨rows⟩ := t
  induction rows with
  | nil => simp [put, putRow, find?, ne.symm]
  | cons row rest ih =>
    by_cases h : row.1 = key
    · have : row.1 ≠ other := fun e => ne (e.symm.trans h)
      simp_all [put, putRow, find?, ne.symm]
    · by_cases g : row.1 = other <;> simp_all [put, putRow, find?]

theorem find?_erase_self (t : Table κ α) (key : κ) : (t.erase key).find? key = none := by
  simp [erase, find?]

theorem find?_erase_of_ne (t : Table κ α) {key other : κ} (ne : other ≠ key) :
    (t.erase key).find? other = t.find? other := by
  obtain ⟨rows⟩ := t
  induction rows with
  | nil => rfl
  | cons row rest ih =>
    by_cases h : row.1 = key
    · have : row.1 ≠ other := fun e => ne (e.symm.trans h)
      simp_all [erase, find?]
    · by_cases g : row.1 = other <;> simp_all [erase, find?]

-- Putting back what stands there changes no row.  This is what makes a lock that was taken and
-- given back leave the table as it was.
theorem put_of_find? {t : Table κ α} {key : κ} {value : α} (found : t.find? key = some value) :
    t.put key value = t := by
  obtain ⟨rows⟩ := t
  induction rows with
  | nil => simp [find?] at found
  | cons row rest ih =>
    by_cases h : row.1 = key
    · simp_all [put, putRow, find?]
      subst h; subst found; rfl
    · have later : (⟨rest⟩ : Table κ α).find? key = some value := by simpa [find?, h] using found
      have same : putRow key value rest = rest := by simpa [put] using ih later
      simp [put, putRow, h, same]

theorem put_put (t : Table κ α) (key : κ) (first second : α) :
    (t.put key first).put key second = t.put key second := by
  obtain ⟨rows⟩ := t
  induction rows with
  | nil => simp [put, putRow]
  | cons row rest ih => by_cases h : row.1 = key <;> simp_all [put, putRow]

theorem total_put (t : Table κ α) (key : κ) (value : α) (f : α → Nat) :
    (t.put key value).total f + ((t.find? key).map f).getD 0 = t.total f + f value := by
  obtain ⟨rows⟩ := t
  induction rows with
  | nil => simp [put, putRow, find?, total]
  | cons row rest ih =>
    by_cases h : row.1 = key
    · simp [put, putRow, find?, total, h]; omega
    · simp [put, putRow, find?, total, h] at ih ⊢; omega

theorem total_erase_le (t : Table κ α) (key : κ) (f : α → Nat) :
    (t.erase key).total f + ((t.find? key).map f).getD 0 ≤ t.total f := by
  obtain ⟨rows⟩ := t
  induction rows with
  | nil => simp [erase, find?, total]
  | cons row rest ih =>
    by_cases h : row.1 = key
    · have less : (erase ⟨rest⟩ key).total f ≤ total ⟨rest⟩ f := by omega
      simp [erase, find?, total, h] at less ⊢; omega
    · simp [erase, find?, total, h] at ih ⊢; omega

end Table

def sortedNames (names : List String) : List String := names.mergeSort (fun a b => decide (a ≤ b))

end AttachedState
