/-!
Storage whose places are used again without being confused.  What is stored is found by a ticket: a
place, and the version the place had when the value was put there.  Taking a value out ends that
version, so a ticket that was given out before finds nothing, whatever the place holds later.
-/

namespace AttachedState

-- Places are counted from 1.
structure Ticket where
  place : Nat
  version : UInt32
deriving DecidableEq, Repr

-- As in `3v1`.
def Ticket.text (t : Ticket) : String := toString t.place ++ "v" ++ toString t.version.toNat

structure Cell (α : Type) where
  version : UInt32
  content : Option α

-- The offsets of the vacant places come in the order in which they are filled, the last vacated
-- first.
structure Arena (α : Type) where
  cells : List (Cell α)
  vacant : List Nat

namespace Arena

variable {α β : Type}

def empty : Arena α := ⟨[], []⟩

def cell? (a : Arena α) (t : Ticket) : Option (Cell α) :=
  match t.place with
  | 0 => none
  | offset + 1 => a.cells[offset]?

def get? (a : Arena α) (t : Ticket) : Option α :=
  match a.cell? t with
  | some cell => if cell.version = t.version then cell.content else none
  | none => none

def contains (a : Arena α) (t : Ticket) : Bool := (a.get? t).isSome

-- A place that is filled has an odd version.
def filledVersion (version : UInt32) : UInt32 := version ||| 1

-- The place that was vacated last is filled first.
def insert (a : Arena α) (value : α) : Ticket × Arena α :=
  match a.vacant with
  | [] => (⟨a.cells.length + 1, 1⟩, { a with cells := a.cells ++ [⟨1, some value⟩] })
  | offset :: vacant =>
    let version := filledVersion ((a.cells[offset]?.map Cell.version).getD 0)
    (⟨offset + 1, version⟩, ⟨a.cells.set offset ⟨version, some value⟩, vacant⟩)

-- This ends the version of the place.
def remove? (a : Arena α) (t : Ticket) : Option (α × Arena α) :=
  (a.get? t).map fun value =>
    (value, ⟨a.cells.set (t.place - 1) ⟨t.version + 1, none⟩, (t.place - 1) :: a.vacant⟩)

-- The ticket stays good.
def replace (a : Arena α) (t : Ticket) (value : α) : Arena α :=
  if a.contains t then
    { a with cells := a.cells.set (t.place - 1) ⟨t.version, some value⟩ }
  else a

def toList (a : Arena α) : List (Ticket × α) :=
  a.cells.zipIdx.filterMap fun (cell, offset) =>
    cell.content.map fun value => (⟨offset + 1, cell.version⟩, value)

def size (a : Arena α) : Nat := a.cells.countP (·.content.isSome)

def count (a : Arena α) (p : α → Bool) : Nat := a.cells.countP (·.content.any p)

def map (a : Arena α) (f : α → α) : Arena α :=
  { a with cells := a.cells.map fun cell => { cell with content := cell.content.map f } }

theorem length_toList (a : Arena α) : a.toList.length = a.size := by
  have counted : ∀ (cells : List (Cell α)) (offset : Nat),
      ((cells.zipIdx offset).filterMap fun (cell, offset) =>
        cell.content.map fun value => ((⟨offset + 1, cell.version⟩ : Ticket), value)).length
        = cells.countP (·.content.isSome) := by
    intro cells
    induction cells with
    | nil => simp
    | cons cell rest ih =>
      intro offset
      cases held : cell.content <;> simp [held, ih]
  exact counted a.cells 0

theorem size_insert_le (a : Arena α) (value : α) : (a.insert value).2.size ≤ a.size + 1 := by
  unfold insert
  split
  · simp [size]
  · rename_i offset vacant _
    by_cases inside : offset < a.cells.length
    · simp only [size, List.countP_set inside]; split <;> simp
    · simp only [size, List.set_eq_of_length_le (Nat.le_of_not_lt inside)]; omega

theorem size_remove_le {a rest : Arena α} {t : Ticket} {value : α}
    (removed : a.remove? t = some (value, rest)) : rest.size ≤ a.size := by
  simp only [remove?, Option.map_eq_some_iff, Prod.mk.injEq] at removed
  obtain ⟨_, _, _, rfl⟩ := removed
  by_cases inside : t.place - 1 < a.cells.length
  · simp only [size, List.countP_set inside]; split <;> simp
  · simp only [size, List.set_eq_of_length_le (Nat.le_of_not_lt inside)]; omega

end Arena

end AttachedState
