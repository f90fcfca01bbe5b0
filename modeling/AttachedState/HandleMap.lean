import AttachedState.Arena
import AttachedState.Handle

/-!
A map from handles to values in which every entry also has a ticket.  Rows lie in an arena; an index
files each row's ticket under the hash of its handle.  The hash only speeds the search: rows whose
hashes collide are told apart by their handles, so no answer depends on the hash.
-/

namespace AttachedState

-- The hash is the one that the row's ticket is filed under.
structure Row (α : Type) where
  handle : Handle
  value : α
  hash : UInt64

-- The index and the rows, and the hash function both were built with.
structure HandleMap (α : Type) where
  hash : Handle → UInt64
  index : List (UInt64 × Ticket)
  rows : Arena (Row α)

-- A value that was not put into a map because its handle had an entry already.
structure Rejected (α : Type) where
  value : α

namespace HandleMap

variable {α : Type}

def empty (hash : Handle → UInt64) : HandleMap α := ⟨hash, [], .empty⟩

def find? (m : HandleMap α) (h : Handle) : Option Ticket :=
  (m.index.find? fun (filed, ticket) =>
    filed == m.hash h && (m.rows.get? ticket).any (·.handle == h)).map (·.2)

def entry? (m : HandleMap α) (t : Ticket) : Option (Handle × α) :=
  (m.rows.get? t).map fun row => (row.handle, row.value)

def get? (m : HandleMap α) (h : Handle) : Option α :=
  (m.find? h).bind fun t => (m.entry? t).map (·.2)

def contains (m : HandleMap α) (h : Handle) : Bool := (m.find? h).isSome

-- If the handle has an entry already, the value is handed back.
def insert (m : HandleMap α) (h : Handle) (value : α) : Except (Rejected α) (Ticket × HandleMap α) :=
  if m.contains h then .error ⟨value⟩
  else
    let (ticket, rows) := m.rows.insert ⟨h, value, m.hash h⟩
    .ok (ticket, { m with index := (m.hash h, ticket) :: m.index, rows })

-- The place in the index is found by the hash kept in the row.
def remove? (m : HandleMap α) (t : Ticket) : Option ((Handle × α) × HandleMap α) :=
  (m.rows.remove? t).map fun (row, rows) =>
    ((row.handle, row.value), { m with index := m.index.erase (row.hash, t), rows })

def size (m : HandleMap α) : Nat := m.rows.size

def isEmpty (m : HandleMap α) : Bool := m.size == 0

def toList (m : HandleMap α) : List (Ticket × Handle × α) :=
  m.rows.toList.map fun (ticket, row) => (ticket, row.handle, row.value)

theorem length_toList (m : HandleMap α) : m.toList.length = m.size := by
  simp [toList, size, Arena.length_toList]

theorem size_insert_le {m grown : HandleMap α} {h : Handle} {value : α} {t : Ticket}
    (inserted : m.insert h value = .ok (t, grown)) : grown.size ≤ m.size + 1 := by
  unfold insert at inserted
  split at inserted
  · cases inserted
  · cases inserted
    exact Arena.size_insert_le _ _

theorem size_remove_le {m rest : HandleMap α} {t : Ticket} {entry : Handle × α}
    (removed : m.remove? t = some (entry, rest)) : rest.size ≤ m.size := by
  simp only [remove?, Option.map_eq_some_iff, Prod.mk.injEq] at removed
  obtain ⟨⟨row, rows⟩, took, _, rfl⟩ := removed
  exact Arena.size_remove_le took

end HandleMap

inductive Hashing where
  | scattered
  | constant
  | address
  | low
deriving DecidableEq

-- The bits multiplied, one value for all, the address itself, or only its lowest bits.
def Hashing.function : Hashing → Handle → UInt64
  | .scattered, h => hash h.address
  | .constant, _ => 0
  | .address, h => h.address
  | .low, h => h.address &&& 7

end AttachedState
