import AttachedState.Outline

/-!
Dense slots, handed out first-fit.  A slot is an index into every block of extensions, so a pool
hands out the lowest free one: blocks are then no longer than the largest number of slots that were
ever reserved at once.
-/

namespace AttachedState

abbrev Slot := Nat

-- There is one flag for each slot ever handed out, and the flags never become fewer.
structure SlotPool where
  taken : List Bool
  inUse : Nat
deriving DecidableEq

namespace SlotPool

def empty : SlotPool := ⟨[], 0⟩

-- The lowest free slot, or the next one past the end if none is free.
def reserve (pool : SlotPool) : Slot × SlotPool :=
  match pool.taken.findIdx? (! ·) with
  | some slot => (slot, ⟨pool.taken.set slot true, pool.inUse + 1⟩)
  | none => (pool.taken.length, ⟨pool.taken ++ [true], pool.inUse + 1⟩)

def isReserved (pool : SlotPool) (slot : Slot) : Bool := pool.taken[slot]?.getD false

def release? (pool : SlotPool) (slot : Slot) : Option SlotPool :=
  if pool.isReserved slot then some ⟨pool.taken.set slot false, pool.inUse - 1⟩ else none

def size (pool : SlotPool) : Nat := pool.inUse

def isEmpty (pool : SlotPool) : Bool := pool.inUse == 0

-- One past the highest slot ever handed out.
def highWater (pool : SlotPool) : Nat := pool.taken.length

def reserved (pool : SlotPool) : List Slot :=
  (List.range pool.taken.length).filter pool.isReserved

def outline (pool : SlotPool) : Outline :=
  .named "SlotAllocator"
    [("occupied", .list (pool.taken.map fun flag => .atom (toString flag))),
      ("in_use", .number pool.inUse)]

end SlotPool

def unreservedText (slot : Slot) : String :=
  "release of slot " ++ toString slot ++ " that is not reserved"

end AttachedState
