import AttachedState.Action

/-!
Blocks: the extensions of one context, by slot.  A block is as long as the highest slot supplied for
it requires, and never grows.
-/

namespace AttachedState

structure ObjectId where
  number : Nat
deriving DecidableEq

-- An object keeps the name of the registry it was created through.
structure Object where
  id : ObjectId
  value : Value
  through : Name
  onDrop : List Action

structure Block where
  handle : Handle
  slots : List (Option Object)

namespace Block

def sizeFor (slots : List Slot) : Nat := (slots.map (· + 1)).foldr max 0

def slotCount (b : Block) : Nat := b.slots.length

def object? (b : Block) (slot : Slot) : Option Object := b.slots[slot]?.join

def installed (b : Block) : List Slot :=
  (List.range b.slotCount).filter fun slot => (b.object? slot).isSome

def objects (b : Block) : List Object := b.slots.filterMap id

-- An object of another kind is not read.
def read? (b : Block) (slot : Slot) (kind : Kind) : Option Value :=
  (b.object? slot).bind fun object =>
    if object.value.kind = kind then some object.value else none

def outline (b : Block) : Outline :=
  .named "ExtensionBlock"
    [("handle", .atom b.handle.inspected), ("slot_count", .number b.slotCount),
      ("installed", .list (b.installed.map .number))]

end Block

end AttachedState
