/-!
Handles of host contexts.  A context is some long-lived object of the host program; all that is
known of it here is its address.  Handles are compared, ordered and shown, never followed.
-/

namespace AttachedState

def addressText (address : UInt64) : String :=
  "0x" ++ String.ofList (Nat.toDigits 16 address.toNat)

-- Address zero belongs to no context, so no handle has it.  Two contexts may have the same handle
-- only if they do not live at the same time.
structure Handle where
  address : UInt64
  address_ne_zero : address ≠ 0
deriving DecidableEq

namespace Handle

def ofAddress? (address : UInt64) : Option Handle :=
  if h : address ≠ 0 then some ⟨address, h⟩ else none

-- A raw pointer is only its address.
def ofPointer? (pointer : UInt64) : Option Handle := ofAddress? pointer

theorem ofAddress?_address (h : Handle) : ofAddress? h.address = some h := by
  simp [ofAddress?, h.address_ne_zero]

theorem ofAddress?_eq_none_iff {address : UInt64} : ofAddress? address = none ↔ address = 0 := by
  unfold ofAddress?; split <;> simp_all

theorem ext_address {a b : Handle} (same : a.address = b.address) : a = b := by
  cases a; cases b; cases same; rfl

-- Addresses are unsigned.
def compare (a b : Handle) : Ordering := Ord.compare a.address b.address

def ascending (a b : Handle) : Bool := a.address ≤ b.address

def text (h : Handle) : String := addressText h.address

-- It always stays on one line.
def inspected (h : Handle) : String := "ContextHandle(" ++ h.text ++ ")"

end Handle

def sortedHandles (handles : List Handle) : List Handle := handles.mergeSort Handle.ascending

-- On a sorted list this leaves no repetition.
def withoutRepeats : List Handle → List Handle
  | [] => []
  | h :: rest =>
    match withoutRepeats rest with
    | [] => [h]
    | next :: later => if h = next then next :: later else h :: next :: later

-- A reference differs from a raw pointer in that it is never null.
structure Reference where
  address : UInt64
  address_ne_zero : address ≠ 0

namespace Reference

def handle (r : Reference) : Handle := ⟨r.address, r.address_ne_zero⟩

theorem ofPointer?_address (r : Reference) : Handle.ofPointer? r.address = some r.handle :=
  r.handle.ofAddress?_address

structure Observation where
  pointerAgrees : Bool
  addressAgrees : Bool
  again : Bool
  distinct : Bool

-- The handle of an object against the one its pointer gives, its address, the handle taken a
-- second time, and the handle of another live object.
def observe (object other : Reference) : Observation :=
  { pointerAgrees := Handle.ofPointer? object.address == some object.handle
    addressAgrees := object.handle.address == object.address
    again := object.handle == object.handle
    distinct := object.handle != other.handle }

end Reference

end AttachedState
