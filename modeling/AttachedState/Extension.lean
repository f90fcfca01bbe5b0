import AttachedState.Datum

/-!
Extensions: the typed values that modules attach to contexts.  A value is read back only by a key of
its own kind, so kinds never mix, even where their values look alike.
-/

namespace AttachedState

inductive Kind where
  | byte
  | word
  | integer
  | size
  | truth
  | text
  | literal
  | unit
  | integers
  | probe
deriving DecidableEq, Repr

namespace Kind

def typeName : Kind → String
  | byte => "u8"
  | word => "u32"
  | integer => "i64"
  | size => "usize"
  | truth => "bool"
  | text => "alloc::string::String"
  | literal => "&str"
  | unit => "()"
  | integers => "alloc::vec::Vec<i64>"
  | probe => "oracle_driver::session::Probe"

end Kind

-- A probe's value is any data; it is the kind whose drop is reported.
inductive Value where
  | byte (value : UInt8)
  | word (value : UInt32)
  | integer (value : Int64)
  | size (value : UInt64)
  | truth (value : Bool)
  | text (value : String)
  | literal (value : String)
  | unit
  | integers (values : List Int64)
  | probe (value : Datum)

namespace Value

def kind : Value → Kind
  | byte _ => .byte
  | word _ => .word
  | integer _ => .integer
  | size _ => .size
  | truth _ => .truth
  | text _ => .text
  | literal _ => .literal
  | unit => .unit
  | integers _ => .integers
  | probe _ => .probe

def datum : Value → Datum
  | byte n => .number n.toNat
  | word n => .number n.toNat
  | integer n => .number n.toInt
  | size n => .number n.toNat
  | truth b => .truth b
  | text s => .text s
  | literal s => .text s
  | unit => .null
  | integers ns => .list (ns.map fun n => .number n.toInt)
  | probe v => .fields [("probe", v)]

def below? (bound : Nat) : Datum → Option Nat
  | .number n => if 0 ≤ n ∧ n < bound then some n.toNat else none
  | _ => none

def ofDatum? : Kind → Datum → Option Value
  | .byte, d => (below? UInt8.size d).map fun n => .byte n.toUInt8
  | .word, d => (below? UInt32.size d).map fun n => .word n.toUInt32
  | .integer, d => d.int64?.map fun n => .integer (Int64.ofInt n)
  | .size, d => (below? UInt64.size d).map fun n => .size n.toUInt64
  | .truth, .truth b => some (.truth b)
  | .text, .text s => some (.text s)
  | .literal, .text s => some (.literal s)
  | .unit, .null => some .unit
  | .integers, .list items => (items.mapM Datum.int64?).map fun ns => .integers (ns.map Int64.ofInt)
  | .probe, d => some (.probe d)
  | _, _ => none

theorem kind_of_ofDatum? {k : Kind} {d : Datum} {v : Value} (fits : ofDatum? k d = some v) :
    v.kind = k := by
  unfold ofDatum? at fits
  split at fits
  all_goals simp only [Option.map_eq_some_iff, Option.some.injEq, reduceCtorEq] at fits
  case h_5 | h_6 | h_7 | h_8 | h_10 => subst fits; rfl
  all_goals obtain ⟨_, _, rfl⟩ := fits; rfl

end Value

end AttachedState
