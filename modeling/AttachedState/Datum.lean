/-!
Plain data: what host code hands over as an extension's value and what is reported about it.
-/

namespace AttachedState

-- Numbers are integers of any size.
inductive Datum where
  | null
  | truth (value : Bool)
  | number (value : Int)
  | text (value : String)
  | list (items : List Datum)
  | fields (entries : List (String × Datum))
deriving Inhabited, Repr

namespace Datum

def int64? : Datum → Option Int
  | number n => if Int64.minValue.toInt ≤ n ∧ n ≤ Int64.maxValue.toInt then some n else none
  | _ => none

def wrappedSum (a b : Int) : Int := (Int64.ofInt (a + b)).toInt

-- Only signed 64-bit integers are added; any other pair is left as the first one.
def plus (value addend : Datum) : Datum :=
  match value.int64?, addend.int64? with
  | some a, some b => number (wrappedSum a b)
  | _, _ => value

end Datum

end AttachedState
