import KernelWrap.Decimal.Shortest

/-!
JSON numbers. A number without fraction and exponent that fits into 64 bits is an integer; any
other is a floating point number, read from as many of its digits as fit into 64 bits and scaled
by a power of ten. Minus zero is a floating point number, and one that is too large is none.
-/

namespace KernelWrap.Json

inductive Number where
  | integer (n : Int)
  | float (x : Float)

def Number.text : Number → String
  | integer n => s!"integer `{n}`"
  | float x => s!"floating point `{Decimal.floatText x}`"

def isDigit (c : Char) : Bool := '0' ≤ c && c ≤ '9'

def digitValue (c : Char) : Nat := c.toNat - 48

/-- Appends digits to a number as long as it fits into 64 bits; also the digits that are left. -/
def absorb (n : Nat) : List Char → Nat × List Char
  | [] => (n, [])
  | c :: s =>
    let next := n * 10 + digitValue c
    if next < 1 <<< 64 then absorb next s else (n, c :: s)

def digitsValue (s : List Char) : Nat := s.foldl (fun n c => n * 10 + digitValue c) 0

def powerOfTen (k : Nat) : Float := Float.ofScientific 1 false k

/-- Scales a number by a power of ten, in steps when the power is below all floating point
numbers; nothing when the result is too large. -/
def scale : Nat → Float → Int → Option Float
  | 0, x, _ => some x
  | fuel + 1, x, k =>
    if k.natAbs ≤ 308 then
      if 0 ≤ k then
        let y := x * powerOfTen k.natAbs
        if y.isInf then none else some y
      else some (x / powerOfTen k.natAbs)
    else if x == 0 then some x
    else if 0 ≤ k then none
    else scale fuel (x / powerOfTen 308) (k + 308)

structure NumberText where
  negative : Bool
  whole : List Char
  fraction : Option (List Char)
  /-- The sign of the exponent and its digits. -/
  exponent : Option (Bool × List Char)

def signed (negative : Bool) (x : Float) : Float := if negative then -x else x

def NumberText.float? (t : NumberText) : Option Float :=
  let (n, left) := absorb 0 t.whole
  let fraction := t.fraction.getD []
  let (n, unread) := absorb n fraction
  let start : Int := left.length - ((fraction.length - unread.length : Nat) : Int)
  let (negative, e) := match t.exponent with
    | none => (false, 0)
    | some (negative, e) => (negative, digitsValue e)
  if 1 <<< 31 ≤ e then
    if n ≠ 0 && !negative then none else some (signed t.negative 0)
  else
    let power : Int := if negative then start - e else start + e
    (scale 8 n.toUInt64.toFloat power).map (signed t.negative)

def NumberText.number? (t : NumberText) : Option Number :=
  let n := digitsValue t.whole
  match t.fraction, t.exponent with
  | none, none =>
    if t.negative then
      if n = 0 || 1 <<< 63 < n then t.float?.map .float else some (.integer (-n))
    else if n < 1 <<< 64 then some (.integer n)
    else t.float?.map .float
  | _, _ => t.float?.map .float

end KernelWrap.Json
