/-!
The shortest decimal that reads back as a floating point number. A finite number is `m · 2 ^ q`;
every real between the middles to its two neighbours rounds to it, the middles themselves when `m`
is even. On the coarsest power of ten with a multiple in that interval the nearest multiple is
taken, the even one of two that are equally near.
-/

namespace KernelWrap.Decimal

structure Scaled where
  digits : Nat
  exponent : Int
  deriving Repr, DecidableEq

/-- The absolute value of a finite number as a multiple of a power of two. -/
structure Binary where
  mantissa : Nat
  exponent : Int
  /-- The neighbour below is only half as far away. -/
  isPower : Bool
  deriving Repr, DecidableEq

def Binary.ofBits (bits : UInt64) : Binary :=
  let fraction := bits.toNat % (1 <<< 52)
  let biased : Nat := bits.toNat / (1 <<< 52) % (1 <<< 11)
  if biased = 0 then ⟨fraction, -1074, false⟩
  else ⟨(1 <<< 52) + fraction, (biased : Int) - 1075, fraction = 0 && 1 < biased⟩

/-- A multiple of `10 ^ k` in the interval of `b`, the nearest to `b` if there are two. -/
def Binary.multiple? (b : Binary) (k : Int) : Option Nat :=
  let q := b.exponent - 2
  let up := (1 <<< q.toNat) * Nat.pow 10 (-k).toNat
  let down := (1 <<< (-q).toNat) * Nat.pow 10 k.toNat
  let value := 4 * b.mantissa * up
  let low := (4 * b.mantissa - if b.isPower then 1 else 2) * up
  let high := (4 * b.mantissa + 2) * up
  let holds (n : Nat) : Bool :=
    if b.mantissa % 2 = 0 then low ≤ n * down && n * down ≤ high
    else low < n * down && n * down < high
  let n := value / down
  match holds n, holds (n + 1) with
  | true, true =>
    let below := value - n * down
    let above := (n + 1) * down - value
    some (if below < above || (below = above && n % 2 = 0) then n else n + 1)
  | true, false => some n
  | false, true => some (n + 1)
  | false, false => none

def Binary.shortest (b : Binary) : Scaled :=
  if b.mantissa = 0 then ⟨0, 0⟩
  else
    ((List.range 660).findSome? fun (i : Nat) =>
      let k : Int := 320 - (i : Int)
      (b.multiple? k).map fun n => ⟨n, k⟩).getD ⟨0, 0⟩

def zeros (n : Nat) : List Char := List.replicate n '0'

def exponentText (e : Int) : List Char := (if 0 ≤ e then ['+'] else []) ++ (toString e).toList

/-- A decimal as text: positional when its point lies within five places before and sixteen places
behind the first digit, with `.0` behind an integer, and by a power of ten otherwise. -/
def Scaled.text (s : Scaled) : List Char :=
  let ds := Nat.toDigits 10 s.digits
  let point : Int := ds.length + s.exponent
  if 0 ≤ s.exponent && point ≤ 16 then ds ++ zeros s.exponent.toNat ++ ['.', '0']
  else if 0 < point && point ≤ 16 then ds.take point.toNat ++ '.' :: ds.drop point.toNat
  else if -5 < point && point ≤ 0 then '0' :: '.' :: zeros (-point).toNat ++ ds
  else
    let tail := match ds.drop 1 with
      | [] => []
      | rest => '.' :: rest
    ds.take 1 ++ tail ++ 'e' :: exponentText (point - 1)

def floatText (x : Float) : String :=
  let bits := x.toBits
  let sign := if bits.toNat / (1 <<< 63) = 1 then ['-'] else []
  String.ofList (sign ++ (Binary.ofBits bits).shortest.text)

end KernelWrap.Decimal
