/-!
Binary64 numbers as whole multiples of the least positive one. A *pattern* is the bit pattern of a
number without its sign; the patterns of finite numbers are those below `infinity`, and `units`
gives the size of one in steps of 2^-1074. `nearest` is the way back, from a quotient of natural
numbers to the pattern of the number closest to it.
-/

namespace Lox.Binary64

/-- The bit above the 52 bits of a fraction, which the mantissa of most numbers has and no pattern
shows. -/
def hidden : Nat := 0x10000000000000

def infinity : Nat := 0x7ff0000000000000

def signBit : Nat := 0x8000000000000000

def pattern (x : Float) : Nat := x.toBits.toNat % signBit

def isNegative (x : Float) : Bool := decide (signBit ≤ x.toBits.toNat)

def ofPattern (negative : Bool) (p : Nat) : Float :=
  Float.ofBits (UInt64.ofNat (if negative then signBit + p else p))

def one : Nat := 1 <<< 1074

def units (p : Nat) : Nat :=
  if p < hidden then p else (hidden + p % hidden) <<< (p / hidden - 1)

def roundHalfEven (n d : Nat) : Nat :=
  let q := n / d
  let r := n % d
  if 2 * r < d then q else if d < 2 * r then q + 1 else q + q % 2

/-- The pattern of the number nearest to `n / d`. A mantissa that rounds up to 54 bits carries into
the exponent by itself, and what is too large is infinity. -/
def nearest (n d : Nat) : Nat :=
  let shift := (n * one / d).log2 - 52
  min infinity (shift * hidden + roundHalfEven (n * one) (d <<< shift))

structure Decimal where
  digits : Nat
  exponent : Int
deriving DecidableEq, Repr

def Decimal.nearest (d : Decimal) : Nat :=
  match d.exponent with
  | .ofNat k => Binary64.nearest (d.digits * Nat.pow 10 k) 1
  | .negSucc k => Binary64.nearest d.digits (Nat.pow 10 (k + 1))

def ofDigits (ds : List Char) : Nat := ds.foldl (fun n c => 10 * n + (c.toNat - '0'.toNat)) 0

def ofNumeral (whole fraction : List Char) : Float :=
  ofPattern false (nearest (ofDigits (whole ++ fraction)) (Nat.pow 10 fraction.length))

end Lox.Binary64
