import Lox.Number.Shortest

/-!
The written forms of a number: `printed` is what a program shows, `literal` stands in a token list,
`expanded` in the parenthesised form of a tree and `json` in its JSON form. `literal` and `expanded`
write a whole number digit for digit; all else has the shortest digits that read back.
-/

namespace Lox.Binary64

inductive Datum where
  | notANumber
  | infinite (negative : Bool)
  | finite (negative : Bool) (p : Nat)
deriving DecidableEq, Repr

def datum (x : Float) : Datum :=
  let p := pattern x
  if p < infinity then .finite (isNegative x) p
  else if p = infinity then .infinite (isNegative x)
  else .notANumber

def signed (negative : Bool) (text : List Char) : List Char :=
  if negative then '-' :: text else text

def whole? (p : Nat) : Option Nat := if units p % one = 0 then some (units p / one) else none

namespace Decimal

def text (d : Decimal) : List Char := Nat.toDigits 10 d.digits

def leading (d : Decimal) : Int := d.exponent + d.text.length - 1

def positional (d : Decimal) : List Char :=
  match d.exponent with
  | .ofNat k => d.text ++ List.replicate k '0'
  | .negSucc k =>
    let padded := List.replicate (k + 2 - d.text.length) '0' ++ d.text
    padded.take (padded.length - (k + 1)) ++ '.' :: padded.drop (padded.length - (k + 1))

def scientific (width : Nat) (d : Decimal) : List Char :=
  let mantissa := match d.text with
    | first :: (second :: rest) => first :: '.' :: second :: rest
    | single => single
  let places := Nat.toDigits 10 d.leading.natAbs
  mantissa ++ 'e' :: (if d.leading < 0 then '-' else '+') ::
    (List.replicate (width - places.length) '0' ++ places)

end Decimal

/-- How a finite number is written: positionally while the exponent of its leading digit lies
between `least` and `greatest`. -/
structure Layout where
  tie : Tie
  least : Int
  greatest : Int
  wholeSuffix : List Char
  exponentWidth : Nat

def Layout.write (l : Layout) (p : Nat) : List Char :=
  let d := if p = 0 then ⟨0, 0⟩ else shortest l.tie p
  if l.least ≤ d.leading ∧ d.leading ≤ l.greatest then
    d.positional ++ (if 0 ≤ d.exponent then l.wholeSuffix else [])
  else d.scientific l.exponentWidth

def Layout.printed : Layout := ⟨.up, -4, 15, [], 2⟩

def Layout.plain : Layout := ⟨.up, -324, 308, [], 0⟩

def Layout.json : Layout := ⟨.even, -5, 15, ".0".toList, 1⟩

def printed (x : Float) : String :=
  match datum x with
  | .notANumber => "nan"
  | .infinite negative => .ofList (signed negative "inf".toList)
  | .finite negative p => .ofList (signed (negative && p != 0) (Layout.printed.write p))

def wholeOrPlain (bound : Option Nat) (p : Nat) : List Char :=
  match whole? p with
  | some n =>
    if bound.all (n < ·) then Nat.toDigits 10 n ++ ".0".toList else Layout.plain.write p
  | none => Layout.plain.write p

/-- The number of a token. Both zeros are `0.0`, and a whole number from 2^63 up has no `.0`. -/
def literal (x : Float) : String :=
  match datum x with
  | .notANumber => "NaN"
  | .infinite negative => .ofList (signed negative "inf".toList)
  | .finite negative p =>
    .ofList (signed (negative && p != 0) (wholeOrPlain (some signBit) p))

def expanded (x : Float) : String :=
  match datum x with
  | .notANumber => "NaN"
  | .infinite negative => .ofList (signed negative "inf".toList)
  | .finite negative p => .ofList (signed negative (wholeOrPlain none p))

def json (x : Float) : String :=
  match datum x with
  | .finite negative p => .ofList (signed negative (Layout.json.write p))
  | _ => "null"

end Lox.Binary64
