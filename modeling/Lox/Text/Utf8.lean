/-!
Reading UTF-8. A fault says where the first sequence begins that is no character, and how many of
its bytes could not be part of one.
-/

namespace Lox.Text.Utf8

inductive Fault where
  /-- So many bytes from here on begin no character. -/
  | invalid (length index : Nat)
  | incomplete (index : Nat)
deriving DecidableEq, Repr

def Fault.message : Fault → String
  | invalid length index =>
    "invalid utf-8 sequence of " ++ toString length ++ " bytes from index " ++ toString index
  | incomplete index => "incomplete utf-8 byte sequence from index " ++ toString index

abbrev Range := UInt8 × UInt8

def continuation : Range := (0x80, 0xbf)

/-- The bytes that may follow a first byte. The second one is narrowed where the sequence would
spell a character in more bytes than it needs, a surrogate, or no character at all. -/
def following? (first : UInt8) : Option (List Range) :=
  if first < 0x80 then some []
  else if first < 0xc2 then none
  else if first < 0xe0 then some [continuation]
  else if first = 0xe0 then some [(0xa0, 0xbf), continuation]
  else if first = 0xed then some [(0x80, 0x9f), continuation]
  else if first < 0xf0 then some [continuation, continuation]
  else if first = 0xf0 then some [(0x90, 0xbf), continuation, continuation]
  else if first < 0xf4 then some [continuation, continuation, continuation]
  else if first = 0xf4 then some [(0x80, 0x8f), continuation, continuation]
  else none

def matching : List Range → List UInt8 → Nat
  | (lo, hi) :: ranges, b :: rest => if lo ≤ b && b ≤ hi then matching ranges rest + 1 else 0
  | _, _ => 0

def leadingBits (first : UInt8) : Nat → Nat
  | 0 => first.toNat
  | n => first.toNat % (1 <<< (6 - n))

def spell (first : UInt8) (tail : List UInt8) : Char :=
  .ofNat (tail.foldl (fun code b => code * 64 + b.toNat % 64) (leadingBits first tail.length))

def charsFrom (index : Nat) : List UInt8 → Except Fault (List Char)
  | [] => .ok []
  | first :: rest =>
    match following? first with
    | none => .error (.invalid 1 index)
    | some ranges =>
      let n := matching ranges rest
      if n < ranges.length then
        .error (if n < rest.length then .invalid (n + 1) index else .incomplete index)
      else
        match charsFrom (index + 1 + n) (rest.drop n) with
        | .ok cs => .ok (spell first (rest.take n) :: cs)
        | .error fault => .error fault
termination_by bytes => bytes.length
decreasing_by
  simp only [List.length_drop, List.length_cons]
  omega

def decode (bytes : List UInt8) : Except Fault String := (charsFrom 0 bytes).map String.ofList

end Lox.Text.Utf8
