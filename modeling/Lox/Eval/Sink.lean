/-!
Where text is written, in UTF-8. A sink may refuse a text, and then gives a reason; what it accepted
before stays, and so does the part of the refused text that it accepted.
-/

namespace Lox

def utf8 (text : String) : List UInt8 := text.toUTF8.data.toList

structure Write where
  text : String
  /-- How many of its bytes were accepted, if it was refused. -/
  cut? : Option Nat

def Write.bytes : Write → List UInt8
  | ⟨text, none⟩ => utf8 text
  | ⟨text, some n⟩ => (utf8 text).take n

structure Sink where
  /-- Whether a text is refused, from the writes before it, the latest first; and then, how many of
  its bytes are accepted. -/
  refuses? : List Write → String → Option Nat
  reason : String
  writes : List Write

namespace Sink

def unlimited : Sink := ⟨fun _ _ => none, "", []⟩

def lineEnds : List Write → Nat
  | [] => 0
  | w :: rest => w.bytes.count 10 + lineEnds rest

def lines (n : Nat) (reason : String) : Sink :=
  ⟨fun writes _ => if n ≤ lineEnds writes then some 0 else none, reason, []⟩

def bytes (s : Sink) : List UInt8 := s.writes.reverse.flatMap Write.bytes

def accepted (s : Sink) : List String :=
  (s.writes.filter (·.cut?.isNone)).map (·.text)

def text (s : Sink) : String := String.join s.accepted.reverse

def clear (s : Sink) : Sink := { s with writes := [] }

def offer (text : String) : Sink → Bool × Sink
  | ⟨refuses?, reason, writes⟩ =>
    let cut? := refuses? writes text
    (cut?.isNone, ⟨refuses?, reason, ⟨text, cut?⟩ :: writes⟩)

/-- Writes pieces one after the other up to the first that is refused. A piece without text is not
written. -/
def write : List String → Sink → Bool × Sink
  | [], s => (true, s)
  | piece :: rest, s =>
    if piece.isEmpty then write rest s
    else
      let (accepted, s) := s.offer piece
      if accepted then write rest s else (false, s)

def writeLine (pieces : List String) (s : Sink) : Bool × Sink := s.write (pieces ++ ["\n"])

end Sink

end Lox
