import Lox.Token.Basic

/-!
Cutting a source into tokens. Each step takes the longest piece that some lexical class allows, so
the pieces laid end to end are the source (`munch_append`). A token or error carries the line on
which its piece ends.
-/

namespace Lox

structure Position where
  offset : Nat
  line : Nat
deriving DecidableEq, Repr

namespace Position

def start : Position := ⟨0, 1⟩

def advance (pos : Position) : List Char → Position
  | [] => pos
  | c :: cs => advance ⟨pos.offset + c.utf8Size, if c = '\n' then pos.line + 1 else pos.line⟩ cs

theorem advance_append (pos : Position) (cs ds : List Char) :
    pos.advance (cs ++ ds) = (pos.advance cs).advance ds := by
  induction cs generalizing pos with
  | nil => rfl
  | cons c cs ih => exact ih _

end Position

inductive LexicalFault where
  | unexpectedCharacter
  | unterminatedString
deriving DecidableEq, Repr

namespace LexicalFault

def message : LexicalFault → String
  | unexpectedCharacter => "Unexpected character."
  | unterminatedString => "Unterminated string."

end LexicalFault

structure LexicalError where
  fault : LexicalFault
  line : Nat
deriving DecidableEq, Repr

inductive Item where
  | token (t : Token)
  | error (e : LexicalError)

namespace Scan

def isBlank (c : Char) : Bool := c = ' ' || c = '\r' || c = '\t' || c = '\n'

def isDigit (c : Char) : Bool := '0' ≤ c && c ≤ '9'

def isWordStart (c : Char) : Bool :=
  ('a' ≤ c && c ≤ 'z') || ('A' ≤ c && c ≤ 'Z') || c = '_'

def isWordPart (c : Char) : Bool := isWordStart c || isDigit c

inductive Class where
  | skipped
  | token (type : TokenType)
  | rejected (fault : LexicalFault)

structure Munch where
  kind : Class
  text : List Char
  rest : List Char

def munchString (cs : List Char) : Munch :=
  let contents := cs.takeWhile (· != '"')
  match cs.dropWhile (· != '"') with
  | quote :: rest => ⟨.token (.string (.ofList contents)), '"' :: contents ++ [quote], rest⟩
  | [] => ⟨.rejected .unterminatedString, '"' :: contents, []⟩

/-- A point belongs to the number only if a digit follows it. -/
def munchNumber (c : Char) (cs : List Char) : Munch :=
  let whole := c :: cs.takeWhile isDigit
  match cs.dropWhile isDigit with
  | '.' :: d :: rest =>
    if isDigit d then
      let fraction := d :: rest.takeWhile isDigit
      ⟨.token (.number (Binary64.ofNumeral whole fraction)), whole ++ '.' :: fraction,
        rest.dropWhile isDigit⟩
    else ⟨.token (.number (Binary64.ofNumeral whole [])), whole, '.' :: d :: rest⟩
  | rest => ⟨.token (.number (Binary64.ofNumeral whole [])), whole, rest⟩

def wordType (word : List Char) : TokenType :=
  match Keyword.ofSpelling? word with
  | some k => .keyword k
  | none => .identifier

def munchWord (c : Char) (cs : List Char) : Munch :=
  let word := c :: cs.takeWhile isWordPart
  ⟨.token (wordType word), word, cs.dropWhile isWordPart⟩

def punct? : Char → Option (Punct × Option Punct)
  | '(' => some (.leftParen, none)
  | ')' => some (.rightParen, none)
  | '\x7b' => some (.leftBrace, none)
  | '\x7d' => some (.rightBrace, none)
  | ',' => some (.comma, none)
  | '.' => some (.dot, none)
  | '-' => some (.minus, none)
  | '+' => some (.plus, none)
  | ';' => some (.semicolon, none)
  | '/' => some (.slash, none)
  | '*' => some (.star, none)
  | '!' => some (.bang, some .bangEqual)
  | '=' => some (.equal, some .equalEqual)
  | '<' => some (.less, some .lessEqual)
  | '>' => some (.greater, some .greaterEqual)
  | _ => none

def munchPunct (c : Char) (cs : List Char) : Munch :=
  match punct? c, cs with
  | some (_, some longer), '=' :: rest => ⟨.token (.punct longer), [c, '='], rest⟩
  | some (short, _), _ => ⟨.token (.punct short), [c], cs⟩
  | none, _ => ⟨.rejected .unexpectedCharacter, [c], cs⟩

/-- The piece at the head of the source `c :: cs`. A comment leaves the newline that ends it. -/
def munch (c : Char) (cs : List Char) : Munch :=
  if isBlank c then ⟨.skipped, [c], cs⟩
  else if c = '"' then munchString cs
  else if isDigit c then munchNumber c cs
  else if isWordStart c then munchWord c cs
  else if c = '/' ∧ cs.head? = some '/' then
    ⟨.skipped, c :: cs.takeWhile (· != '\n'), cs.dropWhile (· != '\n')⟩
  else munchPunct c cs

theorem munchString_append (cs : List Char) :
    (munchString cs).text ++ (munchString cs).rest = '"' :: cs := by
  have h := List.takeWhile_append_dropWhile (p := (· != '"')) (l := cs)
  unfold munchString
  cases hd : cs.dropWhile (· != '"') with
  | nil => simpa [hd] using h
  | cons quote rest => simpa [hd] using h

theorem munchNumber_append (c : Char) (cs : List Char) :
    (munchNumber c cs).text ++ (munchNumber c cs).rest = c :: cs := by
  have h := List.takeWhile_append_dropWhile (p := isDigit) (l := cs)
  unfold munchNumber
  split
  · next d rest hd =>
    rw [hd] at h
    split
    · simpa using h
    · simpa using h
  · simp

theorem munchWord_append (c : Char) (cs : List Char) :
    (munchWord c cs).text ++ (munchWord c cs).rest = c :: cs := by
  simp [munchWord]

theorem munchPunct_append (c : Char) (cs : List Char) :
    (munchPunct c cs).text ++ (munchPunct c cs).rest = c :: cs := by
  unfold munchPunct
  split <;> rfl

theorem munch_append (c : Char) (cs : List Char) :
    (munch c cs).text ++ (munch c cs).rest = c :: cs := by
  unfold munch
  split
  · rfl
  split
  · next h => rw [h]; exact munchString_append cs
  split
  · exact munchNumber_append c cs
  split
  · exact munchWord_append c cs
  split
  · simp
  · exact munchPunct_append c cs

theorem munchString_text (cs : List Char) : (munchString cs).text ≠ [] := by
  unfold munchString
  split <;> simp

theorem munchNumber_text (c : Char) (cs : List Char) : (munchNumber c cs).text ≠ [] := by
  unfold munchNumber
  split
  · split <;> simp
  · simp

theorem munchPunct_text (c : Char) (cs : List Char) : (munchPunct c cs).text ≠ [] := by
  unfold munchPunct
  split <;> simp

theorem munch_text (c : Char) (cs : List Char) : (munch c cs).text ≠ [] := by
  unfold munch
  split
  · simp
  split
  · exact munchString_text cs
  split
  · exact munchNumber_text c cs
  split
  · simp [munchWord]
  split
  · simp
  · exact munchPunct_text c cs

theorem length_munch_rest (c : Char) (cs : List Char) :
    (munch c cs).rest.length < (c :: cs).length := by
  have h := congrArg List.length (munch_append c cs)
  have ht := List.length_pos_iff.2 (munch_text c cs)
  rw [List.length_append] at h
  omega

def item? (before after : Position) (m : Munch) : Option Item :=
  match m.kind with
  | .skipped => none
  | .token type => some (.token ⟨type, .ofList m.text, before.offset, after.line⟩)
  | .rejected fault => some (.error ⟨fault, after.line⟩)

def itemsFrom (pos : Position) : List Char → List Item
  | [] => [.token ⟨.eof, "", pos.offset, pos.line⟩]
  | c :: cs =>
    let m := munch c cs
    let next := pos.advance m.text
    (item? pos next m).toList ++ itemsFrom next m.rest
termination_by cs => cs.length
decreasing_by exact length_munch_rest c cs

end Scan

def scan (source : String) : List Item := Scan.itemsFrom .start source.toList

namespace Item

def token? : Item → Option Token
  | token t => some t
  | error _ => none

def error? : Item → Option LexicalError
  | token _ => none
  | error e => some e

end Item

end Lox
