import Lox.Token.Scan

/-!
The scanner that yields its items one at a time. It examines single bytes, and takes texts out of
the source by the places of their bytes.
-/

namespace Lox

def slice? (source : String) (first last : Nat) : Option String :=
  if h : String.Pos.Raw.IsValid source ⟨first⟩ ∧ String.Pos.Raw.IsValid source ⟨last⟩ ∧
      first ≤ last then
    some (source.slice ⟨⟨first⟩, h.1⟩ ⟨⟨last⟩, h.2.1⟩ h.2.2).copy
  else none

structure Scanner where
  source : String
  start : Nat
  /-- The first byte that was not examined; one more than there are once the end was yielded. -/
  curr : Nat
  line : Nat
  pending : Option TokenType

namespace Scanner

open Scan

def ofSource (source : String) : Scanner := ⟨source, 0, 0, 1, none⟩

variable (s : Scanner)

def length : Nat := s.source.utf8ByteSize

/-- The bytes that were not examined, each as the character it is the code of. -/
def ahead : List Char := (s.source.toByteArray.data.toList.drop s.curr).map .ofUInt8

def examined : List Char := { s with curr := s.start }.ahead.take (s.curr - s.start)

def peek : Char := s.ahead.headD '\x00'

def peekNext : Char := s.ahead.tail.headD '\x00'

def skip (n : Nat) : Scanner := { s with curr := s.curr + n }

def skipWhile (p : Char → Bool) : Scanner := s.skip (s.ahead.takeWhile p).length

def passWhile (p : Char → Bool) : Scanner :=
  { s.skipWhile p with line := s.line + (s.ahead.takeWhile p).count '\n' }

def emit (type : TokenType) : Scanner := { s with pending := some type }

abbrev Result := Option (Scanner × Option LexicalError)

def closeString : Result :=
  (slice? s.source (s.start + 1) (s.curr - 1)).map fun contents => (s.emit (.string contents), none)

def string : Result :=
  let t := s.passWhile (· != '"')
  if t.length ≤ t.curr then some (t, some ⟨.unterminatedString, t.line⟩)
  else (t.skip 1).closeString

def closeNumber : Result :=
  (slice? s.source s.start s.curr).map fun text =>
    let whole := text.toList.takeWhile (· != '.')
    let fraction := (text.toList.dropWhile (· != '.')).tail
    (s.emit (.number (Binary64.ofNumeral whole fraction)), none)

def number : Result :=
  let t := s.skipWhile isDigit
  if t.peek = '.' ∧ isDigit t.peekNext then ((t.skip 1).skipWhile isDigit).closeNumber
  else t.closeNumber

def word : Scanner :=
  let t := s.skipWhile isWordPart
  t.emit (wordType t.examined)

def punct (short : Punct) : Option Punct → Scanner
  | some longer =>
    if s.peek = '=' then (s.skip 1).emit (.punct longer) else s.emit (.punct short)
  | none => s.emit (.punct short)

def unexpected : Result :=
  (slice? s.source s.start s.length).map fun text =>
    let t := { s with curr := s.start + (text.toList.head?.map Char.utf8Size).getD 1 }
    (t, some ⟨.unexpectedCharacter, t.line⟩)

def scanToken : Result :=
  match s.ahead with
  | [] => none
  | b :: _ =>
    let t := s.skip 1
    if b = '\n' then some ({ t with line := t.line + 1 }, none)
    else if isBlank b then some (t, none)
    else if b = '"' then t.string
    else if isDigit b then t.number
    else if isWordStart b then some (t.word, none)
    else if b = '/' ∧ t.peek = '/' then some ((t.skip 1).skipWhile (· != '\n'), none)
    else
      match punct? b with
      | some (short, longer?) => some (t.punct short longer?, none)
      | none => t.unexpected

def Passes (r : Result) : Prop := ∀ t ∈ r, t.1.source = s.source ∧ s.curr ≤ t.1.curr

variable {s}

theorem string_passes : s.Passes s.string := by
  unfold string
  dsimp only
  split
  · rintro _ ⟨⟩
    exact ⟨rfl, Nat.le_add_right _ _⟩
  · rintro _ ht
    obtain ⟨contents, -, rfl⟩ := Option.map_eq_some_iff.1 ht
    exact ⟨rfl, Nat.le_add_right_of_le (Nat.le_add_right _ _)⟩

theorem number_passes : s.Passes s.number := by
  unfold number
  dsimp only
  split
  · rintro _ ht
    obtain ⟨text, -, rfl⟩ := Option.map_eq_some_iff.1 ht
    exact ⟨rfl, Nat.le_add_right_of_le (Nat.le_add_right_of_le (Nat.le_add_right _ _))⟩
  · rintro _ ht
    obtain ⟨text, -, rfl⟩ := Option.map_eq_some_iff.1 ht
    exact ⟨rfl, Nat.le_add_right _ _⟩

theorem punct_passes (short : Punct) (longer? : Option Punct) :
    s.Passes (some (s.punct short longer?, none)) := by
  unfold punct
  rintro _ ⟨⟩
  split
  · split
    · exact ⟨rfl, Nat.le_add_right _ _⟩
    · exact ⟨rfl, Nat.le_refl _⟩
  · exact ⟨rfl, Nat.le_refl _⟩

theorem unexpected_passes (hs : s.curr = s.start + 1) : s.Passes s.unexpected := by
  rintro _ ht
  obtain ⟨text, -, rfl⟩ := Option.map_eq_some_iff.1 ht
  have hwidth : 1 ≤ (text.toList.head?.map Char.utf8Size).getD 1 := by
    cases text.toList with
    | nil => exact Nat.le_refl 1
    | cons c cs => exact c.utf8Size_pos
  exact ⟨rfl, hs ▸ Nat.add_le_add_left hwidth s.start⟩

theorem scanToken_passes (hs : s.curr = s.start) : (s.skip 1).Passes s.scanToken := by
  unfold scanToken
  split
  · rintro _ ⟨⟩
  dsimp only
  split
  · rintro _ ⟨⟩
    exact ⟨rfl, Nat.le_refl _⟩
  split
  · rintro _ ⟨⟩
    exact ⟨rfl, Nat.le_refl _⟩
  split
  · exact string_passes
  split
  · exact number_passes
  split
  · rintro _ ⟨⟩
    exact ⟨rfl, Nat.le_add_right _ _⟩
  split
  · rintro _ ⟨⟩
    exact ⟨rfl, Nat.le_add_right_of_le (Nat.le_add_right _ _)⟩
  split
  · exact punct_passes _ _
  · exact unexpected_passes (congrArg (· + 1) hs)

def begin (s : Scanner) : Scanner := { s with start := s.curr, pending := none }

def yieldToken (s : Scanner) (type : TokenType) : Option (Option Item × Scanner) :=
  (slice? s.source s.start s.curr).map fun lexeme =>
    (some (.token ⟨type, lexeme, s.start, s.line⟩), { s with pending := none })

def next (s : Scanner) : Option (Option Item × Scanner) :=
  if s.length < s.curr then some (none, s)
  else if s.curr = s.length then
    some (some (.token ⟨.eof, "", s.length, s.line⟩), s.skip 1)
  else
    match _h : s.begin.scanToken with
    | none => none
    | some (t, some error) => some (some (.error error), t)
    | some (t, none) =>
      match t.pending with
      | some type => t.yieldToken type
      | none => t.next
termination_by s.length + 1 - s.curr
decreasing_by
  obtain ⟨hsource, hcurr⟩ := scanToken_passes rfl _ _h
  have hlength : t.length = s.length := congrArg String.utf8ByteSize hsource
  change s.curr + 1 ≤ t.curr at hcurr
  omega

def call : Nat → Scanner → Option (Option Item)
  | 0, s => s.next.map (·.1)
  | k + 1, s => s.next.bind fun answer => answer.2.call k

end Scanner

end Lox
