import Lox.Proofs.Chunks.Scan
import Lox.Proofs.Lexical.Calls

/-! Every item has its place in the source, and every byte of the source is accounted for. -/

namespace Lox.Scan

structure Span where
  first : Nat
  last : Nat

def newlines (source : String) (n : Nat) : Nat := ((bytes source.toList).take n).count '\n'

namespace Span

variable (s : Span) (source : String)

def text? : Option String := slice? source s.first s.last

def line : Nat := 1 + newlines source s.last

def Covers (i : Nat) : Prop := s.first ≤ i ∧ i < s.last

end Span

section

variable (source : String)

inductive Occupies : Span → Item → Prop
  | token {s : Span} {t : Token} : s.text? source = some t.lexeme →
      s = ⟨t.offset, t.offset + t.lexeme.utf8ByteSize⟩ → t.line = s.line source →
      Occupies s (.token t)
  | unexpected {s c} : s.text? source = some (.ofList [c]) →
      Occupies s (.error ⟨.unexpectedCharacter, s.line source⟩)
  | unterminated {s body} : s.text? source = some (.ofList ('"' :: body)) → '"' ∉ body →
      s.last = source.utf8ByteSize → Occupies s (.error ⟨.unterminatedString, s.line source⟩)

inductive Skipped : Span → Prop
  | blank {s c} : s.text? source = some (.ofList [c]) → Blank c → Skipped s
  | comment {s body} : s.text? source = some (.ofList ('/' :: '/' :: body)) → '\n' ∉ body →
      s.last = source.utf8ByteSize ∨ Span.text? ⟨s.last, s.last + 1⟩ source = some "\n" → Skipped s

end

/-- A stretch of the source and the item it gives; if it is skipped there is none. -/
structure Tile where
  span : Span
  item? : Option Item

def Tile.Fits (source : String) : Tile → Prop
  | ⟨s, some item⟩ => Occupies source s item
  | ⟨s, none⟩ => Skipped source s

/-- The tiles lie end to end, from one byte up to another. -/
def Laid : ℕ → List Tile → ℕ → Prop
  | start, [], finish => start = finish
  | start, t :: tiles, finish =>
    t.span.first = start ∧ start ≤ t.span.last ∧ Laid t.span.last tiles finish

/-- The tiles make up the source from `start` on, so none begins inside another, and these items are
what they give. -/
structure Account (source : String) (start : ℕ) (items : List Item) (tiles : List Tile) :
    Prop where
  laid : Laid start tiles source.utf8ByteSize
  given : tiles.filterMap Tile.item? = items
  fits : ∀ t ∈ tiles, t.Fits source

section

variable {start finish : ℕ} {tiles : List Tile}

lemma Laid.start_le (h : Laid start tiles finish) : ∀ t ∈ tiles, start ≤ t.span.first := by
  induction tiles generalizing start with
  | nil => exact List.forall_mem_nil _
  | cons t tiles ih =>
    obtain ⟨hfirst, hle, hrest⟩ := h
    refine List.forall_mem_cons.2 ⟨Nat.le_of_eq hfirst.symm, fun u hu => ?_⟩
    exact hle.trans (ih hrest u hu)

lemma Laid.ordered (h : Laid start tiles finish) :
    tiles.Pairwise fun s t => s.span.last ≤ t.span.first := by
  induction tiles generalizing start with
  | nil => exact .nil
  | cons t tiles ih =>
    obtain ⟨-, -, hrest⟩ := h
    exact List.pairwise_cons.2 ⟨hrest.start_le, ih hrest⟩

lemma Laid.covered (h : Laid start tiles finish) {i : ℕ} (hi : start ≤ i) (hn : i < finish) :
    ∃ t ∈ tiles, t.span.Covers i := by
  induction tiles generalizing start with
  | nil =>
    obtain rfl : start = finish := h
    exact absurd hn (Nat.not_lt.2 hi)
  | cons t tiles ih =>
    obtain ⟨hfirst, -, hrest⟩ := h
    by_cases hit : i < t.span.last
    · exact ⟨t, List.mem_cons_self, hfirst.trans_le hi, hit⟩
    · obtain ⟨u, hu, hcovers⟩ := ih hrest (Nat.le_of_not_lt hit)
      exact ⟨u, List.mem_cons_of_mem t hu, hcovers⟩

end

section

variable {source : String} {s : Span} {items : List Item} {tiles : List Tile}

lemma Account.nil : Account source source.utf8ByteSize [] [] := ⟨rfl, rfl, List.forall_mem_nil _⟩

lemma Account.cons {item : Item} (h : Account source s.last items tiles)
    (ho : Occupies source s item) (hs : s.first ≤ s.last) :
    Account source s.first (item :: items) (⟨s, some item⟩ :: tiles) :=
  ⟨⟨rfl, hs, h.laid⟩, congrArg (item :: ·) h.given, List.forall_mem_cons.2 ⟨ho, h.fits⟩⟩

lemma Account.skip (h : Account source s.last items tiles) (ho : Skipped source s)
    (hs : s.first ≤ s.last) : Account source s.first items (⟨s, none⟩ :: tiles) :=
  ⟨⟨rfl, hs, h.laid⟩, h.given, List.forall_mem_cons.2 ⟨ho, h.fits⟩⟩

end

def spanOf (before text : List Char) : Span := ⟨byteOffset before, byteOffset (before ++ text)⟩

section

variable (before text rest : List Char)

lemma spanOf_first_le : (spanOf before text).first ≤ (spanOf before text).last := by
  rw [spanOf, byteOffset_append]
  exact Nat.le_add_right _ _

lemma text?_spanOf :
    (spanOf before text).text? (.ofList (before ++ (text ++ rest))) = some (.ofList text) := by
  rw [← List.append_assoc]
  exact slice?_byteOffset before text rest

lemma line_spanOf :
    (spanOf before text).line (.ofList (before ++ (text ++ rest))) =
      lineAfter (before ++ text) := by
  have hlast : (spanOf before text).last = (bytes (before ++ text)).length := (length_bytes _).symm
  rw [Span.line, newlines, hlast, String.toList_ofList, ← List.append_assoc,
    bytes_append _ rest, List.take_left, count_bytes, lineAfter]

end

lemma occupies_token (before text rest : List Char) (type : TokenType) :
    Occupies (.ofList (before ++ (text ++ rest))) (spanOf before text)
      (.token ⟨type, .ofList text, byteOffset before, lineAfter (before ++ text)⟩) := by
  refine .token (text?_spanOf before text rest) ?_ (line_spanOf before text rest).symm
  rw [spanOf, utf8ByteSize_ofList, byteOffset_append]

lemma occupies_end (before : List Char) :
    Occupies (.ofList before) (spanOf before []) (.token (endToken before)) := by
  have h := occupies_token before [] [] .eof
  simp only [List.append_nil] at h
  exact h

lemma Longest.skipped {before text rest : List Char} (h : Longest .skipped text (text ++ rest)) :
    Skipped (.ofList (before ++ (text ++ rest))) (spanOf before text) := by
  obtain ⟨hl, -, hlongest⟩ := h
  generalize hk : Class.skipped = kind at hl
  cases hl with
  | blank hb => exact .blank (text?_spanOf before _ rest) hb
  | @comment body hbody =>
    refine .comment (text?_spanOf before _ rest) hbody ?_
    cases rest with
    | nil =>
      left
      rw [utf8ByteSize_ofList, List.append_nil]
      rfl
    | cons c cs =>
      by_cases hc : c = '\n'
      · subst hc
        right
        have h := text?_spanOf (before ++ '/' :: '/' :: body) ['\n'] cs
        rw [spanOf, byteOffset_append _ ['\n'], List.append_assoc] at h
        exact h
      · have hlonger : Lexeme .skipped ('/' :: '/' :: (body ++ [c])) :=
          .comment (by simp [hbody, Ne.symm hc])
        have hle := hlongest hlonger ⟨cs, by simp⟩
        have hlength : ('/' :: '/' :: (body ++ [c])).length = ('/' :: '/' :: body).length + 1 := by
          simp
        omega
  | _ => cases hk

lemma account_end (before : List Char) :
    ∃ tiles, Account (.ofList before) (byteOffset before) [.token (endToken before)] tiles := by
  have hnil : Account (.ofList before) (spanOf before []).last [] [] := by
    rw [spanOf, List.append_nil, ← utf8ByteSize_ofList]
    exact .nil
  exact ⟨_, hnil.cons (occupies_end before) (spanOf_first_le before [])⟩

theorem Tokenizes.account {before rest : List Char} {items : List Item}
    (h : Tokenizes before rest items) :
    ∃ tiles, Account (.ofList (before ++ rest)) (byteOffset before) items tiles := by
  induction h with
  | @finish before =>
    rw [List.append_nil]
    exact account_end before
  | @skipped before text rest items hl _ ih =>
    obtain ⟨tiles, htiles⟩ := ih
    rw [List.append_assoc] at htiles
    exact ⟨_, htiles.skip hl.skipped (spanOf_first_le before text)⟩
  | @token before type text rest items hl _ ih =>
    obtain ⟨tiles, htiles⟩ := ih
    rw [List.append_assoc] at htiles
    exact ⟨_, htiles.cons (occupies_token before text rest type) (spanOf_first_le before text)⟩
  | @unterminated before body hq =>
    obtain ⟨tiles, htiles⟩ := account_end (before ++ '"' :: body)
    have htext := text?_spanOf before ('"' :: body) []
    have hline := line_spanOf before ('"' :: body) []
    rw [List.append_nil] at htext hline
    have ho := Occupies.unterminated htext hq (utf8ByteSize_ofList _).symm
    rw [hline] at ho
    exact ⟨_, htiles.cons ho (spanOf_first_le before _)⟩
  | @unexpected before c rest items _ _ _ ih =>
    obtain ⟨tiles, htiles⟩ := ih
    rw [List.append_assoc] at htiles
    have ho := Occupies.unexpected (text?_spanOf before [c] rest)
    rw [line_spanOf before [c] rest] at ho
    exact ⟨_, htiles.cons ho (spanOf_first_le before [c])⟩

lemma Tokenizes.unterminated_once {before rest : List Char} {items : List Item}
    (h : Tokenizes before rest items) :
    (items.filterMap Item.error?).countP (·.fault = .unterminatedString) ≤ 1 := by
  induction h with
  | finish => exact Nat.zero_le 1
  | skipped _ _ ih => exact ih
  | token _ _ ih => exact ih
  | unterminated _ => exact Nat.le_refl 1
  | unexpected _ _ _ ih => exact ih

end Lox.Scan

namespace Lox

open Scan

/-- Scanning loses nothing and locates everything. Every call of the scanner returns, and takes no
text from inside a character; together the calls yield the items of the source, and then nothing. -/
theorem scan_accounts (source : String) :
    Scanned source (scan source) ∧
      (∃ tiles, Account source 0 (scan source) tiles ∧
        (tiles.Pairwise fun s t => s.span.last ≤ t.span.first) ∧
        ∀ i < source.utf8ByteSize, ∃ t ∈ tiles, t.span.Covers i) ∧
      ((scan source).filterMap Item.error?).countP (·.fault = .unterminatedString) ≤ 1 ∧
      ∃ items last, scan source = items ++ [.token last] ∧ last.type = .eof ∧
        last.offset = source.utf8ByteSize ∧ ∀ t, .token t ∈ items → t.type ≠ .eof := by
  have h : Tokenizes [] source.toList (scan source) := tokenizes_itemsFrom [] source.toList
  refine ⟨scanned_scan source, ?_, h.unterminated_once, ?_⟩
  · obtain ⟨tiles, haccount⟩ := h.account
    rw [List.nil_append, String.ofList_toList] at haccount
    have hlaid : Laid 0 tiles source.utf8ByteSize := haccount.laid
    exact ⟨tiles, haccount, hlaid.ordered, fun i hi => hlaid.covered (Nat.zero_le i) hi⟩
  · obtain ⟨items, last, hitems, heof, hnone⟩ := itemsFrom_eq .start source.toList
    have hlast := h.getLast?
    rw [scan, hitems, List.getLast?_concat] at hlast
    cases hlast
    refine ⟨items, _, hitems, heof, ?_, hnone⟩
    rw [endToken, List.nil_append, ← utf8ByteSize_ofList, String.ofList_toList]

end Lox
