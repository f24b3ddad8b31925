import Lox.Proofs.Printer.Inverse
import Lox.Proofs.Unparse.Shaped

/-! Programs with the same text are the same, but for the numbers of their sites and the places of
their tokens. -/

namespace Lox

open Grammar Sexp

lemma forms_of_texts : ∀ {b b' : List Stmt}, ListPlain (Stmt.forms b) → ListPlain (Stmt.forms b') →
    b.map Stmt.text = b'.map Stmt.text → Stmt.forms b = Stmt.forms b'
  | [], [], _, _, _ => rfl
  | [], _ :: _, _, _, h | _ :: _, [], _, _, h => by cases h
  | s :: b, s' :: b', hp, hp', h => by
    obtain ⟨htext, hrest⟩ := List.cons.inj h
    have hchars : s.form.chars = s'.form.chars := by
      rw [← s.toList_text, ← s'.toList_text, htext]
    rw [Stmt.forms, Stmt.forms, chars_inj hp.1 hp'.1 hchars, forms_of_texts hp.2 hp'.2 hrest]

/-- A source is read as a program, and has no strings and no numbers that are too large to be
finite. -/
structure ReadsPlainly (source : String) (first : SiteId) (program : List Stmt) : Prop where
  read : (Reading.ofTokens first ((scan source).filterMap Item.token?)).program? = .ok program
  noString : ∀ t, .token t ∈ scan source → ∀ s, t.type ≠ .string s
  finite : ∀ t, .token t ∈ scan source → ∀ x, t.type = .number x → x.isFinite = true

namespace ReadsPlainly

variable {source : String} {first : SiteId} {program : List Stmt}
  (h : ReadsPlainly source first program)

include h

lemma spelled : ∀ t ∈ beforeEnd ((scan source).filterMap Item.token?), t.Spelled := by
  intro t ht
  rw [beforeEnd] at ht
  have hend := List.mem_takeWhile_imp ht
  obtain ⟨item, hitem, hsome⟩ := List.mem_filterMap.1 ((List.takeWhile_subset _) ht)
  cases item with
  | error e => cases hsome
  | token u =>
    obtain rfl := Option.some.inj hsome
    have htokens : Scan.Tokenizes [] source.toList (scan source) :=
      Scan.tokenizes_itemsFrom [] source.toList
    refine ⟨htokens.lexeme hitem fun he => ?_, h.noString u hitem, h.finite u hitem⟩
    simp [isEnd, he, TokenType.sameKind] at hend

lemma stmts?_forms : ListPlain (Stmt.forms program) ∧
    stmts? (Stmt.forms program) = some (Stmt.listBare program) := by
  have hreads := accepted_iff_reads.1 h.read
  exact Lox.stmts?_forms (decls_shaped hreads) (decls_kept hreads h.spelled)

end ReadsPlainly

/-- The text of a program says which program it is: what has the same text has the same tree, but
for the numbers of its sites and the places of its tokens. Numbers are printed in one way, whatever
their lexemes are, and those that are printed alike are one number. -/
theorem text_unambiguous {source source' : String} {first first' : SiteId}
    {program program' : List Stmt} (h : ReadsPlainly source first program)
    (h' : ReadsPlainly source' first' program')
    (htext : program.map Stmt.text = program'.map Stmt.text) :
    Stmt.listBare program = Stmt.listBare program' := by
  obtain ⟨hplain, hread⟩ := h.stmts?_forms
  obtain ⟨hplain', hread'⟩ := h'.stmts?_forms
  rw [forms_of_texts hplain hplain' htext, hread'] at hread
  exact (Option.some.inj hread).symm

open Binary64

lemma scan_assigned : scan "a=-3;" =
    [.token ⟨.identifier, "a", 0, 1⟩, .token ⟨.punct .equal, "=", 1, 1⟩,
      .token ⟨.punct .minus, "-", 2, 1⟩, .token ⟨.number (ofNumeral ['3'] []), "3", 3, 1⟩,
      .token ⟨.punct .semicolon, ";", 4, 1⟩, .token ⟨.eof, "", 5, 1⟩] := by
  simp [scan, Scan.itemsFrom, Scan.munch, Scan.isBlank, Scan.isDigit, Scan.isWordStart,
    Scan.isWordPart, Scan.munchPunct, Scan.munchNumber, Scan.munchWord, Scan.punct?,
    Position.advance, Position.start, Scan.item?]
  and_intros <;> rfl

lemma scan_assigned_spaced : scan "a = - 3.0;" =
    [.token ⟨.identifier, "a", 0, 1⟩, .token ⟨.punct .equal, "=", 2, 1⟩,
      .token ⟨.punct .minus, "-", 4, 1⟩, .token ⟨.number (ofNumeral ['3'] ['0']), "3.0", 6, 1⟩,
      .token ⟨.punct .semicolon, ";", 9, 1⟩, .token ⟨.eof, "", 10, 1⟩] := by
  simp [scan, Scan.itemsFrom, Scan.munch, Scan.isBlank, Scan.isDigit, Scan.isWordStart,
    Scan.isWordPart, Scan.munchPunct, Scan.munchNumber, Scan.munchWord, Scan.punct?,
    Position.advance, Position.start, Scan.item?]
  and_intros <;> rfl

def assigned (site : SiteId) (offset : Nat) (x : Float) : List Stmt :=
  [.expression (.assign site ⟨.identifier, "a", 0, 1⟩
    (.unary ⟨.punct .minus, "-", offset, 1⟩ (.literal (.number x))))]

lemma assigned_plainly : ReadsPlainly "a=-3;" 0 (assigned 1 2 (ofNumeral ['3'] [])) := by
  have hfinite : (ofNumeral ['3'] []).isFinite = true := by decide +kernel
  constructor
  · rw [scan_assigned]
    rfl
  · simp [scan_assigned]
  · simp [scan_assigned, hfinite]

lemma assigned_spaced_plainly :
    ReadsPlainly "a = - 3.0;" 7 (assigned 8 4 (ofNumeral ['3'] ['0'])) := by
  have hfinite : (ofNumeral ['3'] ['0']).isFinite = true := by decide +kernel
  constructor
  · rw [scan_assigned_spaced]
    rfl
  · simp [scan_assigned_spaced]
  · simp [scan_assigned_spaced, hfinite]

theorem assigned_unambiguous : ReadsPlainly "a=-3;" 0 (assigned 1 2 (ofNumeral ['3'] [])) ∧
    ReadsPlainly "a = - 3.0;" 7 (assigned 8 4 (ofNumeral ['3'] ['0'])) ∧
    (assigned 1 2 (ofNumeral ['3'] [])).map Stmt.text = ["(; (= a (- 3.0)))"] ∧
    (assigned 8 4 (ofNumeral ['3'] ['0'])).map Stmt.text = ["(; (= a (- 3.0)))"] ∧
    Stmt.listBare (assigned 1 2 (ofNumeral ['3'] [])) =
      Stmt.listBare (assigned 8 4 (ofNumeral ['3'] ['0'])) := by
  have htext : (assigned 1 2 (ofNumeral ['3'] [])).map Stmt.text = ["(; (= a (- 3.0)))"] := by
    decide +kernel
  have hspaced : (assigned 8 4 (ofNumeral ['3'] ['0'])).map Stmt.text =
      ["(; (= a (- 3.0)))"] := by decide +kernel
  exact ⟨assigned_plainly, assigned_spaced_plainly, htext, hspaced,
    text_unambiguous assigned_plainly assigned_spaced_plainly (htext.trans hspaced.symm)⟩

end Lox
