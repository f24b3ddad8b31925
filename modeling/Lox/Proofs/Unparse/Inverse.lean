import Lox.Proofs.Unparse.Reading
import Mathlib.Data.List.TakeWhile

/-! Reading undoes writing a tree down as tokens, and writing down undoes reading. -/

namespace Lox.Grammar

open Ebnf

lemma Ebnf.Derives.ne_eof {f : Form} {u : List Token} (h : Derives f u) :
    ∀ t ∈ u, t.type ≠ .eof := by
  induction h with
  | punct ht | keyword ht | identifier ht | number ht | string ht => simp [ht]
  | rule _ ih | left _ ih | right _ ih | present _ ih => exact ih
  | seq _ _ ihu ihv | manyCons _ _ ihu ihv | upToCons _ _ ihu ihv =>
    exact List.forall_mem_append.2 ⟨ihu, ihv⟩
  | absent | manyNil | upToNil => simp

lemma beforeEnd_of_derives {f : Form} {u : List Token} (h : Derives f u) {ending : List Token}
    (he : beforeEnd ending = []) : beforeEnd (u ++ ending) = u := by
  have hall : ∀ t ∈ u, (!isEnd t) = true := by
    intro t ht
    have hne := h.ne_eof t ht
    unfold isEnd
    cases htype : t.type with
    | eof => exact absurd htype hne
    | _ => rfl
  have happ : beforeEnd (u ++ ending) = u ++ beforeEnd ending :=
    List.takeWhile_append_of_pos hall
  rw [happ, he, List.append_nil]

lemma program?_unparse {program : List Stmt} (h : Stmt.ListShaped program) (first : SiteId)
    {ending : List Token} (he : beforeEnd ending = []) :
    (Reading.ofTokens first (Stmt.unparse program ++ ending)).program? =
      .ok (Stmt.listNumber program first) := by
  have hreads := decls_parse h first (a := none) nofun
  have hend := beforeEnd_of_derives (decls_derive hreads) he
  have hreading := (ofTokens_exact _ _ _ _).2 (hend.symm ▸ hreads)
  rw [hreading]
  rfl

/-- A program without `for` that was read has the tokens before the end from which it was read: the
same types, values and names in the same order. A program of the right shape is read from its tokens
as it was, but for the numbers of its sites. -/
theorem unparse_inverse :
    (∀ {first tokens program}, ForFree (beforeEnd tokens) →
      (Reading.ofTokens first tokens).program? = .ok program →
      (Stmt.unparse program).map Token.gist = (beforeEnd tokens).map Token.gist) ∧
    ∀ {program}, Stmt.ListShaped program → ∀ first {ending}, beforeEnd ending = [] →
      ∃ program',
        (Reading.ofTokens first (Stmt.unparse program ++ ending)).program? = .ok program' ∧
        Stmt.listMapSites (fun _ => 0) program' = Stmt.listMapSites (fun _ => 0) program := by
  constructor
  · intro first tokens program hf h
    exact decls_gist (accepted_iff_reads.1 h) hf
  · intro program h first ending he
    exact ⟨_, program?_unparse h first he, Stmt.listMapSites_number 0 program first⟩

def aName : Token := ⟨.identifier, "a", 0, 1⟩

def bName : Token := ⟨.identifier, "b", 5, 1⟩

def firstMinus : Token := ⟨.punct .minus, "-", 2, 1⟩

def secondMinus : Token := ⟨.punct .minus, "-", 7, 1⟩

def grouped : List Stmt :=
  [.expression (.binary (.ref 0 aName) firstMinus
    (.grouping (.binary (.ref 1 bName) secondMinus (.literal .nil))))]

def groupedTokens : List Token :=
  [aName, firstMinus, ⟨.punct .leftParen, "(", 4, 1⟩, bName, secondMinus,
    ⟨.keyword .kwNil, "nil", 9, 1⟩, ⟨.punct .rightParen, ")", 12, 1⟩,
    ⟨.punct .semicolon, ";", 13, 1⟩, ⟨.eof, "", 14, 1⟩]

theorem unparse_grouped : (Stmt.unparse grouped).map Token.gist =
      (beforeEnd groupedTokens).map Token.gist ∧
    ∃ program', (Reading.ofTokens 7 (Stmt.unparse grouped)).program? = .ok program' ∧
      Stmt.listMapSites (fun _ => 0) program' = Stmt.listMapSites (fun _ => 0) grouped := by
  obtain ⟨hfree, hshaped⟩ := unparse_inverse
  have hread : (Reading.ofTokens 0 groupedTokens).program? = .ok grouped := rfl
  have hforFree : ForFree (beforeEnd groupedTokens) := by
    have hend : beforeEnd groupedTokens = groupedTokens.take 8 := rfl
    rw [hend]
    simp [ForFree, groupedTokens, aName, bName, firstMinus, secondMinus]
  have hshape : Stmt.ListShaped grouped := by
    simp [grouped, Stmt.ListShaped, Stmt.Shaped, Expr.Shaped, Expr.rank, TokenType.binds, aName,
      bName, firstMinus, secondMinus]
  obtain ⟨program', hp, hsites⟩ := hshaped hshape 7 (rfl : beforeEnd [] = [])
  refine ⟨hfree hforFree hread, program', ?_, hsites⟩
  rwa [List.append_nil] at hp

end Lox.Grammar
