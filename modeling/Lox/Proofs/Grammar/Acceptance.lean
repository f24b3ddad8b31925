import Lox.Proofs.Grammar.Completeness
import Lox.Proofs.Grammar.StmtRules

/-! The token lists that are read without errors are those that the grammar derives. -/

namespace Lox.Grammar

open Ebnf

lemma program?_eq_ok {r : Reading} {program : List Stmt} :
    r.program? = .ok program ↔ r = ⟨program, [], r.nextSite⟩ := by
  obtain ⟨statements, errors, nextSite⟩ := r
  cases errors <;> simp [Reading.program?]

lemma program?_eq_error {r : Reading} (h : ¬ ∃ program, r.program? = .ok program) :
    r.errors ≠ [] ∧ r.program? = .error r.errors := by
  obtain ⟨statements, errors, nextSite⟩ := r
  cases errors with
  | nil => exact absurd ⟨statements, rfl⟩ h
  | cons e errors => exact ⟨List.cons_ne_nil _ _, rfl⟩

theorem accepted_iff_reads {first : SiteId} {tokens : List Token} {program : List Stmt} :
    (Reading.ofTokens first tokens).program? = .ok program ↔
      ReadsDecls program (beforeEnd tokens) first (Reading.ofTokens first tokens).nextSite
        none := by
  rw [program?_eq_ok, ofTokens_exact]

/-- The grammar decides, whatever the tokens: those before the end are accepted if they make a
program, in which no call has more than 255 arguments and no function more than 255 parameters, and
otherwise there is an error. -/
theorem accepted_iff_derives (first : SiteId) (tokens : List Token) :
    ((∃ program, (Reading.ofTokens first tokens).program? = .ok program) ↔
      Derives (.rule .program) (beforeEnd tokens)) ∧
    (¬ Derives (.rule .program) (beforeEnd tokens) →
      ∃ errors, errors ≠ [] ∧ (Reading.ofTokens first tokens).program? = .error errors) := by
  have hiff : (∃ program, (Reading.ofTokens first tokens).program? = .ok program) ↔
      Derives (.rule .program) (beforeEnd tokens) := by
    rw [← reads_iff_derives (beforeEnd tokens) first]
    constructor
    · rintro ⟨program, h⟩
      exact ⟨program, _, accepted_iff_reads.1 h⟩
    · rintro ⟨program, j, h⟩
      rw [← ofTokens_exact] at h
      exact ⟨program, by rw [h]; rfl⟩
  refine ⟨hiff, fun h => ?_⟩
  obtain ⟨hne, he⟩ := program?_eq_error (hiff.not.2 h)
  exact ⟨_, hne, he⟩

end Lox.Grammar
