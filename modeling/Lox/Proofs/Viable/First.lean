import Lox.Proofs.Recovery.Joined
import Lox.Proofs.Viable.Stmt

/-! The first error that is more than a wrong target or a list that is too long is reported at the
first token with which no program goes on. -/

namespace Lox.Grammar

open Ebnf
open scoped Computability

/-- Tokens that a program begins with. -/
def Viable (u : List Token) : Prop := ∃ w, Yields lenient (.rule .program) (u ++ w)

def place : List Token → String
  | [] => " at end"
  | t :: _ => " at '" ++ t.lexeme ++ "'"

lemma isHard_eq_false {e : SyntaxError} : e.isHard = false ↔
    e.fault = .invalidAssignmentTarget ∨ e.fault = .tooManyArguments ∨
      e.fault = .tooManyParameters := by
  obtain ⟨fault, found⟩ := e
  cases fault <;> simp [SyntaxError.isHard]

lemma not_isEnd {tokens before after : List Token} {t : Token}
    (h : beforeEnd tokens = before ++ t :: after) : isEnd t = false := by
  have ht : t ∈ beforeEnd tokens := by
    rw [h]
    exact List.mem_append_right before List.mem_cons_self
  exact mem_beforeEnd ht

lemma diagnostic_place {tokens before after : List Token} {e : SyntaxError} (line : ℕ)
    (h : beforeEnd tokens = before ++ after) (he : e.found = after.head?) :
    ∃ found : Token, e.diagnostic line = .syntactic found e.fault.message ∧
      found.location = place after := by
  refine ⟨_, rfl, ?_⟩
  rw [he]
  cases after with
  | nil => rfl
  | cons t rest =>
    have ht := not_isEnd h
    rw [isEnd] at ht
    rw [List.head?_cons, Option.getD_some, Token.location, ht]
    rfl

lemma program_rest {n k : ℕ} {c c' : Cursor} {ss : List Stmt} (hn : c.rest.length < n)
    (hk : c.rest.length < k) (h : program (declaration n) k c = .ok ss c') : c'.rest = [] := by
  induction k generalizing c ss with
  | zero => exact absurd hk (Nat.not_lt_zero _)
  | succ k ih =>
    by_cases hne : c.rest = []
    · rw [program_nil hne] at h
      cases h
      exact hne
    · rw [program_cons hne] at h
      obtain ⟨first, c₁, hfirst, h⟩ := bind_eq_ok h
      obtain ⟨rest, c₂, hrest, h⟩ := bind_eq_ok h
      cases h
      have hd : Recovers [] [] n (declaration n) (declaration (0 + n)) :=
        (statement_takes 0 n rfl).2.declaration
      have hlt := hd.advances hn hne
      rw [hfirst] at hlt
      exact ih (Nat.lt_trans hlt hn) (Nat.lt_of_lt_of_le hlt (Nat.le_of_lt_succ hk)) hrest

lemma find?_isHard_reverse {es : List SyntaxError} :
    es.reverse.find? (·.isHard) = (hard es).getLast? := by
  rw [← List.head?_filter, List.filter_reverse, List.head?_reverse, hard]

/-- A program is read with no errors but for wrong targets and lists that are too long. For tokens
that are none the first other error is at the token up to which they are the beginning of a program
and with which they are not, or at the end if a program begins with them all. -/
theorem first_hard_error (first : SiteId) (tokens : List Token) :
    (Yields lenient (.rule .program) (beforeEnd tokens) →
      ∀ e ∈ (Reading.ofTokens first tokens).errors, e.fault = .invalidAssignmentTarget ∨
        e.fault = .tooManyArguments ∨ e.fault = .tooManyParameters) ∧
    (¬ Yields lenient (.rule .program) (beforeEnd tokens) → ∃ e before after,
      (Reading.ofTokens first tokens).errors.find? (·.isHard) = some e ∧
      beforeEnd tokens = before ++ after ∧ e.found = after.head? ∧
      (∃ found, e.diagnostic (endLine tokens) = .syntactic found e.fault.message ∧
        found.location = place after) ∧
      Viable before ∧ ∀ t ∈ after.head?, ¬ Viable (before ++ [t])) := by
  obtain ⟨ss, c, hrun, hread⟩ := ofTokens_cases first tokens
  have hp := (Recognizes.statement_recognized ((beforeEnd tokens).length + 1)).2.program _ _
    (Nat.le_refl _) (Nat.le_refl _)
  have hlen : (beforeEnd tokens).length < (beforeEnd tokens).length + 1 := Nat.lt_succ_self _
  have ho : Outcome (words (.rule .program)) (fun K => ∀ w ∈ K, w = []) (beforeEnd tokens) [] _ :=
    hp.outcome (i := first) hlen trivial
  have hrest := program_rest (c := ⟨beforeEnd tokens, first, []⟩) hlen hlen hrun
  have hone : ∀ w ∈ (1 : Language Token), w = [] := fun w => (Language.mem_one w).1
  rw [hrun] at ho
  rw [hread]
  cases ho with
  | done hts hes hd =>
    obtain rfl := hrest
    rw [List.append_nil] at hts
    refine ⟨fun _ e he => isHard_eq_false.1 ?_, fun hnot => absurd ?_ hnot⟩
    · have := List.filter_eq_nil_iff.1 hes e (List.mem_reverse.1 he)
      rwa [Bool.not_eq_true] at this
    · rw [hts]
      exact hd.mem
  | @stuck u rest e later _ hts hfound hes hs =>
    have hexact : ∀ {w : List Token}, w.head? = rest.head? →
        ¬ Yields lenient (.rule .program) (u ++ w) := by
      intro w hh hw
      refine hs.exact hone hh ?_
      rw [mul_one]
      exact hw
    refine ⟨fun hyes => absurd hyes (hts ▸ hexact rfl), fun _ => ⟨e, u, rest, ?_, hts, hfound,
      diagnostic_place _ hts hfound, hs.viable, ?_⟩⟩
    · rw [find?_isHard_reverse]
      change hard c.errors = _ at hes
      rw [hes]
      exact List.getLast?_concat
    · rintro t ht ⟨w, hw⟩
      rw [List.append_assoc] at hw
      exact hexact (by rw [Option.mem_def.1 ht]; rfl) hw

def unfinishedPrint : List Token :=
  [⟨.keyword .kwNil, "nil", 0, 1⟩, ⟨.punct .equal, "=", 4, 1⟩, ⟨.keyword .kwNil, "nil", 6, 1⟩,
    ⟨.punct .semicolon, ";", 9, 1⟩, ⟨.keyword .kwPrint, "print", 11, 1⟩,
    ⟨.keyword .kwNil, "nil", 17, 1⟩]

theorem unfinishedPrint_viable :
    ¬ Yields lenient (.rule .program) (beforeEnd unfinishedPrint) ∧
      Viable (beforeEnd unfinishedPrint) := by
  have herrors : (Reading.ofTokens 0 unfinishedPrint).errors =
      [⟨.invalidAssignmentTarget, some ⟨.punct .equal, "=", 4, 1⟩⟩,
        ⟨.missing .printEnd, none⟩] := rfl
  obtain ⟨hsoft, hhard⟩ := first_hard_error 0 unfinishedPrint
  have hnot : ¬ Yields lenient (.rule .program) (beforeEnd unfinishedPrint) := fun h => by
    have hfault := hsoft h ⟨.missing .printEnd, none⟩ (by simp [herrors])
    simp at hfault
  obtain ⟨e, before, after, hfind, htokens, hfound, -, hviable, -⟩ := hhard hnot
  rw [herrors] at hfind
  cases hfind
  obtain rfl := List.head?_eq_none_iff.1 hfound.symm
  rw [List.append_nil] at htokens
  exact ⟨hnot, htokens ▸ hviable⟩

end Lox.Grammar
