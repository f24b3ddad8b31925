import Lox.Proofs.Grammar.Reads

/-! What comes after a declaration matters only if it is `else`, which begins no declaration, so
programs may follow one another. -/

namespace Lox.Grammar

lemma ReadsVar.lookahead {s : Stmt} {u : List Token} {i j : SiteId} {a : Ahead}
    (h : ReadsVar s u i j a) (a' : Ahead) : ReadsVar s u i j a' := by
  cases h with
  | plain hn hs => exact .plain hn hs
  | initialized hn heq he hs => exact .initialized hn heq he hs

lemma ReadsFunction.lookahead {s : Stmt} {u : List Token} {i j : SiteId} {a : Ahead}
    (h : ReadsFunction s u i j a) (a' : Ahead) : ReadsFunction s u i j a' := by
  cases h with
  | mk hn ho hp hc hb hd he => exact .mk hn ho hp hc hb hd he

mutual

lemma ReadsStmt.lookahead {a' : Ahead} (ha : a' ≠ some (.keyword .kwElse)) : ∀ {s u i j a},
    ReadsStmt s u i j a → ReadsStmt s u i j a'
  | _, _, _, _, _, .expression he hs => .expression he hs
  | _, _, _, _, _, .rule h => .rule (ReadsRule.lookahead ha h)

lemma ReadsRule.lookahead {a' : Ahead} (ha : a' ≠ some (.keyword .kwElse)) : ∀ {t s u i j a},
    ReadsRule t s u i j a → ReadsRule t s u i j a'
  | _, _, _, _, _, _, .print hk he hs => .print hk he hs
  | _, _, _, _, _, _, .ret hk he hs => .ret hk he hs
  | _, _, _, _, _, _, .loop hk ho he hc hs => .loop hk ho he hc (ReadsStmt.lookahead ha hs)
  | _, _, _, _, _, _, .ifThen hk ho he hc hs _ =>
    .ifThen hk ho he hc (ReadsStmt.lookahead ha hs) ha
  | _, _, _, _, _, _, .ifElse hk ho he hc hs hl ht =>
    .ifElse hk ho he hc hs hl (ReadsStmt.lookahead ha ht)
  | _, _, _, _, _, _, .forLoop hk ho hi hv hs hw hc hb =>
    .forLoop hk ho hi hv hs hw hc (ReadsStmt.lookahead ha hb)
  | _, _, _, _, _, _, .block ho hb hc => .block ho hb hc

end

lemma ReadsDecl.lookahead {s : Stmt} {u : List Token} {i j : SiteId} {a a' : Ahead}
    (ha : a' ≠ some (.keyword .kwElse)) (h : ReadsDecl s u i j a) : ReadsDecl s u i j a' := by
  cases h with
  | function hk hf => exact .function hk (hf.lookahead a')
  | var hk hv => exact .var hk (hv.lookahead a')
  | statement hs => exact .statement (hs.lookahead ha)

lemma not_startsDeclaration_else : startsDeclaration (.keyword .kwElse) = false := rfl

lemma ReadsDecls.ahead_ne_else {b : List Stmt} {u : List Token} {i j : SiteId} {a : Ahead}
    (h : ReadsDecls b u i j a) (ha : a ≠ some (.keyword .kwElse)) :
    ahead u a ≠ some (.keyword .kwElse) := by
  cases h with
  | nil => exact ha
  | cons hs _ =>
    obtain ⟨t, v, rfl, ht⟩ := hs.first
    intro he
    have htype : t.type = .keyword .kwElse := Option.some.inj he
    rw [htype, not_startsDeclaration_else] at ht
    exact Bool.false_ne_true ht

theorem ReadsDecls.append {b c : List Stmt} {u v : List Token} {i k j : SiteId} {a : Ahead}
    (hb : ReadsDecls b u i k none) (hc : ReadsDecls c v k j a)
    (ha : a ≠ some (.keyword .kwElse)) : ReadsDecls (b ++ c) (u ++ v) i j a := by
  induction b generalizing u i with
  | nil =>
    cases hb
    exact hc
  | cons s b ih =>
    cases hb with
    | cons hs hb =>
      have hrest := ih hb
      rw [List.cons_append, List.append_assoc]
      exact .cons (hs.lookahead (hrest.ahead_ne_else ha)) hrest

end Lox.Grammar
