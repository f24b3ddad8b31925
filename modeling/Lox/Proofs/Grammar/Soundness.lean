import Lox.Proofs.Grammar.Ebnf
import Lox.Proofs.Grammar.Reads

/-! What the rules read is derived by the grammar. -/

namespace Lox.Grammar.Ebnf

open Form

def callForm : Form := all (punct .leftParen) [opt (rule .arguments), punct .rightParen]

def levelRule : ℕ → Rule
  | 0 => .unary
  | 1 => .factor
  | 2 => .term
  | 3 => .comparison
  | 4 => .equality
  | 5 => .logicAnd
  | _ => .logicOr

lemma allows_keyword {k : Keyword} {node : Expr → Token → Expr → Expr} {t : TokenType} :
    (Level.mk [] (some k) node).allows t = true ↔ t = .keyword k := by
  cases t <;> simp [Level.allows, eq_comm]

lemma allows_punct {ps : List Punct} {node : Expr → Token → Expr → Expr} {t : TokenType} :
    (Level.mk ps none node).allows t = true ↔ ∃ p ∈ ps, t = .punct p := by
  cases t <;> simp [Level.allows]

lemma grammar_level {l : Level} {tighter : List Level} (h : l :: tighter <:+ levels) :
    ∃ operators, grammar (levelRule (tighter.length + 1)) =
        infixList operators (rule (levelRule tighter.length)) ∧
      ∀ u, Derives operators u ↔ ∃ t, u = [t] ∧ l.allows t.type = true := by
  simp only [levels, List.suffix_cons_iff, List.cons.injEq, List.suffix_nil, reduceCtorEq,
    or_false] at h
  rcases h with h | h | h | h | h | h
  all_goals
    obtain ⟨rfl, rfl⟩ := h
    refine ⟨_, rfl, fun u => ?_⟩
    simp [allows_keyword, allows_punct, Form.any, and_or_left, exists_or]

def Derived : ExprRule → List Token → Prop
  | .expression, u => Derives (rule .expression) u
  | .joined ls, u => ls <:+ levels → Derives (rule (levelRule ls.length)) u
  | .operations l tighter _, u => l :: tighter <:+ levels → ∀ operators,
      (∀ v, Derives operators v ↔ ∃ t, v = [t] ∧ l.allows t.type = true) →
      Derives (many (all operators [rule (levelRule tighter.length)])) u
  | .unary, u => Derives (rule .unary) u
  | .primary, u => Derives (rule .primary) u
  | .calls _, u => Derives (many callForm) u
  | .arguments _ args, u => args.length < maxArity ∧ ∃ v c w, u = v ++ c :: w ∧
      c.type = .punct .rightParen ∧
      Derives (all (rule .expression) [upTo (254 - args.length)
        (all (punct .comma) [rule .expression])]) v ∧
      Derives (many callForm) w

lemma derives_literal {t : Token} {v : Literal} (h : literal? t.type = some v) :
    Derives (rule .primary) [t] := by
  cases ht : t.type with
  | punct p => rw [ht] at h; cases h
  | keyword k =>
    rw [ht] at h
    cases k <;> simp [literal?] at h <;> simp [derives_rule, grammar, Form.any, ht]
  | identifier => rw [ht] at h; cases h
  | string s => simp [derives_rule, grammar, Form.any, ht]
  | number x => simp [derives_rule, grammar, Form.any, ht]
  | eof => rw [ht] at h; cases h

lemma derives_sign {t : Token} (h : isUnary t.type = true) :
    Derives (any (punct .bang) [punct .minus]) [t] := by
  cases ht : t.type with
  | punct p =>
    rw [ht] at h
    cases p <;> simp [isUnary] at h <;> simp [Form.any, ht]
  | _ => rw [ht] at h; cases h

def OnlyName (site : SiteId) (name : Token) : ExprRule → List Token → Prop
  | .joined ls, u => ls <:+ levels → u = [name] ∧ name.type = .identifier
  | .unary, u | .primary, u => u = [name] ∧ name.type = .identifier
  | .operations l tighter left, u => l :: tighter <:+ levels → left = .ref site name ∧ u = []
  | .calls callee, u => callee = .ref site name ∧ u = []
  | .arguments _ _, _ => False
  | .expression, _ => True

lemma node_ne_ref {l : Level} {tighter : List Level} (h : l :: tighter <:+ levels)
    {left right : Expr} {op name : Token} {site : SiteId} :
    l.node left op right ≠ .ref site name := by
  rcases node_of_mem (h.subset List.mem_cons_self) with hl | hl <;> rw [hl] <;> nofun

lemma onlyName_of_reads {r : ExprRule} {site : SiteId} {name : Token} {u : List Token}
    {i j : SiteId} {a : Ahead} (h : ReadsExpr r (.ref site name) u i j a) :
    OnlyName site name r u := by
  generalize he : Expr.ref site name = e at h
  induction h with
  | operand | assign => trivial
  | tightest _ ih => exact fun _ => ih he
  | level _ _ ihf ihe =>
    intro hs
    obtain ⟨rfl, rfl⟩ := ihe he hs
    rw [List.append_nil]
    exact ihf rfl ((List.suffix_cons _ _).trans hs)
  | noOperator => exact fun _ => ⟨he.symm, rfl⟩
  | operator _ _ _ _ ihe => exact fun hs => absurd (ihe he hs).1 (node_ne_ref hs)
  | sign => cases he
  | call _ _ ihf ihe =>
    obtain ⟨rfl, rfl⟩ := ihe he
    rw [List.append_nil]
    exact ihf rfl
  | literal | grouping => cases he
  | name ht => cases he; exact ⟨rfl, ht⟩
  | noCall => exact ⟨he.symm, rfl⟩
  | callWithout _ _ _ ih => exact absurd (ih he).1 nofun
  | callWith _ _ ih => exact (ih he).elim
  | argument _ _ _ _ _ ih => exact ih he
  | lastArgument _ _ _ _ _ ih => exact absurd (ih he).1 nofun

lemma derives_call {o c : Token} (ho : o.type = .punct .leftParen)
    (hc : c.type = .punct .rightParen) {u v : List Token} (hu : Derives (opt (rule .arguments)) u)
    (hv : Derives (many callForm) v) : Derives (many callForm) (o :: (u ++ c :: v)) := by
  have h : Derives callForm (o :: (u ++ [c])) := .seq (.punct ho) (.seq hu (.punct hc))
  rw [List.append_cons, ← List.cons_append]
  exact .manyCons h hv

theorem derived_of_reads {r : ExprRule} {e : Expr} {u : List Token} {i j : SiteId} {a : Ahead}
    (h : ReadsExpr r e u i j a) : Derived r u := by
  induction h with
  | operand _ _ ih => exact .rule (.rule (.right (ih List.suffix_rfl)))
  | assign ht heq _ _ ihv =>
    obtain ⟨rfl, hn⟩ := onlyName_of_reads ht List.suffix_rfl
    exact .rule (.rule (.left (.seq (.identifier hn) (.seq (.punct heq) (derives_rule.1 ihv)))))
  | tightest _ ih => exact fun _ => ih
  | level _ _ ihf ihe =>
    intro hs
    obtain ⟨operators, hg, ho⟩ := grammar_level hs
    have hs' := (List.suffix_cons _ _).trans hs
    rw [List.length_cons]
    refine .rule ?_
    rw [hg]
    exact .seq (ihf hs') (ihe hs operators ho)
  | noOperator _ => exact fun _ _ _ => .manyNil
  | @operator l tighter left op _ _ u v _ _ _ _ hop _ _ ihr ihe =>
    intro hs operators ho
    have hs' := (List.suffix_cons _ _).trans hs
    have hop' : Derives operators [op] := (ho [op]).2 ⟨op, rfl, hop⟩
    exact .manyCons (.seq hop' (ihr hs')) (ihe hs operators ho)
  | sign ho _ ih => exact .rule (.left (.seq (derives_sign ho) ih))
  | call _ _ ihf ihe => exact .rule (.right (.rule (.seq ihf ihe)))
  | literal hl => exact derives_literal hl
  | name ht => simp [Derived, derives_rule, grammar, Form.any, ht]
  | grouping ho _ hc ih =>
    have hg := Derives.seq (.punct ho) (.seq ih (.punct hc))
    exact .rule (.right (.right (.right (.right (.right (.right hg))))))
  | noCall _ => exact .manyNil
  | callWithout ho hc _ ih => exact derives_call ho hc .absent ih
  | callWith ho _ ih =>
    obtain ⟨_, v, c, w, rfl, hc, hv, hw⟩ := ih
    exact derives_call ho hc (.present (.rule hv)) hw
  | @argument _ args _ u t _ v _ _ _ _ hn _ ht _ ihe ih =>
    obtain ⟨hlt, x, c, w, rfl, hc, hx, hw⟩ := ih
    refine ⟨hn, u ++ t :: x, c, w, by simp, hc, .seq ihe ?_, hw⟩
    obtain ⟨y, z, rfl, hy, hz⟩ := derives_seq.1 hx
    rw [List.length_append, List.length_singleton] at hlt hz
    have hk : 254 - args.length = 254 - (args.length + 1) + 1 := by
      unfold maxArity at hlt
      omega
    rw [hk]
    exact .upToCons (u := t :: y) (.seq (.punct ht) hy) hz
  | lastArgument hn _ ht _ ihe ih =>
    exact ⟨hn, _, _, _, rfl, ht, derives_seq_nil ihe .upToNil, ih⟩

lemma derives_optional {finish : Punct} {e : Option Expr} {u : List Token} {i j : SiteId}
    {a : Ahead} (h : ReadsOptional finish e u i j a) : Derives (opt (rule .expression)) u := by
  cases h with
  | none => exact .absent
  | some he => exact .present (derived_of_reads he)

lemma derives_var {k : Token} (hk : k.type = .keyword .kwVar) {s : Stmt} {u : List Token}
    {i j : SiteId} {a : Ahead} (h : ReadsVar s u i j a) : Derives (rule .varDecl) (k :: u) := by
  cases h with
  | plain hn ht =>
    exact .rule (.seq (.keyword hk) (.seq (.identifier hn) (.seq .absent (.punct ht))))
  | initialized hn heq he ht =>
    have hi := Derives.seq (.punct heq) (derived_of_reads he)
    exact .rule (.seq (.keyword hk) (.seq (.identifier hn) (.seq (.present hi) (.punct ht))))

lemma derives_initializer {s : Option Stmt} {u : List Token} {i j : SiteId} {a : Ahead}
    (h : ReadsInitializer s u i j a) :
    Derives (any (rule .varDecl) [rule .exprStmt, punct .semicolon]) u := by
  cases h with
  | none ht => exact .right (.right (.punct ht))
  | var hk hs => exact .left (derives_var hk hs)
  | expression he ht => exact .right (.left (.rule (.seq (derived_of_reads he) (.punct ht))))

lemma derives_params {n : ℕ} {xs u : List Token} {i j : SiteId} {a : Ahead}
    (h : ReadsParams n xs u i j a) : n < maxArity ∧
      Derives (all identifier [upTo (254 - n) (all (punct .comma) [identifier])]) u := by
  induction h with
  | last hn hx _ => exact ⟨hn, derives_seq_nil (.identifier hx) .upToNil⟩
  | @more n x _ t _ _ _ _ hn hx ht _ ih =>
    obtain ⟨hlt, ih⟩ := ih
    obtain ⟨y, z, rfl, hy, hz⟩ := derives_seq.1 ih
    have hk : 254 - n = 254 - (n + 1) + 1 := by
      unfold maxArity at hlt
      omega
    rw [hk]
    exact ⟨hn, .seq (u := [x]) (.identifier hx)
      (.upToCons (u := t :: y) (.seq (u := [t]) (.punct ht) hy) hz)⟩

lemma derives_paramList {xs u : List Token} {i j : SiteId} {a : Ahead}
    (h : ReadsParamList xs u i j a) : Derives (opt (rule .parameters)) u := by
  cases h with
  | none => exact .absent
  | some hx => exact .present (.rule (derives_params hx).2)

mutual

theorem stmt_derives : ∀ {s u i j a}, ReadsStmt s u i j a → Derives (rule .statement) u
  | _, _, _, _, _, .expression he hs =>
    .rule (.left (.rule (.seq (derived_of_reads he) (.punct hs))))
  | _, _, _, _, _, .rule h => .rule (.right (rule_derives h))

theorem rule_derives : ∀ {t s u i j a}, ReadsRule t s u i j a →
    Derives (any (rule .forStmt) [rule .ifStmt, rule .printStmt, rule .returnStmt,
      rule .whileStmt, rule .block]) (t :: u)
  | _, _, _, _, _, _, .print hk he hs =>
    .right (.right (.left (.rule (.seq (.keyword hk) (.seq (derived_of_reads he) (.punct hs))))))
  | _, _, _, _, _, _, .ret hk he hs => .right (.right (.right (.left
      (.rule (.seq (.keyword hk) (.seq (derives_optional he) (.punct hs)))))))
  | _, _, _, _, _, _, .loop hk ho he hc hs => .right (.right (.right (.right (.left
      (.rule (.seq (.keyword hk) (.seq (.punct ho) (.seq (derived_of_reads he)
        (.seq (.punct hc) (stmt_derives hs))))))))))
  | _, _, _, _, _, _, .ifThen hk ho he hc hs _ => .right (.left
      (.rule (.seq (.keyword hk) (.seq (.punct ho) (.seq (derived_of_reads he)
        (.seq (.punct hc) (derives_seq_nil (stmt_derives hs) .absent)))))))
  | _, _, _, _, _, _, .ifElse hk ho he hc hs hl ht => .right (.left
      (.rule (.seq (.keyword hk) (.seq (.punct ho) (.seq (derived_of_reads he)
        (.seq (.punct hc) (.seq (stmt_derives hs)
          (.present (.seq (.keyword hl) (stmt_derives ht))))))))))
  | _, _, _, _, _, _, .forLoop hk ho hi hv hs hw hc hb => .left
      (.rule (.seq (.keyword hk) (.seq (.punct ho) (.seq (derives_initializer hi)
        (.seq (derives_optional hv) (.seq (.punct hs) (.seq (derives_optional hw)
          (.seq (.punct hc) (stmt_derives hb)))))))))
  | _, _, _, _, _, _, .block ho hb hc => .right (.right (.right (.right (.right
      (.rule (.seq (.punct ho) (.seq (decls_derive hb) (.punct hc))))))))

theorem decl_derives : ∀ {s u i j a}, ReadsDecl s u i j a → Derives (rule .declaration) u
  | _, _, _, _, _, .function hk hf => .rule (.left (function_derives hk hf))
  | _, _, _, _, _, .var hk hv => .rule (.right (.left (derives_var hk hv)))
  | _, _, _, _, _, .statement hs => .rule (.right (.right (stmt_derives hs)))

theorem function_derives {k : Token} (hk : k.type = .keyword .kwFun) :
    ∀ {s u i j a}, ReadsFunction s u i j a → Derives (rule .funDecl) (k :: u)
  | _, _, _, _, _, .mk hn ho hp hc hb hu hd =>
    .rule (.seq (.keyword hk) (.seq (.identifier hn) (.seq (.punct ho)
      (.seq (derives_paramList hp) (.seq (.punct hc)
        (.rule (.seq (.punct hb) (.seq (decls_derive hu) (.punct hd)))))))))

theorem decls_derive : ∀ {b u i j a}, ReadsDecls b u i j a → Derives (many (rule .declaration)) u
  | _, _, _, _, _, .nil => .manyNil
  | _, _, _, _, _, .cons hs hb => .manyCons (decl_derives hs) (decls_derive hb)

end

end Lox.Grammar.Ebnf
