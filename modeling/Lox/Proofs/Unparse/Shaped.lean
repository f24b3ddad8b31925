import Lox.Proofs.Unparse.Reading

/-! What is read has the shape of a tree that can be written down, and its tokens have no `for`. -/

namespace Lox.Grammar

lemma binds_of_allows {l : Level} {tighter : List Level} (hs : l :: tighter <:+ levels)
    {t : TokenType} (ht : l.allows t = true) : t.binds + tighter.length = 6 ∧
      (l.node = .logical ∧ (t.binds = 1 ∨ t.binds = 2) ∨ l.node = .binary ∧ 3 ≤ t.binds) := by
  simp only [levels, List.suffix_cons_iff, List.cons.injEq, List.suffix_nil, reduceCtorEq,
    or_false] at hs
  cases t with
  | punct p =>
    rcases hs with h | h | h | h | h | h
    all_goals
      obtain ⟨rfl, rfl⟩ := h
      simp only [Level.allows, decide_eq_true_eq, List.mem_cons, List.not_mem_nil, or_false] at ht
    all_goals first
      | exact ht.elim
      | rcases ht with rfl | rfl | rfl | rfl <;> simp [TokenType.binds]
  | keyword k =>
    rcases hs with h | h | h | h | h | h
    all_goals
      obtain ⟨rfl, rfl⟩ := h
      simp only [Level.allows, decide_eq_true_eq, Option.some.injEq, reduceCtorEq] at ht
    all_goals subst ht; simp [TokenType.binds]
  | _ => cases ht

lemma listShaped_concat {es : List Expr} {e : Expr} (hes : Expr.ListShaped es) (he : e.Shaped) :
    Expr.ListShaped (es ++ [e]) := by
  induction es with
  | nil => exact ⟨he, trivial⟩
  | cons e' es ih => exact ⟨hes.1, ih hes.2⟩

def ExprRule.Shapes : ExprRule → Expr → Prop
  | .expression, e => e.Shaped
  | .joined ls, e => ls <:+ levels → e.Shaped ∧ 7 ≤ e.rank + ls.length
  | .operations l tighter left, e => l :: tighter <:+ levels →
      left.Shaped ∧ 6 ≤ left.rank + tighter.length → e.Shaped ∧ 6 ≤ e.rank + tighter.length
  | .unary, e => e.Shaped ∧ 7 ≤ e.rank
  | .primary, e => e.Shaped ∧ 8 ≤ e.rank
  | .calls callee, e => callee.Shaped ∧ 8 ≤ callee.rank → e.Shaped ∧ 8 ≤ e.rank
  | .arguments callee args, e =>
      callee.Shaped ∧ 8 ≤ callee.rank → Expr.ListShaped args → e.Shaped ∧ 8 ≤ e.rank

lemma node_shaped {l : Level} {tighter : List Level} (hs : l :: tighter <:+ levels) {op : Token}
    (ho : l.allows op.type = true) {a b : Expr} (ha : a.Shaped ∧ 6 ≤ a.rank + tighter.length)
    (hb : b.Shaped ∧ 7 ≤ b.rank + tighter.length) :
    (l.node a op b).Shaped ∧ 6 ≤ (l.node a op b).rank + tighter.length := by
  obtain ⟨hbinds, hnode⟩ := binds_of_allows hs ho
  have hleft : a.Shaped ∧ op.type.binds ≤ a.rank := ⟨ha.1, by omega⟩
  have hright : b.Shaped ∧ op.type.binds < b.rank := ⟨hb.1, by omega⟩
  rcases hnode with ⟨hnode, hop⟩ | ⟨hnode, hop⟩
  · rw [hnode]
    exact ⟨⟨hop, hleft, hright⟩, Nat.le_of_eq hbinds.symm⟩
  · rw [hnode]
    exact ⟨⟨hop, hleft, hright⟩, Nat.le_of_eq hbinds.symm⟩

theorem shapes_of_reads {r : ExprRule} {e : Expr} {u : List Token} {i j : SiteId} {a : Ahead}
    (h : ReadsExpr r e u i j a) : r.Shapes e := by
  induction h with
  | operand _ _ ih => exact (ih List.suffix_rfl).1
  | assign _ _ _ iht ihv => exact ⟨(iht List.suffix_rfl).1, ihv⟩
  | tightest _ ih => exact fun _ => ih
  | level _ _ ihf ihe =>
    intro hs
    obtain ⟨hf, hrank⟩ := ihf ((List.suffix_cons _ _).trans hs)
    obtain ⟨he, hrank'⟩ := ihe hs ⟨hf, Nat.le_of_succ_le hrank⟩
    exact ⟨he, Nat.succ_le_succ hrank'⟩
  | noOperator => exact fun _ hl => hl
  | operator ho _ _ ihr ihe =>
    intro hs hl
    exact ihe hs (node_shaped hs ho hl (ihr ((List.suffix_cons _ _).trans hs)))
  | sign ho _ ih => exact ⟨⟨ho, ih⟩, Nat.le_refl 7⟩
  | call _ _ ihf ihe =>
    obtain ⟨he, hrank⟩ := ihe ihf
    exact ⟨he, Nat.le_of_succ_le hrank⟩
  | literal => exact ⟨trivial, Nat.le_succ 8⟩
  | name ht => exact ⟨ht, Nat.le_succ 8⟩
  | grouping _ _ _ ih => exact ⟨ih, Nat.le_succ 8⟩
  | noCall => exact id
  | callWithout _ hc _ ih => exact fun hf => ih ⟨⟨hf, hc, trivial, Nat.zero_le _⟩, Nat.le_refl 8⟩
  | callWith _ _ ih => exact fun hf => ih hf trivial
  | argument _ _ _ _ ihe ih => exact fun hf ha => ih hf (listShaped_concat ha ihe)
  | lastArgument hn _ hc _ ihe ih =>
    intro hf ha
    refine ih ⟨⟨hf, hc, listShaped_concat ha ihe, ?_⟩, Nat.le_refl 8⟩
    rw [List.length_append]
    exact hn

lemma expression_shaped {e : Expr} {u : List Token} {i j : SiteId} {a : Ahead}
    (h : ReadsExpr .expression e u i j a) : e.Shaped := shapes_of_reads h

section

variable {e : Option Expr} {s : Stmt} {u xs : List Token} {i j : SiteId} {a : Ahead}

lemma optional_shaped {finish : Punct} (h : ReadsOptional finish e u i j a) :
    Expr.OptionShaped e := by
  cases h with
  | none => trivial
  | some he => exact expression_shaped he

lemma var_shaped (h : ReadsVar s u i j a) : s.Shaped := by
  cases h with
  | plain hn => exact ⟨hn, trivial⟩
  | initialized hn _ he => exact ⟨hn, expression_shaped he⟩

lemma initializer_shaped {s : Option Stmt} (h : ReadsInitializer s u i j a) :
    Stmt.ListShaped s.toList := by
  cases h with
  | none => trivial
  | var _ hs => exact ⟨var_shaped hs, trivial⟩
  | expression he => exact ⟨expression_shaped he, trivial⟩

lemma params_named {n : ℕ} (h : ReadsParams n xs u i j a) :
    (∀ x ∈ xs, x.type = .identifier) ∧ n + xs.length ≤ maxArity := by
  induction h with
  | last hn hx => exact ⟨List.forall_mem_singleton.2 hx, hn⟩
  | more _ hx _ _ ih =>
    rw [List.length_cons]
    exact ⟨List.forall_mem_cons.2 ⟨hx, ih.1⟩, by omega⟩

lemma paramList_named (h : ReadsParamList xs u i j a) :
    (∀ x ∈ xs, x.type = .identifier) ∧ xs.length ≤ maxArity := by
  cases h with
  | none => exact ⟨List.forall_mem_nil _, Nat.zero_le _⟩
  | some h =>
    obtain ⟨hx, hn⟩ := params_named h
    exact ⟨hx, by omega⟩

end

lemma forLoop_shaped {initializer : Option Stmt} {condition increment : Option Expr} {body : Stmt}
    (hi : Stmt.ListShaped initializer.toList) (hc : Expr.OptionShaped condition)
    (he : Expr.OptionShaped increment) (hb : body.Shaped ∧ body.isDeclaration = false) :
    (forLoop initializer condition increment body).Shaped ∧
      (forLoop initializer condition increment body).isDeclaration = false := by
  cases initializer <;> cases condition <;> cases increment <;>
    simp_all [forLoop, Stmt.Shaped, Stmt.ListShaped, Expr.Shaped, Expr.OptionShaped,
      Stmt.isDeclaration]

lemma endsOpen_forLoop {initializer : Option Stmt} {condition increment : Option Expr}
    {body : Stmt} (h : (forLoop initializer condition increment body).endsOpen = true) :
    body.endsOpen = true := by
  cases initializer <;> cases increment <;> first | exact h | cases h

mutual

lemma stmt_closed : ∀ {s u i j a}, ReadsStmt s u i j a → s.endsOpen = true →
    a ≠ some (.keyword .kwElse)
  | _, _, _, _, _, .expression _ _, ho => absurd ho Bool.false_ne_true
  | _, _, _, _, _, .rule h, ho => rule_closed h ho

lemma rule_closed : ∀ {t s u i j a}, ReadsRule t s u i j a → s.endsOpen = true →
    a ≠ some (.keyword .kwElse)
  | _, _, _, _, _, _, .print _ _ _, ho | _, _, _, _, _, _, .ret _ _ _, ho
  | _, _, _, _, _, _, .block _ _ _, ho => absurd ho Bool.false_ne_true
  | _, _, _, _, _, _, .loop _ _ _ _ hs, ho => stmt_closed hs ho
  | _, _, _, _, _, _, .ifThen _ _ _ _ _ ha, _ => ha
  | _, _, _, _, _, _, .ifElse _ _ _ _ _ _ ht, ho => stmt_closed ht ho
  | _, _, _, _, _, _, .forLoop _ _ _ _ _ _ _ hb, ho => stmt_closed hb (endsOpen_forLoop ho)

end

lemma closed_before_else {s : Stmt} {u : List Token} {i j : SiteId} {l : Token}
    (h : ReadsStmt s u i j (some l.type)) (hl : l.type = .keyword .kwElse) :
    s.endsOpen = false := by
  by_contra ho
  rw [Bool.not_eq_false] at ho
  exact stmt_closed h ho (congrArg some hl)

mutual

lemma stmt_shaped : ∀ {s u i j a}, ReadsStmt s u i j a → s.Shaped ∧ s.isDeclaration = false
  | _, _, _, _, _, .expression he _ => ⟨expression_shaped he, rfl⟩
  | _, _, _, _, _, .rule h => rule_shaped h

lemma rule_shaped : ∀ {t s u i j a}, ReadsRule t s u i j a → s.Shaped ∧ s.isDeclaration = false
  | _, _, _, _, _, _, .print _ he _ => ⟨expression_shaped he, rfl⟩
  | _, _, _, _, _, _, .ret hk he _ => ⟨⟨hk, optional_shaped he⟩, rfl⟩
  | _, _, _, _, _, _, .loop _ _ he _ hs => ⟨⟨expression_shaped he, stmt_shaped hs⟩, rfl⟩
  | _, _, _, _, _, _, .ifThen _ _ he _ hs _ => ⟨⟨expression_shaped he, stmt_shaped hs⟩, rfl⟩
  | _, _, _, _, _, _, .ifElse _ _ he _ hs hl ht =>
    have ⟨hshaped, hd⟩ := stmt_shaped hs
    ⟨⟨expression_shaped he, ⟨hshaped, hd, closed_before_else hs hl⟩, stmt_shaped ht⟩, rfl⟩
  | _, _, _, _, _, _, .forLoop _ _ hi hv _ hw _ hb =>
    forLoop_shaped (initializer_shaped hi) (optional_shaped hv) (optional_shaped hw)
      (stmt_shaped hb)
  | _, _, _, _, _, _, .block _ hb _ => ⟨decls_shaped hb, rfl⟩

lemma function_shaped : ∀ {s u i j a}, ReadsFunction s u i j a → s.Shaped
  | _, _, _, _, _, .mk hn _ hp _ _ hb _ => ⟨hn, paramList_named hp, decls_shaped hb⟩

lemma decl_shaped : ∀ {s u i j a}, ReadsDecl s u i j a → s.Shaped
  | _, _, _, _, _, .function _ hf => function_shaped hf
  | _, _, _, _, _, .var _ hv => var_shaped hv
  | _, _, _, _, _, .statement hs => (stmt_shaped hs).1

theorem decls_shaped : ∀ {b u i j a}, ReadsDecls b u i j a → Stmt.ListShaped b
  | _, _, _, _, _, .nil => trivial
  | _, _, _, _, _, .cons hs hb => ⟨decl_shaped hs, decls_shaped hb⟩

end

section

variable {t : Token}

lemma ForFree.nil : ForFree [] := List.forall_mem_nil _

lemma ne_for_of_binds (h : 1 ≤ t.type.binds) : t.type ≠ .keyword .kwFor := by
  intro ht
  rw [ht] at h
  exact Nat.not_succ_le_zero 0 h

lemma ne_for_of_identifier (h : t.type = .identifier) : t.type ≠ .keyword .kwFor := by
  rw [h]
  nofun

lemma forFree_punct (p : Punct) : (Token.punct p).type ≠ .keyword .kwFor := nofun

end

lemma literal_ne_for (v : Literal) : v.type ≠ .keyword .kwFor := by
  cases v with
  | bool b => cases b <;> nofun
  | _ => nofun

mutual

lemma expr_forFree : ∀ {e : Expr}, e.Shaped → ForFree e.tokens
  | .literal v, _ => forFree_cons.2 ⟨literal_ne_for v, .nil⟩
  | .grouping e, h => by
    have he := expr_forFree (e := e) h
    simp [Expr.tokens, forFree_cons, forFree_append, forFree_punct, he, ForFree.nil]
  | .unary op e, ⟨ho, he, _⟩ => by
    refine forFree_cons.2 ⟨fun ht => ?_, expr_forFree he⟩
    rw [ht] at ho
    cases ho
  | .binary a op b, ⟨ho, ⟨ha, _⟩, hb, _⟩ =>
    forFree_append.2 ⟨expr_forFree ha, forFree_cons.2 ⟨ne_for_of_binds (by omega), expr_forFree hb⟩⟩
  | .logical a op b, ⟨ho, ⟨ha, _⟩, hb, _⟩ =>
    forFree_append.2 ⟨expr_forFree ha, forFree_cons.2 ⟨ne_for_of_binds (by omega), expr_forFree hb⟩⟩
  | .ref _ name, h => forFree_cons.2 ⟨ne_for_of_identifier h, .nil⟩
  | .assign _ name e, ⟨hn, he⟩ =>
    forFree_cons.2 ⟨ne_for_of_identifier hn, forFree_cons.2 ⟨forFree_punct _, expr_forFree he⟩⟩
  | .call callee paren [], ⟨⟨hc, _⟩, hp, _, _⟩ => by
    have hcallee := expr_forFree hc
    simp [Expr.tokens, forFree_cons, forFree_append, forFree_punct, hcallee, hp, ForFree.nil]
  | .call callee paren (e :: rest), ⟨⟨hc, _⟩, hp, ⟨he, hr⟩, _⟩ => by
    have hcallee := expr_forFree hc
    have hfirst := expr_forFree he
    have hrest := more_forFree hr
    simp [Expr.tokens, forFree_cons, forFree_append, forFree_punct, hcallee, hfirst, hrest, hp,
      ForFree.nil]

lemma more_forFree : ∀ {es : List Expr}, Expr.ListShaped es → ForFree (Expr.moreTokens es)
  | [], _ => .nil
  | _ :: _, ⟨he, hes⟩ => forFree_cons.2 ⟨forFree_punct _,
    forFree_append.2 ⟨expr_forFree he, more_forFree hes⟩⟩

end

lemma option_forFree {e : Option Expr} (h : Expr.OptionShaped e) :
    ForFree (Expr.optionTokens e) := by
  cases e with
  | none => exact .nil
  | some e => exact expr_forFree h

lemma params_forFree : ∀ {xs : List Token}, (∀ x ∈ xs, x.type = .identifier) →
    ForFree (paramTokens xs)
  | [], _ => .nil
  | [x], h => forFree_cons.2 ⟨ne_for_of_identifier (h x List.mem_cons_self), .nil⟩
  | x :: y :: rest, h => by
    obtain ⟨hx, hrest⟩ := List.forall_mem_cons.1 h
    exact forFree_cons.2 ⟨ne_for_of_identifier hx, forFree_cons.2 ⟨forFree_punct _,
      params_forFree hrest⟩⟩

lemma head_forFree {k : Keyword} {c : Expr} (hk : k ≠ .kwFor) (hc : c.Shaped) :
    ForFree (headTokens k c) := by
  have htokens := expr_forFree hc
  have hkeyword : (Token.keyword k).type ≠ .keyword .kwFor := fun h => hk (TokenType.keyword.inj h)
  simp [headTokens, forFree_cons, forFree_append, forFree_punct, htokens, hkeyword, ForFree.nil]

mutual

lemma stmt_forFree : ∀ {s : Stmt}, s.Shaped → ForFree s.tokens
  | .expression e, h => forFree_append.2 ⟨expr_forFree (e := e) h,
    forFree_cons.2 ⟨forFree_punct _, .nil⟩⟩
  | .print e, h => forFree_cons.2 ⟨nofun, forFree_append.2 ⟨expr_forFree (e := e) h,
    forFree_cons.2 ⟨forFree_punct _, .nil⟩⟩⟩
  | .var name none, ⟨hn, _⟩ => by
    simp [Stmt.tokens, forFree_cons, forFree_punct, Token.keyword, Token.plain, hn, ForFree.nil]
  | .var name (some e), ⟨hn, he⟩ => by
    have htokens := expr_forFree (e := e) he
    simp [Stmt.tokens, forFree_cons, forFree_append, forFree_punct, Token.keyword, Token.plain, hn,
      htokens, ForFree.nil]
  | .block body, h => by
    have hbody := stmts_forFree (b := body) h
    simp [Stmt.tokens, forFree_cons, forFree_append, forFree_punct, hbody, ForFree.nil]
  | .ifThen _ _, ⟨hc, hs, _⟩ => forFree_append.2 ⟨head_forFree nofun hc, stmt_forFree hs⟩
  | .ifElse _ _ _, ⟨hc, ⟨hs, _⟩, ht, _⟩ => forFree_append.2 ⟨head_forFree nofun hc,
    forFree_append.2 ⟨stmt_forFree hs, forFree_cons.2 ⟨nofun, stmt_forFree ht⟩⟩⟩
  | .loop _ _, ⟨hc, hs, _⟩ => forFree_append.2 ⟨head_forFree nofun hc, stmt_forFree hs⟩
  | .function name params body, ⟨hn, ⟨hp, _⟩, hb⟩ => by
    have hparams := params_forFree hp
    have hbody := stmts_forFree hb
    simp [Stmt.tokens, forFree_cons, forFree_append, forFree_punct, Token.keyword, Token.plain, hn,
      hparams, hbody, ForFree.nil]
  | .ret keyword e, ⟨hk, he⟩ => by
    have htokens := option_forFree he
    simp [Stmt.tokens, forFree_cons, forFree_append, forFree_punct, hk, htokens, ForFree.nil]

theorem stmts_forFree : ∀ {b : List Stmt}, Stmt.ListShaped b → ForFree (Stmt.unparse b)
  | [], _ => .nil
  | _ :: _, ⟨hs, hb⟩ => forFree_append.2 ⟨stmt_forFree hs, stmts_forFree hb⟩

end

end Lox.Grammar
