import Lox.Proofs.Grammar.Acceptance
import Lox.Proofs.Grammar.Tokens

/-! The tokens of a tree, in order: its own tokens where it has them, and between these the tokens
that the grammar wants there. -/

namespace Lox

def Token.plain (type : TokenType) : Token := ⟨type, "", 0, 0⟩

def Token.punct (p : Punct) : Token := plain (.punct p)

def Token.keyword (k : Keyword) : Token := plain (.keyword k)

/-- What a token says: its type with what a literal stands for, and a name. -/
def Token.gist (t : Token) : TokenType × Option String :=
  (t.type, match t.type with
    | .identifier => some t.lexeme
    | _ => none)

def Literal.type : Literal → TokenType
  | nil => .keyword .kwNil
  | bool true => .keyword .kwTrue
  | bool false => .keyword .kwFalse
  | number x => .number x
  | string s => .string s

mutual

def Expr.tokens : Expr → List Token
  | .literal v => [.plain v.type]
  | .grouping e => .punct .leftParen :: (e.tokens ++ [.punct .rightParen])
  | .unary op e => op :: e.tokens
  | .binary a op b | .logical a op b => a.tokens ++ op :: b.tokens
  | .ref _ name => [name]
  | .assign _ name e => name :: .punct .equal :: e.tokens
  | .call callee paren [] => callee.tokens ++ [.punct .leftParen, paren]
  | .call callee paren (e :: rest) =>
    callee.tokens ++ .punct .leftParen :: (e.tokens ++ (Expr.moreTokens rest ++ [paren]))

def Expr.moreTokens : List Expr → List Token
  | [] => []
  | e :: rest => .punct .comma :: (e.tokens ++ Expr.moreTokens rest)

end

def Expr.optionTokens : Option Expr → List Token
  | none => []
  | some e => e.tokens

def paramTokens : List Token → List Token
  | [] => []
  | [x] => [x]
  | x :: y :: rest => x :: .punct .comma :: paramTokens (y :: rest)

def headTokens (k : Keyword) (condition : Expr) : List Token :=
  .keyword k :: .punct .leftParen :: (condition.tokens ++ [.punct .rightParen])

mutual

def Stmt.tokens : Stmt → List Token
  | .expression e => e.tokens ++ [.punct .semicolon]
  | .print e => .keyword .kwPrint :: (e.tokens ++ [.punct .semicolon])
  | .var name none => [.keyword .kwVar, name, .punct .semicolon]
  | .var name (some e) =>
    .keyword .kwVar :: name :: .punct .equal :: (e.tokens ++ [.punct .semicolon])
  | .block body => .punct .leftBrace :: (Stmt.unparse body ++ [.punct .rightBrace])
  | .ifThen c s => headTokens .kwIf c ++ s.tokens
  | .ifElse c s t => headTokens .kwIf c ++ (s.tokens ++ .keyword .kwElse :: t.tokens)
  | .loop c s => headTokens .kwWhile c ++ s.tokens
  | .function name params body =>
    .keyword .kwFun :: name :: .punct .leftParen :: (paramTokens params ++
      .punct .rightParen :: .punct .leftBrace :: (Stmt.unparse body ++ [.punct .rightBrace]))
  | .ret keyword e => keyword :: (Expr.optionTokens e ++ [.punct .semicolon])

def Stmt.unparse : List Stmt → List Token
  | [] => []
  | s :: rest => s.tokens ++ Stmt.unparse rest

end

namespace Grammar

lemma gist_plain {t : Token} {type : TokenType} (h : t.type = type) (hn : type ≠ .identifier) :
    (Token.plain type).gist = t.gist := by
  subst h
  unfold Token.gist Token.plain
  cases ht : t.type with
  | identifier => exact absurd ht hn
  | _ => rfl

lemma gist_punct {t : Token} {p : Punct} (h : t.type = .punct p) :
    (Token.punct p).gist = t.gist := gist_plain h nofun

lemma gist_keyword {t : Token} {k : Keyword} (h : t.type = .keyword k) :
    (Token.keyword k).gist = t.gist := gist_plain h nofun

lemma type_of_literal {t : TokenType} {v : Literal} (h : literal? t = some v) :
    v.type = t ∧ t ≠ .identifier := by
  cases t with
  | keyword k =>
    cases k <;> first
      | cases h; done
      | obtain rfl := Option.some.inj h; exact ⟨rfl, nofun⟩
  | number x | string s =>
    obtain rfl := Option.some.inj h
    exact ⟨rfl, nofun⟩
  | punct p => cases h
  | identifier | eof => cases h

lemma tokens_node {l : Level} {tighter : List Level} (h : l :: tighter <:+ levels)
    (left right : Expr) (op : Token) :
    (l.node left op right).tokens = left.tokens ++ op :: right.tokens := by
  rcases node_of_mem (h.subset List.mem_cons_self) with hl | hl <;> rw [hl] <;> rfl

def callTokens (callee : Expr) (args : List Expr) : List Token :=
  callee.tokens ++ .punct .leftParen :: args.flatMap fun e => e.tokens ++ [.punct .comma]

def ExprRule.lead : ExprRule → List Token
  | .operations _ _ left => left.tokens
  | .calls callee => callee.tokens
  | .arguments callee args => callTokens callee args
  | _ => []

lemma moreTokens_append (args : List Expr) (e : Expr) :
    Expr.moreTokens (args ++ [e]) =
      .punct .comma :: ((args.flatMap fun e => e.tokens ++ [.punct .comma]) ++ e.tokens) := by
  induction args with
  | nil => simp [Expr.moreTokens]
  | cons arg args ih => simp [Expr.moreTokens, ih]

lemma tokens_call (callee e : Expr) (paren : Token) (args : List Expr) :
    (Expr.call callee paren (args ++ [e])).tokens =
      callTokens callee args ++ (e.tokens ++ [paren]) := by
  cases args with
  | nil => simp [Expr.tokens, Expr.moreTokens, callTokens]
  | cons arg args => simp [Expr.tokens, moreTokens_append, callTokens]

lemma expr_gist {r : ExprRule} {e : Expr} {u : List Token} {i j : SiteId} {a : Ahead}
    (h : ReadsExpr r e u i j a) (hr : r.Leveled) :
    e.tokens.map Token.gist = (r.lead ++ u).map Token.gist := by
  -- What a rule finds read before it counts with what it reads: the tree has the tokens of both.
  induction h with
  | operand _ _ ih => exact ih List.suffix_rfl
  | assign _ heq _ iht ihv =>
    have ht := iht List.suffix_rfl
    have hv := ihv trivial
    simp only [ExprRule.lead, List.nil_append] at ht hv
    simp [ExprRule.lead, Expr.tokens, gist_punct heq, hv, ← ht]
  | tightest _ ih => exact ih trivial
  | level _ _ ihf ihe =>
    have hfirst := ihf ((List.suffix_cons _ _).trans hr)
    have hrest := ihe hr
    simp only [ExprRule.lead, List.nil_append] at hfirst
    simpa [ExprRule.lead, hfirst] using hrest
  | noOperator => rw [List.append_nil]; rfl
  | operator _ _ _ ihr ihe =>
    have hright := ihr ((List.suffix_cons _ _).trans hr)
    have hrest := ihe hr
    simp only [ExprRule.lead, List.nil_append] at hright
    simpa [ExprRule.lead, tokens_node hr, hright] using hrest
  | sign _ _ ih => exact congrArg (List.cons _) (ih trivial)
  | call _ _ ihf ihe =>
    have hfirst := ihf trivial
    have hrest := ihe trivial
    simp only [ExprRule.lead, List.nil_append] at hfirst
    simpa [ExprRule.lead, hfirst] using hrest
  | literal hl =>
    obtain ⟨ht, hn⟩ := type_of_literal hl
    exact congrArg (· :: []) (ht ▸ gist_plain rfl hn)
  | name => rfl
  | grouping ho _ hc ih =>
    have hinner := ih trivial
    simpa [Expr.tokens, ExprRule.lead, gist_punct ho, gist_punct hc] using hinner
  | noCall => rw [List.append_nil]; rfl
  | callWithout ho _ _ ih =>
    have hrest := ih trivial
    simpa [Expr.tokens, ExprRule.lead, gist_punct ho] using hrest
  | callWith ho _ ih =>
    have hrest := ih trivial
    simpa [ExprRule.lead, callTokens, gist_punct ho] using hrest
  | argument _ _ ht _ ihe ih =>
    have harg := ihe trivial
    have hrest := ih trivial
    simp only [ExprRule.lead, List.nil_append] at harg
    simpa [ExprRule.lead, callTokens, gist_punct ht, harg] using hrest
  | lastArgument _ _ _ _ ihe ih =>
    have harg := ihe trivial
    have hrest := ih trivial
    simp only [ExprRule.lead, List.nil_append] at harg
    simpa [ExprRule.lead, tokens_call, harg] using hrest

lemma expression_gist {e : Expr} {u : List Token} {i j : SiteId} {a : Ahead}
    (h : ReadsExpr .expression e u i j a) : e.tokens.map Token.gist = u.map Token.gist :=
  expr_gist h trivial

lemma optional_gist {finish : Punct} {e : Option Expr} {u : List Token} {i j : SiteId} {a : Ahead}
    (h : ReadsOptional finish e u i j a) :
    (Expr.optionTokens e).map Token.gist = u.map Token.gist := by
  cases h with
  | none _ => rfl
  | some he => exact expression_gist he

lemma var_gist {k : Token} {s : Stmt} {u : List Token} {i j : SiteId} {a : Ahead}
    (h : ReadsVar s u i j a) (hk : k.type = .keyword .kwVar) :
    s.tokens.map Token.gist = (k :: u).map Token.gist := by
  cases h with
  | plain _ hs => simp [Stmt.tokens, gist_keyword hk, gist_punct hs]
  | initialized _ heq he hs =>
    simp [Stmt.tokens, gist_keyword hk, gist_punct heq, gist_punct hs, expression_gist he]

lemma params_gist {n : ℕ} {xs u : List Token} {i j : SiteId} {a : Ahead}
    (h : ReadsParams n xs u i j a) : (paramTokens xs).map Token.gist = u.map Token.gist := by
  induction h with
  | last => rfl
  | more _ _ ht hrest ih =>
    cases hrest <;> simp_all [paramTokens, gist_punct ht]

lemma paramList_gist {xs u : List Token} {i j : SiteId} {a : Ahead}
    (h : ReadsParamList xs u i j a) : (paramTokens xs).map Token.gist = u.map Token.gist := by
  cases h with
  | none _ => rfl
  | some h => exact params_gist h

def ForFree (u : List Token) : Prop := ∀ t ∈ u, t.type ≠ .keyword .kwFor

lemma forFree_append {u v : List Token} : ForFree (u ++ v) ↔ ForFree u ∧ ForFree v :=
  List.forall_mem_append

lemma forFree_cons {t : Token} {u : List Token} :
    ForFree (t :: u) ↔ t.type ≠ .keyword .kwFor ∧ ForFree u :=
  List.forall_mem_cons

lemma ForFree.append {u v : List Token} (h : ForFree (u ++ v)) : ForFree u ∧ ForFree v :=
  forFree_append.1 h

lemma ForFree.cons {t : Token} {u : List Token} (h : ForFree (t :: u)) :
    t.type ≠ .keyword .kwFor ∧ ForFree u :=
  forFree_cons.1 h

lemma head_gist {k o c : Token} {w : Keyword} {e : Expr} {u v : List Token} {i j : SiteId}
    {a : Ahead}
    (hk : k.type = .keyword w) (ho : o.type = .punct .leftParen)
    (he : ReadsExpr .expression e u i j a) (hc : c.type = .punct .rightParen) :
    (headTokens w e ++ v).map Token.gist = (k :: o :: (u ++ c :: v)).map Token.gist := by
  simp [headTokens, gist_keyword hk, gist_punct ho, gist_punct hc, expression_gist he]

mutual

lemma stmt_gist : ∀ {s u i j a}, ReadsStmt s u i j a → ForFree u →
    s.tokens.map Token.gist = u.map Token.gist
  | _, _, _, _, _, .expression he hs, _ => by
    simp [Stmt.tokens, expression_gist he, gist_punct hs]
  | _, _, _, _, _, .rule h, hf => rule_gist h hf

lemma rule_gist : ∀ {t s u i j a}, ReadsRule t s u i j a → ForFree (t :: u) →
    s.tokens.map Token.gist = (t :: u).map Token.gist
  | _, _, _, _, _, _, .print hk he hs, _ => by
    simp [Stmt.tokens, gist_keyword hk, expression_gist he, gist_punct hs]
  | _, _, _, _, _, _, .ret _ he hs, _ => by
    simp [Stmt.tokens, optional_gist he, gist_punct hs]
  | _, _, _, _, _, _, .loop hk ho he hc hs, hf => by
    have hbody := stmt_gist hs hf.cons.2.cons.2.append.2.cons.2
    rw [← head_gist hk ho he hc]
    simp [Stmt.tokens, hbody]
  | _, _, _, _, _, _, .ifThen hk ho he hc hs _, hf => by
    have hthen := stmt_gist hs hf.cons.2.cons.2.append.2.cons.2
    rw [← head_gist hk ho he hc]
    simp [Stmt.tokens, hthen]
  | _, _, _, _, _, _, .ifElse hk ho he hc hs hl ht, hf => by
    have hbranches := hf.cons.2.cons.2.append.2.cons.2.append
    have hthen := stmt_gist hs hbranches.1
    have helse := stmt_gist ht hbranches.2.cons.2
    rw [← head_gist hk ho he hc]
    simp [Stmt.tokens, hthen, helse, gist_keyword hl]
  | _, _, _, _, _, _, .forLoop hk _ _ _ _ _ _ _, hf => absurd hk hf.cons.1
  | _, _, _, _, _, _, .block ho hb hc, hf => by
    have hbody := decls_gist hb hf.cons.2.append.1
    simp [Stmt.tokens, gist_punct ho, gist_punct hc, hbody]

lemma function_gist : ∀ {k s u i j a}, ReadsFunction s u i j a → k.type = .keyword .kwFun →
    ForFree u → s.tokens.map Token.gist = (k :: u).map Token.gist
  | _, _, _, _, _, _, .mk _ ho hp hc hb hd he, hk, hf => by
    have hbody := decls_gist hd hf.cons.2.cons.2.append.2.cons.2.cons.2.append.1
    simp [Stmt.tokens, gist_keyword hk, gist_punct ho, gist_punct hc, gist_punct hb, gist_punct he,
      paramList_gist hp, hbody]

lemma decl_gist : ∀ {s u i j a}, ReadsDecl s u i j a → ForFree u →
    s.tokens.map Token.gist = u.map Token.gist
  | _, _, _, _, _, .function hk hs, hf => function_gist hs hk hf.cons.2
  | _, _, _, _, _, .var hk hs, _ => var_gist hs hk
  | _, _, _, _, _, .statement hs, hf => stmt_gist hs hf

theorem decls_gist : ∀ {b u i j a}, ReadsDecls b u i j a → ForFree u →
    (Stmt.unparse b).map Token.gist = u.map Token.gist
  | _, _, _, _, _, .nil, _ => rfl
  | _, _, _, _, _, .cons hs hb, hf => by
    have hfirst := decl_gist hs hf.append.1
    have hrest := decls_gist hb hf.append.2
    rw [Stmt.unparse, List.map_append, List.map_append, hfirst, hrest]

end

end Grammar

end Lox
