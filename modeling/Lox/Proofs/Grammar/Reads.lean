import Lox.Proofs.Grammar.Rules

/-! What each rule of the grammar reads. Only three places depend on what comes next: an operand
ends where no operator of its level follows, a callee where no call follows, and an `if` without
`else` where no `else` follows. -/

namespace Lox.Grammar

lemma node_of_mem {l : Level} (h : l ∈ levels) : l.node = .binary ∨ l.node = .logical := by
  simp only [levels, List.mem_cons, List.not_mem_nil, or_false] at h
  rcases h with rfl | rfl | rfl | rfl | rfl | rfl
  · exact .inr rfl
  · exact .inr rfl
  all_goals exact .inl rfl

inductive ExprRule where
  | expression
  | joined (ls : List Level)
  | operations (l : Level) (tighter : List Level) (left : Expr)
  | unary
  | primary
  | calls (callee : Expr)
  | arguments (callee : Expr) (args : List Expr)

inductive ReadsExpr : ExprRule → Expr → List Token → SiteId → SiteId → Ahead → Prop
  | operand {e u i j a} : ReadsExpr (.joined levels) e u i j a → a ≠ some (.punct .equal) →
      ReadsExpr .expression e u i j a
  | assign {site name u i k eq e v j a} :
      ReadsExpr (.joined levels) (.ref site name) u i k (some eq.type) → eq.type = .punct .equal →
      ReadsExpr .expression e v k j a →
      ReadsExpr .expression (.assign j name e) (u ++ eq :: v) i (j + 1) a
  | tightest {e u i j a} : ReadsExpr .unary e u i j a → ReadsExpr (.joined []) e u i j a
  | level {l tighter first e u v i k j a} : ReadsExpr (.joined tighter) first u i k (ahead v a) →
      ReadsExpr (.operations l tighter first) e v k j a →
      ReadsExpr (.joined (l :: tighter)) e (u ++ v) i j a
  | noOperator {l tighter left i a} : a.any l.allows = false →
      ReadsExpr (.operations l tighter left) left [] i i a
  | operator {l tighter left op right e u v i k j a} : l.allows op.type = true →
      ReadsExpr (.joined tighter) right u i k (ahead v a) →
      ReadsExpr (.operations l tighter (l.node left op right)) e v k j a →
      ReadsExpr (.operations l tighter left) e (op :: (u ++ v)) i j a
  | sign {op e u i j a} : isUnary op.type = true → ReadsExpr .unary e u i j a →
      ReadsExpr .unary (.unary op e) (op :: u) i j a
  | call {callee e u v i k j a} : ReadsExpr .primary callee u i k (ahead v a) →
      ReadsExpr (.calls callee) e v k j a → ReadsExpr .unary e (u ++ v) i j a
  | literal {t v i a} : literal? t.type = some v → ReadsExpr .primary (.literal v) [t] i i a
  | name {t i a} : t.type = .identifier → ReadsExpr .primary (.ref i t) [t] i (i + 1) a
  | grouping {o e u c i j a} : o.type = .punct .leftParen →
      ReadsExpr .expression e u i j (some c.type) → c.type = .punct .rightParen →
      ReadsExpr .primary (.grouping e) (o :: (u ++ [c])) i j a
  | noCall {callee i a} : a ≠ some (.punct .leftParen) →
      ReadsExpr (.calls callee) callee [] i i a
  | callWithout {callee o c e v i j a} : o.type = .punct .leftParen →
      c.type = .punct .rightParen → ReadsExpr (.calls (.call callee c [])) e v i j a →
      ReadsExpr (.calls callee) e (o :: c :: v) i j a
  | callWith {callee o e u i j a} : o.type = .punct .leftParen →
      ReadsExpr (.arguments callee []) e u i j a → ReadsExpr (.calls callee) e (o :: u) i j a
  | argument {callee args arg u t e v i k j a} : args.length < maxArity →
      ReadsExpr .expression arg u i k (some t.type) → t.type = .punct .comma →
      ReadsExpr (.arguments callee (args ++ [arg])) e v k j a →
      ReadsExpr (.arguments callee args) e (u ++ t :: v) i j a
  | lastArgument {callee args arg u t e v i k j a} : args.length < maxArity →
      ReadsExpr .expression arg u i k (some t.type) → t.type = .punct .rightParen →
      ReadsExpr (.calls (.call callee t (args ++ [arg]))) e v k j a →
      ReadsExpr (.arguments callee args) e (u ++ t :: v) i j a

inductive ReadsArgs : ℕ → List Expr → List Token → SiteId → SiteId → Ahead → Prop
  | last {n e u i j a} : n < maxArity → ReadsExpr .expression e u i j a →
      a ≠ some (.punct .comma) → ReadsArgs n [e] u i j a
  | more {n e es u t v i k j a} : n < maxArity → ReadsExpr .expression e u i k (some t.type) →
      t.type = .punct .comma → ReadsArgs (n + 1) es v k j a →
      ReadsArgs n (e :: es) (u ++ t :: v) i j a

inductive ReadsOptional (finish : Punct) :
    Option Expr → List Token → SiteId → SiteId → Ahead → Prop
  | none {i a} : a = some (.punct finish) → ReadsOptional finish none [] i i a
  | some {e u i j a} : ReadsExpr .expression e u i j a → ReadsOptional finish (some e) u i j a

inductive ReadsVar : Stmt → List Token → SiteId → SiteId → Ahead → Prop
  | plain {name s i a} : name.type = .identifier → s.type = .punct .semicolon →
      ReadsVar (.var name none) [name, s] i i a
  | initialized {name eq e u s i j a} : name.type = .identifier → eq.type = .punct .equal →
      ReadsExpr .expression e u i j (some s.type) → s.type = .punct .semicolon →
      ReadsVar (.var name (some e)) (name :: eq :: (u ++ [s])) i j a

inductive ReadsInitializer : Option Stmt → List Token → SiteId → SiteId → Ahead → Prop
  | none {s i a} : s.type = .punct .semicolon → ReadsInitializer none [s] i i a
  | var {k s u i j a} : k.type = .keyword .kwVar → ReadsVar s u i j a →
      ReadsInitializer (some s) (k :: u) i j a
  | expression {e u s i j a} : ReadsExpr .expression e u i j (some s.type) →
      s.type = .punct .semicolon → ReadsInitializer (some (.expression e)) (u ++ [s]) i j a

inductive ReadsParams : ℕ → List Token → List Token → SiteId → SiteId → Ahead → Prop
  | last {n x i a} : n < maxArity → x.type = .identifier → a ≠ some (.punct .comma) →
      ReadsParams n [x] [x] i i a
  | more {n x xs t v i j a} : n < maxArity → x.type = .identifier → t.type = .punct .comma →
      ReadsParams (n + 1) xs v i j a → ReadsParams n (x :: xs) (x :: t :: v) i j a

inductive ReadsParamList : List Token → List Token → SiteId → SiteId → Ahead → Prop
  | none {i a} : a = some (.punct .rightParen) → ReadsParamList [] [] i i a
  | some {xs u i j a} : ReadsParams 0 xs u i j a → ReadsParamList xs u i j a

mutual

inductive ReadsStmt : Stmt → List Token → SiteId → SiteId → Ahead → Prop
  | expression {e u s i j a} : ReadsExpr .expression e u i j (some s.type) →
      s.type = .punct .semicolon → ReadsStmt (.expression e) (u ++ [s]) i j a
  | rule {t s u i j a} : ReadsRule t s u i j a → ReadsStmt s (t :: u) i j a

inductive ReadsRule : Token → Stmt → List Token → SiteId → SiteId → Ahead → Prop
  | print {k e u s i j a} : k.type = .keyword .kwPrint →
      ReadsExpr .expression e u i j (some s.type) → s.type = .punct .semicolon →
      ReadsRule k (.print e) (u ++ [s]) i j a
  | ret {k e u s i j a} : k.type = .keyword .kwReturn →
      ReadsOptional .semicolon e u i j (some s.type) → s.type = .punct .semicolon →
      ReadsRule k (.ret k e) (u ++ [s]) i j a
  | loop {k o e u c s v i m j a} : k.type = .keyword .kwWhile → o.type = .punct .leftParen →
      ReadsExpr .expression e u i m (some c.type) → c.type = .punct .rightParen →
      ReadsStmt s v m j a → ReadsRule k (.loop e s) (o :: (u ++ c :: v)) i j a
  | ifThen {k o e u c s v i m j a} : k.type = .keyword .kwIf → o.type = .punct .leftParen →
      ReadsExpr .expression e u i m (some c.type) → c.type = .punct .rightParen →
      ReadsStmt s v m j a → a ≠ some (.keyword .kwElse) →
      ReadsRule k (.ifThen e s) (o :: (u ++ c :: v)) i j a
  | ifElse {k o e u c s v l t w i m m' j a} : k.type = .keyword .kwIf →
      o.type = .punct .leftParen → ReadsExpr .expression e u i m (some c.type) →
      c.type = .punct .rightParen → ReadsStmt s v m m' (some l.type) →
      l.type = .keyword .kwElse → ReadsStmt t w m' j a →
      ReadsRule k (.ifElse e s t) (o :: (u ++ c :: (v ++ l :: w))) i j a
  | forLoop {k o initializer u condition v s increment w c body x i m m' m'' j a} :
      k.type = .keyword .kwFor → o.type = .punct .leftParen →
      ReadsInitializer initializer u i m (ahead v (some s.type)) →
      ReadsOptional .semicolon condition v m m' (some s.type) → s.type = .punct .semicolon →
      ReadsOptional .rightParen increment w m' m'' (some c.type) → c.type = .punct .rightParen →
      ReadsStmt body x m'' j a →
      ReadsRule k (forLoop initializer condition increment body)
        (o :: (u ++ (v ++ s :: (w ++ c :: x)))) i j a
  | block {o b u c i j a} : o.type = .punct .leftBrace → ReadsDecls b u i j (some c.type) →
      c.type = .punct .rightBrace → ReadsRule o (.block b) (u ++ [c]) i j a

inductive ReadsFunction : Stmt → List Token → SiteId → SiteId → Ahead → Prop
  | mk {name o params p c b body u d i m j a} : name.type = .identifier →
      o.type = .punct .leftParen → ReadsParamList params p i m (some c.type) →
      c.type = .punct .rightParen → b.type = .punct .leftBrace →
      ReadsDecls body u m j (some d.type) → d.type = .punct .rightBrace →
      ReadsFunction (.function name params body)
        (name :: o :: (p ++ c :: b :: (u ++ [d]))) i j a

inductive ReadsDecl : Stmt → List Token → SiteId → SiteId → Ahead → Prop
  | function {k s u i j a} : k.type = .keyword .kwFun → ReadsFunction s u i j a →
      ReadsDecl s (k :: u) i j a
  | var {k s u i j a} : k.type = .keyword .kwVar → ReadsVar s u i j a →
      ReadsDecl s (k :: u) i j a
  | statement {s u i j a} : ReadsStmt s u i j a → ReadsDecl s u i j a

inductive ReadsDecls : List Stmt → List Token → SiteId → SiteId → Ahead → Prop
  | nil {i a} : ReadsDecls [] [] i i a
  | cons {s b u v i k j a} : ReadsDecl s u i k (ahead v a) → ReadsDecls b v k j a →
      ReadsDecls (s :: b) (u ++ v) i j a

end

def startsExpression (t : TokenType) : Bool := isUnary t || startsPrimary t

def startsDeclaration (t : TokenType) : Bool :=
  startsExpression t || startsRule t || t.sameKind (.keyword .kwFun) || t.sameKind (.keyword .kwVar)

def ExprRule.leads : ExprRule → Bool
  | .operations .. | .calls _ => false
  | _ => true

lemma startsPrimary_of_literal {t : TokenType} {v : Literal} (h : literal? t = some v) :
    startsPrimary t = true := by
  cases t with
  | keyword k => cases k <;> first | rfl | cases h
  | punct p => cases h
  | identifier | string _ | number _ => rfl
  | eof => cases h

lemma leftParen_of_startsPrimary {t : TokenType} (h : startsPrimary t = true)
    (hl : literal? t = none) (hi : t ≠ .identifier) : t = .punct .leftParen := by
  cases t with
  | punct p => cases p <;> first | rfl | cases h
  | keyword k => cases k <;> simp [literal?] at hl <;> cases h
  | identifier => exact absurd rfl hi
  | string _ | number _ => cases hl
  | eof => cases h

lemma not_isUnary_of_startsPrimary {t : TokenType} (h : startsPrimary t = true) :
    isUnary t = false := by
  cases t with
  | punct p => cases p <;> first | rfl | cases h
  | _ => rfl

lemma ReadsExpr.startsPrimary {e u i j a} (h : ReadsExpr .primary e u i j a) :
    ∃ t v, u = t :: v ∧ startsPrimary t.type = true := by
  cases h with
  | literal hl => exact ⟨_, _, rfl, startsPrimary_of_literal hl⟩
  | name ht => exact ⟨_, _, rfl, by rw [ht]; rfl⟩
  | grouping ho => exact ⟨_, _, rfl, by rw [ho]; rfl⟩

lemma ReadsExpr.first {f e u i j a} (h : ReadsExpr f e u i j a) (hf : f.leads = true) :
    ∃ t v, u = t :: v ∧ startsExpression t.type = true := by
  have extend : ∀ {u v : List Token}, (∃ t w, u = t :: w ∧ startsExpression t.type = true) →
      ∃ t w, u ++ v = t :: w ∧ startsExpression t.type = true := by
    rintro _ v ⟨t, w, rfl, ht⟩
    exact ⟨t, w ++ v, rfl, ht⟩
  induction h with
  | operand _ _ ih => exact ih rfl
  | assign _ _ _ ih => exact extend (ih rfl)
  | tightest _ ih => exact ih rfl
  | level _ _ ih => exact extend (ih rfl)
  | sign ho => exact ⟨_, _, rfl, by rw [startsExpression, ho, Bool.true_or]⟩
  | call _ _ ih => exact extend (ih rfl)
  | literal hl =>
    exact ⟨_, _, rfl, by rw [startsExpression, startsPrimary_of_literal hl, Bool.or_true]⟩
  | name ht => exact ⟨_, _, rfl, by rw [ht]; rfl⟩
  | grouping ho => exact ⟨_, _, rfl, by rw [ho]; rfl⟩
  | argument _ _ _ _ ih => exact extend (ih rfl)
  | lastArgument _ _ _ _ ih => exact extend (ih rfl)
  | noOperator | operator | noCall | callWithout | callWith => cases hf

lemma ReadsArgs.first {n es u i j a} (h : ReadsArgs n es u i j a) :
    ∃ t v, u = t :: v ∧ startsExpression t.type = true := by
  cases h with
  | last _ he _ => exact he.first rfl
  | more _ he _ _ =>
    obtain ⟨t, v, rfl, ht⟩ := he.first rfl
    exact ⟨t, _, rfl, ht⟩

lemma readsExpr_arguments {callee args e w i j a} :
    ReadsExpr (.arguments callee args) e w i j a ↔ ∃ es u c v k, w = u ++ c :: v ∧
      ReadsArgs args.length es u i k (some c.type) ∧ c.type = .punct .rightParen ∧
      ReadsExpr (.calls (.call callee c (args ++ es))) e v k j a := by
  constructor
  · intro h
    generalize hf : ExprRule.arguments callee args = f at h
    induction h generalizing args with
    | lastArgument hn he hc hr =>
      cases hf
      exact ⟨_, _, _, _, _, rfl, .last hn he (by rw [hc]; simp), hc, hr⟩
    | argument hn he ht _ _ ih =>
      cases hf
      obtain ⟨es, u, c, v, k, rfl, hes, hc, hr⟩ := ih rfl
      rw [List.length_append] at hes
      refine ⟨_ :: es, _, c, v, k, ?_, .more hn he ht hes, hc, by simpa using hr⟩
      simp
    | _ => cases hf
  · rintro ⟨es, u, c, v, k, rfl, hes, hc, hr⟩
    generalize hm : args.length = m at hes
    generalize hb : some c.type = b at hes
    induction hes generalizing args with
    | last hn he _ =>
      subst hm hb
      exact .lastArgument hn he hc hr
    | more hn he ht _ ih =>
      subst hm
      rw [List.append_assoc, List.cons_append]
      exact .argument hn he ht (ih (by simpa using hr) (by simp) hb)

lemma ReadsRule.starts {t s u i j a} (h : ReadsRule t s u i j a) : startsRule t.type = true := by
  cases h with
  | print hk | ret hk | loop hk | ifThen hk | ifElse hk | forLoop hk | block hk => rw [hk]; rfl

lemma startsRule_cases {t : TokenType} (h : startsRule t = true) :
    t = .punct .leftBrace ∨ t = .keyword .kwFor ∨ t = .keyword .kwIf ∨ t = .keyword .kwPrint ∨
      t = .keyword .kwReturn ∨ t = .keyword .kwWhile := by
  cases t with
  | punct p => cases p <;> first | cases h; done | simp
  | keyword k => cases k <;> first | cases h; done | simp
  | _ => cases h

lemma not_startsRule_of_expression {t : TokenType} (h : startsExpression t = true) :
    startsRule t = false := by
  cases t with
  | punct p => cases p <;> first | rfl | cases h
  | keyword k => cases k <;> first | rfl | cases h
  | _ => rfl

lemma ReadsStmt.first {s u i j a} (h : ReadsStmt s u i j a) :
    ∃ t v, u = t :: v ∧ (startsExpression t.type = true ∨ startsRule t.type = true) := by
  cases h with
  | expression he _ =>
    obtain ⟨t, v, rfl, ht⟩ := he.first rfl
    exact ⟨t, _, rfl, .inl ht⟩
  | rule hr => exact ⟨_, _, rfl, .inr hr.starts⟩

lemma ReadsDecl.first {s u i j a} (h : ReadsDecl s u i j a) :
    ∃ t v, u = t :: v ∧ startsDeclaration t.type = true := by
  cases h with
  | function hf => exact ⟨_, _, rfl, by rw [hf]; rfl⟩
  | var hk => exact ⟨_, _, rfl, by rw [hk]; rfl⟩
  | statement hs =>
    obtain ⟨t, v, rfl, ht⟩ := hs.first
    exact ⟨t, v, rfl, by rcases ht with ht | ht <;> simp [startsDeclaration, ht]⟩

end Lox.Grammar
