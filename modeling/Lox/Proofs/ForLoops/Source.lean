import Lox.Proofs.Unparse.Tokens

/-!
Programs as they stand in the source, where `for` has a form of its own. One tree gives the tokens
with `for`, the tokens in which each `for` is written as the loop it stands for, and the tree that
reading gives.
-/

namespace Lox.Source

inductive Initializer where
  | var (name : Token) (value : Option Expr)
  | expression (e : Expr)

def Initializer.stmt : Initializer → Stmt
  | var name value => .var name value
  | expression e => .expression e

mutual

inductive Statement where
  | expression (e : Expr)
  | print (e : Expr)
  | ret (keyword : Token) (value : Option Expr)
  | block (body : List Declaration)
  | ifThen (condition : Expr) (thenBranch : Statement)
  | ifElse (condition : Expr) (thenBranch elseBranch : Statement)
  | loop (condition : Expr) (body : Statement)
  | forLoop (initializer : Option Initializer) (condition increment : Option Expr)
      (body : Statement)

inductive Declaration where
  | var (name : Token) (value : Option Expr)
  | function (name : Token) (params : List Token) (body : List Declaration)
  | statement (s : Statement)

end

abbrev Style :=
  Option Initializer → Option Expr → Option Expr → List Token → List Token

def initializerTokens : Option Initializer → List Token
  | none => [.punct .semicolon]
  | some i => i.stmt.tokens

/-- `for (initializer; condition; increment) body` -/
def asFor : Style := fun initializer condition increment body =>
  .keyword .kwFor :: .punct .leftParen ::
    (initializerTokens initializer ++ (Expr.optionTokens condition ++ .punct .semicolon ::
      (Expr.optionTokens increment ++ .punct .rightParen :: body)))

def braced (u : List Token) : List Token := .punct .leftBrace :: (u ++ [.punct .rightBrace])

/-- `{ initializer while (condition) { body increment; } }`, where the outer braces are there for an
initializer and the inner ones for an increment. -/
def asWhile : Style := fun initializer condition increment body =>
  let body := match increment with
    | some e => braced (body ++ (e.tokens ++ [.punct .semicolon]))
    | none => body
  let loop := headTokens .kwWhile (condition.getD (.literal (.bool true))) ++ body
  match initializer with
  | some i => braced (i.stmt.tokens ++ loop)
  | none => loop

section

variable (style : Style)

mutual

def Statement.tokens : Statement → List Token
  | .expression e => (Stmt.expression e).tokens
  | .print e => (Stmt.print e).tokens
  | .ret keyword e => (Stmt.ret keyword e).tokens
  | .block body => braced (tokens body)
  | .ifThen c s => headTokens .kwIf c ++ s.tokens
  | .ifElse c s t => headTokens .kwIf c ++ (s.tokens ++ .keyword .kwElse :: t.tokens)
  | .loop c s => headTokens .kwWhile c ++ s.tokens
  | .forLoop initializer condition increment body =>
    style initializer condition increment body.tokens

def Declaration.tokens : Declaration → List Token
  | .var name e => (Stmt.var name e).tokens
  | .function name params body =>
    .keyword .kwFun :: name :: .punct .leftParen ::
      (paramTokens params ++ .punct .rightParen :: braced (tokens body))
  | .statement s => s.tokens

def tokens : List Declaration → List Token
  | [] => []
  | d :: rest => d.tokens ++ tokens rest

end

end

mutual

def Statement.tree : Statement → Stmt
  | .expression e => .expression e
  | .print e => .print e
  | .ret keyword e => .ret keyword e
  | .block body => .block (trees body)
  | .ifThen c s => .ifThen c s.tree
  | .ifElse c s t => .ifElse c s.tree t.tree
  | .loop c s => .loop c s.tree
  | .forLoop initializer condition increment body =>
    Grammar.forLoop (initializer.map Initializer.stmt) condition increment body.tree

def Declaration.tree : Declaration → Stmt
  | .var name e => .var name e
  | .function name params body => .function name params (trees body)
  | .statement s => s.tree

def trees : List Declaration → List Stmt
  | [] => []
  | d :: rest => d.tree :: trees rest

end

lemma tokens_forLoop (initializer : Option Initializer) (condition increment : Option Expr)
    (body : Stmt) :
    (Grammar.forLoop (initializer.map Initializer.stmt) condition increment body).tokens =
      asWhile initializer condition increment body.tokens := by
  cases initializer <;> cases increment <;>
    simp [Grammar.forLoop, asWhile, braced, Stmt.tokens, Stmt.unparse]

mutual

lemma Statement.tokens_tree : ∀ s : Statement, s.tree.tokens = s.tokens asWhile
  | .expression _ | .print _ | .ret _ _ => rfl
  | .block body => by
    have hbody := unparse_trees body
    rw [Statement.tree, Stmt.tokens, Statement.tokens, braced, hbody]
  | .ifThen c s | .loop c s => by
    have hs := s.tokens_tree
    rw [Statement.tree, Stmt.tokens, Statement.tokens, hs]
  | .ifElse c s t => by
    have hs := s.tokens_tree
    have ht := t.tokens_tree
    rw [Statement.tree, Stmt.tokens, Statement.tokens, hs, ht]
  | .forLoop initializer condition increment body => by
    have hbody := body.tokens_tree
    rw [Statement.tree, tokens_forLoop, Statement.tokens, hbody]

lemma Declaration.tokens_tree : ∀ d : Declaration, d.tree.tokens = d.tokens asWhile
  | .var _ _ => rfl
  | .function name params body => by
    have hbody := unparse_trees body
    rw [Declaration.tree, Stmt.tokens, Declaration.tokens, braced, hbody]
  | .statement s => s.tokens_tree

theorem unparse_trees : ∀ b : List Declaration, Stmt.unparse (trees b) = tokens asWhile b
  | [] => rfl
  | d :: rest => by
    have hd := d.tokens_tree
    have hrest := unparse_trees rest
    rw [trees, Stmt.unparse, tokens, hd, hrest]

end

section

open Grammar

lemma initializer_written {s : Option Stmt} {u : List Token} {i j : SiteId} {a : Ahead}
    (h : ReadsInitializer s u i j a) : ∃ init : Option Initializer,
      init.map Initializer.stmt = s ∧
        (initializerTokens init).map Token.gist = u.map Token.gist := by
  cases h with
  | none hs => exact ⟨none, rfl, by simp [initializerTokens, gist_punct hs]⟩
  | var hk hv =>
    have hgist := var_gist hv hk
    cases hv with
    | plain | initialized => exact ⟨some (.var _ _), rfl, hgist⟩
  | expression he hs =>
    refine ⟨some (.expression _), rfl, ?_⟩
    simp [initializerTokens, Initializer.stmt, Stmt.tokens, expression_gist he, gist_punct hs]

mutual

lemma stmt_written : ∀ {s u i j a}, ReadsStmt s u i j a → ∃ σ : Statement,
    σ.tree = s ∧ (σ.tokens asFor).map Token.gist = u.map Token.gist
  | _, _, _, _, _, .expression he hs => ⟨.expression _, rfl, by
    simp [Statement.tokens, Stmt.tokens, expression_gist he, gist_punct hs]⟩
  | _, _, _, _, _, .rule h => rule_written h

lemma rule_written : ∀ {t s u i j a}, ReadsRule t s u i j a →
    ∃ σ : Statement, σ.tree = s ∧ (σ.tokens asFor).map Token.gist = (t :: u).map Token.gist
  | _, _, _, _, _, _, .print hk he hs => ⟨.print _, rfl, by
    simp [Statement.tokens, Stmt.tokens, gist_keyword hk, expression_gist he, gist_punct hs]⟩
  | _, _, _, _, _, _, .ret _ he hs => ⟨.ret _ _, rfl, by
    simp [Statement.tokens, Stmt.tokens, optional_gist he, gist_punct hs]⟩
  | _, _, _, _, _, _, .loop hk ho he hc hs => by
    obtain ⟨σ, rfl, hbody⟩ := stmt_written hs
    refine ⟨.loop _ σ, rfl, ?_⟩
    rw [← head_gist hk ho he hc]
    simp [Statement.tokens, hbody]
  | _, _, _, _, _, _, .ifThen hk ho he hc hs _ => by
    obtain ⟨σ, rfl, hthen⟩ := stmt_written hs
    refine ⟨.ifThen _ σ, rfl, ?_⟩
    rw [← head_gist hk ho he hc]
    simp [Statement.tokens, hthen]
  | _, _, _, _, _, _, .ifElse hk ho he hc hs hl ht => by
    obtain ⟨σ, rfl, hthen⟩ := stmt_written hs
    obtain ⟨τ, rfl, helse⟩ := stmt_written ht
    refine ⟨.ifElse _ σ τ, rfl, ?_⟩
    rw [← head_gist hk ho he hc]
    simp [Statement.tokens, hthen, helse, gist_keyword hl]
  | _, _, _, _, _, _, .forLoop hk ho hi hv hs hw hc hb => by
    obtain ⟨init, rfl, hinit⟩ := initializer_written hi
    obtain ⟨σ, rfl, hbody⟩ := stmt_written hb
    refine ⟨.forLoop init _ _ σ, rfl, ?_⟩
    simp [Statement.tokens, asFor, gist_keyword hk, gist_punct ho, hinit, optional_gist hv,
      gist_punct hs, optional_gist hw, gist_punct hc, hbody]
  | _, _, _, _, _, _, .block ho hb hc => by
    obtain ⟨ds, rfl, hbody⟩ := decls_written hb
    refine ⟨.block ds, rfl, ?_⟩
    simp [Statement.tokens, braced, gist_punct ho, gist_punct hc, hbody]

lemma function_written : ∀ {k s u i j a}, ReadsFunction s u i j a → k.type = .keyword .kwFun →
    ∃ δ : Declaration, δ.tree = s ∧ (δ.tokens asFor).map Token.gist = (k :: u).map Token.gist
  | _, _, _, _, _, _, .mk _ ho hp hc hb hd he, hk => by
    obtain ⟨ds, rfl, hbody⟩ := decls_written hd
    refine ⟨.function _ _ ds, rfl, ?_⟩
    simp [Declaration.tokens, braced, gist_keyword hk, gist_punct ho, gist_punct hc, gist_punct hb,
      gist_punct he, paramList_gist hp, hbody]

lemma decl_written : ∀ {s u i j a}, ReadsDecl s u i j a → ∃ δ : Declaration,
    δ.tree = s ∧ (δ.tokens asFor).map Token.gist = u.map Token.gist
  | _, _, _, _, _, .function hk hf => function_written hf hk
  | _, _, _, _, _, .var hk hv => by
    have hgist := var_gist hv hk
    cases hv with
    | plain | initialized => exact ⟨.var _ _, rfl, hgist⟩
  | _, _, _, _, _, .statement hs => by
    obtain ⟨σ, rfl, hgist⟩ := stmt_written hs
    exact ⟨.statement σ, rfl, hgist⟩

theorem decls_written : ∀ {b u i j a}, ReadsDecls b u i j a →
    ∃ ds : List Declaration, trees ds = b ∧ (tokens asFor ds).map Token.gist = u.map Token.gist
  | _, _, _, _, _, .nil => ⟨[], rfl, rfl⟩
  | _, _, _, _, _, .cons hs hb => by
    obtain ⟨δ, rfl, hfirst⟩ := decl_written hs
    obtain ⟨ds, rfl, hrest⟩ := decls_written hb
    refine ⟨δ :: ds, rfl, ?_⟩
    rw [tokens, List.map_append, List.map_append, hfirst, hrest]

end

end

end Lox.Source
