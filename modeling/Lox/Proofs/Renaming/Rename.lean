import Lox.Proofs.Likeness.Self

/-! Renaming a variable of one scope: in the scope's declarations, and at the sites whose distance
leads to the scope. -/

namespace Lox

structure Renaming where
  table : SiteId → Option ℕ
  x : String
  y : String

namespace Renaming

variable (ρ : Renaming)

def token (renamed : Bool) (t : Token) : Token :=
  if renamed && t.lexeme == ρ.x then { t with lexeme := ρ.y } else t

/-- A site `k` scopes inside the scope is renamed if its distance is `k`. -/
def site (k : ℕ) (site : SiteId) (name : Token) : Token :=
  ρ.token (ρ.table site == some k) name

mutual

def expr (k : ℕ) : Expr → Expr
  | .literal v => .literal v
  | .grouping e => .grouping (expr k e)
  | .unary op e => .unary op (expr k e)
  | .binary a op b => .binary (expr k a) op (expr k b)
  | .logical a op b => .logical (expr k a) op (expr k b)
  | .ref a name => .ref a (ρ.site k a name)
  | .assign a name e => .assign a (ρ.site k a name) (expr k e)
  | .call f paren args => .call (expr k f) paren (exprs k args)

def exprs (k : ℕ) : List Expr → List Expr
  | [] => []
  | e :: rest => expr k e :: exprs k rest

end

mutual

def stmt (k : ℕ) : Stmt → Stmt
  | .expression e => .expression (ρ.expr k e)
  | .print e => .print (ρ.expr k e)
  | .var name e => .var (ρ.token (k == 0) name) (e.map (ρ.expr k))
  | .block body => .block (stmts (k + 1) body)
  | .ifThen c s => .ifThen (ρ.expr k c) (stmt k s)
  | .ifElse c s t => .ifElse (ρ.expr k c) (stmt k s) (stmt k t)
  | .loop c s => .loop (ρ.expr k c) (stmt k s)
  | .function name params body => .function name params (stmts (k + 1) body)
  | .ret keyword e => .ret keyword (e.map (ρ.expr k))

def stmts (k : ℕ) : List Stmt → List Stmt
  | [] => []
  | s :: rest => stmt k s :: stmts k rest

end

end Renaming

mutual

def Stmt.functions : Stmt → List Token
  | .function name _ _ => [name]
  | .ifThen _ s | .loop _ s => s.functions
  | .ifElse _ s t => s.functions ++ t.functions
  | .expression _ | .print _ | .var _ _ | .block _ | .ret _ _ => []

def Stmt.listFunctions : List Stmt → List Token
  | [] => []
  | s :: rest => s.functions ++ Stmt.listFunctions rest

end

mutual

/-- The second statement is the first with the variable of one of its scopes renamed: of a block, or
of a function with its parameters. The scope does not declare the name with `fun`. -/
inductive Renaming.InStmt (ρ : Renaming) : Stmt → Stmt → Prop
  | block {body} : (∀ f ∈ Stmt.listFunctions body, f.lexeme ≠ ρ.x) →
      Renaming.InStmt ρ (.block body) (.block (ρ.stmts 0 body))
  | function {name params body} : (∀ f ∈ Stmt.listFunctions body, f.lexeme ≠ ρ.x) →
      Renaming.InStmt ρ (.function name params body)
        (.function name (params.map (ρ.token true)) (ρ.stmts 0 body))
  | inBlock {body body'} : Renaming.InBody ρ body body' →
      Renaming.InStmt ρ (.block body) (.block body')
  | inFunction {name params body body'} : Renaming.InBody ρ body body' →
      Renaming.InStmt ρ (.function name params body) (.function name params body')
  | inIfThen {c s s'} : Renaming.InStmt ρ s s' → Renaming.InStmt ρ (.ifThen c s) (.ifThen c s')
  | inThen {c s s' t} : Renaming.InStmt ρ s s' → Renaming.InStmt ρ (.ifElse c s t) (.ifElse c s' t)
  | inElse {c s t t'} : Renaming.InStmt ρ t t' → Renaming.InStmt ρ (.ifElse c s t) (.ifElse c s t')
  | inLoop {c s s'} : Renaming.InStmt ρ s s' → Renaming.InStmt ρ (.loop c s) (.loop c s')

inductive Renaming.InBody (ρ : Renaming) : List Stmt → List Stmt → Prop
  | head {s s' rest} : Renaming.InStmt ρ s s' → Renaming.InBody ρ (s :: rest) (s' :: rest)
  | tail {s rest rest'} : Renaming.InBody ρ rest rest' → Renaming.InBody ρ (s :: rest) (s :: rest')

end

namespace Renaming

variable (ρ : Renaming)

def likeness : Likeness Bool where
  global := false
  known a := a ≠ ρ.y
  rename renamed a := if renamed && a == ρ.x then ρ.y else a
  rename_inj := by
    intro r q a b ha hb h
    split at h
    · next hr =>
      split at h
      · next hq =>
        rw [Bool.and_eq_true, beq_iff_eq] at hr hq
        exact hr.2.trans hq.2.symm
      · exact absurd h.symm hb
    · split at h
      · exact absurd h ha
      · exact h
  line := Eq
  line_zero := rfl
  site a b d := b = a ∧ ρ.table a = d

lemma keeps : Likeness.Keeps ρ.likeness := ⟨fun _ => by simp [likeness], fun _ => rfl⟩

def inside (k : ℕ) : Likeness.Context Bool := fun d => d == k

lemma inner_outside : Likeness.inner true ρ.likeness.outside = inside 0 := by
  funext d
  cases d <;> rfl

lemma inner_unrenamed :
    Likeness.inner false ρ.likeness.outside = ρ.likeness.outside := by
  have h : ρ.likeness.global = false := rfl
  rw [← h, Likeness.inner_outside]

lemma inner_inside (k : ℕ) : Likeness.inner false (inside k) = inside (k + 1) := by
  funext d
  cases d with
  | zero => rfl
  | succ d => simp [Likeness.inner, inside]

variable {ρ}

lemma token_like {t : Token} (ht : t.lexeme ≠ ρ.y) (renamed : Bool) :
    ρ.likeness.NameLike renamed t (ρ.token renamed t) := by
  refine ⟨ht, ?_, ?_⟩ <;> unfold token <;> split <;> simp_all [likeness]

lemma covers {u : SiteId × Token} (h : u.2.lexeme ≠ ρ.y) : Likeness.Covers ρ.likeness u :=
  ⟨h, ρ.table u.1, rfl, rfl⟩

lemma site_like {k : ℕ} {a : SiteId} {name : Token} (h : name.lexeme ≠ ρ.y) :
    ρ.likeness.SiteLike (inside k) a name a (ρ.site k a name) := by
  refine ⟨ρ.table a, ⟨rfl, rfl⟩, ?_⟩
  have hr : ρ.likeness.roleAt (inside k) (ρ.table a) = (ρ.table a == some k) := by
    cases ρ.table a <;> simp [Likeness.roleAt, inside, likeness]
  rw [hr]
  exact token_like h _

mutual

lemma expr_like {k : ℕ} : ∀ {e : Expr}, (∀ u ∈ e.uses, Likeness.Covers ρ.likeness u) →
    ρ.likeness.ExprLike (inside k) e (ρ.expr k e)
  | .literal v, _ => .literal v
  | .grouping _, h => .grouping (expr_like h)
  | .unary op _, h => .unary (Likeness.operatorLike_self ρ.keeps op) (expr_like h)
  | .binary _ op _, h => by
    obtain ⟨ha, hb⟩ := List.forall_mem_append.1 h
    exact .binary (expr_like ha) (Likeness.operatorLike_self ρ.keeps op) (expr_like hb)
  | .logical _ op _, h => by
    obtain ⟨ha, hb⟩ := List.forall_mem_append.1 h
    exact .logical (expr_like ha) (Likeness.operatorLike_self ρ.keeps op) (expr_like hb)
  | .ref a name, h => .ref (site_like (h (a, name) (List.mem_singleton_self _)).1)
  | .assign a name _, h => by
    obtain ⟨he, hsite⟩ := List.forall_mem_append.1 h
    exact .assign (site_like (hsite (a, name) (List.mem_singleton_self _)).1) (expr_like he)
  | .call _ _ _, h => by
    obtain ⟨hcallee, hargs⟩ := List.forall_mem_append.1 h
    exact .call (expr_like hcallee) rfl (exprs_like hargs)

lemma exprs_like {k : ℕ} : ∀ {es : List Expr},
    (∀ u ∈ Expr.listUses es, Likeness.Covers ρ.likeness u) →
    List.Forall₂ (ρ.likeness.ExprLike (inside k)) es (ρ.exprs k es)
  | [], _ => .nil
  | _ :: _, h => by
    obtain ⟨he, hes⟩ := List.forall_mem_append.1 h
    exact .cons (expr_like he) (exprs_like hes)

end

lemma option_like {k : ℕ} {e : Option Expr}
    (h : ∀ u ∈ Expr.optionUses e, Likeness.Covers ρ.likeness u) :
    Option.Rel (ρ.likeness.ExprLike (inside k)) e (e.map (ρ.expr k)) := by
  cases e with
  | none => exact .none
  | some e => exact .some (expr_like h)

lemma function_like {k : ℕ} {f : Token} (hf : f.lexeme ≠ ρ.y) (hx : k = 0 → f.lexeme ≠ ρ.x) :
    ρ.likeness.NameLike (inside k 0) f f := by
  refine ⟨hf, ?_, rfl⟩
  cases k <;> simp_all [likeness, inside]

mutual

lemma stmt_like : ∀ {fn : Bool} {k : ℕ} {s : Stmt}, Likeness.StmtSuits ρ.likeness fn s →
    (k = 0 → ∀ f ∈ s.functions, f.lexeme ≠ ρ.x) →
    ρ.likeness.StmtLike fn (inside k) s (ρ.stmt k s)
  | _, _, .expression _, h, _ => .expression (expr_like h.uses)
  | _, _, .print _, h, _ => .print (expr_like h.uses)
  | _, k, .var name _, h, _ => by
    refine .var ?_ (option_like h.uses)
    have hk : inside k 0 = (k == 0) := by cases k <;> rfl
    rw [hk]
    exact token_like (h.binders name (List.mem_singleton_self _)) _
  | _, _, .block _, h, _ => by
    refine .block false ?_
    rw [inner_inside]
    exact stmts_like h.block nofun
  | _, _, .ifThen _ _, h, hx => .ifThen (expr_like h.ifThen.1) (stmt_like h.ifThen.2 hx)
  | _, _, .loop _ _, h, hx => .loop (expr_like h.loop.1) (stmt_like h.loop.2 hx)
  | _, _, .ifElse _ _ _, h, hx => by
    obtain ⟨hc, hs, ht⟩ := h.ifElse
    exact .ifElse (expr_like hc)
      (stmt_like hs fun hk f hf => hx hk f (List.mem_append_left _ hf))
      (stmt_like ht fun hk f hf => hx hk f (List.mem_append_right _ hf))
  | _, _, .function name _ _, h, hx => by
    obtain ⟨hname, hparams, hbody⟩ := h.function
    refine .function false (function_like hname fun hk => hx hk name (List.mem_singleton_self _))
      rfl (Likeness.namesLike_self ρ.keeps hparams) ?_
    rw [inner_inside]
    exact stmts_like hbody nofun
  | true, _, .ret _ _, h, _ => .ret (option_like h.uses)
  | false, _, .ret _ _, h, _ => absurd h Likeness.not_suits_ret

lemma stmts_like : ∀ {fn : Bool} {k : ℕ} {b : List Stmt}, Likeness.StmtsSuit ρ.likeness fn b →
    (k = 0 → ∀ f ∈ Stmt.listFunctions b, f.lexeme ≠ ρ.x) →
    Likeness.StmtsLike ρ.likeness fn (inside k) b (ρ.stmts k b)
  | _, _, [], _, _ => .nil
  | _, _, _ :: _, h, hx =>
    .cons (stmt_like h.cons.1 fun hk f hf => hx hk f (List.mem_append_left _ hf))
      (stmts_like h.cons.2 fun hk f hf => hx hk f (List.mem_append_right _ hf))

end

end Renaming

end Lox
