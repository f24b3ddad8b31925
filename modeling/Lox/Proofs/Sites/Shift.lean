import Lox.Proofs.Grammar.Reads
import Lox.Proofs.Sites.Map

/-! The rules of the grammar hand out numbers but never look at one: read with higher numbers, the
same tokens give the same tree with higher numbers, and the same errors. -/

namespace Lox

abbrev raised (k : ℕ) (site : SiteId) : SiteId := site + k

lemma raised_injective (k : ℕ) : Function.Injective (raised k) := fun _ _ => Nat.add_right_cancel

namespace Grammar

variable {α β γ δ : Type} {k : ℕ}

def Cursor.shift (k : ℕ) (c : Cursor) : Cursor := { c with nextSite := c.nextSite + k }

def shiftResult (k : ℕ) (act : α → β) :
    EStateM.Result SyntaxError Cursor α → EStateM.Result SyntaxError Cursor β
  | .ok x c => .ok (act x) (c.shift k)
  | .error e c => .error e (c.shift k)

def Shifts (k : ℕ) (act : α → β) (x : Parse α) (y : Parse β) : Prop :=
  ∀ c, y (c.shift k) = shiftResult k act (x c)

namespace Shifts

lemma pure {act : α → β} (a : α) : Shifts k act (Pure.pure a) (Pure.pure (act a)) :=
  fun _ => rfl

lemma fail (act : α → β) (fault : SyntaxFault) :
    Shifts k act (Grammar.fail fault) (Grammar.fail fault) :=
  fun _ => rfl

lemma report (e : SyntaxError) : Shifts k id (report e) (report e) := fun _ => rfl

lemma reportHere (fault : SyntaxFault) : Shifts k id (reportHere fault) (reportHere fault) :=
  fun _ => rfl

lemma facing (type : TokenType) : Shifts k id (facing type) (facing type) := fun _ => rfl

lemma atEnd : Shifts k id atEnd atEnd := fun _ => rfl

lemma freshSite : Shifts k (raised k) freshSite freshSite := by
  intro c
  simp [Grammar.freshSite, shiftResult, Cursor.shift, Nat.add_right_comm]

lemma take? (ok : TokenType → Bool) : Shifts k id (take? ok) (take? ok) := by
  rintro ⟨_ | ⟨t, rest⟩, site, errors⟩
  · rfl
  · simp only [Grammar.take?, Cursor.shift]
    split <;> rfl

lemma bind {act : α → β} {act' : γ → δ} {x : Parse α} {y : Parse β} {f : α → Parse γ}
    {g : β → Parse δ} (hx : Shifts k act x y) (hf : ∀ a, Shifts k act' (f a) (g (act a))) :
    Shifts k act' (x >>= f) (y >>= g) := by
  intro c
  change EStateM.bind y g (c.shift k) = shiftResult k act' (EStateM.bind x f c)
  unfold EStateM.bind
  rw [hx c]
  cases x c with
  | ok a c => exact hf a c
  | error e c => rfl

lemma map {act : α → β} {act' : γ → δ} {x : Parse α} {y : Parse β} {f : α → γ} {g : β → δ}
    (hx : Shifts k act x y) (hf : ∀ a, g (act a) = act' (f a)) :
    Shifts k act' (f <$> x) (g <$> y) := by
  intro c
  change EStateM.map g y (c.shift k) = shiftResult k act' (EStateM.map f x c)
  unfold EStateM.map
  rw [hx c]
  cases x c with
  | ok a c => exact congrArg (EStateM.Result.ok · _) (hf a)
  | error e c => rfl

lemma accept? (type : TokenType) : Shifts k id (accept? type) (accept? type) := take? _

lemma expect (type : TokenType) (what : Expected) :
    Shifts k id (expect type what) (expect type what) := by
  refine bind (accept? type) fun found => ?_
  cases found with
  | none => exact fail id _
  | some t => exact pure t

lemma limited {act : α → β} {x : Parse α} {y : Parse β} (h : Shifts k act x y)
    (fault : SyntaxFault) (p : ℕ) :
    Shifts k act (if p ≥ maxArity then Grammar.reportHere fault >>= fun _ => x else x)
      (if p ≥ maxArity then Grammar.reportHere fault >>= fun _ => y else y) := by
  split
  · exact bind (reportHere fault) fun _ => h
  · exact h

end Shifts

lemma mapSites_node {g : SiteId → SiteId} {l : Level} (h : l ∈ levels) (left right : Expr)
    (op : Token) :
    (l.node left op right).mapSites g = l.node (left.mapSites g) op (right.mapSites g) := by
  rcases node_of_mem h with hl | hl <;> rw [hl] <;> rfl

lemma mapSites_forLoop (g : SiteId → SiteId) (initializer : Option Stmt)
    (condition increment : Option Expr) (body : Stmt) :
    (forLoop initializer condition increment body).mapSites g =
      forLoop (initializer.map (Stmt.mapSites g)) (condition.map (Expr.mapSites g))
        (increment.map (Expr.mapSites g)) (body.mapSites g) := by
  cases initializer <;> cases condition <;> cases increment <;> rfl

lemma listMapSites_toList (g : SiteId → SiteId) (first : Option Stmt) (more : List Stmt) :
    Stmt.listMapSites g (first.toList ++ more) =
      (first.map (Stmt.mapSites g)).toList ++ Stmt.listMapSites g more := by
  cases first <;> rfl

abbrev ShiftsExpr (k : ℕ) : Parse Expr → Parse Expr → Prop := Shifts k (Expr.mapSites (raised k))

abbrev ShiftsStmt (k : ℕ) : Parse Stmt → Parse Stmt → Prop := Shifts k (Stmt.mapSites (raised k))

namespace Shifts

section

variable {operand expression : Parse Expr}

lemma operations {l : Level} (hl : l ∈ levels) (ho : ShiftsExpr k operand operand) (n : ℕ)
    (left : Expr) : ShiftsExpr k (operations l operand n left)
      (operations l operand n (left.mapSites (raised k))) := by
  induction n generalizing left with
  | zero => exact pure left
  | succ n ih =>
    refine bind (take? _) fun found => ?_
    cases found with
    | none => exact pure left
    | some op =>
      refine bind ho fun right => ?_
      rw [← mapSites_node hl]
      exact ih _

lemma joined (ho : ShiftsExpr k operand operand) (n : ℕ) {ls : List Level} (hs : ls ⊆ levels) :
    ShiftsExpr k (joined operand n ls) (joined operand n ls) := by
  induction ls with
  | nil => exact ho
  | cons l tighter ih =>
    rw [List.cons_subset] at hs
    exact bind (ih hs.2) fun first => operations hs.1 (ih hs.2) n first

variable (he : ShiftsExpr k expression expression)

include he

lemma argumentList (n p : ℕ) :
    Shifts k (Expr.listMapSites (raised k)) (argumentList expression n p)
      (argumentList expression n p) := by
  induction n generalizing p with
  | zero => exact pure []
  | succ n ih =>
    refine limited (bind he fun argument => bind (accept? _) fun found => ?_) _ p
    cases found with
    | none => exact pure [argument]
    | some _ => exact bind (ih (p + 1)) fun more => pure (argument :: more)

lemma callEnd (n : ℕ) : Shifts k (Prod.map (Expr.listMapSites (raised k)) id) (callEnd expression n)
    (callEnd expression n) := by
  refine bind (facing _) fun closed => ?_
  cases closed with
  | true =>
    exact bind (pure []) fun arguments => bind (expect _ _) fun paren => pure (arguments, paren)
  | false =>
    exact bind (argumentList he n 0) fun arguments => bind (expect _ _) fun paren =>
      pure (arguments, paren)

lemma calls (n : ℕ) (callee : Expr) : ShiftsExpr k (calls expression n callee)
    (calls expression n (callee.mapSites (raised k))) := by
  induction n generalizing callee with
  | zero => exact pure callee
  | succ n ih =>
    refine bind (accept? _) fun found => ?_
    cases found with
    | none => exact pure callee
    | some _ => exact bind (callEnd he (n + 1)) fun x => ih (.call callee x.2 x.1)

lemma primary : ShiftsExpr k (primary expression) (primary expression) := by
  refine bind (take? _) fun found => ?_
  cases found with
  | none => exact fail _ _
  | some t =>
    simp only [id]
    split
    · next v _ => exact pure (Expr.literal v)
    split
    · exact bind freshSite fun site => pure (Expr.ref site t)
    · exact bind he fun inner => bind (expect _ _) fun _ => pure (Expr.grouping inner)

lemma unary (bound n : ℕ) : ShiftsExpr k (unary expression bound n) (unary expression bound n) := by
  induction n with
  | zero => exact fail _ _
  | succ n ih =>
    refine bind (take? _) fun found => ?_
    cases found with
    | none => exact bind (primary he) fun first => calls he bound first
    | some op => exact bind ih fun right => pure (Expr.unary op right)

end

lemma assignment {operand : Parse Expr} (ho : ShiftsExpr k operand operand) (n : ℕ) :
    ShiftsExpr k (assignment operand n) (assignment operand n) := by
  induction n with
  | zero => exact fail _ _
  | succ n ih =>
    refine bind ho fun target => bind (accept? _) fun found => ?_
    cases found with
    | none => exact pure target
    | some equals =>
      refine bind ih fun value => ?_
      cases target with
      | ref site name => exact bind freshSite fun site => pure (Expr.assign site name value)
      | _ => exact bind (report _) fun _ => pure _

lemma expression (n : ℕ) : ShiftsExpr k (expression n) (expression n) := by
  induction n with
  | zero => exact fail _ _
  | succ n ih => exact assignment (joined (unary ih _ _) _ (List.Subset.refl _)) _

section

variable {expression : Parse Expr} (he : ShiftsExpr k expression expression)

include he

lemma expressionStmt :
    ShiftsStmt k (expressionStmt expression) (expressionStmt expression) :=
  bind he fun e => bind (expect _ _) fun _ => pure (Stmt.expression e)

lemma printStmt : ShiftsStmt k (printStmt expression) (printStmt expression) :=
  bind he fun e => bind (expect _ _) fun _ => pure (Stmt.print e)

lemma optional (finish : Punct) : Shifts k (Option.map (Expr.mapSites (raised k)))
    (optional expression finish) (optional expression finish) := by
  refine bind (facing _) fun closed => ?_
  cases closed with
  | true => exact pure none
  | false => exact map he fun _ => rfl

lemma returnStmt (keyword : Token) :
    ShiftsStmt k (returnStmt expression keyword) (returnStmt expression keyword) :=
  bind (optional he _) fun value => bind (expect _ _) fun _ => pure (Stmt.ret keyword value)

lemma varDeclaration : ShiftsStmt k (varDeclaration expression) (varDeclaration expression) := by
  refine bind (expect _ _) fun name => bind (accept? _) fun found => ?_
  cases found with
  | none =>
    exact bind (pure none) fun initializer => bind (expect _ _) fun _ =>
      pure (Stmt.var name initializer)
  | some _ =>
    have hinit : Shifts k (Option.map (Expr.mapSites (raised k))) (some <$> expression)
        (some <$> expression) := map he fun _ => rfl
    exact bind hinit fun initializer => bind (expect _ _) fun _ => pure (Stmt.var name initializer)

omit he in
lemma parameterList (n p : ℕ) : Shifts k id (parameterList n p) (parameterList n p) := by
  induction n generalizing p with
  | zero => exact pure []
  | succ n ih =>
    refine limited (bind (expect _ _) fun name => bind (accept? _) fun found => ?_) _ p
    cases found with
    | none => exact pure [name]
    | some _ => exact bind (ih (p + 1)) fun more => pure (name :: more)

lemma forInitializer : Shifts k (Option.map (Stmt.mapSites (raised k)))
    (forInitializer expression) (forInitializer expression) := by
  refine bind (accept? _) fun found => ?_
  cases found with
  | some _ => exact pure none
  | none =>
    refine bind (accept? _) fun found => ?_
    cases found with
    | some _ => exact map (varDeclaration he) fun _ => rfl
    | none => exact map (expressionStmt he) fun _ => rfl

variable {statement : Parse Stmt} (hs : ShiftsStmt k statement statement)

include hs

lemma whileStmt : ShiftsStmt k (whileStmt expression statement) (whileStmt expression statement) :=
  bind (expect _ _) fun _ => bind he fun condition => bind (expect _ _) fun _ =>
    bind hs fun body => pure (Stmt.loop condition body)

lemma ifStmt : ShiftsStmt k (ifStmt expression statement) (ifStmt expression statement) := by
  refine bind (expect _ _) fun _ => bind he fun condition => bind (expect _ _) fun _ =>
    bind hs fun thenBranch => bind (accept? _) fun found => ?_
  cases found with
  | none => exact pure (Stmt.ifThen condition thenBranch)
  | some _ => exact bind hs fun elseBranch => pure (Stmt.ifElse condition thenBranch elseBranch)

lemma forStmt : ShiftsStmt k (forStmt expression statement) (forStmt expression statement) := by
  refine bind (expect _ _) fun _ => bind (forInitializer he) fun initializer =>
    bind (optional he _) fun condition => bind (expect _ _) fun _ =>
    bind (optional he _) fun increment => bind (expect _ _) fun _ => bind hs fun body => ?_
  rw [← mapSites_forLoop]
  exact pure _

end

section

variable {declaration : Parse (Option Stmt)}
  (hd : Shifts k (Option.map (Stmt.mapSites (raised k))) declaration declaration)

include hd

lemma block (n : ℕ) : Shifts k (Stmt.listMapSites (raised k)) (block declaration n)
    (block declaration n) := by
  induction n with
  | zero => exact fail _ _
  | succ n ih =>
    refine bind (accept? _) fun found => ?_
    cases found with
    | some _ => exact pure []
    | none =>
      refine bind atEnd fun ended => ?_
      cases ended with
      | true => exact fail _ _
      | false =>
        refine bind hd fun first => bind ih fun more => ?_
        have happ := listMapSites_toList (raised k) first more
        rw [← happ]
        exact pure _

lemma function (n : ℕ) : ShiftsStmt k (function declaration n) (function declaration n) := by
  refine bind (expect _ _) fun name => bind (expect _ _) fun _ => bind (facing _) fun closed => ?_
  have hrest : ∀ params, ShiftsStmt k
      (Grammar.expect (.punct .rightParen) .parametersEnd >>= fun _ =>
        Grammar.expect (.punct .leftBrace) .functionBody >>= fun _ =>
        Grammar.block declaration n >>= fun body => Pure.pure (.function name params body))
      (Grammar.expect (.punct .rightParen) .parametersEnd >>= fun _ =>
        Grammar.expect (.punct .leftBrace) .functionBody >>= fun _ =>
        Grammar.block declaration n >>= fun body => Pure.pure (.function name params body)) :=
    fun params => bind (expect _ _) fun _ => bind (expect _ _) fun _ =>
      bind (block hd n) fun body => pure (Stmt.function name params body)
  cases closed with
  | true =>
    have hnone : Shifts k id (Pure.pure ([] : List Token)) (Pure.pure []) := pure []
    exact bind hnone hrest
  | false => exact bind (parameterList n 0) hrest

lemma program (n : ℕ) : Shifts k (Stmt.listMapSites (raised k)) (program declaration n)
    (program declaration n) := by
  induction n with
  | zero => exact pure []
  | succ n ih =>
    refine bind atEnd fun ended => ?_
    cases ended with
    | true => exact pure []
    | false =>
      refine bind hd fun first => bind ih fun more => ?_
      rw [← listMapSites_toList]
      exact pure _

variable {expression : Parse Expr} (he : ShiftsExpr k expression expression)
  {statement : Parse Stmt} (hs : ShiftsStmt k statement statement)

include he hs

lemma statementRule (n : ℕ) : ShiftsStmt k (statementRule expression statement declaration n)
    (statementRule expression statement declaration n) := by
  refine bind (take? _) fun found => ?_
  cases found with
  | none => exact expressionStmt he
  | some t =>
    simp only [id]
    split
    · exact forStmt he hs
    · exact ifStmt he hs
    · exact printStmt he
    · exact returnStmt he t
    · exact whileStmt he hs
    · exact map (block hd n) fun _ => rfl

lemma declarationRule (n : ℕ) : ShiftsStmt k (declarationRule expression statement declaration n)
    (declarationRule expression statement declaration n) := by
  refine bind (accept? _) fun found => ?_
  cases found with
  | some _ => exact function hd n
  | none =>
    refine bind (accept? _) fun found => ?_
    cases found with
    | some _ => exact varDeclaration he
    | none => exact hs

end

lemma recovering {rule : Parse Stmt} (h : ShiftsStmt k rule rule) :
    Shifts k (Option.map (Stmt.mapSites (raised k))) (recovering rule) (recovering rule) := by
  intro c
  simp only [Grammar.recovering, h c]
  cases rule c <;> rfl

theorem statement_declaration (n : ℕ) : ShiftsStmt k (statement n) (statement n) ∧
    Shifts k (Option.map (Stmt.mapSites (raised k))) (declaration n) (declaration n) := by
  induction n with
  | zero => exact ⟨fail _ _, recovering (fail _ _)⟩
  | succ n ih =>
    obtain ⟨hs, hd⟩ := ih
    have hrule := statementRule hd (expression (n + 1)) hs (n + 1)
    exact ⟨hrule, recovering (declarationRule hd (expression (n + 1)) hrule (n + 1))⟩

end Shifts

theorem ofTokens_shift (k : ℕ) (first : SiteId) (tokens : List Token) :
    Reading.ofTokens (first + k) tokens =
      ⟨Stmt.listMapSites (raised k) (Reading.ofTokens first tokens).statements,
        (Reading.ofTokens first tokens).errors,
        (Reading.ofTokens first tokens).nextSite + k⟩ := by
  -- The bounds are those of the tokens, so both readings have the same.
  have hd := (Shifts.statement_declaration (k := k) ((beforeEnd tokens).length + 1)).2
  have h := Shifts.program hd ((beforeEnd tokens).length + 1) ⟨beforeEnd tokens, first, []⟩
  simp only [Cursor.shift] at h
  simp only [Reading.ofTokens, h]
  cases Grammar.program (declaration ((beforeEnd tokens).length + 1))
    ((beforeEnd tokens).length + 1) ⟨beforeEnd tokens, first, []⟩ <;> rfl

end Grammar

end Lox
