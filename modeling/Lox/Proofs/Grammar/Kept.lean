import Lox.Proofs.Grammar.Tokens

/-! What a tree has from the tokens that were read: the tokens in it are among them, and each
literal is that of one of them, but for the `true` that is the condition of a `for` without one. -/

namespace Lox

section

variable (P : Token → Prop)

mutual

def Expr.Kept : Expr → Prop
  | .literal v => v = .bool true ∨ ∃ t, P t ∧ Grammar.literal? t.type = some v
  | .grouping e => e.Kept
  | .unary op e => P op ∧ e.Kept
  | .binary a op b | .logical a op b => P op ∧ a.Kept ∧ b.Kept
  | .ref _ name => P name
  | .assign _ name e => P name ∧ e.Kept
  | .call callee paren args => P paren ∧ callee.Kept ∧ Expr.ListKept args

def Expr.ListKept : List Expr → Prop
  | [] => True
  | e :: rest => e.Kept ∧ Expr.ListKept rest

end

def Expr.OptionKept : Option Expr → Prop
  | none => True
  | some e => e.Kept P

mutual

def Stmt.Kept : Stmt → Prop
  | .expression e | .print e => e.Kept P
  | .var name e => P name ∧ Expr.OptionKept P e
  | .block body => Stmt.ListKept body
  | .ifThen c s | .loop c s => c.Kept P ∧ s.Kept
  | .ifElse c s t => c.Kept P ∧ s.Kept ∧ t.Kept
  | .function name params body => P name ∧ (∀ x ∈ params, P x) ∧ Stmt.ListKept body
  | .ret keyword e => P keyword ∧ Expr.OptionKept P e

def Stmt.ListKept : List Stmt → Prop
  | [] => True
  | s :: rest => s.Kept ∧ Stmt.ListKept rest

end

end

namespace Grammar

variable {P : Token → Prop}

lemma listKept_concat {es : List Expr} {e : Expr} (hes : Expr.ListKept P es) (he : e.Kept P) :
    Expr.ListKept P (es ++ [e]) := by
  induction es with
  | nil => exact ⟨he, trivial⟩
  | cons e' es ih => exact ⟨hes.1, ih hes.2⟩

def ExprRule.Kept (P : Token → Prop) : ExprRule → Prop
  | .operations _ _ left => left.Kept P
  | .calls callee => callee.Kept P
  | .arguments callee args => callee.Kept P ∧ Expr.ListKept P args
  | _ => True

lemma node_kept {l : Level} {tighter : List Level} (hs : l :: tighter <:+ levels) {a b : Expr}
    {op : Token} (ho : P op) (ha : a.Kept P) (hb : b.Kept P) : (l.node a op b).Kept P := by
  rcases node_of_mem (hs.subset List.mem_cons_self) with hl | hl <;> rw [hl] <;> exact ⟨ho, ha, hb⟩

theorem kept_of_reads {r : ExprRule} {e : Expr} {u : List Token} {i j : SiteId} {a : Ahead}
    (h : ReadsExpr r e u i j a) (hr : r.Leveled) (hu : ∀ t ∈ u, P t) (hk : r.Kept P) :
    e.Kept P := by
  induction h with
  | operand _ _ ih => exact ih List.suffix_rfl hu trivial
  | assign _ _ _ iht ihv =>
    rw [List.forall_mem_append, List.forall_mem_cons] at hu
    exact ⟨iht List.suffix_rfl hu.1 trivial, ihv trivial hu.2.2 trivial⟩
  | tightest _ ih => exact ih trivial hu trivial
  | level _ _ ihf ihe =>
    rw [List.forall_mem_append] at hu
    exact ihe hr hu.2 (ihf ((List.suffix_cons _ _).trans hr) hu.1 trivial)
  | noOperator => exact hk
  | operator _ _ _ ihr ihe =>
    rw [List.forall_mem_cons, List.forall_mem_append] at hu
    obtain ⟨ho, hright, hrest⟩ := hu
    exact ihe hr hrest (node_kept hr ho hk (ihr ((List.suffix_cons _ _).trans hr) hright trivial))
  | sign _ _ ih =>
    rw [List.forall_mem_cons] at hu
    exact ⟨hu.1, ih trivial hu.2 trivial⟩
  | call _ _ ihf ihe =>
    rw [List.forall_mem_append] at hu
    exact ihe trivial hu.2 (ihf trivial hu.1 trivial)
  | literal hl => exact .inr ⟨_, hu _ List.mem_cons_self, hl⟩
  | name => exact hu _ List.mem_cons_self
  | grouping _ _ _ ih =>
    rw [List.forall_mem_cons, List.forall_mem_append] at hu
    exact ih trivial hu.2.1 trivial
  | noCall => exact hk
  | callWithout _ _ _ ih =>
    rw [List.forall_mem_cons, List.forall_mem_cons] at hu
    exact ih trivial hu.2.2 ⟨hu.2.1, hk, trivial⟩
  | callWith _ _ ih =>
    rw [List.forall_mem_cons] at hu
    exact ih trivial hu.2 ⟨hk, trivial⟩
  | argument _ _ _ _ ihe ih =>
    rw [List.forall_mem_append, List.forall_mem_cons] at hu
    exact ih trivial hu.2.2 ⟨hk.1, listKept_concat hk.2 (ihe trivial hu.1 trivial)⟩
  | lastArgument _ _ _ _ ihe ih =>
    rw [List.forall_mem_append, List.forall_mem_cons] at hu
    exact ih trivial hu.2.2 ⟨hu.2.1, hk.1, listKept_concat hk.2 (ihe trivial hu.1 trivial)⟩

lemma expression_kept {e : Expr} {u : List Token} {i j : SiteId} {a : Ahead}
    (h : ReadsExpr .expression e u i j a) (hu : ∀ t ∈ u, P t) : e.Kept P :=
  kept_of_reads h trivial hu trivial

section

variable {e : Option Expr} {s : Stmt} {u xs : List Token} {i j : SiteId} {a : Ahead}

lemma optional_kept {finish : Punct} (h : ReadsOptional finish e u i j a) (hu : ∀ t ∈ u, P t) :
    Expr.OptionKept P e := by
  cases h with
  | none => trivial
  | some he => exact expression_kept he hu

lemma var_kept (h : ReadsVar s u i j a) (hu : ∀ t ∈ u, P t) : s.Kept P := by
  cases h with
  | plain => exact ⟨hu _ List.mem_cons_self, trivial⟩
  | initialized _ _ he =>
    rw [List.forall_mem_cons, List.forall_mem_cons, List.forall_mem_append] at hu
    exact ⟨hu.1, expression_kept he hu.2.2.1⟩

lemma initializer_kept {s : Option Stmt} (h : ReadsInitializer s u i j a) (hu : ∀ t ∈ u, P t) :
    Stmt.ListKept P s.toList := by
  cases h with
  | none => trivial
  | var _ hs => exact ⟨var_kept hs (List.forall_mem_cons.1 hu).2, trivial⟩
  | expression he => exact ⟨expression_kept he (List.forall_mem_append.1 hu).1, trivial⟩

lemma params_kept {n : ℕ} (h : ReadsParams n xs u i j a) (hu : ∀ t ∈ u, P t) : ∀ x ∈ xs, P x := by
  induction h with
  | last => exact hu
  | more _ _ _ _ ih =>
    rw [List.forall_mem_cons, List.forall_mem_cons] at hu
    exact List.forall_mem_cons.2 ⟨hu.1, ih hu.2.2⟩

lemma paramList_kept (h : ReadsParamList xs u i j a) (hu : ∀ t ∈ u, P t) : ∀ x ∈ xs, P x := by
  cases h with
  | none => exact List.forall_mem_nil _
  | some h => exact params_kept h hu

end

lemma forLoop_kept {initializer : Option Stmt} {condition increment : Option Expr} {body : Stmt}
    (hi : Stmt.ListKept P initializer.toList) (hc : Expr.OptionKept P condition)
    (he : Expr.OptionKept P increment) (hb : body.Kept P) :
    (forLoop initializer condition increment body).Kept P := by
  have hcondition : (condition.getD (.literal (.bool true))).Kept P := by
    cases condition with
    | none => exact .inl rfl
    | some c => exact hc
  cases initializer <;> cases increment <;>
    simp_all [forLoop, Stmt.Kept, Stmt.ListKept, Expr.OptionKept]

mutual

lemma stmt_kept : ∀ {s u i j a}, ReadsStmt s u i j a → (∀ t ∈ u, P t) → s.Kept P
  | _, _, _, _, _, .expression he _, hu => expression_kept he (List.forall_mem_append.1 hu).1
  | _, _, _, _, _, .rule h, hu =>
    rule_kept h (List.forall_mem_cons.1 hu).1 (List.forall_mem_cons.1 hu).2

lemma rule_kept : ∀ {t s u i j a}, ReadsRule t s u i j a → P t → (∀ t ∈ u, P t) → s.Kept P
  | _, _, _, _, _, _, .print _ he _, _, hu => expression_kept he (List.forall_mem_append.1 hu).1
  | _, _, _, _, _, _, .ret _ he _, hk, hu =>
    ⟨hk, optional_kept he (List.forall_mem_append.1 hu).1⟩
  | _, _, _, _, _, _, .loop _ _ he _ hs, _, hu => by
    rw [List.forall_mem_cons, List.forall_mem_append, List.forall_mem_cons] at hu
    exact ⟨expression_kept he hu.2.1, stmt_kept hs hu.2.2.2⟩
  | _, _, _, _, _, _, .ifThen _ _ he _ hs _, _, hu => by
    rw [List.forall_mem_cons, List.forall_mem_append, List.forall_mem_cons] at hu
    exact ⟨expression_kept he hu.2.1, stmt_kept hs hu.2.2.2⟩
  | _, _, _, _, _, _, .ifElse _ _ he _ hs _ ht, _, hu => by
    rw [List.forall_mem_cons, List.forall_mem_append, List.forall_mem_cons, List.forall_mem_append,
      List.forall_mem_cons] at hu
    exact ⟨expression_kept he hu.2.1, stmt_kept hs hu.2.2.2.1, stmt_kept ht hu.2.2.2.2.2⟩
  | _, _, _, _, _, _, .forLoop _ _ hi hv _ hw _ hb, _, hu => by
    rw [List.forall_mem_cons, List.forall_mem_append, List.forall_mem_append, List.forall_mem_cons,
      List.forall_mem_append, List.forall_mem_cons] at hu
    obtain ⟨-, hinit, hcond, -, hincr, -, hbody⟩ := hu
    exact forLoop_kept (initializer_kept hi hinit) (optional_kept hv hcond)
      (optional_kept hw hincr) (stmt_kept hb hbody)
  | _, _, _, _, _, _, .block _ hb _, _, hu => decls_kept hb (List.forall_mem_append.1 hu).1

lemma function_kept : ∀ {s u i j a}, ReadsFunction s u i j a → (∀ t ∈ u, P t) → s.Kept P
  | _, _, _, _, _, .mk _ _ hp _ _ hb _, hu => by
    rw [List.forall_mem_cons, List.forall_mem_cons, List.forall_mem_append, List.forall_mem_cons,
      List.forall_mem_cons, List.forall_mem_append] at hu
    obtain ⟨hname, -, hparams, -, -, hbody, -⟩ := hu
    exact ⟨hname, paramList_kept hp hparams, decls_kept hb hbody⟩

lemma decl_kept : ∀ {s u i j a}, ReadsDecl s u i j a → (∀ t ∈ u, P t) → s.Kept P
  | _, _, _, _, _, .function _ hf, hu => function_kept hf (List.forall_mem_cons.1 hu).2
  | _, _, _, _, _, .var _ hv, hu => var_kept hv (List.forall_mem_cons.1 hu).2
  | _, _, _, _, _, .statement hs, hu => stmt_kept hs hu

theorem decls_kept : ∀ {b u i j a}, ReadsDecls b u i j a → (∀ t ∈ u, P t) → Stmt.ListKept P b
  | _, _, _, _, _, .nil, _ => trivial
  | _, _, _, _, _, .cons hs hb, hu =>
    ⟨decl_kept hs (List.forall_mem_append.1 hu).1, decls_kept hb (List.forall_mem_append.1 hu).2⟩

end

end Grammar

end Lox
