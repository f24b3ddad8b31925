import Lox.Proofs.Binding.Initializer
import Lox.Proofs.Grammar.Sites

/-! The errors of the walk come in the order of the tokens: also in a `for` loop, whose increment is
visited after its body, since only a variable's initializer has errors of its own. -/

namespace Lox

mutual

def Expr.reads : Expr → List Token
  | .literal _ => []
  | .grouping e | .unary _ e | .assign _ _ e => e.reads
  | .binary a _ b | .logical a _ b => a.reads ++ b.reads
  | .ref _ name => [name]
  | .call f _ args => f.reads ++ Expr.listReads args

def Expr.listReads : List Expr → List Token
  | [] => []
  | e :: rest => e.reads ++ Expr.listReads rest

end

lemma Expr.listReads_append (a b : List Expr) :
    Expr.listReads (a ++ b) = Expr.listReads a ++ Expr.listReads b := by
  induction a with
  | nil => rfl
  | cons e a ih => rw [List.cons_append, listReads, ih, listReads, List.append_assoc]

namespace Binding

def faults (vs : List Visit) : List Token := (vs.filterMap Visit.error?).map (·.found)

lemma faults_append (vs us : List Visit) : faults (vs ++ us) = faults vs ++ faults us := by
  rw [faults, List.filterMap_append, List.map_append]
  rfl

lemma faults_cons {v : Visit} {vs : List Visit} (h : v.error? = none) :
    faults (v :: vs) = faults vs := by
  rw [faults, List.filterMap_cons_none h]
  rfl

section

variable (fn : Bool) (scopes : List Scope)

mutual

lemma faults_exprVisits : ∀ e : Expr,
    faults (exprVisits fn scopes e) = e.reads.filter (pendingIn scopes ·.lexeme)
  | .literal _ => rfl
  | .grouping e | .unary _ e => faults_exprVisits e
  | .assign _ _ e => by
    rw [exprVisits, faults_append, faults_exprVisits e]
    exact List.append_nil _
  | .binary a _ b | .logical a _ b => by
    rw [exprVisits, faults_cons rfl, faults_append, faults_exprVisits a, faults_exprVisits b,
      Expr.reads, List.filter_append]
  | .ref _ name => by
    cases h : pendingIn scopes name.lexeme <;>
      simp [faults, exprVisits, Visit.error?, Expr.reads, h]
  | .call f _ args => by
    rw [exprVisits, faults_cons rfl, faults_append, faults_exprVisits f, faults_listVisits args,
      Expr.reads, List.filter_append]

lemma faults_listVisits : ∀ es : List Expr,
    faults (listVisits fn scopes es) = (Expr.listReads es).filter (pendingIn scopes ·.lexeme)
  | [] => rfl
  | e :: rest => by
    rw [listVisits, faults_append, faults_exprVisits e, faults_listVisits rest, Expr.listReads,
      List.filter_append]

end

variable {fn scopes}

lemma faults_complete (hc : Complete scopes) (e : Expr) : faults (exprVisits fn scopes e) = [] := by
  rw [faults_exprVisits]
  exact List.filter_eq_nil_iff.2 fun _ _ => not_pendingIn hc

lemma faults_optionVisits (hc : Complete scopes) (e : Option Expr) :
    faults (optionVisits fn scopes e) = [] := by
  cases e with
  | none => rfl
  | some e => exact faults_complete hc e

end

end Binding

namespace Grammar

open Binding

def Adds (u all first : List Token) : Prop := ∃ us, all = first ++ us ∧ us.Sublist u

def Ordered : ExprRule → Expr → List Token → Prop
  | .joined ls, e, u => ls <:+ levels → e.reads.Sublist u
  | .operations l tighter left, e, u => l :: tighter <:+ levels → Adds u e.reads left.reads
  | .calls callee, e, u => Adds u e.reads callee.reads
  | .arguments callee args, e, u => Adds u e.reads (callee.reads ++ Expr.listReads args)
  | .expression, e, u | .unary, e, u | .primary, e, u => e.reads.Sublist u

lemma reads_node {l : Level} {tighter : List Level} (h : l :: tighter <:+ levels)
    (left right : Expr) (op : Token) :
    (l.node left op right).reads = left.reads ++ right.reads := by
  rcases node_of_mem (h.subset List.mem_cons_self) with hl | hl <;> rw [hl] <;> rfl

theorem ordered_of_reads {r : ExprRule} {e : Expr} {u : List Token} {i j : SiteId} {a : Ahead}
    (h : ReadsExpr r e u i j a) : Ordered r e u := by
  induction h with
  | operand _ _ ih => exact ih List.suffix_rfl
  | assign _ _ _ _ ih => exact (List.Sublist.cons _ ih).trans (List.sublist_append_right _ _)
  | tightest _ ih => exact fun _ => ih
  | level _ _ ihf ihe =>
    intro hs
    obtain ⟨us, he, hu⟩ := ihe hs
    rw [he]
    exact (ihf ((List.suffix_cons _ _).trans hs)).append hu
  | noOperator => exact fun _ => ⟨[], (List.append_nil _).symm, .slnil⟩
  | operator _ _ _ ihr ihe =>
    intro hs
    obtain ⟨us, he, hu⟩ := ihe hs
    refine ⟨_, ?_, ((ihr ((List.suffix_cons _ _).trans hs)).append hu).cons _⟩
    rw [he, reads_node hs, List.append_assoc]
  | sign _ _ ih => exact ih.cons _
  | call _ _ ihf ihe =>
    obtain ⟨us, he, hu⟩ := ihe
    rw [Ordered, he]
    exact List.Sublist.append ihf hu
  | literal => exact List.nil_sublist _
  | name => exact .refl _
  | grouping _ _ _ ih => exact (ih.trans (List.sublist_append_left _ _)).cons _
  | noCall => exact ⟨[], (List.append_nil _).symm, .slnil⟩
  | callWithout _ _ _ ih =>
    obtain ⟨us, he, hu⟩ := ih
    exact ⟨us, by simpa [Expr.reads, Expr.listReads] using he, (hu.cons _).cons _⟩
  | callWith _ _ ih =>
    obtain ⟨us, he, hu⟩ := ih
    exact ⟨us, by simpa [Expr.listReads] using he, hu.cons _⟩
  | argument _ _ _ _ ihe ih =>
    obtain ⟨us, he, hu⟩ := ih
    refine ⟨_, ?_, List.Sublist.append ihe (hu.cons _)⟩
    rw [he, Expr.listReads_append]
    simp [Expr.listReads]
  | lastArgument _ _ _ _ ihe ih =>
    obtain ⟨us, he, hu⟩ := ih
    refine ⟨_, ?_, List.Sublist.append ihe (hu.cons _)⟩
    rw [he, Expr.reads, Expr.listReads_append]
    simp [Expr.listReads]

lemma faults_forLoop {fn : Bool} {scopes : List Scope} (hc : Complete scopes)
    (initializer : Option Stmt) (condition increment : Option Expr) (body : Stmt) :
    ∃ outer inner, Complete outer ∧ Complete inner ∧
      faults (stmtVisits fn scopes (forLoop initializer condition increment body)) =
        faults (stmtsVisits fn outer initializer.toList) ++ faults (stmtVisits fn inner body) := by
  have hloop : ∀ {scopes}, Complete scopes → ∃ inner, Complete inner ∧
      faults (stmtVisits fn scopes (forLoop none condition increment body)) =
        faults (stmtVisits fn inner body) := by
    intro scopes hc
    cases increment with
    | none =>
      refine ⟨scopes, hc, ?_⟩
      rw [forLoop, stmtVisits, faults_cons rfl, faults_append, faults_complete hc, List.nil_append]
    | some e =>
      refine ⟨[] :: scopes, hc.open, ?_⟩
      have he : faults (exprVisits fn _ e) = [] := faults_complete (hc.open.after body) e
      rw [forLoop, stmtVisits, faults_cons rfl, faults_append, faults_complete hc, List.nil_append,
        stmtVisits, faults_cons rfl, stmtsVisits, faults_append, stmtsVisits, stmtVisits,
        stmtsVisits, List.append_nil, faults_cons rfl, he, List.append_nil]
  cases initializer with
  | none =>
    obtain ⟨inner, hi, he⟩ := hloop hc
    exact ⟨scopes, inner, hc, hi, he⟩
  | some s =>
    obtain ⟨inner, hi, he⟩ := hloop (hc.open.after s)
    refine ⟨[] :: scopes, inner, hc.open, hi, ?_⟩
    rw [← he]
    simp only [forLoop, Option.toList_some, stmtVisits, stmtsVisits, List.append_nil]
    rw [faults_cons rfl, faults_append]

lemma var_ordered {fn : Bool} {scopes : List Scope} {s : Stmt} {u : List Token} {i j : SiteId}
    {a : Ahead} (h : ReadsVar s u i j a) : (faults (stmtVisits fn scopes s)).Sublist u := by
  cases h with
  | plain => exact List.nil_sublist _
  | initialized _ _ he _ =>
    rw [stmtVisits, faults_cons rfl, optionVisits, faults_exprVisits]
    have hr : List.Sublist _ _ := ordered_of_reads he
    exact ((List.filter_sublist.trans hr).trans (List.sublist_append_left _ _)).cons _ |>.cons _

lemma initializer_ordered {fn : Bool} {scopes : List Scope} {s : Option Stmt} {u : List Token}
    {i j : SiteId} {a : Ahead} (hc : Complete scopes) (h : ReadsInitializer s u i j a) :
    (faults (stmtsVisits fn scopes s.toList)).Sublist u := by
  cases h with
  | none => exact List.nil_sublist _
  | var _ hs =>
    rw [Option.toList_some, stmtsVisits, stmtsVisits, List.append_nil]
    exact (var_ordered hs).cons _
  | expression =>
    rw [Option.toList_some, stmtsVisits, stmtsVisits, List.append_nil, stmtVisits, faults_cons rfl,
      faults_complete hc]
    exact List.nil_sublist _

lemma sublist_after {α : Type} {l u v : List α} {x : α} (h : l.Sublist v) :
    l.Sublist (u ++ x :: v) :=
  (h.cons x).trans (List.sublist_append_right u _)

mutual

lemma stmt_ordered : ∀ {s u i j a}, ReadsStmt s u i j a → ∀ {fn scopes}, Complete scopes →
    (faults (stmtVisits fn scopes s)).Sublist u
  | _, _, _, _, _, .expression _ _, _, _, hc => by
    rw [stmtVisits, faults_cons rfl, faults_complete hc]
    exact List.nil_sublist _
  | _, _, _, _, _, .rule h, _, _, hc => rule_ordered h hc

lemma rule_ordered : ∀ {t s u i j a}, ReadsRule t s u i j a → ∀ {fn scopes}, Complete scopes →
    (faults (stmtVisits fn scopes s)).Sublist (t :: u)
  | _, _, _, _, _, _, .print _ _ _, _, _, hc => by
    rw [stmtVisits, faults_cons rfl, faults_complete hc]
    exact List.nil_sublist _
  | _, _, _, _, _, _, .ret _ _ _, fn, scopes, hc => by
    have hown : ∀ {k e}, stmtVisits fn scopes (.ret k e) =
        [⟨.stmt (.ret k e), fn, scopes⟩] ++ optionVisits fn scopes e := rfl
    rw [hown, faults_append, faults_optionVisits hc, List.append_nil]
    cases fn
    · exact (List.nil_sublist _).cons_cons _
    · exact List.nil_sublist _
  | _, _, _, _, _, _, .loop _ _ _ _ hs, _, _, hc
  | _, _, _, _, _, _, .ifThen _ _ _ _ hs _, _, _, hc => by
    rw [stmtVisits, faults_cons rfl, faults_append, faults_complete hc]
    exact ((sublist_after (stmt_ordered hs hc)).cons _).cons _
  | _, _, _, _, _, _, .ifElse _ _ _ _ hs _ ht, _, _, hc => by
    rw [stmtVisits, faults_cons rfl, faults_append, faults_append, faults_complete hc]
    exact ((sublist_after
      ((stmt_ordered hs hc).append ((stmt_ordered ht (hc.after _)).cons _))).cons
      _).cons _
  | _, _, _, _, _, _, .forLoop _ _ hi _ _ _ _ hb, fn, scopes, hc => by
    obtain ⟨outer, inner, ho, hin, he⟩ := faults_forLoop hc _ _ _ _
    rw [he]
    refine (((initializer_ordered ho hi).append ?_).cons _).cons _
    exact sublist_after (sublist_after (stmt_ordered hb hin))
  | _, _, _, _, _, _, .block _ hb _, _, _, hc => by
    rw [stmtVisits, faults_cons rfl]
    exact ((decls_ordered hb hc.open).trans (List.sublist_append_left _ _)).cons _

lemma function_ordered : ∀ {s u i j a}, ReadsFunction s u i j a → ∀ {fn scopes},
    Complete scopes → (faults (stmtVisits fn scopes s)).Sublist u
  | _, _, _, _, _, .mk _ _ _ _ _ hb _, _, _, hc => by
    rw [stmtVisits, faults_cons rfl]
    refine ((sublist_after (List.Sublist.cons _ ?_)).cons _).cons _
    exact (decls_ordered hb ((hc.declared _).params _)).trans (List.sublist_append_left _ _)

lemma decl_ordered : ∀ {s u i j a}, ReadsDecl s u i j a → ∀ {fn scopes}, Complete scopes →
    (faults (stmtVisits fn scopes s)).Sublist u
  | _, _, _, _, _, .function _ hf, _, _, hc => (function_ordered hf hc).cons _
  | _, _, _, _, _, .var _ hv, _, _, _ => (var_ordered hv).cons _
  | _, _, _, _, _, .statement hs, _, _, hc => stmt_ordered hs hc

lemma decls_ordered : ∀ {b u i j a}, ReadsDecls b u i j a → ∀ {fn scopes}, Complete scopes →
    (faults (stmtsVisits fn scopes b)).Sublist u
  | _, _, _, _, _, .nil, _, _, _ => List.nil_sublist _
  | s :: _, _, _, _, _, .cons hs hb, _, _, hc => by
    rw [stmtsVisits, faults_append]
    exact (decl_ordered hs hc).append (decls_ordered hb (hc.after s))

end

end Grammar

end Lox
