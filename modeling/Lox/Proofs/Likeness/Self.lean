import Lox.Proofs.Binding.Uses
import Lox.Proofs.Grammar.Tokens
import Lox.Proofs.Likeness.Syntax

/-! Programs that are like themselves, whatever tokens they have: those whose names the likeness
keeps and whose sites it knows. -/

namespace Lox.Likeness

variable {Role : Type} {κ : Likeness Role}

structure Keeps (κ : Likeness Role) : Prop where
  rename : ∀ a, κ.rename κ.global a = a
  line : ∀ l, κ.line l l

def Covers (κ : Likeness Role) (u : SiteId × Token) : Prop :=
  κ.known u.2.lexeme ∧ ∃ d, κ.site u.1 u.1 d

lemma inner_outside : inner κ.global κ.outside = κ.outside := by
  funext d
  cases d <;> rfl

lemma roleAt_outside (d : Option ℕ) : κ.roleAt κ.outside d = κ.global := by
  cases d <;> rfl

structure Overlooks (κ : Likeness Role) (f : Token → Token) : Prop where
  type : ∀ t, (f t).type = t.type
  lexeme : ∀ t, (f t).lexeme = t.lexeme
  line : ∀ t, κ.line t.line (f t).line

lemma overlooks_id (hκ : Keeps κ) : Overlooks κ id :=
  ⟨fun _ => rfl, fun _ => rfl, fun t => hκ.line t.line⟩

structure StmtSuits (κ : Likeness Role) (fn : Bool) (s : Stmt) : Prop where
  uses : ∀ u ∈ s.uses, Covers κ u
  binders : ∀ t ∈ s.binders, κ.known t.lexeme
  returns : fn = true ∨ s.strays = []

structure StmtsSuit (κ : Likeness Role) (fn : Bool) (b : List Stmt) : Prop where
  uses : ∀ u ∈ Stmt.listUses b, Covers κ u
  binders : ∀ t ∈ Stmt.listBinders b, κ.known t.lexeme
  returns : fn = true ∨ Stmt.listStrays b = []

section

variable {fn : Bool} {c : Expr} {s t : Stmt} {b : List Stmt}

lemma StmtsSuit.cons (h : StmtsSuit κ fn (s :: b)) : StmtSuits κ fn s ∧ StmtsSuit κ fn b := by
  obtain ⟨hu, hb, hr⟩ := h
  rw [Stmt.listUses, List.forall_mem_append] at hu
  rw [Stmt.listBinders, List.forall_mem_append] at hb
  rw [Stmt.listStrays, List.append_eq_nil_iff] at hr
  exact ⟨⟨hu.1, hb.1, hr.imp_right And.left⟩, hu.2, hb.2, hr.imp_right And.right⟩

lemma StmtSuits.block (h : StmtSuits κ fn (.block b)) : StmtsSuit κ fn b :=
  ⟨h.uses, h.binders, h.returns⟩

lemma StmtSuits.function {name : Token} {params : List Token}
    (h : StmtSuits κ fn (.function name params b)) :
    κ.known name.lexeme ∧ (∀ p ∈ params, κ.known p.lexeme) ∧ StmtsSuit κ true b := by
  obtain ⟨hu, hb, -⟩ := h
  rw [Stmt.binders, List.forall_mem_cons, List.forall_mem_append] at hb
  exact ⟨hb.1, hb.2.1, hu, hb.2.2, .inl rfl⟩

lemma StmtSuits.ifThen (h : StmtSuits κ fn (.ifThen c s)) :
    (∀ u ∈ c.uses, Covers κ u) ∧ StmtSuits κ fn s := by
  obtain ⟨hu, hb, hr⟩ := h
  rw [Stmt.uses, List.forall_mem_append] at hu
  exact ⟨hu.1, hu.2, hb, hr⟩

lemma StmtSuits.loop (h : StmtSuits κ fn (.loop c s)) :
    (∀ u ∈ c.uses, Covers κ u) ∧ StmtSuits κ fn s := by
  obtain ⟨hu, hb, hr⟩ := h
  rw [Stmt.uses, List.forall_mem_append] at hu
  exact ⟨hu.1, hu.2, hb, hr⟩

lemma StmtSuits.ifElse (h : StmtSuits κ fn (.ifElse c s t)) :
    (∀ u ∈ c.uses, Covers κ u) ∧ StmtSuits κ fn s ∧ StmtSuits κ fn t := by
  obtain ⟨hu, hb, hr⟩ := h
  rw [Stmt.uses, List.forall_mem_append, List.forall_mem_append] at hu
  rw [Stmt.binders, List.forall_mem_append] at hb
  rw [Stmt.strays, List.append_eq_nil_iff] at hr
  exact ⟨hu.1.1, ⟨hu.1.2, hb.1, hr.imp_right And.left⟩, hu.2, hb.2, hr.imp_right And.right⟩

lemma not_suits_ret {keyword : Token} {e : Option Expr} :
    ¬ StmtSuits κ false (.ret keyword e) := by
  rintro ⟨-, -, hr⟩
  exact List.cons_ne_nil _ _ (hr.resolve_left Bool.false_ne_true)

end

variable {f : Token → Token}

section

variable (hκ : Keeps κ) (hf : Overlooks κ f)

include hf

lemma operatorLike_map (t : Token) : κ.OperatorLike t (f t) := ⟨hf.type t, hf.line t⟩

include hκ

lemma nameLike_map {t : Token} (ht : κ.known t.lexeme) : κ.NameLike κ.global t (f t) :=
  ⟨ht, (hf.lexeme t).trans (hκ.rename _).symm, hf.line t⟩

lemma namesLike_map {ps : List Token} (h : ∀ t ∈ ps, κ.known t.lexeme) :
    List.Forall₂ (κ.NameLike κ.global) ps (ps.map f) := by
  rw [List.forall₂_map_right_iff, List.forall₂_same]
  exact fun t ht => nameLike_map hκ hf (h t ht)

lemma siteLike_map {site : SiteId} {name : Token} (h : Covers κ (site, name)) :
    κ.SiteLike κ.outside site name site (f name) := by
  obtain ⟨hn, d, hd⟩ := h
  refine ⟨d, hd, ?_⟩
  rw [roleAt_outside]
  exact nameLike_map hκ hf hn

end

mutual

lemma exprLike_map (hκ : Keeps κ) (hf : Overlooks κ f) : ∀ {e : Expr},
    (∀ u ∈ e.uses, Covers κ u) → κ.ExprLike κ.outside e (e.mapTokens f)
  | .literal v, _ => .literal v
  | .grouping _, h => .grouping (exprLike_map hκ hf h)
  | .unary op _, h => .unary (operatorLike_map hf op) (exprLike_map hκ hf h)
  | .binary _ op _, h => by
    obtain ⟨ha, hb⟩ := List.forall_mem_append.1 h
    exact .binary (exprLike_map hκ hf ha) (operatorLike_map hf op) (exprLike_map hκ hf hb)
  | .logical _ op _, h => by
    obtain ⟨ha, hb⟩ := List.forall_mem_append.1 h
    exact .logical (exprLike_map hκ hf ha) (operatorLike_map hf op) (exprLike_map hκ hf hb)
  | .ref site name, h => .ref (siteLike_map hκ hf (h (site, name) (List.mem_singleton_self _)))
  | .assign site name _, h => by
    obtain ⟨he, hsite⟩ := List.forall_mem_append.1 h
    exact .assign (siteLike_map hκ hf (hsite (site, name) (List.mem_singleton_self _)))
      (exprLike_map hκ hf he)
  | .call _ paren _, h => by
    obtain ⟨hcallee, hargs⟩ := List.forall_mem_append.1 h
    exact .call (exprLike_map hκ hf hcallee) (hf.line paren) (exprsLike_map hκ hf hargs)

lemma exprsLike_map (hκ : Keeps κ) (hf : Overlooks κ f) : ∀ {es : List Expr},
    (∀ u ∈ Expr.listUses es, Covers κ u) →
    List.Forall₂ (κ.ExprLike κ.outside) es (Expr.listMapTokens f es)
  | [], _ => .nil
  | _ :: _, h => by
    obtain ⟨he, hes⟩ := List.forall_mem_append.1 h
    exact .cons (exprLike_map hκ hf he) (exprsLike_map hκ hf hes)

end

lemma optionLike_map (hκ : Keeps κ) (hf : Overlooks κ f) {e : Option Expr}
    (h : ∀ u ∈ Expr.optionUses e, Covers κ u) :
    Option.Rel (κ.ExprLike κ.outside) e (e.map (Expr.mapTokens f)) := by
  cases e with
  | none => exact .none
  | some e => exact .some (exprLike_map hκ hf h)

mutual

lemma stmtLike_map (hκ : Keeps κ) (hf : Overlooks κ f) : ∀ {fn : Bool} {s : Stmt},
    StmtSuits κ fn s → κ.StmtLike fn κ.outside s (s.mapTokens f)
  | _, .expression _, h => .expression (exprLike_map hκ hf h.uses)
  | _, .print _, h => .print (exprLike_map hκ hf h.uses)
  | _, .var name _, h =>
    .var (nameLike_map hκ hf (h.binders name (List.mem_singleton_self _)))
      (optionLike_map hκ hf h.uses)
  | _, .block _, h => by
    refine .block κ.global ?_
    rw [inner_outside]
    exact stmtsLike_map hκ hf h.block
  | _, .ifThen _ _, h =>
    .ifThen (exprLike_map hκ hf h.ifThen.1) (stmtLike_map hκ hf h.ifThen.2)
  | _, .loop _ _, h => .loop (exprLike_map hκ hf h.loop.1) (stmtLike_map hκ hf h.loop.2)
  | _, .ifElse _ _ _, h => by
    obtain ⟨hc, hs, ht⟩ := h.ifElse
    exact .ifElse (exprLike_map hκ hf hc) (stmtLike_map hκ hf hs) (stmtLike_map hκ hf ht)
  | _, .function name _ _, h => by
    obtain ⟨hname, hparams, hbody⟩ := h.function
    refine .function κ.global (nameLike_map hκ hf hname) (hf.lexeme name)
      (namesLike_map hκ hf hparams) ?_
    rw [inner_outside]
    exact stmtsLike_map hκ hf hbody
  | true, .ret _ _, h => .ret (optionLike_map hκ hf h.uses)
  | false, .ret _ _, h => absurd h not_suits_ret

lemma stmtsLike_map (hκ : Keeps κ) (hf : Overlooks κ f) : ∀ {fn : Bool} {b : List Stmt},
    StmtsSuit κ fn b → StmtsLike κ fn κ.outside b (Stmt.listMapTokens f b)
  | _, [], _ => .nil
  | _, _ :: _, h => .cons (stmtLike_map hκ hf h.cons.1) (stmtsLike_map hκ hf h.cons.2)

end

section

variable (hκ : Keeps κ)

include hκ

lemma nameLike_self {t : Token} (ht : κ.known t.lexeme) : κ.NameLike κ.global t t :=
  nameLike_map hκ (overlooks_id hκ) ht

lemma operatorLike_self (t : Token) : κ.OperatorLike t t := operatorLike_map (overlooks_id hκ) t

lemma namesLike_self {ps : List Token} (h : ∀ t ∈ ps, κ.known t.lexeme) :
    List.Forall₂ (κ.NameLike κ.global) ps ps := by
  have hmap := namesLike_map hκ (overlooks_id hκ) h
  rwa [List.map_id] at hmap

lemma exprLike_self {e : Expr} (h : ∀ u ∈ e.uses, Covers κ u) : κ.ExprLike κ.outside e e := by
  have hmap := exprLike_map hκ (overlooks_id hκ) h
  rwa [Expr.mapTokens_id] at hmap

lemma stmtLike_self {fn : Bool} {s : Stmt} (h : StmtSuits κ fn s) :
    κ.StmtLike fn κ.outside s s := by
  have hmap := stmtLike_map hκ (overlooks_id hκ) h
  rwa [Stmt.mapTokens_id] at hmap

lemma stmtsLike_self {fn : Bool} {b : List Stmt} (h : StmtsSuit κ fn b) :
    StmtsLike κ fn κ.outside b b := by
  have hmap := stmtsLike_map hκ (overlooks_id hκ) h
  rwa [Stmt.listMapTokens_id] at hmap

end

end Lox.Likeness
