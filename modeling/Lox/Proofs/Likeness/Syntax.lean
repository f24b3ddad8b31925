import Lox.Eval.Machine
import Mathlib.Data.List.Forall2

/-! Programs that differ in names, places and sites only. A likeness says which differences are
allowed; what a name becomes may depend on the role of the scope that binds it. -/

namespace Lox

lemma optionRel_imp {α β : Type} {r q : α → β → Prop} {a : Option α} {b : Option β}
    (hr : ∀ x y, r x y → q x y) (h : Option.Rel r a b) : Option.Rel q a b := by
  cases h with
  | none => exact .none
  | some h => exact .some (hr _ _ h)

lemma optionRel_isSome {α β : Type} {r : α → β → Prop} {a : Option α} {b : Option β}
    (h : Option.Rel r a b) : b.isSome = a.isSome := by
  cases h <;> rfl

structure Likeness (Role : Type) where
  global : Role
  known : String → Prop
  rename : Role → String → String
  rename_inj : ∀ {r q a b}, known a → known b → rename r a = rename q b → a = b
  line : ℕ → ℕ → Prop
  line_zero : line 0 0
  site : SiteId → SiteId → Option ℕ → Prop

namespace Likeness

variable {Role : Type} (κ : Likeness Role)

abbrev Context (Role : Type) := ℕ → Role

def inner (r : Role) (ctx : Context Role) : Context Role
  | 0 => r
  | d + 1 => ctx d

def outside : Context Role := fun _ => κ.global

def roleAt (ctx : Context Role) : Option ℕ → Role
  | none => κ.global
  | some d => ctx d

structure NameLike (r : Role) (t t' : Token) : Prop where
  known : κ.known t.lexeme
  lexeme : t'.lexeme = κ.rename r t.lexeme
  line : κ.line t.line t'.line

structure OperatorLike (t t' : Token) : Prop where
  type : t'.type = t.type
  line : κ.line t.line t'.line

inductive SiteLike (ctx : Context Role) (site : SiteId) (name : Token) (site' : SiteId)
    (name' : Token) : Prop
  | mk (d : Option ℕ) : κ.site site site' d → κ.NameLike (κ.roleAt ctx d) name name' →
      SiteLike ctx site name site' name'

inductive ExprLike (ctx : Context Role) : Expr → Expr → Prop
  | literal (v) : ExprLike ctx (.literal v) (.literal v)
  | grouping {e e'} : ExprLike ctx e e' → ExprLike ctx (.grouping e) (.grouping e')
  | unary {op op' e e'} : κ.OperatorLike op op' → ExprLike ctx e e' →
      ExprLike ctx (.unary op e) (.unary op' e')
  | binary {a a' op op' b b'} : ExprLike ctx a a' → κ.OperatorLike op op' → ExprLike ctx b b' →
      ExprLike ctx (.binary a op b) (.binary a' op' b')
  | logical {a a' op op' b b'} : ExprLike ctx a a' → κ.OperatorLike op op' → ExprLike ctx b b' →
      ExprLike ctx (.logical a op b) (.logical a' op' b')
  | ref {site name site' name'} : κ.SiteLike ctx site name site' name' →
      ExprLike ctx (.ref site name) (.ref site' name')
  | assign {site name e site' name' e'} : κ.SiteLike ctx site name site' name' →
      ExprLike ctx e e' → ExprLike ctx (.assign site name e) (.assign site' name' e')
  | call {f f' paren paren' args args'} : ExprLike ctx f f' → κ.line paren.line paren'.line →
      List.Forall₂ (ExprLike ctx) args args' →
      ExprLike ctx (.call f paren args) (.call f' paren' args')

mutual

inductive StmtLike : Bool → Context Role → Stmt → Stmt → Prop
  | expression {fn ctx e e'} : κ.ExprLike ctx e e' →
      StmtLike fn ctx (.expression e) (.expression e')
  | print {fn ctx e e'} : κ.ExprLike ctx e e' → StmtLike fn ctx (.print e) (.print e')
  | var {fn ctx x x' e e'} : κ.NameLike (ctx 0) x x' → Option.Rel (κ.ExprLike ctx) e e' →
      StmtLike fn ctx (.var x e) (.var x' e')
  | block {fn ctx b b'} (r : Role) : StmtsLike fn (inner r ctx) b b' →
      StmtLike fn ctx (.block b) (.block b')
  | ifThen {fn ctx c c' s s'} : κ.ExprLike ctx c c' → StmtLike fn ctx s s' →
      StmtLike fn ctx (.ifThen c s) (.ifThen c' s')
  | ifElse {fn ctx c c' s s' t t'} : κ.ExprLike ctx c c' → StmtLike fn ctx s s' →
      StmtLike fn ctx t t' → StmtLike fn ctx (.ifElse c s t) (.ifElse c' s' t')
  | loop {fn ctx c c' s s'} : κ.ExprLike ctx c c' → StmtLike fn ctx s s' →
      StmtLike fn ctx (.loop c s) (.loop c' s')
  | function {fn ctx f f' ps ps' b b'} (r : Role) : κ.NameLike (ctx 0) f f' →
      f'.lexeme = f.lexeme → List.Forall₂ (κ.NameLike r) ps ps' →
      StmtsLike true (inner r ctx) b b' → StmtLike fn ctx (.function f ps b) (.function f' ps' b')
  | ret {ctx k k' e e'} : Option.Rel (κ.ExprLike ctx) e e' →
      StmtLike true ctx (.ret k e) (.ret k' e')

inductive StmtsLike : Bool → Context Role → List Stmt → List Stmt → Prop
  | nil {fn ctx} : StmtsLike fn ctx [] []
  | cons {fn ctx s s' b b'} : StmtLike fn ctx s s' → StmtsLike fn ctx b b' →
      StmtsLike fn ctx (s :: b) (s' :: b')

end

variable {κ}

lemma ExprLike.line {ctx : Context Role} : ∀ {e e' : Expr}, κ.ExprLike ctx e e' →
    Option.Rel κ.line e.line? e'.line?
  | _, _, .literal _ => .none
  | _, _, .grouping h => h.line
  | _, _, .unary h _ | _, _, .binary _ h _ | _, _, .logical _ h _ => .some h.line
  | _, _, .ref ⟨_, _, h⟩ | _, _, .assign ⟨_, _, h⟩ _ => .some h.line
  | _, _, .call _ h _ => .some h

structure Weaker (κ κ' : Likeness Role) : Prop where
  global : κ'.global = κ.global
  known : ∀ {a}, κ'.known a ↔ κ.known a
  rename : ∀ r a, κ'.rename r a = κ.rename r a
  line : ∀ {m n}, κ.line m n → κ'.line m n
  site : ∀ {a b d}, κ.site a b d → κ'.site a b d

section

variable {κ' : Likeness Role} (w : Weaker κ κ')

include w

lemma NameLike.weaken {r : Role} {t t' : Token} (h : κ.NameLike r t t') : κ'.NameLike r t t' :=
  ⟨w.known.2 h.known, h.lexeme.trans (w.rename ..).symm, w.line h.line⟩

lemma OperatorLike.weaken {t t' : Token} (h : κ.OperatorLike t t') : κ'.OperatorLike t t' :=
  ⟨h.type, w.line h.line⟩

lemma SiteLike.weaken {ctx : Context Role} {a b : SiteId} {x y : Token}
    (h : κ.SiteLike ctx a x b y) : κ'.SiteLike ctx a x b y := by
  obtain ⟨d, hs, hn⟩ := h
  refine ⟨d, w.site hs, ?_⟩
  have hr : κ'.roleAt ctx d = κ.roleAt ctx d := by cases d <;> simp [roleAt, w.global]
  rw [hr]
  exact hn.weaken w

lemma ExprLike.weaken {ctx : Context Role} {e e' : Expr} (h : κ.ExprLike ctx e e') :
    κ'.ExprLike ctx e e' := by
  refine @ExprLike.rec Role κ ctx (fun e e' _ => κ'.ExprLike ctx e e')
    (fun es es' _ => List.Forall₂ (κ'.ExprLike ctx) es es')
    ?literal ?grouping ?unary ?binary ?logical ?ref ?assign ?call .nil
    (fun _ _ ih ihs => .cons ih ihs) e e' h
  case literal => exact fun v => .literal v
  case grouping => exact fun _ ih => .grouping ih
  case unary => exact fun ho _ ih => .unary (ho.weaken w) ih
  case binary => exact fun _ ho _ iha ihb => .binary iha (ho.weaken w) ihb
  case logical => exact fun _ ho _ iha ihb => .logical iha (ho.weaken w) ihb
  case ref => exact fun hs => .ref (hs.weaken w)
  case assign => exact fun hs _ ih => .assign (hs.weaken w) ih
  case call => exact fun _ hp _ ih ihs => .call ih (w.line hp) ihs

lemma forall_nameLike_weaken {r : Role} {ps ps' : List Token}
    (h : List.Forall₂ (κ.NameLike r) ps ps') : List.Forall₂ (κ'.NameLike r) ps ps' :=
  h.imp fun _ _ hn => hn.weaken w

end

mutual

lemma StmtLike.weaken {κ κ' : Likeness Role} (w : Weaker κ κ') : ∀ {fn : Bool}
    {ctx : Context Role} {s s' : Stmt}, StmtLike κ fn ctx s s' → StmtLike κ' fn ctx s s'
  | _, _, _, _, .expression h => .expression (h.weaken w)
  | _, _, _, _, .print h => .print (h.weaken w)
  | _, _, _, _, .var hx he => .var (hx.weaken w) (optionRel_imp (fun _ _ h => h.weaken w) he)
  | _, _, _, _, .block r h => .block r (StmtsLike.weaken w h)
  | _, _, _, _, .ifThen hc hs => .ifThen (hc.weaken w) (StmtLike.weaken w hs)
  | _, _, _, _, .ifElse hc hs ht =>
    .ifElse (hc.weaken w) (StmtLike.weaken w hs) (StmtLike.weaken w ht)
  | _, _, _, _, .loop hc hs => .loop (hc.weaken w) (StmtLike.weaken w hs)
  | _, _, _, _, .function r hf hn hp hb =>
    .function r (hf.weaken w) hn (forall_nameLike_weaken w hp) (StmtsLike.weaken w hb)
  | _, _, _, _, .ret h => .ret (optionRel_imp (fun _ _ h => h.weaken w) h)

lemma StmtsLike.weaken {κ κ' : Likeness Role} (w : Weaker κ κ') : ∀ {fn : Bool}
    {ctx : Context Role} {b b' : List Stmt}, StmtsLike κ fn ctx b b' → StmtsLike κ' fn ctx b b'
  | _, _, _, _, .nil => .nil
  | _, _, _, _, .cons hs hb => .cons (StmtLike.weaken w hs) (StmtsLike.weaken w hb)

end

end Likeness

end Lox
