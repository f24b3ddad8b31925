import Lox.Proofs.Likeness.Self
import Lox.Proofs.Likeness.Machine
import Lox.Proofs.Sites.Map

/-! Programs that differ in the numbers of their sites only. -/

namespace Lox.Likeness

variable {Role : Type} {κ : Likeness Role} {g : SiteId → SiteId}

def along (κ : Likeness Role) (g : SiteId → SiteId) : Likeness Role :=
  { κ with site := fun a b d => κ.site a (g b) d }

section

variable {ctx : Context Role}

lemma NameLike.ofAlong {r : Role} {t t' : Token} (h : (κ.along g).NameLike r t t') :
    κ.NameLike r t t' :=
  ⟨h.known, h.lexeme, h.line⟩

lemma namesLike_ofAlong {r : Role} {ps ps' : List Token}
    (h : List.Forall₂ ((κ.along g).NameLike r) ps ps') : List.Forall₂ (κ.NameLike r) ps ps' :=
  h.imp fun _ _ hn => hn.ofAlong

lemma OperatorLike.ofAlong {t t' : Token} (h : (κ.along g).OperatorLike t t') :
    κ.OperatorLike t t' :=
  ⟨h.type, h.line⟩

lemma SiteLike.mapSites {a b : SiteId} {x y : Token} (h : (κ.along g).SiteLike ctx a x b y) :
    κ.SiteLike ctx a x (g b) y := by
  obtain ⟨d, hs, hn⟩ := h
  have hr : (κ.along g).roleAt ctx d = κ.roleAt ctx d := by cases d <;> rfl
  exact ⟨d, hs, hr ▸ hn.ofAlong⟩

mutual

lemma ExprLike.mapSites : ∀ {e e' : Expr}, (κ.along g).ExprLike ctx e e' →
    κ.ExprLike ctx e (e'.mapSites g)
  | _, _, .literal v => .literal v
  | _, _, .grouping h => .grouping (ExprLike.mapSites h)
  | _, _, .unary ho h => .unary ho.ofAlong (ExprLike.mapSites h)
  | _, _, .binary ha ho hb => .binary (ExprLike.mapSites ha) ho.ofAlong (ExprLike.mapSites hb)
  | _, _, .logical ha ho hb => .logical (ExprLike.mapSites ha) ho.ofAlong (ExprLike.mapSites hb)
  | _, _, .ref hs => .ref hs.mapSites
  | _, _, .assign hs h => .assign hs.mapSites (ExprLike.mapSites h)
  | _, _, .call hf hp ha => .call (ExprLike.mapSites hf) hp (exprsLike_mapSites ha)

lemma exprsLike_mapSites : ∀ {es es' : List Expr},
    List.Forall₂ ((κ.along g).ExprLike ctx) es es' →
    List.Forall₂ (κ.ExprLike ctx) es (Expr.listMapSites g es')
  | _, _, .nil => .nil
  | _, _, .cons h hs => .cons (ExprLike.mapSites h) (exprsLike_mapSites hs)

end

lemma optionLike_mapSites {e e' : Option Expr} (h : Option.Rel ((κ.along g).ExprLike ctx) e e') :
    Option.Rel (κ.ExprLike ctx) e (e'.map (Expr.mapSites g)) := by
  cases h with
  | none => exact .none
  | some h => exact .some h.mapSites

end

mutual

lemma StmtLike.mapSites : ∀ {fn : Bool} {ctx : Context Role} {s s' : Stmt},
    (κ.along g).StmtLike fn ctx s s' → κ.StmtLike fn ctx s (s'.mapSites g)
  | _, _, _, _, .expression h => .expression h.mapSites
  | _, _, _, _, .print h => .print h.mapSites
  | _, _, _, _, .var hx he => .var hx.ofAlong (optionLike_mapSites he)
  | _, _, _, _, .block r hb => .block r (StmtsLike.mapSites hb)
  | _, _, _, _, .ifThen hc hs => .ifThen hc.mapSites (StmtLike.mapSites hs)
  | _, _, _, _, .ifElse hc hs ht =>
    .ifElse hc.mapSites (StmtLike.mapSites hs) (StmtLike.mapSites ht)
  | _, _, _, _, .loop hc hs => .loop hc.mapSites (StmtLike.mapSites hs)
  | _, _, _, _, .function r hf hn hp hb =>
    .function r hf.ofAlong hn (namesLike_ofAlong hp) (StmtsLike.mapSites hb)
  | _, _, _, _, .ret he => .ret (optionLike_mapSites he)

lemma StmtsLike.mapSites : ∀ {fn : Bool} {ctx : Context Role} {b b' : List Stmt},
    (κ.along g).StmtsLike fn ctx b b' → κ.StmtsLike fn ctx b (Stmt.listMapSites g b')
  | _, _, _, _, .nil => .nil
  | _, _, _, _, .cons hs hb => .cons (StmtLike.mapSites hs) (StmtsLike.mapSites hb)

end

def ofSites (site : SiteId → SiteId → Option ℕ → Prop) : Likeness Unit where
  global := ()
  known _ := True
  rename _ := id
  rename_inj _ _ h := h
  line := Eq
  line_zero := .refl Nat.zero
  site := site

variable {r q : SiteId → SiteId → Option ℕ → Prop}

lemma keeps_ofSites (r : SiteId → SiteId → Option ℕ → Prop) : Keeps (ofSites r) :=
  ⟨fun _ => rfl, fun _ => rfl⟩

lemma weaker_ofSites (h : ∀ {a b d}, r a b d → q a b d) : Weaker (ofSites r) (ofSites q) :=
  ⟨rfl, Iff.rfl, fun _ _ => rfl, id, h⟩

lemma ErrorLike.eq {e e' : RuntimeError} (h : (ofSites r).ErrorLike e e') : e' = e := by
  obtain ⟨fault, line⟩ := e
  obtain ⟨fault', line'⟩ := e'
  obtain ⟨hf, rfl⟩ := h
  cases hf <;> rfl

end Lox.Likeness
