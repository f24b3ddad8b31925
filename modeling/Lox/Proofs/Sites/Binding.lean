import Lox.Proofs.Binding.Uses
import Lox.Proofs.Sites.Map

/-! The walk over a program notes the numbers of its sites and never looks at one. -/

namespace Lox.Binding

variable {g : SiteId → SiteId}

def Walk.mapSites (g : SiteId → SiteId) (w : Walk) : Walk :=
  { w with distances := w.distances.map (Prod.map g id) }

namespace Walk

variable (w : Walk)

lemma mapSites_enter (name : Token) (complete : Bool) :
    (w.mapSites g).enter name complete = (w.enter name complete).mapSites g := by
  obtain ⟨_ | ⟨scope, outer⟩, distances, errors⟩ := w <;> rfl

lemma mapSites_define (name : Token) : ((w.mapSites g).declare name).define name =
    ((w.declare name).define name).mapSites g :=
  (congrArg (define name) (w.mapSites_enter name false)).trans ((w.declare name).mapSites_enter ..)

lemma mapSites_params (params : List Token) :
    params.foldl (fun w p => (w.declare p).define p) (w.mapSites g) =
      (params.foldl (fun w p => (w.declare p).define p) w).mapSites g := by
  induction params generalizing w with
  | nil => rfl
  | cons p params ih => rw [List.foldl_cons, mapSites_define, ih, List.foldl_cons]

lemma mapSites_locate (site : SiteId) (name : Token) :
    (w.mapSites g).locate (g site) name = (w.locate site name).mapSites g := by
  have hd : (w.mapSites g).distance? name.lexeme = w.distance? name.lexeme := rfl
  rw [locate, locate, hd]
  cases w.distance? name.lexeme <;> rfl

end Walk

mutual

lemma visit_mapSites : ∀ (e : Expr) (w : Walk),
    visit (e.mapSites g) (w.mapSites g) = (visit e w).mapSites g
  | .literal _, _ => rfl
  | .grouping e, w | .unary _ e, w => visit_mapSites e w
  | .binary a _ b, w | .logical a _ b, w =>
    (congrArg _ (visit_mapSites a w)).trans (visit_mapSites b (visit a w))
  | .ref site name, w => by
    rw [Expr.mapSites, visit, visit, ← Walk.mapSites_locate]
    congr 1
    change (if w.isPending name.lexeme then _ else _) = _
    split <;> rfl
  | .assign site name e, w => by
    rw [Expr.mapSites, visit, visit, visit_mapSites e w, Walk.mapSites_locate]
  | .call f _ args, w =>
    (congrArg _ (visit_mapSites f w)).trans (visitList_mapSites args (visit f w))

lemma visitList_mapSites : ∀ (es : List Expr) (w : Walk),
    visitList (Expr.listMapSites g es) (w.mapSites g) = (visitList es w).mapSites g
  | [], _ => rfl
  | e :: es, w => (congrArg _ (visit_mapSites e w)).trans (visitList_mapSites es (visit e w))

end

lemma visitOption_mapSites (e : Option Expr) (w : Walk) :
    visitOption (e.map (Expr.mapSites g)) (w.mapSites g) = (visitOption e w).mapSites g := by
  cases e with
  | none => rfl
  | some e => exact visit_mapSites e w

mutual

lemma visitStmt_mapSites : ∀ (fn : Bool) (s : Stmt) (w : Walk),
    visitStmt fn (s.mapSites g) (w.mapSites g) = (visitStmt fn s w).mapSites g
  | _, .expression e, w | _, .print e, w => visit_mapSites e w
  | _, .var name e, w => by
    rw [Stmt.mapSites, visitStmt, visitStmt, Walk.declare, Walk.mapSites_enter,
      visitOption_mapSites, Walk.define, Walk.mapSites_enter]
    rfl
  | fn, .block body, w => congrArg Walk.closeScope (visitStmts_mapSites fn body w.openScope)
  | fn, .ifThen c s, w | fn, .loop c s, w =>
    (congrArg _ (visit_mapSites c w)).trans (visitStmt_mapSites fn s (visit c w))
  | fn, .ifElse c s t, w => by
    rw [Stmt.mapSites, visitStmt, visitStmt, visit_mapSites c w, visitStmt_mapSites fn s,
      visitStmt_mapSites fn t]
  | _, .function name params body, w => by
    have hopen : ((w.mapSites g).declare name |>.define name).openScope =
        ((w.declare name).define name).openScope.mapSites g :=
      congrArg Walk.openScope (w.mapSites_define name)
    rw [Stmt.mapSites, visitStmt, visitStmt, hopen, Walk.mapSites_params,
      visitStmts_mapSites true body]
    rfl
  | fn, .ret keyword e, w => by
    rw [Stmt.mapSites, visitStmt, visitStmt, ← visitOption_mapSites]
    cases fn <;> rfl

lemma visitStmts_mapSites : ∀ (fn : Bool) (b : List Stmt) (w : Walk),
    visitStmts fn (Stmt.listMapSites g b) (w.mapSites g) = (visitStmts fn b w).mapSites g
  | _, [], _ => rfl
  | fn, s :: b, w =>
    (congrArg _ (visitStmt_mapSites fn s w)).trans (visitStmts_mapSites fn b (visitStmt fn s w))

end

theorem ofProgram_mapSites (g : SiteId → SiteId) (program : List Stmt) :
    Binding.ofProgram (Stmt.listMapSites g program) =
      ⟨(Binding.ofProgram program).distances.map (Prod.map g id),
        (Binding.ofProgram program).errors⟩ := by
  have h := visitStmts_mapSites (g := g) false program .start
  have hstart : Walk.start.mapSites g = .start := rfl
  rw [hstart] at h
  simp only [Binding.ofProgram, h, Walk.mapSites, List.map_reverse]

lemma lookup_mapSites (hg : Function.Injective g) (entries : List (SiteId × ℕ)) (site : SiteId) :
    (entries.map (Prod.map g id)).lookup (g site) = entries.lookup site := by
  induction entries with
  | nil => rfl
  | cons entry entries ih =>
    obtain ⟨a, d⟩ := entry
    rw [List.map_cons, Prod.map_apply, List.lookup_cons, List.lookup_cons, ih]
    by_cases h : site = a
    · subst h
      simp
    · rw [beq_false_of_ne h, beq_false_of_ne (hg.ne h)]

theorem recorded_mapSites (hg : Function.Injective g) (program : List Stmt) (site : SiteId) :
    recorded (Stmt.listMapSites g program) (g site) = recorded program site := by
  rw [recorded, ofProgram_mapSites]
  exact lookup_mapSites hg _ site

end Lox.Binding
