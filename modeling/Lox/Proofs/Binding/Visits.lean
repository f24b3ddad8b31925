import Lox.Binding
import Mathlib.Data.List.Basic

/-! The nodes that the walk over a program visits, each with the scopes that are open there. Both
what the walk notes and what it reports is told by its visits. -/

namespace Lox.Binding

inductive Node where
  | expr (e : Expr)
  | stmt (s : Stmt)

structure Visit where
  node : Node
  inFunction : Bool
  scopes : List Scope

def enter (name : Token) (complete : Bool) : List Scope → List Scope
  | [] => []
  | scope :: outer => ((name.lexeme, complete) :: scope) :: outer

def declared (name : Token) (scopes : List Scope) : List Scope :=
  enter name true (enter name false scopes)

def paramScopes (params : List Token) (scopes : List Scope) : List Scope :=
  params.foldl (fun scopes p => declared p scopes) ([] :: scopes)

def distanceIn? (scopes : List Scope) (name : String) : Option Nat :=
  scopes.findIdx? fun scope => (scope.lookup name).isSome

def pendingIn (scopes : List Scope) (name : String) : Bool :=
  scopes.head?.any (·.lookup name == some false)

def scopesAfter : Stmt → List Scope → List Scope
  | .var name _, scopes | .function name _ _, scopes => declared name scopes
  | .ifThen _ s, scopes | .loop _ s, scopes => scopesAfter s scopes
  | .ifElse _ s t, scopes => scopesAfter t (scopesAfter s scopes)
  | _, scopes => scopes

mutual

def exprVisits (fn : Bool) (scopes : List Scope) : Expr → List Visit
  | .literal v => [⟨.expr (.literal v), fn, scopes⟩]
  | .grouping e => ⟨.expr (.grouping e), fn, scopes⟩ :: exprVisits fn scopes e
  | .unary op e => ⟨.expr (.unary op e), fn, scopes⟩ :: exprVisits fn scopes e
  | .binary a op b =>
    ⟨.expr (.binary a op b), fn, scopes⟩ :: (exprVisits fn scopes a ++ exprVisits fn scopes b)
  | .logical a op b =>
    ⟨.expr (.logical a op b), fn, scopes⟩ :: (exprVisits fn scopes a ++ exprVisits fn scopes b)
  | .ref site name => [⟨.expr (.ref site name), fn, scopes⟩]
  | .assign site name e =>
    exprVisits fn scopes e ++ [⟨.expr (.assign site name e), fn, scopes⟩]
  | .call f paren args =>
    ⟨.expr (.call f paren args), fn, scopes⟩ ::
      (exprVisits fn scopes f ++ listVisits fn scopes args)

def listVisits (fn : Bool) (scopes : List Scope) : List Expr → List Visit
  | [] => []
  | e :: rest => exprVisits fn scopes e ++ listVisits fn scopes rest

end

def optionVisits (fn : Bool) (scopes : List Scope) : Option Expr → List Visit
  | none => []
  | some e => exprVisits fn scopes e

mutual

def stmtVisits (fn : Bool) (scopes : List Scope) : Stmt → List Visit
  | .expression e => ⟨.stmt (.expression e), fn, scopes⟩ :: exprVisits fn scopes e
  | .print e => ⟨.stmt (.print e), fn, scopes⟩ :: exprVisits fn scopes e
  | .var name e =>
    ⟨.stmt (.var name e), fn, scopes⟩ :: optionVisits fn (enter name false scopes) e
  | .block body => ⟨.stmt (.block body), fn, scopes⟩ :: stmtsVisits fn ([] :: scopes) body
  | .ifThen c s =>
    ⟨.stmt (.ifThen c s), fn, scopes⟩ :: (exprVisits fn scopes c ++ stmtVisits fn scopes s)
  | .ifElse c s t =>
    ⟨.stmt (.ifElse c s t), fn, scopes⟩ ::
      (exprVisits fn scopes c ++ stmtVisits fn scopes s ++ stmtVisits fn (scopesAfter s scopes) t)
  | .loop c s =>
    ⟨.stmt (.loop c s), fn, scopes⟩ :: (exprVisits fn scopes c ++ stmtVisits fn scopes s)
  | .function name params body =>
    ⟨.stmt (.function name params body), fn, scopes⟩ ::
      stmtsVisits true (paramScopes params (declared name scopes)) body
  | .ret keyword e => ⟨.stmt (.ret keyword e), fn, scopes⟩ :: optionVisits fn scopes e

def stmtsVisits (fn : Bool) (scopes : List Scope) : List Stmt → List Visit
  | [] => []
  | s :: rest => stmtVisits fn scopes s ++ stmtsVisits fn (scopesAfter s scopes) rest

end

def scopesAfterAll (body : List Stmt) (scopes : List Scope) : List Scope :=
  body.foldl (fun scopes s => scopesAfter s scopes) scopes

def visits (program : List Stmt) : List Visit := stmtsVisits false [] program

namespace Visit

def use? (v : Visit) : Option (SiteId × Token) :=
  match v.node with
  | .expr (.ref site name) | .expr (.assign site name _) => some (site, name)
  | _ => none

def entry? (v : Visit) : Option (SiteId × Nat) :=
  v.use?.bind fun u => (distanceIn? v.scopes u.2.lexeme).map (u.1, ·)

def error? (v : Visit) : Option ScopeError :=
  match v.node with
  | .expr (.ref _ name) =>
    if pendingIn v.scopes name.lexeme then some ⟨.ownInitializer, name⟩ else none
  | .stmt (.ret keyword _) => if v.inFunction then none else some ⟨.returnOutsideFunction, keyword⟩
  | _ => none

end Visit

lemma scopesAfter_nil : ∀ s : Stmt, scopesAfter s [] = []
  | .var _ _ | .function _ _ _ => rfl
  | .ifThen _ s | .loop _ s => scopesAfter_nil s
  | .ifElse _ s t => by rw [scopesAfter, scopesAfter_nil s, scopesAfter_nil t]
  | .expression _ | .print _ | .block _ | .ret _ _ => rfl

lemma scopesAfter_cons : ∀ (s : Stmt) (scope : Scope) (outer : List Scope),
    ∃ scope', scopesAfter s (scope :: outer) = scope' :: outer
  | .var _ _, _, _ | .function _ _ _, _, _ => ⟨_, rfl⟩
  | .ifThen _ s, scope, outer | .loop _ s, scope, outer => scopesAfter_cons s scope outer
  | .ifElse _ s t, scope, outer => by
    obtain ⟨scope', hs⟩ := scopesAfter_cons s scope outer
    rw [scopesAfter, hs]
    exact scopesAfter_cons t scope' outer
  | .expression _, _, _ | .print _, _, _ | .block _, _, _ | .ret _ _, _, _ => ⟨_, rfl⟩

lemma length_scopesAfter (s : Stmt) (scopes : List Scope) :
    (scopesAfter s scopes).length = scopes.length := by
  cases scopes with
  | nil => rw [scopesAfter_nil]
  | cons scope outer =>
    obtain ⟨scope', hs⟩ := scopesAfter_cons s scope outer
    rw [hs, List.length_cons, List.length_cons]

lemma scopesAfterAll_nil (body : List Stmt) : scopesAfterAll body [] = [] := by
  induction body with
  | nil => rfl
  | cons s rest ih =>
    rw [scopesAfterAll, List.foldl_cons, scopesAfter_nil]
    exact ih

lemma scopesAfterAll_cons (body : List Stmt) (scope : Scope) (outer : List Scope) :
    ∃ scope', scopesAfterAll body (scope :: outer) = scope' :: outer := by
  induction body generalizing scope with
  | nil => exact ⟨scope, rfl⟩
  | cons s rest ih =>
    obtain ⟨scope', hs⟩ := scopesAfter_cons s scope outer
    rw [scopesAfterAll, List.foldl_cons, hs]
    exact ih scope'

lemma paramScopes_cons (params : List Token) (scopes : List Scope) :
    ∃ scope, paramScopes params scopes = scope :: scopes := by
  have h : ∀ scope : Scope, ∃ scope',
      params.foldl (fun scopes p => declared p scopes) (scope :: scopes) = scope' :: scopes := by
    induction params with
    | nil => exact fun scope => ⟨scope, rfl⟩
    | cons p params ih => exact fun scope => ih _
  exact h []

lemma stmtsVisits_append (fn : Bool) (scopes : List Scope) (a b : List Stmt) :
    stmtsVisits fn scopes (a ++ b) =
      stmtsVisits fn scopes a ++ stmtsVisits fn (scopesAfterAll a scopes) b := by
  induction a generalizing scopes with
  | nil => rfl
  | cons s a ih => simp [stmtsVisits, scopesAfterAll, ih, List.append_assoc]

namespace Walk

def note (vs : List Visit) (w : Walk) : Walk :=
  ⟨w.scopes, (vs.filterMap Visit.entry?).reverse ++ w.distances,
    (vs.filterMap Visit.error?).reverse ++ w.errors⟩

def withScopes (scopes : List Scope) (w : Walk) : Walk := { w with scopes := scopes }

variable (w : Walk)

lemma note_append (vs us : List Visit) : w.note (vs ++ us) = (w.note vs).note us := by
  simp [note, List.append_assoc]

lemma note_cons (v : Visit) (vs : List Visit) : w.note (v :: vs) = (w.note [v]).note vs :=
  note_append w [v] vs

lemma note_of_none {v : Visit} (hu : v.use? = none) (he : v.error? = none) : w.note [v] = w := by
  simp [note, Visit.entry?, hu, he]

@[simp] lemma scopes_note (vs : List Visit) : (w.note vs).scopes = w.scopes := rfl

@[simp] lemma scopes_withScopes (scopes : List Scope) : (w.withScopes scopes).scopes = scopes := rfl

@[simp] lemma withScopes_withScopes (a b : List Scope) :
    (w.withScopes a).withScopes b = w.withScopes b := rfl

@[simp] lemma withScopes_self : w.withScopes w.scopes = w := rfl

lemma enter_eq (name : Token) (complete : Bool) :
    w.enter name complete = w.withScopes (Binding.enter name complete w.scopes) := by
  obtain ⟨scopes, _, _⟩ := w
  cases scopes <;> rfl

lemma declare_define_eq (name : Token) :
    (w.declare name).define name = w.withScopes (declared name w.scopes) := by
  rw [declare, define, enter_eq, enter_eq]
  rfl

lemma note_singleton (v : Visit) :
    w.note [v] = ⟨w.scopes, v.entry?.toList ++ w.distances, v.error?.toList ++ w.errors⟩ := by
  cases he : v.entry? <;> cases hf : v.error? <;> simp [note, he, hf]

lemma locate_eq (site : SiteId) (name : Token) :
    w.locate site name =
      ⟨w.scopes, ((distanceIn? w.scopes name.lexeme).map (site, ·)).toList ++ w.distances,
        w.errors⟩ := by
  have h : w.distance? name.lexeme = distanceIn? w.scopes name.lexeme := rfl
  rw [locate, h]
  cases distanceIn? w.scopes name.lexeme <;> rfl

lemma assign_eq (site : SiteId) (name : Token) (fn : Bool) (e : Expr) :
    w.locate site name = w.note [⟨.expr (.assign site name e), fn, w.scopes⟩] := by
  rw [locate_eq, note_singleton]
  rfl

lemma ref_eq (site : SiteId) (name : Token) (fn : Bool) :
    (if w.isPending name.lexeme then w.error .ownInitializer name else w).locate site name =
      w.note [⟨.expr (.ref site name), fn, w.scopes⟩] := by
  have hp : w.isPending name.lexeme = pendingIn w.scopes name.lexeme := rfl
  rw [hp, note_singleton, locate_eq, Visit.error?]
  cases h : pendingIn w.scopes name.lexeme <;> simp [h, Visit.entry?, Visit.use?, error]

end Walk

mutual

lemma visit_eq (fn : Bool) : ∀ (e : Expr) (w : Walk),
    visit e w = w.note (exprVisits fn w.scopes e)
  | .literal v, w => (w.note_of_none rfl rfl).symm
  | .grouping e, w => by
    rw [visit, exprVisits, Walk.note_cons, Walk.note_of_none w rfl rfl, visit_eq fn e w]
  | .unary op e, w => by
    rw [visit, exprVisits, Walk.note_cons, Walk.note_of_none w rfl rfl, visit_eq fn e w]
  | .binary a op b, w => by
    rw [visit, exprVisits, Walk.note_cons, Walk.note_of_none w rfl rfl, Walk.note_append,
      visit_eq fn a w, visit_eq fn b]
    rfl
  | .logical a op b, w => by
    rw [visit, exprVisits, Walk.note_cons, Walk.note_of_none w rfl rfl, Walk.note_append,
      visit_eq fn a w, visit_eq fn b]
    rfl
  | .ref site name, w => w.ref_eq site name fn
  | .assign site name e, w => by
    rw [visit, exprVisits, Walk.note_append, visit_eq fn e w, Walk.assign_eq _ site name fn e]
    rfl
  | .call f paren args, w => by
    rw [visit, exprVisits, Walk.note_cons, Walk.note_of_none w rfl rfl, Walk.note_append,
      visit_eq fn f w, visitList_eq fn args]
    rfl

lemma visitList_eq (fn : Bool) : ∀ (es : List Expr) (w : Walk),
    visitList es w = w.note (listVisits fn w.scopes es)
  | [], w => rfl
  | e :: rest, w => by
    rw [visitList, listVisits, Walk.note_append, visit_eq fn e w, visitList_eq fn rest]
    rfl

end

lemma visitOption_eq (fn : Bool) (e : Option Expr) (w : Walk) :
    visitOption e w = w.note (optionVisits fn w.scopes e) := by
  cases e with
  | none => rfl
  | some e => exact visit_eq fn e w

lemma foldl_declare (params : List Token) (w : Walk) :
    params.foldl (fun w p => (w.declare p).define p) w =
      w.withScopes (params.foldl (fun scopes p => declared p scopes) w.scopes) := by
  induction params generalizing w with
  | nil => rfl
  | cons p params ih =>
    rw [List.foldl_cons, List.foldl_cons, Walk.declare_define_eq, ih]
    rfl

mutual

lemma visitStmt_eq (fn : Bool) : ∀ (s : Stmt) (w : Walk),
    visitStmt fn s w = (w.note (stmtVisits fn w.scopes s)).withScopes (scopesAfter s w.scopes)
  | .expression e, w | .print e, w => by
    rw [visitStmt, stmtVisits, Walk.note_cons, Walk.note_of_none w rfl rfl, visit_eq fn e w]
    rfl
  | .var name e, w => by
    rw [visitStmt, stmtVisits, Walk.note_cons, Walk.note_of_none w rfl rfl, Walk.declare,
      Walk.enter_eq, visitOption_eq fn, Walk.define, Walk.enter_eq]
    rfl
  | .block body, w => by
    obtain ⟨scope, hs⟩ := scopesAfterAll_cons body [] w.scopes
    have ho : (w.openScope).scopes = [] :: w.scopes := rfl
    rw [visitStmt, stmtVisits, Walk.note_cons, Walk.note_of_none w rfl rfl, visitStmts_eq fn body,
      ho, hs]
    rfl
  | .ifThen c s, w | .loop c s, w => by
    rw [visitStmt, stmtVisits, Walk.note_cons, Walk.note_of_none w rfl rfl, Walk.note_append,
      visit_eq fn c w, visitStmt_eq fn s]
    rfl
  | .ifElse c s t, w => by
    rw [visitStmt, stmtVisits, Walk.note_cons, Walk.note_of_none w rfl rfl, Walk.note_append,
      Walk.note_append, visit_eq fn c w, visitStmt_eq fn s, visitStmt_eq fn t]
    rfl
  | .function name params body, w => by
    obtain ⟨scope, hp⟩ := paramScopes_cons params (declared name w.scopes)
    obtain ⟨scope', hs⟩ := scopesAfterAll_cons body scope (declared name w.scopes)
    have ho : ((w.withScopes (declared name w.scopes)).openScope).scopes =
      [] :: declared name w.scopes := rfl
    rw [visitStmt, stmtVisits, Walk.note_cons, Walk.note_of_none w rfl rfl,
      Walk.declare_define_eq, visitStmts_eq true body, foldl_declare, ho,
      Walk.scopes_withScopes, ← paramScopes, hp, hs]
    rfl
  | .ret keyword e, w => by
    rw [visitStmt, stmtVisits, Walk.note_cons, visitOption_eq fn]
    cases fn <;> rfl

lemma visitStmts_eq (fn : Bool) : ∀ (body : List Stmt) (w : Walk),
    visitStmts fn body w =
      (w.note (stmtsVisits fn w.scopes body)).withScopes (scopesAfterAll body w.scopes)
  | [], w => rfl
  | s :: rest, w => by
    rw [visitStmts, stmtsVisits, Walk.note_append, visitStmt_eq fn s, visitStmts_eq fn rest]
    rfl

end

theorem ofProgram_eq (program : List Stmt) :
    Binding.ofProgram program =
      ⟨(visits program).filterMap Visit.entry?, (visits program).filterMap Visit.error?⟩ := by
  rw [Binding.ofProgram, visitStmts_eq]
  simp [Walk.note, Walk.withScopes, Walk.start, visits]

lemma visits_append (a b : List Stmt) : visits (a ++ b) = visits a ++ visits b := by
  rw [visits, stmtsVisits_append, scopesAfterAll_nil]
  rfl

theorem ofProgram_append (a b : List Stmt) :
    Binding.ofProgram (a ++ b) =
      ⟨(Binding.ofProgram a).distances ++ (Binding.ofProgram b).distances,
        (Binding.ofProgram a).errors ++ (Binding.ofProgram b).errors⟩ := by
  simp only [ofProgram_eq, visits_append, List.filterMap_append]

end Lox.Binding
