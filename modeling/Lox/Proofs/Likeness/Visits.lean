import Lox.Proofs.Binding.Uses
import Lox.Proofs.Likeness.Syntax

/-! The walk over programs alike: the same sites get the same distances, and the same faults are
found. Renaming must not capture: names of two roles become equal only if they were. -/

namespace Lox.Likeness

open Binding

variable {Role : Type} (κ : Likeness Role)

structure EntryLike (r : Role) (a b : String × Bool) : Prop where
  known : κ.known a.1
  name : b.1 = κ.rename r a.1
  complete : b.2 = a.2

inductive ScopesLike : Context Role → List Scope → List Scope → Prop
  | nil {ctx} : ScopesLike ctx [] []
  | cons {ctx scope scope' outer outer'} : List.Forall₂ (κ.EntryLike (ctx 0)) scope scope' →
      ScopesLike (fun d => ctx (d + 1)) outer outer' →
      ScopesLike ctx (scope :: outer) (scope' :: outer')

def Settled (v : Visit) : Prop :=
  ∀ a x b d, v.use? = some (a, x) → κ.site a b d → d = distanceIn? v.scopes x.lexeme

structure VisitLike (v v' : Visit) : Prop where
  entry : Option.Rel (fun u u' => u'.2 = u.2 ∧ κ.site u.1 u'.1 (some u.2)) v.entry? v'.entry?
  error : v'.error?.map (·.fault) = v.error?.map (·.fault)

variable {κ} {ctx : Context Role} {scopes scopes' : List Scope}

lemma lookup_like {r : Role} {scope scope' : Scope} (h : List.Forall₂ (κ.EntryLike r) scope scope')
    {a : String} (ha : κ.known a) : scope'.lookup (κ.rename r a) = scope.lookup a := by
  induction h with
  | nil => rfl
  | @cons b b' _ _ hb _ ih =>
    obtain ⟨hk, hn, hc⟩ := hb
    rw [List.lookup_cons, List.lookup_cons, ih, hn, hc]
    by_cases hab : a = b.1
    · subst hab
      simp
    · have hne : κ.rename r a ≠ κ.rename r b.1 := fun h => hab (κ.rename_inj ha hk h)
      rw [beq_false_of_ne hab, beq_false_of_ne hne]

lemma lookup_like_none {r q : Role} {scope scope' : Scope}
    (h : List.Forall₂ (κ.EntryLike r) scope scope') {a : String} (ha : κ.known a)
    (hl : scope.lookup a = none) : scope'.lookup (κ.rename q a) = none := by
  induction h with
  | nil => rfl
  | @cons b b' _ _ hb _ ih =>
    obtain ⟨hk, hn, hc⟩ := hb
    rw [List.lookup_cons] at hl ⊢
    by_cases hab : a = b.1
    · simp [hab] at hl
    · have hne : κ.rename q a ≠ κ.rename r b.1 := fun h => hab (κ.rename_inj ha hk h)
      rw [beq_false_of_ne hab] at hl
      rw [hn, beq_false_of_ne hne]
      exact ih hl

lemma distance_like (h : κ.ScopesLike ctx scopes scopes') {a : String} (ha : κ.known a) :
    distanceIn? scopes' (κ.rename (κ.roleAt ctx (distanceIn? scopes a)) a) =
      distanceIn? scopes a := by
  unfold distanceIn?
  induction h with
  | nil => rfl
  | @cons ctx scope scope' outer outer' hs _ ih =>
    rw [List.findIdx?_cons, List.findIdx?_cons]
    cases hl : scope.lookup a with
    | some c =>
      have hl' := lookup_like hs ha
      rw [hl] at hl'
      simp [roleAt, hl']
    | none =>
      have hl' := lookup_like_none
        (q := κ.roleAt (fun d => ctx (d + 1)) (outer.findIdx? fun s => (s.lookup a).isSome)) hs ha
        hl
      have hr : κ.roleAt ctx ((outer.findIdx? fun s => (s.lookup a).isSome).map (· + 1)) =
          κ.roleAt (fun d => ctx (d + 1)) (outer.findIdx? fun s => (s.lookup a).isSome) := by
        cases outer.findIdx? fun s => (s.lookup a).isSome <;> rfl
      simp only [Option.isSome_none, Bool.false_eq_true, if_false]
      rw [hr, hl', ih]
      rfl

lemma pending_like (h : κ.ScopesLike ctx scopes scopes') {a : String} (ha : κ.known a) :
    pendingIn scopes' (κ.rename (κ.roleAt ctx (distanceIn? scopes a)) a) = pendingIn scopes a := by
  cases h with
  | nil => rfl
  | @cons _ scope scope' outer _ hs _ =>
    simp only [pendingIn, List.head?_cons, Option.any_some]
    cases hl : scope.lookup a with
    | some c =>
      have hd : distanceIn? (scope :: outer) a = some 0 := by
        simp [distanceIn?, List.findIdx?_cons, hl]
      have hl' := lookup_like hs ha
      rw [hd, roleAt, hl', hl]
    | none => rw [lookup_like_none hs ha hl]

lemma scopesLike_enter {x x' : Token} (hx : κ.NameLike (ctx 0) x x') (complete : Bool)
    (h : κ.ScopesLike ctx scopes scopes') :
    κ.ScopesLike ctx (enter x complete scopes) (enter x' complete scopes') := by
  cases h with
  | nil => exact .nil
  | cons hs ho => exact .cons (.cons ⟨hx.known, hx.lexeme, rfl⟩ hs) ho

lemma scopesLike_declared {x x' : Token} (hx : κ.NameLike (ctx 0) x x')
    (h : κ.ScopesLike ctx scopes scopes') :
    κ.ScopesLike ctx (declared x scopes) (declared x' scopes') :=
  scopesLike_enter hx true (scopesLike_enter hx false h)

lemma scopesLike_open (r : Role) (h : κ.ScopesLike ctx scopes scopes') :
    κ.ScopesLike (inner r ctx) ([] :: scopes) ([] :: scopes') :=
  .cons .nil h

lemma scopesLike_params {r : Role} {ps ps' : List Token} (hp : List.Forall₂ (κ.NameLike r) ps ps')
    (h : κ.ScopesLike ctx scopes scopes') :
    κ.ScopesLike (inner r ctx) (paramScopes ps scopes) (paramScopes ps' scopes') := by
  have hfold : ∀ {ss ss'}, κ.ScopesLike (inner r ctx) ss ss' →
      κ.ScopesLike (inner r ctx) (ps.foldl (fun scopes p => declared p scopes) ss)
        (ps'.foldl (fun scopes p => declared p scopes) ss') := by
    induction hp with
    | nil => exact fun h => h
    | cons hx _ ih => exact fun h => ih (scopesLike_declared hx h)
  exact hfold (scopesLike_open r h)

lemma scopesLike_after {s s' : Stmt} {fn : Bool} {scopes scopes' : List Scope}
    (hs : StmtLike κ fn ctx s s') (h : κ.ScopesLike ctx scopes scopes') :
    κ.ScopesLike ctx (scopesAfter s scopes) (scopesAfter s' scopes') := by
  cases hs with
  | var hx _ => exact scopesLike_declared hx h
  | function _ hf _ _ _ => exact scopesLike_declared hf h
  | ifThen _ hs | loop _ hs =>
    rw [scopesAfter, scopesAfter]
    exact scopesLike_after hs h
  | ifElse _ hs ht =>
    rw [scopesAfter, scopesAfter]
    exact scopesLike_after ht (scopesLike_after hs h)
  | expression | print | block | ret => exact h
termination_by sizeOf s

lemma visitLike_plain {n n' : Node} {fn : Bool}
    (hu : (Visit.mk n fn scopes).use? = none) (hu' : (Visit.mk n' fn scopes').use? = none)
    (he : (Visit.mk n fn scopes).error? = none) (he' : (Visit.mk n' fn scopes').error? = none) :
    κ.VisitLike ⟨n, fn, scopes⟩ ⟨n', fn, scopes'⟩ := by
  refine ⟨?_, by rw [he, he']⟩
  rw [Visit.entry?, Visit.entry?, hu, hu']
  exact .none

lemma entry_like (h : κ.ScopesLike ctx scopes scopes') {a b : SiteId} {x y : Token}
    {v v' : Visit} (hv : v.scopes = scopes) (hv' : v'.scopes = scopes') (hu : v.use? = some (a, x))
    (hu' : v'.use? = some (b, y)) (hs : κ.SiteLike ctx a x b y) (hd : κ.Settled v) :
    Option.Rel (fun u u' => u'.2 = u.2 ∧ κ.site u.1 u'.1 (some u.2)) v.entry? v'.entry? ∧
      y.lexeme = κ.rename (κ.roleAt ctx (distanceIn? scopes x.lexeme)) x.lexeme := by
  obtain ⟨d, hab, hn⟩ := hs
  obtain rfl : d = distanceIn? scopes x.lexeme := by rw [← hv]; exact hd a x b d hu hab
  refine ⟨?_, hn.lexeme⟩
  rw [Visit.entry?, Visit.entry?, hu, hu', hv, hv']
  simp only [Option.bind_some, hn.lexeme, distance_like h hn.known]
  cases hx : distanceIn? scopes x.lexeme with
  | none => exact .none
  | some d =>
    rw [hx] at hab
    exact .some ⟨rfl, hab⟩

lemma known_of_siteLike {a b : SiteId} {x y : Token} (h : κ.SiteLike ctx a x b y) :
    κ.known x.lexeme := by
  obtain ⟨_, _, hn⟩ := h
  exact hn.known

lemma refVisit_like (fn : Bool) (h : κ.ScopesLike ctx scopes scopes') {a b : SiteId}
    {x y : Token} (hs : κ.SiteLike ctx a x b y)
    (hd : κ.Settled ⟨.expr (.ref a x), fn, scopes⟩) :
    κ.VisitLike ⟨.expr (.ref a x), fn, scopes⟩ ⟨.expr (.ref b y), fn, scopes'⟩ := by
  have hu : (Visit.mk (.expr (.ref b y)) fn scopes').use? = some (b, y) := rfl
  obtain ⟨he, hn⟩ := entry_like h rfl rfl rfl hu hs hd
  have hp := pending_like h (known_of_siteLike hs)
  rw [← hn] at hp
  refine ⟨he, ?_⟩
  simp only [Visit.error?, hp]
  split <;> rfl

lemma assignVisit_like (fn : Bool) (h : κ.ScopesLike ctx scopes scopes') {a b : SiteId}
    {x y : Token} {e e' : Expr} (hs : κ.SiteLike ctx a x b y)
    (hd : κ.Settled ⟨.expr (.assign a x e), fn, scopes⟩) :
    κ.VisitLike ⟨.expr (.assign a x e), fn, scopes⟩ ⟨.expr (.assign b y e'), fn, scopes'⟩ := by
  have hu : (Visit.mk (.expr (.assign b y e')) fn scopes').use? = some (b, y) := rfl
  obtain ⟨he, _⟩ := entry_like h rfl rfl rfl hu hs hd
  exact ⟨he, rfl⟩

mutual

lemma exprVisits_like (fn : Bool) (h : κ.ScopesLike ctx scopes scopes') : ∀ {e e' : Expr},
    κ.ExprLike ctx e e' → (∀ v ∈ exprVisits fn scopes e, κ.Settled v) →
    List.Forall₂ κ.VisitLike (exprVisits fn scopes e) (exprVisits fn scopes' e')
  | _, _, .literal _, _ => .cons (visitLike_plain rfl rfl rfl rfl) .nil
  | _, _, .grouping he, hd =>
    .cons (visitLike_plain rfl rfl rfl rfl)
      (exprVisits_like fn h he fun v hv => hd v (List.mem_cons_of_mem _ hv))
  | _, _, .unary _ he, hd =>
    .cons (visitLike_plain rfl rfl rfl rfl)
      (exprVisits_like fn h he fun v hv => hd v (List.mem_cons_of_mem _ hv))
  | _, _, .binary ha _ hb, hd =>
    .cons (visitLike_plain rfl rfl rfl rfl) (List.rel_append
      (exprVisits_like fn h ha fun v hv =>
        hd v (List.mem_cons_of_mem _ (List.mem_append_left _ hv)))
      (exprVisits_like fn h hb fun v hv =>
        hd v (List.mem_cons_of_mem _ (List.mem_append_right _ hv))))
  | _, _, .logical ha _ hb, hd =>
    .cons (visitLike_plain rfl rfl rfl rfl) (List.rel_append
      (exprVisits_like fn h ha fun v hv =>
        hd v (List.mem_cons_of_mem _ (List.mem_append_left _ hv)))
      (exprVisits_like fn h hb fun v hv =>
        hd v (List.mem_cons_of_mem _ (List.mem_append_right _ hv))))
  | _, _, .ref hs, hd => .cons (refVisit_like fn h hs (hd _ (List.mem_singleton_self _))) .nil
  | _, _, .assign hs he, hd => List.rel_append
      (exprVisits_like fn h he fun v hv => hd v (List.mem_append_left _ hv))
      (.cons (assignVisit_like fn h hs (hd _ (List.mem_append_right _ (List.mem_singleton_self _))))
        .nil)
  | _, _, .call hf _ ha, hd =>
    .cons (visitLike_plain rfl rfl rfl rfl) (List.rel_append
      (exprVisits_like fn h hf fun v hv =>
        hd v (List.mem_cons_of_mem _ (List.mem_append_left _ hv)))
      (listVisits_like fn h ha fun v hv =>
        hd v (List.mem_cons_of_mem _ (List.mem_append_right _ hv))))

lemma listVisits_like (fn : Bool) (h : κ.ScopesLike ctx scopes scopes') : ∀ {es es' : List Expr},
    List.Forall₂ (κ.ExprLike ctx) es es' → (∀ v ∈ listVisits fn scopes es, κ.Settled v) →
    List.Forall₂ κ.VisitLike (listVisits fn scopes es) (listVisits fn scopes' es')
  | _, _, .nil, _ => .nil
  | _, _, .cons he hr, hd => List.rel_append
      (exprVisits_like fn h he fun v hv => hd v (List.mem_append_left _ hv))
      (listVisits_like fn h hr fun v hv => hd v (List.mem_append_right _ hv))

end

lemma optionVisits_like (fn : Bool) (h : κ.ScopesLike ctx scopes scopes') {e e' : Option Expr}
    (he : Option.Rel (κ.ExprLike ctx) e e')
    (hd : ∀ v ∈ optionVisits fn scopes e, κ.Settled v) :
    List.Forall₂ κ.VisitLike (optionVisits fn scopes e) (optionVisits fn scopes' e') := by
  cases he with
  | none => exact .nil
  | some he => exact exprVisits_like fn h he hd

mutual

lemma stmtVisits_like : ∀ {fn : Bool} {ctx : Context Role} {scopes scopes' : List Scope}
    {s s' : Stmt}, StmtLike κ fn ctx s s' → κ.ScopesLike ctx scopes scopes' →
    (∀ v ∈ stmtVisits fn scopes s, κ.Settled v) →
    List.Forall₂ κ.VisitLike (stmtVisits fn scopes s) (stmtVisits fn scopes' s')
  | fn, _, _, _, _, _, .expression he, h, hd =>
    .cons (visitLike_plain rfl rfl rfl rfl)
      (exprVisits_like fn h he fun v hv => hd v (List.mem_cons_of_mem _ hv))
  | fn, _, _, _, _, _, .print he, h, hd =>
    .cons (visitLike_plain rfl rfl rfl rfl)
      (exprVisits_like fn h he fun v hv => hd v (List.mem_cons_of_mem _ hv))
  | fn, _, _, _, _, _, .var hx he, h, hd =>
    .cons (visitLike_plain rfl rfl rfl rfl)
      (optionVisits_like fn (scopesLike_enter hx false h) he
        fun v hv => hd v (List.mem_cons_of_mem _ hv))
  | _, _, _, _, _, _, .block r hb, h, hd =>
    .cons (visitLike_plain rfl rfl rfl rfl)
      (stmtsVisits_like hb (scopesLike_open r h) fun v hv => hd v (List.mem_cons_of_mem _ hv))
  | fn, _, _, _, _, _, .ifThen hc hs, h, hd =>
    .cons (visitLike_plain rfl rfl rfl rfl) (List.rel_append
      (exprVisits_like fn h hc fun v hv =>
        hd v (List.mem_cons_of_mem _ (List.mem_append_left _ hv)))
      (stmtVisits_like hs h fun v hv =>
        hd v (List.mem_cons_of_mem _ (List.mem_append_right _ hv))))
  | fn, _, _, _, _, _, .loop hc hs, h, hd =>
    .cons (visitLike_plain rfl rfl rfl rfl) (List.rel_append
      (exprVisits_like fn h hc fun v hv =>
        hd v (List.mem_cons_of_mem _ (List.mem_append_left _ hv)))
      (stmtVisits_like hs h fun v hv =>
        hd v (List.mem_cons_of_mem _ (List.mem_append_right _ hv))))
  | fn, _, _, _, _, _, .ifElse hc hs ht, h, hd =>
    .cons (visitLike_plain rfl rfl rfl rfl) (List.rel_append
      (List.rel_append
        (exprVisits_like fn h hc fun v hv => hd v
          (List.mem_cons_of_mem _ (List.mem_append_left _ (List.mem_append_left _ hv))))
        (stmtVisits_like hs h fun v hv => hd v
          (List.mem_cons_of_mem _ (List.mem_append_left _ (List.mem_append_right _ hv)))))
      (stmtVisits_like ht (scopesLike_after hs h) fun v hv =>
        hd v (List.mem_cons_of_mem _ (List.mem_append_right _ hv))))
  | _, _, _, _, _, _, .function _ hf _ hp hb, h, hd =>
    .cons (visitLike_plain rfl rfl rfl rfl)
      (stmtsVisits_like hb (scopesLike_params hp (scopesLike_declared hf h))
        fun v hv => hd v (List.mem_cons_of_mem _ hv))
  | _, _, _, _, _, _, .ret he, h, hd =>
    .cons (visitLike_plain rfl rfl rfl rfl)
      (optionVisits_like true h he fun v hv => hd v (List.mem_cons_of_mem _ hv))

lemma stmtsVisits_like : ∀ {fn : Bool} {ctx : Context Role} {scopes scopes' : List Scope}
    {b b' : List Stmt}, StmtsLike κ fn ctx b b' → κ.ScopesLike ctx scopes scopes' →
    (∀ v ∈ stmtsVisits fn scopes b, κ.Settled v) →
    List.Forall₂ κ.VisitLike (stmtsVisits fn scopes b) (stmtsVisits fn scopes' b')
  | _, _, _, _, _, _, .nil, _, _ => .nil
  | _, _, _, _, _, _, .cons hs hb, h, hd => List.rel_append
      (stmtVisits_like hs h fun v hv => hd v (List.mem_append_left _ hv))
      (stmtsVisits_like hb (scopesLike_after hs h) fun v hv => hd v (List.mem_append_right _ hv))

end

lemma errors_like {vs vs' : List Visit} (h : List.Forall₂ κ.VisitLike vs vs') :
    (vs'.filterMap Visit.error?).map (·.fault) = (vs.filterMap Visit.error?).map (·.fault) := by
  rw [List.map_filterMap, List.map_filterMap]
  induction h with
  | nil => rfl
  | cons hx _ ih => simp only [List.filterMap_cons, hx.error, ih]

theorem ofProgram_like {p p' : List Stmt} (h : StmtsLike κ false κ.outside p p')
    (hd : ∀ v ∈ visits p, κ.Settled v) :
    List.Forall₂ (fun u u' => u'.2 = u.2 ∧ κ.site u.1 u'.1 (some u.2))
        (Binding.ofProgram p).distances (Binding.ofProgram p').distances ∧
      (Binding.ofProgram p').errors.map (·.fault) = (Binding.ofProgram p).errors.map (·.fault) := by
  have hv := stmtsVisits_like h .nil hd
  rw [ofProgram_eq, ofProgram_eq]
  exact ⟨List.rel_filterMap (fun _ _ hv => hv.entry) hv, errors_like hv⟩

theorem ofProgram_like_same {p p' : List Stmt} (h : StmtsLike κ false κ.outside p p')
    (hd : ∀ v ∈ visits p, κ.Settled v) (hsite : ∀ {a b d}, κ.site a b d → b = a)
    (hp : (Binding.ofProgram p).errors = []) :
    (Binding.ofProgram p').distances = (Binding.ofProgram p).distances ∧
      (Binding.ofProgram p').errors = [] := by
  obtain ⟨hdistances, herrors⟩ := ofProgram_like h hd
  constructor
  · refine (List.forall₂_eq_eq_eq ▸ hdistances.imp ?_ : _ = _).symm
    rintro ⟨a, d⟩ ⟨b, d'⟩ ⟨hd, hs⟩
    exact Prod.ext (hsite hs).symm hd.symm
  · rwa [hp, List.map_nil, List.map_eq_nil_iff] at herrors

end Lox.Likeness
