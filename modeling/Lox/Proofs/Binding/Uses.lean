import Lox.Proofs.Binding.Visits

/-! The variable sites of a tree, the names in it, and the `return`s that no function encloses. -/

namespace Lox

mutual

def Expr.uses : Expr → List (SiteId × Token)
  | .literal _ => []
  | .grouping e | .unary _ e => e.uses
  | .binary a _ b | .logical a _ b => a.uses ++ b.uses
  | .ref site name => [(site, name)]
  | .assign site name e => e.uses ++ [(site, name)]
  | .call f _ args => f.uses ++ Expr.listUses args

def Expr.listUses : List Expr → List (SiteId × Token)
  | [] => []
  | e :: rest => e.uses ++ Expr.listUses rest

end

def Expr.optionUses : Option Expr → List (SiteId × Token)
  | none => []
  | some e => e.uses

mutual

def Stmt.uses : Stmt → List (SiteId × Token)
  | .expression e | .print e => e.uses
  | .var _ e | .ret _ e => Expr.optionUses e
  | .block body | .function _ _ body => Stmt.listUses body
  | .ifThen c s | .loop c s => c.uses ++ s.uses
  | .ifElse c s t => c.uses ++ s.uses ++ t.uses

def Stmt.listUses : List Stmt → List (SiteId × Token)
  | [] => []
  | s :: rest => s.uses ++ Stmt.listUses rest

end

mutual

def Stmt.binders : Stmt → List Token
  | .expression _ | .print _ | .ret _ _ => []
  | .var name _ => [name]
  | .block body => Stmt.listBinders body
  | .ifThen _ s | .loop _ s => s.binders
  | .ifElse _ s t => s.binders ++ t.binders
  | .function name params body => name :: (params ++ Stmt.listBinders body)

def Stmt.listBinders : List Stmt → List Token
  | [] => []
  | s :: rest => s.binders ++ Stmt.listBinders rest

end

mutual

def Stmt.strays : Stmt → List Token
  | .expression _ | .print _ | .var _ _ | .function _ _ _ => []
  | .block body => Stmt.listStrays body
  | .ifThen _ s | .loop _ s => s.strays
  | .ifElse _ s t => s.strays ++ t.strays
  | .ret keyword _ => [keyword]

def Stmt.listStrays : List Stmt → List Token
  | [] => []
  | s :: rest => s.strays ++ Stmt.listStrays rest

end

def Stmt.listNames (program : List Stmt) : List String :=
  (Stmt.listBinders program).map (·.lexeme) ++ (Stmt.listUses program).map (·.2.lexeme)

namespace Binding

mutual

lemma uses_exprVisits (fn : Bool) (scopes : List Scope) : ∀ e : Expr,
    (exprVisits fn scopes e).filterMap Visit.use? = e.uses
  | .literal _ => rfl
  | .grouping e | .unary _ e => uses_exprVisits fn scopes e
  | .binary a _ b | .logical a _ b => by
    have ha := uses_exprVisits fn scopes a
    have hb := uses_exprVisits fn scopes b
    rw [exprVisits, List.filterMap_cons_none rfl, List.filterMap_append, ha, hb, Expr.uses]
  | .ref _ _ => rfl
  | .assign _ _ e => by
    have he := uses_exprVisits fn scopes e
    rw [exprVisits, List.filterMap_append, he]
    rfl
  | .call f _ args => by
    have hf := uses_exprVisits fn scopes f
    have ha := uses_listVisits fn scopes args
    rw [exprVisits, List.filterMap_cons_none rfl, List.filterMap_append, hf, ha, Expr.uses]

lemma uses_listVisits (fn : Bool) (scopes : List Scope) : ∀ es : List Expr,
    (listVisits fn scopes es).filterMap Visit.use? = Expr.listUses es
  | [] => rfl
  | e :: rest => by
    have he := uses_exprVisits fn scopes e
    have hr := uses_listVisits fn scopes rest
    rw [listVisits, List.filterMap_append, he, hr, Expr.listUses]

end

lemma uses_optionVisits (fn : Bool) (scopes : List Scope) (e : Option Expr) :
    (optionVisits fn scopes e).filterMap Visit.use? = Expr.optionUses e := by
  cases e with
  | none => rfl
  | some e => exact uses_exprVisits fn scopes e

mutual

lemma uses_stmtVisits (fn : Bool) : ∀ (s : Stmt) (scopes : List Scope),
    (stmtVisits fn scopes s).filterMap Visit.use? = s.uses
  | .expression e, scopes | .print e, scopes => uses_exprVisits fn scopes e
  | .var name e, scopes => uses_optionVisits fn (enter name false scopes) e
  | .ret _ e, scopes => uses_optionVisits fn scopes e
  | .block body, scopes => uses_stmtsVisits fn body ([] :: scopes)
  | .function name params body, scopes =>
    uses_stmtsVisits true body (paramScopes params (declared name scopes))
  | .ifThen c s, scopes | .loop c s, scopes => by
    have hc := uses_exprVisits fn scopes c
    have hs := uses_stmtVisits fn s scopes
    rw [stmtVisits, List.filterMap_cons_none rfl, List.filterMap_append, hc, hs, Stmt.uses]
  | .ifElse c s t, scopes => by
    have hc := uses_exprVisits fn scopes c
    have hs := uses_stmtVisits fn s scopes
    have ht := uses_stmtVisits fn t (scopesAfter s scopes)
    rw [stmtVisits, List.filterMap_cons_none rfl, List.filterMap_append, List.filterMap_append, hc,
      hs, ht, Stmt.uses]

lemma uses_stmtsVisits (fn : Bool) : ∀ (body : List Stmt) (scopes : List Scope),
    (stmtsVisits fn scopes body).filterMap Visit.use? = Stmt.listUses body
  | [], _ => rfl
  | s :: rest, scopes => by
    have hs := uses_stmtVisits fn s scopes
    have hr := uses_stmtsVisits fn rest (scopesAfter s scopes)
    rw [stmtsVisits, List.filterMap_append, hs, hr, Stmt.listUses]

end

lemma uses_visits (program : List Stmt) :
    (visits program).filterMap Visit.use? = Stmt.listUses program :=
  uses_stmtsVisits false program []

lemma mem_uses_of_visit {program : List Stmt} {v : Visit} (hv : v ∈ visits program)
    {site : SiteId} {name : Token} (hu : v.use? = some (site, name)) :
    site ∈ (Stmt.listUses program).map Prod.fst := by
  rw [← uses_visits]
  exact List.mem_map_of_mem (List.mem_filterMap.2 ⟨v, hv, hu⟩)

mutual

lemma strays_stmtVisits : ∀ (s : Stmt) (scopes : List Scope),
    (∀ v ∈ stmtVisits false scopes s, v.error? = none) → s.strays = []
  | .expression _, _, _ | .print _, _, _ | .var _ _, _, _ | .function _ _ _, _, _ => rfl
  | .ret keyword e, scopes, h => by
    have hr := h ⟨.stmt (.ret keyword e), false, scopes⟩ (by simp [stmtVisits])
    simp [Visit.error?] at hr
  | .block body, scopes, h =>
    strays_stmtsVisits body _ fun v hv => h v (List.mem_cons_of_mem _ hv)
  | .ifThen _ s, scopes, h | .loop _ s, scopes, h =>
    strays_stmtVisits s scopes fun v hv =>
      h v (List.mem_cons_of_mem _ (List.mem_append_right _ hv))
  | .ifElse c s t, scopes, h => by
    have hs := strays_stmtVisits s scopes fun v hv => h v (by simp [stmtVisits, hv])
    have ht := strays_stmtVisits t (scopesAfter s scopes) fun v hv => h v (by simp [stmtVisits, hv])
    rw [Stmt.strays, hs, ht]
    rfl

lemma strays_stmtsVisits : ∀ (body : List Stmt) (scopes : List Scope),
    (∀ v ∈ stmtsVisits false scopes body, v.error? = none) → Stmt.listStrays body = []
  | [], _, _ => rfl
  | s :: rest, scopes, h => by
    have hs := strays_stmtVisits s scopes fun v hv => h v (List.mem_append_left _ hv)
    have hr := strays_stmtsVisits rest (scopesAfter s scopes) fun v hv =>
      h v (List.mem_append_right _ hv)
    rw [Stmt.listStrays, hs, hr]
    rfl

end

lemma strays_of_accepted {program : List Stmt} (h : (Binding.ofProgram program).errors = []) :
    Stmt.listStrays program = [] := by
  rw [ofProgram_eq] at h
  refine strays_stmtsVisits program [] fun v hv => ?_
  exact List.filterMap_eq_nil_iff.1 h v hv

def recorded (program : List Stmt) (site : SiteId) : Option Nat :=
  (Binding.ofProgram program).distances.lookup site

lemma entries_sublist (vs : List Visit) :
    ((vs.filterMap Visit.entry?).map Prod.fst).Sublist
      ((vs.filterMap Visit.use?).map Prod.fst) := by
  induction vs with
  | nil => exact .slnil
  | cons v vs ih =>
    cases hu : v.use? with
    | none =>
      have hentry : v.entry? = none := by
        rw [Visit.entry?, hu]
        rfl
      rwa [List.filterMap_cons_none hu, List.filterMap_cons_none hentry]
    | some u =>
      rw [List.filterMap_cons_some hu, List.map_cons]
      cases hd : distanceIn? v.scopes u.2.lexeme with
      | none =>
        rw [List.filterMap_cons_none (by simp [Visit.entry?, hu, hd])]
        exact ih.cons _
      | some d =>
        have he : v.entry? = some (u.1, d) := by simp [Visit.entry?, hu, hd]
        rw [List.filterMap_cons_some he, List.map_cons]
        exact ih.cons_cons _

lemma distances_nodup {program : List Stmt} (hn : ((Stmt.listUses program).map Prod.fst).Nodup) :
    ((Binding.ofProgram program).distances.map Prod.fst).Nodup := by
  rw [← uses_visits] at hn
  rw [ofProgram_eq]
  exact hn.sublist (entries_sublist _)

lemma use_of_entry {vs : List Visit} {site : SiteId} {d : Nat}
    (h : (site, d) ∈ vs.filterMap Visit.entry?) :
    site ∈ (vs.filterMap Visit.use?).map Prod.fst :=
  (entries_sublist vs).subset (List.mem_map_of_mem h)

lemma lookup_entries {vs : List Visit} (hn : ((vs.filterMap Visit.use?).map Prod.fst).Nodup)
    {v : Visit} (hv : v ∈ vs) {site : SiteId} {name : Token} (hu : v.use? = some (site, name)) :
    (vs.filterMap Visit.entry?).lookup site = distanceIn? v.scopes name.lexeme := by
  induction vs with
  | nil => cases hv
  | cons u vs ih =>
    have hentry : v.entry? = (distanceIn? v.scopes name.lexeme).map (site, ·) := by
      rw [Visit.entry?, hu]
      rfl
    cases hx : u.use? with
    | none =>
      have hne : v ≠ u := by
        rintro rfl
        simp [hu] at hx
      rw [List.filterMap_cons_none hx] at hn
      rw [List.filterMap_cons_none (by rw [Visit.entry?, hx]; rfl)]
      exact ih hn ((List.mem_cons.1 hv).resolve_left hne)
    | some use =>
      rw [List.filterMap_cons_some hx, List.map_cons, List.nodup_cons] at hn
      obtain ⟨hfresh, hn⟩ := hn
      rcases List.mem_cons.1 hv with rfl | hv
      · obtain rfl := Option.some.inj (hu.symm.trans hx)
        cases hd : distanceIn? v.scopes name.lexeme with
        | some d =>
          rw [List.filterMap_cons_some (hentry.trans (by rw [hd]; rfl))]
          simp
        | none =>
          rw [List.filterMap_cons_none (hentry.trans (by rw [hd]; rfl)), List.lookup_eq_none_iff]
          rintro ⟨a, d⟩ ha
          have hmem := use_of_entry ha
          exact bne_iff_ne.2 fun h : site = a => hfresh (h ▸ hmem)
      · have hne : site ≠ use.1 := by
          intro h
          have hmem : site ∈ (vs.filterMap Visit.use?).map Prod.fst :=
            List.mem_map_of_mem (List.mem_filterMap.2 ⟨v, hv, hu⟩)
          exact hfresh (h ▸ hmem)
        cases hd : u.entry? with
        | none =>
          rw [List.filterMap_cons_none hd]
          exact ih hn hv
        | some entry =>
          have hkey : entry.1 = use.1 := by
            rw [Visit.entry?, hx] at hd
            obtain ⟨_, _, rfl⟩ := Option.map_eq_some_iff.1 hd
            rfl
          rw [List.filterMap_cons_some hd, List.lookup_cons, hkey, beq_false_of_ne hne]
          exact ih hn hv

theorem recorded_of_visit {program : List Stmt}
    (hn : ((Stmt.listUses program).map Prod.fst).Nodup) {v : Visit} (hv : v ∈ visits program)
    {site : SiteId} {name : Token} (hu : v.use? = some (site, name)) :
    recorded program site = distanceIn? v.scopes name.lexeme := by
  rw [← uses_visits] at hn
  rw [recorded, ofProgram_eq]
  exact lookup_entries hn hv hu

end Binding

end Lox
