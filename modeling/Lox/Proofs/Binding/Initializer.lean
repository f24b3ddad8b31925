import Lox.Proofs.Binding.Complete

/-! Where the walk has declared a name in the innermost scope and not completed it, it is in the
initializer of that name. -/

namespace Lox.Binding

variable {scopes : List Scope} {name : String}

lemma not_pendingIn (h : Complete scopes) : ¬ pendingIn scopes name = true := by
  cases scopes with
  | nil => nofun
  | cons scope outer =>
    have hl := h scope List.mem_cons_self name
    simpa [pendingIn] using hl

lemma name_of_pendingIn {x : Token} (h : ¬ pendingIn scopes name = true)
    (hp : pendingIn (enter x false scopes) name = true) : x.lexeme = name := by
  cases scopes with
  | nil => cases hp
  | cons scope outer =>
    by_contra hne
    have hlookup : ((x.lexeme, false) :: scope).lookup name = scope.lookup name := by
      rw [List.lookup_cons, beq_false_of_ne (Ne.symm hne)]
    simp only [pendingIn, enter, List.head?_cons, Option.any_some, hlookup] at h hp
    exact h hp

lemma distanceIn?_of_pendingIn (hp : pendingIn scopes name = true) :
    distanceIn? scopes name = some 0 := by
  cases scopes with
  | nil => cases hp
  | cons scope outer =>
    have hl : scope.lookup name = some false := by simpa [pendingIn] using hp
    simp [distanceIn?, List.findIdx?_cons, hl]

def InInitializer (vs : List Visit) (name : String) (v : Visit) : Prop :=
  ∃ x e fn outer, x.lexeme = name ∧ ⟨.stmt (.var x (some e)), fn, outer⟩ ∈ vs ∧
    v ∈ exprVisits fn (enter x false outer) e

lemma InInitializer.mono {vs us : List Visit} {v : Visit} (hs : vs ⊆ us)
    (h : InInitializer vs name v) : InInitializer us name v := by
  obtain ⟨x, e, fn, outer, hx, hv, he⟩ := h
  exact ⟨x, e, fn, outer, hx, hs hv, he⟩

lemma not_pendingIn_of_exprVisit {fn : Bool} {e : Expr} {v : Visit} (hc : Complete scopes)
    (hv : v ∈ exprVisits fn scopes e) : ¬ pendingIn v.scopes name = true := by
  rw [scopes_exprVisits hv]
  exact not_pendingIn hc

mutual

lemma initializer_of_stmtVisit : ∀ {fn : Bool} {scopes : List Scope} {s : Stmt} {v : Visit},
    Complete scopes → v ∈ stmtVisits fn scopes s → pendingIn v.scopes name = true →
      InInitializer (stmtVisits fn scopes s) name v
  | fn, scopes, .var x e, v, hc, hv, hp => by
    rcases List.mem_cons.1 hv with rfl | hv
    · exact absurd hp (not_pendingIn hc)
    cases e with
    | none => cases hv
    | some e =>
      rw [scopes_optionVisits hv] at hp
      have hx := name_of_pendingIn (not_pendingIn hc) hp
      exact ⟨x, e, fn, scopes, hx, List.mem_cons_self, hv⟩
  | fn, scopes, .block _, v, hc, hv, hp => by
    rcases List.mem_cons.1 hv with rfl | hv
    · exact absurd hp (not_pendingIn hc)
    · exact (initializer_of_stmtsVisit hc.open hv hp).mono (List.subset_cons_self _ _)
  | fn, scopes, .function x params _, v, hc, hv, hp => by
    rcases List.mem_cons.1 hv with rfl | hv
    · exact absurd hp (not_pendingIn hc)
    · have hinner := initializer_of_stmtsVisit ((hc.declared x).params params) hv hp
      exact hinner.mono (List.subset_cons_self _ _)
  | fn, scopes, .ifThen c s, v, hc, hv, hp | fn, scopes, .loop c s, v, hc, hv, hp => by
    rcases List.mem_cons.1 hv with rfl | hv
    · exact absurd hp (not_pendingIn hc)
    rcases List.mem_append.1 hv with hv | hv
    · exact absurd hp (not_pendingIn_of_exprVisit hc hv)
    · refine (initializer_of_stmtVisit hc hv hp).mono fun u hu => ?_
      exact List.mem_cons_of_mem _ (List.mem_append_right _ hu)
  | fn, scopes, .ifElse c s t, v, hc, hv, hp => by
    rcases List.mem_cons.1 hv with rfl | hv
    · exact absurd hp (not_pendingIn hc)
    rcases List.mem_append.1 hv with hv | hv
    · rcases List.mem_append.1 hv with hv | hv
      · exact absurd hp (not_pendingIn_of_exprVisit hc hv)
      · refine (initializer_of_stmtVisit hc hv hp).mono fun u hu => ?_
        exact List.mem_cons_of_mem _ (List.mem_append_left _ (List.mem_append_right _ hu))
    · refine (initializer_of_stmtVisit (hc.after s) hv hp).mono fun u hu => ?_
      exact List.mem_cons_of_mem _ (List.mem_append_right _ hu)
  | fn, scopes, .expression e, v, hc, hv, hp | fn, scopes, .print e, v, hc, hv, hp => by
    rcases List.mem_cons.1 hv with rfl | hv
    · exact absurd hp (not_pendingIn hc)
    · exact absurd hp (not_pendingIn_of_exprVisit hc hv)
  | fn, scopes, .ret _ e, v, hc, hv, hp => by
    rcases List.mem_cons.1 hv with rfl | hv
    · exact absurd hp (not_pendingIn hc)
    · rw [scopes_optionVisits hv] at hp
      exact absurd hp (not_pendingIn hc)

lemma initializer_of_stmtsVisit : ∀ {fn : Bool} {scopes : List Scope} {b : List Stmt} {v : Visit},
    Complete scopes → v ∈ stmtsVisits fn scopes b → pendingIn v.scopes name = true →
      InInitializer (stmtsVisits fn scopes b) name v
  | _, _, [], _, _, hv, _ => absurd hv List.not_mem_nil
  | fn, scopes, s :: b, v, hc, hv, hp => by
    rcases List.mem_append.1 hv with hv | hv
    · exact (initializer_of_stmtVisit hc hv hp).mono (List.subset_append_left _ _)
    · have hrest := initializer_of_stmtsVisit (hc.after s) hv hp
      exact hrest.mono (List.subset_append_right _ _)

end

theorem initializer_of_pendingIn {program : List Stmt} {v : Visit} (hv : v ∈ visits program)
    (hp : pendingIn v.scopes name = true) : InInitializer (visits program) name v :=
  initializer_of_stmtsVisit .nil hv hp

end Lox.Binding
