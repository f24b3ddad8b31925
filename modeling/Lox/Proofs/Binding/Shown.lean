import Lox.Proofs.Binding.Initializer
import Lox.Proofs.Binding.Place
import Mathlib.Data.List.Forall2

/-! The walk over a program visits each place of it once, with scopes that have the names declared
before the place. -/

namespace Lox.Binding

def Shows (a : Around) (scope : Scope) : Prop :=
  ∀ name, (scope.lookup name).isSome ↔ name ∈ a.names

structure ExprShown (around : List Around) (fn : Bool) (scopes : List Scope) : Prop where
  function : fn = around.any (·.params?.isSome)
  names : List.Forall₂ Shows around scopes
  pending : ∀ name, pendingIn scopes name = around.head?.any (·.initializes name)

structure StmtShown (around : List Around) (s : Stmt) (fn : Bool) (scopes : List Scope) :
    Prop where
  function : fn = around.any (·.params?.isSome)
  names : List.Forall₂ Shows around (scopesAfter s scopes)
  complete : Complete scopes
  placed : s.Placed
  own : ∀ a ∈ around.head?, ∃ t, a.statement? = some t ∧
    (t = s ∨ t.isDeclaration = false ∧ s.isDeclaration = false)

inductive Visited : Place → List Visit → Prop
  | expr {around e fn scopes} : ExprShown around fn scopes →
      Visited ⟨around, .expr e⟩ (exprVisits fn scopes e)
  | stmt {around s fn scopes} : StmtShown around s fn scopes →
      Visited ⟨around, .stmt s⟩ (stmtVisits fn scopes s)

structure Agrees (π : Place) (v : Visit) : Prop where
  node : v.node = π.node
  depth : v.scopes.length = π.around.length
  error : v.error? = π.error?
  distance : ∀ site name, v.use? = some (site, name) →
    distanceIn? v.scopes name.lexeme = π.around.findIdx? (name.lexeme ∈ ·.names)

section

variable {around : List Around} {scopes outer : List Scope} {scope scope' : Scope} {a : Around}
  {name : String} {x : Token}

lemma Shows.congr (h : Shows a scope)
    (hs : ∀ name, (scope'.lookup name).isSome = (scope.lookup name).isSome) : Shows a scope' :=
  fun name => by rw [hs]; exact h name

lemma findIdx?_of_shows (h : List.Forall₂ Shows around scopes) :
    distanceIn? scopes name = around.findIdx? (name ∈ ·.names) := by
  induction h with
  | nil => rfl
  | cons ha _ ih =>
    rw [distanceIn?] at ih
    rw [distanceIn?, List.findIdx?_cons, List.findIdx?_cons, ih]
    have hb := Bool.eq_iff_iff.2 ((ha name).trans decide_eq_true_iff.symm)
    rw [hb]

lemma shows_enter (h : List.Forall₂ Shows around (declared x scopes)) :
    List.Forall₂ Shows around (enter x false scopes) := by
  cases scopes with
  | nil => exact h
  | cons scope outer =>
    cases h with
    | cons ha hs =>
      refine .cons (ha.congr fun name => ?_) hs
      simp only [isSome_lookup_cons]
      cases name == x.lexeme <;> rfl

lemma declared_cons (x : Token) (scope : Scope) (outer : List Scope) :
    ∃ scope', declared x (scope :: outer) = scope' :: outer ∧
      ∀ name, (scope'.lookup name).isSome = (name == x.lexeme || (scope.lookup name).isSome) := by
  refine ⟨_, rfl, fun name => ?_⟩
  simp only [isSome_lookup_cons]
  cases name == x.lexeme <;> rfl

def Entered (xs : List Token) (scope scope' : Scope) : Prop :=
  ∀ name, (scope'.lookup name).isSome ↔
    (scope.lookup name).isSome ∨ name ∈ xs.map (·.lexeme)

lemma Entered.refl (scope : Scope) : Entered [] scope scope := by simp [Entered]

lemma Entered.cons {xs : List Token} {mid : Scope}
    (h : ∀ name, (mid.lookup name).isSome = (name == x.lexeme || (scope.lookup name).isSome))
    (hr : Entered xs mid scope') : Entered (x :: xs) scope scope' := by
  intro name
  rw [hr name, h name, List.map_cons, List.mem_cons, Bool.or_eq_true, beq_iff_eq]
  tauto

lemma paramScopes_entered (params : List Token) (scopes : List Scope) :
    ∃ scope, paramScopes params scopes = scope :: scopes ∧ Entered params [] scope := by
  have hfold : ∀ scope : Scope, ∃ scope',
      params.foldl (fun scopes p => declared p scopes) (scope :: scopes) = scope' :: scopes ∧
        Entered params scope scope' := by
    induction params with
    | nil => exact fun scope => ⟨scope, rfl, .refl _⟩
    | cons p params ih =>
      intro scope
      obtain ⟨mid, hm, hl⟩ := declared_cons p scope scopes
      obtain ⟨scope', hs, he⟩ := ih mid
      exact ⟨scope', by rw [List.foldl_cons, hm, hs], .cons hl he⟩
  exact hfold []

lemma scopesAfterAll_entered {body : List Stmt} (hp : Stmt.ListPlaced body) (scope : Scope)
    (outer : List Scope) : ∃ scope', scopesAfterAll body (scope :: outer) = scope' :: outer ∧
      Entered (body.filterMap Stmt.declared?) scope scope' := by
  induction body generalizing scope with
  | nil => exact ⟨scope, rfl, .refl _⟩
  | cons s body ih =>
    obtain ⟨hs, hb⟩ := hp
    have hdecl : ∀ x, s.declared? = some x → scopesAfter s (scope :: outer) =
        declared x (scope :: outer) → ∃ scope', scopesAfterAll (s :: body) (scope :: outer) =
          scope' :: outer ∧ Entered ((s :: body).filterMap Stmt.declared?) scope scope' := by
      intro x hx ha
      obtain ⟨mid, hm, hl⟩ := declared_cons x scope outer
      obtain ⟨scope', hs, he⟩ := ih hb mid
      refine ⟨scope', by rw [scopesAfterAll, List.foldl_cons, ha, hm]; exact hs, ?_⟩
      rw [List.filterMap_cons_some hx]
      exact .cons hl he
    cases hd : s.isDeclaration with
    | false =>
      obtain ⟨scope', he, hn⟩ := ih hb scope
      refine ⟨scope', ?_, ?_⟩
      · rw [scopesAfterAll, List.foldl_cons, scopesAfter_eq hs hd]
        exact he
      · rw [List.filterMap_cons_none (by cases s <;> first | rfl | cases hd)]
        exact hn
    | true =>
      cases s with
      | var x e => exact hdecl x rfl rfl
      | function x params b => exact hdecl x rfl rfl
      | _ => cases hd

end

lemma Complete.afterAll {scopes : List Scope} (body : List Stmt) (h : Complete scopes) :
    Complete (scopesAfterAll body scopes) := by
  induction body generalizing scopes with
  | nil => exact h
  | cons s body ih => exact ih (h.after s)

lemma names_at {params? : Option (List Token)} {before rest : List Stmt} {s : Stmt}
    {start scope : Scope} (hstart : Entered (params?.getD []) [] start)
    (h : Entered ((before ++ [s]).filterMap Stmt.declared?) start scope) :
    Shows ⟨params?, before ++ s :: rest, before.length⟩ scope := by
  intro name
  have htake : (before ++ s :: rest).take (before.length + 1) = before ++ [s] := by
    rw [List.take_length_add_append]
    rfl
  rw [h name, hstart name, Around.names, htake, List.map_append, List.mem_append, Around.params]
  simp

lemma inScope_visited {around : List Around} {params? : Option (List Token)} {body : List Stmt}
    {fn : Bool} {start : Scope} {scopes : List Scope}
    (hf : fn = (params?.isSome || around.any (·.params?.isSome)))
    (hstart : Entered (params?.getD []) [] start) (houter : List.Forall₂ Shows around scopes)
    (hc : Complete (start :: scopes)) (hp : Stmt.ListPlaced body) :
    ∃ vss, List.Forall₂ Visited (Place.inScope around params? body) vss ∧
      stmtsVisits fn (start :: scopes) body = vss.flatten := by
  -- induction on what remains of the list, after the statements before it
  have hrest : ∀ before rest, body = before ++ rest → ∃ vss,
      List.Forall₂ Visited
        (rest.mapIdx fun i s => ⟨⟨params?, body, before.length + i⟩ :: around, .stmt s⟩) vss ∧
      stmtsVisits fn (scopesAfterAll before (start :: scopes)) rest = vss.flatten := by
    intro before rest hb
    induction rest generalizing before with
    | nil => exact ⟨[], .nil, rfl⟩
    | cons s rest ih =>
      obtain ⟨vss, hvs, hv⟩ := ih (before ++ [s]) (by rw [hb, List.append_assoc]; rfl)
      have hsplit := Stmt.listPlaced_append.1 (hb ▸ hp)
      have hone : Stmt.ListPlaced (before ++ [s]) :=
        Stmt.listPlaced_append.2 ⟨hsplit.1, hsplit.2.1, trivial⟩
      obtain ⟨scope, ha, he⟩ := scopesAfterAll_entered hone start scopes
      have hafter : scopesAfterAll (before ++ [s]) (start :: scopes) =
          scopesAfter s (scopesAfterAll before (start :: scopes)) := by
        rw [scopesAfterAll, List.foldl_append]
        rfl
      have hshown : StmtShown (⟨params?, body, before.length⟩ :: around) s fn
          (scopesAfterAll before (start :: scopes)) := by
        refine ⟨hf, ?_, hc.afterAll before, hsplit.2.1, ?_⟩
        · rw [← hafter, ha, hb]
          exact .cons (names_at hstart he) houter
        · rintro _ ⟨⟩
          exact ⟨s, by rw [Around.statement?, hb]; simp, .inl rfl⟩
      refine ⟨stmtVisits fn (scopesAfterAll before (start :: scopes)) s :: vss, ?_, ?_⟩
      · rw [List.mapIdx_cons]
        refine .cons (.stmt hshown) ?_
        rw [List.length_append, List.length_singleton] at hvs
        simpa only [Nat.add_assoc, Nat.add_comm 1] using hvs
      · rw [stmtsVisits, ← hafter, hv, List.flatten_cons]
  obtain ⟨vss, hvs, hv⟩ := hrest [] body rfl
  exact ⟨vss, by simpa [Place.inScope] using hvs, hv⟩

section

variable {around : List Around} {fn : Bool} {scopes : List Scope} {s t : Stmt} {e : Expr}

lemma StmtShown.scopesAfter (h : StmtShown around s fn scopes) (hd : s.isDeclaration = false) :
    List.Forall₂ Shows around scopes := by
  have hs : Binding.scopesAfter s scopes = scopes := scopesAfter_eq h.placed hd
  rw [← hs]
  exact h.names

lemma StmtShown.expr (h : StmtShown around s fn scopes) (hd : s.isDeclaration = false) :
    ExprShown around fn scopes := by
  refine ⟨h.function, h.scopesAfter hd, fun name => ?_⟩
  rw [Bool.eq_false_iff.2 (not_pendingIn h.complete)]
  cases around with
  | nil => rfl
  | cons a around =>
    obtain ⟨t, ht, htd⟩ := h.own a rfl
    have htd : t.isDeclaration = false := by
      rcases htd with rfl | htd
      · exact hd
      · exact htd.1
    rw [List.head?_cons, Option.any_some, Around.initializes, ht]
    cases t <;> first | rfl | cases htd

lemma StmtShown.branch (h : StmtShown around s fn scopes) (hd : s.isDeclaration = false)
    (hp : t.Placed) (ht : t.isDeclaration = false) : StmtShown around t fn scopes := by
  refine ⟨h.function, ?_, h.complete, hp, fun a ha => ?_⟩
  · rw [scopesAfter_eq hp ht]
    exact h.scopesAfter hd
  · obtain ⟨u, hu, hud⟩ := h.own a ha
    refine ⟨u, hu, .inr ⟨?_, ht⟩⟩
    rcases hud with rfl | hud
    · exact hd
    · exact hud.1

lemma StmtShown.initializer {x : Token} (h : StmtShown around (.var x (some e)) fn scopes) :
    ExprShown around fn (enter x false scopes) := by
  refine ⟨h.function, shows_enter h.names, fun name => ?_⟩
  cases scopes with
  | nil =>
    cases h.names
    rfl
  | cons scope outer =>
    obtain ⟨around, a, has⟩ : ∃ as a, around = a :: as := by
      cases h.names with
      | cons => exact ⟨_, _, rfl⟩
    subst has
    obtain ⟨t, ht, rfl | ⟨-, hd⟩⟩ := h.own a rfl
    · have hs := h.complete scope List.mem_cons_self name
      rw [List.head?_cons, Option.any_some, Around.initializes, ht]
      simp only [pendingIn, enter, List.head?_cons, Option.any_some, List.lookup_cons]
      by_cases hx : name = x.lexeme
      · simp [hx]
      · simp [beq_false_of_ne hx, Ne.symm hx, hs]
    · cases hd

lemma agrees_expr (h : ExprShown around fn scopes) :
    Agrees ⟨around, .expr e⟩ ⟨.expr e, fn, scopes⟩ := by
  refine ⟨rfl, h.names.length_eq.symm, ?_, fun site name _ => findIdx?_of_shows h.names⟩
  cases e with
  | ref site name =>
    rw [Visit.error?, Place.error?]
    simp only [h.pending]
  | _ => rfl

lemma agrees_stmt (h : StmtShown around s fn scopes) :
    Agrees ⟨around, .stmt s⟩ ⟨.stmt s, fn, scopes⟩ := by
  refine ⟨rfl, ?_, ?_, fun _ _ hu => absurd hu nofun⟩
  · rw [h.names.length_eq, length_scopesAfter]
  cases s with
  | ret keyword e =>
    rw [Visit.error?, Place.error?]
    simp only [h.function]
  | _ => rfl

end

lemma listVisits_eq (fn : Bool) (scopes : List Scope) (es : List Expr) :
    listVisits fn scopes es = (es.map (exprVisits fn scopes)).flatten := by
  induction es with
  | nil => rfl
  | cons e es ih => rw [listVisits, ih, List.map_cons, List.flatten_cons]

lemma visited_map {around : List Around} {fn : Bool} {scopes : List Scope}
    (h : ExprShown around fn scopes) (es : List Expr) :
    List.Forall₂ Visited ((es.map Node.expr).map (⟨around, ·⟩))
      (es.map (exprVisits fn scopes)) := by
  induction es with
  | nil => exact .nil
  | cons e es ih => exact .cons (.expr h) ih

theorem Visited.parts {π : Place} {vs : List Visit} (h : Visited π vs) :
    ∃ own vss, Agrees π own ∧ List.Forall₂ Visited π.parts vss ∧
      (vs = own :: vss.flatten ∨ π.error? = none ∧ vs = vss.flatten ++ [own]) := by
  cases h with
  | @expr around e fn scopes h =>
    refine ⟨⟨.expr e, fn, scopes⟩, ?_⟩
    cases e with
    | literal | ref => exact ⟨[], agrees_expr h, .nil, .inl rfl⟩
    | grouping e | unary _ e =>
      exact ⟨[_], agrees_expr h, .cons (.expr h) .nil, .inl (by simp [exprVisits])⟩
    | binary a _ b | logical a _ b =>
      exact ⟨[_, _], agrees_expr h, .cons (.expr h) (.cons (.expr h) .nil),
        .inl (by simp [exprVisits])⟩
    | assign _ _ e =>
      exact ⟨[_], agrees_expr h, .cons (.expr h) .nil, .inr ⟨rfl, by simp [exprVisits]⟩⟩
    | call f _ args =>
      refine ⟨_ :: args.map (exprVisits fn scopes), agrees_expr h,
        .cons (.expr h) (visited_map h args), .inl ?_⟩
      rw [exprVisits, listVisits_eq, List.flatten_cons]
  | @stmt around s fn scopes h =>
    refine ⟨⟨.stmt s, fn, scopes⟩, ?_⟩
    cases s with
    | expression e | print e =>
      exact ⟨[_], agrees_stmt h, .cons (.expr (h.expr rfl)) .nil, .inl (by simp [stmtVisits])⟩
    | var x e =>
      cases e with
      | none => exact ⟨[], agrees_stmt h, .nil, .inl rfl⟩
      | some e =>
        exact ⟨[_], agrees_stmt h, .cons (.expr h.initializer) .nil,
          .inl (by simp [stmtVisits, optionVisits])⟩
    | ret _ e =>
      cases e with
      | none => exact ⟨[], agrees_stmt h, .nil, .inl rfl⟩
      | some e =>
        exact ⟨[_], agrees_stmt h, .cons (.expr (h.expr rfl)) .nil,
          .inl (by simp [stmtVisits, optionVisits])⟩
    | ifThen c s | loop c s =>
      obtain ⟨hp, hd⟩ := h.placed
      exact ⟨[_, _], agrees_stmt h,
        .cons (.expr (h.expr rfl)) (.cons (.stmt (h.branch rfl hp hd)) .nil),
        .inl (by simp [stmtVisits])⟩
    | ifElse c s t =>
      obtain ⟨⟨hp, hd⟩, hp', hd'⟩ := h.placed
      refine ⟨[_, _, _], agrees_stmt h, .cons (.expr (h.expr rfl))
        (.cons (.stmt (h.branch rfl hp hd)) (.cons (.stmt (h.branch rfl hp' hd')) .nil)), .inl ?_⟩
      simp [stmtVisits, scopesAfter_eq hp hd]
    | block body =>
      have hf : fn = ((none : Option (List Token)).isSome || around.any (·.params?.isSome)) := by
        simpa using h.function
      obtain ⟨vss, hvs, hv⟩ :=
        inScope_visited hf (.refl []) (h.scopesAfter rfl) h.complete.open h.placed
      exact ⟨vss, agrees_stmt h, hvs, .inl (by rw [stmtVisits, hv])⟩
    | function x params body =>
      have hc := (h.complete.declared x).params params
      have hn : List.Forall₂ Shows around (declared x scopes) := h.names
      obtain ⟨scope, hs, he⟩ := paramScopes_entered params (declared x scopes)
      rw [hs] at hc
      have hf : true = ((some params).isSome || around.any (·.params?.isSome)) := by simp
      obtain ⟨vss, hvs, hv⟩ := inScope_visited hf he hn hc h.placed
      exact ⟨vss, agrees_stmt h, hvs, .inl (by rw [stmtVisits, hs, hv])⟩

end Lox.Binding
