import Lox.Proofs.Binding.Complete
import Lox.Proofs.ForLoops.Source
import Lox.Proofs.Unparse.Inverse
import Lox.Proofs.Unparse.Shaped

/-! A `for` loop is read as what it stands for, written with `while`, and the block around its body
and its increment has no name of its own. -/

namespace Lox.Source

open Binding Grammar

mutual

def Statement.stepped : Statement → List (Statement × Expr)
  | .expression _ | .print _ | .ret _ _ => []
  | .block body => stepped body
  | .ifThen _ s | .loop _ s => s.stepped
  | .ifElse _ s t => s.stepped ++ t.stepped
  | .forLoop _ _ none body => body.stepped
  | .forLoop _ _ (some e) body => (body, e) :: body.stepped

def Declaration.stepped : Declaration → List (Statement × Expr)
  | .var _ _ => []
  | .function _ _ body => stepped body
  | .statement s => s.stepped

def stepped : List Declaration → List (Statement × Expr)
  | [] => []
  | d :: rest => d.stepped ++ stepped rest

end

mutual

lemma Statement.placed_tree : ∀ s : Statement, s.tree.Placed ∧ s.tree.isDeclaration = false
  | .expression _ | .print _ | .ret _ _ => ⟨trivial, rfl⟩
  | .block body => ⟨listPlaced_trees body, rfl⟩
  | .ifThen _ s | .loop _ s => ⟨s.placed_tree, rfl⟩
  | .ifElse _ s t => ⟨⟨s.placed_tree, t.placed_tree⟩, rfl⟩
  | .forLoop initializer _ _ body => by
    have hinitializer : Stmt.ListPlaced (initializer.map Initializer.stmt).toList := by
      cases initializer with
      | none => trivial
      | some i => cases i <;> exact ⟨trivial, trivial⟩
    obtain ⟨hplaced, hd⟩ := body.placed_tree
    exact placed_forLoop hinitializer hplaced hd

lemma Declaration.placed_tree : ∀ d : Declaration, d.tree.Placed
  | .var _ _ => trivial
  | .function _ _ body => listPlaced_trees body
  | .statement s => s.placed_tree.1

lemma listPlaced_trees : ∀ ds : List Declaration, Stmt.ListPlaced (trees ds)
  | [] => trivial
  | d :: rest => ⟨d.placed_tree, listPlaced_trees rest⟩

end

section

variable (fn : Bool) (scopes : List Scope) (initializer : Option Stmt) (condition : Option Expr)
  (body : Stmt)

lemma loop_visits (s : Stmt) : ∃ outer,
    stmtVisits fn outer s ⊆ stmtVisits fn scopes (forLoop initializer condition none s) := by
  cases initializer with
  | none => exact ⟨scopes, fun v hv => by simp [forLoop, stmtVisits, hv]⟩
  | some i =>
    refine ⟨scopesAfter i ([] :: scopes), fun v hv => ?_⟩
    simp [forLoop, stmtVisits, stmtsVisits, hv]

lemma body_visits (increment : Option Expr) : ∃ inner,
    stmtVisits fn inner body ⊆
      stmtVisits fn scopes (forLoop initializer condition increment body) := by
  cases increment with
  | none => exact loop_visits fn scopes initializer condition body
  | some e =>
    obtain ⟨outer, hsub⟩ :=
      loop_visits fn scopes initializer condition (.block [body, .expression e])
    refine ⟨[] :: outer, fun v hv => hsub ?_⟩
    simp [stmtVisits, stmtsVisits, hv]

lemma increment_visits {body : Stmt} (hp : body.Placed) (hd : body.isDeclaration = false)
    (e : Expr) : ∃ outer, exprVisits fn ([] :: outer) e ⊆
      stmtVisits fn scopes (forLoop initializer condition (some e) body) := by
  obtain ⟨outer, hsub⟩ := loop_visits fn scopes initializer condition (.block [body, .expression e])
  refine ⟨outer, fun v hv => hsub ?_⟩
  simp [stmtVisits, stmtsVisits, scopesAfter_eq hp hd, hv]

end

def VisitedBare (e : Expr) (visits : List Visit) : Prop :=
  ∃ fn outer, exprVisits fn ([] :: outer) e ⊆ visits

lemma VisitedBare.mono {e : Expr} {us vs : List Visit} (h : VisitedBare e us) (hs : us ⊆ vs) :
    VisitedBare e vs := by
  obtain ⟨fn, outer, hsub⟩ := h
  exact ⟨fn, outer, List.Subset.trans hsub hs⟩

mutual

lemma Statement.stepped_visits {x : Statement × Expr} : ∀ s : Statement,
    x ∈ s.stepped → ∀ fn scopes, VisitedBare x.2 (stmtVisits fn scopes s.tree)
  | .expression _, h, _, _ | .print _, h, _, _ | .ret _ _, h, _, _ => absurd h List.not_mem_nil
  | .block body, h, fn, scopes =>
    (stepped_visits body h fn ([] :: scopes)).mono (List.subset_cons_self _ _)
  | .ifThen c s, h, fn, scopes | .loop c s, h, fn, scopes =>
    (s.stepped_visits h fn scopes).mono fun v hv =>
      List.mem_cons_of_mem _ (List.mem_append_right _ hv)
  | .ifElse c s t, h, fn, scopes => by
    rcases List.mem_append.1 h with h | h
    · refine (s.stepped_visits h fn scopes).mono fun v hv => ?_
      simp [Statement.tree, stmtVisits, hv]
    · refine (t.stepped_visits h fn (scopesAfter s.tree scopes)).mono fun v hv => ?_
      simp [Statement.tree, stmtVisits, hv]
  | .forLoop initializer condition none body, h, fn, scopes => by
    obtain ⟨inner, hsub⟩ := body_visits fn scopes (initializer.map Initializer.stmt) condition
      body.tree none
    exact (body.stepped_visits h fn inner).mono hsub
  | .forLoop initializer condition (some e) body, h, fn, scopes => by
    rcases List.mem_cons.1 h with rfl | h
    · obtain ⟨hplaced, hd⟩ := body.placed_tree
      exact ⟨fn, increment_visits fn scopes _ condition hplaced hd e⟩
    · obtain ⟨inner, hsub⟩ := body_visits fn scopes (initializer.map Initializer.stmt) condition
        body.tree (some e)
      exact (body.stepped_visits h fn inner).mono hsub

lemma Declaration.stepped_visits {x : Statement × Expr} : ∀ d : Declaration,
    x ∈ d.stepped → ∀ fn scopes, VisitedBare x.2 (stmtVisits fn scopes d.tree)
  | .var _ _, h, _, _ => absurd h List.not_mem_nil
  | .function _ _ body, h, _, _ => (stepped_visits body h true _).mono (List.subset_cons_self _ _)
  | .statement s, h, fn, scopes => s.stepped_visits h fn scopes

lemma stepped_visits {x : Statement × Expr} : ∀ ds : List Declaration,
    x ∈ stepped ds → ∀ fn scopes, VisitedBare x.2 (stmtsVisits fn scopes (trees ds))
  | [], h, _, _ => absurd h List.not_mem_nil
  | d :: rest, h, fn, scopes => by
    rcases List.mem_append.1 h with h | h
    · exact (d.stepped_visits h fn scopes).mono (List.subset_append_left _ _)
    · exact (stepped_visits rest h fn (scopesAfter d.tree scopes)).mono
        (List.subset_append_right _ _)

end

lemma recorded_of_bare {program : List Stmt} (hn : ((Stmt.listUses program).map Prod.fst).Nodup)
    {e : Expr} (h : VisitedBare e (visits program)) {site : SiteId}
    (hs : site ∈ e.uses.map Prod.fst) : recorded program site ≠ some 0 := by
  obtain ⟨fn, outer, hsub⟩ := h
  obtain ⟨⟨_, name⟩, hu, rfl⟩ := List.mem_map.1 hs
  rw [← uses_exprVisits fn ([] :: outer), List.mem_filterMap] at hu
  obtain ⟨v, hv, hu⟩ := hu
  have hcons : distanceIn? ([] :: outer) name.lexeme =
      (distanceIn? outer name.lexeme).map (· + 1) := List.findIdx?_cons ..
  rw [recorded_of_visit hn (hsub hv) hu, scopes_exprVisits hv, hcons]
  intro hzero
  obtain ⟨d, -, hd⟩ := Option.map_eq_some_iff.1 hzero
  cases hd

/-- How a program that is read stands in the source: with the tokens from which it is read, but for
their places, and with its tree. -/
structure Stands (source : List Declaration) (tokens : List Token) (program : List Stmt) :
    Prop where
  tree : trees source = program
  gist : (Source.tokens asFor source).map Token.gist = (beforeEnd tokens).map Token.gist

/-- A program that is read stands somehow in the source. However it does, its tree is also read, but
for the numbers of its sites, from the tokens that have the loop it stands for in the place of each
`for`. No declaration is directly in the block around the body and the increment of a loop, and no
site of an increment has distance 0. -/
theorem for_expanded {first : SiteId} {tokens : List Token} {program : List Stmt}
    (h : (Reading.ofTokens first tokens).program? = .ok program) :
    (∃ source, Stands source tokens program) ∧
    ∀ source, Stands source tokens program →
      ForFree (Source.tokens asWhile source) ∧
      (∀ first' ending, beforeEnd ending = [] → ∃ program',
        (Reading.ofTokens first' (Source.tokens asWhile source ++ ending)).program? = .ok program' ∧
        Stmt.listMapSites (fun _ => 0) program' = Stmt.listMapSites (fun _ => 0) program) ∧
      ∀ body increment, (body, increment) ∈ stepped source →
        (∀ s ∈ [body.tree, .expression increment], s.isDeclaration = false) ∧
        ∀ site ∈ increment.uses.map Prod.fst, recorded program site ≠ some 0 := by
  have hreads := accepted_iff_reads.1 h
  have hshaped : Stmt.ListShaped program := decls_shaped hreads
  have hnodup := (decls_sound hreads).1.nodup
  refine ⟨?_, ?_⟩
  · obtain ⟨source, htree, hgist⟩ := decls_written hreads
    exact ⟨source, htree, hgist⟩
  · rintro source ⟨rfl, -⟩
    rw [← unparse_trees]
    refine ⟨stmts_forFree hshaped, fun first' ending he => ?_, fun body increment hin => ⟨?_, ?_⟩⟩
    · exact ⟨_, program?_unparse hshaped first' he, Stmt.listMapSites_number 0 _ first'⟩
    · exact List.forall_mem_cons.2 ⟨body.placed_tree.2, List.forall_mem_singleton.2 rfl⟩
    · intro site hs
      exact recorded_of_bare hnodup (stepped_visits source hin false []) hs

def nestedTokens : List Token :=
  [⟨.keyword .kwFor, "for", 0, 1⟩, ⟨.punct .leftParen, "(", 4, 1⟩, ⟨.keyword .kwVar, "var", 5, 1⟩,
    ⟨.identifier, "i", 9, 1⟩, ⟨.punct .semicolon, ";", 10, 1⟩, ⟨.identifier, "i", 12, 1⟩,
    ⟨.punct .semicolon, ";", 13, 1⟩, ⟨.identifier, "i", 15, 1⟩, ⟨.punct .rightParen, ")", 16, 1⟩,
    ⟨.keyword .kwFor, "for", 18, 1⟩, ⟨.punct .leftParen, "(", 22, 1⟩,
    ⟨.punct .semicolon, ";", 23, 1⟩, ⟨.punct .semicolon, ";", 24, 1⟩,
    ⟨.punct .rightParen, ")", 25, 1⟩, ⟨.identifier, "i", 27, 1⟩, ⟨.punct .semicolon, ";", 28, 1⟩,
    ⟨.eof, "", 29, 1⟩]

def nestedInner : Statement :=
  .forLoop none none none (.expression (.ref 2 ⟨.identifier, "i", 27, 1⟩))

def nestedSource : List Declaration :=
  [.statement (.forLoop (some (.var ⟨.identifier, "i", 9, 1⟩ none))
    (some (.ref 0 ⟨.identifier, "i", 12, 1⟩)) (some (.ref 1 ⟨.identifier, "i", 15, 1⟩))
    nestedInner)]

theorem nestedSource_expanded :
    ForFree (Source.tokens asWhile nestedSource) ∧
      (∃ program', (Reading.ofTokens 7 (Source.tokens asWhile nestedSource)).program? =
          .ok program' ∧
        Stmt.listMapSites (fun _ => 0) program' =
          Stmt.listMapSites (fun _ => 0) (trees nestedSource)) ∧
      recorded (trees nestedSource) 1 ≠ some 0 := by
  have hread : (Reading.ofTokens 0 nestedTokens).program? = .ok (trees nestedSource) := rfl
  obtain ⟨-, hexpanded⟩ := for_expanded hread
  obtain ⟨hfree, hreading, hsteps⟩ := hexpanded nestedSource ⟨rfl, rfl⟩
  obtain ⟨program', hprogram, hsites⟩ := hreading 7 [] rfl
  rw [List.append_nil] at hprogram
  have hin : (nestedInner, Expr.ref 1 ⟨.identifier, "i", 15, 1⟩) ∈ stepped nestedSource :=
    List.mem_append_left _ List.mem_cons_self
  exact ⟨hfree, ⟨program', hprogram, hsites⟩, (hsteps _ _ hin).2 1 (List.mem_singleton_self 1)⟩

end Lox.Source
