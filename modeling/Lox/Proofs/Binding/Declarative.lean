import Lox.Proofs.Binding.Listed
import Lox.Proofs.Binding.Shown
import Lox.Proofs.Binding.SourceOrder

/-! Binding is lexical: what the walk over a program records and reports is told by its places, each
with the names declared before it in the scopes around it. -/

namespace Lox.Binding

variable {π π' : Place} {vs : List Visit} {v : Visit} {p : List ℕ}

lemma Agrees.use (h : Agrees π v) : v.use? = π.use? := by
  obtain ⟨around, node⟩ := π
  rw [Visit.use?, h.node]
  cases node with
  | expr e => cases e <;> rfl
  | stmt s => rfl

lemma forall₂_at {α β : Type} {R : α → β → Prop} {xs : List α} {ys : List β}
    (h : List.Forall₂ R xs ys) {i : ℕ} {x : α} (hx : xs[i]? = some x) :
    ∃ y, ys[i]? = some y ∧ R x y := by
  induction h generalizing i with
  | nil => cases hx
  | cons hr _ ih =>
    cases i with
    | zero =>
      obtain rfl := Option.some.inj hx
      exact ⟨_, rfl, hr⟩
    | succ i => exact ih hx

lemma Visited.at? (h : Visited π vs) (hp : π.at? p = some π') : ∃ us, us ⊆ vs ∧ Visited π' us := by
  induction p generalizing π vs with
  | nil =>
    obtain rfl := Option.some.inj hp
    exact ⟨vs, List.Subset.refl _, h⟩
  | cons i p ih =>
    obtain ⟨own, vss, -, hparts, hvs⟩ := h.parts
    obtain ⟨part, hi, hpart⟩ := Option.bind_eq_some_iff.1 hp
    obtain ⟨us, hus, hv⟩ := forall₂_at hparts hi
    obtain ⟨ws, hws, hw⟩ := ih hv hpart
    have hflat : ws ⊆ vss.flatten := fun v hv =>
      List.mem_flatten.2 ⟨us, List.mem_of_getElem? hus, hws hv⟩
    refine ⟨ws, ?_, hw⟩
    rcases hvs with rfl | ⟨-, rfl⟩
    · exact fun v hv => List.mem_cons_of_mem _ (hflat hv)
    · exact fun v hv => List.mem_append_left _ (hflat hv)

lemma Visited.own (h : Visited π vs) : ∃ v ∈ vs, Agrees π v := by
  obtain ⟨own, vss, ho, -, rfl | ⟨-, rfl⟩⟩ := h.parts
  · exact ⟨own, List.mem_cons_self, ho⟩
  · exact ⟨own, List.mem_append_right _ (List.mem_singleton_self own), ho⟩

lemma Visited.place_of (h : Visited π vs) (hv : v ∈ vs) :
    ∃ p π', π.at? p = some π' ∧ Agrees π' v := by
  induction π using Place.induction generalizing vs with
  | step π ih =>
    obtain ⟨own, vss, ho, hparts, hvs⟩ := h.parts
    have hcases : v = own ∨ v ∈ vss.flatten := by
      rcases hvs with rfl | ⟨-, rfl⟩
      · exact List.mem_cons.1 hv
      · exact (List.mem_append.1 hv).symm.imp List.mem_singleton.1 id
    rcases hcases with rfl | hv
    · exact ⟨[], π, rfl, ho⟩
    · obtain ⟨us, hus, hv⟩ := List.mem_flatten.1 hv
      obtain ⟨i, hi⟩ := List.mem_iff_getElem?.1 hus
      obtain ⟨part, hpart, hvisited⟩ := forall₂_at hparts.flip hi
      obtain ⟨p, π', hp, ha⟩ := ih part (List.mem_of_getElem? hpart) hvisited hv
      exact ⟨i :: p, π', by rw [Place.at?, hpart]; exact hp, ha⟩

def Place.errorAt (π : Place) (p : List ℕ) : Option ScopeError := (π.at? p).bind Place.error?

lemma errorAt_eq (π : Place) :
    π.errorAt = treeAt π.error? (π.parts.map Place.errorAt) := by
  funext p
  cases p with
  | nil => rfl
  | cons i p =>
    rw [Place.errorAt, Place.at?, treeAt, List.getElem?_map, Option.bind_assoc, Option.bind_map]
    rfl

theorem Visited.errors_listed (h : Visited π vs) :
    Listed π.errorAt (vs.filterMap Visit.error?) := by
  induction π using Place.induction generalizing vs with
  | step π ih =>
    obtain ⟨own, vss, ho, hparts, hvs⟩ := h.parts
    have hlisted : List.Forall₂ Listed (π.parts.map Place.errorAt)
        (vss.map (·.filterMap Visit.error?)) := by
      rw [List.forall₂_map_left_iff, List.forall₂_map_right_iff]
      have hall := (List.forall₂_and_left _ _).2 ⟨fun part hp => @ih part hp, hparts⟩
      exact hall.imp fun part us ⟨hi, hv⟩ => hi hv
    have herrors : vs.filterMap Visit.error? =
        π.error?.toList ++ (vss.map (·.filterMap Visit.error?)).flatten := by
      rw [← ho.error, ← List.filterMap_flatten]
      rcases hvs with rfl | ⟨hnone, rfl⟩
      · cases h : own.error? <;> simp [h]
      · simp [ho.error, hnone]
    rw [errorAt_eq, herrors]
    exact (Listed.parts hlisted).own π.error?

def Place.roots (program : List Stmt) : List Place := program.map fun s => ⟨[], .stmt s⟩

variable {program : List Stmt}

lemma roots_visited (hp : Stmt.ListPlaced program) : ∃ vss,
    List.Forall₂ Visited (Place.roots program) vss ∧ visits program = vss.flatten := by
  rw [visits]
  induction program with
  | nil => exact ⟨[], .nil, rfl⟩
  | cons s program ih =>
    obtain ⟨vss, hvs, hv⟩ := ih hp.2
    have hshown : StmtShown [] s false [] := by
      refine ⟨rfl, ?_, .nil, hp.1, fun a ha => ?_⟩
      · rw [scopesAfter_nil]
        exact .nil
      · cases ha
    refine ⟨stmtVisits false [] s :: vss, .cons (.stmt hshown) hvs, ?_⟩
    rw [stmtsVisits, scopesAfter_nil, hv, List.flatten_cons]

lemma placeAt?_eq (program : List Stmt) (i : ℕ) (p : List ℕ) :
    placeAt? program (i :: p) = (Place.roots program)[i]?.bind (·.at? p) := by
  rw [placeAt?, Place.roots, List.getElem?_map, Option.bind_map]
  rfl

lemma visited_at (hp : Stmt.ListPlaced program) (h : placeAt? program p = some π) :
    ∃ us, us ⊆ visits program ∧ Visited π us := by
  obtain ⟨vss, hvisited, hvs⟩ := roots_visited hp
  cases p with
  | nil => cases h
  | cons i p =>
    rw [placeAt?_eq] at h
    obtain ⟨part, hi, hpart⟩ := Option.bind_eq_some_iff.1 h
    obtain ⟨us, hus, hv⟩ := forall₂_at hvisited hi
    obtain ⟨ws, hws, hw⟩ := hv.at? hpart
    refine ⟨ws, fun v hv => ?_, hw⟩
    rw [hvs]
    exact List.mem_flatten.2 ⟨us, List.mem_of_getElem? hus, hws hv⟩

lemma placed_at {around : List Around} {s : Stmt} (hp : Stmt.ListPlaced program)
    (h : placeAt? program p = some ⟨around, .stmt s⟩) : s.Placed := by
  obtain ⟨us, -, hu⟩ := visited_at hp h
  cases hu with
  | stmt hs => exact hs.placed

lemma place_of (hp : Stmt.ListPlaced program) (hv : v ∈ visits program) :
    ∃ p π, placeAt? program p = some π ∧ Agrees π v := by
  obtain ⟨vss, hvisited, hvs⟩ := roots_visited hp
  rw [hvs] at hv
  obtain ⟨us, hus, hv⟩ := List.mem_flatten.1 hv
  obtain ⟨i, hi⟩ := List.mem_iff_getElem?.1 hus
  obtain ⟨part, hpart, hpv⟩ := forall₂_at hvisited.flip hi
  obtain ⟨p, π, hp, ha⟩ := Visited.place_of hpv hv
  exact ⟨i :: p, π, by rw [placeAt?_eq, hpart]; exact hp, ha⟩

lemma errors_listed (hp : Stmt.ListPlaced program) :
    Listed (fun p => (placeAt? program p).bind Place.error?) (ofProgram program).errors := by
  obtain ⟨vss, hvisited, hvs⟩ := roots_visited hp
  have hlisted : List.Forall₂ Listed ((Place.roots program).map Place.errorAt)
      (vss.map (·.filterMap Visit.error?)) := by
    rw [List.forall₂_map_left_iff, List.forall₂_map_right_iff]
    exact hvisited.imp fun part us hv => hv.errors_listed
  have htree : (fun p => (placeAt? program p).bind Place.error?) =
      treeAt none ((Place.roots program).map Place.errorAt) := by
    funext p
    cases p with
    | nil => rfl
    | cons i p =>
      rw [placeAt?_eq, treeAt, List.getElem?_map, Option.bind_assoc, Option.bind_map]
      rfl
  have herrors : (ofProgram program).errors = (vss.map (·.filterMap Visit.error?)).flatten := by
    rw [← List.filterMap_flatten, ← hvs, ofProgram_eq]
  rw [htree, herrors]
  exact Listed.parts hlisted

/-- For every program that is read, a variable site has the distance of the innermost scope around
it in which its name is declared before it, and none if there is no such scope. There is one error
for each variable in the initializer of a local variable of that name, and one for each `return`
that no function encloses, in the order of the source. -/
theorem binding_lexical {first : SiteId} {tokens : List Token} {program : List Stmt}
    (hread : (Reading.ofTokens first tokens).program? = .ok program) :
    (∀ p π site name, placeAt? program p = some π → π.use? = some (site, name) →
      recorded program site = π.around.findIdx? (name.lexeme ∈ ·.names)) ∧
    (∀ site d, recorded program site = some d →
      ∃ p π name, placeAt? program p = some π ∧ π.use? = some (site, name)) ∧
    (∃ ps : List (List ℕ), ps.Pairwise (· < ·) ∧
      (∀ p, p ∈ ps ↔ ∃ π, placeAt? program p = some π ∧ π.error?.isSome) ∧
      (ofProgram program).errors = ps.filterMap fun p => (placeAt? program p).bind Place.error?) ∧
    ((ofProgram program).errors.map (·.found)).Sublist (Grammar.beforeEnd tokens) := by
  have hreads := Grammar.accepted_iff_reads.1 hread
  obtain ⟨hnumbered, hplaced⟩ := Grammar.decls_sound hreads
  refine ⟨?_, ?_, ?_, ?_⟩
  · intro p π site name hp hu
    obtain ⟨us, hsub, hvisited⟩ := visited_at hplaced hp
    obtain ⟨v, hv, ha⟩ := hvisited.own
    have hvu : v.use? = some (site, name) := ha.use.trans hu
    rw [recorded_of_visit hnumbered.nodup (hsub hv) hvu]
    exact ha.distance site name hvu
  · intro site d hd
    rw [recorded, ofProgram_eq] at hd
    have hlookup : ((visits program).filterMap Visit.entry?).lookup site = some d := hd
    obtain ⟨before, rest, hentries, -⟩ := List.lookup_eq_some_iff.1 hlookup
    have hentry : (site, d) ∈ (visits program).filterMap Visit.entry? := by
      rw [hentries]
      exact List.mem_append_right _ List.mem_cons_self
    obtain ⟨v, hv, he⟩ := List.mem_filterMap.1 hentry
    obtain ⟨⟨site', name⟩, hu, hdist⟩ := Option.bind_eq_some_iff.1 he
    obtain ⟨_, -, heq⟩ := Option.map_eq_some_iff.1 hdist
    obtain rfl : site' = site := congrArg Prod.fst heq
    obtain ⟨p, π, hp, ha⟩ := place_of hplaced hv
    exact ⟨p, π, name, hp, ha.use.symm.trans hu⟩
  · obtain ⟨ps, hps, hmem, he⟩ := errors_listed hplaced
    refine ⟨ps, hps, fun p => ?_, he⟩
    rw [hmem, Option.isSome_bind, Option.any_eq_true]
  · rw [ofProgram_eq]
    exact Grammar.decls_ordered hreads .nil

def selfInitialized : List Stmt :=
  [.block [.var ⟨.identifier, "a", 6, 1⟩ (some (.ref 0 ⟨.identifier, "a", 10, 1⟩))],
    .ret ⟨.keyword .kwReturn, "return", 15, 1⟩ none]

def selfInitializedTokens : List Token :=
  [⟨.punct .leftBrace, "\x7b", 0, 1⟩, ⟨.keyword .kwVar, "var", 2, 1⟩, ⟨.identifier, "a", 6, 1⟩,
    ⟨.punct .equal, "=", 8, 1⟩, ⟨.identifier, "a", 10, 1⟩, ⟨.punct .semicolon, ";", 11, 1⟩,
    ⟨.punct .rightBrace, "\x7d", 13, 1⟩, ⟨.keyword .kwReturn, "return", 15, 1⟩,
    ⟨.punct .semicolon, ";", 21, 1⟩, ⟨.eof, "", 22, 1⟩]

theorem selfInitialized_bound : recorded selfInitialized 0 = some 0 ∧
    ∃ ps : List (List ℕ), [0, 0, 0] ∈ ps ∧ [1] ∈ ps ∧
      (ofProgram selfInitialized).errors =
        ps.filterMap fun p => (placeAt? selfInitialized p).bind Place.error? := by
  have hread : (Reading.ofTokens 0 selfInitializedTokens).program? = .ok selfInitialized := rfl
  obtain ⟨hsites, -, ⟨ps, -, hmem, herrors⟩, -⟩ := binding_lexical hread
  refine ⟨?_, ps, (hmem _).2 ⟨_, rfl, rfl⟩, (hmem _).2 ⟨_, rfl, rfl⟩, herrors⟩
  have hsite := hsites [0, 0, 0] _ 0 ⟨.identifier, "a", 10, 1⟩ rfl rfl
  rw [hsite]
  decide

end Lox.Binding
