import Lox.Proofs.Grammar.Sites
import Lox.Proofs.Likeness.Session
import Lox.Proofs.Likeness.Visits
import Lox.Proofs.Renaming.Rename

/-! Nothing that a program does shows what the variables of its scopes are called. -/

namespace Lox.Renaming

variable {ρ : Renaming}

mutual

lemma inStmt_like : ∀ {fn : Bool} {s s' : Stmt}, ρ.InStmt s s' →
    Likeness.StmtSuits ρ.likeness fn s → ρ.likeness.StmtLike fn ρ.likeness.outside s s'
  | _, _, _, .block hx, h => by
    refine .block true ?_
    rw [inner_outside]
    exact stmts_like h.block fun _ => hx
  | _, _, _, @InStmt.function _ name params body hx, h => by
    obtain ⟨hname, hparams, hbody⟩ := h.function
    refine .function true (Likeness.nameLike_self ρ.keeps hname) rfl ?_ ?_
    · rw [List.forall₂_map_right_iff, List.forall₂_same]
      exact fun p hp => token_like (hparams p hp) true
    · rw [inner_outside]
      exact stmts_like hbody fun _ => hx
  | _, _, _, .inBlock hin, h => by
    refine .block false ?_
    rw [inner_unrenamed]
    exact inBody_like hin h.block
  | _, _, _, @InStmt.inFunction _ name params body _ hin, h => by
    obtain ⟨hname, hparams, hbody⟩ := h.function
    refine .function false (Likeness.nameLike_self ρ.keeps hname) rfl
      (Likeness.namesLike_self ρ.keeps hparams) ?_
    rw [inner_unrenamed]
    exact inBody_like hin hbody
  | _, _, _, .inIfThen hin, h =>
    .ifThen (Likeness.exprLike_self ρ.keeps h.ifThen.1) (inStmt_like hin h.ifThen.2)
  | _, _, _, .inLoop hin, h =>
    .loop (Likeness.exprLike_self ρ.keeps h.loop.1) (inStmt_like hin h.loop.2)
  | _, _, _, .inThen hin, h => by
    obtain ⟨hc, hs, ht⟩ := h.ifElse
    exact .ifElse (Likeness.exprLike_self ρ.keeps hc) (inStmt_like hin hs)
      (Likeness.stmtLike_self ρ.keeps ht)
  | _, _, _, .inElse hin, h => by
    obtain ⟨hc, hs, ht⟩ := h.ifElse
    exact .ifElse (Likeness.exprLike_self ρ.keeps hc) (Likeness.stmtLike_self ρ.keeps hs)
      (inStmt_like hin ht)

lemma inBody_like : ∀ {fn : Bool} {b b' : List Stmt}, ρ.InBody b b' →
    Likeness.StmtsSuit ρ.likeness fn b →
    Likeness.StmtsLike ρ.likeness fn ρ.likeness.outside b b'
  | _, _, _, .head hin, h =>
    .cons (inStmt_like hin h.cons.1) (Likeness.stmtsLike_self ρ.keeps h.cons.2)
  | _, _, _, .tail hin, h =>
    .cons (Likeness.stmtLike_self ρ.keeps h.cons.1) (inBody_like hin h.cons.2)

end

inductive SameEnd (x y : String) : Except RuntimeError Value → Except RuntimeError Value → Prop
  | ok (v v') : SameEnd x y (.ok v) (.ok v')
  | error (e) : SameEnd x y (.error e) (.error e)
  | undefined (line) : SameEnd x y (.error ⟨.undefinedVariable x, line⟩)
      (.error ⟨.undefinedVariable y, line⟩)

def freshRun (depth : ℕ) (clock : Clock) (out diagnostics : Sink) (program : List Stmt) (n : ℕ) :
    Machine :=
  let s := Session.start depth clock out diagnostics
  (Machine.load program s.world).run (s.record (Binding.ofProgram program).distances).setting n

lemma sameEnd_of_like {x x' : Except RuntimeError Value} (h : ρ.likeness.EndLike x x') :
    SameEnd ρ.x ρ.y x x' := by
  cases h with
  | ok v v' => exact .ok v v'
  | @error e e' he =>
    obtain ⟨fault, line⟩ := e
    obtain ⟨fault', line'⟩ := e'
    obtain ⟨hf, rfl⟩ := he
    cases hf with
    | same => exact .error _
    | undefined r name =>
      by_cases h : r = true ∧ name = ρ.x
      · obtain ⟨rfl, rfl⟩ := h
        have hy : ρ.likeness.rename true ρ.x = ρ.y := by simp [likeness]
        simp only [hy]
        exact .undefined line
      · have hn : ρ.likeness.rename r name = name := by
          simpa [likeness] using fun hr hx => absurd ⟨hr, hx⟩ h
        simp only [hn]
        exact .error _

lemma settled {program : List Stmt} (hn : ((Stmt.listUses program).map Prod.fst).Nodup)
    {x y : String} {v : Binding.Visit} (hv : v ∈ Binding.visits program) :
    (Renaming.mk (Binding.recorded program) x y).likeness.Settled v := by
  rintro a name b d hu ⟨-, hd⟩
  rw [← hd]
  exact Binding.recorded_of_visit hn hv hu

/-- In a program that is read and bound without errors, let the variable `x` of a scope be called
`y`, which nothing else is called. The program is still bound without errors, each site at the same
distance, and it runs as before: after any number of steps it has written the same, and it is over
with the same result or as far from it. -/
theorem renaming_unobservable {first : SiteId} {tokens : List Token} {program renamed : List Stmt}
    (hread : (Reading.ofTokens first tokens).program? = .ok program)
    (hbound : (Binding.ofProgram program).errors = []) {x y : String}
    (hscope : InBody ⟨Binding.recorded program, x, y⟩ program renamed)
    (hy : y ∉ Stmt.listNames program) :
    (Binding.ofProgram renamed).errors = [] ∧
      (Binding.ofProgram renamed).distances = (Binding.ofProgram program).distances ∧
      ∀ depth clock out diagnostics n,
        (freshRun depth clock out diagnostics renamed n).world.out =
          (freshRun depth clock out diagnostics program n).world.out ∧
        Option.Rel (SameEnd x y) (freshRun depth clock out diagnostics program n).result?
          (freshRun depth clock out diagnostics renamed n).result? := by
  set ρ : Renaming := ⟨Binding.recorded program, x, y⟩
  have hn : ((Stmt.listUses program).map Prod.fst).Nodup :=
    (Grammar.decls_sound (Grammar.accepted_iff_reads.1 hread)).1.nodup
  have hsuits : Likeness.StmtsSuit ρ.likeness false program := by
    refine ⟨fun u hu => covers fun he => hy ?_, fun t ht he => hy ?_,
      .inr (Binding.strays_of_accepted hbound)⟩
    · exact List.mem_append_right _ (List.mem_map.2 ⟨u, hu, he⟩)
    · exact List.mem_append_left _ (List.mem_map.2 ⟨t, ht, he⟩)
  have hlike := inBody_like hscope hsuits
  obtain ⟨hdistances, herrors⟩ := Likeness.ofProgram_like_same hlike (fun v hv => settled hn hv)
    (fun hab => hab.1) hbound
  refine ⟨herrors, hdistances, fun depth clock out diagnostics n => ?_⟩
  have hset : ρ.likeness.SettingLike _ _ := Likeness.settingLike_start depth clock out diagnostics
    hn fun {a b d} ⟨hab, ha⟩ => ⟨ha, hab ▸ ha⟩
  have hworld := Likeness.worldLike_start depth clock out diagnostics ρ.keeps
  have hm := Likeness.run_like hset n (Likeness.load_like hworld hlike)
  simp only [freshRun, hdistances]
  refine ⟨hm.out, ?_⟩
  exact optionRel_imp (fun _ _ h => sameEnd_of_like h) (Likeness.result_like hm)

def nestedBlocks (a : String) : List Stmt :=
  [.block [.var ⟨.identifier, a, 5, 1⟩ none, .block [.expression (.ref 0 ⟨.identifier, a, 8, 1⟩)]]]

def nestedBlocksTokens : List Token :=
  [⟨.punct .leftBrace, "\x7b", 0, 1⟩, ⟨.keyword .kwVar, "var", 1, 1⟩, ⟨.identifier, "a", 5, 1⟩,
    ⟨.punct .semicolon, ";", 6, 1⟩, ⟨.punct .leftBrace, "\x7b", 7, 1⟩, ⟨.identifier, "a", 8, 1⟩,
    ⟨.punct .semicolon, ";", 9, 1⟩, ⟨.punct .rightBrace, "\x7d", 10, 1⟩,
    ⟨.punct .rightBrace, "\x7d", 11, 1⟩, ⟨.eof, "", 12, 1⟩]

theorem nestedBlocks_renamed :
    (Binding.ofProgram (nestedBlocks "b")).errors = [] ∧
      (Binding.ofProgram (nestedBlocks "b")).distances =
        (Binding.ofProgram (nestedBlocks "a")).distances ∧
      ∀ depth clock out diagnostics n,
        (freshRun depth clock out diagnostics (nestedBlocks "b") n).world.out =
          (freshRun depth clock out diagnostics (nestedBlocks "a") n).world.out ∧
        Option.Rel (SameEnd "a" "b")
          (freshRun depth clock out diagnostics (nestedBlocks "a") n).result?
          (freshRun depth clock out diagnostics (nestedBlocks "b") n).result? := by
  have hread : (Reading.ofTokens 0 nestedBlocksTokens).program? = .ok (nestedBlocks "a") := rfl
  have hscope : InBody ⟨Binding.recorded (nestedBlocks "a"), "a", "b"⟩ (nestedBlocks "a")
      (nestedBlocks "b") := .head (.block (by simp [Stmt.listFunctions, Stmt.functions]))
  exact renaming_unobservable hread rfl hscope (by decide)

end Lox.Renaming
