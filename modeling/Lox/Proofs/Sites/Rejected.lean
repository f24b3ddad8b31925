import Lox.Proofs.Reports
import Lox.Proofs.Sites.Binding
import Lox.Proofs.Sites.Shift
import Lox.Proofs.Sites.Steady

/-! A chunk with static errors leaves numbers that are used up, and distances for some of them.
Nothing that runs after it shows either. -/

namespace Lox

open Likeness Machine

namespace Session

def Shifted (s : Session) (program : List Stmt) (k : ℕ) (a b : SiteId) (d : Option ℕ) : Prop :=
  s.Numbered a b d ∨ s.nextSite ≤ a ∧ b = raised k a ∧ Binding.recorded program a = d

variable {s t s₁ t₁ : Session} {k : ℕ} {source : String} {program : List Stmt}

/-- The second session is the first after chunks that were not run, to whose sites `k` numbers
went. -/
structure Passed (k : ℕ) (s t : Session) : Prop where
  natives : t.natives = s.natives
  depth : t.maxCallDepth = s.maxCallDepth
  world : t.world = s.world
  next : t.nextSite = s.nextSite + k
  distances : ∀ site, site < s.nextSite ∨ t.nextSite ≤ site →
    t.distances[site]? = s.distances[site]?

lemma passed_of_prepare (h : s.prepare source = (none, t)) :
    t.hadRuntimeError = s.hadRuntimeError ∧ ∃ k, Passed k s t := by
  obtain ⟨_, _, _, j, rfl, hle, hd⟩ := prepare_eq_none h
  obtain ⟨k, rfl⟩ := Nat.exists_eq_add_of_le hle
  exact ⟨rfl, k, rfl, rfl, rfl, rfl, hd⟩

namespace Passed

variable (h : Passed k s t)

include h

lemma reading (source : String) : t.reading source =
    ⟨Stmt.listMapSites (raised k) (s.reading source).statements, (s.reading source).errors,
      (s.reading source).nextSite + k⟩ := by
  rw [Session.reading, h.next, Grammar.ofTokens_shift]
  rfl

lemma found (source : String) : t.found source = s.found source := by
  rw [Session.found, Session.found, h.reading, Binding.ofProgram_mapSites]

lemma steady (hs : s.Steady) : t.Steady :=
  hs.extend ⟨h.next ▸ Nat.le_add_right _ _, h.distances⟩ h.natives h.world

lemma prepare (source : String) :
    (t.prepare source).1 = (s.prepare source).1.map (Stmt.listMapSites (raised k)) := by
  rw [(prepare_found source t).1, (prepare_found source s).1, h.found, h.reading]
  split <;> rfl

lemma settingLike (hs : s.Steady) (hp : s.prepare source = (some program, s₁))
    (ht : t.prepare source = (some (Stmt.listMapSites (raised k) program), t₁)) :
    (ofSites (s.Shifted program k)).SettingLike s₁.setting t₁.setting := by
  obtain ⟨-, -, j, hreads, rfl⟩ := prepare_eq_some.1 hp
  obtain ⟨-, -, j', hreads', rfl⟩ := prepare_eq_some.1 ht
  refine ⟨h.depth, h.natives, hs.uniform, ?_⟩
  rintro a b d (⟨rfl, ha, hd⟩ | ⟨ha, rfl, hd⟩)
  · have hb : b < t.nextSite := h.next ▸ Nat.lt_add_right k ha
    exact ⟨(getElem?_record_of_outside hreads _ (.inl ha)).trans hd,
      (getElem?_record_of_outside hreads' _ (.inl hb)).trans ((h.distances b (.inl ha)).trans hd)⟩
  · have hb : t.nextSite ≤ raised k a := h.next ▸ Nat.add_le_add_right ha k
    have hfresh : s.distances[a]? = none := hs.fresh a ha
    have hfresh' : t.distances[raised k a]? = none := (h.steady hs).fresh _ hb
    have hrecorded := Binding.recorded_mapSites (raised_injective k) program a
    constructor
    · refine (getElem?_record (nodup_of_reads hreads) _ a).trans ?_
      rw [hfresh, Option.or_none, hd]
    · refine (getElem?_record (nodup_of_reads hreads') _ _).trans ?_
      rw [hfresh', Option.or_none, hrecorded, hd]

omit h in
lemma program_like (hp : s.prepare source = (some program, s₁)) (k : ℕ) :
    (ofSites (s.Shifted program k)).StmtsLike false (ofSites (s.Shifted program k)).outside program
      (Stmt.listMapSites (raised k) program) := by
  obtain ⟨-, hb, j, hreads, -⟩ := prepare_eq_some.1 hp
  have hrange := (Grammar.decls_sound hreads).1.range
  refine StmtsLike.mapSites (stmtsLike_self (keeps_ofSites _) (suits_ofSites (fun u hu => ?_) hb))
  exact ⟨_, .inr ⟨(hrange u.1 (List.mem_map_of_mem hu)).1, rfl, rfl⟩⟩

end Passed

/-- What a host sees of a chunk, run in one session and in another: the outcome, the output, and the
reports that are added. -/
structure Same (s t : Session) (x y : Option Outcome × Session) : Prop where
  outcome : y.1 = x.1
  out : y.2.world.out = x.2.world.out
  reports : ∃ ds, x.2.diagnostics = (s.reportAll ds).diagnostics ∧
    y.2.diagnostics = (t.reportAll ds).diagnostics

lemma Same.bytes {x y : Option Outcome × Session} (h : Same s t x y)
    (hs : s.diagnostics.Accepting) (ht : t.diagnostics.Accepting) : ∃ written,
      x.2.diagnostics.bytes = s.diagnostics.bytes ++ written ∧
      y.2.diagnostics.bytes = t.diagnostics.bytes ++ written := by
  obtain ⟨ds, hx, hy⟩ := h.reports
  exact ⟨_, hx ▸ (bytes_reportAll hs ds).2, hy ▸ (bytes_reportAll ht ds).2⟩

lemma Same.ofPrepared {x y : Option Outcome × Session} (h : Same s₁ t₁ x y)
    (hs : s₁.diagnostics = s.diagnostics) (ht : t₁.diagnostics = t.diagnostics) : Same s t x y := by
  obtain ⟨ds, hx, hy⟩ := h.reports
  exact ⟨h.outcome, h.out, ds, hx.trans (diagnostics_reportAll hs ds),
    hy.trans (diagnostics_reportAll ht ds)⟩

lemma finish_like {r : SiteId → SiteId → Option ℕ → Prop} {m m' : Machine}
    (h : (ofSites r).MachineLike m m') (s t : Session) : Same s t (s.finish m) (t.finish m') := by
  have hend := result_like h
  unfold finish
  generalize m.result? = result, m'.result? = result' at hend
  cases hend with
  | none => exact ⟨rfl, h.out, [], rfl, rfl⟩
  | some hend =>
    cases hend with
    | ok => exact ⟨rfl, h.out, [], rfl, rfl⟩
    | @error e _ he =>
      obtain rfl := he.eq
      exact ⟨rfl, h.out, [_], rfl, rfl⟩

theorem Passed.run (h : Passed k s t) (hs : s.Steady) (fuel : ℕ) (source : String) :
    Same s t (s.run fuel source) (t.run fuel source) := by
  have hprepare := h.prepare source
  have hdiagnostics := (prepare_found source s).2
  have hdiagnostics' := (prepare_found source t).2
  rw [h.found] at hdiagnostics'
  rcases hp : s.prepare source with ⟨program?, s₁⟩
  rcases ht : t.prepare source with ⟨program'?, t₁⟩
  rw [hp, ht] at hprepare
  rw [hp] at hdiagnostics
  rw [ht] at hdiagnostics'
  subst hprepare
  have hworld := world_prepare source s
  have hworld' := world_prepare source t
  rw [hp] at hworld
  rw [ht, h.world] at hworld'
  cases program? with
  | none =>
    rw [run_eq_staticError.2 hp, run_eq_staticError.2 ht]
    exact ⟨rfl, by rw [hworld, hworld'], _, hdiagnostics, hdiagnostics'⟩
  | some program =>
    -- The world is like itself whatever sites come next, so also where these get other numbers.
    have hweaker : Weaker s.likeness (ofSites (s.Shifted program k)) := weaker_ofSites .inl
    obtain ⟨ctxs, hlike⟩ := hs.world
    have hload := load_like (hlike.weaken hweaker) (program_like hp k)
    have hrun := run_like (h.settingLike hs hp ht) fuel hload
    have hnil : s.found source = [] := by
      by_contra hne
      have hnone := prepare_eq_none_iff.2 hne
      rw [hp] at hnone
      cases hnone
    rw [run_eq_of_prepare hp, run_eq_of_prepare ht, hworld, hworld']
    rw [hnil] at hdiagnostics hdiagnostics'
    exact (finish_like hrun s₁ t₁).ofPrepared hdiagnostics hdiagnostics'

/-- A chunk has the outcome of static errors just if one is found in it. It changes then nothing
that a program can see: not the world, and not the distance of a site whose number was given out
before. A chunk that is run after it comes to the same as one that is run without it, step by step:
the same outcome, the same output, and the same reports where all are accepted. -/
theorem rejected_unobservable (s : Session) :
    (∀ fuel source, (s.run fuel source).1 = some .staticError ↔
      lexicalErrors source ≠ [] ∨ (s.reading source).errors ≠ [] ∨
        (Binding.ofProgram (s.reading source).statements).errors ≠ []) ∧
    ∀ {fuel source t}, s.run fuel source = (some .staticError, t) →
      t.world = s.world ∧ t.natives = s.natives ∧ t.hadRuntimeError = s.hadRuntimeError ∧
      (∀ site < s.nextSite, t.distances[site]? = s.distances[site]?) ∧
      (History .discreet s → ∀ fuel next,
        (t.run fuel next).1 = (s.run fuel next).1 ∧
        (t.run fuel next).2.world.out = (s.run fuel next).2.world.out ∧
        (s.diagnostics.Accepting → ∃ written,
          (s.run fuel next).2.diagnostics.bytes = s.diagnostics.bytes ++ written ∧
          (t.run fuel next).2.diagnostics.bytes = t.diagnostics.bytes ++ written)) := by
  refine ⟨fun _ _ => outcome_eq_staticError, fun {fuel source t} hrun => ?_⟩
  have hp := run_eq_staticError.1 hrun
  obtain ⟨hfailed, k, hpassed⟩ := passed_of_prepare hp
  have hdistances : ∀ site < s.nextSite, t.distances[site]? = s.distances[site]? :=
    fun site hsite => hpassed.distances site (.inl hsite)
  refine ⟨hpassed.world, hpassed.natives, hfailed, hdistances, fun hs fuel next => ?_⟩
  have hsame := hpassed.run hs.steady fuel next
  refine ⟨hsame.outcome, hsame.out, fun hsink => hsame.bytes hsink ?_⟩
  have ht := (prepare_found source s).2
  rw [hp] at ht
  exact ht ▸ (bytes_reportAll hsink _).1

def untouched : Session := .start 1 .stopped .unlimited .unlimited

def printsLocal : List Stmt :=
  [.block [.var ⟨.identifier, "a", 5, 1⟩ none, .print (.ref 0 ⟨.identifier, "a", 13, 1⟩)]]

lemma scan_selfReading : scan "\x7bvar a=a;\x7d" =
    [.token ⟨.punct .leftBrace, "\x7b", 0, 1⟩, .token ⟨.keyword .kwVar, "var", 1, 1⟩,
      .token ⟨.identifier, "a", 5, 1⟩, .token ⟨.punct .equal, "=", 6, 1⟩,
      .token ⟨.identifier, "a", 7, 1⟩, .token ⟨.punct .semicolon, ";", 8, 1⟩,
      .token ⟨.punct .rightBrace, "\x7d", 9, 1⟩, .token ⟨.eof, "", 10, 1⟩] := by
  simp [scan, Scan.itemsFrom, Scan.munch, Scan.isBlank, Scan.isDigit, Scan.isWordStart,
    Scan.isWordPart, Scan.munchPunct, Scan.munchWord, Scan.punct?, Position.advance,
    Position.start, Scan.item?]
  and_intros <;> rfl

lemma scan_printsLocal : scan "\x7bvar a;print a;\x7d" =
    [.token ⟨.punct .leftBrace, "\x7b", 0, 1⟩, .token ⟨.keyword .kwVar, "var", 1, 1⟩,
      .token ⟨.identifier, "a", 5, 1⟩, .token ⟨.punct .semicolon, ";", 6, 1⟩,
      .token ⟨.keyword .kwPrint, "print", 7, 1⟩,
      .token ⟨.identifier, "a", 13, 1⟩, .token ⟨.punct .semicolon, ";", 14, 1⟩,
      .token ⟨.punct .rightBrace, "\x7d", 15, 1⟩, .token ⟨.eof, "", 16, 1⟩] := by
  simp [scan, Scan.itemsFrom, Scan.munch, Scan.isBlank, Scan.isDigit, Scan.isWordStart,
    Scan.isWordPart, Scan.munchPunct, Scan.munchWord, Scan.punct?, Position.advance,
    Position.start, Scan.item?]
  and_intros <;> rfl

lemma prepare_printsLocal : untouched.prepare "\x7bvar a;print a;\x7d" =
    (some printsLocal, { untouched with nextSite := 1 }.record [(0, 0)]) := by
  refine prepare_eq_some.2 ⟨?_, rfl, 1, ?_, rfl⟩
  · rw [lexicalErrors, scan_printsLocal]
    rfl
  · rw [← Grammar.ofTokens_exact, tokens, scan_printsLocal]
    rfl

lemma run_printsLocal : ∃ t, untouched.run 12 "\x7bvar a;print a;\x7d" = (some .completed, t) ∧
    t.world.out.bytes = utf8 "nil\n" ∧ t.diagnostics.bytes = [] := by
  have hread : (Machine.load printsLocal untouched.world).run
      ({ untouched with nextSite := 1 }.record [(0, 0)]).setting 6 =
    ⟨.eval (.ref 0 ⟨.identifier, "a", 13, 1⟩),
      [.print (some 1), .sequence [], .leaveBlock 0, .sequence []],
      untouched.world.enterBlock.bind "a" .nil⟩ := rfl
  have hdistance : ({ untouched with nextSite := 1 }.record [(0, 0)]).setting.distances[0]? =
      some 0 := Std.HashMap.getElem?_insert_self
  have hvalue : (untouched.world.enterBlock.bind "a" .nil).lookUp?
      ({ untouched with nextSite := 1 }.record [(0, 0)]).setting 0 "a" = some .nil := by
    rw [World.lookUp?, hdistance]
    rfl
  have hrun : ∃ world, (Machine.load printsLocal untouched.world).run
      ({ untouched with nextSite := 1 }.record [(0, 0)]).setting 12 = ⟨.yield .nil, [], world⟩ ∧
        world.out.bytes = utf8 "nil\n" := by
    rw [Machine.run_add _ 6 6, hread, Machine.run_succ rfl]
    simp only [Machine.step, Machine.stepExpr, hvalue]
    exact ⟨_, rfl, rfl⟩
  obtain ⟨world, hrun, hout⟩ := hrun
  exact ⟨_, (run_of_ok prepare_printsLocal hrun rfl).1, hout, rfl⟩

theorem selfReading_rejected : ∃ t, untouched.run 0 "\x7bvar a=a;\x7d" = (some .staticError, t) ∧
    (t.run 12 "\x7bvar a;print a;\x7d").1 = some .completed ∧
    (t.run 12 "\x7bvar a;print a;\x7d").2.world.out.bytes = utf8 "nil\n" ∧
    (t.run 12 "\x7bvar a;print a;\x7d").2.diagnostics.bytes = t.diagnostics.bytes := by
  obtain ⟨hiff, hrejected⟩ := rejected_unobservable untouched
  have herror : (untouched.run 0 "\x7bvar a=a;\x7d").1 = some .staticError := by
    refine (hiff 0 _).2 (.inr (.inr ?_))
    rw [reading, tokens, scan_selfReading]
    nofun
  obtain ⟨-, -, -, -, hnext⟩ := hrejected (Prod.ext herror rfl)
  obtain ⟨houtcome, hout, hreports⟩ :=
    hnext (.start 1 .stopped .unlimited .unlimited) 12 "\x7bvar a;print a;\x7d"
  obtain ⟨written, hwritten, hbytes⟩ := hreports fun _ _ => rfl
  obtain ⟨t, hrun, hprinted, hsilent⟩ := run_printsLocal
  rw [hrun] at houtcome hout hwritten
  have hstart : untouched.diagnostics.bytes = [] := rfl
  rw [hsilent, hstart, List.nil_append] at hwritten
  refine ⟨_, Prod.ext herror rfl, houtcome, hout ▸ hprinted, ?_⟩
  rw [hbytes, ← hwritten, List.append_nil]

end Session

end Lox
