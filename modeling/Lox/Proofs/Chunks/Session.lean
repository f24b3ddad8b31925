import Lox.Proofs.Chunks.Likeness
import Lox.Proofs.Chunks.Reading
import Lox.Proofs.Likeness.Visits

/-! Two chunks that are run one after the other come to what both come to as one chunk. -/

namespace Lox.Chunks

open Binding Frames Likeness

variable {programs : List (List Stmt)} {bodies : List (List Scope)} {s s' s₁ s₂ : Session}
  {first second : String} {p q : List Stmt}

lemma settled (h : Known s q) {v : Visit} (hv : v ∈ visits q) : (likeness s).Settled v := by
  rintro site name b d hu ⟨-, -, hd⟩
  rw [← hd, h.table site (mem_uses_of_visit hv hu)]
  exact recorded_of_visit h.nodup hv hu

lemma program_like {f : Token → Token} (hf : Overlooks (likeness s) f) (h : Known s q) :
    (likeness s).StmtsLike false (likeness s).outside q (Stmt.listMapTokens f q) := by
  have hcovers : ∀ u ∈ Stmt.listUses q, Covers (likeness s) u := fun u hu =>
    covers (h.numbered u.1 (List.mem_map_of_mem hu)) u.2
  exact stmtsLike_map (keeps s) hf ⟨hcovers, fun _ _ => trivial, .inr (strays_of_accepted h.bound)⟩

lemma prepare_append (hp : s.prepare first = (some p, s₁)) (hn : s'.nextSite = s₁.nextSite)
    (hd : s'.distances = s₁.distances) (hq : s'.prepare second = (some q, s₂))
    (hk : Known s₂ q) : ∃ q', (likeness s₂).StmtsLike false (likeness s₂).outside q q' ∧
      s.prepare (first ++ "\n" ++ second) =
        (some (p ++ q'), { s with nextSite := s₂.nextSite, distances := s₂.distances }) := by
  obtain ⟨hl, hb, k, hr, rfl⟩ := Session.prepare_eq_some.1 hp
  obtain ⟨hl', hb', j, hr', rfl⟩ := Session.prepare_eq_some.1 hq
  rw [hn] at hr'
  obtain ⟨bytes, lines, hboth⟩ := Session.reads_append hl second hr hr'
  have hshift : Overlooks (likeness ({ s' with nextSite := j }.record
      (Binding.ofProgram q).distances)) (Token.shift bytes lines) :=
    ⟨fun _ => rfl, fun _ => rfl, fun _ => trivial⟩
  have hlike := program_like hshift hk
  obtain ⟨hdistances, herrors⟩ :=
    ofProgram_like_same hlike (fun v hv => settled hk hv) (fun hab => hab.1) hb'
  refine ⟨_, hlike, Session.prepare_eq_some.2
    ⟨Session.lexicalErrors_append hl hl', ?_, j, hboth, ?_⟩⟩
  · rw [ofProgram_append]
    exact List.append_eq_nil_iff.2 ⟨hb, herrors⟩
  · simp only [Session.record, ofProgram_append, hdistances, List.foldl_append, hd]

lemma run_resume (t : Setting) (v : Value) (b : List Stmt) (w : World) {n : ℕ} (hn : n ≠ 0) :
    Machine.run t n ⟨.yield v, [.sequence b], w⟩ = (Machine.load b w).run t n := by
  obtain ⟨n, rfl⟩ := Nat.exists_eq_succ_of_ne_zero hn
  cases b <;> rfl

lemma isOver_of_result {m : Machine} {result : Except RuntimeError Value}
    (h : m.result? = some result) : m.isOver = true := by
  obtain ⟨c, ps, w⟩ := m
  cases c <;> cases ps <;> first | rfl | cases h

lemma run_append_like {t : Setting} {f₁ f₂ : ℕ} {q' : List Stmt} {v : Value}
    {result : Except RuntimeError Value} (hfits : SessionFits (p :: programs) bodies s₁)
    (ht₁ : (likeness s₁).SettingLike s₁.setting t)
    (hr₁ : ((Machine.load p s₁.world).run s₁.setting f₁).result? = some (.ok v))
    (hw : s₂.world = ((Machine.load p s₁.world).run s₁.setting f₁).world)
    (hweaker : Weaker (likeness s₁) (likeness s₂))
    (ht₂ : (likeness s₂).SettingLike s₂.setting t)
    (hq : (likeness s₂).StmtsLike false (likeness s₂).outside q q')
    (hr₂ : ((Machine.load q s₂.world).run s₂.setting f₂).result? = some result)
    {fuel : ℕ} (hfuel : f₁ + f₂ ≤ fuel) :
    (likeness s₂).MachineLike ((Machine.load q s₂.world).run s₂.setting f₂)
      ((Machine.load (p ++ q') s₁.world).run t fuel) := by
  have hself := program_like (overlooks_id (keeps s₁)) (hfits.known p List.mem_cons_self)
  rw [Stmt.listMapTokens_id] at hself
  -- The table of the whole program has the same distances for all sites that run before its second
  -- part, so up to there the two runs are alike.
  have hlike₁ := run_like ht₁ f₁ (load_like (worldLike_self hfits) hself)
  obtain ⟨ctxs, ctx, v', w', hend, hworld⟩ := hlike₁.ended hr₁
  obtain rfl : ctx = (likeness s₁).outside := Subsingleton.elim _ _
  obtain ⟨k, hk, u, hrun⟩ := Machine.run_sequence (m := ⟨.yield .nil, [], s₁.world⟩) hend q'
  obtain ⟨n, rfl⟩ := Nat.exists_eq_add_of_le (Nat.le_trans (Nat.add_le_add_right hk f₂) hfuel)
  have hover := isOver_of_result hr₂
  have hn : f₂ + n ≠ 0 := by
    rintro h
    rw [Nat.eq_zero_of_add_eq_zero_right h] at hover
    cases hover
  have hlike₂ := run_like ht₂ (f₂ + n) (load_like (hw ▸ hworld.weaken hweaker) hq)
  have hsplit : (Machine.load (p ++ q') s₁.world).run t (k + f₂ + n) =
      (Machine.load q' w').run t (f₂ + n) := by
    rw [Nat.add_assoc, Machine.run_add, ← run_resume t u q' w' hn, ← hrun]
    rfl
  rw [hsplit]
  rwa [Machine.run_of_le (Nat.le_add_right f₂ n) hover] at hlike₂

lemma fault_like {e e' : RuntimeError} (h : (likeness s).ErrorLike e e') : e'.fault = e.fault := by
  obtain ⟨fault, line⟩ := e
  obtain ⟨fault', line'⟩ := e'
  have hfault : (likeness s).FaultLike fault fault' := h.fault
  cases hfault <;> rfl

lemma outcome_like {a a₁ a' b b₁ : Session} {source source' : String} {m m' : Machine}
    {fuel fuel' : ℕ} {outcome : Outcome} {result : Except RuntimeError Value}
    (hq : a.prepare source = (some q, a₁)) (hm : (Machine.load q a₁.world).run a₁.setting fuel = m)
    (hp : b.prepare source' = (some p, b₁))
    (hm' : (Machine.load p b₁.world).run b₁.setting fuel' = m')
    (hlike : (likeness s).MachineLike m m') (hr : m.result? = some result)
    (h : a.run fuel source = (some outcome, a')) :
    a'.world = m.world ∧ a'.nextSite = a₁.nextSite ∧
      ∃ b', b.run fuel' source' = (some outcome, b') ∧ b'.world = m'.world ∧
        b'.nextSite = b₁.nextSite ∧
        (b.failure? fuel' source').map (·.fault) = (a.failure? fuel source).map (·.fault) := by
  have hend := result_like hlike
  rw [hr] at hend
  cases hr' : m'.result? with
  | none =>
    rw [hr'] at hend
    cases hend
  | some result' =>
    rw [hr'] at hend
    cases hend with
    | some hend =>
      cases hend with
      | ok v v' =>
        obtain ⟨hrun, hnone⟩ := Session.run_of_ok hq hm hr
        obtain ⟨hrun', hnone'⟩ := Session.run_of_ok hp hm' hr'
        rw [hrun] at h
        cases h
        exact ⟨rfl, rfl, _, hrun', rfl, rfl, by rw [hnone, hnone']⟩
      | error he =>
        obtain ⟨hrun, hsome⟩ := Session.run_of_error hq hm hr
        obtain ⟨hrun', hsome'⟩ := Session.run_of_error hp hm' hr'
        rw [hrun] at h
        cases h
        exact ⟨rfl, rfl, _, hrun', rfl, rfl, by
          rw [hsome, hsome', Option.map_some, Option.map_some, fault_like he]⟩

/-- Let a chunk be completed and the chunk after it be run to its end. As one chunk, with a line end
between them, they have the outcome of the second and write what both wrote; an error is the same
but for its line, and the next site gets the same number. -/
theorem run_append (h : Reached programs bodies s) {f₁ f₂ : ℕ} {outcome : Outcome}
    (hfirst : s.run f₁ first = (some .completed, s₁))
    (hsecond : s₁.run f₂ second = (some outcome, s₂)) (ho : outcome ≠ .staticError)
    {fuel : ℕ} (hfuel : f₁ + f₂ ≤ fuel) :
    ∃ s' written written', s.run fuel (first ++ "\n" ++ second) = (some outcome, s') ∧
      s₁.world.out.bytes = s.world.out.bytes ++ written ∧
      s₂.world.out.bytes = s₁.world.out.bytes ++ written' ∧
      s'.world.out.bytes = s.world.out.bytes ++ (written ++ written') ∧
      (s.failure? fuel (first ++ "\n" ++ second)).map (·.fault) =
        (s₁.failure? f₂ second).map (·.fault) ∧
      s'.nextSite = s₂.nextSite := by
  obtain ⟨p, t₁, v, hp, hr₁, hs₁⟩ := Session.run_completed hfirst
  obtain ⟨q, t₂, result, hq, hr₂⟩ := Session.run_cases hsecond ho
  have hfits₁ := ((reached_fits h).prepare hp).1
  have hfits₂ := ((reached_fits (h.run hp hfirst)).prepare hq).1
  have hnext : s₁.nextSite = t₁.nextSite := by rw [hs₁]
  have htable : s₁.distances = t₁.distances := by rw [hs₁]
  obtain ⟨q', hlike, hwhole⟩ :=
    prepare_append hp hnext htable hq (hfits₂.known q List.mem_cons_self)
  obtain ⟨table₁, j₁, ht₁, -, -⟩ := Session.prepare_extends hp
  obtain ⟨table₂, j₂, ht₂, hle, hkeep⟩ := Session.prepare_extends hq
  -- The session in which the whole program runs: that of the second chunk, but for the world.
  set t : Session := { s with nextSite := t₂.nextSite, distances := t₂.distances }
  have hearlier : ∀ site < t₁.nextSite, t₂.distances[site]? = t₁.distances[site]? := by
    intro site hsite
    rw [ht₂, ← htable]
    exact hkeep site (.inl (hnext ▸ hsite))
  have hlater : t₁.nextSite ≤ t₂.nextSite := by
    rw [ht₂, ← hnext]
    exact hle
  have hset₁ : (likeness t₁).SettingLike t₁.setting t.setting :=
    settingLike (by rw [ht₁]) (by rw [ht₁]) hfits₁.natives hearlier
  have hset₂ : (likeness t₂).SettingLike t₂.setting t.setting :=
    settingLike (by rw [ht₂, hs₁, ht₁]) (by rw [ht₂, hs₁, ht₁]) hfits₂.natives fun _ _ => rfl
  have hworld : t₂.world = ((Machine.load p t₁.world).run t₁.setting f₁).world := by rw [ht₂, hs₁]
  have hlike := run_append_like hfits₁ hset₁ hr₁ hworld (weaker hlater hearlier) hset₂ hlike hr₂
    hfuel
  have hstart : t₁.world = s.world := by rw [ht₁]
  rw [hstart] at hlike
  obtain ⟨hw₂, hn₂, s', hrun, hw', hn', hfailure⟩ :=
    outcome_like hq rfl hwhole rfl hlike hr₂ hsecond
  obtain ⟨written, hbytes⟩ := Session.run_written hfirst
  obtain ⟨written', hbytes'⟩ := Session.run_written hsecond
  have hout : s'.world.out = s₂.world.out := by rw [hw', hw₂, hlike.out]
  refine ⟨s', written, written', hrun, hbytes.symm, hbytes'.symm, ?_, hfailure, ?_⟩
  · rw [hout, ← hbytes', ← hbytes, List.append_assoc]
  · rw [hn', hn₂]

def declares : List Stmt := [.var ⟨.identifier, "a", 4, 1⟩ none]

def calls : List Stmt :=
  [.print (.literal .nil),
    .expression (.call (.ref 0 ⟨.identifier, "a", 10, 1⟩) ⟨.punct .rightParen, ")", 12, 1⟩ [])]

def beforeDeclares : Session := .start 1 .stopped .unlimited .unlimited

def afterDeclares : Session :=
  { beforeDeclares with world := beforeDeclares.world.define Store.globals "a" .nil }

lemma scan_declares : scan "var a;" =
    [.token ⟨.keyword .kwVar, "var", 0, 1⟩, .token ⟨.identifier, "a", 4, 1⟩,
      .token ⟨.punct .semicolon, ";", 5, 1⟩, .token ⟨.eof, "", 6, 1⟩] := by
  simp [scan, Scan.itemsFrom, Scan.munch, Scan.isBlank, Scan.isDigit, Scan.isWordStart,
    Scan.isWordPart, Scan.munchPunct, Scan.munchWord, Scan.punct?, Position.advance,
    Position.start, Scan.item?]
  and_intros <;> rfl

lemma scan_calls : scan "print nil;a();" =
    [.token ⟨.keyword .kwPrint, "print", 0, 1⟩, .token ⟨.keyword .kwNil, "nil", 6, 1⟩,
      .token ⟨.punct .semicolon, ";", 9, 1⟩, .token ⟨.identifier, "a", 10, 1⟩,
      .token ⟨.punct .leftParen, "(", 11, 1⟩, .token ⟨.punct .rightParen, ")", 12, 1⟩,
      .token ⟨.punct .semicolon, ";", 13, 1⟩, .token ⟨.eof, "", 14, 1⟩] := by
  simp [scan, Scan.itemsFrom, Scan.munch, Scan.isBlank, Scan.isDigit, Scan.isWordStart,
    Scan.isWordPart, Scan.munchPunct, Scan.munchWord, Scan.punct?, Position.advance,
    Position.start, Scan.item?]
  and_intros <;> rfl

lemma prepare_declares : beforeDeclares.prepare "var a;" = (some declares, beforeDeclares) := by
  refine Session.prepare_eq_some.2 ⟨?_, rfl, 0, ?_, rfl⟩
  · rw [Session.lexicalErrors, scan_declares]
    rfl
  · rw [← Grammar.ofTokens_exact, Session.tokens, scan_declares]
    rfl

lemma prepare_calls : afterDeclares.prepare "print nil;a();" =
    (some calls, { afterDeclares with nextSite := 1 }) := by
  refine Session.prepare_eq_some.2 ⟨?_, rfl, 1, ?_, rfl⟩
  · rw [Session.lexicalErrors, scan_calls]
    rfl
  · rw [← Grammar.ofTokens_exact, Session.tokens, scan_calls]
    rfl

lemma lookUp_declared {w : World} (hw : w.store = afterDeclares.world.store) :
    w.lookUp? afterDeclares.setting 0 "a" = some .nil := by
  have hnone : afterDeclares.setting.distances[0]? = none := Std.HashMap.getElem?_empty
  simp only [World.lookUp?, hnone, Store.get?_globals, hw]
  rfl

lemma run_calls : ∃ world, (Machine.load calls afterDeclares.world).run afterDeclares.setting 12 =
    ⟨.failing ⟨.notCallable, 1⟩, [], world⟩ ∧ world.out.bytes = utf8 "nil\n" := by
  have hread : (Machine.load calls afterDeclares.world).run afterDeclares.setting 7 =
      ⟨.eval (.ref 0 ⟨.identifier, "a", 10, 1⟩),
        [.callee ⟨.punct .rightParen, ")", 12, 1⟩ [], .sequence []],
        (afterDeclares.world.print .nil).2⟩ := rfl
  have hvalue := lookUp_declared (w := (afterDeclares.world.print .nil).2) rfl
  refine ⟨(afterDeclares.world.print .nil).2, ?_, rfl⟩
  rw [Machine.run_add _ 7 5, hread, Machine.run_succ rfl]
  simp only [Machine.step, Machine.stepExpr, hvalue]
  rfl

theorem declares_append_calls : ∃ s', beforeDeclares.run 15 ("var a;" ++ "\n" ++ "print nil;a();") =
      (some .runtimeError, s') ∧ s'.world.out.bytes = utf8 "nil\n" ∧
      (beforeDeclares.failure? 15 ("var a;" ++ "\n" ++ "print nil;a();")).map (·.fault) =
        some .notCallable ∧
      s'.nextSite = 1 := by
  obtain ⟨world, hrun, hbytes⟩ := run_calls
  have hfirst : beforeDeclares.run 3 "var a;" = (some .completed, afterDeclares) :=
    (Session.run_of_ok (v := .nil) prepare_declares rfl rfl).1
  obtain ⟨hsecond, hfailure⟩ := Session.run_of_error prepare_calls hrun rfl
  obtain ⟨s', written, written', hboth, hw, hw', hwhole, hfault, hnext⟩ :=
    run_append (.start 1 .stopped .unlimited .unlimited) hfirst hsecond nofun (Nat.le_refl _)
  refine ⟨s', hboth, ?_, hfault.trans (by rw [hfailure]; rfl), hnext⟩
  rw [hwhole, ← List.append_assoc, ← hw, ← hw']
  exact hbytes

end Lox.Chunks
