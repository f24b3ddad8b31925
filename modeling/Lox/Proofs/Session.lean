import Lox.Session
import Lox.Proofs.Grammar.Sites
import Lox.Proofs.Native
import Lox.Proofs.Runs
import Lox.Proofs.Store

/-! What the parts of a session change. -/

namespace Lox.Session

lemma getElem?_foldl_insert {entries : List (SiteId × Nat)}
    (hn : (entries.map Prod.fst).Nodup) (table : Std.HashMap SiteId Nat) (a : SiteId) :
    (entries.foldl (fun table (site, d) => table.insert site d) table)[a]? =
      (entries.lookup a).or table[a]? := by
  induction entries generalizing table with
  | nil => rfl
  | cons entry entries ih =>
    obtain ⟨site, d⟩ := entry
    rw [List.map_cons, List.nodup_cons] at hn
    rw [List.foldl_cons, ih hn.2, Std.HashMap.getElem?_insert, List.lookup_cons]
    by_cases h : a = site
    · subst h
      have hl : entries.lookup a = none := by
        rw [List.lookup_eq_none_iff]
        rintro ⟨b, d'⟩ hb
        have hmem : b ∈ entries.map Prod.fst := List.mem_map_of_mem hb
        exact bne_iff_ne.2 fun h : a = b => hn.1 (h ▸ hmem)
      simp [hl]
    · have hs : (site == a) = false := beq_false_of_ne (Ne.symm h)
      have ha : (a == site) = false := beq_false_of_ne h
      simp [hs, ha]

theorem getElem?_record {program : List Stmt}
    (hn : ((Stmt.listUses program).map Prod.fst).Nodup) (s : Session) (a : SiteId) :
    (s.record (Binding.ofProgram program).distances).distances[a]? =
      (Binding.recorded program a).or s.distances[a]? :=
  getElem?_foldl_insert (Binding.distances_nodup hn) s.distances a

lemma nodup_of_reads {program : List Stmt} {u : List Token} {i j : SiteId} {a : Grammar.Ahead}
    (h : Grammar.ReadsDecls program u i j a) : ((Stmt.listUses program).map Prod.fst).Nodup :=
  (Grammar.decls_sound h).1.nodup

lemma recorded_of_outside {program : List Stmt} {u : List Token} {i j : SiteId}
    {a : Grammar.Ahead} (h : Grammar.ReadsDecls program u i j a) {site : SiteId}
    (hs : site < i ∨ j ≤ site) : Binding.recorded program site = none := by
  rw [Binding.recorded, List.lookup_eq_none_iff]
  rintro ⟨b, d⟩ hb
  rw [Binding.ofProgram_eq] at hb
  have hmem := Binding.use_of_entry hb
  rw [Binding.uses_visits] at hmem
  obtain ⟨hle, hlt⟩ := (Grammar.decls_sound h).1.range b hmem
  refine bne_iff_ne.2 ?_
  rintro rfl
  rcases hs with hs | hs
  · exact Nat.not_lt.2 hle hs
  · exact Nat.not_le.2 hlt hs

lemma getElem?_record_of_outside {program : List Stmt} {u : List Token} {i j : SiteId}
    {a : Grammar.Ahead} (h : Grammar.ReadsDecls program u i j a) (s : Session) {site : SiteId}
    (hs : site < i ∨ j ≤ site) :
    (s.record (Binding.ofProgram program).distances).distances[site]? = s.distances[site]? := by
  rw [getElem?_record (nodup_of_reads h), recorded_of_outside h hs, Option.none_or]

lemma reportAll_eq (ds : List Diagnostic) (s : Session) : ∃ failed sink,
    s.reportAll ds = { s with hadError := failed, diagnostics := sink } := by
  induction ds generalizing s with
  | nil => exact ⟨_, _, rfl⟩
  | cons d ds ih =>
    obtain ⟨failed, sink, h⟩ := ih (s.report d)
    exact ⟨failed, sink, h⟩

def tokens (source : String) : List Token := (scan source).filterMap Item.token?

def lexicalErrors (source : String) : List LexicalError := (scan source).filterMap Item.error?

def reading (source : String) (s : Session) : Reading :=
  Reading.ofTokens s.nextSite (tokens source)

def afterReading (source : String) (s : Session) : Session :=
  { (s.reportAll ((lexicalErrors source).map (·.diagnostic))).reportAll
      ((s.reading source).errors.map (·.diagnostic (Grammar.endLine (tokens source)))) with
    nextSite := (s.reading source).nextSite }

lemma prepare_eq (source : String) (s : Session) : s.prepare source =
    if (lexicalErrors source).isEmpty && (s.reading source).errors.isEmpty then
      (if (Binding.ofProgram (s.reading source).statements).errors.isEmpty then
          some (s.reading source).statements
        else none,
        ((s.afterReading source).record
          (Binding.ofProgram (s.reading source).statements).distances).reportAll
            ((Binding.ofProgram (s.reading source).statements).errors.map (·.diagnostic)))
    else (none, s.afterReading source) := rfl

lemma afterReading_eq (source : String) (s : Session) : ∃ failed sink, s.afterReading source =
    { s with
      hadError := failed, diagnostics := sink, nextSite := (s.reading source).nextSite } := by
  obtain ⟨_, _, h⟩ := reportAll_eq ((lexicalErrors source).map (·.diagnostic)) s
  obtain ⟨_, _, h'⟩ := reportAll_eq
    ((s.reading source).errors.map (·.diagnostic (Grammar.endLine (tokens source))))
    (s.reportAll ((lexicalErrors source).map (·.diagnostic)))
  rw [afterReading, h', h]
  exact ⟨_, _, rfl⟩

lemma afterReading_of_no_errors {source : String} {s : Session} (hl : lexicalErrors source = [])
    (hr : (s.reading source).errors = []) :
    s.afterReading source = { s with nextSite := (s.reading source).nextSite } := by
  rw [afterReading, hl, hr]
  rfl

theorem prepare_eq_some {source : String} {s s' : Session} {program : List Stmt} :
    s.prepare source = (some program, s') ↔ lexicalErrors source = [] ∧
      (Binding.ofProgram program).errors = [] ∧ ∃ j,
        Grammar.ReadsDecls program (Grammar.beforeEnd (tokens source)) s.nextSite j none ∧
        s' = { s with nextSite := j }.record (Binding.ofProgram program).distances := by
  simp only [← Grammar.ofTokens_exact]
  rw [prepare_eq]
  constructor
  · intro h
    split at h
    · next hc =>
      rw [Bool.and_eq_true, List.isEmpty_iff, List.isEmpty_iff] at hc
      obtain ⟨hl, hr⟩ := hc
      obtain ⟨hp, rfl⟩ := Prod.mk.inj h
      split at hp
      · next hb =>
        rw [List.isEmpty_iff] at hb
        obtain rfl := Option.some.inj hp
        refine ⟨hl, hb, (s.reading source).nextSite, ?_, ?_⟩
        · rw [← hr]
          rfl
        · rw [hb, afterReading_of_no_errors hl hr]
          rfl
      · cases hp
    · cases h
  · rintro ⟨hl, hb, j, hr, rfl⟩
    have hreading : s.reading source = ⟨program, [], j⟩ := hr
    have herrors : (s.reading source).errors = [] := by rw [hreading]
    rw [afterReading_of_no_errors hl herrors, hreading, hl, hb]
    rfl

lemma prepare_extends {source : String} {s s' : Session} {program : List Stmt}
    (h : s.prepare source = (some program, s')) :
    ∃ distances j, s' = { s with distances := distances, nextSite := j } ∧ s.nextSite ≤ j ∧
      ∀ site, site < s.nextSite ∨ j ≤ site → distances[site]? = s.distances[site]? := by
  obtain ⟨-, -, j, hr, rfl⟩ := prepare_eq_some.1 h
  exact ⟨_, j, rfl, (Grammar.decls_sound hr).1.le, fun _ hsite =>
    getElem?_record_of_outside hr s hsite⟩

theorem prepare_eq_none {source : String} {s s' : Session} (h : s.prepare source = (none, s')) :
    ∃ failed sink distances j, s' = { s with
        hadError := failed, diagnostics := sink, distances := distances, nextSite := j } ∧
      s.nextSite ≤ j ∧
        ∀ site, site < s.nextSite ∨ j ≤ site → distances[site]? = s.distances[site]? := by
  have hle : s.nextSite ≤ (s.reading source).nextSite := Grammar.le_nextSite _ _
  obtain ⟨failed, sink, ha⟩ := s.afterReading_eq source
  rw [prepare_eq] at h
  split at h
  · next hc =>
    rw [Bool.and_eq_true, List.isEmpty_iff, List.isEmpty_iff] at hc
    have hreads : Grammar.ReadsDecls (s.reading source).statements
        (Grammar.beforeEnd (tokens source)) s.nextSite (s.reading source).nextSite none := by
      rw [← Grammar.ofTokens_exact, ← hc.2]
      rfl
    obtain ⟨-, rfl⟩ := Prod.mk.inj h
    obtain ⟨failed', sink', hs⟩ := reportAll_eq
      ((Binding.ofProgram (s.reading source).statements).errors.map (·.diagnostic))
      ((s.afterReading source).record
        (Binding.ofProgram (s.reading source).statements).distances)
    rw [hs, ha]
    exact ⟨_, _, _, _, rfl, hle, fun _ hsite => getElem?_record_of_outside hreads s hsite⟩
  · obtain ⟨-, rfl⟩ := Prod.mk.inj h
    rw [ha]
    exact ⟨_, _, _, _, rfl, hle, fun _ _ => rfl⟩

lemma finish_eq {m : Machine} {s s' : Session} {outcome : Outcome}
    (h : s.finish m = (some outcome, s')) : m.isOver = true ∧ ∃ failed failed' sink,
      s' = { s with
        world := m.world, hadError := failed, hadRuntimeError := failed',
        diagnostics := sink } := by
  obtain ⟨control, pending, w⟩ := m
  rw [finish] at h
  cases pending with
  | cons => cases control <;> cases h
  | nil =>
    cases control with
    | eval | exec => cases h
    | yield | returning | failing =>
      cases h
      exact ⟨rfl, _, _, _, rfl⟩

lemma run_eq_of_prepare {source : String} {s s₁ : Session} {program : List Stmt}
    (h : s.prepare source = (some program, s₁)) (fuel : ℕ) :
    s.run fuel source = s₁.finish ((Machine.load program s₁.world).run s₁.setting fuel) := by
  rw [run, h]

lemma world_finish (m : Machine) (s : Session) : (s.finish m).2.world = m.world := by
  unfold finish
  cases m.result? with
  | none => rfl
  | some result => cases result <;> rfl

lemma world_prepare (source : String) (s : Session) : (s.prepare source).2.world = s.world := by
  rcases hp : s.prepare source with ⟨_ | program, s₁⟩
  · obtain ⟨_, _, _, _, rfl, -, -⟩ := prepare_eq_none hp
    rfl
  · obtain ⟨_, _, rfl, -, -⟩ := prepare_extends hp
    rfl

lemma outcome_finish (m : Machine) (s : Session) : (s.finish m).1 ≠ some .staticError := by
  unfold finish
  cases m.result? with
  | none => nofun
  | some result => cases result <;> nofun

theorem run_eq_staticError {source : String} {s s' : Session} {fuel : ℕ} :
    s.run fuel source = (some .staticError, s') ↔ s.prepare source = (none, s') := by
  rcases hp : s.prepare source with ⟨_ | program, s₁⟩
  · rw [run, hp, Prod.mk.injEq, Prod.mk.injEq]
    simp
  · rw [run_eq_of_prepare hp]
    constructor
    · exact fun h => absurd (congrArg Prod.fst h) (outcome_finish _ _)
    · nofun

theorem run_written {source : String} {s s' : Session} {fuel : ℕ} {outcome? : Option Outcome}
    (h : s.run fuel source = (outcome?, s')) :
    s.world.out.bytes <+: s'.world.out.bytes := by
  apply Sink.bytes_of_suffix
  rcases hp : s.prepare source with ⟨program?, s₁⟩
  cases program? with
  | none =>
    obtain ⟨_, _, _, _, rfl, -, -⟩ := prepare_eq_none hp
    rw [run, hp] at h
    obtain ⟨-, rfl⟩ := Prod.mk.inj h
    exact List.suffix_rfl
  | some program =>
    obtain ⟨_, _, rfl, -, -⟩ := prepare_extends hp
    rw [run_eq_of_prepare hp] at h
    have hworld := congrArg (fun r => r.2.world) h
    rw [← hworld]
    simp only [world_finish]
    exact Machine.writes_run _ fuel (.load program s.world)

def failure? (fuel : ℕ) (source : String) (s : Session) : Option RuntimeError :=
  match s.prepare source with
  | (none, _) => none
  | (some program, s) =>
    match ((Machine.load program s.world).run s.setting fuel).result? with
    | some (.error e) => some e
    | _ => none

section

variable {source : String} {s s₁ s' : Session} {program : List Stmt} {fuel : ℕ} {m : Machine}
  (hp : s.prepare source = (some program, s₁))
  (hm : (Machine.load program s₁.world).run s₁.setting fuel = m)

include hp hm

lemma run_of_ok {v : Value} (hr : m.result? = some (.ok v)) :
    s.run fuel source = (some .completed, { s₁ with world := m.world }) ∧
      s.failure? fuel source = none := by
  subst hm
  constructor
  · rw [run_eq_of_prepare hp, finish, hr]
  · simp only [failure?, hp, hr]

lemma run_of_error {e : RuntimeError} (hr : m.result? = some (.error e)) :
    s.run fuel source = (some .runtimeError,
        { s₁ with world := m.world, hadRuntimeError := true }.report e.diagnostic) ∧
      s.failure? fuel source = some e := by
  subst hm
  constructor
  · rw [run_eq_of_prepare hp, finish, hr]
  · simp only [failure?, hp, hr]

end

lemma run_cases {source : String} {s s' : Session} {fuel : ℕ} {outcome : Outcome}
    (h : s.run fuel source = (some outcome, s')) (ho : outcome ≠ .staticError) :
    ∃ program s₁ result, s.prepare source = (some program, s₁) ∧
      ((Machine.load program s₁.world).run s₁.setting fuel).result? = some result := by
  rcases hp : s.prepare source with ⟨program?, s₁⟩
  cases program? with
  | none =>
    rw [run, hp] at h
    cases h
    exact absurd rfl ho
  | some program =>
    rw [run_eq_of_prepare hp, finish] at h
    cases hr : ((Machine.load program s₁.world).run s₁.setting fuel).result? with
    | none =>
      rw [hr] at h
      cases h
    | some result => exact ⟨program, s₁, result, rfl, hr⟩

lemma run_completed {source : String} {s s' : Session} {fuel : ℕ}
    (h : s.run fuel source = (some .completed, s')) : ∃ program s₁ v,
      s.prepare source = (some program, s₁) ∧
      ((Machine.load program s₁.world).run s₁.setting fuel).result? = some (.ok v) ∧
      s' = { s₁ with world := ((Machine.load program s₁.world).run s₁.setting fuel).world } := by
  obtain ⟨program, s₁, result, hp, hr⟩ := run_cases h nofun
  cases result with
  | ok v =>
    rw [(run_of_ok hp rfl hr).1] at h
    cases h
    exact ⟨program, s₁, v, hp, hr, rfl⟩
  | error e =>
    rw [(run_of_error hp rfl hr).1] at h
    cases h

section

variable (depth : Nat) (clock : Clock) (out diagnostics : Sink)

lemma size_start : (start depth clock out diagnostics).world.store.frames.size = 1 :=
  Store.size_define ..

lemma isData_start {f : FrameId} {name : String} {v : Value}
    (h : (start depth clock out diagnostics).world.store.local? f name = some v) : v.IsData := by
  have hlt : Store.globals < Store.initial.frames.size := Nat.zero_lt_one
  change (Store.initial.define Store.globals "clock" (.native 0)).local? f name = some v at h
  rw [Store.local?_define _ _ _ _ _ _ hlt] at h
  split at h
  · obtain rfl := Option.some.inj h
    trivial
  · cases f with
    | zero => cases h
    | succ f =>
      rw [Store.local?_eq_none (Nat.succ_le_succ (Nat.zero_le f))] at h
      cases h

lemma uniform_start : ∀ native ∈ (start depth clock out diagnostics).natives, native.Uniform := by
  intro native h
  obtain rfl : native = .clock := by simpa [start, defineNative, makeNative, defineGlobal] using h
  exact Native.uniform_clock

end

end Lox.Session
