import Lox.Proofs.History
import Lox.Proofs.Reports

/-! What the flags of a session say of the chunks that were run in it, and that it does not matter
where the reports go. -/

namespace Lox.Session

section

variable {s s₁ : Session} {source : String} {fuel : ℕ} {program : List Stmt}

def reported (fuel : ℕ) (source : String) (s : Session) : List Diagnostic :=
  if (s.found source).isEmpty then ((s.failure? fuel source).map (·.diagnostic)).toList
  else s.found source

lemma any_isStatic_found (source : String) (s : Session) :
    (s.found source).any (·.isStatic) = !(s.found source).isEmpty := by
  have hall : ∀ d ∈ s.found source, d.isStatic = true := by
    intro d hd
    simp only [found, List.mem_append, List.mem_map] at hd
    rcases hd with (⟨e, -, rfl⟩ | ⟨e, -, rfl⟩) | hd
    · rfl
    · rfl
    · split at hd
      · obtain ⟨e, -, rfl⟩ := List.mem_map.1 hd
        rfl
      · cases hd
  cases hfound : s.found source with
  | nil => rfl
  | cons d ds =>
    rw [hfound] at hall
    simp [hall d (List.mem_cons_self ..)]

lemma hadError_reportAll (ds : List Diagnostic) (s : Session) :
    (s.reportAll ds).hadError = (s.hadError || ds.any (·.isStatic)) := by
  induction ds generalizing s with
  | nil => exact (Bool.or_false _).symm
  | cons d ds ih =>
    rw [List.any_cons, ← Bool.or_assoc]
    exact ih (s.report d)

lemma reportAll_numbered (ds : List Diagnostic) (distances : Std.HashMap SiteId Nat) (next : SiteId)
    (s : Session) : { s with distances := distances, nextSite := next }.reportAll ds =
      { s.reportAll ds with distances := distances, nextSite := next } := by
  induction ds generalizing s with
  | nil => rfl
  | cons d ds ih => exact ih (s.report d)

lemma prepare_snd (source : String) (s : Session) : ∃ distances next, (s.prepare source).2 =
    { s.reportAll (s.found source) with distances := distances, nextSite := next } := by
  rw [prepare_eq, found, reportAll_append, reportAll_append]
  split
  · exact ⟨_, _, reportAll_numbered _
      ((s.afterReading source).record
        (Binding.ofProgram (s.reading source).statements).distances).distances
      (s.reading source).nextSite ((s.reportAll _).reportAll _)⟩
  · exact ⟨_, _, rfl⟩

lemma prepare_rejected (h : s.prepare source = (none, s₁)) (fuel : ℕ) :
    s.reported fuel source = s.found source ∧ s₁.hadError = true ∧
      s₁.hadRuntimeError = s.hadRuntimeError := by
  obtain ⟨distances, next, hs⟩ := prepare_snd source s
  have hfound : (s.found source).isEmpty = false := by
    rw [List.isEmpty_eq_false_iff, ← prepare_eq_none_iff, h]
  rw [h] at hs
  subst hs
  refine ⟨by rw [reported, hfound]; rfl, ?_, ?_⟩
  · have hstatic := hadError_reportAll (s.found source) s
    rw [any_isStatic_found, hfound, Bool.not_false, Bool.or_true] at hstatic
    exact hstatic
  · obtain ⟨failed, sink, hall⟩ := reportAll_eq (s.found source) s
    rw [hall]

lemma prepare_accepted (h : s.prepare source = (some program, s₁)) : s.found source = [] ∧
    s₁.diagnostics = s.diagnostics ∧ s₁.hadError = s.hadError ∧
      s₁.hadRuntimeError = s.hadRuntimeError := by
  obtain ⟨-, -, j, -, rfl⟩ := prepare_eq_some.1 h
  refine ⟨?_, rfl, rfl, rfl⟩
  by_contra hne
  rw [← ne_eq, ← prepare_eq_none_iff, h] at hne
  cases hne

lemma run_of_unfinished {m : Machine} (hp : s.prepare source = (some program, s₁))
    (hm : (Machine.load program s₁.world).run s₁.setting fuel = m) (hr : m.result? = none) :
    s.run fuel source = (none, { s₁ with world := m.world }) ∧ s.failure? fuel source = none := by
  subst hm
  constructor
  · rw [run_eq_of_prepare hp, finish, hr]
  · simp only [failure?, hp, hr]

theorem run_reports (fuel : ℕ) (source : String) (s : Session) :
    (s.run fuel source).2.diagnostics = (s.reportAll (s.reported fuel source)).diagnostics ∧
    (s.run fuel source).2.hadError =
      (s.hadError || decide ((s.run fuel source).1 = some .staticError)) ∧
    (s.run fuel source).2.hadRuntimeError =
      (s.hadRuntimeError || decide ((s.run fuel source).1 = some .runtimeError)) := by
  rcases hp : s.prepare source with ⟨_ | program, s₁⟩
  · obtain ⟨hreported, herror, hruntime⟩ := prepare_rejected hp fuel
    have hdiagnostics := (prepare_found source s).2
    rw [hp] at hdiagnostics
    rw [run_eq_staticError.2 hp, hreported]
    exact ⟨hdiagnostics, by simp [herror], by simp [hruntime]⟩
  · obtain ⟨hfound, hdiagnostics, herror, hruntime⟩ := prepare_accepted hp
    rw [reported, hfound]
    cases hr : ((Machine.load program s₁.world).run s₁.setting fuel).result? with
    | none =>
      obtain ⟨hrun, hfailure⟩ := run_of_unfinished hp rfl hr
      rw [hrun, hfailure]
      exact ⟨hdiagnostics, by simp [herror], by simp [hruntime]⟩
    | some result =>
      cases result with
      | ok v =>
        obtain ⟨hrun, hfailure⟩ := run_of_ok hp rfl hr
        rw [hrun, hfailure]
        exact ⟨hdiagnostics, by simp [herror], by simp [hruntime]⟩
      | error e =>
        obtain ⟨hrun, hfailure⟩ := run_of_error hp rfl hr
        rw [hrun, hfailure]
        refine ⟨diagnostics_reportAll hdiagnostics [e.diagnostic], ?_, by simp [report]⟩
        simp [report, herror, RuntimeError.diagnostic, Diagnostic.isStatic]

end

/-- The second session differs from the first at most in where its reports go. -/
def Besides (s t : Session) : Prop := ∃ sink, t = { s with diagnostics := sink }

namespace Besides

variable {s t : Session} (h : Besides s t)

include h

lemma reportAll (ds : List Diagnostic) : Besides (s.reportAll ds) (t.reportAll ds) := by
  induction ds generalizing s t with
  | nil => exact h
  | cons d ds ih =>
    obtain ⟨sink, rfl⟩ := h
    exact ih ⟨_, rfl⟩

lemma afterReading (source : String) :
    Besides (s.afterReading source) (t.afterReading source) := by
  have hreading : t.reading source = s.reading source := by
    obtain ⟨sink, rfl⟩ := h
    rfl
  obtain ⟨sink, hreported⟩ := (h.reportAll ((lexicalErrors source).map (·.diagnostic))).reportAll
    ((s.reading source).errors.map (·.diagnostic (Grammar.endLine (tokens source))))
  rw [Session.afterReading, Session.afterReading, hreading, hreported]
  exact ⟨sink, rfl⟩

lemma record (distances : List (SiteId × Nat)) :
    Besides (s.record distances) (t.record distances) := by
  obtain ⟨sink, rfl⟩ := h
  exact ⟨sink, rfl⟩

lemma prepare (source : String) : (t.prepare source).1 = (s.prepare source).1 ∧
    Besides (s.prepare source).2 (t.prepare source).2 := by
  have hreading : t.reading source = s.reading source := by
    obtain ⟨sink, rfl⟩ := h
    rfl
  rw [prepare_eq, prepare_eq, hreading]
  split
  · exact ⟨rfl, ((h.afterReading source).record _).reportAll _⟩
  · exact ⟨rfl, h.afterReading source⟩

lemma finish (m : Machine) : (t.finish m).1 = (s.finish m).1 ∧
    Besides (s.finish m).2 (t.finish m).2 := by
  obtain ⟨sink, rfl⟩ := h
  unfold Session.finish
  cases m.result? with
  | none => exact ⟨rfl, _, rfl⟩
  | some result => cases result <;> exact ⟨rfl, _, rfl⟩

lemma run (fuel : ℕ) (source : String) : (t.run fuel source).1 = (s.run fuel source).1 ∧
    Besides (s.run fuel source).2 (t.run fuel source).2 := by
  obtain ⟨hprogram, hprepared⟩ := h.prepare source
  unfold Session.run
  rcases hs : s.prepare source with ⟨program?, s₁⟩
  rcases ht : t.prepare source with ⟨program'?, t₁⟩
  rw [hs, ht] at hprogram hprepared
  change program'? = program? at hprogram
  subst hprogram
  cases program'? with
  | none => exact ⟨rfl, hprepared⟩
  | some program =>
    obtain ⟨sink, rfl⟩ := id hprepared
    exact hprepared.finish _

end Besides

inductive Step
  | run (fuel : ℕ) (source : String)
  | defineGlobal (name : String) (v : Value)
  | defineNative (native : Native)
  | makeFunction (declaration : Function)
  | resetError

def Step.perform : Step → Session → Session
  | .run fuel source, s => (s.run fuel source).2
  | .defineGlobal name v, s => s.defineGlobal name v
  | .defineNative native, s => s.defineNative native
  | .makeFunction declaration, s => (s.makeFunction declaration).2
  | .resetError, s => s.resetError

def after (steps : List Step) (s : Session) : Session :=
  steps.foldl (fun s step => step.perform s) s

/-- Among the steps, done in turn from a session, is the run of a chunk with the outcome given;
`later` are those after it. -/
def Returned (outcome : Outcome) (s : Session) (steps later : List Step) : Prop :=
  ∃ earlier fuel source, steps = earlier ++ .run fuel source :: later ∧
    ((s.after earlier).run fuel source).1 = some outcome

def Step.Returns (outcome : Outcome) (s : Session) (step : Step) : Prop :=
  ∃ fuel source, step = .run fuel source ∧ (s.run fuel source).1 = some outcome

lemma returned_cons {outcome : Outcome} {s : Session} {step : Step} {steps later : List Step} :
    Returned outcome s (step :: steps) later ↔
      step.Returns outcome s ∧ later = steps ∨ Returned outcome (step.perform s) steps later := by
  constructor
  · rintro ⟨earlier, fuel, source, he, ho⟩
    cases earlier with
    | nil =>
      obtain ⟨rfl, rfl⟩ := List.cons.inj he
      exact .inl ⟨⟨fuel, source, rfl, ho⟩, rfl⟩
    | cons first earlier =>
      obtain ⟨rfl, rfl⟩ := List.cons.inj he
      exact .inr ⟨earlier, fuel, source, rfl, ho⟩
  · rintro (⟨⟨fuel, source, rfl, ho⟩, rfl⟩ | ⟨earlier, fuel, source, rfl, ho⟩)
    · exact ⟨[], fuel, source, rfl, ho⟩
    · exact ⟨step :: earlier, fuel, source, rfl, ho⟩

lemma hadError_perform (step : Step) (s : Session) : (step.perform s).hadError = true ↔
    step.Returns .staticError s ∨ s.hadError = true ∧ step ≠ .resetError := by
  cases step with
  | run fuel source =>
    have hrun := (run_reports fuel source s).2.1
    rw [Step.perform, hrun]
    simp [Step.Returns, or_comm]
  | defineGlobal | defineNative | makeFunction =>
    change s.hadError = true ↔ _
    simp [Step.Returns]
  | resetError => simp [Step.perform, resetError, Step.Returns]

lemma hadRuntimeError_perform (step : Step) (s : Session) :
    (step.perform s).hadRuntimeError = true ↔
      step.Returns .runtimeError s ∨ s.hadRuntimeError = true := by
  cases step with
  | run fuel source =>
    have hrun := (run_reports fuel source s).2.2
    rw [Step.perform, hrun]
    simp [Step.Returns, or_comm]
  | defineGlobal | defineNative | makeFunction | resetError =>
    change s.hadRuntimeError = true ↔ _
    simp [Step.Returns]

lemma hadError_after (steps : List Step) (s : Session) : (s.after steps).hadError = true ↔
    (∃ later, Returned .staticError s steps later ∧ .resetError ∉ later) ∨
      s.hadError = true ∧ .resetError ∉ steps := by
  induction steps generalizing s with
  | nil => simp [after, Returned]
  | cons step steps ih =>
    rw [after, List.foldl_cons, ← after, ih, hadError_perform]
    simp only [returned_cons, List.mem_cons, not_or, or_and_right, exists_or, and_assoc, ne_comm,
      exists_and_left, exists_eq_left]
    rw [or_left_comm, or_assoc]

lemma hadRuntimeError_after (steps : List Step) (s : Session) :
    (s.after steps).hadRuntimeError = true ↔
      (∃ later, Returned .runtimeError s steps later) ∨ s.hadRuntimeError = true := by
  induction steps generalizing s with
  | nil => simp [after, Returned]
  | cons step steps ih =>
    rw [after, List.foldl_cons, ← after, ih, hadRuntimeError_perform]
    simp only [returned_cons, exists_or, exists_eq_right]
    rw [or_left_comm, or_assoc]

lemma Besides.after {s t : Session} (h : Besides s t) (steps : List Step) :
    Besides (s.after steps) (t.after steps) := by
  induction steps generalizing s t with
  | nil => exact h
  | cons step steps ih =>
    apply ih
    cases step with
    | run fuel source => exact (h.run fuel source).2
    | defineGlobal | defineNative | makeFunction | resetError =>
      obtain ⟨sink, rfl⟩ := h
      exact ⟨sink, rfl⟩

lemma accepting_after {s : Session} (h : s.diagnostics.Accepting) (steps : List Step) :
    (s.after steps).diagnostics.Accepting := by
  induction steps generalizing s with
  | nil => exact h
  | cons step steps ih =>
    apply ih
    cases step with
    | run fuel source =>
      change (s.run fuel source).2.diagnostics.Accepting
      rw [(run_reports fuel source s).1]
      exact (bytes_reportAll h _).1
    | defineGlobal | defineNative | makeFunction | resetError => exact h

/-- The flags sum up the history of a session: the one whether a chunk had static errors since they
were last forgotten, the other whether any chunk ended in a runtime error. Neither they nor the
output nor an outcome depend on where the reports go, and where all are accepted a chunk adds what
is reported of it, line by line. -/
theorem flags_summarize (depth : Nat) (clock : Clock) (out diagnostics : Sink)
    (steps : List Step) :
    let first := start depth clock out diagnostics
    let s := first.after steps
    (s.hadError = true ↔ ∃ later, Returned .staticError first steps later ∧ .resetError ∉ later) ∧
    (s.hadRuntimeError = true ↔ ∃ later, Returned .runtimeError first steps later) ∧
    s.exitCode = (if s.hadError then 65 else if s.hadRuntimeError then 70 else 0) ∧
    (∀ other, let t := (start depth clock out other).after steps
      t.world.out = s.world.out ∧ t.hadError = s.hadError ∧
        t.hadRuntimeError = s.hadRuntimeError ∧
        ∀ fuel source, (t.run fuel source).1 = (s.run fuel source).1) ∧
    (diagnostics.Accepting → ∀ fuel source, (s.run fuel source).2.diagnostics.bytes =
      s.diagnostics.bytes ++
        utf8 (String.join ((s.reported fuel source).map fun d => d.text ++ "\n"))) := by
  intro first s
  refine ⟨?_, ?_, rfl, fun other => ?_, fun h fuel source => ?_⟩
  · have hstart : first.hadError = false := rfl
    rw [hadError_after, hstart]
    simp
  · have hstart : first.hadRuntimeError = false := rfl
    rw [hadRuntimeError_after, hstart]
    simp
  · have hbeside : Besides s ((start depth clock out other).after steps) :=
      Besides.after ⟨other, rfl⟩ steps
    have houtcome := fun fuel source => (hbeside.run fuel source).1
    obtain ⟨sink, ht⟩ := hbeside
    rw [ht] at houtcome ⊢
    exact ⟨rfl, rfl, rfl, houtcome⟩
  · rw [(run_reports fuel source s).1]
    exact (bytes_reportAll (accepting_after h steps) _).2

lemma scan_stray : scan "@" =
    [.error ⟨.unexpectedCharacter, 1⟩, .token ⟨.eof, "", 1, 1⟩] := by
  simp [scan, Scan.itemsFrom, Scan.munch, Scan.isBlank, Scan.isDigit, Scan.isWordStart,
    Scan.munchPunct, Scan.punct?, Position.advance, Position.start, Scan.item?]
  rfl

lemma found_stray (s : Session) : s.found "@" = [.lexical 1 "Unexpected character."] := by
  have hlexical : lexicalErrors "@" = [⟨.unexpectedCharacter, 1⟩] := by
    rw [lexicalErrors, scan_stray]
    rfl
  have hreading : (s.reading "@").errors = [] := by
    rw [reading, tokens, scan_stray]
    rfl
  rw [found, hlexical, hreading]
  rfl

lemma run_stray (s : Session) : (s.run 0 "@").1 = some .staticError := by
  have hnone : (s.prepare "@").1 = none := by
    rw [prepare_eq_none_iff, found_stray]
    exact List.cons_ne_nil _ _
  rw [run_eq_staticError.2 (Prod.ext hnone rfl)]

theorem stray_flags : let s := (start 1 .stopped .unlimited .unlimited).after [.run 0 "@"]
    Sink.unlimited.Accepting ∧ s.hadError = true ∧ s.exitCode = 65 ∧
      (s.run 0 "@").2.diagnostics.bytes =
        s.diagnostics.bytes ++ utf8 "[line 1] Error: Unexpected character.\n" := by
  intro s
  have haccepting : Sink.unlimited.Accepting := fun _ _ => rfl
  obtain ⟨herror, -, hexit, -, hreports⟩ :=
    flags_summarize 1 .stopped .unlimited .unlimited [.run 0 "@"]
  have hfailed := herror.2 ⟨[], ⟨[], 0, "@", rfl, run_stray _⟩, List.not_mem_nil⟩
  rw [hfailed] at hexit
  refine ⟨haccepting, hfailed, hexit, (hreports haccepting 0 "@").trans ?_⟩
  rw [reported, found_stray]
  rfl

end Lox.Session
