import Lox.Proofs.Session

/-! What is reported of a chunk, and what its reports come to where all of them are accepted. -/

namespace Lox

namespace Session

variable {s : Session}

lemma reportAll_append (ds es : List Diagnostic) (s : Session) :
    s.reportAll (ds ++ es) = (s.reportAll ds).reportAll es :=
  List.foldl_append

lemma diagnostics_reportAll {t : Session} (h : t.diagnostics = s.diagnostics)
    (ds : List Diagnostic) : (t.reportAll ds).diagnostics = (s.reportAll ds).diagnostics := by
  induction ds generalizing s t with
  | nil => exact h
  | cons d ds ih => exact ih (congrArg (fun sink => (sink.writeLine d.pieces).2) h)

lemma bytes_reportAll (h : s.diagnostics.Accepting) (ds : List Diagnostic) :
    (s.reportAll ds).diagnostics.Accepting ∧ (s.reportAll ds).diagnostics.bytes =
      s.diagnostics.bytes ++ utf8 (String.join (ds.map fun d => d.text ++ "\n")) := by
  induction ds generalizing s with
  | nil => exact ⟨h, (List.append_nil _).symm⟩
  | cons d ds ih =>
    obtain ⟨haccepting, hbytes⟩ := h.write (d.pieces ++ ["\n"])
    obtain ⟨hrest, hall⟩ := ih (s := s.report d) haccepting
    refine ⟨hrest, hall.trans ?_⟩
    have hline : (s.report d).diagnostics.bytes =
        s.diagnostics.bytes ++ utf8 (d.text ++ "\n") := by
      refine hbytes.trans ?_
      rw [String.join_append, String.join_cons, String.join_nil, String.append_empty]
      rfl
    rw [hline, List.map_cons, String.join_cons, utf8_append (d.text ++ "\n"), List.append_assoc]

def found (source : String) (s : Session) : List Diagnostic :=
  (lexicalErrors source).map (·.diagnostic) ++
    (s.reading source).errors.map (·.diagnostic (Grammar.endLine (tokens source))) ++
    if (lexicalErrors source).isEmpty && (s.reading source).errors.isEmpty then
      (Binding.ofProgram (s.reading source).statements).errors.map (·.diagnostic)
    else []

lemma found_eq_nil {source : String} : s.found source = [] ↔ lexicalErrors source = [] ∧
    (s.reading source).errors = [] ∧
      (Binding.ofProgram (s.reading source).statements).errors = [] := by
  rw [found]
  split
  · simp
  · next h =>
    rw [Bool.and_eq_true, List.isEmpty_iff, List.isEmpty_iff] at h
    simp only [List.append_nil, List.append_eq_nil_iff, List.map_eq_nil_iff, ← and_assoc]
    exact ⟨fun hc => absurd hc h, fun hc => absurd hc.1 h⟩

theorem prepare_found (source : String) (s : Session) :
    (s.prepare source).1 =
        (if (s.found source).isEmpty then some (s.reading source).statements else none) ∧
      (s.prepare source).2.diagnostics = (s.reportAll (s.found source)).diagnostics := by
  rw [prepare_eq, found, reportAll_append, reportAll_append]
  split
  · next h =>
    have hnil := h
    rw [Bool.and_eq_true, List.isEmpty_iff, List.isEmpty_iff] at hnil
    constructor
    · rw [hnil.1, hnil.2]
      simp only [List.map_nil, List.nil_append, List.isEmpty_map]
    · apply diagnostics_reportAll
      rfl
  · next h =>
    have hne : ¬ ((lexicalErrors source).map (·.diagnostic) ++ (s.reading source).errors.map
        (·.diagnostic (Grammar.endLine (tokens source)))).isEmpty := by
      simpa using h
    rw [List.append_nil, if_neg hne]
    exact ⟨rfl, rfl⟩

lemma prepare_eq_none_iff {source : String} :
    (s.prepare source).1 = none ↔ s.found source ≠ [] := by
  rw [(prepare_found source s).1, ← List.isEmpty_eq_false_iff]
  cases (s.found source).isEmpty <;> simp

theorem outcome_eq_staticError {source : String} {fuel : ℕ} :
    (s.run fuel source).1 = some .staticError ↔ lexicalErrors source ≠ [] ∨
      (s.reading source).errors ≠ [] ∨
        (Binding.ofProgram (s.reading source).statements).errors ≠ [] := by
  have hfound : s.found source ≠ [] ↔ lexicalErrors source ≠ [] ∨
      (s.reading source).errors ≠ [] ∨
        (Binding.ofProgram (s.reading source).statements).errors ≠ [] := by
    rw [ne_eq, found_eq_nil, not_and_or, not_and_or]
  rw [← hfound, ← prepare_eq_none_iff]
  constructor
  · intro h
    rw [run_eq_staticError.1 (Prod.ext h rfl)]
  · intro h
    rw [run_eq_staticError.2 (Prod.ext h rfl)]

end Session

end Lox
