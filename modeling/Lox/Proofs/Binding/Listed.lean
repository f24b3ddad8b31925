import Mathlib.Data.List.Forall2
import Mathlib.Data.List.Lex
import Mathlib.Tactic.Common

/-! What stands in a tree, listed in the order of the positions: first at a node, then in its parts
one after the other. -/

namespace Lox

variable {α : Type}

def treeAt (own : Option α) (parts : List (List ℕ → Option α)) : List ℕ → Option α
  | [] => own
  | i :: p => parts[i]?.bind (· p)

def Listed (f : List ℕ → Option α) (xs : List α) : Prop :=
  ∃ ps : List (List ℕ), ps.Pairwise (· < ·) ∧ (∀ p, p ∈ ps ↔ (f p).isSome) ∧ xs = ps.filterMap f

namespace Listed

def later : List ℕ → List ℕ
  | [] => []
  | i :: p => (i + 1) :: p

lemma later_lt {p q : List ℕ} (h : p < q) : later p < later q := by
  cases p with
  | nil =>
    cases q with
    | nil => exact h
    | cons j q => exact List.nil_lt_cons _ _
  | cons i p =>
    cases q with
    | nil => exact absurd h (List.not_lt_nil _)
    | cons j q =>
      rw [List.cons_lt_cons_iff] at h
      rw [later, later, List.cons_lt_cons_iff]
      exact h.imp Nat.succ_lt_succ fun ⟨hij, hpq⟩ => ⟨congrArg _ hij, hpq⟩

lemma cons_lt_later (p : List ℕ) {q : List ℕ} (h : q ≠ []) : 0 :: p < later q := by
  cases q with
  | nil => exact absurd rfl h
  | cons j q => exact List.cons_lt_cons_iff.2 (.inl (Nat.succ_pos j))

lemma later_eq_cons {p q : List ℕ} {i : ℕ} : later q = i :: p ↔ ∃ j, i = j + 1 ∧ q = j :: p := by
  cases q with
  | nil => simp [later]
  | cons j q =>
    rw [later, List.cons.injEq]
    constructor
    · rintro ⟨rfl, rfl⟩
      exact ⟨j, rfl, rfl⟩
    · rintro ⟨k, rfl, hq⟩
      obtain ⟨rfl, rfl⟩ := List.cons.inj hq
      exact ⟨rfl, rfl⟩

variable {f : List ℕ → Option α} {fs : List (List ℕ → Option α)} {xs ys : List α}

lemma nonempty {ps : List (List ℕ)} (h : ∀ p, p ∈ ps ↔ (treeAt none fs p).isSome) {p : List ℕ}
    (hp : p ∈ ps) : p ≠ [] := by
  rintro rfl
  exact Bool.noConfusion ((h []).1 hp)

lemma cons (h : Listed f xs) (hs : Listed (treeAt none fs) ys) :
    Listed (treeAt none (f :: fs)) (xs ++ ys) := by
  obtain ⟨ps, hps, hmem, rfl⟩ := h
  obtain ⟨qs, hqs, hmem', rfl⟩ := hs
  refine ⟨ps.map (0 :: ·) ++ qs.map later, ?_, ?_, ?_⟩
  · rw [List.pairwise_append]
    refine ⟨?_, ?_, ?_⟩
    · exact List.pairwise_map.2 (hps.imp fun hlt => List.cons_lt_cons_iff.2 (.inr ⟨rfl, hlt⟩))
    · exact List.pairwise_map.2 (hqs.imp later_lt)
    · rintro _ hp _ hq
      obtain ⟨p, -, rfl⟩ := List.mem_map.1 hp
      obtain ⟨q, hq', rfl⟩ := List.mem_map.1 hq
      exact cons_lt_later p (nonempty hmem' hq')
  · intro p
    rw [List.mem_append, List.mem_map, List.mem_map]
    cases p with
    | nil =>
      have hq : ∀ q ∈ qs, later q ≠ [] := by
        intro q hq
        cases q with
        | nil => exact absurd rfl (nonempty hmem' hq)
        | cons => nofun
      simpa [treeAt] using hq
    | cons i p =>
      cases i with
      | zero => simp [treeAt, later_eq_cons, hmem]
      | succ i => simp [later_eq_cons, hmem', treeAt]
  · have hq : ∀ q ∈ qs, treeAt none (f :: fs) (later q) = treeAt none fs q := by
      intro q _
      cases q <;> rfl
    rw [List.filterMap_append, List.filterMap_map, List.filterMap_map]
    exact congrArg₂ _ rfl (List.filterMap_congr fun q hq' => (hq q hq').symm)

lemma parts {xss : List (List α)} (h : List.Forall₂ Listed fs xss) :
    Listed (treeAt none fs) xss.flatten := by
  induction h with
  | nil =>
    refine ⟨[], .nil, fun p => ?_, rfl⟩
    cases p <;> simp [treeAt]
  | cons hf _ ih => exact hf.cons ih

lemma own (h : Listed (treeAt none fs) xs) (x : Option α) :
    Listed (treeAt x fs) (x.toList ++ xs) := by
  cases x with
  | none => exact h
  | some x =>
    obtain ⟨ps, hps, hmem, rfl⟩ := h
    refine ⟨[] :: ps, List.pairwise_cons.2 ⟨fun p hp => ?_, hps⟩, fun p => ?_, ?_⟩
    · obtain ⟨i, q, rfl⟩ := List.exists_cons_of_ne_nil (nonempty hmem hp)
      exact List.nil_lt_cons i q
    · cases p with
      | nil => simp [treeAt]
      | cons i p => simpa [treeAt] using hmem (i :: p)
    · have hx : treeAt (some x) fs [] = some x := rfl
      rw [List.filterMap_cons_some hx]
      refine congrArg _ (List.filterMap_congr fun p hp => ?_)
      obtain ⟨i, q, rfl⟩ := List.exists_cons_of_ne_nil (nonempty hmem hp)
      rfl

end Listed

end Lox
