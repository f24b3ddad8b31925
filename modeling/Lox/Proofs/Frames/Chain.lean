import Lox.Proofs.Binding.Complete
import Lox.Proofs.Store

/-! The frames around a place, beside the scopes that the walk had open there. -/

namespace Lox

open Binding

structure Store.Extends (s s' : Store) : Prop where
  size : s.frames.size ≤ s'.frames.size
  parent : ∀ {f p}, s.parent? f = some p → s'.parent? f = some p
  binds : ∀ {f name}, (s.local? f name).isSome → (s'.local? f name).isSome

namespace Store.Extends

variable {s s' s'' : Store}

lemma refl (s : Store) : s.Extends s := ⟨Nat.le_refl _, id, id⟩

lemma trans (h : s.Extends s') (h' : s'.Extends s'') : s.Extends s'' :=
  ⟨Nat.le_trans h.size h'.size, fun hp => h'.parent (h.parent hp), fun hb => h'.binds (h.binds hb)⟩

lemma define {f : FrameId} (hf : f < s.frames.size) (name : String) (v : Value) :
    s.Extends (s.define f name v) := by
  refine ⟨Nat.le_of_eq (size_define ..).symm, fun hp => ?_, fun {g key} hb => ?_⟩
  · rwa [parent?_define]
  · rw [local?_define _ _ _ _ _ _ hf]
    split
    · rfl
    · exact hb

lemma push (p : FrameId) (hp : p < s.frames.size) : s.Extends (s.push (some p)).1 := by
  refine ⟨?_, fun {f q} hq => ?_, fun {f key} hb => ?_⟩
  · rw [size_push]
    exact Nat.le_succ _
  · rw [parent?_push _ _ hp]
    split
    · next h =>
      rw [parent?_eq_none (Nat.le_of_eq h.symm)] at hq
      cases hq
    · exact hq
  · rwa [local?_push]

end Store.Extends

/-- Each scope has a frame, which binds the names that the scope has completed. -/
inductive Chain (s : Store) : FrameId → List Scope → Prop
  | global : Chain s Store.globals []
  | inner {f p scope outer} : s.parent? f = some p →
      (∀ name, scope.lookup name = some true → (s.local? f name).isSome) → Chain s p outer →
      Chain s f (scope :: outer)

namespace Chain

variable {s s' : Store} {f : FrameId} {scopes : List Scope}

lemma extend (h : Chain s f scopes) (hs : s.Extends s') : Chain s' f scopes := by
  induction h with
  | global => exact .global
  | inner hp hb _ ih => exact .inner (hs.parent hp) (fun name hn => hs.binds (hb name hn)) ih

lemma lt (h : Chain s f scopes) (hs : 0 < s.frames.size) : f < s.frames.size := by
  cases h with
  | global => exact hs
  | inner hp _ _ => exact Store.lt_of_parent hp

lemma ancestor (h : Chain s f scopes) : s.ancestor? f scopes.length = some Store.globals := by
  induction h with
  | global => rfl
  | inner hp _ _ ih =>
    rw [List.length_cons, Store.ancestor?, hp]
    exact ih

lemma binds (h : Chain s f scopes) {d : ℕ} {scope : Scope} {name : String}
    (hd : scopes[d]? = some scope) (hn : scope.lookup name = some true) :
    ∃ g, s.ancestor? f d = some g ∧ (s.local? g name).isSome := by
  induction h generalizing d with
  | global => cases hd
  | @inner f p _ _ hp hb _ ih =>
    cases d with
    | zero =>
      obtain rfl := Option.some.inj hd
      exact ⟨f, rfl, hb name hn⟩
    | succ d =>
      obtain ⟨g, hg, hl⟩ := ih hd
      refine ⟨g, ?_, hl⟩
      rw [Store.ancestor?, hp]
      exact hg

lemma enter_incomplete (h : Chain s f scopes) (x : Token) : Chain s f (enter x false scopes) := by
  cases h with
  | global => exact .global
  | inner hp hb ho =>
    refine .inner hp (fun name hn => ?_) ho
    rw [List.lookup_cons] at hn
    split at hn
    · cases hn
    · exact hb name hn

lemma enter_complete (h : Chain s f scopes) {x : Token} (hx : (s.local? f x.lexeme).isSome) :
    Chain s f (enter x true scopes) := by
  cases h with
  | global => exact .global
  | inner hp hb ho =>
    refine .inner hp (fun name hn => ?_) ho
    rw [List.lookup_cons] at hn
    split at hn
    · next he => rwa [eq_of_beq he]
    · exact hb name hn

lemma declared (h : Chain s f scopes) {x : Token} (hx : (s.local? f x.lexeme).isSome) :
    Chain s f (declared x scopes) :=
  (h.enter_incomplete x).enter_complete hx

lemma push (h : Chain s f scopes) (hs : 0 < s.frames.size) :
    Chain (s.push (some f)).1 s.frames.size ([] :: scopes) := by
  refine .inner (p := f) ?_ (fun name hn => by cases hn) (h.extend (.push f (h.lt hs)))
  rw [Store.parent?_push _ _ (h.lt hs), if_pos rfl]

end Chain

theorem Chain.read {s : Store} {f : FrameId} {program : List Stmt} {v : Visit}
    (hv : v ∈ visits program) (h : Chain s f v.scopes) {name : String} {d : ℕ}
    (hp : pendingIn v.scopes name = false) (hd : distanceIn? v.scopes name = some d) :
    ∃ g, s.ancestor? f d = some g ∧ (s.local? g name).isSome := by
  rw [distanceIn?, List.findIdx?_eq_some_iff_getElem] at hd
  obtain ⟨hlt, hs, -⟩ := hd
  have hget : v.scopes[d]? = some v.scopes[d] := List.getElem?_eq_getElem hlt
  refine h.binds hget ?_
  obtain ⟨complete, hl⟩ := Option.isSome_iff_exists.1 hs
  cases complete with
  | true => exact hl
  | false =>
    cases d with
    | zero =>
      rw [pendingIn, List.head?_eq_getElem?, hget, Option.any_some, hl] at hp
      cases hp
    | succ d =>
      have hc := complete_stmtsVisits Complete.nil hv
      refine absurd hl (hc _ ?_ name)
      rw [List.mem_iff_getElem]
      exact ⟨d, by rw [List.length_tail]; omega, by rw [List.getElem_tail]⟩

end Lox
