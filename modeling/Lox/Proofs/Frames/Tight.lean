import Lox.Proofs.Frames.Chain
import Lox.Proofs.Frames.Effect

/-! Frames that bind no other names than the scopes of the walk have. Where all frames around are
such, the walk outward ends in the frame at the distance. -/

namespace Lox

open Binding

namespace Store

variable {s s' : Store} {f : FrameId}

lemma Keeps.parent? (h : s.Keeps s' f) : s'.parent? f = s.parent? f := by
  have hbind : ∀ s : Store,
      s.parent? f = ((s.frames[f]?.map (·.parent)).bind id).filter (· < f) := by
    intro s
    rw [Store.parent?, Option.bind_map]
    rfl
  rw [hbind, hbind, h.parent]

end Store

inductive Tight (s : Store) : FrameId → List Scope → Prop
  | global : Tight s Store.globals []
  | inner {f p scope outer} : s.parent? f = some p →
      (∀ name, (s.local? f name).isSome → (scope.lookup name).isSome) → Tight s p outer →
      Tight s f (scope :: outer)

namespace Tight

variable {s s' : Store} {f g : FrameId} {scopes : List Scope} {name : String}

lemma keeps (h : Tight s f scopes) (hk : ∀ g ≤ f, s.Keeps s' g) : Tight s' f scopes := by
  induction h with
  | global => exact .global
  | @inner f p _ _ hp hn _ ih =>
    refine .inner ?_ (fun name hb => hn name ?_) (ih fun g hg => hk g ?_)
    · rw [(hk f (Nat.le_refl f)).parent?, hp]
    · rwa [← (hk f (Nat.le_refl f)).names]
    · exact Nat.le_trans hg (Nat.le_of_lt (Store.parent?_lt hp))

lemma define_above (h : Tight s f scopes) (hg : f < g) (x : String) (v : Value) :
    Tight (s.define g x v) f scopes :=
  h.keeps fun _ hf => Store.keeps_define_of_ne (Nat.ne_of_lt (Nat.lt_of_le_of_lt hf hg)) x v

lemma enter (h : Tight s f scopes) (x : Token) (complete : Bool) :
    Tight s f (enter x complete scopes) := by
  cases h with
  | global => exact .global
  | inner hp hn ho =>
    refine .inner hp (fun name hb => ?_) ho
    rw [isSome_lookup_cons, hn name hb, Bool.or_true]

lemma define (h : Tight s f scopes) (x : Token) (complete : Bool) (v : Value) :
    Tight (s.define f x.lexeme v) f (Binding.enter x complete scopes) := by
  cases h with
  | global => exact .global
  | @inner _ p scope outer hp hn ho =>
    have hlt := Store.parent?_lt hp
    refine .inner (by rwa [Store.parent?_define]) (fun name hb => ?_) (ho.define_above hlt _ v)
    rw [Store.local?_define _ _ _ _ _ _ (Store.lt_of_parent hp)] at hb
    rw [isSome_lookup_cons, Bool.or_eq_true, beq_iff_eq]
    split at hb
    · next heq => exact .inl heq.2
    · exact .inr (hn name hb)

lemma declared (h : Tight s f scopes) (x : Token) (v : Value) :
    Tight (s.define f x.lexeme v) f (declared x scopes) :=
  (h.enter x false).define x true v

lemma push (h : Tight s f scopes) (hf : f < s.frames.size) :
    Tight (s.push (some f)).1 s.frames.size ([] :: scopes) := by
  refine .inner (p := f) ?_ (fun name hb => ?_) (h.keeps fun g hg => ?_)
  · rw [Store.parent?_push _ _ hf, if_pos rfl]
  · rw [Store.local?_push, Store.local?_eq_none (Nat.le_refl _)] at hb
    cases hb
  · exact Store.keeps_push _ (Nat.lt_of_le_of_lt hg hf)

lemma bindAll (h : Tight s f scopes) (params : List Token) (args : List Value) :
    Tight (s.bindAll f params args) f
      (params.foldl (fun scopes p => Binding.declared p scopes) scopes) := by
  induction params generalizing args s scopes with
  | nil => exact h
  | cons p params ih =>
    cases args with
    | nil =>
      have hnone : ∀ params, s.bindAll f params [] = s := fun params => by simp [Store.bindAll]
      have hrest := ih ((h.enter p false).enter p true) []
      rw [hnone] at hrest ⊢
      exact hrest
    | cons v args => exact ih (h.declared p v) args

lemma owner_global (h : Tight s f scopes) (hd : distanceIn? scopes name = none) :
    s.owner? f name = s.owner? Store.globals name := by
  induction h with
  | global => rfl
  | @inner f p scope outer hp hn _ ih =>
    rw [distanceIn?, List.findIdx?_eq_none_iff] at hd
    obtain ⟨hscope, houter⟩ := List.forall_mem_cons.1 hd
    have hnone : ¬ (s.local? f name).isSome := fun hb => by
      rw [hn name hb] at hscope
      cases hscope
    rw [Store.owner?_of_parent hnone hp]
    exact ih (by rw [distanceIn?, List.findIdx?_eq_none_iff]; exact houter)

lemma owner_at (h : Tight s f scopes) {d : ℕ} (hd : distanceIn? scopes name = some d)
    (hg : s.ancestor? f d = some g) (hb : (s.local? g name).isSome) : s.owner? f name = some g := by
  induction h generalizing d with
  | global => cases hd
  | @inner f p scope outer hp hn _ ih =>
    have hcons : distanceIn? (scope :: outer) name =
        if (scope.lookup name).isSome then some 0 else (distanceIn? outer name).map (· + 1) :=
      List.findIdx?_cons ..
    rw [hcons] at hd
    split at hd
    · obtain rfl := Option.some.inj hd
      obtain rfl := Option.some.inj hg
      exact Store.owner?_of_local hb
    · next hscope =>
      obtain ⟨d, houter, rfl⟩ := Option.map_eq_some_iff.1 hd
      have hnone : ¬ (s.local? f name).isSome := fun hb => hscope (hn name hb)
      rw [Store.owner?_of_parent hnone hp]
      rw [Store.ancestor?, hp] at hg
      exact ih houter hg

end Tight

end Lox
