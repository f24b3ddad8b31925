import Lox.Proofs.Likeness.Syntax
import Lox.Proofs.Store

/-! Values and stores of two runs that are alike. Frame numbers agree; each frame has the context
of the scope that it was made for, and binds its names as the role of that scope says. -/

namespace Lox.Likeness

variable {Role : Type} (κ : Likeness Role)

inductive FunctionLike (ctx : Context Role) (f f' : Function) : Prop
  | mk (r : Role) : f'.name.lexeme = f.name.lexeme →
      List.Forall₂ (κ.NameLike r) f.params f'.params →
      StmtsLike κ true (inner r ctx) f.body f'.body → FunctionLike ctx f f'

inductive ValueLike (ctxs : List (Context Role)) : Value → Value → Prop
  | nil : ValueLike ctxs .nil .nil
  | bool (b) : ValueLike ctxs (.bool b) (.bool b)
  | number (x) : ValueLike ctxs (.number x) (.number x)
  | string (s) : ValueLike ctxs (.string s) (.string s)
  | native (i) : ValueLike ctxs (.native i) (.native i)
  | function (i) {f f' closure ctx} : ctxs[closure]? = some ctx → κ.FunctionLike ctx f f' →
      ValueLike ctxs (.function i f closure) (.function i f' closure)

inductive ResultLike (ctxs : List (Context Role)) :
    Except RuntimeFault Value → Except RuntimeFault Value → Prop
  | ok {v v'} : κ.ValueLike ctxs v v' → ResultLike ctxs (.ok v) (.ok v')
  | error (fault) : ResultLike ctxs (.error fault) (.error fault)

structure StoreLike (ctxs : List (Context Role)) (s s' : Store) : Prop where
  size : s.frames.size = ctxs.length
  size' : s'.frames.size = ctxs.length
  globals : ctxs[Store.globals]? = some κ.outside
  parent : ∀ f, s'.parent? f = s.parent? f
  outer : ∀ {f p ctx}, ctxs[f]? = some ctx → s.parent? f = some p →
    ctxs[p]? = some fun d => ctx (d + 1)
  values : ∀ {f ctx name}, ctxs[f]? = some ctx → κ.known name →
    Option.Rel (κ.ValueLike ctxs) (s.local? f name) (s'.local? f (κ.rename (ctx 0) name))

variable {κ} {ctxs : List (Context Role)}

section

variable {v v' w w' : Value}

lemma ValueLike.extend {more : List (Context Role)} (h : κ.ValueLike ctxs v v') :
    κ.ValueLike (ctxs ++ more) v v' := by
  cases h with
  | function i hc hf =>
    refine .function i ?_ hf
    obtain ⟨hlt, _⟩ := List.getElem?_eq_some_iff.1 hc
    rw [List.getElem?_append_left hlt, hc]
  | _ => constructor

lemma valuesLike_extend {vs vs' : List Value} {more : List (Context Role)}
    (h : List.Forall₂ (κ.ValueLike ctxs) vs vs') :
    List.Forall₂ (κ.ValueLike (ctxs ++ more)) vs vs' :=
  h.imp fun _ _ hv => hv.extend

lemma ValueLike.isTruthy (h : κ.ValueLike ctxs v v') : v'.isTruthy = v.isTruthy := by
  cases h <;> rfl

lemma ValueLike.decides (h : κ.ValueLike ctxs v v') (op : TokenType) :
    v'.decides op = v.decides op := by
  simp only [Value.decides, h.isTruthy]

lemma ValueLike.pieces (h : κ.ValueLike ctxs v v') : v'.pieces = v.pieces := by
  cases h with
  | function i _ hf =>
    obtain ⟨_, hn, _, _⟩ := hf
    simp [Value.pieces, hn]
  | _ => rfl

lemma ValueLike.equals (h : κ.ValueLike ctxs v v') (h' : κ.ValueLike ctxs w w') :
    v'.equals w' = v.equals w := by
  cases h <;> cases h' <;> rfl

lemma ValueLike.ofLiteral (l : Literal) : κ.ValueLike ctxs l.value l.value := by
  cases l <;> constructor

lemma ValueLike.unary (h : κ.ValueLike ctxs v v') (op : TokenType) :
    κ.ResultLike ctxs (v.unary op) (v'.unary op) := by
  unfold Value.unary
  split
  · cases h; exact .ok (.number _)
  · next hv =>
    cases h with
    | number x => exact absurd rfl (hv x)
    | _ => exact .error _
  · rw [h.isTruthy]; exact .ok (.bool _)
  · next hm hb =>
    split <;> first | exact .error _ | simp_all

lemma ValueLike.arithmetic (h : κ.ValueLike ctxs v v') (h' : κ.ValueLike ctxs w w')
    {f : Float → Float → Value} (hf : ∀ a b, κ.ValueLike ctxs (f a b) (f a b)) :
    κ.ResultLike ctxs (Value.arithmetic f v w) (Value.arithmetic f v' w') := by
  cases h <;> cases h' <;> first | exact .ok (hf _ _) | exact .error _

lemma ValueLike.add (h : κ.ValueLike ctxs v v') (h' : κ.ValueLike ctxs w w') :
    κ.ResultLike ctxs (Value.add v w) (Value.add v' w') := by
  cases h <;> cases h' <;> first | exact .ok (.number _) | exact .ok (.string _) | exact .error _

lemma ValueLike.binary (h : κ.ValueLike ctxs v v') (h' : κ.ValueLike ctxs w w') (op : TokenType) :
    κ.ResultLike ctxs (Value.binary op v w) (Value.binary op v' w') := by
  unfold Value.binary
  split
  · exact h.add h'
  · exact h.arithmetic h' fun _ _ => .number _
  · exact h.arithmetic h' fun _ _ => .number _
  · exact h.arithmetic h' fun _ _ => .number _
  · exact h.arithmetic h' fun _ _ => .bool _
  · exact h.arithmetic h' fun _ _ => .bool _
  · exact h.arithmetic h' fun _ _ => .bool _
  · exact h.arithmetic h' fun _ _ => .bool _
  · rw [h.equals h']; exact .ok (.bool _)
  · rw [h.equals h']; exact .ok (.bool _)
  · exact .error _

end

namespace StoreLike

variable {s s' : Store} (h : κ.StoreLike ctxs s s')

include h

lemma ancestor (f : FrameId) (d : ℕ) : s'.ancestor? f d = s.ancestor? f d := by
  induction d generalizing f with
  | zero => rfl
  | succ d ih =>
    simp only [Store.ancestor?, h.parent]
    exact congrArg _ (funext ih)

lemma context_ancestor {f g : FrameId} {d : ℕ} {ctx : Context Role} (hf : ctxs[f]? = some ctx)
    (hg : s.ancestor? f d = some g) : ctxs[g]? = some fun k => ctx (d + k) := by
  induction d generalizing f ctx with
  | zero =>
    obtain rfl := Option.some.inj hg
    simpa using hf
  | succ d ih =>
    obtain ⟨p, hp, hg⟩ := Option.bind_eq_some_iff.1 hg
    rw [ih (h.outer hf hp) hg]
    exact congrArg some (funext fun k => congrArg ctx (by omega))

lemma bound {f : FrameId} {ctx : Context Role} (hf : ctxs[f]? = some ctx) :
    f < s.frames.size ∧ f < s'.frames.size := by
  obtain ⟨hlt, _⟩ := List.getElem?_eq_some_iff.1 hf
  rw [h.size, h.size']
  exact ⟨hlt, hlt⟩

lemma define {f : FrameId} {ctx : Context Role} {a : String} {v v' : Value}
    (hf : ctxs[f]? = some ctx) (ha : κ.known a) (hv : κ.ValueLike ctxs v v') :
    κ.StoreLike ctxs (s.define f a v) (s'.define f (κ.rename (ctx 0) a) v') where
  size := (Store.size_define ..).trans h.size
  size' := (Store.size_define ..).trans h.size'
  globals := h.globals
  parent g := by simp [Store.parent?_define, h.parent]
  outer hg hp := h.outer hg (by simpa [Store.parent?_define] using hp)
  values := by
    intro g ctx' b hg hb
    obtain ⟨hlt, hlt'⟩ := h.bound hf
    rw [Store.local?_define _ _ _ _ _ _ hlt, Store.local?_define _ _ _ _ _ _ hlt']
    by_cases he : g = f ∧ b = a
    · obtain ⟨rfl, rfl⟩ := he
      obtain rfl := Option.some.inj (hf.symm.trans hg)
      simpa using Option.Rel.some hv
    · have hne : ¬ (g = f ∧ κ.rename (ctx' 0) b = κ.rename (ctx 0) a) := by
        rintro ⟨rfl, hr⟩
        exact he ⟨rfl, κ.rename_inj hb ha hr⟩
      rw [if_neg he, if_neg hne]
      exact h.values hg hb

lemma push {p : FrameId} {ctx : Context Role} (hp : ctxs[p]? = some ctx) (r : Role) :
    κ.StoreLike (ctxs ++ [inner r ctx]) (s.push (some p)).1 (s'.push (some p)).1 where
  size := by simp [Store.size_push, h.size]
  size' := by simp [Store.size_push, h.size']
  globals := by
    obtain ⟨hlt, _⟩ := List.getElem?_eq_some_iff.1 h.globals
    rw [List.getElem?_append_left hlt, h.globals]
  parent g := by
    obtain ⟨hlt, hlt'⟩ := h.bound hp
    rw [Store.parent?_push _ _ hlt, Store.parent?_push _ _ hlt', h.size, h.size', h.parent]
  outer := by
    intro f q ctx' hf hq
    obtain ⟨hlt, _⟩ := h.bound hp
    have hp' : (ctxs ++ [inner r ctx])[p]? = some ctx := by
      rw [List.getElem?_append_left (h.size ▸ hlt), hp]
    rw [Store.parent?_push _ _ hlt] at hq
    split at hq
    · next hs =>
      obtain rfl := Option.some.inj hq
      rw [hs, h.size] at hf
      obtain rfl : inner r ctx = ctx' := by simpa using hf
      exact hp'
    · next hs =>
      have hlt' : f < ctxs.length := by
        obtain ⟨hlen, _⟩ := List.getElem?_eq_some_iff.1 hf
        rw [List.length_append] at hlen
        exact Nat.lt_of_le_of_ne (Nat.lt_succ_iff.1 hlen) (h.size ▸ hs)
      rw [List.getElem?_append_left hlt'] at hf
      have ho := h.outer hf hq
      obtain ⟨hql, _⟩ := List.getElem?_eq_some_iff.1 ho
      rw [List.getElem?_append_left hql, ho]
  values := by
    intro f ctx' b hf hb
    rw [Store.local?_push, Store.local?_push]
    by_cases hlt : f < ctxs.length
    · rw [List.getElem?_append_left hlt] at hf
      exact optionRel_imp (fun _ _ hv => hv.extend) (h.values hf hb)
    · have hle := Nat.le_of_not_lt hlt
      rw [Store.local?_eq_none (h.size ▸ hle), Store.local?_eq_none (h.size' ▸ hle)]
      exact .none

end StoreLike

section

variable {κ' : Likeness Role} (w : Weaker κ κ')

include w

lemma FunctionLike.weaken {ctx : Context Role} {f f' : Function} (h : κ.FunctionLike ctx f f') :
    κ'.FunctionLike ctx f f' := by
  obtain ⟨r, hn, hp, hb⟩ := h
  exact ⟨r, hn, forall_nameLike_weaken w hp, hb.weaken w⟩

lemma ValueLike.weaken {v v' : Value} (h : κ.ValueLike ctxs v v') : κ'.ValueLike ctxs v v' := by
  cases h with
  | function i hc hf => exact .function i hc (hf.weaken w)
  | _ => constructor

lemma StoreLike.weaken {s s' : Store} (h : κ.StoreLike ctxs s s') : κ'.StoreLike ctxs s s' where
  size := h.size
  size' := h.size'
  globals := by
    have houtside : κ'.outside = κ.outside := funext fun _ => w.global
    rw [houtside, h.globals]
  parent := h.parent
  outer := h.outer
  values hf hk := by
    rw [w.rename]
    exact optionRel_imp (fun _ _ hv => hv.weaken w) (h.values hf (w.known.1 hk))

end

end Lox.Likeness
