import Lox.Proofs.Runs
import Lox.Proofs.Store

/-! What one step does to the frames. A frame that was there gets a name only while it is current
and a declaration gives it one; a block or a call begins with a frame of its own. -/

namespace Lox

namespace Store

structure Keeps (s s' : Store) (f : FrameId) : Prop where
  parent : s'.frames[f]?.map (·.parent) = s.frames[f]?.map (·.parent)
  names : ∀ name, (s'.local? f name).isSome = (s.local? f name).isSome

variable {s s' s'' : Store} {f g : FrameId}

lemma Keeps.refl (s : Store) (f : FrameId) : s.Keeps s f := ⟨rfl, fun _ => rfl⟩

lemma Keeps.trans (h : s.Keeps s' f) (h' : s'.Keeps s'' f) : s.Keeps s'' f :=
  ⟨h'.parent.trans h.parent, fun name => (h'.names name).trans (h.names name)⟩

lemma parent_define (f g : FrameId) (name : String) (v : Value) :
    (s.define f name v).frames[g]?.map (·.parent) = s.frames[g]?.map (·.parent) := by
  by_cases hg : f = g
  · subst hg
    cases h : s.frames[f]? <;> simp [define, Array.getElem?_modify, h, Frame.define]
  · simp [define, Array.getElem?_modify, hg]

lemma local?_define_of_ne (h : g ≠ f) (name key : String) (v : Value) :
    (s.define f name v).local? g key = s.local? g key := by
  simp [define, local?, Array.getElem?_modify, Ne.symm h]

lemma keeps_define_of_ne (h : g ≠ f) (name : String) (v : Value) : s.Keeps (s.define f name v) g :=
  ⟨parent_define f g name v, fun key => by rw [local?_define_of_ne h]⟩

lemma keeps_define_of_isSome {name : String} (h : (s.local? f name).isSome) (v : Value)
    (g : FrameId) : s.Keeps (s.define f name v) g := by
  refine ⟨parent_define f g name v, fun key => ?_⟩
  rw [local?_define _ _ _ _ _ _ (lt_of_local h)]
  split
  · next hgk =>
    obtain ⟨rfl, rfl⟩ := hgk
    rw [h]
    rfl
  · rfl

lemma keeps_push (p : Option FrameId) (h : f < s.frames.size) : s.Keeps (s.push p).1 f :=
  ⟨by rw [push, Array.getElem?_push_lt h, Array.getElem?_eq_getElem h],
    fun name => by rw [local?_push]⟩

def bindAll (f : FrameId) (params : List Token) (args : List Value) (s : Store) : Store :=
  (params.zip args).foldl (fun s (p, v) => s.define f p.lexeme v) s

lemma size_bindAll (f : FrameId) (params : List Token) (args : List Value) (s : Store) :
    (bindAll f params args s).frames.size = s.frames.size := by
  induction params generalizing args s with
  | nil => rfl
  | cons p params ih =>
    cases args with
    | nil => rfl
    | cons v args => exact (ih args _).trans (size_define f p.lexeme v)

lemma keeps_bindAll (h : g ≠ f) (params : List Token) (args : List Value) (s : Store) :
    s.Keeps (bindAll f params args s) g := by
  induction params generalizing args s with
  | nil => exact .refl s g
  | cons p params ih =>
    cases args with
    | nil => exact .refl s g
    | cons v args => exact (keeps_define_of_ne h p.lexeme v).trans (ih args _)

end Store

namespace Machine

def Pending.frame? : Pending → Option FrameId
  | .leaveBlock outer => some outer
  | .leaveCall caller _ => some caller
  | _ => none

def frames (pending : List Pending) : List FrameId := pending.filterMap Pending.frame?

def binder? : Machine → Option Token
  | ⟨.exec (.var x none), _, _⟩ | ⟨.exec (.function x _ _), _, _⟩ | ⟨.yield _, .bind x :: _, _⟩ =>
    some x
  | _ => none

inductive Affects : Option Token → List FrameId → FrameId → Store →
    List FrameId → FrameId → Store → Prop
  | stays {fs f s} : Affects none fs f s fs f s
  | assigns {fs f s g name} (v) : (s.local? g name).isSome →
      Affects none fs f s fs f (s.define g name v)
  | binds {fs f s} (x v) : Affects (some x) fs f s fs f (s.define f x.lexeme v)
  | entersBlock {fs f s} : Affects none fs f s (f :: fs) s.frames.size (s.push (some f)).1
  | entersCall {fs f s} (closure params args) : Affects none fs f s (f :: fs) s.frames.size
      ((s.push (some closure)).1.bindAll s.frames.size params args)
  | leaves {fs f s g} : Affects none (g :: fs) f s fs g s

def AffectsTo (x? : Option Token) (ps : List Pending) (w : World) (m : Machine) : Prop :=
  Affects x? (frames ps) w.env w.store (frames m.pending) m.world.env m.world.store

section

variable (t : Setting) (ps : List Pending) (w : World)

lemma apply_affects (v : Value) (paren : Token) (args : List Value) :
    AffectsTo none ps w (apply t v paren args ps w) := by
  cases v with
  | function i f closure =>
    simp only [apply]
    cases w.refusal? t f.params.length args with
    | some fault => exact .stays
    | none => exact .entersCall closure f.params args
  | native i =>
    simp only [apply]
    cases t.natives[i]? with
    | none => exact .stays
    | some native =>
      simp only
      cases w.refusal? t native.arity args <;> exact .stays
  | _ => exact .stays

lemma stepExpr_affects (e : Expr) : AffectsTo none ps w (stepExpr t e ps w) := by
  cases e with
  | ref site name =>
    simp only [stepExpr]
    cases w.lookUp? t site name.lexeme <;> exact .stays
  | _ => exact .stays

lemma stepStmt_affects (s : Stmt) :
    AffectsTo (binder? ⟨.exec s, ps, w⟩) ps w (stepStmt s ps w) := by
  cases s with
  | var x e =>
    cases e with
    | none => exact .binds x .nil
    | some e => exact .stays
  | ret keyword e => cases e <;> exact .stays
  | block body => exact .entersBlock
  | function x params body => exact .binds x _
  | _ => exact .stays

lemma print_affects (line? : Option ℕ) (v : Value) : AffectsTo none ps w (print line? v ps w) := by
  have hstore : (w.print v).2.store = w.store := rfl
  have henv : (w.print v).2.env = w.env := rfl
  unfold print
  generalize w.print v = result at hstore henv
  obtain ⟨accepted, u⟩ := result
  unfold AffectsTo
  rw [← hstore, ← henv]
  cases accepted <;> exact .stays

lemma stepValue_affects (v : Value) (p : Pending) :
    AffectsTo (binder? ⟨.yield v, p :: ps, w⟩) (p :: ps) w (stepValue t v p ps w) := by
  cases p with
  | assign site name =>
    simp only [stepValue]
    cases htarget : w.target? t site name.lexeme with
    | none => exact .stays
    | some f => exact .assigns v (World.isSome_of_target htarget)
  | bind x => exact .binds x v
  | callee paren es =>
    cases es with
    | nil => exact apply_affects t ps w v paren []
    | cons e es => exact .stays
  | argument f paren vs es =>
    cases es with
    | nil => exact apply_affects t ps w f paren (v :: vs).reverse
    | cons e es => exact .stays
  | print line? => exact print_affects ps w line? v
  | logicalLeft op e =>
    simp only [stepValue]
    split <;> exact .stays
  | branch s other =>
    simp only [stepValue]
    cases other <;> split <;> exact .stays
  | loopTest c s =>
    simp only [stepValue]
    split <;> exact .stays
  | sequence b => cases b <;> exact .stays
  | leaveBlock outer => exact .leaves
  | leaveCall caller callerLine => exact .leaves
  | _ => exact .stays

end

theorem step_affects (t : Setting) (m : Machine) :
    AffectsTo m.binder? m.pending m.world (m.step t) := by
  obtain ⟨c, ps, w⟩ := m
  cases c with
  | eval e => exact stepExpr_affects t ps w e
  | exec s => exact stepStmt_affects ps w s
  | yield v =>
    cases ps with
    | nil => exact .stays
    | cons p ps => exact stepValue_affects t ps w v p
  | returning v | failing e =>
    cases ps with
    | nil => exact .stays
    | cons p ps =>
      cases p with
      | leaveBlock outer => exact .leaves
      | leaveCall caller callerLine => exact .leaves
      | _ => exact .stays

section

variable {x? : Option Token} {fs fs' : List FrameId} {f f' : FrameId} {s s' : Store}

lemma Affects.size_le (h : Affects x? fs f s fs' f' s') : s.frames.size ≤ s'.frames.size := by
  cases h with
  | stays | leaves => exact Nat.le_refl _
  | assigns | binds => exact Nat.le_of_eq (Store.size_define ..).symm
  | entersBlock =>
    rw [Store.size_push]
    exact Nat.le_succ _
  | entersCall =>
    rw [Store.size_bindAll, Store.size_push]
    exact Nat.le_succ _

lemma Affects.keeps (h : Affects x? fs f s fs' f' s') {g : FrameId} (hg : g < s.frames.size)
    (hx : x?.isSome → g ≠ f) : s.Keeps s' g := by
  cases h with
  | stays | leaves => exact .refl s g
  | assigns v hl => exact Store.keeps_define_of_isSome hl v g
  | binds x v => exact Store.keeps_define_of_ne (hx rfl) x.lexeme v
  | entersBlock => exact Store.keeps_push (some f) hg
  | entersCall closure params args =>
    exact (Store.keeps_push (some closure) hg).trans
      (Store.keeps_bindAll (Nat.ne_of_lt hg) params args _)

lemma Affects.above {n : ℕ} (h : Affects x? fs f s fs' f' s') (hn : n ≤ s.frames.size) (hf : n ≤ f)
    (hfs : ∀ g ∈ fs, n ≤ g) : n ≤ f' ∧ ∀ g ∈ fs', n ≤ g := by
  cases h with
  | stays | assigns | binds => exact ⟨hf, hfs⟩
  | entersBlock | entersCall => exact ⟨hn, List.forall_mem_cons.2 ⟨hf, hfs⟩⟩
  | leaves => exact List.forall_mem_cons.1 hfs

end

end Machine

end Lox
