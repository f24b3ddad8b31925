import Lox.Proofs.Binding.Declarative
import Lox.Proofs.Control.Standing
import Lox.Proofs.Frames.Effect

/-! Code that a call or a block runs has a frame of its own as the current one, so it adds names to
no frame that was there before. What is left outside of these is the statement itself. -/

namespace Lox

open Machine

/-- A statement that declares nothing in the frame in which it is executed. -/
def Stmt.Silent (s : Stmt) : Prop := s.Placed ∧ s.isDeclaration = false

namespace Machine

def Control.Silent : Control → Prop
  | .exec s => s.Silent
  | _ => True

def Pending.Silent : Pending → Prop
  | .branch s t => s.Silent ∧ ∀ u ∈ t, u.Silent
  | .loopTest _ s | .loopBody _ s => s.Silent
  | .bind _ | .sequence _ | .leaveBlock _ | .leaveCall _ _ => False
  | _ => True

structure Within (n : ℕ) (m : Machine) : Prop where
  size : n ≤ m.world.store.frames.size
  env : n ≤ m.world.env
  frames : ∀ f ∈ frames m.pending, n ≤ f

inductive Sheltered (n : ℕ) (env : FrameId) : Machine → Prop
  | outside {c ps w} : c.Silent → (∀ p ∈ ps, p.Silent) → w.env = env →
      n ≤ w.store.frames.size → Sheltered n env ⟨c, ps, w⟩
  | within {m p ps} : Within n m → p.frame? = some env → (∀ q ∈ ps, q.Silent) →
      Sheltered n env (m.above (p :: ps))

variable {n : ℕ} {env : FrameId} {t : Setting} {ps : List Pending} {w : World}

lemma silent_ofExcept (line : ℕ) (x : Except RuntimeFault Value) :
    (Control.ofExcept line x).Silent := by
  cases x <;> trivial

lemma Sheltered.size {m : Machine} (h : Sheltered n env m) : n ≤ m.world.store.frames.size := by
  cases h with
  | outside _ _ _ hn => exact hn
  | within hm => exact hm.size

lemma Within.step {m : Machine} (h : Within n m) : Within n (m.step t) := by
  have ha := step_affects t m
  obtain ⟨henv, hframes⟩ := ha.above h.size h.env h.frames
  exact ⟨Nat.le_trans h.size ha.size_le, henv, hframes⟩

section

variable (hps : ∀ p ∈ ps, p.Silent) (henv : w.env = env) (hn : n ≤ w.store.frames.size)

include hps henv hn

lemma Sheltered.control {c : Control} (hc : c.Silent) : Sheltered n env ⟨c, ps, w⟩ :=
  .outside hc hps henv hn

lemma Sheltered.item {c : Control} (hc : c.Silent) {p : Pending} (hp : p.Silent) :
    Sheltered n env ⟨c, p :: ps, w⟩ :=
  .outside hc (List.forall_mem_cons.2 ⟨hp, hps⟩) henv hn

lemma enterBlock_sheltered (body : List Stmt) :
    Sheltered n env ⟨.yield .nil, .sequence body :: .leaveBlock w.env :: ps, w.enterBlock⟩ := by
  have hwithin : Within n ⟨.yield .nil, [.sequence body], w.enterBlock⟩ := by
    obtain ⟨store, _⟩ := w
    refine ⟨Nat.le_trans hn ?_, hn, by simp [frames, Pending.frame?]⟩
    rw [World.enterBlock, Store.size_push]
    exact Nat.le_succ _
  exact .within hwithin (congrArg some henv) hps

lemma apply_sheltered (v : Value) (paren : Token) (args : List Value) :
    Sheltered n env (apply t v paren args ps w) := by
  cases v with
  | function i f closure =>
    simp only [apply]
    cases w.refusal? t f.params.length args with
    | some fault => exact .control hps henv hn (by trivial)
    | none =>
      have hwithin : Within n ⟨.yield .nil, [.sequence f.body],
          w.enterCall closure f.params args paren.line⟩ := by
        obtain ⟨store, _⟩ := w
        refine ⟨Nat.le_trans hn ?_, hn, by simp [frames, Pending.frame?]⟩
        have hsize : store.frames.size ≤
            ((store.push (some closure)).1.bindAll store.frames.size f.params
              args).frames.size := by
          rw [Store.size_bindAll, Store.size_push]
          exact Nat.le_succ _
        exact hsize
      exact .within hwithin (congrArg some henv) hps
  | native i =>
    simp only [apply]
    cases t.natives[i]? with
    | none => exact .control hps henv hn (by trivial)
    | some native =>
      simp only
      cases w.refusal? t native.arity args with
      | some fault => exact .control hps henv hn (by trivial)
      | none =>
        exact Sheltered.control (w := w.tick) hps henv hn (silent_ofExcept _ _)
  | _ => exact .control hps henv hn (by trivial)

lemma stepExpr_sheltered (e : Expr) : Sheltered n env (stepExpr t e ps w) := by
  cases e with
  | literal | grouping => exact .control hps henv hn (by trivial)
  | ref site name =>
    simp only [stepExpr]
    cases w.lookUp? t site name.lexeme <;> exact .control hps henv hn (by trivial)
  | _ => exact .item hps henv hn (by trivial) (by trivial)

lemma stepStmt_sheltered {s : Stmt} (hs : s.Silent) : Sheltered n env (stepStmt s ps w) := by
  obtain ⟨hp, hd⟩ := hs
  cases s with
  | expression e => exact .control hps henv hn (by trivial)
  | print e => exact .item hps henv hn (by trivial) (by trivial)
  | block body => exact enterBlock_sheltered hps henv hn body
  | ifThen c s =>
    have hbranch : (Pending.branch s none).Silent := ⟨hp, by simp⟩
    exact .item hps henv hn (by trivial) hbranch
  | ifElse c s u =>
    have hbranch : (Pending.branch s (some u)).Silent := ⟨hp.1, by rintro _ ⟨⟩; exact hp.2⟩
    exact .item hps henv hn (by trivial) hbranch
  | loop c s =>
    have htest : (Pending.loopTest c s).Silent := hp
    exact .item hps henv hn (by trivial) htest
  | ret keyword e =>
    cases e with
    | none => exact .control hps henv hn (by trivial)
    | some e => exact .item hps henv hn (by trivial) (by trivial)
  | var | function => cases hd

lemma print_sheltered (line? : Option ℕ) (v : Value) : Sheltered n env (print line? v ps w) := by
  have hw : (w.print v).2.store = w.store := rfl
  have he : (w.print v).2.env = w.env := rfl
  unfold print
  generalize w.print v = result at hw he
  obtain ⟨accepted, u⟩ := result
  rw [← he] at henv
  rw [← hw] at hn
  cases accepted <;> exact .control hps henv hn (by trivial)

lemma stepValue_sheltered (v : Value) {p : Pending} (hp : p.Silent) :
    Sheltered n env (stepValue t v p ps w) := by
  cases p with
  | unary op => exact .control hps henv hn (silent_ofExcept _ _)
  | binaryLeft op e => exact .item hps henv hn (by trivial) (by trivial)
  | binaryRight u op => exact .control hps henv hn (silent_ofExcept _ _)
  | logicalLeft op e =>
    simp only [stepValue]
    split <;> exact .control hps henv hn (by trivial)
  | assign site name =>
    simp only [stepValue]
    cases w.target? t site name.lexeme with
    | none => exact .control hps henv hn (by trivial)
    | some f =>
      have hsize : n ≤ (w.define f name.lexeme v).store.frames.size :=
        Nat.le_trans hn (Nat.le_of_eq (Store.size_define ..).symm)
      exact Sheltered.control (w := w.define f name.lexeme v) hps henv hsize (by trivial)
  | callee paren es =>
    cases es with
    | nil => exact apply_sheltered hps henv hn v paren []
    | cons e es => exact .item hps henv hn (by trivial) (by trivial)
  | argument f paren vs es =>
    cases es with
    | nil => exact apply_sheltered hps henv hn f paren (v :: vs).reverse
    | cons e es => exact .item hps henv hn (by trivial) (by trivial)
  | print line? => exact print_sheltered hps henv hn line? v
  | branch s u =>
    obtain ⟨hs, hu⟩ := hp
    simp only [stepValue]
    split
    · have hthen : (Control.exec s).Silent := hs
      exact .control hps henv hn hthen
    · cases u with
      | none => exact .control hps henv hn (by trivial)
      | some u =>
        have helse : (Control.exec u).Silent := hu u rfl
        exact .control hps henv hn helse
  | loopTest c s =>
    simp only [stepValue]
    split
    · have hbody : (Control.exec s).Silent := hp
      have hloop : (Pending.loopBody c s).Silent := hp
      exact .item hps henv hn hbody hloop
    · exact .control hps henv hn (by trivial)
  | loopBody c s =>
    have htest : (Pending.loopTest c s).Silent := hp
    exact .item hps henv hn (by trivial) htest
  | giveBack => exact .control hps henv hn (by trivial)
  | bind | sequence | leaveBlock | leaveCall => cases hp

omit henv in
lemma leave_sheltered {c : Control} {p : Pending} (hover : isOver ⟨c, [], w⟩ = true)
    (hp : p.frame? = some env) : Sheltered n env (Machine.step t ⟨c, p :: ps, w⟩) := by
  cases p with
  | leaveBlock outer | leaveCall outer line =>
    obtain rfl := Option.some.inj hp
    cases c with
    | eval | exec => cases hover
    | yield v | returning v | failing e => refine .outside ?_ hps rfl hn; trivial
  | _ => cases hp

end

lemma Sheltered.step {m : Machine} (h : Sheltered n env m) : Sheltered n env (m.step t) := by
  cases h with
  | @outside c ps w hc hps henv hn =>
    cases c with
    | eval e => exact stepExpr_sheltered hps henv hn e
    | exec s => exact stepStmt_sheltered hps henv hn hc
    | yield v =>
      cases ps with
      | nil => exact .control hps henv hn (by trivial)
      | cons p ps =>
        obtain ⟨hp, hps⟩ := List.forall_mem_cons.1 hps
        exact stepValue_sheltered hps henv hn v hp
    | returning v | failing e =>
      cases ps with
      | nil => exact .control hps henv hn (by trivial)
      | cons p ps =>
        obtain ⟨hp, hrest⟩ := List.forall_mem_cons.1 hps
        cases p <;> first | exact .control hrest henv hn (by trivial) | cases hp
  | @within m p ps hm hp hps =>
    cases hover : m.isOver with
    | false =>
      rw [step_above t (p :: ps) hover]
      exact .within hm.step hp hps
    | true =>
      -- What began outside is over, and the frame is current again.
      obtain ⟨c, qs, w⟩ := m
      obtain rfl : qs = [] := pending_of_isOver hover
      exact leave_sheltered hps hm.size hover hp

lemma Sheltered.keeps {m : Machine} (h : Sheltered n env m) {g : FrameId} (hg : g < n) :
    m.world.store.Keeps (m.step t).world.store g := by
  refine (step_affects t m).keeps (Nat.lt_of_lt_of_le hg h.size) fun hx => ?_
  cases h with
  | within hm => exact Nat.ne_of_lt (Nat.lt_of_lt_of_le hg hm.env)
  | @outside c ps w hc hps =>
    -- Outside, nothing declares a name.
    obtain ⟨x, hx⟩ := Option.isSome_iff_exists.1 hx
    unfold binder? at hx
    split at hx
    · next heq =>
      cases heq
      cases hc.2
    · next heq =>
      cases heq
      cases hc.2
    · next heq =>
      cases heq
      exact (hps _ List.mem_cons_self).elim
    · cases hx

theorem Sheltered.run_keeps {m : Machine} (h : Sheltered n env m) {g : FrameId} (hg : g < n)
    (k : ℕ) : m.world.store.Keeps (m.run t k).world.store g := by
  induction k generalizing m with
  | zero => exact .refl _ g
  | succ k ih =>
    rw [run]
    split
    · exact .refl _ g
    · exact (h.keeps hg).trans (ih h.step)

lemma Sheltered.run_bind {m : Machine} (h : Sheltered n env m) (x : Token) (k : ℕ) :
    let m' := (m.above [.bind x]).run t k
    (∀ g < n, m.world.store.Keeps m'.world.store g) ∨
      ∃ s v, (∀ g < n, m.world.store.Keeps s g) ∧ m'.world.store = s.define env x.lexeme v ∧
        m'.control = .yield .nil ∧ m'.pending = [] := by
  induction k generalizing m with
  | zero => exact .inl fun g _ => .refl _ g
  | succ k ih =>
    rw [run_succ (isOver_above_cons _ _)]
    cases hover : m.isOver with
    | false =>
      rw [step_above t _ hover]
      have hstep : ∀ g < n, m.world.store.Keeps (m.step t).world.store g := fun g hg => h.keeps hg
      rcases ih h.step with hk | ⟨s, v, hs, hrest⟩
      · exact .inl fun g hg => (hstep g hg).trans (hk g hg)
      · exact .inr ⟨s, v, fun g hg => (hstep g hg).trans (hs g hg), hrest⟩
    | true =>
      obtain ⟨c, ps, w⟩ := m
      obtain rfl : ps = [] := pending_of_isOver hover
      have henv : w.env = env := by
        generalize hm : (⟨c, [], w⟩ : Machine) = m at h hover
        cases h with
        | outside _ _ henv =>
          cases hm
          exact henv
        | within => rw [isOver_above_cons] at hover; cases hover
      cases c with
      | eval | exec => cases hover
      | yield v =>
        right
        refine ⟨w.store, v, fun g _ => .refl _ g, ?_⟩
        rw [← henv]
        rw [run_of_isOver rfl]
        exact ⟨rfl, rfl, rfl⟩
      | returning v | failing e =>
        left
        intro g _
        rw [run_of_isOver rfl]
        exact .refl _ g

lemma sheltered_start {c : Control} (hc : c.Silent) (w : World) :
    Sheltered w.store.frames.size w.env ⟨c, [], w⟩ :=
  .outside hc (by simp) rfl (Nat.le_refl _)

end Machine

open Binding

structure Store.Gains (s s' : Store) (f : FrameId) (names : String → Prop) : Prop where
  parent : s'.frames[f]?.map (·.parent) = s.frames[f]?.map (·.parent)
  kept : ∀ name, (s.local? f name).isSome → (s'.local? f name).isSome
  gained : ∀ name, (s'.local? f name).isSome → (s.local? f name).isSome ∨ names name

lemma Store.Keeps.gains {s s' : Store} {f : FrameId} (h : s.Keeps s' f) (names : String → Prop) :
    s.Gains s' f names :=
  ⟨h.parent, fun name hb => by rwa [h.names], fun name hb => .inl (by rwa [← h.names])⟩

lemma Store.Keeps.define {s s' : Store} {f : FrameId} (h : s.Keeps s' f)
    (hf : f < s.frames.size) (g : FrameId) (x : String) (v : Value) :
    s.Gains (s'.define g x v) f fun name => f = g ∧ x = name := by
  have hlt : f < s'.frames.size := by
    by_contra hge
    have hp := h.parent
    rw [Array.getElem?_eq_none (Nat.le_of_not_lt hge), Array.getElem?_eq_getElem hf] at hp
    cases hp
  by_cases hfg : f = g
  · subst hfg
    refine ⟨(Store.parent_define ..).trans h.parent, fun name hb => ?_, fun name hb => ?_⟩
    · rw [Store.local?_define _ _ _ _ _ _ hlt]
      split
      · rfl
      · rwa [h.names]
    · rw [Store.local?_define _ _ _ _ _ _ hlt] at hb
      split at hb
      · next heq => exact .inr ⟨rfl, heq.2.symm⟩
      · exact .inl (by rwa [← h.names])
  · exact (h.trans (Store.keeps_define_of_ne hfg x v)).gains _

lemma Store.Gains.imp {s s' : Store} {f : FrameId} {some more : String → Prop}
    (h : s.Gains s' f some) (hm : ∀ name, some name → more name) : s.Gains s' f more :=
  ⟨h.parent, h.kept, fun name hb => (h.gained name hb).imp_right (hm name)⟩

lemma declared_gains {w : World} {m : Machine} {s : Stmt} {x : Token} {before : Store} {v u : Value}
    {g : FrameId} (hk : w.store.Keeps before g) (hg : g < w.store.frames.size)
    (hd : s.declared? = some x) (hstore : m.world.store = before.define w.env x.lexeme v)
    (hpending : m.pending = []) (hcontrol : m.control = .yield u) :
    w.store.Gains m.world.store g fun name =>
      g = w.env ∧ s.declared?.map (·.lexeme) = some name ∧
        m.pending = [] ∧ ∃ v, m.control = .yield v := by
  rw [hstore, hd]
  refine (hk.define hg w.env x.lexeme v).imp ?_
  rintro name ⟨hf, rfl⟩
  exact ⟨hf, rfl, hpending, u, hcontrol⟩

/-- Evaluating an expression gives no frame that was there a name and takes none from it, whatever
is called and however far it has come; nor does it change what encloses the frame. Executing a
statement of a program changes no more than this: a declaration that has come to its end has given
the current frame the name that it declares. -/
theorem names_sheltered (t : Setting) (w : World) :
    (∀ e k, ∀ g < w.store.frames.size,
      w.store.Keeps ((Machine.evaluating e w).run t k).world.store g) ∧
    ∀ {first tokens program}, (Reading.ofTokens first tokens).program? = .ok program →
      ∀ p around s, placeAt? program p = some ⟨around, .stmt s⟩ → ∀ k,
        let m := Machine.run t k ⟨.exec s, [], w⟩
        ∀ g < w.store.frames.size, w.store.Gains m.world.store g fun name =>
          g = w.env ∧ s.declared?.map (·.lexeme) = some name ∧
            m.pending = [] ∧ ∃ v, m.control = .yield v := by
  refine ⟨fun e k g hg => ?_, fun hread p around s hp k => ?_⟩
  · have hstart := sheltered_start (c := .eval e) trivial w
    exact hstart.run_keeps hg k
  have hplaced : s.Placed :=
    placed_at (Grammar.decls_sound (Grammar.accepted_iff_reads.1 hread)).2 hp
  intro m g hg
  cases hd : s.isDeclaration with
  | false =>
    have hstart := sheltered_start (c := .exec s) ⟨hplaced, hd⟩ w
    exact (hstart.run_keeps hg k).gains _
  | true =>
    have hrefl := Store.Keeps.refl w.store g
    cases k with
    | zero => exact hrefl.gains _
    | succ k =>
      have hrun : m = (Machine.step t ⟨.exec s, [], w⟩).run t k := run_succ rfl k
      cases s with
      | var x e =>
        cases e with
        | none =>
          have hover : m = ⟨.yield .nil, [], w.bind x.lexeme .nil⟩ :=
            hrun.trans (run_of_isOver rfl k)
          rw [hover]
          exact declared_gains hrefl hg rfl rfl rfl rfl
        | some e =>
          have hm : m = ((⟨.eval e, [], w⟩ : Machine).above [.bind x]).run t k := hrun
          rw [hm]
          have hstart := sheltered_start (c := .eval e) trivial w
          rcases hstart.run_bind x k with hk | ⟨before, v, hk, hstore, hcontrol, hpending⟩
          · exact (hk g hg).gains _
          · exact declared_gains (hk g hg) hg rfl hstore hpending hcontrol
      | function x params body =>
        have hover : m = ⟨.yield .nil, [], w.declare ⟨x, params, body⟩⟩ :=
          hrun.trans (run_of_isOver rfl k)
        rw [hover]
        exact declared_gains hrefl hg rfl rfl rfl rfl
      | _ => cases hd

def nilVariable : Stmt := .var ⟨.identifier, "a", 4, 1⟩ (some (.literal .nil))

def nilVariableTokens : List Token :=
  [⟨.keyword .kwVar, "var", 0, 1⟩, ⟨.identifier, "a", 4, 1⟩, ⟨.punct .equal, "=", 6, 1⟩,
    ⟨.keyword .kwNil, "nil", 8, 1⟩, ⟨.punct .semicolon, ";", 11, 1⟩, ⟨.eof, "", 12, 1⟩]

theorem nilVariable_named :
    let w := World.initial .stopped .unlimited
    let m := Machine.run ⟨#[], ∅, 1⟩ 3 ⟨.exec nilVariable, [], w⟩
    ∀ name, (m.world.store.local? Store.globals name).isSome ↔ name = "a" := by
  intro w m name
  have hread : (Reading.ofTokens 0 nilVariableTokens).program? = .ok [nilVariable] := rfl
  obtain ⟨-, hstmt⟩ := names_sheltered ⟨#[], ∅, 1⟩ w
  have hgains := hstmt hread [0] [] nilVariable rfl 3 Store.globals Nat.zero_lt_one
  constructor
  · intro hb
    rcases hgains.gained name hb with hold | ⟨-, hname, -⟩
    · cases hold
    · exact (Option.some.inj hname).symm
  · rintro rfl
    rfl

end Lox
