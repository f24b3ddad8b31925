import Lox.Proofs.Frames.Agreement
import Lox.Proofs.Frames.Tight

/-! Runs of a program whose functions are all outermost. A call begins in a frame right inside the
global one, so the frames around what is done are always those of blocks and of the one call it
belongs to, and they bind no other names than the walk had declared there. -/

namespace Lox

def Machine.Pending.isPlain : Machine.Pending → Bool
  | .bind _ | .sequence _ | .assign _ _ | .leaveBlock _ | .leaveCall _ _ => false
  | _ => true

namespace Frames

open Binding Machine

/-- What remains in the current frame, and in those to come back to. Each item stands in the scopes
that are open when it is reached. -/
inductive Snug (program : List Stmt) (s : Store) :
    FrameId → List Scope → List (List Scope) → List Pending → Prop
  | nil {env scopes} : Snug program s env scopes [] []
  | leave {env scopes here outer outside traces p ps} : p.frame? = some outer → outer < env →
      Tight s outer outside → Snug program s outer outside traces ps →
      Snug program s env scopes (here :: traces) (p :: ps)
  | bind {env scopes here x traces ps} : Snug program s env (enter x true scopes) traces ps →
      Snug program s env scopes (here :: traces) (.bind x :: ps)
  | sequence {env scopes b traces ps} :
      Snug program s env (scopesAfterAll b scopes) traces ps →
      Snug program s env scopes (scopes :: traces) (.sequence b :: ps)
  | assign {env scopes site name traces ps} :
      (∃ fn e, ⟨.expr (.assign site name e), fn, scopes⟩ ∈ visits program) →
      Snug program s env scopes traces ps →
      Snug program s env scopes (scopes :: traces) (.assign site name :: ps)
  | item {env scopes traces p ps} : p.isPlain = true → Snug program s env scopes traces ps →
      Snug program s env scopes (scopes :: traces) (p :: ps)

inductive ControlSnug (s : Store) (env : FrameId) : List Scope → List Scope → Control → Prop
  | eval {scopes e} : Tight s env scopes → ControlSnug s env scopes scopes (.eval e)
  | exec {scopes st} : Tight s env scopes →
      ControlSnug s env scopes (scopesAfter st scopes) (.exec st)
  | yield {scopes after v} : Tight s env after → ControlSnug s env scopes after (.yield v)
  | returning {scopes after v} : ControlSnug s env scopes after (.returning v)
  | failing {scopes after e} : ControlSnug s env scopes after (.failing e)

inductive MachineSnug (program : List Stmt) (t : Trace) : Machine → Prop
  | mk {after c ps w} : (∀ b ∈ t.bodies, b.length = 1) →
      ControlSnug w.store w.env t.scopes after c →
      Snug program w.store w.env after t.pending ps → MachineSnug program t ⟨c, ps, w⟩

def Outermost (program : List Stmt) : Prop :=
  ∀ name params body fn scopes,
    ⟨.stmt (.function name params body), fn, scopes⟩ ∈ visits program → scopes = []

variable {program : List Stmt} {bodies : List (List Scope)} {setting : Setting}
  {scopes after : List Scope} {traces : List (List Scope)} {s s' : Store} {env : FrameId}
  {w : World}
  {ps : List Pending}

lemma Snug.keeps (h : Snug program s env scopes traces ps) (hk : ∀ f < env, s.Keeps s' f) :
    Snug program s' env scopes traces ps := by
  induction h with
  | nil => exact .nil
  | leave hp hlt ht _ ih =>
    refine .leave hp hlt (ht.keeps fun f hf => hk f (Nat.lt_of_le_of_lt hf hlt)) (ih fun f hf => ?_)
    exact hk f (Nat.lt_trans hf hlt)
  | bind _ ih => exact .bind (ih hk)
  | sequence _ ih => exact .sequence (ih hk)
  | assign hv _ ih => exact .assign hv (ih hk)
  | item hp _ ih => exact .item hp (ih hk)

lemma Snug.define (h : Snug program s env scopes traces ps) (x : String) (v : Value) :
    Snug program (s.define env x v) env scopes traces ps :=
  h.keeps fun _ hf => Store.keeps_define_of_ne (Nat.ne_of_lt hf) x v

section

variable (hb : ∀ b ∈ bodies, b.length = 1)

include hb

lemma stepExpr_snug {e : Expr} (he : ExprIn [program] scopes e) (ht : Tight w.store w.env scopes)
    (h : Snug program w.store w.env scopes traces ps) :
    MachineSnug program (Trace.stepExpr e ⟨scopes, traces, bodies⟩)
      (Machine.stepExpr setting e ps w) := by
  cases e with
  | literal v => exact .mk hb (.yield ht) h
  | grouping e => exact .mk hb (.eval ht) h
  | ref site name =>
    simp only [Machine.stepExpr]
    cases w.lookUp? setting site name.lexeme with
    | some v => exact .mk hb (.yield ht) h
    | none => exact .mk hb .failing h
  | assign site name e =>
    obtain ⟨p, hp, fn, hv⟩ := he
    obtain rfl := List.mem_singleton.1 hp
    have hvisit := hv (mem_exprVisits_self fn scopes (.assign site name e))
    exact .mk hb (.eval ht) (.assign ⟨fn, e, hvisit⟩ h)
  | _ => exact .mk hb (.eval ht) (.item rfl h)

lemma stepStmt_snug (hout : Outermost program) {st : Stmt} (hs : StmtIn [program] scopes st)
    (hlt : w.env < w.store.frames.size) (ht : Tight w.store w.env scopes)
    (h : Snug program w.store w.env (scopesAfter st scopes) traces ps) :
    MachineSnug program (Trace.stepStmt st ⟨scopes, traces, bodies⟩)
      (Machine.stepStmt st ps w) := by
  cases st with
  | expression e => exact .mk hb (.eval ht) h
  | print e => exact .mk hb (.eval ht) (.item rfl h)
  | var x e =>
    cases e with
    | none => exact .mk hb (.yield (ht.declared x .nil)) (h.define x.lexeme .nil)
    | some e => exact .mk hb (.eval (ht.enter x false)) (.bind h)
  | block body =>
    have hk : ∀ f < w.store.frames.size, w.store.Keeps (w.store.push (some w.env)).1 f :=
      fun f hf => Store.keeps_push _ hf
    have houter := ht.keeps fun f hf => hk f (Nat.lt_of_le_of_lt hf hlt)
    have hrest := h.keeps fun f hf => hk f (Nat.lt_trans hf hlt)
    exact .mk hb (.yield (ht.push hlt)) (.sequence (.leave rfl hlt houter hrest))
  | ifThen c s =>
    rw [scopesAfter_eq hs.1 rfl] at h
    exact .mk hb (.eval ht) (.item rfl h)
  | ifElse c s t =>
    rw [scopesAfter_eq hs.1 rfl] at h
    exact .mk hb (.eval ht) (.item rfl h)
  | loop c s =>
    rw [scopesAfter_eq hs.1 rfl] at h
    exact .mk hb (.eval ht) (.item rfl h)
  | function x params body =>
    obtain ⟨-, p, hp, fn, hv⟩ := hs
    obtain rfl := List.mem_singleton.1 hp
    have hvisit := hv (mem_stmtVisits_self fn scopes (.function x params body))
    obtain rfl : scopes = [] := hout x params body fn scopes hvisit
    have hbodies : ∀ b ∈ bodies ++ [paramScopes params (declared x [])], b.length = 1 := by
      intro b hmem
      rcases List.mem_append.1 hmem with hmem | hmem
      · exact hb b hmem
      · obtain rfl := List.mem_singleton.1 hmem
        obtain ⟨scope, hscope⟩ := paramScopes_cons params (declared x [])
        rw [hscope]
        rfl
    obtain ⟨store, _⟩ := w
    exact .mk hbodies (.yield (ht.declared x _)) (h.define x.lexeme _)
  | ret keyword e =>
    cases e with
    | none => exact .mk hb .returning h
    | some e => exact .mk hb (.eval ht) (.item rfl h)

omit hb in
lemma closure_global (hb : ∀ b ∈ bodies, b.length = 1) {i : ℕ} {f : Function} {closure : FrameId}
    (hv : ValueFits [program] bodies s (.function i f closure)) :
    bodies.getD i [] = paramScopes f.params [] ∧ closure = Store.globals := by
  cases hv with
  | data hd => exact hd.elim
  | @function _ _ _ outside hi hc _ =>
    have hlength := hb _ (List.mem_of_getElem? hi)
    obtain ⟨scope, hscope⟩ := paramScopes_cons f.params outside
    rw [hscope, List.length_cons] at hlength
    obtain rfl := List.length_eq_zero_iff.1 (Nat.succ.inj hlength)
    refine ⟨?_, ?_⟩
    · rw [List.getD_eq_getElem?_getD, hi, Option.getD_some]
    · cases hc
      rfl

lemma apply_snug {v : Value} (hv : ValueFits [program] bodies w.store v)
    (hlt : w.env < w.store.frames.size) (ht : Tight w.store w.env scopes)
    (h : Snug program w.store w.env scopes traces ps) (paren : Token) (args : List Value) :
    MachineSnug program (Trace.apply setting v args w ⟨scopes, traces, bodies⟩)
      (Machine.apply setting v paren args ps w) := by
  cases v with
  | function i f closure =>
    simp only [Machine.apply, Trace.apply]
    cases w.refusal? setting f.params.length args with
    | some fault => exact .mk hb .failing h
    | none =>
      obtain ⟨hbody, rfl⟩ := closure_global hb hv
      simp only [hbody]
      obtain ⟨store, env, _⟩ := w
      have hsize : Store.globals < store.frames.size := Nat.lt_of_le_of_lt (Nat.zero_le env) hlt
      have hk : ∀ f' < store.frames.size, store.Keeps ((store.push (some Store.globals)).1.bindAll
          store.frames.size f.params args) f' := fun f' hf =>
        (Store.keeps_push _ hf).trans (Store.keeps_bindAll (Nat.ne_of_lt hf) _ _ _)
      have htight :
          Tight ((store.push (some Store.globals)).1.bindAll store.frames.size f.params args)
          store.frames.size (paramScopes f.params []) :=
        (Tight.push .global hsize).bindAll f.params args
      have houter := ht.keeps fun f' hf => hk f' (Nat.lt_of_le_of_lt hf hlt)
      have hrest := h.keeps fun f' hf => hk f' (Nat.lt_trans hf hlt)
      exact .mk hb (.yield htight) (.sequence (.leave rfl hlt houter hrest))
  | native i =>
    simp only [Machine.apply, Trace.apply]
    cases setting.natives[i]? with
    | none => exact .mk hb .failing h
    | some native =>
      simp only
      cases w.refusal? setting native.arity args with
      | some fault => exact .mk hb .failing h
      | none =>
        cases native.call w.clock.now args with
        | error message => exact .mk (w := w.tick) hb .failing h
        | ok v => exact .mk (w := w.tick) hb (.yield ht) h
  | _ => exact .mk hb .failing h

lemma nextArgument_snug {v : Value} (hv : ValueFits [program] bodies w.store v)
    (hlt : w.env < w.store.frames.size) (ht : Tight w.store w.env scopes)
    (h : Snug program w.store w.env scopes traces ps) (paren : Token) (args : List Value)
    (es : List Expr) :
    MachineSnug program (Trace.nextArgument setting v args es w ⟨scopes, traces, bodies⟩)
      (Machine.nextArgument setting v paren args es ps w) := by
  cases es with
  | nil => exact apply_snug hb hv hlt ht h paren args.reverse
  | cons e es => exact .mk hb (.eval ht) (.item rfl h)

lemma print_snug (ht : Tight w.store w.env scopes)
    (h : Snug program w.store w.env scopes traces ps) (line? : Option ℕ) (v : Value)
    (here : List Scope) :
    MachineSnug program ⟨here, traces, bodies⟩ (Machine.print line? v ps w) := by
  have hstore : (w.print v).2.store = w.store := rfl
  have henv : (w.print v).2.env = w.env := rfl
  unfold Machine.print
  generalize w.print v = result at hstore henv
  obtain ⟨accepted, u⟩ := result
  rw [← hstore, ← henv] at ht h
  cases accepted with
  | true => exact .mk hb (.yield ht) h
  | false => exact .mk hb .failing h

lemma ofExcept_snug (ht : Tight w.store w.env scopes)
    (h : Snug program w.store w.env scopes traces ps) (line : ℕ) (x : Except RuntimeFault Value)
    (here : List Scope) :
    MachineSnug program ⟨here, traces, bodies⟩ ⟨.ofExcept line x, ps, w⟩ := by
  cases x with
  | ok v => exact .mk hb (.yield ht) h
  | error fault => exact .mk hb .failing h

lemma branch_snug {st : Stmt} (hs : BranchIn [program] after st) (ht : Tight w.store w.env scopes)
    (h : Snug program w.store w.env scopes traces ps) :
    MachineSnug program ⟨scopes, traces, bodies⟩ ⟨.exec st, ps, w⟩ := by
  have hafter : scopesAfter st scopes = scopes := scopesAfter_eq hs.1.1 hs.2
  rw [← hafter] at h
  exact .mk hb (.exec ht) h

lemma stepItem_snug {v : Value} {p : Pending} {here around : List Scope}
    (hv : ValueFits [program] bodies w.store v)
    (hi : ItemFits [program] bodies w.store around here after p)
    (hlt : w.env < w.store.frames.size) (ht : Tight w.store w.env scopes)
    (h : Snug program w.store w.env scopes (here :: traces) (p :: ps)) :
    MachineSnug program (Trace.stepValue setting v p w ⟨here, traces, bodies⟩)
      (Machine.stepValue setting v p ps w) := by
  cases h with
  | leave hp => cases hi <;> cases hp
  | bind h => exact .mk hb (.yield (ht.define _ true v)) (h.define _ v)
  | @sequence _ _ b _ _ h =>
    cases b with
    | nil => exact .mk hb (.yield ht) h
    | cons s b => exact .mk hb (.exec ht) (.sequence h)
  | @assign _ _ site name _ _ _ h =>
    simp only [Machine.stepValue]
    cases htarget : w.target? setting site name.lexeme with
    | none => exact .mk hb .failing h
    | some g =>
      have hk := Store.keeps_define_of_isSome (World.isSome_of_target htarget) v
      exact .mk hb (.yield (ht.keeps fun f _ => hk f)) (h.keeps fun f _ => hk f)
  | item hplain h =>
    cases hi with
    | unary op => exact ofExcept_snug hb ht h _ _ _
    | binaryLeft op _ => exact .mk hb (.eval ht) (.item rfl h)
    | binaryRight u op => exact ofExcept_snug hb ht h _ _ _
    | logicalLeft op _ =>
      simp only [Machine.stepValue]
      split
      · exact .mk hb (.yield ht) h
      · exact .mk hb (.eval ht) h
    | callee paren _ => exact nextArgument_snug hb hv hlt ht h paren [] _
    | argument paren hf _ _ => exact nextArgument_snug hb hf hlt ht h paren _ _
    | print line? => exact print_snug hb ht h line? v _
    | @branch s t hs hother =>
      simp only [Machine.stepValue]
      split
      · exact branch_snug hb hs ht h
      · cases t with
        | none => exact .mk hb (.yield ht) h
        | some t => exact branch_snug hb (hother t rfl) ht h
    | loopTest _ hs =>
      simp only [Machine.stepValue, Trace.stepValue]
      split
      · exact branch_snug hb hs ht (.item rfl h)
      · exact .mk hb (.yield ht) h
    | loopBody _ _ => exact .mk hb (.eval ht) (.item rfl h)
    | giveBack => exact .mk hb .returning h
    | bind | sequence | assign => cases hplain

lemma pass_snug {c : Control} (hc : (∃ v, c = .returning v) ∨ ∃ e, c = .failing e) {p : Pending}
    (hp : p.frame? = none) {here : List Scope}
    (h : Snug program w.store w.env scopes (here :: traces) (p :: ps)) :
    MachineSnug program ⟨here, traces, bodies⟩ ⟨c, ps, w⟩ := by
  have hrest : ∃ after, Snug program w.store w.env after traces ps := by
    cases h with
    | leave hf => cases hp.symm.trans hf
    | bind h | sequence h | assign _ h | item _ h => exact ⟨_, h⟩
  obtain ⟨after, hrest⟩ := hrest
  rcases hc with ⟨v, rfl⟩ | ⟨e, rfl⟩
  · exact .mk hb .returning hrest
  · exact .mk hb .failing hrest

end

lemma Snug.outside {here : List Scope} {p : Pending} {outer : FrameId}
    (hp : p.frame? = some outer) (h : Snug program s env scopes (here :: traces) (p :: ps)) :
    ∃ outside, Tight s outer outside ∧ Snug program s outer outside traces ps := by
  cases h with
  | leave hf _ ht h =>
    obtain rfl := Option.some.inj (hp.symm.trans hf)
    exact ⟨_, ht, h⟩
  | @item _ _ _ p _ hplain => cases p <;> first | cases hp; done | cases hplain
  | _ => cases hp

theorem step_snug (hout : Outermost program) {t : Trace} {m : Machine}
    (hm : MachineFits [program] t m) (h : MachineSnug program t m) :
    MachineSnug program (t.step setting m) (m.step setting) := by
  obtain ⟨here, traces, bodies⟩ := t
  obtain @⟨after, c, ps, w, hb, hc, h⟩ := h
  obtain ⟨hw, hc', hp⟩ := hm
  cases hc' with
  | eval hchain he =>
    cases hc with
    | eval ht => exact stepExpr_snug hb he ht h
  | exec hchain hs =>
    cases hc with
    | exec ht => exact stepStmt_snug hb hout hs (hchain.lt hw.globals) ht h
  | yield hchain hv =>
    cases hc with
    | yield ht =>
      cases hp with
      | nil => exact .mk hb (.yield ht) h
      | item hi => exact stepItem_snug hb hv hi (hchain.lt hw.globals) ht h
      | leaveBlock =>
        obtain ⟨outside, ht, h⟩ := h.outside rfl
        exact .mk hb (.yield ht) h
      | leaveCall =>
        obtain ⟨outside, ht, h⟩ := h.outside rfl
        exact .mk hb (.yield ht) h
  | returning =>
    cases hp with
    | nil => exact .mk hb .returning h
    | item hi =>
      cases hi <;> exact pass_snug hb (.inl ⟨_, rfl⟩) rfl h
    | leaveBlock =>
      obtain ⟨outside, -, h⟩ := h.outside rfl
      exact .mk hb .returning h
    | leaveCall =>
      obtain ⟨outside, ht, h⟩ := h.outside rfl
      exact .mk hb (.yield ht) h
  | failing =>
    cases hp with
    | nil => exact .mk hb .failing h
    | item hi => cases hi <;> exact pass_snug hb (.inr ⟨_, rfl⟩) rfl h
    | leaveBlock =>
      obtain ⟨outside, -, h⟩ := h.outside rfl
      exact .mk hb .failing h
    | leaveCall =>
      obtain ⟨outside, -, h⟩ := h.outside rfl
      exact .mk hb .failing h

theorem run_snug (hn : ∀ native ∈ setting.natives, native.Uniform) (hout : Outermost program)
    (n : ℕ) {t : Trace} {m : Machine} (hm : MachineFits [program] t m)
    (h : MachineSnug program t m) :
    MachineSnug program (t.run setting n m) (m.run setting n) := by
  induction n generalizing t m with
  | zero => exact h
  | succ n ih =>
    rw [Trace.run, Machine.run]
    split
    · exact h
    · exact ih (step_fits hn hm) (step_snug hout hm h)

end Frames

end Lox
