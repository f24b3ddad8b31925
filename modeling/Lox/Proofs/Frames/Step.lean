import Lox.Proofs.Frames.Fits

/-! Each step keeps a machine where the walk stood; so do whole runs. -/

namespace Lox.Frames

open Binding Machine

variable {programs : List (List Stmt)} {bodies : List (List Scope)} {setting : Setting}
  {scopes : List Scope} {traces : List (List Scope)} {w : World} {ps : List Pending}

namespace WorldFits

variable (hw : WorldFits programs bodies w)

include hw

lemma define {f : FrameId} (hf : f < w.store.frames.size) {v : Value}
    (hv : ValueFits programs bodies w.store v) (name : String) :
    WorldFits programs bodies (w.define f name v) := by
  obtain ⟨store, _⟩ := w
  have hs : store.Extends (store.define f name v) := .define hf name v
  refine ⟨Nat.lt_of_lt_of_le hw.globals hs.size, hw.functions, fun {g key u} hu => ?_⟩
  change (store.define f name v).local? g key = some u at hu
  rw [Store.local?_define _ _ _ _ _ _ hf] at hu
  split at hu
  · obtain rfl := Option.some.inj hu
    exact hv.grow hs
  · exact (hw.values hu).grow hs

lemma push {f : FrameId} (hf : f < w.store.frames.size) {w' : World}
    (hstore : w'.store = (w.store.push (some f)).1) (hfunctions : w'.functions = w.functions) :
    WorldFits programs bodies w' := by
  have hs : w.store.Extends (w.store.push (some f)).1 := .push f hf
  refine ⟨?_, hw.functions.trans hfunctions.symm, fun {g key u} hu => ?_⟩
  · rw [hstore]
    exact Nat.lt_of_lt_of_le hw.globals hs.size
  · rw [hstore, Store.local?_push] at hu
    rw [hstore]
    exact (hw.values hu).grow hs

lemma sameStore {w' : World} (hstore : w'.store = w.store)
    (hfunctions : w'.functions = w.functions) :
    WorldFits programs bodies w' := by
  refine ⟨?_, hw.functions.trans hfunctions.symm, fun {g key u} hu => ?_⟩
  · rw [hstore]
    exact hw.globals
  · rw [hstore] at hu ⊢
    exact hw.values hu

lemma lookUp {site : SiteId} {name : String} {v : Value}
    (h : w.lookUp? setting site name = some v) : ValueFits programs bodies w.store v := by
  rw [World.lookUp?] at h
  split at h
  · obtain ⟨g, -, hl⟩ := Option.bind_eq_some_iff.1 h
    exact hw.values hl
  · rw [Store.get?_globals] at h
    exact hw.values h

end WorldFits

lemma target_lt {site : SiteId} {name : String} {f : FrameId}
    (h : w.target? setting site name = some f) : f < w.store.frames.size :=
  Store.lt_of_local (World.isSome_of_target h)

lemma bindParams_extends {f : FrameId} (params : List Token) (args : List Value) {s : Store}
    (hf : f < s.frames.size) :
    s.Extends ((params.zip args).foldl (fun s (p, v) => s.define f p.lexeme v) s) := by
  induction params generalizing args s with
  | nil => exact .refl s
  | cons p params ih =>
    cases args with
    | nil => exact .refl s
    | cons v args =>
      have hd : s.Extends (s.define f p.lexeme v) := .define hf p.lexeme v
      exact hd.trans (ih args (Nat.lt_of_lt_of_le hf hd.size))

lemma bindParams_values {f : FrameId} {params : List Token} {args : List Value} {s : Store}
    (hf : f < s.frames.size) {good : Value → Prop} (ha : ∀ v ∈ args, good v)
    (hs : ∀ {g name v}, s.local? g name = some v → good v) {g : FrameId} {name : String} {v : Value}
    (h : ((params.zip args).foldl (fun s (p, v) => s.define f p.lexeme v) s).local? g name =
      some v) : good v := by
  induction params generalizing args s with
  | nil => exact hs h
  | cons p params ih =>
    cases args with
    | nil => exact hs h
    | cons u args =>
      have hlt := Nat.lt_of_lt_of_eq hf (Store.size_define f p.lexeme u).symm
      refine ih hlt (fun v hv => ha v (List.mem_cons_of_mem _ hv)) (fun {g' name' v'} h' => ?_) h
      rw [Store.local?_define _ _ _ _ _ _ hf] at h'
      split at h'
      · obtain rfl := Option.some.inj h'
        exact ha u List.mem_cons_self
      · exact hs h'

lemma bindParams_chain {f : FrameId} {params : List Token} {args : List Value} {s : Store}
    (hf : f < s.frames.size) (ha : args.length = params.length) (hc : Chain s f scopes) :
    Chain ((params.zip args).foldl (fun s (p, v) => s.define f p.lexeme v) s) f
      (params.foldl (fun scopes p => declared p scopes) scopes) := by
  induction params generalizing args s scopes with
  | nil => exact hc
  | cons p params ih =>
    cases args with
    | nil => cases ha
    | cons v args =>
      have hlt := Nat.lt_of_lt_of_eq hf (Store.size_define f p.lexeme v).symm
      refine ih hlt (Nat.succ.inj ha) ((hc.extend (.define hf p.lexeme v)).declared ?_)
      rw [Store.local?_define _ _ _ _ _ _ hf, if_pos ⟨rfl, rfl⟩]
      rfl

lemma enterCall_fits (hw : WorldFits programs bodies w) {closure : FrameId}
    (hc : Chain w.store closure scopes) {params : List Token} {args : List Value}
    (ha : ∀ v ∈ args, ValueFits programs bodies w.store v) (hl : args.length = params.length)
    (line : ℕ) :
    w.store.Extends (w.enterCall closure params args line).store ∧
      WorldFits programs bodies (w.enterCall closure params args line) ∧
      Chain (w.enterCall closure params args line).store
        (w.enterCall closure params args line).env (paramScopes params scopes) := by
  obtain ⟨store, _⟩ := w
  have hlt : closure < store.frames.size := hc.lt hw.globals
  have hpush : store.Extends (store.push (some closure)).1 := .push closure hlt
  have hf : store.frames.size < (store.push (some closure)).1.frames.size := by
    rw [Store.size_push]
    exact Nat.lt_succ_self _
  have hbind := bindParams_extends params args hf
  have hs := hpush.trans hbind
  refine ⟨hs, ⟨Nat.lt_of_lt_of_le hw.globals hs.size, hw.functions, fun {g name v} hv => ?_⟩,
    bindParams_chain hf hl (hc.push hw.globals)⟩
  have hgood : ValueFits programs bodies store v := bindParams_values hf ha
    (fun {g name v} h => hw.values (by rwa [Store.local?_push] at h)) hv
  exact hgood.grow hs

lemma arity_of_not_refused {arity : ℕ} {args : List Value}
    (h : w.refusal? setting arity args = none) : args.length = arity := by
  rw [World.refusal?] at h
  split at h
  · cases h
  · next hl => exact of_not_not hl

lemma ofExcept_fits {env : FrameId} {s : Store} {after : List Scope} (hc : Chain s env after)
    {x : Except RuntimeFault Value} (hx : ∀ v, x = .ok v → ValueFits programs bodies s v)
    (line : ℕ) : ControlFits programs bodies s env scopes after (.ofExcept line x) := by
  cases x with
  | ok v => exact .yield hc (hx v rfl)
  | error fault => exact .failing hc.ancestor

section

variable (hn : ∀ native ∈ setting.natives, native.Uniform) (hw : WorldFits programs bodies w)
  (hc : Chain w.store w.env scopes) (hp : PendingFits programs bodies w.store scopes traces ps)

include hn hw hc hp

lemma apply_fits {v : Value} (hv : ValueFits programs bodies w.store v) (paren : Token)
    {args : List Value} (ha : ∀ u ∈ args, ValueFits programs bodies w.store u) :
    MachineFits programs (Trace.apply setting v args w ⟨scopes, traces, bodies⟩)
      (Machine.apply setting v paren args ps w) := by
  cases hv with
  | @function i f closure outside hi hclosure hb =>
    simp only [Machine.apply, Trace.apply]
    cases hr : w.refusal? setting f.params.length args with
    | some fault => exact .mk hw (.failing hc.ancestor) hp
    | none =>
      obtain ⟨hs, hw', hc'⟩ := enterCall_fits hw hclosure ha (arity_of_not_refused hr) paren.line
      have hbody : bodies.getD i [] = paramScopes f.params outside := by
        rw [List.getD_eq_getElem?_getD, hi, Option.getD_some]
      simp only [hbody]
      refine .mk hw' (.yield hc' (.data trivial)) (.item (.sequence hb) ?_)
      exact .leaveCall (hc.extend hs) (hp.grow hs)
  | data hd =>
    cases v with
    | function => exact hd.elim
    | native i =>
      simp only [Machine.apply, Trace.apply]
      cases hnative : setting.natives[i]? with
      | none => exact .mk hw (.failing hc.ancestor) hp
      | some native =>
        simp only
        cases hr : w.refusal? setting native.arity args with
        | some fault => exact .mk hw (.failing hc.ancestor) hp
        | none =>
          have hu := hn native (Array.mem_of_getElem? hnative)
          refine .mk (w := w.tick) (hw.sameStore rfl rfl) (ofExcept_fits hc (fun u h => ?_) _) hp
          cases hcall : native.call w.clock.now args with
          | error message =>
            rw [hcall] at h
            cases h
          | ok r =>
            rw [hcall] at h
            cases h
            exact hu.result (fun v hv => .data hv) ha hcall
    | _ => exact .mk hw (.failing hc.ancestor) hp

lemma nextArgument_fits {v : Value} (hv : ValueFits programs bodies w.store v) (paren : Token)
    {args : List Value} (ha : ∀ u ∈ args, ValueFits programs bodies w.store u) {es : List Expr}
    (he : ExprsIn programs scopes es) :
    MachineFits programs (Trace.nextArgument setting v args es w ⟨scopes, traces, bodies⟩)
      (Machine.nextArgument setting v paren args es ps w) := by
  cases es with
  | nil => exact apply_fits hn hw hc hp hv paren fun u hu => ha u (List.mem_reverse.1 hu)
  | cons e es =>
    obtain ⟨he, hes⟩ := he.cons
    exact .mk hw (.eval hc he) (.item (.argument paren hv ha hes) hp)

omit hn in
lemma stepExpr_fits {e : Expr} (he : ExprIn programs scopes e) :
    MachineFits programs (Trace.stepExpr e ⟨scopes, traces, bodies⟩)
      (Machine.stepExpr setting e ps w) := by
  cases e with
  | literal v =>
    refine .mk hw (.yield hc (.data ?_)) hp
    cases v <;> trivial
  | grouping e => exact .mk hw (.eval hc he.grouping) hp
  | unary op e => exact .mk hw (.eval hc he.unary) (.item (.unary op) hp)
  | binary a op b => exact .mk hw (.eval hc he.binary.1) (.item (.binaryLeft op he.binary.2) hp)
  | logical a op b =>
    exact .mk hw (.eval hc he.logical.1) (.item (.logicalLeft op he.logical.2) hp)
  | ref site name =>
    simp only [Machine.stepExpr]
    cases hv : w.lookUp? setting site name.lexeme with
    | some v => exact .mk hw (.yield hc (hw.lookUp hv)) hp
    | none => exact .mk hw (.failing hc.ancestor) hp
  | assign site name e => exact .mk hw (.eval hc he.assign) (.item (.assign site name) hp)
  | call f paren args => exact .mk hw (.eval hc he.call.1) (.item (.callee paren he.call.2) hp)

end

lemma declare_fits (hw : WorldFits programs bodies w) (hc : Chain w.store w.env scopes)
    {f : Function} (hb : StmtsIn programs (paramScopes f.params (declared f.name scopes)) f.body) :
    w.store.Extends (w.declare f).store ∧
      WorldFits programs (bodies ++ [paramScopes f.params (declared f.name scopes)])
        (w.declare f) ∧
      Chain (w.declare f).store (w.declare f).env (declared f.name scopes) := by
  obtain ⟨store, env, _, _, functions, _, _⟩ := w
  have hlt : env < store.frames.size := hc.lt hw.globals
  have hs : store.Extends (store.define env f.name.lexeme (.function functions f env)) :=
    .define hlt _ _
  have hc' := (hc.extend hs).declared (x := f.name)
    (by rw [Store.local?_define _ _ _ _ _ _ hlt, if_pos ⟨rfl, rfl⟩]; rfl)
  have hlen : bodies.length = functions := hw.functions
  refine ⟨hs, ⟨Nat.lt_of_lt_of_le hw.globals hs.size, ?_, fun {g key u} hu => ?_⟩, hc'⟩
  · rw [List.length_append, hlen]
    rfl
  · change (store.define env f.name.lexeme (.function functions f env)).local? g key = some u at hu
    rw [Store.local?_define _ _ _ _ _ _ hlt] at hu
    split at hu
    · obtain rfl := Option.some.inj hu
      refine .function ?_ hc' hb
      rw [← hlen, List.getElem?_concat_length]
    · exact (hw.values hu).extend _ hs

lemma stepStmt_fits (hw : WorldFits programs bodies w) (hc : Chain w.store w.env scopes) {s : Stmt}
    (hs : StmtIn programs scopes s)
    (hp : PendingFits programs bodies w.store (scopesAfter s scopes) traces ps) :
    MachineFits programs (Trace.stepStmt s ⟨scopes, traces, bodies⟩)
      (Machine.stepStmt s ps w) := by
  cases s with
  | expression e => exact .mk hw (.eval hc hs.expression) hp
  | print e => exact .mk hw (.eval hc hs.print) (.item (.print _) hp)
  | var x e =>
    cases e with
    | none =>
      have hlt := hc.lt hw.globals
      have hext : w.store.Extends (w.store.define w.env x.lexeme .nil) := .define hlt _ _
      have hc' := (hc.extend hext).declared (x := x)
        (by rw [Store.local?_define _ _ _ _ _ _ hlt, if_pos ⟨rfl, rfl⟩]; rfl)
      have hnil : ValueFits programs bodies w.store .nil := .data trivial
      exact .mk (hw.define hlt hnil x.lexeme) (.yield hc' (.data trivial)) (hp.grow hext)
    | some e => exact .mk hw (.eval (hc.enter_incomplete x) hs.var) (.item (.bind x) hp)
  | block b =>
    have hlt := hc.lt hw.globals
    have hext : w.store.Extends (w.store.push (some w.env)).1 := .push _ hlt
    refine .mk (hw.push hlt rfl rfl) (.yield (hc.push hw.globals) (.data trivial))
      (.item (.sequence hs.block) ?_)
    exact .leaveBlock (hc.extend hext) (hp.grow hext)
  | ifThen c s =>
    obtain ⟨hcond, hb⟩ := hs.ifThen
    rw [scopesAfter, hb.after] at hp
    exact .mk hw (.eval hc hcond) (.item (.branch hb (by simp)) hp)
  | ifElse c s t =>
    obtain ⟨hcond, hb, hb'⟩ := hs.ifElse
    rw [scopesAfter, hb.after, hb'.after] at hp
    exact .mk hw (.eval hc hcond) (.item (.branch hb fun u hu => Option.some.inj hu ▸ hb') hp)
  | loop c s =>
    obtain ⟨hcond, hb⟩ := hs.loop
    rw [scopesAfter, hb.after] at hp
    exact .mk hw (.eval hc hcond) (.item (.loopTest hcond hb) hp)
  | function x params b =>
    obtain ⟨hext, hw', hc'⟩ := declare_fits hw hc (f := ⟨x, params, b⟩) hs.function
    exact .mk hw' (.yield hc' (.data trivial)) (hp.extend _ hext)
  | ret keyword e =>
    cases e with
    | none => exact .mk hw (.returning hc.ancestor (.data trivial)) hp
    | some e => exact .mk hw (.eval hc hs.ret) (.item .giveBack hp)

lemma print_fits (hw : WorldFits programs bodies w) (hc : Chain w.store w.env scopes)
    (hp : PendingFits programs bodies w.store scopes traces ps) (line? : Option ℕ) (v : Value)
    (here : List Scope) :
    MachineFits programs ⟨here, traces, bodies⟩ (Machine.print line? v ps w) := by
  have hw' : WorldFits programs bodies (w.print v).2 := hw.sameStore rfl rfl
  unfold Machine.print
  split
  · next h =>
    rw [h] at hw'
    have hstore : w.store = _ := congrArg (·.2.store) h
    have henv : w.env = _ := congrArg (·.2.env) h
    rw [hstore] at hc hp
    rw [henv] at hc
    exact .mk hw' (.yield hc (.data trivial)) hp
  · next h =>
    rw [h] at hw'
    have hstore : w.store = _ := congrArg (·.2.store) h
    have henv : w.env = _ := congrArg (·.2.env) h
    rw [hstore] at hc hp
    rw [henv] at hc
    exact .mk hw' (.failing hc.ancestor) hp

section

variable (hn : ∀ native ∈ setting.natives, native.Uniform) (hw : WorldFits programs bodies w)
  (hc : Chain w.store w.env scopes) {here after : List Scope}
  (hp : PendingFits programs bodies w.store after traces ps)

include hn hw hc hp

lemma stepItem_fits {v : Value} (hv : ValueFits programs bodies w.store v) {p : Pending}
    (hi : ItemFits programs bodies w.store scopes here after p) :
    MachineFits programs (Trace.stepValue setting v p w ⟨here, traces, bodies⟩)
      (Machine.stepValue setting v p ps w) := by
  cases hi with
  | unary op =>
    exact .mk hw (ofExcept_fits hc (fun u h => .data (Value.isData_unary h)) _) hp
  | binaryLeft op he => exact .mk hw (.eval hc he) (.item (.binaryRight v op) hp)
  | binaryRight left op =>
    exact .mk hw (ofExcept_fits hc (fun u h => .data (Value.isData_binary h)) _) hp
  | logicalLeft op he =>
    simp only [Machine.stepValue]
    split
    · exact .mk hw (.yield hc hv) hp
    · exact .mk hw (.eval hc he) hp
  | assign site name =>
    simp only [Machine.stepValue]
    cases htarget : w.target? setting site name.lexeme with
    | none => exact .mk hw (.failing hc.ancestor) hp
    | some g =>
      have hlt := target_lt htarget
      have hext : w.store.Extends (w.store.define g name.lexeme v) := .define hlt _ _
      exact .mk (hw.define hlt hv name.lexeme) (.yield (hc.extend hext) (hv.grow hext))
        (hp.grow hext)
  | callee paren he => exact nextArgument_fits hn hw hc hp hv paren (by simp) he
  | argument paren hf hvs he =>
    refine nextArgument_fits hn hw hc hp hf paren (fun u hu => ?_) he
    rcases List.mem_cons.1 hu with rfl | hu
    · exact hv
    · exact hvs u hu
  | print line? => exact print_fits hw hc hp line? v here
  | bind x =>
    have hlt := hc.lt hw.globals
    have hext : w.store.Extends (w.store.define w.env x.lexeme v) := .define hlt _ _
    have hc' := (hc.extend hext).enter_complete (x := x)
      (by rw [Store.local?_define _ _ _ _ _ _ hlt, if_pos ⟨rfl, rfl⟩]; rfl)
    exact .mk (hw.define hlt hv x.lexeme) (.yield hc' (.data trivial)) (hp.grow hext)
  | @branch s t hs ht =>
    simp only [Machine.stepValue]
    split
    · exact .mk hw (hs.exec hc) hp
    · cases t with
      | none => exact .mk hw (.yield hc (.data trivial)) hp
      | some t =>
        have hb := ht t rfl
        exact .mk hw (hb.exec hc) hp
  | loopTest hcond hs =>
    simp only [Machine.stepValue, Trace.stepValue]
    split
    · exact .mk hw (hs.exec hc) (.item (.loopBody hcond hs) hp)
    · exact .mk hw (.yield hc (.data trivial)) hp
  | loopBody hcond hs => exact .mk hw (.eval hc hcond) (.item (.loopTest hcond hs) hp)
  | giveBack => exact .mk hw (.returning hc.ancestor hv) hp
  | @sequence b hb =>
    cases b with
    | nil => exact .mk hw (.yield hc (.data trivial)) hp
    | cons s b =>
      obtain ⟨hs, hb⟩ := hb.cons
      exact .mk hw (.exec hc hs) (.item (.sequence hb) hp)

end

lemma length_after (b : List Stmt) (scopes : List Scope) :
    (scopesAfterAll b scopes).length = scopes.length := by
  cases scopes with
  | nil => rw [scopesAfterAll_nil]
  | cons scope outer =>
    obtain ⟨scope', h⟩ := scopesAfterAll_cons b scope outer
    rw [h, List.length_cons, List.length_cons]

lemma ItemFits.length {s : Store} {here after : List Scope} {p : Pending}
    (h : ItemFits programs bodies s scopes here after p) : after.length = scopes.length := by
  cases h with
  | bind x => exact length_enter x true scopes
  | sequence _ => exact length_after _ scopes
  | _ => rfl

lemma step_fits (hn : ∀ native ∈ setting.natives, native.Uniform) {t : Trace} {m : Machine}
    (h : MachineFits programs t m) : MachineFits programs (t.step setting m) (m.step setting) := by
  obtain ⟨scopes, traces, bodies⟩ := t
  obtain ⟨hw, hc, hp⟩ := h
  cases hc with
  | eval hc he => exact stepExpr_fits hw hc hp he
  | exec hc hs => exact stepStmt_fits hw hc hs hp
  | yield hc hv =>
    cases hp with
    | nil => exact .mk hw (.yield hc hv) .nil
    | item hi hp => exact stepItem_fits hn hw hc hp hv hi
    | leaveBlock ho hp => exact .mk (hw.sameStore rfl rfl) (.yield ho (.data trivial)) hp
    | leaveCall ho hp => exact .mk (hw.sameStore rfl rfl) (.yield ho (.data trivial)) hp
  | returning hr hv =>
    cases hp with
    | nil => exact .mk hw (.returning hr hv) .nil
    | item hi hp =>
      rw [← hi.length] at hr
      cases hi <;> exact .mk hw (.returning hr hv) hp
    | leaveBlock ho hp => exact .mk (hw.sameStore rfl rfl) (.returning ho.ancestor hv) hp
    | leaveCall ho hp => exact .mk (hw.sameStore rfl rfl) (.yield ho hv) hp
  | failing hr =>
    cases hp with
    | nil => exact .mk hw (.failing hr) .nil
    | item hi hp =>
      rw [← hi.length] at hr
      cases hi <;> exact .mk hw (.failing hr) hp
    | leaveBlock ho hp => exact .mk (hw.sameStore rfl rfl) (.failing ho.ancestor) hp
    | leaveCall ho hp => exact .mk (hw.sameStore rfl rfl) (.failing ho.ancestor) hp

theorem run_fits (hn : ∀ native ∈ setting.natives, native.Uniform) (n : ℕ) {t : Trace}
    {m : Machine} (h : MachineFits programs t m) :
    MachineFits programs (t.run setting n m) (m.run setting n) := by
  induction n generalizing t m with
  | zero => exact h
  | succ n ih =>
    rw [Trace.run, Machine.run]
    split
    · exact h
    · exact ih (step_fits hn h)

lemma MachineFits.env_of_isOver {t : Trace} {m : Machine} (h : MachineFits programs t m)
    (ho : m.isOver = true) : m.world.env = Store.globals := by
  obtain ⟨scopes, traces, bodies⟩ := t
  obtain ⟨-, hc, hp⟩ := h
  cases hc with
  | eval | exec => cases ho
  | yield hc _ =>
    cases hp with
    | nil => exact Option.some.inj hc.ancestor
    | _ => cases ho
  | returning hr _ | failing hr =>
    cases hp with
    | nil => exact Option.some.inj hr
    | _ => cases ho

lemma MachineFits.world {t : Trace} {m : Machine} (h : MachineFits programs t m) :
    WorldFits programs t.bodies m.world := by
  obtain ⟨hw, _, _⟩ := h
  exact hw

end Lox.Frames
