import Lox.Proofs.Likeness.Machine

/-! Each step of two machines alike leaves them alike; so do whole runs. -/

namespace Lox.Likeness

open Machine

variable {Role : Type} {κ : Likeness Role} {ctxs : List (Context Role)} {fn : Bool}
  {ctx ctx' : Context Role} {t t' : Setting} {w w' : World} {ps ps' : List Pending}

namespace WorldLike

variable (hw : κ.WorldLike ctxs ctx w w')

include hw

lemma define {f : FrameId} {x x' : Token} {v v' : Value} (hf : ctxs[f]? = some ctx')
    (hx : κ.NameLike (ctx' 0) x x') (hv : κ.ValueLike ctxs v v') :
    κ.WorldLike ctxs ctx (w.define f x.lexeme v) (w'.define f x'.lexeme v') := by
  obtain ⟨hs, he, hc, hd, hl, hn, ho, hk⟩ := hw
  refine ⟨?_, he, hc, hd, hl, hn, ho, hk⟩
  rw [hx.lexeme]
  exact hs.define hf hx.known hv

lemma bind {x x' : Token} {v v' : Value} (hx : κ.NameLike (ctx 0) x x')
    (hv : κ.ValueLike ctxs v v') :
    κ.WorldLike ctxs ctx (w.bind x.lexeme v) (w'.bind x'.lexeme v') := by
  unfold World.bind
  rw [hw.env]
  exact hw.define hw.context hx hv

lemma declare {f f' : Function} (hn : κ.NameLike (ctx 0) f.name f'.name)
    (hf : κ.FunctionLike ctx f f') : κ.WorldLike ctxs ctx (w.declare f) (w'.declare f') := by
  obtain ⟨hs, he, hc, hd, hl, hi, ho, hk⟩ := hw
  refine ⟨?_, he, hc, hd, hl, congrArg (· + 1) hi, ho, hk⟩
  change κ.StoreLike ctxs (w.store.define w.env f.name.lexeme (.function w.functions f w.env))
    (w'.store.define w'.env f'.name.lexeme (.function w'.functions f' w'.env))
  rw [hn.lexeme, he, hi]
  exact hs.define hc hn.known (.function _ hc hf)

lemma enterBlock (r : Role) :
    κ.WorldLike (ctxs ++ [inner r ctx]) (inner r ctx) w.enterBlock w'.enterBlock := by
  obtain ⟨hs, he, hc, hd, hl, hi, ho, hk⟩ := hw
  refine ⟨?_, ?_, ?_, hd, hl, hi, ho, hk⟩
  · change κ.StoreLike _ (w.store.push (some w.env)).1 (w'.store.push (some w'.env)).1
    rw [he]
    exact hs.push hc r
  · exact hs.size'.trans hs.size.symm
  · change (ctxs ++ [inner r ctx])[w.store.frames.size]? = _
    rw [hs.size, List.getElem?_concat_length]

lemma leaveBlock {outer : FrameId} (ho : ctxs[outer]? = some ctx') :
    κ.WorldLike ctxs ctx' (w.leaveBlock outer) (w'.leaveBlock outer) :=
  ⟨hw.store, rfl, ho, hw.depth, hw.line, hw.functions, hw.out, hw.clock⟩

lemma leaveCall {caller : FrameId} {line line' : ℕ} (hc : ctxs[caller]? = some ctx')
    (hl : κ.line line line') :
    κ.WorldLike ctxs ctx' (w.leaveCall caller line) (w'.leaveCall caller line') :=
  ⟨hw.store, rfl, hc, congrArg (· - 1) hw.depth, hl, hw.functions, hw.out, hw.clock⟩

lemma tick : κ.WorldLike ctxs ctx w.tick w'.tick :=
  ⟨hw.store, hw.env, hw.context, hw.depth, hw.line, hw.functions, hw.out,
    congrArg Clock.tick hw.clock⟩

lemma refusal (ht : κ.SettingLike t t') (arity : ℕ) {args args' : List Value}
    (ha : List.Forall₂ (κ.ValueLike ctxs) args args') :
    w'.refusal? t' arity args' = w.refusal? t arity args := by
  simp only [World.refusal?, ha.length_eq, ht.depth, hw.depth]

lemma print {v v' : Value} (hv : κ.ValueLike ctxs v v') :
    (w'.print v').1 = (w.print v).1 ∧ κ.WorldLike ctxs ctx (w.print v).2 (w'.print v').2 := by
  obtain ⟨hs, he, hc, hd, hl, hi, ho, hk⟩ := hw
  have hout : w'.out.writeLine v'.pieces = w.out.writeLine v.pieces := by rw [ho, hv.pieces]
  have haccepted := congrArg Prod.fst hout
  have hsink := congrArg Prod.snd hout
  exact ⟨haccepted, hs, he, hc, hd, hl, hi, hsink, hk⟩

end WorldLike

lemma bindParams {r : Role} {s s' : Store} {f : FrameId} (hf : ctxs[f]? = some ctx)
    (hr : ctx 0 = r) {ps ps' : List Token} (hp : List.Forall₂ (κ.NameLike r) ps ps')
    {vs vs' : List Value} (hv : List.Forall₂ (κ.ValueLike ctxs) vs vs')
    (hs : κ.StoreLike ctxs s s') :
    κ.StoreLike ctxs ((ps.zip vs).foldl (fun s (p, v) => s.define f p.lexeme v) s)
      ((ps'.zip vs').foldl (fun s (p, v) => s.define f p.lexeme v) s') := by
  induction hp generalizing vs vs' s s' with
  | nil => exact hs
  | cons hx _ ih =>
    cases hv with
    | nil => exact hs
    | cons hv hvs =>
      simp only [List.zip_cons_cons, List.foldl_cons]
      refine ih hvs ?_
      rw [hx.lexeme, ← hr]
      exact hs.define hf hx.known hv

lemma WorldLike.enterCall (hw : κ.WorldLike ctxs ctx w w') {closure : FrameId}
    (hc : ctxs[closure]? = some ctx') {r : Role} {params params' : List Token}
    (hp : List.Forall₂ (κ.NameLike r) params params') {args args' : List Value}
    (ha : List.Forall₂ (κ.ValueLike ctxs) args args') {line line' : ℕ} (hl : κ.line line line') :
    κ.WorldLike (ctxs ++ [inner r ctx']) (inner r ctx') (w.enterCall closure params args line)
      (w'.enterCall closure params' args' line') := by
  obtain ⟨hs, he, _, hd, _, hi, ho, hk⟩ := hw
  have hsize : w'.store.frames.size = w.store.frames.size := hs.size'.trans hs.size.symm
  have hf : (ctxs ++ [inner r ctx'])[w.store.frames.size]? = some (inner r ctx') := by
    rw [hs.size, List.getElem?_concat_length]
  refine ⟨?_, hsize, hf, congrArg (· + 1) hd, hl, hi, ho, hk⟩
  have ha' : List.Forall₂ (κ.ValueLike (ctxs ++ [inner r ctx'])) args args' := valuesLike_extend ha
  have hb := bindParams hf rfl hp ha' (hs.push hc r)
  simpa only [World.enterCall, Store.push, hsize] using hb

lemma ErrorLike.ofFault (fault : RuntimeFault) {l l' : ℕ} (h : κ.line l l') :
    κ.ErrorLike ⟨fault, l⟩ ⟨fault, l'⟩ := ⟨.same fault, h⟩

lemma ErrorLike.undefined {r : Role} {x y : Token} (h : κ.NameLike r x y) :
    κ.ErrorLike (.undefined x) (.undefined y) := by
  refine ⟨?_, h.line⟩
  simp only [RuntimeError.undefined, h.lexeme]
  exact .undefined r x.lexeme

lemma ControlLike.ofResult {l l' : ℕ} (hl : κ.line l l') {x x' : Except RuntimeFault Value}
    (h : κ.ResultLike ctxs x x') :
    κ.ControlLike ctxs fn ctx (.ofExcept l x) (.ofExcept l' x') := by
  cases h with
  | ok hv => exact .yield hv
  | error fault => exact .failing (.ofFault fault hl)

lemma ValueLike.alike {v v' : Value} (h : κ.ValueLike ctxs v v') : v.Alike v' := by
  cases h with
  | function i _ hf =>
    obtain ⟨_, hn, hp, _⟩ := hf
    exact ⟨rfl, hn.symm, hp.length_eq⟩
  | _ => rfl

lemma ValueLike.ofData {v : Value} (h : v.IsData) : κ.ValueLike ctxs v v := by
  cases v <;> first | exact h.elim | constructor

lemma ResultLike.ofNative {x x' : Except String Value}
    (h : Native.ResultRel (κ.ValueLike ctxs) x x') :
    κ.ResultLike ctxs (x.mapError .native) (x'.mapError .native) := by
  cases h with
  | ok hv => exact .ok hv
  | error message => exact .error _

section

variable (ht : κ.SettingLike t t') (hw : κ.WorldLike ctxs ctx w w')
  (hp : κ.PendingLike ctxs fn ctx ps ps')

include ht hw hp

lemma apply_like {v v' : Value} (hv : κ.ValueLike ctxs v v') {p p' : Token}
    (hl : κ.line p.line p'.line) {args args' : List Value}
    (ha : List.Forall₂ (κ.ValueLike ctxs) args args') :
    κ.MachineLike (apply t v p args ps w) (apply t' v' p' args' ps' w') := by
  cases hv with
  | @function i f f' closure ctx' hc hf =>
    obtain ⟨r, _, hpar, hb⟩ := hf
    simp only [apply, hw.refusal ht _ ha, ← hpar.length_eq]
    split
    · exact .mk hw (.failing (.ofFault _ hl)) hp
    · refine .mk (hw.enterCall hc hpar ha hl) (.yield .nil) (.item (.sequence hb) ?_)
      rw [hw.env]
      exact .leaveCall (getElem?_extend hw.context) hw.line hp.extend
  | native i =>
    simp only [apply, ht.natives]
    cases hn : t.natives[i]? with
    | none => exact .mk hw (.failing (.ofFault _ hl)) hp
    | some native =>
      simp only [hw.refusal ht _ ha]
      split
      · exact .mk hw (.failing (.ofFault _ hl)) hp
      · have hu := ht.uniform native (Array.mem_of_getElem? hn) (κ.ValueLike ctxs)
          (fun _ _ h => h.alike) (fun _ h => .ofData h) w.clock.now args args' ha
        rw [hw.clock]
        exact .mk hw.tick (.ofResult hl (.ofNative hu)) hp
  | _ => exact .mk hw (.failing (.ofFault _ hl)) hp

lemma nextArgument_like {v v' : Value} (hv : κ.ValueLike ctxs v v') {p p' : Token}
    (hl : κ.line p.line p'.line) {vs vs' : List Value}
    (hvs : List.Forall₂ (κ.ValueLike ctxs) vs vs') {es es' : List Expr}
    (hes : List.Forall₂ (κ.ExprLike ctx) es es') :
    κ.MachineLike (nextArgument t v p vs es ps w) (nextArgument t' v' p' vs' es' ps' w') := by
  cases hes with
  | nil => exact apply_like ht hw hp hv hl (List.rel_reverse hvs)
  | cons he hes => exact .mk hw (.eval he) (.item (.argument hv hl hvs hes) hp)

lemma stepExpr_like {e e' : Expr} (he : κ.ExprLike ctx e e') :
    κ.MachineLike (stepExpr t e ps w) (stepExpr t' e' ps' w') := by
  cases he with
  | literal v => exact .mk hw (.yield (.ofLiteral v)) hp
  | grouping he => exact .mk hw (.eval he) hp
  | unary ho he => exact .mk hw (.eval he) (.item (.unary ho) hp)
  | binary ha ho hb => exact .mk hw (.eval ha) (.item (.binaryLeft ho hb) hp)
  | logical ha ho hb => exact .mk hw (.eval ha) (.item (.logicalLeft ho hb) hp)
  | @ref a x b y hs =>
    have hv := hs.lookUp ht hw
    simp only [stepExpr]
    cases hx : w.lookUp? t a x.lexeme <;> cases hy : w'.lookUp? t' b y.lexeme <;>
      rw [hx, hy] at hv
    · obtain ⟨_, _, hn⟩ := hs
      exact .mk hw (.failing (.undefined hn)) hp
    · cases hv
    · cases hv
    · cases hv with
      | some hv => exact .mk hw (.yield hv) hp
  | assign hs he => exact .mk hw (.eval he) (.item (.assign hs) hp)
  | call hf hl ha => exact .mk hw (.eval hf) (.item (.callee hl ha) hp)

omit ht in
lemma stepStmt_like {s s' : Stmt} (hs : κ.StmtLike fn ctx s s') :
    κ.MachineLike (stepStmt s ps w) (stepStmt s' ps' w') := by
  cases hs with
  | expression he => exact .mk hw (.eval he) hp
  | print he => exact .mk hw (.eval he) (.item (.print he.line) hp)
  | var hx he =>
    cases he with
    | none => exact .mk (hw.bind hx .nil) (.yield .nil) hp
    | some he => exact .mk hw (.eval he) (.item (.bind hx) hp)
  | block r hb =>
    refine .mk (hw.enterBlock r) (.yield .nil) (.item (.sequence hb) ?_)
    rw [hw.env]
    exact .leaveBlock (getElem?_extend hw.context) hp.extend
  | ifThen hc hs => exact .mk hw (.eval hc) (.item (.branch hs .none) hp)
  | ifElse hc hs hs' => exact .mk hw (.eval hc) (.item (.branch hs (.some hs')) hp)
  | loop hc hs => exact .mk hw (.eval hc) (.item (.loopTest hc hs) hp)
  | function r hf hn hps hb => exact .mk (hw.declare hf ⟨r, hn, hps, hb⟩) (.yield .nil) hp
  | ret he =>
    cases he with
    | none => exact .mk hw (.returning rfl .nil) hp
    | some he => exact .mk hw (.eval he) (.item (.giveBack rfl) hp)

omit ht in
lemma print_like {l l' : Option ℕ} (hl : Option.Rel κ.line l l') {v v' : Value}
    (hv : κ.ValueLike ctxs v v') :
    κ.MachineLike (Machine.print l v ps w) (Machine.print l' v' ps' w') := by
  obtain ⟨hb, hw'⟩ := hw.print hv
  unfold Machine.print
  rcases hx : w.print v with ⟨b, u⟩
  rcases hy : w'.print v' with ⟨b', u'⟩
  rw [hx, hy] at hb hw'
  obtain rfl : b' = b := hb
  cases b'
  · refine .mk hw' (.failing ?_) hp
    rw [hw'.out]
    refine .ofFault _ ?_
    cases hl with
    | none => exact hw'.line
    | some hl => exact hl
  · exact .mk hw' (.yield .nil) hp

lemma stepItem_like {v v' : Value} (hv : κ.ValueLike ctxs v v') {p p' : Pending}
    (hi : κ.ItemLike ctxs fn ctx p p') :
    κ.MachineLike (stepValue t v p ps w) (stepValue t' v' p' ps' w') := by
  cases hi with
  | unary ho =>
    simp only [stepValue, ho.type]
    exact .mk hw (.ofResult ho.line (hv.unary _)) hp
  | binaryLeft ho he => exact .mk hw (.eval he) (.item (.binaryRight hv ho) hp)
  | binaryRight hx ho =>
    simp only [stepValue, ho.type]
    exact .mk hw (.ofResult ho.line (hx.binary hv _)) hp
  | logicalLeft ho he =>
    simp only [stepValue, ho.type, hv.decides]
    split
    · exact .mk hw (.yield hv) hp
    · exact .mk hw (.eval he) hp
  | @assign a x b y hs =>
    obtain ⟨he, hg⟩ := hs.target ht hw
    simp only [stepValue, he]
    cases h : w.target? t a x.lexeme with
    | none =>
      obtain ⟨_, _, hn⟩ := hs
      exact .mk hw (.failing (.undefined hn)) hp
    | some g =>
      obtain ⟨_, hc, hn⟩ := hg g h
      exact .mk (hw.define hc hn hv) (.yield hv) hp
  | callee hl he => exact nextArgument_like ht hw hp hv hl .nil he
  | argument hf hl hvs he => exact nextArgument_like ht hw hp hf hl (.cons hv hvs) he
  | print hl => exact print_like hw hp hl hv
  | bind hx => exact .mk (hw.bind hx hv) (.yield .nil) hp
  | branch hs ho =>
    simp only [stepValue, hv.isTruthy]
    split
    · exact .mk hw (.exec hs) hp
    · cases ho with
      | none => exact .mk hw (.yield .nil) hp
      | some ho => exact .mk hw (.exec ho) hp
  | loopTest hc hs =>
    simp only [stepValue, hv.isTruthy]
    split
    · exact .mk hw (.exec hs) (.item (.loopBody hc hs) hp)
    · exact .mk hw (.yield .nil) hp
  | loopBody hc hs => exact .mk hw (.eval hc) (.item (.loopTest hc hs) hp)
  | giveBack hf => exact .mk hw (.returning hf hv) hp
  | sequence hb =>
    cases hb with
    | nil => exact .mk hw (.yield .nil) hp
    | cons hs hb => exact .mk hw (.exec hs) (.item (.sequence hb) hp)

end

lemma step_like (ht : κ.SettingLike t t') {m m' : Machine} (hm : κ.MachineLike m m') :
    κ.MachineLike (m.step t) (m'.step t') := by
  obtain ⟨hw, hc, hp⟩ := hm
  cases hc with
  | eval he => exact stepExpr_like ht hw hp he
  | exec hs => exact stepStmt_like hw hp hs
  | yield hv =>
    cases hp with
    | nil => exact .mk hw (.yield hv) .nil
    | item hi hp => exact stepItem_like ht hw hp hv hi
    | leaveBlock ho hp => exact .mk (hw.leaveBlock ho) (.yield .nil) hp
    | leaveCall hc hl hp => exact .mk (hw.leaveCall hc hl) (.yield .nil) hp
  | returning hf hv =>
    cases hp with
    | nil => cases hf
    | item hi hp => cases hi <;> exact .mk hw (.returning hf hv) hp
    | leaveBlock ho hp => exact .mk (hw.leaveBlock ho) (.returning hf hv) hp
    | leaveCall hc hl hp => exact .mk (hw.leaveCall hc hl) (.yield hv) hp
  | failing he =>
    cases hp with
    | nil => exact .mk hw (.failing he) .nil
    | item hi hp => cases hi <;> exact .mk hw (.failing he) hp
    | leaveBlock ho hp => exact .mk (hw.leaveBlock ho) (.failing he) hp
    | leaveCall hc hl hp => exact .mk (hw.leaveCall hc hl) (.failing he) hp

lemma isOver_like {m m' : Machine} (hm : κ.MachineLike m m') : m'.isOver = m.isOver := by
  obtain ⟨_, hc, hp⟩ := hm
  cases hc <;> cases hp <;> rfl

theorem run_like (ht : κ.SettingLike t t') (n : ℕ) {m m' : Machine} (hm : κ.MachineLike m m') :
    κ.MachineLike (m.run t n) (m'.run t' n) := by
  induction n generalizing m m' with
  | zero => exact hm
  | succ n ih =>
    simp only [run, isOver_like hm]
    split
    · exact hm
    · exact ih (step_like ht hm)

inductive EndLike (κ : Likeness Role) : Except RuntimeError Value → Except RuntimeError Value → Prop
  | ok (v v') : EndLike κ (.ok v) (.ok v')
  | error {e e'} : κ.ErrorLike e e' → EndLike κ (.error e) (.error e')

lemma result_like {m m' : Machine} (hm : κ.MachineLike m m') :
    Option.Rel (EndLike κ) m.result? m'.result? := by
  obtain ⟨_, hc, hp⟩ := hm
  cases hc with
  | yield => cases hp with
    | nil => exact .some (.ok _ _)
    | _ => exact .none
  | returning hf => cases hp with
    | nil => cases hf
    | _ => exact .none
  | failing he => cases hp with
    | nil => exact .some (.error he)
    | _ => exact .none
  | _ => exact .none

lemma MachineLike.world {m m' : Machine} (hm : κ.MachineLike m m') :
    ∃ ctxs ctx, κ.WorldLike ctxs ctx m.world m'.world := by
  obtain ⟨hw, _, _⟩ := hm
  exact ⟨_, _, hw⟩

lemma MachineLike.out {m m' : Machine} (hm : κ.MachineLike m m') : m'.world.out = m.world.out := by
  obtain ⟨hw, _, _⟩ := hm
  exact hw.out

lemma MachineLike.ended {m m' : Machine} (hm : κ.MachineLike m m') {v : Value}
    (h : m.result? = some (.ok v)) : ∃ ctxs ctx v' w',
      m' = ⟨.yield v', [], w'⟩ ∧ κ.WorldLike ctxs ctx m.world w' := by
  obtain ⟨hw, hc, hp⟩ := hm
  cases hp with
  | nil =>
    cases hc with
    | yield _ => exact ⟨_, _, _, _, rfl, hw⟩
    | returning hf => cases hf
    | failing | eval | exec => cases h
  | item | leaveBlock | leaveCall => cases hc <;> cases h

end Lox.Likeness
