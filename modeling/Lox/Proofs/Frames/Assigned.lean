import Lox.Proofs.Binding.Initializer
import Lox.Proofs.Frames.Agreement

/-! An assignment whose value is there is done in the scopes in which it was visited. It fails at a
variable that was found in a scope only while that variable is being initialized. -/

namespace Lox

open Binding Machine

namespace Store

lemma extends_define (s : Store) (f : FrameId) (name : String) (v : Value) :
    s.Extends (s.define f name v) := by
  by_cases hf : f < s.frames.size
  · exact .define hf name v
  · have hs : s.define f name v = s := by simp [define, Array.modify, Array.modifyM, hf]
    rw [hs]
    exact .refl s

lemma extends_push (s : Store) (p : Option FrameId) : s.Extends (s.push p).1 := by
  refine ⟨?_, fun {f q} hq => ?_, fun {f name} hb => ?_⟩
  · rw [size_push]
    exact Nat.le_succ _
  · have hlt : f < s.frames.size := by
      by_contra hge
      rw [parent?_eq_none (Nat.le_of_not_lt hge)] at hq
      cases hq
    rwa [push, parent?, Array.getElem?_push_lt hlt, ← Array.getElem?_eq_getElem hlt]
  · rwa [local?_push]

end Store

lemma World.enterCall_extends (closure : FrameId) (params : List Token) (args : List Value)
    (line : ℕ) (w : World) : w.store.Extends (w.enterCall closure params args line).store := by
  refine (w.store.extends_push (some closure)).trans (Frames.bindParams_extends params args ?_)
  rw [Store.size_push]
  exact Nat.lt_succ_self _

lemma Chain.reaches {scopes : List Scope} {s : Store} {env : FrameId} (h : Chain s env scopes)
    {d : ℕ} (hd : d < scopes.length) : ∃ g, s.ancestor? env d = some g := by
  have ha := h.ancestor
  rw [← Nat.add_sub_cancel' (Nat.le_of_lt hd), Store.ancestor?_add, Option.bind_eq_some_iff] at ha
  obtain ⟨g, hg, -⟩ := ha
  exact ⟨g, hg⟩

namespace Frames

/-- Every assignment that remains was visited in the scopes of the frame that will be current once
its value is there. -/
def Awaited (programs : List (List Stmt)) (s : Store) : FrameId → List Pending → Prop
  | _, [] => True
  | env, .assign site name :: ps =>
    (∃ scopes, Chain s env scopes ∧ ∃ p ∈ programs, ∃ fn e,
      ⟨.expr (.assign site name e), fn, scopes⟩ ∈ visits p) ∧ Awaited programs s env ps
  | _, .leaveBlock outer :: ps => Awaited programs s outer ps
  | _, .leaveCall caller _ :: ps => Awaited programs s caller ps
  | env, _ :: ps => Awaited programs s env ps

variable {programs : List (List Stmt)} {s s' : Store} {env : FrameId} {ps : List Pending}
  {w : World} {setting : Setting}

lemma Awaited.extend (hs : s.Extends s') (h : Awaited programs s env ps) :
    Awaited programs s' env ps := by
  induction ps generalizing env with
  | nil => exact h
  | cons p ps ih =>
    cases p with
    | assign site name =>
      obtain ⟨⟨scopes, hc, hv⟩, h⟩ := h
      exact ⟨⟨scopes, hc.extend hs, hv⟩, ih h⟩
    | _ => exact ih h

lemma apply_awaited (v : Value) (paren : Token) (args : List Value)
    (h : Awaited programs w.store w.env ps) :
    let m := Machine.apply setting v paren args ps w
    Awaited programs m.world.store m.world.env m.pending := by
  cases v with
  | function i f closure =>
    simp only [Machine.apply]
    cases w.refusal? setting f.params.length args with
    | some fault => exact h
    | none =>
      exact Awaited.extend (w.enterCall_extends closure f.params args paren.line) h
  | native i =>
    simp only [Machine.apply]
    cases setting.natives[i]? with
    | none => exact h
    | some native =>
      simp only
      cases w.refusal? setting native.arity args <;> exact h
  | _ => exact h

lemma nextArgument_awaited (v : Value) (paren : Token) (vs : List Value) (es : List Expr)
    (h : Awaited programs w.store w.env ps) :
    let m := Machine.nextArgument setting v paren vs es ps w
    Awaited programs m.world.store m.world.env m.pending := by
  cases es with
  | nil => exact apply_awaited v paren vs.reverse h
  | cons e es => exact h

lemma stepExpr_awaited {scopes : List Scope} {e : Expr} (he : ExprIn programs scopes e)
    (hc : Chain w.store w.env scopes) (h : Awaited programs w.store w.env ps) :
    let m := Machine.stepExpr setting e ps w
    Awaited programs m.world.store m.world.env m.pending := by
  cases e with
  | ref site name =>
    simp only [Machine.stepExpr]
    cases w.lookUp? setting site name.lexeme <;> exact h
  | assign site name e =>
    obtain ⟨p, hp, fn, hv⟩ := he
    exact ⟨⟨scopes, hc, p, hp, fn, e, hv (mem_exprVisits_self fn scopes _)⟩, h⟩
  | _ => exact h

lemma stepStmt_awaited (st : Stmt) (h : Awaited programs w.store w.env ps) :
    let m := Machine.stepStmt st ps w
    Awaited programs m.world.store m.world.env m.pending := by
  cases st with
  | var name e =>
    cases e with
    | none => exact h.extend (w.store.extends_define w.env name.lexeme .nil)
    | some e => exact h
  | block body => exact h.extend (w.store.extends_push (some w.env))
  | function name params body => exact h.extend (w.store.extends_define w.env name.lexeme _)
  | ret keyword e => cases e <;> exact h
  | _ => exact h

lemma print_awaited (line? : Option ℕ) (v : Value) (h : Awaited programs w.store w.env ps) :
    let m := Machine.print line? v ps w
    Awaited programs m.world.store m.world.env m.pending := by
  have hw : Awaited programs (w.print v).2.store (w.print v).2.env ps := h
  unfold Machine.print
  generalize w.print v = result at hw
  obtain ⟨accepted, u⟩ := result
  cases accepted <;> exact hw

lemma stepValue_awaited (v : Value) (p : Pending) (h : Awaited programs w.store w.env (p :: ps)) :
    let m := Machine.stepValue setting v p ps w
    Awaited programs m.world.store m.world.env m.pending := by
  cases p with
  | assign site name =>
    simp only [Machine.stepValue]
    cases w.target? setting site name.lexeme with
    | none => exact h.2
    | some f => exact h.2.extend (w.store.extends_define f name.lexeme v)
  | bind name => exact Awaited.extend (w.store.extends_define w.env name.lexeme v) h
  | callee paren es => exact nextArgument_awaited v paren [] es h
  | argument f paren vs es => exact nextArgument_awaited f paren (v :: vs) es h
  | print line? => exact print_awaited line? v h
  | logicalLeft op e =>
    simp only [Machine.stepValue]
    split <;> exact h
  | branch s other =>
    simp only [Machine.stepValue]
    cases other <;> split <;> exact h
  | loopTest c s =>
    simp only [Machine.stepValue]
    split <;> exact h
  | sequence b => cases b <;> exact h
  | _ => exact h

lemma step_awaited {t : Trace} {m : Machine} (hm : MachineFits programs t m)
    (h : Awaited programs m.world.store m.world.env m.pending) :
    Awaited programs (m.step setting).world.store (m.step setting).world.env
      (m.step setting).pending := by
  obtain @⟨_, c, ps, w, -, hc, -⟩ := hm
  cases hc with
  | eval hc he => exact stepExpr_awaited he hc h
  | exec => exact stepStmt_awaited _ h
  | yield =>
    cases ps with
    | nil => exact h
    | cons p ps => exact stepValue_awaited _ p h
  | returning | failing =>
    cases ps with
    | nil => exact h
    | cons p ps =>
      cases p with
      | assign => exact h.2
      | _ => exact h

theorem run_awaited (hn : ∀ native ∈ setting.natives, native.Uniform) (n : ℕ) {t : Trace}
    {m : Machine} (hm : MachineFits programs t m)
    (h : Awaited programs m.world.store m.world.env m.pending) :
    Awaited programs (m.run setting n).world.store (m.run setting n).world.env
      (m.run setting n).pending := by
  induction n generalizing t m with
  | zero => exact h
  | succ n ih =>
    rw [Machine.run]
    split
    · exact h
    · exact ih (step_fits hn hm) (step_awaited hm h)

lemma Known.distance {session : Session} {p : List Stmt} (h : Known session p) {v : Visit}
    (hv : v ∈ visits p) {site : SiteId} {name : Token} (hu : v.use? = some (site, name)) :
    distanceIn? v.scopes name.lexeme = session.distances[site]? := by
  rw [h.table site (mem_uses_of_visit hv hu)]
  exact (recorded_of_visit h.nodup hv hu).symm

/-- However far a chunk has come in a session, when the value of an assignment is there, the
assignment was visited, in this program or in one that ran before. If it has a distance, there is a
frame at that distance. The next step gives the name the value in that frame if the frame binds it,
and that is so unless the assignment is in the initializer of a local variable of that name. -/
theorem assignment_agrees {bodies : List (List Scope)} {session session' : Session}
    {source : String} {program : List Stmt} (h : Reached programs bodies session)
    (hp : session.prepare source = (some program, session')) (n : ℕ) :
    let m := (Machine.load program session'.world).run session'.setting n
    ∀ v site name ps, m.control = .yield v → m.pending = .assign site name :: ps →
      ∃ p ∈ program :: programs, ∃ fn scopes e,
        ⟨.expr (.assign site name e), fn, scopes⟩ ∈ visits p ∧
        ∀ d, session'.distances[site]? = some d →
          ∃ g, m.world.store.ancestor? m.world.env d = some g ∧
            if (m.world.store.local? g name.lexeme).isSome then
              m.step session'.setting = ⟨.yield v, ps, m.world.define g name.lexeme v⟩
            else
              m.step session'.setting = ⟨.failing (.undefined name), ps, m.world⟩ ∧ d = 0 ∧
                InInitializer (visits p) name.lexeme ⟨.expr (.assign site name e), fn, scopes⟩ := by
  intro m v site name ps hcontrol hpending
  obtain ⟨hs, hplaced⟩ := (reached_fits h).prepare hp
  have hm : Awaited (program :: programs) m.world.store m.world.env m.pending :=
    run_awaited hs.natives n (hs.load hplaced) trivial
  clear_value m
  obtain ⟨control, pending, w⟩ := m
  subst hcontrol hpending
  obtain ⟨⟨scopes, hc, p, hmem, fn, e, hv⟩, -⟩ := hm
  refine ⟨p, hmem, fn, scopes, e, hv, fun d hd => ?_⟩
  have hdistance : distanceIn? scopes name.lexeme = some d :=
    ((hs.known p hmem).distance hv rfl).trans hd
  have hlt : d < scopes.length := by
    rw [distanceIn?, List.findIdx?_eq_some_iff_getElem] at hdistance
    exact hdistance.1
  obtain ⟨g, hg⟩ := hc.reaches hlt
  have htable : session'.setting.distances[site]? = some d := hd
  have htarget : w.target? session'.setting site name.lexeme =
      if (w.store.local? g name.lexeme).isSome then some g else none := by
    rw [World.target?, htable]
    simp only [Store.holder?, hg, Option.filter_some]
  refine ⟨g, hg, ?_⟩
  split
  · next hb => simp only [Machine.step, Machine.stepValue, htarget, hb, if_true]
  · next hb =>
    have hincomplete : pendingIn scopes name.lexeme = true := by
      by_contra hcomplete
      rw [Bool.not_eq_true] at hcomplete
      obtain ⟨g', hg', hl⟩ := hc.read hv hcomplete hdistance
      obtain rfl := Option.some.inj (hg.symm.trans hg')
      exact hb hl
    have hzero := distanceIn?_of_pendingIn hincomplete
    refine ⟨?_, Option.some.inj (hdistance.symm.trans hzero),
      initializer_of_pendingIn hv hincomplete⟩
    simp only [Machine.step, Machine.stepValue, htarget, hb, if_false, Bool.false_eq_true]

def selfAssigning : List Stmt :=
  [.block [.var ⟨.identifier, "a", 5, 1⟩ (some (.assign 1 ⟨.identifier, "a", 7, 1⟩
    (.literal .nil)))]]

lemma scan_selfAssigning : scan "\x7bvar a=a=nil;\x7d" =
    [.token ⟨.punct .leftBrace, "\x7b", 0, 1⟩, .token ⟨.keyword .kwVar, "var", 1, 1⟩,
      .token ⟨.identifier, "a", 5, 1⟩, .token ⟨.punct .equal, "=", 6, 1⟩,
      .token ⟨.identifier, "a", 7, 1⟩, .token ⟨.punct .equal, "=", 8, 1⟩,
      .token ⟨.keyword .kwNil, "nil", 9, 1⟩, .token ⟨.punct .semicolon, ";", 12, 1⟩,
      .token ⟨.punct .rightBrace, "\x7d", 13, 1⟩, .token ⟨.eof, "", 14, 1⟩] := by
  simp [scan, Scan.itemsFrom, Scan.munch, Scan.isBlank, Scan.isDigit, Scan.isWordStart,
    Scan.isWordPart, Scan.munchPunct, Scan.munchWord, Scan.punct?, Position.advance,
    Position.start, Scan.item?]
  and_intros <;> rfl

lemma prepare_selfAssigning : localReadStart.prepare "\x7bvar a=a=nil;\x7d" =
    (some selfAssigning, { localReadStart with nextSite := 2 }.record
      (Binding.ofProgram selfAssigning).distances) := by
  refine Session.prepare_eq_some.2 ⟨?_, rfl, 2, ?_, rfl⟩
  · rw [Session.lexicalErrors, scan_selfAssigning]
    rfl
  · rw [← Grammar.ofTokens_exact, Session.tokens, scan_selfAssigning]
    rfl

/-- An assignment in the initializer of its own variable has distance 0, and it fails. -/
theorem selfAssigning_fails :
    let s' := { localReadStart with nextSite := 2 }.record
      (Binding.ofProgram selfAssigning).distances
    let m := (Machine.load selfAssigning s'.world).run s'.setting 6
    m.pending.head? = some (.assign 1 ⟨.identifier, "a", 7, 1⟩) ∧
      s'.distances[1]? = some 0 ∧
      (m.step s'.setting).control = .failing (.undefined ⟨.identifier, "a", 7, 1⟩) := by
  intro s' m
  have hdistance : s'.distances[1]? = some 0 := by
    rw [Session.getElem?_record (by decide)]
    rfl
  obtain ⟨p, -, fn, scopes, e, -, hagrees⟩ := assignment_agrees
    (.start 1 .stopped .unlimited .unlimited) prepare_selfAssigning 6 .nil 1
    ⟨.identifier, "a", 7, 1⟩ _ rfl rfl
  obtain ⟨g, hg, hstep⟩ := hagrees 0 hdistance
  obtain rfl := Option.some.inj hg
  rw [if_neg (by decide)] at hstep
  refine ⟨rfl, hdistance, ?_⟩
  exact congrArg Machine.control hstep.1

end Frames

end Lox
