import Lox.Proofs.Runs
import Lox.Proofs.Store

/-! A run that never meets the limit on calls in progress does the same under every higher limit,
and one that meets it has done the same up to there. -/

namespace Lox

def Setting.withLimit (n : Nat) (t : Setting) : Setting := { t with maxCallDepth := n }

namespace Machine

/-- What a step comes to under a limit and under a higher one: to the same, unless the lower limit
refuses a call. -/
inductive Raised (w : World) : Machine → Machine → Prop
  | same (m) : Raised w m m
  | refused (line ps m) : Raised w ⟨.failing ⟨.stackOverflow, line⟩, ps, w⟩ m

section

variable {t : Setting} {n : ℕ} (h : t.maxCallDepth ≤ n)

include h

-- The arguments are looked at first, so a call is refused under both limits or under the lower one.
lemma refusal_withLimit (w : World) (arity : ℕ) (args : List Value) :
    w.refusal? (t.withLimit n) arity args = w.refusal? t arity args ∨
      w.refusal? t arity args = some .stackOverflow := by
  unfold World.refusal?
  by_cases ha : args.length ≠ arity
  · simp [ha]
  · by_cases hd : t.maxCallDepth ≤ w.callDepth
    · simp [ha, hd]
    · have hn : ¬ n ≤ w.callDepth := fun hn => hd (Nat.le_trans h hn)
      simp [ha, hd, hn, Setting.withLimit]

lemma apply_raised (ps : List Pending) (w : World) (v : Value) (paren : Token)
    (args : List Value) :
    Raised w (apply t v paren args ps w) (apply (t.withLimit n) v paren args ps w) := by
  cases v with
  | function i f closure =>
    rcases refusal_withLimit h w f.params.length args with hr | hr
    · simp only [apply, hr]
      exact .same _
    · simp only [apply, hr]
      exact .refused _ _ _
  | native i =>
    have hn : (t.withLimit n).natives = t.natives := rfl
    simp only [apply, hn]
    cases t.natives[i]? with
    | none => exact .same _
    | some native =>
      rcases refusal_withLimit h w native.arity args with hr | hr
      · simp only [hr]
        exact .same _
      · simp only [hr]
        exact .refused _ _ _
  | _ => exact .same _

lemma nextArgument_raised (ps : List Pending) (w : World) (v : Value) (paren : Token)
    (vs : List Value) (es : List Expr) :
    Raised w (nextArgument t v paren vs es ps w)
      (nextArgument (t.withLimit n) v paren vs es ps w) := by
  cases es with
  | nil => exact apply_raised h ps w v paren vs.reverse
  | cons e es => exact .same _

theorem step_raised (m : Machine) : Raised m.world (m.step t) (m.step (t.withLimit n)) := by
  obtain ⟨c, ps, w⟩ := m
  cases c with
  | eval e => cases e <;> exact .same _
  | exec s => exact .same _
  | yield v =>
    cases ps with
    | nil => exact .same _
    | cons p ps =>
      cases p with
      | callee paren es => exact nextArgument_raised h ps w v paren [] es
      | argument f paren vs es => exact nextArgument_raised h ps w f paren (v :: vs) es
      | sequence b => cases b <;> exact .same _
      | _ => exact .same _
  | returning v => cases ps <;> exact .same _
  | failing e => cases ps <;> exact .same _

theorem run_raised (k : ℕ) (m : Machine) : m.run (t.withLimit n) k = m.run t k ∨
    (∃ line, (m.run t k).control = .failing ⟨.stackOverflow, line⟩) ∧
      ∃ j, (m.run t k).world.out = (m.run (t.withLimit n) j).world.out := by
  induction k generalizing m with
  | zero => exact .inl rfl
  | succ k ih =>
    cases hover : m.isOver with
    | true => rw [run_of_isOver hover, run_of_isOver hover]; exact .inl rfl
    | false =>
      rw [run_succ hover, run_succ hover]
      have hstep := step_raised h m
      generalize hlow : m.step t = low, hhigh : m.step (t.withLimit n) = high at hstep
      cases hstep with
      | same =>
        refine (ih low).imp_right fun ⟨hfails, j, hout⟩ => ⟨hfails, j + 1, ?_⟩
        rw [hout, run_succ hover, hhigh]
      | refused line ps =>
        -- The call that is refused is the last thing that is done.
        obtain ⟨_, _, _, hrun⟩ := run_failing t ⟨.stackOverflow, line⟩ k ps m.world
        right
        rw [hrun]
        exact ⟨⟨line, rfl⟩, 0, rfl⟩

end

/-- Let a program come to its end under a limit on the calls in progress. If it was not refused a
call for that limit, it comes to the same end under every higher limit: the same result, output and
frames. If it was, what it has written is the beginning of what it writes under a higher limit. -/
theorem limit_unobservable {t : Setting} {n : ℕ} (h : t.maxCallDepth ≤ n) {program : List Stmt}
    {w : World} {k : ℕ} (hover : ((load program w).run t k).isOver = true) :
    ((∀ line, ((load program w).run t k).result? ≠ some (.error ⟨.stackOverflow, line⟩)) →
      (load program w).run (t.withLimit n) k = (load program w).run t k) ∧
    ((∃ line, ((load program w).run t k).result? = some (.error ⟨.stackOverflow, line⟩)) →
      ∀ k', ((load program w).run (t.withLimit n) k').isOver = true →
        ((load program w).run t k).world.out.bytes <+:
          ((load program w).run (t.withLimit n) k').world.out.bytes) := by
  rcases run_raised h k (load program w) with hsame | ⟨⟨line, hfails⟩, j, hout⟩
  · refine ⟨fun _ => hsame, fun _ k' hover' => ?_⟩
    have hend : (load program w).run (t.withLimit n) k' = (load program w).run t k := by
      rw [← hsame] at hover ⊢
      rcases Nat.le_total k k' with hle | hle
      · exact run_of_le hle hover
      · exact (run_of_le hle hover').symm
    exact hend ▸ List.prefix_rfl
  · constructor
    · intro hresult
      refine absurd ?_ (hresult line)
      generalize (load program w).run t k = m at hover hfails
      obtain ⟨c, ps, w'⟩ := m
      obtain rfl : c = .failing ⟨.stackOverflow, line⟩ := hfails
      cases ps with
      | nil => rfl
      | cons => cases hover
    · intro _ k' hover'
      apply Sink.bytes_of_suffix
      have hend := run_of_le (Nat.le_add_right k' j) hover'
      rw [hout, ← hend, Nat.add_comm, run_add]
      exact writes_run _ _ _

def innerFunction : Function := ⟨⟨.identifier, "g", 4, 1⟩, [], []⟩

def callTo (site : SiteId) (f : Function) (line : Nat) : Stmt :=
  .expression (.call (.ref site f.name) ⟨.punct .rightParen, ")", 0, line⟩ [])

def outerFunction : Function :=
  ⟨⟨.identifier, "f", 4, 2⟩, [],
    [.print (.literal .nil), callTo 0 innerFunction 3, .print (.literal .nil)]⟩

def nestedCalls : List Stmt :=
  [.function innerFunction.name [] innerFunction.body,
    .function outerFunction.name [] outerFunction.body, callTo 1 outerFunction 4]

def startWith (out : Sink) : World := .initial .stopped out

def inOuterCall (out : Sink) : World :=
  (((startWith out).declare innerFunction).declare outerFunction).enterCall Store.globals [] [] 4

def withoutSites (n : Nat) : Setting := ⟨#[], ∅, n⟩

lemma step_unrecorded {n : ℕ} {site : SiteId} {name : Token} {ps : List Pending} {w : World}
    {v : Value} (h : w.store.local? Store.globals name.lexeme = some v) :
    (⟨.eval (.ref site name), ps, w⟩ : Machine).step (withoutSites n) = ⟨.yield v, ps, w⟩ := by
  have hnone : (withoutSites n).distances[site]? = none := Std.HashMap.getElem?_empty
  simp only [step, stepExpr, World.lookUp?, hnone, Store.get?_globals, h]

lemma run_nestedCalls (n : ℕ) {out out' : Sink} (h : out.writeLine ["nil"] = (true, out')) :
    (load nestedCalls (startWith out)).run (withoutSites (n + 1)) 17 =
      ⟨.yield (.function 0 innerFunction Store.globals),
        [.callee ⟨.punct .rightParen, ")", 0, 3⟩ [], .sequence [.print (.literal .nil)],
          .leaveCall Store.globals 0, .sequence []], inOuterCall out'⟩ := by
  have hout : (inOuterCall out).out.writeLine Value.nil.pieces = (true, out') := h
  rw [run_add _ 7 10]
  change run (withoutSites (n + 1)) 10 ⟨.eval (.ref 1 outerFunction.name), _, _⟩ = _
  rw [run_succ rfl, step_unrecorded rfl, run_add _ 4 5]
  change run (withoutSites (n + 1)) 5 ⟨.yield .nil, .print none :: _, inOuterCall out⟩ = _
  rw [run_succ rfl]
  change run (withoutSites (n + 1)) 4 (print none .nil _ (inOuterCall out)) = _
  rw [print_accepted _ _ _ _ (congrArg Prod.fst hout), hout, run_add _ 3 1]
  change run (withoutSites (n + 1)) 1 ⟨.eval (.ref 0 innerFunction.name), _, _⟩ = _
  rw [run_succ rfl, step_unrecorded rfl]
  rfl

theorem nestedCalls_limited :
    let start := load nestedCalls (startWith .unlimited)
    (start.run (withoutSites 1) 21).result? = some (.error ⟨.stackOverflow, 3⟩) ∧
      (start.run (withoutSites 1) 21).world.out.bytes <+:
        (start.run (withoutSites 2) 27).world.out.bytes ∧
      (start.run (withoutSites 2048) 27).result? = some (.ok .nil) ∧
      (start.run (withoutSites 2048) 27).world.out.bytes = utf8 "nil\nnil\n" := by
  intro start
  have hinside : ∀ n, start.run (withoutSites (n + 1)) 17 = _ := fun n => run_nestedCalls n rfl
  have hlow : (start.run (withoutSites 1) 21).result? = some (.error ⟨.stackOverflow, 3⟩) := by
    rw [run_add _ 17 4, hinside 0]
    rfl
  have hlowOver : (start.run (withoutSites 1) 21).isOver = true := by
    rw [run_add _ 17 4, hinside 0]
    rfl
  have hhigh : (start.run (withoutSites 2) 27).result? = some (.ok .nil) ∧
      (start.run (withoutSites 2) 27).world.out.bytes = utf8 "nil\nnil\n" ∧
      (start.run (withoutSites 2) 27).isOver = true := by
    rw [run_add _ 17 10, hinside 1]
    exact ⟨rfl, rfl, rfl⟩
  obtain ⟨hresult, hbytes, hover⟩ := hhigh
  have hprefix := (limit_unobservable (t := withoutSites 1) (n := 2) (by decide) hlowOver).2
    ⟨3, hlow⟩ 27 hover
  have hsame := (limit_unobservable (t := withoutSites 2) (n := 2048) (by decide) hover).1
    fun line hfails => by
      rw [hresult] at hfails
      cases hfails
  refine ⟨hlow, hprefix, ?_⟩
  change (start.run ((withoutSites 2).withLimit 2048) 27).result? = _ ∧
    (start.run ((withoutSites 2).withLimit 2048) 27).world.out.bytes = _
  rw [hsame]
  exact ⟨hresult, hbytes⟩

end Machine

end Lox
