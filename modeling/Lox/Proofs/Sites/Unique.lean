import Lox.Proofs.Frames.Agreement
import Lox.Proofs.History

/-! No number of a variable site is used again, in a program or in a session: whatever becomes of a
chunk, the sites of the next one are numbered after those of all before. -/

namespace Lox

mutual

def Expr.tally (r w : ℕ) : Expr → ℕ
  | .literal _ => 0
  | .grouping e | .unary _ e => e.tally r w
  | .binary a _ b | .logical a _ b => a.tally r w + b.tally r w
  | .ref _ _ => r
  | .assign _ _ e => e.tally r w + w
  | .call f _ args => f.tally r w + Expr.listTally r w args

def Expr.listTally (r w : ℕ) : List Expr → ℕ
  | [] => 0
  | e :: rest => e.tally r w + Expr.listTally r w rest

end

def Expr.optionTally (r w : ℕ) : Option Expr → ℕ
  | none => 0
  | some e => e.tally r w

mutual

def Stmt.tally (r w : ℕ) : Stmt → ℕ
  | .expression e | .print e => e.tally r w
  | .var _ e | .ret _ e => Expr.optionTally r w e
  | .block body | .function _ _ body => Stmt.listTally r w body
  | .ifThen c s | .loop c s => c.tally r w + s.tally r w
  | .ifElse c s t => c.tally r w + s.tally r w + t.tally r w

def Stmt.listTally (r w : ℕ) : List Stmt → ℕ
  | [] => 0
  | s :: rest => s.tally r w + Stmt.listTally r w rest

end

mutual

lemma Expr.tally_eq : ∀ e : Expr, e.tally 1 2 = e.tally 1 0 + 2 * e.tally 0 1
  | .literal _ => rfl
  | .grouping e | .unary _ e => Expr.tally_eq e
  | .binary a _ b | .logical a _ b => by
    have ha := Expr.tally_eq a
    have hb := Expr.tally_eq b
    simp only [Expr.tally, ha, hb]
    omega
  | .ref _ _ => rfl
  | .assign _ _ e => by
    have he := Expr.tally_eq e
    simp only [Expr.tally, he]
    omega
  | .call f _ args => by
    have hf := Expr.tally_eq f
    have ha := Expr.listTally_eq args
    simp only [Expr.tally, hf, ha]
    omega

lemma Expr.listTally_eq : ∀ es : List Expr,
    Expr.listTally 1 2 es = Expr.listTally 1 0 es + 2 * Expr.listTally 0 1 es
  | [] => rfl
  | e :: rest => by
    have he := Expr.tally_eq e
    have hr := Expr.listTally_eq rest
    simp only [Expr.listTally, he, hr]
    omega

end

lemma Expr.optionTally_eq (e : Option Expr) :
    Expr.optionTally 1 2 e = Expr.optionTally 1 0 e + 2 * Expr.optionTally 0 1 e := by
  cases e with
  | none => rfl
  | some e => exact Expr.tally_eq e

mutual

lemma Stmt.tally_eq : ∀ s : Stmt, s.tally 1 2 = s.tally 1 0 + 2 * s.tally 0 1
  | .expression e | .print e => Expr.tally_eq e
  | .var _ e | .ret _ e => Expr.optionTally_eq e
  | .block body | .function _ _ body => Stmt.listTally_eq body
  | .ifThen c s | .loop c s => by
    have hc := Expr.tally_eq c
    have hs := Stmt.tally_eq s
    simp only [Stmt.tally, hc, hs]
    omega
  | .ifElse c s t => by
    have hc := Expr.tally_eq c
    have hs := Stmt.tally_eq s
    have ht := Stmt.tally_eq t
    simp only [Stmt.tally, hc, hs, ht]
    omega

lemma Stmt.listTally_eq : ∀ body : List Stmt,
    Stmt.listTally 1 2 body = Stmt.listTally 1 0 body + 2 * Stmt.listTally 0 1 body
  | [] => rfl
  | s :: rest => by
    have hs := Stmt.tally_eq s
    have hr := Stmt.listTally_eq rest
    simp only [Stmt.listTally, hs, hr]
    omega

end

lemma Expr.listTally_append (r w : ℕ) (a b : List Expr) :
    Expr.listTally r w (a ++ b) = Expr.listTally r w a + Expr.listTally r w b := by
  induction a with
  | nil => rw [List.nil_append, Expr.listTally, Nat.zero_add]
  | cons e a ih => rw [List.cons_append, Expr.listTally, ih, Expr.listTally, Nat.add_assoc]

namespace Grammar

lemma tally_node {l : Level} {tighter : List Level} (h : l :: tighter <:+ levels) (r w : ℕ)
    (left right : Expr) (op : Token) :
    (l.node left op right).tally r w = left.tally r w + right.tally r w := by
  rcases node_of_mem (h.subset List.mem_cons_self) with hl | hl <;> rw [hl, Expr.tally]

lemma tally_forLoop (r w : ℕ) (initializer : Option Stmt) (condition increment : Option Expr)
    (body : Stmt) : (forLoop initializer condition increment body).tally r w =
      Stmt.listTally r w initializer.toList + Expr.optionTally r w condition +
        Expr.optionTally r w increment + body.tally r w := by
  cases initializer <;> cases condition <;> cases increment <;>
    simp [forLoop, Stmt.tally, Stmt.listTally, Expr.optionTally, Expr.tally] <;> omega

/-- A variable takes one number where it is read. Where it is assigned it takes two: one before it
is known that it is a target, and one after. -/
def Spends : ExprRule → Expr → ℕ → ℕ → Prop
  | .joined ls, e, i, j => ls <:+ levels → j = i + e.tally 1 2
  | .operations l tighter left, e, i, j => l :: tighter <:+ levels →
      j + left.tally 1 2 = i + e.tally 1 2
  | .calls callee, e, i, j => j + callee.tally 1 2 = i + e.tally 1 2
  | .arguments callee args, e, i, j =>
      j + (callee.tally 1 2 + Expr.listTally 1 2 args) = i + e.tally 1 2
  | .expression, e, i, j | .unary, e, i, j | .primary, e, i, j => j = i + e.tally 1 2

theorem spends_of_reads {r : ExprRule} {e : Expr} {u : List Token} {i j : ℕ} {a : Ahead}
    (h : ReadsExpr r e u i j a) : Spends r e i j := by
  induction h with
  | operand _ _ ih => exact ih List.suffix_rfl
  | assign _ _ _ iht ihv =>
    have ht := iht List.suffix_rfl
    simp only [Spends, Expr.tally] at ht ihv ⊢
    omega
  | tightest _ ih => exact fun _ => ih
  | level _ _ ihf ihe =>
    intro hs
    have hf := ihf ((List.suffix_cons _ _).trans hs)
    have he := ihe hs
    omega
  | noOperator | noCall => simp [Spends]
  | operator _ _ _ ihr ihe =>
    intro hs
    have hr := ihr ((List.suffix_cons _ _).trans hs)
    have he := ihe hs
    rw [tally_node hs] at he
    omega
  | sign _ _ ih | grouping _ _ _ ih => exact ih
  | call _ _ ihf ihe =>
    simp only [Spends] at ihf ihe ⊢
    omega
  | literal | name => simp [Spends, Expr.tally]
  | callWithout _ _ _ ih | callWith _ _ ih =>
    simpa [Spends, Expr.tally, Expr.listTally] using ih
  | argument _ _ _ _ ihe ih | lastArgument _ _ _ _ ihe ih =>
    simp only [Spends, Expr.tally, Expr.listTally_append, Expr.listTally] at ihe ih ⊢
    omega

lemma optional_spends {p : Punct} {e : Option Expr} {u : List Token} {i j : ℕ} {a : Ahead}
    (h : ReadsOptional p e u i j a) : j = i + Expr.optionTally 1 2 e := by
  cases h with
  | none => rfl
  | some he => exact spends_of_reads he

lemma var_spends {s : Stmt} {u : List Token} {i j : ℕ} {a : Ahead} (h : ReadsVar s u i j a) :
    j = i + s.tally 1 2 := by
  cases h with
  | plain => rfl
  | initialized _ _ he _ => exact spends_of_reads he

lemma initializer_spends {s : Option Stmt} {u : List Token} {i j : ℕ} {a : Ahead}
    (h : ReadsInitializer s u i j a) : j = i + Stmt.listTally 1 2 s.toList := by
  cases h with
  | none => rfl
  | var _ hs => exact var_spends hs
  | expression he _ => exact spends_of_reads he

lemma params_spend {n : ℕ} {xs u : List Token} {i j : ℕ} {a : Ahead}
    (h : ReadsParams n xs u i j a) : j = i := by
  induction h with
  | last => rfl
  | more _ _ _ _ ih => exact ih

lemma paramList_spends {xs u : List Token} {i j : ℕ} {a : Ahead}
    (h : ReadsParamList xs u i j a) : j = i := by
  cases h with
  | none => rfl
  | some h => exact params_spend h

mutual

lemma stmt_spends : ∀ {s u a} {i j : ℕ}, ReadsStmt s u i j a → j = i + s.tally 1 2
  | _, _, _, _, _, .expression he _ => spends_of_reads he
  | _, _, _, _, _, .rule h => rule_spends h

lemma rule_spends : ∀ {t s u a} {i j : ℕ}, ReadsRule t s u i j a → j = i + s.tally 1 2
  | _, _, _, _, _, _, .print _ he _ => spends_of_reads he
  | _, _, _, _, _, _, .ret _ he _ => optional_spends he
  | _, _, _, _, _, _, .loop _ _ he _ hs | _, _, _, _, _, _, .ifThen _ _ he _ hs _ => by
    have he : _ = _ := spends_of_reads he
    have hs := stmt_spends hs
    rw [Stmt.tally]
    omega
  | _, _, _, _, _, _, .ifElse _ _ he _ hs _ ht => by
    have he : _ = _ := spends_of_reads he
    have hs := stmt_spends hs
    have ht := stmt_spends ht
    rw [Stmt.tally]
    omega
  | _, _, _, _, _, _, .forLoop _ _ hi hv _ hw _ hb => by
    have hi := initializer_spends hi
    have hv := optional_spends hv
    have hw := optional_spends hw
    have hb := stmt_spends hb
    rw [tally_forLoop]
    omega
  | _, _, _, _, _, _, .block _ hb _ => decls_spend hb

lemma function_spends : ∀ {s u a} {i j : ℕ}, ReadsFunction s u i j a → j = i + s.tally 1 2
  | _, _, _, _, _, .mk _ _ hp _ _ hb _ => by
    obtain rfl := paramList_spends hp
    exact decls_spend hb

lemma decl_spends : ∀ {s u a} {i j : ℕ}, ReadsDecl s u i j a → j = i + s.tally 1 2
  | _, _, _, _, _, .function _ hf => function_spends hf
  | _, _, _, _, _, .var _ hv => var_spends hv
  | _, _, _, _, _, .statement hs => stmt_spends hs

lemma decls_spend : ∀ {b u a} {i j : ℕ}, ReadsDecls b u i j a → j = i + Stmt.listTally 1 2 b
  | _, _, _, _, _, .nil => rfl
  | _, _, _, _, _, .cons hs hb => by
    have hs := decl_spends hs
    have hb := decls_spend hb
    rw [Stmt.listTally]
    omega

end

end Grammar

namespace Session

/-- A later session, with the programs that were read on the way to it, run or not. -/
inductive Later (s : Session) : List (List Stmt) → Session → Prop
  | refl : Later s [] s
  | run {programs t} (fuel source) : Later s programs t →
      Later s (programs ++ (t.reading source).program?.toOption.toList) (t.run fuel source).2
  | resetError {programs t} : Later s programs t → Later s programs t.resetError
  | defineGlobal {programs t} (name v) : Later s programs t →
      Later s programs (t.defineGlobal name v)
  | makeFunction {programs t} (declaration) : Later s programs t →
      Later s programs (t.makeFunction declaration).2
  | defineNative {programs t} (native) :
      Later s programs t → Later s programs (t.defineNative native)

variable {s t : Session} {programs : List (List Stmt)}

lemma nextSite_prepare (source : String) (s : Session) :
    (s.prepare source).2.nextSite = (s.reading source).nextSite := by
  obtain ⟨_, _, ha⟩ := s.afterReading_eq source
  rw [prepare_eq]
  split
  · obtain ⟨_, _, hr⟩ := reportAll_eq
      ((Binding.ofProgram (s.reading source).statements).errors.map (·.diagnostic))
      ((s.afterReading source).record (Binding.ofProgram (s.reading source).statements).distances)
    rw [hr, ha]
    rfl
  · rw [ha]

lemma distances_prepare (source : String) (s : Session) {site : SiteId}
    (hs : site < s.nextSite ∨ (s.prepare source).2.nextSite ≤ site) :
    (s.prepare source).2.distances[site]? = s.distances[site]? := by
  rcases hp : s.prepare source with ⟨_ | program, s₁⟩ <;> rw [hp] at hs
  · obtain ⟨_, _, _, _, rfl, -, hd⟩ := prepare_eq_none hp
    exact hd site hs
  · obtain ⟨_, _, rfl, -, hd⟩ := prepare_extends hp
    exact hd site hs

lemma sites_finish (m : Machine) (s : Session) :
    (s.finish m).2.nextSite = s.nextSite ∧ (s.finish m).2.distances = s.distances := by
  unfold finish
  cases m.result? with
  | none => exact ⟨rfl, rfl⟩
  | some result => cases result <;> exact ⟨rfl, rfl⟩

lemma sites_run (fuel : ℕ) (source : String) (s : Session) :
    (s.run fuel source).2.nextSite = (s.prepare source).2.nextSite ∧
      (s.run fuel source).2.distances = (s.prepare source).2.distances := by
  rcases hp : s.prepare source with ⟨_ | program, s₁⟩
  · rw [run, hp]
    exact ⟨rfl, rfl⟩
  · rw [run_eq_of_prepare hp]
    exact sites_finish _ _

lemma nextSite_run (fuel : ℕ) (source : String) (s : Session) :
    (s.run fuel source).2.nextSite = (s.reading source).nextSite :=
  (sites_run fuel source s).1.trans (nextSite_prepare source s)

lemma distances_run (fuel : ℕ) (source : String) (s : Session) {site : SiteId}
    (hs : site < s.nextSite ∨ (s.run fuel source).2.nextSite ≤ site) :
    (s.run fuel source).2.distances[site]? = s.distances[site]? := by
  obtain ⟨hn, hd⟩ := sites_run fuel source s
  rw [hn] at hs
  rw [hd, distances_prepare source s hs]

lemma numbered_reading (source : String) (s : Session) :
    Grammar.Numbered ((s.reading source).program?.toOption.toList.flatMap Stmt.listUses)
      s.nextSite (s.reading source).nextSite := by
  cases hp : (s.reading source).program? with
  | error => exact ⟨Grammar.le_nextSite _ _, List.nodup_nil, by simp [Except.toOption]⟩
  | ok program =>
    rw [Except.toOption, Option.toList_some, List.flatMap_singleton]
    exact (Grammar.decls_sound (Grammar.accepted_iff_reads.1 hp)).1

theorem Later.numbered (h : Later s programs t) :
    Grammar.Numbered (programs.flatMap Stmt.listUses) s.nextSite t.nextSite := by
  induction h with
  | refl => exact .nil _
  | run fuel source _ ih =>
    rw [List.flatMap_append, nextSite_run]
    exact ih.append (numbered_reading source _)
  | resetError _ ih | defineGlobal _ _ _ ih | makeFunction _ _ ih | defineNative _ _ ih => exact ih

theorem Later.distances (h : Later s programs t) {site : SiteId}
    (hs : site < s.nextSite ∨ t.nextSite ≤ site) : t.distances[site]? = s.distances[site]? := by
  induction h with
  | refl => rfl
  | @run _ t fuel source ht ih =>
    have hle : t.nextSite ≤ (t.run fuel source).2.nextSite := by
      rw [nextSite_run]
      exact (numbered_reading source t).le
    have hold : site < t.nextSite ∨ (t.run fuel source).2.nextSite ≤ site :=
      hs.imp_left fun hs => Nat.lt_of_lt_of_le hs ht.numbered.le
    rw [distances_run fuel source t hold]
    exact ih (hs.imp_right (Nat.le_trans hle))
  | resetError _ ih | defineGlobal _ _ _ ih | makeFunction _ _ ih | defineNative _ _ ih =>
    exact ih hs

lemma Later.fresh {depth : Nat} {clock : Clock} {out diagnostics : Sink}
    (h : Later (.start depth clock out diagnostics) programs t) {site : SiteId}
    (hs : t.nextSite ≤ site) : t.distances[site]? = none := by
  rw [h.distances (.inr hs)]
  exact Std.HashMap.getElem?_empty

/-- The sites of a program are all different, each with a number from the first that was free up to
the next that is; of these numbers a read takes one and an assignment two. So no two sites of the
programs that a session reads have one number, and once a distance is recorded it is there in every
later session. -/
theorem sites_never_reused :
    (∀ first tokens, first ≤ (Reading.ofTokens first tokens).nextSite ∧
      ∀ program, (Reading.ofTokens first tokens).program? = .ok program →
        ((Stmt.listUses program).map Prod.fst).Nodup ∧
        (∀ site ∈ (Stmt.listUses program).map Prod.fst,
          first ≤ site ∧ site < (Reading.ofTokens first tokens).nextSite) ∧
        (Reading.ofTokens first tokens).nextSite =
          first + (Stmt.listTally 1 0 program + 2 * Stmt.listTally 0 1 program)) ∧
    ∀ depth clock out diagnostics programs s,
      Later (.start depth clock out diagnostics) programs s →
        ((programs.flatMap Stmt.listUses).map Prod.fst).Nodup ∧
        ∀ more (t : Session) (site : SiteId) (d : ℕ), Later s more t →
          s.distances[site]? = some d → t.distances[site]? = some d := by
  constructor
  · intro first tokens
    refine ⟨Grammar.le_nextSite _ _, fun program hp => ?_⟩
    have hreads := Grammar.accepted_iff_reads.1 hp
    obtain ⟨-, hnodup, hrange⟩ := (Grammar.decls_sound hreads).1
    have hspent := Grammar.decls_spend hreads
    rw [Stmt.listTally_eq] at hspent
    exact ⟨hnodup, hrange, hspent⟩
  · intro depth clock out diagnostics programs s hs
    refine ⟨hs.numbered.nodup, fun more t site d ht hd => ?_⟩
    have hlt : site < s.nextSite := by
      by_contra hge
      rw [hs.fresh (Nat.le_of_not_lt hge)] at hd
      cases hd
    rw [ht.distances (.inl hlt), hd]

theorem localRead_twice :
    let s := (Frames.localReadStart.run 20 "\x7bvar a;a;\x7d").2
    let t := (s.run 20 "\x7bvar a;a;\x7d").2
    (Reading.ofTokens 0 (tokens "\x7bvar a;a;\x7d")).nextSite = 0 + (1 + 2 * 0) ∧
      s.distances[0]? = some 0 ∧ t.distances[0]? = some 0 := by
  intro s t
  have hread : (Reading.ofTokens 0 (tokens "\x7bvar a;a;\x7d")).program? =
      .ok Frames.localRead := by
    rw [tokens, Frames.scan_localRead]
    rfl
  have hdistance : s.distances[0]? = some 0 := by
    rw [(sites_run 20 _ _).2, Frames.prepare_localRead, getElem?_record (by decide)]
    rfl
  obtain ⟨hnumbers, hsession⟩ := sites_never_reused
  have hs : Later (.start 1 .stopped .unlimited .unlimited) _ s := .run 20 _ .refl
  refine ⟨((hnumbers 0 _).2 _ hread).2.2, hdistance, ?_⟩
  exact (hsession _ _ _ _ _ s hs).2 _ t 0 0 (.run 20 _ .refl) hdistance

end Session

end Lox
