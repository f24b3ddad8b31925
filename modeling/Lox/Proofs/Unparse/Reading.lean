import Lox.Proofs.Unparse.Shape
import Lox.Proofs.Unparse.Tokens

/-!
The tokens of a tree are read as the tree. An operand at the left is read before it is known what
its operator is, so what is proved of it goes on to whatever is read after it.
-/

namespace Lox.Grammar

open Ebnf

lemma level_of_binds {l : Level} {tighter : List Level} (hs : l :: tighter <:+ levels)
    {t : TokenType} (ht : t.binds + tighter.length = 6) : l.allows t = true ∧
      (t.binds ≤ 2 → l.node = .logical) ∧ (3 ≤ t.binds → l.node = .binary) := by
  simp only [levels, List.suffix_cons_iff, List.cons.injEq, List.suffix_nil, reduceCtorEq,
    or_false] at hs
  rcases hs with h | h | h | h | h | h
  all_goals
    obtain ⟨rfl, rfl⟩ := h
    unfold TokenType.binds at ht ⊢
    split at ht <;> simp_all [Level.allows]

section

variable (e : Expr)

def ReadsOperand (ls : List Level) : Prop :=
  ∀ i a, Ends ls a → ReadsExpr (.joined ls) (e.number i) e.tokens i (e.next i) a

def ReadsLeft (l : Level) (tighter : List Level) : Prop :=
  ∀ i {out v j a}, Ends tighter (ahead v a) →
    ReadsExpr (.operations l tighter (e.number i)) out v (e.next i) j a →
    ReadsExpr (.joined (l :: tighter)) out (e.tokens ++ v) i j a

def ReadsUnary : Prop :=
  ∀ i a, a ≠ some (.punct .leftParen) → ReadsExpr .unary (e.number i) e.tokens i (e.next i) a

def ReadsCallee : Prop :=
  ∀ i {out v j a}, ReadsExpr (.calls (e.number i)) out v (e.next i) j a →
    ReadsExpr .unary out (e.tokens ++ v) i j a

structure Parses : Prop where
  expression : ∀ i a, Closes a → ReadsExpr .expression (e.number i) e.tokens i (e.next i) a
  operand : ∀ {ls}, ls <:+ levels → 7 ≤ e.rank + ls.length → ReadsOperand e ls
  left : ∀ {l tighter}, l :: tighter <:+ levels → 6 ≤ e.rank + tighter.length →
    ReadsLeft e l tighter
  unary : 7 ≤ e.rank → ReadsUnary e
  callee : 8 ≤ e.rank → ReadsCallee e

end

section

variable {e : Expr} {l : Level} {tighter : List Level}

lemma ReadsUnary.operand (h : ReadsUnary e) : ReadsOperand e [] :=
  fun i a ha => .tightest (h i a ha.call)

lemma ReadsOperand.left (h : ReadsOperand e tighter) : ReadsLeft e l tighter :=
  fun i _ _ _ _ ha hr => .level (h i _ ha) hr

lemma ReadsLeft.operand (h : ReadsLeft e l tighter) : ReadsOperand e (l :: tighter) := by
  intro i a ha
  have hleft := h i (v := []) ha.tail (.noOperator (ha.operator l List.mem_cons_self))
  rwa [List.append_nil] at hleft

lemma ReadsCallee.unary (h : ReadsCallee e) : ReadsUnary e := by
  intro i a ha
  have hunary := h i (v := []) (.noCall ha)
  rwa [List.append_nil] at hunary

lemma operand_of_rank (own : ∀ {l tighter}, l :: tighter <:+ levels →
      e.rank + tighter.length = 6 → ReadsLeft e l tighter)
    (unary : 7 ≤ e.rank → ReadsUnary e) {ls : List Level} (hs : ls <:+ levels)
    (hr : 7 ≤ e.rank + ls.length) : ReadsOperand e ls := by
  -- At its own level by what is given, at a looser one as a first operand without operators.
  induction ls with
  | nil => exact (unary hr).operand
  | cons l tighter ih =>
    rcases Nat.eq_or_lt_of_le hr with hown | hlt
    · exact (own hs (Nat.succ.inj hown.symm)).operand
    · exact (ih ((List.suffix_cons _ _).trans hs) (Nat.le_of_lt_succ hlt)).left.operand

lemma left_of_rank (own : ∀ {l tighter}, l :: tighter <:+ levels →
      e.rank + tighter.length = 6 → ReadsLeft e l tighter)
    (unary : 7 ≤ e.rank → ReadsUnary e) (hs : l :: tighter <:+ levels)
    (hr : 6 ≤ e.rank + tighter.length) : ReadsLeft e l tighter := by
  rcases Nat.eq_or_lt_of_le hr with hown | hlt
  · exact own hs hown.symm
  · exact (operand_of_rank own unary ((List.suffix_cons _ _).trans hs) hlt).left

lemma Parses.of_own (hr : 1 ≤ e.rank) (own : ∀ {l tighter}, l :: tighter <:+ levels →
      e.rank + tighter.length = 6 → ReadsLeft e l tighter)
    (unary : 7 ≤ e.rank → ReadsUnary e) (callee : 8 ≤ e.rank → ReadsCallee e) : Parses e where
  expression i a ha := .operand (operand_of_rank own unary List.suffix_rfl
    (Nat.add_le_add_right hr 6) i a ha.toEnds) ha.assign
  operand := operand_of_rank own unary
  left := left_of_rank own unary
  unary := unary
  callee := callee

lemma Parses.of_callee (hr : 8 ≤ e.rank) (h : ReadsCallee e) : Parses e :=
  .of_own (by omega) (fun _ _ => by omega) (fun _ => h.unary) fun _ => h

lemma Parses.of_primary (hr : e.rank = 9)
    (h : ∀ i a, ReadsExpr .primary (e.number i) e.tokens i (e.next i) a) : Parses e :=
  .of_callee (by omega) fun i _ _ _ _ hc => .call (h i _) hc

end

lemma parses_unary {op : Token} {e : Expr} (ho : isUnary op.type = true) (he : Parses e)
    (hr : 7 ≤ e.rank) : Parses (.unary op e) := by
  refine .of_own (Nat.le_add_left 1 6) (fun _ h => ?_) (fun _ i a ha => ?_) fun h => ?_
  · rw [Expr.rank] at h
    omega
  · exact .sign ho (he.unary hr i a ha)
  · exact absurd h (Nat.not_succ_le_self 7)

lemma parses_assign {site : SiteId} {name : Token} {e : Expr} (hn : name.type = .identifier)
    (he : Parses e) : Parses (.assign site name e) where
  expression i a ha :=
    .assign (u := [name]) (reads_name hn _ levels ends_equal) rfl (he.expression _ a ha)
  operand hs hr := by
    have hle := hs.length_le
    rw [Expr.rank] at hr
    exact absurd hr (by change _ ≤ 6 at hle; omega)
  left hs hr := by
    have hle := hs.length_le
    rw [Expr.rank] at hr
    exact absurd hr (by change _ + 1 ≤ 6 at hle; omega)
  unary hr := absurd hr (Nat.not_succ_le_zero 6)
  callee hr := absurd hr (Nat.not_succ_le_zero 7)

lemma parses_node {e a b : Expr} {op : Token} (hrank : e.rank = op.type.binds)
    (hnode : ∀ {l : Level}, (op.type.binds ≤ 2 → l.node = .logical) →
      (3 ≤ op.type.binds → l.node = .binary) →
      ∀ i, e.number i = l.node (a.number i) op (b.number (a.next i)))
    (htokens : e.tokens = a.tokens ++ op :: b.tokens)
    (hnext : ∀ i, e.next i = b.next (a.next i)) (hop : 1 ≤ op.type.binds)
    (ha : Parses a) (hra : op.type.binds ≤ a.rank) (hb : Parses b) (hrb : op.type.binds < b.rank) :
    Parses e := by
  have hle : op.type.binds ≤ 6 := by
    unfold TokenType.binds
    split <;> decide
  refine .of_own (by omega) ?_ (fun hr => by omega) fun hr => by omega
  intro l tighter hs hr i out v j x hends h
  rw [hrank] at hr
  obtain ⟨hallows, hlogical, hbinary⟩ := level_of_binds hs hr
  rw [hnode hlogical hbinary, hnext] at h
  have hright := hb.operand ((List.suffix_cons _ _).trans hs) (by omega) (a.next i) _ hends
  have hleft := ha.left hs (by omega) i (v := op :: (b.tokens ++ v)) (ends_of_allows hs hallows)
    (.operator hallows hright h)
  rw [htokens]
  simpa using hleft

lemma reads_args {es : List Expr} (hes : ∀ e ∈ es, Parses e) {e : Expr} (he : Parses e) {n : ℕ}
    (hn : n + es.length < maxArity) (i : SiteId) :
    ReadsArgs n (Expr.listNumber (e :: es) i) (e.tokens ++ Expr.moreTokens es) i
      (Expr.listNext (e :: es) i) (some (.punct .rightParen)) := by
  induction es generalizing e n i with
  | nil =>
    rw [Expr.moreTokens, List.append_nil]
    exact .last (by omega) (he.expression i _ (closes_punct (.inr (.inl rfl)))) (by simp)
  | cons e' es ih =>
    rw [List.forall_mem_cons] at hes
    rw [List.length_cons] at hn
    exact .more (by omega) (he.expression i _ (closes_punct (.inr (.inr rfl)))) rfl
      (ih hes.2 hes.1 (by omega) (e.next i))

lemma parses_call {callee : Expr} {paren : Token} {args : List Expr} (hc : Parses callee)
    (hr : 8 ≤ callee.rank) (hp : paren.type = .punct .rightParen) (ha : ∀ e ∈ args, Parses e)
    (hl : args.length ≤ maxArity) : Parses (.call callee paren args) := by
  refine .of_callee (Nat.le_refl 8) fun i out v j a h => ?_
  cases args with
  | nil =>
    have hcallee := hc.callee hr i (.callWithout (o := .punct .leftParen) rfl hp h)
    simpa [Expr.tokens] using hcallee
  | cons e es =>
    rw [List.forall_mem_cons] at ha
    rw [List.length_cons] at hl
    have hargs := reads_args (n := 0) ha.2 ha.1 (by omega) (callee.next i)
    rw [← hp] at hargs
    have hcallee := hc.callee hr i (.callWith (o := .punct .leftParen) rfl
      (readsExpr_arguments.2 ⟨_, _, paren, v, _, rfl, hargs, hp, h⟩))
    simpa [Expr.tokens] using hcallee

lemma literal_type (v : Literal) : literal? v.type = some v := by
  cases v with
  | bool b => cases b <;> rfl
  | _ => rfl

mutual

theorem parses_of_shaped : ∀ {e : Expr}, e.Shaped → Parses e
  | .literal v, _ => .of_primary rfl fun _ _ => .literal (literal_type v)
  | .ref _ _, h => .of_primary rfl fun _ _ => .name h
  | .grouping e, h => .of_primary rfl fun i _ =>
    .grouping rfl ((parses_of_shaped (e := e) h).expression i _
      (closes_punct (.inr (.inl rfl)))) rfl
  | .unary _ _, ⟨ho, he, hr⟩ => parses_unary ho (parses_of_shaped he) hr
  | .binary _ _ _, ⟨ho, ⟨ha, hra⟩, hb, hrb⟩ =>
    parses_node rfl (fun _ hbinary i => by rw [hbinary ho]; rfl) rfl (fun _ => rfl) (by omega)
      (parses_of_shaped ha) hra (parses_of_shaped hb) hrb
  | .logical _ _ _, ⟨ho, ⟨ha, hra⟩, hb, hrb⟩ =>
    parses_node rfl (fun hlogical _ i => by rw [hlogical (by omega)]; rfl) rfl (fun _ => rfl)
      (by omega) (parses_of_shaped ha) hra (parses_of_shaped hb) hrb
  | .assign _ _ _, ⟨hn, he⟩ => parses_assign hn (parses_of_shaped he)
  | .call _ _ _, ⟨⟨hc, hr⟩, hp, ha, hl⟩ =>
    parses_call (parses_of_shaped hc) hr hp (listParses_of_shaped ha) hl

theorem listParses_of_shaped : ∀ {es : List Expr}, Expr.ListShaped es → ∀ e ∈ es, Parses e
  | [], _ => List.forall_mem_nil _
  | _ :: _, ⟨he, hes⟩ => List.forall_mem_cons.2 ⟨parses_of_shaped he, listParses_of_shaped hes⟩

end

section

variable {i : SiteId}

lemma reads_expression_before {e : Expr} (h : e.Shaped) {p : Punct}
    (hp : p = .semicolon ∨ p = .rightParen ∨ p = .comma) (i : SiteId) :
    ReadsExpr .expression (e.number i) e.tokens i (e.next i) (some (Token.punct p).type) :=
  (parses_of_shaped h).expression i _ (closes_punct hp)

lemma reads_optional_before {e : Option Expr} (h : Expr.OptionShaped e) (i : SiteId) :
    ReadsOptional .semicolon (Expr.optionNumber e i) (Expr.optionTokens e) i (Expr.optionNext e i)
      (some (Token.punct .semicolon).type) := by
  cases e with
  | none => exact .none rfl
  | some e => exact .some (reads_expression_before h (.inl rfl) i)

lemma reads_params_of_names {x : Token} {xs : List Token} (hx : x.type = .identifier)
    (hxs : ∀ y ∈ xs, y.type = .identifier) {n : ℕ} (hn : n + xs.length < maxArity) (i : SiteId) :
    ReadsParams n (x :: xs) (paramTokens (x :: xs)) i i (some (.punct .rightParen)) := by
  induction xs generalizing x n with
  | nil => exact .last (by omega) hx (by simp)
  | cons y ys ih =>
    rw [List.forall_mem_cons] at hxs
    rw [List.length_cons] at hn
    exact .more (by omega) hx rfl (ih hxs.1 hxs.2 (by omega))

lemma reads_paramList_of_names {xs : List Token} (hxs : ∀ x ∈ xs, x.type = .identifier)
    (hn : xs.length ≤ maxArity) (i : SiteId) :
    ReadsParamList xs (paramTokens xs) i i (some (.punct .rightParen)) := by
  cases xs with
  | nil => exact .none rfl
  | cons x xs =>
    rw [List.forall_mem_cons] at hxs
    rw [List.length_cons] at hn
    exact .some (reads_params_of_names hxs.1 hxs.2 (by omega) i)

end

def ReadsBack (s : Stmt) : Prop :=
  ∀ i a, (s.endsOpen = true → a ≠ some (.keyword .kwElse)) →
    ReadsStmt (s.number i) s.tokens i (s.next i) a

structure StmtParses (s : Stmt) : Prop where
  declaration : ∀ i a, (s.endsOpen = true → a ≠ some (.keyword .kwElse)) →
    ReadsDecl (s.number i) s.tokens i (s.next i) a
  statement : s.isDeclaration = false → ReadsBack s

lemma ReadsBack.parses {s : Stmt} (h : ReadsBack s) : StmtParses s :=
  ⟨fun i a ha => .statement (h i a ha), fun _ => h⟩

lemma parses_var {name : Token} {e : Option Expr} (hn : name.type = .identifier)
    (he : Expr.OptionShaped e) : StmtParses (.var name e) := by
  refine ⟨fun i a _ => ?_, nofun⟩
  cases e with
  | none => exact .var rfl (.plain hn rfl)
  | some e => exact .var rfl (.initialized hn rfl (reads_expression_before he (.inl rfl) i) rfl)

lemma headTokens_append (k : Keyword) (c : Expr) (v : List Token) : headTokens k c ++ v =
    .keyword k :: .punct .leftParen :: (c.tokens ++ .punct .rightParen :: v) := by
  simp [headTokens]

lemma parses_ifThen {c : Expr} {s : Stmt} (hc : c.Shaped) (hs : ReadsBack s) :
    StmtParses (.ifThen c s) := by
  refine ReadsBack.parses fun i a ha => ?_
  rw [Stmt.tokens, headTokens_append]
  exact .rule (.ifThen rfl rfl (reads_expression_before hc (.inr (.inl rfl)) i) rfl
    (hs _ a fun _ => ha rfl) (ha rfl))

lemma parses_ifElse {c : Expr} {s t : Stmt} (hc : c.Shaped) (hs : ReadsBack s)
    (ho : s.endsOpen = false) (ht : ReadsBack t) : StmtParses (.ifElse c s t) := by
  refine ReadsBack.parses fun i a ha => ?_
  -- The `else` is not taken into the branch before it, which leaves no `if` open.
  have hclosed : s.endsOpen = true → some (Token.keyword .kwElse).type ≠ some (.keyword .kwElse) :=
    fun h => absurd (ho.symm.trans h) Bool.false_ne_true
  rw [Stmt.tokens, headTokens_append]
  exact .rule (.ifElse rfl rfl (reads_expression_before hc (.inr (.inl rfl)) i) rfl
    (hs _ _ hclosed) rfl (ht _ a ha))

lemma parses_loop {c : Expr} {s : Stmt} (hc : c.Shaped) (hs : ReadsBack s) :
    StmtParses (.loop c s) := by
  refine ReadsBack.parses fun i a ha => ?_
  rw [Stmt.tokens, headTokens_append]
  exact .rule (.loop rfl rfl (reads_expression_before hc (.inr (.inl rfl)) i) rfl (hs _ a ha))

mutual

theorem stmt_parses : ∀ {s : Stmt}, s.Shaped → StmtParses s
  | .expression _, h => ReadsBack.parses fun i _ _ =>
    .expression (reads_expression_before h (.inl rfl) i) rfl
  | .print _, h => ReadsBack.parses fun i _ _ =>
    .rule (.print rfl (reads_expression_before h (.inl rfl) i) rfl)
  | .ret _ _, ⟨hk, he⟩ => ReadsBack.parses fun i _ _ =>
    .rule (.ret hk (reads_optional_before he i) rfl)
  | .var _ _, ⟨hn, he⟩ => parses_var hn he
  | .block body, h => ReadsBack.parses fun i _ _ =>
    .rule (.block rfl (decls_parse (b := body) h i nofun) rfl)
  | .ifThen _ _, ⟨hc, hs, hd⟩ => parses_ifThen hc ((stmt_parses hs).statement hd)
  | .ifElse _ _ _, ⟨hc, ⟨hs, hd, ho⟩, ht, hd'⟩ =>
    parses_ifElse hc ((stmt_parses hs).statement hd) ho ((stmt_parses ht).statement hd')
  | .loop _ _, ⟨hc, hs, hd⟩ => parses_loop hc ((stmt_parses hs).statement hd)
  | .function _ _ _, ⟨hn, ⟨hp, hl⟩, hb⟩ =>
    ⟨fun i _ _ => .function rfl (.mk hn rfl (reads_paramList_of_names hp hl i) rfl rfl
      (decls_parse hb i nofun) rfl), nofun⟩

theorem decls_parse : ∀ {b : List Stmt}, Stmt.ListShaped b → ∀ (i : SiteId) {a : Ahead},
    a ≠ some (.keyword .kwElse) →
    ReadsDecls (Stmt.listNumber b i) (Stmt.unparse b) i (Stmt.listNext b i) a
  | [], _, _, _, _ => .nil
  | _ :: _, ⟨hs, hb⟩, i, _, ha =>
    have hrest := decls_parse hb _ ha
    .cons ((stmt_parses hs).declaration i _ fun _ => hrest.ahead_ne_else ha) hrest

end

end Lox.Grammar
