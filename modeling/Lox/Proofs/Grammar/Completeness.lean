import Lox.Proofs.Grammar.ExprRules
import Lox.Proofs.Grammar.Lookahead
import Lox.Proofs.Grammar.Soundness

/-! What the grammar derives is read. An operand may be followed by the operators of looser levels
only; an `else` goes to the nearest `if` without one, which may move it inward. -/

namespace Lox.Grammar.Ebnf

open Form

structure Ends (ls : List Level) (a : Ahead) : Prop where
  operator : ∀ l ∈ ls, a.any l.allows = false
  call : a ≠ some (.punct .leftParen)

structure Closes (a : Ahead) : Prop extends Ends levels a where
  assign : a ≠ some (.punct .equal)

lemma Ends.tail {l : Level} {tighter : List Level} {a : Ahead} (h : Ends (l :: tighter) a) :
    Ends tighter a :=
  ⟨fun l' hl => h.operator l' (List.mem_cons_of_mem l hl), h.call⟩

lemma ends_of_allows {l : Level} {tighter : List Level} (h : l :: tighter <:+ levels)
    {t : TokenType} (ht : l.allows t = true) : Ends tighter (some t) := by
  simp only [levels, List.suffix_cons_iff, List.cons.injEq, List.suffix_nil, reduceCtorEq,
    or_false] at h
  rcases h with h | h | h | h | h | h
  all_goals
    obtain ⟨rfl, rfl⟩ := h
    simp only [allows_keyword, allows_punct, List.mem_cons, List.not_mem_nil, or_false,
      exists_eq_or_imp, exists_eq_left] at ht
    constructor
    · rcases ht with rfl | rfl | rfl | rfl <;> simp [Level.allows]
    · rcases ht with rfl | rfl | rfl | rfl <;> simp

lemma closes_punct {p : Punct} (hp : p = .semicolon ∨ p = .rightParen ∨ p = .comma) :
    Closes (some (.punct p)) := by
  rcases hp with rfl | rfl | rfl <;>
    exact ⟨⟨by simp [levels, Level.allows], by simp⟩, by simp⟩

lemma ends_equal : Ends levels (some (.punct .equal)) :=
  ⟨by simp [levels, Level.allows], by simp⟩

lemma reads_name {x : Token} (hx : x.type = .identifier) (i : SiteId) (ls : List Level) {a : Ahead}
    (ha : Ends ls a) : ReadsExpr (.joined ls) (.ref i x) [x] i (i + 1) a := by
  induction ls with
  | nil => exact .tightest (.call (u := [x]) (v := []) (.name hx) (.noCall ha.call))
  | cons l tighter ih =>
    exact .level (u := [x]) (v := []) (ih ha.tail) (.noOperator (ha.operator l List.mem_cons_self))

lemma many_induction {f : Form} {P : List Token → Prop} (nil : P [])
    (cons : ∀ u v, Derives f u → Derives (many f) v → P v → P (u ++ v)) {u : List Token}
    (h : Derives (many f) u) : P u := by
  generalize hm : many f = m at h
  induction h with
  | manyNil => exact nil
  | manyCons hu hv _ ih => cases hm; exact cons _ _ hu hv (ih rfl)
  | _ => cases hm

def ReadsShorter (n : ℕ) : Prop :=
  ∀ u, u.length < n → Derives (rule .expression) u → ∀ i a, Closes a →
    ∃ e j, ReadsExpr .expression e u i j a

section

variable {n : ℕ} (ih : ReadsShorter n)

include ih

lemma reads_args (k m : ℕ) {v w : List Token} (hv : Derives (rule .expression) v)
    (hw : Derives (upTo k (all (punct .comma) [rule .expression])) w)
    (hl : (v ++ w).length < n) (hm : m + k < maxArity) (i : SiteId) :
    ∃ es j, ReadsArgs m es (v ++ w) i j (some (.punct .rightParen)) := by
  induction k generalizing m v w i with
  | zero =>
    cases hw
    rw [List.append_nil] at hl ⊢
    obtain ⟨e, j, he⟩ := ih v hl hv i _ (closes_punct (.inr (.inl rfl)))
    exact ⟨[e], j, .last (by omega) he (by simp)⟩
  | succ k ihk =>
    cases hw with
    | upToNil =>
      rw [List.append_nil] at hl ⊢
      obtain ⟨e, j, he⟩ := ih v hl hv i _ (closes_punct (.inr (.inl rfl)))
      exact ⟨[e], j, .last (by omega) he (by simp)⟩
    | upToCons hx hw =>
      obtain ⟨_, x, rfl, hcomma, hx'⟩ := derives_seq.1 hx
      obtain ⟨t, rfl, ht⟩ := derives_punct.1 hcomma
      simp only [List.length_append, List.length_cons] at hl
      obtain ⟨e, k', he⟩ := ih v (by omega) hv i (some t.type)
        (by rw [ht]; exact closes_punct (.inr (.inr rfl)))
      obtain ⟨es, j, hes⟩ := ihk (m + 1) hx' hw (by rw [List.length_append]; omega) (by omega) k'
      exact ⟨e :: es, j, .more (by omega) he ht hes⟩

lemma reads_calls {u : List Token} (h : Derives (many callForm) u) (hl : u.length ≤ n)
    (callee : Expr) (i : SiteId) {a : Ahead} (ha : a ≠ some (.punct .leftParen)) :
    ∃ e j, ReadsExpr (.calls callee) e u i j a := by
  refine many_induction (P := fun u => u.length ≤ n → ∀ callee i,
    ∃ e j, ReadsExpr (.calls callee) e u i j a) ?_ ?_ h hl callee i
  · exact fun _ callee i => ⟨callee, i, .noCall ha⟩
  · intro u v hu _ ihv hl callee i
    simp only [callForm, Form.all, derives_seq, derives_punct] at hu
    obtain ⟨_, _, rfl, ⟨o, rfl, ho⟩, x, _, rfl, hx, c, rfl, hc⟩ := hu
    simp only [List.length_append, List.length_cons] at hl
    rcases derives_opt.1 hx with rfl | hx
    · obtain ⟨e, j, he⟩ := ihv (by omega) (.call callee c []) i
      exact ⟨e, j, .callWithout ho hc he⟩
    · obtain ⟨y, z, rfl, hy, hz⟩ := derives_seq.1 (derives_rule.1 hx)
      obtain ⟨es, k, hes⟩ := reads_args ih _ 0 hy hz (by omega) (by decide) i
      obtain ⟨e, j, he⟩ := ihv (by omega) (.call callee c es) k
      refine ⟨e, j, ?_⟩
      have hr := ReadsExpr.callWith ho (readsExpr_arguments.2
        ⟨es, y ++ z, c, v, k, rfl, hc ▸ hes, hc, he⟩)
      simpa using hr

lemma reads_primary {u : List Token} (h : Derives (rule .primary) u) (hl : u.length ≤ n)
    (i : SiteId) (a : Ahead) : ∃ e j, ReadsExpr .primary e u i j a := by
  have hlit : ∀ {t : Token} {v : Literal}, literal? t.type = some v →
      ∃ e j, ReadsExpr .primary e [t] i j a := fun h => ⟨_, i, .literal h⟩
  rw [derives_rule] at h
  simp only [grammar, Form.any, Form.all, derives_alt, derives_number, derives_string,
    derives_keyword, derives_identifier, derives_seq, derives_punct] at h
  rcases h with ⟨t, x, rfl, ht⟩ | ⟨t, x, rfl, ht⟩ | ⟨t, rfl, ht⟩ | ⟨t, rfl, ht⟩ | ⟨t, rfl, ht⟩ |
    ⟨t, rfl, ht⟩ | ⟨_, _, rfl, ⟨o, rfl, ho⟩, v, _, rfl, hv, c, rfl, hc⟩
  · exact hlit (v := .number x) (by rw [ht]; rfl)
  · exact hlit (v := .string x) (by rw [ht]; rfl)
  · exact hlit (v := .bool true) (by rw [ht]; rfl)
  · exact hlit (v := .bool false) (by rw [ht]; rfl)
  · exact hlit (v := .nil) (by rw [ht]; rfl)
  · exact ⟨_, _, .name ht⟩
  · simp only [List.length_append, List.length_cons] at hl
    obtain ⟨e, j, he⟩ := ih v (by omega) hv i (some c.type)
      (by rw [hc]; exact closes_punct (.inr (.inl rfl)))
    exact ⟨_, j, .grouping ho he hc⟩

lemma reads_unary {u : List Token} (h : Derives (rule .unary) u) (hl : u.length ≤ n) (i : SiteId)
    {a : Ahead} (ha : a ≠ some (.punct .leftParen)) : ∃ e j, ReadsExpr .unary e u i j a := by
  induction hm : u.length using Nat.strongRecOn generalizing u i with
  | ind m ihm =>
    rw [derives_rule] at h
    simp only [grammar, Form.any, Form.all, derives_alt, derives_seq, derives_punct] at h
    rcases h with ⟨s, v, rfl, ho, hv⟩ | h
    · obtain ⟨op, rfl, hop⟩ : ∃ t : Token, s = [t] ∧ isUnary t.type = true := by
        rcases ho with ⟨t, rfl, ht⟩ | ⟨t, rfl, ht⟩ <;> exact ⟨t, rfl, by rw [ht]; rfl⟩
      rw [List.length_append, List.length_singleton] at hl hm
      obtain ⟨e, j, he⟩ := ihm v.length (by omega) hv (by omega) i rfl
      exact ⟨_, j, .sign hop he⟩
    · obtain ⟨v, w, rfl, hv, hw⟩ := derives_seq.1 (derives_rule.1 h)
      rw [List.length_append] at hl
      obtain ⟨f, k, hf⟩ := reads_primary ih hv (by omega) i (ahead w a)
      obtain ⟨e, j, he⟩ := reads_calls ih hw (by omega) f k ha
      exact ⟨e, j, .call hf he⟩

lemma reads_joined (ls : List Level) (hs : ls <:+ levels) {u : List Token}
    (h : Derives (rule (levelRule ls.length)) u) (hl : u.length ≤ n) (i : SiteId) {a : Ahead}
    (ha : Ends ls a) : ∃ e j, ReadsExpr (.joined ls) e u i j a := by
  induction ls generalizing u i a with
  | nil =>
    obtain ⟨e, j, he⟩ := reads_unary ih h hl i ha.call
    exact ⟨e, j, .tightest he⟩
  | cons l tighter ihl =>
    have hs' := (List.suffix_cons l tighter).trans hs
    obtain ⟨operators, hg, ho⟩ := grammar_level hs
    rw [List.length_cons, derives_rule, hg] at h
    obtain ⟨v, w, rfl, hv, hw⟩ := derives_seq.1 h
    -- What follows an operand is an operator of this level, or what follows the whole.
    have hnext : Ends tighter (ahead w a) := by
      refine many_induction (P := fun w => Ends tighter (ahead w a)) ha.tail ?_ hw
      intro x y hx _ _
      obtain ⟨_, z, rfl, hop, _⟩ := derives_seq.1 hx
      obtain ⟨t, rfl, ht⟩ := (ho _).1 hop
      exact ends_of_allows hs ht
    rw [List.length_append] at hl
    obtain ⟨first, k, hf⟩ := ihl hs' hv (by omega) i hnext
    have hrest : ∀ left i, ∃ e j, ReadsExpr (.operations l tighter left) e w i j a := by
      refine (many_induction (P := fun w => w.length ≤ n → Ends tighter (ahead w a) ∧
        ∀ left i, ∃ e j, ReadsExpr (.operations l tighter left) e w i j a) ?_ ?_ hw (by omega)).2
      · exact fun _ => ⟨ha.tail, fun left i =>
          ⟨left, i, .noOperator (ha.operator l List.mem_cons_self)⟩⟩
      · intro x y hx _ ihy hl
        obtain ⟨_, z, rfl, hop, hz⟩ := derives_seq.1 hx
        obtain ⟨t, rfl, ht⟩ := (ho _).1 hop
        simp only [List.length_append, List.length_cons] at hl
        obtain ⟨hy, ihy⟩ := ihy (by omega)
        refine ⟨ends_of_allows hs ht, fun left i => ?_⟩
        obtain ⟨right, k, hr⟩ := ihl hs' hz (by omega) i hy
        obtain ⟨e, j, he⟩ := ihy (l.node left t right) k
        exact ⟨e, j, .operator ht hr he⟩
    obtain ⟨e, j, he⟩ := hrest first k
    exact ⟨e, j, .level hf he⟩

lemma reads_assignment {u : List Token} (h : Derives (rule .assignment) u) (hl : u.length ≤ n)
    (i : SiteId) {a : Ahead} (ha : Closes a) : ∃ e j, ReadsExpr .expression e u i j a := by
  rw [derives_rule] at h
  simp only [grammar, Form.any, Form.all, derives_alt, derives_seq, derives_identifier,
    derives_punct] at h
  rcases h with ⟨_, _, rfl, ⟨x, rfl, hx⟩, _, v, rfl, ⟨eq, rfl, heq⟩, hv⟩ | h
  · simp only [List.length_append, List.length_cons] at hl
    obtain ⟨e, j, he⟩ := ih v (by omega) (.rule hv) (i + 1) a ha
    exact ⟨_, _, .assign (reads_name hx i levels (heq ▸ ends_equal)) heq he⟩
  · obtain ⟨e, j, he⟩ := reads_joined ih levels List.suffix_rfl h hl i ha.toEnds
    exact ⟨e, j, .operand he ha.assign⟩

end

theorem reads_shorter (n : ℕ) : ReadsShorter n := by
  induction n with
  | zero => exact fun u hl => absurd hl (Nat.not_lt_zero _)
  | succ n ih => exact fun u hl h i a ha =>
      reads_assignment ih (derives_rule.1 h) (Nat.le_of_lt_succ hl) i ha

lemma reads_expression {u : List Token} (h : Derives (rule .expression) u) {p : Punct}
    (hp : p = .semicolon ∨ p = .rightParen ∨ p = .comma) {t : Token} (ht : t.type = .punct p)
    (i : SiteId) : ∃ e j, ReadsExpr .expression e u i j (some t.type) := by
  rw [ht]
  exact reads_shorter _ u (Nat.lt_succ_self _) h i _ (closes_punct hp)

lemma reads_optional {u : List Token} (h : Derives (opt (rule .expression)) u) {p : Punct}
    (hp : p = .semicolon ∨ p = .rightParen ∨ p = .comma) {t : Token} (ht : t.type = .punct p)
    (i : SiteId) : ∃ e j, ReadsOptional p e u i j (some t.type) := by
  rcases derives_opt.1 h with rfl | h
  · exact ⟨none, i, .none (congrArg some ht)⟩
  · obtain ⟨e, j, he⟩ := reads_expression h hp ht i
    exact ⟨some e, j, .some he⟩

lemma reads_exprStmt {u : List Token} (h : Derives (rule .exprStmt) u) (i : SiteId) :
    ∃ e v t j, u = v ++ [t] ∧ ReadsExpr .expression e v i j (some t.type) ∧
      t.type = .punct .semicolon := by
  rw [derives_rule] at h
  simp only [grammar, Form.all, derives_seq, derives_punct] at h
  obtain ⟨v, _, rfl, hv, t, rfl, ht⟩ := h
  obtain ⟨e, j, he⟩ := reads_expression hv (.inl rfl) ht i
  exact ⟨e, v, t, j, rfl, he, ht⟩

lemma reads_var {u : List Token} (h : Derives (rule .varDecl) u) (i : SiteId) (a : Ahead) :
    ∃ k v s j, u = k :: v ∧ k.type = .keyword .kwVar ∧ ReadsVar s v i j a := by
  rw [derives_rule] at h
  simp only [grammar, Form.all, derives_seq, derives_punct, derives_keyword, derives_identifier,
    derives_opt] at h
  obtain ⟨_, _, rfl, ⟨k, rfl, hk⟩, _, _, rfl, ⟨x, rfl, hx⟩, _, _, rfl, hi, t, rfl, ht⟩ := h
  rcases hi with rfl | ⟨_, v, rfl, ⟨eq, rfl, heq⟩, hv⟩
  · exact ⟨k, _, _, i, rfl, hk, .plain hx ht⟩
  · obtain ⟨e, j, he⟩ := reads_expression hv (.inl rfl) ht i
    exact ⟨k, _, _, j, rfl, hk, .initialized hx heq he ht⟩

lemma reads_initializer {u : List Token}
    (h : Derives (any (rule .varDecl) [rule .exprStmt, punct .semicolon]) u) (i : SiteId)
    (a : Ahead) : ∃ s j, ReadsInitializer s u i j a := by
  simp only [Form.any, derives_alt, derives_punct] at h
  rcases h with h | h | ⟨t, rfl, ht⟩
  · obtain ⟨k, v, s, j, rfl, hk, hs⟩ := reads_var h i a
    exact ⟨_, j, .var hk hs⟩
  · obtain ⟨e, v, t, j, rfl, he, ht⟩ := reads_exprStmt h i
    exact ⟨_, j, .expression he ht⟩
  · exact ⟨_, i, .none ht⟩

lemma reads_params (k m : ℕ) {x : Token} {w : List Token} (hx : x.type = .identifier)
    (hw : Derives (upTo k (all (punct .comma) [identifier])) w) (hm : m + k < maxArity)
    (i : SiteId) : ∃ xs, ReadsParams m xs (x :: w) i i (some (.punct .rightParen)) := by
  induction k generalizing m x w with
  | zero =>
    cases hw
    exact ⟨[x], .last (by omega) hx (by simp)⟩
  | succ k ihk =>
    cases hw with
    | upToNil => exact ⟨[x], .last (by omega) hx (by simp)⟩
    | upToCons hy hw =>
      simp only [Form.all, derives_seq, derives_punct, derives_identifier] at hy
      obtain ⟨_, _, rfl, ⟨t, rfl, ht⟩, y, rfl, hy⟩ := hy
      obtain ⟨xs, hxs⟩ := ihk (m + 1) hy hw (by omega)
      exact ⟨x :: xs, .more (by omega) hx ht hxs⟩

lemma reads_paramList {u : List Token} (h : Derives (opt (rule .parameters)) u) (i : SiteId)
    {t : Token} (ht : t.type = .punct .rightParen) :
    ∃ xs, ReadsParamList xs u i i (some t.type) := by
  rw [ht]
  rcases derives_opt.1 h with rfl | h
  · exact ⟨[], .none rfl⟩
  · obtain ⟨_, w, rfl, hx, hw⟩ := derives_seq.1 (derives_rule.1 h)
    obtain ⟨x, rfl, hident⟩ := derives_identifier.1 hx
    obtain ⟨xs, hxs⟩ := reads_params _ 0 hident hw (by decide) i
    exact ⟨xs, .some hxs⟩

def Readable (u : List Token) (a : Ahead) : Prop := ∀ i, ∃ s j, ReadsStmt s u i j a

structure LoopHead (head : List Token) : Prop where
  nonempty : head ≠ []
  derives : ∀ {u}, Derives (rule .statement) u → Derives (rule .statement) (head ++ u)
  reads : ∀ {u a}, Readable u a → Readable (head ++ u) a

structure IfHead (head : List Token) : Prop where
  nonempty : head ≠ []
  derives : ∀ {u}, Derives (rule .statement) u → Derives (rule .statement) (head ++ u)
  derives_else : ∀ {u v t}, Derives (rule .statement) u → t.type = .keyword .kwElse →
    Derives (rule .statement) v → Derives (rule .statement) (head ++ (u ++ t :: v))
  reads : ∀ {u a}, Readable u a → a ≠ some (.keyword .kwElse) → Readable (head ++ u) a
  reads_else : ∀ {u v t a}, Readable u (some (.keyword .kwElse)) → t.type = .keyword .kwElse →
    Readable v a → Readable (head ++ (u ++ t :: v)) a

inductive Shape (u : List Token) : Prop
  | simple : (∀ a, Readable u a) → Shape u
  | loop {head body} : LoopHead head → u = head ++ body → Derives (rule .statement) body → Shape u
  | ifThen {head body} : IfHead head → u = head ++ body → Derives (rule .statement) body → Shape u
  | ifElse {head v t w} : IfHead head → u = head ++ (v ++ t :: w) → t.type = .keyword .kwElse →
      Derives (rule .statement) v → Derives (rule .statement) w → Shape u

lemma whileHead {k o c : Token} {u : List Token} (hk : k.type = .keyword .kwWhile)
    (ho : o.type = .punct .leftParen) (hu : Derives (rule .expression) u)
    (hc : c.type = .punct .rightParen) : LoopHead (k :: o :: (u ++ [c])) where
  nonempty := List.cons_ne_nil _ _
  derives {v} hv := by
    have h : Derives (rule .whileStmt) (k :: o :: (u ++ c :: v)) :=
      .rule (.seq (.keyword hk) (.seq (.punct ho) (.seq hu (.seq (.punct hc) hv))))
    rw [List.append_cons] at h
    exact .rule (.right (.right (.right (.right (.right (.left h))))))
  reads {v a} hv i := by
    obtain ⟨e, m, he⟩ := reads_expression hu (.inr (.inl rfl)) hc i
    obtain ⟨s, j, hs⟩ := hv m
    have h := ReadsStmt.rule (.loop hk ho he hc hs)
    rw [List.append_cons] at h
    exact ⟨_, j, h⟩

lemma forHead {k o s c : Token} {u v w : List Token} (hk : k.type = .keyword .kwFor)
    (ho : o.type = .punct .leftParen)
    (hu : Derives (any (rule .varDecl) [rule .exprStmt, punct .semicolon]) u)
    (hv : Derives (opt (rule .expression)) v) (hs : s.type = .punct .semicolon)
    (hw : Derives (opt (rule .expression)) w) (hc : c.type = .punct .rightParen) :
    LoopHead (k :: o :: (u ++ (v ++ s :: (w ++ [c])))) where
  nonempty := List.cons_ne_nil _ _
  derives {x} hx := by
    have h : Derives (rule .forStmt) (k :: o :: (u ++ (v ++ s :: (w ++ c :: x)))) :=
      .rule (.seq (.keyword hk) (.seq (.punct ho) (.seq hu (.seq hv (.seq (.punct hs)
        (.seq hw (.seq (.punct hc) hx)))))))
    have h' : Derives (rule .statement) (k :: o :: (u ++ (v ++ s :: (w ++ c :: x)))) :=
      .rule (.right (.left h))
    simpa using h'
  reads {x a} hx i := by
    obtain ⟨init, m, hi⟩ := reads_initializer hu i (ahead v (some s.type))
    obtain ⟨e, m', he⟩ := reads_optional hv (.inl rfl) hs m
    obtain ⟨f, m'', hf⟩ := reads_optional hw (.inr (.inl rfl)) hc m'
    obtain ⟨b, j, hb⟩ := hx m''
    have h := ReadsStmt.rule (.forLoop hk ho hi he hs hf hc hb)
    exact ⟨_, j, by simpa using h⟩

lemma ifHead {k o c : Token} {u : List Token} (hk : k.type = .keyword .kwIf)
    (ho : o.type = .punct .leftParen) (hu : Derives (rule .expression) u)
    (hc : c.type = .punct .rightParen) : IfHead (k :: o :: (u ++ [c])) where
  nonempty := List.cons_ne_nil _ _
  derives {v} hv := by
    have h : Derives (rule .ifStmt) (k :: o :: (u ++ c :: v)) :=
      .rule (.seq (.keyword hk) (.seq (.punct ho) (.seq hu
        (.seq (.punct hc) (derives_seq_nil hv .absent)))))
    rw [List.append_cons] at h
    exact .rule (.right (.right (.left h)))
  derives_else {v w t} hv ht hw := by
    have h : Derives (rule .ifStmt) (k :: o :: (u ++ c :: (v ++ t :: w))) :=
      .rule (.seq (.keyword hk) (.seq (.punct ho) (.seq hu
        (.seq (.punct hc) (.seq hv (.present (.seq (.keyword ht) hw)))))))
    rw [List.append_cons] at h
    exact .rule (.right (.right (.left h)))
  reads {v a} hv ha i := by
    obtain ⟨e, m, he⟩ := reads_expression hu (.inr (.inl rfl)) hc i
    obtain ⟨s, j, hs⟩ := hv m
    have h := ReadsStmt.rule (.ifThen hk ho he hc hs ha)
    rw [List.append_cons] at h
    exact ⟨_, j, h⟩
  reads_else {v w t a} hv ht hw i := by
    obtain ⟨e, m, he⟩ := reads_expression hu (.inr (.inl rfl)) hc i
    obtain ⟨s, m', hs⟩ := hv m
    obtain ⟨s', j, hs'⟩ := hw m'
    rw [← ht] at hs
    have h := ReadsStmt.rule (.ifElse hk ho he hc hs ht hs')
    rw [List.append_cons] at h
    exact ⟨_, j, h⟩

def BlocksShorter (n : ℕ) : Prop :=
  ∀ u, u.length < n → Derives (many (rule .declaration)) u → ∀ i a, a ≠ some (.keyword .kwElse) →
    ∃ b j, ReadsDecls b u i j a

section

variable {n : ℕ} (ih : BlocksShorter n)

include ih

lemma reads_block {u : List Token} (h : Derives (rule .block) u) (hl : u.length ≤ n) :
    ∃ o v c, u = o :: (v ++ [c]) ∧ o.type = .punct .leftBrace ∧ c.type = .punct .rightBrace ∧
      ∀ i, ∃ b j, ReadsDecls b v i j (some c.type) := by
  rw [derives_rule] at h
  simp only [grammar, Form.all, derives_seq, derives_punct] at h
  obtain ⟨_, _, rfl, ⟨o, rfl, ho⟩, v, _, rfl, hv, c, rfl, hc⟩ := h
  simp only [List.length_append, List.length_cons] at hl
  refine ⟨o, v, c, rfl, ho, hc, fun i => ih v (by omega) hv i _ ?_⟩
  rw [hc]
  simp

lemma shape_of_derives {u : List Token} (h : Derives (rule .statement) u) (hl : u.length ≤ n) :
    Shape u := by
  rw [derives_rule] at h
  simp only [grammar, Form.any, derives_alt] at h
  rcases h with h | h | h | h | h | h | h
  · refine .simple fun a i => ?_
    obtain ⟨e, v, t, j, rfl, he, ht⟩ := reads_exprStmt h i
    exact ⟨_, j, .expression he ht⟩
  · rw [derives_rule] at h
    simp only [grammar, Form.all, derives_seq, derives_punct, derives_keyword] at h
    obtain ⟨_, _, rfl, ⟨k, rfl, hk⟩, _, _, rfl, ⟨o, rfl, ho⟩, u, _, rfl, hu, v, _, rfl, hv, _, _,
      rfl, ⟨s, rfl, hs⟩, w, _, rfl, hw, _, x, rfl, ⟨c, rfl, hc⟩, hx⟩ := h
    exact .loop (forHead hk ho hu hv hs hw hc) (by simp) hx
  · rw [derives_rule] at h
    simp only [grammar, Form.all, derives_seq, derives_punct, derives_keyword, derives_opt] at h
    obtain ⟨_, _, rfl, ⟨k, rfl, hk⟩, _, _, rfl, ⟨o, rfl, ho⟩, u, _, rfl, hu, _, _, rfl,
      ⟨c, rfl, hc⟩, v, _, rfl, hv, rfl | ⟨_, w, rfl, ⟨t, rfl, ht⟩, hw⟩⟩ := h
    · exact .ifThen (ifHead hk ho hu hc) (by simp) hv
    · exact .ifElse (ifHead hk ho hu hc) (by simp) ht hv hw
  · rw [derives_rule] at h
    simp only [grammar, Form.all, derives_seq, derives_punct, derives_keyword] at h
    obtain ⟨_, _, rfl, ⟨k, rfl, hk⟩, u, _, rfl, hu, t, rfl, ht⟩ := h
    refine .simple fun a i => ?_
    obtain ⟨e, j, he⟩ := reads_expression hu (.inl rfl) ht i
    exact ⟨_, j, .rule (.print hk he ht)⟩
  · rw [derives_rule] at h
    simp only [grammar, Form.all, derives_seq, derives_punct, derives_keyword] at h
    obtain ⟨_, _, rfl, ⟨k, rfl, hk⟩, u, _, rfl, hu, t, rfl, ht⟩ := h
    refine .simple fun a i => ?_
    obtain ⟨e, j, he⟩ := reads_optional hu (.inl rfl) ht i
    exact ⟨_, j, .rule (.ret hk he ht)⟩
  · rw [derives_rule] at h
    simp only [grammar, Form.all, derives_seq, derives_punct, derives_keyword] at h
    obtain ⟨_, _, rfl, ⟨k, rfl, hk⟩, _, _, rfl, ⟨o, rfl, ho⟩, u, _, rfl, hu, _, v, rfl,
      ⟨c, rfl, hc⟩, hv⟩ := h
    exact .loop (whileHead hk ho hu hc) (by simp) hv
  · obtain ⟨o, v, c, rfl, ho, hc, hv⟩ := reads_block ih h hl
    refine .simple fun a i => ?_
    obtain ⟨b, j, hb⟩ := hv i
    exact ⟨_, j, .rule (.block ho hb hc)⟩

lemma takes_else {u : List Token} (h : Derives (rule .statement) u) (hl : u.length ≤ n) :
    Readable u (some (.keyword .kwElse)) ∨ ∀ t w, t.type = .keyword .kwElse →
      Derives (rule .statement) w → Derives (rule .statement) (u ++ t :: w) := by
  induction hm : u.length using Nat.strongRecOn generalizing u with
  | ind m ihm =>
    cases shape_of_derives ih h hl with
    | simple hr => exact .inl (hr _)
    | @loop head body hh hu hb =>
      have hpos := List.length_pos_iff.2 hh.nonempty
      rw [hu, List.length_append] at hl hm
      rcases ihm body.length (by omega) hb (by omega) rfl with hr | hd
      · exact .inl (hu ▸ hh.reads hr)
      · refine .inr fun t w ht hw => ?_
        rw [hu, List.append_assoc]
        exact hh.derives (hd t w ht hw)
    | ifThen hh hu hb =>
      refine .inr fun t w ht hw => ?_
      rw [hu, List.append_assoc]
      exact hh.derives_else hb ht hw
    | @ifElse head v t w hh hu ht hv hw =>
      have hpos := List.length_pos_iff.2 hh.nonempty
      rw [hu] at hl hm
      simp only [List.length_append, List.length_cons] at hl hm
      rcases ihm w.length (by omega) hw (by omega) rfl with hrw | hdw
      · rcases ihm v.length (by omega) hv (by omega) rfl with hrv | hdv
        · exact .inl (hu ▸ hh.reads_else hrv ht hrw)
        · refine .inr fun t' w' ht' hw' => ?_
          rw [hu, List.append_assoc]
          exact hh.derives_else (hdv t w ht hw) ht' hw'
      · refine .inr fun t' w' ht' hw' => ?_
        rw [hu, List.append_assoc, List.append_assoc, List.cons_append]
        exact hh.derives_else hv ht (hdw t' w' ht' hw')

lemma readable_of_derives {u : List Token} (h : Derives (rule .statement) u) (hl : u.length ≤ n)
    {a : Ahead} (ha : a ≠ some (.keyword .kwElse)) : Readable u a := by
  induction hm : u.length using Nat.strongRecOn generalizing u with
  | ind m ihm =>
    cases shape_of_derives ih h hl with
    | simple hr => exact hr a
    | @loop head body hh hu hb =>
      have hpos := List.length_pos_iff.2 hh.nonempty
      rw [hu, List.length_append] at hl hm
      rw [hu]
      exact hh.reads (ihm body.length (by omega) hb (by omega) rfl)
    | @ifThen head body hh hu hb =>
      have hpos := List.length_pos_iff.2 hh.nonempty
      rw [hu, List.length_append] at hl hm
      rw [hu]
      exact hh.reads (ihm body.length (by omega) hb (by omega) rfl) ha
    | @ifElse head v t w hh hu ht hv hw =>
      have hpos := List.length_pos_iff.2 hh.nonempty
      have hlen := congrArg List.length hu
      simp only [List.length_append, List.length_cons] at hlen
      rw [hu]
      rcases takes_else ih hv (by omega) with hr | hd
      · exact hh.reads_else hr ht (ihm w.length (by omega) hw (by omega) rfl)
      · have hb := hd t w ht hw
        refine hh.reads (ihm (v ++ t :: w).length ?_ hb ?_ rfl) ha <;>
          simp only [List.length_append, List.length_cons] <;> omega

lemma reads_decl {u : List Token} (h : Derives (rule .declaration) u) (hl : u.length ≤ n)
    (i : SiteId) {a : Ahead} (ha : a ≠ some (.keyword .kwElse)) : ∃ s j, ReadsDecl s u i j a := by
  rw [derives_rule] at h
  simp only [grammar, Form.any, derives_alt] at h
  rcases h with h | h | h
  · rw [derives_rule] at h
    simp only [grammar, Form.all, derives_seq, derives_punct, derives_keyword,
      derives_identifier] at h
    obtain ⟨_, _, rfl, ⟨k, rfl, hk⟩, _, _, rfl, ⟨x, rfl, hx⟩, _, _, rfl, ⟨o, rfl, ho⟩, p, _, rfl,
      hp, _, w, rfl, ⟨c, rfl, hc⟩, hw⟩ := h
    simp only [List.length_append, List.length_cons] at hl
    obtain ⟨b, v, d, rfl, hb, hd, hv⟩ := reads_block ih hw (by omega)
    obtain ⟨params, hps⟩ := reads_paramList hp i hc
    obtain ⟨body, j, hbody⟩ := hv i
    exact ⟨_, j, .function hk (.mk hx ho hps hc hb hbody hd)⟩
  · obtain ⟨k, v, s, j, rfl, hk, hs⟩ := reads_var h i a
    exact ⟨s, j, .var hk hs⟩
  · obtain ⟨s, j, hs⟩ := readable_of_derives ih h hl ha i
    exact ⟨s, j, .statement hs⟩

end

theorem blocks_shorter (n : ℕ) : BlocksShorter n := by
  induction n with
  | zero => exact fun u hl => absurd hl (Nat.not_lt_zero _)
  | succ n ih =>
    intro u hl h i a ha
    refine many_induction (P := fun u => u.length ≤ n → ∀ i, ∃ b j, ReadsDecls b u i j a) ?_ ?_ h
      (Nat.le_of_lt_succ hl) i
    · exact fun _ i => ⟨[], i, .nil⟩
    · intro u v hu _ ihv hl i
      rw [List.length_append] at hl
      obtain ⟨_, _, hb⟩ := ihv (by omega) i
      obtain ⟨s, k, hs⟩ := reads_decl ih hu (by omega) i (hb.ahead_ne_else ha)
      obtain ⟨b, j, hb⟩ := ihv (by omega) k
      exact ⟨s :: b, j, .cons hs hb⟩

theorem reads_iff_derives (u : List Token) (i : SiteId) :
    (∃ b j, ReadsDecls b u i j none) ↔ Derives (rule .program) u := by
  constructor
  · rintro ⟨b, j, h⟩
    exact .rule (decls_derive h)
  · intro h
    exact blocks_shorter _ u (Nat.lt_succ_self _) (derives_rule.1 h) i none nofun

end Lox.Grammar.Ebnf
