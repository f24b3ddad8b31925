import Lox.Proofs.Semicolon.Statements

/-! What becomes of a statement, and of a declaration, without a semicolon that stands in it. -/

namespace Lox.Grammar

open Ebnf

section

variable {p q u v x : List Token} {s s' : Token}

lemma split_append (h : p ++ q = u ++ s :: v) : (∃ u', u = p ++ u' ∧ q = u' ++ s :: v) ∨
    ∃ v', p = u ++ s :: v' ∧ v = v' ++ q := by
  obtain h | ⟨bs, rfl, hb⟩ := List.append_eq_append_iff.1 h
  · exact .inl h
  · cases bs with
    | nil => exact .inl ⟨[], by simp, hb.symm⟩
    | cons b bs =>
      cases hb
      exact .inr ⟨bs, rfl, rfl⟩

variable (hs : s.type = .punct .semicolon)

include hs

lemma split_plain (hp : ∀ t ∈ p, t.type ≠ .punct .semicolon) (h : p ++ q = u ++ s :: v) :
    ∃ u', u = p ++ u' ∧ q = u' ++ s :: v := by
  refine (split_append h).resolve_right ?_
  rintro ⟨v', rfl, -⟩
  exact hp s (List.mem_append_right u List.mem_cons_self) hs

lemma split_last (hx : ∀ t ∈ x, t.type ≠ .punct .semicolon) (h : x ++ s' :: q = u ++ s :: v) :
    (u = x ∧ v = q) ∨ ∃ u', u = x ++ s' :: u' ∧ q = u' ++ s :: v := by
  obtain ⟨u', rfl, hq⟩ := split_plain hs hx h
  cases u' with
  | nil =>
    cases hq
    exact .inl ⟨List.append_nil x, rfl⟩
  | cons t u' =>
    cases hq
    exact .inr ⟨u', rfl, rfl⟩

lemma split_close (hs' : s'.type ≠ .punct .semicolon) (h : x ++ [s'] = u ++ s :: v) :
    ∃ v', x = u ++ s :: v' ∧ v = v' ++ [s'] := by
  refine (split_append h).resolve_left ?_
  rintro ⟨u', -, h⟩
  obtain ⟨rfl, h⟩ := List.append_eq_singleton_iff.1 h.symm |>.resolve_right (by simp)
  cases h
  exact hs' hs

end

/-- A semicolon behind these tokens that no parenthesis is open before does not stand in them. -/
def Skips (p : List Token) : Prop := nesting p = 0 ∧ ∀ {q u v : List Token} {s : Token},
  s.type = .punct .semicolon → nesting u = 0 → p ++ q = u ++ s :: v →
    ∃ u', u = p ++ u' ∧ q = u' ++ s :: v

lemma skips_plain {p : List Token} (hp : ∀ t ∈ p, t.type ≠ .punct .semicolon)
    (hnest : nesting p = 0) : Skips p :=
  ⟨hnest, fun hs _ h => split_plain hs hp h⟩

lemma Skips.split {p q u v : List Token} {s : Token} (hp : Skips p)
    (hs : s.type = .punct .semicolon) (hu : nesting u = 0) (h : p ++ q = u ++ s :: v) :
    ∃ u', u = p ++ u' ∧ nesting u' = 0 ∧ q = u' ++ s :: v := by
  obtain ⟨u', rfl, hq⟩ := hp.2 hs hu h
  rw [nesting_append, hp.1, Int.zero_add] at hu
  exact ⟨u', rfl, hu, hq⟩

structure Escapes {α : Type} (rule : Parse α) (u w k : List Token) : Prop where
  fails : Fails rule u (w ++ k)
  skipped : Skipped k w
  ne_else : ahead k none ≠ some (.keyword .kwElse)

/-- Without a semicolon that no parenthesis is open before, a statement is not ended, or the error
is noted inside. At an `else` it is the `if` around that fails. -/
structure Broken {α : Type} (rule : ℕ → Parse α) (w : List Token) (a : Ahead) : Prop where
  last : ∀ {u s}, w = u ++ [s] → s.type = .punct .semicolon → nesting u = 0 → ∀ n,
    Unended n (rule n) u
  inner : ∀ {u v s t}, w = u ++ s :: t :: v → s.type = .punct .semicolon → nesting u = 0 →
    ∀ {n k}, Harmless (t :: v ++ k) → (u ++ t :: v ++ k).length < n → ahead k none = a →
      Meets (some 1) (rule n) (u ++ t :: v) k ∨ Escapes (rule n) u (t :: v) k

variable {α β : Type} {rule : ℕ → Parse α} {rule' : ℕ → Parse β} {w p : List Token} {a : Ahead}

lemma unended_zero {x : Parse α} {u : List Token} : Unended 0 x u :=
  fun _ _ _ _ hl => absurd hl (Nat.not_lt_zero _)

lemma Broken.simple {s : Token} (hw : ∀ t ∈ w, t.type ≠ .punct .semicolon)
    (h : ∀ n, Unended (n + 1) (rule (n + 1)) w) : Broken rule (w ++ [s]) a where
  last hw' hs' _ n := by
    obtain ⟨rfl, -⟩ | ⟨u', -, h'⟩ := split_last hs' hw hw'
    · cases n with
      | zero => exact unended_zero
      | succ n => exact h n
    · simp at h'
  inner hw' hs' _ := by
    obtain ⟨-, h'⟩ | ⟨u', -, h'⟩ := split_last hs' hw hw' <;> simp at h'

lemma Broken.wrap {q : Ahead → Prop} (h : Broken rule w a) (hp : Skips p) (hne : p ≠ [])
    (hw : ∀ n, Wraps (n + 1) q p (rule n) (rule' (n + 1)))
    (hq : ∀ b, b ≠ some (.keyword .kwElse) → q b) (ha : q a) : Broken rule' (p ++ w) a where
  last hw' hs hnest n := by
    obtain ⟨u', rfl, hu', rfl⟩ := hp.split hs hnest hw'
    cases n with
    | zero => exact unended_zero
    | succ n =>
      have hpos := List.length_pos_iff.2 hne
      exact (h.last rfl hs hu' n).wrap (hw n) (by omega) hq
  inner {u v s t} hw' hs hnest n k ht hl hk := by
    obtain ⟨u', rfl, hu', rfl⟩ := hp.split hs hnest hw'
    cases n with
    | zero => exact absurd hl (Nat.not_lt_zero _)
    | succ n =>
      have hpos := List.length_pos_iff.2 hne
      have hl' : (u' ++ t :: v ++ k).length < n := by simp at hl ⊢; omega
      refine (h.inner rfl hs hu' ht hl' hk).imp (fun hm => ?_) fun he => ?_
      · rw [List.append_assoc]
        exact hw n _ _ _ (by simpa using hl) (fun _ => hk ▸ ha) hm
      · exact ⟨hw n _ _ _ (by simpa using hl) nofun he.fails, he.skipped, he.ne_else⟩

section

variable {n : ℕ} {u k : List Token} {t o s c l : Token} {e b v : List Token} {x : Stmt}
  {i j m m' : SiteId}

lemma reads_statement (h : ReadsStmt x w i j (ahead k none)) (hl : (w ++ k).length < n) :
    Reads (statement n) w k :=
  Meets.of_reads (Specifies.statement_exact n).1 (fun _ => (Shifts.statement_declaration n).1) hl h

lemma plain_ne {e : List Token} (he : Derives (.rule .expression) e) :
    ∀ t ∈ e, t.type ≠ .punct .semicolon := fun t ht => (plain_expression he t ht).1

lemma nesting_rule {r : Rule} {u : List Token} (h : Derives (.rule r) u) : nesting u = 0 :=
  nesting_of_derives h trivial

lemma broken_exprStmt (he : Derives (.rule .expression) e) : Broken statement (e ++ [s]) a := by
  refine .simple (plain_ne he) fun n => (unended_exprStmt he).same fun out v k h => ?_
  obtain ⟨t, y, rfl, ht⟩ := first_of_expression he
  exact Meets.takeNone (not_startsRule_of_expression ht) h

lemma broken_print (ht : t.type = .keyword .kwPrint) (he : Derives (.rule .expression) e) :
    Broken statement (t :: e ++ [s]) a := by
  refine .simple (List.forall_mem_cons.2 ⟨by rw [ht]; nofun, plain_ne he⟩) fun n => ?_
  have hwrap : Wraps (n + 1) (fun _ => True) [t] (printStmt (expression (n + 1)))
      (statement (n + 1)) := fun out u k _ _ h =>
    Meets.take (by rw [ht]; rfl) (by simp only [ht]; exact h)
  exact (unended_print he).wrap hwrap (Nat.le_add_right _ 1) fun _ _ => trivial

lemma broken_return (ht : t.type = .keyword .kwReturn)
    (he : Derives (.opt (.rule .expression)) e) : Broken statement (t :: e ++ [s]) a := by
  have hplain : ∀ t ∈ e, t.type ≠ .punct .semicolon := by
    obtain rfl | he := derives_opt.1 he
    · nofun
    · exact plain_ne he
  refine .simple (List.forall_mem_cons.2 ⟨by rw [ht]; nofun, hplain⟩) fun n => ?_
  have hwrap : Wraps (n + 1) (fun _ => True) [t] (returnStmt (expression (n + 1)) t)
      (statement (n + 1)) := fun out u k _ _ h =>
    Meets.take (by rw [ht]; rfl) (by simp only [ht]; exact h)
  exact (unended_return t he).wrap hwrap (Nat.le_add_right _ 1) fun _ _ => trivial

lemma skips_condition {kind : Keyword} (ht : t.type = .keyword kind)
    (ho : o.type = .punct .leftParen) (he : Derives (.rule .expression) e)
    (hc : c.type = .punct .rightParen) : Skips (t :: o :: (e ++ [c])) := by
  refine skips_plain ?_ ?_
  · simp only [List.forall_mem_cons, List.forall_mem_append, ht, ho, hc]
    exact ⟨nofun, nofun, plain_ne he, nofun, nofun⟩
  · simp [ht, ho, hc, nestingOf, nesting_rule he]

lemma Broken.loop (h : Broken statement w a) (ht : t.type = .keyword .kwWhile)
    (ho : o.type = .punct .leftParen) (he : Derives (.rule .expression) e)
    (hc : c.type = .punct .rightParen) : Broken statement (t :: o :: (e ++ [c]) ++ w) a :=
  h.wrap (skips_condition ht ho he hc) (List.cons_ne_nil _ _) (fun _ => wraps_while ho he hc ht)
    (fun _ _ => trivial) trivial

lemma Broken.ifThen (h : Broken statement w a) (ht : t.type = .keyword .kwIf)
    (ho : o.type = .punct .leftParen) (he : Derives (.rule .expression) e)
    (hc : c.type = .punct .rightParen) (ha : a ≠ some (.keyword .kwElse)) :
    Broken statement (t :: o :: (e ++ [c]) ++ w) a :=
  h.wrap (skips_condition ht ho he hc) (List.cons_ne_nil _ _) (fun _ => wraps_ifThen ho he hc ht)
    (fun _ hb => hb) ha

lemma split_branches {r y : List Token} (hp : Skips p) (hv : nesting v = 0)
    (hl : l.type = .keyword .kwElse) (hs : s.type = .punct .semicolon) (hr : nesting r = 0)
    (h : p ++ (v ++ l :: w) = r ++ s :: y) :
    (∃ r' v', r = p ++ r' ∧ nesting r' = 0 ∧ v = r' ++ s :: v' ∧ y = v' ++ l :: w) ∨
      ∃ r', r = p ++ (v ++ l :: r') ∧ nesting r' = 0 ∧ w = r' ++ s :: y := by
  obtain ⟨r', rfl, hr, h'⟩ := hp.split hs hr h
  obtain ⟨r'', rfl, h''⟩ | ⟨v', hv', hy⟩ := split_append h'
  · have hplain : ∀ t ∈ [l], t.type ≠ .punct .semicolon := by simp [hl]
    obtain ⟨r', rfl, hw⟩ := split_plain (p := [l]) hs hplain h''
    exact .inr ⟨r', rfl, by simpa [hv, hl, nestingOf] using hr, hw⟩
  · exact .inl ⟨r', v', rfl, hr, hv', hy⟩

lemma Broken.ifElse {y : Stmt} (h : Broken statement v (some l.type)) (h' : Broken statement w a)
    (ht : t.type = .keyword .kwIf) (ho : o.type = .punct .leftParen)
    (he : Derives (.rule .expression) e) (hc : c.type = .punct .rightParen)
    (hv : ReadsStmt x v i j (some l.type)) (hl : l.type = .keyword .kwElse)
    (hw : ReadsStmt y w m m' a) :
    Broken statement (t :: o :: (e ++ [c]) ++ (v ++ l :: w)) a := by
  have hhead := skips_condition ht ho he hc
  have hv₀ : nesting v = 0 := nesting_rule (stmt_derives hv)
  have helse : ∀ n, Wraps (n + 1) (fun _ => True) (t :: o :: (e ++ c :: (v ++ [l]))) (statement n)
      (statement (n + 1)) := fun n =>
    wraps_else ho he hc ht hl fun hlen => reads_statement hv hlen
  constructor
  · intro u s hsplit hs hnest n
    obtain ⟨-, v', -, -, -, hnil⟩ | ⟨r, rfl, hr, rfl⟩ := split_branches hhead hv₀ hl hs hnest hsplit
    · simp at hnil
    · cases n with
      | zero => exact unended_zero
      | succ n => simpa using (h'.last rfl hs hr n).wrap (helse n) (by simp) fun _ _ => trivial
  · intro u r s y hsplit hs hnest n k hy hlen hk
    cases n with
    | zero => exact absurd hlen (Nat.not_lt_zero _)
    | succ n =>
      obtain ⟨r', v', rfl, hr, rfl, hrest⟩ | ⟨r', rfl, hr, rfl⟩ :=
        split_branches hhead hv₀ hl hs hnest hsplit
      · cases v' with
        | nil =>
          cases hrest
          -- The error is at `else`, and the whole statement fails with its branch.
          right
          obtain ⟨hne, hskipped⟩ := skipped_otherwise hl (hk ▸ hw) hy
          have hlen' : (r' ++ (l :: w ++ k)).length < n := by simp at hlen ⊢; omega
          have hf := (h.last rfl hs hr n).fails hl hskipped hne hlen'
          have hall : Fails (statement (n + 1)) (t :: o :: (e ++ [c]) ++ r') (l :: w ++ k) :=
            wraps_ifThen ho he hc ht none r' _ (by simp at hlen ⊢; omega) nofun hf
          exact ⟨hall, hskipped, hne⟩
        | cons y' v' =>
          cases hrest
          have hlen' : (r' ++ y :: v' ++ (l :: w ++ k)).length < n := by simp at hlen ⊢; omega
          obtain hinner | he := h.inner rfl hs hr (by simpa using hy) hlen' rfl
          · have hall := meets_then ho he hc ht hl (by simp at hlen ⊢; omega) hinner
              (reads_statement (hk ▸ hw) (by simp at hlen ⊢; omega))
            exact .inl (by simpa using hall)
          · exact absurd (congrArg some hl) he.ne_else
      · have hlen' : (r' ++ y :: r ++ k).length < n := by simp at hlen ⊢; omega
        refine (h'.inner rfl hs hr hy hlen' hk).imp (fun hm => ?_) fun he => ?_
        · simpa using helse n _ _ _ (by simpa using hlen) (fun _ => trivial) hm
        · have hf := helse n _ _ _ (by simpa using hlen) (fun _ => trivial) he.fails
          exact ⟨by simpa using hf, he.skipped, he.ne_else⟩

lemma initializer_shape {init : Option Stmt} (h : ReadsInitializer init w i j a) :
    ∃ x s, w = x ++ [s] ∧ (∀ t ∈ x, t.type ≠ .punct .semicolon) ∧ s.type = .punct .semicolon ∧
      nesting x = 0 := by
  cases h with
  | @none s _ _ hs => exact ⟨[], s, rfl, List.forall_mem_nil _, hs, rfl⟩
  | @var k _ _ _ _ _ hk hv =>
    cases hv with
    | @plain name s _ _ hn hs =>
      refine ⟨[k, name], s, rfl, ?_, hs, by simp [hk, hn, nestingOf]⟩
      simp [hk, hn]
    | @initialized name eq e u s _ _ _ hn heq he hs =>
      have hd := derived_of_reads he
      refine ⟨k :: name :: eq :: u, s, rfl, ?_, hs, ?_⟩
      · simpa [hk, hn, heq] using plain_ne hd
      · simp [hk, hn, heq, nestingOf, nesting_rule hd]
  | expression he hs => exact ⟨_, _, rfl, plain_ne (derived_of_reads he), hs,
      nesting_rule (derived_of_reads he)⟩

lemma optional_shape {e : Option Expr} {p : Punct} (h : ReadsOptional p e w i j a) :
    (∀ t ∈ w, t.type ≠ .punct .semicolon) ∧ nesting w = 0 := by
  cases h with
  | none => exact ⟨nofun, rfl⟩
  | some he => exact ⟨plain_ne (derived_of_reads he), nesting_rule (derived_of_reads he)⟩

lemma skips_for {init : Option Stmt} {condition increment : Option Expr} {z : List Token}
    {n n' : SiteId} {b : Ahead} (ht : t.type = .keyword .kwFor) (ho : o.type = .punct .leftParen)
    (hz : ReadsInitializer init z i j b)
    (hv : ReadsOptional .semicolon condition v m m' (some s.type))
    (hs : s.type = .punct .semicolon)
    (hw : ReadsOptional .rightParen increment w n n' (some c.type))
    (hc : c.type = .punct .rightParen) : Skips (t :: o :: (z ++ (v ++ s :: (w ++ [c])))) := by
  obtain ⟨x, s₀, rfl, hx, hs₀, hx₀⟩ := initializer_shape hz
  obtain ⟨hv', hv₀⟩ := optional_shape hv
  obtain ⟨hw', hw₀⟩ := optional_shape hw
  have hopen : ∀ t' ∈ t :: o :: x, t'.type ≠ .punct .semicolon := by
    simp only [List.forall_mem_cons, ht, ho]
    exact ⟨nofun, nofun, hx⟩
  have hclose : ∀ t' ∈ w ++ [c], t'.type ≠ .punct .semicolon := by
    simp only [List.forall_mem_append, List.forall_mem_cons, hc]
    exact ⟨hw', nofun, nofun⟩
  refine ⟨by simp [ht, ho, hs, hs₀, hc, nestingOf, hx₀, hv₀, hw₀], fun {q u r s'} hs' hnest h => ?_⟩
  have h₁ : t :: o :: x ++ s₀ :: (v ++ s :: (w ++ [c] ++ q)) = u ++ s' :: r := by simpa using h
  obtain ⟨rfl, -⟩ | ⟨u₁, rfl, h₂⟩ := split_last hs' hopen h₁
  · simp [ht, ho, nestingOf, hx₀] at hnest
  · obtain ⟨rfl, -⟩ | ⟨u₂, rfl, h₃⟩ := split_last hs' hv' h₂
    · simp [ht, ho, hs₀, nestingOf, hx₀, hv₀] at hnest
    · obtain ⟨u₃, rfl, hq⟩ := split_plain hs' hclose h₃
      exact ⟨u₃, by simp, hq⟩

lemma Broken.forLoop {init : Option Stmt} {condition increment : Option Expr} {z r : List Token}
    {n n' : SiteId} (h : Broken statement r a) (ht : t.type = .keyword .kwFor)
    (ho : o.type = .punct .leftParen) (hz : ReadsInitializer init z i j (ahead v (some s.type)))
    (hv : ReadsOptional .semicolon condition v m m' (some s.type))
    (hs : s.type = .punct .semicolon)
    (hw : ReadsOptional .rightParen increment w n n' (some c.type))
    (hc : c.type = .punct .rightParen) :
    Broken statement (t :: o :: (z ++ (v ++ s :: (w ++ [c]))) ++ r) a :=
  h.wrap (skips_for ht ho hz hv hs hw hc) (List.cons_ne_nil _ _)
    (fun _ => wraps_for ht ho hz hv hs hw hc) (fun _ _ => trivial) trivial

def blockAt (n : ℕ) : Parse (List Stmt) := block (declaration n) (n + 1)

lemma Broken.block (h : Broken blockAt w a) (ht : t.type = .punct .leftBrace) :
    Broken statement (t :: w) a := by
  have hwrap : ∀ n, Wraps (n + 1) (fun _ => True) [t] (blockAt n) (statement (n + 1)) :=
    fun n out u k _ _ h => Meets.take (by rw [ht]; rfl) (by simp only [ht]; exact h.map Stmt.block)
  refine h.wrap (skips_plain ?_ ?_) (List.cons_ne_nil t []) hwrap (fun _ _ => trivial) trivial
  · exact List.forall_mem_singleton.2 (by rw [ht]; nofun)
  · simp [ht, nestingOf]

lemma wraps_var (ht : t.type = .keyword .kwVar) :
    Wraps n (fun _ => True) [t] (varDeclaration (expression n)) (declarationAt n) := by
  intro out u k hl _ h
  cases n with
  | zero => exact absurd hl (Nat.not_lt_zero _)
  | succ n =>
    refine Meets.acceptNone rfl ?_ (Meets.accept rfl ht h)
    rw [List.singleton_append, List.cons_append, ahead_cons, ht]
    nofun

lemma params_shape {xs p : List Token} (h : ReadsParamList xs p i j a) :
    (∀ t ∈ p, t.type ≠ .punct .semicolon) ∧ nesting p = 0 := by
  have hd := derives_paramList h
  obtain rfl | hp := derives_opt.1 hd
  · exact ⟨nofun, rfl⟩
  · refine ⟨fun t ht => ?_, nesting_rule hp⟩
    exact (plain_of_derives hp (by simp [Form.Plain, Form.InExpression]) t ht).1

lemma meets_params {out : Option ℕ} {f : List Token → Parse Stmt} {xs p u r : List Token}
    (hp : ReadsParamList xs p i j (some c.type)) (hc : c.type = .punct .rightParen)
    (hl : (p ++ (c :: u ++ r)).length < n + 1) (hf : ∀ xs, Meets out (f xs) (c :: u) r) :
    Meets out (facing (.punct .rightParen) >>= fun b => if b then pure [] >>= f else
      parameterList (n + 1) 0 >>= f) (p ++ c :: u) r := by
  cases hp with
  | none => exact Meets.facing rfl (congrArg some hc) (hf [])
  | some hp =>
    have hshifts : ∀ m, Shifts m id (parameterList (n + 1) 0) (parameterList (n + 1) 0) :=
      fun _ => Shifts.parameterList _ _
    have hparams : Reads (parameterList (n + 1) 0) p (c :: u ++ r) :=
      Meets.of_reads (Specifies.parameterList (n + 1) (n + 1) 0 (Nat.le_refl _)) hshifts hl hp
    refine Meets.notFacing rfl ?_ (hparams.after hf)
    cases hp with
    | last _ hx _ => rw [List.append_assoc, List.singleton_append, ahead_cons, hx]; nofun
    | more _ hx _ _ => rw [List.cons_append, List.cons_append, ahead_cons, hx]; nofun

lemma Broken.function {name o l : Token} {xs p : List Token} (h : Broken blockAt w a)
    (ht : t.type = .keyword .kwFun) (hn : name.type = .identifier) (ho : o.type = .punct .leftParen)
    (hp : ReadsParamList xs p i j (some c.type)) (hc : c.type = .punct .rightParen)
    (hl : l.type = .punct .leftBrace) :
    Broken declarationAt (t :: name :: o :: (p ++ [c, l]) ++ w) a := by
  obtain ⟨hp', hp₀⟩ := params_shape hp
  have hwrap : ∀ n, Wraps (n + 1) (fun _ => True) (t :: name :: o :: (p ++ [c, l])) (blockAt n)
      (declarationAt (n + 1)) := by
    intro n out u r hlen _ h
    have hbody : ∀ xs : List Token,
        Meets out (expect (.punct .rightParen) .parametersEnd >>= fun _ =>
          expect (.punct .leftBrace) .functionBody >>= fun _ => blockAt n >>= fun body =>
            pure (Stmt.function name xs body)) (c :: l :: u) r := fun xs =>
      Meets.expect rfl hc (Meets.expect rfl hl (h.thenPure _))
    have hall : Meets out (declarationAt (n + 1)) (t :: name :: o :: (p ++ c :: l :: u)) r :=
      Meets.accept rfl ht (Meets.expect rfl hn (Meets.expect rfl ho
        (meets_params hp hc (by simp at hlen ⊢; omega) hbody)))
    simpa using hall
  refine h.wrap (skips_plain ?_ ?_) (List.cons_ne_nil _ _) hwrap (fun _ _ => trivial) trivial
  · simp only [List.forall_mem_cons, List.forall_mem_append, ht, hn, ho, hc, hl]
    exact ⟨nofun, nofun, nofun, hp', nofun, nofun, nofun⟩
  · simp [ht, hn, ho, hc, hl, nestingOf, hp₀]

lemma broken_var {v : List Token} (ht : t.type = .keyword .kwVar) (h : ReadsVar x v i j a) :
    Broken declarationAt (t :: v) a := by
  cases h with
  | @plain name s _ _ hn hs =>
    have hplain : ∀ y ∈ [t, name], y.type ≠ .punct .semicolon := by simp [ht, hn]
    exact .simple hplain fun n => (unended_var hn).wrap (wraps_var ht) (Nat.le_add_right _ 1)
      fun _ _ => trivial
  | @initialized name eq e u s _ _ _ hn heq he hs =>
    have hd := derived_of_reads he
    have hplain : ∀ y ∈ t :: name :: eq :: u, y.type ≠ .punct .semicolon := by
      simp only [List.forall_mem_cons, ht, hn, heq]
      exact ⟨nofun, nofun, nofun, plain_ne hd⟩
    exact .simple hplain fun n => (unended_initializer hn heq hd).wrap (wraps_var ht)
      (Nat.le_add_right _ 1) fun _ _ => trivial

end

end Lox.Grammar
