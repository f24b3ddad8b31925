import Lox.Proofs.Grammar.Rules

/-! What a rule does with some tokens, it does with more tokens behind them, unless it takes them
all. -/

namespace Lox.Grammar

variable {α β : Type}

def Cursor.extend (more : List Token) (earlier : List SyntaxError) (c : Cursor) : Cursor :=
  ⟨c.rest ++ more, c.nextSite, c.errors ++ earlier⟩

def extendResult (more : List Token) (earlier : List SyntaxError) :
    EStateM.Result SyntaxError Cursor α → EStateM.Result SyntaxError Cursor α
  | .ok a c => .ok a (c.extend more earlier)
  | .error e c => .error e (c.extend more earlier)

/-- Here the first rule takes tokens off the front, and if it fails it blames the next one. With
more tokens behind the second rule does the same, unless the first took all there were. -/
structure FollowsAt (more : List Token) (earlier : List SyntaxError) (x y : Parse α) (c : Cursor) :
    Prop where
  suffix : (resultCursor (x c)).rest <:+ c.rest
  found : ∀ {e c'}, x c = .error e c' → e.found = c'.rest.head?
  same : more = [] ∨ (resultCursor (x c)).rest ≠ [] →
    y (c.extend more earlier) = extendResult more earlier (x c)

def Follows (more : List Token) (earlier : List SyntaxError) (n : ℕ) (x y : Parse α) : Prop :=
  ∀ c : Cursor, c.rest.length < n → FollowsAt more earlier x y c

variable {more : List Token} {earlier : List SyntaxError}

lemma bind_ok {x : Parse α} {f : α → Parse β} {c c' : Cursor} {a : α} (h : x c = .ok a c') :
    (x >>= f) c = f a c' := by
  change EStateM.bind x f c = _
  rw [EStateM.bind, h]

lemma bind_error {x : Parse α} {f : α → Parse β} {c c' : Cursor} {e : SyntaxError}
    (h : x c = .error e c') : (x >>= f) c = .error e c' := by
  change EStateM.bind x f c = _
  rw [EStateM.bind, h]

lemma FollowsAt.bind {x y : Parse α} {f g : α → Parse β} {c : Cursor}
    (hx : FollowsAt more earlier x y c)
    (hf : ∀ a c', x c = .ok a c' → FollowsAt more earlier (f a) (g a) c') :
    FollowsAt more earlier (x >>= f) (y >>= g) c := by
  obtain ⟨hsuffix, hfound, hsame⟩ := hx
  cases hc : x c with
  | error e c' =>
    have hb := bind_error (f := f) hc
    rw [hc] at hsuffix hsame
    refine ⟨by rwa [hb], fun h => ?_, fun h => ?_⟩
    · rw [hb] at h
      cases h
      exact hfound hc
    · rw [hb] at h ⊢
      exact bind_error (hsame h)
  | ok a c' =>
    have hb := bind_ok (f := f) hc
    have hfa := hf a c' hc
    rw [hc] at hsuffix hsame
    refine ⟨hb ▸ hfa.suffix.trans hsuffix, fun h => hfa.found (hb ▸ h), fun h => ?_⟩
    rw [hb] at h ⊢
    -- What is left at the end was left in between.
    have hleft : more = [] ∨ c'.rest ≠ [] :=
      h.imp_right fun hne hnil => hne (List.suffix_nil.1 (hnil ▸ hfa.suffix))
    rw [bind_ok (hsame hleft)]
    exact hfa.same h

lemma FollowsAt.suffix_of_ok {x y : Parse α} {c c' : Cursor} {a : α}
    (h : FollowsAt more earlier x y c) (ha : x c = .ok a c') : c'.rest <:+ c.rest := by
  have hs := h.suffix
  rwa [ha] at hs

lemma take?_none {ok : TokenType → Bool} {c c' : Cursor} (h : take? ok c = .ok none c') :
    c' = c ∧ c.rest.head?.any (ok ·.type) = false := by
  obtain ⟨_ | ⟨t, rest⟩, site, errors⟩ := c
  · cases h
    exact ⟨rfl, rfl⟩
  · rw [take?] at h
    split at h
    · cases h
    · next hok =>
      cases h
      exact ⟨rfl, eq_false_of_ne_true hok⟩

lemma take?_some {ok : TokenType → Bool} {c c' : Cursor} {t : Token}
    (h : take? ok c = .ok (some t) c') : c.rest = t :: c'.rest := by
  obtain ⟨_ | ⟨t, rest⟩, site, errors⟩ := c
  · cases h
  · rw [take?] at h
    split at h <;> cases h
    rfl

lemma head?_extend (earlier : List SyntaxError) {c : Cursor} (h : more = [] ∨ c.rest ≠ []) :
    (c.extend more earlier).rest.head? = c.rest.head? := by
  obtain ⟨_ | ⟨t, rest⟩, site, errors⟩ := c
  · obtain rfl | h := h
    · rfl
    · exact absurd rfl h
  · rfl

namespace Follows

variable {n m : ℕ} {x y : Parse α}

lemma mono (h : Follows more earlier n x y) (hm : m ≤ n) : Follows more earlier m x y :=
  fun c hc => h c (Nat.lt_of_lt_of_le hc hm)

lemma of_le_zero (h : n ≤ 0) : Follows more earlier n x y :=
  fun _ hc => absurd (Nat.lt_of_lt_of_le hc h) (Nat.not_lt_zero _)

lemma andThen {f g : α → Parse β} (hx : Follows more earlier n x y)
    (hf : ∀ a, Follows more earlier n (f a) (g a)) :
    Follows more earlier n (x >>= f) (y >>= g) := by
  refine fun c hc => (hx c hc).bind fun a c' ha => hf a c' (Nat.lt_of_le_of_lt ?_ hc)
  exact ((hx c hc).suffix_of_ok ha).length_le

lemma pure (a : α) : Follows more earlier n (pure a) (pure a) :=
  fun _ _ => ⟨List.suffix_rfl, nofun, fun _ => rfl⟩

lemma map (g : α → β) (h : Follows more earlier n x y) :
    Follows more earlier n (g <$> x) (g <$> y) :=
  h.andThen fun a => pure (g a)

lemma fail (fault : SyntaxFault) :
    Follows more earlier n (fail fault : Parse α) (fail fault) := by
  refine fun c _ => ⟨List.suffix_rfl, fun h => ?_, fun h => ?_⟩
  · cases h
    rfl
  · have hhead := head?_extend earlier (c := c) h
    rw [Grammar.fail, hhead]
    rfl

lemma report (e : SyntaxError) : Follows more earlier n (report e) (report e) :=
  fun _ _ => ⟨List.suffix_rfl, nofun, fun _ => rfl⟩

lemma reportHere (fault : SyntaxFault) :
    Follows more earlier n (reportHere fault) (reportHere fault) := by
  refine fun c _ => ⟨List.suffix_rfl, nofun, fun h => ?_⟩
  have hhead := head?_extend earlier (c := c) h
  rw [Grammar.reportHere, hhead]
  rfl

lemma facing (type : TokenType) : Follows more earlier n (facing type) (facing type) := by
  refine fun c _ => ⟨List.suffix_rfl, nofun, fun h => ?_⟩
  have hhead := head?_extend earlier (c := c) h
  rw [Grammar.facing, hhead]
  rfl

lemma atEnd : Follows more earlier n atEnd atEnd := by
  refine fun c _ => ⟨List.suffix_rfl, nofun, fun h => ?_⟩
  have hhead := head?_extend earlier (c := c) h
  have hempty : ∀ ts : List Token, ts.isEmpty = ts.head?.isNone := by
    rintro (_ | ⟨t, ts⟩) <;> rfl
  rw [Grammar.atEnd, hempty, hhead, ← hempty]
  rfl

lemma freshSite : Follows more earlier n freshSite freshSite :=
  fun _ _ => ⟨List.suffix_rfl, nofun, fun _ => rfl⟩

lemma take? (ok : TokenType → Bool) : Follows more earlier n (take? ok) (take? ok) := by
  rintro ⟨_ | ⟨t, rest⟩, site, errors⟩ -
  · refine ⟨List.suffix_rfl, nofun, fun h => ?_⟩
    obtain rfl | h := h
    · rfl
    · exact absurd rfl h
  · have hextend : (Cursor.mk (t :: rest) site errors).extend more earlier =
        ⟨t :: (rest ++ more), site, errors ++ earlier⟩ := rfl
    constructor
    · rw [Grammar.take?]
      split
      · exact List.suffix_cons t rest
      · exact List.suffix_rfl
    · intro e c' h
      rw [Grammar.take?] at h
      split at h <;> cases h
    · intro _
      rw [hextend, Grammar.take?, Grammar.take?]
      split <;> rfl

lemma choice {ok : TokenType → Bool} {f g : Option Token → Parse β} (hm : n ≤ m + 1)
    (hs : ∀ t, Follows more earlier m (f (some t)) (g (some t)))
    (hn : Follows more earlier n (f none) (g none)) :
    Follows more earlier n (Grammar.take? ok >>= f) (Grammar.take? ok >>= g) := by
  refine fun c hc => (take? ok c hc).bind fun o c' ho => ?_
  cases o with
  | none => exact (take?_none ho).1 ▸ hn c hc
  | some t =>
    refine hs t c' ?_
    rw [take?_some ho, List.length_cons] at hc
    omega

lemma expect (type : TokenType) (what : Expected) :
    Follows more earlier n (expect type what) (expect type what) :=
  choice (Nat.le_succ n) pure (fail _)

lemma limited (h : Follows more earlier n x y) (fault : SyntaxFault) (p : ℕ) :
    Follows more earlier n (if p ≥ maxArity then Grammar.reportHere fault >>= fun _ => x else x)
      (if p ≥ maxArity then Grammar.reportHere fault >>= fun _ => y else y) := by
  split
  · exact (reportHere fault).andThen fun _ => h
  · exact h

-- The bounds of the second rule are higher by `d`.
section

variable {d k : ℕ} {operand operand' expression expression' : Parse Expr}

lemma operations {l : Level} (ho : Follows more earlier n operand operand') (left : Expr)
    (hm : m ≤ n) (hk : m ≤ k) : Follows more earlier m (operations l operand k left)
      (operations l operand' (d + k) left) := by
  induction k generalizing m left with
  | zero => exact of_le_zero hk
  | succ k ih =>
    have hmore : ∀ op, Follows more earlier (m - 1)
        (operand >>= fun right => Grammar.operations l operand k (l.node left op right))
        (operand' >>= fun right => Grammar.operations l operand' (d + k) (l.node left op right)) :=
      fun op => (ho.mono (by omega)).andThen fun right => ih _ (by omega) (by omega)
    exact choice (by omega) hmore (pure left)

lemma joined (ho : Follows more earlier n operand operand') (ls : List Level) :
    Follows more earlier n (joined operand n ls) (joined operand' (d + n) ls) := by
  induction ls with
  | nil => exact ho
  | cons l tighter ih =>
    exact ih.andThen fun first => ih.operations first (Nat.le_refl n) (Nat.le_refl n)

section

variable (he : Follows more earlier n expression expression')
include he

lemma argumentList (p : ℕ) (hm : m ≤ n) (hk : m ≤ k) :
    Follows more earlier m (argumentList expression k p) (argumentList expression' (d + k) p) := by
  induction k generalizing m p with
  | zero => exact of_le_zero hk
  | succ k ih =>
    refine limited ((he.mono hm).andThen fun argument => ?_) _ p
    exact choice (m := m - 1) (by omega)
      (fun _ => (ih (p + 1) (by omega) (by omega)).andThen fun more => pure (argument :: more))
      (pure [argument])

lemma callEnd (hm : m ≤ n) (hk : m ≤ k) :
    Follows more earlier m (callEnd expression k) (callEnd expression' (d + k)) := by
  refine (facing _).andThen fun closed => ?_
  cases closed with
  | true =>
    exact (pure []).andThen fun arguments => (expect _ _).andThen fun paren =>
      pure (arguments, paren)
  | false =>
    exact (he.argumentList 0 hm hk).andThen fun arguments => (expect _ _).andThen fun paren =>
      pure (arguments, paren)

lemma calls (callee : Expr) (hm : m ≤ n + 1) (hk : m ≤ k) :
    Follows more earlier m (calls expression k callee) (calls expression' (d + k) callee) := by
  induction k generalizing m callee with
  | zero => exact of_le_zero hk
  | succ k ih =>
    have hend : Follows more earlier (m - 1) (Grammar.callEnd expression (k + 1))
        (Grammar.callEnd expression' (d + (k + 1))) := he.callEnd (by omega) (by omega)
    exact choice (by omega) (fun _ => hend.andThen fun x => ih _ (by omega) (by omega))
      (pure callee)

lemma primary : Follows more earlier (n + 1) (primary expression) (primary expression') := by
  refine choice (Nat.le_refl _) (fun t => ?_) (fail _)
  dsimp only
  split
  · exact pure _
  split
  · exact freshSite.andThen fun site => pure (Expr.ref site t)
  · exact he.andThen fun inner => (expect _ _).andThen fun _ => pure (Expr.grouping inner)

lemma unary (hm : m ≤ n + 1) (hk : m ≤ k) : Follows more earlier m
    (unary expression (n + 1) k) (unary expression' (d + (n + 1)) (d + k)) := by
  induction k generalizing m with
  | zero => exact of_le_zero hk
  | succ k ih =>
    refine choice (m := m - 1) (by omega) (fun op => ?_) ?_
    · exact (ih (by omega) (by omega)).andThen fun right => pure (Expr.unary op right)
    · exact (he.primary.mono hm).andThen fun first => he.calls first hm hm

end

lemma assignment (ho : Follows more earlier n operand operand') (hm : m ≤ n) (hk : m ≤ k) :
    Follows more earlier m (assignment operand k) (assignment operand' (d + k)) := by
  induction k generalizing m with
  | zero => exact of_le_zero hk
  | succ k ih =>
    refine (ho.mono hm).andThen fun target => choice (m := m - 1) (by omega) (fun equals => ?_)
      (pure target)
    refine (ih (by omega) (by omega)).andThen fun value => ?_
    cases target with
    | ref site name => exact freshSite.andThen fun site => pure (Expr.assign site name value)
    | _ => exact (report _).andThen fun _ => pure _

end

lemma expression (d n : ℕ) :
    Follows more earlier n (expression n) (Grammar.expression (d + n)) := by
  induction n with
  | zero => exact of_le_zero (Nat.le_refl 0)
  | succ n ih =>
    have hunary := ih.unary (d := d) (Nat.le_refl (n + 1)) (Nat.le_refl (n + 1))
    exact (hunary.joined levels).assignment (Nat.le_refl _) (Nat.le_refl _)

end Follows

end Lox.Grammar
