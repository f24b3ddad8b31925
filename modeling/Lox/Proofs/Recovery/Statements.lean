import Lox.Proofs.Recovery.Continued

/-! A statement that is read up to the last token is read in the same way if more tokens follow that
do not begin with `else`. -/

namespace Lox.Grammar

variable {α β : Type}

structure CompletesAt (more : List Token) (earlier : List SyntaxError) (x y : Parse α)
    (c : Cursor) :
    Prop extends FollowsAt more earlier x y c where
  complete : ∀ {a c'}, x c = .ok a c' → y (c.extend more earlier) = .ok a (c'.extend more earlier)

structure TakesAt (more : List Token) (earlier : List SyntaxError) (x y : Parse α) (c : Cursor) :
    Prop extends CompletesAt more earlier x y c where
  consumes : ∀ {a c'}, x c = .ok a c' → c'.rest.length < c.rest.length

def Completes (more : List Token) (earlier : List SyntaxError) (n : ℕ) (x y : Parse α) : Prop :=
  ∀ c : Cursor, c.rest.length < n → CompletesAt more earlier x y c

def Takes (more : List Token) (earlier : List SyntaxError) (n : ℕ) (x y : Parse α) : Prop :=
  ∀ c : Cursor, c.rest.length < n → TakesAt more earlier x y c

variable {more : List Token} {earlier : List SyntaxError}

lemma bind_eq_ok {x : Parse α} {f : α → Parse β} {c c' : Cursor} {b : β}
    (h : (x >>= f) c = .ok b c') : ∃ a c₁, x c = .ok a c₁ ∧ f a c₁ = .ok b c' := by
  cases hc : x c with
  | error e c₁ =>
    rw [bind_error hc] at h
    cases h
  | ok a c₁ =>
    rw [bind_ok hc] at h
    exact ⟨a, c₁, rfl, h⟩

section

variable {x y : Parse α} {f g : α → Parse β} {c : Cursor}

lemma CompletesAt.bind (hx : CompletesAt more earlier x y c)
    (hf : ∀ a c', x c = .ok a c' → CompletesAt more earlier (f a) (g a) c') :
    CompletesAt more earlier (x >>= f) (y >>= g) c where
  toFollowsAt := hx.toFollowsAt.bind fun a c' h => (hf a c' h).toFollowsAt
  complete h := by
    obtain ⟨a, c₁, hc, hb⟩ := bind_eq_ok h
    rw [bind_ok (hx.complete hc)]
    exact (hf a c₁ hc).complete hb

lemma TakesAt.bind (hx : TakesAt more earlier x y c)
    (hf : ∀ a c', x c = .ok a c' → CompletesAt more earlier (f a) (g a) c') :
    TakesAt more earlier (x >>= f) (y >>= g) c where
  toCompletesAt := hx.toCompletesAt.bind hf
  consumes h := by
    obtain ⟨a, c₁, hc, hb⟩ := bind_eq_ok h
    exact Nat.lt_of_le_of_lt ((hf a c₁ hc).suffix_of_ok hb).length_le (hx.consumes hc)

lemma FollowsAt.bindTakes (hx : FollowsAt more earlier x y c)
    (hf : ∀ a c', x c = .ok a c' → TakesAt more earlier (f a) (g a) c') :
    TakesAt more earlier (x >>= f) (y >>= g) c where
  toFollowsAt := hx.bind fun a c' h => (hf a c' h).toFollowsAt
  complete h := by
    obtain ⟨a, c₁, hc, hb⟩ := bind_eq_ok h
    -- The first part has not taken all the tokens, since the second takes some.
    have hne : c₁.rest ≠ [] :=
      List.ne_nil_of_length_pos (Nat.zero_lt_of_lt ((hf a c₁ hc).consumes hb))
    have hy := hx.same (.inr (by rwa [hc]))
    rw [hc] at hy
    rw [bind_ok hy]
    exact (hf a c₁ hc).complete hb
  consumes h := by
    obtain ⟨a, c₁, hc, hb⟩ := bind_eq_ok h
    exact Nat.lt_of_lt_of_le ((hf a c₁ hc).consumes hb) (hx.suffix_of_ok hc).length_le

end

lemma take?_extend {ok : TokenType → Bool} {c c' : Cursor} {t : Token}
    (h : take? ok c = .ok (some t) c') :
    take? ok (c.extend more earlier) = .ok (some t) (c'.extend more earlier) := by
  obtain ⟨_ | ⟨s, rest⟩, site, errors⟩ := c
  · cases h
  · have hextend : (Cursor.mk (s :: rest) site errors).extend more earlier =
        ⟨s :: (rest ++ more), site, errors ++ earlier⟩ := rfl
    rw [take?] at h
    rw [hextend, take?]
    split at h
    · next hok =>
      cases h
      rw [if_pos hok]
      rfl
    · cases h

lemma take?_of_not {ok : TokenType → Bool} {c : Cursor}
    (h : c.rest.head?.any (ok ·.type) = false) : take? ok c = .ok none c := by
  obtain ⟨_ | ⟨t, rest⟩, site, errors⟩ := c
  · rfl
  · exact if_neg (Bool.not_eq_true _ ▸ h)

section

variable {n : ℕ} {x y : Parse α}

lemma Completes.follows (h : Completes more earlier n x y) : Follows more earlier n x y :=
  fun c hc => (h c hc).toFollowsAt

lemma Takes.completes (h : Takes more earlier n x y) : Completes more earlier n x y :=
  fun c hc => (h c hc).toCompletesAt

lemma Takes.follows (h : Takes more earlier n x y) : Follows more earlier n x y :=
  h.completes.follows

lemma Takes.of_le_zero (h : n ≤ 0) : Takes more earlier n x y :=
  fun _ hc => absurd (Nat.lt_of_lt_of_le hc h) (Nat.not_lt_zero _)

variable {f g : α → Parse β}

lemma Completes.andThen (hx : Completes more earlier n x y)
    (hf : ∀ a, Completes more earlier n (f a) (g a)) :
    Completes more earlier n (x >>= f) (y >>= g) := by
  refine fun c hc => (hx c hc).bind fun a c' ha => hf a c' (Nat.lt_of_le_of_lt ?_ hc)
  exact ((hx c hc).suffix_of_ok ha).length_le

lemma Takes.andThen (hx : Takes more earlier n x y)
    (hf : ∀ a, Completes more earlier n (f a) (g a)) : Takes more earlier n (x >>= f) (y >>= g) :=
  fun c hc => (hx c hc).bind fun a c' ha => hf a c' (Nat.lt_trans ((hx c hc).consumes ha) hc)

lemma Follows.thenTakes (hx : Follows more earlier n x y)
    (hf : ∀ a, Takes more earlier n (f a) (g a)) : Takes more earlier n (x >>= f) (y >>= g) := by
  refine fun c hc => (hx c hc).bindTakes fun a c' ha => hf a c' (Nat.lt_of_le_of_lt ?_ hc)
  exact ((hx c hc).suffix_of_ok ha).length_le

end

namespace Completes

variable {n : ℕ}

lemma pure (a : α) : Completes more earlier n (pure a) (pure a) := fun c hc =>
  ⟨Follows.pure a c hc, fun h => by cases h; rfl⟩

lemma map {x y : Parse α} (g : α → β) (h : Completes more earlier n x y) :
    Completes more earlier n (g <$> x) (g <$> y) :=
  h.andThen fun a => pure (g a)

lemma take? {ok : TokenType → Bool} (hmore : more.head?.any (ok ·.type) = false) :
    Completes more earlier n (take? ok) (take? ok) := by
  refine fun c hc => ⟨Follows.take? ok c hc, fun {o c'} h => ?_⟩
  cases o with
  | some t => exact take?_extend h
  | none =>
    obtain ⟨rfl, hfront⟩ := take?_none h
    refine take?_of_not ?_
    rw [Cursor.extend, List.head?_append]
    cases hhead : c'.rest.head? with
    | none => exact hmore
    | some t =>
      rw [hhead] at hfront
      exact hfront

lemma accept? {type : TokenType} (hmore : more.head?.any (·.type.sameKind type) = false) :
    Completes more earlier n (accept? type) (accept? type) :=
  take? hmore

end Completes

namespace Takes

variable {n m : ℕ}

lemma fail (fault : SyntaxFault) : Takes more earlier n (fail fault : Parse α) (fail fault) :=
  fun c hc => ⟨⟨Follows.fail fault c hc, nofun⟩, nofun⟩

lemma choice {ok : TokenType → Bool} {f g : Option Token → Parse β} (hm : n ≤ m + 1)
    (hs : ∀ t, Completes more earlier m (f (some t)) (g (some t)))
    (hn : Takes more earlier n (f none) (g none)) :
    Takes more earlier n (Grammar.take? ok >>= f) (Grammar.take? ok >>= g) := by
  intro c hc
  have hshort : ∀ {t c'}, Grammar.take? ok c = .ok (some t) c' → c'.rest.length < m := by
    intro t c' h
    rw [take?_some h, List.length_cons] at hc
    omega
  refine ⟨⟨Follows.choice hm (fun t => (hs t).follows) hn.follows c hc, fun h => ?_⟩, fun h => ?_⟩
  · obtain ⟨o, c', ho, hb⟩ := bind_eq_ok h
    cases o with
    | some t =>
      rw [bind_ok (take?_extend ho)]
      exact (hs t c' (hshort ho)).complete hb
    | none =>
      obtain ⟨rfl, hfront⟩ := take?_none ho
      have hne := List.ne_nil_of_length_pos (Nat.zero_lt_of_lt ((hn c' hc).consumes hb))
      rw [← head?_extend earlier (.inr hne)] at hfront
      rw [bind_ok (take?_of_not hfront)]
      exact (hn c' hc).complete hb
  · obtain ⟨o, c', ho, hb⟩ := bind_eq_ok h
    cases o with
    | some t =>
      rw [take?_some ho, List.length_cons]
      exact Nat.lt_succ_of_le ((hs t c' (hshort ho)).suffix_of_ok hb).length_le
    | none =>
      obtain ⟨rfl, -⟩ := take?_none ho
      exact (hn c' hc).consumes hb

lemma expect (type : TokenType) (what : Expected) :
    Takes more earlier n (expect type what) (expect type what) :=
  choice (Nat.le_succ n) Completes.pure (fail _)

end Takes

namespace Follows

variable {n : ℕ}

section

variable {expression expression' : Parse Expr} (he : Follows more earlier n expression expression')
include he

lemma expressionStmt : Takes more earlier n (expressionStmt expression)
    (expressionStmt expression') :=
  he.thenTakes fun e => (Takes.expect _ _).andThen fun _ => .pure (Stmt.expression e)

lemma printStmt : Takes more earlier n (printStmt expression) (printStmt expression') :=
  he.thenTakes fun e => (Takes.expect _ _).andThen fun _ => .pure (Stmt.print e)

lemma optional (finish : Punct) :
    Follows more earlier n (optional expression finish) (optional expression' finish) := by
  refine (facing _).andThen fun closed => ?_
  cases closed with
  | true => exact pure none
  | false => exact he.map some

lemma returnStmt (keyword : Token) :
    Takes more earlier n (returnStmt expression keyword) (returnStmt expression' keyword) :=
  (he.optional _).thenTakes fun value => (Takes.expect _ _).andThen fun _ =>
    .pure (Stmt.ret keyword value)

lemma varDeclaration :
    Takes more earlier n (varDeclaration expression) (varDeclaration expression') := by
  have hend : ∀ name initializer, Takes more earlier n
      (Grammar.expect (.punct .semicolon) .variableEnd >>= fun _ =>
        Pure.pure (Stmt.var name initializer))
      (Grammar.expect (.punct .semicolon) .variableEnd >>= fun _ =>
        Pure.pure (Stmt.var name initializer)) :=
    fun name initializer => (Takes.expect _ _).andThen fun _ => .pure (Stmt.var name initializer)
  refine (Takes.expect _ _).andThen fun name => ((take? _).thenTakes fun found => ?_).completes
  cases found with
  | none => exact (pure none).thenTakes (hend name)
  | some _ => exact (he.map some).thenTakes (hend name)

lemma forInitializer :
    Follows more earlier n (forInitializer expression) (forInitializer expression') := by
  refine .choice (Nat.le_succ n) (fun _ => pure none) (.choice (Nat.le_succ n) (fun _ => ?_) ?_)
  · exact he.varDeclaration.follows.map some
  · exact he.expressionStmt.follows.map some

variable {statement statement' : Parse Stmt} (hs : Takes more earlier n statement statement')
include hs

lemma whileStmt :
    Takes more earlier n (whileStmt expression statement) (whileStmt expression' statement') :=
  (Takes.expect _ _).andThen fun _ =>
    (he.thenTakes fun condition => (Takes.expect _ _).andThen fun _ =>
      hs.completes.andThen fun body => .pure (Stmt.loop condition body)).completes

lemma ifStmt (hmore : more.head?.any (·.type.sameKind (.keyword .kwElse)) = false) :
    Takes more earlier n (ifStmt expression statement) (ifStmt expression' statement') := by
  refine (Takes.expect _ _).andThen fun _ =>
    (he.thenTakes fun condition => (Takes.expect _ _).andThen fun _ =>
      hs.completes.andThen fun thenBranch =>
        (Completes.accept? hmore).andThen fun found => ?_).completes
  cases found with
  | none => exact .pure (Stmt.ifThen condition thenBranch)
  | some _ =>
    exact hs.completes.andThen fun elseBranch => .pure (Stmt.ifElse condition thenBranch elseBranch)

lemma forStmt :
    Takes more earlier n (forStmt expression statement) (forStmt expression' statement') :=
  (Takes.expect _ _).andThen fun _ => (he.forInitializer.thenTakes fun initializer =>
    (he.optional _).thenTakes fun condition => (Takes.expect _ _).andThen fun _ =>
    ((he.optional _).thenTakes fun increment => (Takes.expect _ _).andThen fun _ =>
    hs.completes.andThen fun body =>
      .pure (forLoop initializer condition increment body)).completes).completes

end

lemma parameterList {m k : ℕ} (d p : ℕ) (hk : m ≤ k) :
    Follows more earlier m (parameterList k p) (parameterList (d + k) p) := by
  induction k generalizing m p with
  | zero => exact .of_le_zero hk
  | succ k ih =>
    refine limited ((expect _ _).andThen fun name => ?_) _ p
    exact .choice (m := m - 1) (by omega)
      (fun _ => (ih (p + 1) (by omega)).andThen fun more => pure (name :: more)) (pure [name])

end Follows

structure Recovers (more : List Token) (earlier : List SyntaxError) (n : ℕ)
    (x y : Parse (Option Stmt)) : Prop where
  follows : Follows more earlier n x y
  advances : ∀ {c : Cursor}, c.rest.length < n → c.rest ≠ [] →
    (resultCursor (x c)).rest.length < c.rest.length

lemma resumeAfter_suffix (skipped : Token) (ts : List Token) : resumeAfter skipped ts <:+ ts := by
  induction ts generalizing skipped with
  | nil => exact List.suffix_rfl
  | cons t rest ih =>
    rw [resumeAfter]
    split
    · exact List.suffix_rfl
    · exact (ih t).trans (List.suffix_cons t rest)

lemma resume_suffix (ts : List Token) : resume ts <:+ ts := by
  cases ts with
  | nil => exact List.suffix_rfl
  | cons t rest => exact (resumeAfter_suffix t rest).trans (List.suffix_cons t rest)

def isSemicolon (t : Token) : Bool := t.type.sameKind (.punct .semicolon)

lemma resumeAfter_append {skipped : Token} {ts : List Token}
    (h : resumeAfter skipped ts ≠ [] ∨ (skipped :: ts).getLast?.any isSemicolon = true) :
    resumeAfter skipped (ts ++ more) = resumeAfter skipped ts ++ more := by
  induction ts generalizing skipped with
  | nil =>
    obtain h | h := h
    · exact absurd rfl h
    · cases more with
      | nil => rfl
      | cons t rest =>
        have hskipped : skipped.type.sameKind (.punct .semicolon) = true := h
        have hstop : resumeAfter skipped (t :: rest) = t :: rest :=
          if_pos (by rw [hskipped, Bool.true_or])
        exact hstop
  | cons t rest ih =>
    rw [resumeAfter] at h
    rw [List.cons_append, resumeAfter, resumeAfter]
    split
    · rfl
    · next hstop =>
      rw [if_neg hstop, List.getLast?_cons_cons] at h
      exact ih h

lemma resume_append {ts : List Token}
    (h : resume ts ≠ [] ∨ ts.getLast?.any isSemicolon = true) :
    resume (ts ++ more) = resume ts ++ more := by
  cases ts with
  | nil => exact absurd h (by simp [resume])
  | cons t rest => exact resumeAfter_append h

lemma length_resume_lt {ts : List Token} (h : ts ≠ []) : (resume ts).length < ts.length := by
  cases ts with
  | nil => exact absurd rfl h
  | cons t rest => exact Nat.lt_succ_of_le (resumeAfter_suffix t rest).length_le

section

variable {rule : Parse Stmt} {c c' : Cursor}

lemma recovering_ok {s : Stmt} (h : rule c = .ok s c') : recovering rule c = .ok (some s) c' := by
  rw [recovering, h]

lemma recovering_error {e : SyntaxError} (h : rule c = .error e c') : recovering rule c =
    .ok none { c' with rest := resume c'.rest, errors := e :: c'.errors } := by
  rw [recovering, h]

lemma recovering_ne_error {e : SyntaxError} : recovering rule c ≠ .error e c' := by
  rw [recovering]
  split <;> nofun

lemma recovering_length_lt (hsuffix : (resultCursor (rule c)).rest <:+ c.rest)
    (hconsumes : ∀ {s c'}, rule c = .ok s c' → c'.rest.length < c.rest.length)
    (hne : c.rest ≠ []) : (resultCursor (recovering rule c)).rest.length < c.rest.length := by
  cases hr : rule c with
  | ok s c' =>
    rw [recovering_ok hr]
    exact hconsumes hr
  | error e c' =>
    rw [hr] at hsuffix
    rw [recovering_error hr]
    by_cases hrest : c'.rest = []
    · simpa [resultCursor, hrest, resume] using List.length_pos_of_ne_nil hne
    · exact Nat.lt_of_lt_of_le (length_resume_lt hrest) hsuffix.length_le

end

section

variable {n : ℕ} {x y : Parse Stmt}

lemma Takes.recovering_follows (h : Takes more earlier n x y) :
    Follows more earlier n (recovering x) (recovering y) := by
  intro c hc
  obtain ⟨⟨⟨hsuffix, -, hsame⟩, -⟩, -⟩ := h c hc
  cases hx : x c with
  | ok s c' =>
    rw [hx] at hsuffix hsame
    refine ⟨?_, fun he => absurd he recovering_ne_error, fun hleft => ?_⟩
    · rwa [recovering_ok hx]
    · rw [recovering_ok hx] at hleft ⊢
      exact recovering_ok (hsame hleft)
  | error e c' =>
    rw [hx] at hsuffix hsame
    refine ⟨?_, fun he => absurd he recovering_ne_error, fun hleft => ?_⟩
    · rw [recovering_error hx]
      exact (resume_suffix c'.rest).trans hsuffix
    · rw [recovering_error hx] at hleft ⊢
      have hrest : more = [] ∨ c'.rest ≠ [] := by
        refine hleft.imp_right fun hne hnil => hne ?_
        simp [resultCursor, hnil, resume]
      have hresume : resume (c'.rest ++ more) = resume c'.rest ++ more := by
        obtain rfl | hne := hleft
        · rw [List.append_nil, List.append_nil]
        · exact resume_append (.inl hne)
      rw [recovering_error (hsame hrest)]
      simp [extendResult, Cursor.extend, hresume]

lemma Takes.recovering (h : Takes more earlier n x y) :
    Recovers more earlier n (recovering x) (recovering y) := by
  refine ⟨h.recovering_follows, fun {c} hc hne => ?_⟩
  obtain ⟨⟨⟨hsuffix, -, -⟩, -⟩, hconsumes⟩ := h c hc
  exact recovering_length_lt hsuffix hconsumes hne

end

lemma FollowsAt.untilEnd {f g : Bool → Parse β} {c : Cursor}
    (hend : c.rest = [] → FollowsAt more earlier (f true) (g true) c)
    (hmore : c.rest ≠ [] → FollowsAt more earlier (f false) (g false) c) :
    FollowsAt more earlier (atEnd >>= f) (atEnd >>= g) c := by
  refine (Follows.atEnd c (Nat.lt_succ_self _)).bind fun b c' h => ?_
  cases h
  cases hrest : c.rest with
  | nil => exact hend hrest
  | cons t rest => exact hmore (by simp [hrest])

lemma TakesAt.untilEnd {f g : Bool → Parse β} {c : Cursor}
    (hend : c.rest = [] → TakesAt more earlier (f true) (g true) c)
    (hmore : c.rest ≠ [] → TakesAt more earlier (f false) (g false) c) :
    TakesAt more earlier (atEnd >>= f) (atEnd >>= g) c := by
  refine (Follows.atEnd c (Nat.lt_succ_self _)).bindTakes fun b c' h => ?_
  cases h
  cases hrest : c.rest with
  | nil => exact hend hrest
  | cons t rest => exact hmore (by simp [hrest])

namespace Recovers

variable {n m k : ℕ} {declaration declaration' : Parse (Option Stmt)}
  (hd : Recovers more earlier n declaration declaration')
include hd

lemma length_lt {c c' : Cursor} {first : Option Stmt} (hm : m ≤ n) (hc : c.rest.length < m)
    (hne : c.rest ≠ []) (h : declaration c = .ok first c') : c'.rest.length < m - 1 := by
  have hlt := hd.advances (Nat.lt_of_lt_of_le hc hm) hne
  rw [h] at hlt
  exact Nat.lt_of_lt_of_le hlt (Nat.le_sub_one_of_lt hc)

lemma block (d : ℕ) (hm : m ≤ n) (hk : m ≤ k) :
    Takes more earlier m (block declaration k) (block declaration' (d + k)) := by
  induction k generalizing m with
  | zero => exact .of_le_zero hk
  | succ k ih =>
    refine .choice (m := m) (Nat.le_succ m) (fun _ => .pure []) fun c hc => ?_
    refine .untilEnd (fun _ => Takes.fail _ c hc) fun hne => ?_
    refine (hd.follows c (Nat.lt_of_lt_of_le hc hm)).bindTakes fun first c' hfirst => ?_
    exact (ih (by omega) (by omega)).andThen (fun more => .pure (first.toList ++ more)) c'
      (hd.length_lt hm hc hne hfirst)

lemma program (d : ℕ) (hm : m ≤ n) (hk : m ≤ k) :
    Follows more earlier m (program declaration k) (program declaration' (d + k)) := by
  induction k generalizing m with
  | zero => exact .of_le_zero hk
  | succ k ih =>
    intro c hc
    refine .untilEnd (fun _ => Follows.pure _ c hc) fun hne => ?_
    refine (hd.follows c (Nat.lt_of_lt_of_le hc hm)).bind fun first c' hfirst => ?_
    exact (ih (by omega) (by omega)).andThen (fun more => .pure (first.toList ++ more)) c'
      (hd.length_lt hm hc hne hfirst)

lemma function (d : ℕ) (hm : m ≤ n) (hk : m ≤ k) :
    Takes more earlier m (function declaration k) (function declaration' (d + k)) := by
  have hbody : ∀ name params, Takes more earlier m
      (expect (.punct .rightParen) .parametersEnd >>= fun _ =>
        expect (.punct .leftBrace) .functionBody >>= fun _ =>
        Grammar.block declaration k >>= fun body => pure (Stmt.function name params body))
      (expect (.punct .rightParen) .parametersEnd >>= fun _ =>
        expect (.punct .leftBrace) .functionBody >>= fun _ =>
        Grammar.block declaration' (d + k) >>= fun body => pure (Stmt.function name params body)) :=
    fun name params => (Takes.expect _ _).andThen fun _ => ((Takes.expect _ _).andThen fun _ =>
      (hd.block d hm hk).completes.andThen fun body =>
        .pure (Stmt.function name params body)).completes
  refine (Takes.expect _ _).andThen fun name => ((Takes.expect _ _).andThen fun _ =>
    ((Follows.facing _).thenTakes fun closed => ?_).completes).completes
  cases closed with
  | true => exact (Follows.pure []).thenTakes (hbody name)
  | false => exact (Follows.parameterList d 0 hk).thenTakes (hbody name)

variable {expression expression' : Parse Expr}
  (he : Follows more earlier (n + 1) expression expression')
  {statement statement' : Parse Stmt}
include he

lemma statementRule (d : ℕ) (hs : Takes more earlier n statement statement')
    (hmore : more.head?.any (·.type.sameKind (.keyword .kwElse)) = false) :
    Takes more earlier (n + 1) (statementRule expression statement declaration (n + 1))
      (statementRule expression' statement' declaration' (d + (n + 1))) := by
  have he' := he.mono (Nat.le_succ n)
  refine .choice (Nat.le_refl _) (fun t => ?_) he.expressionStmt
  dsimp only
  split
  · exact (he'.forStmt hs).completes
  · exact (he'.ifStmt hs hmore).completes
  · exact he'.printStmt.completes
  · exact (he'.returnStmt t).completes
  · exact (he'.whileStmt hs).completes
  · exact (hd.block d (Nat.le_refl n) (Nat.le_succ n)).completes.map Stmt.block

lemma declarationRule (d : ℕ) (hs : Takes more earlier (n + 1) statement statement') :
    Takes more earlier (n + 1) (declarationRule expression statement declaration (n + 1))
      (declarationRule expression' statement' declaration' (d + (n + 1))) :=
  .choice (Nat.le_refl _) (fun _ => (hd.function d (Nat.le_refl n) (Nat.le_succ n)).completes)
    (.choice (Nat.le_succ _) (fun _ => he.varDeclaration.completes) hs)

end Recovers

def declarationAt : ℕ → Parse Stmt
  | 0 => fail (.missing .expression)
  | n + 1 => declarationRule (expression (n + 1)) (statement (n + 1)) (declaration n) (n + 1)

lemma declaration_eq (n : ℕ) : declaration n = recovering (declarationAt n) := by
  cases n <;> rfl

lemma Takes.declaration {d n : ℕ}
    (h : Takes more earlier n (declarationAt n) (declarationAt (d + n))) :
    Recovers more earlier n (declaration n) (declaration (d + n)) := by
  rw [declaration_eq, declaration_eq]
  exact h.recovering

theorem statement_takes (d n : ℕ)
    (hmore : more.head?.any (·.type.sameKind (.keyword .kwElse)) = false) :
    Takes more earlier n (statement n) (statement (d + n)) ∧
      Takes more earlier n (declarationAt n) (declarationAt (d + n)) := by
  induction n with
  | zero =>
    exact ⟨.of_le_zero (Nat.le_refl 0), .of_le_zero (Nat.le_refl 0)⟩
  | succ n ih =>
    have he : Follows more earlier (n + 1) (expression (n + 1)) (expression (d + (n + 1))) :=
      .expression d (n + 1)
    have hs := ih.2.declaration.statementRule he d ih.1 hmore
    exact ⟨hs, ih.2.declaration.declarationRule he d hs⟩

end Lox.Grammar
