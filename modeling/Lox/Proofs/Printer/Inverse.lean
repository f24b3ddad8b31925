import Lox.Proofs.Grammar.Kept
import Lox.Proofs.Lexical.Joined
import Lox.Proofs.Number.Written
import Lox.Proofs.Printer.Reader
import Lox.Proofs.Unparse.Tokens

/-! The reader undoes the printer, on trees of the shape that reading a source gives and with tokens
as they stand in a source. -/

namespace Lox

open Grammar Sexp

structure Token.Spelled (t : Token) : Prop where
  lexeme : Scan.Lexeme (.token t.type) t.lexeme.toList
  notString : ∀ s, t.type ≠ .string s
  finite : ∀ x, t.type = .number x → x.isFinite = true

lemma not_delimiter_of_wordPart {c : Char} (h : Scan.WordPart c) : ¬ Delimiter c := by
  rintro (rfl | rfl | rfl) <;> revert h <;> decide

lemma not_delimiter_of_word {c : Char} {cs : List Char} (hc : Scan.WordStart c)
    (hcs : ∀ d ∈ cs, Scan.WordPart d) : ∀ d ∈ c :: cs, ¬ Delimiter d :=
  List.forall_mem_cons.2 ⟨not_delimiter_of_wordPart (.inl hc),
    fun d hd => not_delimiter_of_wordPart (hcs d hd)⟩

lemma not_delimiter_of_lexeme {type : TokenType} {text : List Char}
    (h : Scan.Lexeme (.token type) text) (hs : ∀ s, type ≠ .string s)
    (hl : type ≠ .punct .leftParen) (hr : type ≠ .punct .rightParen) :
    ∀ c ∈ text, ¬ Delimiter c := by
  cases h with
  | punct p =>
    cases p <;> first
      | exact absurd rfl hl
      | exact absurd rfl hr
      | simp [Punct.spelling, Delimiter]
  | string => exact absurd rfl (hs _)
  | integer _ hw => exact fun d hd => not_delimiter_of_wordPart (.inr (hw d hd))
  | decimal _ hw _ hf =>
    rw [List.forall_mem_append, List.forall_mem_cons]
    exact ⟨fun d hd => not_delimiter_of_wordPart (.inr (hw d hd)), by decide,
      fun d hd => not_delimiter_of_wordPart (.inr (hf d hd))⟩
  | keyword k =>
    obtain ⟨c, cs, hk, hc, hcs⟩ := Scan.keyword_letters k
    rw [hk]
    exact not_delimiter_of_word hc hcs
  | identifier hc hcs => exact not_delimiter_of_word hc hcs

lemma token?_of_lexeme {type : TokenType} {w : String} (h : Scan.Lexeme (.token type) w.toList) :
    token? w = some ⟨type, w, 0, 0⟩ := by
  obtain ⟨c, cs, hw⟩ := List.exists_cons_of_ne_nil h.ne_nil
  rw [hw] at h
  rw [token?, hw]
  simp only [Scan.munch_lexeme h]

lemma token?_group : token? "group" = some ⟨.identifier, "group", 0, 0⟩ := rfl

lemma token?_call : token? "call" = some ⟨.identifier, "call", 0, 0⟩ := rfl

lemma token?_equal : token? "=" = some ⟨.punct .equal, "=", 0, 0⟩ := rfl

namespace Token.Spelled

variable {t : Token} (h : t.Spelled)

include h

lemma token?_eq : token? t.lexeme = some t.bare := token?_of_lexeme h.lexeme

lemma plainWord (hl : t.type ≠ .punct .leftParen) (hr : t.type ≠ .punct .rightParen) :
    PlainWord t.lexeme :=
  ⟨h.lexeme.ne_nil, not_delimiter_of_lexeme h.lexeme h.notString hl hr⟩

lemma ne_of_type {w : String} {u : Token} (hu : token? w = some u) (ht : t.type ≠ u.type) :
    t.lexeme ≠ w := by
  intro hw
  have hread := h.token?_eq
  rw [hw, hu] at hread
  exact ht (congrArg Token.type (Option.some.inj hread)).symm

lemma lexeme_eq {w : String} (hw : Scan.Lexeme (.token t.type) w.toList)
    (hi : t.type ≠ .identifier) (hn : ∀ x, t.type ≠ .number x) : t.lexeme = w := by
  have hl := h.lexeme
  have hs := h.notString
  apply String.toList_inj.1
  generalize t.type = type, t.lexeme.toList = text, w.toList = spelling at *
  cases hl with
  | punct p => cases hw; rfl
  | keyword k => cases hw; rfl
  | string => exact absurd rfl (hs _)
  | integer | decimal => exact absurd rfl (hn _)
  | identifier => exact absurd rfl hi

lemma token?_of_type {w : String} (hw : Scan.Lexeme (.token t.type) w.toList)
    (hi : t.type ≠ .identifier) (hn : ∀ x, t.type ≠ .number x) : token? w = some t.bare := by
  rw [← h.lexeme_eq hw hi hn]
  exact h.token?_eq

lemma token?_return (ht : t.type = .keyword .kwReturn) : token? "return" = some t.bare :=
  h.token?_of_type (ht ▸ .keyword .kwReturn) (by simp [ht]) (by simp [ht])

lemma token?_rightParen (ht : t.type = .punct .rightParen) : token? ")" = some t.bare :=
  h.token?_of_type (ht ▸ .punct .rightParen) (by simp [ht]) (by simp [ht])

end Token.Spelled

section

variable {t : Token}

lemma type_ne_of_operator (ho : isUnary t.type = true ∨ 1 ≤ t.type.binds) {other : TokenType}
    (hu : isUnary other = false) (hb : other.binds = 0) : t.type ≠ other := by
  intro h
  rw [h, hu, hb] at ho
  simp at ho

lemma compound?_operator (h : t.Spelled) (ho : isUnary t.type = true ∨ 1 ≤ t.type.binds)
    (parts : List Expr) :
    PlainWord t.lexeme ∧ compound? t.lexeme parts = operation? t.bare parts := by
  refine ⟨h.plainWord (type_ne_of_operator ho rfl rfl) (type_ne_of_operator ho rfl rfl), ?_⟩
  unfold compound?
  rw [if_neg (h.ne_of_type token?_group (type_ne_of_operator ho rfl rfl)),
    if_neg (h.ne_of_type token?_call (type_ne_of_operator ho rfl rfl)),
    if_neg (h.ne_of_type token?_equal (type_ne_of_operator ho rfl rfl)), h.token?_eq]
  rfl

lemma simple?_name (h : t.Spelled) (ht : t.type = .identifier) :
    PlainWord t.lexeme ∧ simple? t.lexeme = some (.ref 0 t.bare) := by
  have hne : ∀ p, t.type ≠ .punct p := by simp [ht]
  have hbare : t.bare.type = .identifier := ht
  refine ⟨h.plainWord (hne _) (hne _), ?_⟩
  simp [simple?, h.token?_eq, hbare, literal?, TokenType.sameKind]

lemma literal_lexeme {v : Literal} (h : (Expr.literal v).Kept Token.Spelled) :
    Scan.Lexeme (.token v.type) v.text.toList ∧ ∀ s, v.type ≠ .string s := by
  rcases h with rfl | ⟨t, ht, hv⟩
  · exact ⟨.keyword .kwTrue, nofun⟩
  · obtain ⟨htype, -⟩ := type_of_literal hv
    refine ⟨?_, htype ▸ ht.notString⟩
    cases v with
    | nil => exact .keyword .kwNil
    | bool b => cases b <;> [exact .keyword .kwFalse; exact .keyword .kwTrue]
    | number x =>
      have hx := ht.lexeme
      rw [← htype] at hx
      exact Binary64.expanded_lexeme (ht.finite x htype.symm) (Binary64.isNegative_of_lexeme hx)
    | string s => exact absurd htype.symm (ht.notString s)

lemma simple?_literal {v : Literal} (h : (Expr.literal v).Kept Token.Spelled) :
    PlainWord v.text ∧ simple? v.text = some (.literal v) := by
  obtain ⟨hl, hs⟩ := literal_lexeme h
  have hne : ∀ p, v.type ≠ .punct p := by
    intro p
    cases v with
    | bool b => cases b <;> nofun
    | _ => nofun
  have htype : literal? v.type = some v := by
    cases v with
    | bool b => cases b <;> rfl
    | _ => rfl
  refine ⟨⟨hl.ne_nil, not_delimiter_of_lexeme hl hs (hne _) (hne _)⟩, ?_⟩
  simp [simple?, token?_of_lexeme hl, htype]

end

section

variable {head : String} {part : Sexp} {parts : List Sexp} {e : Expr} {es : List Expr}

lemma exprs?_cons (he : part.expr? = some e) (hes : exprs? parts = some es) :
    exprs? (part :: parts) = some (e :: es) := by
  rw [exprs?, he, hes]
  rfl

lemma expr?_list (h : exprs? parts = some es) :
    (list (word head :: parts)).expr? = compound? head es := by
  rw [expr?, h]
  rfl

def heads : List String :=
  ["group", "call", "=", ";", "print", "var", "block", "if", "while", "fun", "return"]

lemma plain_list (hhead : head ∈ heads) (hp : ListPlain parts) :
    (list (word head :: parts)).Plain := by
  have hplain : ∀ w ∈ heads, PlainWord w := by simp [heads, PlainWord, Delimiter]
  exact ⟨hplain head hhead, hp⟩

end

-- By recursion over the tree; the shape says which operators stand where, and that none of them is
-- the head of another form.
mutual

theorem expr?_form : ∀ {e : Expr}, e.Shaped → e.Kept Token.Spelled →
    e.form.Plain ∧ e.form.expr? = some e.bare
  | .literal _, _, hk => simple?_literal hk
  | .ref _ _, hs, hk => simple?_name hk hs
  | .grouping e, hs, hk => by
    obtain ⟨hp, he⟩ := expr?_form (e := e) hs hk
    have hparts : exprs? [e.form] = some [e.bare] := exprs?_cons he rfl
    exact ⟨plain_list (by simp [heads]) ⟨hp, trivial⟩, (expr?_list hparts).trans rfl⟩
  | .unary op e, ⟨ho, hs, _⟩, ⟨hop, hk⟩ => by
    obtain ⟨hp, he⟩ := expr?_form hs hk
    obtain ⟨hw, hc⟩ := compound?_operator hop (.inl ho) [e.bare]
    exact ⟨⟨hw, hp, trivial⟩, (expr?_list (exprs?_cons he rfl)).trans hc⟩
  | .binary a op b, ⟨ho, ⟨hsa, _⟩, hsb, _⟩, ⟨hop, hka, hkb⟩ => by
    obtain ⟨hpa, ha⟩ := expr?_form hsa hka
    obtain ⟨hpb, hb⟩ := expr?_form hsb hkb
    obtain ⟨hw, hc⟩ := compound?_operator hop (.inr (by omega)) [a.bare, b.bare]
    have hbinds : ¬ op.type.binds ≤ 2 := by omega
    refine ⟨⟨hw, hpa, hpb, trivial⟩, ?_⟩
    exact (expr?_list (exprs?_cons ha (exprs?_cons hb rfl))).trans
      (hc.trans (congrArg some (if_neg hbinds)))
  | .logical a op b, ⟨ho, ⟨hsa, _⟩, hsb, _⟩, ⟨hop, hka, hkb⟩ => by
    obtain ⟨hpa, ha⟩ := expr?_form hsa hka
    obtain ⟨hpb, hb⟩ := expr?_form hsb hkb
    obtain ⟨hw, hc⟩ := compound?_operator hop (.inr (by omega)) [a.bare, b.bare]
    have hbinds : op.type.binds ≤ 2 := by omega
    refine ⟨⟨hw, hpa, hpb, trivial⟩, ?_⟩
    exact (expr?_list (exprs?_cons ha (exprs?_cons hb rfl))).trans
      (hc.trans (congrArg some (if_pos hbinds)))
  | .assign _ name e, ⟨hn, hs⟩, ⟨hname, hk⟩ => by
    obtain ⟨hp, he⟩ := expr?_form hs hk
    obtain ⟨hw, hc⟩ := simple?_name hname hn
    have hparts : exprs? [.word name.lexeme, e.form] = some [.ref 0 name.bare, e.bare] :=
      exprs?_cons hc (exprs?_cons he rfl)
    exact ⟨plain_list (by simp [heads]) ⟨hw, hp, trivial⟩, (expr?_list hparts).trans rfl⟩
  | .call callee paren args, ⟨⟨hs, _⟩, ht, hsa, _⟩, ⟨hparen, hk, hka⟩ => by
    obtain ⟨hpc, hc⟩ := expr?_form hs hk
    obtain ⟨hpa, ha⟩ := exprs?_forms hsa hka
    refine ⟨plain_list (by simp [heads]) ⟨hpc, hpa⟩, (expr?_list (exprs?_cons hc ha)).trans ?_⟩
    exact congrArg (Option.map fun t => Expr.call callee.bare t (Expr.listBare args))
      (hparen.token?_rightParen ht)

theorem exprs?_forms : ∀ {es : List Expr}, Expr.ListShaped es → Expr.ListKept Token.Spelled es →
    ListPlain (Expr.forms es) ∧ exprs? (Expr.forms es) = some (Expr.listBare es)
  | [], _, _ => ⟨trivial, rfl⟩
  | e :: rest, ⟨hs, hsr⟩, ⟨hk, hkr⟩ => by
    obtain ⟨hp, he⟩ := expr?_form hs hk
    obtain ⟨hpr, hr⟩ := exprs?_forms hsr hkr
    exact ⟨⟨hp, hpr⟩, exprs?_cons he hr⟩

end

lemma plain_name {t : Token} (h : t.Spelled) (ht : t.type = .identifier) : PlainWord t.lexeme :=
  (simple?_name h ht).1

lemma names?_map : ∀ {params : List Token}, (∀ x ∈ params, x.type = .identifier) →
    (∀ x ∈ params, x.Spelled) → ListPlain (params.map fun x => .word x.lexeme) ∧
      names? (params.map fun x => .word x.lexeme) = some (params.map Token.bare)
  | [], _, _ => ⟨trivial, rfl⟩
  | x :: rest, ht, hk => by
    rw [List.forall_mem_cons] at ht hk
    obtain ⟨hp, hr⟩ := names?_map ht.2 hk.2
    refine ⟨⟨plain_name hk.1 ht.1, hp⟩, ?_⟩
    rw [List.map_cons, names?, hk.1.token?_eq, hr]
    rfl

-- In each case `hread` is what the reader does at the head of the statement.
mutual

theorem stmt?_form : ∀ {s : Stmt}, s.Shaped → s.Kept Token.Spelled →
    s.form.Plain ∧ s.form.stmt? = some s.bare
  | .expression e, hs, hk => by
    obtain ⟨hp, he⟩ := expr?_form (e := e) hs hk
    have hread : (Stmt.expression e).form.stmt? = e.form.expr?.map .expression := rfl
    exact ⟨plain_list (by simp [heads]) ⟨hp, trivial⟩, by rw [hread, he]; rfl⟩
  | .print e, hs, hk => by
    obtain ⟨hp, he⟩ := expr?_form (e := e) hs hk
    have hread : (Stmt.print e).form.stmt? = e.form.expr?.map .print := rfl
    exact ⟨plain_list (by simp [heads]) ⟨hp, trivial⟩, by rw [hread, he]; rfl⟩
  | .var name none, ⟨hn, _⟩, ⟨hname, _⟩ => by
    have hread : (Stmt.var name none).form.stmt? =
        (do some (.var (← token? name.lexeme) none)) := rfl
    exact ⟨plain_list (by simp [heads]) ⟨plain_name hname hn, trivial⟩,
      by rw [hread, hname.token?_eq]; rfl⟩
  | .var name (some e), ⟨hn, hs⟩, ⟨hname, hk⟩ => by
    obtain ⟨hp, he⟩ := expr?_form (e := e) hs hk
    have hread : (Stmt.var name (some e)).form.stmt? =
        (do some (.var (← token? name.lexeme) (some (← e.form.expr?)))) := rfl
    exact ⟨plain_list (by simp [heads]) ⟨plain_name hname hn, hp, trivial⟩,
      by rw [hread, hname.token?_eq, he]; rfl⟩
  | .block body, hs, hk => by
    obtain ⟨hp, hb⟩ := stmts?_forms (b := body) hs hk
    have hread : (Stmt.block body).form.stmt? = (stmts? (Stmt.forms body)).map .block := by
      unfold Stmt.form stmt?
      rfl
    exact ⟨plain_list (by simp [heads]) hp, by rw [hread, hb]; rfl⟩
  | .ifThen c s, ⟨hc, hs, _⟩, ⟨hkc, hks⟩ => by
    obtain ⟨hpc, hcond⟩ := expr?_form hc hkc
    obtain ⟨hps, hthen⟩ := stmt?_form hs hks
    have hread : (Stmt.ifThen c s).form.stmt? =
        (do some (.ifThen (← c.form.expr?) (← s.form.stmt?))) := rfl
    exact ⟨plain_list (by simp [heads]) ⟨hpc, hps, trivial⟩, by rw [hread, hcond, hthen]; rfl⟩
  | .ifElse c s t, ⟨hc, ⟨hs, _⟩, ht, _⟩, ⟨hkc, hks, hkt⟩ => by
    obtain ⟨hpc, hcond⟩ := expr?_form hc hkc
    obtain ⟨hps, hthen⟩ := stmt?_form hs hks
    obtain ⟨hpt, helse⟩ := stmt?_form ht hkt
    have hread : (Stmt.ifElse c s t).form.stmt? =
        (do some (.ifElse (← c.form.expr?) (← s.form.stmt?) (← t.form.stmt?))) := rfl
    exact ⟨plain_list (by simp [heads]) ⟨hpc, hps, hpt, trivial⟩,
      by rw [hread, hcond, hthen, helse]; rfl⟩
  | .loop c s, ⟨hc, hs, _⟩, ⟨hkc, hks⟩ => by
    obtain ⟨hpc, hcond⟩ := expr?_form hc hkc
    obtain ⟨hps, hbody⟩ := stmt?_form hs hks
    have hread : (Stmt.loop c s).form.stmt? =
        (do some (.loop (← c.form.expr?) (← s.form.stmt?))) := rfl
    exact ⟨plain_list (by simp [heads]) ⟨hpc, hps, trivial⟩, by rw [hread, hcond, hbody]; rfl⟩
  | .function name params body, ⟨hn, ⟨hx, _⟩, hs⟩, ⟨hname, hkx, hk⟩ => by
    obtain ⟨hpx, hparams⟩ := names?_map hx hkx
    obtain ⟨hp, hb⟩ := stmts?_forms hs hk
    have hread : (Stmt.function name params body).form.stmt? =
        (do some (.function (← token? name.lexeme)
          (← names? (params.map fun x => .word x.lexeme)) (← stmts? (Stmt.forms body)))) := by
      unfold Stmt.form stmt?
      rfl
    exact ⟨plain_list (by simp [heads]) ⟨plain_name hname hn, hpx, hp⟩,
      by rw [hread, hname.token?_eq, hparams, hb]; rfl⟩
  | .ret keyword none, ⟨ht, _⟩, ⟨hkeyword, _⟩ => by
    have hread : (Stmt.ret keyword none).form.stmt? =
        (do some (.ret (← token? "return") none)) := rfl
    exact ⟨plain_list (by simp [heads]) trivial, by rw [hread, hkeyword.token?_return ht]; rfl⟩
  | .ret keyword (some e), ⟨ht, hs⟩, ⟨hkeyword, hk⟩ => by
    obtain ⟨hp, he⟩ := expr?_form (e := e) hs hk
    have hread : (Stmt.ret keyword (some e)).form.stmt? =
        (do some (.ret (← token? "return") (some (← e.form.expr?)))) := rfl
    exact ⟨plain_list (by simp [heads]) ⟨hp, trivial⟩,
      by rw [hread, hkeyword.token?_return ht, he]; rfl⟩

theorem stmts?_forms : ∀ {b : List Stmt}, Stmt.ListShaped b → Stmt.ListKept Token.Spelled b →
    ListPlain (Stmt.forms b) ∧ stmts? (Stmt.forms b) = some (Stmt.listBare b)
  | [], _, _ => ⟨trivial, rfl⟩
  | s :: rest, ⟨hs, hsr⟩, ⟨hk, hkr⟩ => by
    obtain ⟨hp, he⟩ := stmt?_form hs hk
    obtain ⟨hpr, hr⟩ := stmts?_forms hsr hkr
    refine ⟨⟨hp, hpr⟩, ?_⟩
    rw [Stmt.forms, stmts?, he, hr]
    rfl

end

end Lox
