import Lox.Proofs.Grammar.Reads

/-! Reading other tokens of the same types: the tree has them in the same places. -/

namespace Lox

variable (f : Token → Token)

mutual

def Expr.mapTokens : Expr → Expr
  | .literal v => .literal v
  | .grouping e => .grouping e.mapTokens
  | .unary op e => .unary (f op) e.mapTokens
  | .binary a op b => .binary a.mapTokens (f op) b.mapTokens
  | .logical a op b => .logical a.mapTokens (f op) b.mapTokens
  | .ref site name => .ref site (f name)
  | .assign site name e => .assign site (f name) e.mapTokens
  | .call callee paren args => .call callee.mapTokens (f paren) (Expr.listMapTokens args)

def Expr.listMapTokens : List Expr → List Expr
  | [] => []
  | e :: rest => e.mapTokens :: Expr.listMapTokens rest

end

mutual

def Stmt.mapTokens : Stmt → Stmt
  | .expression e => .expression (e.mapTokens f)
  | .print e => .print (e.mapTokens f)
  | .var name e => .var (f name) (e.map (Expr.mapTokens f))
  | .block body => .block (Stmt.listMapTokens body)
  | .ifThen c s => .ifThen (c.mapTokens f) s.mapTokens
  | .ifElse c s t => .ifElse (c.mapTokens f) s.mapTokens t.mapTokens
  | .loop c s => .loop (c.mapTokens f) s.mapTokens
  | .function name params body => .function (f name) (params.map f) (Stmt.listMapTokens body)
  | .ret keyword e => .ret (f keyword) (e.map (Expr.mapTokens f))

def Stmt.listMapTokens : List Stmt → List Stmt
  | [] => []
  | s :: rest => s.mapTokens :: Stmt.listMapTokens rest

end

mutual

lemma Expr.mapTokens_id : ∀ e : Expr, e.mapTokens id = e
  | .literal _ | .ref _ _ => rfl
  | .grouping e => congrArg Expr.grouping e.mapTokens_id
  | .unary op e => congrArg (Expr.unary op) e.mapTokens_id
  | .binary a op b => by rw [mapTokens, a.mapTokens_id, b.mapTokens_id, id]
  | .logical a op b => by rw [mapTokens, a.mapTokens_id, b.mapTokens_id, id]
  | .assign site name e => congrArg (Expr.assign site name) e.mapTokens_id
  | .call callee paren args => by
    rw [mapTokens, callee.mapTokens_id, Expr.listMapTokens_id args, id]

lemma Expr.listMapTokens_id : ∀ es : List Expr, Expr.listMapTokens id es = es
  | [] => rfl
  | e :: rest => by rw [listMapTokens, e.mapTokens_id, Expr.listMapTokens_id rest]

end

lemma Expr.optionMapTokens_id (e : Option Expr) : e.map (Expr.mapTokens id) = e := by
  cases e with
  | none => rfl
  | some e => exact congrArg some e.mapTokens_id

mutual

lemma Stmt.mapTokens_id : ∀ s : Stmt, s.mapTokens id = s
  | .expression e => congrArg Stmt.expression e.mapTokens_id
  | .print e => congrArg Stmt.print e.mapTokens_id
  | .var name e => congrArg (Stmt.var name) (Expr.optionMapTokens_id e)
  | .block body => congrArg Stmt.block (Stmt.listMapTokens_id body)
  | .ifThen c s => by rw [mapTokens, c.mapTokens_id, s.mapTokens_id]
  | .ifElse c s t => by rw [mapTokens, c.mapTokens_id, s.mapTokens_id, t.mapTokens_id]
  | .loop c s => by rw [mapTokens, c.mapTokens_id, s.mapTokens_id]
  | .function name params body => by
    rw [mapTokens, List.map_id, Stmt.listMapTokens_id body, id]
  | .ret keyword e => congrArg (Stmt.ret keyword) (Expr.optionMapTokens_id e)

lemma Stmt.listMapTokens_id : ∀ b : List Stmt, Stmt.listMapTokens id b = b
  | [] => rfl
  | s :: rest => by rw [listMapTokens, s.mapTokens_id, Stmt.listMapTokens_id rest]

end

lemma Expr.listMapTokens_append (a b : List Expr) :
    Expr.listMapTokens f (a ++ b) = Expr.listMapTokens f a ++ Expr.listMapTokens f b := by
  induction a with
  | nil => rfl
  | cons e a ih => rw [List.cons_append, listMapTokens, ih, listMapTokens, List.cons_append]

lemma Expr.length_listMapTokens (es : List Expr) :
    (Expr.listMapTokens f es).length = es.length := by
  induction es with
  | nil => rfl
  | cons e es ih => rw [listMapTokens, List.length_cons, List.length_cons, ih]

namespace Grammar

variable {f} (hf : ∀ t, (f t).type = t.type)

def ExprRule.mapTokens (f : Token → Token) : ExprRule → ExprRule
  | .operations l tighter left => .operations l tighter (left.mapTokens f)
  | .calls callee => .calls (callee.mapTokens f)
  | .arguments callee args => .arguments (callee.mapTokens f) (Expr.listMapTokens f args)
  | r => r

include hf

lemma ahead_map (ts : List Token) (a : Ahead) : ahead (ts.map f) a = ahead ts a := by
  cases ts with
  | nil => rfl
  | cons t ts => simp [hf]

omit hf in
lemma mapTokens_node {l : Level} {tighter : List Level} (h : l :: tighter <:+ levels)
    (left right : Expr) (op : Token) :
    (l.node left op right).mapTokens f = l.node (left.mapTokens f) (f op) (right.mapTokens f) := by
  rcases node_of_mem (h.subset List.mem_cons_self) with hl | hl <;> rw [hl] <;> rfl

def ExprRule.Leveled : ExprRule → Prop
  | .joined ls => ls <:+ levels
  | .operations l tighter _ => l :: tighter <:+ levels
  | _ => True

lemma ReadsExpr.map {r : ExprRule} {e : Expr} {u : List Token} {i j : SiteId} {a : Ahead}
    (h : ReadsExpr r e u i j a) (hr : r.Leveled) :
    ReadsExpr (r.mapTokens f) (e.mapTokens f) (u.map f) i j a := by
  induction h with
  | operand _ ha ih => exact .operand (ih List.suffix_rfl) ha
  | assign _ he _ iht ihv =>
    have hop := iht List.suffix_rfl
    rw [← hf] at hop
    rw [List.map_append, List.map_cons]
    exact .assign hop (by rwa [hf]) (ihv trivial)
  | tightest _ ih => exact .tightest (ih trivial)
  | level _ _ ihf ihe =>
    have hfirst := ihf ((List.suffix_cons _ _).trans hr)
    rw [← ahead_map hf] at hfirst
    rw [List.map_append]
    exact .level hfirst (ihe hr)
  | noOperator ha => exact .noOperator ha
  | operator ho _ _ ihr ihe =>
    have hright := ihr ((List.suffix_cons _ _).trans hr)
    have hrest := ihe hr
    rw [← ahead_map hf] at hright
    rw [ExprRule.mapTokens, mapTokens_node hr] at hrest
    rw [List.map_cons, List.map_append]
    exact .operator (by rwa [hf]) hright hrest
  | sign ho _ ih => exact .sign (by rwa [hf]) (ih trivial)
  | call _ _ ihf ihe =>
    have hfirst := ihf trivial
    rw [← ahead_map hf] at hfirst
    rw [List.map_append]
    exact .call hfirst (ihe trivial)
  | literal hl => exact .literal (by rwa [hf])
  | name ht => exact .name (by rwa [hf])
  | grouping ho _ hc ih =>
    have hinner := ih trivial
    rw [← hf] at hinner
    rw [List.map_cons, List.map_append]
    exact .grouping (by rwa [hf]) hinner (by rwa [hf])
  | noCall ha => exact .noCall ha
  | callWithout ho hc _ ih => exact .callWithout (by rwa [hf]) (by rwa [hf]) (ih trivial)
  | callWith ho _ ih => exact .callWith (by rwa [hf]) (ih trivial)
  | argument hn _ ht _ ihe ih =>
    have harg := ihe trivial
    have hrest := ih trivial
    rw [← hf] at harg
    rw [ExprRule.mapTokens, Expr.listMapTokens_append] at hrest
    rw [List.map_append, List.map_cons]
    exact .argument (by rwa [Expr.length_listMapTokens]) harg (by rwa [hf]) hrest
  | lastArgument hn _ ht _ ihe ih =>
    have harg := ihe trivial
    have hrest := ih trivial
    rw [← hf] at harg
    rw [ExprRule.mapTokens, Expr.mapTokens, Expr.listMapTokens_append] at hrest
    rw [List.map_append, List.map_cons]
    exact .lastArgument (by rwa [Expr.length_listMapTokens]) harg (by rwa [hf]) hrest

lemma ReadsOptional.map {finish : Punct} {e : Option Expr} {u : List Token} {i j : SiteId}
    {a : Ahead} (h : ReadsOptional finish e u i j a) :
    ReadsOptional finish (e.map (Expr.mapTokens f)) (u.map f) i j a := by
  cases h with
  | none ha => exact .none ha
  | some he => exact .some (he.map hf trivial)

lemma ReadsVar.map {s : Stmt} {u : List Token} {i j : SiteId} {a : Ahead}
    (h : ReadsVar s u i j a) : ReadsVar (s.mapTokens f) (u.map f) i j a := by
  cases h with
  | plain hn hs => exact .plain (by rwa [hf]) (by rwa [hf])
  | initialized hn heq he hs =>
    have hvalue := he.map hf trivial
    rw [← hf] at hvalue
    rw [List.map_cons, List.map_cons, List.map_append]
    exact .initialized (by rwa [hf]) (by rwa [hf]) hvalue (by rwa [hf])

lemma ReadsInitializer.map {s : Option Stmt} {u : List Token} {i j : SiteId} {a : Ahead}
    (h : ReadsInitializer s u i j a) :
    ReadsInitializer (s.map (Stmt.mapTokens f)) (u.map f) i j a := by
  cases h with
  | none hs => exact .none (by rwa [hf])
  | var hk hv => exact .var (by rwa [hf]) (hv.map hf)
  | expression he hs =>
    have hvalue := he.map hf trivial
    rw [← hf] at hvalue
    rw [List.map_append]
    exact .expression hvalue (by rwa [hf])

lemma ReadsParams.map {n : ℕ} {xs u : List Token} {i j : SiteId} {a : Ahead}
    (h : ReadsParams n xs u i j a) : ReadsParams n (xs.map f) (u.map f) i j a := by
  induction h with
  | last hn hx ha => exact .last hn (by rwa [hf]) ha
  | more hn hx ht _ ih => exact .more hn (by rwa [hf]) (by rwa [hf]) ih

lemma ReadsParamList.map {xs u : List Token} {i j : SiteId} {a : Ahead}
    (h : ReadsParamList xs u i j a) : ReadsParamList (xs.map f) (u.map f) i j a := by
  cases h with
  | none ha => exact .none ha
  | some h => exact .some (h.map hf)

omit hf in
lemma mapTokens_forLoop (initializer : Option Stmt) (condition increment : Option Expr)
    (body : Stmt) :
    (forLoop initializer condition increment body).mapTokens f =
      forLoop (initializer.map (Stmt.mapTokens f)) (condition.map (Expr.mapTokens f))
        (increment.map (Expr.mapTokens f)) (body.mapTokens f) := by
  cases initializer <;> cases condition <;> cases increment <;> rfl

mutual

lemma ReadsStmt.map : ∀ {s u i j a}, ReadsStmt s u i j a →
    ReadsStmt (s.mapTokens f) (u.map f) i j a
  | _, _, _, _, _, .expression he hs => by
    have hvalue := he.map hf trivial
    rw [← hf] at hvalue
    rw [List.map_append]
    exact .expression hvalue (by rwa [hf])
  | _, _, _, _, _, .rule h => .rule (ReadsRule.map h)

lemma ReadsRule.map : ∀ {t s u i j a}, ReadsRule t s u i j a →
    ReadsRule (f t) (s.mapTokens f) (u.map f) i j a
  | _, _, _, _, _, _, .print hk he hs => by
    have hvalue := he.map hf trivial
    rw [← hf] at hvalue
    rw [List.map_append]
    exact .print (by rwa [hf]) hvalue (by rwa [hf])
  | _, _, _, _, _, _, .ret hk he hs => by
    have hvalue := he.map hf
    rw [← hf] at hvalue
    rw [List.map_append]
    exact .ret (by rwa [hf]) hvalue (by rwa [hf])
  | _, _, _, _, _, _, .loop hk ho he hc hs => by
    have hcond := he.map hf trivial
    rw [← hf] at hcond
    rw [List.map_cons, List.map_append, List.map_cons]
    exact .loop (by rwa [hf]) (by rwa [hf]) hcond (by rwa [hf]) (ReadsStmt.map hs)
  | _, _, _, _, _, _, .ifThen hk ho he hc hs ha => by
    have hcond := he.map hf trivial
    rw [← hf] at hcond
    rw [List.map_cons, List.map_append, List.map_cons]
    exact .ifThen (by rwa [hf]) (by rwa [hf]) hcond (by rwa [hf]) (ReadsStmt.map hs) ha
  | _, _, _, _, _, _, .ifElse hk ho he hc hs hl ht => by
    have hcond := he.map hf trivial
    have hthen := ReadsStmt.map hs
    rw [← hf] at hcond hthen
    simp only [List.map_cons, List.map_append]
    exact .ifElse (by rwa [hf]) (by rwa [hf]) hcond (by rwa [hf]) hthen (by rwa [hf])
      (ReadsStmt.map ht)
  | _, _, _, _, _, _, .forLoop hk ho hi hv hs hw hc hb => by
    have hinit := hi.map hf
    have hcond := hv.map hf
    have hincr := hw.map hf
    rw [← hf] at hinit hcond hincr
    rw [← ahead_map hf] at hinit
    rw [mapTokens_forLoop]
    simp only [List.map_cons, List.map_append]
    exact .forLoop (by rwa [hf]) (by rwa [hf]) hinit hcond (by rwa [hf]) hincr (by rwa [hf])
      (ReadsStmt.map hb)
  | _, _, _, _, _, _, .block ho hb hc => by
    have hbody := ReadsDecls.map hb
    rw [← hf] at hbody
    rw [List.map_append]
    exact .block (by rwa [hf]) hbody (by rwa [hf])

lemma ReadsFunction.map : ∀ {s u i j a}, ReadsFunction s u i j a →
    ReadsFunction (s.mapTokens f) (u.map f) i j a
  | _, _, _, _, _, .mk hn ho hp hc hb hd he => by
    have hparams := hp.map hf
    have hbody := ReadsDecls.map hd
    rw [← hf] at hparams hbody
    simp only [List.map_cons, List.map_append]
    exact .mk (by rwa [hf]) (by rwa [hf]) hparams (by rwa [hf]) (by rwa [hf]) hbody (by rwa [hf])

lemma ReadsDecl.map : ∀ {s u i j a}, ReadsDecl s u i j a →
    ReadsDecl (s.mapTokens f) (u.map f) i j a
  | _, _, _, _, _, .function hk hs => .function (by rwa [hf]) (ReadsFunction.map hs)
  | _, _, _, _, _, .var hk hv => .var (by rwa [hf]) (hv.map hf)
  | _, _, _, _, _, .statement hs => .statement (ReadsStmt.map hs)

theorem ReadsDecls.map : ∀ {b u i j a}, ReadsDecls b u i j a →
    ReadsDecls (Stmt.listMapTokens f b) (u.map f) i j a
  | _, _, _, _, _, .nil => .nil
  | _, _, _, _, _, .cons hs hb => by
    have hdecl := ReadsDecl.map hs
    rw [← ahead_map hf] at hdecl
    rw [List.map_append]
    exact .cons hdecl (ReadsDecls.map hb)

end

end Grammar

end Lox
