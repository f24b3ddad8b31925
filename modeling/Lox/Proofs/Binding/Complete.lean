import Lox.Proofs.Binding.Visits

/-! The scopes at a visit: only the innermost may have a declaration that is not complete. -/

namespace Lox.Binding

def Complete (scopes : List Scope) : Prop :=
  ∀ scope ∈ scopes, ∀ name, scope.lookup name ≠ some false

lemma isSome_lookup_cons {x : Token} {complete : Bool} {scope : Scope} {name : String} :
    (((x.lexeme, complete) :: scope).lookup name).isSome =
      (name == x.lexeme || (scope.lookup name).isSome) := by
  rw [List.lookup_cons]
  cases name == x.lexeme <;> rfl

lemma length_enter (x : Token) (complete : Bool) (scopes : List Scope) :
    (enter x complete scopes).length = scopes.length := by
  cases scopes <;> rfl

lemma tail_enter (x : Token) (complete : Bool) (scopes : List Scope) :
    (enter x complete scopes).tail = scopes.tail := by
  cases scopes <;> rfl

lemma Complete.tail {scopes : List Scope} (h : Complete scopes) : Complete scopes.tail :=
  fun scope hs => h scope (List.mem_of_mem_tail hs)

lemma Complete.nil : Complete [] := fun _ hs => absurd hs List.not_mem_nil

lemma Complete.open {scopes : List Scope} (h : Complete scopes) : Complete ([] :: scopes) := by
  intro scope hs
  rcases List.mem_cons.1 hs with rfl | hs
  · simp
  · exact h scope hs

lemma Complete.declared {scopes : List Scope} (h : Complete scopes) (x : Token) :
    Complete (declared x scopes) := by
  cases scopes with
  | nil => exact .nil
  | cons scope outer =>
    intro scope' hs name
    rcases List.mem_cons.1 hs with rfl | hs
    · rw [List.lookup_cons]
      split
      · simp
      · next hne =>
        rw [List.lookup_cons, hne]
        exact h scope List.mem_cons_self name
    · exact h scope' (List.mem_cons_of_mem _ hs) name

lemma Complete.params {scopes : List Scope} (h : Complete scopes) (params : List Token) :
    Complete (paramScopes params scopes) := by
  have hfold : ∀ {scopes}, Complete scopes →
      Complete (params.foldl (fun scopes p => Binding.declared p scopes) scopes) := by
    induction params with
    | nil => exact id
    | cons p params ih => exact fun h => ih (h.declared p)
  exact hfold h.open

lemma Complete.after : ∀ (s : Stmt) {scopes : List Scope}, Complete scopes →
    Complete (scopesAfter s scopes)
  | .var x _, _, h | .function x _ _, _, h => h.declared x
  | .ifThen _ s, _, h | .loop _ s, _, h => Complete.after s h
  | .ifElse _ s t, _, h => Complete.after t (Complete.after s h)
  | .expression _, _, h | .print _, _, h | .block _, _, h | .ret _ _, _, h => h

mutual

lemma scopes_exprVisits {fn : Bool} {scopes : List Scope} : ∀ {e : Expr} {v : Visit},
    v ∈ exprVisits fn scopes e → v.scopes = scopes
  | .literal _, v, h | .ref _ _, v, h => by rw [List.mem_singleton.1 h]
  | .grouping e, v, h | .unary _ e, v, h => by
    rcases List.mem_cons.1 h with rfl | h
    · rfl
    · exact scopes_exprVisits h
  | .binary a _ b, v, h | .logical a _ b, v, h => by
    rcases List.mem_cons.1 h with rfl | h
    · rfl
    · exact (List.mem_append.1 h).elim scopes_exprVisits scopes_exprVisits
  | .assign _ _ e, v, h => by
    rcases List.mem_append.1 h with h | h
    · exact scopes_exprVisits h
    · rw [List.mem_singleton.1 h]
  | .call f _ args, v, h => by
    rcases List.mem_cons.1 h with rfl | h
    · rfl
    · exact (List.mem_append.1 h).elim scopes_exprVisits scopes_listVisits

lemma scopes_listVisits {fn : Bool} {scopes : List Scope} : ∀ {es : List Expr} {v : Visit},
    v ∈ listVisits fn scopes es → v.scopes = scopes
  | [], _, h => absurd h List.not_mem_nil
  | _ :: _, _, h => (List.mem_append.1 h).elim scopes_exprVisits scopes_listVisits

end

lemma scopes_optionVisits {fn : Bool} {scopes : List Scope} {e : Option Expr} {v : Visit}
    (h : v ∈ optionVisits fn scopes e) : v.scopes = scopes := by
  cases e with
  | none => cases h
  | some e => exact scopes_exprVisits h

mutual

lemma complete_stmtVisits : ∀ {fn : Bool} {scopes : List Scope} {s : Stmt} {v : Visit},
    Complete scopes → v ∈ stmtVisits fn scopes s → Complete v.scopes.tail
  | _, _, .expression _, _, hc, h | _, _, .print _, _, hc, h => by
    rcases List.mem_cons.1 h with rfl | h
    · exact hc.tail
    · rw [scopes_exprVisits h]
      exact hc.tail
  | _, _, .var x _, _, hc, h => by
    rcases List.mem_cons.1 h with rfl | h
    · exact hc.tail
    · rw [scopes_optionVisits h, tail_enter]
      exact hc.tail
  | _, _, .block _, _, hc, h => by
    rcases List.mem_cons.1 h with rfl | h
    · exact hc.tail
    · exact complete_stmtsVisits hc.open h
  | _, _, .ifThen _ _, _, hc, h | _, _, .loop _ _, _, hc, h => by
    rcases List.mem_cons.1 h with rfl | h
    · exact hc.tail
    rcases List.mem_append.1 h with h | h
    · rw [scopes_exprVisits h]
      exact hc.tail
    · exact complete_stmtVisits hc h
  | _, _, .ifElse _ s _, _, hc, h => by
    rcases List.mem_cons.1 h with rfl | h
    · exact hc.tail
    rcases List.mem_append.1 h with h | h
    · rcases List.mem_append.1 h with h | h
      · rw [scopes_exprVisits h]
        exact hc.tail
      · exact complete_stmtVisits hc h
    · exact complete_stmtVisits (Complete.after s hc) h
  | _, _, .function x params _, _, hc, h => by
    rcases List.mem_cons.1 h with rfl | h
    · exact hc.tail
    · exact complete_stmtsVisits ((hc.declared x).params params) h
  | _, _, .ret _ _, _, hc, h => by
    rcases List.mem_cons.1 h with rfl | h
    · exact hc.tail
    · rw [scopes_optionVisits h]
      exact hc.tail

lemma complete_stmtsVisits : ∀ {fn : Bool} {scopes : List Scope} {b : List Stmt} {v : Visit},
    Complete scopes → v ∈ stmtsVisits fn scopes b → Complete v.scopes.tail
  | _, _, [], _, _, h => absurd h List.not_mem_nil
  | _, _, s :: _, _, hc, h => (List.mem_append.1 h).elim (complete_stmtVisits hc)
      (complete_stmtsVisits (Complete.after s hc))

end

end Lox.Binding
