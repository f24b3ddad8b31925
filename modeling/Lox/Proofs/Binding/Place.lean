import Lox.Proofs.Binding.Visits
import Lox.Proofs.Grammar.Sites

/-!
Places in a program. A place is found by the parts that lead to it, counted in the order of the
source, and it knows the scopes around it: which statement of its own list each scope has there.
-/

namespace Lox

def Stmt.declared? : Stmt → Option Token
  | .var x _ | .function x _ _ => some x
  | _ => none

namespace Binding

/-- A scope around a place, with its parameters if it is that of a function. The place is in the
statement of the scope's own list that has the index. -/
structure Around where
  params? : Option (List Token)
  body : List Stmt
  index : ℕ

namespace Around

def params (a : Around) : List Token := a.params?.getD []

def statement? (a : Around) : Option Stmt := a.body[a.index]?

/-- The names declared before the place: as parameters, and by the scope's own statements up to that
which has the place in its body or its initializer. -/
def names (a : Around) : List String :=
  (a.params ++ (a.body.take (a.index + 1)).filterMap Stmt.declared?).map (·.lexeme)

def initializes (name : String) (a : Around) : Bool :=
  match a.statement? with
  | some (.var x _) => x.lexeme == name
  | _ => false

end Around

structure Place where
  around : List Around
  node : Node

def Node.parts : Node → List Node
  | .expr (.grouping e) | .expr (.unary _ e) | .expr (.assign _ _ e) => [.expr e]
  | .expr (.binary a _ b) | .expr (.logical a _ b) => [.expr a, .expr b]
  | .expr (.call f _ args) => .expr f :: args.map .expr
  | .stmt (.expression e) | .stmt (.print e) => [.expr e]
  | .stmt (.var _ e) | .stmt (.ret _ e) => e.toList.map .expr
  | .stmt (.ifThen c s) | .stmt (.loop c s) => [.expr c, .stmt s]
  | .stmt (.ifElse c s t) => [.expr c, .stmt s, .stmt t]
  | _ => []

namespace Place

def inScope (around : List Around) (params? : Option (List Token)) (body : List Stmt) :
    List Place :=
  body.mapIdx fun i s => ⟨⟨params?, body, i⟩ :: around, .stmt s⟩

def parts : Place → List Place
  | ⟨around, .stmt (.block body)⟩ => inScope around none body
  | ⟨around, .stmt (.function _ params body)⟩ => inScope around (some params) body
  | ⟨around, node⟩ => node.parts.map (⟨around, ·⟩)

def at? (π : Place) : List ℕ → Option Place
  | [] => some π
  | i :: p => π.parts[i]?.bind (at? · p)

def use? : Place → Option (SiteId × Token)
  | ⟨_, .expr (.ref site name)⟩ | ⟨_, .expr (.assign site name _)⟩ => some (site, name)
  | _ => none

/-- The place's own error: a variable in the initializer of a local variable of that name, or a
`return` that no function encloses. -/
def error? : Place → Option ScopeError
  | ⟨around, .expr (.ref _ name)⟩ =>
    if around.head?.any (·.initializes name.lexeme) then some ⟨.ownInitializer, name⟩ else none
  | ⟨around, .stmt (.ret keyword _)⟩ =>
    if around.any (·.params?.isSome) then none else some ⟨.returnOutsideFunction, keyword⟩
  | _ => none

end Place

def placeAt? (program : List Stmt) : List ℕ → Option Place
  | [] => none
  | i :: p => program[i]?.bind fun s => Place.at? ⟨[], .stmt s⟩ p

lemma Node.sizeOf_parts {n n' : Node} (h : n' ∈ n.parts) : sizeOf n' < sizeOf n := by
  have hlist : ∀ {es : List Expr}, n' ∈ es.map .expr → sizeOf n' < 1 + sizeOf es := by
    intro es hin
    obtain ⟨e, he, rfl⟩ := List.mem_map.1 hin
    have hlt := List.sizeOf_lt_of_mem he
    simp only [expr.sizeOf_spec]
    omega
  have hoption : ∀ {e : Option Expr}, n' ∈ e.toList.map .expr → sizeOf n' ≤ sizeOf e := by
    rintro (_ | e) hin
    · cases hin
    · obtain rfl := List.mem_singleton.1 hin
      simp only [expr.sizeOf_spec, Option.some.sizeOf_spec]
      omega
  cases n with
  | expr e =>
    cases e with
    | call f _ args =>
      simp only [expr.sizeOf_spec, Expr.call.sizeOf_spec]
      rcases List.mem_cons.1 h with rfl | h
      · simp only [expr.sizeOf_spec]
        omega
      · have hlt := hlist h
        omega
    | literal | ref => cases h
    | grouping | unary | assign =>
      obtain rfl := List.mem_singleton.1 h
      simp only [expr.sizeOf_spec, Expr.grouping.sizeOf_spec, Expr.unary.sizeOf_spec,
        Expr.assign.sizeOf_spec]
      omega
    | binary | logical =>
      rcases List.mem_pair.1 h with rfl | rfl
      all_goals
        simp only [expr.sizeOf_spec, Expr.binary.sizeOf_spec, Expr.logical.sizeOf_spec]
        omega
  | stmt s =>
    cases s with
    | var _ e | ret _ e =>
      have hle := hoption h
      simp only [stmt.sizeOf_spec, Stmt.var.sizeOf_spec, Stmt.ret.sizeOf_spec]
      omega
    | expression | print =>
      obtain rfl := List.mem_singleton.1 h
      simp only [expr.sizeOf_spec, stmt.sizeOf_spec, Stmt.expression.sizeOf_spec,
        Stmt.print.sizeOf_spec]
      omega
    | ifThen | loop =>
      rcases List.mem_pair.1 h with rfl | rfl
      all_goals
        simp only [expr.sizeOf_spec, stmt.sizeOf_spec, Stmt.ifThen.sizeOf_spec,
          Stmt.loop.sizeOf_spec]
        omega
    | ifElse =>
      simp only [parts, List.mem_cons, List.not_mem_nil, or_false] at h
      rcases h with rfl | rfl | rfl
      all_goals
        simp only [expr.sizeOf_spec, stmt.sizeOf_spec, Stmt.ifElse.sizeOf_spec]
        omega
    | block | function => cases h

namespace Place

lemma mem_inScope {around : List Around} {params? : Option (List Token)} {body : List Stmt}
    {π : Place} (h : π ∈ inScope around params? body) :
    ∃ i s, body[i]? = some s ∧ π = ⟨⟨params?, body, i⟩ :: around, .stmt s⟩ := by
  obtain ⟨i, hi⟩ := List.mem_iff_getElem?.1 h
  rw [inScope, List.getElem?_mapIdx, Option.map_eq_some_iff] at hi
  obtain ⟨s, hs, rfl⟩ := hi
  exact ⟨i, s, hs, rfl⟩

lemma sizeOf_parts {π π' : Place} (h : π' ∈ π.parts) : sizeOf π'.node < sizeOf π.node := by
  have hscope : ∀ {around params? body}, π' ∈ inScope around params? body →
      sizeOf π'.node < 1 + sizeOf body := by
    intro around params? body hin
    obtain ⟨i, s, hs, rfl⟩ := mem_inScope hin
    have hlt := List.sizeOf_lt_of_mem (List.mem_of_getElem? hs)
    simp only [Node.stmt.sizeOf_spec]
    omega
  obtain ⟨around, node⟩ := π
  have hnode : π' ∈ node.parts.map (⟨around, ·⟩) → sizeOf π'.node < sizeOf node := by
    intro hin
    obtain ⟨n, hn, rfl⟩ := List.mem_map.1 hin
    exact Node.sizeOf_parts hn
  cases node with
  | expr e => exact hnode h
  | stmt s =>
    cases s with
    | block body =>
      have hlt := hscope h
      simp only [Node.stmt.sizeOf_spec, Stmt.block.sizeOf_spec]
      omega
    | function name params body =>
      have hlt := hscope h
      simp only [Node.stmt.sizeOf_spec, Stmt.function.sizeOf_spec]
      omega
    | _ => exact hnode h

theorem induction {motive : Place → Prop}
    (step : ∀ π, (∀ π' ∈ π.parts, motive π') → motive π) (π : Place) : motive π :=
  step π fun π' _ => induction step π'
termination_by sizeOf π.node
decreasing_by exact sizeOf_parts ‹_›

end Place

end Binding

end Lox
