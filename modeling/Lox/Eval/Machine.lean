import Lox.Eval.World

/-!
Running a program, one small step at a time. A machine holds what it is doing now, what remains to
be done after that, the latest first, and the world. A statement that ends normally yields a value
as an expression does; nothing looks at it.
-/

namespace Lox

namespace Machine

inductive Control where
  | eval (e : Expr)
  | exec (s : Stmt)
  | yield (v : Value)
  | returning (v : Value)
  | failing (e : RuntimeError)

inductive Pending where
  | unary (operator : Token)
  | binaryLeft (operator : Token) (right : Expr)
  | binaryRight (left : Value) (operator : Token)
  | logicalLeft (operator : Token) (right : Expr)
  | assign (site : SiteId) (name : Token)
  | callee (paren : Token) (arguments : List Expr)
  | argument (callee : Value) (paren : Token) (evaluated : List Value) (rest : List Expr)
  | print (line? : Option Nat)
  | bind (name : Token)
  | branch (thenBranch : Stmt) (elseBranch : Option Stmt)
  | loopTest (condition : Expr) (body : Stmt)
  | loopBody (condition : Expr) (body : Stmt)
  | giveBack
  | sequence (rest : List Stmt)
  | leaveBlock (outer : FrameId)
  | leaveCall (caller : FrameId) (callerLine : Nat)

def Control.ofExcept (line : Nat) : Except RuntimeFault Value → Control
  | .ok v => .yield v
  | .error fault => .failing ⟨fault, line⟩

end Machine

structure Machine where
  control : Machine.Control
  pending : List Machine.Pending
  world : World

namespace Machine

def apply (setting : Setting) (callee : Value) (paren : Token) (args : List Value)
    (pending : List Pending) (w : World) : Machine :=
  match callee with
  | .function _ declaration closure =>
    match w.refusal? setting declaration.params.length args with
    | some fault => ⟨.failing ⟨fault, paren.line⟩, pending, w⟩
    | none =>
      let pending := .sequence declaration.body :: .leaveCall w.env w.callLine :: pending
      ⟨.yield .nil, pending, w.enterCall closure declaration.params args paren.line⟩
  | .native index =>
    match setting.natives[index]? with
    | none => ⟨.failing ⟨.notCallable, paren.line⟩, pending, w⟩
    | some native =>
      match w.refusal? setting native.arity args with
      | some fault => ⟨.failing ⟨fault, paren.line⟩, pending, w⟩
      | none =>
        let inner := w.enterNative paren.line
        let result := (native.call w.clock.now args).mapError .native
        ⟨.ofExcept inner.callLine result, pending, inner.tick.leaveCall w.env w.callLine⟩
  | _ => ⟨.failing ⟨.notCallable, paren.line⟩, pending, w⟩

def nextArgument (setting : Setting) (callee : Value) (paren : Token) (evaluated : List Value)
    (rest : List Expr) (pending : List Pending) (w : World) : Machine :=
  match rest with
  | [] => apply setting callee paren evaluated.reverse pending w
  | e :: rest => ⟨.eval e, .argument callee paren evaluated rest :: pending, w⟩

def stepExpr (setting : Setting) (e : Expr) (pending : List Pending) (w : World) : Machine :=
  match e with
  | .literal value => ⟨.yield value.value, pending, w⟩
  | .grouping inner => ⟨.eval inner, pending, w⟩
  | .unary operator right => ⟨.eval right, .unary operator :: pending, w⟩
  | .binary left operator right => ⟨.eval left, .binaryLeft operator right :: pending, w⟩
  | .logical left operator right => ⟨.eval left, .logicalLeft operator right :: pending, w⟩
  | .ref site name =>
    match w.lookUp? setting site name.lexeme with
    | some v => ⟨.yield v, pending, w⟩
    | none => ⟨.failing (.undefined name), pending, w⟩
  | .assign site name value => ⟨.eval value, .assign site name :: pending, w⟩
  | .call callee paren arguments => ⟨.eval callee, .callee paren arguments :: pending, w⟩

def stepStmt (s : Stmt) (pending : List Pending) (w : World) : Machine :=
  match s with
  | .expression e => ⟨.eval e, pending, w⟩
  | .print e => ⟨.eval e, .print e.line? :: pending, w⟩
  | .var name none => ⟨.yield .nil, pending, w.bind name.lexeme .nil⟩
  | .var name (some e) => ⟨.eval e, .bind name :: pending, w⟩
  | .block body =>
    let pending := .sequence body :: .leaveBlock w.env :: pending
    ⟨.yield .nil, pending, w.enterBlock⟩
  | .ifThen condition thenBranch => ⟨.eval condition, .branch thenBranch none :: pending, w⟩
  | .ifElse condition thenBranch elseBranch =>
    ⟨.eval condition, .branch thenBranch (some elseBranch) :: pending, w⟩
  | .loop condition body => ⟨.eval condition, .loopTest condition body :: pending, w⟩
  | .function name params body => ⟨.yield .nil, pending, w.declare ⟨name, params, body⟩⟩
  | .ret _ none => ⟨.returning .nil, pending, w⟩
  | .ret _ (some e) => ⟨.eval e, .giveBack :: pending, w⟩

def print (line? : Option Nat) (v : Value) (pending : List Pending) (w : World) : Machine :=
  match w.print v with
  | (true, w) => ⟨.yield .nil, pending, w⟩
  | (false, w) => ⟨.failing ⟨.output w.out.reason, line?.getD w.callLine⟩, pending, w⟩

def stepValue (setting : Setting) (v : Value) (next : Pending) (pending : List Pending)
    (w : World) : Machine :=
  match next with
  | .unary operator => ⟨.ofExcept operator.line (v.unary operator.type), pending, w⟩
  | .binaryLeft operator right => ⟨.eval right, .binaryRight v operator :: pending, w⟩
  | .binaryRight left operator =>
    ⟨.ofExcept operator.line (left.binary operator.type v), pending, w⟩
  | .logicalLeft operator right =>
    if v.decides operator.type then ⟨.yield v, pending, w⟩ else ⟨.eval right, pending, w⟩
  | .assign site name =>
    match w.target? setting site name.lexeme with
    | some f => ⟨.yield v, pending, w.define f name.lexeme v⟩
    | none => ⟨.failing (.undefined name), pending, w⟩
  | .callee paren arguments => nextArgument setting v paren [] arguments pending w
  | .argument callee paren evaluated rest =>
    nextArgument setting callee paren (v :: evaluated) rest pending w
  | .print line? => print line? v pending w
  | .bind name => ⟨.yield .nil, pending, w.bind name.lexeme v⟩
  | .branch thenBranch elseBranch =>
    if v.isTruthy then ⟨.exec thenBranch, pending, w⟩
    else match elseBranch with
      | some s => ⟨.exec s, pending, w⟩
      | none => ⟨.yield .nil, pending, w⟩
  | .loopTest condition body =>
    if v.isTruthy then ⟨.exec body, .loopBody condition body :: pending, w⟩
    else ⟨.yield .nil, pending, w⟩
  | .loopBody condition body => ⟨.eval condition, .loopTest condition body :: pending, w⟩
  | .giveBack => ⟨.returning v, pending, w⟩
  | .sequence [] => ⟨.yield .nil, pending, w⟩
  | .sequence (s :: rest) => ⟨.exec s, .sequence rest :: pending, w⟩
  | .leaveBlock outer => ⟨.yield .nil, pending, w.leaveBlock outer⟩
  | .leaveCall caller callerLine => ⟨.yield .nil, pending, w.leaveCall caller callerLine⟩

/-- A returned value passes by all that remains up to the end of the call. -/
def stepReturn (v : Value) (next : Pending) (pending : List Pending) (w : World) : Machine :=
  match next with
  | .leaveBlock outer => ⟨.returning v, pending, w.leaveBlock outer⟩
  | .leaveCall caller callerLine => ⟨.yield v, pending, w.leaveCall caller callerLine⟩
  | _ => ⟨.returning v, pending, w⟩

def stepFailure (e : RuntimeError) (next : Pending) (pending : List Pending) (w : World) :
    Machine :=
  match next with
  | .leaveBlock outer => ⟨.failing e, pending, w.leaveBlock outer⟩
  | .leaveCall caller callerLine => ⟨.failing e, pending, w.leaveCall caller callerLine⟩
  | _ => ⟨.failing e, pending, w⟩

def step (setting : Setting) : Machine → Machine
  | ⟨.eval e, pending, w⟩ => stepExpr setting e pending w
  | ⟨.exec s, pending, w⟩ => stepStmt s pending w
  | ⟨.yield v, next :: pending, w⟩ => stepValue setting v next pending w
  | ⟨.returning v, next :: pending, w⟩ => stepReturn v next pending w
  | ⟨.failing e, next :: pending, w⟩ => stepFailure e next pending w
  | ⟨control, [], w⟩ => ⟨control, [], w⟩

def isOver : Machine → Bool
  | ⟨.yield _, [], _⟩ | ⟨.returning _, [], _⟩ | ⟨.failing _, [], _⟩ => true
  | _ => false

def run (setting : Setting) : Nat → Machine → Machine
  | 0, m => m
  | n + 1, m => if m.isOver then m else run setting n (m.step setting)

def load (program : List Stmt) (w : World) : Machine := ⟨.yield .nil, [.sequence program], w⟩

def evaluating (e : Expr) (w : World) : Machine := ⟨.eval e, [], w⟩

def result? : Machine → Option (Except RuntimeError Value)
  | ⟨.yield v, [], _⟩ | ⟨.returning v, [], _⟩ => some (.ok v)
  | ⟨.failing e, [], _⟩ => some (.error e)
  | _ => none

end Machine

end Lox
