import Lox.Syntax.Basic

/-! Other numbers for the variable sites of a tree. -/

namespace Lox

variable (g : SiteId → SiteId)

mutual

def Expr.mapSites : Expr → Expr
  | .literal v => .literal v
  | .grouping e => .grouping e.mapSites
  | .unary op e => .unary op e.mapSites
  | .binary a op b => .binary a.mapSites op b.mapSites
  | .logical a op b => .logical a.mapSites op b.mapSites
  | .ref site name => .ref (g site) name
  | .assign site name e => .assign (g site) name e.mapSites
  | .call callee paren args => .call callee.mapSites paren (Expr.listMapSites args)

def Expr.listMapSites : List Expr → List Expr
  | [] => []
  | e :: rest => e.mapSites :: Expr.listMapSites rest

end

mutual

def Stmt.mapSites : Stmt → Stmt
  | .expression e => .expression (e.mapSites g)
  | .print e => .print (e.mapSites g)
  | .var name e => .var name (e.map (Expr.mapSites g))
  | .block body => .block (Stmt.listMapSites body)
  | .ifThen c s => .ifThen (c.mapSites g) s.mapSites
  | .ifElse c s t => .ifElse (c.mapSites g) s.mapSites t.mapSites
  | .loop c s => .loop (c.mapSites g) s.mapSites
  | .function name params body => .function name params (Stmt.listMapSites body)
  | .ret keyword e => .ret keyword (e.map (Expr.mapSites g))

def Stmt.listMapSites : List Stmt → List Stmt
  | [] => []
  | s :: rest => s.mapSites :: Stmt.listMapSites rest

end

end Lox
