import Lox.Syntax.Basic

/-!
What can be wrong with a token list.
-/

namespace Lox

inductive Expected where
  | expression
  | functionName | functionParen | parameterName | parametersEnd | functionBody
  | variableName | variableEnd
  | forParen | loopConditionEnd | forClausesEnd
  | ifParen | ifConditionEnd
  | whileParen | whileConditionEnd
  | printEnd | returnEnd | expressionEnd
  | blockEnd | argumentsEnd | groupingEnd
deriving DecidableEq, Repr

namespace Expected

def message : Expected → String
  | expression => "Expect expression."
  | functionName => "Expect function name."
  | functionParen => "Expect '(' after function name."
  | parameterName => "Expect parameter name."
  | parametersEnd => "Expect ')' after parameters."
  | functionBody => "Expect '\x7b' before function body."
  | variableName => "Expect variable name."
  | variableEnd => "Expect ';' after variable declaration."
  | forParen => "Expect '(' after 'for'."
  | loopConditionEnd => "Expect ';' after loop condition."
  | forClausesEnd => "Expect ')' after for clauses."
  | ifParen => "Expect '(' after 'if'."
  | ifConditionEnd => "Expect ')' after if condition."
  | whileParen => "Expect '(' after 'while'."
  | whileConditionEnd => "Expect ')' after condition."
  | printEnd => "Expect ';' after value."
  | returnEnd => "Expect ';' after return value."
  | expressionEnd => "Expect ';' after expression."
  | blockEnd => "Expect '\x7d' after block."
  | argumentsEnd => "Expect ')' after arguments."
  | groupingEnd => "Expect ')' after expression."

end Expected

inductive SyntaxFault where
  | missing (what : Expected)
  | invalidAssignmentTarget
  | tooManyArguments
  | tooManyParameters
deriving DecidableEq, Repr

namespace SyntaxFault

def message : SyntaxFault → String
  | missing what => what.message
  | invalidAssignmentTarget => "Invalid assignment target."
  | tooManyArguments => "Can't have more than 255 arguments."
  | tooManyParameters => "Can't have more than 255 parameters."

end SyntaxFault

structure SyntaxError where
  fault : SyntaxFault
  found : Option Token

end Lox
