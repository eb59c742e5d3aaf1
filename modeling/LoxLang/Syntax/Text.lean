import LoxLang.Number.Text
import LoxLang.Syntax.Basic

/-!
# The parenthesised text of a program

A program is shown in prefix form, every node in parentheses with its parts behind it: the text
of `1 - 2 - 3` is `(- (- 1.0 2.0) 3.0)`, so the text shows how an expression was read.
-/

namespace LoxLang

/-- The text of a constant. -/
def Literal.text : Literal → String
  | .nil => "nil"
  | .bool true => "true"
  | .bool false => "false"
  | .number x => Number.treeText x
  | .string s => s

/-- Parts in parentheses, with blanks between them. -/
def parenthesised (parts : List String) : String := "(" ++ String.intercalate " " parts ++ ")"

mutual

/-- The text of an expression. -/
def Expr.text : Expr → String
  | .literal value => value.text
  | .grouping inner => parenthesised ["group", inner.text]
  | .unary operator right => parenthesised [operator.lexeme, right.text]
  | .binary left operator right => parenthesised [operator.lexeme, left.text, right.text]
  | .logical left operator right => parenthesised [operator.lexeme, left.text, right.text]
  | .variable _ name => name.lexeme
  | .assign _ name value => parenthesised ["=", name.lexeme, value.text]
  | .call callee _ arguments => parenthesised ("call" :: callee.text :: Expr.texts arguments)
  | .get object name => parenthesised [".", object.text, name.lexeme]
  | .set object name value => parenthesised [".=", object.text, name.lexeme, value.text]
  | .this _ _ => "this"
  | .super _ _ method => parenthesised ["super", method.lexeme]

/-- The texts of several expressions. -/
def Expr.texts : List Expr → List String
  | [] => []
  | e :: rest => e.text :: Expr.texts rest

end

/-- The head of a function or method: its name and parameters. -/
def FunDecl.head (name : Token) (params : List Token) : String :=
  name.lexeme ++ "(" ++ String.intercalate " " (params.map Token.lexeme) ++ ")"

mutual

/-- The text of a statement. -/
def Stmt.text : Stmt → String
  | .expression e => parenthesised [";", e.text]
  | .print e => parenthesised ["print", e.text]
  | .var name none => parenthesised ["var", name.lexeme]
  | .var name (some e) => parenthesised ["var", name.lexeme, e.text]
  | .block body => parenthesised ("block" :: Stmt.texts body)
  | .ifThen condition thenBranch none =>
    parenthesised ["if", condition.text, thenBranch.text]
  | .ifThen condition thenBranch (some elseBranch) =>
    parenthesised ["if", condition.text, thenBranch.text, elseBranch.text]
  | .whileLoop condition body => parenthesised ["while", condition.text, body.text]
  | .breakLoop _ => "(break)"
  | .returnValue _ none => "(return)"
  | .returnValue _ (some e) => parenthesised ["return", e.text]
  | .function decl => "(fun " ++ decl.text ++ ")"
  | .classDecl name none methods => parenthesised ("class" :: name.lexeme :: FunDecl.texts methods)
  | .classDecl name (some superclass) methods =>
    parenthesised ("class" :: name.lexeme :: "<" :: superclass.text :: FunDecl.texts methods)

/-- The texts of several statements. -/
def Stmt.texts : List Stmt → List String
  | [] => []
  | s :: rest => s.text :: Stmt.texts rest

/-- The text of a function declaration, without parentheses around it. -/
def FunDecl.text : FunDecl → String
  | .mk name params body =>
    String.intercalate " " (FunDecl.head name params :: Stmt.texts body)

/-- The texts of methods, each in parentheses. -/
def FunDecl.texts : List FunDecl → List String
  | [] => []
  | d :: rest => parenthesised [d.text] :: FunDecl.texts rest

end

end LoxLang
