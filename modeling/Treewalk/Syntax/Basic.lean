import Treewalk.Number.Basic
import Treewalk.Syntax.Operator

/-!
# Programs

A program is a `Node`: one statement, most often a block, or one expression. Every node carries
the line it stands on. The bodies of conditionals, loops and functions are rows of statements.
-/

set_option autoImplicit false
set_option relaxedAutoImplicit false

namespace Treewalk

abbrev Line := Nat

/-- The line of a node that was given none. -/
def Line.initial : Line := 1

def Line.text (line : Line) : String :=
  "line " ++ Nat.repr line

inductive Expr where
  | int (value : Int64) (line : Line)
  | float (value : Number) (line : Line)
  | bool (value : Bool) (line : Line)
  | str (value : String) (line : Line)
  | identifier (name : String) (line : Line)
  | grouping (inner : Expr) (line : Line)
  | unary (operator : UnaryOp) (right : Expr) (line : Line)
  | binary (left : Expr) (operator : BinaryOp) (right : Expr) (line : Line)
  | logical (left : Expr) (operator : LogicalOp) (right : Expr) (line : Line)
  | call (name : String) (arguments : List Expr) (line : Line)

def Expr.line : Expr → Line
  | int _ line | float _ line | bool _ line | str _ line | identifier _ line | grouping _ line
  | unary _ _ line | binary _ _ _ line | logical _ _ _ line | call _ _ line => line

/-- What a print statement writes after its text. -/
inductive LineEnding where
  | newline
  | none
  deriving DecidableEq

def LineEnding.text : LineEnding → String
  | newline => "\n"
  | none => ""

inductive Stmt where
  | block (body : List Stmt) (line : Line)
  | print (value : Expr) (ending : LineEnding) (line : Line)
  | ifThen (condition : Expr) (body : List Stmt) (line : Line)
  | ifElse (condition : Expr) (body fallback : List Stmt) (line : Line)
  | whileLoop (condition : Expr) (body : List Stmt) (line : Line)
  | forLoop (counter : String) (start stop : Expr) (step : Option Expr) (body : List Stmt)
    (line : Line)
  | assign (name : String) (value : Expr) (line : Line)
  | declare (name : String) (value : Option Expr) (line : Line)
  | function (name : String) (parameters : List String) (body : List Stmt) (line : Line)
  | call (name : String) (arguments : List Expr) (line : Line)
  | ret (value : Option Expr) (line : Line)

def Stmt.line : Stmt → Line
  | block _ line | print _ _ line | ifThen _ _ line | ifElse _ _ _ line | whileLoop _ _ line
  | forLoop _ _ _ _ _ line | assign _ _ line | declare _ _ line | function _ _ _ line
  | call _ _ line | ret _ line => line

/-- A declared function: what a function statement leaves in the frame it is run in. -/
structure Function where
  name : String
  parameters : List String
  body : List Stmt
  line : Line

inductive Node where
  | stmt (root : Stmt)
  | expr (root : Expr)

def Node.line : Node → Line
  | stmt root => root.line
  | expr root => root.line

end Treewalk
