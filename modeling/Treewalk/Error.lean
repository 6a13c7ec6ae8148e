import Treewalk.Syntax.Basic
import Treewalk.Value

/-!
# Runtime errors

A `Fault` is the cause of a failed evaluation, and a `RuntimeError` is a fault with the line that
it is charged to. `message` and `report` are the texts shown of it; `category` names its cause
alone.
-/

set_option autoImplicit false
set_option relaxedAutoImplicit false

namespace Treewalk

/-- The constructs that ask for a boolean. -/
inductive Construct where
  | ifStatement
  | whileLoop
  deriving DecidableEq

def Construct.keyword : Construct → String
  | ifStatement => "if"
  | whileLoop => "while"

/-- The three numbers that a `for` loop asks for. -/
inductive Bound where
  | start
  | stop
  | step
  deriving DecidableEq

def Bound.name : Bound → String
  | start => "start"
  | stop => "end"
  | step => "step"

inductive Fault where
  | undeclaredIdentifier (name : String)
  | uninitializedIdentifier (name : String)
  | undeclaredFunction (name : String)
  | arityMismatch (name : String) (expected got : Nat)
  | unsupportedUnary (operator : UnaryOp) (operand : Kind)
  | unsupportedBinary (operator : BinaryOp) (left right : Kind)
  | divisionByZero
  | nonBooleanCondition (construct : Construct) (got : Kind)
  | nonNumericBound (bound : Bound) (got : Kind)
  | missingReturnValue (name : String)
  | stackOverflow (limit : Nat)
  /-- The sink refused bytes or could not be flushed. -/
  | output (content : String)
  deriving DecidableEq

namespace Fault

def category : Fault → String
  | undeclaredIdentifier _ => "UndeclaredIdentifier"
  | uninitializedIdentifier _ => "UninitializedIdentifier"
  | undeclaredFunction _ => "UndeclaredFunction"
  | arityMismatch _ _ _ => "ArityMismatch"
  | unsupportedUnary _ _ | unsupportedBinary _ _ _ => "UnsupportedOperator"
  | divisionByZero => "DivisionByZero"
  | nonBooleanCondition _ _ => "NonBooleanCondition"
  | nonNumericBound _ _ => "NonNumericForBound"
  | missingReturnValue _ => "MissingReturnValue"
  | stackOverflow _ => "StackOverflow"
  | output _ => "Output"

def quoted (name : String) : String :=
  "'" ++ name ++ "'"

def description : Fault → String
  | undeclaredIdentifier name => "undeclared identifier " ++ quoted name
  | uninitializedIdentifier name => "uninitialized identifier " ++ quoted name
  | undeclaredFunction name => "function " ++ quoted name ++ " not declared"
  | arityMismatch name expected got =>
    "function " ++ quoted name ++ " expected " ++ Nat.repr expected ++ " params but " ++
      Nat.repr got ++ " arguments were passed"
  | unsupportedUnary operator operand =>
    "unsupported operator " ++ quoted operator.lexeme ++ " on " ++ operand.name
  | unsupportedBinary operator left right =>
    "unsupported operator " ++ quoted operator.lexeme ++ " between " ++ left.name ++ " and " ++
      right.name
  | divisionByZero => "division by zero"
  | nonBooleanCondition construct _ =>
    construct.keyword ++ " condition is not a boolean expression"
  | nonNumericBound bound got =>
    "for loop " ++ bound.name ++ " must be a number, got " ++ got.name
  | missingReturnValue name => "function " ++ quoted name ++ " did not return a value"
  | stackOverflow limit => "maximum call depth of " ++ Nat.repr limit ++ " exceeded"
  | output content => "unable to write output: " ++ content

end Fault

structure RuntimeError where
  fault : Fault
  line : Line
  deriving DecidableEq

namespace RuntimeError

def message (error : RuntimeError) : String :=
  error.line.text ++ ": " ++ error.fault.description

def report (error : RuntimeError) : String :=
  error.fault.category ++ " at " ++ error.message

end RuntimeError

end Treewalk
