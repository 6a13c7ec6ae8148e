/-!
# Operators

The operators of the three classes, each with the lexeme that shows it. `ofLexeme?` reads a
lexeme; inequality alone has two spellings, and both are shown as `!=`.
-/

set_option autoImplicit false
set_option relaxedAutoImplicit false

namespace Treewalk

inductive UnaryOp where
  | plus
  | minus
  | not
  deriving DecidableEq

namespace UnaryOp

def lexeme : UnaryOp → String
  | plus => "+"
  | minus => "-"
  | not => "not"

def ofLexeme? : String → Option UnaryOp
  | "+" => some plus
  | "-" => some minus
  | "not" => some not
  | _ => none

theorem ofLexeme?_lexeme (op : UnaryOp) : ofLexeme? op.lexeme = some op := by
  cases op <;> rfl

end UnaryOp

inductive BinaryOp where
  | add
  | subtract
  | multiply
  | divide
  | modulo
  | power
  | less
  | lessOrEqual
  | greater
  | greaterOrEqual
  | equal
  | notEqual
  deriving DecidableEq

namespace BinaryOp

def lexeme : BinaryOp → String
  | add => "+"
  | subtract => "-"
  | multiply => "*"
  | divide => "/"
  | modulo => "%"
  | power => "^"
  | less => "<"
  | lessOrEqual => "<="
  | greater => ">"
  | greaterOrEqual => ">="
  | equal => "=="
  | notEqual => "!="

def ofLexeme? : String → Option BinaryOp
  | "+" => some add
  | "-" => some subtract
  | "*" => some multiply
  | "/" => some divide
  | "%" => some modulo
  | "^" => some power
  | "<" => some less
  | "<=" => some lessOrEqual
  | ">" => some greater
  | ">=" => some greaterOrEqual
  | "==" => some equal
  | "~=" | "!=" => some notEqual
  | _ => none

theorem ofLexeme?_lexeme (op : BinaryOp) : ofLexeme? op.lexeme = some op := by
  cases op <;> rfl

end BinaryOp

inductive LogicalOp where
  | and
  | or
  deriving DecidableEq

namespace LogicalOp

def lexeme : LogicalOp → String
  | and => "and"
  | or => "or"

def ofLexeme? : String → Option LogicalOp
  | "and" => some and
  | "or" => some or
  | _ => none

theorem ofLexeme?_lexeme (op : LogicalOp) : ofLexeme? op.lexeme = some op := by
  cases op <;> rfl

end LogicalOp

/-- The classes of operators that a lexeme is looked up in. -/
inductive OperatorClass where
  | unary
  | binary
  | logical
  deriving DecidableEq

namespace OperatorClass

def name : OperatorClass → String
  | unary => "unary"
  | binary => "binary"
  | logical => "logical"

/-- The lexeme under which an operator of the class is shown. -/
def shown? (lexeme : String) : OperatorClass → Option String
  | unary => (UnaryOp.ofLexeme? lexeme).map UnaryOp.lexeme
  | binary => (BinaryOp.ofLexeme? lexeme).map BinaryOp.lexeme
  | logical => (LogicalOp.ofLexeme? lexeme).map LogicalOp.lexeme

/-- The complaint about a lexeme that the class does not have. -/
def unknown (lexeme : String) (operators : OperatorClass) : String :=
  "unknown " ++ operators.name ++ " operator '" ++ lexeme ++ "'"

end OperatorClass

end Treewalk
