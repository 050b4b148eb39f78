/-!
# Operators

The operators of the language and of the machine. A binary operator is written with its lexeme in
programs and with its mnemonic in listings. Unary operators have a mnemonic only: programs write two
of them in front of their operand and reach the others through built-in functions.
-/

set_option autoImplicit false

namespace FrameMachine

/-- The operators between two operands. -/
inductive BinaryOp where
  | add | sub | mul | div | mod
  | and | or
  | lt | le | gt | ge
  | eq | ne
deriving DecidableEq

namespace BinaryOp

/-- All binary operators. -/
def all : List BinaryOp := [add, sub, mul, div, mod, and, or, lt, le, gt, ge, eq, ne]

/-- The spelling in programs. -/
def lexeme : BinaryOp → String
  | add => "+"
  | sub => "-"
  | mul => "*"
  | div => "/"
  | mod => "%"
  | and => "and"
  | or => "or"
  | lt => "<"
  | le => "<="
  | gt => ">"
  | ge => ">="
  | eq => "=="
  | ne => "!="

/-- The operator with a given spelling. -/
def ofLexeme? (text : String) : Option BinaryOp := all.find? fun op => op.lexeme = text

/-- The spelling in listings. -/
def mnemonic : BinaryOp → String
  | add => "add"
  | sub => "sub"
  | mul => "mul"
  | div => "div"
  | mod => "mod"
  | and => "and"
  | or => "or"
  | lt => "cmplt"
  | le => "cmple"
  | gt => "cmpgt"
  | ge => "cmpge"
  | eq => "cmpeq"
  | ne => "cmpne"

end BinaryOp

/-- The operations on a single operand. -/
inductive UnaryOp where
  | neg | not
  | length
  | toInt | toDouble | toText
deriving DecidableEq

/-- The spelling in listings. -/
def UnaryOp.mnemonic : UnaryOp → String
  | neg => "neg"
  | not => "not"
  | length => "len"
  | toInt => "toint"
  | toDouble => "todbl"
  | toText => "tostr"

end FrameMachine
