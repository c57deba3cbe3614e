/-!
# Operators

The unary and binary operators of expressions. Lowered code applies the same operators to
temporaries, so there is one type of each. `and` and `or` are plain operators: both operands are
evaluated.
-/

namespace MiddleEnd

/-- An operator with one operand. -/
inductive UnaryOp
  | negate
  | not
  | bitNot
deriving DecidableEq, Inhabited

/-- An operator with two operands. -/
inductive BinaryOp
  | add | sub | mul | div | mod
  | less | greater | lessEq | greaterEq
  | and | or
  | equal | notEqual
deriving DecidableEq, Inhabited

/-- How an operator is written before its operand. -/
def UnaryOp.symbol : UnaryOp → String
  | negate => "-"
  | not => "!"
  | bitNot => "~"

/-- How an operator is written between its operands. -/
def BinaryOp.symbol : BinaryOp → String
  | add => "+"
  | sub => "-"
  | mul => "*"
  | div => "/"
  | mod => "%"
  | less => "<"
  | greater => ">"
  | lessEq => "<="
  | greaterEq => ">="
  | and => "&&"
  | or => "||"
  | equal => "=="
  | notEqual => "!="

/-- The symbol tells a unary operator. -/
theorem UnaryOp.symbol_injective {a b : UnaryOp} (h : a.symbol = b.symbol) : a = b := by
  revert h
  cases a <;> cases b <;> simp [symbol]

/-- The symbol tells a binary operator. -/
theorem BinaryOp.symbol_injective {a b : BinaryOp} (h : a.symbol = b.symbol) : a = b := by
  revert h
  cases a <;> cases b <;> simp [symbol]

end MiddleEnd
