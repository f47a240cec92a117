/-! # Operators and delimiters

* `ArithOp`: the eleven operators that also have an assigning form (`+` and `+=`).
* `BinaryOp`: all operators that stand between two operands, with their five precedence levels.
* `Symbol`: every operator and delimiter that can be written, with its spelling.
* `Symbol.longestFirst`, `Symbol.read?`: reading a symbol takes the longest spelling that fits.
-/

namespace GoRepl

/-- Arithmetic operators, each with an assigning form. -/
inductive ArithOp where
  | add | sub | mul | quo | rem | and | or | xor | shl | shr | andNot
  deriving Repr, DecidableEq, Inhabited

/-- Operators between two operands. -/
inductive BinaryOp where
  | arith (op : ArithOp)
  | lor | land | eql | neq | lss | leq | gtr | geq
  deriving Repr, DecidableEq, Inhabited

/-- Every operator and delimiter that can be written. -/
inductive Symbol where
  | binary (op : BinaryOp)
  | compound (op : ArithOp)
  | arrow | inc | dec | assign | not | define | ellipsis | tilde
  | lparen | rparen | lbrack | rbrack | lbrace | rbrace
  | comma | period | colon | semicolon
  deriving Repr, DecidableEq, Inhabited

namespace ArithOp

def all : List ArithOp := [add, sub, mul, quo, rem, and, or, xor, shl, shr, andNot]

def chars : ArithOp → List Char
  | add => ['+']
  | sub => ['-']
  | mul => ['*']
  | quo => ['/']
  | rem => ['%']
  | and => ['&']
  | or => ['|']
  | xor => ['^']
  | shl => ['<', '<']
  | shr => ['>', '>']
  | andNot => ['&', '^']

/-- The spelling of the operator. -/
def spelling (op : ArithOp) : String := String.ofList op.chars

/-- Shifts, products and masks bind as tightly as `*`, the others as `+`. -/
def precedence : ArithOp → Nat
  | mul | quo | rem | shl | shr | and | andNot => 5
  | add | sub | or | xor => 4

end ArithOp

namespace BinaryOp

def all : List BinaryOp :=
  ArithOp.all.map arith ++ [lor, land, eql, neq, lss, leq, gtr, geq]

def chars : BinaryOp → List Char
  | arith op => op.chars
  | lor => ['|', '|']
  | land => ['&', '&']
  | eql => ['=', '=']
  | neq => ['!', '=']
  | lss => ['<']
  | leq => ['<', '=']
  | gtr => ['>']
  | geq => ['>', '=']

/-- How tightly the operator binds: disjunction 1, conjunction 2, comparison 3, sums 4,
products 5. -/
def precedence : BinaryOp → Nat
  | arith op => op.precedence
  | lor => 1
  | land => 2
  | eql | neq | lss | leq | gtr | geq => 3

theorem precedence_pos (op : BinaryOp) : 1 ≤ op.precedence := by
  rcases op with op | _ <;> first | (cases op <;> decide) | decide

theorem precedence_le (op : BinaryOp) : op.precedence ≤ 5 := by
  rcases op with op | _ <;> first | (cases op <;> decide) | decide

end BinaryOp

namespace Symbol

def all : List Symbol :=
  BinaryOp.all.map binary ++ ArithOp.all.map compound ++
    [arrow, inc, dec, assign, not, define, ellipsis, tilde,
     lparen, rparen, lbrack, rbrack, lbrace, rbrace, comma, period, colon, semicolon]

def chars : Symbol → List Char
  | binary op => op.chars
  | compound op => op.chars ++ ['=']
  | arrow => ['<', '-']
  | inc => ['+', '+']
  | dec => ['-', '-']
  | assign => ['=']
  | not => ['!']
  | define => [':', '=']
  | ellipsis => ['.', '.', '.']
  | tilde => ['~']
  | lparen => ['(']
  | rparen => [')']
  | lbrack => ['[']
  | rbrack => [']']
  | lbrace => ['\x7b']
  | rbrace => ['\x7d']
  | comma => [',']
  | period => ['.']
  | colon => [':']
  | semicolon => [';']

/-- The spelling of the symbol. -/
def spelling (s : Symbol) : String := String.ofList s.chars

/-- All symbols, those with longer spellings first. -/
def longestFirst : List Symbol :=
  all.filter (·.chars.length == 3) ++ all.filter (·.chars.length == 2) ++
    all.filter (·.chars.length == 1)

/-- The symbol with the longest spelling that the text begins with. -/
def read? (cs : List Char) : Option Symbol :=
  longestFirst.find? (·.chars.isPrefixOf cs)

/-- How tightly the symbol binds between two operands; 0 when it cannot stand there. -/
def precedence : Symbol → Nat
  | binary op => op.precedence
  | _ => 0

end Symbol

end GoRepl
