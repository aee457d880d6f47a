import Beads.Data.Fallible
import Beads.Query.Lexer

namespace Beads.Query

inductive ComparisonOp where
  | equals | notEquals | less | lessEq | greater | greaterEq
  deriving DecidableEq

def ComparisonOp.text : ComparisonOp → List Char
  | .equals => ['=']
  | .notEquals => ['!', '=']
  | .less => ['<']
  | .lessEq => ['<', '=']
  | .greater => ['>']
  | .greaterEq => ['>', '=']

def ComparisonOp.token : ComparisonOp → TokenType
  | .equals => .equals
  | .notEquals => .notEquals
  | .less => .less
  | .lessEq => .lessEq
  | .greater => .greater
  | .greaterEq => .greaterEq

structure Comparison where
  field : List Char
  op : ComparisonOp
  value : List Char
  valueType : TokenType
  deriving DecidableEq

inductive Node where
  | comparison (comparison : Comparison)
  | and (left right : Node)
  | or (left right : Node)
  | not (operand : Node)
  deriving DecidableEq

def Node.text : Node → List Char
  | .comparison compared => compared.field ++ compared.op.text ++ compared.value
  | .and left right => '(' :: left.text ++ " AND ".toList ++ right.text ++ [')']
  | .or left right => '(' :: left.text ++ " OR ".toList ++ right.text ++ [')']
  | .not operand => "NOT ".toList ++ operand.text

inductive ParseError where
  | lexical (error : LexError)
  | emptyQuery
  | unexpectedToken (value : List Char) (left : Nat)
  | expectedRParen (left : Nat) (got : TokenType)
  | expectedField (left : Nat) (got : TokenType)
  | expectedOperator (left : Nat) (got : TokenType)
  | expectedValue (left : Nat) (got : TokenType)
  | exhausted
  deriving DecidableEq

structure Parser where
  current : Token
  rest : Bytes

abbrev Parse := Except ParseError

def advance (rest : Bytes) : Parse Parser :=
  match nextToken rest with
  | .error error => .error (.lexical error)
  | .ok (token, after) => .ok ⟨token, after⟩

def metadataPrefix : List Char := "metadata.".toList

def fieldName (value : List Char) : List Char :=
  let field := value.map toLower
  if metadataPrefix.isPrefixOf field = true ∧ metadataPrefix.length < field.length then
    metadataPrefix ++ value.drop metadataPrefix.length
  else field

def comparisonOp : TokenType → Option ComparisonOp
  | .equals => some .equals
  | .notEquals => some .notEquals
  | .less => some .less
  | .lessEq => some .lessEq
  | .greater => some .greater
  | .greaterEq => some .greaterEq
  | _ => none

def isValue : TokenType → Bool
  | .ident | .string | .number | .duration => true
  | _ => false

def parseComparison (p : Parser) : Parse (Node × Parser) :=
  if p.current.type ≠ .ident then .error (.expectedField p.current.left p.current.type)
  else do
    let atOp ← advance p.rest
    match comparisonOp atOp.current.type with
    | none => .error (.expectedOperator atOp.current.left atOp.current.type)
    | some op =>
      let atValue ← advance atOp.rest
      if isValue atValue.current.type = true then
        let after ← advance atValue.rest
        .ok (.comparison ⟨fieldName p.current.value, op, atValue.current.value, atValue.current.type⟩, after)
      else .error (.expectedValue atValue.current.left atValue.current.type)

section
variable (keyword : TokenType) (join : Node → Node → Node) (operand : Parser → Parse (Node × Parser))

/-- The loop of `parseOr` and of `parseAnd`. -/
def joinLoop : Nat → Node → Parser → Parse (Node × Parser)
  | 0, _, _ => .error .exhausted
  | rounds + 1, left, p =>
    if p.current.type = keyword then do
      let p ← advance p.rest
      let (right, p) ← operand p
      joinLoop rounds (join left right) p
    else .ok (left, p)

def joined (p : Parser) : Parse (Node × Parser) := do
  let (left, p) ← operand p
  joinLoop keyword join operand (p.rest.length + 2) left p

end

section
variable (parsePrimary : Parser → Parse (Node × Parser))

def parseNotWithin : Nat → Parser → Parse (Node × Parser)
  | 0, _ => .error .exhausted
  | rounds + 1, p =>
    if p.current.type = .not then do
      let p ← advance p.rest
      let (operand, p) ← parseNotWithin rounds p
      .ok (.not operand, p)
    else parsePrimary p

def parseNot (p : Parser) : Parse (Node × Parser) :=
  parseNotWithin parsePrimary (p.rest.length + 2) p

def parseAnd : Parser → Parse (Node × Parser) := joined .and .and (parseNot parsePrimary)

def parseOr : Parser → Parse (Node × Parser) := joined .or .or (parseAnd parsePrimary)

end

def parsePrimary : Nat → Parser → Parse (Node × Parser)
  | 0, _ => .error .exhausted
  | depth + 1, p =>
    if p.current.type = .lParen then do
      let p ← advance p.rest
      let (node, p) ← parseOr (parsePrimary depth) p
      if p.current.type ≠ .rParen then .error (.expectedRParen p.current.left p.current.type)
      else
        let p ← advance p.rest
        .ok (node, p)
    else parseComparison p

def parse (input : Bytes) : Parse Node := do
  let p ← advance input
  if p.current.type = .eof then .error .emptyQuery
  else
    let (node, p) ← parseOr (parsePrimary (input.length + 1)) p
    if p.current.type ≠ .eof then .error (.unexpectedToken p.current.value p.current.left) else .ok node

end Beads.Query
