import Beads.Data.Utf8

/-! The lexer reads its input byte by byte and takes each byte for a rune. It is modelled by what is
left of the input. A token's text is held as the runes that were written to it. -/

namespace Beads.Query

abbrev Bytes := List UInt8

inductive TokenType where
  | eof | ident | string | number | duration
  | equals | notEquals | less | lessEq | greater | greaterEq
  | and | or | not | lParen | rParen | comma
  deriving DecidableEq

/-- A token, with the number of bytes that were left at its start. -/
structure Token where
  type : TokenType
  value : List Char
  left : Nat
  deriving DecidableEq

inductive LexError where
  | unexpectedBang (left : Nat)
  | unexpectedCharacter (byte : UInt8) (left : Nat)
  | unterminatedString (left : Nat)
  | unterminatedEscape (left : Nat)
  | expectedDigit (left : Nat)
  | exhausted
  deriving DecidableEq

section

variable (byte : UInt8)

def rune : Char := Char.ofNat byte.toNat

def runes (bytes : Bytes) : List Char := bytes.map rune

def isLetter : Bool :=
  (0x41 ≤ byte && byte ≤ 0x5a) || (0x61 ≤ byte && byte ≤ 0x7a) || byte == 0xaa || byte == 0xb5 ||
    byte == 0xba || (0xc0 ≤ byte && byte ≤ 0xd6) || (0xd8 ≤ byte && byte ≤ 0xf6) || 0xf8 ≤ byte

def isDigit : Bool := 0x30 ≤ byte && byte ≤ 0x39

def isSpace : Bool :=
  (0x09 ≤ byte && byte ≤ 0x0d) || byte == 0x20 || byte == 0x85 || byte == 0xa0

def isIdentStart : Bool := isLetter byte || byte == 0x5f

def isIdentChar : Bool :=
  isLetter byte || isDigit byte || byte == 0x5f || byte == 0x2d || byte == 0x2e || byte == 0x3a ||
    byte == 0x2f

def isDurationSuffix : Bool :=
  byte ∈ ([0x68, 0x64, 0x77, 0x6d, 0x79, 0x48, 0x44, 0x57, 0x4d, 0x59] : Bytes)

def isSign : Bool := byte == 0x2d || byte == 0x2b

def toUpper (char : Char) : Char :=
  if 0x61 ≤ char.toNat ∧ char.toNat ≤ 0x7a ∨ 0xe0 ≤ char.toNat ∧ char.toNat ≤ 0xfe ∧ char.toNat ≠ 0xf7 then
    Char.ofNat (char.toNat - 0x20)
  else if char.toNat = 0xff then Char.ofNat 0x178
  else if char.toNat = 0xb5 then Char.ofNat 0x39c
  else char

def toLower (char : Char) : Char :=
  if 0x41 ≤ char.toNat ∧ char.toNat ≤ 0x5a ∨ 0xc0 ≤ char.toNat ∧ char.toNat ≤ 0xde ∧ char.toNat ≠ 0xd7 then
    Char.ofNat (char.toNat + 0x20)
  else char

def skipWhitespace (input : Bytes) : Bytes := input.dropWhile isSpace

/-- The rune that a backslash and this byte stand for. -/
def escaped : Char :=
  if byte = 0x6e then '\n' else if byte = 0x74 then '\t' else rune byte

end

def readString (quote : UInt8) (start : Nat) : Bytes → Except LexError (List Char × Bytes)
  | [] => .error (.unterminatedString start)
  | byte :: rest =>
    if byte = 0 then .error (.unterminatedString start)
    else if byte = quote then .ok ([], rest)
    else if byte = 0x5c then
      match rest with
      | [] => .error (.unterminatedEscape 1)
      | next :: rest =>
        if next = 0 then .error (.unterminatedEscape (rest.length + 1))
        else (readString quote start rest).map fun (text, after) => (escaped next :: text, after)
    else (readString quote start rest).map fun (text, after) => (rune byte :: text, after)

def keyword (value : List Char) : TokenType :=
  let upper := value.map toUpper
  if upper = "AND".toList then .and
  else if upper = "OR".toList then .or
  else if upper = "NOT".toList then .not
  else .ident

section

variable (input : Bytes)

def readIdent : Token × Bytes :=
  let value := runes (input.takeWhile isIdentChar)
  (⟨keyword value, value, input.length⟩, input.dropWhile isIdentChar)

def standsAlone (rest : Bytes) : Bool := !(rest.head?.any isIdentChar)

def minutes : Bytes := [0x6d, 0x69, 0x6e]

def acceptDurationWord : Bool := minutes.isPrefixOf input && standsAlone (input.drop 3)

/-- The token of an optional sign and digits, by what comes after them. -/
def numberToken (input sign digits after : Bytes) : Token × Bytes :=
  let text := runes (sign ++ digits)
  match after with
  | [] => (⟨.number, text, input.length⟩, [])
  | byte :: rest =>
    -- The lookahead rune is not given back when it is the zero byte.
    if byte = 0 then (⟨.number, text, input.length⟩, rest)
    else if isDurationSuffix byte = true ∧ standsAlone rest = true then
      (⟨.duration, text ++ [rune byte], input.length⟩, rest)
    else if acceptDurationWord after = true then
      (⟨.duration, text ++ runes minutes, input.length⟩, after.drop 3)
    else if sign = [] ∧ isIdentChar byte = true then readIdent input
    else (⟨.number, text, input.length⟩, after)

def signOf : Bytes := (input.take 1).filter isSign

def readNumberOrDuration : Except LexError (Token × Bytes) :=
  let sign := signOf input
  let rest := input.drop sign.length
  if rest.takeWhile isDigit = [] then .error (.expectedDigit rest.length)
  else .ok (numberToken input sign (rest.takeWhile isDigit) (rest.dropWhile isDigit))

def operator (plain withEquals : TokenType) (text : List Char) (left : Nat) (rest : Bytes) : Token × Bytes :=
  if rest.head? = some 0x3d then (⟨withEquals, text ++ ['='], left⟩, rest.drop 1) else (⟨plain, text, left⟩, rest)

def tokenAt (byte : UInt8) (rest : Bytes) : Except LexError (Token × Bytes) :=
  let left := rest.length + 1
  if byte = 0 then .ok (⟨.eof, [], left⟩, rest)
  else if byte = 0x28 then .ok (⟨.lParen, ['('], left⟩, rest)
  else if byte = 0x29 then .ok (⟨.rParen, [')'], left⟩, rest)
  else if byte = 0x2c then .ok (⟨.comma, [','], left⟩, rest)
  else if byte = 0x3d then .ok (⟨.equals, ['='], left⟩, rest)
  else if byte = 0x21 then
    if rest.head? = some 0x3d then .ok (⟨.notEquals, ['!', '='], left⟩, rest.drop 1)
    else .error (.unexpectedBang left)
  else if byte = 0x3c then .ok (operator .less .lessEq ['<'] left rest)
  else if byte = 0x3e then .ok (operator .greater .greaterEq ['>'] left rest)
  else if byte = 0x22 ∨ byte = 0x27 then
    (readString byte left rest).map fun (text, after) => (⟨.string, text, left⟩, after)
  else if isDigit byte = true ∨ isSign byte = true then readNumberOrDuration (byte :: rest)
  else if isIdentStart byte = true then .ok (readIdent (byte :: rest))
  else .error (.unexpectedCharacter byte left)

def nextToken : Except LexError (Token × Bytes) :=
  match skipWhitespace input with
  | [] => .ok (⟨.eof, [], 0⟩, [])
  | byte :: rest => tokenAt byte rest

end

/-- `Tokenize`, with a bound on the number of tokens. -/
def tokenizeWithin : Nat → Bytes → Except LexError (List Token)
  | 0, _ => .error .exhausted
  | fuel + 1, input => do
      let (token, rest) ← nextToken input
      if token.type = .eof then .ok [token]
      else
        let tokens ← tokenizeWithin fuel rest
        .ok (token :: tokens)

def tokenize (input : Bytes) : Except LexError (List Token) :=
  tokenizeWithin (input.length + 1) input

end Beads.Query
