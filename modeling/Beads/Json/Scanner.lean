import Beads.Data.Decimal
import Beads.Data.Utf8

/-! `CanonicalizeJSON` and `canonicalizeJSONExact`: one pass over the bytes that checks the text and
writes its canonical form. The scanner is modelled by what is left of its input. A decoded string is
held as its characters. `value` is recursive in the nesting that is still allowed, the loops over
members, elements and string bytes in the length of the input. -/

namespace Beads.Json

open Decimal (isDigit digit)

abbrev Bytes := List UInt8

def ascii (text : String) : Bytes := text.toList.map fun char => UInt8.ofNat char.toNat

def maxJsonDepth : Nat := 10000

def maxExponentMagnitude : Nat := 1000000000000

inductive Reason where
  | contentAfterValue
  | unexpectedEnd
  | unexpectedByte (byte : UInt8)
  | nestingTooDeep
  | expectedKey
  | duplicateKey (key : List Char)
  | expectedColon
  | unterminatedObject
  | expectedCommaOrBrace
  | unterminatedArray
  | expectedCommaOrBracket
  | invalidLiteral
  | truncatedEscape
  | malformedEscape
  | unterminatedString
  | invalidUtf8
  | loneLeadSurrogate
  | loneTrailSurrogate
  | invalidEscape (byte : UInt8)
  | unescapedControl
  | expectedDigit
  | exponentOutOfRange
  | outsideBinary64 (literal pointer : Bytes)
  | inexactBinary64 (literal pointer peer : Bytes)
  | exhausted
  deriving DecidableEq

/-- A refusal, with the number of bytes that were left. -/
structure Failure where
  left : Nat
  reason : Reason
  deriving DecidableEq

abbrev Scan := Except Failure

section

variable (input : Bytes)

def fail {α : Type} (reason : Reason) : Scan α := .error ⟨input.length, reason⟩

inductive PathToken where
  | key (name : List Char)
  | index (position : Nat)

def escapePointer (char : Char) : Bytes :=
  if char = '~' then ascii "~0" else if char = '/' then ascii "~1" else String.utf8EncodeChar char

def pointer (path : List PathToken) : Bytes :=
  path.flatMap fun token => 0x2f :: match token with
    | .key name => name.flatMap escapePointer
    | .index position => Decimal.spell position

def isSpace (byte : UInt8) : Bool := byte == 0x20 || byte == 0x09 || byte == 0x0a || byte == 0x0d

def skipSpace : Bytes := input.dropWhile isSpace

def literal (word : Bytes) (input : Bytes) : Scan (Bytes × Bytes) :=
  if word.isPrefixOf input then .ok (word, input.drop word.length) else fail input .invalidLiteral

def hexValue (byte : UInt8) : Option Nat :=
  if 0x30 ≤ byte ∧ byte ≤ 0x39 then some (byte.toNat - 0x30)
  else if 0x61 ≤ byte ∧ byte ≤ 0x66 then some (byte.toNat - 0x61 + 10)
  else if 0x41 ≤ byte ∧ byte ≤ 0x46 then some (byte.toNat - 0x41 + 10)
  else none

def hex4 : Scan (Nat × Bytes) :=
  match input with
  | a :: b :: c :: d :: rest =>
    match hexValue a, hexValue b, hexValue c, hexValue d with
    | some a, some b, some c, some d => .ok (((a * 16 + b) * 16 + c) * 16 + d, rest)
    | _, _, _, _ => fail input .malformedEscape
  | _ => fail input .truncatedEscape

def trailSurrogate (lead : Nat) (input : Bytes) : Scan (Char × Bytes) :=
  match input with
  | backslash :: u :: rest =>
    if backslash = 0x5c ∧ u = 0x75 then do
      let (trail, rest) ← hex4 rest
      if trail < 0xdc00 ∨ 0xdfff < trail then fail rest .loneLeadSurrogate
      else .ok (Char.ofNat (0x10000 + (lead - 0xd800) * 0x400 + (trail - 0xdc00)), rest)
    else fail input .loneLeadSurrogate
  | _ => fail input .loneLeadSurrogate

def unicodeEscape : Scan (Char × Bytes) := do
  let (unit, rest) ← hex4 input
  if 0xd800 ≤ unit ∧ unit ≤ 0xdbff then trailSurrogate unit rest
  else if 0xdc00 ≤ unit ∧ unit ≤ 0xdfff then fail rest .loneTrailSurrogate
  else .ok (Char.ofNat unit, rest)

def shortEscape (byte : UInt8) : Option Char :=
  if byte = 0x22 then some '\x22'
  else if byte = 0x5c then some '\\'
  else if byte = 0x2f then some '/'
  else if byte = 0x62 then some '\x08'
  else if byte = 0x66 then some '\x0c'
  else if byte = 0x6e then some '\n'
  else if byte = 0x72 then some '\r'
  else if byte = 0x74 then some '\t'
  else none

def escape : Scan (Char × Bytes) :=
  match input with
  | [] => fail [] .unterminatedString
  | byte :: rest =>
    match shortEscape byte with
    | some char => .ok (char, rest)
    | none => if byte = 0x75 then unicodeEscape rest else fail rest (.invalidEscape byte)

end

/-- The loop of `str`: `segment` holds the raw bytes since the last escape, `buf` what is decoded
before them. -/
def strFrom : Nat → Bytes → List Char → Bytes → Scan (List Char × Bytes)
  | 0, _, _, input => fail input .exhausted
  | fuel + 1, segment, buf, input =>
    match input with
    | [] => fail [] .unterminatedString
    | byte :: rest =>
      if byte = 0x22 then
        match Utf8.decode segment with
        | none => fail input .invalidUtf8
        | some text => .ok (buf ++ text, rest)
      else if byte = 0x5c then
        match Utf8.decode segment with
        | none => fail input .invalidUtf8
        | some text => do
            let (char, rest) ← escape rest
            strFrom fuel [] (buf ++ text ++ [char]) rest
      else if byte < 0x20 then fail input .unescapedControl
      else strFrom fuel (segment ++ [byte]) buf rest

section

variable (input : Bytes)

def str : Scan (List Char × Bytes) := strFrom (input.length + 1) [] [] input

def lowerHexDigit (number : Nat) : UInt8 := (ascii "0123456789abcdef").getD number 0x30

def canonicalChar (char : Char) : Bytes :=
  if char = '\x22' then [0x5c, 0x22]
  else if char = '\\' then [0x5c, 0x5c]
  else if char = '\x08' then [0x5c, 0x62]
  else if char = '\x0c' then [0x5c, 0x66]
  else if char = '\n' then [0x5c, 0x6e]
  else if char = '\r' then [0x5c, 0x72]
  else if char = '\t' then [0x5c, 0x74]
  else if char.toNat < 0x20 then [0x5c, 0x75, 0x30, 0x30, lowerHexDigit (char.toNat / 16), lowerHexDigit (char.toNat % 16)]
  else String.utf8EncodeChar char

def canonicalString (text : List Char) : Bytes := 0x22 :: text.flatMap canonicalChar ++ [0x22]

/-- A number literal: `± intPart . frac × 10 ^ exp`. -/
structure Literal where
  neg : Bool
  intPart : Bytes
  frac : Bytes
  exp : Int
  deriving DecidableEq

def digits : Scan (Bytes × Bytes) :=
  if input.takeWhile isDigit = [] then fail input .expectedDigit else .ok (input.takeWhile isDigit, input.dropWhile isDigit)

def sign : Bool × Bytes :=
  match input with
  | byte :: rest => if byte = 0x2d then (true, rest) else (false, input)
  | [] => (false, [])

def integerPart : Scan (Bytes × Bytes) :=
  match input with
  | byte :: rest => if byte = 0x30 then .ok ([byte], rest) else digits input
  | [] => fail [] .expectedDigit

def fraction : Scan (Bytes × Bytes) :=
  match input with
  | byte :: rest => if byte = 0x2e then digits rest else .ok ([], input)
  | [] => .ok ([], [])

def exponentSign : Bool × Bytes :=
  match input with
  | byte :: rest => if byte = 0x2b ∨ byte = 0x2d then (decide (byte = 0x2d), rest) else (false, input)
  | [] => (false, [])

end

def accumulate (limit : Nat) : Nat → Bytes → Option Nat
  | exp, [] => some exp
  | exp, byte :: rest => if limit < exp * 10 + digit byte then none else accumulate limit (exp * 10 + digit byte) rest

def exponent (length : Nat) (input : Bytes) : Scan (Int × Bytes) :=
  match input with
  | byte :: rest =>
    if byte = 0x65 ∨ byte = 0x45 then do
      let (expDigits, after) ← digits (exponentSign rest).2
      match accumulate (maxExponentMagnitude + length) 0 expDigits with
      | none => fail after .exponentOutOfRange
      | some exp => .ok (if (exponentSign rest).1 then -(exp : Int) else exp, after)
    else .ok (0, input)
  | [] => .ok (0, [])

def numberLiteral (length : Nat) (input : Bytes) : Scan (Literal × Bytes) := do
  let (intPart, rest) ← integerPart (sign input).2
  let (frac, rest) ← fraction rest
  let (exp, rest) ← exponent length rest
  .ok (⟨(sign input).1, intPart, frac, exp⟩, rest)

/-- The digits `0.digits × 10 ^ n` in ECMAScript's placement. -/
def placed (digits : Bytes) (n : Int) : Bytes :=
  if digits.length ≤ n ∧ n ≤ 21 then digits ++ List.replicate (n - digits.length).toNat 0x30
  else if 0 < n ∧ n ≤ 21 then digits.take n.toNat ++ 0x2e :: digits.drop n.toNat
  else if -6 < n ∧ n ≤ 0 then 0x30 :: 0x2e :: List.replicate (-n).toNat 0x30 ++ digits
  else
    digits.take 1 ++ (if 1 < digits.length then 0x2e :: digits.drop 1 else []) ++
      0x65 :: (if 0 ≤ n - 1 then 0x2b else 0x2d) :: Decimal.spell (n - 1).natAbs

def appendCanonicalNumber (number : Literal) : Option Bytes :=
  let leading := (number.intPart ++ number.frac).dropWhile (· == Decimal.zero)
  if leading = [] then some [0x30]
  else
    let significant := leading.rdropWhile (· == Decimal.zero)
    let exp10 : Int := number.exp - number.frac.length + (leading.length - significant.length : Nat)
    let n : Int := exp10 + significant.length
    if (maxExponentMagnitude : Int) < n - 1 ∨ n - 1 < -(maxExponentMagnitude : Int) then none
    else some ((if number.neg then [0x2d] else []) ++ placed significant n)

def parseInt (text : Bytes) : Int :=
  if (exponentSign text).1 then -(Decimal.numeral (exponentSign text).2 : Int) else Decimal.numeral (exponentSign text).2

/-- The canonical form of the shortest decimal of the literal's nearest binary64. `formatFloat` is
`FormatFloat` with the format `e` and precision -1 of what `ParseFloat` returns, if it returns a
number. -/
def binary64Peer (formatFloat : Bytes → Option Bytes) (text : Bytes) : Option Bytes :=
  (formatFloat text).map fun formatted =>
    let mantissa := (sign formatted).2.takeWhile (· != 0x65)
    let exponentText := ((sign formatted).2.dropWhile (· != 0x65)).drop 1
    (appendCanonicalNumber ⟨(sign formatted).1, mantissa.take 1, mantissa.drop 2, parseInt exponentText⟩).getD []

def abbreviate (text : Bytes) : Bytes :=
  if text.length ≤ 2 * 24 + 3 then text
  else text.take 24 ++ ascii "..." ++ text.drop (text.length - 24) ++ ascii " (" ++ Decimal.spell text.length ++ ascii " bytes)"

structure Scanner where
  length : Nat
  exact : Bool
  formatFloat : Bytes → Option Bytes

namespace Scanner

variable (s : Scanner)

def number (path : List PathToken) (input : Bytes) : Scan (Bytes × Bytes) := do
  let (number, rest) ← numberLiteral s.length input
  match appendCanonicalNumber number with
  | none => fail rest .exponentOutOfRange
  | some out =>
    if s.exact then .ok (out, rest)
    else
      let text := input.take (input.length - rest.length)
      match binary64Peer s.formatFloat text with
      | none => fail input (.outsideBinary64 (abbreviate text) (pointer path))
      | some peer =>
        if peer = out then .ok (out, rest) else fail input (.inexactBinary64 (abbreviate text) (pointer path) peer)

end Scanner

def codeUnitKey (char : Char) : Nat :=
  if char.toNat < 0x10000 then char.toNat * 0x10000
  else (0xd800 + (char.toNat - 0x10000) / 0x400) * 0x10000 + (0xdc00 + (char.toNat - 0x10000) % 0x400)

def compareCodeUnits : List Char → List Char → Ordering
  | [], [] => .eq
  | [], _ :: _ => .lt
  | _ :: _, [] => .gt
  | a :: as, b :: bs => if a ≠ b then if codeUnitKey a < codeUnitKey b then .lt else .gt else compareCodeUnits as bs

structure Member where
  key : List Char
  value : Bytes
  deriving DecidableEq

def Member.render (member : Member) : Bytes := canonicalString member.key ++ 0x3a :: member.value

def commaSeparated (parts : List Bytes) : Bytes := List.intercalate [0x2c] parts

def renderArray (elements : List Bytes) : Bytes := 0x5b :: commaSeparated elements ++ [0x5d]

def renderObject (members : List Member) : Bytes :=
  0x7b :: commaSeparated (members.map Member.render) ++ [0x7d]

def sortMembers (members : List Member) : List Member :=
  members.insertionSort fun one other => compareCodeUnits one.key other.key ≠ .gt

section Items

variable {α : Type} (item : List α → Bytes → Scan (α × Bytes)) (close : UInt8) (unterminated expected : Reason)

/-- The loops of `array` and `objectMembers`: items with commas between them, up to the closing
byte. An item is scanned with those before it at hand. -/
def itemsFrom : Nat → List α → Bytes → Scan (List α × Bytes)
  | 0, _, input => fail input .exhausted
  | fuel + 1, before, input => do
      let (found, rest) ← item before input
      match skipSpace rest with
      | [] => fail [] unterminated
      | byte :: after =>
        if byte = 0x2c then itemsFrom fuel (before ++ [found]) after
        else if byte = close then .ok (before ++ [found], after)
        else fail (byte :: after) expected

def items (input : Bytes) : Scan (List α × Bytes) :=
  match skipSpace input with
  | [] => itemsFrom item close unterminated expected 1 [] []
  | byte :: rest =>
    if byte = close then .ok ([], rest) else itemsFrom item close unterminated expected (rest.length + 2) [] (byte :: rest)

end Items

section Parts

variable (value : List PathToken → Bytes → Scan (Bytes × Bytes)) (path : List PathToken)

/-- Named, so that membership tests share one proof. -/
local instance lawful_key : LawfulBEq (List Char) := inferInstance

def member (before : List Member) (input : Bytes) : Scan (Member × Bytes) :=
  match skipSpace input with
  | [] => fail [] .expectedKey
  | byte :: rest =>
    if byte = 0x22 then do
      let (key, rest) ← str rest
      if key ∈ before.map Member.key then fail rest (.duplicateKey key)
      else
        match skipSpace rest with
        | [] => fail [] .expectedColon
        | colon :: rest =>
          if colon = 0x3a then (value (path ++ [.key key]) (skipSpace rest)).map fun (out, rest) => (⟨key, out⟩, rest)
          else fail (colon :: rest) .expectedColon
    else fail (byte :: rest) .expectedKey

def objectMembers (input : Bytes) : Scan (List Member × Bytes) :=
  items (member value path) 0x7d .unterminatedObject .expectedCommaOrBrace input

def element (before : List Bytes) (input : Bytes) : Scan (Bytes × Bytes) :=
  value (path ++ [.index before.length]) (skipSpace input)

def arrayElements (input : Bytes) : Scan (List Bytes × Bytes) :=
  items (element value path) 0x5d .unterminatedArray .expectedCommaOrBracket input

end Parts

namespace Scanner

variable (s : Scanner)

/-- A value whose parts are scanned by `inner`, if another level of nesting is allowed. -/
def valueWithin (inner : Option (List PathToken → Bytes → Scan (Bytes × Bytes)))
    (path : List PathToken) (input : Bytes) : Scan (Bytes × Bytes) :=
  match input with
  | [] => fail [] .unexpectedEnd
  | byte :: rest =>
    if byte = 0x7b then
      match inner with
      | none => fail input .nestingTooDeep
      | some value => (objectMembers value path rest).map fun (members, after) => (renderObject (sortMembers members), after)
    else if byte = 0x5b then
      match inner with
      | none => fail input .nestingTooDeep
      | some value => (arrayElements value path rest).map fun (elements, after) => (renderArray elements, after)
    else if byte = 0x22 then (str rest).map fun (text, after) => (canonicalString text, after)
    else if byte = 0x74 then literal (ascii "true") input
    else if byte = 0x66 then literal (ascii "false") input
    else if byte = 0x6e then literal (ascii "null") input
    else if byte = 0x2d ∨ isDigit byte = true then s.number path input
    else fail input (.unexpectedByte byte)

/-- `value`, with the number of levels that may still be entered. -/
def value : Nat → List PathToken → Bytes → Scan (Bytes × Bytes)
  | 0 => s.valueWithin none
  | levels + 1 => s.valueWithin (some (value levels))

def text (raw : Bytes) : Scan Bytes := do
  let (out, rest) ← s.value maxJsonDepth [] (skipSpace raw)
  match skipSpace rest with
  | [] => .ok out
  | left => fail left .contentAfterValue

end Scanner

structure Refusal where
  position : Nat
  reason : Reason
  deriving DecidableEq

def canonicalize (exact : Bool) (formatFloat : Bytes → Option Bytes) (raw : Bytes) : Except Refusal Bytes :=
  (Scanner.text ⟨raw.length, exact, formatFloat⟩ raw).mapError fun failure => ⟨raw.length - failure.left, failure.reason⟩

def canonicalizeJson (formatFloat : Bytes → Option Bytes) (raw : Bytes) : Except Refusal Bytes :=
  canonicalize false formatFloat raw

def canonicalizeJsonExact (raw : Bytes) : Except Refusal Bytes :=
  canonicalize true (fun _ => none) raw

end Beads.Json
