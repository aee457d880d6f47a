import Beads.Json.Scanner

/-! RFC 8259 as a relation between values and texts. Values are compared by `=`: a number is its
exact value, a string its characters, an array its elements in order, and an object the function
from its keys to their values. -/

namespace Beads.Json

open Decimal (Digits numeral)

inductive Value where
  | null
  | bool (truth : Bool)
  | number (number : ℚ)
  | string (text : List Char)
  | array (elements : List Value)
  | object (members : List Char → Option Value)

def Literal.value (number : Literal) : ℚ :=
  Decimal.scaled number.neg (numeral (number.intPart ++ number.frac)) (number.exp - number.frac.length)

structure IntegerText (digits : Bytes) : Prop where
  all : Digits digits
  nonempty : digits ≠ []
  start : digits = [Decimal.zero] ∨ digits.head? ≠ some Decimal.zero

inductive FractionText : Bytes → Bytes → Prop where
  | absent : FractionText [] []
  | present {digits : Bytes} (all : Digits digits) (nonempty : digits ≠ []) : FractionText digits (0x2e :: digits)

inductive ExponentText : Int → Bytes → Prop where
  | absent : ExponentText 0 []
  | positive {mark : UInt8} {sign digits : Bytes} (marked : mark = 0x65 ∨ mark = 0x45) (signed : sign = [] ∨ sign = [0x2b])
      (all : Digits digits) (nonempty : digits ≠ []) : ExponentText (numeral digits) (mark :: sign ++ digits)
  | negative {mark : UInt8} {digits : Bytes} (marked : mark = 0x65 ∨
    mark = 0x45) (all : Digits digits) (nonempty : digits ≠ []) :
      ExponentText (-(numeral digits : Int)) (mark :: 0x2d :: digits)

inductive NumberText : Literal → Bytes → Prop where
  | parts {neg : Bool} {intPart frac fracText expText : Bytes} {exp : Int} (integer : IntegerText intPart)
      (fraction : FractionText frac fracText) (exponent : ExponentText exp expText) :
      NumberText ⟨neg, intPart, frac, exp⟩ ((if neg then [0x2d] else []) ++ intPart ++ fracText ++ expText)

def HexText (unit : Nat) (text : Bytes) : Prop :=
  ∃ a b c d w x y z, text = [a, b, c, d] ∧ hexValue a = some w ∧ hexValue b = some x ∧
    hexValue c = some y ∧ hexValue d = some z ∧ unit = ((w * 16 + x) * 16 + y) * 16 + z

inductive EscapeText : Char → Bytes → Prop where
  | short {char : Char} {byte : UInt8} (known : shortEscape byte = some char) : EscapeText char [byte]
  | unit {unit : Nat} {text : Bytes} (hex : HexText unit text) (scalar : unit < 0xd800 ∨ 0xdfff < unit) :
      EscapeText (Char.ofNat unit) (0x75 :: text)
  | pair {lead trail : Nat} {leadText trailText : Bytes} (leadHex : HexText lead leadText)
    (leads : 0xd800 ≤ lead ∧ lead ≤ 0xdbff)
      (trailHex : HexText trail trailText) (trails : 0xdc00 ≤ trail ∧ trail ≤ 0xdfff) :
      EscapeText (Char.ofNat (0x10000 + (lead - 0xd800) * 0x400 + (trail - 0xdc00))) (0x75 ::
        leadText ++ 0x5c :: 0x75 :: trailText)

def Plain (char : Char) : Prop := 0x20 ≤ char.toNat ∧ char ≠ '\x22' ∧ char ≠ '\\'

inductive StringText : List Char → Bytes → Prop where
  | nil : StringText [] []
  | plain {char : Char} {text : List Char} {bytes : Bytes} (plain : Plain char) (more : StringText text bytes) :
      StringText (char :: text) (String.utf8EncodeChar char ++ bytes)
  | escaped {char : Char} {text : List Char} {escape bytes : Bytes}
    (escaped : EscapeText char escape) (more : StringText text bytes) :
      StringText (char :: text) (0x5c :: escape ++ bytes)

def Blank (text : Bytes) : Prop := ∀ byte ∈ text, isSpace byte = true

section Lists

variable {α : Type} (item : α → Bytes → Prop)

inductive Separated : List α → Bytes → Prop where
  | last {first : α} {text gap : Bytes} (spelled : item first text) (blank : Blank gap) : Separated [first] (text ++ gap)
  | next {first : α} {rest : List α} {text gap start more : Bytes} (spelled : item first text) (blank : Blank gap)
      (startBlank : Blank start) (later : Separated rest more) : Separated (first :: rest) (text ++ gap ++ 0x2c :: start ++ more)

inductive Enclosed (opening closing : UInt8) : List α → Bytes → Prop where
  | empty {gap : Bytes} (blank : Blank gap) : Enclosed opening closing [] (opening :: gap ++ [closing])
  | items {all : List α} {gap text : Bytes} (blank : Blank gap) (inside : Separated item all text) :
      Enclosed opening closing all (opening :: gap ++ text ++ [closing])

end Lists

inductive MemberText (spells : Value → Bytes → Prop) : List Char × Value → Bytes → Prop where
  | parts {key : List Char} {value : Value} {bytes before after text : Bytes}
    (named : StringText key bytes) (beforeBlank : Blank before)
      (afterBlank : Blank after) (inside : spells value text) :
      MemberText spells (key, value) (0x22 :: bytes ++ 0x22 :: before ++ 0x3a :: after ++ text)

inductive ValueText (inner : Option (Value → Bytes → Prop)) : Value → Bytes → Prop where
  | null : ValueText inner .null (ascii "null")
  | true : ValueText inner (.bool true) (ascii "true")
  | false : ValueText inner (.bool false) (ascii "false")
  | number {number : Literal} {text : Bytes} (spelled : NumberText number text) : ValueText inner (.number number.value) text
  | string {text : List Char} {bytes : Bytes} (spelled : StringText text bytes) : ValueText inner
    (.string text) (0x22 :: bytes ++ [0x22])
  | array {spells : Value → Bytes → Prop} {elements : List Value} {text : Bytes} (allowed : inner = some spells)
      (inside : Enclosed spells 0x5b 0x5d elements text) : ValueText inner (.array elements) text
  | object {spells : Value → Bytes → Prop} {members : List (List Char × Value)} {text : Bytes} (allowed : inner = some spells)
      (inside : Enclosed (MemberText spells) 0x7b 0x7d members text) (distinct : (members.map Prod.fst).Nodup) :
      ValueText inner (.object fun key => members.lookup key) text

/-- The texts of a value that is nested no deeper than `height`. -/
def Spells : Nat → Value → Bytes → Prop
  | 0 => ValueText none
  | height + 1 => ValueText (some (Spells height))

def Denotes (raw : Bytes) (value : Value) : Prop :=
  ∃ height front text back, Blank front ∧ Blank back ∧ raw = front ++ text ++ back ∧ Spells height value text

end Beads.Json
