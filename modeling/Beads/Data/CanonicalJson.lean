import Beads.Data.Text

namespace CanonicalJson

def hexDigit (n : Nat) : Char := ("0123456789abcdef".toList).getD n '0'

def hexValue (c : Char) : Nat := ("0123456789abcdef".toList).idxOf c

def escape (c : Char) : List Char :=
  if c = '\x22' then ['\\', '\x22']
  else if c = '\\' then ['\\', '\\']
  else if c = '\x08' then ['\\', 'b']
  else if c = '\x0c' then ['\\', 'f']
  else if c = '\n' then ['\\', 'n']
  else if c = '\r' then ['\\', 'r']
  else if c = '\t' then ['\\', 't']
  else if c.toNat < 0x20 then ['\\', 'u', '0', '0', hexDigit (c.toNat / 16), hexDigit (c.toNat % 16)]
  else [c]

def named (c : Char) : Char :=
  if c = 'b' then '\x08' else if c = 'f' then '\x0c' else if c = 'n' then '\n'
  else if c = 'r' then '\r' else if c = 't' then '\t' else c

def unescape : List Char → Option (Char × List Char)
  | [] => none
  | c :: rest =>
    if c = '\\' then
      match rest with
      | [] => none
      | e :: rest =>
        if e = 'u' then
          match rest with
          | _ :: _ :: high :: low :: rest => some (Char.ofNat (hexValue high * 16 + hexValue low), rest)
          | _ => none
        else some (named e, rest)
    else some (c, rest)

theorem hex_control : ∀ n < 0x20, Char.ofNat (hexValue (hexDigit (n / 16)) * 16 +
    hexValue (hexDigit (n % 16))) = Char.ofNat n := by decide

theorem unescape_escape (c : Char) (rest : List Char) : unescape (escape c ++ rest) = some (c, rest) := by
  unfold escape
  split_ifs with quote backslash b f n r t control
  · subst quote; rfl
  · subst backslash; rfl
  · subst b; rfl
  · subst f; rfl
  · subst n; rfl
  · subst r; rfl
  · subst t; rfl
  · have value := hex_control c.toNat control
    rw [Char.ofNat_toNat] at value
    change some (Char.ofNat (hexValue (hexDigit (c.toNat / 16)) * 16 + hexValue (hexDigit (c.toNat % 16))), rest) = _
    rw [value]
  · exact if_neg backslash

theorem escape_ne_quote (c : Char) (rest later : List Char) : escape c ++ rest ≠ '\x22' :: later := by
  unfold escape
  split_ifs with quote backslash b f n r t control <;> simp [quote]

def body : List Char → List Char
  | [] => ['\x22']
  | c :: rest => escape c ++ body rest

def quoted (text : List Char) : List Char := '\x22' :: body text

variable {rest later : List Char} {one other : List (List Char × Scalar)}

open List

theorem body_append_inj {one other : List Char} (same : body one ++ rest = body other ++ later) :
    one = other ∧ rest = later := by
  induction one generalizing other with
  | nil =>
    cases other with
    | nil => exact ⟨rfl, append_cancel_left same⟩
    | cons c more =>
      rw [body, body, append_assoc] at same
      exact absurd same.symm (escape_ne_quote c _ _)
  | cons c more ih =>
    cases other with
    | nil =>
      rw [body, body, append_assoc] at same
      exact absurd same (escape_ne_quote c _ _)
    | cons d others =>
      have first := congrArg unescape same
      rw [body, body, append_assoc, append_assoc, unescape_escape, unescape_escape] at first
      obtain ⟨same, tails⟩ := Prod.mk.inj (Option.some.inj first)
      obtain ⟨texts, rests⟩ := ih tails
      exact ⟨by rw [same, texts], rests⟩

theorem quoted_append_inj {one other : List Char}
    (same : quoted one ++ rest = quoted other ++ later) : one = other ∧ rest = later :=
  body_append_inj (cons.inj same).2

inductive Scalar where
  | text (value : List Char)
  | number (value : Nat)
  deriving DecidableEq

def Scalar.render : Scalar → List Char
  | .text value => quoted value
  | .number value => Nat.toDigits 10 value

/-- What can stand after a value: it does not start with a digit. -/
def Ended (rest : List Char) : Prop := ∀ c, rest.head? = some c → c.isDigit = false

theorem toDigits_append_inj {one other : Nat} (ended : Ended rest) (closed : Ended later)
    (same : Nat.toDigits 10 one ++ rest = Nat.toDigits 10 other ++ later) : one = other ∧ rest = later := by
  have digits : ∀ (n : Nat) (more : List Char), Ended more →
    (Nat.toDigits 10 n ++ more).takeWhile Char.isDigit = Nat.toDigits 10 n := by
    intro n more stops
    rw [takeWhile_append_of_pos fun c member => Text.isDigit_of_mem_toDigits member]
    cases more with
    | nil => simp
    | cons c more => rw [takeWhile_cons_of_neg (by simp [stops c rfl]), append_nil]
  have prefixes := congrArg (takeWhile Char.isDigit) same
  rw [digits one rest ended, digits other later closed] at prefixes
  have equal := Text.toDigits_injective prefixes
  subst equal
  exact ⟨rfl, append_cancel_left same⟩

theorem Scalar.render_append_inj {one other : Scalar} (ended : Ended rest) (closed : Ended later)
    (same : one.render ++ rest = other.render ++ later) : one = other ∧ rest = later := by
  have apart : ∀ (text : List Char) (n : Nat) (rest later : List Char), quoted text ++ rest ≠ Nat.toDigits 10 n ++ later := by
    intro text n rest later equal
    obtain ⟨first, digits, spelled, differs⟩ := Text.exists_toDigits n
    rw [spelled] at equal
    exact differs _ rfl (cons.inj equal).1.symm
  cases one with
  | text text =>
    cases other with
    | text value =>
      obtain ⟨texts, rests⟩ := quoted_append_inj same
      exact ⟨congrArg Scalar.text texts, rests⟩
    | number value => exact absurd same (apart _ _ _ _)
  | number n =>
    cases other with
    | text value => exact absurd same.symm (apart _ _ _ _)
    | number value =>
      obtain ⟨numbers, rests⟩ := toDigits_append_inj ended closed same
      exact ⟨congrArg Scalar.number numbers, rests⟩

def tail : List (List Char × Scalar) → List Char
  | [] => ['\x7d']
  | (name, value) :: later => ',' :: (quoted name ++ ':' :: (value.render ++ tail later))

theorem tail_ended (members : List (List Char × Scalar)) : Ended (tail members) := by
  intro c starts
  cases members <;>
  · cases starts
    decide

theorem member_append_inj {one other : List Char × Scalar} (ended : Ended rest)
    (closed : Ended later) (same : quoted one.1 ++ ':' :: (one.2.render ++ rest) = quoted other.1 ++
    ':' :: (other.2.render ++ later)) : one = other ∧ rest = later := by
  obtain ⟨names, values⟩ := quoted_append_inj same
  obtain ⟨scalars, rests⟩ := Scalar.render_append_inj ended closed (cons.inj values).2
  exact ⟨Prod.ext names scalars, rests⟩

theorem tail_injective (same : tail one = tail other) : one = other := by
  induction one generalizing other with
  | nil =>
    cases other with
    | nil => rfl
    | cons member later => exact absurd (cons.inj same).1 (by decide)
  | cons member rest ih =>
    cases other with
    | nil => exact absurd (cons.inj same).1 (by decide)
    | cons first later =>
      obtain ⟨members, rests⟩ := member_append_inj (tail_ended rest) (tail_ended later) (cons.inj same).2
      exact congrArg₂ cons members (ih rests)

def object : List (List Char × Scalar) → List Char
  | [] => ['\x7b', '\x7d']
  | (name, value) :: later => '\x7b' :: (quoted name ++ ':' :: (value.render ++ tail later))

theorem object_injective (same : object one = object other) : one = other := by
  cases one with
  | nil =>
    cases other with
    | nil => rfl
    | cons member later => exact absurd (cons.inj (cons.inj same).2).1 (by decide)
  | cons member rest =>
    cases other with
    | nil => exact absurd (cons.inj (cons.inj same).2).1 (by decide)
    | cons first later => exact tail_injective (congrArg (cons ',') (cons.inj same).2)

def present (fields : List (List Char × Option Scalar)) : List (List Char × Scalar) :=
  fields.filterMap fun field => field.2.map (field.1, ·)

theorem name_of_present {fields : List (List Char × Option Scalar)} {member : List Char × Scalar}
    (listed : member ∈ present fields) : member.1 ∈ fields.map Prod.fst := by
  obtain ⟨field, here, found⟩ := mem_filterMap.mp listed
  obtain ⟨value, _, same⟩ := Option.map_eq_some_iff.mp found
  rw [← same]
  exact mem_map_of_mem here

theorem present_injective {one other : List (List Char × Option Scalar)} (names : one.map Prod.fst = other.map Prod.fst)
    (distinct : (one.map Prod.fst).Nodup) (same : present one = present other) : one = other := by
  induction one generalizing other with
  | nil => exact (map_eq_nil_iff.mp names.symm).symm
  | cons first rest ih =>
    cases other with
    | nil => cases names
    | cons second later =>
      obtain ⟨name, value⟩ := first
      obtain ⟨again, otherValue⟩ := second
      obtain ⟨equal, others⟩ := cons.inj names
      obtain ⟨fresh, apart⟩ := nodup_cons.mp distinct
      subst equal
      have absent : ∀ found, (name, found) ∉ present rest := fun found listed => fresh (name_of_present listed)
      have missing : ∀ found, (name, found) ∉ present later := fun found listed => fresh (others ▸ name_of_present listed)
      cases value with
      | none =>
        cases otherValue with
        | none => exact congrArg _ (ih others apart same)
        | some found => exact absurd ((same : present rest = _) ▸ mem_cons_self) (absent found)
      | some found =>
        cases otherValue with
        | none => exact absurd ((same : _ = present later) ▸ mem_cons_self) (missing found)
        | some value =>
          obtain ⟨heads, tails⟩ := cons.inj same
          rw [(Prod.mk.inj heads).2, ih others apart tails]

end CanonicalJson
