import Beads.Json.Strings
import Beads.Json.Numbers

namespace Beads.Json

open List

theorem skipSpace_split (input : Bytes) : ∃ gap, Blank gap ∧ input = gap ++ skipSpace input :=
  ⟨input.takeWhile isSpace, fun _ member => mem_takeWhile_imp member, takeWhile_append_dropWhile.symm⟩

variable {input out rest : Bytes} {formatFloat : Bytes → Option Bytes}

theorem skipSpace_gap {gap : Bytes} (blank : Blank gap) {byte : UInt8} (solid : isSpace byte = false) (rest : Bytes) :
    skipSpace (gap ++ byte :: rest) = byte :: rest := by
  rw [skipSpace, dropWhile_append_of_pos blank]
  simp [solid]

theorem Blank.append {one other : Bytes} (oneBlank : Blank one) (otherBlank : Blank other) : Blank (one ++ other) :=
  fun byte member => (mem_append.mp member).elim (oneBlank byte) (otherBlank byte)

theorem literal_sound {word : Bytes} (scanned : literal word input = .ok (out, rest)) : out = word ∧ input = word ++ rest := by
  unfold literal at scanned
  split_ifs at scanned with front
  · cases scanned
    exact ⟨rfl, (prefix_iff_eq_append.mp (List.isPrefixOf_iff_prefix.mp front)).symm⟩
  · cases scanned

open Fallible

section Items

variable {α β : Type} {item : List α → Bytes → Scan (α × Bytes)} {close : UInt8} {unterminated expected : Reason}
  {spells : β → Bytes → Prop} {holds : List α → Prop} {reads : β → α → Prop}

/-- An item scanner that accepts what `spells` has, keeps `holds` of the items, and finds what
`reads` relates to the text. -/
def AcceptsItems (spells : β → Bytes → Prop) (holds : List α → Prop) (reads : β → α → Prop)
    (item : List α → Bytes → Scan (α × Bytes)) : Prop :=
  ∀ before input found rest, holds before → item before input = .ok (found, rest) →
    holds (before ++ [found]) ∧ ∃ gap denoted text, Blank gap ∧ spells denoted text ∧ input = gap ++
      text ++ rest ∧ reads denoted found

section

variable (sound : AcceptsItems spells holds reads item)
include sound

theorem itemsFrom_sound {fuel : Nat} {before all : List α}
    (start : holds before) (scanned : itemsFrom item close unterminated expected fuel before input = .ok (all, rest)) :
    holds all ∧ ∃ found denoted gap text, all = before ++ found ∧ List.Forall₂ reads denoted found ∧
      Blank gap ∧ Separated spells denoted text ∧ input = gap ++ text ++ close :: rest := by
  induction fuel generalizing before input with
  | zero => cases scanned
  | succ fuel ih =>
    obtain ⟨⟨found, after⟩, read, finished⟩ := bind_eq_ok scanned
    obtain ⟨kept, gap, denoted, text, blank, spelled, rfl, related⟩ := sound _ _ _ _ start read
    obtain ⟨later, laterBlank, whole⟩ := skipSpace_split after
    dsimp only at finished
    split at finished
    case h_1 => cases finished
    case h_2 byte tail next =>
      rw [next] at whole
      split_ifs at finished with comma closing
      · obtain ⟨keptAll, more, denotedMore, startGap, moreText, rfl, relatedMore, startBlank, separated, rfl⟩ := ih kept finished
        exact ⟨keptAll, found :: more, denoted :: denotedMore, gap, _, by simp, .cons related relatedMore, blank,
          .next spelled laterBlank startBlank separated, by simp [whole, comma]⟩
      · cases finished
        exact ⟨kept, [found], [denoted], gap, _, rfl, .cons related .nil, blank,
          .last spelled laterBlank, by simp [whole, closing]⟩
      · cases finished

theorem items_sound (start : holds []) {all : List α}
    (scanned : items item close unterminated expected input = .ok (all, rest)) (opening : UInt8) :
    holds all ∧ ∃ denoted text, List.Forall₂ reads denoted all ∧
      Enclosed spells opening close denoted text ∧ opening :: input = text ++ rest := by
  have enclose : ∀ {fuel : Nat} {front inside : Bytes}, Blank front → input = front ++ inside →
      itemsFrom item close unterminated expected fuel [] inside = .ok (all, rest) →
      holds all ∧ ∃ denoted text, List.Forall₂ reads denoted all ∧
        Enclosed spells opening close denoted text ∧ opening :: input = text ++ rest := by
    intro fuel front inside frontBlank whole looped
    obtain ⟨kept, found, denoted, gap, text, rfl, related, blank, separated, rfl⟩ := itemsFrom_sound sound start looped
    exact ⟨kept, denoted, _, related, .items (frontBlank.append blank) separated, by simp [whole]⟩
  obtain ⟨front, frontBlank, whole⟩ := skipSpace_split input
  unfold items at scanned
  split at scanned
  case h_1 none => exact enclose frontBlank (none ▸ whole) scanned
  case h_2 byte tail some =>
    split_ifs at scanned with closing
    · cases scanned
      exact ⟨start, [], _, .nil, .empty frontBlank, by rw [whole, some, closing]; simp⟩
    · exact enclose frontBlank (some ▸ whole) scanned

end

end Items

def Accepts (spells : Value → Bytes → Prop) (value : List PathToken → Bytes → Scan (Bytes × Bytes)) : Prop :=
  ∀ path input out rest, value path input = .ok (out, rest) → ∃ denoted text, spells denoted text ∧ input = text ++ rest

section Parts

variable {spells : Value → Bytes → Prop} {value : List PathToken → Bytes → Scan (Bytes × Bytes)} {path : List PathToken}

theorem element_sound (sound : Accepts spells value) :
    AcceptsItems spells (fun _ => True) (fun _ _ => True) (element value path) := by
  intro before input found rest _ scanned
  obtain ⟨denoted, text, spelled, split⟩ := sound _ _ _ _ scanned
  obtain ⟨gap, blank, whole⟩ := skipSpace_split input
  exact ⟨trivial, gap, denoted, text, blank, spelled, by rw [whole, split, append_assoc], trivial⟩

theorem member_sound (sound : Accepts spells value) :
    AcceptsItems (MemberText spells) (fun found => (found.map Member.key).Nodup) (fun denoted found => denoted.1 = found.key)
      (member value path) := by
  intro before input found rest distinct scanned
  obtain ⟨front, frontBlank, whole⟩ := skipSpace_split input
  unfold member at scanned
  split at scanned
  case h_1 => cases scanned
  case h_2 quote afterQuote start =>
    rw [start] at whole
    obtain ⟨quoted, scanned⟩ := else_error_eq_ok.mp scanned
    obtain ⟨⟨key, afterKey⟩, keyed, named⟩ := bind_eq_ok scanned
    obtain ⟨keyBytes, keySpelled, rfl⟩ := str_sound keyed
    obtain ⟨repeated, named⟩ := ite_error_eq_ok.mp named
    obtain ⟨gap, gapBlank, colonSplit⟩ := skipSpace_split afterKey
    split at named
    case h_1 => cases named
    case h_2 colon afterColon atColon =>
      rw [atColon] at colonSplit
      obtain ⟨isColon, named⟩ := else_error_eq_ok.mp named
      obtain ⟨⟨out, left⟩, read, ⟨⟩⟩ := map_eq_ok named
      obtain ⟨denoted, text, spelled, split⟩ := sound _ _ _ _ read
      obtain ⟨after, afterBlank, valueSplit⟩ := skipSpace_split afterColon
      refine ⟨?_, front, (key, denoted), _, frontBlank, .parts keySpelled gapBlank afterBlank spelled, ?_, rfl⟩
      · show ((before ++ [_]).map Member.key).Nodup
        rw [map_append, nodup_append]
        exact ⟨distinct, nodup_singleton _, fun one listed other last => by
          rw [mem_singleton.mp last]
          exact fun same : one = key => repeated (same ▸ listed)⟩
      · rw [whole, colonSplit, valueSplit, split, quoted, isColon]
        simp

end Parts

theorem map_key_eq {members : List (List Char × Value)} {found : List Member}
    (related : List.Forall₂ (fun denoted rendered => denoted.1 = rendered.key) members found) :
    members.map Prod.fst = found.map Member.key := by
  induction related with
  | nil => rfl
  | cons same _ ih => rw [map_cons, map_cons, same, ih]

namespace Scanner

variable {s : Scanner}

theorem valueWithin_sound {inner : Option (List PathToken → Bytes → Scan (Bytes × Bytes))}
    {grammar : Option (Value → Bytes → Prop)}
    (sound : ∀ value ∈ inner, ∃ spells, grammar = some spells ∧ Accepts spells value) :
    Accepts (ValueText grammar) (s.valueWithin inner) := by
  intro path input out rest scanned
  unfold valueWithin at scanned
  split at scanned
  case h_1 => cases scanned
  case h_2 byte tail =>
    split_ifs at scanned with brace bracket quote t f n number
    · subst brace
      split at scanned
      case h_1 => cases scanned
      case h_2 value =>
        obtain ⟨spells, allowed, inside⟩ := sound value rfl
        obtain ⟨⟨found, after⟩, read, ⟨⟩⟩ := map_eq_ok scanned
        obtain ⟨distinct, members, text, related, enclosed, split⟩ := items_sound (member_sound inside) nodup_nil read 0x7b
        exact ⟨_, text, .object allowed enclosed (map_key_eq related ▸ distinct), split⟩
    · subst bracket
      split at scanned
      case h_1 => cases scanned
      case h_2 value =>
        obtain ⟨spells, allowed, inside⟩ := sound value rfl
        obtain ⟨⟨found, after⟩, read, ⟨⟩⟩ := map_eq_ok scanned
        obtain ⟨_, elements, text, _, enclosed, split⟩ := items_sound (element_sound inside) trivial read 0x5b
        exact ⟨_, text, .array allowed enclosed, split⟩
    · obtain ⟨⟨text, after⟩, read, ⟨⟩⟩ := map_eq_ok scanned
      obtain ⟨bytes, spelled, rfl⟩ := str_sound read
      exact ⟨_, _, .string spelled, by simp [quote]⟩
    · exact ⟨_, _, .true, (literal_sound scanned).2⟩
    · exact ⟨_, _, .false, (literal_sound scanned).2⟩
    · exact ⟨_, _, .null, (literal_sound scanned).2⟩
    · obtain ⟨number, text, spelled, split⟩ := number_sound scanned
      exact ⟨_, text, .number spelled, split⟩
    · cases scanned

theorem value_sound (levels : Nat) : Accepts (Spells levels) (s.value levels) := by
  induction levels with
  | zero => exact valueWithin_sound nofun
  | succ levels ih => exact valueWithin_sound fun value found => ⟨_, rfl, Option.some.inj found ▸ ih⟩

end Scanner

theorem canonicalize_eq_ok_iff {exact : Bool} {raw : Bytes} : canonicalize exact formatFloat raw = .ok out ↔
      ∃ back, Blank back ∧ Scanner.value ⟨raw.length, exact, formatFloat⟩ maxJsonDepth [] (skipSpace raw) = .ok (out, back) := by
  unfold canonicalize Scanner.text
  cases Scanner.value ⟨raw.length, exact, formatFloat⟩ maxJsonDepth [] (skipSpace raw) with
  | error failure => simp [Except.mapError, bind, Except.bind]
  | ok read =>
    obtain ⟨written, rest⟩ := read
    obtain ⟨gap, gapBlank, whole⟩ := skipSpace_split rest
    have blank : Blank rest → skipSpace rest = [] := fun all => dropWhile_eq_nil_iff.mpr all
    simp only [ok_bind]
    cases left : skipSpace rest with
    | nil =>
      rw [left, append_nil] at whole
      constructor
      · intro finished
        cases finished
        exact ⟨rest, whole ▸ gapBlank, rfl⟩
      · rintro ⟨back, _, finished⟩
        exact congrArg Except.ok (Prod.mk.inj (Except.ok.inj finished)).1
    | cons byte more =>
      refine iff_of_false (by simp [Except.mapError, fail]) ?_
      rintro ⟨back, backBlank, finished⟩
      obtain rfl := (Prod.mk.inj (Except.ok.inj finished)).2
      cases left.symm.trans (blank backBlank)

theorem canonicalize_sound {exact : Bool} {raw : Bytes}
    (accepted : canonicalize exact formatFloat raw = .ok out) : ∃ denoted, Denotes raw denoted := by
  obtain ⟨back, backBlank, scanned⟩ := canonicalize_eq_ok_iff.mp accepted
  obtain ⟨denoted, text, spelled, split⟩ := Scanner.value_sound _ _ _ _ _ scanned
  obtain ⟨front, frontBlank, whole⟩ := skipSpace_split raw
  exact ⟨denoted, _, front, text, back, frontBlank, backBlank, by rw [whole, split, append_assoc], spelled⟩

end Beads.Json
