import Beads.Data.AssocList
import Beads.Json.Keys
import Beads.Json.Sound

namespace Beads.Json

def MemberForm (form : Value → Bytes → Prop) (member : List Char × Value) (rendered : Member) : Prop :=
  member.1 = rendered.key ∧ form member.2 rendered.value

inductive CanonicalForm (admits : Bytes → Prop) (inner : Option (Value → Bytes → Prop)) : Value → Bytes → Prop where
  | null : CanonicalForm admits inner .null (ascii "null")
  | true : CanonicalForm admits inner (.bool true) (ascii "true")
  | false : CanonicalForm admits inner (.bool false) (ascii "false")
  | number {number : ℚ} {out : Bytes} (canonical : CanonicalNumber number out) (admitted : admits out) :
      CanonicalForm admits inner (.number number) out
  | string (text : List Char) : CanonicalForm admits inner (.string text) (canonicalString text)
  | array {form : Value → Bytes → Prop} {elements : List Value} {outs : List Bytes} (allowed : inner = some form)
      (forms : List.Forall₂ form elements outs) : CanonicalForm admits inner (.array elements) (renderArray outs)
  | object {form : Value → Bytes → Prop} {object : List Char →
    Option Value} {members : List (List Char × Value)} {rendered : List Member}
      (allowed : inner = some form) (looked : object = fun key => members.lookup key)
      (forms : List.Forall₂ (MemberForm form) members rendered) (sorted : Sorted rendered) :
      CanonicalForm admits inner (.object object) (renderObject rendered)

/-- The canonical form of a value that is nested no deeper than `levels`. -/
def Canonical (admits : Bytes → Prop) : Nat → Value → Bytes → Prop
  | 0 => CanonicalForm admits none
  | levels + 1 => CanonicalForm admits (some (Canonical admits levels))

def Admits (exact : Bool) (formatFloat : Bytes → Option Bytes) (out : Bytes) : Prop :=
  exact = false → binary64Peer formatFloat out = some out

def PeersByValue (formatFloat : Bytes → Option Bytes) : Prop :=
  ∀ one oneText other otherText, NumberText one oneText → NumberText other otherText →
    one.value = other.value → binary64Peer formatFloat oneText = binary64Peer formatFloat otherText

/-- The canonical form of every number that is taken is admitted. -/
def Judges (exact : Bool) (formatFloat : Bytes → Option Bytes) (admits : Bytes → Prop) : Prop :=
  ∀ number text out, NumberText number text → CanonicalNumber number.value out →
    (exact = false → binary64Peer formatFloat text = some out) → admits out

theorem judges_of_peers {exact : Bool} {formatFloat : Bytes → Option Bytes}
    (peers : exact = false → PeersByValue formatFloat) :
    Judges exact formatFloat (Admits exact formatFloat) := by
  intro number text out spelled canonical admitted inexact
  obtain ⟨reread, rereadSpelled, _, sameValue⟩ := canonical.spelled
  rw [← admitted inexact]
  exact peers inexact _ _ _ _ rereadSpelled spelled sameValue

variable {byte : UInt8} {gap text : Bytes}

theorem isSpace_ends (space : isSpace byte = true) : Ends byte := by
  simp only [isSpace, Bool.or_eq_true, beq_iff_eq] at space
  rcases space with ((rfl | rfl) | rfl) | rfl <;> decide

open List

theorem Blank.boundary (blank : Blank gap) : Boundary gap :=
  fun byte first => isSpace_ends (blank byte (mem_of_head? first))

theorem boundary_gap (blank : Blank gap) (ends : Ends byte) (rest : Bytes) : Boundary (gap ++ byte :: rest) := by
  cases gap with
  | nil =>
    rintro _ ⟨⟩
    exact ends
  | cons space gap =>
    rintro _ ⟨⟩
    exact isSpace_ends (blank space (.head _))

structure Closing (close : UInt8) : Prop where
  solid : isSpace close = false
  ends : Ends close
  notComma : close ≠ 0x2c

def Opens (close : UInt8) (text : Bytes) : Prop := ∃ byte tail, text = byte :: tail ∧ isSpace byte = false ∧ byte ≠ close

/-- What the form writes does not start like what closes the list it stands in. -/
def Opened {β : Type} (close : UInt8) (form : β → Bytes → Prop) : Prop :=
  ∀ denoted text, form denoted text → Opens close text

theorem Opens.skipSpace {close : UInt8} (opens : Opens close text) (blank : Blank gap)
    (rest : Bytes) : skipSpace (gap ++ (text ++ rest)) = text ++ rest := by
  obtain ⟨byte, tail, rfl, solid, _⟩ := opens
  exact skipSpace_gap blank solid _

theorem NumberText.start {number : Literal} (spelled : NumberText number text) :
    ∃ byte tail, text = byte :: tail ∧ (byte = 0x2d ∨ Decimal.isDigit byte = true) := by
  obtain @⟨neg, intPart, frac, fracText, expText, exp, integer, _, _⟩ := spelled
  cases neg with
  | true => exact ⟨0x2d, _, rfl, .inl rfl⟩
  | false =>
    cases intPart with
    | nil => exact absurd rfl integer.nonempty
    | cons byte intPart => exact ⟨byte, _, rfl, .inr (integer.all byte (.head _))⟩

theorem opens_of_number {close : UInt8} (number : byte = 0x2d ∨ Decimal.isDigit byte = true)
    (ends : Ends close) (differs : close ≠ 0x2d) : isSpace byte = false ∧ byte ≠ close := by
  rcases number with rfl | digits
  · exact ⟨by decide, Ne.symm differs⟩
  · constructor
    · cases space : isSpace byte with
      | true => exact absurd (digits.symm.trans (isSpace_ends space).1) nofun
      | false => rfl
    · exact digit_ne digits ends.1

theorem ValueText.opens {inner : Option (Value → Bytes → Prop)} : Opened 0x5d (ValueText inner) := by
  intro value text spelled
  cases spelled with
  | null => exact ⟨0x6e, _, rfl, by decide, by decide⟩
  | true => exact ⟨0x74, _, rfl, by decide, by decide⟩
  | false => exact ⟨0x66, _, rfl, by decide, by decide⟩
  | number spelled =>
    obtain ⟨byte, tail, rfl, start⟩ := spelled.start
    exact ⟨byte, tail, rfl, opens_of_number start (by decide) (by decide)⟩
  | string spelled => exact ⟨0x22, _, rfl, by decide, by decide⟩
  | array allowed inside => cases inside <;> exact ⟨0x5b, _, rfl, by decide, by decide⟩
  | object allowed inside => cases inside <;> exact ⟨0x7b, _, rfl, by decide, by decide⟩

open Fallible

section Items

variable {α β : Type} {item : List α → Bytes → Scan (α × Bytes)} {close : UInt8}
  {unterminated expected : Reason} {spells : β → Bytes → Prop} {reads : β → α → Prop}

/-- An item scanner that stops where the item ends and finds what `reads` relates to it. -/
def ReadsItems (spells : β → Bytes → Prop) (reads : β → α → Prop) (item : List α → Bytes → Scan (α × Bytes)) : Prop :=
  ∀ denoted text gap before more found left, spells denoted text → Blank gap → Boundary more →
    item before (gap ++ (text ++ more)) = .ok (found, left) → left = more ∧ reads denoted found

variable {rest : Bytes} {denoted : List β}

theorem itemsFrom_step {fuel : Nat} {before : List α} {input : Bytes} {found : α}
    (read : item before input = .ok (found, gap ++ byte :: rest)) (blank : Blank gap) (solid : isSpace byte = false) :
    itemsFrom item close unterminated expected (fuel + 1) before input =
      if byte = 0x2c then itemsFrom item close unterminated expected fuel (before ++ [found]) rest
      else if byte = close then .ok (before ++ [found], rest) else fail (byte :: rest) expected := by
  rw [itemsFrom, read, ok_bind]
  dsimp only
  rw [skipSpace_gap blank solid]

theorem itemsFrom_complete (complete : ReadsItems spells reads item) (closing : Closing close)
    (separated : Separated spells denoted text) {fuel : Nat} {before all : List α} {left : Bytes} (blank : Blank gap)
    (scanned : itemsFrom item close unterminated expected fuel before (gap ++ (text ++ close :: rest)) = .ok (all, left)) :
    left = rest ∧ ∃ found, all = before ++ found ∧ List.Forall₂ reads denoted found := by
  induction separated generalizing fuel gap before with
  | @last first text after spelled afterBlank =>
    cases fuel with
    | zero => cases scanned
    | succ fuel =>
      rw [append_assoc] at scanned
      obtain ⟨⟨found, middle⟩, read, _⟩ := bind_eq_ok scanned
      obtain ⟨rfl, related⟩ := complete _ _ _ _ _ _ _ spelled blank (boundary_gap afterBlank closing.ends _) read
      rw [itemsFrom_step read afterBlank closing.solid, if_neg closing.notComma, if_pos rfl] at scanned
      cases scanned
      exact ⟨rfl, [found], rfl, .cons related .nil⟩
  | @next first items text after start more spelled afterBlank startBlank later ih =>
    cases fuel with
    | zero => cases scanned
    | succ fuel =>
      simp only [append_assoc, cons_append] at scanned
      obtain ⟨⟨found, middle⟩, read, _⟩ := bind_eq_ok scanned
      obtain ⟨rfl, related⟩ := complete _ _ _ _ _ _ _ spelled blank (boundary_gap afterBlank (by decide) _) read
      rw [itemsFrom_step read afterBlank rfl, if_pos rfl] at scanned
      obtain ⟨rfl, others, rfl, relatedMore⟩ := ih startBlank scanned
      exact ⟨rfl, found :: others, by simp, .cons related relatedMore⟩

theorem Separated.opens (opens : Opened close spells) (separated : Separated spells denoted text) : Opens close text := by
  cases separated with
  | last spelled blank | next spelled blank startBlank later =>
    obtain ⟨byte, tail, rfl, solid, differs⟩ := opens _ _ spelled
    exact ⟨byte, _, rfl, solid, differs⟩

theorem items_complete (complete : ReadsItems spells reads item) (closing : Closing close)
    (opens : Opened close spells) {opening : UInt8} {input : Bytes}
    (enclosed : Enclosed spells opening close denoted text) {all : List α} {left : Bytes}
    (split : text ++ rest = opening :: input)
    (scanned : items item close unterminated expected input = .ok (all, left)) : left = rest ∧
      List.Forall₂ reads denoted all := by
  cases enclosed with
  | @empty gap blank =>
    have inside : input = gap ++ close :: rest := by simpa using (cons.inj split).2.symm
    rw [items, inside, skipSpace_gap blank closing.solid] at scanned
    dsimp only at scanned
    rw [if_pos rfl] at scanned
    cases scanned
    exact ⟨rfl, .nil⟩
  | @items _ gap text blank separated =>
    have inside : input = gap ++ (text ++ close :: rest) := by simpa using (cons.inj split).2.symm
    have skipped := inside ▸ (separated.opens opens).skipSpace blank (close :: rest)
    obtain ⟨byte, tail, shape, solid, differs⟩ := separated.opens opens
    rw [items, skipped, shape] at scanned
    dsimp only [cons_append] at scanned
    rw [if_neg differs, ← cons_append, ← shape, ← nil_append (text ++ close :: rest)] at scanned
    obtain ⟨same, found, rfl, related⟩ := itemsFrom_complete complete closing separated (forall_mem_nil _) scanned
    exact ⟨same, related⟩

end Items

/-- A scanner of values that stops where the value ends and writes its form. -/
def Reads (spells form : Value → Bytes → Prop) (value : List PathToken → Bytes → Scan (Bytes × Bytes)) : Prop :=
  ∀ denoted text path rest out left, spells denoted text → Boundary rest →
    value path (text ++ rest) = .ok (out, left) → left = rest ∧ form denoted out

section Parts

variable {spells form : Value → Bytes → Prop} {value : List PathToken → Bytes → Scan (Bytes × Bytes)} {path : List PathToken}

section

variable (opens : Opened 0x5d spells)
include opens

theorem element_complete (complete : Reads spells form value) :
    ReadsItems spells form (element value path) := by
  intro denoted text gap before more found left spelled blank ends scanned
  rw [element, (opens _ _ spelled).skipSpace blank] at scanned
  exact complete _ _ _ _ _ _ spelled ends scanned

theorem member_of_text {denoted : List Char × Value}
    (spelled : MemberText spells denoted text) (blank : Blank gap) (earlier : List Member)
    (more : Bytes) : ∃ inside, spells denoted.2 inside ∧
      (denoted.1 ∈ earlier.map Member.key → ∃ failure, member value path earlier (gap ++ (text ++ more)) = .error failure) ∧
      (denoted.1 ∉ earlier.map Member.key → member value path earlier (gap ++ (text ++ more)) =
        (value (path ++ [.key denoted.1]) (inside ++ more)).map fun (out, rest) => (⟨denoted.1, out⟩, rest)) := by
  obtain @⟨key, denoted, bytes, before, after, inside, named, beforeBlank, afterBlank, spelled⟩ := spelled
  have read : member value path earlier (gap ++ ((0x22 :: bytes ++ 0x22 :: before ++ 0x3a :: after ++ inside) ++ more)) =
      if key ∈ earlier.map Member.key then fail (before ++ 0x3a :: (after ++ (inside ++ more))) (.duplicateKey key)
      else (value (path ++ [.key key]) (inside ++ more)).map fun (out, rest) => (⟨key, out⟩, rest) := by
    simp only [append_assoc, cons_append]
    rw [member, skipSpace_gap blank rfl]
    show (str _ >>= _) = _
    rw [str_complete named, ok_bind]
    dsimp only
    rw [skipSpace_gap beforeBlank rfl]
    show (if _ then _ else Except.map _ (value _ (skipSpace _))) = _
    rw [(opens _ _ spelled).skipSpace afterBlank]
  rw [read]
  exact ⟨inside, spelled, fun repeated => ⟨_, if_pos repeated⟩, fun fresh => if_neg fresh⟩

theorem member_complete (complete : Reads spells form value) :
    ReadsItems (MemberText spells) (MemberForm form) (member value path) := by
  intro denoted text gap before more found left spelled blank ends scanned
  obtain ⟨inside, insideSpelled, repeated, fresh⟩ := member_of_text opens spelled blank before more
  by_cases seen : denoted.1 ∈ before.map Member.key
  · obtain ⟨failure, failed⟩ := repeated seen
    exact absurd (failed.symm.trans scanned) nofun
  · obtain ⟨⟨out, after⟩, read, ⟨⟩⟩ := map_eq_ok ((fresh seen).symm.trans scanned)
    obtain ⟨same, written⟩ := complete _ _ _ _ _ _ insideSpelled ends read
    exact ⟨same, rfl, written⟩

end

end Parts

theorem MemberText.opens {spells : Value → Bytes → Prop} : Opened 0x7d (MemberText spells) := by
  intro denoted text spelled
  cases spelled with
  | parts => exact ⟨0x22, _, rfl, by decide, by decide⟩

theorem literal_complete (word rest : Bytes) : literal word (word ++ rest) = .ok (word, rest) := by
  rw [literal, if_pos (List.isPrefixOf_iff_prefix.mpr (prefix_append word rest)), drop_left]

theorem closing_bracket : Closing 0x5d := ⟨by decide, by decide, by decide⟩

theorem closing_brace : Closing 0x7d := ⟨by decide, by decide, by decide⟩

theorem sortMembers_forms {form : Value → Bytes → Prop} {members : List (List Char × Value)} {found : List Member}
    (forms : List.Forall₂ (MemberForm form) members found) (distinct : (members.map Prod.fst).Nodup) :
    ∃ sorted, (fun key => members.lookup key) = (fun key => sorted.lookup key) ∧
      List.Forall₂ (MemberForm form) sorted (sortMembers found) ∧ Sorted (sortMembers found) := by
  have keys := map_key_eq (forms.imp fun _ _ both => both.1)
  obtain ⟨sorted, sortedForms, permuted⟩ := perm_comp_forall₂ (sortMembers_perm found) forms.flip
  exact ⟨sorted, funext fun key => AssocList.lookup_perm permuted.symm distinct key,
    sortedForms.flip, sorted_sortMembers (keys ▸ distinct)⟩

theorem Spells.opens {height : Nat} : Opened 0x5d (Spells height) := by
  cases height with
  | zero | succ height => exact ValueText.opens

namespace Scanner

variable {s : Scanner} {inner : Option (List PathToken → Bytes → Scan (Bytes × Bytes))}

theorem valueWithin_number {path : List PathToken} {tail : Bytes}
    (number : byte = 0x2d ∨ Decimal.isDigit byte = true) : s.valueWithin inner path (byte :: tail) =
      s.number path (byte :: tail) := by
  have differs : ∀ other : UInt8, other ≠ 0x2d → Decimal.isDigit other = false → byte ≠ other := by
    intro other notMinus notDigit
    exact number.elim (fun minus => minus ▸ notMinus.symm) fun digits => digit_ne digits notDigit
  unfold valueWithin
  dsimp only
  rw [if_neg (differs _ (by decide) (by decide)), if_neg (differs _ (by decide) (by decide)),
    if_neg (differs _ (by decide) (by decide)), if_neg (differs _ (by decide) (by decide)),
      if_neg (differs _ (by decide) (by decide)),
    if_neg (differs _ (by decide) (by decide)), if_pos number]

section

variable {admits : Bytes → Prop} (judges : Judges s.exact s.formatFloat admits)
include judges

theorem valueWithin_complete {grammar forms : Option (Value → Bytes → Prop)}
    (complete : ∀ value ∈ inner, ∃ form, forms = some form ∧ ∀ spells ∈ grammar,
    Reads spells form value) (opens : ∀ spells ∈ grammar, Opened 0x5d spells) :
    Reads (ValueText grammar) (CanonicalForm admits forms) (s.valueWithin inner) := by
  intro denoted text path rest out left spelled ends scanned
  cases spelled with
  | null =>
    obtain ⟨rfl, rfl⟩ := Prod.mk.inj (Except.ok.inj ((literal_complete (ascii "null") rest).symm.trans scanned))
    exact ⟨rfl, .null⟩
  | true =>
    obtain ⟨rfl, rfl⟩ := Prod.mk.inj (Except.ok.inj ((literal_complete (ascii "true") rest).symm.trans scanned))
    exact ⟨rfl, .true⟩
  | false =>
    obtain ⟨rfl, rfl⟩ := Prod.mk.inj (Except.ok.inj ((literal_complete (ascii "false") rest).symm.trans scanned))
    exact ⟨rfl, .false⟩
  | @number number text spelled =>
    obtain ⟨byte, tail, shape, start⟩ := spelled.start
    have asNumber : s.number path (text ++ rest) = .ok (out, left) := by
      rw [shape, cons_append] at scanned ⊢
      rwa [valueWithin_number start] at scanned
    obtain ⟨same, canonical, admitted⟩ := number_complete spelled ends asNumber
    exact ⟨same, .number canonical (judges _ _ _ spelled canonical admitted)⟩
  | @string text bytes spelled =>
    rw [append_assoc] at scanned
    obtain ⟨⟨found, after⟩, read, finished⟩ := map_eq_ok (show (str (bytes ++ 0x22 :: rest)).map _ = _ from scanned)
    rw [str_complete spelled] at read
    cases read
    cases finished
    exact ⟨rfl, .string text⟩
  | @array spells elements text allowed inside =>
    obtain ⟨input, split⟩ : ∃ input, text ++ rest = 0x5b :: input := by cases inside <;> exact ⟨_, rfl⟩
    rw [split] at scanned
    cases inner with
    | none => cases scanned
    | some value =>
      obtain ⟨form, formAllowed, reads⟩ := complete value rfl
      obtain ⟨⟨found, after⟩, read, ⟨⟩⟩ := map_eq_ok (show (arrayElements value path input).map _ = _ from scanned)
      obtain ⟨same, written⟩ := items_complete (element_complete (opens spells allowed) (reads spells allowed)) closing_bracket
        (opens spells allowed) inside split read
      exact ⟨same, .array formAllowed written⟩
  | @object spells members text allowed inside distinct =>
    obtain ⟨input, split⟩ : ∃ input, text ++ rest = 0x7b :: input := by cases inside <;> exact ⟨_, rfl⟩
    rw [split] at scanned
    cases inner with
    | none => cases scanned
    | some value =>
      obtain ⟨form, formAllowed, reads⟩ := complete value rfl
      obtain ⟨⟨found, after⟩, read, ⟨⟩⟩ := map_eq_ok (show (objectMembers value path input).map _ = _ from scanned)
      obtain ⟨same, written⟩ := items_complete (member_complete (opens spells allowed) (reads spells allowed)) closing_brace
        MemberText.opens inside split read
      obtain ⟨sorted, looked, sortedForms, ordered⟩ := sortMembers_forms written distinct
      exact ⟨same, .object formAllowed looked sortedForms ordered⟩

theorem value_complete (height levels : Nat) :
    Reads (Spells height) (Canonical admits levels) (s.value levels) := by
  induction height generalizing levels with
  | zero =>
    cases levels with
    | zero => exact valueWithin_complete judges nofun nofun
    | succ levels => exact valueWithin_complete judges (fun _ _ => ⟨_, rfl, nofun⟩) nofun
  | succ height ih =>
    have opens : ∀ spells ∈ some (Spells height), Opened 0x5d spells := by
      intro spells found
      cases found
      exact Spells.opens
    cases levels with
    | zero => exact valueWithin_complete judges nofun opens
    | succ levels =>
      refine valueWithin_complete judges (fun value found => ⟨_, rfl, fun spells allowed => ?_⟩) opens
      cases found
      cases allowed
      exact ih levels

end

end Scanner

end Beads.Json
