import Beads.Json.Complete

namespace Beads.Json

theorem commaSeparated_cons (first second : Bytes) (rest : List Bytes) :
    commaSeparated (first :: second :: rest) = first ++ 0x2c :: commaSeparated (second :: rest) := by
  simp [commaSeparated, List.intercalate]

theorem blank_nil : Blank [] := nofun

open List

section Items

variable {α : Type} {item : List α → Bytes → Scan (α × Bytes)} {close : UInt8}
    {unterminated expected : Reason} {render : α → Bytes}

def ReadsBack (render : α → Bytes) (item : List α → Bytes → Scan (α × Bytes)) (all : List α) : Prop :=
  ∀ before found after, all = before ++ found :: after → ∀ more, Boundary more →
    item before (render found ++ more) = .ok (found, more)

theorem itemsFrom_canonical (closing : Closing close) {before found : List α} (back : ReadsBack render item (before ++ found))
    (nonempty : found ≠ []) {fuel : Nat} (enough : found.length ≤ fuel) (rest : Bytes) :
    itemsFrom item close unterminated expected fuel before (commaSeparated (found.map render) ++
      close :: rest) = .ok (before ++ found, rest) := by
  induction found generalizing before fuel with
  | nil => exact absurd rfl nonempty
  | cons first found ih =>
    obtain ⟨fuel, rfl⟩ := Nat.exists_eq_add_of_lt enough
    cases found with
    | nil =>
      have read := back before first [] rfl (close :: rest) (boundary_gap blank_nil closing.ends rest)
      have alone : commaSeparated [render first] = render first := by simp [commaSeparated, intercalate]
      rw [map_cons, map_nil, alone, itemsFrom_step read blank_nil closing.solid, if_neg closing.notComma, if_pos rfl]
    | cons second found =>
      have read := back before first (second :: found) rfl (0x2c ::
        (commaSeparated ((second :: found).map render) ++ close :: rest))
        (boundary_gap blank_nil (by decide) _)
      have shifted : before ++ first :: second :: found = before ++ [first] ++ second :: found := by simp
      rw [map_cons, map_cons, commaSeparated_cons, append_assoc, cons_append, ← map_cons,
        itemsFrom_step read blank_nil rfl, if_pos rfl,
          ih (shifted ▸ back) (cons_ne_nil _ _) (by rw [length_cons] at enough ⊢; omega), shifted]

theorem length_le_commaSeparated {texts : List Bytes} (nonempty : ∀ text ∈ texts, text ≠ []) :
    texts.length ≤ (commaSeparated texts).length := by
  induction texts with
  | nil => exact Nat.zero_le _
  | cons first rest ih =>
    have here : 0 < first.length := length_pos_iff.mpr (nonempty first (.head _))
    cases rest with
    | nil => simpa [commaSeparated, intercalate] using Nat.succ_le_of_lt here
    | cons second rest =>
      have later := ih fun text member => nonempty text (.tail _ member)
      rw [commaSeparated_cons, length_append]
      simp only [length_cons] at later ⊢
      omega

def Legible (close : UInt8) (render : α → Bytes) (item : List α → Bytes → Scan (α × Bytes)) (all : List α) : Prop :=
  ReadsBack render item all ∧ ∀ one ∈ all, Opens close (render one)

theorem items_canonical (closing : Closing close) {found : List α} (legible : Legible close render item found) (rest : Bytes) :
    items item close unterminated expected (commaSeparated (found.map render) ++ close :: rest) = .ok (found, rest) := by
  cases found with
  | nil =>
    have skipped : skipSpace (close :: rest) = close :: rest := skipSpace_gap blank_nil closing.solid rest
    rw [items, map_nil, commaSeparated, intercalate_nil, nil_append, skipped]
    exact if_pos rfl
  | cons first found =>
    obtain ⟨back, opens⟩ := legible
    obtain ⟨byte, tail, shape, solid, differs⟩ := opens first (.head _)
    obtain ⟨more, whole⟩ : ∃ more, commaSeparated ((first :: found).map render) ++ close :: rest = byte :: more := by
      cases found with
      | nil => exact ⟨tail ++ close :: rest, by simp [commaSeparated, intercalate, shape]⟩
      | cons second found => exact ⟨_, by rw [map_cons, map_cons, commaSeparated_cons, shape]; rfl⟩
    have enough : (first :: found).length ≤ more.length + 2 := by
      have texts := @length_le_commaSeparated ((first :: found).map render) fun text member => by
        obtain ⟨one, listed, rfl⟩ := mem_map.mp member
        obtain ⟨_, _, nonempty, _⟩ := opens one listed
        exact nonempty ▸ cons_ne_nil _ _
      have total := congrArg length whole
      rw [length_append, length_cons, length_cons] at total
      rw [length_map] at texts
      omega
    have skipped : skipSpace (byte :: more) = byte :: more := skipSpace_gap blank_nil solid more
    rw [items, whole, skipped]
    show (if byte = close then _ else _) = _
    rw [if_neg differs, ← whole]
    exact itemsFrom_canonical closing back (cons_ne_nil _ _) enough rest

end Items

def ReadsForms (form : Value → Bytes → Prop) (value : List PathToken → Bytes → Scan (Bytes × Bytes)) : Prop :=
  ∀ denoted out path rest, form denoted out → Boundary rest → value path (out ++ rest) = .ok (out, rest)

variable {value : Value} {out : Bytes} {forms : Option (Value → Bytes → Prop)}

variable {admits : Bytes → Prop}

/-- The byte that a value starts with; numbers have several. -/
def Value.initial : Value → Option UInt8
  | .null => some 0x6e
  | .bool true => some 0x74
  | .bool false => some 0x66
  | .number _ => none
  | .string _ => some 0x22
  | .array _ => some 0x5b
  | .object _ => some 0x7b

theorem CanonicalForm.initial (canonical : CanonicalForm admits forms value out) :
    ∃ byte tail, out = byte :: tail ∧ value.initial = if byte = 0x2d ∨ Decimal.isDigit byte then none else some byte := by
  cases canonical with
  | null => exact ⟨0x6e, _, rfl, by decide⟩
  | true => exact ⟨0x74, _, rfl, by decide⟩
  | false => exact ⟨0x66, _, rfl, by decide⟩
  | number canonical admitted =>
    obtain ⟨number, spelled, _⟩ := canonical.spelled
    obtain ⟨byte, tail, rfl, start⟩ := spelled.start
    exact ⟨byte, tail, rfl, (if_pos start).symm⟩
  | string text => exact ⟨0x22, _, rfl, (if_neg (by decide)).symm⟩
  | array => exact ⟨0x5b, _, rfl, (if_neg (by decide)).symm⟩
  | object => exact ⟨0x7b, _, rfl, (if_neg (by decide)).symm⟩

theorem CanonicalForm.opens : Opened 0x5d (CanonicalForm admits forms) := by
  intro value out canonical
  obtain ⟨byte, tail, rfl, starts⟩ := canonical.initial
  refine ⟨byte, tail, rfl, ?_⟩
  by_cases number : byte = 0x2d ∨ Decimal.isDigit byte
  · exact opens_of_number number (by decide) (by decide)
  · rw [if_neg number] at starts
    cases value with
    | number => cases starts
    | bool truth => cases truth <;> cases starts <;> decide
    | null | string | array | object =>
      cases starts
      decide

theorem Canonical.opens {levels : Nat} : Opened 0x5d (Canonical admits levels) := by
  cases levels with
  | zero | succ levels => exact CanonicalForm.opens

open Member

section Parts

variable {form : Value → Bytes → Prop} {value : List PathToken → Bytes → Scan (Bytes × Bytes)} {path : List PathToken}

theorem exists_form {α β : Type} {relates : α → β → Prop} {denoted : List α} {found : List β}
    (forms : List.Forall₂ relates denoted found) : ∀ one ∈ found, ∃ other, relates other one := by
  induction forms with
  | nil => exact nofun
  | cons here _ ih => exact forall_mem_cons.mpr ⟨⟨_, here⟩, ih⟩

theorem element_legible (reads : ReadsForms form value) (opens : Opened 0x5d form) {elements : List Value}
    {outs : List Bytes} (forms : List.Forall₂ form elements outs) : Legible 0x5d id (element value path) outs := by
  refine ⟨?_, fun out member => (exists_form forms out member).elim fun denoted => opens denoted out⟩
  intro before found after shape more ends
  obtain ⟨denoted, canonical⟩ := exists_form forms found (by rw [shape]; simp)
  rw [element, id, ← nil_append (found ++ more), (opens _ _ canonical).skipSpace blank_nil]
  exact reads _ _ _ _ canonical ends

theorem member_legible (reads : ReadsForms form value) (opens : Opened 0x5d form)
    {members : List (List Char × Value)} {rendered : List Member} (forms : List.Forall₂ (MemberForm form) members rendered)
    (distinct : (rendered.map key).Nodup) : Legible 0x7d render (member value path) rendered := by
  refine ⟨?_, fun _ _ => ⟨0x22, _, rfl, by decide, by decide⟩⟩
  intro before found after shape more ends
  obtain ⟨denoted, _, canonical⟩ := exists_form forms found (by rw [shape]; simp)
  have fresh : found.key ∉ before.map key := by
    rw [shape, map_append, nodup_append] at distinct
    exact fun repeated => distinct.2.2 _ repeated _ (.head _) rfl
  have spelled : MemberText (fun _ text => text = found.value) (found.key, denoted.2)
      (0x22 :: found.key.flatMap canonicalChar ++ 0x22 :: [] ++ 0x3a :: [] ++ found.value) :=
    .parts (canonicalString_spells found.key) blank_nil blank_nil rfl
  obtain ⟨inside, rfl, _, read⟩ := @member_of_text [] _ _ value path
    (fun _ text same => by rw [same]; exact opens _ _ canonical) _ spelled blank_nil before more
  have written : found.render = 0x22 :: found.key.flatMap canonicalChar ++ 0x22 :: [] ++ 0x3a :: [] ++ found.value := by
    simp [render, canonicalString]
  rw [written, ← nil_append (_ ++ more), read fresh, reads _ _ _ _ canonical ends]
  rfl

end Parts

namespace Scanner

variable {s : Scanner}

section

variable (admitted : ∀ out, admits out → Admits s.exact s.formatFloat out)
include admitted

theorem valueWithin_canonical {inner : Option (List PathToken → Bytes → Scan (Bytes × Bytes))}
    (reads : ∀ form ∈ forms, ∃ value, inner = some value ∧ ReadsForms form value)
    (opens : ∀ form ∈ forms, Opened 0x5d form) :
    ReadsForms (CanonicalForm admits forms) (s.valueWithin inner) := by
  intro denoted out path rest canonical ends
  cases canonical with
  | null => exact literal_complete (ascii "null") rest
  | true => exact literal_complete (ascii "true") rest
  | false => exact literal_complete (ascii "false") rest
  | @number number out canonical allowed =>
    obtain ⟨literal, spelled, _⟩ := canonical.spelled
    obtain ⟨byte, tail, shape, start⟩ := spelled.start
    have read := number_canonical canonical (admitted out allowed) path ends
    rw [shape, cons_append] at read ⊢
    rw [valueWithin_number start, read]
  | string text =>
    rw [canonicalString, append_assoc]
    show (str (text.flatMap canonicalChar ++ 0x22 :: rest)).map _ = _
    rw [str_complete (canonicalString_spells text)]
    rfl
  | @array form elements outs allowed forms =>
    obtain ⟨value, rfl, back⟩ := reads form allowed
    have read := @items_canonical _ (element value path) 0x5d .unterminatedArray .expectedCommaOrBracket id closing_bracket outs
      (element_legible back (opens form allowed) forms) rest
    rw [renderArray, append_assoc]
    show (arrayElements value path (commaSeparated outs ++ 0x5d :: rest)).map _ = _
    rw [map_id] at read
    rw [arrayElements, read]
    rfl
  | @object form object members rendered allowed looked forms sorted =>
    obtain ⟨value, rfl, back⟩ := reads form allowed
    have read :=
      @items_canonical _ (member value path) 0x7d .unterminatedObject .expectedCommaOrBrace render
      closing_brace rendered
      (member_legible back (opens form allowed) forms sorted.distinct) rest
    rw [renderObject, append_assoc]
    show (objectMembers value path (commaSeparated (rendered.map render) ++ 0x7d :: rest)).map _ = _
    rw [objectMembers, read]
    show Except.ok (renderObject (sortMembers rendered), rest) = _
    rw [sorted.sortMembers_eq]
    rfl

theorem value_canonical (levels : Nat) : ReadsForms (Canonical admits levels) (s.value levels) := by
  induction levels with
  | zero => exact valueWithin_canonical admitted nofun nofun
  | succ levels ih =>
    refine valueWithin_canonical admitted (fun form found => ⟨_, rfl, ?_⟩) fun form found => ?_
    · cases found
      exact ih
    · cases found
      exact Canonical.opens

end

end Scanner

theorem members_eq {form : Value → Bytes → Prop} {one other : List (List Char × Value)}
    {oneRendered otherRendered : List Member}
    (oneForms : List.Forall₂ (MemberForm form) one oneRendered) (oneSorted : Sorted oneRendered)
    (otherForms : List.Forall₂ (MemberForm form) other otherRendered) (otherSorted : Sorted otherRendered)
    (same : (fun key => one.lookup key) = fun key => other.lookup key) : one = other := by
  have keys : ∀ {members : List (List Char × Value)} {rendered : List Member}, List.Forall₂ (MemberForm form) members rendered →
      members.map Prod.fst = rendered.map key := fun forms => map_key_eq (forms.imp fun _ _ both => both.1)
  have ordered : ∀ {members : List (List Char × Value)} {rendered : List Member},
    List.Forall₂ (MemberForm form) members rendered →
      Sorted rendered → members.Pairwise fun first second => compareCodeUnits first.1 second.1 = .lt := by
    intro members rendered forms sorted
    have byKey : (members.map Prod.fst).Pairwise fun first second => compareCodeUnits first second = .lt :=
      keys forms ▸ pairwise_map.mpr sorted
    exact pairwise_map.mp byKey
  refine List.Perm.eq_of_pairwise (fun first second _ _ below above => ?_)
    (ordered oneForms oneSorted) (ordered otherForms otherSorted)
    (AssocList.perm_of_lookup (keys oneForms ▸ oneSorted.distinct) (keys otherForms ▸ otherSorted.distinct) (congrFun same))
  rw [compareCodeUnits_swap, below] at above
  cases above

theorem CanonicalForm.unique (inner : ∀ form ∈ forms, Relator.RightUnique form) :
    Relator.RightUnique (CanonicalForm admits forms) := by
  intro value one other oneForm otherForm
  cases oneForm with
  | null | true | false | string =>
    cases otherForm
    rfl
  | number canonical _ =>
    cases otherForm with
    | number otherCanonical _ => exact canonical.unique otherCanonical
  | @array form elements outs allowed written =>
    cases otherForm with
    | array otherAllowed otherWritten =>
      obtain rfl := Option.some.inj (allowed.symm.trans otherAllowed)
      exact congrArg renderArray ((inner _ allowed).forall₂ written otherWritten)
  | @object form object members rendered allowed looked written sorted =>
    cases otherForm with
    | object otherAllowed otherLooked otherWritten otherSorted =>
      obtain rfl := Option.some.inj (allowed.symm.trans otherAllowed)
      obtain rfl := members_eq written sorted otherWritten otherSorted (looked.symm.trans otherLooked)
      have byMember : Relator.RightUnique (MemberForm form) := by
        rintro member ⟨oneKey, oneOut⟩ ⟨otherKey, otherOut⟩ ⟨oneNamed, oneCanonical⟩ ⟨otherNamed, otherCanonical⟩
        rw [mk.injEq]
        exact ⟨oneNamed.symm.trans otherNamed, inner _ allowed oneCanonical otherCanonical⟩
      exact congrArg renderObject (byMember.forall₂ written otherWritten)

theorem Canonical.unique (levels : Nat) : Relator.RightUnique (Canonical admits levels) := by
  induction levels with
  | zero => exact CanonicalForm.unique nofun
  | succ levels ih => exact CanonicalForm.unique fun form found => Option.some.inj found ▸ ih

theorem CanonicalNumber.injective {one other : ℚ} (oneForm : CanonicalNumber one out)
    (otherForm : CanonicalNumber other out) : one = other := by
  obtain ⟨oneNumber, oneSpelled, oneBounded, rfl⟩ := oneForm.spelled
  obtain ⟨otherNumber, otherSpelled, otherBounded, rfl⟩ := otherForm.spelled
  have ends : Boundary [] := blank_nil.boundary
  have oneRead := numberLiteral_complete oneSpelled ends 0
  have otherRead := numberLiteral_complete otherSpelled ends 0
  rw [Nat.add_zero, if_pos oneBounded] at oneRead
  rw [Nat.add_zero, if_pos otherBounded] at otherRead
  rw [(Prod.mk.inj (Except.ok.inj (oneRead.symm.trans otherRead))).1]

theorem canonicalString_injective {one other : List Char}
    (same : canonicalString one = canonicalString other) : one = other := by
  have inside : one.flatMap canonicalChar ++ 0x22 :: [] = other.flatMap canonicalChar ++ 0x22 :: [] := (cons.inj same).2
  have oneRead := str_complete (canonicalString_spells one) []
  rw [inside, str_complete (canonicalString_spells other)] at oneRead
  exact (Prod.mk.inj (Except.ok.inj oneRead)).1.symm

theorem commaSeparated_injective {α : Type} {item : List α → Bytes → Scan (α × Bytes)}
    {close : UInt8} {render : α → Bytes} (closing : Closing close)
    {one other : List α} (oneLegible : Legible close render item one) (otherLegible : Legible close render item other)
    (same : commaSeparated (one.map render) ++ [close] = commaSeparated (other.map render) ++ [close]) : one = other := by
  have oneRead := @items_canonical _ item close .unterminatedArray .unterminatedArray render closing one oneLegible []
  have otherRead := @items_canonical _ item close .unterminatedArray .unterminatedArray render closing other otherLegible []
  rw [same, otherRead] at oneRead
  exact (Prod.mk.inj (Except.ok.inj oneRead)).1.symm

theorem CanonicalForm.injective (inner : ∀ form ∈ forms, Relator.LeftUnique form)
    (reads : ∀ form ∈ forms, ∃ value, ReadsForms form value)
    (opens : ∀ form ∈ forms, Opened 0x5d form) : Relator.LeftUnique (CanonicalForm admits forms) := by
  intro one other out oneForm otherForm
  have sameInitial : one.initial = other.initial := by
    obtain ⟨byte, tail, rfl, oneInitial⟩ := oneForm.initial
    obtain ⟨again, more, shape, otherInitial⟩ := otherForm.initial
    rw [oneInitial, otherInitial, (cons.inj shape).1]
  generalize same : out = otherOut at otherForm
  cases oneForm <;> cases otherForm
  case null.null | true.true | false.false => rfl
  case number.number canonical _ _ otherCanonical _ => exact congrArg Value.number (canonical.injective (same ▸ otherCanonical))
  case string.string => exact congrArg Value.string (canonicalString_injective same)
  case array.array form elements outs allowed written _ otherElements otherOuts otherAllowed otherWritten =>
    obtain rfl := Option.some.inj (allowed.symm.trans otherAllowed)
    obtain ⟨value, back⟩ := reads form allowed
    have inside : commaSeparated (outs.map id) ++ [0x5d] = commaSeparated (otherOuts.map id) ++ [0x5d] := by
      rw [map_id, map_id]
      exact (cons.inj same).2
    have outsSame := commaSeparated_injective closing_bracket (@element_legible _ _ [] back (opens form allowed) _ _ written)
      (element_legible back (opens form allowed) otherWritten) inside
    exact congrArg Value.array ((inner form allowed).forall₂ written (outsSame ▸ otherWritten))
  case object.object form _ members rendered allowed looked written sorted _ _ _ _ otherAllowed
    otherLooked otherWritten otherSorted =>
    obtain rfl := Option.some.inj (allowed.symm.trans otherAllowed)
    obtain ⟨value, back⟩ := reads form allowed
    have renderedSame := commaSeparated_injective closing_brace
      (@member_legible _ _ [] back (opens form allowed) _ _ written sorted.distinct)
      (member_legible back (opens form allowed) otherWritten otherSorted.distinct) (cons.inj same).2
    have byMember : Relator.LeftUnique (MemberForm form) := by
      rintro ⟨oneKey, oneValue⟩ ⟨otherKey, otherValue⟩ rendered ⟨oneNamed, oneCanonical⟩ ⟨otherNamed, otherCanonical⟩
      rw [Prod.mk.injEq]
      exact ⟨oneNamed.trans otherNamed.symm, inner form allowed oneCanonical otherCanonical⟩
    rw [looked, otherLooked, byMember.forall₂ written (renderedSame ▸ otherWritten)]
  all_goals exact absurd sameInitial (by simp [Value.initial])

theorem Canonical.injective (levels : Nat) : Relator.LeftUnique (Canonical admits levels) := by
  induction levels with
  | zero => exact CanonicalForm.injective nofun nofun nofun
  | succ levels ih =>
    -- Without the binary64 law every canonical form is read back.
    have reads : ReadsForms (Canonical admits levels) (Scanner.value ⟨0, true, fun _ => none⟩ levels) :=
      Scanner.value_canonical (fun _ _ inexact => absurd (inexact : true = false) nofun) levels
    refine CanonicalForm.injective (fun form found => ?_)
      (fun form found => ⟨_, Option.some.inj found ▸ reads⟩) fun form found => ?_
    · cases found
      exact ih
    · cases found
      exact Canonical.opens

section Texts

variable {exact : Bool} {formatFloat : Bytes → Option Bytes} {raw out : Bytes}

theorem canonicalize_complete {admits : Bytes → Prop} (judges : Judges exact formatFloat admits) {denoted : Value}
    (denotes : Denotes raw denoted) (accepted : canonicalize exact formatFloat raw = .ok out) :
    Canonical admits maxJsonDepth denoted out := by
  obtain ⟨height, front, text, back, frontBlank, backBlank, rfl, spelled⟩ := denotes
  obtain ⟨left, _, scanned⟩ := canonicalize_eq_ok_iff.mp accepted
  rw [append_assoc, (Spells.opens _ _ spelled).skipSpace frontBlank] at scanned
  exact (Scanner.value_complete judges height maxJsonDepth _ _ _ _ _ _ spelled backBlank.boundary scanned).2

theorem canonicalize_canonical {denoted : Value} (canonical : Canonical (Admits exact formatFloat) maxJsonDepth denoted out) :
    canonicalize exact formatFloat out = .ok out := by
  have read :=
    @Scanner.value_canonical _ ⟨out.length, exact, formatFloat⟩ (fun _ allowed => allowed)
    maxJsonDepth denoted out [] [] canonical
    blank_nil.boundary
  have skipped := (Canonical.opens _ _ canonical).skipSpace blank_nil []
  rw [append_nil] at read
  rw [append_nil, nil_append] at skipped
  exact canonicalize_eq_ok_iff.mpr ⟨[], blank_nil, skipped.symm ▸ read⟩

theorem canonicalizeJson_agrees (accepted : canonicalizeJson formatFloat raw = .ok out) :
    canonicalizeJsonExact out = .ok out ∧ ∀ other, canonicalizeJsonExact raw = .ok other → other = out := by
  obtain ⟨value, denotes⟩ := canonicalize_sound accepted
  -- The exact canonicalizer admits every number, so nothing is asked of what the other one reads.
  have canonical : Canonical (Admits true fun _ => none) maxJsonDepth value out :=
    canonicalize_complete (fun _ _ _ _ _ _ => nofun) denotes accepted
  refine ⟨canonicalize_canonical canonical, fun other taken => ?_⟩
  exact Canonical.unique maxJsonDepth
    (canonicalize_complete (fun _ _ _ _ _ _ => nofun) denotes taken) canonical

theorem one_agrees : canonicalizeJsonExact (ascii "1") = .ok (ascii "1") :=
  (@canonicalizeJson_agrees (fun _ => some (ascii "1e+00")) (ascii "1.0") _ (by decide +kernel)).1

end Texts

/-- Two accepted texts have the same canonical bytes exactly when they denote the same value, and
the canonical bytes are accepted and returned unchanged. -/
def Faithful (canonicalize : Bytes → Except Refusal Bytes) : Prop :=
  ∀ one other oneOut otherOut, canonicalize one = .ok oneOut → canonicalize other = .ok otherOut →
    (∃ oneValue otherValue, (∀ value, Denotes one value ↔ value = oneValue) ∧
      (∀ value, Denotes other value ↔ value = otherValue) ∧
    (oneOut = otherOut ↔ oneValue = otherValue)) ∧ canonicalize oneOut = .ok oneOut

theorem canonicalize_faithful {exact : Bool} {formatFloat : Bytes → Option Bytes}
    (peers : exact = false → PeersByValue formatFloat) :
    Faithful (canonicalize exact formatFloat) := by
  intro one other oneOut otherOut oneAccepted otherAccepted
  have meaning : ∀ {raw out : Bytes}, canonicalize exact formatFloat raw = .ok out →
      ∃ meant, (∀ value, Denotes raw value ↔ value = meant) ∧ Canonical (Admits exact formatFloat) maxJsonDepth meant out := by
    intro raw out accepted
    obtain ⟨meant, denotes⟩ := canonicalize_sound accepted
    have canonical := canonicalize_complete (judges_of_peers peers) denotes accepted
    refine ⟨meant, fun value => ⟨fun also => ?_, fun same => same ▸ denotes⟩, canonical⟩
    exact Canonical.injective maxJsonDepth
      (canonicalize_complete (judges_of_peers peers) also accepted) canonical
  obtain ⟨oneValue, oneMeans, oneCanonical⟩ := meaning oneAccepted
  obtain ⟨otherValue, otherMeans, otherCanonical⟩ := meaning otherAccepted
  refine ⟨⟨oneValue, otherValue, oneMeans, otherMeans, fun same => ?_, fun same => ?_⟩, canonicalize_canonical oneCanonical⟩
  · exact Canonical.injective maxJsonDepth oneCanonical (same ▸ otherCanonical)
  · exact Canonical.unique maxJsonDepth oneCanonical (same ▸ otherCanonical)

theorem canonicalizeJson_faithful :
    Faithful canonicalizeJsonExact ∧ ∀ formatFloat, PeersByValue formatFloat → Faithful (canonicalizeJson formatFloat) :=
  ⟨canonicalize_faithful nofun, fun _ peers => canonicalize_faithful fun _ => peers⟩

theorem oneReader_faithful :
    canonicalizeJson (fun _ => some (ascii "1e+00")) (ascii "\x7b\"b\":[10e-1],\"a\":\"\"\x7d") =
      .ok (ascii "\x7b\"a\":\"\",\"b\":[1]\x7d") ∧
      canonicalizeJson (fun _ => some (ascii "1e+00"))
        (ascii " \x7b\"a\":\"\", \"\\u0062\":[1]\x7d ") =
        .ok (ascii "\x7b\"a\":\"\",\"b\":[1]\x7d") ∧
      ∃ meant, Denotes (ascii "\x7b\"b\":[10e-1],\"a\":\"\"\x7d") meant ∧
        Denotes (ascii " \x7b\"a\":\"\", \"\\u0062\":[1]\x7d ") meant := by
  have first : canonicalizeJson (fun _ => some (ascii "1e+00")) (ascii "\x7b\"b\":[10e-1],\"a\":\"\"\x7d") =
      .ok (ascii "\x7b\"a\":\"\",\"b\":[1]\x7d") := by decide +kernel
  have second : canonicalizeJson (fun _ => some (ascii "1e+00")) (ascii " \x7b\"a\":\"\", \"\\u0062\":[1]\x7d ") =
      .ok (ascii "\x7b\"a\":\"\",\"b\":[1]\x7d") := by decide +kernel
  obtain ⟨⟨one, other, oneMeans, otherMeans, agree⟩, _⟩ :=
    canonicalizeJson_faithful.2 (fun _ => some (ascii "1e+00")) (fun _ _ _ _ _ _ _ => rfl) _ _ _ _ first second
  exact ⟨first, second, one, (oneMeans one).mpr rfl, (otherMeans one).mpr (agree.mp rfl)⟩

example : canonicalizeJsonExact (ascii " \x7b\"b\" : [10e-1, -0.0, 1E21], \"a\\u000a\":null\x7d") =
    .ok (ascii "\x7b\"a\\n\":null,\"b\":[1,0,1e+21]\x7d") := by
  decide +kernel

end Beads.Json
