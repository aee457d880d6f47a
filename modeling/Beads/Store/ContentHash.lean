import Beads.Data.Decimal

namespace Beads

open List

abbrev Text8 := List UInt8

structure BondRef where
  (sourceId bondType bondPoint : Text8)

def BondRef.texts (bond : BondRef) : List Text8 := [bond.sourceId, bond.bondType, bond.bondPoint]

structure HashedIssue where
  (title description design acceptanceCriteria notes specId status : Text8 := [])
  priority : Int := 0
  (issueType assignee owner createdBy : Text8 := [])
  externalRef : Option Text8 := none
  sourceSystem : Text8 := []
  pinned : Bool := false
  metadata : Text8 := []
  isTemplate : Bool := false
  bondedFrom : List BondRef := []
  (awaitType awaitId : Text8 := [])
  timeout : Int := 0
  waiters : List Text8 := []
  (molType workType eventKind actor target payload : Text8 := [])

inductive HashField where
  | str (value : Text8)
  | int (value : Int)

namespace HashField

/-- `fmt.Sprintf("%d", number)`. -/
def decimal (number : Int) : Text8 := if number < 0 then 0x2d :: Decimal.spell number.natAbs else Decimal.spell number.natAbs

def bytes : HashField → Text8
  | str value => value
  | int value => decimal value

@[simp] theorem bytes_str (value : Text8) : (str value).bytes = value := rfl

def ascii (text : String) : Text8 := text.toList.map fun char => UInt8.ofNat char.toNat

def flag (value : Bool) (label : String) : HashField := str (if value then ascii label else [])

theorem not_mem_spell {byte : UInt8} (other : Decimal.isDigit byte = false) (number : Nat) : byte ∉ Decimal.spell number :=
  fun member => Bool.false_ne_true (other.symm.trans (Decimal.digits_spell number byte member))

theorem not_mem_decimal (number : Int) : 0 ∉ decimal number := by
  have absent := not_mem_spell (show Decimal.isDigit 0 = false from rfl) number.natAbs
  rw [decimal]
  split <;> simp [absent]

theorem int_inj {one other : Int} : (int one).bytes = (int other).bytes ↔ one = other := by
  have spelled : ∀ {one other : Nat}, Decimal.spell one = Decimal.spell other → one = other := by
    intro one other same
    rw [← Decimal.numeral_spell one, same, Decimal.numeral_spell]
  have signed : ∀ (number : Nat) (rest : Text8), Decimal.spell number ≠ 0x2d :: rest := by
    intro number rest same
    exact not_mem_spell rfl number (same ▸ mem_cons_self)
  constructor
  · intro same
    simp only [bytes, decimal] at same
    split at same <;> split at same
    · have numbers := spelled (cons.inj same).2
      omega
    · exact absurd same.symm (signed _ _)
    · exact absurd same (signed _ _)
    · have numbers := spelled same
      omega
  · rintro rfl
    rfl

/-- Each field ends in a NUL byte. -/
def written (fields : List HashField) : Text8 := fields.flatMap fun field => field.bytes ++ [0]

/-- No string has a NUL byte. -/
def Separated (fields : List HashField) : Prop := ∀ value, str value ∈ fields → 0 ∉ value

theorem splitOn_written {fields : List HashField} (separated : Separated fields) :
    (written fields).splitOn 0 = fields.map bytes ++ [[]] := by
  induction fields with
  | nil => rfl
  | cons field rest ih =>
    have clean : 0 ∉ field.bytes := by
      cases field with
      | str value => exact separated value mem_cons_self
      | int value => exact not_mem_decimal value
    have split := splitOnP_append_cons_of_forall_mem (p := (· == 0))
      (fun byte member => beq_eq_false_iff_ne.mpr (ne_of_mem_of_not_mem member clean)) 0 rfl (written rest)
    rw [written, flatMap_cons, append_assoc]
    exact split.trans (congrArg _ (ih fun value member => separated value (.tail _ member)))

end HashField

namespace HashedIssue

open HashField

def fields (issue : HashedIssue) : List HashField :=
  [str issue.title, str issue.description, str issue.design, str issue.acceptanceCriteria, str issue.notes, str issue.specId,
    str issue.status, int issue.priority, str issue.issueType, str issue.assignee, str issue.owner,
    str issue.createdBy, str (issue.externalRef.getD []), str issue.sourceSystem,
    flag issue.pinned "pinned", str issue.metadata, flag issue.isTemplate "template"] ++
  issue.bondedFrom.flatMap (fun bond => [str bond.sourceId, str bond.bondType, str bond.bondPoint]) ++
  [str issue.awaitType, str issue.awaitId, int issue.timeout] ++ issue.waiters.map str ++
  [str issue.molType, str issue.workType, str issue.eventKind, str issue.actor, str issue.target, str issue.payload]

/-- The bytes that `ComputeContentHash` feeds to the hash. -/
def hashed (issue : HashedIssue) : Text8 := written issue.fields

/-- An absent reference and an empty one are written alike. -/
def normal (issue : HashedIssue) : HashedIssue :=
  { issue with externalRef := some (issue.externalRef.getD []) }

theorem flag_inj {one other : Bool} {label : String} (named : label ≠ "") :
    (flag one label).bytes = (flag other label).bytes ↔ one = other := by
  cases one <;> cases other <;> simp [flag, ascii, named]

/-- What is written between the fields of a fixed number: both lists and the fields between them. -/
def listed (issue : HashedIssue) : List Text8 :=
  issue.bondedFrom.flatMap BondRef.texts ++
    ([issue.awaitType, issue.awaitId, decimal issue.timeout] ++ issue.waiters)

def unlisted (issue : HashedIssue) : HashedIssue :=
  { issue.normal with bondedFrom := [], awaitType := [], awaitId := [], timeout := 0, waiters := [] }

section

variable {one other : HashedIssue}

theorem hashed_eq_iff (separated : Separated one.fields) (apart : Separated other.fields) :
    one.hashed = other.hashed ↔ one.unlisted = other.unlisted ∧ one.listed = other.listed := by
  have texts : one.hashed = other.hashed ↔ one.fields.map bytes = other.fields.map bytes := by
    constructor
    · intro same
      have split := congrArg (splitOn 0) same
      rwa [hashed, hashed, splitOn_written separated, splitOn_written apart, append_left_inj] at split
    · intro same
      have written : ∀ fields, written fields = (fields.map bytes).flatMap (· ++ [0]) := fun fields => by
        rw [flatMap_map]
        rfl
      rw [hashed, hashed, written, written, same]
  have bonds : ∀ issue : HashedIssue, (issue.bondedFrom.flatMap fun bond =>
      [str bond.sourceId, str bond.bondType, str bond.bondPoint]).map bytes = issue.bondedFrom.flatMap BondRef.texts :=
    fun issue => map_flatMap
  have waiters : ∀ issue : HashedIssue, issue.waiters.map (bytes ∘ str) = issue.waiters := fun issue => map_id _
  -- A fixed number of fields comes behind the listed ones.
  have cut : ∀ {back last : List Text8}, back.length = last.length →
      (one.listed ++ back = other.listed ++ last ↔ one.listed = other.listed ∧ back = last) := by
    intro back last lengths
    exact ⟨fun same => append_inj' same lengths, fun ⟨same, ends⟩ => by rw [same, ends]⟩
  have spelled : ∀ issue : HashedIssue, issue.fields.map bytes =
      [str issue.title, str issue.description, str issue.design, str issue.acceptanceCriteria, str issue.notes,
        str issue.specId, str issue.status, int issue.priority, str issue.issueType, str issue.assignee, str issue.owner,
        str issue.createdBy, str (issue.externalRef.getD []), str issue.sourceSystem, flag issue.pinned "pinned",
        str issue.metadata, flag issue.isTemplate "template"].map bytes ++ (issue.listed ++
      [issue.molType, issue.workType, issue.eventKind, issue.actor, issue.target, issue.payload]) := by
    intro issue
    simp only [fields, listed, map_append, map_map, bonds, waiters, append_assoc]
    rfl
  rw [texts, spelled, spelled]
  simp only [map_cons, map_nil, cons_append, nil_append, cons.injEq]
  rw [cut]
  · simp [unlisted, normal, flag_inj, int_inj]
    tauto
  · rfl

theorem normal_eq_iff : one.normal = other.normal ↔ one.unlisted = other.unlisted ∧
    one.bondedFrom = other.bondedFrom ∧ one.awaitType = other.awaitType ∧
    one.awaitId = other.awaitId ∧ one.timeout = other.timeout ∧ one.waiters = other.waiters := by
  simp only [unlisted, normal, HashedIssue.mk.injEq]
  tauto

theorem flatMap_texts_eq_iff {bonds others : List BondRef} {rest later : List Text8} (more : others.length ≤ bonds.length) :
    bonds.flatMap BondRef.texts ++ rest = others.flatMap BondRef.texts ++ later ↔
      ∃ extra, bonds = others ++ extra ∧ extra.flatMap BondRef.texts ++ rest = later := by
  induction others generalizing bonds with
  | nil => simp
  | cons first others ih =>
    cases bonds with
    | nil => cases more
    | cons bond bonds =>
      cases bond
      cases first
      simp [BondRef.texts, ih (Nat.le_of_succ_le_succ more), and_assoc]

/-- The one issue has a bond that the other has in its await fields, with all
that follows among its waiters. -/
structure Shifted (one other : HashedIssue) : Prop where
  unlisted : one.unlisted = other.unlisted
  listed : ∃ bond more, one.bondedFrom = other.bondedFrom ++ bond :: more ∧
    bond.texts = [other.awaitType, other.awaitId, decimal other.timeout] ∧
    other.waiters = more.flatMap BondRef.texts ++ ([one.awaitType, one.awaitId, decimal one.timeout] ++ one.waiters)

theorem Shifted.more (shifted : Shifted one other) : other.bondedFrom.length < one.bondedFrom.length := by
  obtain ⟨_, bond, more, bonds, _⟩ := shifted
  simp [bonds]

theorem listed_eq_iff (same : one.unlisted = other.unlisted) (more : other.bondedFrom.length ≤ one.bondedFrom.length) :
    one.listed = other.listed ↔ one.normal = other.normal ∨ Shifted one other := by
  rw [listed, listed, flatMap_texts_eq_iff more]
  constructor
  · rintro ⟨extra, bonds, spelled⟩
    cases extra with
    | nil =>
      simp only [flatMap_nil, nil_append, cons_append, cons.injEq] at spelled
      rw [append_nil] at bonds
      exact .inl (normal_eq_iff.mpr ⟨same, bonds, spelled.1, spelled.2.1, int_inj.mp spelled.2.2.1, spelled.2.2.2⟩)
    | cons bond more =>
      rw [flatMap_cons, append_assoc] at spelled
      obtain ⟨texts, waiters⟩ := append_inj spelled rfl
      exact .inr ⟨same, bond, more, bonds, texts, waiters.symm⟩
  · rintro (same | ⟨_, bond, more, bonds, texts, waiters⟩)
    · obtain ⟨_, bonds, type, id, timeout, waiters⟩ := normal_eq_iff.mp same
      exact ⟨[], by rw [append_nil, bonds], by rw [type, id, timeout, waiters]; rfl⟩
    · refine ⟨bond :: more, bonds, ?_⟩
      rw [flatMap_cons, texts, append_assoc, waiters]

theorem hashed_cases (separated : Separated one.fields) (apart : Separated other.fields) :
    one.hashed = other.hashed ↔ one.normal = other.normal ∨ Shifted one other ∨ Shifted other one := by
  rw [hashed_eq_iff separated apart]
  constructor
  · rintro ⟨same, listed⟩
    obtain more | more := le_total other.bondedFrom.length one.bondedFrom.length
    · exact ((listed_eq_iff same more).mp listed).imp_right .inl
    · exact ((listed_eq_iff same.symm more).mp listed.symm).imp .symm .inr
  · rintro (same | shifted | shifted)
    · obtain ⟨unlisted, bonds, _⟩ := normal_eq_iff.mp same
      exact ⟨unlisted, (listed_eq_iff unlisted (by rw [bonds])).mpr (.inl same)⟩
    · exact ⟨shifted.unlisted, (listed_eq_iff shifted.unlisted shifted.more.le).mpr (.inr shifted)⟩
    · exact ⟨shifted.unlisted.symm,
        ((listed_eq_iff shifted.unlisted shifted.more.le).mpr (.inr shifted)).symm⟩

/-- Two issues without NUL bytes in their strings and with as many bonds are written alike exactly
if they agree on every hashed field. -/
theorem hashed_inj (separated : Separated one.fields) (apart : Separated other.fields) :
    one.hashed = other.hashed ∧ one.bondedFrom.length = other.bondedFrom.length ↔ one.normal = other.normal := by
  rw [hashed_cases separated apart]
  constructor
  · rintro ⟨same | shifted | shifted, bonds⟩
    · exact same
    · exact absurd bonds shifted.more.ne'
    · exact absurd bonds shifted.more.ne
  · exact fun same => ⟨.inl same, congrArg (fun issue => issue.bondedFrom.length) same⟩

/-- Being written alike means agreeing on every hashed field if and only if no bond of one issue
stands in the await fields of the other; in particular if they have as many bonds. -/
theorem hashed_faithful_iff (separated : Separated one.fields) (apart : Separated other.fields) :
    ((one.hashed = other.hashed → one.normal = other.normal) ↔ ¬ Shifted one other ∧ ¬ Shifted other one) ∧
      (one.hashed = other.hashed ∧ one.bondedFrom.length = other.bondedFrom.length ↔ one.normal = other.normal) := by
  refine ⟨?_, hashed_inj separated apart⟩
  have unequal : one.normal = other.normal → one.bondedFrom.length = other.bondedFrom.length :=
    congrArg fun issue : HashedIssue => issue.bondedFrom.length
  rw [hashed_cases separated apart]
  constructor
  · intro faithful
    refine ⟨fun shifted => ?_, fun shifted => ?_⟩
    · exact shifted.more.ne' (unequal (faithful (.inr (.inl shifted))))
    · exact shifted.more.ne (unequal (faithful (.inr (.inr shifted))))
  · rintro ⟨none, nor⟩ (same | shifted | shifted)
    · exact same
    · exact absurd shifted none
    · exact absurd shifted nor

end

def bonded : HashedIssue :=
  { bondedFrom := [⟨ascii "x", ascii "y", ascii "0"⟩], awaitType := ascii "a", awaitId := ascii "b", timeout := 5 }

def waiting : HashedIssue :=
  { awaitType := ascii "x", awaitId := ascii "y", waiters := [ascii "a", ascii "b", ascii "5"] }

theorem bonded_separated : Separated bonded.fields := by
  simp [Separated, bonded, fields, flag, ascii]

/-- An absent reference and an empty one. -/
theorem bonded_faithful : bonded.hashed = { bonded with externalRef := some [] }.hashed ∧
    bonded.normal = { bonded with externalRef := some [] }.normal := by
  have bonds : bonded.bondedFrom.length = { bonded with externalRef := some [] }.bondedFrom.length := rfl
  refine ⟨rfl, (hashed_faithful_iff bonded_separated bonded_separated).1.mpr ⟨?_, ?_⟩ rfl⟩
  · exact fun shifted => absurd bonds shifted.more.ne'
  · exact fun shifted => absurd bonds shifted.more.ne

theorem bonded_hashed_as_waiting : Separated bonded.fields ∧ Separated waiting.fields ∧
    bonded.hashed = waiting.hashed ∧ bonded.waiters ≠ waiting.waiters :=
  ⟨bonded_separated, by simp [Separated, waiting, fields, flag, ascii], by decide, by decide⟩

end HashedIssue

end Beads
