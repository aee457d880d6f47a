import Beads.Ready.Work

namespace Beads

open List

/-- The tables that a search reads, the rows of the main one by their ids. What the clauses of the
filter's other members select is given. -/
structure FilterTables (γ : Type) where
  main : List Id
  keyed : main.Nodup
  labels : List (Id × String)
  clauses : γ → Id → Bool
  regexp : (pattern text : String) → Bool

structure LabelFilter (γ : Type) where
  labels : List String := []
  labelsAny : List String := []
  excludeLabels : List String := []
  noLabels : Bool := false
  labelPattern : String := ""
  labelRegex : String := ""
  others : γ

/-- Each test is that of one more alias of the label table. -/
structure LabelSearchPlan (γ : Type) where
  tests : List (String → Bool) := []
  distinct : Bool := false
  filter : LabelFilter γ

variable {γ : Type}

def buildLabelDrivenSearch (filter : LabelFilter γ) : LabelSearchPlan γ :=
  let labels := compactNonEmpty filter.labels
  let labelsAny := compactNonEmpty filter.labelsAny
  if labels.isEmpty && labelsAny.isEmpty then { filter }
  else
    { tests := labels.map (fun label => (· == label)) ++ if labelsAny.isEmpty then [] else [labelsAny.contains]
      distinct := true
      filter := { filter with labels := [], labelsAny := [] } }

namespace FilterTables

variable (tables : FilterTables γ)

def labelsOf (item : Id) : List String :=
  (tables.labels.filter fun row => row.1 == item).map Prod.snd

/-- `id IN (SELECT issue_id FROM labels WHERE label = ?)`. -/
def carries (item : Id) (label : String) : Bool := (tables.labelsOf item).contains label

def labelSetClauses (labels labelsAny exclude : List String) (item : Id) : Bool :=
  labels.all (tables.carries item) && (labelsAny.isEmpty || labelsAny.any (tables.carries item)) &&
    !exclude.any (tables.carries item)

def buildIssueFilterClauses (filter : LabelFilter γ) (item : Id) : Bool :=
  tables.clauses filter.others item && filter.labels.all (tables.carries item) &&
  (filter.labelsAny.isEmpty || filter.labelsAny.any (tables.carries item)) &&
  !filter.excludeLabels.any (tables.carries item) && (!filter.noLabels || (tables.labelsOf item).isEmpty) &&
  (filter.labelPattern == "" || (tables.labelsOf item).any fun label =>
    Text.likeEscape '|' (ReadySnapshot.globToLikePattern filter.labelPattern) label.toList) &&
  (filter.labelRegex == "" || (tables.labelsOf item).any (tables.regexp filter.labelRegex))

/-- A row of the main table is joined once for each choice of labels that pass
the tests of the aliases. -/
def search (plan : LabelSearchPlan γ) : List Id :=
  let joined := tables.main.flatMap fun item =>
    (plan.tests.map fun test => (tables.labelsOf item).filter test).sections.map fun _ => item
  let selected := joined.filter (tables.buildIssueFilterClauses plan.filter)
  if plan.distinct then selected.dedup else selected

variable {tables} {plan : LabelSearchPlan γ} {filter : LabelFilter γ} {item : Id} {labels labelsAny texts : List String}

theorem sections_eq_nil {lists : List (List String)} : lists.sections = [] ↔ ∃ list ∈ lists, list = [] := by
  induction lists with
  | nil => simp [sections]
  | cons list rest ih =>
    cases list with
    | nil => simp [sections]
    | cons label list =>
      rw [eq_nil_iff_forall_not_mem] at ih
      simpa [sections] using ih

theorem mem_search : item ∈ tables.search plan ↔ item ∈ tables.main ∧
    (∀ test ∈ plan.tests, (tables.labelsOf item).any test = true) ∧ tables.buildIssueFilterClauses plan.filter item = true := by
  have selected : ∀ items : List Id, item ∈ (if plan.distinct then items.dedup else items) ↔ item ∈ items := by
    split <;> simp
  simp [search, selected, sections_eq_nil, and_assoc]

theorem search_nodup : (tables.search (buildLabelDrivenSearch filter)).Nodup := by
  rw [buildLabelDrivenSearch]
  split
  · simpa [search, sections] using tables.keyed.filter _
  · exact nodup_dedup _

theorem tests_iff : (∀ test ∈ labels.map (fun label => (· == label)) ++ if labelsAny.isEmpty then [] else [labelsAny.contains],
      (tables.labelsOf item).any test = true) ↔ tables.labelSetClauses labels labelsAny [] item = true := by
  rw [forall_mem_append]
  cases labelsAny with
  | nil => simp [labelSetClauses, carries]
  | cons _ _ => simp [labelSetClauses, carries, and_comm]

/-- An empty entry of the label lists decides on the row: without the empty label it passes all but
such an entry, with it the only entry of the second list that it has is the empty one. -/
def ToldByEmpty (tables : FilterTables γ) (filter : LabelFilter γ) (item : Id) : Prop :=
  (∀ label ∈ filter.labels, label ≠ "" → tables.carries item label = true) ∧
    if tables.carries item "" then
      "" ∈ filter.labelsAny ∧ (∃ label ∈ filter.labelsAny, label ≠ "") ∧
        ∀ label ∈ filter.labelsAny, label ≠ "" → tables.carries item label = false
    else
      "" ∈ filter.labels ∧ (∃ label ∈ filter.labelsAny, label ≠ "" ∧ tables.carries item label = true) ∨
        "" ∈ filter.labels ++ filter.labelsAny ∧ ∀ label ∈ filter.labelsAny, label = ""

/-- The lists as given and without their empty entries ask the same of a row that no empty entry
decides on. -/
theorem labelSetClauses_compact :
    (tables.labelSetClauses (compactNonEmpty filter.labels) (compactNonEmpty filter.labelsAny) [] item =
      tables.labelSetClauses filter.labels filter.labelsAny [] item) ↔ ¬ tables.ToldByEmpty filter item := by
  have all : (∀ label ∈ filter.labels, tables.carries item label = true) ↔
      (∀ label ∈ filter.labels, label ≠ "" → tables.carries item label = true) ∧
        ("" ∈ filter.labels → tables.carries item "" = true) := by
    refine ⟨fun every => ⟨fun label member _ => every label member, every ""⟩, fun ⟨full, blank⟩ label member => ?_⟩
    by_cases empty : label = ""
    · exact empty ▸ blank (empty ▸ member)
    · exact full label member empty
  have any : (∃ label ∈ filter.labelsAny, tables.carries item label = true) ↔
      (∃ label ∈ filter.labelsAny, label ≠ "" ∧ tables.carries item label = true) ∨
        "" ∈ filter.labelsAny ∧ tables.carries item "" = true := by
    constructor
    · rintro ⟨label, member, carried⟩
      by_cases empty : label = ""
      · exact .inr ⟨empty ▸ member, empty ▸ carried⟩
      · exact .inl ⟨label, member, empty, carried⟩
    · rintro (⟨label, member, _, carried⟩ | ⟨member, carried⟩)
      · exact ⟨label, member, carried⟩
      · exact ⟨"", member, carried⟩
  have none : filter.labelsAny = [] ↔ (∀ label ∈ filter.labelsAny, label = "") ∧ "" ∉ filter.labelsAny := by
    refine ⟨fun empty => by simp [empty], fun ⟨blank, absent⟩ => eq_nil_iff_forall_not_mem.mpr fun label member => ?_⟩
    exact absent (blank label member ▸ member)
  have compacted : compactNonEmpty filter.labelsAny = [] ↔ ∀ label ∈ filter.labelsAny, label = "" := by
    simp [compactNonEmpty]
  have distinct : (∃ label ∈ filter.labelsAny, label ≠ "" ∧ tables.carries item label = true) →
      ¬∀ label ∈ filter.labelsAny, label = "" := fun ⟨label, member, full, _⟩ blank => full (blank label member)
  have given : tables.labelSetClauses filter.labels filter.labelsAny [] item = true ↔
      (∀ label ∈ filter.labels, tables.carries item label = true) ∧
        (filter.labelsAny = [] ∨ ∃ label ∈ filter.labelsAny, tables.carries item label = true) := by
    simp [labelSetClauses]
  have joined : tables.labelSetClauses (compactNonEmpty filter.labels) (compactNonEmpty filter.labelsAny) [] item = true ↔
      (∀ label ∈ filter.labels, label ≠ "" → tables.carries item label = true) ∧
        ((∀ label ∈ filter.labelsAny, label = "") ∨
          ∃ label ∈ filter.labelsAny, label ≠ "" ∧ tables.carries item label = true) := by
    rw [← compacted]
    simp [labelSetClauses, compactNonEmpty, or_iff_not_imp_left]
  have uncarried : (∀ label ∈ filter.labelsAny, label ≠ "" → tables.carries item label = false) ↔
      ¬∃ label ∈ filter.labelsAny, label ≠ "" ∧ tables.carries item label = true := by
    simp
  have some : (∃ label ∈ filter.labelsAny, label ≠ "") ↔ ¬∀ label ∈ filter.labelsAny, label = "" := by
    simp
  rw [Bool.eq_iff_iff, joined, given, all, any, none, ToldByEmpty, uncarried, some, mem_append]
  clear all any none compacted given joined uncarried some
  generalize (∀ label ∈ filter.labels, label ≠ "" → tables.carries item label = true) = full
  generalize (∃ label ∈ filter.labelsAny, label ≠ "" ∧ tables.carries item label = true) = found at *
  generalize (∀ label ∈ filter.labelsAny, label = "") = blank at *
  split <;> grind

/-- A search through joins selects the distinct rows of the filter's clauses if and only if the
label lists have nothing but empty entries or none of these decides on a row that passes the other
clauses. The clauses on labels are those of the label set. -/
theorem search_perm_iff (tables : FilterTables γ) (filter : LabelFilter γ) :
    ((tables.search (buildLabelDrivenSearch filter)).Perm (tables.main.filter (tables.buildIssueFilterClauses filter)) ↔
      (∀ label ∈ filter.labels ++ filter.labelsAny, label = "") ∨
        ∀ item ∈ tables.main, tables.buildIssueFilterClauses { filter with labels := [], labelsAny := [] } item = true →
          ¬ tables.ToldByEmpty filter item) ∧
    ∀ item, tables.buildIssueFilterClauses filter item =
      (tables.buildIssueFilterClauses { filter with labels := [], labelsAny := [], excludeLabels := [] } item &&
        tables.labelSetClauses filter.labels filter.labelsAny filter.excludeLabels item) := by
  have parts (item : Id) : tables.buildIssueFilterClauses filter item =
      (tables.buildIssueFilterClauses { filter with labels := [], labelsAny := [] } item &&
        tables.labelSetClauses filter.labels filter.labelsAny [] item) := by
    simp [buildIssueFilterClauses, labelSetClauses]
    ac_rfl
  constructor
  · rw [perm_ext_iff_of_nodup search_nodup (tables.keyed.filter _), buildLabelDrivenSearch]
    simp only [mem_search, mem_filter]
    have blank : ((compactNonEmpty filter.labels).isEmpty && (compactNonEmpty filter.labelsAny).isEmpty) = true ↔
        ∀ label ∈ filter.labels ++ filter.labelsAny, label = "" := by
      simp [compactNonEmpty, or_imp, forall_and]
    split
    · rename_i empty
      exact iff_of_true (by simp) (.inl (blank.mp empty))
    · rename_i some
      simp only [tests_iff, or_iff_right (blank.not.mp some), parts, Bool.and_eq_true]
      refine forall_congr' fun item => ?_
      rw [and_congr_right_iff]
      refine imp_congr_right fun _ => ?_
      rw [← labelSetClauses_compact, and_comm, and_congr_right_iff]
      exact imp_congr_right fun _ => Bool.eq_iff_iff.symm
  · intro item
    simp [buildIssueFilterClauses, labelSetClauses]
    ac_rfl

def labelled (labels : List String) : FilterTables Unit where
  main := ["bd-1"]
  keyed := by simp
  labels := labels.map ("bd-1", ·)
  clauses _ _ := true
  regexp _ _ := false

theorem search_perm_repeated :
    ((labelled ["a", "b"]).search (buildLabelDrivenSearch { labels := ["a", "a"], labelsAny := ["b", ""], others := () })).Perm
      ["bd-1"] := by
  refine ((search_perm_iff (labelled ["a", "b"]) { labels := ["a", "a"], labelsAny := ["b", ""], others := () }).1.mpr
    (.inr fun item member _ told => ?_)).trans (.refl _)
  obtain rfl := mem_singleton.mp member
  revert told
  simp [ToldByEmpty, labelled, carries, labelsOf]

theorem search_drops_empty :
    (labelled ["a"]).search (buildLabelDrivenSearch { labels := ["a", ""], others := () }) = ["bd-1"] ∧
    (labelled ["a"]).main.filter ((labelled ["a"]).buildIssueFilterClauses { labels := ["a", ""], others := () }) = [] := by
  decide

end FilterTables

end Beads
