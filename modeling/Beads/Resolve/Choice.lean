import Beads.Resolve.PartialId

/-! The loop over the candidates keeps the last exact match without asking whether there is another,
and it leaves the wisps out as soon as some id starts with what was typed. -/

namespace Beads.Resolve

structure Stock where
  stored : Spelling → Prop
  wisp : Spelling → Prop

/-- An exact search returns just that id. The searches return stored ids, in any order, and all of
those that contain the query; the second one those of wisps. -/
structure Answers (store : PartialIdResolverStore) (stock : Stock) : Prop where
  exactly : ∀ id, (stock.stored id → store.searchIssues id = .ok [id]) ∧ (¬stock.stored id → store.searchIssues id = .ok [])
  listed : ∀ query, ∃ ids, store.searchIssueIds query false = .ok ids ∧
    (∀ id ∈ ids, stock.stored id) ∧ ∀ id, stock.stored id → query <:+: id → id ∈ ids
  wisps : ∀ query, ∃ ids, store.searchIssueIds query true = .ok ids ∧ (∀ id ∈ ids, stock.stored id ∧ stock.wisp id) ∧
    ∀ id, stock.stored id → stock.wisp id → query <:+: id → id ∈ ids

section

variable (stock : Stock) (knownPrefixes : List Spelling) (hashPart : Spelling)

/-- A hash part of the id: what is left without the prefix, for a wisp also without the infix. -/
def HashPart (id part : Spelling) : Prop := issueHash knownPrefixes id = part ∨
    (stock.wisp id ∧ wispHash knownPrefixes id = part)

def Equal (id : Spelling) : Prop := stock.stored id ∧ HashPart stock knownPrefixes id hashPart

def Starts (id : Spelling) : Prop := stock.stored id ∧ ∃ part, HashPart stock knownPrefixes id part ∧ hashPart <+: part

def Only (holds : Spelling → Prop) (id : Spelling) : Prop := holds id ∧ ∀ other, holds other → other = id

/-- The choice by hash: the only id with that hash, or, where abbreviations are allowed, the only
one that starts with it. -/
def ChosenByHash (allowAbbrev : Bool) (id : Spelling) : Prop :=
  Only (Equal stock knownPrefixes hashPart) id ∨
    allowAbbrev = true ∧ (∀ other, ¬Equal stock knownPrefixes hashPart other) ∧ Only (Starts stock knownPrefixes hashPart) id

def Best (id : Spelling) : Prop :=
  Equal stock knownPrefixes hashPart id ∨ (∀ other, ¬Equal stock knownPrefixes hashPart other) ∧
    Starts stock knownPrefixes hashPart id

/-- No two ids have the hash; and no other id is as good a match as one that starts with it before
any infix is removed. -/
def Unambiguous (allowAbbrev : Bool) : Prop :=
  (∀ one other, Equal stock knownPrefixes hashPart one → Equal stock knownPrefixes hashPart other → one = other) ∧
    (allowAbbrev = true → (∀ id, stock.stored id → issueHash knownPrefixes id ≠ hashPart) →
      ∀ id, stock.stored id → hashPart <+: issueHash knownPrefixes id → ∀ other,
        Best stock knownPrefixes hashPart other → other = id)

end

def Chosen (stock : Stock) (config : PrefixConfig) (input : Spelling) (allowAbbrev : Bool) (id : Spelling) : Prop :=
  (stock.stored input ∧ id = input) ∨
    ¬stock.stored input ∧ ((stock.stored (config.normalizedId input) ∧ id = config.normalizedId input) ∨
      ¬stock.stored (config.normalizedId input) ∧ ChosenByHash stock config.knownPrefixes (config.hashPart input) allowAbbrev id)

variable {input : Spelling} {equal starts : Spelling → Bool} {allowAbbrev : Bool} {ids : List Spelling}

open List

theorem collect_exactMatch (absent : input ∉ ids) (found : Candidates) :
    (collect input equal starts allowAbbrev found ids).exactMatch = (ids.filter equal).getLast?.or found.exactMatch := by
  induction ids generalizing found with
  | nil => rfl
  | cons id rest ih =>
    rw [mem_cons, not_or] at absent
    rw [collect, if_neg (Ne.symm absent.1), filter_cons]
    split
    · rw [ih absent.2, getLast?_cons]
      cases (rest.filter equal).getLast? <;> rfl
    · split
      · rw [ih absent.2]
        split <;> rfl
      · rw [ih absent.2]

theorem collect_matched (absent : input ∉ ids) (found : Candidates) :
    (collect input equal starts allowAbbrev found ids).matched =
      found.matched ++ ids.filter fun id => allowAbbrev && !equal id && starts id := by
  induction ids generalizing found with
  | nil => simp [collect]
  | cons id rest ih =>
    rw [mem_cons, not_or] at absent
    rw [collect, if_neg (Ne.symm absent.1), filter_cons]
    cases same : equal id with
    | true => simp [ih absent.2]
    | false => cases begins : starts id <;> cases allowAbbrev <;> simp [ih absent.2]

theorem settle_eq_ok {found : Candidates} {id : Spelling} : settle input allowAbbrev found = .ok id ↔ found.matched = [id] := by
  rw [settle]
  cases found.matched with
  | nil => simp
  | cons first rest => cases rest <;> simp

variable {knownPrefixes : List Spelling} {id hashPart searchPart : Spelling}

theorem issueHash_suffix (knownPrefixes : List Spelling) (id : Spelling) : issueHash knownPrefixes id <:+ id := by
  rw [issueHash]
  split
  · exact drop_suffix _ _
  · exact suffix_rfl

theorem wispHash_suffix (knownPrefixes : List Spelling) (id : Spelling) : wispHash knownPrefixes id <:+ id :=
  (Text.trimPrefix_suffix _ _).trans (issueHash_suffix knownPrefixes id)

section

variable (searched : partialIdSearchPart hashPart = some searchPart)
include searched

theorem searchPart_suffix : searchPart <:+ hashPart := by
  rw [partialIdSearchPart] at searched
  split at searched
  case isFalse => cases searched
  case isTrue =>
    split at searched
    case h_2 => exact Option.some.inj searched ▸ suffix_rfl
    case h_1 before suffix split =>
      split_ifs at searched
      · exact Option.some.inj searched ▸ Text.suffix_of_splitLast split
      · exact Option.some.inj searched ▸ suffix_rfl

theorem infix_of_prefix {part : Spelling} (ending : part <:+ id)
    (starts : hashPart <+: part) : searchPart <:+: id :=
  (searchPart_suffix searched).isInfix.trans (starts.isInfix.trans ending.isInfix)

end

structure Passed (among : Spelling → Prop) (equal starts : Spelling → Bool) (allowAbbrev : Bool)
    (found : Candidates) : Prop where
  some : ∀ id, found.exactMatch = some id → among id ∧ equal id = true
  none : found.exactMatch = none → ∀ id, among id → equal id = false
  matched : ∀ id, id ∈ found.matched ↔ allowAbbrev = true ∧ among id ∧ equal id = false ∧ starts id = true

theorem collect_passed {among : Spelling → Prop} {before : Candidates}
    (noExact : before.exactMatch = none) (noMatch : before.matched = [])
    (absent : input ∉ ids) (sound : ∀ id ∈ ids, among id) (complete : ∀ id, among id → searchPart <:+: id → id ∈ ids)
    (contained : ∀ id, equal id = true ∨ starts id = true → searchPart <:+: id) :
    Passed among equal starts allowAbbrev (collect input equal starts allowAbbrev before ids) where
  some id last := by
    rw [collect_exactMatch absent, noExact, Option.or_none] at last
    obtain ⟨member, same⟩ := mem_filter.mp (mem_of_getLast? last)
    exact ⟨sound id member, same⟩
  none last id here := by
    rw [collect_exactMatch absent, noExact, Option.or_none, getLast?_eq_none_iff, filter_eq_nil_iff] at last
    by_contra same
    rw [Bool.not_eq_false] at same
    exact last id (complete id here (contained id (.inl same))) same
  matched id := by
    rw [collect_matched absent, noMatch, nil_append, mem_filter, Bool.and_eq_true_iff, Bool.and_eq_true_iff, Bool.not_eq_true']
    constructor
    · intro ⟨member, ⟨allowed, different⟩, begins⟩
      exact ⟨allowed, sound id member, different, begins⟩
    · intro ⟨allowed, here, different, begins⟩
      exact ⟨complete id here (contained id (.inr begins)), ⟨allowed, different⟩, begins⟩

inductive Found (stock : Stock) (knownPrefixes : List Spelling) (hashPart : Spelling)
    (allowAbbrev : Bool) (result : Spelling) : Prop where
  | sameHash (stored : stock.stored result) (same : issueHash knownPrefixes result = hashPart)
  | onlyStart (allowed : allowAbbrev = true) (noHash : ∀ id, stock.stored id → issueHash knownPrefixes id ≠ hashPart)
      (only : Only (fun id => stock.stored id ∧ hashPart <+: issueHash knownPrefixes id) result)
  | sameWispHash (noHash : ∀ id, stock.stored id → issueHash knownPrefixes id ≠ hashPart)
      (noStart : allowAbbrev = true → ∀ id, stock.stored id → ¬hashPart <+: issueHash knownPrefixes id)
      (stored : stock.stored result) (wisp : stock.wisp result) (same : wispHash knownPrefixes result = hashPart)
  | onlyWispStart (allowed : allowAbbrev = true) (noStart : ∀ id, stock.stored id → ¬hashPart <+: issueHash knownPrefixes id)
      (noHash : ∀ id, stock.stored id → stock.wisp id → wispHash knownPrefixes id ≠ hashPart)
      (only : Only (fun id => stock.stored id ∧ stock.wisp id ∧ hashPart <+: wispHash knownPrefixes id) result)

variable {store : PartialIdResolverStore} {stock : Stock} {config : PrefixConfig} {result : Spelling}

theorem only_of_matched {among : Spelling → Prop} {found : Candidates} (passed : Passed among equal starts allowAbbrev found)
    (noExact : found.exactMatch = none) (single : found.matched = [result]) :
    allowAbbrev = true ∧ Only (fun id => among id ∧ starts id = true) result := by
  have member : result ∈ found.matched := by simp [single]
  obtain ⟨allowed, here, _, begins⟩ := (passed.matched result).mp member
  refine ⟨allowed, ⟨here, begins⟩, fun other ⟨there, also⟩ => ?_⟩
  have otherMember := (passed.matched other).mpr ⟨allowed, there, passed.none noExact other there, also⟩
  rw [single] at otherMember
  exact mem_singleton.mp otherMember

section

variable (answers : Answers store stock) (absent : ¬stock.stored input)
    (searched : partialIdSearchPart hashPart = some searchPart)

include answers absent searched

theorem collectIssues_passed (knownPrefixes : List Spelling) (allowAbbrev : Bool) : ∃ ids,
    store.searchIssueIds searchPart false = .ok ids ∧
    Passed stock.stored (fun id => issueHash knownPrefixes id == hashPart)
      (fun id => hashPart.isPrefixOf (issueHash knownPrefixes id)) allowAbbrev
      (collectIssues knownPrefixes input hashPart allowAbbrev {} ids) := by
  obtain ⟨ids, listed, sound, complete⟩ := answers.listed searchPart
  refine ⟨ids, listed, collect_passed rfl rfl (fun member => absent (sound input member)) sound complete fun id holds => ?_⟩
  refine infix_of_prefix searched (issueHash_suffix knownPrefixes id) ?_
  cases holds with
  | inl same => exact beq_iff_eq.mp same ▸ prefix_rfl
  | inr begins => exact isPrefixOf_iff_prefix.mp begins

theorem collectWisps_passed (knownPrefixes : List Spelling) (allowAbbrev : Bool)
    {before : Candidates} (noExact : before.exactMatch = none) (noMatch : before.matched = []) :
    Passed (fun id => stock.stored id ∧ stock.wisp id) (fun id => issueHash knownPrefixes id ==
      hashPart || wispHash knownPrefixes id == hashPart)
      (fun id => hashPart.isPrefixOf (wispHash knownPrefixes id)) allowAbbrev
      (searchWisps store knownPrefixes input hashPart searchPart allowAbbrev before) := by
  obtain ⟨ids, listed, sound, complete⟩ := answers.wisps searchPart
  rw [searchWisps, if_pos noMatch]
  simp only [listed]
  refine collect_passed noExact noMatch (fun member => absent (sound input member).1) sound
    (fun id here => complete id here.1 here.2) fun id holds => ?_
  rw [Bool.or_eq_true_iff, beq_iff_eq, beq_iff_eq] at holds
  obtain (same | same) | begins := holds
  · exact infix_of_prefix searched (issueHash_suffix knownPrefixes id) (same ▸ prefix_rfl)
  · exact infix_of_prefix searched (wispHash_suffix knownPrefixes id) (same ▸ prefix_rfl)
  · exact infix_of_prefix searched (wispHash_suffix knownPrefixes id) (List.isPrefixOf_iff_prefix.mp begins)

end

theorem chosen_of_equal (equal : Equal stock knownPrefixes hashPart result) :
    ChosenByHash stock knownPrefixes hashPart allowAbbrev result ↔
      ∀ one other, Equal stock knownPrefixes hashPart one → Equal stock knownPrefixes hashPart other → one = other := by
  constructor
  · rintro (⟨_, only⟩ | ⟨_, noEqual, _⟩) one other first second
    · rw [only one first, only other second]
    · exact absurd equal (noEqual result)
  · exact fun unique => .inl ⟨equal, fun other its => unique other result its equal⟩

theorem chosenByHash_iff_best (allowed : allowAbbrev = true) :
    ChosenByHash stock knownPrefixes hashPart allowAbbrev result ↔ Only (Best stock knownPrefixes hashPart) result := by
  by_cases some : ∃ id, Equal stock knownPrefixes hashPart id
  · simp [ChosenByHash, Only, Best, ← not_exists, some]
  · simp [ChosenByHash, Only, Best, not_exists.mp some, allowed]

theorem Found.chosen_iff (found : Found stock knownPrefixes hashPart allowAbbrev result) :
    ChosenByHash stock knownPrefixes hashPart allowAbbrev result ↔ Unambiguous stock knownPrefixes hashPart allowAbbrev := by
  cases found with
  | sameHash stored same =>
    rw [chosen_of_equal ⟨stored, .inl same⟩]
    exact ⟨fun unique => ⟨unique, fun _ noHash => absurd same (noHash result stored)⟩, And.left⟩
  | sameWispHash noHash noStart stored wisp same =>
    rw [chosen_of_equal ⟨stored, .inr ⟨wisp, same⟩⟩]
    exact ⟨fun unique => ⟨unique, fun allowed _ id its begins => absurd begins (noStart allowed id its)⟩, And.left⟩
  | onlyStart allowed noHash only =>
    rw [chosenByHash_iff_best allowed]
    constructor
    · intro ⟨_, unique⟩
      refine ⟨fun one other first second =>
        (unique one (.inl first)).trans (unique other (.inl second)).symm,
        fun _ _ id stored starts => ?_⟩
      rw [only.2 id ⟨stored, starts⟩]
      exact unique
    · intro ⟨_, alone⟩
      have best := alone allowed noHash result only.1.1 only.1.2
      refine ⟨?_, best⟩
      by_cases some : ∃ id, Equal stock knownPrefixes hashPart id
      · obtain ⟨id, equal⟩ := some
        exact .inl (best id (.inl equal) ▸ equal)
      · exact .inr ⟨not_exists.mp some, only.1.1, _, .inl rfl, only.1.2⟩
  | onlyWispStart allowed noStart noHash only =>
    have noEqual : ∀ id, ¬Equal stock knownPrefixes hashPart id := by
      rintro id ⟨stored, same | ⟨wisp, same⟩⟩
      · exact noStart id stored (same ▸ prefix_rfl)
      · exact noHash id stored wisp same
    refine iff_of_true (.inr ⟨allowed, noEqual, ⟨only.1.1, _, .inr ⟨only.1.2.1, rfl⟩, only.1.2.2⟩, ?_⟩)
      ⟨fun one _ first => absurd first (noEqual one), fun _ _ id stored starts => absurd starts (noStart id stored)⟩
    rintro other ⟨stored, part, rfl | ⟨wisp, rfl⟩, begins⟩
    · exact absurd begins (noStart other stored)
    · exact only.2 other ⟨stored, wisp, begins⟩

section

variable (answers : Answers store stock)
include answers

theorem searchCandidates_found (absent : ¬stock.stored input)
    (done : searchCandidates store config input allowAbbrev = .ok result) :
    Found stock config.knownPrefixes (config.hashPart input) allowAbbrev result := by
  rw [searchCandidates] at done
  generalize config.knownPrefixes = known at done ⊢
  generalize config.hashPart input = hash at done ⊢
  split at done
  · cases done
  case h_2 searchPart searched =>
    obtain ⟨ids, listed, issues⟩ := collectIssues_passed answers absent searched known allowAbbrev
    simp only [listed] at done
    generalize collectIssues known input hash allowAbbrev {} ids = found at done issues
    split at done
    case h_1 id last =>
      cases done
      obtain ⟨stored, same⟩ := issues.some _ last
      exact .sameHash stored (beq_iff_eq.mp same)
    case h_2 none =>
      have noHash : ∀ id, stock.stored id → issueHash known id ≠ hash :=
        fun id stored => beq_eq_false_iff_ne.mp (issues.none none id stored)
      cases shown : found.matched with
      | cons first rest =>
        -- Something starts with the hash, so that the wisps are not searched.
        have stays : searchWisps store known input hash searchPart allowAbbrev found = found := by
          rw [searchWisps, if_neg (by simp [shown])]
        simp only [stays, none] at done
        obtain ⟨allowed, only⟩ := only_of_matched issues none (settle_eq_ok.mp done)
        exact .onlyStart allowed noHash (by simpa using only)
      | nil =>
        have noStart : allowAbbrev = true → ∀ id, stock.stored id → ¬hash <+: issueHash known id := by
          intro allowed id stored begins
          have member := (issues.matched id).mpr ⟨allowed, stored, issues.none none id stored, isPrefixOf_iff_prefix.mpr begins⟩
          rw [shown] at member
          exact not_mem_nil member
        have wisps := collectWisps_passed answers absent searched known allowAbbrev none shown
        generalize searchWisps store known input hash searchPart allowAbbrev found = last at done wisps
        split at done
        case h_1 id exact_ =>
          cases done
          obtain ⟨⟨stored, wisp⟩, same⟩ := wisps.some _ exact_
          rw [Bool.or_eq_true_iff, beq_iff_eq, beq_iff_eq] at same
          exact .sameWispHash noHash noStart stored wisp (same.resolve_left (noHash _ stored))
        case h_2 noExact =>
          obtain ⟨allowed, only⟩ := only_of_matched wisps noExact (settle_eq_ok.mp done)
          refine .onlyWispStart allowed (noStart allowed) (fun id stored wisp same => ?_)
            (by simpa [and_assoc] using only)
          have different := wisps.none noExact id ⟨stored, wisp⟩
          rw [Bool.or_eq_false_iff, beq_eq_false_iff_ne, beq_eq_false_iff_ne] at different
          exact different.2 same

theorem lookup_eq_some {found : Spelling} : lookup store id = some found ↔ stock.stored id ∧ found = id := by
  rw [lookup]
  by_cases stored : stock.stored id
  · rw [(answers.exactly id).1 stored]
    simp [stored, eq_comm]
  · rw [(answers.exactly id).2 stored]
    simp [stored]

theorem lookup_eq_none : lookup store id = none ↔ ¬stock.stored id := by
  rw [Option.eq_none_iff_forall_ne_some]
  simp [lookup_eq_some answers]

theorem resolveByPrefix_chosen (done : resolveByPrefix store input allowAbbrev = .ok result) :
    Chosen stock (prefixConfig store) input allowAbbrev result ↔
      (stock.stored input ∨ stock.stored ((prefixConfig store).normalizedId input) ∨
      Unambiguous stock (prefixConfig store).knownPrefixes ((prefixConfig store).hashPart input) allowAbbrev) := by
  rw [resolveByPrefix] at done
  generalize prefixConfig store = config at done ⊢
  split at done
  case h_1 id found =>
    cases done
    obtain ⟨stored, rfl⟩ := (lookup_eq_some answers).mp found
    exact iff_of_true (.inl ⟨stored, rfl⟩) (.inl stored)
  case h_2 missing =>
    have absent := (lookup_eq_none answers).mp missing
    split at done
    case h_1 id found =>
      cases done
      split_ifs at found
      obtain ⟨stored, rfl⟩ := (lookup_eq_some answers).mp found
      exact iff_of_true (.inr ⟨absent, .inl ⟨stored, rfl⟩⟩) (.inr (.inl stored))
    case h_2 again =>
      have notNormalized : ¬stock.stored (config.normalizedId input) := by
        split_ifs at again with same
        · exact (lookup_eq_none answers).mp again
        · rwa [not_not.mp same]
      have byHash := (searchCandidates_found answers absent done).chosen_iff
      simp only [Chosen, absent, notNormalized, false_and, false_or, not_false_eq_true, true_and]
      exact byHash

theorem resolveExactIdOnly_chosen (done : resolveExactIdOnly store input = .ok result) :
    Chosen stock (prefixConfig store) input allowAbbrev result := by
  rw [resolveExactIdOnly] at done
  generalize prefixConfig store = config at done ⊢
  by_cases stored : stock.stored input
  · rw [(answers.exactly input).1 stored] at done
    exact .inl ⟨stored, (Except.ok.inj done).symm⟩
  · rw [(answers.exactly input).2 stored] at done
    simp only at done
    split at done
    case isFalse => cases done
    case isTrue bare =>
      have normalized : config.normalizedId input = config.prefixWithHyphen ++ input := by
        simp only [Bool.and_eq_true, Bool.not_eq_true'] at bare
        simp [PrefixConfig.normalizedId, bare.1.1, bare.1.2, bare.2]
      rw [← normalized] at done
      by_cases prefixed : stock.stored (config.normalizedId input)
      · rw [(answers.exactly _).1 prefixed] at done
        exact .inr ⟨stored, .inl ⟨prefixed, (Except.ok.inj done).symm⟩⟩
      · rw [(answers.exactly _).2 prefixed] at done
        cases done

end

/-- An id to which a partial id resolves is the one that should be chosen exactly when the store has
only exact lookups, or one of the two exact lookups finds an id, or no two ids match the hash
equally well. -/
theorem resolvePartialId_chosen_iff {lower : Char → Char} (answers : Answers store stock)
    (done : resolvePartialId lower (some store) input allowAbbrev = .ok result) :
    Chosen stock (prefixConfig store) input allowAbbrev result ↔ (store.exactIdLookupOnly = true ∨ stock.stored input ∨
      stock.stored ((prefixConfig store).normalizedId input) ∨
      Unambiguous stock (prefixConfig store).knownPrefixes ((prefixConfig store).hashPart input) allowAbbrev) := by
  rw [resolvePartialId] at done
  split_ifs at done with empty sentinel exactOnly
  · exact iff_of_true (resolveExactIdOnly_chosen answers done) (.inl exactOnly)
  · rw [resolveByPrefix_chosen answers done]
    simp [exactOnly]

/-- A store that answers every search with all its ids, or all its wisps, in a given order; its
prefix is the default one. -/
def listing (order wisps : List Spelling) : PartialIdResolverStore where
  searchIssues id := .ok (if id ∈ order then [id] else [])
  searchIssueIds _ ephemeral := .ok (if ephemeral then wisps else order)
  getConfig _ := .ok []

theorem listing_answers {order wisps : List Spelling} (stored : ∀ id, id ∈ order ↔ stock.stored id)
    (wisp : ∀ id, id ∈ wisps ↔ stock.stored id ∧ stock.wisp id) : Answers (listing order wisps) stock where
  exactly id := by
    rw [← stored]
    exact ⟨fun member => congrArg Except.ok (if_pos member), fun missing => congrArg Except.ok (if_neg missing)⟩
  listed query := ⟨order, rfl, fun id => (stored id).mp, fun id here _ => (stored id).mpr here⟩
  wisps query := ⟨wisps, rfl, fun id => (wisp id).mp, fun id here also _ => (wisp id).mpr ⟨here, also⟩⟩

def stockOf (ids wisps : List Spelling) : Stock := ⟨(· ∈ ids), (· ∈ wisps)⟩

instance (ids wisps : List Spelling) (id : Spelling) : Decidable ((stockOf ids wisps).stored id) :=
  inferInstanceAs (Decidable (id ∈ ids))

instance (ids wisps : List Spelling) (id : Spelling) : Decidable ((stockOf ids wisps).wisp id) :=
  inferInstanceAs (Decidable (id ∈ wisps))

/-- One issue with the hash and others, one of them a wisp, that do not match it. -/
def mixedStore : PartialIdResolverStore :=
  listing ["bd-a3f8e9".toList, "bd-b3f8e9".toList, "bd-7c1".toList] ["bd-7c1".toList]

def mixedStock : Stock := stockOf ["bd-a3f8e9".toList, "bd-b3f8e9".toList, "bd-7c1".toList] ["bd-7c1".toList]

theorem abbreviation_chosen :
    resolvePartialId Char.toLower (some mixedStore) "a3f8".toList true = .ok "bd-a3f8e9".toList ∧
      Chosen mixedStock (prefixConfig mixedStore) "a3f8".toList true "bd-a3f8e9".toList := by
  have answers : Answers mixedStore mixedStock := by
    refine listing_answers (fun _ => .rfl) fun id => ⟨fun member => ⟨?_, member⟩, fun both => both.2⟩
    cases mem_singleton.mp member
    exact .tail _ (.tail _ (.head _))
  have done : resolvePartialId Char.toLower (some mixedStore) "a3f8".toList true =
      .ok "bd-a3f8e9".toList := by decide
  have parts : ∀ id ∈ ["bd-a3f8e9".toList, "bd-b3f8e9".toList, "bd-7c1".toList],
      ∀ part ∈ [issueHash (prefixConfig mixedStore).knownPrefixes id,
        wispHash (prefixConfig mixedStore).knownPrefixes id],
      part ≠ (prefixConfig mixedStore).hashPart "a3f8".toList ∧
        ((prefixConfig mixedStore).hashPart "a3f8".toList <+: part → id = "bd-a3f8e9".toList) := by
    decide
  have unequal : ∀ id, ¬Equal mixedStock (prefixConfig mixedStore).knownPrefixes
      ((prefixConfig mixedStore).hashPart "a3f8".toList) id := by
    rintro id ⟨stored, whole | ⟨_, inner⟩⟩
    · exact (parts id stored _ (.head _)).1 whole
    · exact (parts id stored _ (.tail _ (.head _))).1 inner
  refine ⟨done, (resolvePartialId_chosen_iff answers done).mpr (.inr (.inr (.inr ⟨?_, ?_⟩)))⟩
  · exact fun one _ equal => absurd equal (unequal one)
  · rintro _ _ id stored starts other (equal | ⟨_, also, _, whole | ⟨_, inner⟩, begins⟩)
    · exact absurd equal (unequal other)
    · cases whole
      exact ((parts other also _ (.head _)).2 begins).trans ((parts id stored _ (.head _)).2 starts).symm
    · cases inner
      exact ((parts other also _ (.tail _ (.head _))).2 begins).trans
        ((parts id stored _ (.head _)).2 starts).symm

theorem not_chosen_of_equal {other : Spelling} (absent : ¬stock.stored input)
    (notNormalized : ¬stock.stored (config.normalizedId input))
    (equal : Equal stock config.knownPrefixes (config.hashPart input) other)
    (apart : other ≠ result) : ¬Chosen stock config input allowAbbrev result := by
  rintro (⟨stored, _⟩ | ⟨_, ⟨stored, _⟩ | ⟨_, ⟨_, only⟩ | ⟨_, noEqual, _⟩⟩⟩)
  · exact absent stored
  · exact notNormalized stored
  · exact apart (only other equal)
  · exact noEqual other equal

/-- Of two ids with the hash the one that the search lists last is taken, and an id that only starts
with it is taken although a wisp has it. -/
theorem equalHashes_chosen_last :
    (∀ order ∈ [["ops-a3f".toList, "web-a3f".toList], ["web-a3f".toList, "ops-a3f".toList]],
      Answers (listing order []) (stockOf ["ops-a3f".toList, "web-a3f".toList] []) ∧
        resolvePartialId Char.toLower (some (listing order [])) "a3f".toList false = .ok (order.getLastD []) ∧
        ¬Chosen (stockOf ["ops-a3f".toList, "web-a3f".toList] []) ⟨[], []⟩ "a3f".toList false (order.getLastD [])) ∧
    Answers (listing ["bd-a3f8".toList, "bd-wisp-a3f".toList] ["bd-wisp-a3f".toList])
      (stockOf ["bd-a3f8".toList, "bd-wisp-a3f".toList] ["bd-wisp-a3f".toList]) ∧
    resolvePartialId Char.toLower (some (listing ["bd-a3f8".toList, "bd-wisp-a3f".toList]
      ["bd-wisp-a3f".toList])) "a3f".toList true =
      .ok "bd-a3f8".toList ∧
    ¬Chosen (stockOf ["bd-a3f8".toList, "bd-wisp-a3f".toList] ["bd-wisp-a3f".toList])
      ⟨[], []⟩ "a3f".toList true "bd-a3f8".toList := by
  have opsEqual : Equal (stockOf ["ops-a3f".toList, "web-a3f".toList] []) ["bd".toList] "a3f".toList
    "ops-a3f".toList := ⟨by decide, .inl (by decide)⟩
  have webEqual : Equal (stockOf ["ops-a3f".toList, "web-a3f".toList] []) ["bd".toList] "a3f".toList
    "web-a3f".toList := ⟨by decide, .inl (by decide)⟩
  have wispEqual : Equal (stockOf ["bd-a3f8".toList, "bd-wisp-a3f".toList] ["bd-wisp-a3f".toList])
    ["bd".toList] "a3f".toList "bd-wisp-a3f".toList :=
    ⟨by decide, .inr ⟨by decide, by decide⟩⟩
  refine ⟨?_, listing_answers (fun _ => .rfl) ?_, by decide, not_chosen_of_equal (by decide) (by decide) wispEqual (by decide)⟩
  · rw [forall_mem_cons, forall_mem_singleton]
    refine ⟨⟨listing_answers (fun _ => .rfl) ?_, by decide, not_chosen_of_equal (by decide) (by decide) opsEqual (by decide)⟩,
      listing_answers ?_ ?_, by decide, not_chosen_of_equal (by decide) (by decide) webEqual (by decide)⟩
    · simp [stockOf]
    · simp [stockOf, or_comm]
    · simp [stockOf]
  · simp [stockOf]

end Beads.Resolve
