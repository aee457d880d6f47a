import Beads.Store.Types

/-! `CandidateIDMatcher` finds the ids of a set that a text spells at ASCII word boundaries. -/

namespace Beads

def bytesOf (text : String) : List UInt8 := text.toUTF8.data.toList

theorem bytesOf_injective {one other : String} (same : bytesOf one = bytesOf other) : one = other :=
  String.toByteArray_inj.mp (ByteArray.ext (Array.toList_inj.mp same))

def isASCIIWordByte (b : UInt8) : Bool :=
  b == 0x5f || 0x30 ≤ b && b ≤ 0x39 || 0x41 ≤ b && b ≤ 0x5a || 0x61 ≤ b && b ≤ 0x7a

/-- Before the first byte and behind the last one stands a zero byte. -/
def isWordBoundaryAt (s : List UInt8) (idx : Nat) : Bool :=
  let before := if 0 < idx then s.getD (idx - 1) 0 else 0
  let after := s.getD idx 0
  isASCIIWordByte before != isASCIIWordByte after

def matchesAt (text : List UInt8) (i : Nat) (id : Id) : Bool :=
  (bytesOf id).isPrefixOf (text.drop i) && isWordBoundaryAt text (i + (bytesOf id).length)

def bucketBefore (one other : Id) : Bool :=
  if (bytesOf one).length = (bytesOf other).length then one.toList < other.toList
  else (bytesOf other).length < (bytesOf one).length

/-- The bucket of each first byte. No bucket holds the empty id. -/
def newCandidateIdMatcher (candidateIds : List Id) (first : UInt8) : List Id :=
  (candidateIds.filter fun id => (bytesOf id).head? == some first).insertionSort fun one other => bucketBefore other one = false

def findAll (byFirstByte : UInt8 → List Id) (text : List UInt8) : List Id :=
  (List.range text.length).filterMap fun i =>
    if isWordBoundaryAt text i then (byFirstByte (text.getD i 0)).find? (matchesAt text i) else none

/-- The id stands in the text at byte `i`, between word boundaries. -/
structure OccursAt (text : List UInt8) (i : Nat) (id : Id) : Prop where
  nonempty : bytesOf id ≠ []
  spelled : bytesOf id <+: text.drop i
  opens : isWordBoundaryAt text i = true
  closes : isWordBoundaryAt text (i + (bytesOf id).length) = true

variable {text : List UInt8} {i : Nat} {id other : Id} {candidateIds : List Id}

open List

namespace OccursAt

section

variable (occurs : OccursAt text i id)
include occurs

theorem matchesAt : matchesAt text i id = true := by
  rw [Beads.matchesAt, Bool.and_eq_true, isPrefixOf_iff_prefix]
  exact ⟨occurs.spelled, occurs.closes⟩

theorem lt_length : i < text.length := by
  have spelled := occurs.spelled.length_le
  have positive := length_pos_iff.mpr occurs.nonempty
  rw [length_drop] at spelled
  omega

theorem head : (bytesOf id).head? = some (text.getD i 0) := by
  obtain ⟨rest, spelled⟩ := occurs.spelled
  have first : (text.drop i).head? = (bytesOf id).head? := by
    rw [← spelled, head?_append_of_ne_nil _ occurs.nonempty]
  rw [← first, head?_drop, getD_eq_getElem?_getD, getElem?_eq_getElem occurs.lt_length, Option.getD_some]

theorem eq_of_length (also : OccursAt text i other)
    (length : (bytesOf id).length = (bytesOf other).length) : id = other := by
  refine bytesOf_injective ?_
  rw [prefix_iff_eq_take.mp occurs.spelled, prefix_iff_eq_take.mp also.spelled, length]

end

end OccursAt

def bucketKey (id : Id) : Int ×ₗ List Char := toLex (-((bytesOf id).length : Int), id.toList)

theorem bucketBefore_iff : bucketBefore id other = true ↔ bucketKey id < bucketKey other := by
  rw [bucketBefore, bucketKey, bucketKey, Prod.Lex.toLex_lt_toLex]
  by_cases same : (bytesOf id).length = (bytesOf other).length
  · simp [same]
  · have apart : ((bytesOf id).length : Int) ≠ (bytesOf other).length := by exact_mod_cast same
    simp [same, apart]

theorem not_bucketBefore_iff : bucketBefore other id = false ↔ bucketKey id ≤ bucketKey other := by
  rw [← Bool.not_eq_true, bucketBefore_iff, not_lt]

theorem length_le_of_bucketKey (below : bucketKey id ≤ bucketKey other) : (bytesOf other).length ≤ (bytesOf id).length := by
  have first := (Prod.Lex.toLex_le_toLex.mp below).elim le_of_lt fun tie => le_of_eq tie.1
  omega

theorem mem_newCandidateIdMatcher {first : UInt8} :
    id ∈ newCandidateIdMatcher candidateIds first ↔ id ∈ candidateIds ∧ (bytesOf id).head? = some first := by
  rw [newCandidateIdMatcher, (perm_insertionSort _ _).mem_iff, mem_filter, beq_iff_eq]

theorem newCandidateIdMatcher_sorted (candidateIds : List Id) (first : UInt8) :
    (newCandidateIdMatcher candidateIds first).Pairwise fun one other => bucketKey one ≤ bucketKey other := by
  have total : Std.Total fun one other : Id => bucketBefore other one = false :=
    ⟨fun one other => by simpa only [not_bucketBefore_iff] using le_total (bucketKey one) (bucketKey other)⟩
  have trans : IsTrans Id fun one other => bucketBefore other one = false :=
    ⟨fun one middle other => by simpa only [not_bucketBefore_iff] using le_trans⟩
  refine (pairwise_insertionSort (fun one other => bucketBefore other one = false) _).imp fun before => ?_
  exact not_bucketBefore_iff.mp before

theorem find?_newCandidateIdMatcher (opens : isWordBoundaryAt text i = true) :
    (newCandidateIdMatcher candidateIds (text.getD i 0)).find? (matchesAt text i) = some id ↔
      id ∈ candidateIds ∧ OccursAt text i id ∧
        ∀ other ∈ candidateIds, OccursAt text i other → (bytesOf other).length ≤ (bytesOf id).length := by
  have occurs : ∀ {id : Id}, id ∈ newCandidateIdMatcher candidateIds (text.getD i 0) →
      matchesAt text i id = true → OccursAt text i id := by
    intro id listed found
    rw [matchesAt, Bool.and_eq_true, isPrefixOf_iff_prefix] at found
    refine ⟨fun empty => ?_, found.1, opens, found.2⟩
    have head := (mem_newCandidateIdMatcher.mp listed).2
    rw [empty] at head
    exact nomatch head
  have bucket : ∀ {id : Id}, id ∈ candidateIds → OccursAt text i id → id ∈ newCandidateIdMatcher candidateIds (text.getD i 0) :=
    fun listed here => mem_newCandidateIdMatcher.mpr ⟨listed, here.head⟩
  -- The ids behind the answer are no longer than it, and those before it do not match.
  have longest : ∀ {id : Id}, (newCandidateIdMatcher candidateIds (text.getD i 0)).find? (matchesAt text i) = some id →
      ∀ other ∈ candidateIds, OccursAt text i other → (bytesOf other).length ≤ (bytesOf id).length := by
    intro id found other listed here
    obtain ⟨_, before, behind, split, missed⟩ := find?_eq_some_iff_append.mp found
    have sorted := newCandidateIdMatcher_sorted candidateIds (text.getD i 0)
    have placed := bucket listed here
    rw [split] at sorted placed
    obtain earlier | later := mem_append.mp placed
    · exact absurd here.matchesAt (by simpa using missed other earlier)
    · obtain rfl | later := mem_cons.mp later
      · exact Nat.le_refl _
      · exact length_le_of_bucketKey ((pairwise_cons.mp (pairwise_append.mp sorted).2.1).1 other later)
  constructor
  · intro found
    have listed := mem_of_find?_eq_some found
    exact ⟨(mem_newCandidateIdMatcher.mp listed).1, occurs listed (find?_some found), longest found⟩
  · intro ⟨listed, here, most⟩
    have matching := find?_isSome.mpr ⟨id, bucket listed here, here.matchesAt⟩
    obtain ⟨first, found⟩ := Option.isSome_iff_exists.mp matching
    have member := mem_of_find?_eq_some found
    have there := occurs member (find?_some found)
    have length := Nat.le_antisymm (longest found id listed here) (most first (mem_newCandidateIdMatcher.mp member).1 there)
    rw [found, here.eq_of_length there length]

theorem mem_findAll : id ∈ findAll (newCandidateIdMatcher candidateIds) text ↔
    id ∈ candidateIds ∧ ∃ i, OccursAt text i id ∧
      ∀ other ∈ candidateIds, OccursAt text i other → (bytesOf other).length ≤ (bytesOf id).length := by
  rw [findAll, mem_filterMap]
  constructor
  · intro ⟨i, _, found⟩
    split at found
    · rename_i opens
      obtain ⟨listed, here, most⟩ := (find?_newCandidateIdMatcher opens).mp found
      exact ⟨listed, i, here, most⟩
    · exact nomatch found
  · intro ⟨listed, i, here, most⟩
    refine ⟨i, mem_range.mpr here.lt_length, ?_⟩
    rw [if_pos here.opens]
    exact (find?_newCandidateIdMatcher here.opens).mpr ⟨listed, here, most⟩

end Beads
