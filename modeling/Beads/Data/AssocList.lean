import Mathlib

namespace AssocList

open List

theorem filter_key {α κ : Type} [BEq κ] [LawfulBEq κ] {rows : List α} {key : α → κ} {row : α} (distinct : (rows.map key).Nodup)
    (member : row ∈ rows) : rows.filter (fun other => key other == key row) = [row] := by
  refine perm_singleton.mp
    ((perm_ext_iff_of_nodup ((List.Nodup.of_map _ distinct).filter _) (nodup_singleton _)).mpr
    fun other => ?_)
  rw [mem_filter, beq_iff_eq, mem_singleton]
  exact ⟨fun found => inj_on_of_nodup_map distinct found.1 member found.2, fun same => ⟨same ▸ member, congrArg key same⟩⟩

theorem find?_key {α κ : Type} [BEq κ] [LawfulBEq κ] {rows : List α} {key : α → κ} (keyed : (rows.map key).Nodup) {row : α} :
    rows.find? (fun other => key other == key row) = some row ↔ row ∈ rows := by
  refine ⟨mem_of_find?_eq_some, fun member => ?_⟩
  cases found : rows.find? fun other => key other == key row with
  | none => exact absurd (beq_self_eq_true (key row)) (List.find?_eq_none.mp found row member)
  | some other =>
    have same : key other = key row := by simpa using List.find?_some found
    rw [inj_on_of_nodup_map keyed (mem_of_find?_eq_some found) member same]

theorem lookup_map_pair {α β : Type} [DecidableEq α] (keys : List α) (value : α → β) (key : α) :
    (keys.map fun key => (key, value key)).lookup key = if key ∈ keys then some (value key) else none := by
  induction keys with
  | nil => rfl
  | cons first rest ih =>
    by_cases here : key = first
    · simp [here]
    · simp [lookup_cons, beq_eq_false_iff_ne.mpr here, here, ih]

variable {κ ν : Type} [BEq κ] [LawfulBEq κ] {one other entries : List (κ × ν)} {key : κ} {value : ν}

theorem lookup_eq_some_iff_mem (distinct : (entries.map Prod.fst).Nodup) : entries.lookup key =
    some value ↔ (key, value) ∈ entries := by
  induction entries with
  | nil => simp
  | cons entry entries ih =>
    obtain ⟨first, held⟩ := entry
    rw [map_cons, nodup_cons] at distinct
    rw [lookup_cons, mem_cons, Prod.mk.injEq]
    cases same : key == first with
    | true =>
      obtain rfl := eq_of_beq same
      have absent : (key, value) ∉ entries := fun member => distinct.1 (mem_map.mpr ⟨_, member, rfl⟩)
      simp [absent, eq_comm]
    | false =>
      have differ : key ≠ first := fun equal => absurd (equal ▸ same) (by simp)
      simp [differ, ih distinct.2]

theorem lookup_perm (permuted : one.Perm other) (distinct : (one.map Prod.fst).Nodup)
    (key : κ) : one.lookup key = other.lookup key := by
  have otherDistinct := (permuted.map Prod.fst).nodup_iff.mp distinct
  refine Option.ext fun value => ?_
  rw [lookup_eq_some_iff_mem distinct, lookup_eq_some_iff_mem otherDistinct, permuted.mem_iff]

theorem perm_of_lookup (oneDistinct : (one.map Prod.fst).Nodup) (otherDistinct : (other.map Prod.fst).Nodup)
    (same : ∀ key, one.lookup key = other.lookup key) : one.Perm other := by
  refine (perm_ext_iff_of_nodup (List.Nodup.of_map _ oneDistinct) (List.Nodup.of_map _ otherDistinct)).mpr fun entry => ?_
  rw [← lookup_eq_some_iff_mem oneDistinct, ← lookup_eq_some_iff_mem otherDistinct, same]

end AssocList
