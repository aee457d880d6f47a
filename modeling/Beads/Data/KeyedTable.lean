import Beads.Data.AssocList

structure KeyedTable (κ ρ : Type) where
  entries : List (κ × ρ) := []
  keyed : (entries.map Prod.fst).Nodup := by first | exact List.nodup_nil | decide

namespace KeyedTable

variable {κ ρ : Type} [DecidableEq κ] (table : KeyedTable κ ρ)

def get? (key : κ) : Option ρ := table.entries.lookup key

def modify (key : κ) (change : ρ → ρ) : KeyedTable κ ρ where
  entries := table.entries.map fun entry => if entry.1 = key then (entry.1, change entry.2) else entry
  keyed := by
    have same : (table.entries.map fun entry => if entry.1 = key then
        (entry.1, change entry.2) else entry).map Prod.fst = table.entries.map Prod.fst := by
      rw [List.map_map]
      refine List.map_congr_left fun entry _ => ?_
      rw [Function.comp_apply]
      split <;> rfl
    exact same ▸ table.keyed

def erase (key : κ) : KeyedTable κ ρ where
  entries := table.entries.filter fun entry => !decide (entry.1 = key)
  keyed := (List.filter_sublist.map Prod.fst).nodup table.keyed

def removeWhere (unwanted : κ → Bool) : KeyedTable κ ρ where
  entries := table.entries.filter fun entry => !unwanted entry.1
  keyed := (List.filter_sublist.map Prod.fst).nodup table.keyed

/-- An upsert: the row of the key is replaced, or appended if there was none. -/
def insert (key : κ) (row : ρ) : KeyedTable κ ρ :=
  if absent : key ∉ table.entries.map Prod.fst then
    { entries := table.entries ++ [(key, row)]
      keyed := by
        rw [List.map_append, List.nodup_append]
        refine ⟨table.keyed, List.nodup_singleton _, fun one member other single same => absent ?_⟩
        have named : other = key := List.mem_singleton.mp single
        exact named ▸ same ▸ member }
  else table.modify key fun _ => row

variable {table} {key other : κ} {row : ρ} {change : ρ → ρ}

open List

theorem get?_eq_none : table.get? key = none ↔ key ∉ table.entries.map Prod.fst := by
  rw [get?, lookup_eq_none_iff, mem_map]
  refine ⟨fun apart ⟨entry, member, same⟩ => ?_, fun absent entry member => ?_⟩
  · exact bne_iff_ne.mp (apart entry member) same.symm
  · exact bne_iff_ne.mpr fun same => absent ⟨entry, member, same.symm⟩

theorem get?_eq_some : table.get? key = some row ↔ (key, row) ∈ table.entries :=
  AssocList.lookup_eq_some_iff_mem table.keyed

theorem entries_insert (absent : key ∉ table.entries.map Prod.fst) :
    (table.insert key row).entries = table.entries ++ [(key, row)] := by
  rw [insert, dif_pos absent]

@[simp] theorem get?_modify :
    (table.modify key change).get? other = if other = key then (table.get? key).map change else table.get? other := by
  simp only [get?, modify]
  induction table.entries with
  | nil => simp
  | cons entry rest ih =>
    obtain ⟨name, value⟩ := entry
    rw [map_cons, lookup_cons, lookup_cons, lookup_cons]
    by_cases here : name = key
    · subst here
      by_cases asked : other = name
      · simp [asked]
      · simp [asked, beq_eq_false_iff_ne.mpr asked, ih]
    · by_cases asked : other = name
      · subst asked
        simp [here]
      · simp [here, beq_eq_false_iff_ne.mpr asked, beq_eq_false_iff_ne.mpr (Ne.symm here), ih]

@[simp] theorem get?_removeWhere {unwanted : κ → Bool} :
    (table.removeWhere unwanted).get? other = if unwanted other then none else table.get? other := by
  simp only [get?, removeWhere]
  induction table.entries with
  | nil => simp
  | cons entry rest ih =>
    obtain ⟨name, value⟩ := entry
    by_cases asked : other = name
    · subst asked
      cases gone : unwanted other with
      | true => simpa [gone] using ih
      | false => simp [gone]
    · cases gone : unwanted name with
      | true | false => simpa [gone, lookup_cons, beq_eq_false_iff_ne.mpr asked] using ih

@[simp] theorem get?_erase : (table.erase key).get? other = if other = key then none else table.get? other := by
  have same : table.erase key = table.removeWhere fun name => decide (name = key) := rfl
  simp [same]

@[simp] theorem get?_insert : (table.insert key row).get? other = if other = key then some row else table.get? other := by
  unfold insert
  split
  · rename_i absent
    have none : table.get? key = none := get?_eq_none.mpr absent
    simp only [get?] at none ⊢
    rw [lookup_append, lookup_cons]
    by_cases asked : other = key
    · subst asked
      simp [none]
    · simp [asked, beq_eq_false_iff_ne.mpr asked]
  · rename_i listed
    have some : ∃ old, table.get? key = some old := Option.ne_none_iff_exists'.mp fun none => listed (get?_eq_none.mp none)
    obtain ⟨old, found⟩ := some
    simp [found]

end KeyedTable
