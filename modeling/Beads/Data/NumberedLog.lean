import Mathlib

namespace NumberedLog

variable {ρ : Type}

def numbered (first : Int) : List ρ → List (Int × ρ)
  | [] => []
  | entry :: rest => (first, entry) :: numbered (first + 1) rest

variable {first bound : Int} {entries : List ρ}

open List

theorem numbered_eq_mapIdx : numbered first entries = entries.mapIdx fun index entry => (first + index, entry) := by
  induction entries generalizing first with
  | nil => rfl
  | cons entry rest ih => simp [numbered, ih, mapIdx_cons, Int.add_assoc, Int.add_comm 1]

@[simp] theorem length_numbered : (numbered first entries).length = entries.length := by
  rw [numbered_eq_mapIdx, length_mapIdx]

theorem numbered_append {later : List ρ} :
    numbered first (entries ++ later) = numbered first entries ++ numbered (first + entries.length) later := by
  simp only [numbered_eq_mapIdx, mapIdx_append, Nat.cast_add, Int.add_assoc, Int.add_comm (entries.length : Int)]

theorem getElem?_numbered (index : Nat) :
    (numbered first entries)[index]? = entries[index]?.map fun entry => (first + index, entry) := by
  rw [numbered_eq_mapIdx, getElem?_mapIdx]

variable {entry : ρ} {row : Int × ρ}

theorem mem_numbered : row ∈ numbered first entries ↔ ∃ index : Nat, entries[index]? = some row.2 ∧ row.1 = first + index := by
  obtain ⟨number, entry⟩ := row
  simp only [mem_iff_getElem?, getElem?_numbered, Option.map_eq_some_iff, Prod.mk.injEq]
  refine exists_congr fun index => ⟨?_, fun ⟨found, same⟩ => ⟨entry, found, same.symm, rfl⟩⟩
  rintro ⟨_, found, rfl, rfl⟩
  exact ⟨found, rfl⟩

theorem first_le_of_mem (member : row ∈ numbered first entries) : first ≤ row.1 := by
  obtain ⟨index, _, same⟩ := mem_numbered.mp member
  omega

theorem lt_of_mem (member : row ∈ numbered first entries) : row.1 < first + entries.length := by
  obtain ⟨index, found, same⟩ := mem_numbered.mp member
  obtain ⟨within, _⟩ := List.getElem?_eq_some_iff.mp found
  omega

theorem pairwise_numbered : (numbered first entries).Pairwise fun one other => one.1 < other.1 := by
  induction entries generalizing first with
  | nil => exact List.Pairwise.nil
  | cons entry rest ih =>
    refine pairwise_cons.mpr ⟨fun row member => ?_, ih⟩
    have later := first_le_of_mem member
    omega

theorem take_numbered (count : Nat) : (numbered first entries).take count = numbered first (entries.take count) := by
  refine ext_getElem? fun index => ?_
  simp only [getElem?_numbered, getElem?_take]
  split <;> rfl

theorem drop_numbered (count : Nat) : (numbered first entries).drop count = numbered (first + count) (entries.drop count) := by
  refine ext_getElem? fun index => ?_
  simp only [getElem?_numbered, getElem?_drop, Nat.cast_add, Int.add_assoc]

/-- The rows below the bound come first. -/
theorem numbered_split (first bound : Int) (entries : List ρ) :
    (∀ row ∈ (numbered first entries).take (bound - first).toNat, row.1 < bound) ∧
      ∀ row ∈ (numbered first entries).drop (bound - first).toNat, bound ≤ row.1 := by
  rw [take_numbered, drop_numbered]
  refine ⟨fun row member => ?_, fun row member => ?_⟩
  · have upper := lt_of_mem member
    have lower := first_le_of_mem member
    rw [length_take] at upper
    omega
  · have lower := first_le_of_mem member
    omega

theorem filter_from : (numbered first entries).filter (fun row => decide (bound ≤ row.1)) =
    (numbered first entries).drop (bound - first).toNat := by
  obtain ⟨below, above⟩ := numbered_split first bound entries
  conv_lhs => rw [← take_append_drop (bound - first).toNat (numbered first entries), filter_append]
  rw [filter_eq_nil_iff.mpr (by simpa using below), filter_eq_self.mpr (by simpa using above), nil_append]

theorem filter_below : (numbered first entries).filter (fun row => decide (row.1 < bound)) =
    (numbered first entries).take (bound - first).toNat := by
  obtain ⟨below, above⟩ := numbered_split first bound entries
  conv_lhs => rw [← take_append_drop (bound - first).toNat (numbered first entries), filter_append]
  rw [filter_eq_self.mpr (by simpa using below), filter_eq_nil_iff.mpr (by simpa using above), append_nil]

theorem filter_not_first (count : Nat) :
    (numbered first entries).filter (fun row => !decide (row.1 ∈ ((numbered first entries).take count).map Prod.fst)) =
      (numbered first entries).drop count := by
  have whole : (first + count - first).toNat = count := by omega
  have split := numbered_split first (first + count) entries
  rw [whole] at split
  have same := @filter_from ρ first (first + count) entries
  rw [whole] at same
  rw [← same]
  refine filter_congr fun row stored => ?_
  rw [← decide_not, decide_eq_decide, mem_map]
  refine ⟨fun absent => ?_, fun above ⟨other, taken, named⟩ => ?_⟩
  · by_contra below
    rw [← take_append_drop count (numbered first entries), mem_append] at stored
    exact stored.elim (fun taken => absent ⟨row, taken, rfl⟩) fun dropped => below (split.2 row dropped)
  · exact absurd (split.1 other taken) (by omega)

/-- What was ever appended, and how many first entries were forgotten. -/
structure Log (ρ : Type) where
  history : List ρ
  forgotten : Nat
  within : forgotten ≤ history.length

namespace Log

def empty : Log ρ := ⟨[], 0, Nat.le_refl 0⟩

def rows (log : Log ρ) : List (Int × ρ) :=
  numbered (log.forgotten + 1) (log.history.drop log.forgotten)

def append (log : Log ρ) (entry : ρ) : Log ρ where
  history := log.history ++ [entry]
  forgotten := log.forgotten
  within := by
    have within := log.within
    rw [List.length_append]
    omega

def forget (log : Log ρ) (count : Nat) : Log ρ where
  history := log.history
  forgotten := min (log.forgotten + count) log.history.length
  within := Nat.min_le_right _ _

variable {log : Log ρ}

@[simp] theorem history_append : (log.append entry).history = log.history ++ [entry] := rfl

@[simp] theorem history_forget {count : Nat} : (log.forget count).history = log.history := rfl

theorem forgotten_forget {count : Nat} : (log.forget count).forgotten = min (log.forgotten + count) log.history.length := rfl

theorem le_forgotten_forget (count : Nat) : log.forgotten ≤ (log.forget count).forgotten :=
  Nat.le_min.mpr ⟨Nat.le_add_right _ _, log.within⟩

theorem length_rows : log.rows.length = log.history.length - log.forgotten := by
  rw [rows, length_numbered, length_drop]

theorem pairwise_rows : log.rows.Pairwise fun one other => one.1 < other.1 := pairwise_numbered

theorem rows_append : (log.append entry).rows = log.rows ++ [((log.history.length : Int) + 1, entry)] := by
  have within := log.within
  have number : (log.forgotten : Int) + 1 + ((log.history.length - log.forgotten : Nat) : Int) =
    (log.history.length : Int) + 1 := by
    omega
  change numbered (log.forgotten + 1) ((log.history ++ [entry]).drop log.forgotten) = _
  rw [drop_append_of_le_length within, numbered_append, length_drop, number]
  rfl

theorem rows_forget (count : Nat) : (log.forget count).rows = log.rows.drop count := by
  rw [rows, rows, forgotten_forget, history_forget, drop_numbered, drop_drop]
  by_cases reached : log.forgotten + count ≤ log.history.length
  · have next : ((log.forgotten + count : Nat) : Int) + 1 = log.forgotten + 1 + count := by omega
    rw [min_eq_left reached, next]
  · rw [min_eq_right (by omega), drop_length, drop_eq_nil_of_le (by omega)]
    rfl

theorem mem_rows : row ∈ log.rows ↔
    ∃ index : Nat, log.forgotten ≤ index ∧ log.history[index]? = some row.2 ∧ row.1 = index + 1 := by
  rw [rows, mem_numbered]
  constructor
  · intro ⟨index, found, same⟩
    rw [getElem?_drop] at found
    exact ⟨log.forgotten + index, Nat.le_add_right _ _, found, by omega⟩
  · intro ⟨index, retained, found, same⟩
    refine ⟨index - log.forgotten, ?_, by omega⟩
    rw [getElem?_drop, Nat.add_sub_cancel' retained, found]

end Log

end NumberedLog
