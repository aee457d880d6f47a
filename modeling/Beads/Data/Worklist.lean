import Beads.Data.RecursiveUnion

namespace Worklist

open RecursiveUnion List

variable {α : Type} [DecidableEq α] (next : α → List α)

def unseen (found : List α) : List α → List α
  | [] => []
  | node :: rest => if found.contains node then unseen found rest else node :: unseen (node :: found) rest

def drain : Nat → (found queue : List α) → List α
  | _, found, [] => found
  | 0, found, _ :: _ => found
  | fuel + 1, found, node :: queue =>
    let new := unseen found (next node)
    drain fuel (found ++ new) (queue ++ new)

variable {next} {found queue nodes : List α} {node : α}

theorem mem_unseen : node ∈ unseen found nodes ↔ node ∈ nodes ∧ node ∉ found := by
  induction nodes generalizing found with
  | nil => simp [unseen]
  | cons first rest ih =>
    rw [unseen]
    by_cases known : first ∈ found
    · rw [if_pos (by simpa using known), ih, mem_cons]
      refine and_congr_left fun fresh => (or_iff_right ?_).symm
      exact fun same => fresh (same ▸ known)
    · rw [if_neg (by simpa using known), mem_cons, ih, mem_cons]
      by_cases here : node = first
      · simp [here, known]
      · simp [here]

theorem nodup_unseen : (unseen found nodes).Nodup := by
  induction nodes generalizing found with
  | nil => exact nodup_nil
  | cons first rest ih =>
    rw [unseen]
    split
    · exact ih
    · exact nodup_cons.mpr ⟨fun again => (mem_unseen.mp again).2 (.head _), ih⟩

variable {catalog : List α} {fuel : Nat}

theorem missing_unseen (listed : ∀ node ∈ nodes, node ∈ catalog) :
    (unseen found nodes).length + missing catalog (found ++ unseen found nodes) ≤ missing catalog found := by
  let absent := catalog.filter fun node => !found.contains node
  have within : unseen found nodes ⊆ absent.filter fun node => (unseen found nodes).contains node := by
    intro node member
    obtain ⟨here, fresh⟩ := mem_unseen.mp member
    refine mem_filter.mpr ⟨mem_filter.mpr ⟨listed node here, ?_⟩, ?_⟩
    · simpa using fresh
    · simpa using member
  have marked := (subperm_of_subset nodup_unseen within).length_le
  have divided := length_eq_length_filter_add (l := absent) fun node => (unseen found nodes).contains node
  rw [missing_append_eq]
  exact Nat.le_trans (Nat.add_le_add_right marked _) (Nat.le_of_eq divided.symm)

theorem subset_drain : found ⊆ drain next fuel found queue := by
  induction fuel generalizing found queue with
  | zero => cases queue <;> exact List.Subset.refl _
  | succ fuel ih =>
    cases queue with
    | nil => exact List.Subset.refl _
    | cons first queue => exact fun node member => ih (mem_append_left _ member)

theorem drain_sound (member : node ∈ drain next fuel found queue) :
    node ∈ found ∨ ∃ origin ∈ queue, Relation.TransGen (Step next) origin node := by
  induction fuel generalizing found queue with
  | zero => cases queue <;> exact .inl member
  | succ fuel ih =>
    cases queue with
    | nil => exact .inl member
    | cons first queue =>
      have step : ∀ new ∈ unseen found (next first), Step next first new := fun _ entered => (mem_unseen.mp entered).1
      obtain known | ⟨origin, queued, path⟩ := ih member
      · obtain old | new := mem_append.mp known
        · exact .inl old
        · exact .inr ⟨first, mem_cons_self, .single (step node new)⟩
      · obtain old | new := mem_append.mp queued
        · exact .inr ⟨origin, mem_cons_of_mem _ old, path⟩
        · exact .inr ⟨first, mem_cons_self, .head (step origin new) path⟩

section

variable (bounded : ∀ node, ∀ other ∈ next node, other ∈ catalog)
include bounded

theorem drain_closed (enough : queue.length + missing catalog found ≤ fuel) {other : α}
    (worked : node ∈ queue ∨ node ∈ drain next fuel found queue ∧ node ∉ found)
    (step : Step next node other) : other ∈ drain next fuel found queue := by
  induction fuel generalizing found queue with
  | zero =>
    obtain rfl : queue = [] := length_eq_zero_iff.mp (by omega)
    exact worked.elim nofun fun ⟨entered, fresh⟩ => absurd entered fresh
  | succ fuel ih =>
    cases queue with
    | nil => exact worked.elim nofun fun ⟨entered, fresh⟩ => absurd entered fresh
    | cons first queue =>
      have shrinks : (unseen found (next first)).length + missing catalog (found ++ unseen found (next first)) ≤
          missing catalog found := missing_unseen (bounded first)
      have left : (queue ++ unseen found (next first)).length + missing catalog (found ++ unseen found (next first)) ≤ fuel := by
        rw [length_append]
        rw [length_cons] at enough
        omega
      obtain queued | ⟨entered, fresh⟩ := worked
      · obtain rfl | later := mem_cons.mp queued
        · have marked : other ∈ found ++ unseen found (next node) := by
            by_cases known : other ∈ found
            · exact mem_append_left _ known
            · exact mem_append_right _ (mem_unseen.mpr ⟨step, known⟩)
          change other ∈ drain next fuel (found ++ unseen found (next node)) (queue ++ unseen found (next node))
          exact subset_drain marked
        · exact ih left (.inl (mem_append_left _ later))
      · by_cases new : node ∈ unseen found (next first)
        · exact ih left (.inl (mem_append_right _ new))
        · refine ih left (.inr ⟨entered, fun known => ?_⟩)
          exact (mem_append.mp known).elim fresh new

theorem mem_drain (closed : ∀ node ∈ found, node ∉ queue → next node ⊆ found) (enough : queue.length + catalog.length ≤ fuel) :
    node ∈ drain next fuel found queue ↔ node ∈ found ∨ ∃ origin ∈ queue, Relation.TransGen (Step next) origin node := by
  have counted : queue.length + missing catalog found ≤ fuel :=
    Nat.le_trans (Nat.add_le_add_left (length_filter_le _ _) _) enough
  have follow : ∀ {node other}, node ∈ queue ∨ node ∈ drain next fuel found queue →
      Step next node other → other ∈ drain next fuel found queue := by
    intro node other worked step
    by_cases queued : node ∈ queue
    · exact drain_closed bounded counted (.inl queued) step
    by_cases old : node ∈ found
    · exact subset_drain (closed node old queued step)
    · exact drain_closed bounded counted (.inr ⟨worked.resolve_left queued, old⟩) step
  refine ⟨drain_sound, ?_⟩
  rintro (old | ⟨origin, queued, path⟩)
  · exact subset_drain old
  induction path with
  | single step => exact follow (.inl queued) step
  | tail _ step ih => exact follow (.inr ih) step

end

end Worklist
