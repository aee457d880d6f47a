import Beads.Propagation.Schedule

namespace Propagation.Network

variable {V : Type*} {net : Network V} {marks : Set V} {rounds : List (List (Set V))} {v : V}

def anchored (net : Network V) (marks : Set V) : Set V :=
  {v | v ∈ net.rows ∧ AgreeOn (insert v (net.ancestors v)) marks net.settled}

def Swept (rounds : List (List (Set V))) (v : V) : Prop := ∃ scopes ∈ rounds, ∃ scope ∈ scopes, v ∈ scope

theorem anchored_upwardClosed : net.UpwardClosed (net.anchored marks) := by
  rintro v above ⟨_, agree⟩ edge
  refine ⟨net.parent_row edge, agree.mono ?_⟩
  rintro w (rfl | beyond)
  · exact Set.mem_insert_of_mem _ (parent_mem_ancestors edge)
  · exact Set.mem_insert_of_mem _ (Relation.TransGen.head edge beyond)

theorem anchored_agree : AgreeOn (net.anchored marks) marks net.settled :=
  fun v member => member.2 v (Set.mem_insert _ _)

theorem anchored_of_region {region : Set V} (closed : net.UpwardClosed region)
    (agree : AgreeOn region marks net.settled) (member : v ∈ region) (row : v ∈ net.rows) :
    v ∈ net.anchored marks := by
  refine ⟨row, agree.mono ?_⟩
  rintro w (rfl | beyond)
  · exact member
  · exact Relation.TransGen.head_induction_on (motive := fun v _ => v ∈ region → w ∈ region) beyond
      (fun edge inside => closed inside edge) (fun edge _ ih inside => ih (closed inside edge)) member

theorem anchored_subset_pass (inRows : ∀ scopes ∈ rounds, ∀ scope ∈ scopes, scope ⊆ net.rows) :
    net.anchored marks ⊆ net.anchored (net.pass rounds marks) := by
  intro v member
  exact anchored_of_region anchored_upwardClosed
    (pass_agree inRows anchored_agree anchored_upwardClosed) member member.1

section

variable (acyclic : net.Acyclic) (finite : net.rows.Finite)
  (inRows : ∀ scopes ∈ rounds, ∀ scope ∈ scopes, scope ⊆ net.rows)
  (covers : ∀ v ∈ net.rows, Swept rounds v ∨ (v ∈ marks ↔ v ∈ net.settled))
include acyclic finite inRows covers

theorem anchored_grows (missing : (net.rows \ net.anchored marks).Nonempty) :
    (net.rows \ net.anchored (net.pass rounds marks)).ncard < (net.rows \ net.anchored marks).ncard := by
  obtain ⟨v, ⟨row, loose⟩, topmost⟩ := (acyclic.wellFounded finite).has_min _ missing
  have above : ∀ above, net.parent v above → above ∈ net.anchored marks := by
    intro above edge
    by_contra loose
    exact topmost above ⟨net.parent_row edge, loose⟩ (parent_mem_ancestors edge)
  have gained : v ∈ net.anchored (net.pass rounds marks) := by
    rcases covers v row with swept | settled
    · have closed : net.UpwardClosed (insert v (net.anchored marks)) :=
        fun w next member edge => .inr (anchored_upwardClosed.insert above w member next edge)
      exact anchored_of_region closed (pass_settle inRows anchored_agree anchored_upwardClosed above swept)
        (Set.mem_insert _ _) row
    · refine absurd ⟨row, ?_⟩ loose
      rintro w (rfl | beyond)
      · exact settled
      · obtain ⟨next, edge, rest⟩ := Relation.TransGen.head'_iff.mp beyond
        rcases Relation.reflTransGen_iff_eq_or_transGen.mp rest with rfl | further
        · exact anchored_agree _ (above _ edge)
        · exact (above _ edge).2 w (Set.mem_insert_of_mem _ further)
  refine Set.ncard_lt_ncard ⟨?_, ?_⟩ (finite.subset Set.sdiff_subset)
  · exact Set.sdiff_subset_sdiff_right (anchored_subset_pass inRows)
  · intro same
    exact (same ⟨row, loose⟩).2 gained

theorem iterate_pass_settled {passes : Nat} (enough : (net.rows \ net.anchored marks).ncard ≤ passes) :
    AgreeOn net.rows ((net.pass rounds)^[passes] marks) net.settled := by
  induction passes generalizing marks with
  | zero =>
    intro v row
    by_contra differs
    have empty := (Set.ncard_eq_zero (finite.subset Set.sdiff_subset)).mp (Nat.le_zero.mp enough)
    have loose : v ∈ net.rows \ net.anchored marks :=
      ⟨row, fun member => differs (anchored_agree v member)⟩
    rw [empty] at loose
    exact loose
  | succ passes ih =>
    rw [Function.iterate_succ_apply]
    refine ih ?_ ?_
    · intro v row
      by_cases swept : Swept rounds v
      · exact .inl swept
      · refine .inr ?_
        rw [pass_of_unswept fun scopes round scope member inside => swept ⟨scopes, round, scope, member, inside⟩]
        exact (covers v row).resolve_left swept
    · by_cases missing : (net.rows \ net.anchored marks).Nonempty
      · have shrinks := anchored_grows acyclic finite inRows covers missing
        omega
      · have all : net.rows \ net.anchored (net.pass rounds marks) = ∅ := by
          refine Set.eq_empty_of_subset_empty fun v loose => missing ⟨v, loose.1, fun member => ?_⟩
          exact loose.2 (anchored_subset_pass inRows member)
        rw [all, Set.ncard_empty]
        exact Nat.zero_le passes

end

theorem quiet_of_settled (inRows : ∀ scopes ∈ rounds, ∀ scope ∈ scopes, scope ⊆ net.rows)
    (agree : AgreeOn net.rows marks net.settled) : net.Quiet rounds marks := by
  have consistent := settled_consistent.of_agree agree
  rw [quiet_iff]
  intro scopes round scope member v inside
  exact consistent v (inRows scopes round scope member inside)

theorem quiet_equation (quiet : net.Quiet rounds marks) {v : V} (swept : Swept rounds v) :
    v ∈ marks ↔ net.live v ∧ net.Due (net.explained marks) marks v := by
  obtain ⟨scopes, round, scope, member, inside⟩ := swept
  exact quiet_iff.mp quiet scopes round scope member v inside

theorem settled_of_quiet (acyclic : net.Acyclic) (finite : net.rows.Finite)
    (quiet : net.Quiet rounds marks) (covers : ∀ v ∈ net.rows, Swept rounds v ∨
    (v ∈ marks ↔ v ∈ net.settled)) : AgreeOn net.rows marks net.settled :=
  agree_settled acyclic finite fun v row => (covers v row).imp_left (quiet_equation quiet)

end Propagation.Network
