import Beads.Propagation.Convergence

namespace Propagation.Network

variable {V : Type*} {net other : Network V} {touched marks explained scope : Set V} {v above : V}

structure Untouched (net other : Network V) (touched : Set V) : Prop where
  live : ∀ v ∉ touched, net.live v ↔ other.live v
  reason : ∀ v ∉ touched, net.reason v ↔ other.reason v
  parent : ∀ v ∉ touched, ∀ above, net.parent v above ↔ other.parent v above
  below : ∀ v above, net.parent v above → above ∈ touched → v ∈ touched
  exogenous : ∀ v ∉ touched, ∀ above, net.parent v above → (net.exogenous above ↔ other.exogenous above)

variable {others : Set V} {scopes : List (Set V)}

section

variable (untouched : Untouched net other touched)
include untouched

theorem Untouched.symm (below : ∀ v above, other.parent v above → above ∈ touched → v ∈ touched) :
    Untouched other net touched where
  live v free := (untouched.live v free).symm
  reason v free := (untouched.reason v free).symm
  parent v free above := (untouched.parent v free above).symm
  below := below
  exogenous v free above edge := (untouched.exogenous v free above ((untouched.parent v free above).mpr edge)).symm

theorem Untouched.below_other : ∀ v above, other.parent v above → above ∈ touched → v ∈ touched := by
  intro v above edge reached
  by_contra free
  exact free (untouched.below v above ((untouched.parent v free above).mpr edge) reached)

theorem Untouched.darkened (free : v ∉ touched)
    (edge : net.parent v above) (darkened : net.Darkened above) : other.Darkened above := by
  induction darkened generalizing v with
  | source live exogenous =>
    have aboveFree := fun reached => free (untouched.below v _ edge reached)
    exact .source ((untouched.live _ aboveFree).mp live) ((untouched.exogenous v free _ edge).mp exogenous)
  | step live next _ ih =>
    have aboveFree := fun reached => free (untouched.below v _ edge reached)
    exact .step ((untouched.live _ aboveFree).mp live) ((untouched.parent _ aboveFree _).mp next) (ih aboveFree next)

theorem Untouched.settled (free : v ∉ touched) : v ∈ net.settled ↔ v ∈ other.settled := by
  have back := untouched.symm untouched.below_other
  refine and_congr (untouched.live v free) (or_congr (untouched.reason v free) ?_)
  constructor
  · intro ⟨above, edge, darkened⟩
    exact ⟨above, (untouched.parent v free above).mp edge, untouched.darkened free edge darkened⟩
  · intro ⟨above, edge, darkened⟩
    exact ⟨above, (untouched.parent v free above).mpr edge, back.darkened free edge darkened⟩

end

theorem Darkened.mono (live : ∀ v, net.live v → other.live v) (parent : ∀ v above, net.parent v above → other.parent v above)
    (exogenous : ∀ v, net.exogenous v → other.exogenous v) (darkened : net.Darkened v) : other.Darkened v := by
  induction darkened with
  | source alive reason => exact .source (live _ alive) (exogenous _ reason)
  | step alive edge _ ih => exact .step (live _ alive) (parent _ _ edge) ih

theorem settled_mono (live : ∀ v, net.live v → other.live v) (parent : ∀ v above, net.parent v above → other.parent v above)
    (reason : ∀ v, net.reason v → other.reason v)
    (exogenous : ∀ v, net.exogenous v → other.exogenous v) : net.settled ⊆ other.settled := by
  intro v ⟨alive, due⟩
  refine ⟨live v alive, due.imp (reason v) ?_⟩
  intro ⟨above, edge, darkened⟩
  exact ⟨above, parent v above edge, darkened.mono live parent exogenous⟩

variable (net) in
def markPass (scopes : List (Set V)) (marks : Set V) : Set V :=
  scopes.foldl (fun state scope => net.mark (net.explained state) scope state) marks

variable (net) in
def MarkQuiet (scopes : List (Set V)) (marks : Set V) : Prop :=
  ∀ scope ∈ scopes, net.mark (net.explained marks) scope marks = marks

theorem Below.mark (below : net.Below marks) : net.Below (net.mark (net.explained marks) scope marks) := by
  intro v row member
  cases member with
  | inl marked => exact below v row marked
  | inr fresh =>
    obtain ⟨_, live, due⟩ := fresh
    refine ⟨live, due.imp_right ?_⟩
    intro ⟨above, edge, marked, passes⟩
    exact ⟨above, edge, below.darkened (net.parent_row edge) marked passes⟩

theorem Below.markPass (below : net.Below marks) : net.Below (net.markPass scopes marks) :=
  List.foldlRecOn scopes _ below fun _ below _ _ => below.mark

theorem subset_markPass : marks ⊆ net.markPass scopes marks :=
  List.foldlRecOn scopes _ subset_rfl fun _ within _ _ => within.trans subset_mark

theorem markPass_of_unswept (unswept : ∀ scope ∈ scopes, v ∉ scope) :
    v ∈ net.markPass scopes marks ↔ v ∈ marks :=
  List.foldlRecOn scopes _ (motive := fun state => v ∈ state ↔ v ∈ marks) Iff.rfl fun state same scope listed => by
    rw [← same]
    exact or_iff_left fun fresh => unswept scope listed fresh.1

theorem exists_fresh (busy : ¬net.MarkQuiet scopes marks) :
    ∃ v ∈ net.rows, v ∉ marks ∧ v ∈ net.markPass scopes marks := by
  induction scopes with
  | nil => exact absurd (nofun) busy
  | cons scope rest ih =>
    by_cases first : net.mark (net.explained marks) scope marks = marks
    · have later : ¬net.MarkQuiet rest marks := fun quiet => busy (List.forall_mem_cons.mpr ⟨first, quiet⟩)
      change ∃ v ∈ net.rows, v ∉ marks ∧ v ∈ net.markPass rest (net.mark (net.explained marks) scope marks)
      rw [first]
      exact ih later
    · obtain ⟨v, member, clear⟩ : ∃ v ∈ net.mark (net.explained marks) scope marks, v ∉ marks := by
        by_contra none
        push Not at none
        exact first (Set.Subset.antisymm none subset_mark)
      cases member with
      | inl marked => exact absurd marked clear
      | inr fresh =>
        have marked : v ∈ net.mark (net.explained marks) scope marks := .inr fresh
        exact ⟨v, net.live_row fresh.2.1, clear, (subset_markPass marked : v ∈ net.markPass rest _)⟩

theorem settled_of_markQuiet (acyclic : net.Acyclic) (finite : net.rows.Finite)
    (below : net.Below marks) (quiet : net.MarkQuiet scopes marks)
    (covers : ∀ v ∈ net.rows, (∃ scope ∈ scopes, v ∈ scope) ∨ (v ∈ marks ↔ v ∈ net.settled)) :
    AgreeOn net.rows marks net.settled := by
  intro v
  induction v using (acyclic.wellFounded finite).induction with
  | _ v ih =>
    intro row
    have agree : AgreeOn (net.ancestors v) marks net.settled :=
      fun above member => ih above member (ancestors_rows member)
    rcases covers v row with ⟨scope, listed, inside⟩ | known
    · refine ⟨below v row, fun settled => ?_⟩
      have equation := (settled_consistent v row).mp settled
      have due := (due_of_agree (ancestors_upwardClosed v) agree agree fun _ => parent_mem_ancestors).mpr equation.2
      rw [← quiet scope listed]
      exact .inr ⟨inside, equation.1, due⟩
    · exact known

end Propagation.Network
