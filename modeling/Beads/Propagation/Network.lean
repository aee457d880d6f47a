import Mathlib

/-! A network has rows, a parent relation and, for each row, whether it is live, whether it has a
reason of its own to be marked, and whether one of its reasons lies outside its own subtree. A
marked parent passes its mark on unless it is explained: all its reasons lie inside its subtree and
nothing above it passes a mark down to it. -/

namespace Propagation

structure Network (V : Type*) where
  rows : Set V
  parent : V → V → Prop
  live : V → Prop
  reason : V → Prop
  exogenous : V → Prop
  parent_row : ∀ {child above}, parent child above → above ∈ rows
  live_row : ∀ {v}, live v → v ∈ rows
  exogenous_reason : ∀ {v}, exogenous v → reason v

namespace Network

variable {V : Type*} (net : Network V)

/-- A chain of marked parents leads from the row up to one with an exogenous reason. -/
inductive FromAbove (marks : Set V) : V → Prop where
  | source {child above : V} (edge : net.parent child above) (marked : above ∈ marks)
      (exogenous : net.exogenous above) : FromAbove marks child
  | step {child above : V} (edge : net.parent child above) (marked : above ∈ marks)
      (further : FromAbove marks above) : FromAbove marks child

def explained (marks : Set V) : Set V :=
  {v | v ∈ marks ∧ net.reason v ∧ ¬net.exogenous v ∧ ¬net.FromAbove marks v}

def Due (explained marks : Set V) (v : V) : Prop :=
  net.reason v ∨ ∃ above, net.parent v above ∧ above ∈ marks ∧ above ∉ explained

def Consistent (marks : Set V) : Prop :=
  ∀ v ∈ net.rows, v ∈ marks ↔ net.live v ∧ net.Due (net.explained marks) marks v

/-- Live rows that pass a mark on: a finite chain of live parents ends in an exogenous reason. -/
inductive Darkened : V → Prop where
  | source {v : V} (live : net.live v) (exogenous : net.exogenous v) : Darkened v
  | step {v above : V} (live : net.live v) (edge : net.parent v above) (further : Darkened above) : Darkened v

def settled : Set V :=
  {v | net.live v ∧ (net.reason v ∨ ∃ above, net.parent v above ∧ net.Darkened above)}

variable {net} {marks other : Set V} {v above : V}

theorem Darkened.settled (darkened : net.Darkened v) : v ∈ net.settled := by
  cases darkened with
  | source live exogenous => exact ⟨live, .inl (net.exogenous_reason exogenous)⟩
  | step live edge further => exact ⟨live, .inr ⟨_, edge, further⟩⟩

variable (net) in
def Below (marks : Set V) : Prop := ∀ v ∈ net.rows, v ∈ marks → v ∈ net.settled

theorem Below.fromAbove (below : net.Below marks) (chain : net.FromAbove marks v) :
    ∃ above, net.parent v above ∧ net.Darkened above := by
  induction chain with
  | source edge marked exogenous =>
    exact ⟨_, edge, .source (below _ (net.parent_row edge) marked).1 exogenous⟩
  | step edge marked _ ih =>
    obtain ⟨further, next, darkened⟩ := ih
    exact ⟨_, edge, .step (below _ (net.parent_row edge) marked).1 next darkened⟩

theorem Below.darkened (below : net.Below marks) (row : v ∈ net.rows) (marked : v ∈ marks)
    (passes : v ∉ net.explained marks) : net.Darkened v := by
  obtain ⟨live, due⟩ := below v row marked
  by_cases exogenous : net.exogenous v
  · exact .source live exogenous
  · have inherited : ∃ above, net.parent v above ∧ net.Darkened above := by
      cases due with
      | inl reason =>
        by_contra none
        exact passes ⟨marked, reason, exogenous, fun chain => none (below.fromAbove chain)⟩
      | inr inherited => exact inherited
    obtain ⟨above, edge, darkened⟩ := inherited
    exact .step live edge darkened

theorem below_settled : net.Below net.settled := fun _ _ settled => settled

theorem fromAbove_settled : net.FromAbove net.settled v ↔ ∃ above, net.parent v above ∧ net.Darkened above := by
  refine ⟨below_settled.fromAbove, ?_⟩
  rintro ⟨above, edge, darkened⟩
  induction darkened generalizing v with
  | source live exogenous => exact .source edge (Darkened.source live exogenous).settled exogenous
  | step live next darkened ih => exact .step edge (Darkened.step live next darkened).settled (ih next)

theorem settled_passes : (v ∈ net.settled ∧ v ∉ net.explained net.settled) ↔ net.Darkened v := by
  refine ⟨fun ⟨marked, passes⟩ => below_settled.darkened (net.live_row marked.1) marked passes,
    fun darkened => ⟨darkened.settled, ?_⟩⟩
  rintro ⟨-, -, notExogenous, notAbove⟩
  cases darkened with
  | source live exogenous => exact notExogenous exogenous
  | step live edge further => exact notAbove (fromAbove_settled.mpr ⟨_, edge, further⟩)

theorem due_settled : net.Due (net.explained net.settled) net.settled v ↔
    net.reason v ∨ ∃ above, net.parent v above ∧ net.Darkened above := by
  simp only [Due, settled_passes]

theorem settled_consistent : net.Consistent net.settled := by
  intro v _
  rw [due_settled]
  rfl

def AgreeOn (region marks other : Set V) : Prop := ∀ v ∈ region, v ∈ marks ↔ v ∈ other

variable (net) in
def UpwardClosed (region : Set V) : Prop :=
  ∀ ⦃v above⦄, v ∈ region → net.parent v above → above ∈ region

variable {region : Set V}

theorem AgreeOn.symm (agree : AgreeOn region marks other) : AgreeOn region other marks :=
  fun v member => (agree v member).symm

theorem AgreeOn.mono {smaller : Set V} (agree : AgreeOn region marks other)
    (within : smaller ⊆ region) : AgreeOn smaller marks other :=
  fun v member => agree v (within member)

section

variable (closed : net.UpwardClosed region)
include closed

section

variable (agree : AgreeOn region marks other)
include agree

theorem FromAbove.of_agree
    (parents : ∀ above, net.parent v above → above ∈ region) (chain : net.FromAbove marks v) :
    net.FromAbove other v := by
  induction chain with
  | source edge marked exogenous =>
    exact .source edge ((agree _ (parents _ edge)).mp marked) exogenous
  | step edge marked _ ih =>
    have member := parents _ edge
    exact .step edge ((agree _ member).mp marked) (ih fun _ next => closed member next)

theorem explained_of_agree (member : v ∈ region) : v ∈ net.explained marks ↔ v ∈ net.explained other := by
  have parents : ∀ above, net.parent v above → above ∈ region := fun _ edge => closed member edge
  have chains : net.FromAbove marks v ↔ net.FromAbove other v :=
    ⟨.of_agree closed agree parents, .of_agree closed agree.symm parents⟩
  simp [explained, agree v member, chains]

end

theorem due_of_agree {start startOther : Set V}
    (read : AgreeOn region start startOther) (agree : AgreeOn region marks other)
    (parents : ∀ above, net.parent v above → above ∈ region) :
    net.Due (net.explained start) marks v ↔ net.Due (net.explained startOther) other v := by
  unfold Due
  refine or_congr_right (exists_congr fun above => and_congr_right fun edge => ?_)
  have member := parents above edge
  rw [agree above member, explained_of_agree closed read member]

end

variable (net) in
def ancestors (v : V) : Set V := {above | Relation.TransGen net.parent v above}

theorem ancestors_upwardClosed (v : V) : net.UpwardClosed (net.ancestors v) :=
  fun _ _ member edge => Relation.TransGen.tail member edge

theorem parent_mem_ancestors (edge : net.parent v above) : above ∈ net.ancestors v :=
  Relation.TransGen.single edge

theorem ancestors_rows : net.ancestors v ⊆ net.rows := by
  intro above member
  cases member with
  | single edge | tail _ edge => exact net.parent_row edge

variable (net) in
def Acyclic : Prop := ∀ v, v ∉ net.ancestors v

theorem rows_upwardClosed : net.UpwardClosed net.rows := fun _ _ _ edge => net.parent_row edge

section

variable (acyclic : net.Acyclic) (finite : net.rows.Finite)
include acyclic finite

theorem Acyclic.wellFounded : WellFounded fun above v => above ∈ net.ancestors v := by
  have order : IsStrictOrder V fun above v => above ∈ net.ancestors v :=
    { irrefl := acyclic, trans := fun _ _ _ first second => Relation.TransGen.trans second first }
  have onRows : net.rows.WellFoundedOn fun above v => above ∈ net.ancestors v := finite.wellFoundedOn
  refine ⟨fun v => Acc.intro v fun above member => ?_⟩
  have row := ancestors_rows member
  refine onRows.induction row (P := fun v => Acc (fun above v => above ∈ net.ancestors v) v) ?_
  intro next _ ih
  exact Acc.intro next fun further beyond => ih further (ancestors_rows beyond) beyond

theorem agree_settled_on (closed : net.UpwardClosed region)
    (each : ∀ v ∈ region, v ∈ net.rows → (v ∈ marks ↔ net.live v ∧ net.Due (net.explained marks) marks v) ∨
      (v ∈ marks ↔ v ∈ net.settled)) : AgreeOn (region ∩ net.rows) marks net.settled := by
  have upward : ∀ {v above}, v ∈ region → above ∈ net.ancestors v → above ∈ region := by
    intro v above member chain
    induction chain with
    | single edge => exact closed member edge
    | tail _ edge ih => exact closed ih edge
  intro v
  induction v using (acyclic.wellFounded finite).induction with
  | _ v ih =>
    intro ⟨member, row⟩
    have agree : AgreeOn (net.ancestors v) marks net.settled :=
      fun above chain => ih above chain ⟨upward member chain, ancestors_rows chain⟩
    cases each v member row with
    | inl equation => rw [equation, settled_consistent v row,
        due_of_agree (ancestors_upwardClosed v) agree agree fun _ => parent_mem_ancestors]
    | inr settled => exact settled

theorem agree_settled
    (each : ∀ v ∈ net.rows, (v ∈ marks ↔ net.live v ∧ net.Due (net.explained marks) marks v) ∨
      (v ∈ marks ↔ v ∈ net.settled)) : AgreeOn net.rows marks net.settled :=
  (agree_settled_on acyclic finite rows_upwardClosed fun v row _ => each v row).mono fun _ row => ⟨row, row⟩

theorem Consistent.agree_settled (consistent : net.Consistent marks) : AgreeOn net.rows marks net.settled :=
  Network.agree_settled acyclic finite fun v row => .inl (consistent v row)

end

theorem Consistent.of_agree (consistent : net.Consistent other)
    (agree : AgreeOn net.rows marks other) : net.Consistent marks := by
  intro v row
  rw [agree v row, consistent v row,
    due_of_agree rows_upwardClosed agree agree fun _ edge => net.parent_row edge]

end Network

end Propagation
