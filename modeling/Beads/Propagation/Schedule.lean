import Beads.Propagation.Network
import Beads.Data.Settling

namespace Propagation.Network

open Settling

variable {V : Type*} (net : Network V)

def mark (explained scope marks : Set V) : Set V :=
  marks ∪ {v | v ∈ scope ∧ net.live v ∧ net.Due explained marks v}

def unmark (explained scope marks : Set V) : Set V :=
  {v | v ∈ marks ∧ (v ∈ scope → net.live v ∧ net.Due explained marks v)}

def sweep (explained marks scope : Set V) : Set V :=
  net.unmark explained scope (net.mark explained scope marks)

def round (marks : Set V) (scopes : List (Set V)) : Set V :=
  scopes.foldl (net.sweep (net.explained marks)) marks

def pass (rounds : List (List (Set V))) (marks : Set V) : Set V :=
  rounds.foldl net.round marks

def Quiet (rounds : List (List (Set V))) (marks : Set V) : Prop :=
  ∀ scopes ∈ rounds, ∀ scope ∈ scopes, net.sweep (net.explained marks) marks scope = marks

variable {net} {explained scope marks other region : Set V} {v : V}

theorem Due.mono (within : marks ⊆ other) (due : net.Due explained marks v) : net.Due explained other v := by
  rcases due with reason | ⟨above, edge, marked, passes⟩
  · exact .inl reason
  · exact .inr ⟨above, edge, within marked, passes⟩

theorem subset_mark : marks ⊆ net.mark explained scope marks := Set.subset_union_left

theorem mem_sweep_of_notMem (outside : v ∉ scope) : v ∈ net.sweep explained marks scope ↔ v ∈ marks := by
  simp [sweep, unmark, mark, outside]

theorem mem_sweep_of_mem (inside : v ∈ scope) : v ∈ net.sweep explained marks scope ↔
    net.live v ∧ (net.Due explained marks v ∨
      v ∈ marks ∧ net.Due explained (net.mark explained scope marks) v) := by
  constructor
  · rintro ⟨marked | fresh, keeps⟩
    · exact ⟨(keeps inside).1, .inr ⟨marked, (keeps inside).2⟩⟩
    · exact ⟨fresh.2.1, .inl fresh.2.2⟩
  · rintro ⟨live, due | ⟨marked, due⟩⟩
    · exact ⟨.inr ⟨inside, live, due⟩, fun _ => ⟨live, due.mono subset_mark⟩⟩
    · exact ⟨.inl marked, fun _ => ⟨live, due⟩⟩

theorem mark_eq_self (none : ∀ v ∈ scope, net.live v ∧ net.Due explained marks v → v ∈ marks) :
    net.mark explained scope marks = marks :=
  Set.union_eq_left.mpr fun v fresh => none v fresh.1 fresh.2

theorem mark_eq_of_sweep_eq (same : net.sweep explained marks scope = marks) : net.mark explained scope marks = marks :=
  mark_eq_self fun _ inside due => same ▸ (mem_sweep_of_mem inside).mpr ⟨due.1, .inl due.2⟩

theorem sweep_eq_self : net.sweep explained marks scope = marks ↔
    ∀ v ∈ scope, v ∈ marks ↔ net.live v ∧ net.Due explained marks v := by
  constructor
  · intro same v inside
    have swept : v ∈ net.sweep explained marks scope ↔ _ := mem_sweep_of_mem inside
    rw [same, mark_eq_of_sweep_eq same] at swept
    rw [swept]
    tauto
  · intro consistent
    have unchanged := mark_eq_self fun v inside => (consistent v inside).mpr
    ext v
    by_cases inside : v ∈ scope
    · rw [mem_sweep_of_mem inside, unchanged, consistent v inside]
      tauto
    · exact mem_sweep_of_notMem inside

variable {rounds : List (List (Set V))}

theorem quiet_iff : net.Quiet rounds marks ↔ ∀ scopes ∈ rounds, ∀ scope ∈ scopes, ∀ v ∈ scope,
      v ∈ marks ↔ net.live v ∧ net.Due (net.explained marks) marks v := by
  simp only [Quiet, sweep_eq_self]

theorem pass_of_quiet (quiet : net.Quiet rounds marks) : net.pass rounds marks = marks :=
  foldl_of_quiet fun scopes listed => foldl_of_quiet (quiet scopes listed)

theorem sweep_agree {start parents : Set V} (closed : net.UpwardClosed parents)
    (above : ∀ v ∈ region, ∀ above, net.parent v above → above ∈ parents)
    (read : AgreeOn parents start net.settled) (seen : AgreeOn parents marks net.settled)
    (keep : ∀ v ∈ region, v ∉ scope → (v ∈ marks ↔ v ∈ net.settled))
    (rows : scope ⊆ net.rows) :
    AgreeOn region (net.sweep (net.explained start) marks scope) net.settled := by
  intro v member
  by_cases inside : v ∈ scope
  · have marked : AgreeOn parents (net.mark (net.explained start) scope marks) net.settled := by
      intro w parentMember
      have due := due_of_agree (v := w) closed read seen fun _ edge => closed parentMember edge
      constructor
      · rintro (marked | fresh)
        · exact (seen w parentMember).mp marked
        · exact (settled_consistent w (rows fresh.1)).mpr ⟨fresh.2.1, due.mp fresh.2.2⟩
      · exact fun settled => subset_mark ((seen w parentMember).mpr settled)
    rw [mem_sweep_of_mem inside, settled_consistent v (rows inside),
      due_of_agree closed read seen (above v member), due_of_agree closed read marked (above v member)]
    tauto
  · rw [mem_sweep_of_notMem inside]
    exact keep v member inside

section Regions

variable {start parents : Set V} {scopes : List (Set V)} {rounds : List (List (Set V))}

theorem sweeps_agree (seen : AgreeOn region marks net.settled)
    (inRows : ∀ scope ∈ scopes, scope ⊆ net.rows) (closed : net.UpwardClosed parents)
    (within : parents ⊆ region) (above : ∀ v ∈ region, ∀ above, net.parent v above → above ∈ parents)
    (read : AgreeOn parents start net.settled) :
    AgreeOn region (scopes.foldl (net.sweep (net.explained start)) marks) net.settled :=
  List.foldlRecOn scopes _ (motive := fun marks => AgreeOn region marks net.settled) seen fun _ seen scope listed =>
    sweep_agree closed above read (seen.mono within) (fun v member _ => seen v member) (inRows scope listed)

theorem UpwardClosed.insert (closed : net.UpwardClosed region) (above : ∀ above, net.parent v above → above ∈ region) :
    ∀ w ∈ insert v region, ∀ above, net.parent w above → above ∈ region := by
  rintro w (rfl | member) next edge
  · exact above next edge
  · exact closed member edge

theorem sweeps_settle (inRows : ∀ scope ∈ scopes, scope ⊆ net.rows) (closed : net.UpwardClosed parents)
    (above : ∀ above, net.parent v above → above ∈ parents) (swept : ∃ scope ∈ scopes, v ∈ scope)
    (read : AgreeOn parents start net.settled) (seen : AgreeOn parents marks net.settled) :
    AgreeOn (insert v parents) (scopes.foldl (net.sweep (net.explained start)) marks) net.settled := by
  have insertAbove := closed.insert above
  obtain ⟨scope, listed, inside⟩ := swept
  refine foldl_reaches (AgreeOn parents · net.settled) (AgreeOn (insert v parents) · net.settled) seen ?_ listed ?_ ?_
  · intro marks seen scope listed
    exact sweep_agree closed (fun w member _ edge => closed member edge) read seen (fun w member _ => seen w member)
      (inRows scope listed)
  · intro marks seen
    refine sweep_agree closed insertAbove read seen ?_ (inRows scope listed)
    rintro w (rfl | member) outside
    · exact absurd inside outside
    · exact seen w member
  · intro marks seen scope listed
    exact sweep_agree closed insertAbove read (seen.mono (Set.subset_insert v parents)) (fun w member _ => seen w member)
      (inRows scope listed)

section

variable (inRows : ∀ scopes ∈ rounds, ∀ scope ∈ scopes, scope ⊆ net.rows)
include inRows

section

variable (seen : AgreeOn region marks net.settled)
include seen

theorem pass_agree (closed : net.UpwardClosed region) : AgreeOn region (net.pass rounds marks) net.settled :=
  List.foldlRecOn rounds _ (motive := fun marks => AgreeOn region marks net.settled) seen fun _ seen scopes listed =>
    sweeps_agree seen (inRows scopes listed) closed subset_rfl (fun _ member _ edge => closed member edge) seen

theorem pass_settle (closed : net.UpwardClosed region) (above : ∀ above, net.parent v above → above ∈ region)
    (swept : ∃ scopes ∈ rounds, ∃ scope ∈ scopes, v ∈ scope) :
    AgreeOn (insert v region) (net.pass rounds marks) net.settled := by
  have insertClosed : net.UpwardClosed (insert v region) :=
    fun w next member edge => .inr (closed.insert above w member next edge)
  obtain ⟨scopes, listed, swept⟩ := swept
  refine foldl_reaches (AgreeOn region · net.settled) (AgreeOn (insert v region) · net.settled) seen ?_ listed ?_ ?_
  · intro marks seen scopes listed
    exact sweeps_agree seen (inRows scopes listed) closed subset_rfl (fun w member _ edge => closed member edge) seen
  · intro marks seen
    exact sweeps_settle (inRows scopes listed) closed above swept seen seen
  · intro marks seen scopes listed
    exact sweeps_agree seen (inRows scopes listed) insertClosed subset_rfl (fun _ member _ edge => insertClosed member edge) seen

end

end

theorem sweeps_of_unswept (unswept : ∀ scope ∈ scopes, v ∉ scope) :
    v ∈ scopes.foldl (net.sweep explained) marks ↔ v ∈ marks :=
  List.foldlRecOn scopes _ (motive := fun state => v ∈ state ↔ v ∈ marks) Iff.rfl fun _ same scope listed =>
    (mem_sweep_of_notMem (unswept scope listed)).trans same

theorem pass_of_unswept (unswept : ∀ scopes ∈ rounds, ∀ scope ∈ scopes, v ∉ scope) :
    v ∈ net.pass rounds marks ↔ v ∈ marks :=
  List.foldlRecOn rounds _ (motive := fun state => v ∈ state ↔ v ∈ marks) Iff.rfl fun _ same scopes listed =>
    (sweeps_of_unswept (unswept scopes listed)).trans same

end Regions

theorem pass_append {first second : List (List (Set V))} :
    net.pass (first ++ second) marks = net.pass second (net.pass first marks) := List.foldl_append

theorem pass_cons {scopes : List (Set V)} :
    net.pass (scopes :: rounds) marks = net.pass rounds (net.round marks scopes) := rfl

end Propagation.Network
