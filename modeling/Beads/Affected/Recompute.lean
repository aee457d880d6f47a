import Beads.Affected.Sets
import Beads.Blocked.Changes

namespace Beads

open Propagation

/-- How long the recompute loops may run, and the process-wide switch of the create fast paths. -/
structure Session where
  fuel : Nat
  createFastPathsDisabled : Bool := false

namespace Tables

def recomputeSeeds (tables : Tables) (session : Session) (splitEdgeless : Bool) (seeds : Seeds) (bits : Bits) : Option Bits :=
  (tables.recomputeIsBlocked ⟨splitEdgeless, session.createFastPathsDisabled⟩ (seeds.queue .issue) (seeds.queue .wisp)
    session.fuel bits).map RecomputeResult.bits

variable {before after : Tables} {bits result : Bits} {seeds : Seeds} {reached : Set ItemRef} {splitEdgeless : Bool}

theorem mem_idsOf (ref : ItemRef) : ref.id ∈ idsOf (seeds.queue .issue) (seeds.queue .wisp) ref.plane ↔ ref ∈ seeds.listed := by
  obtain ⟨plane, id⟩ := ref
  cases plane <;> rfl

/-- No item outside the reached set gets another answer. -/
def Contained (before after : Tables) (reached : Set ItemRef) : Prop :=
  ∀ ref, after.stored ref = true → ref ∉ reached → (before.ShouldBeBlocked ref ↔ after.ShouldBeBlocked ref)

variable {session : Session} {ref : ItemRef}

theorem recomputeSeeds_consistent_iff (wasAcyclic : before.ParentChildAcyclic)
    (acyclic : after.ParentChildAcyclic) (consistent : before.countIsBlockedInconsistencies bits = 0)
    (kept : ∀ ref ∉ reached, after.stored ref = true → before.stored ref = true) (collects : seeds.Collects reached)
    (returned : after.recomputeSeeds session splitEdgeless seeds bits = some result) :
    after.countIsBlockedInconsistencies result = 0 ↔ Contained before after reached := by
  obtain ⟨outcome, recomputed, rfl⟩ := Option.map_eq_some_iff.mp returned
  rw [recomputeIsBlocked_consistent_iff acyclic recomputed]
  refine forall₂_congr fun ref present => ?_
  rw [mem_idsOf, collects.listed]
  refine forall_congr' fun free => ?_
  rw [(consistent_iff_settled wasAcyclic).mp consistent ref (kept ref free present)]

section

variable (returned : after.recomputeSeeds session splitEdgeless seeds bits = some result)
include returned

theorem recomputeSeeds_frame (free : ref ∉ seeds.listed) : result ref = bits ref := by
  obtain ⟨outcome, recomputed, rfl⟩ := Option.map_eq_some_iff.mp returned
  exact recomputeIsBlocked_frame recomputed fun both => free ((mem_idsOf ref).mp both.1)

theorem recomputeSeeds_equation (present : after.stored ref = true) (listed : ref ∈ seeds.listed) :
    ref ∈ marks result ↔ after.network.live ref ∧
      after.network.Due (after.network.explained (marks result)) (marks result) ref := by
  obtain ⟨outcome, recomputed, rfl⟩ := Option.map_eq_some_iff.mp returned
  exact Network.quiet_equation (quiet_of_recomputeIsBlocked recomputed) (swept_iff.mpr ⟨(mem_idsOf ref).mpr listed, present⟩)

theorem recomputeSeeds_inactive (present : after.stored ref = true)
    (listed : ref ∈ seeds.listed) (inactive : after.active ref = false) : result ref = false := by
  rw [Bool.eq_false_iff]
  intro marked
  exact Bool.eq_false_iff.mp inactive ((recomputeSeeds_equation returned present listed).mp marked).1

end

theorem recomputeSeeds_agrees_at (acyclic : after.ParentChildAcyclic)
    (returned : after.recomputeSeeds session splitEdgeless seeds bits = some result) (present : after.stored ref = true)
    (covers : ∀ above, Relation.ReflTransGen after.network.parent ref above → above ∉ seeds.listed →
      (bits above = true ↔ after.ShouldBeBlocked above)) :
    result ref = true ↔ after.ShouldBeBlocked ref := by
  obtain ⟨outcome, recomputed, rfl⟩ := Option.map_eq_some_iff.mp returned
  exact recomputeIsBlocked_agrees_at acyclic recomputed present fun above chain unlisted =>
    covers above chain fun listed => unlisted ((mem_idsOf above).mpr listed)

theorem recomputeSeeds_returns (acyclic : after.ParentChildAcyclic)
    (collects : seeds.Collects reached) (splitEdgeless createFastPathsDisabled : Bool)
    (bits : Bits) : ∃ passes, ∀ fuel, passes < fuel → ∃ result,
      after.recomputeSeeds ⟨fuel, createFastPathsDisabled⟩ splitEdgeless seeds bits = some result := by
  obtain ⟨passes, returns⟩ := recomputeIsBlocked_stops_acyclic acyclic ⟨splitEdgeless, createFastPathsDisabled⟩ bits
    (collects.nodup .issue) (collects.nodup .wisp)
  refine ⟨passes, fun fuel enough => ?_⟩
  obtain ⟨outcome, recomputed⟩ := returns fuel enough
  exact ⟨outcome.bits, by rw [recomputeSeeds, recomputed]; rfl⟩

end Tables

end Beads
