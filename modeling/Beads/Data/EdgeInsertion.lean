import Mathlib

namespace EdgeInsertion

open Relation

variable {α : Type*} {r : α → α → Prop} {source target a b : α}

def extended (r : α → α → Prop) (source target a b : α) : Prop := r a b ∨ a = source ∧ b = target

def Acyclic (r : α → α → Prop) : Prop := ∀ a, ¬TransGen r a a

theorem Acyclic.mono {s : α → α → Prop} (acyclic : Acyclic s) (within : r ≤ s) : Acyclic r :=
  fun a cycle => acyclic a (TransGen.mono within a a cycle)

theorem Acyclic.of_rank (rank : α → Nat) (increases : ∀ a b, r a b → rank a < rank b) : Acyclic r := by
  intro a cycle
  have climbs := TransGen.lift (p := (· < ·)) rank increases a a cycle
  rw [transGen_eq_self] at climbs
  exact Nat.lt_irrefl _ climbs

theorem path_extended (path : ReflTransGen (extended r source target) a b) :
    ReflTransGen r a b ∨ ReflTransGen r a source ∧ ReflTransGen r target b := by
  induction path with
  | refl => exact .inl .refl
  | tail _ edge ih =>
    cases edge with
    | inl old =>
      cases ih with
      | inl direct => exact .inl (direct.tail old)
      | inr through => exact .inr ⟨through.1, through.2.tail old⟩
    | inr new =>
      obtain ⟨rfl, rfl⟩ := new
      exact .inr ⟨ih.elim id And.left, .refl⟩

theorem proper_path_extended_iff : TransGen (extended r source target) a b ↔
    TransGen r a b ∨ ReflTransGen r a source ∧ ReflTransGen r target b := by
  constructor
  · intro path
    obtain ⟨c, first, rest⟩ := TransGen.head'_iff.mp path
    cases first with
    | inl old =>
      cases path_extended rest with
      | inl direct => exact .inl (TransGen.head' old direct)
      | inr through => exact .inr ⟨ReflTransGen.head old through.1, through.2⟩
    | inr new =>
      obtain ⟨rfl, rfl⟩ := new
      exact .inr ⟨.refl, (path_extended rest).elim id And.right⟩
  · intro either
    have lift : ∀ {a b}, ReflTransGen r a b → ReflTransGen (extended r source target) a b :=
      fun path => ReflTransGen.mono (fun _ _ edge => Or.inl edge) _ _ path
    cases either with
    | inl old => exact TransGen.mono (fun _ _ edge => Or.inl edge) a b old
    | inr through => exact TransGen.trans_right (lift through.1) (TransGen.head' (.inr ⟨rfl, rfl⟩) (lift through.2))

theorem acyclic_extended_iff (acyclic : Acyclic r) :
    Acyclic (extended r source target) ↔ ¬ReflTransGen r target source := by
  constructor
  · intro still back
    have forth : extended r source target source target := .inr ⟨rfl, rfl⟩
    have lifted : ReflTransGen (extended r source target) target source :=
      ReflTransGen.mono (fun _ _ edge => Or.inl edge) target source back
    exact still source (TransGen.head' forth lifted)
  · intro apart a cycle
    cases proper_path_extended_iff.mp cycle with
    | inl old => exact acyclic a old
    | inr through => exact apart (through.2.trans through.1)

end EdgeInsertion
