import Mathlib

/-! A list of trees, each a value over a list of trees again, as one inductive type: the first root,
the forest below it and the forest after it. -/

namespace Beads

universe u v w

inductive Forest (α : Type u) where
  | nil
  | node (value : α) (children rest : Forest α)
  deriving DecidableEq, Repr

namespace Forest

variable {α : Type u} {β : Type v} {γ : Type w}

@[simp] def append : Forest α → Forest α → Forest α
  | nil, other => other
  | node value children rest, other => node value children (rest.append other)

@[simp] def flatten : Forest α → List α
  | nil => []
  | node value children rest => value :: (children.flatten ++ rest.flatten)

@[simp] def roots : Forest α → List α
  | nil => []
  | node value _ rest => value :: rest.roots

@[simp] def map (f : α → β) : Forest α → Forest β
  | nil => nil
  | node value children rest => node (f value) (children.map f) (rest.map f)

@[simp] def mapRoots (f : α → α) : Forest α → Forest α
  | nil => nil
  | node value children rest => node (f value) children (rest.mapRoots f)

def graft (selected : α → Bool) : Forest α → Forest α → Forest α
  | nil, _ => nil
  | node value children rest, scion =>
    if selected value then scion.append (rest.graft selected scion)
    else node value (children.graft selected scion) (rest.graft selected scion)

def cut (selected : α → Bool) : Forest α → Forest α
  | nil => nil
  | node value children rest => node value (if selected value then nil else children.cut selected) (rest.cut selected)

section

variable {selected other : α → Bool} {scion forest : Forest α} {f : α → α} {value : α}

theorem append_assoc (first second third : Forest α) : (first.append second).append third =
    first.append (second.append third) := by
  induction first with
  | nil => rfl
  | node value children rest _ ih => rw [append, append, append, ih]

variable (first second : Forest α)

@[simp] theorem flatten_append : (first.append second).flatten = first.flatten ++ second.flatten := by
  induction first with
  | nil => rfl
  | node value children rest _ ih => simp [ih]

@[simp] theorem flatten_map (f : α → β) (forest : Forest α) : (forest.map f).flatten = forest.flatten.map f := by
  induction forest with
  | nil => rfl
  | node value children rest below after => simp [below, after]

theorem map_append (f : α → β) (first second : Forest α) : (first.append second).map f =
    (first.map f).append (second.map f) := by
  induction first with
  | nil => rfl
  | node value children rest _ ih => simp [ih]

theorem map_map (f : α → β) (g : β → γ) (forest : Forest α) : (forest.map f).map g = forest.map (g ∘ f) := by
  induction forest with
  | nil => rfl
  | node value children rest below after => simp [below, after]

theorem forall_mem_node {p : α → Prop} {children rest : Forest α} : (∀ other ∈ (node value children rest).flatten, p other) ↔
    p value ∧ (∀ other ∈ children.flatten, p other) ∧ ∀ other ∈ rest.flatten, p other := by
  simp [or_imp, forall_and]

theorem map_congr {f g : α → β} (same : ∀ value ∈ forest.flatten, f value = g value) : forest.map f = forest.map g := by
  induction forest with
  | nil => rfl
  | node value children rest below after =>
    obtain ⟨here, lower, later⟩ := forall_mem_node.mp same
    rw [map, map, here, below lower, after later]

theorem map_id (forest : Forest α) : forest.map id = forest := by
  induction forest with
  | nil => rfl
  | node value children rest below after => rw [map, below, after, id]

theorem map_eq_self (same : ∀ value ∈ forest.flatten, f value = value) : forest.map f = forest :=
  (map_congr same).trans (map_id forest)

open List

theorem mem_flatten_of_mem_roots (member : value ∈ forest.roots) : value ∈ forest.flatten := by
  induction forest with
  | nil => cases member
  | node root children rest _ ih =>
    cases mem_cons.mp member with
    | inl here => simp [here]
    | inr later => simp [ih later]

theorem roots_mapRoots (f : α → α) (forest : Forest α) : (forest.mapRoots f).roots = forest.roots.map f := by
  induction forest with
  | nil => rfl
  | node value children rest _ ih => simp [ih]

theorem mem_flatten_mapRoots (member : value ∈ (forest.mapRoots f).flatten) :
    value ∈ forest.flatten ∨ ∃ root ∈ forest.roots, f root = value := by
  induction forest with
  | nil => cases member
  | node root children rest _ ih =>
    rw [mapRoots, flatten, mem_cons, mem_append] at member
    obtain here | below | later := member
    · exact .inr ⟨root, by simp, here.symm⟩
    · exact .inl (by simp [below])
    · exact (ih later).imp (fun member => by simp [member]) fun ⟨root, member, same⟩ => ⟨root, by simp [member], same⟩

theorem map_key_mapRoots {κ : Type*} {key : α → κ} (kept : ∀ value, key (f value) = key value)
    (forest : Forest α) : (forest.mapRoots f).flatten.map key = forest.flatten.map key := by
  induction forest with
  | nil => rfl
  | node value children rest _ ih => simp [kept, ih]

theorem graft_append :
    (first.append second).graft selected scion = (first.graft selected scion).append (second.graft selected scion) := by
  induction first with
  | nil => rfl
  | node value children rest _ ih =>
    rw [append, graft, graft, ih]
    split
    · rw [append_assoc]
    · rfl

theorem graft_of_absent (absent : ∀ value ∈ forest.flatten, selected value = false) : forest.graft selected scion = forest := by
  induction forest with
  | nil => rfl
  | node value children rest below after =>
    obtain ⟨here, lower, later⟩ := forall_mem_node.mp absent
    rw [graft, here, below lower, after later]
    rfl

theorem graft_map {f : α → β} {chosen : β → Bool} (kept : ∀ value, chosen (f value) = selected value) :
    (forest.map f).graft chosen (scion.map f) = (forest.graft selected scion).map f := by
  induction forest with
  | nil => rfl
  | node value children rest below after =>
    rw [map, graft, graft, kept, below, after]
    split
    · rw [map_append]
    · rfl

theorem graft_comm {otherScion : Forest α} (apart : ∀ value, selected value = true → other value = false)
    (clean : ∀ value ∈ scion.flatten, other value = false) (otherClean : ∀ value ∈ otherScion.flatten, selected value = false) :
    (forest.graft selected scion).graft other otherScion = (forest.graft other otherScion).graft selected scion := by
  induction forest with
  | nil => rfl
  | node value children rest below after =>
    cases here : selected value with
    | true =>
      rw [graft, if_pos here, graft_append, after, graft_of_absent clean, graft,
        if_neg (by simp [apart value here]), graft, if_pos here]
    | false =>
      cases there : other value with
      | true =>
        rw [graft, here, if_neg Bool.false_ne_true, graft, if_pos there, after, graft, if_pos there,
          graft_append, graft_of_absent otherClean]
      | false =>
        rw [graft, here, if_neg Bool.false_ne_true, graft, there, if_neg Bool.false_ne_true, below,
          after, graft, there, if_neg Bool.false_ne_true, graft, here, if_neg Bool.false_ne_true]

theorem mem_flatten_graft : value ∈ (forest.graft selected scion).flatten ↔
    (value ∈ (forest.cut selected).flatten ∧ selected value = false) ∨
      (value ∈ scion.flatten ∧ ∃ root ∈ (forest.cut selected).flatten, selected root = true) := by
  induction forest with
  | nil => simp [graft, cut]
  | node root children rest below after =>
    cases here : selected root with
    | true =>
      have notHere : value = root → ¬selected value = false := by
        rintro rfl
        simp [here]
      simp only [graft, cut, here, if_true, flatten_append, mem_append, after, flatten, nil_append, mem_cons]
      constructor
      · rintro (new | ⟨kept, free⟩ | ⟨new, at_, member, chosen⟩)
        · exact .inr ⟨new, root, .inl rfl, here⟩
        · exact .inl ⟨.inr kept, free⟩
        · exact .inr ⟨new, at_, .inr member, chosen⟩
      · rintro (⟨rfl | kept, free⟩ | ⟨new, _⟩)
        · exact absurd free (notHere rfl)
        · exact .inr (.inl ⟨kept, free⟩)
        · exact .inl new
    | false =>
      simp only [graft, cut, here, Bool.false_eq_true, if_false, flatten, mem_cons, mem_append, below, after]
      constructor
      · rintro (rfl | (⟨kept, free⟩ | ⟨new, at_, member, chosen⟩) | ⟨kept, free⟩ | ⟨new, at_, member, chosen⟩)
        · exact .inl ⟨.inl rfl, here⟩
        · exact .inl ⟨.inr (.inl kept), free⟩
        · exact .inr ⟨new, at_, .inr (.inl member), chosen⟩
        · exact .inl ⟨.inr (.inr kept), free⟩
        · exact .inr ⟨new, at_, .inr (.inr member), chosen⟩
      · rintro (⟨rfl | kept | kept, free⟩ | ⟨new, at_, rfl | member | member, chosen⟩)
        · exact .inl rfl
        · exact .inr (.inl (.inl ⟨kept, free⟩))
        · exact .inr (.inr (.inl ⟨kept, free⟩))
        · exact absurd (here.symm.trans chosen) Bool.false_ne_true
        · exact .inr (.inl (.inr ⟨new, at_, member, chosen⟩))
        · exact .inr (.inr (.inr ⟨new, at_, member, chosen⟩))

theorem cut_of_absent (absent : ∀ value ∈ forest.flatten, selected value = false) : forest.cut selected = forest := by
  induction forest with
  | nil => rfl
  | node value children rest below after =>
    obtain ⟨here, lower, later⟩ := forall_mem_node.mp absent
    rw [cut, here, if_neg Bool.false_ne_true, below lower, after later]

theorem cut_append :
    (first.append second).cut selected = (first.cut selected).append (second.cut selected) := by
  induction first with
  | nil => rfl
  | node value children rest _ ih => simp [cut, ih]

theorem cut_map {f : α → β} {chosen : β → Bool} (kept : ∀ value, chosen (f value) = selected value) :
    (forest.map f).cut chosen = (forest.cut selected).map f := by
  induction forest with
  | nil => rfl
  | node value children rest below after =>
    rw [map, cut, cut, kept, below, after]
    split <;> rfl

theorem mem_flatten_of_mem_cut (member : value ∈ (forest.cut selected).flatten) : value ∈ forest.flatten := by
  induction forest with
  | nil => exact member
  | node root children rest below after =>
    rw [cut, flatten, mem_cons, mem_append] at member
    obtain here | lower | later := member
    · simp [here]
    · split at lower
      · cases lower
      · simp [below lower]
    · simp [after later]

theorem cut_cut (weaker : ∀ value, other value = true → selected value = true) :
    (forest.cut selected).cut other = forest.cut selected := by
  induction forest with
  | nil => rfl
  | node value children rest below after =>
    rw [cut, cut, after]
    cases here : selected value with
    | true => rw [if_pos rfl, cut, ite_self]
    | false =>
      have free : other value = false := by
        by_contra chosen
        exact Bool.false_ne_true (here.symm.trans (weaker value (by simpa using chosen)))
      rw [free, if_neg Bool.false_ne_true, if_neg Bool.false_ne_true, below]

/-- What is below selected roots plays no part in a graft at one of them: the forest may be cut
first, unless the scion holds selected roots itself. -/
theorem cut_graft {every : α → Bool} (split : ∀ value, every value = (selected value || other value))
    (clean : (∃ root ∈ (forest.cut every).flatten, other root = true) → ∀ value ∈ scion.flatten, selected value = false) :
    (forest.graft other scion).cut selected = (forest.cut every).graft other scion := by
  induction forest with
  | nil => rfl
  | node value children rest below after =>
    have later := after fun ⟨root, member, chosen⟩ => clean ⟨root, by simp [cut, member], chosen⟩
    cases here : other value with
    | true =>
      have fresh := clean ⟨value, by simp [cut], here⟩
      rw [graft, if_pos here, cut_append, cut_of_absent fresh, later, cut, graft, if_pos here]
    | false =>
      rw [graft, here, if_neg Bool.false_ne_true, cut, later, cut, graft, here,
        if_neg Bool.false_ne_true, split value, here, Bool.or_false]
      cases chosen : selected value with
      | true => rw [if_pos rfl, if_pos rfl, graft]
      | false =>
        rw [if_neg Bool.false_ne_true, if_neg Bool.false_ne_true, below fun ⟨root, member, chosenRoot⟩ => ?_]
        refine clean ⟨root, ?_, chosenRoot⟩
        rw [cut, split value, here, chosen]
        simp [member]

end

end Forest

end Beads
