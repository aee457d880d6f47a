import Mathlib

namespace SnapshotTransactions

/-- States, tasks, the effects of running them, and the cells that effects write. -/
structure Protocol (σ τ ε κ : Type) where
  execute : τ → σ → Option ε
  install : ε → σ → σ
  cells : ε → List κ
  clash : κ → κ → Bool
  followUp : ε → List τ

/-- A running task with its snapshot and the number of commits that the snapshot has seen. -/
structure Transaction (σ τ : Type) where
  task : τ
  snapshot : σ
  since : Nat

structure System (σ τ κ : Type) where
  head : σ
  waiting : List τ
  running : List (Transaction σ τ) := []
  log : List (List κ) := []

inductive Action where
  | begin (index : Nat)
  | commit (index : Nat)
  deriving DecidableEq, Repr

variable {σ τ ε κ : Type}

namespace System

def begin (system : System σ τ κ) (index : Nat) (task : τ) : System σ τ κ :=
  { system with
    waiting := system.waiting.eraseIdx index
    running := system.running ++ [⟨task, system.head, system.log.length⟩] }

def retry (system : System σ τ κ) (index : Nat) (task : τ) : System σ τ κ :=
  { system with
    waiting := system.waiting ++ [task]
    running := system.running.eraseIdx index }

section

variable (protocol : Protocol σ τ ε κ)

variable (system : System σ τ κ)

def commit (index : Nat) (effect : ε) : System σ τ κ where
  head := protocol.install effect system.head
  waiting := system.waiting ++ protocol.followUp effect
  running := system.running.eraseIdx index
  log := system.log ++ [protocol.cells effect]

/-- A commit since the snapshot wrote a cell that clashes with one of the effect's. -/
def conflicts (since : Nat) (effect : ε) : Bool :=
  (system.log.drop since).any fun written => written.any fun theirs =>
    (protocol.cells effect).any fun ours => protocol.clash ours theirs

def step : Action → Option (System σ τ κ)
  | .begin index => do
      let task ← system.waiting[index]?
      return system.begin index task
  | .commit index => do
      let transaction ← system.running[index]?
      let effect ← protocol.execute transaction.task transaction.snapshot
      return if system.conflicts protocol transaction.since effect then system.retry index transaction.task
        else system.commit protocol index effect

end

inductive Run (protocol : Protocol σ τ ε κ) (allowed : System σ τ κ → Action → Prop) :
    System σ τ κ → List Action → System σ τ κ → Prop where
  | done {system : System σ τ κ} : Run protocol allowed system [] system
  | next {system middle final : System σ τ κ} {action : Action} {rest : List Action} (permitted : allowed system action)
      (stepped : system.step protocol action = some middle) (further : Run protocol allowed middle rest final) :
      Run protocol allowed system (action :: rest) final

def Finished (system : System σ τ κ) : Prop := system.waiting = [] ∧ system.running = []

variable {protocol : Protocol σ τ ε κ} {system next : System σ τ κ} {allowed : System σ τ κ → Action → Prop}

theorem step_begin {index : Nat} (stepped : system.step protocol (.begin index) = some next) :
    ∃ task, system.waiting[index]? = some task ∧ next = system.begin index task := by
  obtain ⟨task, found, same⟩ := Option.bind_eq_some_iff.mp stepped
  exact ⟨task, found, (Option.some.inj same).symm⟩

theorem step_commit {index : Nat} (stepped : system.step protocol (.commit index) = some next) :
    ∃ transaction effect, system.running[index]? = some transaction ∧
      protocol.execute transaction.task transaction.snapshot = some effect ∧
      (system.conflicts protocol transaction.since effect = true ∧ next = system.retry index transaction.task ∨
        system.conflicts protocol transaction.since effect = false ∧ next = system.commit protocol index effect) := by
  obtain ⟨transaction, found, rest⟩ := Option.bind_eq_some_iff.mp stepped
  obtain ⟨effect, executed, same⟩ := Option.bind_eq_some_iff.mp rest
  refine ⟨transaction, effect, found, executed, ?_⟩
  have final := (Option.some.inj same).symm
  cases clashing : system.conflicts protocol transaction.since effect with
  | true => exact .inl ⟨rfl, by rw [final, clashing]; rfl⟩
  | false => exact .inr ⟨rfl, by rw [final, clashing]; rfl⟩

theorem Run.of_steps {actions : List Action} (taken : actions.foldlM (step protocol) system = some next) :
    Run protocol (fun _ _ => True) system actions next := by
  induction actions generalizing system with
  | nil => exact Option.some.inj taken ▸ .done
  | cons action rest ih =>
    obtain ⟨middle, stepped, further⟩ := Option.bind_eq_some_iff.mp taken
    exact .next trivial stepped (ih further)

theorem Run.preserves {holds : System σ τ κ → Prop} {actions : List Action}
    (each : ∀ system action next, holds system → allowed system action → system.step protocol action = some next → holds next)
    (ran : Run protocol allowed system actions next) (start : holds system) : holds next := by
  induction ran with
  | done => exact start
  | next permitted stepped _ ih => exact ih (each _ _ _ start permitted stepped)

def tasks (system : System σ τ κ) : List τ := system.waiting ++ system.running.map Transaction.task

variable {index : Nat} {task : τ} {transaction : Transaction σ τ}

open List

theorem perm_of_found {α : Type} {items : List α} {item : α} (found : items[index]? = some item) :
    (item :: items.eraseIdx index).Perm items := by
  obtain ⟨inside, rfl⟩ := List.getElem?_eq_some_iff.mp found
  exact getElem_cons_eraseIdx_perm inside

theorem mem_of_found {α : Type} {items : List α} {item other : α} (found : items[index]? = some item) :
    other ∈ items ↔ other = item ∨ other ∈ items.eraseIdx index := by
  rw [← (perm_of_found found).mem_iff, mem_cons]

theorem mem_tasks_begin (found : system.waiting[index]? = some task) (other : τ) :
    other ∈ (system.begin index task).tasks ↔ other ∈ system.tasks := by
  simp only [tasks, begin, mem_append, mem_of_found found, map_append, map_cons, map_nil, mem_singleton]
  tauto

theorem mem_tasks_retry (found : system.running[index]? = some transaction) (other : τ) :
    other ∈ (system.retry index transaction.task).tasks ↔ other ∈ system.tasks := by
  simp only [tasks, retry, mem_append, mem_map, mem_of_found found, mem_singleton, or_and_right,
    exists_or, exists_eq_left]
  tauto

variable {effect : ε} {action : Action}

theorem mem_tasks_commit (found : system.running[index]? = some transaction) {other : τ}
    (member : other ∈ system.tasks) : other = transaction.task ∨ other ∈ (system.commit protocol index effect).tasks := by
  simp only [tasks, mem_append, mem_map, mem_of_found found, or_and_right, exists_or, exists_eq_left] at member
  simp only [tasks, commit, mem_append, mem_map]
  tauto

theorem mem_tasks_of_step (alone : ∀ effect, protocol.followUp effect = [])
    (stepped : system.step protocol action = some next) {other : τ} (member : other ∈ next.tasks) : other ∈ system.tasks := by
  cases action with
  | begin index =>
    obtain ⟨task, found, rfl⟩ := step_begin stepped
    exact (mem_tasks_begin found other).mp member
  | commit index =>
    obtain ⟨transaction, effect, found, _, ⟨_, rfl⟩ | ⟨_, rfl⟩⟩ := step_commit stepped
    · exact (mem_tasks_retry found other).mp member
    · simp only [tasks, commit, alone, append_nil, mem_append, mem_map] at member
      simp only [tasks, mem_append, mem_map, mem_of_found found]
      exact member.imp_right fun ⟨running, listed, same⟩ => ⟨running, .inr listed, same⟩

theorem Finished.tasks (finished : system.Finished) : system.tasks = [] := by
  rw [System.tasks, finished.1, finished.2]
  rfl

def committed (protocol : Protocol σ τ ε κ) (system : System σ τ κ) : Action → Option (Transaction σ τ × ε)
  | .begin _ => none
  | .commit index => do
      let transaction ← system.running[index]?
      let effect ← protocol.execute transaction.task transaction.snapshot
      if system.conflicts protocol transaction.since effect then none else some (transaction, effect)

theorem committed_eq_some (taken : system.committed protocol action = some (transaction, effect)) :
    transaction ∈ system.running ∧ protocol.execute transaction.task transaction.snapshot =
      some effect ∧ system.conflicts protocol transaction.since effect = false := by
  cases action with
  | begin index => cases taken
  | commit index =>
    obtain ⟨other, found, rest⟩ := Option.bind_eq_some_iff.mp taken
    obtain ⟨result, executed, last⟩ := Option.bind_eq_some_iff.mp rest
    split at last
    · cases last
    · rename_i free
      obtain ⟨rfl, rfl⟩ := Prod.mk.inj (Option.some.inj last)
      exact ⟨mem_of_getElem? found, executed, (Bool.not_eq_true _).mp free⟩

theorem head_of_step (stepped : system.step protocol action = some next) :
    system.committed protocol action = none ∧ next.head = system.head ∨
      ∃ transaction effect, system.committed protocol action = some (transaction, effect) ∧
        next.head = protocol.install effect system.head := by
  cases action with
  | begin index =>
    obtain ⟨task, _, rfl⟩ := step_begin stepped
    exact .inl ⟨rfl, rfl⟩
  | commit index =>
    obtain ⟨transaction, effect, found, executed, ⟨clashing, rfl⟩ | ⟨free, rfl⟩⟩ := step_commit stepped
    · exact .inl ⟨by simp [committed, found, executed, clashing], rfl⟩
    · exact .inr ⟨transaction, effect, by simp [committed, found, executed, free], rfl⟩

def Unwritten (protocol : Protocol σ τ ε κ) (system : System σ τ κ) (since : Nat) (cell : κ) : Prop :=
  ∀ written ∈ system.log.drop since, ∀ theirs ∈ written, protocol.clash cell theirs = false

/-- As long as the cell is unwritten, a snapshot is the same as the head in what
the cell stands for. -/
def Agreeing (protocol : Protocol σ τ ε κ) (cell : κ) (same : σ → σ → Prop) (system : System σ τ κ) : Prop :=
  ∀ transaction ∈ system.running, transaction.since ≤ system.log.length ∧
    (system.Unwritten protocol transaction.since cell → same transaction.snapshot system.head)

theorem unwritten_of_not_conflicts {since : Nat} {cell : κ} (free : system.conflicts protocol since effect = false)
    (own : cell ∈ protocol.cells effect) : system.Unwritten protocol since cell := by
  intro written member theirs listed
  simp only [conflicts, any_eq_false, any_eq_true, not_exists, not_and] at free
  exact (Bool.not_eq_true _).mp (free written member theirs listed cell own)

theorem Agreeing.step {cell : κ} {same : σ → σ → Prop} (reflexive : ∀ state, same state state)
    (transitive : ∀ {one two three}, same one two → same two three → same one three)
    (frame : ∀ transaction ∈ system.running, ∀ effect state,
      protocol.execute transaction.task transaction.snapshot = some effect →
      (∀ theirs ∈ protocol.cells effect, protocol.clash cell theirs = false) → same state
    (protocol.install effect state)) (agreeing : system.Agreeing protocol cell same) (stepped :
    system.step protocol action = some next) : next.Agreeing protocol cell same := by
  cases action with
  | begin index =>
    obtain ⟨task, _, rfl⟩ := step_begin stepped
    intro transaction member
    cases mem_append.mp member with
    | inl old => exact agreeing transaction old
    | inr new =>
      rw [mem_singleton.mp new]
      exact ⟨Nat.le_refl _, fun _ => reflexive _⟩
  | commit index =>
    obtain ⟨committing, effect, found, executed, ⟨_, rfl⟩ | ⟨_, rfl⟩⟩ := step_commit stepped
    · exact fun transaction member => agreeing transaction ((mem_of_found found).mpr (.inr member))
    · intro transaction member
      obtain ⟨early, agrees⟩ := agreeing transaction ((mem_of_found found).mpr (.inr member))
      have split : (system.log ++ [protocol.cells effect]).drop transaction.since =
          system.log.drop transaction.since ++ [protocol.cells effect] := drop_append_of_le_length early
      have longer : system.log.length ≤ (system.log ++ [protocol.cells effect]).length := by
        rw [length_append]
        exact Nat.le_add_right _ _
      refine ⟨Nat.le_trans early longer, fun unwritten => ?_⟩
      have before : system.Unwritten protocol transaction.since cell := fun written listed =>
        unwritten written (split ▸ mem_append_left _ listed)
      have now := unwritten (protocol.cells effect) (split ▸ mem_append_right _ (.head _))
      exact transitive (agrees before) (frame committing ((mem_of_found found).mpr (.inl rfl)) effect _ executed now)

end System

end SnapshotTransactions
