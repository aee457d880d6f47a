import Mathlib

/-! Issues and wisps live in two tables of one shape, and each table has its own dependency table.
The model keeps the columns that scheduling reads: ids, statuses, typed dependency rows with their
metadata and thread, and the denormalized `is_blocked` column. -/

namespace Beads

abbrev Id := String

/-- The two planes of the store: `issues` with `dependencies`, `wisps` with `wisp_dependencies`. -/
inductive Plane where
  | issue
  | wisp
  deriving DecidableEq, Repr

instance {holds : Plane → Prop} [DecidablePred holds] : Decidable (∀ plane, holds plane) :=
  decidable_of_iff (holds .issue ∧ holds .wisp)
    ⟨fun both plane => by cases plane; exacts [both.1, both.2], fun all => ⟨all .issue, all .wisp⟩⟩

/-- The source's `parentRef`: the two id spaces are kept apart rather than
trusted not to collide. -/
structure ItemRef where
  plane : Plane
  id : Id
  deriving DecidableEq, Repr

inductive Status where
  | opened
  | inProgress
  | blocked
  | deferred
  | closed
  | pinned
  | hooked
  | custom (name : String)
  deriving DecidableEq, Repr

/-- The SQL guard `status <> 'closed' AND status <> 'pinned'`. -/
def Status.active : Status → Bool
  | .closed => false
  | .pinned => false
  | _ => true

/-- Dependency types. Everything scheduling does not read (`related`, `tracks`, custom names, ...)
keeps its name in `other`. -/
inductive DependencyType where
  | blocks
  | conditionalBlocks
  | parentChild
  | waitsFor
  | other (name : String)
  deriving DecidableEq, Repr

def DependencyType.blocking : DependencyType → Bool
  | .blocks => true
  | .conditionalBlocks => true
  | _ => false

/-- A JSON value of an edge's metadata: a string, or any other value by its canonical text. -/
inductive JsonValue where
  | text (value : String)
  | raw (canonical : String)
  deriving DecidableEq, Repr

def JsonValue.unquote : JsonValue → String
  | .text value => value
  | .raw canonical => canonical

/-- The metadata object of a dependency row. Its member names are distinct, as canonical JSON
requires. -/
structure Metadata where
  members : List (String × JsonValue) := []
  distinct : (members.map Prod.fst).Nodup := by first | exact List.nodup_nil | decide
  deriving DecidableEq, Repr

/-- `JSON_EXTRACT(metadata, '$.key')`, unquoted; `none` is SQL's `NULL`. -/
def Metadata.extract (metadata : Metadata) (key : String) : Option String :=
  (metadata.members.lookup key).map JsonValue.unquote

/-- Canonical (RFC 8785) forms agree exactly when the members do, in whatever
order they are written. -/
def dependencyMetadataEqual (left right : Metadata) : Bool :=
  left.members.isPerm right.members

/-- The three typed target columns, of which a dependency row carries exactly one:
`depends_on_issue_id`, `depends_on_wisp_id` (an item of either plane) or `depends_on_external`. -/
inductive Target where
  | item (ref : ItemRef)
  | external (id : Id)
  deriving DecidableEq, Repr

/-- `COALESCE(depends_on_issue_id, depends_on_wisp_id, depends_on_external)`. -/
def Target.id : Target → Id
  | .item ref => ref.id
  | .external id => id

/-- `COALESCE(depends_on_issue_id, depends_on_wisp_id)`. -/
def Target.localId : Target → Option Id
  | .item ref => some ref.id
  | .external _ => none

/-- The typed target column of one plane; `none` is `NULL`. -/
def Target.column (plane : Plane) : Target → Option Id
  | .item ref => if ref.plane = plane then some ref.id else none
  | .external _ => none

structure Dependency where
  issueId : Id
  target : Target
  type : DependencyType
  metadata : Metadata := {}
  threadId : Option String := none
  deriving DecidableEq, Repr

def Dependency.key (row : Dependency) : Id × Id := (row.issueId, row.target.id)

structure Row where
  id : Id
  status : Status
  deriving DecidableEq, Repr

theorem keyed_nil (_ : Plane) : (([] : List Dependency).map Dependency.key).Nodup := List.nodup_nil

/-- The item and dependency tables of both planes, without the `is_blocked` column. -/
structure Tables where
  items : Plane → List Row
  dependencies : Plane → List Dependency
  itemsKeyed : ∀ plane, ((items plane).map Row.id).Nodup := by decide
  dependenciesKeyed : ∀ plane, ((dependencies plane).map Dependency.key).Nodup := by first | exact keyed_nil | decide

/-- The `is_blocked` column of both item tables. Only the bits of stored rows are ever read. -/
abbrev Bits := ItemRef → Bool

structure Store extends Tables where
  isBlocked : Bits

end Beads
