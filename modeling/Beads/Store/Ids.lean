import Beads.Store.Types

/-! An id with dots names a child: what stands before its last dot is the id of its parent. -/

namespace Beads

def splitLastDot : List Char → Option (List Char × List Char)
  | [] => none
  | char :: rest =>
    match splitLastDot rest with
    | some (before, after) => some (char :: before, after)
    | none => if char = '.' then some ([], rest) else none

/-- `IsDottedChildDependency`: an edge from a dotted child to one of its own prefixes, the
parent-child edge to its immediate parent apart. -/
def isDottedChildDependency (issueId dependsOnId : Id) (type : DependencyType) : Bool :=
  match splitLastDot issueId.toList with
  | none => false
  | some (parent, _) =>
    if dependsOnId == "" then false
    else if dependsOnId.toList != parent && !(dependsOnId.toList ++ ['.']).isPrefixOf issueId.toList then false
    else type != .parentChild || dependsOnId.toList != parent

end Beads
