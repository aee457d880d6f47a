import Beads.Data.Text
import Beads.Pagination.Authority

/-! `ResolvePartialID` takes what a user typed for an id: a whole id, one without its prefix, or the
first characters of its hash. -/

namespace Beads.Resolve

abbrev Spelling := List Char

inductive ConfigKey where
  | issuePrefix
  | allowedPrefixes
  deriving DecidableEq, Repr

/-- `getAllConfig` is there when the store can enumerate its settings and the read succeeds. -/
structure PartialIdResolverStore where
  exactIdLookupOnly : Bool := false
  searchIssues : (id : Spelling) → Except String (List Spelling)
  searchIssueIds : (query : Spelling) → (ephemeral : Bool) → Except String (List Spelling)
  getConfig : ConfigKey → Except String Spelling
  getAllConfig : Option (ConfigKey → Spelling) := none

inductive ResolveError where
  | empty
  | missingValue (input : Spelling)
  | noStore (input : Spelling)
  | lookup (cause : String)
  | search (cause : String)
  | notFound (input : Spelling)
  | exactNotFound (input : Spelling)
  | abbreviated (input : Spelling) (candidates : List Spelling)
  | ambiguous (input : Spelling) (candidates : List Spelling)
  deriving DecidableEq, Repr

variable (text : Spelling)

def trimSpace : Spelling := ((text.dropWhile isSpace).reverse.dropWhile isSpace).reverse

def lowerAlnum (char : Char) : Bool := char.isLower || char.isDigit

/-- The place of the first hyphen is at most 8, which only a prefix of that many
characters can meet. -/
def looksLikePrefixedId (input : Spelling) : Bool :=
  let issuePrefix := input.takeWhile (· != '-')
  let suffix := (input.dropWhile (· != '-')).drop 1
  input.contains '-' && 0 < issuePrefix.length && issuePrefix.length ≤ 8 &&
    issuePrefix.all lowerAlnum && match suffix with
    | [] => false
    | first :: _ => lowerAlnum first

def hasKnownPrefix (input : Spelling) (knownPrefixes : List Spelling) : Bool :=
  knownPrefixes.any fun known => known != [] && (known ++ ['-']).isPrefixOf input

def isNumeric : Bool := text != [] && text.all Char.isDigit

def isLikelyHash : Bool :=
  3 ≤ text.length && text.length ≤ 8 && text.all Char.isAlphanum && (text.length == 3 || text.any Char.isDigit)

/-- The heuristic: the last hyphen if a number or a hash follows it, otherwise the first. -/
def extractIssuePrefix (issueId : Spelling) : Spelling :=
  match Text.splitLast '-' issueId with
  | none => []
  | some ([], _) => []
  | some (before, []) => before
  | some (before, suffix) =>
    let base := suffix.takeWhile (· != '.')
    let base := if base = [] then suffix else base
    if isNumeric base || isLikelyHash base then before else issueId.takeWhile (· != '-')

/-- The longest of the known prefixes, the heuristic if there is none. Of two prefixes of one id the
longer has more characters and more bytes. -/
def extractIssuePrefixKnown (issueId : Spelling) (knownPrefixes : List Spelling) : Spelling :=
  let cleaned := (knownPrefixes.map fun known => Text.trimSuffix ['-'] (trimSpace known)).filter (· != [])
  let sorted := cleaned.insertionSort fun one other => other.length ≤ one.length
  (sorted.find? fun known => (known ++ ['-']).isPrefixOf issueId).getD (extractIssuePrefix issueId)

def issueHash (knownPrefixes : List Spelling) (id : Spelling) : Spelling :=
  let found := extractIssuePrefixKnown id knownPrefixes
  if found ≠ [] ∧ (found ++ ['-']).isPrefixOf id then id.drop (found.length + 1) else id

def wispHash (knownPrefixes : List Spelling) (id : Spelling) : Spelling :=
  Text.trimPrefix "wisp-".toList (issueHash knownPrefixes id)

structure PrefixConfig where
  issuePrefix : Spelling
  allowed : Spelling

variable (store : PartialIdResolverStore)

def pointRead (key : ConfigKey) : Spelling := (store.getConfig key).toOption.getD []

def exactOnlyPrefixConfig : PrefixConfig :=
  match store.getAllConfig with
  | some values => ⟨values .issuePrefix, values .allowedPrefixes⟩
  | none => ⟨pointRead store .issuePrefix, pointRead store .allowedPrefixes⟩

def prefixConfig : PrefixConfig :=
  if store.exactIdLookupOnly then exactOnlyPrefixConfig store
    else ⟨pointRead store .issuePrefix, pointRead store .allowedPrefixes⟩

namespace PrefixConfig

variable (config : PrefixConfig)

def configured : Spelling := if config.issuePrefix = [] then "bd".toList else config.issuePrefix

def prefixWithHyphen : Spelling :=
  if ['-'].isSuffixOf config.configured then config.configured else config.configured ++ ['-']

def knownPrefixes : List Spelling :=
  Text.trimSuffix ['-'] config.configured ::
    if config.allowed = [] then []
    else ((config.allowed.splitOn ',').map fun known => Text.trimSuffix ['-'] (trimSpace known)).filter (· != [])

def normalizedId (input : Spelling) : Spelling :=
  if config.prefixWithHyphen.isPrefixOf input then input
  else if hasKnownPrefix input config.knownPrefixes then input
  else if looksLikePrefixedId input then input
  else config.prefixWithHyphen ++ input

def hashPart (input : Spelling) : Spelling :=
  Text.trimPrefix config.prefixWithHyphen (config.normalizedId input)

end PrefixConfig

def looksLikePartialIdHash (input : Spelling) : Bool :=
  input != [] && input.all fun char => char.isAlphanum || char == '-' || char == '.'

def partialIdSearchPart (hashPart : Spelling) : Option Spelling :=
  if looksLikePartialIdHash hashPart then
    match Text.splitLast '-' hashPart with
    | some (_, suffix) => if suffix ≠ [] ∧ looksLikePartialIdHash suffix then some suffix else some hashPart
    | none => some hashPart
  else none

structure Candidates where
  exactMatch : Option Spelling := none
  matched : List Spelling := []
  abbrevOnly : List Spelling := []

/-- The loop over the ids found: of several exact matches the last one stays, and the id itself ends
the loop. -/
def collect (input : Spelling) (equal starts : Spelling → Bool) (allowAbbrev : Bool) : Candidates → List Spelling → Candidates
  | found, [] => found
  | found, id :: rest =>
    if id = input then { found with exactMatch := some id }
    else if equal id then collect input equal starts allowAbbrev { found with exactMatch := some id } rest
    else if starts id then
      collect input equal starts allowAbbrev
        (if allowAbbrev then { found with matched := found.matched ++ [id] }
          else { found with abbrevOnly := found.abbrevOnly ++ [id] }) rest
    else collect input equal starts allowAbbrev found rest

variable (knownPrefixes : List Spelling)

def collectIssues (input hashPart : Spelling) : (allowAbbrev : Bool) → Candidates → List Spelling → Candidates :=
  collect input (fun id => issueHash knownPrefixes id == hashPart) (fun id => hashPart.isPrefixOf (issueHash knownPrefixes id))

def collectWisps (input hashPart : Spelling) : (allowAbbrev : Bool) → Candidates → List Spelling → Candidates :=
  collect input (fun id => issueHash knownPrefixes id == hashPart || wispHash knownPrefixes id == hashPart)
    (fun id => hashPart.isPrefixOf (wispHash knownPrefixes id))

def sortIds (ids : List Spelling) : List Spelling := ids.insertionSort (· ≤ ·)

def settle (input : Spelling) (allowAbbrev : Bool) (found : Candidates) : Except ResolveError Spelling :=
  match found.matched with
  | [] => .error (if !allowAbbrev && found.abbrevOnly != [] then
    .abbreviated input (sortIds found.abbrevOnly) else .notFound input)
  | [only] => .ok only
  | several => .error (.ambiguous input (sortIds several))

/-- The search among the wisps is made only when nothing has matched, and its failure is not
reported. -/
def searchWisps (input hashPart searchPart : Spelling) (allowAbbrev : Bool)
    (found : Candidates) : Candidates :=
  if found.matched = [] then
    match store.searchIssueIds searchPart true with
    | .ok wispIds => collectWisps knownPrefixes input hashPart allowAbbrev found wispIds
    | .error _ => found
  else found

def searchCandidates (config : PrefixConfig) (input : Spelling) (allowAbbrev : Bool) :
    Except ResolveError Spelling :=
  match partialIdSearchPart (config.hashPart input) with
  | none => .error (.notFound input)
  | some searchPart =>
    match store.searchIssueIds searchPart false with
    | .error cause => .error (.search cause)
    | .ok ids =>
      let found := collectIssues config.knownPrefixes input (config.hashPart input) allowAbbrev {} ids
      match found.exactMatch with
      | some id => .ok id
      | none =>
        let found := searchWisps store config.knownPrefixes input (config.hashPart input) searchPart allowAbbrev found
        match found.exactMatch with
        | some id => .ok id
        | none => settle input allowAbbrev found

def lookup (id : Spelling) : Option Spelling :=
  match store.searchIssues id with
  | .ok (found :: _) => some found
  | _ => none

def resolveByPrefix (input : Spelling) (allowAbbrev : Bool) : Except ResolveError Spelling :=
  let config := prefixConfig store
  match lookup store input with
  | some id => .ok id
  | none =>
    match if config.normalizedId input ≠ input then lookup store (config.normalizedId input) else none with
    | some id => .ok id
    | none => searchCandidates store config input allowAbbrev

def resolveExactIdOnly (input : Spelling) : Except ResolveError Spelling :=
  match store.searchIssues input with
  | .error cause => .error (.lookup cause)
  | .ok (id :: _) => .ok id
  | .ok [] =>
    let config := prefixConfig store
    if !looksLikePrefixedId input && !config.prefixWithHyphen.isPrefixOf input && !hasKnownPrefix input config.knownPrefixes then
      match store.searchIssues (config.prefixWithHyphen ++ input) with
      | .error cause => .error (.lookup cause)
      | .ok (id :: _) => .ok id
      | .ok [] => .error (.exactNotFound input)
    else .error (.exactNotFound input)

def sentinels : List Spelling := ["null".toList, "undefined".toList, "none".toList, "nil".toList]

/-- Named, so that membership tests share one proof. -/
scoped instance lawful_spelling : LawfulBEq Spelling := inferInstance

/-- `lower` is the lower case of a character. -/
def resolvePartialId (lower : Char → Char) (store : Option PartialIdResolverStore)
    (input : Spelling) (allowAbbrev : Bool) : Except ResolveError Spelling :=
  let token := (trimSpace input).map lower
  if token = [] then .error .empty
  else if token ∈ sentinels then .error (.missingValue input)
  else match store with
    | none => .error (.noStore input)
    | some store => if store.exactIdLookupOnly then resolveExactIdOnly store input else resolveByPrefix store input allowAbbrev

end Beads.Resolve
