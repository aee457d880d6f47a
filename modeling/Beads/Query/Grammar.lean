import Beads.Query.Parser
import Beads.Query.Tokens

/-! The parser accepts exactly the token lists that the grammar derives, with the tree of the
derivation, and neither the lexer nor the parser runs out of rounds. -/

namespace Beads.Query

inductive Level where
  | or | and | not | primary

inductive Derives : Level → Node → List Token → Prop where
  | comparison {field op value : Token} {comparison : ComparisonOp} (isField : field.type = .ident)
      (isOp : comparisonOp op.type = some comparison) (hasValue : isValue value.type = true) :
      Derives .primary (.comparison ⟨fieldName field.value, comparison, value.value, value.type⟩) [field, op, value]
  | parens {lParen rParen : Token} (opens : lParen.type = .lParen) (inside : Derives .or node tokens)
      (closes : rParen.type = .rParen) : Derives .primary node (lParen :: tokens ++ [rParen])
  | primary (derived : Derives .primary node tokens) : Derives .not node tokens
  | not {keyword : Token} (isNot : keyword.type = .not) (derived : Derives .not node tokens) :
      Derives .not (.not node) (keyword :: tokens)
  | operand (derived : Derives .not node tokens) : Derives .and node tokens
  | and {keyword : Token} (left : Derives .and one before) (isAnd : keyword.type = .and) (right : Derives .not other after) :
      Derives .and (.and one other) (before ++ keyword :: after)
  | conjunct (derived : Derives .and node tokens) : Derives .or node tokens
  | or {keyword : Token} (left : Derives .or one before) (isOr : keyword.type = .or) (right : Derives .and other after) :
      Derives .or (.or one other) (before ++ keyword :: after)

inductive Reads : Parser → List Token → Parser → Prop where
  | nil (p : Parser) : Reads p [] p
  | cons {p next last : Parser} (notEnd : p.current.type ≠ .eof) (moved : advance p.rest = .ok next)
      (rest : Reads next tokens last) : Reads p (p.current :: tokens) last

/-- What a loop derives: operands joined from the left. -/
inductive Joined (keyword : TokenType) (join : Node → Node → Node)
    (operand : Node → List Token → Prop) : Node → List Token → Prop where
  | single (derived : operand node tokens) : Joined keyword join operand node tokens
  | snoc {token : Token} (left : Joined keyword join operand one before) (isKeyword : token.type = keyword)
      (right : operand other after) : Joined keyword join operand (join one other) (before ++ token :: after)

def Parser.left (p : Parser) : Nat := if p.current.type = .eof then 0 else p.rest.length + 1

variable {node one other : Node} {tokens before after : List Token} {level : Level}
  {p next middle last : Parser} {result : Node × Parser}

theorem Reads.append (first : Reads p before middle) (second : Reads middle after last) : Reads p (before ++ after) last := by
  induction first with
  | nil p => exact second
  | cons notEnd moved rest ih => exact .cons notEnd moved (ih second)

theorem Reads.split (reads : Reads p (before ++ after) last) : ∃ middle, Reads p before middle ∧ Reads middle after last := by
  induction before generalizing p with
  | nil => exact ⟨p, .nil p, reads⟩
  | cons token before ih =>
    cases reads with
    | cons notEnd moved rest =>
      obtain ⟨middle, first, second⟩ := ih rest
      exact ⟨middle, .cons notEnd moved first, second⟩

theorem Reads.head {token : Token} (reads : Reads p (token :: tokens) last) :
    ∃ next, p.current = token ∧ advance p.rest = .ok next ∧ Reads next tokens last := by
  cases reads with
  | cons notEnd moved rest => exact ⟨_, rfl, moved, rest⟩

theorem advance_eq_ok {rest : Bytes} (moved : advance rest = .ok next) : nextToken rest = .ok (next.current, next.rest) := by
  rw [advance] at moved
  split at moved
  · cases moved
  · rename_i read
    cases moved
    exact read

theorem advance_never (rest : Bytes) : advance rest ≠ .error .exhausted := by
  rw [advance]
  split <;> exact nofun

theorem advance_left {rest : Bytes} (moved : advance rest = .ok next) : next.left ≤ rest.length := by
  rw [Parser.left]
  split
  · exact Nat.zero_le _
  · rename_i notEnd
    exact nextToken_consumes (advance_eq_ok moved) notEnd

theorem left_of_advance (notEnd : p.current.type ≠ .eof) (moved : advance p.rest = .ok next) : next.left < p.left := by
  have here : p.left = p.rest.length + 1 := if_neg notEnd
  exact here ▸ Nat.lt_succ_of_le (advance_left moved)

theorem Reads.left_le (reads : Reads p tokens last) : last.left ≤ p.left := by
  induction reads with
  | nil p => exact le_rfl
  | cons notEnd moved rest ih => exact ih.trans (left_of_advance notEnd moved).le

theorem left_lt_rounds (p : Parser) : p.left < p.rest.length + 2 := by
  rw [Parser.left]
  split <;> omega

/-- The token ahead does not continue the level. -/
def Stops : Level → Parser → Prop
  | .or, p => p.current.type ≠ .or ∧ p.current.type ≠ .and
  | .and, p => p.current.type ≠ .and
  | _, _ => True

/-- With less than so much left, the function returns the trees of its level, over the tokens that
derive them. -/
structure Implements (parse : Parser → Parse (Node × Parser)) (level : Level) (bound : Nat) : Prop where
  sound {p last : Parser} {node : Node} (small : p.left < bound) (parsed : parse p = .ok (node, last)) :
    ∃ tokens, Derives level node tokens ∧ Reads p tokens last
  complete {p last : Parser} {node : Node} {tokens : List Token} (small : p.left < bound) (derived : Derives level node tokens)
    (reads : Reads p tokens last) (stops : Stops level last) : parse p = .ok (node, last)
  total {p : Parser} (small : p.left < bound) : parse p ≠ .error .exhausted

theorem Implements.left_le {parse : Parser → Parse (Node × Parser)} {bound : Nat} (implements : Implements parse level bound)
    (small : p.left < bound) (parsed : parse p = .ok (node, last)) : last.left ≤ p.left := by
  obtain ⟨tokens, -, reads⟩ := implements.sound small parsed
  exact reads.left_le

theorem comparisonOp_ne_eof {type : TokenType} {op : ComparisonOp} (isOp : comparisonOp type = some op) : type ≠ .eof := by
  rintro rfl
  cases isOp

theorem isValue_ne_eof {type : TokenType} (value : isValue type = true) : type ≠ .eof := by
  rintro rfl
  cases value

open Fallible

theorem parseComparison_sound (parsed : parseComparison p = .ok (node, last)) :
    ∃ tokens, Derives .primary node tokens ∧ Reads p tokens last := by
  obtain ⟨isField, parsed⟩ := ite_error_eq_ok.mp parsed
  obtain ⟨atOp, movedOp, parsed⟩ := bind_eq_ok parsed
  split at parsed
  · cases parsed
  rename_i isOp
  obtain ⟨atValue, movedValue, parsed⟩ := bind_eq_ok parsed
  obtain ⟨value, parsed⟩ := else_error_eq_ok.mp parsed
  obtain ⟨after, movedAfter, ⟨⟩⟩ := bind_eq_ok parsed
  exact ⟨_, .comparison (not_not.mp isField) isOp value, .cons (by simp [not_not.mp isField]) movedOp
    (.cons (comparisonOp_ne_eof isOp) movedValue (.cons (isValue_ne_eof value) movedAfter (.nil _)))⟩

theorem parseComparison_complete {field op value : Token} {comparison : ComparisonOp}
    (isField : field.type = .ident) (isOp : comparisonOp op.type = some comparison)
    (hasValue : isValue value.type = true) (reads : Reads p [field, op, value] last) :
    parseComparison p = .ok (.comparison ⟨fieldName field.value, comparison, value.value, value.type⟩, last) := by
  obtain ⟨atOp, rfl, movedOp, reads⟩ := reads.head
  obtain ⟨atValue, rfl, movedValue, reads⟩ := reads.head
  obtain ⟨after, rfl, movedAfter, ⟨⟩⟩ := reads.head
  simp only [parseComparison, isField, ne_eq, not_true_eq_false, if_false, movedOp, bind,
    Except.bind, isOp, movedValue, hasValue, if_true, movedAfter]

theorem parseComparison_never (p : Parser) : parseComparison p ≠ .error .exhausted := by
  refine ite_never nofun (bind_never (advance_never _) fun atOp _ => ?_)
  split
  · exact nofun
  · exact bind_never (advance_never _) fun atValue _ =>
      ite_never (bind_never (advance_never _) nofun) nofun

section
variable {keyword : TokenType} {join : Node → Node → Node}
  {operand : Parser → Parse (Node × Parser)} {lower : Level} {bound rounds more : Nat}

def loop (keyword : TokenType) (join : Node → Node → Node)
    (operand : Parser → Parse (Node × Parser)) (left : Node) (p : Parser) : Parse (Node × Parser) :=
  joinLoop keyword join operand (p.rest.length + 2) left p

theorem loop_stops (stops : p.current.type ≠ keyword) : loop keyword join operand one p = .ok (one, p) := by
  rw [loop, joinLoop, if_neg stops]

section

variable (implements : Implements operand lower bound)
include implements

section

variable (notEof : keyword ≠ .eof) (small : p.left ≤ bound)
include notEof small

theorem joinLoop_rounds (enough : p.left < rounds) (enoughToo : p.left < more) :
    joinLoop keyword join operand rounds one p = joinLoop keyword join operand more one p := by
  induction rounds generalizing more one p with
  | zero => omega
  | succ rounds ih =>
    obtain ⟨more, rfl⟩ := Nat.exists_eq_add_of_lt enoughToo
    rw [joinLoop, joinLoop]
    split
    · rename_i isKeyword
      cases moved : advance p.rest with
      | error failure => rfl
      | ok next =>
        have moves := left_of_advance (by rwa [isKeyword]) moved
        rw [ok_bind, ok_bind]
        cases parsed : operand next with
        | error failure => rfl
        | ok found =>
          have fewer := implements.left_le (by omega) parsed
          exact ih (by omega) (by omega) (by omega)
    · rfl

theorem loop_next
    (isKeyword : p.current.type = keyword) (moved : advance p.rest = .ok next) (parsed : operand next = .ok (other, middle)) :
    loop keyword join operand one p = loop keyword join operand (join one other) middle := by
  have moves := left_of_advance (by rwa [isKeyword]) moved
  have fewer := implements.left_le (by omega) parsed
  have bounded := left_lt_rounds p
  rw [loop, joinLoop, if_pos isKeyword, moved, ok_bind, parsed]
  exact joinLoop_rounds implements notEof (by omega) (by omega) (left_lt_rounds _)

theorem joinLoop_sound (derived : Joined keyword join (Derives lower) one before)
    (parsed : joinLoop keyword join operand rounds one p = .ok (node, last)) :
    ∃ tokens, Joined keyword join (Derives lower) node (before ++ tokens) ∧ Reads p tokens last := by
  induction rounds generalizing one before p with
  | zero => cases parsed
  | succ rounds ih =>
    rw [joinLoop] at parsed
    split at parsed
    · rename_i isKeyword
      have notEnd : p.current.type ≠ .eof := by rwa [isKeyword]
      obtain ⟨next, moved, parsed⟩ := bind_eq_ok parsed
      obtain ⟨⟨right, middle⟩, parsedRight, parsed⟩ := bind_eq_ok parsed
      have moves := left_of_advance notEnd moved
      obtain ⟨after, derivedRight, readsRight⟩ := implements.sound (by omega) parsedRight
      have fewer := readsRight.left_le
      obtain ⟨tokens, whole, reads⟩ := ih (by omega) (.snoc derived isKeyword derivedRight) parsed
      refine ⟨p.current :: (after ++ tokens), ?_, .cons notEnd moved (readsRight.append reads)⟩
      simpa using whole
    · cases parsed
      exact ⟨[], by simpa using derived, .nil _⟩

theorem joinLoop_never
    (enough : p.left < rounds) : joinLoop keyword join operand rounds one p ≠ .error .exhausted := by
  induction rounds generalizing one p with
  | zero => omega
  | succ rounds ih =>
    rw [joinLoop]
    split
    · rename_i isKeyword
      refine bind_never (advance_never _) fun next moved => ?_
      have moves := left_of_advance (by rwa [isKeyword]) moved
      refine bind_never (implements.total (by omega)) fun (right, middle) parsed => ?_
      have fewer := implements.left_le (by omega) parsed
      exact ih (by omega) (by omega)
    · exact nofun

end

theorem Joined.complete (notEof : keyword ≠ .eof)
    (separates : ∀ p : Parser, p.current.type = keyword → Stops lower p)
    (derived : Joined keyword join (Derives lower) node tokens) (small : p.left < bound) (reads : Reads p tokens last)
    (stops : Stops lower last) (looped : loop keyword join operand node last = .ok result) :
    joined keyword join operand p = .ok result := by
  induction derived generalizing last with
  | single derived =>
    rw [joined, implements.complete small derived reads stops]
    exact looped
  | snoc left isKeyword right ih =>
    obtain ⟨middle, first, reads⟩ := reads.split
    obtain ⟨next, rfl, moved, reads⟩ := reads.head
    have fewer := first.left_le
    have moves := left_of_advance (by rwa [isKeyword]) moved
    refine ih first (separates middle isKeyword) ?_
    rwa [loop_next implements notEof (by omega) isKeyword moved (implements.complete (by omega) right reads stops)]

theorem Implements.joined (notEof : keyword ≠ .eof)
    (separates : ∀ p : Parser, p.current.type = keyword → Stops lower p)
    (derives_iff : ∀ node tokens, Derives level node tokens ↔ Joined keyword join (Derives lower) node tokens)
    (stops_iff : ∀ p : Parser, Stops level p → p.current.type ≠ keyword ∧ Stops lower p) :
    Implements (joined keyword join operand) level bound where
  sound := by
    intro p last node small parsed
    obtain ⟨⟨left, middle⟩, parsedLeft, parsed⟩ := bind_eq_ok parsed
    obtain ⟨before, derived, readsLeft⟩ := implements.sound small parsedLeft
    have fewer := readsLeft.left_le
    obtain ⟨tokens, whole, reads⟩ := joinLoop_sound implements notEof (by omega) (.single derived) parsed
    exact ⟨_, (derives_iff _ _).mpr whole, readsLeft.append reads⟩
  complete small derived reads stops :=
    ((derives_iff _ _).mp derived).complete implements notEof separates small reads (stops_iff _ stops).2
      (loop_stops (stops_iff _ stops).1)
  total := by
    intro p small
    refine bind_never (implements.total small) fun (left, middle) parsed => ?_
    have fewer := implements.left_le small parsed
    exact joinLoop_never implements notEof (by omega) (left_lt_rounds _)

end

end

theorem derives_and_iff (node : Node) (tokens : List Token) :
    Derives .and node tokens ↔ Joined .and .and (Derives .not) node tokens := by
  constructor
  · intro derived
    generalize same : Level.and = level at derived
    induction derived with
    | operand derived => exact .single derived
    | and left isAnd right ih => exact .snoc (ih rfl) isAnd right
    | _ => cases same
  · intro derived
    induction derived with
    | single derived => exact .operand derived
    | snoc left isAnd right ih => exact .and ih isAnd right

theorem derives_or_iff (node : Node) (tokens : List Token) :
    Derives .or node tokens ↔ Joined .or .or (Derives .and) node tokens := by
  constructor
  · intro derived
    generalize same : Level.or = level at derived
    induction derived with
    | conjunct derived => exact .single derived
    | or left isOr right ih => exact .snoc (ih rfl) isOr right
    | _ => cases same
  · intro derived
    induction derived with
    | single derived => exact .conjunct derived
    | snoc left isOr right ih => exact .or ih isOr right

section
variable {primary : Parser → Parse (Node × Parser)} {bound rounds : Nat}

theorem Derives.notNot (derived : Derives .primary node tokens) (reads : Reads p tokens last) : p.current.type ≠ .not := by
  cases derived with
  | comparison isField isOp hasValue =>
    obtain ⟨next, rfl, -, -⟩ := reads.head
    simp [isField]
  | parens opens inside closes =>
    obtain ⟨next, rfl, -, -⟩ := Reads.head reads
    simp [opens]

section

variable (implements : Implements primary .primary bound)
include implements

theorem implements_not : Implements (parseNot primary) .not bound where
  sound := by
    intro p last node small
    rw [parseNot]
    generalize p.rest.length + 2 = rounds
    intro parsed
    induction rounds generalizing p node with
    | zero => cases parsed
    | succ rounds ih =>
      rw [parseNotWithin] at parsed
      split at parsed
      · rename_i isNot
        obtain ⟨next, moved, parsed⟩ := bind_eq_ok parsed
        obtain ⟨⟨operand, middle⟩, parsedOperand, ⟨⟩⟩ := bind_eq_ok parsed
        have notEnd : p.current.type ≠ .eof := by simp [isNot]
        have moves := left_of_advance notEnd moved
        obtain ⟨tokens, derived, reads⟩ := ih (by omega) parsedOperand
        exact ⟨_, .not isNot derived, .cons notEnd moved reads⟩
      · obtain ⟨tokens, derived, reads⟩ := implements.sound small parsed
        exact ⟨tokens, .primary derived, reads⟩
  complete := by
    intro p last node tokens small derived reads stops
    have enough := left_lt_rounds p
    rw [parseNot]
    generalize p.rest.length + 2 = rounds at enough
    generalize same : Level.not = level at derived
    induction derived generalizing p rounds with
    | primary derived =>
      obtain ⟨more, rfl⟩ := Nat.exists_eq_add_of_lt enough
      rw [parseNotWithin, if_neg (derived.notNot reads)]
      exact implements.complete small derived reads trivial
    | not isNot derived ih =>
      obtain ⟨more, rfl⟩ := Nat.exists_eq_add_of_lt enough
      obtain ⟨next, rfl, moved, reads⟩ := reads.head
      have moves := left_of_advance (by simp [isNot]) moved
      rw [parseNotWithin, if_pos isNot, moved, ok_bind, ih (by omega) reads _ (by omega) rfl]
      rfl
    | _ => cases same
  total := by
    intro p small
    have enough := left_lt_rounds p
    rw [parseNot]
    generalize p.rest.length + 2 = rounds at enough
    induction rounds generalizing p with
    | zero => omega
    | succ rounds ih =>
      rw [parseNotWithin]
      split
      · rename_i isNot
        refine bind_never (advance_never _) fun next moved => ?_
        have moves := left_of_advance (by simp [isNot]) moved
        exact bind_never (ih (by omega) (by omega)) nofun
      · exact implements.total small

theorem implements_or : Implements (parseOr primary) .or bound := by
  have conjunction :=
    (implements_not implements).joined (by decide) (fun _ _ => trivial) derives_and_iff fun _ stops => ⟨stops, trivial⟩
  exact conjunction.joined (by decide) (fun p isOr => by simp [Stops, isOr]) derives_or_iff fun _ stops => stops

end

theorem parsePrimary_sound {depth : Nat}
    (implements : Implements (parsePrimary depth) .primary depth) (small : p.left < depth + 1)
    (parsed : parsePrimary (depth + 1) p = .ok (node, last)) : ∃ tokens, Derives .primary node tokens ∧ Reads p tokens last := by
  rw [parsePrimary] at parsed
  split at parsed
  · rename_i opens
    have notEnd : p.current.type ≠ .eof := by simp [opens]
    obtain ⟨next, moved, parsed⟩ := bind_eq_ok parsed
    obtain ⟨⟨inside, middle⟩, parsedInside, parsed⟩ := bind_eq_ok parsed
    obtain ⟨closes, parsed⟩ := ite_error_eq_ok.mp parsed
    obtain ⟨after, movedAfter, ⟨⟩⟩ := bind_eq_ok parsed
    have moves := left_of_advance notEnd moved
    obtain ⟨tokens, derived, reads⟩ := (implements_or implements).sound (by omega) parsedInside
    have closing : Reads middle [middle.current] last := .cons (by simp [not_not.mp closes]) movedAfter (.nil _)
    exact ⟨_, .parens opens derived (not_not.mp closes), .cons notEnd moved (reads.append closing)⟩
  · exact parseComparison_sound parsed

theorem parsePrimary_complete {depth : Nat} (implements : Implements (parsePrimary depth) .primary depth)
    (small : p.left < depth + 1) (derived : Derives .primary node tokens)
    (reads : Reads p tokens last) : parsePrimary (depth + 1) p = .ok (node, last) := by
  rw [parsePrimary]
  cases derived with
  | comparison isField isOp hasValue =>
    have parsed := parseComparison_complete isField isOp hasValue reads
    obtain ⟨next, rfl, -, -⟩ := reads.head
    rw [if_neg (by simp [isField]), parsed]
  | parens opens inside closes =>
    obtain ⟨next, rfl, moved, reads⟩ := Reads.head reads
    obtain ⟨middle, first, reads⟩ := reads.split
    obtain ⟨after, rfl, movedAfter, ⟨⟩⟩ := reads.head
    have moves := left_of_advance (by simp [opens]) moved
    have parsed := (implements_or implements).complete (by omega) inside first (by simp [Stops, closes])
    simp [opens, moved, parsed, closes, movedAfter, bind, Except.bind]

theorem implements_primary (depth : Nat) : Implements (parsePrimary depth) .primary depth := by
  induction depth with
  | zero => exact ⟨nofun, nofun, nofun⟩
  | succ depth ih =>
    refine ⟨parsePrimary_sound ih, fun small derived reads _ => parsePrimary_complete ih small derived reads, ?_⟩
    intro p small
    rw [parsePrimary]
    split
    · rename_i opens
      refine bind_never (advance_never _) fun next moved => ?_
      have moves := left_of_advance (by simp [opens]) moved
      refine bind_never ((implements_or ih).total (by omega)) fun (node, middle) _ => ?_
      exact ite_never nofun (bind_never (advance_never _) nofun)
    · exact parseComparison_never p

end

theorem Derives.ne_nil (derived : Derives level node tokens) : tokens ≠ [] := by
  induction derived with
  | primary derived ih | operand derived ih | conjunct derived ih => exact ih
  | _ => simp

theorem Derives.notEnd (derived : Derives level node tokens) (reads : Reads p tokens last) : p.current.type ≠ .eof := by
  cases reads with
  | nil => exact absurd rfl derived.ne_nil
  | cons notEnd moved rest => exact notEnd

variable {input : Bytes}

theorem implements_parse (moved : advance input = .ok p) :
    Implements (parseOr (parsePrimary (input.length + 1))) .or (input.length + 1) ∧ p.left < input.length + 1 :=
  ⟨implements_or (implements_primary _), Nat.lt_succ_of_le (advance_left moved)⟩

theorem parse_never (input : Bytes) : parse input ≠ .error .exhausted := by
  refine bind_never (advance_never _) fun p moved => ite_never nofun ?_
  obtain ⟨implements, small⟩ := implements_parse moved
  exact bind_never (implements.total small) fun _ _ => ite_never nofun nofun

theorem tokenizeWithin_never {fuel : Nat} (enough : input.length < fuel) :
    tokenizeWithin fuel input ≠ .error .exhausted := by
  induction fuel generalizing input with
  | zero => omega
  | succ fuel ih =>
    rw [tokenizeWithin]
    cases read : nextToken input with
    | error failure =>
      exact fun failed => nextToken_never input (read.trans (congrArg Except.error (Except.error.inj failed)))
    | ok found =>
      change (if found.1.type = .eof then _ else _) ≠ _
      split
      · exact nofun
      · rename_i notEnd
        have shorter := nextToken_consumes read notEnd
        exact bind_never (ih (by omega)) nofun

/-- The parser accepts what the grammar derives from the tokens up to the end. -/
theorem parse_eq_ok_iff : parse input = .ok node ↔
      ∃ p tokens last, advance input = .ok p ∧ Derives .or node tokens ∧ Reads p tokens last ∧ last.current.type = .eof := by
  constructor
  · intro parsed
    obtain ⟨p, moved, parsed⟩ := bind_eq_ok parsed
    obtain ⟨⟨found, last⟩, parsedOr, parsed⟩ := bind_eq_ok (ite_error_eq_ok.mp parsed).2
    obtain ⟨ends, ⟨⟩⟩ := ite_error_eq_ok.mp parsed
    obtain ⟨implements, small⟩ := implements_parse moved
    obtain ⟨tokens, derived, reads⟩ := implements.sound small parsedOr
    exact ⟨p, tokens, last, moved, derived, reads, not_not.mp ends⟩
  · rintro ⟨p, tokens, last, moved, derived, reads, ends⟩
    obtain ⟨implements, small⟩ := implements_parse moved
    have found := implements.complete small derived reads (by simp [Stops, ends])
    simp [parse, moved, derived.notEnd reads, found, ends, bind, Except.bind]

end Beads.Query
