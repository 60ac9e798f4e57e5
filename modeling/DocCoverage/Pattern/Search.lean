import DocCoverage.Pattern.Basic
/-!
# Patterns — searching a text

A search passes over a text once and follows all ways of matching side by
side. A way is a state, and what it can do at a place is a list of moves,
the preferred first. Ways that begin earlier come before ways that begin
later, and of two ways that go on alike only the first is kept, so their
number stays small. When a way ends, all behind it are given up; the ways
before it go on, and one of them can still end in its stead.
-/

namespace DocCoverage

/-- What a way of matching can do at a place. -/
inductive Move (State Result : Type) where
  /-- The match ends here. -/
  | finish (result : Result)
  /-- The next character is passed. -/
  | pass (next : State)
deriving DecidableEq, Repr

namespace Move

variable {State Result : Type}

/-- The states behind the next character of all moves that are preferred to
the first ending. -/
def passes : List (Move State Result) → List State
  | [] => []
  | finish _ :: _ => []
  | pass next :: more => next :: passes more

/-- The result of the first ending. -/
def firstResult? : List (Move State Result) → Option Result
  | [] => none
  | finish result :: _ => some result
  | pass _ :: more => firstResult? more

end Move

/-- How a text is searched. -/
structure Search (State Result : Type) where
  /-- The state in which a match begins. -/
  start : State
  /-- What can be done in a state at a place, the preferred first. A next
  character is passed only where there is one. -/
  moves : State → Cursor → List (Move State Result)
  /-- Whether two states go on alike. -/
  alike : State → State → Bool

/-- A match that was found: what it tells, and the number of characters from
where the search began up to the end of the match. -/
structure Found (Result : Type) where
  result : Result
  width : Nat
deriving DecidableEq, Repr

namespace Search

variable {State Result : Type}

/-- The states without those that go on like one before. -/
def distinct (search : Search State Result) : List State → List State
  | [] => []
  | state :: more =>
    state :: (distinct search more).filter fun other => !search.alike state other

/-- Go on with ways that are under way. Until a match is found, another one
can begin at every place; the first match is the one that begins first, and
of those the preferred one. -/
def seek (search : Search State Result) (ways : List State) (best : Option (Found Result))
    (width : Nat) (passed : Option Char) (text : List Char) : Option (Found Result) :=
  let ways := if best.isSome then ways else ways ++ [search.start]
  let moves := ways.flatMap fun state => search.moves state ⟨passed, text⟩
  let best := ((Move.firstResult? moves).map fun result => ⟨result, width⟩).or best
  match text with
  | [] => best
  | x :: rest =>
    let ways := search.distinct (Move.passes moves)
    if ways.isEmpty && best.isSome then best
    else seek search ways best (width + 1) (some x) rest

/-- The first match ahead. -/
def first? (search : Search State Result) (passed : Option Char) (text : List Char) :
    Option (Found Result) := search.seek [] none 0 passed text

/-- What the matches ahead tell that do not overlap, of which the first
`covered` characters belong to the match before. -/
def allFrom (search : Search State Result) (covered : Nat) (passed : Option Char) :
    List Char → List Result
  | [] => []
  | x :: rest =>
    match covered with
    | n + 1 => allFrom search n (some x) rest
    | 0 =>
      match search.first? passed (x :: rest) with
      | none => []
      | some found => found.result :: allFrom search (found.width - 1) (some x) rest

/-- What the matches in a text tell, in reading order. Each is the first
behind the one before. -/
def all (search : Search State Result) (text : List Char) : List Result :=
  search.allFrom 0 none text

end Search

end DocCoverage
