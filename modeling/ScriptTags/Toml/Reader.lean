import ScriptTags.Toml.Fault

/-!
# Readers

A **reader** takes what it needs from the front of a text, or it does not match and takes nothing.
Choice tries the second reader at the place where the first one started, and repetition stops where
its reader does not match. A **fault** that a reader finds ends the whole reading: no other reader
is tried.
-/

namespace ScriptTags.Toml

/-- What a reader comes to. -/
inductive Outcome (α : Type) where
  | done (value : α) (rest : List Char)
  | mismatch
  | fault (fault : Fault)
  deriving Repr

/-- A **reader** of `α`. -/
def Reader (α : Type) : Type :=
  List Char → Outcome α

namespace Reader

instance : Monad Reader where
  pure a := fun input => .done a input
  bind r next := fun input =>
    match r input with
    | .done a rest => next a rest
    | .mismatch => .mismatch
    | .fault fault => .fault fault

instance : Alternative Reader where
  failure := fun _ => .mismatch
  orElse r other := fun input =>
    match r input with
    | .mismatch => other () input
    | outcome => outcome

/-- Ends the reading unless there is a result. -/
def ofExcept {α : Type} (result : Except Fault α) : Reader α := fun input =>
  match result with
  | .ok a => .done a input
  | .error fault => .fault fault

/-- A reader that has to match: the text is malformed if it does not. -/
def need {α : Type} (r : Reader α) : Reader α :=
  r <|> ofExcept (.error .malformed)

/-- Reads a character that satisfies `p`. -/
def satisfy (p : Char → Bool) : Reader Char
  | [] => .mismatch
  | c :: rest => if p c then .done c rest else .mismatch

/-- Reads the character `c`. -/
def char (c : Char) : Reader Char :=
  satisfy (· == c)

/-- Reads a fixed text. -/
def literal (text : List Char) : Reader Unit := fun input =>
  if text.isPrefixOf input then .done () (input.drop text.length) else .mismatch

/-- Reads the longest run of characters that satisfy `p`, which may be empty. -/
def run (p : Char → Bool) : Reader (List Char) := fun input =>
  .done (input.takeWhile p) (input.dropWhile p)

/-- Reads a run that is not empty. -/
def run1 (p : Char → Bool) : Reader (List Char) := do
  let cs ← run p
  guard !cs.isEmpty
  return cs

/-- Reads exactly `n` characters that satisfy `p`. -/
def exactly (p : Char → Bool) : Nat → Reader (List Char)
  | 0 => pure []
  | n + 1 => do
    let c ← satisfy p
    return c :: (← exactly p n)

/-- Reads what `r` reads if it can. -/
def opt {α : Type} (r : Reader α) : Reader (Option α) :=
  (some <$> r) <|> pure none

/-- Whether the text is at its end. -/
def isAtEnd : Reader Bool := fun input =>
  .done input.isEmpty input

/-- Matches at the end of the text. -/
def atEnd : Reader Unit := do
  guard (← isAtEnd)

/-- Applies `r` as long as it matches, and at most once for each character of `along`. -/
def repeatAlong {α : Type} (r : Reader α) : List Char → Reader (List α)
  | [] => pure []
  | _ :: along => do
    match ← opt r with
    | none => return []
    | some a => return a :: (← repeatAlong r along)

/-- Applies `r` as long as it matches. A reader that takes at least one character each time cannot
match more often than the text has characters. -/
def many {α : Type} (r : Reader α) : Reader (List α) := fun input =>
  repeatAlong r input input

/-- Reads one or more items with a separator between any two. -/
def sepBy1 {α β : Type} (r : Reader α) (separator : Reader β) : Reader (List α) := do
  let first ← r
  return first :: (← many (separator *> r))

/-- Reads any number of items with a separator between any two. -/
def sepBy {α β : Type} (r : Reader α) (separator : Reader β) : Reader (List α) :=
  sepBy1 r separator <|> pure []

end Reader

end ScriptTags.Toml
