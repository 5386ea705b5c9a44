import WireRecord.Source.Lexer
import WireRecord.Source.Lookahead

/-!
Parsers over token trees. A parser takes trees from the front of its input; when it fails it says
what was expected and where. To take a token or a group with visible delimiters it enters the bare
groups before it, and it leaves them as their last token is taken.
-/

namespace WireRecord

/-- The trees still to be read, and where an error at their end is placed. -/
structure SourceInput where
  trees : List SourceTree
  stop : Place

structure SourceError where
  message : String
  place : Place
  deriving DecidableEq, Repr

abbrev Parser := StateT SourceInput (Except SourceError)

namespace Parser

variable {α : Type}

def ahead : Parser Lookahead := do return (← get).trees

/-- Whether a test holds of the trees still to be read. -/
def sees (test : Lookahead → Bool) : Parser Bool := do return test (← ahead)

/-- The next tree that is no bare group. -/
def peek? : Parser (Option SourceTree) := do return (← ahead).next?

def atEnd : Parser Bool := sees List.isEmpty

/-- Where the next tree begins, bare groups included, or where the input ends. -/
def place : Parser Place := do
  let input ← get
  return (input.trees.head?.map SourceTree.place).getD input.stop

/-- Where the next tree that is no bare group begins, or where the input ends. -/
def tokenPlace : Parser Place := do
  return ((← peek?).map SourceTree.place).getD (← get).stop

def failAt (place : Place) (message : String) : Parser α := throw { message, place }

/-- Fails at the next tree. At the end of the input the message says so. -/
def fail (message : String) : Parser α := do
  if ← atEnd then failAt (← place) ("unexpected end of input, " ++ message)
  else failAt (← place) message

def resume (trees : List SourceTree) : Parser Unit := modify fun input => { input with trees }

def skip : Parser Unit := do resume ((← ahead).past 1)

/-- The trees read since an earlier moment, as they stand in the source. -/
def rawSince (before : Lookahead) : Parser Tokens := do
  return SourceTree.rawReadAll before (SourceTree.sizeAll (← ahead))

def atOperator (op : String) : Parser Bool := sees (·.atOperator op)

def takeOperator? (op : String) : Parser Bool := do
  match SourceTree.afterOperator? op.toList (← ahead) with
  | some rest => resume rest; return true
  | none => return false

/-- Takes an operator. If there is none, the fault is at the punctuation character that comes next,
or else at the next tree. -/
def takeOperator (op : String) : Parser Unit := do
  unless ← takeOperator? op do
    match ← peek? with
    | some (.punct _ _ start) => failAt start s!"expected `{op}`"
    | _ => failAt (← place) s!"expected `{op}`"

def operator (op : String) : Parser Tokens := do
  takeOperator op
  return [.leaf op]

/-- Takes an operator, if it comes next, and gives its tokens. -/
def optionalOperator (op : String) : Parser Tokens := do
  return if ← takeOperator? op then [.leaf op] else []

def takeName? (text : String) : Parser Bool := do
  if ← sees (·.atName text) then skip; return true
  else return false

def keyword (text : String) : Parser Tokens := do
  unless ← takeName? text do fail s!"expected `{text}`"
  return [.leaf text]

/-- Takes a given name, if it comes next, and gives its tokens. -/
def optionalKeyword (text : String) : Parser Tokens := do
  return if ← takeName? text then [.leaf text] else []

def anyName : Parser String := do
  match ← peek? with
  | some (.name text _) => skip; return text
  | _ => fail "expected identifier"

def nameTokens : Parser Tokens := do return [.leaf (← anyName)]

def lifetime : Parser String := do
  match ← peek? with
  | some (.lifetime text _) => skip; return text
  | _ => fail "expected lifetime"

/-- Takes a lifetime, if one comes next, and gives its tokens. -/
def optionalLifetime : Parser Tokens := do
  if ← sees (·.atLifetime) then return [.leaf (← lifetime)]
  return []

/-- Takes a literal, with a minus before it if there is one, and gives its tokens. -/
def literal : Parser Tokens := do
  let minus ← optionalOperator "-"
  match ← peek? with
  | some (.literal text _) => skip; return minus ++ [.leaf text]
  | some (.name text _) => skip; return minus ++ [.leaf text]
  | _ => fail "expected literal"

/-- Takes a group with visible delimiters, if one with these comes next. -/
def takeGroup? (delimiter : Delimiter) : Parser (Option SourceInput) := do
  match ← peek? with
  | some (.group found _ stop inner) =>
    if found = delimiter then skip; return some ⟨inner, stop⟩
    else return none
  | _ => return none

def takeGroup (delimiter : Delimiter) : Parser SourceInput := do
  match ← takeGroup? delimiter with
  | some inner => return inner
  | none => fail "expected a group"

/-- Takes a bare group, if one comes next. -/
def takeBareGroup? : Parser (Option SourceInput) := do
  match ← ahead with
  | .group .bare _ stop inner :: rest => resume rest; return some ⟨inner, stop⟩
  | _ => return none

/-- Takes a group with any visible delimiters. A bare group before it is not entered. -/
def delimited : Parser (Delimiter × SourceInput) := do
  match ← ahead with
  | .group delimiter _ stop inner :: rest =>
    if delimiter = .bare then fail "expected delimiter"
    else resume rest; return (delimiter, ⟨inner, stop⟩)
  | _ => fail "expected delimiter"

/-- Takes a group with any visible delimiters as it stands in the source. -/
def rawGroup : Parser Tokens := do
  let (delimiter, input) ← delimited
  return [.group delimiter (SourceTree.rawAll input.trees)]

/-- Runs a parser on other input, all of which it has to read but for bare groups without
content. -/
def within (input : SourceInput) (p : Parser α) : Parser α := do
  let outer ← get
  set input
  let result ← p
  if let some tree ← peek? then failAt tree.place "unexpected token"
  set outer
  return result

/-- Runs a parser for as long as it finds something, at most so many times. -/
def repeatUpTo : Nat → Parser (Option α) → Parser (List α)
  | 0, _ => return []
  | n + 1, p => do
    match ← p with
    | none => return []
    | some found => return found :: (← repeatUpTo n p)

/-- Runs a parser for as long as it finds something. What it finds takes at least one tree. -/
def many (p : Parser (Option α)) : Parser (List α) := do
  repeatUpTo (SourceTree.sizeAll (← ahead) + 1) p

/-- Items separated by commas up to where `stops` holds; a comma may follow the last one. -/
def listed (stops : Parser Bool) (item : Parser α) : Parser (List (α × Bool)) := do
  let found ← many do
    if ← stops then return none
    let value ← item
    let comma ← takeOperator? ","
    unless comma || (← stops) do takeOperator ","
    return some (value, comma)
  return found

def commas (stops : Parser Bool) (item : Parser Tokens) : Parser Tokens := do
  return (← listed stops item).flatMap fun (tokens, comma) =>
    tokens ++ if comma then [.leaf ","] else []

/-- Runs parsers one after the other and puts their tokens together. -/
def inOrder (parts : List (Parser Tokens)) : Parser Tokens := do
  return (← parts.mapM id).flatten

def manyTokens (p : Parser (Option Tokens)) : Parser Tokens := do return (← many p).flatten

def inGroup (delimiter : Delimiter) (p : Parser Tokens) : Parser Tokens := do
  let inner ← takeGroup delimiter
  return [.group delimiter (← within inner p)]

/-- Runs a parser if a test holds of what comes next. -/
def onlyIf (test : Lookahead → Bool) (p : Parser Tokens) : Parser Tokens := do
  if ← sees test then p else return []

def onInput (p : Parser α) (input : SourceInput) : Except SourceError α :=
  ((within input p).run input).map Prod.fst

def onText (p : Parser α) (text : String) : Except SourceError α :=
  match SourceTree.ofText? text with
  | some (trees, stop) => onInput p ⟨trees, stop⟩
  | none => .error { message := "lex error", place := Place.first }

end Parser

end WireRecord
