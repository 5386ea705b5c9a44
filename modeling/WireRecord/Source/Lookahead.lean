import WireRecord.Source.Literal
import WireRecord.Source.Tree

/-!
Lookahead: what the trees still to be read begin with. Which rule applies is told by the next three
trees at most, apart from the words before `fn` and the names before the mark of a macro call. Bare
groups are entered for it, but where the question is whether one comes next.
-/

namespace WireRecord

abbrev Lookahead := List SourceTree

namespace Lookahead

def keywords : List String :=
  ["_", "abstract", "as", "async", "await", "become", "box", "break", "const", "continue", "crate",
   "do", "dyn", "else", "enum", "extern", "false", "final", "fn", "for", "if", "impl", "in", "let",
   "loop", "macro", "match", "mod", "move", "mut", "override", "priv", "pub", "ref", "return",
   "Self", "self", "static", "struct", "super", "trait", "true", "try", "type", "typeof", "unsafe",
   "unsized", "use", "virtual", "where", "while", "yield"]

def pathKeywords : List String := ["self", "Self", "super", "crate"]

/-- The next tree that is no bare group. -/
def next? (t : Lookahead) : Option SourceTree := (SourceTree.enterAll t).head?

/-- What comes after so many trees. -/
def past (t : Lookahead) : Nat → Lookahead
  | 0 => t
  | count + 1 => past ((SourceTree.enterAll t).drop 1) count

def atAnyName (t : Lookahead) : Bool :=
  match t.next? with
  | some (.name ..) => true
  | _ => false

def atName (t : Lookahead) (text : String) : Bool :=
  match t.next? with
  | some (.name found _) => found == text
  | _ => false

def atOneOf (t : Lookahead) (texts : List String) : Bool := texts.any t.atName

def atFreeName (t : Lookahead) : Bool :=
  match t.next? with
  | some (.name text _) => !keywords.contains text
  | _ => false

def atLifetime (t : Lookahead) : Bool :=
  match t.next? with
  | some (.lifetime ..) => true
  | _ => false

/-- Whether a group with visible delimiters comes next. -/
def atGroup (t : Lookahead) (delimiter : Delimiter) : Bool :=
  match t.next? with
  | some (.group found _ _ _) => found = delimiter
  | _ => false

/-- Whether a bare group comes next. -/
def atBareGroup : Lookahead → Bool
  | .group .bare _ _ _ :: _ => true
  | _ => false

/-- Whether a bare group without content comes next. -/
def atEmptyGroup : Lookahead → Bool
  | .group .bare _ _ [] :: _ => true
  | _ => false

/-- Whether an operator comes next. It may go on as a longer one. -/
def atOperator (t : Lookahead) (op : String) : Bool :=
  (SourceTree.afterOperator? op.toList t).isSome

/-- Whether an operator comes next that does not go on as one of some longer ones. -/
def atShort (t : Lookahead) (op : String) (longer : List String) : Bool :=
  t.atOperator op && !longer.any t.atOperator

def atAnyOperator (t : Lookahead) (ops : List String) : Bool := ops.any t.atOperator

def atColon (t : Lookahead) : Bool := t.atShort ":" ["::"]

def atDot (t : Lookahead) : Bool := t.atShort "." [".."]

def atBar (t : Lookahead) : Bool := t.atShort "|" ["||", "|="]

def atCallMark (t : Lookahead) : Bool := t.atShort "!" ["!="]

/-- Whether a literal comes next: truth values count, and a number may have a minus before it. -/
def atLiteral (t : Lookahead) : Bool :=
  match t.next? with
  | some (.literal ..) => true
  | some (.name text _) => text == "true" || text == "false"
  | some (.punct '-' _ _) =>
    match (t.past 1).next? with
    | some (.literal text _) => Literal.isNumber text
    | _ => false
  | _ => false

def atString (t : Lookahead) : Bool :=
  match t.next? with
  | some (.literal text _) => (Literal.stringValue? text).isSome
  | _ => false

/-- Whether a path may begin here, other than one with a qualified self type. -/
def atPath (t : Lookahead) : Bool := t.atFreeName || t.atOneOf pathKeywords || t.atOperator "::"

def skipName (t : Lookahead) (text : String) : Lookahead := if t.atName text then t.past 1 else t

/-- The trees after the words for a foreign calling convention, if they come next. -/
def skipConvention (t : Lookahead) : Lookahead :=
  if t.atName "extern" then if (t.past 1).atString then t.past 2 else t.past 1 else t

/-- Whether a function is declared here: `fn` with any words that may stand before it. The word
`safe` may stand in a foreign block only. -/
def atFunction (t : Lookahead) (inForeign : Bool) : Bool :=
  let t := (t.skipName "const").skipName "async"
  let t := if inForeign && t.atName "safe" then t.past 1 else t.skipName "unsafe"
  t.skipConvention.atName "fn"

/-- The trees after names separated by `::`, at most so many names. -/
def pastNames? : Nat → Lookahead → Option Lookahead
  | 0, _ => none
  | count + 1, t =>
    if t.atFreeName || t.atOneOf pathKeywords then
      if (t.past 1).atOperator "::" then pastNames? count (t.past 3) else some (t.past 1)
    else none

/-- The trees after a path without arguments, if one comes next. -/
def pastPlainPath? (t : Lookahead) : Option Lookahead :=
  pastNames? (SourceTree.sizeAll t) (if t.atOperator "::" then t.past 2 else t)

end Lookahead

end WireRecord
