import WireRecord.Token

/-!
Token trees of source text. They keep where each token stands, and of each punctuation character
whether the next character continues an operator. A bare group is what a macro has put in for one of
its arguments; it does not show in text, and where a token is looked for it does not count.
-/

namespace WireRecord

/-- A place in source text: lines are counted from one, columns from zero in characters. -/
structure Place where
  line : Nat
  column : Nat
  deriving DecidableEq, Repr

namespace Place

def first : Place := ⟨1, 0⟩

def next (p : Place) (c : Char) : Place :=
  if c = '\n' then ⟨p.line + 1, 0⟩ else ⟨p.line, p.column + 1⟩

end Place

/-- A token or a group as it stands in source text. -/
inductive SourceTree where
  | name (text : String) (place : Place)
  | lifetime (text : String) (place : Place)
  | literal (text : String) (place : Place)
  /-- A punctuation character. It is joint if another one follows at once. -/
  | punct (char : Char) (joint : Bool) (place : Place)
  | group (delimiter : Delimiter) (start stop : Place) (inner : List SourceTree)

namespace SourceTree

def place : SourceTree → Place
  | name _ place => place
  | lifetime _ place => place
  | literal _ place => place
  | punct _ _ place => place
  | group _ start _ _ => start

mutual

/-- A tree as it stands in the source: operators keep their spacing. -/
def raw : SourceTree → TokenTree Token
  | name text _ => .leaf text
  | lifetime text _ => .leaf text
  | literal text _ => .leaf text
  | punct char joint _ => .leaf { text := char.toString, joint }
  | group delimiter _ _ inner => .group delimiter (rawAll inner)

def rawAll : List SourceTree → Tokens
  | [] => []
  | tree :: rest => raw tree :: rawAll rest

end

mutual

/-- A tree, or what is inside of it if it is a bare group, entered in turn. -/
def enter : SourceTree → List SourceTree
  | group .bare _ _ inner => enterAll inner
  | tree => [tree]

/-- Enters the bare groups at the front of trees, so that the first tree is none. -/
def enterAll : List SourceTree → List SourceTree
  | [] => []
  | tree :: rest =>
    match enter tree with
    | [] => enterAll rest
    | front => front ++ rest

end

/-- The trees after an operator, if they begin with it. Its characters but the last are joint. -/
def afterOperator? : List Char → List SourceTree → Option (List SourceTree)
  | [], trees => some trees
  | c :: cs, trees =>
    match enterAll trees with
    | .punct c' joint _ :: rest =>
      if c = c' && (cs.isEmpty || joint) then afterOperator? cs rest else none
    | _ => none

mutual

def size : SourceTree → Nat
  | group _ _ _ inner => sizeAll inner + 1
  | _ => 1

def sizeAll : List SourceTree → Nat
  | [] => 0
  | tree :: rest => tree.size + sizeAll rest

end

mutual

/-- What has been read of a tree, as it stands in the source, when so much of it is left. Only a
bare group can have been read in part. -/
def rawRead (tree : SourceTree) (left : Nat) : Tokens :=
  match tree with
  | group _ _ _ inner => rawReadAll inner left
  | _ => []

/-- What has been read of trees, as it stands in the source, when so much of them is left. -/
def rawReadAll (trees : List SourceTree) (left : Nat) : Tokens :=
  match trees with
  | [] => []
  | tree :: rest =>
    if tree.size + sizeAll rest ≤ left then []
    else if left ≤ sizeAll rest then tree.raw :: rawReadAll rest left
    else tree.rawRead (left - sizeAll rest)

end

end SourceTree

end WireRecord
