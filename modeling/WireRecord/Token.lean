/-!
Token text: trees of tokens and groups, and their one printed form. Tokens are separated by one
blank, except after a token that is joined to the next; a group stands among them like a token.
-/

namespace WireRecord

/-- What surrounds a group. A bare group has no visible delimiters. -/
inductive Delimiter where
  | paren | bracket | brace | bare
  deriving DecidableEq, Repr

inductive TokenTree (α : Type) where
  | leaf (token : α)
  | group (delimiter : Delimiter) (inner : List (TokenTree α))

/-- A token by its text. An operator of several characters is one token, unless it was copied from
source text as it stands: then each of its characters is a token, joined to the next. -/
structure Token where
  text : String
  /-- No blank follows. -/
  joint : Bool := false
  deriving DecidableEq, Repr

instance : Coe String Token := ⟨fun text => { text }⟩

abbrev Tokens := List (TokenTree Token)

namespace TokenTree

variable {α β : Type}

mutual

def splice (f : α → List (TokenTree β)) : TokenTree α → List (TokenTree β)
  | leaf token => f token
  | group delimiter inner => [group delimiter (spliceAll f inner)]

/-- Replaces each token of a list of trees by a list of trees. -/
def spliceAll (f : α → List (TokenTree β)) : List (TokenTree α) → List (TokenTree β)
  | [] => []
  | tree :: rest => splice f tree ++ spliceAll f rest

end

mutual

/-- The tokens of a tree, without the groups around them. -/
def leaves : TokenTree α → List α
  | leaf token => [token]
  | group _ inner => leavesAll inner

/-- The tokens of a list of trees, without the groups around them. -/
def leavesAll : List (TokenTree α) → List α
  | [] => []
  | tree :: rest => leaves tree ++ leavesAll rest

end

end TokenTree

/-- Puts delimiters around the text of a group. Braces, and only they, are padded. -/
def Delimiter.surround (delimiter : Delimiter) (inner : String) : String :=
  match delimiter with
  | paren => "(" ++ inner ++ ")"
  | bracket => "[" ++ inner ++ "]"
  | brace => if inner.isEmpty then "\x7b \x7d" else "\x7b " ++ inner ++ " \x7d"
  | bare => inner

/-- Texts in a row: one blank after each but the last, and none after one that is joined to the
next. -/
def Token.join : List Token → String
  | [] => ""
  | [last] => last.text
  | token :: rest => token.text ++ (if token.joint then "" else " ") ++ join rest

mutual

/-- A tree as one token: a group counts with all its text. -/
def TokenTree.printed : TokenTree Token → Token
  | leaf token => token
  | group delimiter inner => delimiter.surround (Token.join (TokenTree.allPrinted inner))

def TokenTree.allPrinted : List (TokenTree Token) → List Token
  | [] => []
  | tree :: rest => tree.printed :: TokenTree.allPrinted rest

end

namespace Tokens

def words (texts : List String) : Tokens := texts.map fun (text : String) => .leaf text

def text (tokens : Tokens) : String := Token.join (TokenTree.allPrinted tokens)

/-- Printed form without any blank, also where a literal holds one. -/
def compact (tokens : Tokens) : String :=
  String.ofList (tokens.text.toList.filter fun c => c != ' ')

def separated (separator : String) : List Tokens → Tokens
  | [] => []
  | [last] => last
  | item :: rest => item ++ .leaf separator :: separated separator rest

end Tokens

end WireRecord
