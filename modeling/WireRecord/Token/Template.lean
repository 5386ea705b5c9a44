import WireRecord.Token

/-!
Token text with holes for the path that leads to the supporting library. Every token of a template
is marked by where it comes from, so what the template says by itself can be told from what it
copies out of a declaration.
-/

namespace WireRecord

inductive Piece where
  | own (text : String)
  | copied (token : Token)
  | runtime
  deriving DecidableEq, Repr

abbrev Template := List (TokenTree Piece)

def Tokens.copied (tokens : Tokens) : Template :=
  TokenTree.spliceAll (fun token => [.leaf (.copied token)]) tokens

namespace Piece

/-- What stands for a piece once the path is known. -/
def fill (path : Tokens) : Piece → Tokens
  | own text => [.leaf text]
  | copied token => [.leaf token]
  | runtime => path

end Piece

namespace Template

def fill (path : Tokens) (template : Template) : Tokens :=
  TokenTree.spliceAll (Piece.fill path) template

def words (texts : List String) : Template := texts.map fun text => .leaf (.own text)

def hole : Template := [.leaf .runtime]

def paren (inner : Template) : Template := [.group .paren inner]

def bracket (inner : Template) : Template := [.group .bracket inner]

def brace (inner : Template) : Template := [.group .brace inner]

def separated (separator : String) : List Template → Template
  | [] => []
  | [last] => last
  | item :: rest => item ++ words [separator] ++ separated separator rest

end Template

end WireRecord
