import WireRecord.Token

/-!
Types, paths and option values as they are written in a declaration. Paths are kept in full; of
other types only the form and the token text matter, because nothing ever looks inside them.
-/

namespace WireRecord

/-- The generic arguments of a path segment: their tokens, delimiters included, and whether the
list holds nothing. -/
structure Arguments where
  tokens : Tokens
  isEmpty : Bool

structure PathSegment where
  name : String
  arguments : Option Arguments := none

structure Path where
  leading : Bool := false
  segments : List PathSegment

namespace PathSegment

def hasArguments (s : PathSegment) : Bool := s.arguments.any fun a => !a.isEmpty

def tokens (s : PathSegment) : Tokens :=
  .leaf s.name :: (s.arguments.map Arguments.tokens).getD []

end PathSegment

namespace Path

def ofNames (names : List String) : Path := { segments := names.map fun name => { name } }

def names (p : Path) : List String := p.segments.map PathSegment.name

def last? (p : Path) : Option String := p.names.getLast?

/-- The name that is the whole path: one segment, no leading `::`, no argument list. -/
def ident? (p : Path) : Option String :=
  match p.leading, p.segments with
  | false, [⟨name, none⟩] => some name
  | _, _ => none

def tokens (p : Path) : Tokens :=
  (if p.leading then [.leaf "::"] else []) ++
    Tokens.separated "::" (p.segments.map PathSegment.tokens)

end Path

/-- The form of a type that is neither a path nor a grouping. -/
inductive TypeForm where
  | reference | pointer | slice | array | tuple | function | traitObject | implTrait
  | never | inferred | macroCall
  /-- A form that is only copied, as it stands in the source. -/
  | verbatim
  deriving DecidableEq, Repr

inductive TypeExpr where
  | path (path : Path)
  /-- A path with a qualified self type, such as `<T as Trait>::Item`. -/
  | qualified (tokens : Tokens)
  | paren (inner : TypeExpr)
  | group (inner : TypeExpr)
  | other (form : TypeForm) (tokens : Tokens)

namespace TypeExpr

def named (name : String) : TypeExpr := .path (Path.ofNames [name])

/-- The type without the parentheses and invisible groups around it. -/
def peel : TypeExpr → TypeExpr
  | paren inner => inner.peel
  | group inner => inner.peel
  | type => type

def path? (type : TypeExpr) : Option Path :=
  match type.peel with
  | .path p => some p
  | _ => none

def tokens : TypeExpr → Tokens
  | .path p => p.tokens
  | qualified tokens => tokens
  | paren inner => [.group .paren inner.tokens]
  | group inner => [.group .bare inner.tokens]
  | other _ tokens => tokens

end TypeExpr

inductive ValueExpr where
  | path (path : Path)
  /-- A path with a qualified self type, such as `<T as Trait>::VALUE`. -/
  | qualified (tokens : Tokens)
  /-- A string literal: the text it denotes, and its tokens. -/
  | text (value : String) (tokens : Tokens)
  | paren (inner : ValueExpr)
  | group (inner : ValueExpr)
  | attributed (attributes : Tokens) (inner : ValueExpr)
  /-- An expression that is only copied, as it stands in the source. -/
  | verbatim (tokens : Tokens)
  | other (tokens : Tokens)

namespace ValueExpr

/-- The value without the parentheses, the invisible groups and the attributes around it. -/
def peel : ValueExpr → ValueExpr
  | paren inner => inner.peel
  | group inner => inner.peel
  | attributed _ inner => inner.peel
  | value => value

def tokens : ValueExpr → Tokens
  | .path p => p.tokens
  | qualified tokens => tokens
  | text _ tokens => tokens
  | paren inner => [.group .paren inner.tokens]
  | group inner => [.group .bare inner.tokens]
  | attributed attributes inner => attributes ++ inner.tokens
  | verbatim tokens => tokens
  | other tokens => tokens

end ValueExpr

end WireRecord
