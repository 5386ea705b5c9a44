import WireRecord.TypeExpr

/-!
Generic parameters and where clauses: as they are declared, and in the three forms in which an
implementation repeats them: with bounds after `impl`, by name after the type, and the where
clause. An implementation never repeats defaults. Lifetimes come first, and what is empty vanishes.
-/

namespace WireRecord

/-- A bound: the trait that it names, if it names one, and its tokens. -/
structure Bound where
  trait? : Option Path
  tokens : Tokens

/-- Bounds joined by `+`, perhaps with one more `+` at the end. -/
structure Bounds where
  items : List Bound
  trailing : Bool := false

namespace Bounds

def tokens (b : Bounds) : Tokens :=
  Tokens.separated "+" (b.items.map Bound.tokens) ++ if b.trailing then [.leaf "+"] else []

/-- The bounds after a colon, or nothing if there are none. -/
def clause (b : Bounds) : Tokens := if b.items.isEmpty then [] else .leaf ":" :: b.tokens

end Bounds

/-- A generic parameter. Its attributes are kept as tokens, and so is its default, with the equals
sign before it. -/
inductive GenericParam where
  | lifetime (attributes : Tokens) (name : String) (bounds : Bounds)
  | type (attributes : Tokens) (name : String) (bounds : Bounds) (default : Tokens)
  | const (attributes : Tokens) (name : String) (of : Tokens) (default : Tokens)

inductive Predicate where
  | lifetime (tokens : Tokens)
  | type (binder : Tokens) (bounded : TypeExpr) (bounds : Bounds)

/-- An item of a list, and whether a comma follows it. -/
structure Listed (α : Type) where
  item : α
  comma : Bool

def Listed.tokens {α : Type} (render : α → Tokens) (items : List (Listed α)) : Tokens :=
  items.flatMap fun i => render i.item ++ if i.comma then [.leaf ","] else []

/-- Items with those that satisfy `first` moved to the front. A comma is added between the two
parts where the front part does not end in one. -/
def Listed.tokensFirst {α : Type} (first : α → Bool) (render : α → Tokens)
    (items : List (Listed α)) : Tokens :=
  let front := items.filter fun i => first i.item
  let back := items.filter fun i => !first i.item
  let gap := !back.isEmpty && front.getLast?.any fun i => !i.comma
  Listed.tokens render front ++ (if gap then [.leaf ","] else []) ++ Listed.tokens render back

/-- The generic parameters and the where clause of a declaration. -/
structure Generics where
  params : List (Listed GenericParam) := []
  predicates : List (Listed Predicate) := []

namespace GenericParam

def isLifetime : GenericParam → Bool
  | lifetime .. => true
  | _ => false

def name : GenericParam → String
  | lifetime _ name _ => name
  | type _ name _ _ => name
  | const _ name _ _ => name

def default : GenericParam → Tokens
  | lifetime .. => []
  | type _ _ _ default => default
  | const _ _ _ default => default

/-- The parameter with its bounds, as it stands after `impl`. -/
def bounded : GenericParam → Tokens
  | lifetime attributes name bounds => attributes ++ .leaf name :: bounds.clause
  | type attributes name bounds _ => attributes ++ .leaf name :: bounds.clause
  | const attributes name of _ =>
    attributes ++ .leaf "const" :: .leaf name :: .leaf ":" :: of

def declaration (p : GenericParam) : Tokens := p.bounded ++ p.default

def typeParam? : GenericParam → Option (String × Bounds)
  | type _ name bounds _ => some (name, bounds)
  | _ => none

end GenericParam

def Predicate.tokens : Predicate → Tokens
  | lifetime tokens => tokens
  | type binder bounded bounds => binder ++ bounded.tokens ++ .leaf ":" :: bounds.tokens

namespace Generics

def angled (g : Generics) (render : GenericParam → Tokens) : Tokens :=
  if g.params.isEmpty then []
  else .leaf "<" :: Listed.tokensFirst GenericParam.isLifetime render g.params ++ [.leaf ">"]

def declaredParams (g : Generics) : Tokens := g.angled GenericParam.declaration

def implParams (g : Generics) : Tokens := g.angled GenericParam.bounded

/-- The parameters as they stand after the name of the type. -/
def typeArguments (g : Generics) : Tokens := g.angled fun p => [.leaf p.name]

def whereClause (g : Generics) : Tokens :=
  if g.predicates.isEmpty then []
  else .leaf "where" :: Listed.tokens Predicate.tokens g.predicates

def typeParams (g : Generics) : List (String × Bounds) :=
  g.params.filterMap fun p => p.item.typeParam?

end Generics

end WireRecord
