import WireRecord.Schema.Classification
import WireRecord.Generics

/-!
What a derive knows about types. It sees one record only, so it takes every plain path for a record
unless the path ends in the name of a standard type that has no fixed size, or is a type parameter;
a type parameter counts if it is bounded by the contract.
-/

namespace WireRecord

def contractName : String := "BinaryStructurable"

/-- Whether a path names the contract: by its last segment. -/
def Path.isContract (p : Path) : Bool := p.last? == some contractName

def nonFixedTypes : List String :=
  ["i128", "u128", "str", "String", "Vec", "VecDeque", "LinkedList", "BinaryHeap", "HashMap",
   "HashSet", "BTreeMap", "BTreeSet", "Box", "Rc", "Arc", "Weak", "Cell", "RefCell", "Mutex",
   "RwLock", "Option", "Result", "Cow", "PhantomData", "OsString", "PathBuf", "CString"]

def Bounds.haveContract (b : Bounds) : Bool :=
  b.items.any fun bound => bound.trait?.any Path.isContract

/-- The name among `params` that a type is, as written. -/
def TypeExpr.param? (type : TypeExpr) (params : List String) : Option String :=
  match type with
  | .path p => p.ident?.filter params.contains
  | _ => none

namespace Generics

def typeNames (g : Generics) : List String := g.typeParams.map Prod.fst

/-- The type parameters bounded by the contract, where they are declared or in the where clause. -/
def contractParams (g : Generics) : List String :=
  (g.typeParams.filterMap fun (name, bounds) => if bounds.haveContract then some name else none) ++
  g.predicates.filterMap fun p =>
    match p.item with
    | .type _ bounded bounds =>
      if bounds.haveContract then bounded.param? g.typeNames else none
    | .lifetime _ => none

/-- The oracle of a derive on a record with these generics. -/
def oracle (g : Generics) : TypeOracle where
  isMarked := fun type =>
    match type with
    | .path p =>
      (type.param? g.typeNames).isNone && p.last?.any fun name => !nonFixedTypes.contains name
    | _ => false
  isImplemented := fun type => (type.param? g.contractParams).isSome

end Generics

end WireRecord
