import WireRecord.Catalog
import WireRecord.Codec.Meaning
import WireRecord.Proofs.Codec.Calls

/-!
The procedures of a record agree member by member. They are emitted one by one from the layout,
which counts the members that take part; the local variables and the constructor go by the indices
among all members. Both ways to count lead to the same members.
-/

namespace WireRecord

open Template (words paren brace separated contract associated)

/-- The steps of a member that is held in a local variable, and what the member adds to the size. A
primitive of one byte is moved as a bare byte, whatever order is asked for; a wider one in that
order; and a nested member by its own type. -/
inductive Member.StepsAgree (m : Member) (l : Local) :
    WriteOp → ReadOp → ReadOp → SizeTerm → Prop where
  | byte {p : Primitive} (hType : m.type.SpellsPrimitive p) (hWidth : p.width = 1) :
      StepsAgree m l (.scalar m.name .byte) (.scalar l m.type .byte) (.scalar l m.type .byte)
        (.primitive m.type.kind m.type)
  | ordered {p : Primitive} (hType : m.type.SpellsPrimitive p) (hWidth : p.width ≠ 1) :
      StepsAgree m l (.scalar m.name (.ordered m.orderAsked))
        (.scalar l m.type (.ordered m.orderAsked)) (.scalar l m.type (.ordered m.orderAsked))
        (.primitive m.type.kind m.type)
  | nested (hType : ∀ p, ¬m.type.SpellsPrimitive p) :
      StepsAgree m l (.nested m.name m.type) (.nested l m.type) (.nested l m.type)
        (.nested m.type)

/-- The calls in the texts of the steps of a member, and the text of its size. -/
inductive Member.CallsAgree (m : Member) : List Call → List Call → List Call → Template → Prop where
  | byte {p : Primitive} (hType : m.type.SpellsPrimitive p) (hWidth : p.width = 1) :
      CallsAgree m [("write_byte", words ["self", "."] ++ m.name.template)] [("read_byte", [])]
        [("read_byte", [])] (associated m.type.template "Primitive" "WIDTH")
  | little {p : Primitive} (hType : m.type.SpellsPrimitive p) (hWidth : p.width ≠ 1)
      (hOrder : m.orderAsked = .little) :
      CallsAgree m [("write_little", words ["self", "."] ++ m.name.template)] [("read_little", [])]
        [("read_little", [])] (associated m.type.template "Primitive" "WIDTH")
  | big {p : Primitive} (hType : m.type.SpellsPrimitive p) (hWidth : p.width ≠ 1)
      (hOrder : m.orderAsked = .big) :
      CallsAgree m [("write_big", words ["self", "."] ++ m.name.template)] [("read_big", [])]
        [("read_big", [])] (associated m.type.template "Primitive" "WIDTH")
  | nested (hType : ∀ p, ¬m.type.SpellsPrimitive p) :
      CallsAgree m
        [("try_write", words ["&", "self", "."] ++ m.name.template ++
            words [",", "writer", ".", "remaining_mut"] ++ paren []),
          ("advance", contract m.type.template "BINARY_SIZE")]
        [("try_read", words ["reader", ".", "remaining"] ++ paren []),
          ("advance", contract m.type.template "BINARY_SIZE")]
        [("try_read_sequence", words ["buffer", ".", "slice"] ++
            paren (words ["reader", ".", "position"] ++ paren [])),
          ("advance", contract m.type.template "BINARY_SIZE")]
        (contract m.type.template "BINARY_SIZE")

/-- The texts of the steps call what the steps do. -/
theorem Member.StepsAgree.calls {m : Member} {l : Local} {w : WriteOp} {r s : ReadOp} {t : SizeTerm}
    (h : m.StepsAgree l w r s t) :
    m.CallsAgree w.template.calls (r.template .slice).calls (s.template .sequence).calls
      t.template := by
  cases h with
  | byte hType hWidth =>
      rw [ReadOp.calls_scalar, ReadOp.calls_scalar]
      exact .byte hType hWidth
  | ordered hType hWidth =>
      rw [WriteOp.calls_scalar, ReadOp.calls_scalar, ReadOp.calls_scalar]
      cases hOrder : m.orderAsked with
      | little => exact .little hType hWidth hOrder
      | big => exact .big hType hWidth hOrder
  | nested hType =>
      rw [WriteOp.calls_nested, ReadOp.calls_nested, ReadOp.calls_nested]
      exact .nested hType

namespace ReadOp

variable {ρ : Type} [RecordCursor ρ] {env : Environment} {r r' : ρ} {locals locals' : Locals}

end ReadOp

namespace Layout

variable {d : Declaration} {oracle : TypeOracle} {config : Config} {layout : Layout}

end Layout

namespace Sample

open Catalog

/-- A byte for which an order is asked, a field and an accessor that are not encoded, and a nested
record between two numbers. -/
def ticketDeclaration : Declaration :=
  record "Ticket" [
    big "kind" "u8", skipped "cached" "u32",
    { name := .named "total", type := .named "u64", access := .property false true false },
    big "number" "u16", bare "stamp" "Stamp", little "price" "f64"]

end Sample

end WireRecord
