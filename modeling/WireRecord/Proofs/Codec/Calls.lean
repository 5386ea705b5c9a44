import WireRecord.Codec.Rendering
import WireRecord.Proofs.Schema.Spelling

/-!
What the code text of a step calls. Only what a template says by itself counts: a name after a dot
or a path separator, with the arguments behind it. Text that is copied out of a declaration, such as
a type in parentheses, never makes a call.
-/

namespace WireRecord

open Template (words paren contract associated)

/-- A called name with its arguments. -/
abbrev Call := String × Template

namespace Template

/-- The call that starts a text, if one does. -/
def called? : Template → Option Call
  | .leaf (.own name) :: .group .paren arguments :: _ => some (name, arguments)
  | _ => none

/-- The calls of a text, without those inside of its groups. -/
def calls : Template → List Call
  | [] => []
  | .leaf (.own word) :: rest =>
    if word = "." ∨ word = "::" then (called? rest).toList ++ calls rest else calls rest
  | _ :: rest => calls rest

/-- No word of the text is the template's own. -/
def IsCopied (t : Template) : Prop := ∀ tree ∈ t, ∀ word, tree ≠ .leaf (.own word)

/-- Copied text in front of other text makes no call, neither in itself nor by what follows it. -/
theorem calls_append_of_isCopied {copied : Template} (h : copied.IsCopied) (rest : Template) :
    calls (copied ++ rest) = calls rest := by
  induction copied with
  | nil => rfl
  | cons tree copied ih =>
      rw [IsCopied, List.forall_mem_cons] at h
      have hRest := ih h.2
      cases tree with
      | group delimiter inner => exact hRest
      | leaf piece =>
          cases piece with
          | own word => exact absurd rfl (h.1 word)
          | copied token => exact hRest
          | runtime => exact hRest

theorem isCopied_copied (tokens : Tokens) : IsCopied tokens.copied := by
  induction tokens with
  | nil => exact List.forall_mem_nil _
  | cons tree tokens ih =>
      cases tree with
      | leaf token =>
          exact List.forall_mem_cons.mpr ⟨fun word h => (by cases h), ih⟩
      | group delimiter inner =>
          exact List.forall_mem_cons.mpr ⟨fun word h => (by cases h), ih⟩

/-- A word that is neither a dot nor a path separator calls nothing. -/
theorem calls_word {word : String} (hDot : word ≠ ".") (hPath : word ≠ "::") (rest : Template) :
    calls (.leaf (.own word) :: rest) = calls rest := if_neg (not_or.mpr ⟨hDot, hPath⟩)

/-- The path of an item that a type has under the contract calls nothing but the item. -/
theorem calls_contract (type : TypeExpr) (name : String) (rest : Template) :
    calls (contract type.template name ++ rest) = calls (words ["::", name] ++ rest) := by
  have hType : IsCopied type.template := isCopied_copied type.tokens
  simp only [contract, associated, List.append_assoc]
  show calls (.leaf (.own "<") :: (type.template ++ _)) = _
  rw [calls_word (by decide) (by decide), calls_append_of_isCopied hType]
  rfl

end Template

open Template

/-- The prefix of the names alone is longer than any short name. -/
theorem Local.name_ne (l : Local) {text : String} (hShort : text.length < 9) : l.name ≠ text := by
  intro h
  have hLength : 9 ≤ l.name.length := by
    rw [name, String.length_append]
    exact Nat.le_add_right ..
  rw [h] at hLength
  omega

/-- The binding of a local variable calls nothing. -/
theorem Template.calls_let (l : Local) (type : TypeExpr) (rest : Template) :
    calls (words ["let", l.name, ":"] ++ type.template ++ rest) = calls rest := by
  have hType : IsCopied type.template := isCopied_copied type.tokens
  rw [List.append_assoc]
  show calls (.leaf (.own "let") :: .leaf (.own l.name) :: .leaf (.own ":") ::
    (type.template ++ rest)) = _
  rw [calls_word (by decide) (by decide), calls_word (l.name_ne (by decide)) (l.name_ne (by decide)),
    calls_word (by decide) (by decide), calls_append_of_isCopied hType]

/-- The local variable that a step binds, with its type. -/
def ReadOp.binding : ReadOp → Local × TypeExpr
  | scalar target type _ => (target, type)
  | nested target type => (target, type)

/-- A number is written by one call, whose name says the byte order unless it is a single byte. -/
theorem WriteOp.calls_scalar (member : MemberName) (encoding : Encoding) :
    (WriteOp.scalar member encoding).template.calls =
      [("write_" ++ encoding.suffix, words ["self", "."] ++ member.template)] := by
  rcases encoding with _ | (_ | _)
  all_goals rfl

/-- A nested member writes itself into the rest of the buffer, which is then passed. -/
theorem WriteOp.calls_nested (member : MemberName) (type : TypeExpr) :
    (WriteOp.nested member type).template.calls =
      [("try_write", words ["&", "self", "."] ++ member.template ++
          words [",", "writer", ".", "remaining_mut"] ++ paren []),
        ("advance", contract type.template "BINARY_SIZE")] := rfl

/-- A number is read by one call without arguments, from a buffer or a sequence alike. -/
theorem ReadOp.calls_scalar (origin : ReadOrigin) (target : Local) (type : TypeExpr)
    (encoding : Encoding) :
    ((ReadOp.scalar target type encoding).template origin).calls =
      [("read_" ++ encoding.suffix, [])] := by
  have hLet := calls_let target type (words ["=", "reader", ".", "read_" ++ encoding.suffix] ++
    paren [] ++ words ["?", ";"])
  refine Eq.trans ?_ (hLet.trans ?_)
  · simp [template, words, Local.template]
  · rcases encoding with _ | (_ | _)
    all_goals rfl

/-- The call by which a nested type reads itself, from what the cursor has left. -/
def ReadOrigin.delegation : ReadOrigin → Call
  | slice => ("try_read", words ["reader", ".", "remaining"] ++ paren [])
  | sequence =>
    ("try_read_sequence", words ["buffer", ".", "slice"] ++
      paren (words ["reader", ".", "position"] ++ paren []))

theorem ReadOrigin.calls_nested (origin : ReadOrigin) (type : TypeExpr) (rest : Template) :
    calls (origin.nested type ++ rest) = origin.delegation :: calls rest := by
  cases origin with
  | slice =>
      simp only [nested, List.append_assoc]
      exact calls_contract type "try_read" _
  | sequence =>
      simp only [nested, List.append_assoc]
      exact calls_contract type "try_read_sequence" _

theorem ReadOp.calls_nested (origin : ReadOrigin) (target : Local) (type : TypeExpr) :
    ((ReadOp.nested target type).template origin).calls =
      [origin.delegation, ("advance", contract type.template "BINARY_SIZE")] := by
  have hLet := calls_let target type (words ["="] ++ (origin.nested type ++
    (words [";", "if", "!", "reader", ".", "advance"] ++
      paren (contract type.template "BINARY_SIZE") ++ orAbsent)))
  refine Eq.trans ?_ (hLet.trans ?_)
  · simp [template, words, Local.template]
  · show calls (.leaf (.own "=") :: _) = _
    rw [calls_word (by decide) (by decide)]
    exact origin.calls_nested type _

end WireRecord
