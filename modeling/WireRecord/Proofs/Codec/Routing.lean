import WireRecord.Codec.Compilation
import WireRecord.Codec.Rendering
import WireRecord.Proofs.Codec.Calls
import WireRecord.Proofs.Schema.Inclusion

/-!
How emitted code reaches the supporting library: through the hole of its template only. Each hole is
followed by an item of the library and each item stands behind a hole; the other words of a template
are common ones, and the rest is copied out of the declaration.
-/

namespace WireRecord

/-- The items of the supporting library that emitted code uses. -/
def libraryItems : List String :=
  ["BinaryStructurable", "Primitive", "BufferWriter", "ByteWriter", "ByteReader", "ByteSequence",
    "SequenceReader"]

/-- A name that belongs to a package of the supporting library, or that starts a path through the
package for which code is emitted. -/
def NamesPackage (text : String) : Prop :=
  "binstruct".toList <+: text.toList ∨ text = "crate" ∨ text = "super"

instance (text : String) : Decidable (NamesPackage text) :=
  inferInstanceAs (Decidable (_ ∨ _ ∨ _))

/-- A word that has nothing to do with the supporting library. -/
def IsCommon (text : String) : Prop := ¬NamesPackage text ∧ text ∉ libraryItems

instance (text : String) : Decidable (IsCommon text) := inferInstanceAs (Decidable (_ ∧ _))

namespace Template

/-- A template that reaches the supporting library through its holes only, and copies no tokens but
owned ones. -/
inductive Routed (owned : Token → Prop) : Template → Prop where
  | nil : Routed owned []
  | word {text : String} {rest : Template} (hText : IsCommon text) (hRest : Routed owned rest) :
      Routed owned (.leaf (.own text) :: rest)
  | copied {token : Token} {rest : Template} (hToken : owned token) (hRest : Routed owned rest) :
      Routed owned (.leaf (.copied token) :: rest)
  | item {name : String} {rest : Template} (hName : name ∈ libraryItems)
      (hRest : Routed owned rest) :
      Routed owned (.leaf .runtime :: .leaf (.own "::") :: .leaf (.own name) :: rest)
  | group {inner rest : Template} (delimiter : Delimiter) (hInner : Routed owned inner)
      (hRest : Routed owned rest) : Routed owned (.group delimiter inner :: rest)

section Closure

variable {owned : Token → Prop} {t rest : Template}

theorem Routed.append (h : Routed owned t) (hRest : Routed owned rest) :
    Routed owned (t ++ rest) := by
  induction h with
  | nil => exact hRest
  | word hText _ ih => exact .word hText ih
  | copied hToken _ ih => exact .copied hToken ih
  | item hName _ ih => exact .item hName ih
  | group delimiter hInner _ _ ih => exact .group delimiter hInner ih

/-- What stands behind a routed template is routed by itself. -/
theorem Routed.of_append (h : Routed owned t) (hAll : Routed owned (t ++ rest)) :
    Routed owned rest := by
  induction h with
  | nil => exact hAll
  | word _ _ ih => cases hAll with | word _ hLater => exact ih hLater
  | copied _ _ ih => cases hAll with | copied _ hLater => exact ih hLater
  | item _ _ ih => cases hAll with | item _ hLater => exact ih hLater
  | group _ _ _ _ ih => cases hAll with | group _ _ hLater => exact ih hLater

/-- With this `simp` takes a text apart from the front. -/
@[simp]
theorem Routed.append_iff (h : Routed owned t) :
    Routed owned (t ++ rest) ↔ Routed owned rest := ⟨h.of_append, h.append⟩

@[simp]
theorem routed_nil : Routed owned [] := .nil

@[simp]
theorem routed_words_iff {texts : List String} :
    Routed owned (words texts) ↔ ∀ text ∈ texts, IsCommon text := by
  induction texts with
  | nil => exact iff_of_true .nil (List.forall_mem_nil _)
  | cons text texts ih =>
      rw [List.forall_mem_cons, ← ih]
      constructor
      · intro h
        cases h with
        | word hText hRest => exact ⟨hText, hRest⟩
      · rintro ⟨hText, hRest⟩
        exact .word hText hRest

/-- An item stands behind the hole by construction, so it remains that the library has it. -/
@[simp]
theorem routed_item_iff {name : String} : Routed owned (item name) ↔ name ∈ libraryItems := by
  constructor
  · intro h
    cases h with
    | item hName _ => exact hName
  · intro hName
    exact .item hName .nil

theorem routed_group_iff {delimiter : Delimiter} :
    Routed owned [.group delimiter t] ↔ Routed owned t := by
  constructor
  · intro h
    cases h with
    | group _ hInner _ => exact hInner
  · intro hInner
    exact .group delimiter hInner .nil

@[simp]
theorem routed_paren_iff : Routed owned (paren t) ↔ Routed owned t := routed_group_iff

@[simp]
theorem routed_bracket_iff : Routed owned (bracket t) ↔ Routed owned t := routed_group_iff

@[simp]
theorem routed_brace_iff : Routed owned (brace t) ↔ Routed owned t := routed_group_iff

theorem routed_separated {separator : String} (hSeparator : IsCommon separator)
    {items : List Template} (h : ∀ t ∈ items, Routed owned t) :
    Routed owned (separated separator items) := by
  induction items with
  | nil => exact .nil
  | cons first items ih =>
      rw [List.forall_mem_cons] at h
      cases items with
      | nil => exact h.1
      | cons second items => exact (h.1.append (.word hSeparator .nil)).append (ih h.2)

theorem routed_flatMap {α : Type} {f : α → Template} {items : List α}
    (h : ∀ a ∈ items, Routed owned (f a)) : Routed owned (items.flatMap f) := by
  induction items with
  | nil => exact .nil
  | cons a items ih =>
      rw [List.forall_mem_cons] at h
      exact h.1.append (ih h.2)

mutual

theorem routed_splice {tree : TokenTree Token} (h : ∀ token ∈ tree.leaves, owned token) :
    Routed owned (tree.splice fun token => [.leaf (.copied token)]) := by
  cases tree with
  | leaf token => exact .copied (h token (List.mem_singleton_self token)) .nil
  | group delimiter inner => exact .group delimiter (routed_copied h) .nil

/-- Copied text is routed if all of its tokens may be copied. -/
theorem routed_copied {tokens : Tokens} (h : ∀ token ∈ TokenTree.leavesAll tokens, owned token) :
    Routed owned tokens.copied := by
  cases tokens with
  | nil => exact .nil
  | cons tree tokens =>
      have hAll := List.forall_mem_append.mp h
      exact (routed_splice hAll.1).append (routed_copied hAll.2)

end

end Closure

end Template

open Template

section Texts

variable {owned : Token → Prop} {type : TypeExpr} {m : IncludedMember}

namespace Template

/-- What a type has under a trait of the library: the trait is the item behind the hole. -/
@[simp]
theorem routed_associated {type : Template} {trait constant : String} (hType : Routed owned type)
    (hTrait : trait ∈ libraryItems) (hConstant : IsCommon constant) :
    Routed owned (associated type trait constant) := by
  simp +decide [associated, hType, hTrait, hConstant]

@[simp]
theorem routed_contract {type : Template} {name : String} (hType : Routed owned type)
    (hName : IsCommon name) : Routed owned (contract type name) :=
  routed_associated hType (by decide) hName

@[simp]
theorem routed_ofSelf {name : String} (hName : IsCommon name) : Routed owned (ofSelf name) :=
  routed_contract (routed_words_iff.mpr (by decide)) hName

@[simp]
theorem routed_orFalse : Routed owned orFalse := by
  simp +decide [orFalse]

@[simp]
theorem routed_orAbsent : Routed owned orAbsent := by
  simp +decide [orAbsent, absent]

end Template

/-- The procedure that writes to a sink is the same for all records, and copies nothing. -/
@[simp]
theorem routed_writeToTemplate : Routed owned writeToTemplate := by
  simp +decide [writeToTemplate]

/-- A word that starts with an underscore is neither an item nor the name of a package. -/
theorem isCommon_of_underscore {text : String} (h : text.toList.head? = some '_') :
    IsCommon text := by
  constructor
  · rintro (⟨rest, hRest⟩ | rfl | rfl)
    · rw [← hRest] at h
      exact absurd h (by simp)
    · exact absurd h (by decide)
    · exact absurd h (by decide)
  · intro hItem
    have hItems : ∀ item ∈ libraryItems, item.toList.head? ≠ some '_' := by decide
    exact hItems text hItem h

/-- Local variables cannot be taken for anything of the library. -/
theorem Local.isCommon_name (l : Local) : IsCommon l.name := by
  apply isCommon_of_underscore
  rw [name, String.toList_append]
  rfl

@[simp]
theorem Local.routed_template (l : Local) : Routed owned l.template :=
  routed_words_iff.mpr (List.forall_mem_singleton.mpr l.isCommon_name)

/-- All tokens of a type may be copied. -/
def TypeExpr.IsOwned (owned : Token → Prop) (type : TypeExpr) : Prop :=
  ∀ token ∈ TokenTree.leavesAll type.tokens, owned token

@[simp]
theorem TypeExpr.IsOwned.routed (h : type.IsOwned owned) : Routed owned type.template :=
  routed_copied h

/-- The name of a member and all tokens of its type may be copied. -/
structure IncludedMember.IsOwned (owned : Token → Prop) (m : IncludedMember) : Prop where
  name : owned m.name.text
  type : m.type.IsOwned owned

theorem MemberName.routed_template {name : MemberName} (h : owned name.text) :
    Routed owned name.template := .copied h .nil

namespace IncludedMember.IsOwned

theorem routed_sizeTerm (h : m.IsOwned owned) : Routed owned m.sizeTerm.template := by
  have hType := h.type.routed
  rw [IncludedMember.sizeTerm]
  split
  · simp +decide [SizeTerm.template, hType]
  · simp +decide [SizeTerm.template, hType]

theorem routed_writeOp (h : m.IsOwned owned) : Routed owned m.writeOp.template := by
  have hName := MemberName.routed_template h.name
  have hType := h.type.routed
  rw [writeOp]
  split
  · rcases m.encoding with _ | (_ | _) <;>
      simp +decide [WriteOp.template, Encoding.suffix, hName]
  · simp +decide [WriteOp.template, hName, hType]

theorem routed_readOp (h : m.IsOwned owned) (origin : ReadOrigin) :
    Routed owned (m.readOp.template origin) := by
  have hType := h.type.routed
  rw [readOp]
  split
  · rcases m.encoding with _ | (_ | _) <;>
      simp +decide [ReadOp.template, Encoding.suffix, hType]
  · cases origin <;> simp +decide [ReadOp.template, ReadOrigin.nested, hType]

end IncludedMember.IsOwned

/-- The start of a cursor, if there is something to be moved. -/
theorem routed_cursorTemplate {name cursor : String} (hName : IsCommon name)
    (hCursor : cursor ∈ libraryItems) (needed : Bool) :
    Routed owned (cursorTemplate name cursor needed) := by
  cases needed with
  | false => exact .nil
  | true => simp +decide [cursorTemplate, hName, hCursor]

namespace Layout

variable {layout : Layout} {d : Declaration}

/-- The constant for the size adds up what the members say. -/
theorem routed_size (h : ∀ m ∈ layout.members, m.IsOwned owned) :
    Routed owned (sizeTemplate layout.sizeTerms) := by
  have hSum : Routed owned (SizeTerm.sumTemplate layout.sizeTerms) := by
    rw [SizeTerm.sumTemplate]
    split
    · simp +decide
    · apply routed_separated (by decide)
      simp only [sizeTerms, List.map_map, List.forall_mem_map]
      exact fun m hMember => (h m hMember).routed_sizeTerm
  simp +decide [sizeTemplate, hSum]

/-- The writer: a cursor, the steps of the members, and common words around. -/
theorem routed_write (h : ∀ m ∈ layout.members, m.IsOwned owned) :
    Routed owned (writeTemplate (layout.members.map IncludedMember.writeOp)) := by
  have hSteps : Routed owned
      ((layout.members.map IncludedMember.writeOp).flatMap WriteOp.template) := by
    apply routed_flatMap
    rw [List.forall_mem_map]
    exact fun m hMember => (h m hMember).routed_writeOp
  have hCursor (needed : Bool) : Routed owned (cursorTemplate "writer" "ByteWriter" needed) :=
    routed_cursorTemplate (by decide) (by decide) needed
  simp +decide [writeTemplate, hCursor, hSteps]

/-- Both readers take the same steps, with a cursor each of its own. -/
theorem routed_steps (h : ∀ m ∈ layout.members, m.IsOwned owned) (origin : ReadOrigin)
    {cursor : String} (hCursor : cursor ∈ libraryItems) :
    Routed owned (layout.readProcedure.steps origin cursor) := by
  have hSteps : Routed owned (layout.readProcedure.ops.flatMap (ReadOp.template origin)) := by
    apply routed_flatMap
    simp only [readProcedure, List.forall_mem_map]
    exact fun m hMember => (h m hMember).routed_readOp origin
  have hArguments : Routed owned
      (separated "," (layout.readProcedure.arguments.map Local.template)) := by
    apply routed_separated (by decide)
    rw [List.forall_mem_map]
    exact fun l _ => l.routed_template
  have hStart (needed : Bool) : Routed owned (cursorTemplate "reader" cursor needed) :=
    routed_cursorTemplate (by decide) hCursor needed
  simp +decide [ReadProcedure.steps, ReadProcedure.build, hStart, hSteps, hArguments]

/-- The reader from a buffer, behind its look at the length. -/
theorem routed_read (h : ∀ m ∈ layout.members, m.IsOwned owned) :
    Routed owned layout.readProcedure.template := by
  have hSteps : Routed owned (layout.readProcedure.steps .slice "ByteReader") :=
    routed_steps h .slice (by decide)
  simp +decide [ReadProcedure.template, optionalSelf, hSteps]

/-- The reader from a sequence, with its way round for a first segment that is long enough. -/
theorem routed_readSequence (h : ∀ m ∈ layout.members, m.IsOwned owned) :
    Routed owned layout.readProcedure.sequenceTemplate := by
  have hSteps : Routed owned (layout.readProcedure.steps .sequence "SequenceReader") :=
    routed_steps h .sequence (by decide)
  -- `simp` does not get through the groups around this return, so it is shown on its own.
  have hFirst : Routed owned (words ["return"] ++ (ofSelf "try_read" ++
      (paren (words ["buffer", ".", "first_segment"] ++ paren []) ++ words [";"]))) := by
    simp +decide
  simp +decide [ReadProcedure.sequenceTemplate, optionalSelf, hFirst, hSteps]

theorem routed_init (init : Init) : Routed owned init.template := by
  cases init with
  | argument source => exact source.routed_template
  | default type => simp +decide [Init.template]

/-- The constructor sets members of the declaration only. -/
theorem name_of_mem_inits {entry : MemberName × Init}
    (h : entry ∈ (layout.constructor d).inits) : ∃ m ∈ d.members, entry.1 = m.name := by
  obtain ⟨⟨m, index⟩, hMember, hInit⟩ := List.mem_filterMap.mp h
  refine ⟨m, List.fst_mem_of_mem_zipIdx hMember, ?_⟩
  simp only [init?] at hInit
  split at hInit
  · cases hInit
    rfl
  · obtain ⟨_, hInit⟩ := Option.ite_none_right_eq_some.mp hInit
    cases hInit
    rfl

/-- In each of the three forms of records the constructor sets members by their names or in order.
-/
theorem routed_body (hNames : ∀ m ∈ d.members, owned m.name.text) :
    Routed owned (layout.constructor d).body := by
  have hSelf : Routed owned (words ["Self"]) := routed_words_iff.mpr (by decide)
  rw [Constructor.body]
  cases (layout.constructor d).form with
  | named =>
      have hInits : Routed owned (separated "," ((layout.constructor d).inits.map
          fun entry => entry.1.template ++ words [":"] ++ entry.2.template)) := by
        apply routed_separated (by decide)
        rw [List.forall_mem_map]
        intro entry hEntry
        obtain ⟨m, hMember, hName⟩ := name_of_mem_inits hEntry
        have hMemberName : Routed owned entry.1.template :=
          hName ▸ MemberName.routed_template (hNames m hMember)
        simp +decide [hMemberName, routed_init]
      exact hSelf.append (routed_brace_iff.mpr hInits)
  | tuple =>
      have hInits : Routed owned (separated "," ((layout.constructor d).inits.map
          fun entry => entry.2.template)) := by
        apply routed_separated (by decide)
        rw [List.forall_mem_map]
        exact fun entry _ => routed_init entry.2
      exact hSelf.append (routed_paren_iff.mpr hInits)
  | unit => exact hSelf

/-- The constructor, with the attributes that keep it out of sight. -/
theorem routed_constructor (h : ∀ m ∈ layout.members, m.IsOwned owned)
    (hNames : ∀ m ∈ d.members, owned m.name.text) :
    Routed owned (layout.constructor d).template := by
  have hHead : Routed owned (words ["#"] ++ bracket (words ["doc"] ++ paren (words ["hidden"])) ++
      words ["#"] ++ bracket (words ["inline"]) ++
      words ["#"] ++ bracket (words ["allow"] ++
        paren (words ["clippy", "::", "too_many_arguments"])) ++
      words ["fn", constructorName]) := by
    simp +decide
  have hParameters : Routed owned (separated "," ((layout.constructor d).parameters.map
      fun p => p.1.template ++ words [":"] ++ p.2.template)) := by
    apply routed_separated (by decide)
    simp only [Layout.constructor, List.map_map, List.forall_mem_map]
    intro m hMember
    have hType := (h m hMember).type.routed
    simp +decide [hType]
  have hBody : Routed owned (layout.constructor d).body := routed_body hNames
  exact ((hHead.append (routed_paren_iff.mpr hParameters)).append
    (routed_words_iff.mpr (by decide))).append (routed_brace_iff.mpr hBody)

end Layout

end Texts

end WireRecord
