import WireRecord.Proofs.Codec.Agreement
import WireRecord.Proofs.Schema.Reordering

/-!
What a byte order changes in the procedures of a record. Where a member is moved as a number of
several bytes, its own steps change, and of their texts one word each; where it is moved as a byte
or moves itself, nothing changes.
-/

namespace WireRecord

/-- Two lists are the same but for what stands at a place of them. -/
def ReplacedAt {α : Type} (place : Nat) (old new : α) (first second : List α) : Prop :=
  ∃ before after, before.length = place ∧ first = before ++ old :: after ∧
    second = before ++ new :: after

theorem replacedAt_set {α : Type} {place : Nat} {old : α} {items : List α}
    (hOld : items[place]? = some old) (new : α) :
    ReplacedAt place old new items (items.set place new) := by
  obtain ⟨hPlace, rfl⟩ := List.getElem?_eq_some_iff.mp hOld
  refine ⟨items.take place, items.drop (place + 1), List.length_take_of_le (Nat.le_of_lt hPlace), ?_, ?_⟩
  · rw [← List.drop_eq_getElem_cons hPlace, List.take_append_drop]
  · rw [List.set_eq_take_append_cons_drop, if_pos hPlace]

theorem ReplacedAt.map {α β : Type} {place : Nat} {old new : α} {first second : List α}
    (h : ReplacedAt place old new first second) (f : α → β) :
    ReplacedAt place (f old) (f new) (first.map f) (second.map f) := by
  obtain ⟨before, after, rfl, rfl, rfl⟩ := h
  exact ⟨before.map f, after.map f, List.length_map .., List.map_append, List.map_append⟩

theorem ReplacedAt.eq_of_same {α : Type} {place : Nat} {a : α} {first second : List α}
    (h : ReplacedAt place a a first second) : second = first := by
  obtain ⟨before, after, _, rfl, rfl⟩ := h
  rfl

namespace Template

/-- Two texts are the same but for one word, `old` in the first and `new` in the second. -/
inductive Swaps (old new : String) : Template → Template → Prop where
  | here (rest : Template) : Swaps old new (.leaf (.own old) :: rest) (.leaf (.own new) :: rest)
  | inside {inner inner' : Template} (delimiter : Delimiter) (rest : Template)
      (h : Swaps old new inner inner') :
      Swaps old new (.group delimiter inner :: rest) (.group delimiter inner' :: rest)
  | later {rest rest' : Template} (tree : TokenTree Piece) (h : Swaps old new rest rest') :
      Swaps old new (tree :: rest) (tree :: rest')

namespace Swaps

variable {old new : String} {text text' : Template}

theorem append_left (h : Swaps old new text text') (before : Template) :
    Swaps old new (before ++ text) (before ++ text') := by
  induction before with
  | nil => exact h
  | cons tree before ih => exact .later tree ih

theorem append_right (h : Swaps old new text text') (after : Template) :
    Swaps old new (text ++ after) (text' ++ after) := by
  induction h with
  | here rest => exact .here (rest ++ after)
  | inside delimiter rest h ih => exact .inside delimiter (rest ++ after) h
  | later tree h ih => exact .later tree ih

theorem brace (h : Swaps old new text text') :
    Swaps old new (Template.brace text) (Template.brace text') := .inside .brace [] h

/-- The texts of lists of steps differ in the text of the one step in which the lists differ. -/
theorem flatMap {α : Type} {place : Nat} {step step' : α} {steps steps' : List α}
    (h : ReplacedAt place step step' steps steps') {render : α → Template}
    (hStep : Swaps old new (render step) (render step')) :
    Swaps old new (steps.flatMap render) (steps'.flatMap render) := by
  obtain ⟨before, after, _, rfl, rfl⟩ := h
  rw [List.flatMap_append, List.flatMap_append, List.flatMap_cons, List.flatMap_cons]
  exact (hStep.append_right _).append_left _

end Swaps

end Template

open Template (words paren Swaps)

section Texts

variable {place : Nat} {name : MemberName} {l : Local} {type : TypeExpr} {old new : ByteOrder}

theorem swaps_writeTemplate {ops ops' : List WriteOp}
    (h : ReplacedAt place (.scalar name (.ordered old)) (.scalar name (.ordered new)) ops ops') :
    Swaps ("write_" ++ (Encoding.ordered old).suffix) ("write_" ++ (Encoding.ordered new).suffix)
      (writeTemplate ops) (writeTemplate ops') := by
  have hStep : Swaps ("write_" ++ (Encoding.ordered old).suffix)
      ("write_" ++ (Encoding.ordered new).suffix)
      (WriteOp.scalar name (.ordered old)).template (WriteOp.scalar name (.ordered new)).template :=
    .later _ (.later _ (.later _ (.later _ (.here _))))
  have hSteps := Swaps.flatMap h hStep
  obtain ⟨before, after, _, rfl, rfl⟩ := h
  have hEmpty : ∀ op : WriteOp, (before ++ op :: after).isEmpty = false := by simp
  rw [writeTemplate, writeTemplate, hEmpty, hEmpty]
  exact ((hSteps.append_left _).append_right _).brace.append_left _

/-- Of the text of either reader one method name changes. -/
theorem swaps_steps {p p' : ReadProcedure} (origin : ReadOrigin) (cursor : String)
    (h : ReplacedAt place (.scalar l type (.ordered old)) (.scalar l type (.ordered new))
      p.ops p'.ops) (hArguments : p'.arguments = p.arguments) :
    Swaps ("read_" ++ (Encoding.ordered old).suffix) ("read_" ++ (Encoding.ordered new).suffix)
      (p.steps origin cursor) (p'.steps origin cursor) := by
  have hMethod (rest : Template) : Swaps ("read_" ++ (Encoding.ordered old).suffix)
      ("read_" ++ (Encoding.ordered new).suffix)
      (words ["=", "reader", ".", "read_" ++ (Encoding.ordered old).suffix] ++ rest)
      (words ["=", "reader", ".", "read_" ++ (Encoding.ordered new).suffix] ++ rest) :=
    .later _ (.later _ (.later _ (.here _)))
  have hStep : Swaps ("read_" ++ (Encoding.ordered old).suffix)
      ("read_" ++ (Encoding.ordered new).suffix)
      ((ReadOp.scalar l type (.ordered old)).template origin)
      ((ReadOp.scalar l type (.ordered new)).template origin) := by
    have hLet := (hMethod (paren [] ++ words ["?", ";"])).append_left
      (words ["let"] ++ l.template ++ words [":"] ++ type.template)
    simpa only [ReadOp.template, List.append_assoc] using hLet
  have hSteps := Swaps.flatMap h hStep
  have hBuild : p'.build = p.build := by rw [ReadProcedure.build, hArguments, ReadProcedure.build]
  have hEmpty : p'.ops.isEmpty = p.ops.isEmpty := by
    obtain ⟨before, after, _, hFirst, hSecond⟩ := h
    have hSome : ∀ op : ReadOp, (before ++ op :: after).isEmpty = false := by simp
    rw [hFirst, hSecond, hSome, hSome]
  rw [ReadProcedure.steps, ReadProcedure.steps, hBuild, hEmpty]
  exact (hSteps.append_left _).append_right _

end Texts

/-- The procedures of two records differ only in how one member is moved, which is held in a local
variable: in its own steps, and of the texts in the name of the method there. -/
structure Procedures.DifferAt (p p' : Procedures) (m : Member) (l : Local) (place : Nat)
    (old new : ByteOrder) : Prop where
  size_eq : p'.size = p.size
  constructor_eq : p'.constructor = p.constructor
  write : ReplacedAt place (.scalar m.name (.ordered old)) (.scalar m.name (.ordered new))
    p.write p'.write
  read : ReplacedAt place (.scalar l m.type (.ordered old)) (.scalar l m.type (.ordered new))
    p.read.ops p'.read.ops
  readSequence : ReplacedAt place (.scalar l m.type (.ordered old)) (.scalar l m.type (.ordered new))
    p.readSequence.ops p'.readSequence.ops
  read_arguments : p'.read.arguments = p.read.arguments
  readSequence_arguments : p'.readSequence.arguments = p.readSequence.arguments

/-- The texts of two records differ only in the names of the methods by which one member is moved.
-/
structure ProcedureTemplates.DifferIn (t t' : ProcedureTemplates) (old new : ByteOrder) : Prop where
  size_eq : t'.size = t.size
  constructor_eq : t'.constructor = t.constructor
  writeTo_eq : t'.writeTo = t.writeTo
  write : Swaps ("write_" ++ (Encoding.ordered old).suffix)
    ("write_" ++ (Encoding.ordered new).suffix) t.write t'.write
  read : Swaps ("read_" ++ (Encoding.ordered old).suffix)
    ("read_" ++ (Encoding.ordered new).suffix) t.read t'.read
  readSequence : Swaps ("read_" ++ (Encoding.ordered old).suffix)
    ("read_" ++ (Encoding.ordered new).suffix) t.readSequence t'.readSequence

theorem Procedures.DifferAt.templates {p p' : Procedures} {m : Member} {l : Local} {place : Nat}
    {old new : ByteOrder} (h : p.DifferAt p' m l place old new) :
    p.templates.DifferIn p'.templates old new where
  size_eq := by rw [Procedures.templates, Procedures.templates, h.size_eq]
  constructor_eq := by rw [Procedures.templates, Procedures.templates, h.constructor_eq]
  writeTo_eq := rfl
  write := swaps_writeTemplate h.write
  read := ((swaps_steps .slice "ByteReader" h.read h.read_arguments).append_left _).brace.append_left _
  readSequence :=
    ((swaps_steps .sequence "SequenceReader" h.readSequence h.readSequence_arguments).append_left
      _).brace.append_left _

namespace IncludedMember

variable {m : IncludedMember}

/-- A number of several bytes is moved in the byte order of its member. -/
theorem Sound.ops_of_wide (h : m.Sound) {p : Primitive} (hType : m.type.SpellsPrimitive p)
    (hWidth : p.width ≠ 1) (order : ByteOrder) :
    { m with order }.writeOp = .scalar m.name (.ordered order) ∧
      { m with order }.readOp = .scalar m.target m.type (.ordered order) := by
  have hSound : { m with order }.Sound := ⟨h.kind_eq, h.hasWidth⟩
  have hKind := TypeExpr.primitive?_kind_eq_some_iff.mpr hType
  rcases hSound.primitive_or_nested with ⟨p', hKind', hPrimitive, hEncoding⟩ | ⟨hNone, _⟩
  · obtain rfl : p' = p := Option.some.inj (hKind'.symm.trans hKind)
    have hWide : ¬p'.isSingleByte := fun hSingle => hWidth (beq_iff_eq.mp hSingle)
    rw [writeOp, readOp, if_pos hPrimitive, if_pos hPrimitive, hEncoding, Primitive.encoding,
      if_neg hWide]
    exact ⟨rfl, rfl⟩
  · cases hNone.symm.trans hKind

/-- A byte and a nested record are moved alike in every byte order. -/
theorem Sound.ops_of_narrow (h : m.Sound)
    (hType : ∀ p, m.type.SpellsPrimitive p → p.width = 1) (order : ByteOrder) :
    { m with order }.writeOp = m.writeOp ∧ { m with order }.readOp = m.readOp := by
  rcases h.primitive_or_nested with ⟨p, hKind, hPrimitive, hEncoding⟩ | ⟨_, hUser⟩
  · have hSingle : p.isSingleByte :=
      beq_iff_eq.mpr (hType p (TypeExpr.primitive?_kind_eq_some_iff.mp hKind))
    have hByte : m.classification.isSingleByte := by
      rw [encoding, Primitive.encoding, if_pos hSingle] at hEncoding
      split at hEncoding
      · assumption
      · cases hEncoding
    simp [writeOp, readOp, encoding, target, hPrimitive, hByte]
  · simp [writeOp, readOp, target, hUser]

end IncludedMember

namespace Layout

variable {d : Declaration} {oracle : TypeOracle} {config : Config} {layout : Layout} {m : Member}
  {index : Nat} {options : List MarkerOption} {order : ByteOrder}

/-- No byte order has a part in the size. -/
theorem sizeTerms_withOrder (l : Layout) (index : Nat) (order : ByteOrder) :
    (l.withOrder index order).sizeTerms = l.sizeTerms := by
  rw [sizeTerms, withOrder, List.map_map, sizeTerms]
  congr 1
  funext m
  exact m.sizeTerm_withOrder index order

/-- The constructor knows of no options and of no order. -/
theorem constructor_withOrder (l : Layout) (d : Declaration) (index : Nat)
    (options : List MarkerOption) (order : ByteOrder) :
    (l.withOrder index order).constructor (d.withOptions index options) = l.constructor d := by
  have hTargets : (l.withOrder index order).members.map (fun m => (m.target, m.type)) =
      l.members.map fun m => (m.target, m.type) := by
    rw [withOrder, List.map_map]
    congr 1
    funext m
    simp [IncludedMember.target]
  have hIncludes : (l.withOrder index order).includes = l.includes := by
    funext i
    simp [includes, withOrder, List.any_map, Function.comp_def]
  have hInits : ((d.withOptions index options).members.zipIdx.filterMap fun p =>
      (l.withOrder index order).init? p.1 p.2) = d.members.zipIdx.filterMap fun p =>
        l.init? p.1 p.2 := by
    rw [Declaration.withOptions, zipIdx_modify, List.filterMap_map]
    congr 1
    funext p
    simp only [Function.comp_apply, init?, hIncludes]
    split <;> rfl
  rw [constructor, constructor, hTargets]
  exact congrArg _ hInits

/-- The member of the layout that is declared at an index, and its place. -/
theorem exists_place (hValidate : d.validate oracle config = .ok layout)
    (hMember : d.members[index]? = some m) (hMarked : m.isIncluded) :
    ∃ place included, d.included[place]? = some (m, index) ∧ included ∈ layout.members ∧
      included.Encodes m index ∧ ∀ order,
        ReplacedAt place included { included with order } layout.members
          (layout.withOrder index order).members := by
  have hEncodes := Declaration.encodes_of_validate hValidate
  have hIndices : layout.members.map IncludedMember.index = d.included.map Prod.snd :=
    (map_eq_map_of_forall₂ (hEncodes.imp fun p m h => h.index_eq.symm)).symm
  obtain ⟨place, included, hPlace, hFound, hEncoded⟩ :=
    Declaration.exists_encodes hValidate hMember hMarked
  refine ⟨place, included, hPlace, List.mem_of_getElem? hFound, hEncoded, fun order => ?_⟩
  have hNodup : (layout.members.map IncludedMember.index).Nodup :=
    hIndices ▸ d.pairwise_included.imp Nat.ne_of_lt
  have hOther : ∀ i b, i ≠ place → layout.members[i]? = some b → b.withOrder index order = b := by
    intro i b hPlaces hItem
    rw [IncludedMember.withOrder, if_neg]
    intro hSame
    apply hPlaces
    have hShort : i < (layout.members.map IncludedMember.index).length := by
      rw [List.length_map]
      exact (List.getElem?_eq_some_iff.mp hItem).1
    apply (List.getElem?_inj hShort hNodup).mp
    rw [List.getElem?_map, List.getElem?_map, hItem, hFound, Option.map_some, Option.map_some, hSame,
      hEncoded.index_eq]
  have hChanged : included.withOrder index order = { included with order } :=
    if_pos hEncoded.index_eq
  rw [withOrder, map_eq_set hFound hOther, hChanged]
  exact replacedAt_set hFound _

/-- The byte order of a number of several bytes shows where it is moved, and nowhere else. -/
theorem exists_differAt (hValidate : d.validate oracle config = .ok layout)
    (hMember : d.members[index]? = some m) (hMarked : m.isIncluded) {p : Primitive}
    (hType : m.type.SpellsPrimitive p) (hWidth : p.width ≠ 1) (options : List MarkerOption)
    (order : ByteOrder) :
    ∃ place, d.included[place]? = some (m, index) ∧
      (layout.procedures d).DifferAt
        ((layout.withOrder index order).procedures (d.withOptions index options)) m ⟨index⟩ place
        m.orderAsked order := by
  obtain ⟨place, included, hPlace, hIn, hEncodes, hReplaced⟩ :=
    exists_place hValidate hMember hMarked
  obtain ⟨hSound, hName, hMemberType, rfl, hOrder⟩ := hEncodes
  have hOps := hSound.ops_of_wide (hMemberType ▸ hType) hWidth
  obtain ⟨hWriteOld, hReadOld⟩ : included.writeOp = _ ∧ included.readOp = _ := hOps included.order
  have hWrites := (hReplaced order).map IncludedMember.writeOp
  have hReads := (hReplaced order).map IncludedMember.readOp
  have hTargets := (hReplaced order).map IncludedMember.target
  rw [hWriteOld, (hOps order).1, hName, hOrder] at hWrites
  rw [hReadOld, (hOps order).2, hMemberType, hOrder] at hReads
  exact ⟨place, hPlace, {
    size_eq := layout.sizeTerms_withOrder _ order
    constructor_eq := layout.constructor_withOrder d _ options order
    write := hWrites
    read := hReads
    readSequence := hReads
    read_arguments := hTargets.eq_of_same
    readSequence_arguments := hTargets.eq_of_same }⟩

/-- The byte order of a byte or a nested record shows nowhere. -/
theorem procedures_withOrder (hValidate : d.validate oracle config = .ok layout)
    (hMember : d.members[index]? = some m) (hMarked : m.isIncluded)
    (hType : ∀ p, m.type.SpellsPrimitive p → p.width = 1) (options : List MarkerOption)
    (order : ByteOrder) :
    (layout.withOrder index order).procedures (d.withOptions index options) =
      layout.procedures d := by
  obtain ⟨place, included, _, _, hEncodes, hReplaced⟩ := exists_place hValidate hMember hMarked
  have hOps := hEncodes.sound.ops_of_narrow (hEncodes.type_eq ▸ hType) order
  have hWrites := (hReplaced order).map IncludedMember.writeOp
  have hReads := (hReplaced order).map IncludedMember.readOp
  rw [hOps.1] at hWrites
  rw [hOps.2] at hReads
  have hRead : (layout.withOrder index order).readProcedure = layout.readProcedure := by
    rw [readProcedure, readProcedure, hReads.eq_of_same,
      ((hReplaced order).map IncludedMember.target).eq_of_same]
  rw [procedures, procedures, sizeTerms_withOrder, constructor_withOrder, hWrites.eq_of_same, hRead]

end Layout

end WireRecord
