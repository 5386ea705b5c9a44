import WireRecord.Proofs.Derive.Expansion

/-!
Two records side by side. A derive goes over them step by step; where each step fails for both with
the same message, or succeeds for both with results that correspond, so does the whole.
-/

namespace WireRecord

/-- Both fail, with errors that correspond, or both succeed, with results that do. -/
inductive Both {ε α β : Type} (E : ε → ε → Prop) (R : α → β → Prop) :
    Except ε α → Except ε β → Prop where
  | failed {e e' : ε} (h : E e e') : Both E R (.error e) (.error e')
  | succeeded {a : α} {b : β} (h : R a b) : Both E R (.ok a) (.ok b)

namespace Both

variable {ε α β γ δ : Type} {E : ε → ε → Prop} {R : α → β → Prop} {S : γ → δ → Prop}
  {x : Except ε α} {y : Except ε β}

theorem refl {R : α → α → Prop} (hError : ∀ e, E e e) (hOk : ∀ a, R a a) (x : Except ε α) :
    Both E R x x := by
  cases x with
  | error e => exact .failed (hError e)
  | ok a => exact .succeeded (hOk a)

theorem imp {R' : α → β → Prop} (h : Both E R x y) (hImp : ∀ a b, R a b → R' a b) :
    Both E R' x y := by
  cases h with
  | failed hError => exact .failed hError
  | succeeded hOk => exact .succeeded (hImp _ _ hOk)

/-- Steps that correspond, one after the other: the second ones need to only where the first ones
succeed. -/
theorem bind {f : α → Except ε γ} {g : β → Except ε δ} (h : Both E R x y)
    (hNext : ∀ a b, R a b → Both E S (f a) (g b)) : Both E S (x >>= f) (y >>= g) := by
  cases h with
  | failed hError => exact .failed hError
  | succeeded hOk => exact hNext _ _ hOk

theorem map {f : α → γ} {g : β → δ} (h : Both E R x y) (hNext : ∀ a b, R a b → S (f a) (g b)) :
    Both E S (x.map f) (y.map g) := by
  cases h with
  | failed hError => exact .failed hError
  | succeeded hOk => exact .succeeded (hNext _ _ hOk)

/-- Two computations that go over corresponding lists fail at corresponding elements. -/
theorem mapM {f : α → Except ε γ} {g : β → Except ε δ} {first : List α} {second : List β}
    (h : List.Forall₂ (fun a b => Both E S (f a) (g b)) first second) :
    Both E (List.Forall₂ S) (first.mapM f) (second.mapM g) := by
  induction h with
  | nil => exact .succeeded .nil
  | cons hHead hTail ih =>
      rw [List.mapM_cons, List.mapM_cons]
      exact hHead.bind fun _ _ hFirst => ih.bind fun _ _ hRest => .succeeded (.cons hFirst hRest)

end Both

/-- Two errors say the same, perhaps of different places. -/
def SourceError.SaysSame (e e' : SourceError) : Prop := e.message = e'.message

/-- Two lists of errors say the same, one by one. -/
def SourceError.SayAllSame (errors errors' : List SourceError) : Prop :=
  errors.map SourceError.message = errors'.map SourceError.message

/-- The message of an error does not depend on where the problem is. -/
theorem Diagnostic.sayAllSame (problems : List (Diagnostic Location)) (f g : Location → Place) :
    SourceError.SayAllSame (problems.map fun p => (p.relocate f).sourceError)
      (problems.map fun p => (p.relocate g).sourceError) := by
  rw [SourceError.SayAllSame, List.map_map, List.map_map]
  rfl

/-- The bodies of two structs of the same form, whose fields correspond, or of two items that are no
structs. -/
inductive ItemBody.Corresponds (R : Field → Field → Prop) (body body' : ItemBody) : Prop where
  | fields {form : RecordForm} {first second : List Field}
      (hFirst : body.fields? = some (form, first)) (hSecond : body'.fields? = some (form, second))
      (h : List.Forall₂ R first second) : Corresponds R body body'
  | unsupported (hFirst : body.fields? = none) (hSecond : body'.fields? = none) :
      Corresponds R body body'

theorem ItemBody.Corresponds.refl {R : Field → Field → Prop} (hRefl : ∀ f, R f f)
    (body : ItemBody) : body.Corresponds R body := by
  cases hBody : body.fields? with
  | none => exact .unsupported hBody hBody
  | some found => exact .fields hBody hBody (List.forall₂_same.mpr fun f _ => hRefl f)

theorem ItemBody.Corresponds.imp {R S : Field → Field → Prop} {body body' : ItemBody}
    (h : body.Corresponds R body') (hImp : ∀ f g, R f g → S f g) : body.Corresponds S body' := by
  cases h with
  | fields hFirst hSecond hFields => exact .fields hFirst hSecond (hFields.imp hImp)
  | unsupported hFirst hSecond => exact .unsupported hFirst hSecond

/-- Two fields of the same name, whose markers are read alike. -/
structure Field.ReadAlike (R : MarkedField → MarkedField → Prop) (f g : Field) : Prop where
  name_eq : f.name = g.name
  marker : Both SourceError.SaysSame (fun k k' => R ⟨f, k⟩ ⟨g, k'⟩) (fieldMarker? f.attributes)
    (fieldMarker? g.attributes)

/-- At the same index both are read, or the same is said of both. -/
theorem Field.ReadAlike.both_readAt {R : MarkedField → MarkedField → Prop} {f g : Field}
    (h : f.ReadAlike R g) (index : Nat) :
    Both SourceError.SaysSame R (f.readAt index) (g.readAt index) := by
  have hSame : f.exceeds index = g.exceeds index := by rw [exceeds, exceeds, h.name_eq]
  by_cases hExceeds : f.exceeds index
  · rw [readAt_of_exceeds hExceeds, readAt_of_exceeds (hSame ▸ hExceeds)]
    exact .failed rfl
  · rw [readAt_of_not_exceeds hExceeds, readAt_of_not_exceeds (hSame ▸ hExceeds)]
    exact h.marker.map fun _ _ hMarker => hMarker

namespace Item

variable {item item' : Item}

/-- The marked fields of two records correspond if their fields do, each with its name and its
marker. -/
theorem both_marked {R : MarkedField → MarkedField → Prop}
    (h : item.body.Corresponds (Field.ReadAlike R) item'.body) :
    Both SourceError.SaysSame (fun m m' => m.item = item ∧ m'.item = item' ∧ m.form = m'.form ∧
      List.Forall₂ R m.fields m'.fields) item.marked item'.marked := by
  cases h with
  | unsupported hFirst hSecond =>
      rw [marked, marked, hFirst, hSecond]
      exact .failed rfl
  | fields hFirst hSecond hFields =>
      rw [marked_of_fields hFirst, marked_of_fields hSecond]
      refine Both.map (Both.mapM ?_) fun _ _ hAll => ⟨rfl, rfl, rfl, hAll⟩
      refine (forall₂_zipIdx hFields 0).imp ?_
      rintro ⟨f, index⟩ ⟨g, _⟩ ⟨hRead, rfl⟩
      exact hRead.both_readAt index

/-- A derive answers for two records with results that correspond, if the validations of their
declarations find the same problems or give layouts whose codes correspond. -/
theorem both_expand {S : Tokens → Tokens → Prop}
    (hConfig : containerConfig item.attributes = containerConfig item'.attributes)
    (hMarked : Both SourceError.SaysSame (fun m m' => ∀ config,
        Both Eq (fun l l' => S ((m.declaration.emit l).tokens config.runtime)
            ((m'.declaration.emit l').tokens config.runtime))
          (m.declaration.validate item.generics.oracle config)
          (m'.declaration.validate item'.generics.oracle config)) item.marked item'.marked) :
    Both SourceError.SayAllSame S item.expand item'.expand := by
  cases hRead : containerConfig item.attributes with
  | error e =>
      have hRead' := hConfig.symm.trans hRead
      rw [expand, compile, hRead, expand, compile, hRead']
      exact .failed rfl
  | ok config =>
      have hRead' := hConfig.symm.trans hRead
      generalize hFirst : item.marked = first at hMarked
      generalize hSecond : item'.marked = second at hMarked
      cases hMarked with
      | failed hSame =>
          rw [expand, compile, hRead, hFirst, expand, compile, hRead', hSecond]
          exact .failed (congrArg (fun message => [message]) hSame)
      | @succeeded m m' hValidate =>
          rw [expand_eq hRead hFirst, expand_eq hRead' hSecond]
          have hBoth := hValidate config
          -- from here on only the two verdicts count, not what has been validated
          generalize m.declaration.validate item.generics.oracle config = x at hBoth
          generalize m'.declaration.validate item'.generics.oracle config = y at hBoth
          cases hBoth with
          | succeeded hCode => exact .succeeded hCode
          | @failed problems _ hProblems =>
              subst hProblems
              exact .failed (Diagnostic.sayAllSame problems m.placeOf m'.placeOf)

end Item

namespace Sample

/-- The trees of an option that asks for a byte order. -/
def orderTrees (line column : Nat) (value : SourceTree) : List SourceTree :=
  [.name byteOrderOption ⟨line, column⟩, .punct '=' false ⟨line, column + 11⟩, value]

/-- A mark with options. -/
def markOf (line : Nat) (options : List SourceTree) : Attribute where
  place := ⟨line, 4⟩
  path := .ofNames [includeAttribute]
  pathPlace := ⟨line, 6⟩
  form := .list .paren ⟨options, ⟨line, 90⟩⟩

end Sample

end WireRecord
