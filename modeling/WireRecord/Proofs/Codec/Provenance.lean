import WireRecord.Proofs.Codec.Agreement
import WireRecord.Proofs.Codec.Routing

/-!
Where the tokens of emitted code come from. What is copied into it is written in the declaration;
all else is the same for every path to the supporting library, but for the path itself. So code that
is emitted twice, for two paths, is one template that is filled twice, and the library is named by
nothing but the path and what the declaration says.
-/

namespace WireRecord

open TokenTree (leavesAll)
open Template (Routed words item routed_words_iff routed_brace_iff)

namespace TokenTree

variable {α β : Type}

theorem leavesAll_append (first second : List (TokenTree α)) :
    leavesAll (first ++ second) = leavesAll first ++ leavesAll second := by
  induction first with
  | nil => rfl
  | cons tree first ih => rw [List.cons_append, leavesAll, leavesAll, ih, List.append_assoc]

theorem leavesAll_flatMap (f : β → List (TokenTree α)) (items : List β) :
    leavesAll (items.flatMap f) = items.flatMap fun a => leavesAll (f a) := by
  induction items with
  | nil => rfl
  | cons a items ih => rw [List.flatMap_cons, leavesAll_append, ih, List.flatMap_cons]

end TokenTree

/-- The tokens that a declaration is written with: its name, its generic parameters and their where
clause, and the names and types of its members. -/
inductive Declaration.Mentions (d : Declaration) : Token → Prop where
  | name : Mentions d d.descriptor.name
  | parameters {token : Token} (h : token ∈ leavesAll d.descriptor.generics.declaredParams) :
      Mentions d token
  | whereClause {token : Token} (h : token ∈ leavesAll d.descriptor.generics.whereClause) :
      Mentions d token
  | memberName {m : Member} (hMember : m ∈ d.members) : Mentions d m.name.text
  | memberType {m : Member} {token : Token} (hMember : m ∈ d.members)
      (h : token ∈ leavesAll m.type.tokens) : Mentions d token

namespace Listed

variable {α : Type} {render render' : α → Tokens}

/-- If each item has fewer tokens, so has the list of them: the commas are the same. -/
theorem leavesAll_tokens_subset (h : ∀ a, leavesAll (render a) ⊆ leavesAll (render' a))
    (items : List (Listed α)) :
    leavesAll (tokens render items) ⊆ leavesAll (tokens render' items) := by
  simp only [tokens, TokenTree.leavesAll_flatMap, TokenTree.leavesAll_append]
  intro token hToken
  obtain ⟨i, hItem, hToken⟩ := List.mem_flatMap.mp hToken
  apply List.mem_flatMap.mpr
  exact ⟨i, hItem, append_subset_append (h i.item) (List.Subset.refl _) hToken⟩

theorem leavesAll_tokensFirst_subset (h : ∀ a, leavesAll (render a) ⊆ leavesAll (render' a))
    (first : α → Bool) (items : List (Listed α)) :
    leavesAll (tokensFirst first render items) ⊆ leavesAll (tokensFirst first render' items) := by
  simp only [tokensFirst, TokenTree.leavesAll_append]
  apply append_subset_append
  · exact append_subset_append (leavesAll_tokens_subset h _) (List.Subset.refl _)
  · exact leavesAll_tokens_subset h _

end Listed

namespace Generics

theorem leavesAll_angled_subset {render render' : GenericParam → Tokens}
    (h : ∀ p, leavesAll (render p) ⊆ leavesAll (render' p)) (g : Generics) :
    leavesAll (g.angled render) ⊆ leavesAll (g.angled render') := by
  rw [angled, angled]
  split
  · exact List.Subset.refl _
  · rw [TokenTree.leavesAll_append, TokenTree.leavesAll_append]
    apply append_subset_append
    · apply append_subset_append (List.Subset.refl _)
      exact Listed.leavesAll_tokensFirst_subset h _ _
    · exact List.Subset.refl _

/-- The parameters after `impl` are part of the declared ones. -/
theorem leavesAll_implParams_subset (g : Generics) :
    leavesAll g.implParams ⊆ leavesAll g.declaredParams := by
  apply leavesAll_angled_subset
  intro p
  rw [GenericParam.declaration, TokenTree.leavesAll_append]
  exact List.subset_append_left _ _

/-- The arguments after the name of the type are part of the declared parameters. -/
theorem leavesAll_typeArguments_subset (g : Generics) :
    leavesAll g.typeArguments ⊆ leavesAll g.declaredParams := by
  apply leavesAll_angled_subset
  intro p token hToken
  obtain rfl := List.mem_singleton.mp hToken
  rw [GenericParam.declaration, TokenTree.leavesAll_append]
  cases p <;>
    simp [GenericParam.bounded, GenericParam.name, TokenTree.leavesAll_append, leavesAll,
      TokenTree.leaves]

end Generics

namespace Declaration

variable {d : Declaration} {oracle : TypeOracle} {config : Config} {layout : Layout}

/-- The members of a layout say no more than those of the declaration. -/
theorem isOwned_of_validate (h : d.validate oracle config = .ok layout) :
    ∀ m ∈ layout.members, m.IsOwned d.Mentions := by
  intro m hMember
  obtain ⟨place, hPlace⟩ := List.getElem?_of_mem hMember
  obtain ⟨⟨member, index⟩, hIncluded, hEncodes⟩ :=
    forall₂_getElem? (encodes_of_validate h).flip hPlace
  have hDeclared : member ∈ d.members :=
    List.fst_mem_of_mem_zipIdx (List.mem_of_mem_filter (List.mem_of_getElem? hIncluded))
  constructor
  · rw [hEncodes.name_eq]
    exact .memberName hDeclared
  · rw [hEncodes.type_eq]
    exact fun token hToken => .memberType hDeclared hToken

/-- The parameters of an implementation lack the defaults, and are otherwise those declared. -/
theorem routed_params (d : Declaration) :
    Routed d.Mentions d.descriptor.generics.implParams.copied := by
  apply Template.routed_copied
  intro token hToken
  exact .parameters (d.descriptor.generics.leavesAll_implParams_subset hToken)

/-- The type for which code is emitted is named in the words of its declaration. -/
theorem routed_subject (d : Declaration) :
    Routed d.Mentions ([.leaf (.copied d.descriptor.name)] ++
      d.descriptor.generics.typeArguments.copied ++
      d.descriptor.generics.whereClause.copied) := by
  have hArguments : Routed d.Mentions d.descriptor.generics.typeArguments.copied := by
    apply Template.routed_copied
    intro token hToken
    exact .parameters (d.descriptor.generics.leavesAll_typeArguments_subset hToken)
  have hWhere : Routed d.Mentions d.descriptor.generics.whereClause.copied :=
    Template.routed_copied fun token hToken => .whereClause hToken
  exact (Routed.copied .name hArguments).append hWhere

/-- What is emitted for an accepted declaration copies only tokens that the declaration mentions. -/
theorem routed_template (h : d.validate oracle config = .ok layout) :
    Routed d.Mentions (d.emit layout).template := by
  have hMembers := isOwned_of_validate h
  have hImpl : Routed d.Mentions
      (words ["impl"] ++ d.descriptor.generics.implParams.copied) :=
    Routed.append (routed_words_iff.mpr (by decide)) d.routed_params
  -- The first block holds the constructor; the second one, with the same head, the procedures.
  have hConstructor : Routed d.Mentions (layout.constructor d).template :=
    Layout.routed_constructor hMembers fun m hMember => .memberName hMember
  have hInherent := (hImpl.append d.routed_subject).append (routed_brace_iff.mpr hConstructor)
  have hContract : Routed d.Mentions (item "BinaryStructurable" ++ words ["for"]) := by
    simp +decide
  have hWrites := ((Layout.routed_size hMembers).append routed_writeToTemplate).append
    (Layout.routed_write hMembers)
  have hProcedures := (hWrites.append (Layout.routed_read hMembers)).append
    (Layout.routed_readSequence hMembers)
  have hImplementation := (hImpl.append hContract).append
    (d.routed_subject.append (routed_brace_iff.mpr hProcedures))
  have hTemplate := hInherent.append hImplementation
  simpa only [Codec.template, emit, Procedures.templates, Layout.procedures, List.append_assoc]
    using hTemplate

/-- The tokens that are emitted for a declaration. -/
def code (d : Declaration) (oracle : TypeOracle) (config : Config) :
    Except (List (Diagnostic Location)) Tokens :=
  (d.compile oracle config).map fun codec => codec.tokens config.runtime

/-- The code is one template, whatever the path, that is filled with the path. -/
theorem code_withRuntime (d : Declaration) (oracle : TypeOracle) (config : Config) (path : Path) :
    d.code oracle { config with runtime := path } =
      (d.validate oracle config).map fun layout => (d.emit layout).template.fill path.tokens := by
  have hValidate : d.validate oracle { config with runtime := path } = d.validate oracle config :=
    rfl
  rw [code, compile, hValidate]
  cases d.validate oracle config with
  | error problems => rfl
  | ok layout => rfl

end Declaration

/-- What a piece of a template may be: the hole, a word that does not name a package, or a token
that may be copied. -/
def Piece.IsPermitted (owned : Token → Prop) : Piece → Prop
  | own text => ¬NamesPackage text
  | copied token => owned token
  | runtime => True

/-- All pieces of a routed template are permitted, however deep they stand. -/
theorem Template.Routed.isPermitted {owned : Token → Prop} {t : Template} (h : Routed owned t) :
    ∀ piece ∈ leavesAll t, piece.IsPermitted owned := by
  induction h with
  | nil => exact List.forall_mem_nil _
  | word hText _ ih => exact List.forall_mem_cons.mpr ⟨hText.1, ih⟩
  | copied hToken _ ih => exact List.forall_mem_cons.mpr ⟨hToken, ih⟩
  | @item name _ hName _ ih =>
      have hItems : ∀ item ∈ libraryItems, ¬NamesPackage item := by decide
      have hItem : (Piece.own name).IsPermitted owned := hItems name hName
      have hSeparator : (Piece.own "::").IsPermitted owned := by
        show ¬NamesPackage "::"
        decide
      exact List.forall_mem_cons.mpr ⟨trivial, List.forall_mem_cons.mpr ⟨hSeparator,
        List.forall_mem_cons.mpr ⟨hItem, ih⟩⟩⟩
  | group _ _ _ ihInner ihRest => exact List.forall_mem_append.mpr ⟨ihInner, ihRest⟩

/-- Emitted code reaches the supporting library through the configured path only. The path does not
bear on the verdict, the code is one template that is filled with the path, and no word of the
template names a package, unless it is copied from the declaration. -/
theorem runtime_reached_through_path (d : Declaration) (oracle : TypeOracle) (config : Config) :
    (∀ path path' : Path, d.validate oracle { config with runtime := path } =
      d.validate oracle { config with runtime := path' }) ∧
    (∀ path : Path, d.code oracle { config with runtime := path } =
      (d.validate oracle config).map fun layout => (d.emit layout).template.fill path.tokens) ∧
    ∀ layout, d.validate oracle config = .ok layout →
      Routed d.Mentions (d.emit layout).template ∧
        ∀ piece ∈ leavesAll (d.emit layout).template, piece.IsPermitted d.Mentions := by
  refine ⟨fun _ _ => rfl, d.code_withRuntime oracle config, ?_⟩
  intro layout hValidate
  have hRouted := Declaration.routed_template hValidate
  exact ⟨hRouted, hRouted.isPermitted⟩

/-- In the code of the ticket the path to the library stands at 24 places. -/
theorem runtime_reached_through_path_ticket :
    ∃ layout, Sample.ticketDeclaration.validate (KnownTypes.oracle { marked := ["Stamp"] }) {} =
        .ok layout ∧
      Routed Sample.ticketDeclaration.Mentions (Sample.ticketDeclaration.emit layout).template ∧
      (leavesAll (Sample.ticketDeclaration.emit layout).template).count .runtime = 24 := by
  refine ⟨_, rfl, ?_, ?_⟩
  · exact ((runtime_reached_through_path Sample.ticketDeclaration
      (KnownTypes.oracle { marked := ["Stamp"] }) {}).2.2 _ rfl).1
  · decide +kernel

end WireRecord
