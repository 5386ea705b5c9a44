import Mathlib.Data.List.Find
import Mathlib.Data.List.Infix
import WireRecord.Proofs.Lists
import WireRecord.Proofs.Schema.Grouping
import WireRecord.Schema.Scope

/-!
What a type names from inside a scope: the record that is called by the names of its path, put
behind the longest beginning of the scope for which there is such a record. Qualified names are
compared by their texts as well as by their parts: a text is read back as one list of parts, because
no part has a colon in it, so a look-up among texts finds the same records.
-/

namespace WireRecord

namespace ScopedPath

/-- What the names of a path say: which of them are looked up, and whether only at the top. A
`crate` or `self` in front is dropped, and some name has to be left. -/
inductive Reads : ScopedPath → List String → Prop where
  | top {names : List String} (hLeft : names ≠ []) : Reads ⟨true, names⟩ ("crate" :: names)
  | here {names : List String} (hLeft : names ≠ []) : Reads ⟨false, names⟩ ("self" :: names)
  | relative {name : String} {rest : List String} (hTop : name ≠ "crate") (hHere : name ≠ "self") :
      Reads ⟨false, name :: rest⟩ (name :: rest)

variable {path : ScopedPath} {names : List String}

/-- A path that can be resolved names something. -/
theorem Reads.names_ne_nil (h : path.Reads names) : path.names ≠ [] := by
  cases h with
  | top hLeft => exact hLeft
  | here hLeft => exact hLeft
  | relative hTop hHere => exact List.cons_ne_nil _ _

theorem Reads.names_subset (h : path.Reads names) : path.names ⊆ names := by
  cases h with
  | top hLeft => exact List.subset_cons_self _ _
  | here hLeft => exact List.subset_cons_self _ _
  | relative hTop hHere => exact List.Subset.refl _

/-- The reader of paths takes off the keywords that say where to start, and no other names. -/
theorem ofNames?_eq_some_iff : ofNames? names = some path ↔ path.Reads names := by
  constructor
  · intro h
    unfold ofNames? at h
    split at h
    · obtain ⟨hEmpty, hPath⟩ := Option.ite_none_left_eq_some.mp h
      cases hPath
      exact .top (by simpa using hEmpty)
    · obtain ⟨hEmpty, hPath⟩ := Option.ite_none_left_eq_some.mp h
      cases hPath
      exact .here (by simpa using hEmpty)
    · rename_i hTop hHere
      obtain ⟨hEmpty, hPath⟩ := Option.ite_none_left_eq_some.mp h
      cases hPath
      cases names with
      | nil => exact absurd rfl hEmpty
      | cons name rest =>
          exact .relative (fun hName => hTop rest (by rw [hName]))
            (fun hName => hHere rest (by rw [hName]))
  · intro h
    cases h with
    | top hLeft => simp [ofNames?, hLeft]
    | here hLeft => simp [ofNames?, hLeft]
    | relative hTop hHere => simp [ofNames?, hTop, hHere]

/-- A type is resolved by the path inside of its groupings, if that does not start at another
package. -/
theorem ofType?_eq_some_iff {type : TypeExpr} :
    ofType? type = some path ↔
      ∃ p, type.Wraps (.path p) ∧ p.leading = false ∧ path.Reads p.names := by
  simp only [← TypeExpr.path?_eq_some_iff, ← ofNames?_eq_some_iff, ofType?]
  cases type.path? with
  | none => simp
  | some p => cases hLeading : p.leading <;> simp [hLeading]

end ScopedPath

theorem beginnings_eq {α : Type} (items : List α) : beginnings items = items.inits.reverse := by
  rw [beginnings, List.map_reverse]
  congr 1
  apply List.ext_getElem
  · simp
  · intro i _ _
    simp

theorem mem_beginnings_iff {α : Type} {items beginning : List α} :
    beginning ∈ beginnings items ↔ beginning <+: items := by
  rw [beginnings_eq, List.mem_reverse, List.mem_inits]

theorem pairwise_beginnings {α : Type} (items : List α) :
    (beginnings items).Pairwise fun a b => b.length < a.length := by
  have hLengths : (beginnings items).map List.length = (List.range (items.length + 1)).reverse := by
    rw [beginnings, List.map_map]
    conv_rhs => rw [← List.map_id (List.range (items.length + 1)).reverse]
    apply List.map_congr_left
    intro i hIndex
    simp only [List.mem_reverse, List.mem_range] at hIndex
    simp only [Function.comp_apply, List.length_take, id_eq]
    omega
  have hDecreasing : ((beginnings items).map List.length).Pairwise (· > ·) := by
    rw [hLengths, List.pairwise_reverse]
    exact List.pairwise_lt_range
  exact List.pairwise_map.mp hDecreasing

namespace ScopedPath

variable {path : ScopedPath} {scope target : QualifiedName} {records : List QualifiedName}

/-- The beginnings of a scope behind which a path may be looked up: all of them, but for a path from
the top only the empty one. -/
def Admits (path : ScopedPath) (scope beginning : QualifiedName) : Prop :=
  beginning <+: scope ∧ (path.isAbsolute = true → beginning = [])

/-- The record that a path picks: the one called by the path behind the longest beginning for which
there is a record. -/
def Picks (path : ScopedPath) (scope : QualifiedName) (records : List QualifiedName)
    (target : QualifiedName) : Prop :=
  ∃ beginning, path.Admits scope beginning ∧ target = beginning ++ path.names ∧ target ∈ records ∧
    ∀ longer, path.Admits scope longer → longer ++ path.names ∈ records →
      longer.length ≤ beginning.length

/-- The admitted beginnings, longest first. -/
def admitted (path : ScopedPath) (scope : QualifiedName) : List QualifiedName :=
  if path.isAbsolute then [[]] else beginnings scope

/-- The names that are tried for a path, each behind an admitted beginning. -/
theorem candidates_eq (path : ScopedPath) (scope : QualifiedName) :
    path.candidates scope = (path.admitted scope).map (· ++ path.names) := by
  rw [candidates, admitted]
  split <;> rfl

theorem mem_admitted_iff {beginning : QualifiedName} :
    beginning ∈ path.admitted scope ↔ path.Admits scope beginning := by
  rw [admitted, Admits]
  split
  · rename_i hAbsolute
    constructor
    · intro hMember
      obtain rfl := List.mem_singleton.mp hMember
      exact ⟨List.nil_prefix, fun _ => rfl⟩
    · intro h
      exact List.mem_singleton.mpr (h.2 hAbsolute)
  · rename_i hRelative
    rw [mem_beginnings_iff]
    exact (and_iff_left fun hAbsolute => absurd hAbsolute hRelative).symm

/-- They are tried from the longest on. -/
theorem pairwise_admitted (path : ScopedPath) (scope : QualifiedName) :
    (path.admitted scope).Pairwise fun a b => b.length < a.length := by
  rw [admitted]
  split
  · exact List.pairwise_singleton _ _
  · exact pairwise_beginnings scope

/-- So the first hit is the one behind the longest beginning. -/
theorem find?_candidates_eq_some_iff :
    (path.candidates scope).find? records.contains = some target ↔
      path.Picks scope records target := by
  rw [candidates_eq, find?_map_eq_some_iff_longest (path.pairwise_admitted scope)]
  simp only [mem_admitted_iff, List.contains_iff_mem, Picks, @eq_comm _ _ target]

end ScopedPath

/-- Resolution by names, said without the order in which they are tried. -/
theorem resolve_eq_some_iff {type : TypeExpr} {scope target : QualifiedName}
    {records : List QualifiedName} :
    resolve type scope records = some target ↔
      ∃ p path, type.Wraps (.path p) ∧ p.leading = false ∧ ScopedPath.Reads path p.names ∧
        path.Picks scope records target := by
  simp only [resolve, Option.bind_eq_some_iff, ScopedPath.ofType?_eq_some_iff,
    ScopedPath.find?_candidates_eq_some_iff]
  constructor
  · rintro ⟨path, ⟨p, hType, hLeading, hReads⟩, hPicks⟩
    exact ⟨p, path, hType, hLeading, hReads, hPicks⟩
  · rintro ⟨p, path, hType, hLeading, hReads, hPicks⟩
    exact ⟨path, ⟨p, hType, hLeading, hReads⟩, hPicks⟩

namespace QualifiedName

variable {name name' : QualifiedName}

/-- No part of the name has a colon in it, as no identifier has. -/
def IsPlain (name : QualifiedName) : Prop := ∀ part ∈ name, ':' ∉ part.toList

instance (name : QualifiedName) : Decidable name.IsPlain :=
  inferInstanceAs (Decidable (∀ part ∈ name, ':' ∉ part.toList))

theorem isPlain_append (h : name.IsPlain) (h' : name'.IsPlain) : (name ++ name').IsPlain :=
  List.forall_mem_append.mpr ⟨h, h'⟩

theorem text_cons (part : String) (hMore : name ≠ []) :
    text (part :: name) = part ++ "::" ++ text name := String.intercalate_cons_of_ne_nil hMore

/-- A part ends where the first colon stands. -/
theorem eq_of_append_colons {part part' rest rest' : String} (hPart : ':' ∉ part.toList)
    (hPart' : ':' ∉ part'.toList) (h : part ++ "::" ++ rest = part' ++ "::" ++ rest') :
    part = part' ∧ rest = rest' := by
  have hBefore (letters later : List Char) (hLetters : ':' ∉ letters) :
      (letters ++ ':' :: later).takeWhile (· ≠ ':') = letters := by
    have hAll : ∀ c ∈ letters, decide (c ≠ ':') = true := by
      intro c hMember
      exact decide_eq_true (ne_of_mem_of_not_mem hMember hLetters)
    rw [List.takeWhile_append_of_pos hAll, List.takeWhile_cons_of_neg (by simp), List.append_nil]
  have hLetters : part.toList ++ ':' :: ':' :: rest.toList =
      part'.toList ++ ':' :: ':' :: rest'.toList := by
    simpa [String.toList_append] using congrArg String.toList h
  have hSame : part.toList = part'.toList := by
    rw [← hBefore part.toList _ hPart, ← hBefore part'.toList _ hPart', hLetters]
  obtain rfl := String.toList_inj.mp hSame
  have hRest := (List.append_right_inj _).mp hLetters
  exact ⟨rfl, String.toList_inj.mp (by simpa using hRest)⟩

/-- A text without a colon in the part before it is not that part alone. -/
theorem ne_append_colons {part part' rest : String} (hPart : ':' ∉ part.toList) :
    part ≠ part' ++ "::" ++ rest := by
  rintro rfl
  exact hPart (by simp [String.toList_append])

/-- Names of plain parts are told apart by their texts. -/
theorem text_injective (hName : name ≠ []) (hName' : name' ≠ []) (hPlain : name.IsPlain)
    (hPlain' : name'.IsPlain) (hText : name.text = name'.text) : name = name' := by
  induction name generalizing name' with
  | nil => exact absurd rfl hName
  | cons part rest ih =>
      obtain ⟨part', rest', rfl⟩ := List.exists_cons_of_ne_nil hName'
      have hHead := List.forall_mem_cons.mp hPlain
      have hHead' := List.forall_mem_cons.mp hPlain'
      -- The text of a name of several parts has a colon in it, that of a single part has none.
      by_cases hRest : rest = []
      · subst hRest
        by_cases hRest' : rest' = []
        · subst hRest'
          have hPart : part = part' := by simpa [text] using hText
          rw [hPart]
        · rw [text_cons part' hRest'] at hText
          have hAlone : part = part' ++ "::" ++ text rest' := by simpa [text] using hText
          exact absurd hAlone (ne_append_colons hHead.1)
      · rw [text_cons part hRest] at hText
        by_cases hRest' : rest' = []
        · subst hRest'
          have hAlone : part' = part ++ "::" ++ text rest := by simpa [text] using hText.symm
          exact absurd hAlone (ne_append_colons hHead'.1)
        · rw [text_cons part' hRest'] at hText
          obtain ⟨rfl, hLater⟩ := eq_of_append_colons hHead.1 hHead'.1 hText
          rw [ih hRest hRest' hHead.2 hHead'.2 hLater]

end QualifiedName

namespace Descriptor

theorem qualifiedName_ne_nil (d : Descriptor) : d.qualifiedName ≠ [] := by
  simp [qualifiedName]

/-- The text of a qualified name tells the names of the enclosing types and that of the record. -/
theorem names_eq_of_text_eq {d d' : Descriptor} (hPlain : d.qualifiedName.IsPlain)
    (hPlain' : d'.qualifiedName.IsPlain) (hText : d.qualifiedName.text = d'.qualifiedName.text) :
    d.parents.map Parent.name = d'.parents.map Parent.name ∧ d.name = d'.name := by
  have hSame : d.qualifiedName = d'.qualifiedName :=
    QualifiedName.text_injective d.qualifiedName_ne_nil d'.qualifiedName_ne_nil hPlain hPlain' hText
  obtain ⟨hParents, hLast⟩ := List.append_inj' hSame rfl
  exact ⟨hParents, List.singleton_inj.mp hLast⟩

end Descriptor

/-- The texts that a path may stand for inside a scope, in the order in which they are tried. The
beginnings of the scope are spelled by adding one part after the other, with `::` behind each. -/
def ScopedPath.spellings (path : ScopedPath) (scope : QualifiedName) : List String :=
  if path.isAbsolute then [QualifiedName.text path.names]
  else (scope.scanl (fun spelled part => spelled ++ part ++ "::") "").reverse.map
    (· ++ QualifiedName.text path.names)

/-- The text among `texts` that a type names from inside a scope. -/
def resolveText? (type : TypeExpr) (scope : QualifiedName) (texts : List String) : Option String :=
  (ScopedPath.ofType? type).bind fun path => (path.spellings scope).find? texts.contains

theorem foldl_spelled_append (beginning : QualifiedName) {names : QualifiedName}
    (hNames : names ≠ []) (start : String) :
    beginning.foldl (fun spelled part => spelled ++ part ++ "::") start ++ names.text =
      start ++ QualifiedName.text (beginning ++ names) := by
  induction beginning generalizing start with
  | nil => rfl
  | cons part beginning ih =>
      have hMore : beginning ++ names ≠ [] := List.append_ne_nil_of_right_ne_nil _ hNames
      rw [List.foldl_cons, ih, List.cons_append, QualifiedName.text_cons part hMore]
      simp only [String.append_assoc]

namespace ScopedPath

variable {path : ScopedPath} {scope : QualifiedName} {records : List QualifiedName}

/-- The texts that are tried are those of the candidates, in the same order. -/
theorem spellings_eq (hNames : path.names ≠ []) :
    path.spellings scope = (path.candidates scope).map QualifiedName.text := by
  rw [spellings, candidates]
  split
  · rfl
  · rw [scanl_eq_map_inits, beginnings_eq, ← List.map_reverse, List.map_map, List.map_map]
    apply List.map_congr_left
    intro beginning _
    exact (foldl_spelled_append beginning hNames "").trans (String.empty_append)

/-- Candidates are made of a scope and a path, so they have no colons if these have none. -/
theorem isPlain_of_mem_candidates (hPath : QualifiedName.IsPlain path.names)
    (hScope : scope.IsPlain) {name : QualifiedName} (hName : name ∈ path.candidates scope) :
    name.IsPlain := by
  rw [candidates_eq] at hName
  obtain ⟨beginning, hBeginning, rfl⟩ := List.mem_map.mp hName
  have hAdmits := mem_admitted_iff.mp hBeginning
  have hPlain : QualifiedName.IsPlain beginning :=
    fun part hPart => hScope part (hAdmits.1.subset hPart)
  exact QualifiedName.isPlain_append hPlain hPath

theorem ne_nil_of_mem_candidates (hNames : path.names ≠ []) {name : QualifiedName}
    (hName : name ∈ path.candidates scope) : name ≠ [] := by
  rw [candidates_eq] at hName
  obtain ⟨beginning, _, rfl⟩ := List.mem_map.mp hName
  exact List.append_ne_nil_of_right_ne_nil beginning hNames

/-- Whether a record has one of the names that are tried can be asked of the texts. -/
theorem find?_spellings_eq (hNames : path.names ≠ []) (hPath : QualifiedName.IsPlain path.names)
    (hScope : scope.IsPlain) (hRecords : ∀ r ∈ records, r ≠ [] ∧ r.IsPlain) :
    (path.spellings scope).find? (records.map QualifiedName.text).contains =
      ((path.candidates scope).find? records.contains).map QualifiedName.text := by
  rw [spellings_eq hNames, List.find?_map]
  congr 1
  apply List.find?_congr
  intro name hName
  have hProper := ne_nil_of_mem_candidates hNames hName
  have hPlain := isPlain_of_mem_candidates hPath hScope hName
  rw [Bool.eq_iff_iff, Function.comp_apply, List.contains_iff_mem, List.contains_iff_mem,
    List.mem_map]
  constructor
  · rintro ⟨r, hRecord, hText⟩
    obtain ⟨hNonempty, hPlainRecord⟩ := hRecords r hRecord
    rwa [← QualifiedName.text_injective hNonempty hProper hPlainRecord hPlain hText]
  · intro hRecord
    exact ⟨name, hRecord, rfl⟩

end ScopedPath

/-- To search by texts comes to the same as to search by names, if no part of a name has a colon in
it. -/
theorem resolveText?_eq {type : TypeExpr} {scope : QualifiedName} {records : List QualifiedName}
    (hType : ∀ p, type.Wraps (.path p) → QualifiedName.IsPlain p.names) (hScope : scope.IsPlain)
    (hRecords : ∀ r ∈ records, r ≠ [] ∧ r.IsPlain) :
    resolveText? type scope (records.map QualifiedName.text) =
      (resolve type scope records).map QualifiedName.text := by
  rw [resolveText?, resolve]
  cases hPath : ScopedPath.ofType? type with
  | none => rfl
  | some path =>
      obtain ⟨p, hWraps, _, hReads⟩ := ScopedPath.ofType?_eq_some_iff.mp hPath
      have hPlain : QualifiedName.IsPlain path.names :=
        fun part hPart => hType p hWraps part (hReads.names_subset hPart)
      exact ScopedPath.find?_spellings_eq hReads.names_ne_nil hPlain hScope hRecords

/-- A type names a record exactly if it is a path without a leading `::`, groupings aside, and the
record is called by its names behind the longest beginning of the scope for which there is one. A
look-up among the texts of the names finds the text of that record, and the text of a qualified name
belongs to one chain of enclosing types and one record. -/
theorem resolution_exact (type : TypeExpr) (scope : QualifiedName) (records : List QualifiedName) :
    (∀ target, resolve type scope records = some target ↔
      ∃ p path, type.Wraps (.path p) ∧ p.leading = false ∧ ScopedPath.Reads path p.names ∧
        path.Picks scope records target) ∧
    ((∀ p, type.Wraps (.path p) → QualifiedName.IsPlain p.names) → scope.IsPlain →
      (∀ r ∈ records, r ≠ [] ∧ r.IsPlain) →
      resolveText? type scope (records.map QualifiedName.text) =
        (resolve type scope records).map QualifiedName.text) ∧
    (∀ d d' : Descriptor, d.qualifiedName.IsPlain → d'.qualifiedName.IsPlain →
      d.qualifiedName.text = d'.qualifiedName.text →
      d.parents.map Parent.name = d'.parents.map Parent.name ∧ d.name = d'.name) := by
  refine ⟨?_, ?_, ?_⟩
  · intro target
    exact resolve_eq_some_iff
  · exact resolveText?_eq
  · intro d d'
    exact Descriptor.names_eq_of_text_eq

/-- A frame inside of a packet, next to a body, and a body outside. -/
def packetNames : List QualifiedName := [["Body"], ["Packet", "Body"], ["Packet", "Frame"]]

def packetFrame : Descriptor := { name := "Frame", parents := [⟨"Packet", true⟩] }

/-- Inside of the frame, `Body` is the body next to it and not the one outside. -/
theorem resolution_exact_packet :
    resolve (.group (.named "Body")) packetFrame.qualifiedName packetNames =
        some ["Packet", "Body"] ∧
      resolveText? (.group (.named "Body")) packetFrame.qualifiedName
        (packetNames.map QualifiedName.text) = some "Packet::Body" ∧
      (∀ d : Descriptor, d.qualifiedName.IsPlain → d.qualifiedName.text = "Packet::Frame" →
        d.parents.map Parent.name = ["Packet"] ∧ d.name = "Frame") := by
  obtain ⟨hResolve, hText, hNames⟩ := resolution_exact (.group (.named "Body"))
    packetFrame.qualifiedName packetNames
  have hPlain : packetFrame.qualifiedName.IsPlain := by decide
  have hFound : resolve (.group (.named "Body")) packetFrame.qualifiedName packetNames =
      some ["Packet", "Body"] := by
    have hWraps : TypeExpr.Wraps (.group (.named "Body")) (.path (Path.ofNames ["Body"])) :=
      .group (.refl _)
    have hReads : ScopedPath.Reads ⟨false, ["Body"]⟩ (Path.ofNames ["Body"]).names :=
      .relative (by decide) (by decide)
    have hLongest : ∀ longer ∈ beginnings packetFrame.qualifiedName,
        longer ++ ["Body"] ∈ packetNames → longer.length ≤ 1 := by decide
    apply (hResolve _).mpr
    refine ⟨_, _, hWraps, rfl, hReads, ["Packet"], ⟨⟨["Frame"], rfl⟩, by decide⟩, rfl, by decide, ?_⟩
    intro longer hAdmits hRecord
    exact hLongest longer (mem_beginnings_iff.mpr hAdmits.1) hRecord
  have hType : ∀ p, TypeExpr.Wraps (.group (.named "Body")) (.path p) →
      QualifiedName.IsPlain p.names := by
    intro p hWraps
    cases TypeExpr.path?_eq_some_iff.mpr hWraps
    decide
  refine ⟨hFound, ?_, ?_⟩
  · rw [hText hType hPlain (by decide), hFound]
    decide
  · intro d hPlain' hSame
    exact hNames d packetFrame hPlain' hPlain (hSame.trans (by decide))

end WireRecord
