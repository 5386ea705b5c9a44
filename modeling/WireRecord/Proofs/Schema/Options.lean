import WireRecord.Proofs.Schema.Exactness

/-!
What the options of a marker ask for. An option asks for a byte order by its name and by how its
value is spelled. Of several good options the last one counts, and one bad option spoils them all;
the first bad one is the one that is reported.
-/

namespace WireRecord

/-- A character is the given one, or an ASCII capital of which the given one is the small letter. -/
def SameLetter (c d : Char) : Prop :=
  c = d ∨ 'A' ≤ c ∧ c ≤ 'Z' ∧ d.toNat = c.toNat + 32

/-- A small letter is what lowering makes of itself and of its capital. -/
theorem toLower_eq_iff {c d : Char} (hSmall : ¬('A' ≤ d ∧ d ≤ 'Z')) :
    c.toLower = d ↔ SameLetter c d := by
  delta Char.toLower SameLetter
  split
  · rename_i hCapital
    have hOther : c ≠ d := by
      rintro rfl
      exact hSmall hCapital
    have hCode : (c.val + ('a'.val - 'A'.val)).toNat = c.toNat + 32 := by
      have hUpper : c.val.toNat ≤ 90 := hCapital.2
      have hShift : ('a'.val - 'A'.val).toNat = 32 := rfl
      rw [UInt32.toNat_add, hShift]
      exact Nat.mod_eq_of_lt (by omega)
    constructor
    · rintro rfl
      exact .inr ⟨hCapital.1, hCapital.2, hCode⟩
    · rintro (hSame | ⟨_, _, hNumber⟩)
      · exact absurd hSame hOther
      · apply Char.ext
        apply UInt32.toNat_inj.mp
        exact hCode.trans hNumber.symm
  · rename_i hOther
    refine ⟨.inl, ?_⟩
    rintro (hSame | ⟨hLower, hUpper, _⟩)
    · exact hSame
    · exact absurd ⟨hLower, hUpper⟩ hOther

namespace ByteOrder

/-- The name of an order as the last name of a path. -/
def pathName : ByteOrder → String
  | little => "Little"
  | big => "Big"

/-- The name of an order is compared letter by letter, since it has small letters only. -/
theorem equalIgnoringCase_name_iff {text : String} (order : ByteOrder) :
    equalIgnoringCase text order.name ↔ List.Forall₂ SameLetter text.toList order.name.toList := by
  have hSmall : ∀ d ∈ order.name.toList, ¬('A' ≤ d ∧ d ≤ 'Z') := by
    cases order <;> simp [name]
  have hName : order.name.toList.map Char.toLower = order.name.toList := by cases order <;> decide
  have hLower (t : String) : t.toLower.toList = t.toList.map Char.toLower := String.toList_map ..
  rw [equalIgnoringCase, beq_iff_eq, ← String.toList_inj, hLower, hLower, hName]
  generalize order.name.toList = letters at hSmall
  generalize text.toList = written
  clear hName
  induction letters generalizing written with
  | nil => simp
  | cons d letters ih =>
      rw [List.forall_mem_cons] at hSmall
      cases written with
      | nil => simp
      | cons c written =>
          rw [List.map_cons, List.cons.injEq, List.forall₂_cons]
          exact and_congr (toLower_eq_iff hSmall.1) (ih hSmall.2 written)

end ByteOrder

namespace ValueExpr

/-- A value spells a byte order: as the last name of a path, or as a string in which the case of
ASCII letters does not count, through any groupings and attributes. -/
inductive Spells (order : ByteOrder) : ValueExpr → Prop where
  | path (p : Path) (hName : p.last? = some order.pathName) : Spells order (.path p)
  | text {text : String} (tokens : Tokens)
      (hText : List.Forall₂ SameLetter text.toList order.name.toList) :
      Spells order (.text text tokens)
  | paren {inner : ValueExpr} (h : Spells order inner) : Spells order (.paren inner)
  | group {inner : ValueExpr} (h : Spells order inner) : Spells order (.group inner)
  | attributed (attributes : Tokens) {inner : ValueExpr} (h : Spells order inner) :
      Spells order (.attributed attributes inner)

variable {order : ByteOrder}

/-- A path spells an order by its last name, whatever stands before it. -/
theorem byteOrder?_path_iff {p : Path} :
    (path p).byteOrder? = some order ↔ p.last? = some order.pathName := by
  simp only [byteOrder?, peel]
  split
  · rename_i hLast
    cases order <;> simp [ByteOrder.pathName, hLast]
  · rename_i hLast
    cases order <;> simp [ByteOrder.pathName, hLast]
  · rename_i hLittle hBig
    refine iff_of_false nofun fun hLast => ?_
    cases order with
    | little => exact hLittle hLast
    | big => exact hBig hLast

/-- A string spells an order by its text, and not by how the literal is written. -/
theorem byteOrder?_text_iff {text : String} {tokens : Tokens} :
    (ValueExpr.text text tokens).byteOrder? = some order ↔
      List.Forall₂ SameLetter text.toList order.name.toList := by
  rw [← ByteOrder.equalIgnoringCase_name_iff]
  simp only [byteOrder?, peel, List.find?_cons, List.find?_nil]
  cases hLittle : equalIgnoringCase text ByteOrder.little.name with
  | false => cases hBig : equalIgnoringCase text ByteOrder.big.name <;> cases order <;> simp_all
  | true =>
      -- the two names differ in length, so a text cannot spell both
      have hBig : equalIgnoringCase text ByteOrder.big.name = false := by
        rw [← Bool.not_eq_true, ByteOrder.equalIgnoringCase_name_iff]
        intro hBoth
        have hLong := ((ByteOrder.equalIgnoringCase_name_iff .little).mp hLittle).length_eq
        rw [hBoth.length_eq] at hLong
        exact absurd hLong (by decide)
      cases order <;> simp_all

theorem byteOrder?_eq_some_iff {value : ValueExpr} :
    value.byteOrder? = some order ↔ value.Spells order := by
  induction value with
  | path p =>
      rw [byteOrder?_path_iff]
      exact ⟨.path p, fun | .path _ hName => hName⟩
  | text text tokens =>
      rw [byteOrder?_text_iff]
      exact ⟨.text tokens, fun | .text _ hText => hText⟩
  | paren inner ih => exact ih.trans ⟨.paren, fun | .paren h => h⟩
  | group inner ih => exact ih.trans ⟨.group, fun | .group h => h⟩
  | attributed attributes inner ih =>
      exact ih.trans ⟨.attributed attributes, fun | .attributed _ h => h⟩
  | qualified tokens | verbatim tokens | other tokens => exact iff_of_false nofun nofun

end ValueExpr

namespace MarkerOption

variable {o : MarkerOption} {options before after : List MarkerOption} {order start : ByteOrder}
  {record : String} {member index : Nat}

/-- An option of a marker asks for a byte order. -/
structure Asks (o : MarkerOption) (order : ByteOrder) : Prop where
  name_eq : o.name = byteOrderOption
  spells : o.value.Spells order

/-- An option asks for one of the byte orders. -/
def IsGood (o : MarkerOption) : Prop := ∃ order, o.Asks order

/-- All options are good and the last of them asks for the order, which is little if there is none.
-/
inductive AskFor : List MarkerOption → ByteOrder → Prop where
  | nothing : AskFor [] .little
  | last {earlier : List MarkerOption} {o : MarkerOption} {order : ByteOrder}
      (good : ∀ e ∈ earlier, e.IsGood) (asks : o.Asks order) : AskFor (earlier ++ [o]) order

/-- Good options ask for an order, and options with a bad one for none. -/
theorem exists_askFor_iff : (∃ order, AskFor options order) ↔ ∀ o ∈ options, o.IsGood := by
  constructor
  · rintro ⟨order, _ | ⟨good, asks⟩⟩
    · exact List.forall_mem_nil _
    · rw [List.forall_mem_append, List.forall_mem_singleton]
      exact ⟨good, _, asks⟩
  · intro h
    rcases options.eq_nil_or_concat with rfl | ⟨earlier, o, rfl⟩
    · exact ⟨.little, .nothing⟩
    · rw [List.concat_eq_append, List.forall_mem_append, List.forall_mem_singleton] at h
      obtain ⟨hEarlier, order, hAsks⟩ := h
      exact ⟨order, List.concat_eq_append ▸ .last hEarlier hAsks⟩

/-- A good option sets the order with which the others are read. -/
theorem byteOrder_cons (hAsks : o.Asks order) :
    byteOrder record member start index (o :: options) =
      byteOrder record member order (index + 1) options := by
  have hValue := ValueExpr.byteOrder?_eq_some_iff.mpr hAsks.spells
  simp [byteOrder, hAsks.name_eq, hValue]

/-- Reading good options and then others ends as reading the others does, but for the order that
holds before them. -/
theorem byteOrder_append (hBefore : ∀ b ∈ before, b.IsGood) :
    ∃ start', byteOrder record member start index (before ++ after) =
      byteOrder record member start' (index + before.length) after := by
  induction before generalizing start index with
  | nil => exact ⟨start, rfl⟩
  | cons b before ih =>
      rw [List.forall_mem_cons] at hBefore
      obtain ⟨order, hAsks⟩ := hBefore.1
      obtain ⟨start', hRest⟩ := @ih order (index + 1) hBefore.2
      refine ⟨start', ?_⟩
      rw [List.cons_append, byteOrder_cons hAsks, hRest, List.length_cons, Nat.add_assoc,
        Nat.add_comm 1]

/-- Options that ask for an order are read as that order. -/
theorem AskFor.byteOrder_eq (h : AskFor options order) :
    byteOrder record member .little index options = .ok order := by
  cases h with
  | nothing => rfl
  | last good asks =>
      obtain ⟨start', hRead⟩ := byteOrder_append good
      rw [hRead, byteOrder_cons asks]
      rfl

/-- An option has a fault exactly if it is not good. -/
theorem fault?_eq_none_iff : o.fault? record member index = none ↔ o.IsGood := by
  rw [fault?]
  by_cases hName : o.name = byteOrderOption
  · have hSame : (o.name != byteOrderOption) = false := bne_eq_false_iff_eq.mpr hName
    rw [hSame, if_neg Bool.false_ne_true]
    cases hValue : o.value.byteOrder? with
    | none =>
        refine iff_of_false (Option.some_ne_none _) ?_
        rintro ⟨order, hAsks⟩
        rw [ValueExpr.byteOrder?_eq_some_iff.mpr hAsks.spells] at hValue
        cases hValue
    | some order =>
        exact iff_of_true rfl ⟨order, hName, ValueExpr.byteOrder?_eq_some_iff.mp hValue⟩
  · rw [if_pos (bne_iff_ne.mpr hName)]
    refine iff_of_false (Option.some_ne_none _) ?_
    rintro ⟨order, hAsks⟩
    exact hName hAsks.name_eq

end MarkerOption

end WireRecord
