import Mathlib.Data.List.Forall2
import Mathlib.Data.List.Infix
import Mathlib.Data.List.Nodup

/-!
Facts on lists that mention nothing of records: lists that correspond element by element, elements
taken with their indices, computations that go over a list up to the first failure, and look-up.
-/

namespace WireRecord

section Correspondence

variable {α β γ : Type} {R : α → β → Prop}

/-- What stands at an index of a list corresponds to what stands there in the other one. -/
theorem forall₂_getElem? {first : List α} {second : List β} (h : List.Forall₂ R first second)
    {place : Nat} {a : α} (hAt : first[place]? = some a) :
    ∃ b, second[place]? = some b ∧ R a b := by
  induction h generalizing place with
  | nil => cases hAt
  | cons hHead hTail ih =>
      cases place with
      | zero =>
          cases hAt
          exact ⟨_, rfl, hHead⟩
      | succ place => exact ih hAt

/-- Functions that agree on corresponding elements map the lists to the same list. -/
theorem map_eq_map_of_forall₂ {f : α → γ} {g : β → γ} {first : List α} {second : List β}
    (h : List.Forall₂ (fun a b => f a = g b) first second) : first.map f = second.map g := by
  induction h with
  | nil => rfl
  | cons hHead hTail ih => rw [List.map_cons, List.map_cons, hHead, ih]

/-- A selection by a function agrees with a filter element by element. -/
theorem forall₂_filter_filterMap {p : α → Bool} {f : α → Option β} {items : List α}
    (hNone : ∀ a ∈ items, f a = none → ¬p a)
    (hSome : ∀ a ∈ items, ∀ b, f a = some b → p a ∧ R a b) :
    List.Forall₂ R (items.filter p) (items.filterMap f) := by
  induction items with
  | nil => exact .nil
  | cons a items ih =>
      rw [List.forall_mem_cons] at hNone hSome
      have hRest := ih hNone.2 hSome.2
      cases hHead : f a with
      | none =>
          have hOut : ¬p a := hNone.1 hHead
          rwa [List.filter_cons_of_neg hOut, List.filterMap_cons_none hHead]
      | some b =>
          obtain ⟨hIn, hRelated⟩ := hSome.1 b hHead
          rw [List.filter_cons_of_pos hIn, List.filterMap_cons_some hHead]
          exact .cons hRelated hRest

/-- Elements that correspond still do when they are taken with their indices, which are the same. -/
theorem forall₂_zipIdx {first : List α} {second : List β} (h : List.Forall₂ R first second)
    (start : Nat) :
    List.Forall₂ (fun p q => R p.1 q.1 ∧ p.2 = q.2) (first.zipIdx start) (second.zipIdx start) := by
  induction h generalizing start with
  | nil => exact .nil
  | cons hHead hTail ih =>
      rw [List.zipIdx_cons, List.zipIdx_cons]
      exact .cons ⟨hHead, rfl⟩ (ih (start + 1))

/-- Selections that agree on corresponding elements, at every index, select the same. -/
theorem zipIdx_filterMap_congr {f : α × Nat → Option γ} {g : β × Nat → Option γ} {first : List α}
    {second : List β} (h : List.Forall₂ R first second)
    (hSame : ∀ a b i, R a b → f (a, i) = g (b, i)) (start : Nat) :
    (first.zipIdx start).filterMap f = (second.zipIdx start).filterMap g := by
  have hImages : (first.zipIdx start).map f = (second.zipIdx start).map g := by
    apply map_eq_map_of_forall₂
    refine (forall₂_zipIdx h start).imp ?_
    rintro ⟨a, i⟩ ⟨b, _⟩ ⟨hRelated, rfl⟩
    exact hSame a b i hRelated
  have hSelect := congrArg (List.filterMap id) hImages
  rwa [List.filterMap_map, List.filterMap_map] at hSelect

end Correspondence

section Indices

variable {α β γ : Type}

/-- Indices given a second time are the same. -/
theorem zipIdx_map_zipIdx (f : α × Nat → β) (items : List α) :
    (items.zipIdx.map f).zipIdx = items.zipIdx.map fun p => (f p, p.2) := by
  apply List.ext_getElem
  · simp
  · intro i _ _
    simp

/-- What a list is combined with may be computed from its elements and their indices. -/
theorem zipWith_zipIdx (f : α → β → γ) (g : α × Nat → β) (l : List α) :
    List.zipWith f l (l.zipIdx.map g) = l.zipIdx.map fun p => f p.1 (g p) := by
  have hZip : List.zipWith f (l.zipIdx.map Prod.fst) (l.zipIdx.map g) =
      l.zipIdx.map fun p => f p.1 (g p) := by
    rw [List.zipWith_map, List.zipWith_self]
  rwa [List.zipIdx_map_fst] at hZip

/-- A change at one index, seen from the elements with their indices. -/
theorem zipIdx_modify (f : α → α) (index : Nat) (items : List α) :
    (items.modify index f).zipIdx =
      items.zipIdx.map fun p => if p.2 = index then (f p.1, p.2) else p := by
  apply List.ext_getElem?
  intro i
  rw [List.getElem?_zipIdx, List.getElem?_modify, List.getElem?_map, List.getElem?_zipIdx]
  cases items[i]? with
  | none => rfl
  | some a => by_cases hIndex : index = i <;> simp [hIndex, eq_comm (a := i)]

/-- A function that changes no entry but one replaces that one. -/
theorem map_eq_set {f : α → α} {place : Nat} {a : α} {items : List α}
    (hAt : items[place]? = some a) (hOther : ∀ i b, i ≠ place → items[i]? = some b → f b = b) :
    items.map f = items.set place (f a) := by
  apply List.ext_getElem?
  intro i
  rw [List.getElem?_map, List.getElem?_set]
  split
  · rename_i hSame
    subst hSame
    rw [hAt, if_pos (List.getElem?_eq_some_iff.mp hAt).1]
    rfl
  · rename_i hDiffers
    cases hItem : items[i]? with
    | none => rfl
    | some b => exact congrArg some (hOther i b (Ne.symm hDiffers) hItem)

end Indices

section Computations

variable {ε α β : Type} {f : α → Except ε β} {items : List α}

/-- If a computation succeeds on all elements, it succeeds on the list with what it gives for
them. -/
theorem mapM_of_forall₂ {results : List β}
    (h : List.Forall₂ (fun a b => f a = .ok b) items results) : items.mapM f = .ok results := by
  induction h with
  | nil => rfl
  | cons hHead hTail ih =>
      rw [List.mapM_cons, hHead, ih]
      rfl

theorem mapM_eq_map {g : α → β} (h : ∀ a ∈ items, f a = .ok (g a)) :
    items.mapM f = .ok (items.map g) := by
  apply mapM_of_forall₂
  rw [List.forall₂_map_right_iff, List.forall₂_same]
  exact h

/-- A computation that does not succeed on all elements fails on the list, as it does on one of
them. -/
theorem mapM_eq_error (h : ¬∀ a ∈ items, ∃ b, f a = .ok b) :
    ∃ e, items.mapM f = .error e ∧ ∃ a ∈ items, f a = .error e := by
  induction items with
  | nil => exact absurd (List.forall_mem_nil _) h
  | cons a items ih =>
      rw [List.mapM_cons]
      cases hHead : f a with
      | error e => exact ⟨e, rfl, a, List.mem_cons_self, hHead⟩
      | ok b =>
          have hTail : ¬∀ a ∈ items, ∃ b, f a = .ok b :=
            fun hAll => h (List.forall_mem_cons.mpr ⟨⟨b, hHead⟩, hAll⟩)
          obtain ⟨e, hError, a', hMember, hItem⟩ := ih hTail
          refine ⟨e, ?_, a', List.mem_cons_of_mem a hMember, hItem⟩
          rw [hError]
          rfl

/-- A computation that fails on those elements only which a test picks out fails on a list as it
does on the first of them. -/
theorem mapM_of_find? {test : α → Bool} {a : α} {e : ε} (hFirst : items.find? test = some a)
    (hFails : f a = .error e) (hOther : ∀ b ∈ items, ¬test b → ∃ result, f b = .ok result) :
    items.mapM f = .error e := by
  induction items with
  | nil => cases hFirst
  | cons b items ih =>
      rw [List.forall_mem_cons] at hOther
      rw [List.mapM_cons]
      cases hTest : test b with
      | true =>
          rw [List.find?_cons_of_pos hTest] at hFirst
          cases hFirst
          rw [hFails]
          rfl
      | false =>
          have hPasses : ¬test b := ne_true_of_eq_false hTest
          rw [List.find?_cons_of_neg hPasses] at hFirst
          obtain ⟨result, hResult⟩ := hOther.1 hPasses
          rw [hResult, ih hFirst hOther.2]
          rfl

/-- If every key of a list of entries is found with the value next to it, looking up all keys gives
all values. -/
theorem mapM_fst {find : α → Option β} {entries : List (α × β)}
    (hFind : ∀ entry ∈ entries, find entry.1 = some entry.2) :
    (entries.map Prod.fst).mapM find = some (entries.map Prod.snd) := by
  induction entries with
  | nil => rfl
  | cons entry entries ih =>
      rw [List.forall_mem_cons] at hFind
      simp [List.mapM_cons, hFind.1, ih hFind.2]

end Computations

section Selection

variable {α β γ : Type}

/-- Where no key occurs twice, look-up finds every entry, and not only the first one. -/
theorem lookup_of_mem [BEq α] [LawfulBEq α] {entries : List (α × β)}
    (hNodup : (entries.map Prod.fst).Nodup) {key : α} {value : β} (hMem : (key, value) ∈ entries) :
    entries.lookup key = some value := by
  induction entries with
  | nil => cases hMem
  | cons entry entries ih =>
      rw [List.map_cons, List.nodup_cons] at hNodup
      rcases List.mem_cons.mp hMem with rfl | hRest
      · exact List.lookup_cons_self
      · have hKey : key ≠ entry.1 := by
          intro hKey
          exact hNodup.1 (List.mem_map.mpr ⟨(key, value), hRest, hKey⟩)
        obtain ⟨other, v⟩ := entry
        rw [List.lookup_cons, beq_false_of_ne hKey]
        exact ih hNodup.2 hRest

/-- Names given to selected elements form a sublist of those given to all. -/
theorem filterMap_map_sublist (select : α → Option β) (f : β → γ) (g : α → γ)
    (hName : ∀ a b, select a = some b → f b = g a) (l : List α) :
    (l.filterMap select).map f |>.Sublist (l.map g) := by
  induction l with
  | nil => exact .slnil
  | cons a l ih =>
      cases hSelect : select a with
      | none =>
          rw [List.filterMap_cons_none hSelect, List.map_cons]
          exact ih.cons _
      | some b =>
          rw [List.filterMap_cons_some hSelect, List.map_cons, List.map_cons, hName a b hSelect]
          exact ih.cons_cons _

/-- Parts of lists that are put together make up a part of the whole. -/
theorem append_subset_append {first second first' second' : List α}
    (hFirst : first ⊆ first') (hSecond : second ⊆ second') :
    first ++ second ⊆ first' ++ second' :=
  List.append_subset.mpr ⟨List.subset_append_of_subset_left _ hFirst,
    List.subset_append_of_subset_right _ hSecond⟩

/-- Among lists that get shorter, the first of which the image passes is the longest. -/
theorem find?_map_eq_some_iff_longest {test : β → Bool} {f : List α → β} {b : β}
    {items : List (List α)} (hShorter : items.Pairwise fun a a' => a'.length < a.length) :
    (items.map f).find? test = some b ↔
      ∃ a ∈ items, f a = b ∧ test b ∧ ∀ a' ∈ items, test (f a') → a'.length ≤ a.length := by
  -- A first list that passes is longer than all later ones; one that fails cannot be the longest.
  induction items with
  | nil => simp
  | cons first items ih =>
      rw [List.pairwise_cons] at hShorter
      rw [List.map_cons, List.find?_cons]
      cases hFirst : test (f first) with
      | true =>
          constructor
          · intro hFound
            cases hFound
            refine ⟨first, List.mem_cons_self, rfl, hFirst, ?_⟩
            intro a hMember _
            rcases List.mem_cons.mp hMember with rfl | hLater
            · exact Nat.le_refl _
            · exact Nat.le_of_lt (hShorter.1 a hLater)
          · rintro ⟨a, hMember, rfl, _, hLongest⟩
            rcases List.mem_cons.mp hMember with rfl | hLater
            · rfl
            · have hLong := hLongest first List.mem_cons_self hFirst
              exact absurd (hShorter.1 a hLater) (Nat.not_lt.mpr hLong)
      | false =>
          rw [ih hShorter.2]
          constructor
          · rintro ⟨a, hMember, hImage, hTest, hLongest⟩
            refine ⟨a, List.mem_cons_of_mem first hMember, hImage, hTest, ?_⟩
            intro a' hMember' hTest'
            rcases List.mem_cons.mp hMember' with rfl | hLater
            · simp [hFirst] at hTest'
            · exact hLongest a' hLater hTest'
          · rintro ⟨a, hMember, rfl, hTest, hLongest⟩
            rcases List.mem_cons.mp hMember with rfl | hLater
            · simp [hFirst] at hTest
            · exact ⟨a, hLater, rfl, hTest, fun a' hMember' =>
                hLongest a' (List.mem_cons_of_mem first hMember')⟩

/-- The intermediate results of a fold from the left are the folds over the beginnings of the
list. -/
theorem scanl_eq_map_inits (f : β → α → β) (start : β) (items : List α) :
    items.scanl f start = items.inits.map fun beginning => beginning.foldl f start := by
  induction items generalizing start with
  | nil => rfl
  | cons a items ih =>
      rw [List.scanl_cons, ih, List.inits_cons, List.map_cons, List.map_map]
      rfl

end Selection

end WireRecord
