import Mathlib

/-!
# Stable sorting by a key

Entries are sorted by comparing a key of each.  The sort is stable, so entries
with equal keys keep their order; when all keys differ, the result depends only
on the set of entries.
-/

namespace KeySort

variable {α κ : Type} (key : α → κ) (cmp : κ → κ → Ordering)

/-- `a` may stand before `b`. -/
def KeyLe (a b : α) : Prop := (cmp (key a) (key b)).isLE = true

instance : DecidableRel (KeyLe key cmp) := fun a b =>
  inferInstanceAs (Decidable ((cmp (key a) (key b)).isLE = true))

/-- A stable sort by key: insertion, so that entries with equal keys keep their order. -/
def sortBy (xs : List α) : List α := xs.insertionSort (KeyLe key cmp)

/-- No entry stands before one with a smaller key. -/
def SortedBy (xs : List α) : Prop := xs.Pairwise (KeyLe key cmp)

theorem sortBy_perm (xs : List α) : (sortBy key cmp xs).Perm xs :=
  List.perm_insertionSort _ xs

variable {key cmp}

/-- Sorting what is sorted already changes nothing. -/
theorem sortBy_eq_self {xs : List α} (h : SortedBy key cmp xs) : sortBy key cmp xs = xs :=
  List.Pairwise.insertionSort_eq h

/-- Sorting after a map sorts by the key of the image. -/
theorem sortBy_map {β : Type} (f : β → α) (xs : List β) :
    sortBy key cmp (xs.map f) = (sortBy (fun b => key (f b)) cmp xs).map f :=
  (List.map_insertionSort _ _ f xs fun _ _ _ _ => Iff.rfl).symm

/-- Two comparisons that agree on all pairs sort alike, even where they differ elsewhere. -/
theorem sortBy_congr {cmp' : κ → κ → Ordering} {xs : List α}
    (h : ∀ a ∈ xs, ∀ b ∈ xs, cmp (key a) (key b) = cmp' (key a) (key b)) :
    sortBy key cmp xs = sortBy key cmp' xs := by
  have hinsert (a : α) (ha : a ∈ xs) (ys : List α) (hys : ∀ b ∈ ys, b ∈ xs) :
      ys.orderedInsert (KeyLe key cmp) a = ys.orderedInsert (KeyLe key cmp') a := by
    induction ys with
    | nil => rfl
    | cons b ys ih =>
        obtain ⟨hb, hys⟩ := List.forall_mem_cons.1 hys
        have hle : KeyLe key cmp a b ↔ KeyLe key cmp' a b := by
          rw [KeyLe, KeyLe, h a ha b hb]
        by_cases hab : KeyLe key cmp a b
        · rw [List.orderedInsert_cons_of_le _ ys hab, List.orderedInsert_cons_of_le _ ys (hle.1 hab)]
        · rw [List.orderedInsert_of_not_le _ ys hab,
            List.orderedInsert_of_not_le _ ys (mt hle.2 hab), ih hys]
  have hsuffix (ys : List α) (hys : ∀ b ∈ ys, b ∈ xs) :
      sortBy key cmp ys = sortBy key cmp' ys := by
    induction ys with
    | nil => rfl
    | cons a ys ih =>
        obtain ⟨ha, hys⟩ := List.forall_mem_cons.1 hys
        have hrest := ih hys
        unfold sortBy at hrest ⊢
        rw [List.insertionSort_cons, List.insertionSort_cons, ← hrest]
        refine hinsert a ha _ fun b hb => hys b ?_
        exact (List.perm_insertionSort _ ys).mem_iff.1 hb
  exact hsuffix xs fun _ hb => hb

variable [Std.TransCmp cmp]

instance : Std.Total (KeyLe key cmp) where
  total a b := by
    show (cmp (key a) (key b)).isLE = true ∨ (cmp (key b) (key a)).isLE = true
    have hswap : cmp (key a) (key b) = (cmp (key b) (key a)).swap := Std.OrientedCmp.eq_swap
    cases hab : cmp (key a) (key b) with
    | lt => exact Or.inl rfl
    | eq => exact Or.inl rfl
    | gt =>
        rw [hab] at hswap
        cases hba : cmp (key b) (key a) with
        | lt => exact Or.inr rfl
        | eq => exact Or.inr rfl
        | gt => rw [hba] at hswap; cases hswap

instance : IsTrans α (KeyLe key cmp) where
  trans _ _ _ hab hbc := Std.TransCmp.isLE_trans hab hbc

variable (key cmp) in
theorem sortBy_sorted (xs : List α) : SortedBy key cmp (sortBy key cmp xs) :=
  List.pairwise_insertionSort _ xs

/-- With pairwise different keys the sorted list depends only on the entries, not on the order
they came in. -/
theorem sortBy_eq_of_perm [Std.LawfulEqCmp cmp] {xs ys : List α} (hperm : xs.Perm ys)
    (hkeys : xs.Pairwise fun a b => key a ≠ key b) :
    sortBy key cmp xs = sortBy key cmp ys := by
  have hsame : (sortBy key cmp xs).Perm (sortBy key cmp ys) :=
    (sortBy_perm key cmp xs).trans (hperm.trans (sortBy_perm key cmp ys).symm)
  apply hsame.eq_of_pairwise _ (sortBy_sorted key cmp xs) (sortBy_sorted key cmp ys)
  intro a b ha hb hab hba
  have hkey : key a = key b :=
    Std.LawfulEqCmp.eq_of_compare (Std.OrientedCmp.isLE_antisymm hab hba)
  have hmem : a ∈ xs := (sortBy_perm key cmp xs).mem_iff.1 ha
  have hmem' : b ∈ xs := hperm.mem_iff.2 ((sortBy_perm key cmp ys).mem_iff.1 hb)
  by_contra hne
  have hsymm : Std.Symm fun a b : α => key a ≠ key b := ⟨fun _ _ h => Ne.symm h⟩
  exact hkeys.forall hmem hmem' hne hkey

end KeySort
