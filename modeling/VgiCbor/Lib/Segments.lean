import VgiCbor.Lib.Traverse

/-!
# Flattened layouts

Nested columns are stored flat: the elements of all rows in one list, cut again
by running totals (variable-length rows), by a fixed width, or field by field.
Each layout below comes with the rule that cutting recovers the rows.
-/

namespace Segments

universe u

variable {α : Type u}

/-! ## Variable-length rows -/

/-- The running totals of `lengths`, beginning at `start`. -/
def offsetsFrom (start : Nat) : List Nat → List Nat
  | [] => [start]
  | n :: ns => start :: offsetsFrom (start + n) ns

@[simp] theorem offsetsFrom_length (start : Nat) (lengths : List Nat) :
    (offsetsFrom start lengths).length = lengths.length + 1 := by
  induction lengths generalizing start with
  | nil => rfl
  | cons n ns ih => simp [offsetsFrom, ih]

theorem offsetsFrom_eq_cons (start : Nat) (lengths : List Nat) :
    offsetsFrom start lengths = start :: (offsetsFrom start lengths).tail := by
  cases lengths <;> rfl

/-- Every running total lies between the start and the grand total. -/
theorem mem_offsetsFrom {start n : Nat} {lengths : List Nat}
    (h : n ∈ offsetsFrom start lengths) : start ≤ n ∧ n ≤ start + lengths.sum := by
  induction lengths generalizing start with
  | nil =>
      obtain rfl : n = start := by simpa [offsetsFrom] using h
      simp
  | cons k ks ih =>
      rw [offsetsFrom, List.mem_cons] at h
      rcases h with rfl | h
      · simp
      · have := ih h
        simp only [List.sum_cons]
        omega

theorem offsetsFrom_pairwise (start : Nat) (lengths : List Nat) :
    (offsetsFrom start lengths).Pairwise (· ≤ ·) := by
  induction lengths generalizing start with
  | nil => simp [offsetsFrom]
  | cons n ns ih =>
      rw [offsetsFrom, List.pairwise_cons]
      exact ⟨fun k hk => by have := (mem_offsetsFrom hk).1; omega, ih _⟩

theorem getLast?_offsetsFrom (start : Nat) (lengths : List Nat) :
    (offsetsFrom start lengths).getLast? = some (start + lengths.sum) := by
  induction lengths generalizing start with
  | nil => simp [offsetsFrom]
  | cons n ns ih =>
      have hne : offsetsFrom (start + n) ns ≠ [] := by
        intro h
        have := offsetsFrom_length (start + n) ns
        simp [h] at this
      rw [offsetsFrom, List.getLast?_cons, ih]
      simp [Nat.add_assoc]

/-- The pieces of `xs` between consecutive offsets. -/
def slices (xs : List α) : List Nat → List (List α)
  | a :: b :: rest => (xs.drop a).take (b - a) :: slices xs (b :: rest)
  | _ => []

theorem slices_length (xs : List α) (offsets : List Nat) :
    (slices xs offsets).length = offsets.length - 1 := by
  induction offsets with
  | nil => rfl
  | cons a rest ih =>
      cases rest with
      | nil => rfl
      | cons b rest => rw [slices, List.length_cons, ih]; rfl

private theorem slices_offsetsFrom_append (done : List α) (rows : List (List α)) :
    slices (done ++ rows.flatten) (offsetsFrom done.length (rows.map List.length)) = rows := by
  induction rows generalizing done with
  | nil => rfl
  | cons row rows ih =>
      have hnext := ih (done ++ row)
      rw [List.length_append] at hnext
      cases rows with
      | nil => simp [offsetsFrom, slices]
      | cons row' rows =>
          simp only [List.map_cons, offsetsFrom, slices, List.flatten_cons] at hnext ⊢
          rw [List.append_assoc] at hnext
          rw [hnext]
          simp

/-- Cutting the flattened rows at the running totals recovers the rows. -/
theorem slices_flatten (rows : List (List α)) :
    slices rows.flatten (offsetsFrom 0 (rows.map List.length)) = rows := by
  simpa using slices_offsetsFrom_append [] rows

/-! ## Fixed-length rows -/

/-- The first `count` pieces of width `n`. -/
def chunks (n : Nat) : Nat → List α → List (List α)
  | 0, _ => []
  | count + 1, xs => xs.take n :: chunks n count (xs.drop n)

theorem chunks_length (n count : Nat) (xs : List α) : (chunks n count xs).length = count := by
  induction count generalizing xs with
  | zero => rfl
  | succ count ih => rw [chunks, List.length_cons, ih]

theorem chunks_flatten {n : Nat} {rows : List (List α)} (h : ∀ row ∈ rows, row.length = n) :
    chunks n rows.length rows.flatten = rows := by
  induction rows with
  | nil => rfl
  | cons row rows ih =>
      have hrow : row.length = n := h row (by simp)
      simp only [List.length_cons, List.flatten_cons, chunks]
      rw [List.take_left' hrow, List.drop_left' hrow, ih fun r hr => h r (by simp [hr])]

/-! ## Field-by-field rows -/

/-- Read `count` rows out of columns. -/
def toRows (count : Nat) : List (List α) → List (List α)
  | [] => List.replicate count []
  | column :: columns => List.zipWith List.cons column (toRows count columns)

theorem toRows_length {count : Nat} {columns : List (List α)}
    (h : ∀ c ∈ columns, c.length = count) : (toRows count columns).length = count := by
  induction columns with
  | nil => simp [toRows]
  | cons c cs ih =>
      have hc : c.length = count := h c (by simp)
      simp [toRows, hc, ih fun c' hc' => h c' (by simp [hc'])]

/-- Columns that are computed from rows field by field. -/
theorem toRows_map {φ : Type u} (rows : List φ) (fields : List (φ → α)) :
    toRows rows.length (fields.map fun f => rows.map f) =
      rows.map fun row => fields.map fun f => f row := by
  induction fields with
  | nil => simp [toRows, List.map_const']
  | cons f fs ih => rw [List.map_cons, toRows, ih, List.zipWith_map, List.zipWith_self]; rfl

/-- Converting row by row is converting column by column and transposing. -/
theorem mapM_toRows {φ : Type u} {β : Type u} (g : φ → α → Option β) (fields : List φ)
    (xs : List α) :
    (xs.mapM fun x => fields.mapM fun f => g f x) =
      (fields.mapM fun f => xs.mapM (g f)).map (toRows xs.length) := by
  induction fields with
  | nil => simpa [toRows] using Traverse.mapM_some_map (fun _ => ([] : List β)) xs
  | cons f fs ih =>
      have hrow : (xs.mapM fun x => (f :: fs).mapM fun f => g f x) =
          xs.mapM fun x => (g f x).bind fun y => (fs.mapM fun f => g f x).map fun z => y :: z := by
        apply Traverse.mapM_congr
        intro x _
        rw [List.mapM_cons]
        cases g f x with
        | none => rfl
        | some y => cases fs.mapM fun f => g f x <;> rfl
      rw [hrow, Traverse.mapM_zipWith List.cons xs, ih, List.mapM_cons]
      cases xs.mapM (g f) with
      | none => rfl
      | some c => cases (fs.mapM fun f => xs.mapM (g f)) <;> rfl

end Segments
