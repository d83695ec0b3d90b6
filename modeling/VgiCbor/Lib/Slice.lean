import Mathlib

/-!
# Reading a byte string by index

`index` and `slice` read an element or a range of a list and fault outside its bounds.
Inside them they do not (`index_ok`, `slice_ok`), and of a list that is laid out in parts they
read the part that stands at the position (`index_append`, `slice_append`).
-/

namespace Slice

variable {α ε : Type} (fault : ε)

def index (list : List α) (i : Nat) : Except ε α :=
  match list[i]? with
  | some a => .ok a
  | none => .error fault

/-- `list[i..j]` -/
def slice (list : List α) (i j : Nat) : Except ε (List α) :=
  if i ≤ j ∧ j ≤ list.length then .ok ((list.drop i).take (j - i)) else .error fault

variable {fault}

theorem index_ok {list : List α} {i : Nat} (h : i < list.length) :
    ∃ a, index fault list i = .ok a :=
  ⟨list[i], by rw [index, List.getElem?_eq_getElem h]⟩

theorem slice_ok {list : List α} {i j : Nat} (hij : i ≤ j) (hj : j ≤ list.length) :
    slice fault list i j = .ok ((list.drop i).take (j - i)) :=
  if_pos ⟨hij, hj⟩

/-- Behind a front part the positions are those of the rest. -/
theorem index_append {front : List α} {i : Nat} (h : front.length = i) (back : List α) (k : Nat) :
    index fault (front ++ back) (i + k) = index fault back k := by
  subst h
  rw [index, index, List.getElem?_append_right (Nat.le_add_right _ _), Nat.add_sub_cancel_left]

/-- The part between a front and a back part. -/
theorem slice_append {front part : List α} {i j : Nat} (hi : front.length = i)
    (hj : i + part.length = j) (back : List α) :
    slice fault (front ++ (part ++ back)) i j = .ok part := by
  subst hi hj
  rw [slice_ok (by omega) (by simp only [List.length_append]; omega), List.drop_left,
    Nat.add_sub_cancel_left, List.take_left]

/-- What stands behind a front part. -/
theorem slice_tail {front : List α} {i : Nat} (h : front.length = i) (back : List α) :
    slice fault (front ++ back) i (front ++ back).length = .ok back := by
  have hpart := @slice_append _ _ fault front back i _ h rfl []
  rw [List.append_nil] at hpart
  rw [List.length_append, h]
  exact hpart

end Slice
