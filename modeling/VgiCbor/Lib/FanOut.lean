import Mathlib

/-!
# Rows that fan out

A function that makes any number of rows of one returns with each of them the number of the row
that it was made of.  Joined by these numbers, every row stands beside its parent, and the
result is that of the nested loop (`stamp_fanOut`).
-/

namespace FanOut

variable {ρ σ τ : Type}

/-- The rows made of a list of rows, with the numbers of their parents, in the order of the
parents. -/
def fanOut (fan : ρ → List σ) (rows : List (ρ × Nat)) : List (σ × Nat) :=
  rows.flatMap fun row => (fan row.1).map fun item => (item, row.2)

/-- Each row beside its parent. -/
def stamp (parents : List τ) (out : List (σ × Nat)) : List (τ × σ) :=
  out.filterMap fun item => parents[item.2]?.map fun parent => (parent, item.1)

/-- Each row with all that is made of it, in the order in which two nested loops meet them. -/
def nestedLoop (fan : ρ → List σ) (rows : List (τ × ρ)) : List (τ × σ) :=
  rows.flatMap fun row => (fan row.2).map fun item => (row.1, item)

variable {fan : ρ → List σ}

theorem fanOut_map {φ : Type} (g : σ → φ) (rows : List (ρ × Nat)) :
    fanOut (fun row => (fan row).map g) rows = (fanOut fan rows).map fun x => (g x.1, x.2) := by
  simp [fanOut, List.map_flatMap, Function.comp_def]

theorem fanOut_fst (rows : List (ρ × Nat)) :
    (fanOut fan rows).map Prod.fst = (rows.map Prod.fst).flatMap fan := by
  simp [fanOut, List.map_flatMap, List.flatMap_map, Function.comp_def]

theorem stamp_siblings {parents : List τ} {n : Nat} {parent : τ} (h : parents[n]? = some parent)
    (items : List σ) :
    stamp parents (items.map fun item => (item, n)) = items.map fun item => (parent, item) := by
  simp only [stamp, List.filterMap_map, Function.comp_def, h, Option.map_some,
    List.filterMap_eq_map']

/-- Behind any number of rows, the parents of the rest are found at their numbers. -/
theorem stamp_fanOut_from (front parents : List τ) {rows : List ρ}
    (hlen : parents.length = rows.length) :
    stamp (front ++ parents) (fanOut fan (rows.zipIdx front.length)) =
      nestedLoop fan (parents.zip rows) := by
  induction rows generalizing front parents with
  | nil =>
      obtain rfl := List.length_eq_zero_iff.1 hlen
      rfl
  | cons row rows ih =>
      cases parents with
      | nil => cases hlen
      | cons parent parents =>
          have hrest := ih (front ++ [parent]) parents (Nat.succ.inj hlen)
          rw [List.append_assoc, List.length_append] at hrest
          have hparent : (front ++ parent :: parents)[front.length]? = some parent := by simp
          rw [List.zipIdx_cons, fanOut, List.flatMap_cons, stamp, List.filterMap_append]
          change stamp _ _ ++ stamp _ (fanOut fan _) = _
          rw [stamp_siblings hparent, List.zip_cons_cons, nestedLoop, List.flatMap_cons]
          exact congrArg _ hrest

/-- A join by the numbers of the parents is the nested loop, also where a parent has no rows
or many. -/
theorem stamp_fanOut (parents : List τ) {rows : List ρ} (hlen : parents.length = rows.length) :
    stamp parents (fanOut fan rows.zipIdx) = nestedLoop fan (parents.zip rows) :=
  stamp_fanOut_from [] parents hlen

end FanOut
