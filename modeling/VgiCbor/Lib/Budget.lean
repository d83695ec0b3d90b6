import VgiCbor.Lib.Outcome

/-!
# Loops under a budget

A builder takes one result after the other and keeps count of their sizes.  It breaks
off at the first result that does not fit behind those before it.  `spend` is this loop:
within the budget it is the plain loop (`Computes.spend`), and in general it breaks off at
the first element that breaks off itself or goes beyond the budget (`Ends.spend`).
-/

namespace Outcome

universe u

variable {ε : Type} {α β : Type u}

/-- No budget is never exceeded; a budget is kept up to and including its amount. -/
def Within (budget : Option Nat) (spent : Nat) : Prop := ∀ n ∈ budget, spent ≤ n

instance (budget : Option Nat) (spent : Nat) : Decidable (Within budget spent) :=
  decidable_of_iff (budget.all fun n => decide (spent ≤ n)) (by
    cases budget <;> simp [Within])

theorem Within.none (spent : Nat) : Within none spent := fun _ h => nomatch h

theorem Within.mono {budget : Option Nat} {spent spent' : Nat} (h : Within budget spent)
    (hle : spent' ≤ spent) : Within budget spent' :=
  fun n hn => hle.trans (h n hn)

/-- Run `f` on one element after the other, and add up the sizes of the results; the first
result beyond the budget ends the loop with the error `exceeded`. -/
def spend (budget : Option Nat) (size : β → Nat) (exceeded : ε) (f : α → Except ε β) :
    Nat → List α → Except ε (List β)
  | _, [] => .ok []
  | spent, x :: xs =>
      (f x).bind fun y =>
        if Within budget (spent + size y) then
          (spend budget size exceeded f (spent + size y) xs).map fun ys => y :: ys
        else .error exceeded

variable {budget : Option Nat} {size : β → Nat} {exceeded : ε} {f : α → Except ε β}

/-- A result within the budget goes in front. -/
theorem spend_cons {spent : Nat} {x : α} {y : β} (h : f x = .ok y)
    (hfits : Within budget (spent + size y)) (xs : List α) :
    spend budget size exceeded f spent (x :: xs) =
      (spend budget size exceeded f (spent + size y) xs).map fun ys => y :: ys := by
  rw [spend, h]
  exact if_pos hfits

theorem spend_exceeded {spent : Nat} {x : α} {y : β} (h : f x = .ok y)
    (hexceeds : ¬ Within budget (spent + size y)) (xs : List α) :
    spend budget size exceeded f spent (x :: xs) = .error exceeded := by
  rw [spend, h]
  exact if_neg hexceeds

/-- The size of what is specified for the elements, those without a result taking none. -/
def specSize (size : β → Nat) (g : α → Option β) (xs : List α) : Nat :=
  (xs.map fun x => ((g x).map size).getD 0).sum

theorem specSize_cons (g : α → Option β) (x : α) (xs : List α) :
    specSize size g (x :: xs) = ((g x).map size).getD 0 + specSize size g xs := rfl

theorem specSize_sublist (g : α → Option β) {xs ys : List α} (h : xs.Sublist ys) :
    specSize size g xs ≤ specSize size g ys := by
  induction h with
  | slnil => exact Nat.le_refl _
  | cons y _ ih =>
      rw [specSize_cons]
      exact ih.trans (Nat.le_add_left _ _)
  | cons_cons y _ ih =>
      rw [specSize_cons, specSize_cons]
      exact Nat.add_le_add_left ih _

/-- Within the budget the loop computes the loop of the specifications, so a bound on the
total is all that a caller has to show. -/
theorem Computes.spend {benign : ε → Prop} {g : α → Option β} {spent : Nat} {xs : List α}
    (h : ∀ x ∈ xs, Computes benign (f x) (g x))
    (hbudget : Within budget (spent + specSize size g xs)) :
    Computes benign (spend budget size exceeded f spent xs) (xs.mapM g) := by
  induction xs generalizing spent with
  | nil => exact .ok []
  | cons x xs ih =>
      rw [specSize_cons] at hbudget
      rw [Outcome.spend, List.mapM_cons]
      apply (h x (by simp)).bind
      intro y hy
      rw [hy, Option.map_some, Option.getD_some, ← Nat.add_assoc] at hbudget
      rw [if_pos (hbudget.mono (Nat.le_add_right _ _))]
      have hrest := ih (fun z hz => h z (List.mem_cons_of_mem _ hz)) hbudget
      have hspec : ((xs.mapM g).bind fun ys => some (y :: ys)) =
          (xs.mapM g).map fun ys => y :: ys := by
        cases xs.mapM g <;> rfl
      show Computes benign _ ((xs.mapM g).bind fun ys => some (y :: ys))
      rw [hspec]
      exact hrest.map fun ys => y :: ys

theorem spend_map {γ : Type u} (g : γ → α) (spent : Nat) (xs : List γ) :
    spend budget size exceeded f spent (xs.map g) =
      spend budget size exceeded (fun x => f (g x)) spent xs := by
  induction xs generalizing spent with
  | nil => rfl
  | cons x xs ih =>
      rw [List.map_cons, spend, spend]
      simp only [ih]

section Ends

variable {benign fatal : ε → Prop} {R B : α → Prop} {cost : α → Nat} {G : α → β → Prop}

/-- The elements in front all return, and the next one breaks off or goes beyond the
budget. -/
def BreaksIn (budget : Option Nat) (cost : α → Nat) (R B : α → Prop) (spent : Nat)
    (xs : List α) : Prop :=
  ∃ front x back, xs = front ++ x :: back ∧ (∀ y ∈ front, R y) ∧
    (B x ∨ R x ∧ ¬ Within budget (spent + ((front ++ [x]).map cost).sum))

theorem breaksIn_cons {spent : Nat} {x : α} {xs : List α} :
    BreaksIn budget cost R B spent (x :: xs) ↔
      B x ∨ R x ∧ (¬ Within budget (spent + cost x) ∨
        BreaksIn budget cost R B (spent + cost x) xs) := by
  constructor
  · rintro ⟨front, y, back, hsplit, hfront, hy⟩
    cases front with
    | nil =>
        obtain ⟨rfl, rfl⟩ := List.cons.inj hsplit
        refine hy.imp id fun hbeyond => ⟨hbeyond.1, .inl ?_⟩
        simpa using hbeyond.2
    | cons z front =>
        obtain ⟨rfl, rfl⟩ := List.cons.inj hsplit
        rw [List.forall_mem_cons] at hfront
        refine .inr ⟨hfront.1, .inr ⟨front, y, back, rfl, hfront.2, hy.imp id ?_⟩⟩
        rintro ⟨hret, hover⟩
        refine ⟨hret, ?_⟩
        rwa [List.cons_append, List.map_cons, List.sum_cons, ← Nat.add_assoc] at hover
  · rintro (hx | ⟨hret, hover | ⟨front, y, back, rfl, hfront, hy⟩⟩)
    · exact ⟨[], x, xs, rfl, by simp, .inl hx⟩
    · exact ⟨[], x, xs, rfl, by simp, .inr ⟨hret, by simpa using hover⟩⟩
    · refine ⟨x :: front, y, back, rfl, List.forall_mem_cons.2 ⟨hret, hfront⟩, hy.imp id ?_⟩
      rintro ⟨hret', hover⟩
      refine ⟨hret', ?_⟩
      rwa [List.cons_append, List.map_cons, List.sum_cons, ← Nat.add_assoc]

/-- The loop returns if every element does and the sum of their costs is within the budget;
it breaks off at the first element that does, or that goes beyond the budget. -/
theorem Ends.spend (hexceeded : fatal exceeded) {spent : Nat} {xs : List α}
    (hspent : Within budget spent)
    (h : ∀ x ∈ xs, Ends benign fatal (f x) (R x) (B x) fun y => G x y ∧ size y = cost x) :
    Ends benign fatal (spend budget size exceeded f spent xs)
      ((∀ x ∈ xs, R x) ∧ Within budget (spent + (xs.map cost).sum))
      (BreaksIn budget cost R B spent xs) (List.Forall₂ G xs) := by
  induction xs generalizing spent with
  | nil =>
      refine (Ends.ok .nil).imp (by simpa using hspent) ?_ (fun _ h => h) fun _ h => h
      simp [BreaksIn]
  | cons x xs ih =>
      have hrest := fun y hy => h y (List.mem_cons_of_mem _ hy)
      rw [Outcome.spend]
      apply (h x (by simp)).bind_iff
      · rintro y ⟨hgood, hcost⟩
        rw [hcost]
        -- What comes behind the element only matters if it fits itself.
        have hbehind : Ends benign fatal (if Within budget (spent + cost x) then
            (Outcome.spend budget size exceeded f (spent + cost x) xs).map fun ys => y :: ys
              else .error exceeded)
            (Within budget (spent + cost x) ∧
              ((∀ z ∈ xs, R z) ∧ Within budget (spent + cost x + (xs.map cost).sum)))
            (¬ Within budget (spent + cost x) ∨
              Within budget (spent + cost x) ∧ BreaksIn budget cost R B (spent + cost x) xs)
            (List.Forall₂ G (x :: xs)) := by
          by_cases hfits : Within budget (spent + cost x)
          · rw [if_pos hfits]
            refine ((ih hfits hrest).map fun ys hys => .cons hgood hys).imp ?_ ?_
              (fun _ h => h) fun _ h => h
            · exact and_iff_right hfits
            · simp [hfits]
          · rw [if_neg hfits]
            refine ⟨fun hret => (hfits hret.1).elim, fun _ => ⟨exceeded, rfl, hexceeded⟩,
              fun _ hbreak => (hbreak (.inl hfits)).elim⟩
        exact hbehind
      · rw [List.forall_mem_cons, List.map_cons, List.sum_cons, ← Nat.add_assoc]
        constructor
        · rintro ⟨⟨hret, hrets⟩, hfits⟩
          exact ⟨hret, hfits.mono (Nat.le_add_right _ _), hrets, hfits⟩
        · rintro ⟨hret, -, hrets, hfits⟩
          exact ⟨⟨hret, hrets⟩, hfits⟩
      · rw [breaksIn_cons]
        refine or_congr_right (and_congr_right fun _ => ?_)
        by_cases hfits : Within budget (spent + cost x) <;> simp [hfits]

end Ends

end Outcome
