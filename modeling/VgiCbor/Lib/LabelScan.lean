import Mathlib

/-!
# Scans that fill a record label by label

A loop over labelled entries that overwrites one field of a record for each label leaves
in the field what the last entry with its label says (`foldl_field`).  Where a label
occurs once at most, that does not depend on the order of the entries (`last?_perm`).
-/

namespace LabelScan

variable {α β σ : Type*} {p : α → Bool}

/-- The last element that satisfies `p`.  Code that overwrites a field at every match keeps
this one. -/
def last? (p : α → Bool) : List α → Option α
  | [] => none
  | a :: l => (last? p l).or (if p a then some a else none)

@[simp]
theorem last?_nil : last? p [] = none := rfl

theorem last?_cons (a : α) (l : List α) :
    last? p (a :: l) = (last? p l).or (if p a then some a else none) :=
  rfl

/-- At most one element of the list satisfies `p`. -/
def Unique (p : α → Bool) (l : List α) : Prop :=
  l.Pairwise fun a b => ¬ (p a = true ∧ p b = true)

theorem last?_append (l m : List α) : last? p (l ++ m) = (last? p m).or (last? p l) := by
  induction l with
  | nil => simp
  | cons a l ih => rw [List.cons_append, last?_cons, ih, last?_cons, Option.or_assoc]

theorem last?_eq_none_iff {l : List α} : last? p l = none ↔ ∀ a ∈ l, p a = false := by
  induction l with
  | nil => simp
  | cons a l ih =>
      rw [last?_cons, Option.or_eq_none_iff, ih, List.forall_mem_cons, and_comm]
      cases p a <;> simp

/-- What is found is an element that satisfies `p`. -/
theorem last?_some {l : List α} {a : α} (h : last? p l = some a) : a ∈ l ∧ p a = true := by
  induction l with
  | nil => cases h
  | cons b l ih =>
      rw [last?_cons] at h
      cases hlast : last? p l with
      | some c =>
          rw [hlast, Option.some_or] at h
          obtain ⟨hmem, ha⟩ := ih (hlast.trans h)
          exact ⟨List.mem_cons_of_mem b hmem, ha⟩
      | none =>
          rw [hlast, Option.none_or] at h
          by_cases hb : p b = true
          · rw [if_pos hb] at h
            cases h
            exact ⟨List.mem_cons_self, hb⟩
          · rw [if_neg hb] at h
            cases h

/-- The last elements with `p` and with `q` are the same if each of them satisfies both. -/
theorem last?_eq_of_both {q : α → Bool} {l : List α} {a b : α} (ha : last? p l = some a)
    (hb : last? q l = some b) (hqa : q a = true) (hpb : p b = true) : a = b := by
  induction l with
  | nil => cases ha
  | cons c l ih =>
      rw [last?_cons] at ha hb
      cases hp : last? p l with
      | some a' =>
          rw [hp, Option.some_or] at ha
          obtain rfl := Option.some.inj ha
          cases hq : last? q l with
          | some b' =>
              rw [hq, Option.some_or] at hb
              exact ih hp (hq.trans hb)
          | none =>
              rw [last?_eq_none_iff.1 hq _ (last?_some hp).1] at hqa
              cases hqa
      | none =>
          have hnone := last?_eq_none_iff.1 hp
          cases hq : last? q l with
          | some b' =>
              rw [hq, Option.some_or] at hb
              obtain rfl := Option.some.inj hb
              rw [hnone _ (last?_some hq).1] at hpb
              cases hpb
          | none =>
              -- Neither predicate holds behind the head.
              rw [hp, Option.none_or, Option.ite_none_right_eq_some] at ha
              rw [hq, Option.none_or, Option.ite_none_right_eq_some] at hb
              exact Option.some.inj (ha.2.symm.trans hb.2)

/-- The only element that satisfies `p` is found. -/
theorem last?_eq_some_iff {l : List α} (hunique : Unique p l) {a : α} :
    last? p l = some a ↔ a ∈ l ∧ p a = true := by
  constructor
  · exact last?_some
  · rintro ⟨hmem, ha⟩
    induction l with
    | nil => cases hmem
    | cons b l ih =>
        obtain ⟨hhead, htail⟩ := List.pairwise_cons.1 hunique
        rw [last?_cons]
        rcases List.mem_cons.1 hmem with rfl | hmem
        · have hnone : last? p l = none := by
            rw [last?_eq_none_iff]
            intro c hc
            by_contra hp
            rw [Bool.not_eq_false] at hp
            exact hhead c hc ⟨ha, hp⟩
          rw [hnone, if_pos ha, Option.none_or]
        · rw [ih htail hmem, Option.some_or]

theorem Unique.perm {l m : List α} (hunique : Unique p l) (h : l.Perm m) : Unique p m :=
  (h.pairwise_iff fun hab hba => hab ⟨hba.2, hba.1⟩).1 hunique

/-- The order of the elements does not matter where at most one satisfies `p`.  Scans of maps
with distinct keys are of this kind. -/
theorem last?_perm {l m : List α} (hunique : Unique p l) (h : l.Perm m) :
    last? p m = last? p l := by
  apply Option.ext
  intro a
  rw [last?_eq_some_iff (hunique.perm h), last?_eq_some_iff hunique, h.mem_iff]

/-- The position of the last element that satisfies `p`. -/
def lastIdx? (p : α → Bool) : List α → Option Nat
  | [] => none
  | a :: l => ((lastIdx? p l).map (· + 1)).or (if p a then some 0 else none)

@[simp]
theorem lastIdx?_nil : lastIdx? p [] = none := rfl

theorem lastIdx?_cons (a : α) (l : List α) :
    lastIdx? p (a :: l) = ((lastIdx? p l).map (· + 1)).or (if p a then some 0 else none) :=
  rfl

/-- The position is the one of the last element. -/
theorem lastIdx?_cases (l : List α) :
    (lastIdx? p l = none ∧ last? p l = none) ∨
      ∃ i a, lastIdx? p l = some i ∧ l[i]? = some a ∧ last? p l = some a := by
  induction l with
  | nil => exact .inl ⟨rfl, rfl⟩
  | cons a l ih =>
      rw [lastIdx?_cons, last?_cons]
      rcases ih with ⟨hpos, hlast⟩ | ⟨i, b, hpos, hget, hlast⟩
      · rw [hpos, hlast, Option.map_none, Option.none_or, Option.none_or]
        by_cases ha : p a = true
        · exact .inr ⟨0, a, if_pos ha, rfl, if_pos ha⟩
        · exact .inl ⟨if_neg ha, if_neg ha⟩
      · rw [hpos, hlast]
        exact .inr ⟨i + 1, b, rfl, hget, rfl⟩

theorem last?_eq_lastIdx? (l : List α) : last? p l = (lastIdx? p l).bind fun i => l[i]? := by
  rcases @lastIdx?_cases _ p l with ⟨hpos, hlast⟩ | ⟨i, a, hpos, hget, hlast⟩
  · rw [hpos, hlast, Option.bind_none]
  · rw [hpos, hlast, Option.bind_some, hget]

theorem lastIdx?_eq_none_iff {l : List α} : lastIdx? p l = none ↔ ∀ a ∈ l, p a = false := by
  induction l with
  | nil => simp
  | cons a l ih =>
      rw [lastIdx?_cons, Option.or_eq_none_iff, Option.map_eq_none_iff, ih, List.forall_mem_cons,
        and_comm]
      cases p a <;> simp

/-- An element with `p`, none in front of it that satisfies `p` and none behind it that
satisfies `q`. -/
def FirstIsLast (p q : α → Bool) (l : List α) : Prop :=
  ∃ front a back, l = front ++ a :: back ∧ p a = true ∧ (∀ b ∈ front, p b = false) ∧
    ∀ b ∈ back, q b = false

theorem firstIsLast_cons_of_pos {q : α → Bool} {a : α} (hp : p a = true) {l : List α} :
    FirstIsLast p q (a :: l) ↔ ∀ b ∈ l, q b = false := by
  constructor
  · rintro ⟨front, b, back, hsplit, -, hfront, hback⟩
    cases front with
    | nil =>
        obtain ⟨-, rfl⟩ := List.cons.inj hsplit
        exact hback
    | cons c front =>
        obtain ⟨rfl, -⟩ := List.cons.inj hsplit
        rw [hfront a List.mem_cons_self] at hp
        cases hp
  · exact fun hback => ⟨[], a, l, rfl, hp, by simp, hback⟩

theorem firstIsLast_cons_of_neg {q : α → Bool} {a : α} (hp : p a = false) {l : List α} :
    FirstIsLast p q (a :: l) ↔ FirstIsLast p q l := by
  constructor
  · rintro ⟨front, b, back, hsplit, hb, hfront, hback⟩
    cases front with
    | nil =>
        obtain ⟨rfl, -⟩ := List.cons.inj hsplit
        rw [hp] at hb
        cases hb
    | cons c front =>
        obtain ⟨-, rfl⟩ := List.cons.inj hsplit
        exact ⟨front, b, back, rfl, hb, (List.forall_mem_cons.1 hfront).2, hback⟩
  · rintro ⟨front, b, back, rfl, hb, hfront, hback⟩
    exact ⟨a :: front, b, back, rfl, hb, List.forall_mem_cons.2 ⟨hp, hfront⟩, hback⟩

/-- The first element that satisfies `p` stands where the last one stands that satisfies `q`,
a weaker property, exactly if it is the last, or none satisfies `q`. -/
theorem findIdx?_eq_lastIdx?_iff {q : α → Bool} (h : ∀ a, p a = true → q a = true) {l : List α} :
    l.findIdx? p = lastIdx? q l ↔ (∀ a ∈ l, q a = false) ∨ FirstIsLast p q l := by
  induction l with
  | nil => simp
  | cons a l ih =>
      rw [List.findIdx?_cons, lastIdx?_cons, List.forall_mem_cons]
      by_cases hp : p a = true
      · rw [if_pos hp, if_pos (h a hp), firstIsLast_cons_of_pos hp, ← lastIdx?_eq_none_iff, h a hp]
        cases lastIdx? q l <;> simp
      · rw [Bool.not_eq_true] at hp
        rw [hp, firstIsLast_cons_of_neg hp]
        rw [← lastIdx?_eq_none_iff] at ih ⊢
        cases hlast : lastIdx? q l with
        | some i =>
            rw [hlast] at ih
            have hshift : (l.findIdx? p).map (fun j => j + 1) = some (i + 1) ↔
                l.findIdx? p = some i := by
              cases l.findIdx? p <;> simp
            rw [Option.map_some, Option.some_or, if_neg Bool.false_ne_true, hshift, ih]
            simp
        | none =>
            have hq := lastIdx?_eq_none_iff.1 hlast
            have hfind : l.findIdx? p = none := by
              rw [List.findIdx?_eq_none_iff]
              intro b hb
              by_contra hpb
              have hqb := hq b hb
              rw [h b (by simpa using hpb)] at hqb
              cases hqb
            have hno : ¬ FirstIsLast p q l := by
              rintro ⟨front, b, back, rfl, hpb, -⟩
              have hqb := hq b (by simp)
              rw [h b hpb] at hqb
              cases hqb
            rw [hfind, if_neg Bool.false_ne_true]
            cases q a <;> simp [hno]

/-- A field that each step sets from an element with its label, and leaves alone at
others, ends up as the last such element says. -/
theorem foldl_field {step : σ → α → σ} (field : σ → β) (set : α → β)
    (h : ∀ s a, field (step s a) = if p a then set a else field s) (s : σ) (l : List α) :
    field (l.foldl step s) = ((last? p l).map set).getD (field s) := by
  induction l generalizing s with
  | nil => rfl
  | cons a l ih =>
      rw [List.foldl_cons, ih, h, last?_cons]
      cases last? p l with
      | some b => rfl
      | none =>
          rw [Option.none_or]
          by_cases hp : p a = true
          · rw [if_pos hp, if_pos hp]
            rfl
          · rw [if_neg hp, if_neg hp]

/-- A field that no step touches. -/
theorem foldl_const {step : σ → α → σ} (field : σ → β) (h : ∀ s a, field (step s a) = field s)
    (s : σ) (l : List α) : field (l.foldl step s) = field s := by
  induction l generalizing s with
  | nil => rfl
  | cons a l ih => rw [List.foldl_cons, ih, h]

end LabelScan
