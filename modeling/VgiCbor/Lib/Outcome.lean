import VgiCbor.Lib.Traverse

/-!
# Fallible code against a partial specification

`Computes benign x o` says that the run `x` returns the value the specification
`o` gives, and ends in a benign error where it gives none.  The relation is
closed under sequencing and loops, so code is compared with its specification
step by step.

`Ends` is the coarser relation for runs that can also break off: it says in which
cases a run returns and in which it breaks off, and follows a loop to the first
element that does.
-/

namespace Outcome

universe u

variable {ε : Type} {α β γ : Type u} {benign : ε → Prop}

/-- `o.ok_or(e)` -/
def okOr (o : Option α) (e : ε) : Except ε α :=
  match o with
  | some a => .ok a
  | none => .error e

/-- `x` returns what `o` specifies, and a benign error where `o` is `none`.  Which errors are
benign is a parameter. -/
def Computes (benign : ε → Prop) (x : Except ε α) : Option α → Prop
  | some a => x = .ok a
  | none => ∃ e, x = .error e ∧ benign e

theorem Computes.ok (a : α) : Computes benign (.ok a) (some a) := rfl

theorem Computes.error {e : ε} (h : benign e) :
    Computes benign (.error e : Except ε α) none := ⟨e, rfl, h⟩

theorem Computes.okOr (o : Option α) {e : ε} (h : benign e) :
    Computes benign (okOr o e) o := by
  cases o with
  | some a => exact .ok a
  | none => exact .error h

/-- Forgetting the error gives the specification back. -/
theorem Computes.toOption {x : Except ε α} {o : Option α} (h : Computes benign x o) :
    x.toOption = o := by
  cases o with
  | some a =>
      rw [show x = .ok a from h]
      rfl
  | none =>
      obtain ⟨e, rfl, -⟩ := h
      rfl

/-- A run returns exactly the value that is specified. -/
theorem Computes.ok_iff {x : Except ε α} {o : Option α} (h : Computes benign x o) {a : α} :
    x = .ok a ↔ o = some a := by
  constructor
  · rintro rfl
    exact h.toOption.symm
  · rintro rfl
    exact h

/-- A wider notion of a benign error. -/
theorem Computes.mono {benign' : ε → Prop} {x : Except ε α} {o : Option α}
    (h : Computes benign x o) (hbenign : ∀ e, benign e → benign' e) : Computes benign' x o := by
  cases o with
  | some a => exact h
  | none =>
      obtain ⟨e, he, hb⟩ := h
      exact ⟨e, he, hbenign e hb⟩

theorem Computes.benign_of_error {x : Except ε α} {o : Option α} (h : Computes benign x o)
    {e : ε} (he : x = .error e) : benign e := by
  cases o with
  | some a =>
      have hok : x = .ok a := h
      rw [hok] at he
      cases he
  | none =>
      obtain ⟨e', he', hb⟩ := h
      rw [he'] at he
      cases he
      exact hb

theorem Computes.bind {x : Except ε α} {o : Option α} {f : α → Except ε β} {g : α → Option β}
    (h : Computes benign x o) (hf : ∀ a, o = some a → Computes benign (f a) (g a)) :
    Computes benign (x.bind f) (o.bind g) := by
  cases o with
  | some a =>
      rw [show x = .ok a from h]
      exact hf a rfl
  | none =>
      obtain ⟨e, rfl, hb⟩ := h
      exact .error hb

/-- A benign failure stops the whole sequence. -/
theorem Computes.bind_none {x : Except ε α} (h : Computes benign x none) (f : α → Except ε β) :
    Computes benign (x.bind f) none := by
  obtain ⟨e, rfl, hb⟩ := h
  exact .error hb

theorem Computes.map {x : Except ε α} {o : Option α} (f : α → β) (h : Computes benign x o) :
    Computes benign (x.map f) (o.map f) := by
  cases o with
  | some a =>
      rw [show x = .ok a from h]
      exact .ok (f a)
  | none =>
      obtain ⟨e, rfl, hb⟩ := h
      exact .error hb

/-- A mapped run that computes `o` has either returned or failed benignly.  It opens a step
for the next one. -/
theorem Computes.of_map {x : Except ε α} {f : α → β} {o : Option β}
    (h : Computes benign (x.map f) o) :
    (∃ a, x = .ok a ∧ o = some (f a)) ∨ ∃ e, x = .error e ∧ benign e ∧ o = none := by
  cases x with
  | ok a => exact Or.inl ⟨a, rfl, h.toOption.symm⟩
  | error e => exact Or.inr ⟨e, rfl, h.benign_of_error rfl, h.toOption.symm⟩

theorem Computes.ite {p : Prop} [Decidable p] {x y : Except ε α} {o q : Option α}
    (hx : p → Computes benign x o) (hy : ¬ p → Computes benign y q) :
    Computes benign (if p then x else y) (if p then o else q) := by
  by_cases hp : p
  · simpa only [if_pos hp] using hx hp
  · simpa only [if_neg hp] using hy hp

/-- A loop computes the loop of the specifications: both stop at the first element without a
result. -/
theorem Computes.mapM {f : α → Except ε β} {g : α → Option β} {xs : List α}
    (h : ∀ x ∈ xs, Computes benign (f x) (g x)) :
    Computes benign (xs.mapM f) (xs.mapM g) := by
  induction xs with
  | nil => exact .ok []
  | cons x xs ih =>
      rw [List.mapM_cons, List.mapM_cons]
      apply Computes.bind (h x (by simp))
      intro y _
      apply Computes.bind (ih fun z hz => h z (List.mem_cons_of_mem _ hz))
      intro ys _
      exact .ok (y :: ys)

/-- A loop of runs whose results are read through `h`. -/
theorem Computes.mapM_map {f : α → Except ε β} {g : α → Option γ} (h : β → γ) {xs : List α}
    (hf : ∀ x ∈ xs, Computes benign ((f x).map h) (g x)) :
    Computes benign ((xs.mapM f).map (List.map h)) (xs.mapM g) := by
  induction xs with
  | nil => exact .ok []
  | cons x xs ih =>
      have hrest := ih fun z hz => hf z (List.mem_cons_of_mem _ hz)
      rw [List.mapM_cons, List.mapM_cons]
      rcases (hf x (by simp)).of_map with ⟨y, hy, hspec⟩ | ⟨e, hy, hb, hspec⟩
      · rw [hy, hspec]
        rcases hrest.of_map with ⟨ys, hys, hspecs⟩ | ⟨e, hys, hb, hspecs⟩
        · rw [hys, hspecs]
          exact .ok _
        · rw [hys, hspecs]
          exact ⟨e, rfl, hb⟩
      · rw [hy, hspec]
        exact ⟨e, rfl, hb⟩

/-! ## Runs under a condition -/

/-- `x` returns `a` where the condition holds, and an error elsewhere.  Which error is left
open. -/
structure Makes (x : Except ε α) (taken : Prop) (a : α) : Prop where
  ok : taken → x = .ok a
  refused : ¬ taken → ∃ e, x = .error e

theorem Makes.ite {taken : Prop} [Decidable taken] (a : α) (e : ε) :
    Makes (if taken then .ok a else .error e) taken a where
  ok h := if_pos h
  refused h := ⟨e, if_neg h⟩

theorem Makes.of_ok {x : Except ε α} {taken : Prop} {a b : α} (h : Makes x taken a)
    (hx : x = .ok b) : taken ∧ a = b := by
  have htaken : taken := by
    by_contra hnot
    obtain ⟨e, he⟩ := h.refused hnot
    rw [hx] at he
    cases he
  exact ⟨htaken, Except.ok.inj ((h.ok htaken).symm.trans hx)⟩

/-! ## Runs that break off -/

/-- The run returns a `good` value if `returns`, ends in a fatal error if `breaks`,
and in a benign one otherwise. -/
structure Ends (benign fatal : ε → Prop) (x : Except ε α) (returns breaks : Prop)
    (good : α → Prop) : Prop where
  returned : returns → ∃ a, x = .ok a ∧ good a
  broke : breaks → ∃ e, x = .error e ∧ fatal e
  refused : ¬ returns → ¬ breaks → ∃ e, x = .error e ∧ benign e

section Ends

variable {fatal : ε → Prop} {returns breaks returns' breaks' : Prop} {good good' : α → Prop}

theorem Ends.ok {a : α} (h : good a) : Ends benign fatal (.ok a) True False good where
  returned _ := ⟨a, rfl, h⟩
  broke h := h.elim
  refused h _ := (h trivial).elim

theorem Ends.error {e : ε} (h : benign e) (hreturns : ¬ returns) :
    Ends benign fatal (.error e : Except ε α) returns False good where
  returned hret := (hreturns hret).elim
  broke hbreak := hbreak.elim
  refused _ _ := ⟨e, rfl, h⟩

/-- A run that computes a specification unless it breaks off, where nothing is specified. -/
theorem Ends.of_computes {x : Except ε α} {o : Option α}
    (hbreaks : breaks → o = none ∧ ∃ e, x = .error e ∧ fatal e)
    (hcomputes : ¬ breaks → Computes benign x o) :
    Ends benign fatal x (o.isSome = true) breaks (o = some ·) where
  returned hsome := by
    by_cases hbreak : breaks
    · rw [(hbreaks hbreak).1] at hsome
      cases hsome
    · obtain ⟨a, rfl⟩ := Option.isSome_iff_exists.1 hsome
      exact ⟨a, hcomputes hbreak, rfl⟩
  broke hbreak := (hbreaks hbreak).2
  refused hnone hbreak := by
    obtain rfl := Option.not_isSome_iff_eq_none.1 hnone
    exact hcomputes hbreak

theorem Computes.ends {x : Except ε α} {o : Option α} (h : Computes benign x o) :
    Ends benign fatal x (o.isSome = true) False (o = some ·) :=
  .of_computes False.elim fun _ => h

/-- The same cases in other words, a wider notion of a benign error, a weaker result. -/
theorem Ends.imp {benign' : ε → Prop} {x : Except ε α}
    (h : Ends benign fatal x returns breaks good) (hreturns : returns' ↔ returns)
    (hbreaks : breaks' ↔ breaks) (hbenign : ∀ e, benign e → benign' e)
    (hgood : ∀ a, good a → good' a) : Ends benign' fatal x returns' breaks' good' where
  returned hret := by
    obtain ⟨a, hx, ha⟩ := h.returned (hreturns.1 hret)
    exact ⟨a, hx, hgood a ha⟩
  broke hbreak := h.broke (hbreaks.1 hbreak)
  refused hret hbreak := by
    obtain ⟨e, hx, he⟩ := h.refused (mt hreturns.2 hret) (mt hbreaks.2 hbreak)
    exact ⟨e, hx, hbenign e he⟩

/-- The second run is only reached when the first one returns, and with a result that is good. -/
theorem Ends.bind {x : Except ε α} {f : α → Except ε β} {returns' breaks' : Prop}
    {good' : β → Prop} (h : Ends benign fatal x returns breaks good)
    (hf : ∀ a, good a → Ends benign fatal (f a) returns' breaks' good') :
    Ends benign fatal (x.bind f) (returns ∧ returns') (breaks ∨ returns ∧ breaks') good' where
  returned := by
    rintro ⟨hret, hret'⟩
    obtain ⟨a, rfl, ha⟩ := h.returned hret
    exact (hf a ha).returned hret'
  broke := by
    rintro (hbreak | ⟨hret, hbreak'⟩)
    · obtain ⟨e, rfl, he⟩ := h.broke hbreak
      exact ⟨e, rfl, he⟩
    · obtain ⟨a, rfl, ha⟩ := h.returned hret
      exact (hf a ha).broke hbreak'
  refused hret hbreak := by
    by_cases hfirst : returns
    · obtain ⟨a, rfl, ha⟩ := h.returned hfirst
      exact (hf a ha).refused (fun hret' => hret ⟨hfirst, hret'⟩)
        fun hbreak' => hbreak (.inr ⟨hfirst, hbreak'⟩)
    · obtain ⟨e, rfl, he⟩ := h.refused hfirst fun hbreak' => hbreak (.inl hbreak')
      exact ⟨e, rfl, he⟩

/-- The same, with the cases of the sequence in other words. -/
theorem Ends.bind_iff {x : Except ε α} {f : α → Except ε β} {R B returns' breaks' : Prop}
    {good' : β → Prop} (h : Ends benign fatal x returns breaks good)
    (hf : ∀ a, good a → Ends benign fatal (f a) returns' breaks' good')
    (hreturns : R ↔ returns ∧ returns') (hbreaks : B ↔ breaks ∨ returns ∧ breaks') :
    Ends benign fatal (x.bind f) R B good' :=
  (h.bind hf).imp hreturns hbreaks (fun _ he => he) fun _ hgood => hgood

/-- A continuation that always returns. -/
theorem Ends.bind_ok {x : Except ε α} {f : α → Except ε β} {good' : β → Prop}
    (h : Ends benign fatal x returns breaks good)
    (hf : ∀ a, good a → ∃ b, f a = .ok b ∧ good' b) :
    Ends benign fatal (x.bind f) returns breaks good' := by
  have hbind : Ends benign fatal (x.bind f) (returns ∧ True) (breaks ∨ returns ∧ False) good' := by
    apply h.bind
    intro a ha
    obtain ⟨b, hb, hgood⟩ := hf a ha
    rw [hb]
    exact .ok hgood
  exact hbind.imp (by simp) (by simp) (fun _ he => he) fun _ hgood => hgood

theorem Ends.map {x : Except ε α} {f : α → β} {good' : β → Prop}
    (h : Ends benign fatal x returns breaks good) (hf : ∀ a, good a → good' (f a)) :
    Ends benign fatal (x.map f) returns breaks good' := by
  have hbind : Ends benign fatal (x.bind fun a => .ok (f a)) returns breaks good' :=
    h.bind_ok fun a ha => ⟨f a, rfl, hf a ha⟩
  cases x <;> exact hbind

/-- Code that only computes, after a run that can break off. -/
theorem Ends.bind_computes {x : Except ε α} {o : Option α} {f : α → Except ε β}
    {g : α → Option β} (h : Ends benign fatal x (o.isSome = true) breaks (o = some ·))
    (hf : ∀ a, o = some a → Computes benign (f a) (g a)) :
    Ends benign fatal (x.bind f) ((o.bind g).isSome = true) breaks (o.bind g = some ·) where
  returned hsome := by
    obtain ⟨b, hb⟩ := Option.isSome_iff_exists.1 hsome
    obtain ⟨a, rfl, hg⟩ := Option.bind_eq_some_iff.1 hb
    obtain ⟨a', rfl, ha⟩ := h.returned rfl
    cases ha
    exact ⟨b, (hf a rfl).ok_iff.2 hg, hb⟩
  broke hbreak := by
    obtain ⟨e, rfl, he⟩ := h.broke hbreak
    exact ⟨e, rfl, he⟩
  refused hnone hbreak := by
    cases o with
    | none =>
        obtain ⟨e, rfl, he⟩ := h.refused (by simp) hbreak
        exact ⟨e, rfl, he⟩
    | some a =>
        obtain ⟨a', rfl, ha⟩ := h.returned rfl
        cases ha
        have hg : g a = none := Option.not_isSome_iff_eq_none.1 hnone
        have hcomputes := hf a rfl
        rw [hg] at hcomputes
        exact hcomputes

theorem Ends.map_computes {x : Except ε α} {o : Option α} (f : α → β)
    (h : Ends benign fatal x (o.isSome = true) breaks (o = some ·)) :
    Ends benign fatal (x.map f) ((o.map f).isSome = true) breaks (o.map f = some ·) := by
  have hbind := h.bind_computes fun a _ => Computes.ok (f a)
  cases x <;> cases o <;> exact hbind

/-- A test breaks off where it fails. -/
theorem Ends.guard {p : Prop} [Decidable p] {a : α} {e : ε} (hgood : p → good a)
    (hfatal : fatal e) :
    Ends benign fatal (if p then .ok a else .error e) p (¬ p) good where
  returned hp := ⟨a, if_pos hp, hgood hp⟩
  broke hp := ⟨e, if_neg hp, hfatal⟩
  refused hp hnot := (hnot hp).elim

/-- A loop breaks off at the first element that does, if all before it return.  What stands
behind does not matter. -/
theorem Ends.mapM {f : α → Except ε β} {R B : α → Prop} {G : α → β → Prop} {xs : List α}
    (h : ∀ x ∈ xs, Ends benign fatal (f x) (R x) (B x) (G x)) :
    Ends benign fatal (xs.mapM f) (∀ x ∈ xs, R x)
      (∃ front x back, xs = front ++ x :: back ∧ (∀ y ∈ front, R y) ∧ B x)
      (List.Forall₂ G xs) := by
  induction xs with
  | nil => exact (Ends.ok .nil).imp (by simp) (by simp) (fun _ h => h) fun _ h => h
  | cons x xs ih =>
      have hrest := ih fun y hy => h y (List.mem_cons_of_mem _ hy)
      have hboth : Ends benign fatal ((x :: xs).mapM f) (R x ∧ ∀ y ∈ xs, R y)
          (B x ∨ R x ∧ ∃ front y back, xs = front ++ y :: back ∧ (∀ z ∈ front, R z) ∧ B y)
          (List.Forall₂ G (x :: xs)) := by
        rw [List.mapM_cons]
        apply (h x (by simp)).bind
        intro y hy
        exact hrest.map fun ys hys => .cons hy hys
      refine hboth.imp List.forall_mem_cons ⟨?_, ?_⟩ (fun _ h => h) fun _ h => h
      · rintro ⟨front, y, back, hsplit, hfront, hy⟩
        cases front with
        | nil =>
            obtain ⟨rfl, rfl⟩ := List.cons.inj hsplit
            exact .inl hy
        | cons z front =>
            obtain ⟨rfl, rfl⟩ := List.cons.inj hsplit
            rw [List.forall_mem_cons] at hfront
            exact .inr ⟨hfront.1, front, y, back, rfl, hfront.2, hy⟩
      · rintro (hx | ⟨hx, front, y, back, rfl, hfront, hy⟩)
        · exact ⟨[], x, xs, rfl, by simp, hx⟩
        · exact ⟨x :: front, y, back, rfl, List.forall_mem_cons.2 ⟨hx, hfront⟩, hy⟩

/-- A run returns or ends benignly exactly when it does not break off. -/
theorem Ends.benign_iff {x : Except ε α} (h : Ends benign fatal x returns breaks good)
    (hfatal : ∀ e, fatal e → ¬ benign e) :
    ((∃ a, x = .ok a) ∨ ∃ e, x = .error e ∧ benign e) ↔ ¬ breaks := by
  constructor
  · rintro hx hbreak
    obtain ⟨e, rfl, he⟩ := h.broke hbreak
    rcases hx with ⟨a, ha⟩ | ⟨e', he', hbenign⟩
    · cases ha
    · cases he'
      exact hfatal e he hbenign
  · intro hbreak
    by_cases hret : returns
    · obtain ⟨a, hx, -⟩ := h.returned hret
      exact .inl ⟨a, hx⟩
    · exact .inr (h.refused hret hbreak)

end Ends

end Outcome
