import Mathlib

/-!
# Fallible maps over lists

`List.mapM` in `Option` and `Except` is the loop that converts every element and
stops at the first failure.  The rules here say when it succeeds and how it
commutes with appending, flattening and transposing.
-/

namespace Traverse

universe u

variable {α β γ δ : Type u} {ε : Type}

/-- Two maps in a row are one, as far as the elements go. -/
theorem map_map_congr {f : α → β} {g : β → γ} {h : α → γ} {xs : List α}
    (hfg : ∀ x ∈ xs, g (f x) = h x) : (xs.map f).map g = xs.map h := by
  rw [List.map_map]
  exact List.map_congr_left hfg

/-! ## Loops in `Option` -/

theorem mapM_cons_some {f : α → Option β} {x : α} {xs : List α} {zs : List β} :
    (x :: xs).mapM f = some zs ↔
      ∃ y ys, f x = some y ∧ xs.mapM f = some ys ∧ zs = y :: ys := by
  cases hx : f x with
  | none => simp [hx]
  | some y =>
      cases hxs : xs.mapM f with
      | none => simp [hx, hxs]
      | some ys => simp [hx, hxs, eq_comm]

theorem mapM_eq_some_iff {f : α → Option β} {xs : List α} {ys : List β} :
    xs.mapM f = some ys ↔ List.Forall₂ (fun x y => f x = some y) xs ys := by
  induction xs generalizing ys with
  | nil => cases ys <;> simp
  | cons x xs ih =>
      rw [mapM_cons_some]
      constructor
      · rintro ⟨y, ys', hx, hxs, rfl⟩
        exact .cons hx (ih.1 hxs)
      · intro h
        cases h with
        | cons hx hxs => exact ⟨_, _, hx, ih.2 hxs, rfl⟩

theorem length_of_mapM {f : α → Option β} {xs : List α} {ys : List β}
    (h : xs.mapM f = some ys) : ys.length = xs.length :=
  (mapM_eq_some_iff.1 h).length_eq.symm

/-- The loop succeeds exactly when every element converts. -/
theorem mapM_isSome_iff {f : α → Option β} {xs : List α} :
    (xs.mapM f).isSome ↔ ∀ x ∈ xs, (f x).isSome := by
  induction xs with
  | nil => simp
  | cons x xs ih =>
      cases hx : f x with
      | none => simp [hx]
      | some y =>
          cases hxs : xs.mapM f with
          | none =>
              have hno : ¬ ∀ z ∈ xs, (f z).isSome := by rw [← ih, hxs]; simp
              simpa [hx, hxs] using hno
          | some ys =>
              have hall : ∀ z ∈ xs, (f z).isSome := by rw [← ih, hxs]; simp
              simpa [hx, hxs] using hall

theorem mapM_eq_none_iff {f : α → Option β} {xs : List α} :
    xs.mapM f = none ↔ ∃ x ∈ xs, f x = none := by
  rw [← Option.not_isSome_iff_eq_none, mapM_isSome_iff]
  simp

theorem exists_of_mem_mapM {f : α → Option β} {xs : List α} {ys : List β}
    (h : xs.mapM f = some ys) {y : β} (hy : y ∈ ys) : ∃ x ∈ xs, f x = some y := by
  induction xs generalizing ys with
  | nil =>
      obtain rfl : ys = [] := by simpa using h.symm
      cases hy
  | cons x xs ih =>
      obtain ⟨y', ys', hx, hxs, rfl⟩ := mapM_cons_some.1 h
      rcases List.mem_cons.1 hy with rfl | hy
      · exact ⟨x, by simp, hx⟩
      · obtain ⟨z, hz, hfz⟩ := ih hxs hy
        exact ⟨z, List.mem_cons_of_mem _ hz, hfz⟩

theorem mapM_congr {f g : α → Option β} {xs : List α} (h : ∀ x ∈ xs, f x = g x) :
    xs.mapM f = xs.mapM g := by
  induction xs with
  | nil => rfl
  | cons x xs ih =>
      rw [List.mapM_cons, List.mapM_cons, h x (by simp),
        ih fun z hz => h z (List.mem_cons_of_mem _ hz)]

theorem mapM_some_map (f : α → β) (xs : List α) :
    xs.mapM (fun x => some (f x)) = some (xs.map f) := by
  rw [mapM_eq_some_iff]
  induction xs with
  | nil => exact .nil
  | cons x xs ih => exact .cons rfl ih

theorem map_of_mapM {f : α → Option β} {xs : List α} {ys : List β} (h : xs.mapM f = some ys) :
    xs.map f = ys.map some := by
  induction xs generalizing ys with
  | nil =>
      obtain rfl : ys = [] := by simpa using h.symm
      rfl
  | cons x xs ih =>
      obtain ⟨y, ys', hx, hxs, rfl⟩ := mapM_cons_some.1 h
      rw [List.map_cons, hx, ih hxs, List.map_cons]

theorem getElem?_of_mapM {f : α → Option β} {xs : List α} {ys : List β}
    (h : xs.mapM f = some ys) (i : Nat) : ys[i]? = xs[i]?.bind f := by
  induction xs generalizing ys i with
  | nil =>
      obtain rfl : ys = [] := by simpa using h.symm
      simp
  | cons x xs ih =>
      obtain ⟨y, ys', hx, hxs, rfl⟩ := mapM_cons_some.1 h
      cases i with
      | zero => simp [hx]
      | succ i => simpa using ih hxs i

/-- A loop over a two-step conversion is two loops. -/
theorem mapM_bind {p : α → Option β} {f : β → Option γ} (xs : List α) :
    (xs.mapM fun x => (p x).bind f) = (xs.mapM p).bind fun ys => ys.mapM f := by
  induction xs with
  | nil => rfl
  | cons x xs ih =>
      simp only [List.mapM_cons, ih]
      cases p x with
      | none => rfl
      | some y =>
          cases hf : f y with
          | none => cases xs.mapM p <;> simp [hf]
          | some z => cases xs.mapM p <;> simp [hf]

/-- A loop that first checks each element is a loop of checks and then a loop. -/
theorem mapM_guard {p : α → Option γ} {q : α → Option β} (xs : List α) :
    (xs.mapM fun x => (p x).bind fun _ => q x) = (xs.mapM p).bind fun _ => xs.mapM q := by
  induction xs with
  | nil => rfl
  | cons x xs ih =>
      simp only [List.mapM_cons, ih]
      cases p x with
      | none => rfl
      | some y =>
          cases q x with
          | none => cases xs.mapM p <;> rfl
          | some z =>
              cases xs.mapM p with
              | none => rfl
              | some ys => cases xs.mapM q <;> rfl

/-- A loop that also sees the element it converted. -/
theorem mapM_map_with {p : α → Option β} (h : α → β → γ) (xs : List α) :
    (xs.mapM fun x => (p x).map (h x)) = (xs.mapM p).map fun ys => List.zipWith h xs ys := by
  induction xs with
  | nil => rfl
  | cons x xs ih =>
      simp only [List.mapM_cons, ih]
      cases p x with
      | none => rfl
      | some y => cases xs.mapM p <;> rfl

/-- A loop that also checks what it converts is a loop and then a check. -/
theorem mapM_filter_with {f : α → Option β} (p : α → β → Bool) (xs : List α) :
    (xs.mapM fun x => (f x).filter (p x)) =
      (xs.mapM f).filter fun ys => (xs.zip ys).all fun z => p z.1 z.2 := by
  induction xs with
  | nil => rfl
  | cons x xs ih =>
      simp only [List.mapM_cons, ih]
      cases f x with
      | none => rfl
      | some y =>
          cases hp : p x y <;> cases xs.mapM f <;>
            simp [Option.filter, hp, List.zip_cons_cons, -List.all_eq_true]
          split <;> simp_all

theorem mapM_filter {f : α → Option β} (p : β → Bool) (xs : List α) :
    (xs.mapM fun x => (f x).filter p) = (xs.mapM f).filter fun ys => ys.all p := by
  rw [mapM_filter_with fun _ => p]
  cases h : xs.mapM f with
  | none => rfl
  | some ys =>
      have hsnd : (xs.zip ys).map Prod.snd = ys :=
        List.map_snd_zip (Nat.le_of_eq (length_of_mapM h))
      have hall : ((xs.zip ys).all fun z => p z.2) = ys.all p := by
        rw [← hsnd, List.all_map, hsnd]
        rfl
      simp only [Option.filter, hall]

/-- A loop whose results are read through `h`. -/
theorem mapM_map_result {f : α → Option β} (h : β → γ) (xs : List α) :
    (xs.mapM fun x => (f x).map h) = (xs.mapM f).map (List.map h) := by
  induction xs with
  | nil => rfl
  | cons x xs ih =>
      simp only [List.mapM_cons, ih]
      cases f x with
      | none => rfl
      | some y => cases xs.mapM f <;> rfl

theorem mapM_replicate {f : α → Option β} {x : α} {y : β} (h : f x = some y) (n : Nat) :
    (List.replicate n x).mapM f = some (List.replicate n y) := by
  induction n with
  | zero => rfl
  | succ n ih => rw [List.replicate_succ, List.mapM_cons, h, ih]; rfl

/-- Converting a concatenation is concatenating the converted pieces. -/
theorem mapM_flatMap {f : β → Option γ} (g : α → List β) (xs : List α) :
    (xs.flatMap g).mapM f = (xs.mapM fun x => (g x).mapM f).map List.flatten := by
  induction xs with
  | nil => rfl
  | cons x xs ih =>
      rw [List.flatMap_cons, List.mapM_append, List.mapM_cons, ih]
      cases (g x).mapM f with
      | none => rfl
      | some ys => cases (xs.mapM fun x => (g x).mapM f) <;> rfl

theorem mapM_flatten {f : α → Option β} (xss : List (List α)) :
    xss.flatten.mapM f = (xss.mapM fun xs : List α => xs.mapM f).map List.flatten := by
  rw [← mapM_flatMap (fun xs => xs) xss, List.flatMap_id']

/-- The rows a loop collects, seen through any total reading of them. -/
theorem flatMap_of_mapM {o : α → Option (List β)} {row : α → List β} {xs : List α}
    {rows : List (List β)} (h : ∀ x r, o x = some r → row x = r) (hrows : xs.mapM o = some rows) :
    xs.flatMap row = rows.flatten := by
  induction xs generalizing rows with
  | nil =>
      obtain rfl : rows = [] := by simpa using hrows.symm
      rfl
  | cons x xs ih =>
      obtain ⟨r, rs, hx, hxs, rfl⟩ := mapM_cons_some.1 hrows
      rw [List.flatMap_cons, List.flatten_cons, h x r hx, ih hxs]

/-- Loops that keep the length of each row keep all the lengths. -/
theorem map_length_of_mapM {f : α → Option β} {xss : List (List α)} {yss : List (List β)}
    (h : (xss.mapM fun xs : List α => xs.mapM f) = some yss) :
    yss.map List.length = xss.map List.length := by
  induction xss generalizing yss with
  | nil =>
      obtain rfl : yss = [] := by simpa using h.symm
      rfl
  | cons xs xss ih =>
      obtain ⟨ys, yss', hxs, hxss, rfl⟩ := mapM_cons_some.1 h
      rw [List.map_cons, List.map_cons, ih hxss, length_of_mapM hxs]

/-- A loop that combines two conversions of each element is two loops zipped. -/
theorem mapM_zipWith {p : α → Option β} {q : α → Option γ} (h : β → γ → δ) (xs : List α) :
    (xs.mapM fun x => (p x).bind fun y => (q x).map fun z => h y z) =
      (xs.mapM p).bind fun ys => (xs.mapM q).map fun zs => List.zipWith h ys zs := by
  induction xs with
  | nil => rfl
  | cons x xs ih =>
      simp only [List.mapM_cons, ih]
      cases p x with
      | none => rfl
      | some y =>
          cases hq : q x with
          | none => cases xs.mapM p <;> rfl
          | some z =>
              cases xs.mapM p with
              | none => rfl
              | some ys => cases xs.mapM q <;> rfl

/-! ## Loops in `Except` -/

@[simp] theorem toOption_ok (a : α) : (Except.ok a : Except ε α).toOption = some a := rfl
@[simp] theorem toOption_error (e : ε) : (Except.error e : Except ε α).toOption = none := rfl

theorem toOption_bind (x : Except ε α) (f : α → Except ε β) :
    (x >>= f).toOption = x.toOption.bind fun a => (f a).toOption := by
  cases x <;> rfl

/-- Forgetting the error commutes with the loop. -/
theorem toOption_mapM (f : α → Except ε β) (xs : List α) :
    (xs.mapM f).toOption = xs.mapM fun x => (f x).toOption := by
  induction xs with
  | nil => rfl
  | cons x xs ih =>
      simp only [List.mapM_cons, toOption_bind, ih]
      rfl

/-- A result that is mapped comes from a result. -/
theorem ok_of_map {x : Except ε α} {f : α → β} {b : β} (h : x.map f = .ok b) :
    ∃ a, x = .ok a ∧ f a = b := by
  cases x with
  | error e => cases h
  | ok a => exact ⟨a, rfl, Except.ok.inj h⟩

/-- The runs of a loop that returned. -/
theorem forall₂_of_mapM_ok {f : α → Except ε β} {xs : List α} {ys : List β}
    (h : xs.mapM f = .ok ys) : List.Forall₂ (fun x y => f x = .ok y) xs ys := by
  have hsome := toOption_mapM f xs
  rw [h] at hsome
  refine (mapM_eq_some_iff.1 hsome.symm).imp fun x y hxy => ?_
  cases hx : f x with
  | error e => rw [hx] at hxy; cases hxy
  | ok z => rw [hx] at hxy; cases hxy; rfl

theorem eq_ok_of_toOption {x : Except ε α} {a : α} (h : x.toOption = some a) : x = .ok a := by
  cases x with
  | error e => cases h
  | ok b =>
      cases h
      rfl

theorem exists_of_mem_mapM_ok {f : α → Except ε β} {xs : List α} {ys : List β}
    (h : xs.mapM f = .ok ys) {y : β} (hy : y ∈ ys) : ∃ x ∈ xs, f x = .ok y := by
  have hsome := toOption_mapM f xs
  rw [h] at hsome
  obtain ⟨x, hx, hfx⟩ := exists_of_mem_mapM hsome.symm hy
  exact ⟨x, hx, eq_ok_of_toOption hfx⟩

/-- A loop whose runs return these values. -/
theorem mapM_of_map_ok {f : α → Except ε β} {xs : List α} {ys : List β}
    (h : xs.map f = ys.map .ok) : xs.mapM f = .ok ys := by
  induction xs generalizing ys with
  | nil =>
      obtain rfl : ys = [] := by simpa using h.symm
      rfl
  | cons x xs ih =>
      cases ys with
      | nil => cases h
      | cons y ys =>
          obtain ⟨hx, hrest⟩ := List.cons.inj h
          rw [List.mapM_cons, hx, ih hrest]
          rfl

/-- A loop of runs that all return. -/
theorem exists_ok_of_mapM {f : α → Except ε β} {xs : List α} (h : ∀ x ∈ xs, ∃ y, f x = .ok y) :
    ∃ ys, xs.mapM f = .ok ys ∧ List.Forall₂ (fun x y => f x = .ok y) xs ys := by
  induction xs with
  | nil => exact ⟨[], rfl, .nil⟩
  | cons x xs ih =>
      obtain ⟨y, hy⟩ := h x (by simp)
      obtain ⟨ys, hys, hall⟩ := ih fun z hz => h z (List.mem_cons_of_mem _ hz)
      refine ⟨y :: ys, ?_, .cons hy hall⟩
      rw [List.mapM_cons, hy, hys]
      rfl

/-- Where every step can be undone, so can the loop. -/
theorem exists_mapM_undone {f : α → Except ε β} {g : β → Option α} {xs : List α}
    (h : ∀ x ∈ xs, ∃ y, f x = .ok y ∧ g y = some x) :
    ∃ ys, xs.mapM f = .ok ys ∧ ys.mapM g = some xs := by
  induction xs with
  | nil => exact ⟨[], rfl, rfl⟩
  | cons x xs ih =>
      obtain ⟨y, hdo, hundo⟩ := h x (by simp)
      obtain ⟨ys, hdos, hundos⟩ := ih fun x' hx' => h x' (List.mem_cons_of_mem _ hx')
      refine ⟨y :: ys, ?_, ?_⟩
      · rw [List.mapM_cons, hdo, hdos]
        rfl
      · rw [List.mapM_cons, hundo, hundos]
        rfl

theorem mapM_congr_ok {f g : α → Except ε β} {xs : List α} (h : ∀ x ∈ xs, f x = g x) :
    xs.mapM f = xs.mapM g := by
  induction xs with
  | nil => rfl
  | cons x xs ih =>
      rw [List.mapM_cons, List.mapM_cons, h x List.mem_cons_self,
        ih fun y hy => h y (List.mem_cons_of_mem _ hy)]

theorem mapM_map_ok (f : α → Except ε β) (g : β → γ) (xs : List α) :
    (xs.mapM fun x => (f x).map g) = (xs.mapM f).map (List.map g) := by
  induction xs with
  | nil => rfl
  | cons x xs ih =>
      rw [List.mapM_cons, List.mapM_cons, ih]
      cases f x with
      | error e => rfl
      | ok y => cases xs.mapM f <;> rfl

/-- Two loops one after the other are one loop, if the first one returns. -/
theorem mapM_bind_ok {f : α → Except ε β} {g : β → Except ε γ} {xs : List α} {ys : List β}
    (h : xs.mapM f = .ok ys) : (xs.mapM fun x => (f x).bind g) = ys.mapM g := by
  induction xs generalizing ys with
  | nil =>
      cases h
      rfl
  | cons x xs ih =>
      rw [List.mapM_cons] at h
      cases hx : f x with
      | error e => rw [hx] at h; cases h
      | ok y =>
          rw [hx] at h
          cases hxs : xs.mapM f with
          | error e => rw [hxs] at h; cases h
          | ok ys' =>
              rw [hxs] at h
              cases h
              rw [List.mapM_cons, List.mapM_cons, ih hxs, hx]
              rfl

/-- Where the first loop breaks off, so does the one loop, unless the second function breaks off
on what comes before. -/
theorem mapM_bind_error {f : α → Except ε β} {g : β → Except ε γ} {xs : List α} {e : ε}
    (h : xs.mapM f = .error e) (hg : ∀ x ∈ xs, ∀ y, f x = .ok y → ∃ z, g y = .ok z) :
    (xs.mapM fun x => (f x).bind g) = .error e := by
  induction xs with
  | nil => cases h
  | cons x xs ih =>
      rw [List.mapM_cons] at h
      rw [List.mapM_cons]
      cases hx : f x with
      | error e' =>
          rw [hx] at h
          cases h
          rfl
      | ok y =>
          rw [hx] at h
          obtain ⟨z, hz⟩ := hg x List.mem_cons_self y hx
          have hrest := ih (by
            cases hxs : xs.mapM f with
            | error e' => rw [hxs] at h; cases h; rfl
            | ok ys => rw [hxs] at h; cases h) fun w hw => hg w (List.mem_cons_of_mem _ hw)
          rw [hrest]
          change (g y).bind _ = _
          rw [hz]
          rfl

/-- A loop over the rows of many lists. -/
theorem mapM_flatten_ok (f : α → Except ε β) (xss : List (List α)) :
    (xss.mapM fun xs : List α => xs.mapM f).map List.flatten = xss.flatten.mapM f := by
  induction xss with
  | nil => rfl
  | cons xs xss ih =>
      rw [List.mapM_cons, List.flatten_cons, List.mapM_append, ← ih]
      cases xs.mapM f with
      | error e => rfl
      | ok ys => cases xss.mapM fun xs : List α => xs.mapM f <;> rfl

/-! ## Permuted lists -/

/-- A loop over the same elements in another order gives the same results in another order. -/
theorem mapM_perm {f : α → Option β} {xs ys : List α} {zs : List β} (hperm : ys.Perm xs)
    (h : xs.mapM f = some zs) : ∃ ws, ys.mapM f = some ws ∧ ws.Perm zs := by
  obtain ⟨ws, hws, hsame⟩ := List.perm_comp_forall₂ hperm (mapM_eq_some_iff.1 h)
  exact ⟨ws, mapM_eq_some_iff.2 hws, hsame⟩

/-- Where at most one element satisfies a test, the order does not matter to its search. -/
theorem find?_perm {p : α → Bool} {xs ys : List α} (hperm : xs.Perm ys)
    (honce : xs.Pairwise fun a b => ¬ (p a = true ∧ p b = true)) : xs.find? p = ys.find? p := by
  induction hperm with
  | nil => rfl
  | cons x _ ih => rw [List.find?_cons, List.find?_cons, ih (List.pairwise_cons.1 honce).2]
  | swap x y xs =>
      have hxy := (List.pairwise_cons.1 honce).1 x List.mem_cons_self
      rw [List.find?_cons, List.find?_cons, List.find?_cons, List.find?_cons]
      cases hx : p x with
      | false => rfl
      | true =>
          cases hy : p y with
          | false => rfl
          | true => exact absurd ⟨hy, hx⟩ hxy
  | trans hxy _ ih₁ ih₂ =>
      rw [ih₁ honce, ih₂ (honce.perm hxy fun h h' => h h'.symm)]

end Traverse
