import Mathlib

/-!
# Texts that read in one way

Pieces of text that are written one after the other are told apart by what cannot stand
inside them: a word ends at the first delimiter (`word_append_inj`), an escaped text at
the first bare closing mark (`escaped_append_inj`), and a separated list of items reads in
one way if every item does in front of a delimiter (`separated_append_inj`).
-/

namespace UniqueReading

variable {α β γ : Type*}

/-! ## Words -/

variable {delim : γ → Bool}

/-- Nothing is left to read, or it begins with a delimiter. -/
def Stopped (delim : γ → Bool) : List γ → Prop
  | [] => True
  | c :: _ => delim c = true

theorem stopped_cons {c : γ} {text : List γ} (h : delim c = true) : Stopped delim (c :: text) := h

theorem takeWhile_of_stopped {text : List γ} (h : Stopped delim text) :
    text.takeWhile (fun c => !delim c) = [] := by
  cases text with
  | nil => rfl
  | cons c text =>
      have hc : delim c = true := h
      rw [List.takeWhile_cons_of_neg (by simp [hc])]

/-- Words without delimiters are told apart in front of delimiters. -/
theorem word_append_inj {word word' s t : List γ} (hword : ∀ c ∈ word, delim c = false)
    (hword' : ∀ c ∈ word', delim c = false) (hs : Stopped delim s) (ht : Stopped delim t)
    (h : word ++ s = word' ++ t) : word = word' ∧ s = t := by
  have htake {w rest : List γ} (hw : ∀ c ∈ w, delim c = false) (hrest : Stopped delim rest) :
      (w ++ rest).takeWhile (fun c => !delim c) = w := by
    rw [List.takeWhile_append_of_pos fun c hc => by simp [hw c hc], takeWhile_of_stopped hrest,
      List.append_nil]
  have heq : word = word' := by
    rw [← htake hword hs, h, htake hword' ht]
  refine ⟨heq, ?_⟩
  rw [heq] at h
  exact List.append_cancel_left h

/-! ## Escaped texts -/

/-- The mark in front of what is special. -/
def escape (special : γ → Bool) (mark c : γ) : List γ := if special c then [mark, c] else [c]

/-- An escaped text ends at the first bare closing mark. -/
theorem escaped_append_inj {special : γ → Bool} {mark close : γ} (hmark : special mark = true)
    (hclose : special close = true) (hne : mark ≠ close) {text text' s t : List γ}
    (h : text.flatMap (escape special mark) ++ close :: s =
      text'.flatMap (escape special mark) ++ close :: t) : text = text' ∧ s = t := by
  -- What a character is escaped to does not begin with the closing mark.
  have hfirst (c : γ) : ∃ d rest, escape special mark c = d :: rest ∧ d ≠ close := by
    unfold escape
    split_ifs with hc
    · exact ⟨mark, [c], rfl, hne⟩
    · refine ⟨c, [], rfl, ?_⟩
      rintro rfl
      exact hc hclose
  induction text generalizing text' with
  | nil =>
      cases text' with
      | nil => exact ⟨rfl, (List.cons.inj h).2⟩
      | cons c text' =>
          obtain ⟨d, rest, hd, hdne⟩ := hfirst c
          rw [List.flatMap_cons, hd] at h
          exact absurd (List.cons.inj h).1.symm hdne
  | cons c text ih =>
      cases text' with
      | nil =>
          obtain ⟨d, rest, hd, hdne⟩ := hfirst c
          rw [List.flatMap_cons, hd] at h
          exact absurd (List.cons.inj h).1 hdne
      | cons c' text' =>
          rw [List.flatMap_cons, List.flatMap_cons, List.append_assoc, List.append_assoc] at h
          have hcons : c = c' ∧ text.flatMap (escape special mark) ++ close :: s =
              text'.flatMap (escape special mark) ++ close :: t := by
            unfold escape at h
            split_ifs at h with hc hc' hc'
            · exact ⟨(List.cons.inj (List.cons.inj h).2).1, (List.cons.inj (List.cons.inj h).2).2⟩
            · -- The mark itself is never bare.
              rw [← (List.cons.inj h).1, hmark] at hc'
              exact absurd rfl hc'
            · rw [(List.cons.inj h).1, hmark] at hc
              exact absurd rfl hc
            · exact List.cons.inj h
          obtain ⟨rfl, hrest⟩ := ih hcons.2
          exact ⟨by rw [hcons.1], hrest⟩

/-! ## Codes of one length -/

/-- Codes of one length are read one by one. -/
theorem flatMap_injective {f : α → List γ} {n : Nat} (hpos : 0 < n)
    (hlen : ∀ a, (f a).length = n) (hinj : Function.Injective f) :
    Function.Injective (List.flatMap f) := by
  intro l m h
  induction l generalizing m with
  | nil =>
      cases m with
      | nil => rfl
      | cons b m =>
          have hzero := congrArg List.length h
          rw [List.flatMap_cons, List.length_append, hlen] at hzero
          simp only [List.flatMap_nil, List.length_nil] at hzero
          omega
  | cons a l ih =>
      cases m with
      | nil =>
          have hzero := congrArg List.length h
          rw [List.flatMap_cons, List.length_append, hlen] at hzero
          simp only [List.flatMap_nil, List.length_nil] at hzero
          omega
      | cons b m =>
          rw [List.flatMap_cons, List.flatMap_cons] at h
          obtain ⟨hcode, hrest⟩ := List.append_inj h ((hlen a).trans (hlen b).symm)
          rw [hinj hcode, ih hrest]

/-! ## Separated items -/

/-- The texts of the items, with a separator in front of all but the first. -/
def separated (sep : List γ) (text : α → List γ) : Bool → List α → List γ
  | _, [] => []
  | first, a :: items => (if first then [] else sep) ++ text a ++ separated sep text false items

variable {sep : List γ} {close : γ}

/-- Items whose texts are equal one by one. -/
theorem separated_congr {text : α → List γ} {text' : β → List γ} {R : α → β → Prop}
    {items : List α} {items' : List β} (hitems : List.Forall₂ R items items')
    (h : ∀ a ∈ items, ∀ b, R a b → text a = text' b) (first : Bool) :
    separated sep text first items = separated sep text' first items' := by
  induction hitems generalizing first with
  | nil => rfl
  | @cons a b items items' hab _ ih =>
      rw [separated, separated, h a List.mem_cons_self b hab,
        ih fun a' ha => h a' (List.mem_cons_of_mem _ ha)]

/-- Behind the first item stands a separator or the closing mark. -/
theorem stopped_separated (hsep : Stopped delim sep) (hne : sep ≠ [])
    (hclose : delim close = true) (text : α → List γ) (items : List α) (rest : List γ) :
    Stopped delim (separated sep text false items ++ close :: rest) := by
  cases items with
  | nil => exact hclose
  | cons a items =>
      cases sep with
      | nil => exact absurd rfl hne
      | cons c sep => exact hsep

/-- A closed list of separated items reads in one way if each of its items does, and no item
begins with a delimiter. -/
theorem separated_append_inj {text : α → List γ} {text' : β → List γ} {R : α → β → Prop}
    (hsep : Stopped delim sep) (hsepClose : ∀ rest s, sep ++ rest ≠ close :: s)
    (hclose : delim close = true) {items : List α} {items' : List β}
    (hstart : ∀ a ∈ items, ∀ s t, text a ++ s ≠ close :: t)
    (hstart' : ∀ b ∈ items', ∀ s t, text' b ++ s ≠ close :: t)
    (hitem : ∀ a ∈ items, ∀ b ∈ items', ∀ s t, Stopped delim s → Stopped delim t →
      text a ++ s = text' b ++ t → R a b ∧ s = t)
    {first : Bool} {s t : List γ}
    (h : separated sep text first items ++ close :: s =
      separated sep text' first items' ++ close :: t) :
    List.Forall₂ R items items' ∧ s = t := by
  have hne : sep ≠ [] := by
    rintro rfl
    exact hsepClose [close] [] rfl
  induction items generalizing items' first with
  | nil =>
      cases items' with
      | nil => exact ⟨.nil, (List.cons.inj h).2⟩
      | cons b items' =>
          rw [separated, separated, List.append_assoc, List.append_assoc] at h
          cases first with
          | true => exact absurd h.symm (hstart' b List.mem_cons_self _ _)
          | false => exact absurd h.symm (hsepClose _ _)
  | cons a items ih =>
      cases items' with
      | nil =>
          rw [separated, separated, List.append_assoc, List.append_assoc] at h
          cases first with
          | true => exact absurd h (hstart a List.mem_cons_self _ _)
          | false => exact absurd h (hsepClose _ _)
      | cons b items' =>
          rw [separated, separated, List.append_assoc, List.append_assoc, List.append_assoc,
            List.append_assoc] at h
          obtain ⟨hab, hrest⟩ := hitem a List.mem_cons_self b List.mem_cons_self _ _
            (stopped_separated hsep hne hclose text items s)
            (stopped_separated hsep hne hclose text' items' t) (List.append_cancel_left h)
          obtain ⟨hitems, heq⟩ := ih (fun a' ha => hstart a' (List.mem_cons_of_mem _ ha))
            (fun b' hb => hstart' b' (List.mem_cons_of_mem _ hb))
            (fun a' ha b' hb => hitem a' (List.mem_cons_of_mem _ ha) b'
              (List.mem_cons_of_mem _ hb)) hrest
          exact ⟨.cons hab hitems, heq⟩

end UniqueReading
