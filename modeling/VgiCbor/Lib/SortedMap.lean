import VgiCbor.Lib.LabelScan

/-!
# Maps as sorted lists of members

`upsert` keeps a list of members sorted by key, with one member per key.  A map that is
filled by a loop holds for each key what the last element with that key says
(`mem_fill_iff`), so two loops fill the same map exactly if they agree on the last
element of every key (`fill_eq_iff`).
-/

namespace SortedMap

open LabelScan

variable {κ β α α' : Type*} [LinearOrder κ]

/-- Insert or replace a member. -/
def upsert (key : κ) (value : β) : List (κ × β) → List (κ × β)
  | [] => [(key, value)]
  | (k, v) :: rest =>
      if key < k then (key, value) :: (k, v) :: rest
      else if key = k then (key, value) :: rest
      else (k, v) :: upsert key value rest

/-- The members are sorted by key, one per key. -/
def Sorted (members : List (κ × β)) : Prop := members.Pairwise fun a b => a.1 < b.1

theorem mem_upsert_iff {members : List (κ × β)} (h : Sorted members) {key : κ} {value : β}
    {m : κ × β} :
    m ∈ upsert key value members ↔ m = (key, value) ∨ (m ∈ members ∧ m.1 ≠ key) := by
  induction members with
  | nil => simp [upsert]
  | cons first rest ih =>
      obtain ⟨k, v⟩ := first
      obtain ⟨hfirst, hrest⟩ := List.pairwise_cons.1 h
      unfold upsert
      by_cases hlt : key < k
      · -- All members have larger keys.
        have hne (m' : κ × β) (hm' : m' ∈ (k, v) :: rest) : m'.1 ≠ key := by
          rcases List.mem_cons.1 hm' with rfl | hm'
          · exact hlt.ne'
          · exact (hlt.trans (hfirst m' hm')).ne'
        rw [if_pos hlt, List.mem_cons]
        exact or_congr_right ⟨fun hm => ⟨hm, hne m hm⟩, And.left⟩
      · rw [if_neg hlt]
        by_cases heq : key = k
        · subst heq
          rw [if_pos rfl, List.mem_cons, List.mem_cons]
          constructor
          · rintro (rfl | hm)
            · exact .inl rfl
            · exact .inr ⟨.inr hm, (hfirst m hm).ne'⟩
          · rintro (rfl | ⟨rfl | hm, hne⟩)
            · exact .inl rfl
            · exact absurd rfl hne
            · exact .inr hm
        · rw [if_neg heq, List.mem_cons, List.mem_cons, ih hrest]
          constructor
          · rintro (rfl | rfl | hm)
            · exact .inr ⟨.inl rfl, Ne.symm heq⟩
            · exact .inl rfl
            · exact .inr ⟨.inr hm.1, hm.2⟩
          · rintro (rfl | ⟨rfl | hm, hne⟩)
            · exact .inr (.inl rfl)
            · exact .inl rfl
            · exact .inr (.inr ⟨hm, hne⟩)

theorem upsert_sorted {members : List (κ × β)} (h : Sorted members) (key : κ) (value : β) :
    Sorted (upsert key value members) := by
  induction members with
  | nil => simp [upsert, Sorted]
  | cons first rest ih =>
      obtain ⟨k, v⟩ := first
      obtain ⟨hfirst, hrest⟩ := List.pairwise_cons.1 h
      unfold upsert
      by_cases hlt : key < k
      · rw [if_pos hlt]
        refine List.pairwise_cons.2 ⟨fun m hm => ?_, h⟩
        rcases List.mem_cons.1 hm with rfl | hm
        · exact hlt
        · exact hlt.trans (hfirst m hm)
      · rw [if_neg hlt]
        by_cases heq : key = k
        · subst heq
          rw [if_pos rfl]
          exact List.pairwise_cons.2 ⟨hfirst, hrest⟩
        · rw [if_neg heq]
          refine List.pairwise_cons.2 ⟨fun m hm => ?_, ih hrest⟩
          rcases (mem_upsert_iff hrest).1 hm with rfl | ⟨hm, -⟩
          · exact lt_of_le_of_ne (not_lt.1 hlt) (Ne.symm heq)
          · exact hfirst m hm

/-- Maps with the same members are the same. -/
theorem Sorted.ext {l m : List (κ × β)} (hl : Sorted l) (hm : Sorted m)
    (h : ∀ a, a ∈ l ↔ a ∈ m) : l = m := by
  have hnodup {members : List (κ × β)} (hsorted : Sorted members) : members.Nodup :=
    hsorted.imp fun hab heq => hab.ne (congrArg Prod.fst heq)
  have hperm : l.Perm m := (List.perm_ext_iff_of_nodup (hnodup hl) (hnodup hm)).2 h
  exact hperm.eq_of_pairwise (fun a b _ _ hab hba => absurd hba hab.not_gt) hl hm

/-! ## Filling a map in a loop -/

/-- Insert a member for each element. -/
def fill (key : α → κ) (value : α → β) (elements : List α) (members : List (κ × β)) :
    List (κ × β) :=
  elements.foldl (fun members a => upsert (key a) (value a) members) members

variable {key : α → κ} {value : α → β}

theorem fill_sorted (elements : List α) {members : List (κ × β)} (h : Sorted members) :
    Sorted (fill key value elements members) := by
  induction elements generalizing members with
  | nil => exact h
  | cons a elements ih => exact ih (upsert_sorted h _ _)

/-- The last element with a given key. -/
abbrev lastOf (key : α → κ) (k : κ) (elements : List α) : Option α :=
  last? (fun a => key a = k) elements

/-- The members of a map that was filled further: what the last element of each key says, and what was
there before under other keys. -/
theorem mem_fill_from_iff (elements : List α) {members : List (κ × β)} (h : Sorted members)
    {m : κ × β} :
    m ∈ fill key value elements members ↔
      (lastOf key m.1 elements).map value = some m.2 ∨
        (lastOf key m.1 elements = none ∧ m ∈ members) := by
  induction elements generalizing members with
  | nil => simp [fill]
  | cons a elements ih =>
      have hstep : fill key value (a :: elements) members =
          fill key value elements (upsert (key a) (value a) members) := rfl
      rw [hstep, ih (upsert_sorted h _ _), mem_upsert_iff h]
      simp only [lastOf, last?_cons]
      cases hlast : last? (fun a => key a = m.1) elements with
      | some b => simp
      | none =>
          obtain ⟨k, v⟩ := m
          by_cases heq : key a = k
          · simp [heq, eq_comm]
          · simp [heq, Ne.symm heq]

theorem mem_fill_iff {elements : List α} {m : κ × β} :
    m ∈ fill key value elements [] ↔ (lastOf key m.1 elements).map value = some m.2 := by
  rw [mem_fill_from_iff elements List.Pairwise.nil]
  simp

/-- Two loops fill the same map exactly if for each key their last elements say the same. -/
theorem fill_eq_iff {key' : α' → κ} {value' : α' → β} {elements : List α}
    {elements' : List α'} :
    fill key value elements [] = fill key' value' elements' [] ↔
      ∀ k, (lastOf key k elements).map value = (lastOf key' k elements').map value' := by
  constructor
  · intro heq k
    apply Option.ext
    intro v
    rw [← @mem_fill_iff _ _ _ _ key value elements (k, v), heq, mem_fill_iff]
  · intro h
    apply (fill_sorted elements List.Pairwise.nil).ext (fill_sorted elements' List.Pairwise.nil)
    intro m
    rw [mem_fill_iff, mem_fill_iff, h]

theorem mem_keys_fill {elements : List α} {k : κ} :
    k ∈ (fill key value elements []).map Prod.fst ↔ k ∈ elements.map key := by
  rw [List.mem_map, List.mem_map]
  constructor
  · rintro ⟨m, hm, rfl⟩
    obtain ⟨a, ha, -⟩ := Option.map_eq_some_iff.1 (mem_fill_iff.1 hm)
    obtain ⟨hmem, hkey⟩ := last?_some ha
    exact ⟨a, hmem, by simpa using hkey⟩
  · rintro ⟨a, ha, rfl⟩
    cases hlast : lastOf key (key a) elements with
    | none => simpa using last?_eq_none_iff.1 hlast a ha
    | some b => exact ⟨(key a, value b), mem_fill_iff.2 (by rw [hlast, Option.map_some]), rfl⟩

/-- As many members as elements there are exactly if no two elements have the same key. -/
theorem length_fill_eq_iff {elements : List α} :
    (fill key value elements []).length = elements.length ↔ (elements.map key).Nodup := by
  have hsorted : Sorted (fill key value elements []) := fill_sorted elements List.Pairwise.nil
  have hnodup : ((fill key value elements []).map Prod.fst).Nodup :=
    List.pairwise_map.2 (hsorted.imp fun hab => hab.ne)
  have hperm : (elements.map key).dedup.Perm ((fill key value elements []).map Prod.fst) :=
    (List.perm_ext_iff_of_nodup (List.nodup_dedup _) hnodup).2 fun k => by
      rw [List.mem_dedup, mem_keys_fill]
  have hlen := hperm.length_eq
  rw [List.length_map] at hlen
  rw [← hlen, ← List.dedup_eq_self]
  constructor
  · intro h
    exact (List.dedup_sublist _).eq_of_length (h.trans (List.length_map _).symm)
  · intro h
    rw [h, List.length_map]

/-- Where no two elements have the same key, every element is a member of the map. -/
theorem fill_perm {elements : List α} (h : (elements.map key).Nodup) :
    (fill key value elements []).Perm (elements.map fun a => (key a, value a)) := by
  have hunique (k : κ) : Unique (fun a => key a = k) elements := by
    refine (List.pairwise_map.1 h).imp fun hne hboth => hne ?_
    simp only [decide_eq_true_eq] at hboth
    exact hboth.1.trans hboth.2.symm
  have hsorted : Sorted (fill key value elements []) := fill_sorted elements List.Pairwise.nil
  have hnodup : (elements.map fun a => (key a, value a)).Nodup := by
    refine List.Nodup.of_map Prod.fst ?_
    rwa [List.map_map]
  refine (List.perm_ext_iff_of_nodup
    (hsorted.imp fun hab heq => hab.ne (congrArg Prod.fst heq)) hnodup).2 fun m => ?_
  rw [mem_fill_iff, Option.map_eq_some_iff, List.mem_map]
  refine exists_congr fun a => ?_
  rw [last?_eq_some_iff (hunique m.1), Prod.ext_iff, decide_eq_true_eq, and_assoc]

theorem Sorted.eq_of_key_eq {members : List (κ × β)} (h : Sorted members) {a b : κ × β}
    (ha : a ∈ members) (hb : b ∈ members) (hkey : a.1 = b.1) : a = b := by
  by_contra hne
  have hsymm : Std.Symm fun a b : κ × β => a.1 ≠ b.1 := ⟨fun _ _ h => Ne.symm h⟩
  have hkeys : members.Pairwise fun a b => a.1 ≠ b.1 := h.imp fun hab => hab.ne
  exact hkeys.forall ha hb hne hkey

/-- A map is filled again by its own members. -/
theorem Sorted.fill_self {members : List (κ × β)} (h : Sorted members) :
    fill Prod.fst Prod.snd members [] = members := by
  apply (fill_sorted members List.Pairwise.nil).ext h
  intro m
  rw [mem_fill_iff]
  constructor
  · intro hlast
    obtain ⟨a, ha, hvalue⟩ := Option.map_eq_some_iff.1 hlast
    obtain ⟨hmem, hkey⟩ := last?_some ha
    have hkey' : a.1 = m.1 := by simpa using hkey
    rwa [show m = a from Prod.ext hkey'.symm hvalue.symm]
  · intro hm
    cases hlast : lastOf Prod.fst m.1 members with
    | none => simpa using last?_eq_none_iff.1 hlast m hm
    | some a =>
        obtain ⟨hmem, hkey⟩ := last?_some hlast
        rw [h.eq_of_key_eq hmem hm (by simpa using hkey), Option.map_some]

end SortedMap
