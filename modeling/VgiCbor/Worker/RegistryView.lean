import VgiCbor.Lib.SqlText
import VgiCbor.Security.Registry

/-!
# The registry view

The catalog has a view of the registered algorithms, key types and curves, whose definition is
SQL text generated from the tables of the decoders.  Whatever names the tables hold, the text is
read back as their rows (`readView_definition`), and the rows of the view are the names that the
decoders render (`registry_view`).
-/

namespace VgiCbor.RegistryView

open MachineInt Security SqlText

/-- Registries by kind. -/
abbrev Registries := List (String × List (Int × String))

/-- The registries of the decoders. -/
def decoderRegistries : Registries :=
  [("alg", ALG_TABLE), ("kty", KTY_TABLE), ("crv", CRV_TABLE)]

/-- One row of the `VALUES` list. -/
def rowText (kind : String) (entry : Int × String) : String :=
  let escaped := String.ofList (escape entry.2.toList)
  s!"('{kind}',{entry.1},'{escaped}')"

/-- The definition of the view. -/
def coseRegistryView (registries : Registries) : String :=
  let rows := registries.flatMap fun registry => registry.2.map (rowText registry.1)
  let list := ", ".intercalate rows
  s!"SELECT registry, id, name FROM (VALUES {list}) AS t(registry, id, name)"

/-! ## Reading the definition -/

abbrev Entry := String × Int × String

def viewFront : String := "SELECT registry, id, name FROM (VALUES "

def viewBack : String := ") AS t(registry, id, name)"

/-- The row that three literals stand for. -/
def entryOf : List Literal → Option Entry
  | [.text kind, .int id, .text name] => some (String.ofList kind, id, String.ofList name)
  | _ => none

/-- The rows that a definition selects. -/
def readView (definition : String) : Option (List Entry) :=
  if viewFront.toList.isPrefixOf definition.toList then
    (readValues (definition.toList.drop viewFront.toList.length)).bind fun (rows, more) =>
      if more = viewBack.toList then rows.mapM entryOf else none
  else none

def entries (registries : Registries) : List Entry :=
  registries.flatMap fun registry => registry.2.map fun entry => (registry.1, entry.1, entry.2)

/-- The literals of a row. -/
def literals (entry : Entry) : List Literal :=
  [.text entry.1.toList, .int entry.2.1, .text entry.2.2.toList]

theorem escape_eq {s : List Char} (h : quote ∉ s) : escape s = s := by
  induction s with
  | nil => rfl
  | cons c s ih =>
      rw [List.mem_cons, not_or] at h
      have hrest := ih h.2
      rw [escape] at hrest ⊢
      rw [List.flatMap_cons, hrest, if_neg (Ne.symm h.1)]
      rfl

theorem rowText_toList {kind : String} (h : quote ∉ kind.toList) (entry : Int × String) :
    (rowText kind entry).toList = row (literals (kind, entry.1, entry.2)) := by
  have htext : rowText kind entry =
      "('" ++ kind ++ "'," ++ toString entry.1 ++ ",'" ++
        String.ofList (escape entry.2.toList) ++ "')" := rfl
  rw [htext]
  simp [String.toList_append, row, literals, Literal.sql, escape_eq h]

theorem coseRegistryView_toList {registries : Registries}
    (hkinds : ∀ r ∈ registries, quote ∉ r.1.toList) :
    (coseRegistryView registries).toList =
      viewFront.toList ++ (values ((entries registries).map literals) ++ viewBack.toList) := by
  have hrows : (registries.flatMap fun r => r.2.map (rowText r.1)).map String.toList =
      ((entries registries).map literals).map row := by
    simp only [entries, List.map_flatMap, List.map_map]
    apply List.flatMap_congr
    intro r hr
    apply List.map_congr_left
    intro entry _
    exact rowText_toList (hkinds r hr) entry
  have hvalues : values ((entries registries).map literals) =
      (", ".intercalate (registries.flatMap fun r => r.2.map (rowText r.1))).toList := by
    rw [values, String.toList_intercalate, hrows]
    rfl
  have hdef : coseRegistryView registries = viewFront ++
      ", ".intercalate (registries.flatMap fun r => r.2.map (rowText r.1)) ++ viewBack := rfl
  rw [hdef, hvalues, String.toList_append, String.toList_append, List.append_assoc]

theorem entryOf_literals (entry : Entry) : entryOf (literals entry) = some entry := by
  simp [literals, entryOf]

theorem viewBack_toList : viewBack.toList = ')' :: viewBack.toList.tail := by
  decide +kernel

/-- The definition is read back as the rows of the tables, whatever names they hold. -/
theorem readView_definition {registries : Registries}
    (hkinds : ∀ r ∈ registries, quote ∉ r.1.toList) (hsome : entries registries ≠ []) :
    readView (coseRegistryView registries) = some (entries registries) := by
  have hread : readValues (values ((entries registries).map literals) ++ viewBack.toList) =
      some ((entries registries).map literals, viewBack.toList) := by
    rw [viewBack_toList]
    apply readValues_values
    · simpa using hsome
    · intro r hr
      obtain ⟨entry, -, rfl⟩ := List.mem_map.1 hr
      exact List.cons_ne_nil _ _
  have hentries (rows : List Entry) : (rows.map literals).mapM entryOf = some rows := by
    induction rows with
    | nil => rfl
    | cons entry rows ih => simp [entryOf_literals, ih]
  rw [readView, coseRegistryView_toList hkinds,
    if_pos (List.isPrefixOf_iff_prefix.2 (List.prefix_append _ _)), List.drop_left, hread,
    Option.bind_some]
  simp only [if_pos, hentries]

/-- A name that is not the label itself comes from the table. -/
theorem lookup_iff {table : List (Int × String)} (hnodup : (table.map Prod.fst).Nodup)
    (hnames : ∀ entry ∈ table, entry.2 ≠ toString entry.1) {id : I64} {name : String} :
    (id.val, name) ∈ table ↔ lookup table id = name ∧ name ≠ toString id.val := by
  constructor
  · intro hmem
    exact ⟨lookup_of_mem hnodup hmem, hnames _ hmem⟩
  · rintro ⟨rfl, hname⟩
    rw [lookup] at hname ⊢
    cases hfound : table.find? fun entry => entry.1 == id.val with
    | none =>
        rw [hfound] at hname
        exact absurd rfl hname
    | some entry =>
        have hid : entry.1 = id.val := by simpa using List.find?_some hfound
        rw [← hid]
        exact List.mem_of_find?_eq_some hfound

/-- The kinds are distinct, so a kind selects the rows of its table. -/
theorem mem_decoderRegistries {id : Int} {name : String} :
    (("alg", id, name) ∈ entries decoderRegistries ↔ (id, name) ∈ ALG_TABLE) ∧
      (("kty", id, name) ∈ entries decoderRegistries ↔ (id, name) ∈ KTY_TABLE) ∧
      (("crv", id, name) ∈ entries decoderRegistries ↔ (id, name) ∈ CRV_TABLE) := by
  simp [entries, decoderRegistries]

/-- The view lists a label with a name exactly if the decoders render the label so, rather than
as a number. -/
theorem registry_view :
    ∃ rows, readView (coseRegistryView decoderRegistries) = some rows ∧
      ∀ (id : I64) (name : String),
        (("alg", id.val, name) ∈ rows ↔ algName id = name ∧ name ≠ toString id.val) ∧
        (("kty", id.val, name) ∈ rows ↔ ktyName id = name ∧ name ≠ toString id.val) ∧
        (("crv", id.val, name) ∈ rows ↔ crvName id = name ∧ name ≠ toString id.val) := by
  have hkinds : ∀ r ∈ decoderRegistries, quote ∉ r.1.toList := by decide +kernel
  have hsome : entries decoderRegistries ≠ [] := by
    rw [decoderRegistries, ALG_TABLE]
    exact List.cons_ne_nil _ _
  refine ⟨_, readView_definition hkinds hsome, fun id name => ⟨?_, ?_, ?_⟩⟩
  · rw [mem_decoderRegistries.1]
    exact lookup_iff (by decide) (by decide +kernel)
  · rw [mem_decoderRegistries.2.1]
    exact lookup_iff (by decide) (by decide +kernel)
  · rw [mem_decoderRegistries.2.2]
    exact lookup_iff (by decide) (by decide +kernel)

end VgiCbor.RegistryView
