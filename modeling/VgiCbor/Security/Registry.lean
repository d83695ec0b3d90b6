import VgiCbor.Core.Value
import VgiCbor.Lib.LabelScan

/-!
# Registry names and labels

The numeric identifiers of the COSE registries (algorithms, key types, curves), the names
they are rendered as, and maps that are read by integer labels.
-/

namespace VgiCbor.Security

open MachineInt LabelScan

def ALG_TABLE : List (Int × String) :=
  [(-65535, "RS1"), (-260, "WalnutDSA"), (-259, "RS512"), (-258, "RS384"), (-257, "RS256"),
    (-47, "ES256K"), (-46, "HSS-LMS"), (-45, "SHAKE256"), (-44, "SHA-512"), (-43, "SHA-384"),
    (-39, "PS512"), (-38, "PS384"), (-37, "PS256"), (-36, "ES512"), (-35, "ES384"),
    (-34, "ECDH-SS+A256KW"), (-33, "ECDH-SS+A192KW"), (-32, "ECDH-SS+A128KW"),
    (-31, "ECDH-ES+A256KW"), (-30, "ECDH-ES+A192KW"), (-29, "ECDH-ES+A128KW"),
    (-27, "ECDH-SS+HKDF-512"), (-26, "ECDH-SS+HKDF-256"), (-25, "ECDH-ES+HKDF-512"), (-8, "EdDSA"),
    (-7, "ES256"), (-6, "direct"), (-5, "A256KW"), (-4, "A192KW"), (-3, "A128KW"), (0, "Reserved"),
    (1, "A128GCM"), (2, "A192GCM"), (3, "A256GCM"), (4, "HMAC 256/64"), (5, "HMAC 256/256"),
    (6, "HMAC 384/384"), (7, "HMAC 512/512"), (10, "AES-CCM-16-64-128"), (11, "AES-CCM-16-64-256"),
    (12, "AES-CCM-64-64-128"), (13, "AES-CCM-64-64-256"), (14, "AES-MAC 128/64"),
    (15, "AES-MAC 256/64"), (24, "ChaCha20/Poly1305"), (25, "AES-MAC 128/128"),
    (26, "AES-MAC 256/128"), (30, "AES-CCM-16-128-128"), (31, "AES-CCM-16-128-256"),
    (32, "AES-CCM-64-128-128"), (33, "AES-CCM-64-128-256")]

def KTY_TABLE : List (Int × String) :=
  [(1, "OKP"), (2, "EC2"), (3, "RSA"), (4, "Symmetric"), (5, "HSS-LMS"), (6, "WalnutDSA")]

def CRV_TABLE : List (Int × String) :=
  [(1, "P-256"), (2, "P-384"), (3, "P-521"), (4, "X25519"), (5, "X448"), (6, "Ed25519"),
    (7, "Ed448"), (8, "secp256k1")]

/-- The name of an identifier; an unknown one is its decimal label.  The first entry with the
identifier counts. -/
def lookup (table : List (Int × String)) (id : I64) : String :=
  ((table.find? fun entry => entry.1 == id.val).map Prod.snd).getD (toString id.val)

def algName (id : I64) : String := lookup ALG_TABLE id

def ktyName (id : I64) : String := lookup KTY_TABLE id

def crvName (id : I64) : String := lookup CRV_TABLE id

/-- An identifier that is listed once is rendered as its name. -/
theorem lookup_of_mem {table : List (Int × String)} (hnodup : (table.map Prod.fst).Nodup)
    {id : I64} {name : String} (h : (id.val, name) ∈ table) : lookup table id = name := by
  induction table with
  | nil => cases h
  | cons entry table ih =>
      obtain ⟨hfresh, hnodup⟩ := List.nodup_cons.1 hnodup
      rw [lookup, List.find?_cons]
      rcases List.mem_cons.1 h with rfl | hmem
      · simp
      · have hne : (entry.1 == id.val) = false := by
          rw [beq_eq_false_iff_ne]
          intro heq
          rw [heq] at hfresh
          exact hfresh (List.mem_map_of_mem (f := Prod.fst) hmem)
        rw [hne]
        exact ih hnodup hmem

/-! ## Labels -/

/-- An integer in the 64-bit range. -/
def asInt : Value → Option I64
  | .integer i => Ranged.tryFrom _ _ i.val
  | _ => none

def asBytes : Value → Option Bytes
  | .bytes b => some b
  | _ => none

def textOf : Value → Option String
  | .text s => some s
  | _ => none

/-- An integer in the `i64` range, as labels and registered values are. -/
def smallInt (n : Int) : Integer := Integer.ofI64 (I64.wrap n)

/-- The integer label of an entry. -/
def label (entry : Value × Value) : Option Int := (asInt entry.1).map Ranged.val

def hasLabel (l : Int) (entry : Value × Value) : Bool := label entry == some l

theorem hasLabel_of {entry : Value × Value} {l : Int} (h : label entry = some l) (m : Int) :
    hasLabel m entry = (l == m) := by
  rw [hasLabel, h]
  rfl

theorem hasLabel_of_ne {entry : Value × Value} {l : Int} (h : label entry ≠ some l) :
    hasLabel l entry = false :=
  beq_eq_false_iff_ne.2 h

/-- The value under a label: that of the last entry with it, since the scans overwrite. -/
def under (l : Int) (entries : List (Value × Value)) : Option Value :=
  (last? (hasLabel l) entries).map Prod.snd

/-- In a map with distinct keys every label occurs once at most. -/
theorem unique_of_nodup {entries : List (Value × Value)} (h : (entries.map Prod.fst).Nodup)
    (l : Int) : Unique (hasLabel l) entries := by
  refine (List.pairwise_map.1 h).imp ?_
  rintro ⟨k, v⟩ ⟨k', v'⟩ hne ⟨ha, hb⟩
  have key_of_label {k v : Value} (h : hasLabel l (k, v) = true) :
      ∃ n : Integer, k = .integer n ∧ n.val = l := by
    simp only [hasLabel, label, beq_iff_eq, Option.map_eq_some_iff] at h
    obtain ⟨i, hi, rfl⟩ := h
    cases k with
    | integer n => exact ⟨n, rfl, (Ranged.tryFrom_eq_some_iff.1 hi).symm⟩
    | _ => cases hi
  obtain ⟨n, rfl, hn⟩ := key_of_label ha
  obtain ⟨n', rfl, hn'⟩ := key_of_label hb
  exact hne (congrArg Value.integer (Ranged.ext_val (hn.trans hn'.symm)))

theorem under_append (l : Int) (front back : List (Value × Value)) :
    under l (front ++ back) = (under l back).or (under l front) := by
  rw [under, last?_append, Option.map_or]
  rfl

theorem under_perm {entries entries' : List (Value × Value)}
    (h : (entries.map Prod.fst).Nodup) (hperm : entries'.Perm entries) (l : Int) :
    under l entries' = under l entries := by
  rw [under, last?_perm (unique_of_nodup h l) hperm.symm]
  rfl

end VgiCbor.Security
