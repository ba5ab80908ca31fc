import TemplateCompiler.Proofs.Config.Strict
import TemplateCompiler.Proofs.Value.Decoding

/-! # The template that a configuration stores

A configuration that was written as the JSON of a map gives back what the map holds under the key of
the chat template, and nothing else of the map matters.  This holds of every strict reader
(`chatTemplate_json`).

A strict reader promises something about the texts of the grammar only, and only within limits.  So
most of the work is on the side of the writer: the JSON of a map is such a text, it keeps within the
limits (`fits_tree`), and the values under the key are those of the map (`valuesUnder_entryTrees`).
-/

namespace TemplateCompiler

/-! ## 1. Nesting -/

namespace Value

mutual

/-- How many lists and maps stand around the innermost value, the value itself among them. -/
def nesting : Value → Nat
  | .list items => itemsNesting items + 1
  | .map entries => entriesNesting entries + 1
  | _ => 0

def itemsNesting : List Value → Nat
  | [] => 0
  | v :: rest => max v.nesting (itemsNesting rest)

def entriesNesting : List (List Char × Value) → Nat
  | [] => 0
  | (_, v) :: rest => max v.nesting (entriesNesting rest)

end

end Value

namespace Config

open Value

/-! ## 2. The tree of a map -/

theorem isWhole_numberOf (n : Int64) : (numberOf n).IsWhole := by
  have hlow := n.le_toInt
  have hhigh := n.toInt_lt
  refine ⟨rfl, rfl, ?_⟩
  rw [Text.decimalValue, ← Nat.ofDigitChars_eq_foldl]
  change Nat.ofDigitChars 10 (Nat.toDigits 10 n.toInt.natAbs) 0 < 2 ^ 64
  rw [Nat.ofDigitChars_ten_toDigits]
  omega

-- The induction is over values, items and entries at once, as in the definition of trees.
mutual

/-- **Every reader takes the tree of a value** that is not nested too deep. -/
theorem fits_tree (v : Value) (hv : v.isFloatFree = true) (depth : Nat) (h : v.nesting ≤ depth) :
    v.tree.Fits depth := by
  match v, depth with
  | .undefined, _ => exact .null
  | .null, _ => exact .null
  | .bool b, _ => exact .bool b
  | .int n, _ => exact .number (isWhole_numberOf n)
  | .float x, _ => cases hv
  | .text s, _ => exact .string (denotes_map s)
  | .list items, 0 =>
    rw [nesting] at h
    omega
  | .list items, depth + 1 =>
    rw [nesting] at h
    exact .array (fits_itemTrees items hv depth (by omega))
  | .map entries, 0 =>
    rw [nesting] at h
    omega
  | .map entries, depth + 1 =>
    rw [nesting] at h
    obtain ⟨hkeys, hvalues⟩ := fits_entryTrees entries hv depth (by omega)
    exact .object hkeys hvalues

theorem fits_itemTrees (items : List Value) (hv : itemsFloatFree items = true) (depth : Nat)
    (h : itemsNesting items ≤ depth) : ∀ t ∈ itemTrees items, t.Fits depth := by
  match items with
  | [] => simp [itemTrees]
  | v :: rest =>
    rw [itemsFloatFree, Bool.and_eq_true] at hv
    rw [itemsNesting, Nat.max_le] at h
    rw [itemTrees, List.forall_mem_cons]
    exact ⟨fits_tree v hv.1 depth h.1, fits_itemTrees rest hv.2 depth h.2⟩

theorem fits_entryTrees (entries : List (List Char × Value))
    (hv : entriesFloatFree entries = true) (depth : Nat) (h : entriesNesting entries ≤ depth) :
    (∀ m ∈ entryTrees entries, ∃ key, Denotes m.1 key) ∧
      ∀ m ∈ entryTrees entries, m.2.Fits depth := by
  match entries with
  | [] => simp [entryTrees]
  | (key, v) :: rest =>
    rw [entriesFloatFree, Bool.and_eq_true] at hv
    rw [entriesNesting, Nat.max_le] at h
    rw [entryTrees, List.forall_mem_cons, List.forall_mem_cons]
    obtain ⟨hkeys, hvalues⟩ := fits_entryTrees rest hv.2 depth h.2
    exact ⟨⟨⟨key, denotes_map key⟩, hkeys⟩, fits_tree v hv.1 depth h.1, hvalues⟩

end

/-! ## 3. The template of a map -/

/-- The values that a map holds under the key of the chat template. -/
def storedValues (entries : List (List Char × Value)) : List Value :=
  (entries.filter (·.1 == templateKey)).map Prod.snd

/-- What these values say about the template: there must be one, and it must be a text.  Null and
the missing value count as none. -/
def storedTemplate : List Value → Except Fault (List Char)
  | [] => .error .missing
  | [v] =>
    match v with
    | .null | .undefined => .error .missing
    | .text s => .ok s
    | _ => .error .notText
  | _ :: _ :: _ => .error .invalid

/-- The values under the key are those of the map. -/
theorem valuesUnder_entryTrees (entries : List (List Char × Value)) :
    ValuesUnder templateKey (entryTrees entries) ((storedValues entries).map tree) := by
  induction entries with
  | nil => exact .nil
  | cons e rest ih =>
    obtain ⟨key, v⟩ := e
    by_cases hkey : key = templateKey
    · subst hkey
      simpa [storedValues, entryTrees] using ih.here (denotes_map templateKey) v.tree
    · simpa [storedValues, entryTrees, hkey] using ih.there (denotes_map key) hkey v.tree

theorem stores_json {entries : List (List Char × Value)}
    (hfree : (Value.map entries).isFloatFree = true)
    (hnesting : (Value.map entries).nesting ≤ nestingLimit) :
    Stores (Value.map entries).json ((storedValues entries).map tree) :=
  ⟨_, isDocument_json hfree, fits_tree _ hfree _ hnesting, valuesUnder_entryTrees entries⟩

/-- **The chat template of a configuration** that is the JSON of a map: only the values under its
key matter. -/
theorem chatTemplate_json {read : Reader} (hread : read.IsStrict)
    {entries : List (List Char × Value)} (hfree : (Value.map entries).isFloatFree = true)
    (hnesting : (Value.map entries).nesting ≤ nestingLimit) :
    chatTemplate read (Value.map entries).json = storedTemplate (storedValues entries) := by
  have hstores := stores_json hfree hnesting
  unfold chatTemplate
  cases hvalues : storedValues entries with
  | nil =>
    rw [hvalues] at hstores
    rw [hread.missing hstores]
    rfl
  | cons v more =>
    rw [hvalues] at hstores
    cases more with
    | cons w more =>
      rw [hread.repeated hstores (by simp)]
      rfl
    | nil =>
      -- one case for each kind of value; all but null and texts are told by their trees
      cases v with
      | undefined => rw [hread.null hstores]; rfl
      | null => rw [hread.null hstores]; rfl
      | text s => rw [hread.string hstores (denotes_map s)]; rfl
      | float x =>
        have hmem : Value.float x ∈ storedValues entries := by simp [hvalues]
        obtain ⟨e, he, hx⟩ := List.mem_map.1 hmem
        have hfree := entriesFloatFree_iff.1 hfree e (List.mem_filter.1 he).1
        rw [hx] at hfree
        cases hfree
      | _ =>
        rw [hread.other hstores (by simp [tree]) (by simp [tree])]
        rfl

end Config

end TemplateCompiler
