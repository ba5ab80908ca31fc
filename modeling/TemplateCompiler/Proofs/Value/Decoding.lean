import TemplateCompiler.Proofs.Config.Grammar
import TemplateCompiler.Value.Json

/-! # JSON texts and what they denote

What does the JSON of a value say?  A tree denotes a value if its numbers are integers of 64 bits
and its strings are texts (`Json.toValue?`); objects keep their members in order, also those with
the same key.  Main statement: the JSON of a value without doubles belongs to the grammar and
denotes the value, the missing value being read as null (`toJson_decodes`).  Two such values
therefore have the same JSON only if they are the same in this sense.

The tree is built first, beside the text (`tree`).  That it is the tree of the text and that it
denotes the value are two inductions over the value.
-/

namespace TemplateCompiler

/-! ## 1. What a tree denotes -/

namespace Config

/-- The integer that a number denotes, if it has neither a fraction nor a power and 64 bits are
enough. -/
def Number.toInt? (n : Number) : Option Int64 :=
  if n.fraction = [] ∧ n.power = 0 then
    Value.fitInt? (if n.negative then -(ofDigits n.whole : Int) else ofDigits n.whole)
  else none

mutual

/-- The value that a tree denotes. -/
def Json.toValue? : Json → Option Value
  | .null => some .null
  | .bool b => some (.bool b)
  | .number n => n.toInt?.map .int
  | .string s => (decode? s).map .text
  | .array items => (itemValues? items).map .list
  | .object members => (memberValues? members).map .map

def itemValues? : List Json → Option (List Value)
  | [] => some []
  | v :: rest => do return (← v.toValue?) :: (← itemValues? rest)

def memberValues? : List (List Piece × Json) → Option (List (List Char × Value))
  | [] => some []
  | (key, v) :: rest => do return (← decode? key, ← v.toValue?) :: (← memberValues? rest)

end

end Config

namespace Value

open Config

/-! ## 2. Values without doubles -/

mutual

/-- Whether there is no double in a value, at any depth. -/
def isFloatFree : Value → Bool
  | .float _ => false
  | .list items => itemsFloatFree items
  | .map entries => entriesFloatFree entries
  | _ => true

def itemsFloatFree : List Value → Bool
  | [] => true
  | v :: rest => v.isFloatFree && itemsFloatFree rest

def entriesFloatFree : List (List Char × Value) → Bool
  | [] => true
  | (_, v) :: rest => v.isFloatFree && entriesFloatFree rest

end

theorem itemsFloatFree_iff {items : List Value} :
    itemsFloatFree items = true ↔ ∀ v ∈ items, v.isFloatFree = true := by
  induction items with
  | nil => simp [itemsFloatFree]
  | cons v rest ih => rw [itemsFloatFree, Bool.and_eq_true, ih, List.forall_mem_cons]

theorem entriesFloatFree_iff {entries : List (List Char × Value)} :
    entriesFloatFree entries = true ↔ ∀ e ∈ entries, e.2.isFloatFree = true := by
  induction entries with
  | nil => simp [entriesFloatFree]
  | cons e rest ih => rw [entriesFloatFree, Bool.and_eq_true, ih, List.forall_mem_cons]

mutual

/-- A value with null for every missing value in it. -/
def defined : Value → Value
  | .undefined => .null
  | .list items => .list (definedItems items)
  | .map entries => .map (definedEntries entries)
  | v => v

def definedItems : List Value → List Value
  | [] => []
  | v :: rest => v.defined :: definedItems rest

def definedEntries : List (List Char × Value) → List (List Char × Value)
  | [] => []
  | (key, v) :: rest => (key, v.defined) :: definedEntries rest

end

/-! ## 3. Trees of values -/

/-- The piece of a string that a character becomes: a control character without an escape of its own
becomes a unit. -/
def pieceOf (c : Char) : Config.Piece :=
  if c.toNat < 0x20 ∧ c ∉ escapes.map Prod.snd then .unit c.toNat else .char c

/-- The number that an integer becomes. -/
def numberOf (n : Int64) : Number :=
  { negative := decide (n.toInt < 0), whole := Nat.toDigits 10 n.toInt.natAbs, fraction := [],
    power := 0 }

mutual

/-- The tree of a value.  A double has none of its own. -/
def tree : Value → Json
  | .undefined | .null | .float _ => .null
  | .bool b => .bool b
  | .int n => .number (numberOf n)
  | .text s => .string (s.map pieceOf)
  | .list items => .array (itemTrees items)
  | .map entries => .object (entryTrees entries)

def itemTrees : List Value → List Json
  | [] => []
  | v :: rest => v.tree :: itemTrees rest

def entryTrees : List (List Char × Value) → List (List Config.Piece × Json)
  | [] => []
  | (key, v) :: rest => (key.map pieceOf, v.tree) :: entryTrees rest

end

/-! ## 4. Strings -/

theorem mem_hexDigits {i : Nat} (h : i < 16) : (Nat.digitChar i, i) ∈ hexDigits := by
  revert i
  decide

/-- The code of a control character has two leading zeros. -/
theorem jsonCode_ofNat {k : Nat} (h : k < 0x20) : jsonCode (Char.ofNat k) =
    ['\\', 'u', '0', '0', Nat.digitChar (k / 16), Nat.digitChar (k % 16)] := by
  revert k
  decide

/-- A control character by its code. -/
theorem pieceText_jsonCode {c : Char} (h : c.toNat < 0x20) :
    PieceText (.unit c.toNat) (jsonCode c) := by
  have hcode := jsonCode_ofNat h
  rw [Char.ofNat_toNat] at hcode
  have hzero : ('0', 0) ∈ hexDigits := by decide
  have hhigh : (Nat.digitChar (c.toNat / 16), c.toNat / 16) ∈ hexDigits := mem_hexDigits (by omega)
  have hlow : (Nat.digitChar (c.toNat % 16), c.toNat % 16) ∈ hexDigits := mem_hexDigits (by omega)
  have htext := PieceText.unit hzero hzero hhigh hlow
  have hvalue : 4096 * 0 + 256 * 0 + 16 * (c.toNat / 16) + c.toNat % 16 = c.toNat := by omega
  rwa [hvalue, ← hcode] at htext

/-- The characters that are written as a backslash and a letter or mark. -/
def namedChars : List Char := ['"', '\\', '\n', '\r', '\t', '\x08', '\x0c']

theorem jsonChar_of_not_named {c : Char} (h : c ∉ namedChars) :
    jsonChar c = if c.toNat < 0x20 then jsonCode c else [c] := by
  simp only [namedChars, List.mem_cons, List.not_mem_nil, or_false, not_or] at h
  simp [jsonChar, h]

/-- A control character with an escape is one of them. -/
theorem mem_namedChars {c : Char} (h : c ∈ escapes.map Prod.snd) (hcontrol : c.toNat < 0x20) :
    c ∈ namedChars := by
  have hall : ∀ d ∈ escapes.map Prod.snd, d.toNat < 0x20 → d ∈ namedChars :=
    Text.forall_mem_of_all (by decide)
  exact hall c h hcontrol

/-- **A character is written as its piece.** -/
theorem pieceText_jsonChar (c : Char) : PieceText (pieceOf c) (jsonChar c) := by
  by_cases hnamed : c ∈ namedChars
  · have hescape {e : Char} (h : (e, c) ∈ escapes) : PieceText (pieceOf c) ['\\', e] := by
      have hmem : c ∈ escapes.map Prod.snd := List.mem_map.2 ⟨_, h, rfl⟩
      rw [pieceOf, if_neg fun hc => hc.2 hmem]
      exact .escape h
    simp only [namedChars, List.mem_cons, List.not_mem_nil, or_false] at hnamed
    rcases hnamed with rfl | rfl | rfl | rfl | rfl | rfl | rfl <;> exact hescape (by decide)
  · rw [jsonChar_of_not_named hnamed]
    by_cases hcontrol : c.toNat < 0x20
    · have hmem : c ∉ escapes.map Prod.snd := fun hmem => hnamed (mem_namedChars hmem hcontrol)
      rw [if_pos hcontrol, pieceOf, if_pos ⟨hcontrol, hmem⟩]
      exact pieceText_jsonCode hcontrol
    · rw [if_neg hcontrol, pieceOf, if_neg fun hc => hcontrol hc.1]
      refine .char (by omega) ?_ ?_
      · rintro rfl
        exact hnamed (by decide)
      · rintro rfl
        exact hnamed (by decide)

theorem piecesText_map (s : List Char) : PiecesText (s.map pieceOf) (s.flatMap jsonChar) := by
  induction s with
  | nil => exact .nil
  | cons c s ih => exact .cons (pieceText_jsonChar c) ih

/-- **The pieces of a text denote it.** -/
theorem denotes_map (s : List Char) : Denotes (s.map pieceOf) s := by
  induction s with
  | nil => exact .nil
  | cons c s ih =>
    rw [List.map_cons, pieceOf]
    split
    · exact .unit c ih
    · exact .char c ih

theorem decode?_map (s : List Char) : decode? (s.map pieceOf) = some s :=
  decode?_of_denotes (denotes_map s)

/-! ## 5. Numbers -/

/-- An integer is written as a sign and digits. -/
theorem intText_eq (n : Int64) : intText n =
    (if decide (n.toInt < 0) = true then ['-'] else []) ++ Nat.toDigits 10 n.toInt.natAbs := by
  rw [intText]
  by_cases hneg : n.toInt < 0 <;> simp [hneg]

/-- The sign and the digits say which integer it is. -/
theorem ofDigits_toDigits (n : Int64) :
    (if decide (n.toInt < 0) = true then -(ofDigits (Nat.toDigits 10 n.toInt.natAbs) : Int)
      else ofDigits (Nat.toDigits 10 n.toInt.natAbs)) = n.toInt := by
  simp only [ofDigits, Nat.ofDigitChars_ten_toDigits, decide_eq_true_eq]
  split <;> omega

theorem fitInt?_toInt (n : Int64) : fitInt? n.toInt = some n := by
  rw [fitInt?, if_pos ⟨n.minValue_le_toInt, n.toInt_le⟩, Int64.ofInt_toInt]

theorem numberText_intText (n : Int64) : NumberText (numberOf n) (intText n) := by
  have htext := NumberText.mk (decide (n.toInt < 0)) (wholeText_toDigits n.toInt.natAbs) .missing
    .missing
  rw [List.append_nil, List.append_nil] at htext
  rwa [← intText_eq] at htext

theorem toInt?_numberOf (n : Int64) : (numberOf n).toInt? = some n := by
  have hvalue : (if (numberOf n).negative then -(ofDigits (numberOf n).whole : Int)
      else ofDigits (numberOf n).whole) = n.toInt := ofDigits_toDigits n
  rw [Number.toInt?, if_pos ⟨rfl, rfl⟩, hvalue, fitInt?_toInt]

/-! ## 6. Values -/

-- The induction is over values, items and entries at once.  The blank after a comma belongs to the
-- next item, so blanks stand before items and entries.
mutual

theorem spells_json (v : Value) (hv : v.isFloatFree = true) : Spells (.value v.tree) v.json := by
  match v with
  | .undefined => exact .null
  | .null => exact .null
  | .bool b => exact .bool b
  | .int n => exact .number (numberText_intText n)
  | .float x => cases hv
  | .text s => exact .string (piecesText_map s)
  | .list items =>
    by_cases hne : items = []
    · subst hne
      exact .emptyArray blanks_nil
    · exact .array (spells_jsonItems items hne hv [] blanks_nil)
  | .map entries =>
    by_cases hne : entries = []
    · subst hne
      exact .emptyObject blanks_nil
    · exact .object (spells_jsonEntries entries hne hv [] blanks_nil)

theorem spells_jsonItems (items : List Value) (hne : items ≠ []) (hv : itemsFloatFree items = true)
    (ws : List Char) (hws : Blanks ws) :
    Spells (.items (itemTrees items)) (ws ++ jsonItems items) := by
  match items with
  | [] => exact absurd rfl hne
  | [v] =>
    rw [itemsFloatFree, Bool.and_eq_true] at hv
    have hlast := Spells.lastItem hws (spells_json v hv.1) blanks_nil
    rwa [List.append_nil] at hlast
  | v :: w :: rest =>
    rw [itemsFloatFree, Bool.and_eq_true] at hv
    have hmore := spells_jsonItems (w :: rest) (by simp) hv.2 [' '] blanks_one
    have hitems := Spells.item hws (spells_json v hv.1) blanks_nil hmore
    simp only [List.append_nil, List.append_assoc] at hitems
    simp only [jsonItems, List.append_assoc]
    exact hitems

theorem spells_jsonEntries (entries : List (List Char × Value)) (hne : entries ≠ [])
    (hv : entriesFloatFree entries = true) (ws : List Char) (hws : Blanks ws) :
    Spells (.members (entryTrees entries)) (ws ++ jsonEntries entries) := by
  match entries with
  | [] => exact absurd rfl hne
  | [(key, v)] =>
    rw [entriesFloatFree, Bool.and_eq_true] at hv
    have hlast := Spells.lastMember hws (piecesText_map key) blanks_nil blanks_one
      (spells_json v hv.1) blanks_nil
    simp only [List.append_nil, List.append_assoc, List.cons_append, List.nil_append] at hlast
    simp only [jsonEntries, jsonText, List.append_assoc, List.cons_append]
    exact hlast
  | (key, v) :: next :: rest =>
    rw [entriesFloatFree, Bool.and_eq_true] at hv
    have hmore := spells_jsonEntries (next :: rest) (by simp) hv.2 [' '] blanks_one
    have hmembers := Spells.member hws (piecesText_map key) blanks_nil blanks_one
      (spells_json v hv.1) blanks_nil hmore
    simp only [List.append_nil, List.append_assoc, List.cons_append, List.nil_append] at hmembers
    simp only [jsonEntries, jsonText, List.append_assoc, List.cons_append]
    exact hmembers

end

-- The same induction for what the trees denote.
mutual

theorem toValue?_tree (v : Value) (hv : v.isFloatFree = true) :
    v.tree.toValue? = some v.defined := by
  match v with
  | .undefined => rfl
  | .null => rfl
  | .bool b => rfl
  | .int n =>
    rw [tree, Json.toValue?, toInt?_numberOf]
    rfl
  | .float x => cases hv
  | .text s =>
    rw [tree, Json.toValue?, decode?_map]
    rfl
  | .list items =>
    rw [tree, Json.toValue?, itemValues?_itemTrees items hv, defined]
    rfl
  | .map entries =>
    rw [tree, Json.toValue?, memberValues?_entryTrees entries hv, defined]
    rfl

theorem itemValues?_itemTrees (items : List Value) (hv : itemsFloatFree items = true) :
    itemValues? (itemTrees items) = some (definedItems items) := by
  match items with
  | [] => rfl
  | v :: rest =>
    rw [itemsFloatFree, Bool.and_eq_true] at hv
    rw [itemTrees, itemValues?, toValue?_tree v hv.1, itemValues?_itemTrees rest hv.2, definedItems]
    rfl

theorem memberValues?_entryTrees (entries : List (List Char × Value))
    (hv : entriesFloatFree entries = true) :
    memberValues? (entryTrees entries) = some (definedEntries entries) := by
  match entries with
  | [] => rfl
  | (key, v) :: rest =>
    rw [entriesFloatFree, Bool.and_eq_true] at hv
    rw [entryTrees, memberValues?, decode?_map, toValue?_tree v hv.1,
      memberValues?_entryTrees rest hv.2, definedEntries]
    rfl

end

mutual

/-- The missing value is written like null. -/
theorem json_defined (v : Value) : v.defined.json = v.json := by
  match v with
  | .undefined | .null | .bool _ | .int _ | .float _ | .text _ => rfl
  | .list items => rw [defined, json, json, jsonItems_definedItems items]
  | .map entries => rw [defined, json, json, jsonEntries_definedEntries entries]

theorem jsonItems_definedItems (items : List Value) :
    jsonItems (definedItems items) = jsonItems items := by
  match items with
  | [] => rfl
  | [v] => exact json_defined v
  | v :: w :: rest =>
    have hmore := jsonItems_definedItems (w :: rest)
    simp only [definedItems, jsonItems, json_defined v] at hmore ⊢
    rw [hmore]

theorem jsonEntries_definedEntries (entries : List (List Char × Value)) :
    jsonEntries (definedEntries entries) = jsonEntries entries := by
  match entries with
  | [] => rfl
  | [(key, v)] => simp only [definedEntries, jsonEntries, json_defined v]
  | (key, v) :: (key', w) :: rest =>
    have hmore := jsonEntries_definedEntries ((key', w) :: rest)
    simp only [definedEntries, jsonEntries, json_defined v] at hmore ⊢
    rw [hmore]

end

/-- The JSON of a value is a document, without blanks around it. -/
theorem isDocument_json {v : Value} (hv : v.isFloatFree = true) : IsDocument v.tree v.json :=
  ⟨[], v.json, [], blanks_nil, spells_json v hv, blanks_nil, by simp⟩

/-- **The JSON of a value denotes it.**  For a value without doubles it is a text of the grammar,
has one tree, and is read as this tree; the tree denotes the value, with null for every missing
value.  Two values have the same JSON if and only if they are the same in this sense. -/
theorem toJson_decodes (v w : Value) (hv : v.isFloatFree = true) (hw : w.isFloatFree = true) :
    (∃ text tree, v.toJson = .text text ∧ IsDocument tree text ∧
      (∀ other, IsDocument other text → other = tree) ∧ document? text = some tree ∧
      tree.toValue? = some v.defined) ∧
    (v.toJson = w.toJson ↔ v.defined = w.defined) := by
  have hdocument := isDocument_json hv
  constructor
  · exact ⟨v.json, v.tree, rfl, hdocument, fun other hother => hother.unique hdocument,
      document?_of_isDocument hdocument, toValue?_tree v hv⟩
  constructor
  · intro h
    injection h with htexts
    rw [htexts] at hdocument
    have htrees := hdocument.unique (isDocument_json hw)
    have hvalue := toValue?_tree v hv
    rw [htrees, toValue?_tree w hw] at hvalue
    injection hvalue with hvalue
    exact hvalue.symm
  · intro h
    rw [toJson, toJson, ← json_defined v, ← json_defined w, h]

/-- A value with control characters, marks, characters beyond ASCII, a key that is there twice and
the least integer; null or the missing value stands for `gap`. -/
def trickyValue (gap : Value) : Value :=
  .map [("\"\x01\n\x08é".toList, .list [gap, .int Int64.minValue, .text "\\\t\x1f/".toList]),
    ("\"\x01\n\x08é".toList, .map [([], gap)])]

/-- The theorem at two values that differ only in what is missing. -/
theorem toJson_decodes_tricky :
    (∃ text tree, (trickyValue .undefined).toJson = .text text ∧ IsDocument tree text ∧
      (∀ other, IsDocument other text → other = tree) ∧ document? text = some tree ∧
      tree.toValue? = some (trickyValue .null)) ∧
    (trickyValue .undefined).toJson = (trickyValue .null).toJson := by
  obtain ⟨hdocument, hsame⟩ := toJson_decodes (trickyValue .undefined) (trickyValue .null) rfl rfl
  exact ⟨hdocument, hsame.2 rfl⟩

end Value

end TemplateCompiler
