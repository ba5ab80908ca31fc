import Mathlib.Algebra.Group.Nat.Defs
import TemplateCompiler.Config.Reader
import TemplateCompiler.Proofs.Config.Grammar

/-! # Strict readers of configurations

What is known of a reader of configurations without looking into it: what it gives for the texts
of the JSON grammar that stay within the limits which every reader has (`Json.Fits`).  It skips the
keys that it is not asked for, takes a missing value and null for no entry, and refuses a key that
occurs twice (`Reader.IsStrict`).

The grammar names no reader, so these are the same questions for each of them.  The reader of this
library is one that answers them so (`isStrict_readSlice`).
-/

namespace TemplateCompiler.Config

open Text

/-! ## 1. Limits -/

/-- How many arrays and objects may stand around the innermost value, the document among them. -/
def nestingLimit : Nat := 127

/-- That a number is a whole number of 64 bits. -/
def Number.IsWhole (n : Number) : Prop :=
  n.fraction = [] ∧ n.power = 0 ∧ decimalValue n.whole < 2 ^ 64

/-- That every reader takes a value which is nested at most so many times: its strings denote texts,
and its numbers are whole. -/
inductive Json.Fits : Nat → Json → Prop
  | null {depth : Nat} : Fits depth .null
  | bool {depth : Nat} (b : Bool) : Fits depth (.bool b)
  | number {depth : Nat} {n : Number} (h : n.IsWhole) : Fits depth (.number n)
  | string {depth : Nat} {ps : List Piece} {s : List Char} (h : Denotes ps s) :
      Fits depth (.string ps)
  | array {depth : Nat} {items : List Json} (h : ∀ v ∈ items, Fits depth v) :
      Fits (depth + 1) (.array items)
  | object {depth : Nat} {members : List (List Piece × Json)}
      (hkeys : ∀ m ∈ members, ∃ key, Denotes m.1 key) (h : ∀ m ∈ members, Fits depth m.2) :
      Fits (depth + 1) (.object members)

/-- The values that members have under a key, in order. -/
inductive ValuesUnder (key : List Char) : List (List Piece × Json) → List Json → Prop
  | nil : ValuesUnder key [] []
  | here {ps : List Piece} (hps : Denotes ps key) (v : Json) {members : List (List Piece × Json)}
      {values : List Json} (h : ValuesUnder key members values) :
      ValuesUnder key ((ps, v) :: members) (v :: values)
  | there {ps : List Piece} {other : List Char} (hps : Denotes ps other) (hne : other ≠ key)
      (v : Json) {members : List (List Piece × Json)} {values : List Json}
      (h : ValuesUnder key members values) : ValuesUnder key ((ps, v) :: members) values

/-! ## 2. Strict readers -/

/-- That a text is a configuration which every reader takes, with these values under the key of the
chat template. -/
def Stores (text : List Char) (values : List Json) : Prop :=
  ∃ members, IsDocument (.object members) text ∧ (Json.object members).Fits nestingLimit ∧
    ValuesUnder templateKey members values

/-- What a strict reader gives for a configuration, by the values under the key. -/
structure Reader.IsStrict (read : Reader) : Prop where
  /-- A missing key is no fault. -/
  missing {text : List Char} (h : Stores text []) : read text = some ⟨none⟩
  /-- Null stands for no value. -/
  null {text : List Char} (h : Stores text [.null]) : read text = some ⟨none⟩
  /-- A string is given with the text that it denotes. -/
  string {text : List Char} {ps : List Piece} {s : List Char} (h : Stores text [.string ps])
    (hs : Denotes ps s) : read text = some ⟨some (.text s)⟩
  /-- Any other value is given as such. -/
  other {text : List Char} {v : Json} (h : Stores text [v]) (hnull : v ≠ .null)
    (hstring : ∀ ps, v ≠ .string ps) : read text = some ⟨some .other⟩
  /-- No key may be repeated. -/
  repeated {text : List Char} {values : List Json} (h : Stores text values)
    (hlength : 2 ≤ values.length) : read text = none

/-! ## 3. What fits can be used -/

theorem le_ofDigitChars (ds : List Char) (kept : Nat) : kept ≤ Nat.ofDigitChars 10 ds kept := by
  induction ds generalizing kept with
  | nil => exact Nat.le_refl kept
  | cons d ds ih =>
    rw [Nat.ofDigitChars_cons]
    exact Nat.le_trans (by omega) (ih _)

/-- Digits that fit are all kept. -/
theorem foldl_keepDigit (ds : List Char) (kept : Nat)
    (h : Nat.ofDigitChars 10 ds kept ≤ significandLimit) :
    ds.foldl keepDigit (kept, 0) = (Nat.ofDigitChars 10 ds kept, 0) := by
  induction ds generalizing kept with
  | nil => rfl
  | cons d ds ih =>
    rw [Nat.ofDigitChars_cons] at h ⊢
    have hdigit : ofDigits [d] = d.toNat - '0'.toNat := by
      rw [ofDigits, Nat.ofDigitChars_cons, Nat.ofDigitChars_nil]
      omega
    have hnext : 10 * kept + ofDigits [d] ≤ significandLimit := by
      rw [hdigit]
      exact Nat.le_trans (le_ofDigitChars ds _) h
    rw [List.foldl_cons, keepDigit, if_pos ⟨rfl, hnext⟩, hdigit]
    exact ih _ h

/-- A whole number of 64 bits is in range. -/
theorem Number.IsWhole.inRange {n : Number} (h : n.IsWhole) : n.inRange = true := by
  obtain ⟨hfraction, hpower, hvalue⟩ := h
  rw [decimalValue, ← Nat.ofDigitChars_eq_foldl] at hvalue
  have hwhole : wholeSignificand n.whole = (Nat.ofDigitChars 10 n.whole 0, 0) :=
    foldl_keepDigit _ 0 (Nat.le_of_lt_succ hvalue)
  simp [Number.inRange, hwhole, hfraction, hpower, fractionSignificand]

theorem itemsUsable_iff {depth : Nat} {items : List Json} :
    itemsUsable depth items = true ↔ ∀ v ∈ items, v.isUsable depth = true := by
  induction items with
  | nil => simp [itemsUsable]
  | cons v rest ih => rw [itemsUsable, Bool.and_eq_true, ih, List.forall_mem_cons]

theorem membersUsable_iff {depth : Nat} {members : List (List Piece × Json)} :
    membersUsable depth members = true ↔
      ∀ m ∈ members, (decode? m.1).isSome = true ∧ m.2.isUsable depth = true := by
  induction members with
  | nil => simp [membersUsable]
  | cons m rest ih =>
    rw [membersUsable, Bool.and_eq_true, Bool.and_eq_true, ih, List.forall_mem_cons]

/-- **What fits can be used.** -/
theorem Json.Fits.isUsable {depth : Nat} {v : Json} (h : v.Fits depth) :
    v.isUsable depth = true := by
  induction h with
  | null => rfl
  | bool b => rfl
  | number h => exact h.inRange
  | string h =>
    rw [Json.isUsable, decode?_of_denotes h]
    rfl
  | array _ ih =>
    rw [Json.isUsable, Nat.add_sub_cancel, itemsUsable_iff.2 ih, decide_eq_true (Nat.succ_pos _)]
    rfl
  | @object depth members hkeys _ ih =>
    have hmembers : membersUsable depth members = true := by
      refine membersUsable_iff.2 fun m hm => ⟨?_, ih m hm⟩
      obtain ⟨key, hkey⟩ := hkeys m hm
      rw [decode?_of_denotes hkey]
      rfl
    rw [Json.isUsable, Nat.add_sub_cancel, hmembers, decide_eq_true (Nat.succ_pos _)]
    rfl

/-! ## 4. The reader of this library -/

theorem ValuesUnder.decodedMembers? {key : List Char} {members : List (List Piece × Json)}
    {values : List Json} (h : ValuesUnder key members values) :
    ∃ decoded, decodedMembers? members = some decoded ∧
      (decoded.filter (·.1 == key)).map Prod.snd = values := by
  induction h with
  | nil => exact ⟨[], rfl, rfl⟩
  | @here ps hps v _ _ _ ih =>
    obtain ⟨decoded, hdecoded, hvalues⟩ := ih
    rw [Config.decodedMembers?] at hdecoded ⊢
    refine ⟨(key, v) :: decoded, ?_, ?_⟩
    · simp only [List.mapM_cons, decode?_of_denotes hps, hdecoded]
      rfl
    · simp [hvalues]
  | @there ps other hps hne v _ _ _ ih =>
    obtain ⟨decoded, hdecoded, hvalues⟩ := ih
    rw [Config.decodedMembers?] at hdecoded ⊢
    refine ⟨(other, v) :: decoded, ?_, ?_⟩
    · simp only [List.mapM_cons, decode?_of_denotes hps, hdecoded]
      rfl
    · simp [hvalues, hne]

theorem ValuesUnder.exists_mem {key : List Char} {members : List (List Piece × Json)}
    {values : List Json} (h : ValuesUnder key members values) {v : Json} (hv : v ∈ values) :
    ∃ m ∈ members, m.2 = v := by
  induction h with
  | nil => cases hv
  | here hps w _ ih =>
    rcases List.mem_cons.1 hv with rfl | hv
    · exact ⟨_, List.mem_cons_self, rfl⟩
    · obtain ⟨m, hm, heq⟩ := ih hv
      exact ⟨m, List.mem_cons_of_mem _ hm, heq⟩
  | there hps hne w _ ih =>
    obtain ⟨m, hm, heq⟩ := ih hv
    exact ⟨m, List.mem_cons_of_mem _ hm, heq⟩

/-- The values under the key fit as well, in a document less. -/
theorem Stores.fits {text : List Char} {values : List Json} (h : Stores text values) {v : Json}
    (hv : v ∈ values) : v.Fits depthLimit := by
  obtain ⟨members, -, hfits, hvalues⟩ := h
  obtain ⟨m, hm, rfl⟩ := hvalues.exists_mem hv
  cases hfits with
  | object _ hmembers => exact hmembers m hm

/-- What is made of the values under the key. -/
def sliceOfValues : List Json → Option Slice
  | [] => some ⟨none⟩
  | [v] => sliceOf v
  | _ :: _ :: _ => none

/-- Nothing but the values under the key matters to the reader. -/
theorem Stores.readSlice_eq {text : List Char} {values : List Json} (h : Stores text values) :
    readSlice text = sliceOfValues values := by
  obtain ⟨members, hdocument, -, hvalues⟩ := h
  obtain ⟨decoded, hdecoded, rfl⟩ := hvalues.decodedMembers?
  rw [readSlice, document?_of_isDocument hdocument]
  simp only [hdecoded]
  cases decoded.filter (·.1 == templateKey) with
  | nil => rfl
  | cons first more =>
    cases more with
    | nil => rfl
    | cons second more => rfl

/-- **The reader of this library is strict.** -/
theorem isStrict_readSlice : readSlice.IsStrict where
  missing h := h.readSlice_eq
  null h := h.readSlice_eq
  string h hs := by
    rw [h.readSlice_eq]
    simp only [sliceOfValues, sliceOf, (h.fits List.mem_cons_self).isUsable, decode?_of_denotes hs]
    rfl
  other {text v} h hnull hstring := by
    rw [h.readSlice_eq]
    simp only [sliceOfValues, sliceOf, (h.fits List.mem_cons_self).isUsable]
    cases v with
    | null => exact absurd rfl hnull
    | string ps => exact absurd rfl (hstring ps)
    | _ => rfl
  repeated {text values} h hlength := by
    rw [h.readSlice_eq]
    match values, hlength with
    | _ :: _ :: _, _ => rfl

end TemplateCompiler.Config
