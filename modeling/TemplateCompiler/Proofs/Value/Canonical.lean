import Mathlib.Data.List.Nodup
import Mathlib.Data.List.Perm.Subperm
import TemplateCompiler.Proofs.Value.Decoding
import TemplateCompiler.Proofs.Value.TextOrder
import TemplateCompiler.Proofs.Value.WholeNumbers
import TemplateCompiler.Value.Access

/-! # Equality and canonical forms

When are two values equal?  A value without doubles whose maps have no key twice is *plain*
(`Plain`).  Plain values are equal exactly if they have the same canonical form
(`equal_iff_canonical`): truth values become integers, and the entries of every map are put in the
order of their keys.
-/

namespace TemplateCompiler.Value

/-! ## 1. Plain values -/

mutual

/-- Whether no map in a value, at any depth, has a key twice. -/
def hasDistinctKeys : Value → Bool
  | .list items => itemsDistinctKeys items
  | .map entries => decide (entries.map Prod.fst).Nodup && entriesDistinctKeys entries
  | _ => true

def itemsDistinctKeys : List Value → Bool
  | [] => true
  | v :: rest => v.hasDistinctKeys && itemsDistinctKeys rest

def entriesDistinctKeys : List (List Char × Value) → Bool
  | [] => true
  | (_, v) :: rest => v.hasDistinctKeys && entriesDistinctKeys rest

end

/-- A value without doubles and without a key that is there twice. -/
structure Plain (v : Value) : Prop where
  floatFree : v.isFloatFree = true
  distinctKeys : v.hasDistinctKeys = true

theorem itemsDistinctKeys_iff {items : List Value} :
    itemsDistinctKeys items = true ↔ ∀ v ∈ items, v.hasDistinctKeys = true := by
  induction items with
  | nil => simp [itemsDistinctKeys]
  | cons v rest ih => rw [itemsDistinctKeys, Bool.and_eq_true, ih, List.forall_mem_cons]

theorem entriesDistinctKeys_iff {entries : List (List Char × Value)} :
    entriesDistinctKeys entries = true ↔ ∀ e ∈ entries, e.2.hasDistinctKeys = true := by
  induction entries with
  | nil => simp [entriesDistinctKeys]
  | cons e rest ih => rw [entriesDistinctKeys, Bool.and_eq_true, ih, List.forall_mem_cons]

theorem plain_list_iff {items : List Value} : Plain (.list items) ↔ ∀ v ∈ items, Plain v := by
  have hfree : (Value.list items).isFloatFree = true ↔ _ := itemsFloatFree_iff
  have hkeys : (Value.list items).hasDistinctKeys = true ↔ _ := itemsDistinctKeys_iff
  constructor
  · intro h v hv
    exact ⟨hfree.1 h.floatFree v hv, hkeys.1 h.distinctKeys v hv⟩
  · intro h
    exact ⟨hfree.2 fun v hv => (h v hv).floatFree, hkeys.2 fun v hv => (h v hv).distinctKeys⟩

theorem plain_map_iff {entries : List (List Char × Value)} :
    Plain (.map entries) ↔ (entries.map Prod.fst).Nodup ∧ ∀ e ∈ entries, Plain e.2 := by
  have hfree : (Value.map entries).isFloatFree = true ↔ _ := entriesFloatFree_iff
  have hkeys : (Value.map entries).hasDistinctKeys = true ↔
      (entries.map Prod.fst).Nodup ∧ ∀ e ∈ entries, e.2.hasDistinctKeys = true := by
    rw [hasDistinctKeys, Bool.and_eq_true, decide_eq_true_iff, entriesDistinctKeys_iff]
  constructor
  · intro h
    obtain ⟨hnodup, hinner⟩ := hkeys.1 h.distinctKeys
    exact ⟨hnodup, fun e he => ⟨hfree.1 h.floatFree e he, hinner e he⟩⟩
  · rintro ⟨hnodup, h⟩
    exact ⟨hfree.2 fun e he => (h e he).floatFree,
      hkeys.2 ⟨hnodup, fun e he => (h e he).distinctKeys⟩⟩

/-! ## 2. Canonical forms -/

/-- The entries of a map in the order of their keys. -/
def sortEntries (entries : List (List Char × Value)) : List (List Char × Value) :=
  entries.mergeSort fun d e => atMost d.1 e.1

mutual

/-- A value with integers for truth values and with all entries in the order of their keys. -/
def canonical : Value → Value
  | .bool b => .int (boolInt b)
  | .list items => .list (canonicalItems items)
  | .map entries => .map (sortEntries (canonicalEntries entries))
  | v => v

def canonicalItems : List Value → List Value
  | [] => []
  | v :: rest => v.canonical :: canonicalItems rest

def canonicalEntries : List (List Char × Value) → List (List Char × Value)
  | [] => []
  | (key, v) :: rest => (key, v.canonical) :: canonicalEntries rest

end

theorem canonicalItems_eq_map (items : List Value) :
    canonicalItems items = items.map canonical := by
  induction items with
  | nil => rfl
  | cons v rest ih => rw [canonicalItems, ih, List.map_cons]

theorem canonicalEntries_eq_map (entries : List (List Char × Value)) :
    canonicalEntries entries = entries.map fun e => (e.1, e.2.canonical) := by
  induction entries with
  | nil => rfl
  | cons e rest ih => rw [canonicalEntries, ih, List.map_cons]

theorem keys_canonicalEntries (entries : List (List Char × Value)) :
    (canonicalEntries entries).map Prod.fst = entries.map Prod.fst := by
  rw [canonicalEntries_eq_map, List.map_map]
  rfl

/-- **Sorting tells entries apart up to their order.** -/
theorem sortEntries_eq_iff {xs ys : List (List Char × Value)} (h : (xs.map Prod.fst).Nodup) :
    sortEntries xs = sortEntries ys ↔ xs.Perm ys := by
  have hperm (zs : List (List Char × Value)) : (sortEntries zs).Perm zs := List.mergeSort_perm zs _
  have hsorted (zs : List (List Char × Value)) :
      (sortEntries zs).Pairwise fun d e => atMost d.1 e.1 = true :=
    List.pairwise_mergeSort
      (fun (d e f : List Char × Value) (hde : atMost d.1 e.1 = true) => @atMost_trans d.1 e.1 f.1 hde)
      (fun (d e : List Char × Value) => atMost_total d.1 e.1) zs
  constructor
  · intro heq
    exact (hperm xs).symm.trans (heq ▸ hperm ys)
  · intro hxy
    refine List.Perm.eq_of_pairwise ?_ (hsorted xs) (hsorted ys)
      ((hperm xs).trans (hxy.trans (hperm ys).symm))
    intro d e hd he hde hed
    -- two entries at the same place have the same key, so they are one entry
    have hd : d ∈ xs := (hperm xs).mem_iff.1 hd
    have he : e ∈ xs := hxy.mem_iff.2 ((hperm ys).mem_iff.1 he)
    exact List.inj_on_of_nodup_map h hd he (eq_of_atMost hde hed)

/-! ## 3. What equality asks of lists and maps -/

theorem equal_list_iff {xs ys : List Value} :
    equal (.list xs) (.list ys) = true ↔ List.Forall₂ (fun x y => equal x y = true) xs ys := by
  rw [equal]
  induction xs generalizing ys with
  | nil => cases ys <;> simp [equalItems]
  | cons x xs ih => cases ys <;> simp [equalItems, ih]

theorem equalEntries_iff {xs ys : List (List Char × Value)} :
    equalEntries xs ys = true ↔
      ∀ e ∈ xs, ∃ w, lookup? ys e.1 = some w ∧ equal w e.2 = true := by
  induction xs with
  | nil => simp [equalEntries]
  | cons e xs ih =>
    obtain ⟨key, v⟩ := e
    rw [equalEntries, Bool.and_eq_true, ih, List.forall_mem_cons]
    refine and_congr_left' ?_
    split
    · rename_i w hfound
      simp [hfound]
    · rename_i hfound
      simp [hfound]

theorem equal_map_iff {xs ys : List (List Char × Value)} :
    equal (.map xs) (.map ys) = true ↔ xs.length = ys.length ∧
      ∀ e ∈ xs, ∃ w, lookup? ys e.1 = some w ∧ equal w e.2 = true := by
  rw [equal, Bool.and_eq_true, beq_iff_eq, equalEntries_iff]

/-! ## 4. Distinct keys -/

theorem mem_of_lookup? {entries : List (List Char × Value)} {key : List Char} {v : Value}
    (h : lookup? entries key = some v) : (key, v) ∈ entries := by
  obtain ⟨⟨k, w⟩, hfind, rfl⟩ := Option.map_eq_some_iff.1 h
  have hfound := List.find?_some hfind
  obtain rfl : k = key := eq_of_beq hfound
  exact List.mem_of_find?_eq_some hfind

theorem exists_lookup? {entries : List (List Char × Value)} {key : List Char}
    (h : key ∈ entries.map Prod.fst) : ∃ v, lookup? entries key = some v := by
  obtain ⟨e, he, rfl⟩ := List.mem_map.1 h
  refine Option.isSome_iff_exists.1 ?_
  rw [lookup?, Option.isSome_map, List.find?_isSome]
  exact ⟨e, he, beq_self_eq_true e.1⟩

/-- If no key is there twice, every entry is found. -/
theorem lookup?_eq_some_iff {entries : List (List Char × Value)} {key : List Char} {v : Value}
    (h : (entries.map Prod.fst).Nodup) : lookup? entries key = some v ↔ (key, v) ∈ entries := by
  refine ⟨mem_of_lookup?, fun hmem => ?_⟩
  obtain ⟨w, hfound⟩ := exists_lookup? (List.mem_map.2 ⟨_, hmem, rfl⟩)
  have heq : (key, w) = (key, v) := List.inj_on_of_nodup_map h (mem_of_lookup? hfound) hmem rfl
  rw [hfound, (Prod.mk.inj heq).2]

theorem perm_iff_of_nodup {α : Type} {xs ys : List α} (h : xs.Nodup) :
    xs.Perm ys ↔ xs.length = ys.length ∧ ∀ x ∈ xs, x ∈ ys := by
  constructor
  · exact fun hperm => ⟨hperm.length_eq, fun _ => hperm.mem_iff.1⟩
  · rintro ⟨hlength, hsubset⟩
    exact (h.subperm hsubset).perm_of_length_le (Nat.le_of_eq hlength.symm)

/-! ## 5. Equality is equality of canonical forms -/

theorem canonical_of_asInt? {a : Value} {m : Int64} (h : asInt? a = some m) :
    a.canonical = .int m := by
  cases a <;> cases h <;> rfl

/-- Integers and truth values are equal if they count as the same integer. -/
theorem equal_integers {a b : Value} {m n : Int64} (ha : asInt? a = some m)
    (hb : asInt? b = some n) : equal a b = true ↔ m = n := by
  cases a <;> cases ha <;> cases b <;> cases hb
  · simp [equal, asFloat?, intFloat_beq_boolInt]
  · simp [equal, asFloat?, intFloat_beq_boolInt]
  · simp [equal, asFloat?, intFloat_beq_boolInt]
  · simp [equal]

/-- One step of the comparison of two lists. -/
theorem equal_list_canonical {xs ys : List Value}
    (h : ∀ x ∈ xs, ∀ y ∈ ys, (equal x y = true ↔ x.canonical = y.canonical)) :
    equal (.list xs) (.list ys) = true ↔
      (Value.list xs).canonical = (Value.list ys).canonical := by
  rw [equal_list_iff, canonical, canonical, list.injEq, canonicalItems_eq_map,
    canonicalItems_eq_map]
  induction xs generalizing ys with
  | nil => cases ys <;> simp
  | cons x xs ih =>
    cases ys with
    | nil => simp
    | cons y ys =>
      rw [List.forall₂_cons, List.map_cons, List.map_cons, List.cons.injEq,
        h x (by simp) y (by simp),
        ih fun x hx y hy => h x (List.mem_cons_of_mem _ hx) y (List.mem_cons_of_mem _ hy)]

/-- One step of the comparison of two maps. -/
theorem equal_map_canonical {xs ys : List (List Char × Value)} (hxs : (xs.map Prod.fst).Nodup)
    (hys : (ys.map Prod.fst).Nodup)
    (h : ∀ d ∈ xs, ∀ e ∈ ys, (equal e.2 d.2 = true ↔ e.2.canonical = d.2.canonical)) :
    equal (.map xs) (.map ys) = true ↔ (Value.map xs).canonical = (Value.map ys).canonical := by
  have hkeys : ((canonicalEntries xs).map Prod.fst).Nodup := by rwa [keys_canonicalEntries]
  rw [equal_map_iff, canonical, canonical, map.injEq, sortEntries_eq_iff hkeys,
    perm_iff_of_nodup (List.Nodup.of_map _ hkeys), canonicalEntries_eq_map,
    canonicalEntries_eq_map, List.length_map, List.length_map, List.forall_mem_map]
  refine and_congr_right' (forall₂_congr fun d hd => ?_)
  rw [List.mem_map]
  constructor
  · rintro ⟨w, hfound, hequal⟩
    have hmem := mem_of_lookup? hfound
    exact ⟨_, hmem, Prod.ext rfl ((h d hd _ hmem).1 hequal)⟩
  · rintro ⟨e, he, heq⟩
    obtain ⟨hkey, hvalue⟩ := Prod.mk.inj heq
    exact ⟨e.2, (lookup?_eq_some_iff hys).2 (hkey ▸ he), (h d hd e he).2 hvalue⟩

theorem sizeOf_item_lt {items : List Value} {v : Value} (h : v ∈ items) :
    sizeOf v < sizeOf (Value.list items) := by
  have := List.sizeOf_lt_of_mem h
  simp only [list.sizeOf_spec]
  omega

theorem sizeOf_entry_lt {entries : List (List Char × Value)} {e : List Char × Value}
    (h : e ∈ entries) : sizeOf e.2 < sizeOf (Value.map entries) := by
  have := List.sizeOf_lt_of_mem h
  obtain ⟨key, v⟩ := e
  simp only [map.sizeOf_spec, Prod.mk.sizeOf_spec] at *
  omega

/-- **Plain values are equal if and only if their canonical forms are the same.** -/
theorem equal_iff_canonical {a b : Value} (ha : Plain a) (hb : Plain b) :
    equal a b = true ↔ a.canonical = b.canonical := by
  -- the induction is on both sizes together, as maps are compared the other way round
  induction hn : sizeOf a + sizeOf b using Nat.strongRecOn generalizing a b with
  | ind n ih =>
    subst hn
    cases hint : asInt? a with
    | some m =>
      cases hint' : asInt? b with
      | some n =>
        rw [equal_integers hint hint', canonical_of_asInt? hint, canonical_of_asInt? hint',
          int.injEq]
      | none =>
        cases b with
        | float y => exact absurd hb.floatFree Bool.false_ne_true
        | bool | int => cases hint'
        | _ => cases a <;> cases hint <;> simp [equal, asFloat?, canonical]
    | none =>
      cases a with
      | float x => exact absurd ha.floatFree Bool.false_ne_true
      | bool | int => cases hint
      | undefined | null | text => cases b <;> simp [equal, asFloat?, canonical]
      | list xs =>
        cases b with
        | list ys =>
          refine equal_list_canonical fun x hx y hy => ?_
          have hxlt := sizeOf_item_lt hx
          have hylt := sizeOf_item_lt hy
          exact ih _ (by omega) (plain_list_iff.1 ha x hx) (plain_list_iff.1 hb y hy) rfl
        | _ => simp [equal, asFloat?, canonical]
      | map xs =>
        cases b with
        | map ys =>
          obtain ⟨hxs, hvalues⟩ := plain_map_iff.1 ha
          obtain ⟨hys, hvalues'⟩ := plain_map_iff.1 hb
          refine equal_map_canonical hxs hys fun d hd e he => ?_
          have hdlt := sizeOf_entry_lt hd
          have helt := sizeOf_entry_lt he
          exact ih _ (by omega) (hvalues' e he) (hvalues d hd) rfl
        | _ => simp [equal, asFloat?, canonical]

/-! ## 6. What follows for plain values -/

/-- The same value with the entries of its maps, at any depth, in any other order. -/
inductive Reordered : Value → Value → Prop where
  | refl (v : Value) : Reordered v v
  | trans {u v w : Value} : Reordered u v → Reordered v w → Reordered u w
  | entries {xs ys : List (List Char × Value)} : xs.Perm ys → Reordered (.map xs) (.map ys)
  | inItem {before after : List Value} {v w : Value} : Reordered v w →
      Reordered (.list (before ++ v :: after)) (.list (before ++ w :: after))
  | inEntry {before after : List (List Char × Value)} {key : List Char} {v w : Value} :
      Reordered v w →
      Reordered (.map (before ++ (key, v) :: after)) (.map (before ++ (key, w) :: after))

/-- The order of entries is lost in canonical forms. -/
theorem Reordered.canonical_eq {a b : Value} (h : Reordered a b) (ha : Plain a) :
    Plain b ∧ a.canonical = b.canonical := by
  induction h with
  | refl v => exact ⟨ha, rfl⟩
  | trans _ _ ih ih' =>
    obtain ⟨hv, huv⟩ := ih ha
    obtain ⟨hw, hvw⟩ := ih' hv
    exact ⟨hw, huv.trans hvw⟩
  | entries hperm =>
    obtain ⟨hkeys, hvalues⟩ := plain_map_iff.1 ha
    refine ⟨plain_map_iff.2 ⟨(hperm.map _).nodup_iff.1 hkeys, fun e he =>
      hvalues e (hperm.mem_iff.2 he)⟩, ?_⟩
    rw [canonical, canonical, (sortEntries_eq_iff (by rwa [keys_canonicalEntries])).2]
    rw [canonicalEntries_eq_map, canonicalEntries_eq_map]
    exact hperm.map _
  | inItem _ ih =>
    simp only [plain_list_iff, List.forall_mem_append, List.forall_mem_cons] at ha ⊢
    obtain ⟨hbefore, hv, hafter⟩ := ha
    obtain ⟨hw, heq⟩ := ih hv
    refine ⟨⟨hbefore, hw, hafter⟩, ?_⟩
    simp only [canonical, canonicalItems_eq_map, List.map_append, List.map_cons, heq]
  | inEntry _ ih =>
    simp only [plain_map_iff, List.forall_mem_append, List.forall_mem_cons, List.map_append,
      List.map_cons] at ha ⊢
    obtain ⟨hkeys, hbefore, hv, hafter⟩ := ha
    obtain ⟨hw, heq⟩ := ih hv
    refine ⟨⟨hkeys, hbefore, hw, hafter⟩, ?_⟩
    simp only [canonical, canonicalEntries_eq_map, List.map_append, List.map_cons, heq]

theorem equal_equivalence : Equivalence fun a b : {v // Plain v} => equal a.1 b.1 = true := by
  simp only [equal_iff_canonical, Subtype.property]
  exact ⟨fun _ => rfl, Eq.symm, Eq.trans⟩

/-- **Equality of plain values.**  They are equal if and only if they have the same canonical form.
So equality is an equivalence relation among them, does not see the order of entries at any depth,
and only the missing value is equal to the missing value and only null to null. -/
theorem equal_plain {a b : Value} (ha : Plain a) (hb : Plain b) :
    (equal a b = true ↔ a.canonical = b.canonical) ∧
      Equivalence (fun v w : {v // Plain v} => equal v.1 w.1 = true) ∧
      (∀ v w, Reordered a v → Reordered b w → Plain v ∧ Plain w ∧ equal a v = true ∧
        equal v w = equal a b) ∧
      (equal .undefined a = true ↔ a = .undefined) ∧ (equal .null a = true ↔ a = .null) := by
  refine ⟨equal_iff_canonical ha hb, equal_equivalence, fun v w hv hw => ?_, ?_, ?_⟩
  · obtain ⟨hv, hav⟩ := hv.canonical_eq ha
    obtain ⟨hw, hbw⟩ := hw.canonical_eq hb
    refine ⟨hv, hw, (equal_iff_canonical ha hv).2 hav, Bool.eq_iff_iff.2 ?_⟩
    rw [equal_iff_canonical hv hw, equal_iff_canonical ha hb, hav, hbw]
  · cases a <;> simp [equal, asFloat?]
  · cases a <;> simp [equal, asFloat?]

/-- A map with a list of one value and a map, whose entries can stand in either order. -/
def mixedMap (one : Value) (swap : Bool) : Value :=
  let inner := [("x".toList, Value.null), ("y".toList, one)]
  let entries := [("a".toList, Value.list [one]),
    ("b".toList, Value.map (if swap then inner.reverse else inner))]
  .map (if swap then entries.reverse else entries)

theorem reordered_mixedMap (one : Value) : Reordered (mixedMap one false) (mixedMap one true) := by
  have hinner : Reordered (.map [("x".toList, Value.null), ("y".toList, one)])
      (.map [("y".toList, one), ("x".toList, Value.null)]) := .entries (.swap ..)
  exact .trans (.entries (.swap ..)) (@Reordered.inEntry [] _ _ _ _ hinner)

/-- The theorem at two maps that differ in the order of entries and in `true` for one. -/
theorem equal_plain_mixed :
    Plain (mixedMap (.bool true) false) ∧ Plain (mixedMap (.int 1) true) ∧
      equal (mixedMap (.bool true) false) (mixedMap (.int 1) true) = true := by
  have htrue : Plain (mixedMap (.bool true) false) := ⟨rfl, by decide⟩
  have hone : Plain (mixedMap (.int 1) false) := ⟨rfl, by decide⟩
  obtain ⟨hcanonical, -, hreorder, -⟩ := equal_plain htrue hone
  obtain ⟨-, hplain, -, hsame⟩ := hreorder _ _ (.refl _) (reordered_mixedMap _)
  exact ⟨htrue, hplain, hsame.trans (hcanonical.2 rfl)⟩

/-! ## 7. Keys that are there twice -/

theorem equal_comm_of_plain {a b : Value} (ha : Plain a) (hb : Plain b) :
    equal a b = equal b a := by
  rw [Bool.eq_iff_iff, equal_iff_canonical ha hb, equal_iff_canonical hb ha, eq_comm]

/-- A map that equals another is equaled by it exactly if it has all its keys, and the other has no
key with two values. -/
theorem equal_map_swap {xs ys : List (List Char × Value)} (hxs : ∀ e ∈ xs, Plain e.2)
    (hys : ∀ e ∈ ys, Plain e.2) (h : equal (.map xs) (.map ys) = true) :
    equal (.map ys) (.map xs) = true ↔
      ∀ e ∈ ys, e.1 ∈ xs.map Prod.fst ∧ ∃ w, lookup? ys e.1 = some w ∧ equal w e.2 = true := by
  obtain ⟨hlength, hforward⟩ := equal_map_iff.1 h
  -- what both maps have under a key is equal
  have hmeet (e : List Char × Value) (he : e ∈ ys) (v : Value) (hv : lookup? xs e.1 = some v) :
      ∃ w, lookup? ys e.1 = some w ∧ (equal v e.2 = true ↔ equal w e.2 = true) := by
    have hmem := mem_of_lookup? hv
    obtain ⟨w, hw, hequal⟩ := hforward _ hmem
    have hwv := (equal_iff_canonical (hys _ (mem_of_lookup? hw)) (hxs _ hmem)).1 hequal
    refine ⟨w, hw, ?_⟩
    rw [equal_iff_canonical (hxs _ hmem) (hys e he),
      equal_iff_canonical (hys _ (mem_of_lookup? hw)) (hys e he), hwv]
  rw [equal_map_iff]
  constructor
  · rintro ⟨-, hback⟩ e he
    obtain ⟨v, hv, hequal⟩ := hback e he
    obtain ⟨w, hw, hiff⟩ := hmeet e he v hv
    exact ⟨List.mem_map.2 ⟨_, mem_of_lookup? hv, rfl⟩, w, hw, hiff.1 hequal⟩
  · intro hkeys
    refine ⟨hlength.symm, fun e he => ?_⟩
    obtain ⟨hkey, w, hw, hequal⟩ := hkeys e he
    obtain ⟨v, hv⟩ := exists_lookup? hkey
    obtain ⟨w', hw', hiff⟩ := hmeet e he v hv
    obtain rfl : w = w' := Option.some.inj (hw.symm.trans hw')
    exact ⟨v, hv, hiff.2 hequal⟩

/-- **Where equality is symmetric.**  It is among plain values, and whether a list holds one does
not depend on which of the two stands first.  Among maps with a key that is there twice it is not:
the second statement tells which of them are equal both ways. -/
theorem equal_symmetric {a b : Value} (ha : Plain a) (hb : Plain b) :
    (equal a b = equal b a ∧
      (∀ items : List Value, (∀ v ∈ items, Plain v) →
        contains (.list items) a = items.any fun v => equal a v) ∧
      contains (.list [a]) b = contains (.list [b]) a) ∧
    ∀ xs ys : List (List Char × Value), (∀ e ∈ xs, Plain e.2) → (∀ e ∈ ys, Plain e.2) →
      equal (.map xs) (.map ys) = true →
      (equal (.map ys) (.map xs) = true ↔
        ∀ e ∈ ys, e.1 ∈ xs.map Prod.fst ∧ ∃ w, lookup? ys e.1 = some w ∧ equal w e.2 = true) := by
  refine ⟨⟨equal_comm_of_plain ha hb, fun items hitems => ?_, ?_⟩, fun xs ys => equal_map_swap⟩
  · rw [contains, Bool.eq_iff_iff, List.any_eq_true, List.any_eq_true]
    refine exists_congr fun v => and_congr_right fun hv => ?_
    rw [equal_comm_of_plain (hitems v hv) ha]
  · simp only [contains, List.any_cons, List.any_nil, equal_comm_of_plain ha hb]

/-- Two maps with one key twice, with one as an integer and as a truth value. -/
def twiceIntFirst : List (List Char × Value) := [("k".toList, .int 1), ("k".toList, .bool true)]

def twiceBoolFirst : List (List Char × Value) := [("k".toList, .bool true), ("k".toList, .int 1)]

/-- The theorem at two plain maps in different order, and at two maps with one key twice. -/
theorem equal_symmetric_twice :
    equal (mixedMap (.bool true) false) (mixedMap (.int 1) true) =
        equal (mixedMap (.int 1) true) (mixedMap (.bool true) false) ∧
      equal (.map twiceIntFirst) (.map twiceBoolFirst) = true ∧
      equal (.map twiceBoolFirst) (.map twiceIntFirst) = true := by
  have htrue : Plain (mixedMap (.bool true) false) := ⟨rfl, by decide⟩
  have hone : Plain (mixedMap (.int 1) true) := ⟨rfl, by decide⟩
  obtain ⟨⟨hcomm, -⟩, hmaps⟩ := equal_symmetric htrue hone
  have hint : Plain (.int 1) := ⟨rfl, rfl⟩
  have hbool : Plain (.bool true) := ⟨rfl, rfl⟩
  have hboth : equal (.bool true) (.int 1) = true := (equal_integers rfl rfl).2 rfl
  have hself : equal (.bool true) (.bool true) = true := (equal_integers rfl rfl).2 rfl
  have hforward : equal (.map twiceIntFirst) (.map twiceBoolFirst) = true := by
    simp [equal_map_iff, twiceIntFirst, twiceBoolFirst, lookup?, hboth, hself]
  refine ⟨hcomm, hforward, (hmaps twiceIntFirst twiceBoolFirst ?_ ?_ hforward).2 ?_⟩
  · simp [twiceIntFirst, hint, hbool]
  · simp [twiceBoolFirst, hint, hbool]
  · simp [twiceIntFirst, twiceBoolFirst, lookup?, hboth, hself]

/-- Of two maps the first equals the second, but the second not the first: it has a key that the
first, with one key twice, has not. -/
theorem equal_not_symmetric :
    equal (.map [("k".toList, .int 1), ("k".toList, .int 1)])
        (.map [("k".toList, .int 1), ("j".toList, .int 2)]) = true ∧
      equal (.map [("k".toList, .int 1), ("j".toList, .int 2)])
        (.map [("k".toList, .int 1), ("k".toList, .int 1)]) = false := by
  have hself : equal (.int 1) (.int 1) = true := (equal_integers rfl rfl).2 rfl
  rw [← Bool.not_eq_true]
  constructor <;> simp [equal_map_iff, lookup?, hself]

end TemplateCompiler.Value
