import Mathlib.Data.List.Nodup
import TemplateCompiler.Proofs.Target.Execution

/-! # Which bindings are one

A template name becomes a binding by one of three renamings: it gets an underscore at the end, it
becomes a raw identifier, or it stays as it is.  Each of the three keeps names apart, and a raw
identifier is none of the others, so two names can only meet where one of them gets an underscore
and the other is kept.

They do meet.  A reserved word and the same word with an underscore are both identifiers of the
template language, and both become the second of them (`bindingName_self`).  `bindings_apart` says
that nothing else goes wrong: names that do not clash in this way have different bindings, and a
binding is always a name that the language of the generated code allows and that the generated
code does not use itself.
-/

namespace TemplateCompiler.Target

open Text

/-! ## 1. The names of the generated code -/

/-- What the body of a renderer binds for its own use. -/
def internalNames : List String :=
  ["__out", "__locals", "__items", "__shadowed", "__i", "__value"]

/-- The words that may not be raw identifiers. -/
def neverRaw : List String := ["crate", "self", "Self", "super", "_"]

/-- A name of the generated language: an identifier that is no keyword, or a raw identifier of a
word that may be one. -/
inductive IsRustName : List Char → Prop
  | plain {n : List Char} (h : isIdentifier n = true) (hkey : isKeywordWord n = false) :
      IsRustName n
  | raw {n : List Char} (h : isIdentifier n = true) (hraw : ∀ w ∈ neverRaw, n ≠ w.toList) :
      IsRustName ('r' :: '#' :: n)

/-- A reserved word, and the same word with an underscore.  The underscore alone is left out: two
of them start a name that is renamed itself. -/
def Clash (a b : List Char) : Prop :=
  ∃ w ∈ reservedNames, w ≠ "_" ∧ a = w.toList ∧ b = w.toList ++ ['_']

/-! ## 2. The three renamings -/

/-- How a name that starts with no digit is renamed. -/
inductive Renamed (n : List Char) : List Char → Prop
  | suffixed (h : isReserved n = true ∨ "__".toList <+: n) : Renamed n (n ++ ['_'])
  | raw (hfree : isReserved n = false) (hkey : isKeyword n = true) : Renamed n ('r' :: '#' :: n)
  | kept (hfree : isReserved n = false) (hplain : ¬ "__".toList <+: n) : Renamed n n

theorem renamed_bindingName {n : List Char} (h : isIdentifier n = true) :
    Renamed n (bindingName n) := by
  unfold bindingName
  rw [startsWithDigit_of_isIdentifier h, if_neg (by decide)]
  by_cases hreserved : isReserved n = true
  · rw [hreserved, Bool.true_or, if_pos rfl]
    exact .suffixed (.inl hreserved)
  · rw [Bool.not_eq_true] at hreserved
    rw [hreserved, Bool.false_or]
    split
    · rename_i hpre
      exact .suffixed (.inr (List.isPrefixOf_iff_prefix.1 hpre))
    · rename_i hpre
      rw [List.isPrefixOf_iff_prefix] at hpre
      split
      · rename_i hkey
        exact .raw hreserved hkey
      · exact .kept hreserved hpre

/-- A raw identifier has a character that no name has. -/
theorem raw_ne_of_isIdentChar {n m : List Char} (h : ∀ c ∈ m, isIdentChar c = true) :
    'r' :: '#' :: n ≠ m := by
  rintro rfl
  exact absurd (h '#' (by simp)) (by decide)

theorem isIdentifier_suffixed {n : List Char} (h : isIdentifier n = true) :
    isIdentifier (n ++ ['_']) = true := by
  obtain ⟨c, more, rfl, -⟩ := exists_cons_of_isIdentifier h
  simp only [isIdentifier, Bool.and_eq_true] at h
  rw [List.cons_append, isIdentifier, h.1, List.all_append, h.2]
  decide

/-! ## 3. Where two bindings meet -/

/-- **A reserved word and the word with an underscore have one binding.** -/
theorem Clash.bindingName_eq {a b : List Char} (h : Clash a b) : bindingName a = bindingName b := by
  have hall : ∀ w ∈ reservedNames, w ≠ "_" →
      bindingName w.toList = bindingName (w.toList ++ ['_']) := by
    decide +kernel
  obtain ⟨w, hw, hne, rfl, rfl⟩ := h
  exact hall w hw hne

theorem Clash.ne {a b : List Char} (h : Clash a b) : a ≠ b := by
  obtain ⟨w, -, -, rfl, rfl⟩ := h
  intro heq
  simpa using congrArg List.length heq

/-- A name that is kept is the name of a suffixed one only in a clash. -/
theorem clash_of_suffixed_eq {a b : List Char} (ha : isReserved a = true ∨ "__".toList <+: a)
    (hb : ¬ "__".toList <+: b) (h : a ++ ['_'] = b) : Clash a b := by
  subst h
  rcases ha with ha | ha
  · obtain ⟨w, hw, heq⟩ := List.any_eq_true.1 ha
    obtain rfl : w.toList = a := by simpa using heq
    refine ⟨w, hw, ?_, rfl, rfl⟩
    rintro rfl
    exact hb (by decide)
  · exact absurd (ha.trans (List.prefix_append a ['_'])) hb

/-- **Two names have one binding only if they are the same name or clash.** -/
theorem bindingName_eq_iff {a b : List Char} (ha : isIdentifier a = true)
    (hb : isIdentifier b = true) :
    bindingName a = bindingName b ↔ a = b ∨ Clash a b ∨ Clash b a := by
  constructor
  · have hsuffixed {n : List Char} (hn : isIdentifier n = true) :
        ∀ c ∈ n ++ ['_'], isIdentChar c = true :=
      fun _ hc => isIdentChar_of_mem (isIdentifier_suffixed hn) hc
    have hkept {n : List Char} (hn : isIdentifier n = true) : ∀ c ∈ n, isIdentChar c = true :=
      fun _ hc => isIdentChar_of_mem hn hc
    intro h
    have hra := renamed_bindingName ha
    have hrb := renamed_bindingName hb
    rw [h] at hra
    generalize bindingName b = r at hra hrb
    clear h
    -- one case for each pair of renamings
    cases hra with
    | suffixed ha' =>
      generalize hr : a ++ ['_'] = r at hrb
      cases hrb with
      | suffixed _ => exact .inl (List.append_cancel_right hr)
      | raw _ _ => exact absurd hr.symm (raw_ne_of_isIdentChar (hsuffixed ha))
      | kept _ hplain => exact .inr (.inl (clash_of_suffixed_eq ha' hplain hr))
    | raw _ _ =>
      generalize hr : 'r' :: '#' :: a = r at hrb
      cases hrb with
      | suffixed _ => exact absurd hr (raw_ne_of_isIdentChar (hsuffixed hb))
      | raw _ _ => exact .inl (by simpa using hr)
      | kept _ _ => exact absurd hr (raw_ne_of_isIdentChar (hkept hb))
    | kept _ hplain =>
      cases hrb with
      | suffixed hb' => exact .inr (.inr (clash_of_suffixed_eq hb' hplain rfl))
      | raw _ _ => exact absurd rfl (raw_ne_of_isIdentChar (hkept ha))
      | kept _ _ => exact .inl rfl
  · rintro (rfl | h | h)
    · rfl
    · exact h.bindingName_eq
    · exact h.bindingName_eq.symm

/-! ## 4. Bindings are names of their own -/

theorem ne_of_isReserved_eq_false {n : List Char} (h : isReserved n = false) :
    ∀ w ∈ neverRaw, n ≠ w.toList := by
  have hall : ∀ w ∈ neverRaw, isReserved w.toList = true := by decide +kernel
  rintro w hw rfl
  simp [hall w hw] at h

/-- **A binding is a name that the generated language allows.** -/
theorem isRustName_bindingName {n : List Char} (h : isIdentifier n = true) :
    IsRustName (bindingName n) := by
  have hkey := isKeywordWord_bindingName n
  have hren := renamed_bindingName h
  generalize bindingName n = r at hren hkey
  cases hren with
  | suffixed _ => exact .plain (isIdentifier_suffixed h) hkey
  | raw hfree _ => exact .raw h (ne_of_isReserved_eq_false hfree)
  | kept _ _ => exact .plain h hkey

/-- **A binding is none of the names that the generated code uses.** -/
theorem bindingName_ne_of_mem (n : List Char) {w : String}
    (hw : w ∈ internalNames ++ reservedNames) : bindingName n ≠ w.toList := by
  have hinternal : ∀ w ∈ internalNames,
      "__".toList <+: w.toList ∧ w.toList.getLast? ≠ some '_' := by decide +kernel
  rcases List.mem_append.1 hw with hw | hw
  · obtain ⟨hpre, hlast⟩ := hinternal w hw
    exact bindingName_ne_internal hpre hlast n
  · exact bindingName_ne (by simp [takenWords, hw]) n

/-- **The bindings of template names are apart unless two of the names clash.**  This is said of
the fields of a context and of the variables of nested loops alike: of any list of identifiers.
Each binding is a name that the generated code may bind and does not use itself. -/
theorem bindings_apart {names : List (List Char)} (h : ∀ n ∈ names, isIdentifier n = true) :
    (∀ a ∈ names, ∀ b ∈ names,
        bindingName a = bindingName b ↔ a = b ∨ Clash a b ∨ Clash b a) ∧
      ((names.map bindingName).Nodup ↔
        names.Nodup ∧ ∀ a ∈ names, ∀ b ∈ names, ¬ Clash a b) ∧
      ∀ n ∈ names, IsRustName (bindingName n) ∧
        ∀ w ∈ internalNames ++ reservedNames, bindingName n ≠ w.toList := by
  have hiff : ∀ a ∈ names, ∀ b ∈ names,
      bindingName a = bindingName b ↔ a = b ∨ Clash a b ∨ Clash b a :=
    fun a ha b hb => bindingName_eq_iff (h a ha) (h b hb)
  refine ⟨hiff, ?_, fun n hn =>
    ⟨isRustName_bindingName (h n hn), fun w hw => bindingName_ne_of_mem n hw⟩⟩
  constructor
  · intro hnodup
    refine ⟨hnodup.of_map, fun a ha b hb hclash => hclash.ne ?_⟩
    exact List.inj_on_of_nodup_map hnodup ha hb hclash.bindingName_eq
  · rintro ⟨hnodup, hclash⟩
    refine hnodup.map_on ?_
    intro a ha b hb heq
    rcases (hiff a ha b hb).1 heq with hab | hab | hab
    · exact hab
    · exact absurd hab (hclash a ha b hb)
    · exact absurd hab (hclash b hb a ha)

/-- The names `context`, `loop` and `__items` have bindings of their own. -/
theorem bindings_apart_renamed :
    (∀ n ∈ ["context".toList, "loop".toList, "__items".toList], isIdentifier n = true) ∧
      (["context".toList, "loop".toList, "__items".toList].map bindingName).Nodup := by
  have hident : ∀ n ∈ ["context".toList, "loop".toList, "__items".toList],
      isIdentifier n = true := by
    decide
  refine ⟨hident, (bindings_apart hident).2.1.2 ⟨by decide, ?_⟩⟩
  have hall : ∀ a ∈ ["context".toList, "loop".toList, "__items".toList],
      ∀ b ∈ ["context".toList, "loop".toList, "__items".toList], ∀ w ∈ reservedNames,
        ¬ (w ≠ "_" ∧ a = w.toList ∧ b = w.toList ++ ['_']) := by
    decide +kernel
  rintro a ha b hb ⟨w, hw, hclash⟩
  exact hall a ha b hb w hw hclash

/-- `self` and `self_` are two names with one binding, and so are a context's field and a loop's
variable of these names. -/
theorem bindingName_self :
    isIdentifier "self".toList = true ∧ isIdentifier "self_".toList = true ∧
      "self".toList ≠ "self_".toList ∧
      bindingName "self".toList = bindingName "self_".toList := by
  decide

end TemplateCompiler.Target
