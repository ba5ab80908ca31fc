import TemplateCompiler.Proofs.Target.Containment

/-! # Brackets of generated code

Which brackets are open at one place of a source text?  The contents of literals and comments do not
count, so they are left out first (`skeleton`).  `nest` then walks over the rest and keeps the
closing brackets that are awaited, the innermost first; a closing bracket that is not the awaited
one ends the walk.

Main statement: the code of an expression closes every bracket that it opens, and has neither a
brace nor a semicolon of its own (`closed_lower`).

* A text that closes what it opens can be put anywhere into another one (`Balanced.insert`), and all
  code is built in this way: fixed texts around the code of the parts.
* Braces and semicolons make blocks and statements.  A text without them is *neutral*: it changes
  nothing about the blocks and statements around it, so they can be counted line by line.
* `Closed` is what is proved of code: it may stand on a line, and its skeleton is neutral.  There is
  one lemma for each way of writing code (section 4), and `composes_closed` puts them together.
-/

namespace TemplateCompiler.Target

open Text Reading Template

/-! ## 1. The brackets of a text -/

/-- What is left of a fragment without its content: the marks of a literal, and how a comment opens.
-/
def Fragment.shell : Fragment → List Char
  | .code c => [c]
  | .comment cs => cs.take 2
  | .literal .. => ['"', '"']

/-- A text without the contents of its literals and comments. -/
def skeleton (fs : List Fragment) : List Char := fs.flatMap Fragment.shell

/-- The bracket that closes an opening one. -/
def closerOf? (c : Char) : Option Char :=
  if c = '(' then some ')' else if c = '[' then some ']' else if c = '{' then some '}' else none

/-- Whether a character is a closing bracket. -/
def isCloser (c : Char) : Bool := c == ')' || c == ']' || c == '}'

/-- The closing brackets that are awaited after one more character. -/
def nestChar (awaited : List Char) (c : Char) : Option (List Char) :=
  match closerOf? c with
  | some closer => some (closer :: awaited)
  | none =>
    if isCloser c then
      match awaited with
      | closer :: rest => if closer = c then some rest else none
      | [] => none
    else some awaited

/-- The closing brackets that are awaited after a text, the innermost first.  There are none if a
bracket of the text closes another one than the last that is open. -/
def nest (awaited cs : List Char) : Option (List Char) := cs.foldlM nestChar awaited

/-- The walk over two texts is the walk over the first and then over the second. -/
theorem nest_append (awaited cs ds : List Char) :
    nest awaited (cs ++ ds) = (nest awaited cs).bind fun mid => nest mid ds :=
  List.foldlM_append

/-- One step only looks at the innermost bracket, so others may be open around it. -/
theorem nestChar_append {awaited next : List Char} {c : Char} (h : nestChar awaited c = some next)
    (outer : List Char) : nestChar (awaited ++ outer) c = some (next ++ outer) := by
  unfold nestChar at h ⊢
  cases hcloser : closerOf? c with
  | some closer =>
    rw [hcloser] at h
    cases h
    rfl
  | none =>
    rw [hcloser] at h
    by_cases hc : isCloser c = true
    · simp only [hc, if_true] at h ⊢
      cases awaited with
      | nil => cases h
      | cons closer rest =>
        by_cases heq : closer = c
        · simp only [heq, if_true] at h
          cases h
          simp [heq]
        · simp [heq] at h
    · simp only [hc] at h ⊢
      cases h
      rfl

/-- What is open around a text does not matter for it. -/
theorem nest_outer {awaited next cs : List Char} (h : nest awaited cs = some next)
    (outer : List Char) : nest (awaited ++ outer) cs = some (next ++ outer) := by
  induction cs generalizing awaited with
  | nil =>
    cases h
    rfl
  | cons c cs ih =>
    rw [nest, List.foldlM_cons] at h
    obtain ⟨mid, hmid, hrest⟩ := Option.bind_eq_some_iff.1 h
    rw [nest, List.foldlM_cons, nestChar_append hmid outer]
    exact ih hrest

/-- A text that closes what it opens, and only that. -/
def Balanced (cs : List Char) : Prop := nest [] cs = some []

instance (cs : List Char) : Decidable (Balanced cs) := inferInstanceAs (Decidable (_ = _))

/-- After a balanced text the same brackets are awaited as before. -/
theorem Balanced.nest_eq {cs : List Char} (h : Balanced cs) (awaited : List Char) :
    nest awaited cs = some awaited := nest_outer h awaited

/-- **A balanced text may stand anywhere in another one.** -/
theorem Balanced.insert {cs front after : List Char} (h : Balanced cs)
    (hout : Balanced (front ++ after)) : Balanced (front ++ cs ++ after) := by
  rw [Balanced, nest_append] at hout
  obtain ⟨mid, hmid, hafter⟩ := Option.bind_eq_some_iff.1 hout
  rw [Balanced, nest_append, nest_append, hmid, Option.bind_some, h.nest_eq, Option.bind_some,
    hafter]

/-- Balanced texts one after the other. -/
theorem Balanced.append {cs ds : List Char} (h : Balanced cs) (h' : Balanced ds) :
    Balanced (cs ++ ds) := by
  rw [Balanced, nest_append, show nest [] cs = some [] from h]
  exact h'

/-! ## 2. Neutral texts -/

/-- A character that neither ends a statement nor belongs to a block. -/
def isInner (c : Char) : Bool := c != ';' && c != '{' && c != '}'

/-- A balanced text that neither ends a statement nor opens or closes a block. -/
structure Neutral (cs : List Char) : Prop where
  balanced : Balanced cs
  inner : cs.all isInner = true

instance (cs : List Char) : Decidable (Neutral cs) :=
  decidable_of_iff (Balanced cs ∧ cs.all isInner = true)
    ⟨fun h => ⟨h.1, h.2⟩, fun h => ⟨h.balanced, h.inner⟩⟩

section
variable {cs ds front after : List Char}

/-- **The same for neutral texts**: blocks and statements stay where they are. -/
theorem Neutral.insert (h : Neutral cs) (hout : Neutral (front ++ after)) :
    Neutral (front ++ cs ++ after) := by
  refine ⟨h.balanced.insert hout.balanced, ?_⟩
  have hchars := hout.inner
  rw [List.all_append, Bool.and_eq_true] at hchars
  rw [List.all_append, List.all_append, hchars.1, h.inner, hchars.2]
  rfl

theorem Neutral.append (h : Neutral cs) (h' : Neutral ds) : Neutral (cs ++ ds) := by
  refine ⟨h.balanced.append h'.balanced, ?_⟩
  rw [List.all_append, h.inner, h'.inner]
  rfl

end

/-- Whether a character is plain code and no bracket, brace or semicolon. -/
def isFlat (c : Char) : Bool :=
  isPlainChar c && (closerOf? c).isNone && !isCloser c && isInner c

/-- Names are flat. -/
theorem isFlat_of_isIdentChar {c : Char} (h : isIdentChar c = true) : isFlat c = true := by
  have hne : ∀ d ∈ ['(', '[', '{', ')', ']', '}', ';'], c ≠ d := by
    intro d hd heq
    subst heq
    simp only [List.mem_cons, List.not_mem_nil, or_false] at hd
    rcases hd with rfl | rfl | rfl | rfl | rfl | rfl | rfl <;> exact absurd h (by decide)
  simp only [List.mem_cons, List.not_mem_nil, or_false, forall_eq_or_imp, forall_eq] at hne
  simp [isFlat, isPlainChar_of_isIdentChar h, closerOf?, isCloser, isInner, hne]

/-- Where nothing is opened, nothing has to be closed. -/
theorem neutral_of_flat {cs : List Char} (h : cs.all isFlat = true) : Neutral cs := by
  induction cs with
  | nil => decide
  | cons c cs ih =>
    simp only [List.all_cons, Bool.and_eq_true] at h
    obtain ⟨hc, hcs⟩ := h
    simp only [isFlat, Bool.and_eq_true, Bool.not_eq_true', Option.isNone_iff_eq_none] at hc
    have hfirst : Neutral [c] := by
      refine ⟨?_, by simp [hc.2]⟩
      simp [Balanced, nest, nestChar, hc.1.1.2, hc.1.2]
    exact hfirst.append (ih hcs)

theorem all_isPlainChar_of_flat {cs : List Char} (h : cs.all isFlat = true) :
    cs.all isPlainChar = true := by
  rw [List.all_eq_true] at h ⊢
  intro c hc
  have hflat := h c hc
  simp only [isFlat, Bool.and_eq_true] at hflat
  exact hflat.1.1.1

/-! ## 3. Texts with a skeleton -/

/-- A text that may stand on a line and has this skeleton wherever it stands. -/
def Skeletal (cs sk : List Char) : Prop := ∃ fs, Taken cs fs ∧ skeleton fs = sk

/-- A text that may stand on a line and whose skeleton is neutral. -/
def Closed (cs : List Char) : Prop := ∃ sk, Skeletal cs sk ∧ Neutral sk

section
variable {cs ds sk tk front after : List Char}

theorem skeleton_append (fs gs : List Fragment) :
    skeleton (fs ++ gs) = skeleton fs ++ skeleton gs := List.flatMap_append

/-- Plain code is its own skeleton. -/
theorem skeleton_code (cs : List Char) : skeleton (cs.map .code) = cs := by
  induction cs with
  | nil => rfl
  | cons c cs ih => exact congrArg (c :: ·) ih

/-- Skeletons are put together as the texts are.  This needs that no literal or comment begins in
one text and ends in the other, which `Taken` says. -/
theorem Skeletal.append (h : Skeletal cs sk) (h' : Skeletal ds tk) :
    Skeletal (cs ++ ds) (sk ++ tk) := by
  obtain ⟨fs, htaken, rfl⟩ := h
  obtain ⟨gs, htaken', rfl⟩ := h'
  exact ⟨fs ++ gs, htaken.append htaken', skeleton_append fs gs⟩

/-- Plain code has no literals and no comments to leave out. -/
theorem skeletal_plain (h : cs.all isPlainChar = true) : Skeletal cs cs :=
  ⟨_, taken_plain h, skeleton_code cs⟩

/-- A literal with the code around it. -/
theorem skeletal_literal (hfront : opensLiteral front = true)
    (hafter : followsLiteral after = true) (value : List Char) :
    Skeletal (front ++ quote value ++ after) (front ++ ['"', '"'] ++ after) := by
  refine ⟨_, taken_literal hfront hafter value, ?_⟩
  rw [literalFragments, skeleton_append, skeleton_code]
  simp only [skeleton, List.flatMap_cons, Fragment.shell]
  rw [← skeleton, skeleton_code, List.append_assoc]

/-- Names, numbers and fixed texts without brackets. -/
theorem closed_flat (h : cs.all isFlat = true) : Closed cs :=
  ⟨cs, skeletal_plain (all_isPlainChar_of_flat h), neutral_of_flat h⟩

/-- Code around a text, which together closes what it opens. -/
theorem Closed.within (h : Closed cs) (hfront : Skeletal front sk) (hafter : Skeletal after tk)
    (hout : Neutral (sk ++ tk)) : Closed (front ++ cs ++ after) := by
  obtain ⟨mid, hskeletal, hneutral⟩ := h
  exact ⟨_, (hfront.append hskeletal).append hafter, hneutral.insert hout⟩

/-- Plain code around a text. -/
theorem Closed.between (h : Closed cs) (front after : List Char)
    (hfront : front.all isPlainChar = true) (hafter : after.all isPlainChar = true)
    (hout : Neutral (front ++ after)) : Closed (front ++ cs ++ after) :=
  h.within (skeletal_plain hfront) (skeletal_plain hafter) hout

/-- Closed texts one after the other. -/
theorem Closed.append (h : Closed cs) (h' : Closed ds) : Closed (cs ++ ds) := by
  obtain ⟨sk, hskeletal, hneutral⟩ := h
  obtain ⟨tk, hskeletal', hneutral'⟩ := h'
  exact ⟨_, hskeletal.append hskeletal', hneutral.append hneutral'⟩

/-- A literal is closed whatever is in it: its brackets are not brackets of the code. -/
theorem closed_literal (front after : List Char) (hfront : opensLiteral front = true)
    (hafter : followsLiteral after = true) (hout : Neutral (front ++ after)) (value : List Char) :
    Closed (front ++ quote value ++ after) := by
  have hmarks : Neutral ['"', '"'] := by decide
  exact ⟨_, skeletal_literal hfront hafter value, hmarks.insert hout⟩

/-- Code that is fixed. -/
theorem closed_fixed (cs : List Char) (h : cs.all isPlainChar = true) (hneutral : Neutral cs) :
    Closed cs :=
  ⟨cs, skeletal_plain h, hneutral⟩

end

/-! ## 4. Expressions -/

section
variable {cs ds : List Char}

/-- The parentheses of a call close each other around closed arguments. -/
theorem Closed.call (h : Closed cs) {f : String} (hf : f.toList.all isFlat = true) :
    Closed (call f cs) := by
  have hfront : (f.toList ++ ['(']).all isPlainChar = true := by
    rw [List.all_append, all_isPlainChar_of_flat hf]
    rfl
  have hparens : Neutral ['(', ')'] := by decide
  have hout : Neutral (f.toList ++ ['('] ++ [')']) := by
    rw [List.append_assoc]
    exact (neutral_of_flat hf).append hparens
  have hall := h.between _ [')'] hfront rfl hout
  simpa [Target.call] using hall

theorem Closed.afterChar (h : Closed cs) {c : Char} (hc : isFlat c = true) : Closed (c :: cs) := by
  have hchar : Closed [c] := closed_flat (by simp [hc])
  exact hchar.append h

theorem Closed.reference (h : Closed cs) : Closed ('&' :: cs) := h.afterChar rfl

/-- The look-up of an attribute ends in a literal, so the fixed texts around its subject are one of
each kind. -/
theorem Closed.prop (h : Closed cs) (name : List Char) :
    Closed (Target.call "get_prop" ('&' :: cs ++ ", ".toList ++ quote name)) := by
  have hfront : Skeletal "get_prop(&".toList "get_prop(&".toList := skeletal_plain rfl
  have hname : Skeletal (", ".toList ++ quote name ++ [')']) ", \"\")".toList :=
    skeletal_literal rfl rfl name
  have hall := h.within hfront hname (by decide)
  simp only [Target.call, List.append_assoc, List.cons_append] at hall ⊢
  exact hall

/-- The comment for a filter opens no bracket. -/
theorem closed_note {filter : List Char} (hf : ∀ x ∈ filter, isIdentChar x = true) :
    Closed ('/' :: '*' :: (" unsupported filter: ".toList ++ filter ++ [' '] ++ ['*', '/'])) := by
  have htaken := taken_comment (ne_of_mem_note hf) (isPrintable_of_mem_note hf)
  have hmarks : Neutral ['/', '*'] := by decide
  exact ⟨['/', '*'], ⟨_, htaken, rfl⟩, hmarks⟩

/-- What follows the comment is on the same line, so the comment is closed before it. -/
theorem Closed.note (h : Closed cs) {filter : List Char}
    (hf : ∀ x ∈ filter, isIdentChar x = true) :
    Closed ('/' :: '*' :: (" unsupported filter: ".toList ++ filter ++ [' '] ++
      '*' :: '/' :: ' ' :: cs)) := by
  have hall := (closed_note hf).append (h.afterChar (c := ' ') rfl)
  simp only [List.append_assoc, List.cons_append, List.nil_append] at hall ⊢
  exact hall

/-- A slash between blanks is no comment; the other operators are flat. -/
theorem Closed.operator (h : Closed cs) (op : Operator) (h' : Closed ds) :
    Closed (cs ++ ' ' :: (op.text ++ ' ' :: ds)) := by
  have hop : Closed (' ' :: op.text ++ [' ']) := by
    cases op with
    | div => exact ⟨_, ⟨_, taken_slash, rfl⟩, by decide⟩
    | _ => exact closed_flat rfl
  have hall := (h.append hop).append h'
  simp only [List.append_assoc, List.cons_append, List.nil_append] at hall ⊢
  exact hall

end

variable {scope : Scope}

/-- A look-up with a fallback. -/
theorem closed_lookup (n : List Char) {fallback : List Char} (h : fallback.all isFlat = true) :
    Closed (call "get_var" ("&__locals, ".toList ++ quote n ++ (", &".toList ++ fallback))) := by
  have hflat : (", &".toList ++ fallback).all isFlat = true := by
    rw [List.all_append, h]
    rfl
  have hafter : followsLiteral (", &".toList ++ fallback) = true := by
    rw [followsLiteral, all_isPlainChar_of_flat hflat]
    rfl
  have hfront : Neutral "&__locals, ".toList := neutral_of_flat rfl
  exact (closed_literal _ _ rfl hafter (hfront.append (neutral_of_flat hflat)) n).call rfl

/-- A name is closed whatever it means. -/
theorem closed_resolve {n : List Char} (hn : isIdentifier n = true) :
    Closed (scope.resolve n).print := by
  have hflat := all_bindingName (fun _ => isFlat_of_isIdentChar) rfl hn
  unfold Scope.resolve
  split
  · have hall := closed_lookup n hflat
    rwa [← List.append_assoc] at hall
  split
  · exact (closed_flat hflat).between "context.".toList ".clone()".toList rfl rfl (by decide)
  · have hundefined : "Value::Undefined".toList.all isFlat = true := rfl
    exact closed_lookup n hundefined

/-- The functions that generated code calls have names. -/
theorem isFlat_of_mem_loweredCalls : ∀ f ∈ loweredCalls, f.toList.all isFlat = true := by
  decide

/-- Every way of writing code leaves it closed. -/
theorem composes_closed (scope : Scope) :
    Composes .none scope (fun cs _ => Closed cs) (fun cs _ => Closed cs) where
  ofOperand h := h
  digits n := closed_flat ((digits_toDigits n).all fun _ => isFlat_of_isIdentChar)
  number h := closed_flat (h.all (fun _ => isFlat_of_isIdentChar) rfl rfl)
  truthValue b := closed_flat (by cases b <;> rfl)
  null := closed_flat rfl
  constant value := closed_literal "Value::from(".toList [')'] rfl rfl (by decide) value
  name hn := closed_resolve hn
  prop n h := h.prop n
  call hf h := h.call (isFlat_of_mem_loweredCalls _ hf)
  reference h := h.reference
  comma h h' := (h.append (closed_flat rfl)).append h'
  sign hc h := h.afterChar (by rcases hc with rfl | rfl <;> rfl)
  operator op h h' := h.operator op h'
  note hf h := h.note hf

/-- **The code of an expression closes what it opens, and is not cut by a semicolon or a brace.** -/
theorem closed_lower {form : Form} {e : Expr} (h : Shaped form e) :
    Closed (lower scope e).print :=
  (composes_closed scope).lower h

/-- What a snippet of a template compiles to is closed, since it was lowered from something read. -/
theorem closed_snippet {s : Snippet} {c : Code} (h : compileSnippet scope s = .ok c) :
    Closed c.print := by
  obtain ⟨e, hread, rfl⟩ := eq_lower_of_compileSnippet h
  exact closed_lower (Expr.shaped_of_read hread)

end TemplateCompiler.Target
