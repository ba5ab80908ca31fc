/-! # Blank characters

A character is blank when it has the Unicode property `White_Space`.  The property holds of
25 code points, among them the line and paragraph separators and the no-break space; it does
not hold of the zero-width characters, nor of the control characters U+001C to U+001F.

Trimming is stated on lists of characters.  `trimStart_append_dropped` says that nothing but
blanks is lost, and `head_trimStart` that what is left starts with no blank.
-/

namespace TemplateCompiler.Text

/-! ## 1. The class -/

/-- The property `White_Space`, of code points. -/
def isBlankCode (n : Nat) : Bool :=
  (0x09 ≤ n && n ≤ 0x0D) || n == 0x20 || n == 0x85 || n == 0xA0 || n == 0x1680 ||
  (0x2000 ≤ n && n ≤ 0x200A) || n == 0x2028 || n == 0x2029 || n == 0x202F ||
  n == 0x205F || n == 0x3000

/-- The property `White_Space`, of characters. -/
def isBlank (c : Char) : Bool := isBlankCode c.toNat

/-! ## 2. Trimming -/

/-- Without the blanks at the start. -/
def trimStart (cs : List Char) : List Char := cs.dropWhile isBlank

/-- Without the blanks at the end. -/
def trimEnd (cs : List Char) : List Char := (cs.reverse.dropWhile isBlank).reverse

/-- Without the blanks at either end. -/
def trim (cs : List Char) : List Char := trimEnd (trimStart cs)

/-- Nothing but blanks is lost at the start. -/
theorem trimStart_append_dropped (cs : List Char) :
    cs.takeWhile isBlank ++ trimStart cs = cs :=
  List.takeWhile_append_dropWhile

/-- What is left starts with no blank. -/
theorem head_trimStart {cs : List Char} {c : Char} (h : (trimStart cs).head? = some c) :
    isBlank c = false := by
  induction cs with
  | nil => simp [trimStart] at h
  | cons d ds ih =>
    by_cases hd : isBlank d = true
    · exact ih (by simpa [trimStart, List.dropWhile_cons, hd] using h)
    · have hdc : d = c := by simpa [trimStart, List.dropWhile_cons, hd] using h
      simpa [hdc] using hd

/-- Only blanks, or nothing at all. -/
def isBlankText (cs : List Char) : Bool := cs.all isBlank

end TemplateCompiler.Text
