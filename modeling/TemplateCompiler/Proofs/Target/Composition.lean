import TemplateCompiler.Proofs.Target.WellTyped

/-! # What lowered code is composed of

The text of a lowered expression is put together in few ways.  A function is called with what has
been written, arguments are joined by a comma, a sign or a comment is put before an operand, an
operator is put between two of them; and at the leaves there are constants and names.  Whatever is
kept by each of these ways is true of all lowered code (`Composes.lower`).

What is kept says of a text which things it holds, in their order.

* The things come from the leaves of the expression (`Contents.of`): literals from constants and
  attributes, references from names.  Everything else joins the lists of its parts.  A property that
  holds no things has the empty list everywhere.
* `Composes` has one field for each way of composing.  Most of them are about calls, and it does not
  matter to any of the properties which function is called, so there is one field for all calls.
* There are two kinds of texts.  An operand may stand after a sign and before an operator; a piece
  only behind an operator and among the arguments of a call, as references and digits do.

Three properties of generated code are instances: which literals it holds (`composes_shows`), that
it closes its brackets (`composes_closed`), and which names it refers to (`composes_refers`).  When
lowering is given a construct that is written in one of these ways, the case for it is added in
`Composes.lower` and in no proof about a property.
-/

namespace TemplateCompiler.Target

open Text Reading

/-! ## 1. Contents -/

/-- What constants, names and attributes contribute to the contents of an expression. -/
structure Contents (β : Type) where
  constant : List Char → List β
  name : List Char → List β
  prop : List Char → List β

variable {β : Type}

/-- The contents of an expression, in the order of the code for it: a container goes before what is
looked for in it.  The arguments of filters are not part of the expression. -/
def Contents.of (m : Contents β) : Expr → List β
  | .text value => m.constant value
  | .int .. | .float _ | .bool _ | .null => []
  | .name n => m.name n
  | .group e | .place e _ | .neg e | .pos e | .toJson e | .filter e _ | .defined _ e | .not e =>
    m.of e
  | .attr e n => m.of e ++ m.prop n
  | .item subject key => m.of subject ++ m.of key
  | .member _ item container => m.of container ++ m.of item
  | .binary left _ right | .and left right | .or left right => m.of left ++ m.of right

/-- Contents without anything in them. -/
def Contents.none : Contents Empty :=
  { constant := fun _ => [], name := fun _ => [], prop := fun _ => [] }

/-- Contents that are taken for something else. -/
def Contents.map {γ : Type} (f : β → γ) (m : Contents β) : Contents γ :=
  { constant := fun v => (m.constant v).map f
    name := fun n => (m.name n).map f
    prop := fun n => (m.prop n).map f }

/-- What is taken for something else keeps its place. -/
theorem Contents.of_map {γ : Type} (f : β → γ) (m : Contents β) (e : Expr) :
    (m.map f).of e = (m.of e).map f := by
  induction e with
  | text value => rfl
  | int => rfl
  | float => rfl
  | bool => rfl
  | null => rfl
  | name n => rfl
  | attr e n ih => rw [of, ih, of, List.map_append, Contents.map]
  | group e ih => exact ih
  | place e index ih => exact ih
  | neg e ih => exact ih
  | pos e ih => exact ih
  | toJson e ih => exact ih
  | filter e n ih => exact ih
  | defined negated e ih => exact ih
  | not e ih => exact ih
  | item subject key ihs ihk => rw [of, ihs, ihk, of, List.map_append]
  | member negated item container ihi ihc => rw [of, ihi, ihc, of, List.map_append]
  | binary left op right ihl ihr => rw [of, ihl, ihr, of, List.map_append]
  | and left right ihl ihr => rw [of, ihl, ihr, of, List.map_append]
  | or left right ihl ihr => rw [of, ihl, ihr, of, List.map_append]

/-! ## 2. The ways of composing -/

/-- The functions that lowering calls, apart from those that are called with a name. -/
def loweredCalls : List String :=
  ["Value::from", "Value::Int", "Value::Float", "Value::Bool", "get_index", "to_json",
   "to_string_safe", "truthy", "is_defined", "contains"]

/-- What is kept by all ways in which lowered code is written.  `Piece` is what may stand among the
arguments of a call, and `Operand` what may also stand after a sign; both say what a text holds. -/
structure Composes (m : Contents β) (scope : Scope)
    (Piece Operand : List Char → List β → Prop) : Prop where
  ofOperand {cs : List Char} {bs : List β} : Operand cs bs → Piece cs bs
  digits (n : Nat) : Piece (Nat.toDigits 10 n) []
  number {cs : List Char} : IsFloatText cs → Piece cs []
  truthValue (b : Bool) : Piece (if b then "true".toList else "false".toList) []
  null : Operand "Value::Null".toList []
  constant (value : List Char) : Operand (call "Value::from" (quote value)) (m.constant value)
  name {n : List Char} : isIdentifier n = true → Operand (scope.resolve n).print (m.name n)
  prop {cs : List Char} {bs : List β} (n : List Char) : Operand cs bs →
    Operand (call "get_prop" ('&' :: cs ++ ", ".toList ++ quote n)) (bs ++ m.prop n)
  call {f : String} {cs : List Char} {bs : List β} : f ∈ loweredCalls → Piece cs bs →
    Operand (call f cs) bs
  reference {cs : List Char} {bs : List β} : Operand cs bs → Piece ('&' :: cs) bs
  comma {cs ds : List Char} {bs es : List β} : Piece cs bs → Piece ds es →
    Piece (cs ++ ", ".toList ++ ds) (bs ++ es)
  sign {c : Char} {cs : List Char} {bs : List β} : c = '-' ∨ c = '!' → Operand cs bs →
    Operand (c :: cs) bs
  operator {cs ds : List Char} {bs es : List β} (op : Operator) : Operand cs bs → Piece ds es →
    Operand (cs ++ ' ' :: (op.text ++ ' ' :: ds)) (bs ++ es)
  note {filter cs : List Char} {bs : List β} : (∀ c ∈ filter, isIdentChar c = true) →
    Operand cs bs →
    Operand ('/' :: '*' :: (" unsupported filter: ".toList ++ filter ++ [' '] ++
      '*' :: '/' :: ' ' :: cs)) bs

/-! ## 3. Lowered code -/

namespace Composes

variable {m : Contents β} {scope : Scope} {Piece Operand : List Char → List β → Prop}
  (h : Composes m scope Piece Operand) {c d : Code} {l r : List β}
include h

/-- A place in a list is a number in a call, and holds nothing. -/
theorem int (n : Nat) : Operand (Code.int n).print [] :=
  h.call (by simp [loweredCalls]) (h.digits n)

/-- A conversion holds what its operand holds. -/
theorem convert (hc : Operand c.print l) : Operand (Code.convert c).print l :=
  h.call (by simp [loweredCalls]) (h.ofOperand hc)

/-- To ask for the truth of a value is a call around a reference around a conversion. -/
theorem truthOf (hc : Operand c.print l) : Operand (truthOf c).print l :=
  h.call (by simp [loweredCalls]) (h.reference (h.convert hc))

/-- Two references as the arguments of a call. -/
theorem two (hc : Operand c.print l) (hd : Operand d.print r) :
    Piece ('&' :: c.print ++ ", &".toList ++ d.print) (l ++ r) := by
  have hargs := h.comma (h.reference hc) (h.reference hd)
  rwa [List.append_assoc] at hargs ⊢

theorem index (hc : Operand c.print l) (hd : Operand d.print r) :
    Operand (Code.index c d).print (l ++ r) :=
  h.call (by simp [loweredCalls]) (h.two hc hd)

theorem contains (hc : Operand c.print l) (hd : Operand d.print r) :
    Operand (Code.contains c d).print (l ++ r) :=
  h.call (by simp [loweredCalls]) (h.two hc hd)

/-- The comment for an unknown filter stands before the call that turns its operand into a string.
-/
theorem stringify (hc : Operand c.print l) {filter : List Char}
    (hf : ∀ x ∈ filter, isIdentChar x = true) : Operand (Code.stringify filter c).print l := by
  have hstring : Operand (Target.call "to_string_safe" ('&' :: c.print)) l :=
    h.call (by simp [loweredCalls]) (h.reference hc)
  have hvalue : Operand (Target.call "Value::from" (Target.call "to_string_safe"
      ('&' :: c.print))) l :=
    h.call (by simp [loweredCalls]) (h.ofOperand hstring)
  rw [print_stringify_eq_note]
  exact h.note hf hvalue

theorem binary (op : BinOp) (hc : Operand c.print l) (hd : Operand d.print r) :
    Operand (Code.binary c op d).print (l ++ r) := by
  rw [Code.print_binary, ← text_operatorOf, List.append_assoc]
  exact h.operator (operatorOf op) hc (h.ofOperand hd)

/-- Two truth values with a logical operator between them, the left one perhaps joined already. -/
theorem joined (op : Operator) {code : Code → Code → Code}
    (hprint : ∀ x y, (code x y).print = x.print ++ ' ' :: (op.text ++ ' ' :: y.print))
    (hc : Operand c.print l) (hd : Operand d.print r) :
    Operand (code c (Target.truthOf d)).print (l ++ r) := by
  rw [hprint]
  exact h.operator op hc (h.ofOperand (h.truthOf hd))

/-- A membership or a test, with its `not` or without. -/
theorem negateIf (negated : Bool) (hc : Operand c.print l) :
    Operand (negateIf negated c).print l := by
  cases negated with
  | false => exact hc
  | true => exact h.sign (.inr rfl) hc

/-- **What is kept by all ways of composing is true of lowered code.** -/
theorem lower {form : Form} {e : Expr} (he : Shaped form e) :
    Operand (lower scope e).print (m.of e) := by
  induction he with
  | text value => exact h.constant value
  | int _ _ => exact h.int _
  | float hv =>
    exact h.call (by simp [loweredCalls]) (h.number (Decimal.isFloatText_writeFloat hv))
  | bool value => exact h.call (by simp [loweredCalls]) (h.truthValue value)
  | null => exact h.null
  | name hn => exact h.name hn
  | group _ ih => exact h.convert ih
  | attr n _ ih => exact h.prop n ih
  | @place _ index _ _ ih =>
    have hplace := h.index ih (h.int index)
    rwa [List.append_nil] at hplace
  | @item subject key _ _ ih ihkey =>
    have hkey : Operand (if key.isLoneLiteral then Target.lower scope key
        else .convert (Target.lower scope key)).print (m.of key) := by
      split
      · exact ihkey
      · exact h.convert ihkey
    exact h.index ih hkey
  | neg _ ih => exact h.sign (.inl rfl) ih
  | pos _ ih => exact ih
  | toJson _ ih => exact h.call (by simp [loweredCalls]) (h.reference (h.convert ih))
  | filter _ hn ih => exact h.stringify (h.convert ih) hn
  | single _ ih => exact ih
  | @arith _ _ _ op _ _ _ ihl ihr => exact h.binary op ihl ihr
  | @compare _ _ op _ _ _ ihl ihr => exact h.binary op ihl ihr
  | ofChain _ ih => exact ih
  | @defined e negated _ ih =>
    have hdefined : Operand (Code.isDefined (.convert (Target.lower scope e))).print (m.of e) :=
      h.call (by simp [loweredCalls]) (h.reference (h.convert ih))
    exact h.negateIf negated hdefined
  | member negated _ _ ihi ihc =>
    exact h.negateIf negated (h.contains (h.convert ihc) (h.convert ihi))
  | not _ ih => exact h.sign (.inr rfl) (h.truthOf ih)
  | @and left right _ _ ihl ihr =>
    refine h.joined .and (fun _ _ => by simp [Operator.text]) ?_ ihr
    split
    · exact ihl
    · exact h.truthOf ihl
  | @or left right _ _ ihl ihr =>
    refine h.joined .or (fun _ _ => by simp [Operator.text]) ?_ ihr
    split
    · exact ihl
    · exact h.truthOf ihl

end Composes

end TemplateCompiler.Target
