import TemplateCompiler.Proofs.Target.Lexeme
import TemplateCompiler.Target.Lower

/-! # Generated code as typed expressions

The tokens of generated code are read as Rust reads them.  The reader goes through the tokens
once, with a stack of open parentheses: marks are put before an operand, names, calls and fields
are put behind it, and operands with binary operators between them make a chain.  A finished
chain is grouped by precedence, one level after another: `*`, `/` and `%`, then `+` and `-`, then
`^`, then the comparisons, then `&&`, then `||`.

`Term.typeOf` gives the type of a tree.  It knows the constructors of `Value`, the functions of
the prelude and the names in scope, and nothing else: a tree with a type is made of these.  It is
stricter than Rust.  The literals have types of their own, so that none of them is a value or a
truth value before it has been converted; a name that a loop binds can only be borrowed, since its
use as a value would move it away; and an expression in parentheses has no type.
-/

namespace TemplateCompiler.Target

/-! ## 1. Trees -/

/-- What may stand before an operand. -/
inductive Mark where
  | minus
  | not
  | reference
  deriving DecidableEq, Repr

/-- An expression. -/
inductive Term where
  /-- Names with a double colon between each two. -/
  | path (segments : List (List Char))
  | text (value : List Char)
  | int (value : Nat)
  | float (written : List Char)
  | bool (value : Bool)
  /-- An expression in parentheses. -/
  | paren (inner : Term)
  | field (subject : Term) (name : List Char)
  /-- A call of a function, or of a method if the function is a field. -/
  | call (function : Term) (arguments : List Term)
  | marked (mark : Mark) (operand : Term)
  | binary (op : Operator) (left right : Term)
  deriving Repr

/-! ## 2. Precedence -/

/-- How tightly a binary operator binds: a smaller level binds tighter. -/
def Operator.level : Operator → Nat
  | .mul | .div | .rem => 0
  | .add | .sub => 1
  | .xor => 2
  | .eq | .ne | .lt | .le | .gt | .ge => 3
  | .and => 4
  | .or => 5

/-- Whether an operator compares.  Comparisons do not associate. -/
def Operator.isComparison (op : Operator) : Bool := op.level == 3

/-- Operands with binary operators between them. -/
structure Chain where
  first : Term
  rest : List (Operator × Term)
  deriving Repr

/-- A chain with one more operand. -/
def Chain.snoc (c : Chain) (op : Operator) (t : Term) : Chain :=
  { c with rest := c.rest ++ [(op, t)] }

/-- Groups what the operators of one level join, from the left. -/
def passFrom (level : Nat) : Term → List (Operator × Term) → Chain
  | t, [] => { first := t, rest := [] }
  | t, (op, u) :: rest =>
    if op.level = level then passFrom level (.binary op t u) rest
    else
      let more := passFrom level u rest
      { first := t, rest := (op, more.first) :: more.rest }

/-- Groups what the operators of one level join. -/
def Chain.pass (level : Nat) (c : Chain) : Chain := passFrom level c.first c.rest

/-- Whether two comparisons share an operand. -/
def chainsComparisons : List (Operator × Term) → Bool
  | [] => false
  | [_] => false
  | (op, _) :: (op', u) :: rest =>
    op.isComparison && op'.isComparison || chainsComparisons ((op', u) :: rest)

/-- The expression that a chain is.  Comparisons that share an operand are refused. -/
def Chain.group (c : Chain) : Option Term :=
  let c := ((c.pass 0).pass 1).pass 2
  if chainsComparisons c.rest then none
  else
    let c := ((c.pass 3).pass 4).pass 5
    if c.rest.isEmpty then some c.first else none

/-! ## 3. The reader of tokens -/

/-- Words that are never names. -/
def keywordWords : List String :=
  ["as", "break", "const", "continue", "crate", "else", "enum", "extern", "false", "fn", "for",
   "if", "impl", "in", "let", "loop", "match", "mod", "move", "mut", "pub", "ref", "return",
   "self", "Self", "static", "struct", "super", "trait", "true", "type", "unsafe", "use", "where",
   "while", "async", "await", "dyn", "abstract", "become", "box", "do", "final", "macro",
   "override", "priv", "typeof", "unsized", "virtual", "yield", "try", "gen", "_"]

/-- Whether a word is never a name. -/
def isKeywordWord (w : List Char) : Bool := keywordWords.any (·.toList == w)

/-- What has been read of an expression before an operand: the chain and the operator after it,
and the marks of the operand, the outermost first. -/
structure Pending where
  before : Option (Chain × Operator)
  marks : List Mark
  deriving Repr

/-- Before an expression. -/
def Pending.fresh : Pending := { before := none, marks := [] }

/-- An operand with its marks. -/
def applyMarks (marks : List Mark) (t : Term) : Term := marks.foldr .marked t

/-- The chain that ends with an operand. -/
def Pending.chain (p : Pending) (t : Term) : Chain :=
  match p.before with
  | none => { first := applyMarks p.marks t, rest := [] }
  | some (c, op) => c.snoc op (applyMarks p.marks t)

/-- An open parenthesis: what stands before it, and for a call the function and the arguments
that are finished. -/
inductive Frame where
  | paren (outer : Pending)
  | arguments (outer : Pending) (function : Term) (done : List Term)
  deriving Repr

/-- What may come next. -/
inductive Mode where
  /-- An operand, or a mark before it. -/
  | operand
  /-- The next name of a path. -/
  | segment (path : List (List Char))
  /-- The name of a field. -/
  | field (subject : Term)
  /-- Anything that may follow an operand. -/
  | after (t : Term)
  deriving Repr

/-- The state of the reader. -/
structure ReadState where
  mode : Mode
  pending : Pending
  stack : List Frame
  deriving Repr

/-- A mark before the operand that is awaited. -/
def ReadState.mark (s : ReadState) (m : Mark) : ReadState :=
  { s with pending := { s.pending with marks := s.pending.marks ++ [m] } }

/-- The end of the innermost parenthesis, after an operand. -/
def ReadState.close (s : ReadState) (t : Term) : Option ReadState := do
  let u ← (s.pending.chain t).group
  match s.stack with
  | [] => none
  | .paren outer :: stack => some { mode := .after (.paren u), pending := outer, stack }
  | .arguments outer f done :: stack =>
    some { mode := .after (.call f (done ++ [u])), pending := outer, stack }

/-- The end of an argument that is not the last. -/
def ReadState.comma (s : ReadState) (t : Term) : Option ReadState := do
  let u ← (s.pending.chain t).group
  match s.stack with
  | .arguments outer f done :: stack =>
    some { mode := .operand, pending := .fresh, stack := .arguments outer f (done ++ [u]) :: stack }
  | _ => none

/-- The end of an empty list of arguments. -/
def ReadState.closeEmpty (s : ReadState) : Option ReadState :=
  match s.pending.before, s.pending.marks, s.stack with
  | none, [], .arguments outer f [] :: stack =>
    some { mode := .after (.call f []), pending := outer, stack }
  | _, _, _ => none

/-- An operand that is one token. -/
def operandOf? : Token → Option Term
  | .word w =>
    if w = "true".toList then some (.bool true)
    else if w = "false".toList then some (.bool false)
    else if isKeywordWord w then none
    else some (.path [w])
  | .text value => some (.text value)
  | .int value => some (.int value)
  | .float written => some (.float written)
  | .symbol _ => none

/-- Reads a token where an operand is awaited. -/
def ReadState.stepOperand (s : ReadState) : Token → Option ReadState
  | .symbol (.operator .sub) => some (s.mark .minus)
  | .symbol .exclamation => some (s.mark .not)
  | .symbol .ampersand => some (s.mark .reference)
  | .symbol .leftParen =>
    some { mode := .operand, pending := .fresh, stack := .paren s.pending :: s.stack }
  | .symbol .rightParen => s.closeEmpty
  | t => (operandOf? t).map fun t => { s with mode := .after t }

/-- Reads a token after an operand. -/
def ReadState.stepAfter (s : ReadState) (t : Term) : Token → Option ReadState
  | .symbol .pathSeparator =>
    match t with
    | .path segments => some { s with mode := .segment segments }
    | _ => none
  | .symbol .dot => some { s with mode := .field t }
  | .symbol .leftParen =>
    some { mode := .operand, pending := .fresh, stack := .arguments s.pending t [] :: s.stack }
  | .symbol (.operator op) =>
    some { s with
      mode := .operand, pending := { before := some (s.pending.chain t, op), marks := [] } }
  | .symbol .comma => s.comma t
  | .symbol .rightParen => s.close t
  | _ => none

/-- Reads a name. -/
def ReadState.stepName (s : ReadState) (make : List Char → Term) : Token → Option ReadState
  | .word w => if isKeywordWord w then none else some { s with mode := .after (make w) }
  | _ => none

/-- Reads a token. -/
def ReadState.step (s : ReadState) (t : Token) : Option ReadState :=
  match s.mode with
  | .operand => s.stepOperand t
  | .segment path => s.stepName (fun w => .path (path ++ [w])) t
  | .field subject => s.stepName (.field subject) t
  | .after u => s.stepAfter u t

/-- Reads tokens. -/
def ReadState.run (s : ReadState) (ts : List Token) : Option ReadState := ts.foldlM step s

/-- Before the first token. -/
def ReadState.start : ReadState := { mode := .operand, pending := .fresh, stack := [] }

/-- After the last token. -/
def ReadState.finish (s : ReadState) : Option Term :=
  match s.mode, s.stack with
  | .after t, [] => (s.pending.chain t).group
  | _, _ => none

/-- Reads a text as one expression. -/
def readTerm (cs : List Char) : Option Term := do
  let s ← ReadState.start.run (← lex cs)
  s.finish

/-! ## 4. Types -/

/-- The types of generated expressions and of their parts. -/
inductive Ty where
  | value
  | bool
  /-- The words `true` and `false`. -/
  | truth
  | int
  | float
  /-- A string literal. -/
  | str
  | string
  /-- A name that a loop binds. -/
  | binding
  /-- The map of the assigned names. -/
  | locals
  | reference (ty : Ty)
  deriving DecidableEq, Repr

/-- The names that generated code may use besides those of the prelude: the fields of the input
and the names that are bound, as they are written. -/
structure Env where
  fields : List (List Char)
  bindings : List (List Char)
  deriving DecidableEq, Repr

/-- The names of a scope, as they are written. -/
def Scope.env (scope : Scope) : Env :=
  { fields := scope.fields.map bindingName, bindings := scope.bound.map bindingName }

/-- A function: its path, the types that each parameter takes, and the type of the result. -/
structure Signature where
  path : List (List Char)
  parameters : List (List Ty)
  result : Ty
  deriving DecidableEq, Repr

/-- The constructors and functions that the prelude offers to expressions.  A value can be made
of anything that has a conversion, a value among it. -/
def signatures : List Signature :=
  [⟨["Value".toList, "Int".toList], [[.int]], .value⟩,
   ⟨["Value".toList, "Float".toList], [[.float]], .value⟩,
   ⟨["Value".toList, "Bool".toList], [[.bool, .truth]], .value⟩,
   ⟨["Value".toList, "from".toList], [[.value, .bool, .truth, .int, .float, .str, .string]],
    .value⟩,
   ⟨["get_var".toList],
    [[.reference .locals], [.str], [.reference .value, .reference .binding]], .value⟩,
   ⟨["get_prop".toList], [[.reference .value], [.str]], .value⟩,
   ⟨["get_index".toList], [[.reference .value], [.reference .value]], .value⟩,
   ⟨["to_json".toList], [[.reference .value]], .value⟩,
   ⟨["to_string_safe".toList], [[.reference .value]], .string⟩,
   ⟨["is_defined".toList], [[.reference .value]], .bool⟩,
   ⟨["truthy".toList], [[.reference .value]], .bool⟩,
   ⟨["contains".toList], [[.reference .value], [.reference .value]], .bool⟩]

/-- Whether arguments of some types fit the parameters. -/
def fits : List (List Ty) → List Ty → Bool
  | [], [] => true
  | accepted :: parameters, ty :: types => accepted.contains ty && fits parameters types
  | _, _ => false

/-- The type of a call.  A name that is bound hides the function of that name. -/
def Env.callType (env : Env) (path : List (List Char)) (types : List Ty) : Option Ty :=
  if env.bindings.any (path == [·]) then none
  else
    (signatures.find? (·.path == path)).bind fun s =>
      if fits s.parameters types then some s.result else none

/-- The type of a name: two of the constructors of `Value`, the map of the assigned names, or a
name that is bound. -/
def Env.pathType (env : Env) (path : List (List Char)) : Option Ty :=
  if env.bindings.any (path == [·]) then some .binding
  else if path = ["Value".toList, "Null".toList] ∨ path = ["Value".toList, "Undefined".toList] then
    some .value
  else if path = ["__locals".toList] then some .locals
  else none

/-- The type of a copy of one of the input's fields. -/
def Env.cloneType (env : Env) (input : List (List Char)) (field method : List Char) : Option Ty :=
  if input == ["context".toList] && !env.bindings.contains "context".toList &&
      env.fields.contains field && method == "clone".toList then
    some .value
  else none

/-- What a mark makes of a type. -/
def Mark.type : Mark → Ty → Option Ty
  | .minus, ty => if ty = .value then some .value else none
  | .not, ty => if ty = .bool then some .bool else none
  | .reference, ty => some (.reference ty)

/-- The type of the operands of an operator. -/
def Operator.operandType (op : Operator) : Ty := if op.level ≤ 3 then .value else .bool

/-- The type of what an operator computes. -/
def Operator.resultType (op : Operator) : Ty := if op.level < 3 then .value else .bool

mutual

/-- The type of an expression, if it has one. -/
def Term.typeOf (env : Env) : Term → Option Ty
  | .path segments => env.pathType segments
  | .text _ => some .str
  | .int value => if value < 0x8000000000000000 then some .int else none
  | .float _ => some .float
  | .bool _ => some .truth
  | .paren _ => none
  | .field _ _ => none
  | .call function arguments =>
    match function with
    | .path segments => (Term.typesOf env arguments).bind (env.callType segments)
    | .field (.field (.path input) name) method =>
      if arguments.isEmpty then env.cloneType input name method else none
    | _ => none
  | .marked mark operand => (operand.typeOf env).bind mark.type
  | .binary op left right =>
    if left.typeOf env = some op.operandType ∧ right.typeOf env = some op.operandType then
      some op.resultType
    else none

/-- The types of several expressions, if all have one. -/
def Term.typesOf (env : Env) : List Term → Option (List Ty)
  | [] => some []
  | t :: ts =>
    match t.typeOf env, Term.typesOf env ts with
    | some ty, some types => some (ty :: types)
    | _, _ => none

end

end TemplateCompiler.Target
