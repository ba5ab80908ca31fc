import TemplateCompiler.Proofs.Outcome
import TemplateCompiler.Target.Body

/-! # Equations of lowering and of the printer

How each kind of generated expression is written, one equation a constructor.  They hold by
computation, and the proofs about generated texts rewrite with them: no such proof unfolds the
printer.

* **The printer is compositional.**  What is written for a node is made of fixed texts and of what
  is written for its parts, and no node looks into its parts.  So an equation for each constructor
  is all there is to say (section 1).
* **Lowering is compositional but for one place**: the earlier part of an `and` or an `or` is looked
  at, since a chain of the same operator is joined without asking for the truth of each beginning
  again.  Where that does not happen, `lower_and_of_ne` and `lower_or_of_ne` say what is written
  (section 2).
* **What a node is compiled to** is said once for each kind of node, as what a success tells:
  which parts were compiled, in which scope, and which statements came out (section 3).  Every proof
  about compiled templates is an induction over the nodes that starts each case from here.
-/

namespace TemplateCompiler.Target

/-! ## 1. Printing -/

@[simp] theorem Code.print_text (value : List Char) :
    (Code.text value).print = call "Value::from" (quote value) := rfl

/-- Digits are those of the number, without leading zeros. -/
@[simp] theorem Code.print_int (value : Nat) :
    (Code.int value).print = call "Value::Int" (Nat.toDigits 10 value) := rfl

@[simp] theorem Code.print_float (value : Float) :
    (Code.float value).print = call "Value::Float" (Decimal.writeFloat floatStyle value) := rfl

@[simp] theorem Code.print_bool (value : Bool) :
    (Code.bool value).print =
      call "Value::Bool" (if value then "true".toList else "false".toList) := rfl

@[simp] theorem Code.print_null : Code.null.print = "Value::Null".toList := rfl

/-- A name bound by a loop: an assignment of that name is looked for first, and the loop's variable
is what it falls back to. -/
@[simp] theorem Code.print_bound (name : List Char) :
    (Code.bound name).print =
      call "get_var" ("&__locals, ".toList ++ quote name ++ ", &".toList ++ bindingName name) := rfl

/-- A field of the context stands for itself; nothing is looked up. -/
@[simp] theorem Code.print_field (name : List Char) :
    (Code.field name).print = "context.".toList ++ bindingName name ++ ".clone()".toList := rfl

/-- A name that no field and no loop binds is an assignment or undefined. -/
@[simp] theorem Code.print_free (name : List Char) :
    (Code.free name).print =
      call "get_var" ("&__locals, ".toList ++ quote name ++ ", &Value::Undefined".toList) := rfl

/-- The conversion that each whole value is wrapped in. -/
@[simp] theorem Code.print_convert (inner : Code) :
    (Code.convert inner).print = call "Value::from" inner.print := rfl

@[simp] theorem Code.print_prop (subject : Code) (name : List Char) :
    (Code.prop subject name).print =
      call "get_prop" ('&' :: subject.print ++ ", ".toList ++ quote name) := rfl

@[simp] theorem Code.print_index (subject key : Code) :
    (Code.index subject key).print =
      call "get_index" ('&' :: subject.print ++ ", &".toList ++ key.print) := rfl

@[simp] theorem Code.print_toJson (operand : Code) :
    (Code.toJson operand).print = call "to_json" ('&' :: operand.print) := rfl

/-- The name of the unknown filter is kept in a comment, and the operand is turned into a string. -/
@[simp] theorem Code.print_stringify (filter : List Char) (operand : Code) :
    (Code.stringify filter operand).print =
      "/* unsupported filter: ".toList ++ filter ++ " */ ".toList ++
        call "Value::from" (call "to_string_safe" ('&' :: operand.print)) := rfl

/-- A sign is written against its operand, without a blank and without parentheses. -/
@[simp] theorem Code.print_neg (operand : Code) :
    (Code.neg operand).print = '-' :: operand.print := rfl

/-- An operator stands between blanks.  Its operands bring no parentheses with them: the printer
relies on the precedence of the target. -/
@[simp] theorem Code.print_binary (left right : Code) (op : BinOp) :
    (Code.binary left op right).print =
      left.print ++ ' ' :: operatorText op ++ ' ' :: right.print := rfl

@[simp] theorem Code.print_truthy (operand : Code) :
    (Code.truthy operand).print = call "truthy" ('&' :: operand.print) := rfl

@[simp] theorem Code.print_isDefined (operand : Code) :
    (Code.isDefined operand).print = call "is_defined" ('&' :: operand.print) := rfl

/-- The container comes first, other than in the source. -/
@[simp] theorem Code.print_contains (container item : Code) :
    (Code.contains container item).print =
      call "contains" ('&' :: container.print ++ ", &".toList ++ item.print) := rfl

@[simp] theorem Code.print_not (operand : Code) :
    (Code.not operand).print = '!' :: operand.print := rfl

/-- Conjunctions are written without parentheses, and so are disjunctions.  A disjunction below a
conjunction is in a call, so none are needed. -/
@[simp] theorem Code.print_and (left right : Code) :
    (Code.and left right).print = left.print ++ " && ".toList ++ right.print := rfl

@[simp] theorem Code.print_or (left right : Code) :
    (Code.or left right).print = left.print ++ " || ".toList ++ right.print := rfl

/-! ## 2. Lowering -/

/-- Unless the earlier part is a conjunction itself, both parts are asked for their truth. -/
theorem lower_and_of_ne {scope : Scope} {left : Expr} (right : Expr)
    (h : ∀ a b, left ≠ .and a b) :
    lower scope (.and left right) =
      .and (truthOf (lower scope left)) (truthOf (lower scope right)) := by
  cases left with
  | and a b => exact absurd rfl (h a b)
  | _ => rfl

/-- The same for a disjunction; only a disjunction in front is taken over as it is. -/
theorem lower_or_of_ne {scope : Scope} {left : Expr} (right : Expr)
    (h : ∀ a b, left ≠ .or a b) :
    lower scope (.or left right) =
      .or (truthOf (lower scope left)) (truthOf (lower scope right)) := by
  cases left with
  | or a b => exact absurd rfl (h a b)
  | _ => rfl

/-! ## 3. Compiled nodes -/

section
open Template
variable {scope : Scope} {ss : List Stmt} {s : Snippet} {name : List Char} {body : List Node}
  {arms : Arms} {sa : StmtArms}

/-- **A snippet compiles to the lowering of what it reads as.** -/
theorem eq_lower_of_compileSnippet {c : Code} (h : compileSnippet scope s = .ok c) :
    ∃ e, Expr.read s.source = .ok e ∧ c = lower scope e := by
  unfold compileSnippet compileExpr at h
  split at h
  · rename_i e hread
    cases h
    exact ⟨e, hread, rfl⟩
  · cases h

/-- An output is one statement, which pushes the converted value. -/
theorem eq_pushValue_of_compileNode (h : compileNode scope (.output s) = .ok ss) :
    ∃ c, compileSnippet scope s = .ok c ∧ ss = [.pushValue (.convert c)] := by
  rw [compileNode] at h
  obtain ⟨c, hc, h⟩ := eq_ok_of_bind h
  cases h
  exact ⟨c, hc, rfl⟩

/-- An assignment is one statement too.  That it compiles means also that its name is no field of
the context; that part is not needed here. -/
theorem eq_insert_of_compileNode (h : compileNode scope (.assign name s) = .ok ss) :
    ∃ c, compileSnippet scope s = .ok c ∧ ss = [.insert name (.convert c)] := by
  rw [compileNode] at h
  split at h
  · cases h
  · obtain ⟨c, hc, h⟩ := eq_ok_of_bind h
    cases h
    exact ⟨c, hc, rfl⟩

/-- A choice is one statement, with an arm for each arm of the source. -/
theorem eq_choose_of_compileNode (h : compileNode scope (.choice arms) = .ok ss) :
    ∃ sa, compileArms scope arms = .ok sa ∧ ss = [.choose sa] := by
  rw [compileNode] at h
  obtain ⟨sa, hsa, h⟩ := eq_ok_of_bind h
  cases h
  exact ⟨sa, hsa, rfl⟩

/-- A loop is one block.  Its body is compiled in the scope of the loop, its sequence in the scope
around it. -/
theorem eq_loopBlock_of_compileNode (h : compileNode scope (.loop name s body) = .ok ss) :
    ∃ c inner, compileSnippet scope s = .ok c ∧
      compileNodes (scope.inLoop name) body = .ok inner ∧ ss = [loopBlock name c inner] := by
  rw [compileNode] at h
  obtain ⟨c, hc, h⟩ := eq_ok_of_bind h
  obtain ⟨inner, hinner, h⟩ := eq_ok_of_bind h
  cases h
  exact ⟨c, inner, hc, hinner, rfl⟩

/-- Nodes are compiled one after the other, all in the same scope. -/
theorem eq_append_of_compileNodes {n : Node} (h : compileNodes scope (n :: body) = .ok ss) :
    ∃ first more, compileNode scope n = .ok first ∧ compileNodes scope body = .ok more ∧
      ss = first ++ more := by
  rw [compileNodes] at h
  obtain ⟨first, hfirst, h⟩ := eq_ok_of_bind h
  obtain ⟨more, hmore, h⟩ := eq_ok_of_bind h
  cases h
  exact ⟨first, more, hfirst, hmore, rfl⟩

/-- The arm without a condition. -/
theorem eq_otherwise_of_compileArms (h : compileArms scope (.otherwise body) = .ok sa) :
    ∃ inner, compileNodes scope body = .ok inner ∧ sa = .otherwise inner := by
  rw [compileArms] at h
  obtain ⟨inner, hinner, h⟩ := eq_ok_of_bind h
  cases h
  exact ⟨inner, hinner, rfl⟩

/-- Conditions are compiled for their truth, without the conversion. -/
theorem eq_arm_of_compileArms (h : compileArms scope (.arm s body arms) = .ok sa) :
    ∃ c inner more, compileSnippet scope s = .ok c ∧ compileNodes scope body = .ok inner ∧
      compileArms scope arms = .ok more ∧ sa = .arm (truthOf c) inner more := by
  rw [compileArms] at h
  obtain ⟨c, hc, h⟩ := eq_ok_of_bind h
  obtain ⟨inner, hinner, h⟩ := eq_ok_of_bind h
  obtain ⟨more, hmore, h⟩ := eq_ok_of_bind h
  cases h
  exact ⟨c, inner, more, hc, hinner, hmore, rfl⟩

end

/-! ## 4. Statements -/

/-- The lines of several statements are the lines of each, in order. -/
theorem stmtsLines_append (depth : Nat) (ss rest : List Stmt) :
    stmtsLines depth (ss ++ rest) = stmtsLines depth ss ++ stmtsLines depth rest := by
  induction ss with
  | nil => rfl
  | cons s ss ih => rw [List.cons_append, stmtsLines, stmtsLines, ih, List.append_assoc]

end TemplateCompiler.Target
