import TemplateCompiler.Proofs.Target.Containment

/-! # The name of a renderer's type

A renderer is a type without fields, in a file with a prelude of its own.  Its name must be an
identifier, it must be none of the names that stand in the file already, and no `let` of the
renderer's body may bind it, since a pattern of that name would be the type's value.

The name is an identifier whatever it is made of (`isIdentifier_typeName`), and it is no keyword and
none of the reserved names (`typeName_ne`).  But not all that a file declares and binds is reserved.
`typeName_mem_declaredBy` says which items of the prelude a type may meet, and
`letNames_of_compile` what a renderer binds: names with two underscores at their start, of which
only the bindings of template names keep clear, and the variables of the template's loops.
-/

namespace TemplateCompiler.Target

open Text Template

/-! ## 1. The shape of a type's name -/

/-- A name before it is kept apart from other names. -/
def plainName (name : List Char) : List Char :=
  (sanitize name).map fun c => if c == '-' then '_' else c

theorem typeName_eq (name : List Char) :
    typeName name =
      if startsWithDigit (plainName name) then '_' :: plainName name
      else if isKeyword (plainName name) || isReserved (plainName name) then plainName name ++ ['_']
      else plainName name := rfl

theorem plainName_ne_nil (name : List Char) : plainName name ≠ [] := by
  rw [plainName, Ne, List.map_eq_nil_iff, sanitize]
  split
  · decide
  · rename_i hkept
    exact hkept

theorem isIdentStart_of_isIdentChar {c : Char} (h : isIdentChar c = true)
    (hdigit : c.isDigit = false) : isIdentStart c = true := by
  simpa [isIdentChar, isIdentStart, Char.isAlphanum, hdigit] using h

/-- **The name of a type is an identifier.** -/
theorem isIdentifier_typeName (name : List Char) : isIdentifier (typeName name) = true := by
  have hall : (typeName name).all isIdentChar = true := all_typeName (fun _ hc => hc) name
  have hne := plainName_ne_nil name
  suffices hstart : ∀ c ∈ (typeName name).head?, c.isDigit = false by
    cases htype : typeName name with
    | nil =>
      rw [typeName_eq] at htype
      split at htype
      · cases htype
      split at htype
      · simp at htype
      · exact absurd htype hne
    | cons c rest =>
      rw [htype] at hall hstart
      simp only [List.all_cons, Bool.and_eq_true] at hall
      rw [isIdentifier, isIdentStart_of_isIdentChar hall.1 (hstart c rfl), hall.2]
      rfl
  intro c hc
  rw [typeName_eq] at hc
  obtain ⟨d, more, hplain⟩ := List.exists_cons_of_ne_nil hne
  rw [hplain] at hc
  split at hc
  · cases hc
    rfl
  · rename_i hdigit
    obtain rfl : d = c := by split at hc <;> simpa using hc
    simpa [startsWithDigit] using hdigit

/-- **It is no keyword and no reserved name.** -/
theorem typeName_ne {w : String} (hw : w ∈ keywordWords ++ reservedNames) (name : List Char) :
    typeName name ≠ w.toList := by
  have hwords : ∀ w ∈ keywordWords ++ reservedNames, w ∈ keywords ∨ w ∈ reservedNames := by
    decide +kernel
  obtain ⟨hdigit, hlast, -, -⟩ := takenWords_shape w (List.mem_cons_of_mem _ hw)
  have htaken : (isKeyword w.toList || isReserved w.toList) = true := by
    rw [Bool.or_eq_true, isKeyword, isReserved, List.any_eq_true, List.any_eq_true]
    exact (hwords w hw).imp (fun h => ⟨w, h, beq_self_eq_true _⟩)
      fun h => ⟨w, h, beq_self_eq_true _⟩
  intro h
  rw [typeName_eq] at h
  split at h
  · rename_i hplain
    rw [← h] at hdigit
    simp [hplain] at hdigit
  split at h
  · rw [← h] at hlast
    exact plainName_ne_nil name (by simpa using hlast (by simp))
  · rename_i hfree
    rw [h] at hfree
    exact hfree htaken

theorem isReserved_typeName (name : List Char) : isReserved (typeName name) = false := by
  rw [isReserved, List.any_eq_false]
  intro w hw
  rw [beq_iff_eq]
  exact (typeName_ne (List.mem_append_right _ hw) name).symm

/-- An identifier that is not guarded is kept. -/
theorem typeName_eq_self {name : List Char} (hident : isIdentifier name = true)
    (hkey : isKeyword name = false) (hreserved : isReserved name = false) :
    typeName name = name := by
  have hchars : ∀ c ∈ name, isIdentChar c = true := fun c hc => isIdentChar_of_mem hident hc
  have hkept : sanitize name = name := by
    have hfilter : name.filter (fun c => isIdentChar c || c == '-') = name :=
      List.filter_eq_self.2 fun c hc => by simp [hchars c hc]
    rw [sanitize, hfilter]
    split
    · cases hident
    · rfl
  have hplain : plainName name = name := by
    have hne : ∀ c ∈ name, c ≠ '-' := by
      rintro c hc rfl
      exact absurd (hchars '-' hc) (by decide)
    rw [plainName, hkept]
    exact (List.map_congr_left fun c hc => if_neg (by simpa using hne c hc)).trans
      (List.map_id'' (fun _ => rfl) name)
  rw [typeName_eq, hplain, startsWithDigit_of_isIdentifier hident, hkey, hreserved]
  rfl

/-! ## 2. The items of the prelude -/

/-- The words that an item can start with. -/
def itemWords : List String :=
  ["fn ", "struct ", "enum ", "union ", "trait ", "type ", "const ", "static ", "mod "]

/-- The names in a text. -/
def wordsOf (cs : List Char) : List (List Char) :=
  (cs.splitOnP fun c => !isIdentChar c).filter fun w => !w.isEmpty

/-- The names that a line declares or imports if it is not indented.  An import gives what stands
after the last colon of its path. -/
def declaredNames (line : List Char) : List (List Char) :=
  let line := if "pub ".toList.isPrefixOf line then line.drop 4 else line
  if "use ".toList.isPrefixOf line then wordsOf (line.reverse.takeWhile (· != ':')).reverse
  else
    match itemWords.find? (·.toList.isPrefixOf line) with
    | some w => [(line.drop w.length).takeWhile isIdentChar]
    | none => []

/-- The names that lines declare. -/
def declaredBy (lines : List String) : List (List Char) :=
  lines.flatMap fun l => declaredNames l.toList

/-- One more line.  Its characters are those that its literal is made of. -/
theorem declaredBy_cons {line : List Char} {lines : List String} {before names : List (List Char)}
    (h : before ++ declaredNames line ++ declaredBy lines = names) :
    before ++ declaredBy (String.ofList line :: lines) = names := by
  simpa [declaredBy] using h

section
-- the longer parts of the prelude have over a hundred lines
set_option maxRecDepth 20000

theorem declaredBy_preludeValue : declaredBy preludeValue =
    ["Ordering", "HashMap", "fmt", "Add", "BitXor", "Div", "Mul", "Neg", "Rem", "Sub", "Arc",
      "Value", "usize_value"].map String.toList := by
  rw [← List.nil_append (declaredBy _)]
  dsimp only [preludeValue]
  repeat refine declaredBy_cons ?_
  decide +kernel

theorem declaredBy_preludeComparison :
    declaredBy preludeComparison = ["lookup"].map String.toList := by
  rw [← List.nil_append (declaredBy _)]
  dsimp only [preludeComparison]
  repeat refine declaredBy_cons ?_
  decide +kernel

theorem declaredBy_preludeArithmetic :
    declaredBy preludeArithmetic = ["arithmetic"].map String.toList := by
  rw [← List.nil_append (declaredBy _)]
  dsimp only [preludeArithmetic]
  repeat refine declaredBy_cons ?_
  decide +kernel

theorem declaredBy_preludePrinting : declaredBy preludePrinting =
    ["LoopInfo", "to_string_safe", "repr", "repr_str", "format_float"].map String.toList := by
  rw [← List.nil_append (declaredBy _)]
  dsimp only [preludePrinting]
  repeat refine declaredBy_cons ?_
  decide +kernel

theorem declaredBy_preludeTests : declaredBy preludeTests =
    ["is_defined", "truthy", "to_json", "write_json", "write_json_str"].map String.toList := by
  rw [← List.nil_append (declaredBy _)]
  dsimp only [preludeTests]
  repeat refine declaredBy_cons ?_
  decide +kernel

theorem declaredBy_preludeAccess : declaredBy preludeAccess =
    ["as_list", "get_var", "get_prop", "get_index", "resolve_position", "contains"].map
      String.toList := by
  rw [← List.nil_append (declaredBy _)]
  dsimp only [preludeAccess]
  repeat refine declaredBy_cons ?_
  decide +kernel

end

/-- The items of the prelude. -/
def preludeItems : List String :=
  ["Ordering", "HashMap", "fmt", "Add", "BitXor", "Div", "Mul", "Neg", "Rem", "Sub", "Arc", "Value",
   "usize_value", "lookup", "arithmetic", "LoopInfo", "to_string_safe", "repr", "repr_str",
   "format_float", "is_defined", "truthy", "to_json", "write_json", "write_json_str", "as_list",
   "get_var", "get_prop", "get_index", "resolve_position", "contains"]

/-- **What the prelude declares and imports.** -/
theorem declaredBy_preludeLines : declaredBy preludeLines = preludeItems.map String.toList := by
  have happend (ls ms : List String) : declaredBy (ls ++ ms) = declaredBy ls ++ declaredBy ms :=
    List.flatMap_append
  simp only [preludeLines, happend, declaredBy_preludeValue, declaredBy_preludeComparison,
    declaredBy_preludeArithmetic, declaredBy_preludePrinting, declaredBy_preludeTests,
    declaredBy_preludeAccess]
  rfl

/-- The items of the prelude that are not reserved. -/
def unreservedItems : List String :=
  ["Ordering", "fmt", "Add", "BitXor", "Div", "Mul", "Neg", "Rem", "Sub", "usize_value", "lookup",
   "arithmetic", "repr", "repr_str", "format_float", "write_json", "write_json_str",
   "resolve_position"]

theorem unreservedItems_eq :
    unreservedItems = preludeItems.filter fun w => !isReserved w.toList := by
  decide +kernel

/-- **A type meets an item of the prelude exactly where the item is not reserved.** -/
theorem typeName_mem_declaredBy (name : List Char) :
    typeName name ∈ declaredBy preludeLines ↔
      typeName name ∈ unreservedItems.map String.toList := by
  rw [declaredBy_preludeLines, unreservedItems_eq]
  simp only [List.mem_map, List.mem_filter]
  constructor
  · rintro ⟨w, hw, heq⟩
    refine ⟨w, ⟨hw, ?_⟩, heq⟩
    rw [heq, isReserved_typeName]
    rfl
  · rintro ⟨w, ⟨hw, -⟩, heq⟩
    exact ⟨w, hw, heq⟩

/-! ## 3. What lines bind -/

def letStarts : List String := ["let mut ", "let ", "if let Some("]

/-- A character of a name, or the mark of a raw one. -/
def isNameChar (c : Char) : Bool := isIdentChar c || c == '#'

/-- The name that a line binds with `let`. -/
def letName? (line : List Char) : Option (List Char) :=
  (letStarts.find? (·.toList.isPrefixOf line)).map fun start =>
    (line.drop start.length).takeWhile isNameChar

/-- The names that lines bind. -/
def letNames (ls : List Line) : List (List Char) := ls.filterMap fun l => letName? l.text

/-- The names that the statements of a loop bind around its body. -/
def loopLets (name : List Char) : List (List Char) :=
  ["__items".toList, "__shadowed".toList, bindingName name, "r#loop".toList, "__value".toList]

/-- Lines that bind what loops over these variables bind. -/
def BindLoops (ls : List Line) (names : List (List Char)) : Prop :=
  ∀ x, x ∈ letNames ls ↔ ∃ n ∈ names, x ∈ loopLets n

section
variable {ls ms : List Line} {names others : List (List Char)}

theorem letNames_append (ls ms : List Line) : letNames (ls ++ ms) = letNames ls ++ letNames ms :=
  List.filterMap_append

theorem bindLoops_of_letNames (h : letNames ls = []) : BindLoops ls [] := by
  simp [BindLoops, h]

theorem BindLoops.append (h : BindLoops ls names) (h' : BindLoops ms others) :
    BindLoops (ls ++ ms) (names ++ others) := by
  intro x
  rw [letNames_append, List.mem_append, h x, h' x]
  simp only [List.mem_append, or_and_right, exists_or]

theorem letNames_between (front after ls : List Line) (hfront : letNames front = [])
    (hafter : letNames after = []) : letNames (front ++ ls ++ after) = letNames ls := by
  rw [letNames_append, letNames_append, hfront, hafter, List.nil_append, List.append_nil]

theorem BindLoops.between (h : BindLoops ls names) (front after : List Line)
    (hfront : letNames front = []) (hafter : letNames after = []) :
    BindLoops (front ++ ls ++ after) names := by
  rw [BindLoops, letNames_between front after ls hfront hafter]
  exact h

/-- A binding is no mark of a `let`. -/
theorem letName?_element {name : List Char} (h : isIdentifier name = true) :
    letName? ("let ".toList ++ bindingName name ++ " = __items[__i].clone();".toList) =
      some (bindingName name) := by
  have hchars : ∀ c ∈ bindingName name, isNameChar c = true :=
    List.all_eq_true.1 (all_bindingName (fun c hc => by simp [isNameChar, hc]) rfl h)
  generalize htext : bindingName name ++ " = __items[__i].clone();".toList = text
  have hword : text.takeWhile isNameChar = bindingName name := by
    rw [← htext]
    refine (takeWhile_append_of_head hchars fun c hc => ?_).1
    cases hc
    rfl
  -- otherwise the name would be the keyword
  have hmut : "let mut ".toList.isPrefixOf ("let ".toList ++ text) = false := by
    change "mut ".toList.isPrefixOf text = false
    rw [Bool.eq_false_iff, Ne, List.isPrefixOf_iff_prefix]
    rintro ⟨rest, rfl⟩
    exact bindingName_ne (w := "mut") (by decide) name hword.symm
  have hlet : "let ".toList.isPrefixOf ("let ".toList ++ text) = true := rfl
  rw [List.append_assoc, htext, letName?, letStarts, List.find?_cons, hmut, List.find?_cons, hlet,
    Option.map_some]
  exact congrArg some hword

/-- A loop binds its own names and what the loops in its body bind. -/
theorem BindLoops.loopBlock {name : List Char} (hname : isIdentifier name = true) (items : Code)
    {depth : Nat} {body : List Stmt} (h : BindLoops (stmtsLines (depth + 2) body) names) :
    BindLoops ((Target.loopBlock name items body).lines depth) (name :: names) := by
  have hitems : letNames ((Stmt.letItems (.convert items)).lines (depth + 1)) =
      ["__items".toList] := rfl
  have hshadowed : letNames ((Stmt.letShadowed name).lines (depth + 1)) =
      ["__shadowed".toList] := rfl
  have hremove : letNames ((Stmt.remove name).lines (depth + 2)) = [] := rfl
  have helement : letNames ((Stmt.letElement name).lines (depth + 2)) = [bindingName name] := by
    rw [Stmt.lines, letNames, List.filterMap_cons, letName?_element hname]
    rfl
  have hloop : letNames (Stmt.letLoop.lines (depth + 2)) = ["r#loop".toList] := rfl
  have hrestore : letNames ((Stmt.restore name).lines (depth + 1)) = ["__value".toList] := rfl
  have heach : letNames
      ((Stmt.eachItem (.remove name :: .letElement name :: .letLoop :: body)).lines (depth + 1)) =
        bindingName name :: "r#loop".toList :: letNames (stmtsLines (depth + 2) body) := by
    rw [Stmt.lines]
    refine (letNames_between [_] [_] _ rfl rfl).trans ?_
    simp only [stmtsLines, letNames_append, hremove, helement, hloop, List.nil_append,
      List.cons_append]
  have hblock : letNames ((Target.loopBlock name items body).lines depth) =
      "__items".toList :: "__shadowed".toList :: bindingName name :: "r#loop".toList ::
        (letNames (stmtsLines (depth + 2) body) ++ ["__value".toList]) := by
    rw [Target.loopBlock, Stmt.lines]
    refine (letNames_between [_] [_] _ rfl rfl).trans ?_
    simp only [stmtsLines, letNames_append, hitems, hshadowed, heach, hrestore, List.append_nil,
      List.nil_append, List.cons_append]
  intro x
  rw [hblock]
  simp only [List.mem_cons, List.mem_append, h x, loopLets, List.not_mem_nil, or_false,
    or_and_right, exists_or, exists_eq_left]
  grind

end

/-! ## 4. What a template binds -/

mutual

/-- The variables of the loops of a node. -/
def nodeVariables : Node → List (List Char)
  | .choice arms => armsVariables arms
  | .loop name _ body => name :: nodesVariables body
  | _ => []

def nodesVariables : List Node → List (List Char)
  | [] => []
  | n :: rest => nodeVariables n ++ nodesVariables rest

def armsVariables : Arms → List (List Char)
  | .stop => []
  | .otherwise body => nodesVariables body
  | .arm _ body rest => nodesVariables body ++ armsVariables rest

end

/-- A statement on its own. -/
theorem BindLoops.statement {s : Stmt} {depth : Nat} {names : List (List Char)}
    (h : BindLoops (s.lines depth) names) : BindLoops (stmtsLines depth [s]) names := by
  rwa [stmtsLines, stmtsLines, List.append_nil]

-- The lines with expressions start with words of their own, so no expression can bind a name.
mutual

theorem bindLoops_node (scope : Scope) (depth : Nat) (n : Node) (ss : List Stmt)
    (h : compileNode scope n = .ok ss) (hn : n.WellFormed) :
    BindLoops (stmtsLines depth ss) (nodeVariables n) := by
  cases n with
  | text value =>
    rw [compileNode] at h
    cases h
    split
    · exact bindLoops_of_letNames rfl
    · exact bindLoops_of_letNames rfl
  | output expr =>
    obtain ⟨code, -, rfl⟩ := eq_pushValue_of_compileNode h
    exact bindLoops_of_letNames rfl
  | assign name value =>
    obtain ⟨code, -, rfl⟩ := eq_insert_of_compileNode h
    exact bindLoops_of_letNames rfl
  | choice arms =>
    obtain ⟨compiled, harms, rfl⟩ := eq_choose_of_compileNode h
    have hall := bindLoops_arms scope depth true arms compiled harms hn.2
    exact BindLoops.statement (s := .choose compiled) hall
  | loop name items body =>
    obtain ⟨code, inner, -, hinner, rfl⟩ := eq_loopBlock_of_compileNode h
    have hbody := bindLoops_nodes (scope.inLoop name) (depth + 2) body inner hinner hn.2.2
    exact (hbody.loopBlock hn.1 code).statement
  | template children => cases h

theorem bindLoops_nodes (scope : Scope) (depth : Nat) (ns : List Node) (ss : List Stmt)
    (h : compileNodes scope ns = .ok ss) (hns : NodesWellFormed ns) :
    BindLoops (stmtsLines depth ss) (nodesVariables ns) := by
  cases ns with
  | nil =>
    cases h
    exact bindLoops_of_letNames rfl
  | cons n rest =>
    obtain ⟨first, more, hfirst, hmore, rfl⟩ := eq_append_of_compileNodes h
    rw [stmtsLines_append]
    exact (bindLoops_node scope depth n first hfirst hns.1).append
      (bindLoops_nodes scope depth rest more hmore hns.2)

theorem bindLoops_arms (scope : Scope) (depth : Nat) (first : Bool) (arms : Arms)
    (compiled : StmtArms) (h : compileArms scope arms = .ok compiled)
    (harms : ArmsWellFormed arms) :
    BindLoops (armsLines depth first compiled) (armsVariables arms) := by
  cases arms with
  | stop =>
    cases h
    exact bindLoops_of_letNames rfl
  | otherwise body =>
    obtain ⟨inner, hinner, rfl⟩ := eq_otherwise_of_compileArms h
    have hbody := bindLoops_nodes scope (depth + 1) body inner hinner harms
    exact hbody.between [fixed depth "\x7d else \x7b"] [fixed depth "\x7d"] rfl rfl
  | arm condition body rest =>
    obtain ⟨code, inner, more, -, hinner, hmore, rfl⟩ := eq_arm_of_compileArms h
    have hcondition : BindLoops [⟨depth, (if first then "if " else "\x7d else if ").toList ++
        (truthOf code).print ++ " \x7b".toList⟩] [] := by
      cases first with
      | true => exact bindLoops_of_letNames rfl
      | false => exact bindLoops_of_letNames rfl
    have hbody := bindLoops_nodes scope (depth + 1) body inner hinner harms.2.1
    have hrest := bindLoops_arms scope depth false rest more hmore harms.2.2
    exact hcondition.append (hbody.append hrest)

end

/-- What the function of a renderer binds before its template. -/
def renderLets : List (List Char) := ["__out".toList, "__locals".toList]

/-- **What a renderer binds with `let`.** -/
theorem mem_letNames_rendererLines (name : List Char) {body : List Stmt}
    {names : List (List Char)} (h : BindLoops (stmtsLines 2 body) names) (x : List Char) :
    x ∈ letNames (rendererLines name body) ↔
      x ∈ renderLets ∨ ∃ n ∈ names, x ∈ loopLets n := by
  have hall : letNames (rendererLines name body) = renderLets ++ letNames (stmtsLines 2 body) := by
    have hback : letNames [fixed 2 "__out", fixed 1 "\x7d", fixed 0 "\x7d"] = [] := rfl
    rw [rendererLines, letNames_append, letNames_append, hback, List.append_nil]
    rfl
  rw [hall, List.mem_append, h x]

/-! ## 5. Where a type meets a name of its file -/

/-- What a loop binds for its own use. -/
def ownLets : List (List Char) := ["__items".toList, "__shadowed".toList, "__value".toList]

/-- No type is a raw name. -/
theorem typeName_mem_loopLets (name v : List Char) :
    typeName name ∈ loopLets v ↔ typeName name ∈ ownLets ∨ typeName name = bindingName v := by
  have hraw : typeName name ≠ "r#loop".toList := by
    intro h
    have hall : (typeName name).all isIdentChar = true := all_typeName (fun _ hc => hc) name
    rw [h] at hall
    exact absurd hall (by decide)
  simp only [loopLets, ownLets, List.mem_cons, List.not_mem_nil, or_false, hraw, false_or]
  grind

/-- What the renderer of a template binds with `let`. -/
theorem letNames_of_compile {fields : List (List Char)} {name template text : List Char}
    (h : compile fields name template = .ok text) :
    ∃ nodes body, parse template = .ok nodes ∧ compileNodes ⟨fields, []⟩ nodes = .ok body ∧
      text = fileText fields name body ∧
      ∀ x, x ∈ letNames (rendererLines name body) ↔
        x ∈ renderLets ∨ ∃ v ∈ nodesVariables nodes, x ∈ loopLets v := by
  unfold compile at h
  split at h
  · cases h
  obtain ⟨nodes, hparse, h⟩ := eq_ok_of_bind h
  obtain ⟨body, hbody, h⟩ := eq_ok_of_bind h
  cases h
  have hloops := bindLoops_nodes ⟨fields, []⟩ 2 nodes body hbody (wellFormed_of_parse hparse)
  exact ⟨nodes, body, hparse, hbody, rfl, mem_letNames_rendererLines name hloops⟩

/-- **Where the name of a renderer's type meets another name of its file.**  The name is an
identifier, no keyword and no reserved name.  It is an item of the prelude exactly if it is one of
those that are not reserved, and the renderer binds it with `let` exactly if it is one of the names
that start with two underscores, or a loop of the template has a variable that is written so. -/
theorem compile_typeName_apart (fields : List (List Char)) (name template text : List Char)
    (h : compile fields name template = .ok text) :
    ∃ nodes body, parse template = .ok nodes ∧ compileNodes ⟨fields, []⟩ nodes = .ok body ∧
      text = fileText fields name body ∧
      isIdentifier (typeName name) = true ∧
      (∀ w ∈ keywordWords ++ reservedNames, typeName name ≠ w.toList) ∧
      typeName name ≠ "TemplateContext".toList ∧
      (typeName name ∈ declaredBy preludeLines ↔
        typeName name ∈ unreservedItems.map String.toList) ∧
      (typeName name ∈ letNames (rendererLines name body) ↔
        typeName name ∈ renderLets ∨
          ∃ v ∈ nodesVariables nodes, typeName name ∈ ownLets ∨ typeName name = bindingName v) := by
  obtain ⟨nodes, body, hparse, hbody, htext, hlets⟩ := letNames_of_compile h
  have htype := hlets (typeName name)
  simp only [typeName_mem_loopLets] at htype
  exact ⟨nodes, body, hparse, hbody, htext, isIdentifier_typeName name,
    fun w hw => typeName_ne hw name, typeName_ne (w := "TemplateContext") (by decide) name,
    typeName_mem_declaredBy name, htype⟩

/-- A loop over the field `tools`. -/
def toolsTemplate : List Char :=
  "\x7b% for tool in tools %\x7d\x7b\x7b tool \x7d\x7d\x7b% endfor %\x7d".toList

theorem nodesVariables_tools {nodes : List Node} (h : parse toolsTemplate = .ok nodes) :
    nodesVariables nodes = ["tool".toList] := by
  have hvariables : (parse toolsTemplate).toOption.map nodesVariables = some ["tool".toList] := by
    decide +kernel
  rw [h] at hvariables
  exact Option.some.inj hvariables

/-- A renderer whose type meets no name of its file. -/
theorem compile_typeName_apart_coder :
    typeName "Qwen2.5-Coder".toList = "Qwen25_Coder".toList ∧
      ∃ text, compile ["tools".toList] "Qwen2.5-Coder".toList toolsTemplate = .ok text ∧
      ∃ body, text = fileText ["tools".toList] "Qwen2.5-Coder".toList body ∧
        "Qwen25_Coder".toList ∉ declaredBy preludeLines ∧
        "Qwen25_Coder".toList ∉ letNames (rendererLines "Qwen2.5-Coder".toList body) := by
  have htype : typeName "Qwen2.5-Coder".toList = "Qwen25_Coder".toList := by decide
  have hsome : (compile ["tools".toList] "Qwen2.5-Coder".toList toolsTemplate).toOption.isSome =
      true := by
    decide +kernel
  obtain ⟨text, h⟩ := eq_ok_of_isSome hsome
  obtain ⟨nodes, body, hparse, -, htext, -, -, -, hitems, hlets⟩ :=
    compile_typeName_apart _ _ _ text h
  rw [htype] at hitems hlets
  rw [nodesVariables_tools hparse] at hlets
  exact ⟨htype, text, h, body, htext, fun hmem => absurd (hitems.1 hmem) (by decide),
    fun hmem => absurd (hlets.1 hmem) (by decide)⟩

/-- Two names of renderers that meet others: one is imported by the prelude, and the variable of a
loop has the other. -/
theorem typeName_meets :
    (∃ text, compile ["tools".toList] "Ordering".toList toolsTemplate = .ok text) ∧
      typeName "Ordering".toList ∈ declaredBy preludeLines ∧
      ∃ text body, compile ["tools".toList] "tool".toList toolsTemplate = .ok text ∧
        text = fileText ["tools".toList] "tool".toList body ∧
        typeName "tool".toList ∈ letNames (rendererLines "tool".toList body) := by
  have hordering : (compile ["tools".toList] "Ordering".toList toolsTemplate).toOption.isSome =
      true := by
    decide +kernel
  have htool : (compile ["tools".toList] "tool".toList toolsTemplate).toOption.isSome = true := by
    decide +kernel
  obtain ⟨text, h⟩ := eq_ok_of_isSome htool
  obtain ⟨nodes, body, hparse, -, htext, hlets⟩ := letNames_of_compile h
  refine ⟨eq_ok_of_isSome hordering, ?_, text, body, h, htext, (hlets _).2 (.inr ?_)⟩
  · rw [typeName_eq_self (by decide) (by decide) (by decide), declaredBy_preludeLines]
    decide
  · rw [nodesVariables_tools hparse]
    decide

end TemplateCompiler.Target
