import TemplateCompiler.Proofs.Target.CodeText
import TemplateCompiler.Proofs.Value.TextOrder
import TemplateCompiler.Target.Body
import TemplateCompiler.Value.Access
import TemplateCompiler.Value.Print

/-! # Running the statements of a renderer

What do generated statements do to the assignments of a template?  `Stmt.exec` runs them as the
language they are written in says: a block is a scope of its own, a `let` binds a name in the
innermost scope, and a name means its innermost binding.  A statement that refers to a name that
is not bound, or takes an item that is not there, has no result.  The values of expressions come
from a `Meaning`, of which nothing is assumed.

All loops bind the same names, `__items`, `__shadowed` and `__i`, and all assignments stand in one
map.  What the statements of a node do is said once, by `Keeps`: they leave the scopes as they
found them, and a name is assigned what it was before or what an assignment gave it.  The proof
goes over the nodes (`steady_nodes`); its loop case is `passes_keep`, in which the variable has no
assignment at the start of every pass.
-/

namespace TemplateCompiler

/-! ## 1. Assignments -/

namespace Locals

theorem get?_cons (entry : List Char × Value) (rest : Locals) (n : List Char) :
    get? (entry :: rest) n = if entry.1 = n then some entry.2 else get? rest n := by
  by_cases h : entry.1 = n <;> simp [get?, Value.lookup?, h]

theorem get?_insert (locals : Locals) (v n : List Char) (x : Value) :
    (locals.insert v x).get? n = if v = n then some x else locals.get? n := by
  fun_induction insert v x locals with
  | case1 => simp [get?_cons]
  | case2 entry rest _ => rw [get?_cons]
  | case3 entry rest heq =>
    rw [get?_cons, get?_cons, ← Value.eq_of_compareText heq]
    split <;> rfl
  | case4 entry rest hgt ih =>
    have hne : entry.1 ≠ v := by
      rintro rfl
      rw [Value.compareText_self] at hgt
      cases hgt
    rw [get?_cons, get?_cons, ih]
    by_cases h : entry.1 = n
    · have : v ≠ n := fun hv => hne (h.trans hv.symm)
      simp [h, this]
    · simp [h]

theorem get?_remove (locals : Locals) (v n : List Char) :
    (locals.remove v).get? n = if v = n then none else locals.get? n := by
  induction locals with
  | nil => simp [remove, get?, Value.lookup?]
  | cons entry rest ih =>
    have hcons : remove (entry :: rest) v =
        if entry.1 = v then remove rest v else entry :: remove rest v := by
      by_cases h : entry.1 = v <;> simp [remove, h]
    rw [hcons, get?_cons]
    by_cases hv : entry.1 = v
    · rw [if_pos hv, ih, hv]
      split <;> rfl
    · rw [if_neg hv, get?_cons, ih]
      by_cases hn : entry.1 = n
      · have : v ≠ n := fun h => hv (hn.trans h.symm)
        simp [hn, this]
      · simp [hn]

end Locals

namespace Target

open Template

/-! ## 2. States -/

/-- What a name of the generated code can be bound to. -/
inductive Binding where
  | value (v : Value)
  | items (vs : List Value)
  | saved (v : Option Value)
  | place (i : Nat)

def Binding.items? : Binding → Option (List Value)
  | .items vs => some vs
  | _ => none

def Binding.saved? : Binding → Option (Option Value)
  | .saved v => some v
  | _ => none

def Binding.place? : Binding → Option Nat
  | .place i => some i
  | _ => none

def itemsName : List Char := "__items".toList

def shadowedName : List Char := "__shadowed".toList

def placeName : List Char := "__i".toList

/-- The name that `loop` is bound to. -/
def loopBinding : List Char := "r#loop".toList

/-- Names and what they are bound to, innermost first. -/
abbrev Bindings := List (List Char × Binding)

/-- Something that a template asks for while its statements run. -/
inductive Event where
  /-- The value or the truth of an expression is computed. -/
  | evaluated (code : Code)
  /-- An assignment gives a name a value. -/
  | assigned (name : List Char) (value : Value)

/-- What a renderer has while it runs. -/
structure State where
  out : List Char
  locals : Locals
  /-- The bindings of the open blocks, innermost first. -/
  blocks : List Bindings
  /-- What has happened, in order. -/
  events : List Event

/-- What expressions mean where some names are bound and some are assigned. -/
structure Meaning where
  value : Code → Bindings → Locals → Value
  truth : Code → Bindings → Locals → Bool

namespace State

/-- The binding that a name refers to. -/
def lookup? (st : State) (name : List Char) : Option Binding := st.blocks.flatten.lookup name

def items? (st : State) : Option (List Value) := (st.lookup? itemsName).bind Binding.items?

def saved? (st : State) : Option (Option Value) := (st.lookup? shadowedName).bind Binding.saved?

def place? (st : State) : Option Nat := (st.lookup? placeName).bind Binding.place?

/-- Adds a binding to the innermost block. -/
def bind (st : State) (name : List Char) (b : Binding) : State :=
  match st.blocks with
  | [] => { st with blocks := [[(name, b)]] }
  | block :: rest => { st with blocks := ((name, b) :: block) :: rest }

def enter (st : State) : State := { st with blocks := [] :: st.blocks }

def leave (st : State) : State := { st with blocks := st.blocks.tail }

def note (st : State) (event : Event) : State := { st with events := st.events ++ [event] }

/-- Assigns a value, if there is one. -/
def givingBack (name : List Char) (saved : Option Value) (st : State) : State :=
  match saved with
  | some v => { st with locals := st.locals.insert name v }
  | none => st

def value (m : Meaning) (st : State) (code : Code) : Value :=
  m.value code st.blocks.flatten st.locals

def truth (m : Meaning) (st : State) (code : Code) : Bool :=
  m.truth code st.blocks.flatten st.locals

end State

/-! ## 3. Execution -/

mutual

/-- Runs a statement. -/
def Stmt.exec (m : Meaning) : Stmt → State → Option State
  | .pushText text, st => some { st with out := st.out ++ text }
  | .pushValue code, st =>
    some { st.note (.evaluated code) with out := st.out ++ (st.value m code).display }
  | .insert name code, st =>
    let v := st.value m code
    some { (st.note (.evaluated code)).note (.assigned name v) with
           locals := st.locals.insert name v }
  | .choose arms, st => execArms m arms st
  | .block body, st => (execAll m body st.enter).map State.leave
  | .letItems code, st =>
    some ((st.note (.evaluated code)).bind itemsName (.items (st.value m code).items))
  | .letShadowed name, st =>
    some ({ st with locals := st.locals.remove name }.bind shadowedName
      (.saved (st.locals.get? name)))
  | .eachItem body, st =>
    st.items?.bind fun vs =>
      -- the number of passes is fixed here, and each pass is a block
      (List.range vs.length).foldlM
        (fun st i => (execAll m body (st.enter.bind placeName (.place i))).map State.leave) st
  | .remove name, st => some { st with locals := st.locals.remove name }
  | .letElement name, st =>
    st.items?.bind fun vs => st.place?.bind fun i => vs[i]?.map fun v =>
      st.bind (bindingName name) (.value v)
  | .letLoop, st =>
    st.items?.bind fun vs => st.place?.map fun i =>
      st.bind loopBinding (.value (LoopInfo.value ⟨i, vs.length⟩))
  | .restore name, st =>
    st.saved?.map fun saved => st.givingBack name saved

/-- Runs statements one after the other. -/
def execAll (m : Meaning) : List Stmt → State → Option State
  | [], st => some st
  | s :: rest, st => (s.exec m st).bind (execAll m rest)

/-- Runs the first arm whose condition holds, in a block. -/
def execArms (m : Meaning) : StmtArms → State → Option State
  | .stop, st => some st
  | .otherwise body, st => (execAll m body st.enter).map State.leave
  | .arm condition body rest, st =>
    if st.truth m condition then
      (execAll m body (st.note (.evaluated condition)).enter).map State.leave
    else execArms m rest (st.note (.evaluated condition))

end

theorem execAll_cons_cons (m : Meaning) (s t : Stmt) (rest : List Stmt) (st : State) :
    execAll m (s :: t :: rest) st = (s.exec m st >>= t.exec m).bind (execAll m rest) := by
  simp only [execAll]
  cases s.exec m st <;> rfl

theorem execAll_append (m : Meaning) (ss rest : List Stmt) (st : State) :
    execAll m (ss ++ rest) st = (execAll m ss st).bind (execAll m rest) := by
  induction ss generalizing st with
  | nil => rfl
  | cons s ss ih =>
    simp only [List.cons_append, execAll]
    cases s.exec m st with
    | none => rfl
    | some st => exact ih st

/-! ## 4. What is kept -/

mutual

/-- The names that are assigned in a node, at any depth. -/
def assignedIn : Node → List (List Char)
  | .assign name _ => [name]
  | .choice arms => armsAssigned arms
  | .loop _ _ body => nodesAssigned body
  | _ => []

def nodesAssigned : List Node → List (List Char)
  | [] => []
  | n :: rest => assignedIn n ++ nodesAssigned rest

def armsAssigned : Arms → List (List Char)
  | .stop => []
  | .otherwise body => nodesAssigned body
  | .arm _ body rest => nodesAssigned body ++ armsAssigned rest

end

/-- Every name has the value it had, or one that an assignment gave it. -/
def ByAssignment (before : Locals) (events : List Event) (after : Locals) : Prop :=
  ∀ n, after.get? n = before.get? n ∨
    ∃ v, .assigned n v ∈ events ∧ after.get? n = some v

/-- What the statements of nodes do that assign these names only. -/
structure Keeps (names : List (List Char)) (st st' : State) : Prop where
  blocks : st'.blocks = st.blocks
  changes : ∃ new, st'.events = st.events ++ new ∧ ByAssignment st.locals new st'.locals ∧
    ∀ n v, .assigned n v ∈ new → n ∈ names

/-- Statements that always run to an end and keep all but some assignments. -/
def Steady (m : Meaning) (names : List (List Char)) (ss : List Stmt) : Prop :=
  ∀ st, ∃ st', execAll m ss st = some st' ∧ Keeps names st st'

section
variable {before mid after : Locals} {events more : List Event} {names others : List (List Char)}
  {st st₁ st₂ : State}

theorem byAssignment_refl (locals : Locals) (events : List Event) :
    ByAssignment locals events locals :=
  fun _ => .inl rfl

theorem ByAssignment.trans (h : ByAssignment before events mid)
    (h' : ByAssignment mid more after) : ByAssignment before (events ++ more) after := by
  intro n
  rcases h' n with heq | ⟨v, hmem, hv⟩
  · rcases h n with heq' | ⟨v, hmem, hv⟩
    · exact .inl (heq.trans heq')
    · exact .inr ⟨v, by simp [hmem], heq.trans hv⟩
  · exact .inr ⟨v, by simp [hmem], hv⟩

/-- A name that had no value before may lose the one it was given. -/
theorem ByAssignment.remove (h : ByAssignment before events after) {v : List Char}
    (hv : before.get? v = none) : ByAssignment before events (after.remove v) := by
  intro n
  rw [Locals.get?_remove]
  by_cases hn : v = n
  · subst hn
    simp [hv]
  · simpa [hn] using h n

/-- A hidden value is given back. -/
theorem ByAssignment.insert {v : List Char} {x : Value} (hx : before.get? v = some x)
    (h : ByAssignment (before.remove v) events after) :
    ByAssignment before events (after.insert v x) := by
  intro n
  rw [Locals.get?_insert]
  by_cases hn : v = n
  · subst hn
    simp [hx]
  · have := h n
    rw [Locals.get?_remove, if_neg hn] at this
    simpa [hn] using this

theorem ByAssignment.of_remove {v : List Char} (hv : before.get? v = none)
    (h : ByAssignment (before.remove v) events after) : ByAssignment before events after := by
  intro n
  have := h n
  rw [Locals.get?_remove] at this
  by_cases hn : v = n
  · subst hn
    simpa [hv] using this
  · simpa [hn] using this

theorem keeps_refl (names : List (List Char)) (st : State) : Keeps names st st :=
  ⟨rfl, [], by simp, byAssignment_refl _ _, by simp⟩

theorem Keeps.trans (h : Keeps names st st₁) (h' : Keeps others st₁ st₂) :
    Keeps (names ++ others) st st₂ := by
  obtain ⟨hblocks, new, hnew, hassigned, hnames⟩ := h
  obtain ⟨hblocks', more, hmore, hassigned', hothers⟩ := h'
  refine ⟨hblocks'.trans hblocks, new ++ more, ?_, hassigned.trans hassigned', ?_⟩
  · rw [hmore, hnew, List.append_assoc]
  · intro n v hmem
    rcases List.mem_append.1 hmem with hmem | hmem
    · exact List.mem_append_left _ (hnames n v hmem)
    · exact List.mem_append_right _ (hothers n v hmem)

theorem Keeps.mono (h : Keeps names st st₁) (hsub : names ⊆ others) : Keeps others st st₁ := by
  obtain ⟨hblocks, new, hnew, hassigned, hnames⟩ := h
  exact ⟨hblocks, new, hnew, hassigned, fun n v hmem => hsub (hnames n v hmem)⟩

/-- Computing an expression keeps everything. -/
theorem keeps_note (names : List (List Char)) (st : State) (code : Code) :
    Keeps names st (st.note (.evaluated code)) :=
  ⟨rfl, [.evaluated code], rfl, byAssignment_refl _ _, by simp⟩

/-- What runs in a block of its own keeps what it keeps there. -/
theorem Keeps.leave {own : Bindings} (h : Keeps names { st with blocks := own :: st.blocks } st₁) :
    Keeps names st st₁.leave := by
  obtain ⟨hblocks, hchanges⟩ := h
  exact ⟨by simp [State.leave, hblocks], hchanges⟩

end

section
variable {m : Meaning} {names others : List (List Char)} {ss rest : List Stmt}

theorem steady_nil (m : Meaning) (names : List (List Char)) : Steady m names [] :=
  fun st => ⟨st, rfl, keeps_refl names st⟩

theorem Steady.append (h : Steady m names ss) (h' : Steady m others rest) :
    Steady m (names ++ others) (ss ++ rest) := by
  intro st
  obtain ⟨st₁, hrun, hkeeps⟩ := h st
  obtain ⟨st₂, hrun', hkeeps'⟩ := h' st₁
  exact ⟨st₂, by rw [execAll_append, hrun]; exact hrun', hkeeps.trans hkeeps'⟩

theorem steady_of_exec {s : Stmt} (h : ∀ st, ∃ st', s.exec m st = some st' ∧ Keeps names st st') :
    Steady m names [s] := by
  intro st
  obtain ⟨st', hrun, hkeeps⟩ := h st
  exact ⟨st', by simp [execAll, hrun], hkeeps⟩

theorem Steady.inBlock (h : Steady m names ss) (st : State) :
    ∃ st', (execAll m ss st.enter).map State.leave = some st' ∧ Keeps names st st' := by
  obtain ⟨st', hrun, hkeeps⟩ := h st.enter
  exact ⟨st'.leave, by rw [hrun]; rfl, hkeeps.leave⟩

end

/-! ## 5. Loops -/

/-- No variable is bound to a name that the statements of a loop bind. -/
theorem bindingName_ne_internal {w : List Char} (hw : "__".toList <+: w)
    (hlast : w.getLast? ≠ some '_') (n : List Char) : bindingName n ≠ w := by
  obtain ⟨more, rfl⟩ := hw
  intro h
  unfold bindingName at h
  split at h
  · rename_i hdigit
    obtain rfl : n = '_' :: more := by simpa using h
    simp [Text.startsWithDigit] at hdigit
  split at h
  · rw [← h] at hlast
    simp at hlast
  split at h
  · simp at h
  · rename_i hreserved _
    rw [h] at hreserved
    simp at hreserved

theorem bindingName_ne_itemsName (n : List Char) : bindingName n ≠ itemsName :=
  bindingName_ne_internal (by decide) (by decide) n

theorem bindingName_ne_placeName (n : List Char) : bindingName n ≠ placeName :=
  bindingName_ne_internal (by decide) (by decide) n

namespace State

/-- The items of the loop that is about to run. -/
def loopItems (m : Meaning) (st : State) (items : Code) : List Value :=
  (st.value m (.convert items)).items

/-- Before the first pass: the items are computed and bound, and the variable's assignment is
hidden. -/
def withHidden (m : Meaning) (name : List Char) (items : Code) (st : State) : State :=
  { out := st.out
    locals := st.locals.remove name
    blocks := [(shadowedName, .saved (st.locals.get? name)),
      (itemsName, .items (st.loopItems m items))] :: st.blocks
    events := st.events ++ [.evaluated (.convert items)] }

/-- At the start of a pass: the variable has no assignment, it is bound to the item, and `loop`
knows the place of the item. -/
def inPass (name : List Char) (count : Nat) (item : Value) (i : Nat) (st : State) : State :=
  { st with
    locals := st.locals.remove name
    blocks := [(loopBinding, .value (LoopInfo.value ⟨i, count⟩)),
      (bindingName name, .value item), (placeName, .place i)] :: st.blocks }

end State

/-- One pass of a loop, in a block of its own. -/
def pass (m : Meaning) (name : List Char) (body : List Stmt) (count : Nat) (st : State)
    (entry : Value × Nat) : Option State :=
  (execAll m body (st.inPass name count entry.1 entry.2)).map State.leave

/-- A pass for each item, one after the other. -/
def passes (m : Meaning) (name : List Char) (body : List Stmt) (vs : List Value) (st : State) :
    Option State :=
  vs.zipIdx.foldlM (pass m name body vs.length) st

/-- What running a loop over these items with this body does, if the body assigns these names. -/
structure LoopOutcome (m : Meaning) (name : List Char) (items : Code) (body : List Stmt)
    (names : List (List Char)) (st st' : State) : Prop where
  /-- What was assigned to the variable before is assigned to it after. -/
  gives_back : ∀ v, st.locals.get? name = some v → st'.locals.get? name = some v
  /-- The body runs once for each of the items computed before the first pass, and all other
  names have the values they have after the last pass. -/
  passes : ∃ last,
    passes m name body (st.loopItems m items) (st.withHidden m name items) = some last ∧
      st'.out = last.out ∧ st'.events = last.events ∧
      ∀ n, n ≠ name → st'.locals.get? n = last.locals.get? n
  /-- The items are computed first and then only what the passes compute, and a name has a new
  value only if an assignment in the body gave it that value. -/
  changes : ∃ new, st'.events = st.events ++ .evaluated (.convert items) :: new ∧
    ByAssignment st.locals new st'.locals ∧ ∀ n v, .assigned n v ∈ new → n ∈ names
  /-- All bindings around the loop, those of an enclosing loop among them, are as before. -/
  blocks : st'.blocks = st.blocks

section
variable {m : Meaning} {name : List Char} {names : List (List Char)} {body : List Stmt}
  {vs : List Value}

/-- Bindings of an inner block do not hide a name that is not among them. -/
theorem lookup?_of_blocks {st st' : State} {own : Bindings} {w : List Char}
    (hblocks : st'.blocks = own :: st.blocks) (h : ∀ b ∈ own, w ≠ b.1) :
    st'.lookup? w = st.lookup? w := by
  have hnone : own.lookup w = none := by
    rw [List.lookup_eq_none_iff]
    intro b hb
    simpa using h b hb
  simp [State.lookup?, hblocks, List.lookup_append, hnone]

/-- **The first statements of a pass lead to the state in which the body runs.** -/
theorem execAll_pass {st : State} {i : Nat} {item : Value} (hitems : st.items? = some vs)
    (hitem : vs[i]? = some item) :
    execAll m (.remove name :: .letElement name :: .letLoop :: body)
        (st.enter.bind placeName (.place i)) =
      execAll m body (st.inPass name vs.length item i) := by
  have hne : itemsName ≠ placeName := by decide
  have hne_items := (bindingName_ne_itemsName name).symm
  have hne_place := (bindingName_ne_placeName name).symm
  -- the state before the variable is bound, and the one before `loop` is
  let st₁ : State := { st with
    locals := st.locals.remove name
    blocks := [(placeName, .place i)] :: st.blocks }
  let st₂ : State := { st with
    locals := st.locals.remove name
    blocks := [(bindingName name, .value item), (placeName, .place i)] :: st.blocks }
  have hitems₁ : st₁.items? = some vs := by
    rw [State.items?, lookup?_of_blocks rfl (by simp [hne])]
    exact hitems
  have hitems₂ : st₂.items? = some vs := by
    rw [State.items?, lookup?_of_blocks rfl (by simp [hne, hne_items])]
    exact hitems
  have hplace₁ : st₁.place? = some i := by
    simp [st₁, State.place?, State.lookup?, Binding.place?]
  have hplace₂ : st₂.place? = some i := by
    simp [st₂, State.place?, State.lookup?, List.lookup_cons, beq_false_of_ne hne_place,
      Binding.place?]
  have hfirst : (Stmt.remove name).exec m (st.enter.bind placeName (.place i)) = some st₁ := rfl
  have helement : (Stmt.letElement name).exec m st₁ = some st₂ := by
    rw [Stmt.exec, hitems₁, hplace₁]
    simp only [Option.bind_some, hitem, Option.map_some]
    rfl
  have hloop : Stmt.letLoop.exec m st₂ = some (st.inPass name vs.length item i) := by
    rw [Stmt.exec, hitems₂, hplace₂]
    rfl
  simp only [execAll, hfirst, helement, hloop, Option.bind_some]

theorem Steady.pass (hbody : Steady m names body) (name : List Char) (count : Nat) (st : State)
    (entry : Value × Nat) :
    ∃ st', Target.pass m name body count st entry = some st' ∧
      Keeps names { st with locals := st.locals.remove name } st' := by
  obtain ⟨st', hrun, hkeeps⟩ := hbody (st.inPass name count entry.1 entry.2)
  refine ⟨st'.leave, by rw [Target.pass, hrun]; rfl, ?_⟩
  obtain ⟨hblocks, hchanges⟩ := hkeeps
  exact ⟨by rw [State.leave, hblocks]; rfl, hchanges⟩

/-- **A loop over the places of its items is a pass for each of them.** -/
theorem exec_eachItem (hbody : Steady m names body) {st : State} (hitems : st.items? = some vs) :
    (Stmt.eachItem (.remove name :: .letElement name :: .letLoop :: body)).exec m st =
      passes m name body vs st := by
  have hplaces : List.range vs.length = vs.zipIdx.map Prod.snd := by
    rw [List.zipIdx_map_snd, List.range_eq_range']
  have hentries : ∀ entry ∈ vs.zipIdx, vs[entry.2]? = some entry.1 := by
    intro entry hmem
    exact List.mem_zipIdx_iff_getElem?.1 hmem
  simp only [Stmt.exec, hitems, Option.bind_some, hplaces, List.foldlM_map, passes]
  generalize vs.zipIdx = entries at hentries
  clear hplaces
  -- the items stay bound from pass to pass
  induction entries generalizing st with
  | nil => rfl
  | cons entry entries ih =>
    obtain ⟨st', hrun, hkeeps⟩ := hbody.pass name vs.length st entry
    have hitems' : st'.items? = some vs := by
      rw [← hitems, State.items?, State.items?, State.lookup?, State.lookup?, hkeeps.blocks]
    have hstep : (execAll m (.remove name :: .letElement name :: .letLoop :: body)
        (st.enter.bind placeName (.place entry.2))).map State.leave = some st' := by
      rw [execAll_pass hitems (hentries entry (by simp))]
      exact hrun
    rw [List.foldlM_cons, List.foldlM_cons, hstep, hrun]
    exact ih hitems' fun entry hmem => hentries entry (by simp [hmem])

/-- A pass keeps what the passes before it kept, if the variable had no assignment before them. -/
theorem Keeps.pass (hbody : Steady m names body) {st st₁ : State}
    (hname : st.locals.get? name = none) (h : Keeps names st st₁) (count : Nat)
    (entry : Value × Nat) :
    ∃ st₂, Target.pass m name body count st₁ entry = some st₂ ∧ Keeps names st st₂ := by
  obtain ⟨hblocks, new, hnew, hassigned, hnames⟩ := h
  obtain ⟨st₂, hrun, hkeeps⟩ := hbody.pass name count st₁ entry
  have hremoved : Keeps names st { st₁ with locals := st₁.locals.remove name } :=
    ⟨hblocks, new, hnew, hassigned.remove hname, hnames⟩
  exact ⟨st₂, hrun, (hremoved.trans hkeeps).mono (by simp)⟩

/-- **What the passes of a loop keep.**  The variable has no assignment before the first pass, so
it has one at the end only if the body assigns it. -/
theorem passes_keep (hbody : Steady m names body) (vs : List Value) {st : State}
    (hname : st.locals.get? name = none) :
    ∃ last, passes m name body vs st = some last ∧ Keeps names st last := by
  suffices h : ∀ (entries : List (Value × Nat)) (st₁ : State), Keeps names st st₁ →
      ∃ last, entries.foldlM (pass m name body vs.length) st₁ = some last ∧ Keeps names st last from
    h vs.zipIdx st (keeps_refl names st)
  intro entries
  induction entries with
  | nil => exact fun st₁ h => ⟨st₁, rfl, h⟩
  | cons entry entries ih =>
    intro st₁ h
    obtain ⟨st₂, hrun, hkeeps⟩ := h.pass hbody hname vs.length entry
    obtain ⟨last, hrest, hlast⟩ := ih st₂ hkeeps
    refine ⟨last, ?_, hlast⟩
    rw [List.foldlM_cons, hrun]
    exact hrest

/-- When the items are bound and the variable is hidden, the loop can start. -/
theorem items?_withHidden (m : Meaning) (name : List Char) (items : Code) (st : State) :
    (st.withHidden m name items).items? = some (st.loopItems m items) := by
  have hne : itemsName ≠ shadowedName := by decide
  simp [State.items?, State.lookup?, State.withHidden, List.lookup_cons, beq_false_of_ne hne,
    Binding.items?]

theorem get?_withHidden (m : Meaning) (name : List Char) (items : Code) (st : State)
    (n : List Char) :
    (st.withHidden m name items).locals.get? n = if name = n then none else st.locals.get? n :=
  Locals.get?_remove ..

/-- **A loop hides the assignment of its variable, makes a pass for each item, and gives the
assignment back.** -/
theorem exec_loopBlock (hbody : Steady m names body) (name : List Char) (items : Code)
    (st : State) :
    ∃ last, passes m name body (st.loopItems m items) (st.withHidden m name items) = some last ∧
      Keeps names (st.withHidden m name items) last ∧
      (loopBlock name items body).exec m st =
        some (last.givingBack name (st.locals.get? name)).leave := by
  have hitems := items?_withHidden m name items st
  have hnone : (st.withHidden m name items).locals.get? name = none := by
    rw [get?_withHidden, if_pos rfl]
  obtain ⟨last, hrun, hkeeps⟩ := passes_keep hbody (st.loopItems m items) hnone
  have hstart : (Stmt.letItems (.convert items)).exec m st.enter >>=
      (Stmt.letShadowed name).exec m = some (st.withHidden m name items) := rfl
  have hsaved : last.saved? = some (st.locals.get? name) := by
    rw [State.saved?, State.lookup?, hkeeps.blocks]
    simp [State.withHidden, Binding.saved?]
  refine ⟨last, hrun, hkeeps, ?_⟩
  rw [loopBlock, Stmt.exec, execAll_cons_cons, hstart, Option.bind_some, execAll,
    exec_eachItem hbody hitems, hrun, Option.bind_some, execAll, Stmt.exec, hsaved]
  rfl

/-- **What a loop does, if its body runs to an end.** -/
theorem Steady.loopOutcome (hbody : Steady m names body) (name : List Char) (items : Code)
    (st : State) :
    ∃ st', (loopBlock name items body).exec m st = some st' ∧
      LoopOutcome m name items body names st st' := by
  obtain ⟨last, hrun, ⟨hblocks, new, hnew, hassigned, hnames⟩, hexec⟩ :=
    exec_loopBlock hbody name items st
  have hbefore : last.events = st.events ++ .evaluated (.convert items) :: new := by
    rw [hnew]
    simp [State.withHidden]
  refine ⟨_, hexec, ?_⟩
  cases hname : st.locals.get? name with
  | none =>
    refine ⟨by simp [hname], ⟨last, hrun, rfl, rfl, fun _ _ => rfl⟩,
      ⟨new, hbefore, hassigned.of_remove hname, hnames⟩, ?_⟩
    simp [State.givingBack, State.leave, hblocks, State.withHidden]
  | some v =>
    have hget (n : List Char) : (last.givingBack name (some v)).leave.locals.get? n =
        if name = n then some v else last.locals.get? n := Locals.get?_insert ..
    refine ⟨fun w hw => ?_, ⟨last, hrun, rfl, rfl, fun n hn => ?_⟩,
      ⟨new, hbefore, hassigned.insert hname, hnames⟩, ?_⟩
    · rw [hget, if_pos rfl, ← hname, hw]
    · rw [hget, if_neg hn.symm]
    · simp [State.givingBack, State.leave, hblocks, State.withHidden]

theorem Steady.loopBlock (hbody : Steady m names body) (name : List Char) (items : Code) :
    Steady m names [Target.loopBlock name items body] := by
  refine steady_of_exec fun st => ?_
  obtain ⟨st', hexec, -, -, ⟨new, hnew, hassigned, hnames⟩, hblocks⟩ :=
    hbody.loopOutcome name items st
  exact ⟨st', hexec, hblocks, _, hnew, (byAssignment_refl _ [_]).trans hassigned,
    by simpa using hnames⟩

end

/-! ## 6. Nodes -/

mutual

/-- **The statements of a node run to an end and keep all but what the node assigns.** -/
theorem steady_node (m : Meaning) (scope : Scope) (n : Node) (ss : List Stmt)
    (h : compileNode scope n = .ok ss) : Steady m (assignedIn n) ss := by
  cases n with
  | text value =>
    cases h
    split
    · exact steady_nil m _
    · exact steady_of_exec fun st => ⟨_, rfl, rfl, [], by simp, byAssignment_refl _ _, by simp⟩
  | output expr =>
    obtain ⟨code, -, rfl⟩ := eq_pushValue_of_compileNode h
    exact steady_of_exec fun st => ⟨_, rfl, rfl, [_], rfl, byAssignment_refl _ _, by simp⟩
  | assign name value =>
    obtain ⟨code, -, rfl⟩ := eq_insert_of_compileNode h
    refine steady_of_exec fun st =>
      ⟨_, rfl, rfl, [_, .assigned name _], List.append_assoc .., ?_, ?_⟩
    · intro n
      rw [Locals.get?_insert]
      by_cases hn : name = n
      · subst hn
        exact .inr ⟨_, by simp, if_pos rfl⟩
      · exact .inl (if_neg hn)
    · intro n v hmem
      simp only [List.mem_cons, reduceCtorEq, Event.assigned.injEq, List.not_mem_nil, or_false,
        false_or] at hmem
      simp [assignedIn, hmem.1]
  | choice arms =>
    obtain ⟨compiled, harms, rfl⟩ := eq_choose_of_compileNode h
    exact steady_of_exec fun st => steady_arms m scope arms compiled harms st
  | loop name items body =>
    obtain ⟨code, inner, -, hinner, rfl⟩ := eq_loopBlock_of_compileNode h
    exact (steady_nodes m _ body inner hinner).loopBlock name code
  | template children => cases h

theorem steady_nodes (m : Meaning) (scope : Scope) (ns : List Node) (ss : List Stmt)
    (h : compileNodes scope ns = .ok ss) : Steady m (nodesAssigned ns) ss := by
  cases ns with
  | nil =>
    cases h
    exact steady_nil m _
  | cons n rest =>
    obtain ⟨first, more, hfirst, hmore, rfl⟩ := eq_append_of_compileNodes h
    exact (steady_node m scope n first hfirst).append (steady_nodes m scope rest more hmore)

theorem steady_arms (m : Meaning) (scope : Scope) (arms : Arms) (compiled : StmtArms)
    (h : compileArms scope arms = .ok compiled) (st : State) :
    ∃ st', execArms m compiled st = some st' ∧ Keeps (armsAssigned arms) st st' := by
  cases arms with
  | stop =>
    cases h
    exact ⟨st, rfl, keeps_refl _ st⟩
  | otherwise body =>
    obtain ⟨inner, hinner, rfl⟩ := eq_otherwise_of_compileArms h
    exact (steady_nodes m scope body inner hinner).inBlock st
  | arm condition body rest =>
    obtain ⟨code, inner, more, -, hinner, hmore, rfl⟩ := eq_arm_of_compileArms h
    have hnote := keeps_note [] st (truthOf code)
    rw [execArms]
    split
    · obtain ⟨st', hrun, hkeeps⟩ := (steady_nodes m scope body inner hinner).inBlock
        (st.note (.evaluated (truthOf code)))
      exact ⟨st', hrun, (hnote.trans hkeeps).mono (by simp [armsAssigned])⟩
    · obtain ⟨st', hrun, hkeeps⟩ := steady_arms m scope rest more hmore
        (st.note (.evaluated (truthOf code)))
      exact ⟨st', hrun, (hnote.trans hkeeps).mono (by simp [armsAssigned])⟩

end

/-- **A loop gives back the assignment that it hides.**  Whatever expressions mean and whatever is
assigned and bound before, the statements of a loop run to an end. -/
theorem loop_gives_back (scope : Scope) (name : List Char) (items : Snippet) (body : List Node)
    (ss : List Stmt) (h : compileNode scope (.loop name items body) = .ok ss) :
    ∃ code inner, compileSnippet scope items = .ok code ∧
      compileNodes (scope.inLoop name) body = .ok inner ∧
      ∀ (m : Meaning) (st : State), ∃ st', execAll m ss st = some st' ∧
        LoopOutcome m name code inner (nodesAssigned body) st st' := by
  obtain ⟨code, inner, hcode, hinner, rfl⟩ := eq_loopBlock_of_compileNode h
  refine ⟨code, inner, hcode, hinner, fun m st => ?_⟩
  obtain ⟨st', hexec, houtcome⟩ :=
    (steady_nodes m _ body inner hinner).loopOutcome name code st
  exact ⟨st', by rw [execAll, hexec]; rfl, houtcome⟩

/-- A loop over `x` with a loop over `x` in it, both of which assign `x`. -/
def nestedLoop : Node :=
  .loop ['x'] ⟨['a'], default⟩
    [.loop ['x'] ⟨['x'], default⟩ [.assign ['x'] ⟨['1'], default⟩], .assign ['x'] ⟨['2'], default⟩]

/-- The theorem at a nested loop, where the variable is assigned before and every list has two
items. -/
theorem loop_gives_back_nested :
    ∃ ss, compileNode ⟨[['a']], []⟩ nestedLoop = .ok ss ∧
      ∃ st', execAll ⟨fun _ _ _ => .list [.null, .null], fun _ _ _ => true⟩ ss
          ⟨[], [(['x'], .bool true)], [[]], []⟩ = some st' ∧
        st'.locals.get? ['x'] = some (.bool true) ∧ st'.blocks = [[]] := by
  have hsome : (compileNode ⟨[['a']], []⟩ nestedLoop).toOption.isSome = true := by
    decide +kernel
  cases h : compileNode ⟨[['a']], []⟩ nestedLoop with
  | error e =>
    rw [h] at hsome
    cases hsome
  | ok ss =>
    obtain ⟨code, inner, -, -, hrun⟩ := loop_gives_back _ _ _ _ ss h
    obtain ⟨st', hexec, houtcome⟩ := hrun ⟨fun _ _ _ => .list [.null, .null], fun _ _ _ => true⟩
      ⟨[], [(['x'], .bool true)], [[]], []⟩
    exact ⟨ss, rfl, st', hexec, houtcome.gives_back _ rfl, houtcome.blocks⟩

end Target

end TemplateCompiler
