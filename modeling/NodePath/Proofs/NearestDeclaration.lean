/-
# NodePath.Proofs.NearestDeclaration — which declaration of a variable is read and written

Every context has a set of variables of its own, which the contexts inside of it look into as well. Reading walks the
chain of contexts for a value, writing walks it for a place, and both come to the nearest context that declares the
name at that moment. Told from the history of requests alone, this says what any context reads and where it writes,
however declarations, shadowing and writes through other contexts were interleaved.

* §A  One set of variables.
* §B  A variable by its name as an expression.
* §C  Requests to a tree of contexts, and what they leave.
* §D  What the history of requests says.
* §E  The tree and its history.
* §F  Reading and writing.
-/
import NodePath.Context.Write
import NodePath.Proofs.LocationPath
import NodePath.Proofs.Reading

namespace NodePath

/-! ## §A  One set of variables -/

namespace Variables

variable {vs : Variables} {name other : String} {slot : Slot}

theorem get?_cons (entry : String × Slot) (vs : Variables) :
    get? (entry :: vs) name = if entry.1 = name then some entry.2 else get? vs name := by
  by_cases h : entry.1 = name <;> simp [get?, h]

theorem get?_erase : (vs.erase name).get? other = if name = other then none else vs.get? other := by
  induction vs with
  | nil => simp [erase, get?]
  | cons entry vs ih =>
    by_cases hname : entry.1 = name
    · have hdrop : erase (entry :: vs) name = erase vs name := by simp [erase, hname]
      rw [hdrop, ih, get?_cons, hname]
      by_cases hother : name = other <;> simp [hother]
    · have hkeep : erase (entry :: vs) name = entry :: erase vs name := by simp [erase, hname]
      rw [hkeep, get?_cons, get?_cons, ih]
      by_cases hother : entry.1 = other
      · have hne : name ≠ other := fun h => hname (hother.trans h.symm)
        simp [hother, hne]
      · simp [hother]

theorem get?_set : (vs.set name slot).get? other = if name = other then some slot else vs.get? other := by
  rw [set, get?_cons, get?_erase]
  by_cases h : name = other <;> simp [h]

end Variables

namespace Store

variable {st : Store} {s other : ScopeId} {vs : Variables} {known : String → Option Datum} {name : String} {d : Datum}

theorem scope_setScope (hs : s < st.scopes.size) :
    (st.setScope s vs).scope other = if s = other then vs else st.scope other := by
  by_cases h : s = other
  · subst h
    simp [scope, setScope, hs]
  · simp [scope, setScope, h]

/-- **Records** says that a set of variables is there, what the value of each of its variables is, and that the
documents that they hold are in the store. -/
structure Records (st : Store) (s : ScopeId) (known : String → Option Datum) : Prop where
  size : s < st.scopes.size
  value : ∀ x, st.valueOfName? s x = known x
  housed : ∀ x doc, (st.scope s).get? x = some (.document doc) → doc < st.documents.size

namespace Records

/-- A set of variables is kept by what leaves it, and the documents in it, as they are. -/
theorem congr {st' : Store} (h : st.Records s known) (hsize : st.scopes.size ≤ st'.scopes.size)
    (hscope : st'.scope s = st.scope s) (hdocs : ∀ doc < st.documents.size, st'.document? doc = st.document? doc)
    (hroom : st.documents.size ≤ st'.documents.size) : st'.Records s known where
  size := Nat.lt_of_lt_of_le h.size hsize
  value := by
    intro x
    rw [← h.value x, valueOfName?, valueOfName?, hscope]
    cases hget : (st.scope s).get? x with
    | none => rfl
    | some slot =>
      cases slot with
      | value d => rfl
      | document doc => simp only [Option.map_some, slotValue, hdocs doc (h.housed x doc hget)]
  housed := by
    intro x doc hget
    rw [hscope] at hget
    exact Nat.lt_of_lt_of_le (h.housed x doc hget) hroom

theorem document?_push {j : Json} {doc : DocId} (hdoc : doc < st.documents.size) :
    (st.addDocument j).1.document? doc = st.document? doc := by
  simp [document?, addDocument, Array.getElem?_push, Nat.ne_of_lt hdoc]

/-- What a change of one set of variables does to the others. -/
theorem setScope_ne (h : st.Records s known) (hne : other ≠ s) (vs : Variables) :
    (st.setScope other vs).Records s known := by
  refine h.congr (by simp [setScope]) ?_ (fun _ _ => rfl) (Nat.le_refl _)
  simp [scope, setScope, hne]

theorem addDocument (h : st.Records s known) (j : Json) : (st.addDocument j).1.Records s known :=
  h.congr (Nat.le_refl _) rfl (fun _ hdoc => document?_push hdoc) (by simp [Store.addDocument])

/-- A value of what kind ever, put into a slot that stands for it. -/
theorem set (h : st.Records s known) {slot : Slot} (hvalue : st.slotValue slot = d)
    (hhoused : ∀ doc, slot = .document doc → doc < st.documents.size) :
    (st.setScope s ((st.scope s).set name slot)).Records s fun x => if name = x then some d else known x where
  size := by simpa [setScope] using h.size
  value := by
    intro x
    rw [valueOfName?, scope_setScope h.size, if_pos rfl, Variables.get?_set]
    by_cases hx : name = x
    · rw [if_pos hx, if_pos hx, Option.map_some]
      exact congrArg some hvalue
    · rw [if_neg hx, if_neg hx]
      exact h.value x
  housed := by
    intro x doc hget
    rw [scope_setScope h.size, if_pos rfl, Variables.get?_set] at hget
    by_cases hx : name = x
    · rw [if_pos hx] at hget
      exact hhoused doc (Option.some.inj hget)
    · rw [if_neg hx] at hget
      exact h.housed x doc hget

/-- **A declaration** gives one name in one set of variables its value. -/
theorem declare (h : st.Records s known) (other : ScopeId) (name : String) (d : Datum) :
    (st.declare other name d).Records s fun x => if other = s ∧ name = x then some d else known x := by
  by_cases hne : other = s
  · subst hne
    simp only [true_and]
    cases d with
    | object j =>
      refine (h.addDocument j).set ?_ ?_
      · simp [slotValue, document?, Store.addDocument]
      · rintro doc ⟨⟩
        simp [Store.addDocument]
    | _ => exact h.set rfl (by rintro _ ⟨⟩)
  · simp only [hne, false_and, if_false]
    cases d with
    | object j => exact (h.addDocument j).setScope_ne hne _
    | _ => exact h.setScope_ne hne _

/-- What is taken out has no value any more. -/
theorem undeclare (h : st.Records s known) (other : ScopeId) (name : String) :
    (st.undeclare other name).1.Records s fun x => if other = s ∧ name = x then none else known x := by
  by_cases hne : other = s
  · subst hne
    have hscope : (st.undeclare other name).1.scope other = (st.scope other).erase name := by
      show (st.setScope other ((st.scope other).erase name)).scope other = _
      rw [scope_setScope h.size, if_pos rfl]
    refine ⟨by simpa [Store.undeclare, setScope] using h.size, fun x => ?_, fun x doc hget => ?_⟩
    · rw [valueOfName?, hscope, Variables.get?_erase]
      by_cases hx : name = x
      · simp [hx]
      · rw [if_neg hx, if_neg fun hboth => hx hboth.2]
        exact h.value x
    · rw [hscope, Variables.get?_erase] at hget
      by_cases hx : name = x
      · simp [hx] at hget
      · rw [if_neg hx] at hget
        exact h.housed x doc hget
  · simp only [hne, false_and, if_false]
    exact h.setScope_ne hne _

theorem addScope (h : st.Records s known) : st.addScope.1.Records s known := by
  refine h.congr (by simp [Store.addScope]) ?_ (fun _ _ => rfl) (Nat.le_refl _)
  simp [scope, Store.addScope, Array.getElem?_push, Nat.ne_of_lt h.size]

theorem fresh : st.addScope.1.Records st.scopes.size fun _ => none := by
  have hscope : st.addScope.1.scope st.scopes.size = [] := by simp [scope, Store.addScope]
  refine ⟨by simp [Store.addScope], fun x => ?_, fun x doc hget => ?_⟩
  · rw [valueOfName?, hscope]
    rfl
  · rw [hscope] at hget
    cases hget

theorem compiled (h : st.Records s known) (text : String) : (st.compiled text).Records s known :=
  h.congr (Nat.le_refl _) rfl (fun _ _ => rfl) (Nat.le_refl _)

/-- A variable is declared exactly if it has a value. -/
theorem isSome_get? (h : st.Records s known) (x : String) : ((st.scope s).get? x).isSome = (known x).isSome := by
  rw [← h.value x, valueOfName?, Option.isSome_map]

end Records

theorem size_scopes_declare (st : Store) (s : ScopeId) (name : String) (d : Datum) :
    (st.declare s name d).scopes.size = st.scopes.size := by
  cases d <;> simp [Store.declare, setScope, Store.addDocument]

theorem engine_declare (st : Store) (s : ScopeId) (name : String) (d : Datum) :
    (st.declare s name d).engine = st.engine := by
  cases d <;> rfl

end Store

/-! ## §B  A variable as an expression -/

section

variable {c : Context} {host : Host} {st : Store} {name : QName} {d : Datum} {s : ScopeId}

/-- The text of a variable. -/
def QName.variableText (name : QName) : String := "$" ++ name.written

theorem QName.WellFormed.parse_variableText (h : name.WellFormed) : Expr.parse name.variableText = .ok (.var name) := by
  have hspells : Spells Operator.Clear (.expr .disjunction (.var name)) ('$' :: name.written.toList) :=
    Spells.loosen .var (Nat.zero_le _)
  have htext : String.ofList ('$' :: name.written.toList) = name.variableText := by
    rw [← String.toList_inj, String.toList_ofList, variableText, String.toList_append]
    rfl
  rw [← htext]
  exact hspells.parse (.var h)

/-- The value of a variable is that of its nearest declaration, -/
theorem Setting.runOn_computeValue_var (s : Setting) (name : QName) (st : Store) :
    (s.computeValue (.var name)).runOn st =
      (match s.context.variableValue? st name with
        | some d => .ok (.datum d)
        | none => .error (.undefinedVariable name.written), st) := by
  rw [Setting.computeValue, Eval.runOn_bind, Setting.runOn_start]
  dsimp only
  rw [Setting.runOn_on, Cursor.motion_startAt]
  have hvalue : ∀ (m : Motion) (cur : Cursor), ((s.evaluator (.var name)).value m (.var name)).runOn cur st =
      (match s.context.variableValue? st name with
        | some d => .ok (.datum d)
        | none => .error (.undefinedVariable name.written), cur, st) := by
    intro m cur
    show (Walk.store >>= fun st => match s.context.variableValue? st name with
      | some d => pure (Value.datum d)
      | none => throw (EvalError.undefinedVariable name.written)).runOn cur st = _
    rw [Walk.runOn_bind, Walk.runOn_store]
    dsimp only
    cases s.context.variableValue? st name <;> rfl
  rw [hvalue]

/-- and as a node it is that declaration. -/
theorem Setting.runOn_compute_var (s : Setting) (name : QName) (st : Store) :
    (s.compute (.var name)).runOn st = (.ok (.pointer (.var (s.context.variableRef st name))), st) := by
  rw [Setting.compute, Eval.runOn_bind, Setting.runOn_start]
  dsimp only
  rw [Setting.runOn_on, Cursor.motion_startAt]
  rfl

variable (host) in
/-- **What the text of a variable reads** is the value of the nearest declaration, unless that is a node, -/
theorem Context.runOn_getValue_variableText (c : Context) (hsound : st.engine.Sound) (hname : name.WellFormed)
    (hplain : ∀ p, c.variableValue? (st.compiled name.variableText) name ≠ some (.pointer p)) :
    ((c.getValue host name.variableText).runOn st).1 =
      match c.variableValue? (st.compiled name.variableText) name with
      | some d => .ok d
      | none => .error (.wrapped name.variableText (.undefinedVariable name.written)) := by
  have hcontext : (c.setting host).context = c := rfl
  rw [Context.getValue, Reading.runOn_withText hsound hname.parse_variableText, Setting.readValue, Eval.runOn_bind,
    Setting.glanceValue, Eval.runOn_bind, Setting.runOn_computeValue_var, hcontext]
  cases hvalue : c.variableValue? (st.compiled name.variableText) name with
  | none => rfl
  | some d =>
    cases d with
    | pointer p => exact absurd hvalue (hplain p)
    | _ => rfl

variable (host) in
/-- and to read a variable changes nothing. -/
theorem Context.store_getValue_variableText (c : Context) (hsound : st.engine.Sound) (hname : name.WellFormed) :
    ((c.getValue host name.variableText).runOn st).2 = st.compiled name.variableText := by
  rw [Context.getValue, Reading.runOn_withText hsound hname.parse_variableText, Setting.readValue, Eval.runOn_bind,
    Setting.glanceValue, Eval.runOn_bind, Setting.runOn_computeValue_var]
  dsimp only
  cases (c.setting host).context.variableValue? (st.compiled name.variableText) name with
  | none => rfl
  | some d =>
    cases d with
    | pointer p =>
      dsimp only [Eval.runOn_pure]
      rw [Eval.runOn_bind, Eval.runOn_get]
      dsimp only [Setting.absent]
      split
      · rfl
      · split <;> rfl
    | _ => rfl

/-- What a variable leads to as a node, declared or not. -/
theorem Setting.runOn_readPointer_var (s : Setting) (text : String) (name : QName) (st : Store) :
    (s.readPointer text (.var name)).runOn st =
      (if (Pointer.var (s.context.variableRef st name)).isActual st || s.context.isLenient then
          .ok (some (.var (s.context.variableRef st name)))
        else .error (.notFound text), st) := by
  have hfirst : (s.firstPointer (.var name)).runOn st = (.ok (some (.var (s.context.variableRef st name))), st) := by
    rw [Setting.firstPointer, Eval.runOn_bind, Setting.runOn_compute_var]
    rfl
  rw [Setting.readPointer, Eval.runOn_bind, hfirst]
  dsimp only
  rw [Eval.runOn_bind, Eval.runOn_get]
  dsimp only [Setting.absent]
  cases (Pointer.var (s.context.variableRef st name)).isActual st <;> cases s.context.isLenient <;> rfl

/-- The nearest declaration is one. -/
theorem Context.isActual_variableRef (c : Context) (st : Store) (name : QName) :
    (Pointer.var (c.variableRef st name)).isActual st = (c.variableRef st name).scope.isSome := by
  cases hscope : (c.variableRef st name).scope with
  | none => simp [Pointer.isActual, Store.slot?, hscope]
  | some s =>
    have hfind : (c.layers.map (·.scope)).find? (fun s => ((st.scope s).get? name.written).isSome) = some s := hscope
    have hdeclared := List.find?_some hfind
    rw [Pointer.isActual, Store.slot?, hscope, Option.bind_some]
    exact hdeclared

/-- **An assignment to a variable** is a declaration where the nearest one is, -/
theorem Setting.runOn_assign_var (s : Setting) (text : String) (name : QName) (d : Datum) (st : Store) :
    (s.assign text d (.var name)).runOn st =
      match (s.context.variableRef st name).scope with
      | some scope => (.ok (), st.declare scope name.written d)
      | none => (.error (.notFound text), st) := by
  have hactual := s.context.isActual_variableRef st name
  rw [Setting.assign, Eval.runOn_bind, Setting.runOn_readPointer_var]
  cases hscope : (s.context.variableRef st name).scope with
  | none =>
    -- Leniency lets the absent variable through, but what is assigned to it is refused all the same.
    rw [hscope] at hactual
    rw [hactual, Option.isSome_none, Bool.false_or]
    cases s.context.isLenient with
    | false => rfl
    | true =>
      rw [if_pos rfl]
      dsimp only
      rw [Eval.runOn_bind, Eval.runOn_get]
      dsimp only
      rw [hactual]
      rfl
  | some scope =>
    rw [hscope] at hactual
    have hdeclaring : (Pointer.declaringScope (s.context.variableRef st name)).runOn st = (.ok scope, st) := by
      have hslot : (st.slot? (s.context.variableRef st name)).isSome = true := hactual
      simp only [Pointer.declaringScope, hscope, Eval.runOn_bind, Eval.runOn_get, hslot, if_true, Eval.runOn_pure]
    rw [hactual, Option.isSome_some, Bool.true_or, if_pos rfl]
    dsimp only
    rw [Eval.runOn_bind, Eval.runOn_get]
    dsimp only
    rw [hactual, Option.isSome_some, if_pos rfl, Pointer.setValue, Eval.runOn_bind, hdeclaring]
    rfl

variable (host) in
/-- so this is what an assignment to the text of a variable does. -/
theorem Context.runOn_setValue_variableText (c : Context) (hsound : st.engine.Sound) (hname : name.WellFormed)
    (d : Datum) :
    (c.setValue host name.variableText d).runOn st =
      match (c.variableRef (st.compiled name.variableText) name).scope with
      | some s => (.ok (), (st.compiled name.variableText).declare s name.written d)
      | none => (.error (.notFound name.variableText), st.compiled name.variableText) := by
  rw [Context.setValue, Reading.runOn_withText hsound hname.parse_variableText, Setting.runOn_assign_var]
  have hcontext : (c.setting host).context = c := rfl
  rw [hcontext]
  cases (c.variableRef (st.compiled name.variableText) name).scope <;> rfl

end

/-! ## §C  Requests to a tree of contexts -/

/-- **ContextTree** is a store with the contexts that have been made in it. -/
structure ContextTree where
  store : Store
  contexts : List Context

/-- What may be asked of a context. -/
inductive VariableAction where
  /-- Makes a context inside. -/
  | relative (p : Pointer)
  /-- Makes another context of the same settings and variables. -/
  | copy
  /-- Changes settings. -/
  | adjust (f : Layer → Layer)
  | declare (x : String) (d : Datum)
  | undeclare (x : String)
  /-- Gives a variable a value by its text. -/
  | assign (x : QName) (d : Datum)
  /-- Reads a variable by its text. -/
  | read (x : QName)

/-- A request to one of the contexts, by the order in which they were made. -/
structure VariableRequest where
  asked : Nat
  action : VariableAction

/-- What comes back. -/
inductive VariableAnswer where
  | done
  /-- Whether the variable had been declared. -/
  | was (declared : Bool)
  | value (d : Datum)
  | failed (e : EvalError)
  /-- There is no such context. -/
  | nobody

/-- An answer from the result of an operation. -/
def VariableAnswer.of {α : Type} (answer : α → VariableAnswer) : Except EvalError α → VariableAnswer
  | .ok a => answer a
  | .error e => .failed e

namespace ContextTree

/-- Runs an operation, which may make a further context. -/
def run {α : Type} (t : ContextTree) (m : Eval α) (answer : α → VariableAnswer) (made : α → List Context) :
    VariableAnswer × ContextTree :=
  let (r, st) := m.runOn t.store
  (.of answer r, ⟨st, t.contexts ++ (r.toOption.map made).getD []⟩)

/-- What a context does when it is asked. -/
def act (host : Host) (t : ContextTree) (asked : Nat) (c : Context) : VariableAction → VariableAnswer × ContextTree
  | .relative p => t.run (c.relative p) (fun _ => .done) fun child => [child]
  | .copy => (.done, { t with contexts := t.contexts ++ [c] })
  | .adjust f => (.done, { t with contexts := t.contexts.set asked (c.modifyOwn f) })
  | .declare x d => t.run (c.declare x d) (fun _ => .done) fun _ => []
  | .undeclare x => t.run (Eval.change (·.undeclare c.own.scope x)) .was fun _ => []
  | .assign x d => t.run (c.setValue host x.variableText d) (fun _ => .done) fun _ => []
  | .read x => t.run (c.getValue host x.variableText) .value fun _ => []

/-- **perform** answers a request. -/
def perform (host : Host) (t : ContextTree) (r : VariableRequest) : VariableAnswer × ContextTree :=
  match t.contexts[r.asked]? with
  | none => (.nobody, t)
  | some c => t.act host r.asked c r.action

/-- One context at the top of an object graph. -/
def atRoot (st : Store) (root : Pointer) : ContextTree :=
  let (c, st) := (Context.atRoot root).runOn st
  ⟨st, c.toOption.toList⟩

end ContextTree

/-! ## §D  Histories -/

/-- **History** are the requests so far, the latest one first. -/
abbrev History := List VariableRequest

namespace History

mutual

/-- The number of sets of variables: one of the first context, and one of each context made inside another. -/
def sets : History → Nat
  | [] => 1
  | ⟨asked, .relative _⟩ :: h => sets h + (chains h)[asked]?.toList.length
  | _ :: h => sets h

/-- **chains** are the sets of variables that each context looks into, its own first. -/
def chains : History → List (List Nat)
  | [] => [[0]]
  | ⟨asked, .relative _⟩ :: h => chains h ++ ((chains h)[asked]?.map (sets h :: ·)).toList
  | ⟨asked, .copy⟩ :: h => chains h ++ (chains h)[asked]?.toList
  | _ :: h => chains h

end

/-- The sets that a context looks into, or none, if there is no such context. -/
def chain (h : History) (asked : Nat) : List Nat := h.chains[asked]?.getD []

/-- **stored** is what was stored last under a name in a set of variables, if that has not been taken out since. A
declaration and an undeclaration are for the context's own set, an assignment is for the nearest set that has the
name. -/
def stored : History → Nat → String → Option Datum
  | [], _, _ => none
  | ⟨asked, .declare y d⟩ :: h, k, x =>
    if (chain h asked).head? = some k ∧ y = x then some d else stored h k x
  | ⟨asked, .undeclare y⟩ :: h, k, x =>
    if (chain h asked).head? = some k ∧ y = x then none else stored h k x
  | ⟨asked, .assign y d⟩ :: h, k, x =>
    if (chain h asked).find? (fun l => (stored h l y.written).isSome) = some k ∧ y.written = x then some d
    else stored h k x
  | _ :: h, k, x => stored h k x

/-- The nearest set of variables that declares a name. -/
def nearest (h : History) (asked : Nat) (x : String) : Option Nat :=
  (h.chain asked).find? fun k => (h.stored k x).isSome

/-- What is stored there. -/
def inReach (h : History) (asked : Nat) (x : String) : Option Datum := (h.nearest asked x).bind (h.stored · x)

/-- **answer** is what a request gets after others. -/
def answer (h : History) (r : VariableRequest) : VariableAnswer :=
  if h.chain r.asked = [] then .nobody
  else
    match r.action with
    | .undeclare x => .was ((h.chain r.asked).head?.bind (h.stored · x)).isSome
    | .assign x _ => if (h.nearest r.asked x.written).isSome then .done else .failed (.notFound x.variableText)
    | .read x =>
      match h.inReach r.asked x.written with
      | some d => .value d
      | none => .failed (.wrapped x.variableText (.undefinedVariable x.written))
    | _ => .done

/-- A request to nobody is as if it had not been made. -/
theorem of_nobody {h : History} {asked : Nat} (hnone : h.chains[asked]? = none) (action : VariableAction) :
    sets (⟨asked, action⟩ :: h) = sets h ∧ chains (⟨asked, action⟩ :: h) = chains h ∧
      stored (⟨asked, action⟩ :: h) = stored h := by
  have hchain : h.chain asked = [] := by
    rw [chain, hnone]
    rfl
  refine ⟨?_, ?_, ?_⟩
  · cases action with
    | relative p => rw [sets, hnone]; rfl
    | _ => rfl
  · cases action with
    | relative p => rw [chains, hnone]; exact List.append_nil _
    | copy => rw [chains, hnone]; exact List.append_nil _
    | _ => rfl
  · funext k x
    cases action with
    | declare y d => simp [stored, hchain]
    | undeclare y => simp [stored, hchain]
    | assign y d => simp [stored, hchain]
    | _ => rfl

end History

/-- Whether a value is a node. -/
def Datum.isNode : Datum → Bool
  | .pointer _ => true
  | _ => false

namespace VariableAction

/-- **IsProper** says that variables in texts have names that can be written, and that settings are changed only. -/
def IsProper : VariableAction → Prop
  | .adjust f => ∀ l, (f l).scope = l.scope
  | .assign x _ => x.WellFormed
  | .read x => x.WellFormed
  | _ => True

/-- The value that is stored. -/
def datum? : VariableAction → Option Datum
  | .declare _ d => some d
  | .assign _ d => some d
  | _ => none

end VariableAction

namespace ContextTree

/-- The tree that requests leave. -/
def after (host : Host) (t : ContextTree) : History → ContextTree
  | [] => t
  | r :: h => ((after host t h).perform host r).2

end ContextTree

/-! ## §E  The tree and its history -/

namespace Context

/-- The sets of variables that a context looks into, its own first. -/
def scopes (c : Context) : List ScopeId := c.layers.map (·.scope)

variable {c : Context} {st : Store} {first : Nat} {chain : List Nat} {known : Nat → String → Option Datum}

/-- **The nearest declaration**, told from what the sets of variables are known to hold. -/
theorem scope_variableRef (hscopes : c.scopes = chain.map (first + ·))
    (hrecords : ∀ k ∈ chain, st.Records (first + k) (known k)) (name : QName) :
    (c.variableRef st name).scope = (chain.find? fun k => (known k name.written).isSome).map (first + ·) := by
  show c.scopes.find? (fun s => ((st.scope s).get? name.written).isSome) = _
  rw [hscopes, List.find?_map]
  congr 1
  exact List.find?_congr fun k hk => (hrecords k hk).isSome_get? name.written

/-- Its value. -/
theorem variableValue?_eq (hscopes : c.scopes = chain.map (first + ·))
    (hrecords : ∀ k ∈ chain, st.Records (first + k) (known k)) (name : QName) :
    c.variableValue? st name = (chain.find? fun k => (known k name.written).isSome).bind (known · name.written) := by
  show c.scopes.findSome? _ = _
  rw [hscopes]
  clear hscopes
  induction chain with
  | nil => rfl
  | cons k chain ih =>
    rw [List.map_cons, List.findSome?_cons, List.find?_cons, (hrecords k List.mem_cons_self).value]
    cases hknown : known k name.written with
    | none => exact ih fun k hk => hrecords k (List.mem_cons_of_mem _ hk)
    | some d => simp [hknown]

end Context

namespace ContextTree

variable {host : Host} {t : ContextTree} {first asked : Nat} {h : History} {c : Context}

/-- **Follows** says that a tree of contexts is as its history says. Its sets of variables are numbered from `first`
on. -/
structure Follows (first : Nat) (h : History) (t : ContextTree) : Prop where
  sound : t.store.engine.Sound
  size : t.store.scopes.size = first + h.sets
  scopes : t.contexts.map (·.scopes) = h.chains.map (·.map (first + ·))
  within : ∀ chain ∈ h.chains, ∀ k ∈ chain, k < h.sets
  records : ∀ k < h.sets, t.store.Records (first + k) (h.stored k)
  unused : ∀ k, h.sets ≤ k → h.stored k = fun _ => none

theorem follows_atRoot {st : Store} (hsound : st.engine.Sound) (root : Pointer) :
    (atRoot st root).Follows st.scopes.size [] where
  sound := hsound
  size := by
    show (st.scopes.push []).size = _
    rw [Array.size_push]
    rfl
  scopes := rfl
  within := by
    intro chain hchain k hk
    rw [List.mem_singleton.mp hchain] at hk
    rw [List.mem_singleton.mp hk]
    exact Nat.one_pos
  records := by
    intro k hk
    obtain rfl : k = 0 := Nat.lt_one_iff.mp hk
    exact Store.Records.fresh
  unused _ _ := rfl

namespace Follows

theorem chain_of_asked (hf : t.Follows first h) (hc : t.contexts[asked]? = some c) :
    h.chains[asked]? = some (h.chain asked) ∧ c.scopes = (h.chain asked).map (first + ·) := by
  have hmap : (t.contexts.map (·.scopes))[asked]? = (h.chains.map (·.map (first + ·)))[asked]? := by rw [hf.scopes]
  rw [List.getElem?_map, List.getElem?_map, hc] at hmap
  unfold History.chain
  cases hchain : h.chains[asked]? with
  | none => rw [hchain] at hmap; cases hmap
  | some chain =>
    rw [hchain] at hmap
    exact ⟨rfl, Option.some.inj hmap⟩

theorem not_asked (hf : t.Follows first h) (hc : t.contexts[asked]? = none) : h.chains[asked]? = none := by
  have hmap : (t.contexts.map (·.scopes))[asked]? = (h.chains.map (·.map (first + ·)))[asked]? := by rw [hf.scopes]
  rw [List.getElem?_map, List.getElem?_map, hc] at hmap
  exact Option.map_eq_none_iff.mp hmap.symm

/-- Every context has a set of variables of its own. -/
theorem head?_chain (hf : t.Follows first h) (hc : t.contexts[asked]? = some c) :
    ∃ k, (h.chain asked).head? = some k ∧ c.own.scope = first + k := by
  have hscopes : c.own.scope :: c.outer.map (·.scope) = (h.chain asked).map (first + ·) := (hf.chain_of_asked hc).2
  cases hchain : h.chain asked with
  | nil => rw [hchain] at hscopes; cases hscopes
  | cons k rest =>
    rw [hchain] at hscopes
    exact ⟨k, rfl, (List.cons.inj hscopes).1⟩

theorem chain_within (hf : t.Follows first h) (hc : t.contexts[asked]? = some c) : ∀ k ∈ h.chain asked, k < h.sets :=
  hf.within _ (List.mem_of_getElem? (hf.chain_of_asked hc).1)

theorem chain_records (hf : t.Follows first h) (hc : t.contexts[asked]? = some c) (text : String) :
    ∀ k ∈ h.chain asked, (t.store.compiled text).Records (first + k) (h.stored k) :=
  fun k hk => (hf.records k (hf.chain_within hc k hk)).compiled text

/-- Requests for values leave the contexts as they are. -/
theorem of_store {r : VariableRequest} {st : Store} (hf : t.Follows first h) (hsound : st.engine.Sound)
    (hsize : st.scopes.size = t.store.scopes.size) (hsets : History.sets (r :: h) = h.sets)
    (hchains : History.chains (r :: h) = h.chains)
    (hrecords : ∀ k < h.sets, st.Records (first + k) (History.stored (r :: h) k))
    (hunused : ∀ k, h.sets ≤ k → History.stored (r :: h) k = h.stored k) :
    Follows first (r :: h) ⟨st, t.contexts⟩ where
  sound := hsound
  size := by rw [hsets, hsize, hf.size]
  scopes := by rw [hchains, hf.scopes]
  within := by
    rw [hchains, hsets]
    exact hf.within
  records := by
    rw [hsets]
    exact hrecords
  unused := by
    rw [hsets]
    exact fun k hk => (hunused k hk).trans (hf.unused k hk)

end Follows

variable {α : Type} {m : Eval α} {answer : α → VariableAnswer} {made : α → List Context} {a : α} {e : EvalError}
  {st : Store}

theorem run_of_ok (h : m.runOn t.store = (.ok a, st)) :
    t.run m answer made = (answer a, ⟨st, t.contexts ++ made a⟩) := by
  rw [run, h]
  rfl

theorem run_of_error (h : m.runOn t.store = (.error e, st)) : t.run m answer made = (.failed e, ⟨st, t.contexts⟩) := by
  rw [run, h]
  show (_, ContextTree.mk st (t.contexts ++ [])) = _
  rw [List.append_nil]
  rfl

namespace Follows

/-- A context made inside another one looks into a new set of variables, and then where that one looks. -/
theorem relative (hf : t.Follows first h) (hc : t.contexts[asked]? = some c) (p : Pointer) :
    Follows first (⟨asked, .relative p⟩ :: h) (t.act host asked c (.relative p)).2 := by
  obtain ⟨hchain, hscopes⟩ := hf.chain_of_asked hc
  have hrun : (c.relative p).runOn t.store =
      (.ok ⟨Context.freshLayer p p.top t.store.scopes.size, c.layers⟩, t.store.addScope.1) := rfl
  have hsets : History.sets (⟨asked, .relative p⟩ :: h) = h.sets + 1 := by
    rw [History.sets, hchain]
    rfl
  have hchains : History.chains (⟨asked, .relative p⟩ :: h) = h.chains ++ [h.sets :: h.chain asked] := by
    rw [History.chains, hchain]
    rfl
  have hstored : History.stored (⟨asked, .relative p⟩ :: h) = h.stored := rfl
  rw [act, run_of_ok hrun]
  -- The new set is empty on both sides, and no older set changes.
  refine ⟨hf.sound, ?_, ?_, ?_, ?_, ?_⟩
  · show (t.store.scopes.push []).size = _
    rw [Array.size_push, hsets, hf.size, Nat.add_assoc]
  · rw [hchains, List.map_append, List.map_append, hf.scopes, List.map_singleton, List.map_singleton, List.map_cons,
      ← hscopes, ← hf.size]
    rfl
  · rw [hchains, hsets]
    intro chain hmem k hk
    rcases List.mem_append.mp hmem with hmem | hmem
    · exact Nat.lt_succ_of_lt (hf.within chain hmem k hk)
    · rw [List.mem_singleton.mp hmem] at hk
      rcases List.mem_cons.mp hk with rfl | hk
      · exact Nat.lt_succ_self _
      · exact Nat.lt_succ_of_lt (hf.chain_within hc k hk)
  · rw [hsets, hstored]
    intro k hk
    rcases Nat.lt_succ_iff_lt_or_eq.mp hk with hk | rfl
    · exact (hf.records k hk).addScope
    · rw [← hf.size, hf.unused _ (Nat.le_refl _)]
      exact Store.Records.fresh
  · rw [hsets, hstored]
    exact fun k hk => hf.unused k (Nat.le_of_succ_le hk)

/-- A copy looks where its original looks. -/
theorem copy (hf : t.Follows first h) (hc : t.contexts[asked]? = some c) :
    Follows first (⟨asked, .copy⟩ :: h) (t.act host asked c .copy).2 := by
  obtain ⟨hchain, hscopes⟩ := hf.chain_of_asked hc
  have hchains : History.chains (⟨asked, .copy⟩ :: h) = h.chains ++ [h.chain asked] := by
    rw [History.chains, hchain]
    rfl
  refine ⟨hf.sound, hf.size, ?_, ?_, hf.records, hf.unused⟩
  · rw [hchains, act, List.map_append, List.map_append, hf.scopes, List.map_singleton, List.map_singleton, hscopes]
  · rw [hchains]
    intro chain hmem k hk
    rcases List.mem_append.mp hmem with hmem | hmem
    · exact hf.within chain hmem k hk
    · rw [List.mem_singleton.mp hmem] at hk
      exact hf.chain_within hc k hk

/-- Other settings are not looked at. -/
theorem adjust (hf : t.Follows first h) (hc : t.contexts[asked]? = some c) {f : Layer → Layer}
    (hproper : ∀ l, (f l).scope = l.scope) :
    Follows first (⟨asked, .adjust f⟩ :: h) (t.act host asked c (.adjust f)).2 := by
  refine ⟨hf.sound, hf.size, ?_, hf.within, hf.records, hf.unused⟩
  have hsame : (c.modifyOwn f).scopes = c.scopes := by
    show (f c.own).scope :: _ = c.own.scope :: _
    rw [hproper]
    rfl
  show (t.contexts.set asked (c.modifyOwn f)).map (·.scopes) = h.chains.map (·.map (first + ·))
  have hget : (t.contexts.map (·.scopes))[asked]? = some c.scopes := by
    rw [List.getElem?_map, hc]
    rfl
  obtain ⟨hlt, hget⟩ := List.getElem?_eq_some_iff.mp hget
  rw [List.map_set, hsame, ← hget, List.set_getElem_self, hf.scopes]

/-- A declaration is for the own set of variables. -/
theorem declare (hf : t.Follows first h) (hc : t.contexts[asked]? = some c) (x : String) (d : Datum) :
    Follows first (⟨asked, .declare x d⟩ :: h) (t.act host asked c (.declare x d)).2 := by
  obtain ⟨own, hown, hscope⟩ := hf.head?_chain hc
  have hrun : (c.declare x d).runOn t.store = (.ok (), t.store.declare c.own.scope x d) := rfl
  rw [act, run_of_ok hrun, List.append_nil]
  refine hf.of_store ?_ (Store.size_scopes_declare ..) rfl rfl ?_ ?_
  · rw [Store.engine_declare]
    exact hf.sound
  · intro k hk
    have hrecords := (hf.records k hk).declare c.own.scope x d
    simp only [History.stored, hown, hscope, Option.some.injEq, Nat.add_left_cancel_iff] at hrecords ⊢
    exact hrecords
  · intro k hk
    funext y
    have hlt : own < h.sets := hf.chain_within hc own (List.mem_of_mem_head? hown)
    simp only [History.stored, hown, Option.some.injEq]
    rw [if_neg fun hboth => by omega]

/-- So is an undeclaration. -/
theorem undeclare (hf : t.Follows first h) (hc : t.contexts[asked]? = some c) (x : String) :
    Follows first (⟨asked, .undeclare x⟩ :: h) (t.act host asked c (.undeclare x)).2 := by
  obtain ⟨own, hown, hscope⟩ := hf.head?_chain hc
  rw [act, run_of_ok (Eval.runOn_change _ _), List.append_nil]
  refine hf.of_store hf.sound ?_ rfl rfl ?_ ?_
  · simp [Store.undeclare, Store.setScope]
  · intro k hk
    have hrecords := (hf.records k hk).undeclare c.own.scope x
    simp only [History.stored, hown, hscope, Option.some.injEq, Nat.add_left_cancel_iff] at hrecords ⊢
    exact hrecords
  · intro k hk
    funext y
    have hlt : own < h.sets := hf.chain_within hc own (List.mem_of_mem_head? hown)
    simp only [History.stored, hown, Option.some.injEq]
    rw [if_neg fun hboth => by omega]

/-- **An assignment** is for the nearest set of variables that has the name; without one it fails. -/
theorem runOn_setValue (host : Host) (hf : t.Follows first h) (hc : t.contexts[asked]? = some c) {x : QName}
    (hx : x.WellFormed) (d : Datum) :
    (c.setValue host x.variableText d).runOn t.store =
      match h.nearest asked x.written with
      | some k => (.ok (), (t.store.compiled x.variableText).declare (first + k) x.written d)
      | none => (.error (.notFound x.variableText), t.store.compiled x.variableText) := by
  rw [c.runOn_setValue_variableText host hf.sound hx,
    Context.scope_variableRef (hf.chain_of_asked hc).2 (hf.chain_records hc x.variableText)]
  show _ = match (h.chain asked).find? fun k => (h.stored k x.written).isSome with
    | some k => (Except.ok (), (t.store.compiled x.variableText).declare (first + k) x.written d)
    | none => (Except.error (EvalError.notFound x.variableText), t.store.compiled x.variableText)
  cases (h.chain asked).find? fun k => (h.stored k x.written).isSome <;> rfl

theorem assign (hf : t.Follows first h) (hc : t.contexts[asked]? = some c) {x : QName} (hx : x.WellFormed) (d : Datum) :
    Follows first (⟨asked, .assign x d⟩ :: h) (t.act host asked c (.assign x d)).2 := by
  have hrun := hf.runOn_setValue host hc hx d
  have hsound : (t.store.compiled x.variableText).engine.Sound := (hf.sound.compile x.variableText).2.1
  cases hnearest : h.nearest asked x.written with
  | none =>
    rw [hnearest] at hrun
    have hfind : (h.chain asked).find? (fun l => (h.stored l x.written).isSome) = none := hnearest
    have hstored : History.stored (⟨asked, .assign x d⟩ :: h) = h.stored := by
      funext k y
      simp only [History.stored, hfind]
      exact if_neg fun hboth => nomatch hboth.1
    rw [act, run_of_error hrun]
    refine hf.of_store hsound rfl rfl rfl ?_ ?_
    · rw [hstored]
      exact fun k hk => (hf.records k hk).compiled _
    · rw [hstored]
      exact fun _ _ => rfl
  | some nearest =>
    rw [hnearest] at hrun
    -- The value goes to the nearest set that has the variable; the others record what they recorded.
    have hfind : (h.chain asked).find? (fun l => (h.stored l x.written).isSome) = some nearest := hnearest
    rw [act, run_of_ok hrun, List.append_nil]
    refine hf.of_store ?_ (Store.size_scopes_declare ..) rfl rfl ?_ ?_
    · rw [Store.engine_declare]
      exact hsound
    · intro k hk
      have hrecords := ((hf.records k hk).compiled x.variableText).declare (first + nearest) x.written d
      simp only [History.stored, hfind, Option.some.injEq, Nat.add_left_cancel_iff] at hrecords ⊢
      exact hrecords
    · intro k hk
      funext y
      have hlt : nearest < h.sets := hf.chain_within hc nearest (List.mem_of_find?_eq_some hfind)
      simp only [History.stored, hfind, Option.some.injEq]
      rw [if_neg fun hboth => by omega]

/-- To read a variable changes no set of variables. -/
theorem read (hf : t.Follows first h) {x : QName} (hx : x.WellFormed) :
    Follows first (⟨asked, .read x⟩ :: h) (t.act host asked c (.read x)).2 := by
  have hstore := c.store_getValue_variableText host hf.sound hx
  have hleft : (t.act host asked c (.read x)).2 = ⟨t.store.compiled x.variableText, t.contexts⟩ := by
    rw [act]
    rcases hrun : (c.getValue host x.variableText).runOn t.store with ⟨e | d, st⟩
    · rw [hrun] at hstore
      rw [run_of_error hrun, ← hstore]
    · rw [hrun] at hstore
      rw [run_of_ok hrun, ← hstore, List.append_nil]
  rw [hleft]
  exact hf.of_store (hf.sound.compile x.variableText).2.1 rfl rfl rfl (fun k hk => (hf.records k hk).compiled _)
    fun _ _ => rfl

/-- **A request leaves a tree of contexts** as the history with the request says. -/
theorem perform {r : VariableRequest} (hf : t.Follows first h) (hr : r.action.IsProper) :
    Follows first (r :: h) (t.perform host r).2 := by
  obtain ⟨asked, action⟩ := r
  rw [ContextTree.perform]
  cases hc : t.contexts[asked]? with
  | none =>
    obtain ⟨hsets, hchains, hstored⟩ := History.of_nobody (hf.not_asked hc) action
    refine hf.of_store hf.sound rfl hsets hchains ?_ fun _ _ => ?_
    · rw [hstored]
      exact hf.records
    · rw [hstored]
  | some c =>
    cases action with
    | relative p => exact hf.relative hc p
    | copy => exact hf.copy hc
    | adjust f => exact hf.adjust hc hr
    | declare x d => exact hf.declare hc x d
    | undeclare x => exact hf.undeclare hc x
    | assign x d => exact hf.assign hc hr d
    | read x => exact hf.read hr

end Follows

/-- **Whatever has been asked**, the tree is as the history says. -/
theorem follows_after {st : Store} (hsound : st.engine.Sound) (root : Pointer) (hproper : ∀ r ∈ h, r.action.IsProper) :
    Follows st.scopes.size h ((atRoot st root).after host h) := by
  induction h with
  | nil => exact follows_atRoot hsound root
  | cons r h ih =>
    exact (ih fun r' hr' => hproper r' (List.mem_cons_of_mem _ hr')).perform (hproper r List.mem_cons_self)

end ContextTree

/-! ## §F  Reading and writing -/

namespace History

variable {h : History}

/-- What is stored has been declared or assigned. -/
theorem exists_of_stored {k : Nat} {x : String} {d : Datum} (hd : h.stored k x = some d) :
    ∃ r ∈ h, r.action.datum? = some d := by
  induction h with
  | nil => cases hd
  | cons r h ih =>
    obtain ⟨asked, action⟩ := r
    have hold : stored h k x = some d → ∃ r ∈ ⟨asked, action⟩ :: h, r.action.datum? = some d := by
      intro hd
      obtain ⟨r, hr, hdatum⟩ := ih hd
      exact ⟨r, List.mem_cons_of_mem _ hr, hdatum⟩
    cases action with
    | declare y d' =>
      simp only [stored] at hd
      split at hd
      · exact ⟨_, List.mem_cons_self, hd⟩
      · exact hold hd
    | undeclare y =>
      simp only [stored] at hd
      split at hd
      · cases hd
      · exact hold hd
    | assign y d' =>
      simp only [stored] at hd
      split at hd
      · exact ⟨_, List.mem_cons_self, hd⟩
      · exact hold hd
    | _ => exact hold hd

/-- **IsPlain** says that the requests are proper, and no value of them is a node. -/
def IsPlain (h : History) : Prop := ∀ r ∈ h, r.action.IsProper ∧ ∀ d ∈ r.action.datum?, d.isNode = false

theorem IsPlain.inReach_ne_pointer (hplain : h.IsPlain) (asked : Nat) (x : String) (p : Pointer) :
    h.inReach asked x ≠ some (.pointer p) := by
  intro hreach
  obtain ⟨k, -, hstored⟩ := Option.bind_eq_some_iff.mp hreach
  obtain ⟨r, hr, hdatum⟩ := exists_of_stored hstored
  exact Bool.noConfusion ((hplain r hr).2 _ hdatum)

end History

namespace ContextTree.Follows

variable {host : Host} {t : ContextTree} {first asked : Nat} {h : History} {c : Context}

theorem answer_of_asked (hf : t.Follows first h) (hc : t.contexts[asked]? = some c) : h.chain asked ≠ [] := by
  obtain ⟨k, hhead, -⟩ := hf.head?_chain hc
  rintro hnil
  rw [hnil] at hhead
  cases hhead

/-- What is read in a tree is what the history has in reach. -/
theorem answer_read (hf : t.Follows first h) (hc : t.contexts[asked]? = some c) {x : QName} (hx : x.WellFormed)
    (hplain : ∀ p, h.inReach asked x.written ≠ some (.pointer p)) :
    (t.act host asked c (.read x)).1 =
      match h.inReach asked x.written with
      | some d => .value d
      | none => .failed (.wrapped x.variableText (.undefinedVariable x.written)) := by
  have hvalue : c.variableValue? (t.store.compiled x.variableText) x = h.inReach asked x.written :=
    Context.variableValue?_eq (hf.chain_of_asked hc).2 (hf.chain_records hc x.variableText) x
  have hrun := c.runOn_getValue_variableText host hf.sound hx (by rw [hvalue]; exact hplain)
  rw [hvalue] at hrun
  rw [act, ContextTree.run]
  show VariableAnswer.of _ ((c.getValue host x.variableText).runOn t.store).1 = _
  rw [hrun]
  cases h.inReach asked x.written <;> rfl

/-- What is in the own set of variables is told when it is taken out. -/
theorem answer_undeclare (hf : t.Follows first h) (hc : t.contexts[asked]? = some c) (x : String) :
    (t.act host asked c (.undeclare x)).1 = .was ((h.chain asked).head?.bind (h.stored · x)).isSome := by
  obtain ⟨own, hown, hscope⟩ := hf.head?_chain hc
  have hrecords := hf.records own (hf.chain_within hc own (List.mem_of_mem_head? hown))
  rw [act, run_of_ok (Eval.runOn_change _ _), hown, Option.bind_some, ← hrecords.isSome_get? x, ← hscope]
  rfl

/-- **A request gets** what the history says. -/
theorem answer {r : VariableRequest} (hf : t.Follows first h) (hr : r.action.IsProper)
    (hplain : ∀ x p, h.inReach r.asked x ≠ some (.pointer p)) : (t.perform host r).1 = h.answer r := by
  obtain ⟨asked, action⟩ := r
  rw [ContextTree.perform, History.answer]
  cases hc : t.contexts[asked]? with
  | none =>
    have hnil : h.chain asked = [] := by
      rw [History.chain, hf.not_asked hc]
      rfl
    rw [if_pos hnil]
  | some c =>
    rw [if_neg (hf.answer_of_asked hc)]
    cases action with
    | relative p => rfl
    | copy => rfl
    | adjust f => rfl
    | declare x d => rfl
    | undeclare x => exact hf.answer_undeclare hc x
    | assign x d =>
      have hrun := hf.runOn_setValue host hc hr d
      cases hnearest : h.nearest asked x.written with
      | none =>
        rw [hnearest] at hrun
        dsimp only
        rw [act, run_of_error hrun, hnearest]
        rfl
      | some k =>
        rw [hnearest] at hrun
        dsimp only
        rw [act, run_of_ok hrun, hnearest]
        rfl
    | read x => exact hf.answer_read hc hr fun p => hplain x.written p

end ContextTree.Follows

/-- **A declaration in a context around** is what is read, also by contexts made before it, unless a nearer one is. -/
theorem History.inReach_declare {h : History} {asked around own : Nat} {nearer farther : List Nat} {x : String}
    (hchain : h.chain asked = nearer ++ own :: farther) (haround : (h.chain around).head? = some own)
    (hnearer : ∀ k ∈ nearer, h.stored k x = none) (d : Datum) :
    History.inReach (⟨around, .declare x d⟩ :: h) asked x = some d := by
  have hstored : ∀ k, History.stored (⟨around, .declare x d⟩ :: h) k x = if own = k then some d else h.stored k x := by
    intro k
    simp only [History.stored, haround, Option.some.injEq, and_true]
  have hnearest : History.nearest (⟨around, .declare x d⟩ :: h) asked x = some own := by
    show (h.chain asked).find? _ = _
    rw [hchain]
    clear hchain
    induction nearer with
    | nil => rw [List.nil_append, List.find?_cons_of_pos (by rw [hstored, if_pos rfl]; rfl)]
    | cons k nearer ih =>
      rw [List.cons_append, List.find?_cons, hstored]
      by_cases hk : own = k
      · simp [hk]
      · rw [if_neg hk, hnearer k List.mem_cons_self]
        exact ih fun k hk => hnearer k (List.mem_cons_of_mem _ hk)
  rw [History.inReach, hnearest, Option.bind_some, hstored, if_pos rfl]

theorem ContextTree.Follows.of_failed {host : Host} {t : ContextTree} {first asked : Nat} {h : History} {x : QName}
    {d : Datum} {e : EvalError} (hf : t.Follows first h) (hx : x.WellFormed)
    (hfailed : (t.perform host ⟨asked, .assign x d⟩).1 = .failed e) :
    (t.perform host ⟨asked, .assign x d⟩).2 = { t with store := t.store.compiled x.variableText } := by
  rw [ContextTree.perform] at hfailed ⊢
  dsimp only at hfailed ⊢
  cases hc : t.contexts[asked]? with
  | none => rw [hc] at hfailed; cases hfailed
  | some c =>
    have hrun := hf.runOn_setValue host hc hx d
    rw [hc] at hfailed
    dsimp only at hfailed ⊢
    cases hnearest : h.nearest asked x.written with
    | none =>
      rw [hnearest] at hrun
      rw [act, run_of_error hrun]
    | some k =>
      rw [hnearest] at hrun
      rw [act, run_of_ok hrun] at hfailed
      cases hfailed

/-- **Variables are those of the nearest declaration.** In a tree of contexts, after any requests to declare variables,
take them out and give them values by their texts, through any of the contexts, every further request gets what the
history says: a variable is read as what was stored last in the nearest set of variables that declares it, and given a
value there; where none declares it, both fail, and nothing is changed but that the text has been compiled. What a
context around declares after the context was made is read, too, unless a nearer one declares the name. -/
theorem perform_eq_answer {host : Host} {st : Store} {root : Pointer} {h : History} {r : VariableRequest}
    (hsound : st.engine.Sound) (hplain : h.IsPlain) (hr : r.action.IsProper) :
    let t := (ContextTree.atRoot st root).after host h
    (t.perform host r).1 = h.answer r ∧
      (∀ x d e, r.action = .assign x d → (t.perform host r).1 = .failed e →
        (t.perform host r).2 = { t with store := t.store.compiled x.variableText }) ∧
      ∀ around own nearer farther x d, h.chain r.asked = nearer ++ own :: farther → (h.chain around).head? = some own →
        (∀ k ∈ nearer, h.stored k x.written = none) → x.WellFormed → d.isNode = false →
        ((t.perform host ⟨around, .declare x.written d⟩).2.perform host ⟨r.asked, .read x⟩).1 = .value d := by
  intro t
  have hf : t.Follows st.scopes.size h := ContextTree.follows_after hsound root fun r hr => (hplain r hr).1
  refine ⟨hf.answer hr fun x => hplain.inReach_ne_pointer r.asked x, ?_, ?_⟩
  · obtain ⟨asked, action⟩ := r
    rintro x d e rfl hfailed
    exact hf.of_failed hr hfailed
  · intro around own nearer farther x d hchain haround hnearer hx hd
    -- What is read after the declaration is what the history says that has the declaration as its newest row.
    have hreach := History.inReach_declare hchain haround hnearer d
    have hf' : (t.perform host ⟨around, .declare x.written d⟩).2.Follows st.scopes.size _ := hf.perform trivial
    have hplain' : History.IsPlain (⟨around, .declare x.written d⟩ :: h) := by
      refine List.forall_mem_cons.mpr ⟨⟨trivial, ?_⟩, hplain⟩
      rintro d' ⟨⟩
      exact hd
    have hask : (⟨r.asked, .read x⟩ : VariableRequest).action.IsProper := hx
    have hasked : History.chain (⟨around, .declare x.written d⟩ :: h) r.asked ≠ [] := by
      show h.chain r.asked ≠ []
      rw [hchain]
      exact List.append_ne_nil_of_right_ne_nil _ (List.cons_ne_nil _ _)
    rw [hf'.answer hask fun x => hplain'.inReach_ne_pointer r.asked x, History.answer, if_neg hasked]
    dsimp only
    rw [hreach]

/-- Two contexts, one in the other. What is given a value through the inner one is declared in the outer one, later than
the inner one was made; then the inner one declares it, too, and the outer one no more. -/
def shadowingHistory : History :=
  [⟨0, .undeclare "x"⟩, ⟨1, .declare "x" (.text "near")⟩, ⟨1, .assign (.plain "x") (.object (.array [.null]))⟩,
    ⟨0, .declare "x" (.number 1)⟩, ⟨0, .relative .nothing⟩]

theorem isNcName_x : IsNcName "x" := ⟨'x', [], rfl, by decide, fun _ h => nomatch h⟩

theorem shadowingHistory_isPlain : shadowingHistory.IsPlain := by
  have hname : (QName.plain "x").WellFormed := ⟨fun _ h => (nomatch h), isNcName_x⟩
  have hdatum : ∀ {d : Datum}, d.isNode = false → ∀ d' ∈ some d, d'.isNode = false := by
    rintro d hd d' ⟨⟩
    exact hd
  have hnone : ∀ d' ∈ (none : Option Datum), d'.isNode = false := fun _ h => nomatch h
  simp only [History.IsPlain, shadowingHistory, List.forall_mem_cons]
  exact ⟨⟨trivial, hnone⟩, ⟨trivial, hdatum rfl⟩, ⟨hname, hdatum rfl⟩, ⟨trivial, hdatum rfl⟩,
    ⟨trivial, hnone⟩, fun _ h => nomatch h⟩

/-- The inner context reads its own variable, the outer one has none any more. Before that, it had the array, which the
inner one would have read after a further declaration of the outer one. -/
theorem perform_eq_answer_shadowing :
    let tree (h : History) : ContextTree := (ContextTree.atRoot (.holding .null) .firstTop).after stockHost h
    ((tree shadowingHistory).perform stockHost ⟨1, .read (.plain "x")⟩).1 = .value (.text "near") ∧
      ((tree shadowingHistory).perform stockHost ⟨0, .read (.plain "x")⟩).1 =
        .failed (.wrapped "$x" (.undefinedVariable "x")) ∧
      ((tree (shadowingHistory.drop 2)).perform stockHost ⟨0, .read (.plain "x")⟩).1 =
        .value (.object (.array [.null])) ∧
      (((tree (shadowingHistory.drop 2)).perform stockHost ⟨0, .declare "x" (.boolean true)⟩).2.perform stockHost
        ⟨1, .read (.plain "x")⟩).1 = .value (.boolean true) := by
  have hname : (QName.plain "x").WellFormed := ⟨fun _ h => (nomatch h), isNcName_x⟩
  have hsound : (Store.holding .null).engine.Sound := fun _ he => nomatch he
  have hplain : History.IsPlain (shadowingHistory.drop 2) := fun r hr =>
    shadowingHistory_isPlain r (List.mem_of_mem_drop hr)
  refine ⟨?_, ?_, ?_, ?_⟩
  · exact (perform_eq_answer hsound shadowingHistory_isPlain (r := ⟨1, .read (.plain "x")⟩) hname).1
  · exact (perform_eq_answer hsound shadowingHistory_isPlain (r := ⟨0, .read (.plain "x")⟩) hname).1
  · exact (perform_eq_answer hsound hplain (r := ⟨0, .read (.plain "x")⟩) hname).1
  · refine (perform_eq_answer hsound hplain (r := ⟨1, .read (.plain "x")⟩) hname).2.2 0 0 [1] [] (.plain "x")
      (.boolean true) ?_ ?_ ?_ hname rfl
    · decide
    · decide
    · decide

end NodePath
