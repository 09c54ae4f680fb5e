/-
# NodePath.Proofs.VariableValue — variables on a side of a comparison

Arithmetic takes the value that a variable holds, but a comparison takes the variable for a node and looks at what the
node opens onto, which for a scalar is a document made from it. What comes out is the value itself, up to the sign of
zero, which no comparison tells apart; but a number that is not finite has no document, and is seen as null.

* §A  Equal doubles compare alike.
* §B  What is seen of a scalar.
* §C  Variables that are left as they are.
* §D  Comparisons.
* §E  A number that is not one.
-/
import NodePath.Proofs.Creation
import NodePath.Proofs.LocationPath
import NodePath.Proofs.StoredNumber

namespace NodePath

/-! ## §A  Equal doubles -/

namespace Number

open Float.Model

variable {x y z : Float}

/-- Equal doubles are the same one, or two zeros. -/
theorem unpack_of_beq (h : (x == y) = true) :
    x.toModel.unpack = y.toModel.unpack ∨ ∃ s t, x.toModel.unpack = .zero s ∧ y.toModel.unpack = .zero t := by
  rw [beq_iff_compare] at h
  generalize x.toModel.unpack = a, y.toModel.unpack = b at h ⊢
  cases a with
  | notANumber => cases h
  | zero s =>
    cases b with
    | zero t => exact .inr ⟨s, t, rfl, rfl⟩
    | notANumber => cases h
    | infinity t => cases t <;> cases h
    | finite t n i hn => cases t <;> cases h
  | infinity s =>
    cases b with
    | infinity t => cases s <;> cases t <;> first | exact .inl rfl | cases h
    | notANumber => cases s <;> cases h
    | zero t => cases s <;> cases h
    | finite t n i hn => cases s <;> cases h
  | finite s m e hm =>
    cases b with
    | notANumber => cases s <;> cases h
    | infinity t => cases s <;> cases t <;> cases h
    | zero t => cases s <;> cases h
    | finite t n i hn =>
      -- of one sign, they are compared by their exponents and then by their significands
      have hsame : s = t ∧ (compare e i).then (compare m n) = .eq := by
        cases s <;> cases t <;> simp_all [UnpackedFloat.compare]
      obtain ⟨rfl, hcompare⟩ := hsame
      obtain ⟨hexponent, hmantissa⟩ := Ordering.then_eq_eq.mp hcompare
      obtain rfl := compare_eq_iff_eq.mp hexponent
      obtain rfl := compare_eq_iff_eq.mp hmantissa
      exact .inl rfl

/-- **RanksAs** says that two doubles are told apart by no comparison. -/
structure RanksAs (x y : Float) : Prop where
  left : ∀ u, x.toModel.unpack.compare u = y.toModel.unpack.compare u
  right : ∀ u : UnpackedFloat, u.compare x.toModel.unpack = u.compare y.toModel.unpack
  nan : x.toModel.unpack.isNaN = y.toModel.unpack.isNaN

/-- **Equal doubles compare alike**, also two zeros. -/
theorem ranksAs_of_beq (h : (x == y) = true) : RanksAs x y := by
  rcases unpack_of_beq h with heq | ⟨s, t, hx, hy⟩
  · exact ⟨fun _ => by rw [heq], fun _ => by rw [heq], by rw [heq]⟩
  · have hleft : ∀ u, UnpackedFloat.compare (.zero s) u = UnpackedFloat.compare (.zero t) u := by
      intro u
      cases u with
      | notANumber => rfl
      | zero => rfl
      | infinity s' => cases s' <;> rfl
      | finite s' m e hm => cases s' <;> rfl
    have hright : ∀ u, UnpackedFloat.compare u (.zero s) = UnpackedFloat.compare u (.zero t) := by
      intro u
      cases u with
      | notANumber => rfl
      | zero => rfl
      | infinity s' => cases s' <;> rfl
      | finite s' m e hm => cases s' <;> rfl
    refine ⟨fun u => ?_, fun u => ?_, ?_⟩
    · rw [hx, hy, hleft]
    · rw [hx, hy, hright]
    · rw [hx, hy]
      rfl

namespace RanksAs

theorem isNaN (h : RanksAs x y) : x.isNaN = y.isNaN := h.nan

theorem beq_left (h : RanksAs x y) (z : Float) : (x == z) = (y == z) := by
  rw [beq_iff_compare, beq_iff_compare, h.left]

theorem beq_right (h : RanksAs x y) (z : Float) : (z == x) = (z == y) := by
  rw [beq_iff_compare, beq_iff_compare, h.right]

/-! What is compared is what the doubles are unpacked to. -/

theorem lt_iff_compare (x y : Float) : x < y ↔ (x.toModel.unpack.compare y.toModel.unpack == some .lt) = true := by
  show decide (x.toModel < y.toModel) = true ↔ _
  rw [decide_eq_true_iff]
  rfl

theorem le_iff_compare (x y : Float) :
    x ≤ y ↔ (x.toModel.unpack.compare y.toModel.unpack).any (·.isLE) = true := by
  show decide (x.toModel ≤ y.toModel) = true ↔ _
  rw [decide_eq_true_iff]
  rfl

theorem lt_left (h : RanksAs x y) (z : Float) : x < z ↔ y < z := by
  rw [lt_iff_compare, lt_iff_compare, h.left]

theorem lt_right (h : RanksAs x y) (z : Float) : z < x ↔ z < y := by
  rw [lt_iff_compare, lt_iff_compare, h.right]

theorem le_left (h : RanksAs x y) (z : Float) : x ≤ z ↔ y ≤ z := by
  rw [le_iff_compare, le_iff_compare, h.left]

theorem le_right (h : RanksAs x y) (z : Float) : z ≤ x ↔ z ≤ y := by
  rw [le_iff_compare, le_iff_compare, h.right]

end RanksAs

end Number

/-- Truth values of doubles that no comparison tells apart. -/
theorem Datum.scalarBoolean_of_ranksAs {x y : Float} (h : Number.RanksAs x y) :
    (Datum.number x).scalarBoolean = (Datum.number y).scalarBoolean := by
  rw [Datum.scalarBoolean, Datum.scalarBoolean, h.beq_left, h.isNaN]

/-- **SameSide** says that two values do the same on either side of every comparison. -/
structure Datum.SameSide (a b : Datum) : Prop where
  left : ∀ st op o, Operand.compareBy st op (.spread a) o = Operand.compareBy st op (.spread b) o
  right : ∀ st op o, Operand.compareBy st op o (.spread a) = Operand.compareBy st op o (.spread b)

namespace Operand

variable {holds holds' : Datum → Datum → Bool} {a b : Datum}

/-- A relation that holds alike of two values holds alike of them as operands. -/
theorem relates_left (h : ∀ d, holds a d = holds b d) (o : Operand) :
    relates holds (.single a) o = relates holds (.single b) o := by
  cases o with
  | members ds => exact congrArg ds.any (funext h)
  | single d => exact h d

theorem relates_right (h : ∀ d, holds d a = holds d b) (o : Operand) :
    relates holds o (.single a) = relates holds o (.single b) := by
  cases o with
  | members ds => exact congrArg ds.any (funext h)
  | single d => exact h d

end Operand

namespace Datum

variable {x y : Float}

/-- A number on the left of an equality. -/
theorem alike_number_left (st : Store) (differ : Bool) (x : Float) (d : Datum) :
    Datum.alike st differ (.number x) d =
      if d.isTruth then ((Datum.number x).scalarBoolean == d.toBoolean st) != differ
      else if x.isNaN || (d.toDouble st).isNaN then false
      else (x == d.toDouble st) != differ := by
  rw [Datum.alike]
  simp only [isTruth, isNumber, Bool.false_or, Bool.true_or, if_true]
  rfl

/-- And on the right of one. -/
theorem alike_number_right (st : Store) (differ : Bool) (x : Float) (d : Datum) :
    Datum.alike st differ d (.number x) =
      if d.isTruth then (d.toBoolean st == (Datum.number x).scalarBoolean) != differ
      else if (d.toDouble st).isNaN || x.isNaN then false
      else (d.toDouble st == x) != differ := by
  rw [Datum.alike]
  simp only [isTruth, isNumber, Bool.or_false, Bool.or_true, if_true]
  rfl

/-- What an operator asks of two members. -/
def holds? (st : Store) : Operator → Option (Datum → Datum → Bool)
  | .equal => some (Datum.alike st false)
  | .notEqual => some (Datum.alike st true)
  | .less => some fun a b => a.toDouble st < b.toDouble st
  | .lessOrEqual => some fun a b => a.toDouble st <= b.toDouble st
  | .greater => some fun a b => a.toDouble st > b.toDouble st
  | .greaterOrEqual => some fun a b => a.toDouble st >= b.toDouble st
  | _ => none

/-- A number is compared as one member. -/
theorem compareBy_number_left (st : Store) (op : Operator) (x : Float) (o : Operand) :
    Operand.compareBy st op (.single (.number x)) o =
      (holds? st op).map fun holds => Operand.relates holds (.single (.number x)) o := by
  cases op <;> rfl

theorem compareBy_number_right (st : Store) (op : Operator) (x : Float) (o : Operand) :
    Operand.compareBy st op o (.single (.number x)) =
      (holds? st op).map fun holds => Operand.relates holds o (.single (.number x)) := by
  cases op with
  | equal => rcases o with ds | d <;> first | rfl | (cases d <;> rfl)
  | notEqual => rcases o with ds | d <;> first | rfl | (cases d <;> rfl)
  | _ => rfl

/-- Doubles that no comparison of doubles tells apart are members that no operator tells apart. -/
theorem holds?_of_ranksAs (h : Number.RanksAs x y) {st : Store} {op : Operator} {holds : Datum → Datum → Bool}
    (hop : holds? st op = some holds) (d : Datum) :
    holds (.number x) d = holds (.number y) d ∧ holds d (.number x) = holds d (.number y) := by
  have htruth := scalarBoolean_of_ranksAs h
  have hequal : ∀ differ, Datum.alike st differ (.number x) d = Datum.alike st differ (.number y) d ∧
      Datum.alike st differ d (.number x) = Datum.alike st differ d (.number y) := by
    intro differ
    constructor
    · rw [alike_number_left, alike_number_left, htruth, h.isNaN, h.beq_left]
    · rw [alike_number_right, alike_number_right, htruth, h.isNaN, h.beq_right]
  cases op with
  | equal => exact Option.some_inj.mp hop ▸ hequal false
  | notEqual => exact Option.some_inj.mp hop ▸ hequal true
  | less => exact Option.some_inj.mp hop ▸ ⟨decide_eq_decide.mpr (h.lt_left _), decide_eq_decide.mpr (h.lt_right _)⟩
  | lessOrEqual =>
    exact Option.some_inj.mp hop ▸ ⟨decide_eq_decide.mpr (h.le_left _), decide_eq_decide.mpr (h.le_right _)⟩
  | greater => exact Option.some_inj.mp hop ▸ ⟨decide_eq_decide.mpr (h.lt_right _), decide_eq_decide.mpr (h.lt_left _)⟩
  | greaterOrEqual =>
    exact Option.some_inj.mp hop ▸ ⟨decide_eq_decide.mpr (h.le_right _), decide_eq_decide.mpr (h.le_left _)⟩
  | _ => cases hop

/-- **Doubles that no comparison of doubles tells apart** are told apart by no comparison at all. -/
theorem sameSide_of_ranksAs (h : Number.RanksAs x y) : SameSide (.number x) (.number y) := by
  refine ⟨fun st op o => ?_, fun st op o => ?_⟩
  · show Operand.compareBy st op (.single (.number x)) o = Operand.compareBy st op (.single (.number y)) o
    rw [compareBy_number_left, compareBy_number_left]
    cases hop : holds? st op with
    | none => rfl
    | some holds => exact congrArg some (Operand.relates_left (fun d => (holds?_of_ranksAs h hop d).1) o)
  · show Operand.compareBy st op o (.single (.number x)) = Operand.compareBy st op o (.single (.number y))
    rw [compareBy_number_right, compareBy_number_right]
    cases hop : holds? st op with
    | none => rfl
    | some holds => exact congrArg some (Operand.relates_right (fun d => (holds?_of_ranksAs h hop d).2) o)

end Datum

/-! ## §B  Scalars -/

namespace Datum

/-- Whether a value is neither a node nor an array or an object. -/
def isScalar : Datum → Bool
  | object _ => false
  | pointer _ => false
  | _ => true

/-- **seen** is what a comparison sees of a scalar that a variable holds: the value, but null for a number that is not
finite. -/
def seen : Datum → Datum
  | number x => if Number.isFinite x then number x else null
  | d => d

/-- A finite number, a text, a truth value and null are seen as they are. -/
theorem seen_cases (v : Datum) : v.seen = v ∨ ∃ x, v = .number x ∧ Number.isFinite x = false ∧ v.seen = .null := by
  cases v with
  | number x =>
    cases hx : Number.isFinite x with
    | true => exact .inl (if_pos hx)
    | false => exact .inr ⟨x, rfl, hx, if_neg (by rw [hx]; exact Bool.false_ne_true)⟩
  | _ => exact .inl rfl

/-- A scalar is a side of a comparison by itself. -/
theorem ofDatum_seen {v : Datum} (h : v.isScalar = true) (st : Store) : Operand.ofDatum st v.seen = .spread v.seen := by
  rcases v.seen_cases with heq | ⟨x, -, -, hnull⟩
  · rw [heq]
    cases v with
    | pointer p => cases h
    | _ => rfl
  · rw [hnull]
    rfl

/-- **The document of a scalar** does the same as what is seen of it, on either side of every comparison. -/
theorem sameSide_scalarJson {v : Datum} (h : v.isScalar = true) : SameSide (.ofJson v.scalarJson) v.seen := by
  have hrefl : ∀ d : Datum, SameSide d d := fun d => ⟨fun _ _ _ => rfl, fun _ _ _ => rfl⟩
  cases v with
  | null => exact hrefl _
  | boolean b => exact hrefl _
  | text s => exact hrefl _
  | object j => cases h
  | pointer p => cases h
  | number x =>
    show SameSide (.ofJson (.ofFloat x)) (if Number.isFinite x then .number x else .null)
    cases hfinite : Number.isFinite x with
    | false =>
      have hnull : Json.ofFloat x = .null := by rw [Json.ofFloat, hfinite]; rfl
      rw [hnull]
      exact hrefl _
    | true =>
      obtain ⟨y, hy, hbeq⟩ := Json.toFloat?_ofFloat hfinite
      have hnumber : ∀ j : Json, j.toFloat? = some y → Datum.ofJson j = .number y := by
        intro j hj
        cases j <;> cases hj <;> rfl
      rw [hnumber _ hy, if_pos rfl]
      exact sameSide_of_ranksAs (Number.ranksAs_of_beq hbeq)

end Datum

/-! ## §C  Variables that are left as they are -/

/-- **Declares** says that the nearest declaration of a name that a context knows is in a set of variables, where it
holds a value, and that documents can be made nodes. -/
structure Context.Declares (c : Context) (name : QName) (s : ScopeId) (v : Datum) (st : Store) : Prop where
  nearest : c.variableRef st name = ⟨name, some s⟩
  held : (st.scope s).get? name.written = some (.value v)
  opens : st.engine.opensDocuments = true

/-- Compiling a text leaves the registry as it is. -/
theorem Engine.opensDocuments_compile (e : Engine) (text : String) :
    (e.compile text).2.opensDocuments = e.opensDocuments := by
  have hregistry : (e.compile text).2.registry = e.registry := by
    unfold Engine.compile
    split
    · rfl
    · split <;> rfl
  rw [opensDocuments, opensDocuments, hregistry]

/-- The coupling of every context with itself in which a variable is left as it is. -/
def Coupling.leaving (c : Context) (name : QName) (s : ScopeId) (v : Datum) : Coupling where
  good := c.Declares name s v
  allows st st' := c.Declares name s v st → c.Declares name s v st'
  pairs := Eq
  refl _ := id
  trans h h' := h' ∘ h
  stays hgood h := h hgood
  addDocument _ _ h := ⟨h.nearest, h.held, h.opens⟩
  compile _ text h := ⟨h.nearest, h.held, (Engine.opensDocuments_compile _ text).trans h.opens⟩
  concur := .of_eq
  setLenient := Coupling.retaining.setLenient

/-- **Leaves** says that the functions of a host leave a variable as it is, as long as what they ask of their call does. -/
def Host.Leaves (host : Host) (c : Context) (name : QName) (s : ScopeId) (v : Datum) : Prop :=
  host.Concurs (.leaving c name s v)

theorem Stock.leaves (c : Context) (name : QName) (s : ScopeId) (v : Datum) : stockHost.Leaves c name s v :=
  Host.concurs_of_actions Stock.concurs

section

variable {c : Context} {host : Host} {name : QName} {s : ScopeId} {v : Datum} {st : Store}

/-- What is evaluated leaves the variable as it is. -/
theorem Host.Leaves.ready (h : host.Leaves c name s v) :
    Setting.Ready (Coupling.leaving c name s v).regime (c.setting host) (c.setting host) := Host.Concurs.setting h rfl

namespace Context.Declares

/-- The variable opens onto a copy of its value. -/
theorem opening (h : c.Declares name s v st) (hv : v.isScalar = true) :
    (Pointer.var ⟨name, some s⟩).opening st = .onCopy v.scalarJson := by
  have hslot : st.slot? ⟨name, some s⟩ = some (.value v) := h.held
  cases v with
  | pointer p => cases hv
  | _ => simp only [Pointer.opening, hslot, h.opens, if_true]

theorem follow (h : c.Declares name s v st) (hv : v.isScalar = true) :
    (Pointer.var ⟨name, some s⟩).follow st = .var ⟨name, some s⟩ := by
  simp [Pointer.follow, Pointer.followFrom, h.opening hv]

/-- **What a comparison takes a variable for** does the same as what is seen of its value. -/
theorem ofDatum (h : c.Declares name s v st) (hv : v.isScalar = true) :
    Operand.ofDatum st (.pointer (.var ⟨name, some s⟩)) = .spread (.ofJson v.scalarJson) := by
  have hopening := h.opening hv
  have hfollow := h.follow hv
  have hactual : (Pointer.var ⟨name, some s⟩).isOpenedActual st = true := by
    simp [Pointer.isOpenedActual, hfollow, hopening]
  have hvalue : (Pointer.var ⟨name, some s⟩).openedValue st = .ofJson v.scalarJson := by
    simp [Pointer.openedValue, hfollow, hopening]
  rw [Operand.ofDatum, if_pos hactual, hvalue]

end Context.Declares

/-! ## §D  Comparisons -/

/-- Whether an operator compares. -/
def Operator.compares : Operator → Bool
  | equal | notEqual | less | lessOrEqual | greater | greaterOrEqual => true
  | _ => false

/-- **comparing** compares what two sides come to, the left one first. -/
def Evaluator.comparing (ev : Evaluator) (op : Operator) (left right : Walk Value) : Walk Value := do
  let l ← left
  let r ← right
  pure (.datum (← ev.onBoth op l r))

variable {op : Operator} {ev : Evaluator}

/-- The value of a comparison of two operands. -/
theorem Evaluator.operation_of_compares (hop : op.compares = true) (m : Motion) (e₁ e₂ : Expr) :
    ev.operation m op [e₁, e₂] = ev.comparing op (ev.lazy m e₁) (ev.lazy m e₂) := by
  cases op <;> first | rfl | cases hop

/-- What two sides come to is looked at from the left to the right. -/
theorem Evaluator.onBoth_of_compares (hop : op.compares = true) (l r : Value) :
    ev.onBoth op l r = (do
      let a ← ev.sideOf l
      let b ← ev.sideOf r
      let st ← get
      match Operand.compareBy st op a b with
      | some holds => pure (.boolean holds)
      | none => throw (.evaluation (.notBinary op.symbol))) := by
  have hnone : Evaluator.arithmetic op = none := by cases op <;> first | rfl | cases hop
  unfold Evaluator.onBoth
  split
  · rename_i f hf
    rw [hnone] at hf
    cases hf
  · rfl

section

variable (hv : v.isScalar = true) (hop : op.compares = true)
variable (hev : ev.Agree (Coupling.leaving c name s v).regime ev)

include hv hop hev

/-- **The variable on the left** is compared as what is seen of its value. -/
theorem Evaluator.onBoth_variable_left (w : Value) :
    EvalAgree (Coupling.leaving c name s v).regime (ev.onBoth op (.datum v.seen) w)
      (ev.onBoth op (.pointer (.var ⟨name, some s⟩)) w) := by
  rw [Evaluator.onBoth_of_compares hop, Evaluator.onBoth_of_compares hop]
  refine .get_bind fun st hst => ?_
  rw [Context.Declares.ofDatum hst hv, Datum.ofDatum_seen hv]
  refine (hev.sideOf w).bind fun b => .get_bind fun st' _ => ?_
  rw [(Datum.sameSide_scalarJson hv).left]
  split
  · exact .pure _
  · exact .throw trivial

/-- **The variable on the right** is, too, in the store that the left side leaves. -/
theorem Evaluator.onBoth_variable_right (w : Value) :
    EvalAgree (Coupling.leaving c name s v).regime (ev.onBoth op w (.datum v.seen))
      (ev.onBoth op w (.pointer (.var ⟨name, some s⟩))) := by
  rw [Evaluator.onBoth_of_compares hop, Evaluator.onBoth_of_compares hop]
  refine (hev.sideOf w).bind fun a => .get_bind fun st hst => ?_
  rw [Context.Declares.ofDatum hst hv, Datum.ofDatum_seen hv]
  refine .get_bind fun st' _ => ?_
  rw [(Datum.sameSide_scalarJson hv).right]
  split
  · exact .pure _
  · exact .throw trivial

end

/-- A variable is taken for the node of its nearest declaration. -/
theorem Evaluator.variable_bind {α : Type} {m : Motion} {f g : Value → Walk α}
    (hlazy : ev.lazy m (.var name) = do pure (.pointer (.var (c.variableRef (← Walk.store) name))))
    (hfg : WalkAgree (Coupling.leaving c name s v).regime (f (.datum v.seen)) (g (.pointer (.var ⟨name, some s⟩)))) :
    WalkAgree (Coupling.leaving c name s v).regime (pure (.datum v.seen) >>= f) (ev.lazy m (.var name) >>= g) := by
  intro cur st hst
  have hnearest : c.variableRef st name = ⟨name, some s⟩ := Context.Declares.nearest hst
  have hvariable : (ev.lazy m (.var name)).runOn cur st = (.ok (.pointer (.var ⟨name, some s⟩)), cur, st) := by
    rw [hlazy, Walk.runOn_bind, Walk.runOn_store, ← hnearest]
    rfl
  rw [Walk.runOn_bind, hvariable]
  exact hfg cur st hst

section

variable {m : Motion} (hv : v.isScalar = true) (hop : op.compares = true)
variable (hev : ev.Agree (Coupling.leaving c name s v).regime ev) (hm : m.Agree (Coupling.leaving c name s v).regime m)
variable (hlazy : ev.lazy m (.var name) = do pure (.pointer (.var (c.variableRef (← Walk.store) name))))

include hv hop hev hm hlazy

theorem Evaluator.comparing_variable_left (e : Expr) :
    WalkAgree (Coupling.leaving c name s v).regime (ev.comparing op (pure (.datum v.seen)) (ev.lazy m e))
      (ev.comparing op (ev.lazy m (.var name)) (ev.lazy m e)) :=
  Evaluator.variable_bind hlazy <| (hev.lazy hm e).bind fun w =>
    (WalkAgree.monadLift (Evaluator.onBoth_variable_left hv hop hev w)).bind fun _ => .pure _

theorem Evaluator.comparing_variable_right (e : Expr) :
    WalkAgree (Coupling.leaving c name s v).regime (ev.comparing op (ev.lazy m e) (pure (.datum v.seen)))
      (ev.comparing op (ev.lazy m e) (ev.lazy m (.var name))) :=
  (hev.lazy hm e).bind fun w => Evaluator.variable_bind hlazy <|
    (WalkAgree.monadLift (Evaluator.onBoth_variable_right hv hop hev w)).bind fun _ => .pure _

end

/-- **Comparisons see the value that a variable holds**, unless it is a number that is not finite. Wherever a variable
that holds a scalar is compared with an expression, be it at the context node or in a predicate, and on either side,
what comes out, or the error, is what comes out when the value itself is compared with that of the expression, which
is evaluated as it would be otherwise. In the stead of a number that is not finite, null is compared. The functions
that the expression calls are taken to leave the variable as it is. -/
theorem Setting.comparison_sees_value (hv : v.isScalar = true) (hop : op.compares = true) (e : Expr)
    (hhost : host.Leaves c name s v) (hst : c.Declares name s v st) (depth levels outer length : Nat) (cur : Cursor) :
    (let ev := (c.setting host).evaluatorTo ((c.setting host).surroundingsTo depth) (levels + 1)
    let m := Motion.ofLength ((c.setting host).surroundingsTo outer) length
    (ev.next.value m (.operation op [.var name, e])).runOn cur st =
        (ev.comparing op (pure (.datum v.seen)) (ev.lazy m e)).runOn cur st ∧
      (ev.next.value m (.operation op [e, .var name])).runOn cur st =
        (ev.comparing op (ev.lazy m e) (pure (.datum v.seen))).runOn cur st) ∧
    (v.seen = v ∨ ∃ x, v = .number x ∧ Number.isFinite x = false ∧ v.seen = .null) := by
  have hready := hhost.ready
  have hev := hready.evaluatorTo (hready.surroundingsTo depth) (levels + 1)
  have hm := Motion.Agree.ofLength (hready.surroundingsTo outer) length
  have hlazy : ∀ m, ((c.setting host).evaluatorTo ((c.setting host).surroundingsTo depth) (levels + 1)).lazy m (.var name) =
      (do pure (.pointer (.var (c.variableRef (← Walk.store) name)))) := by
    intro m
    have hcontext : ((c.setting host).evaluatorTo ((c.setting host).surroundingsTo depth) levels).context = c := by
      rw [Evaluator.context, Setting.evaluatorTo_setting]
      rfl
    show (do pure (Value.pointer (.var (Context.variableRef (Evaluator.context _) (← Walk.store) name)))) = _
    rw [hcontext]
  -- Both sides are the operation itself, in which the variable is one of the operands.
  refine ⟨⟨?_, ?_⟩, v.seen_cases⟩
  · refine Eq.trans ?_ (Evaluator.comparing_variable_left hv hop hev hm (hlazy _) e cur st hst).1
    rw [← Evaluator.operation_of_compares hop]
    rfl
  · refine Eq.trans ?_ (Evaluator.comparing_variable_right hv hop hev hm (hlazy _) e cur st hst).1
    rw [← Evaluator.operation_of_compares hop]
    rfl

/-- A document with one variable of the context at its top. -/
def Store.declaring (j : Json) (name : String) (v : Datum) : Store := (Store.holding j).declare 0 name v

/-- A text that a variable holds, compared with a member. -/
theorem Setting.comparison_sees_value_text :
    let st := Store.declaring (.object [("a", .int 1)]) "x" (.text "1")
    let s := Context.atTop.setting stockHost
    let ev := s.evaluatorTo (s.surroundingsTo 1) 1
    let m := Motion.ofLength (s.surroundingsTo 1) 1
    let e : Expr := .path false [⟨.child, .name (.plain "a"), []⟩]
    let cur := Cursor.startAt st .firstTop
    (ev.next.value m (.operation .equal [.var (.plain "x"), e])).runOn cur st =
      (ev.comparing .equal (pure (.text "1")) (ev.lazy m e)).runOn cur st := by
  intro st s ev m e cur
  have hdeclares : Context.atTop.Declares (.plain "x") 0 (.text "1") st := ⟨rfl, rfl, by decide +kernel⟩
  exact (comparison_sees_value rfl rfl e (Stock.leaves _ _ _ _) hdeclares 1 0 1 1 cur).1.1

/-! ## §E  No number -/

/-- The truth value that a text reads, if it reads one. -/
def truthRead? (c : Context) (host : Host) (text : String) (st : Store) : Option Bool :=
  match ((c.getValue host text).runOn st).1 with
  | .ok (.boolean b) => some b
  | _ => none

/-- A variable that holds what is no number is less than one, though what it holds is not. -/
theorem comparison_sees_null :
    truthRead? .atTop stockHost "$x < 1" (.declaring (.object []) "x" (.number (0 / 0))) = some true ∧
      Operand.compareBy (.declaring (.object []) "x" (.number (0 / 0))) .less (.spread (.number (0 / 0)))
        (.spread (.number 1)) = some false := by
  decide +kernel

end

end NodePath
