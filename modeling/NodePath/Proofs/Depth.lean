/-
# NodePath.Proofs.Depth — evaluators that are deep enough

An evaluator goes from an expression to its operands, which are smaller. So an evaluator that is as deep as an
expression is large has enough levels for it, and levels beyond that change nothing. An expression may therefore be
evaluated as a part of another one as if it stood alone.

* §A  `Evaluator.SameTo`: evaluators that agree on all expressions up to a size.
* §B  Operands and calls.
* §C  Operations and paths.
* §D  Core functions.
* §E  Levels beyond those that an expression needs.
-/
import NodePath.Evaluation.Expr

namespace NodePath

variable {n : Nat} {e : Expr} {es : List Expr}

/-! ## §A  Sizes -/

theorem Expr.size_le_of_mem (h : e ∈ es) : e.size ≤ sizeAll es := by
  induction es with
  | nil => cases h
  | cons e' es ih =>
    rw [sizeAll]
    rcases List.mem_cons.mp h with rfl | h
    · exact Nat.le_add_right _ _
    · exact Nat.le_trans (ih h) (Nat.le_add_left _ _)

/-- Walks that are the same for all elements of a list are the same one after the other. -/
theorem Walk.mapM_congr {ι α : Type} {is : List ι} {f g : ι → Walk α} (h : ∀ i ∈ is, f i = g i) :
    is.mapM f = is.mapM g := by
  induction is with
  | nil => rfl
  | cons i is ih =>
    obtain ⟨hi, his⟩ := List.forall_mem_cons.mp h
    rw [List.mapM_cons, List.mapM_cons, hi, ih his]

/-- **SameTo** says that two evaluators, which move cursors alike in one setting, find the same values of all
expressions up to a size. -/
structure Evaluator.SameTo (n : Nat) (ev ev' : Evaluator) : Prop where
  setting : ev'.setting = ev.setting
  surroundings : ev'.surroundings = ev.surroundings
  lazy : ∀ e : Expr, e.size ≤ n → ∀ m, ev'.lazy m e = ev.lazy m e
  value : ∀ e : Expr, e.size ≤ n → ∀ m, ev'.value m e = ev.value m e

namespace Evaluator.SameTo

variable {ev ev' : Evaluator} {m : Motion}

/-! ## §B  Operands and calls -/

section

variable (h : ev.SameTo n ev')

include h

theorem on {α : Type} (c : Cursor) (f : Motion → Walk α) : ev'.on c f = ev.on c f := by
  rw [Evaluator.on, Evaluator.on, Evaluator.here, Evaluator.here, h.surroundings]

theorem firstOf (v : Value) : ev'.firstOf v = ev.firstOf v := by
  cases v with
  | datum d => rfl
  | nodes c => simp only [Evaluator.firstOf, Evaluator.first, h.on]

theorem nodeSet (c : Cursor) : ev'.nodeSet c = ev.nodeSet c := h.on c _

theorem deliverAll (c : Cursor) : ev'.deliverAll c = ev.deliverAll c := h.on c _

theorem startOf (v : Value) : ev'.startOf v = ev.startOf v := by
  cases v with
  | nodes c => simp only [Evaluator.startOf, h.nodeSet]
  | datum d => cases d <;> rfl

theorem callAt : ev'.callAt = ev.callAt := by
  have hfirst : ev'.first = ev.first := funext fun c => h.on c _
  have hnodes : ev'.nodeSet = ev.nodeSet := funext h.nodeSet
  funext node position
  simp only [Evaluator.callAt, Evaluator.context, h.setting, hfirst, hnodes]

section

variable (he : e.size ≤ n)

include he

theorem operand : ev'.operand m e = ev.operand m e := by
  simp only [Evaluator.operand, h.lazy e he, h.firstOf]

theorem plain : ev'.plain m e = ev.plain m e := by
  simp only [Evaluator.plain, h.value e he, h.firstOf]

theorem text : ev'.text m e = ev.text m e := by
  simp only [Evaluator.text, h.operand he]

theorem truth : ev'.truth m e = ev.truth m e := by
  simp only [Evaluator.truth, h.operand he]

theorem double : ev'.double m e = ev.double m e := by
  simp only [Evaluator.double, h.plain he]

theorem chars : ev'.chars m e = ev.chars m e := by
  simp only [Evaluator.chars, h.text he]

theorem unionNodes : ev'.unionNodes m e = ev.unionNodes m e := by
  simp only [Evaluator.unionNodes, h.lazy e he, h.nodeSet]

end

variable (hes : ∀ e ∈ es, e.size ≤ n)

include hes

theorem callFunction (name : QName) : ev'.callFunction m name es = ev.callFunction m name es := by
  have hvalues : es.mapM (ev'.lazy m) = es.mapM (ev.lazy m) := Walk.mapM_congr fun e he => h.lazy e (hes e he) m
  have haction : ∀ implementation, ev'.action implementation = ev.action implementation := by
    intro implementation
    cases implementation with
    | builtin b => rfl
    | hosted handle => exact congrArg (fun s : Setting => s.host handle) h.setting
  have hcall : ev'.call m = ev.call m := by
    simp only [Evaluator.call, h.callAt]
  simp only [Evaluator.callFunction, Evaluator.context, h.setting, hvalues, haction, hcall]

/-! ## §C  Operations and paths -/

theorem anyIs (decisive : Bool) : ev'.anyIs m decisive es = ev.anyIs m decisive es := by
  induction es with
  | nil => rfl
  | cons e es ih =>
    obtain ⟨he, hes⟩ := List.forall_mem_cons.mp hes
    rw [Evaluator.anyIs, Evaluator.anyIs, h.truth he, ih hes]

theorem sumOf (total : Float) : ev'.sumOf m total es = ev.sumOf m total es := by
  induction es generalizing total with
  | nil => rfl
  | cons e es ih =>
    obtain ⟨he, hes⟩ := List.forall_mem_cons.mp hes
    simp only [Evaluator.sumOf, h.double he, ih hes]

theorem unionOf : ev'.unionOf m es = ev.unionOf m es := by
  rw [Evaluator.unionOf, Evaluator.unionOf, Walk.mapM_congr fun e he => h.unionNodes (hes e he)]

/-- An operation is the same when its operands are. -/
theorem operation (op : Operator) : ev'.operation m op es = ev.operation m op es := by
  have hside : ∀ v, ev'.sideOf v = ev.sideOf v := by
    intro v
    cases v with
    | nodes c => simp only [Evaluator.sideOf, h.nodeSet]
    | datum d => rfl
  have hboth : ∀ op l r, ev'.onBoth op l r = ev.onBoth op l r := fun op l r => by
    simp only [Evaluator.onBoth, h.firstOf, hside]
  unfold Evaluator.operation
  split
  · rw [h.anyIs hes]
  · rw [h.anyIs hes]
  · rw [h.unionOf hes]
  · rw [h.double (hes _ (by simp))]
  · rfl
  · rw [h.sumOf hes]
  · simp only [h.lazy _ (hes _ List.mem_cons_self), h.lazy _ (hes _ (List.mem_cons_of_mem _ List.mem_cons_self)), hboth]
  · rfl

end

section

variable (h : ev.SameTo n ev')

include h

theorem locationPath (absolute : Bool) (steps : List Step) :
    ev'.locationPath m absolute steps = ev.locationPath m absolute steps := by
  simp only [Evaluator.locationPath, Evaluator.context, h.setting]

theorem filterPath (he : e.size ≤ n) (predicates : List Expr) (steps : List Step) :
    ev'.filterPath m e predicates steps = ev.filterPath m e predicates steps := by
  simp only [Evaluator.filterPath, h.lazy e he, h.startOf]

theorem firstNode (path : Walk Cursor) : ev'.firstNode path = ev.firstNode path := by
  simp only [Evaluator.firstNode, h.firstOf]

/-! ## §D  Core functions -/

theorem countOf (v : Value) : ev'.countOf v = ev.countOf v := by
  cases v with
  | nodes c => simp only [Evaluator.countOf, h.deliverAll]
  | datum d =>
    cases d with
    | object j => cases j <;> rfl
    | _ => rfl

/-- A function of the host program is asked the same. -/
theorem ask (handle : String) (args : List Datum) : ev'.ask handle args = ev.ask handle args := by
  simp only [Evaluator.ask, h.setting, h.callAt]

theorem askPointer (handle : String) (args : List Datum) : ev'.askPointer handle args = ev.askPointer handle args := by
  simp only [Evaluator.askPointer, h.ask, h.firstOf]

theorem pointerById (id : String) : ev'.pointerById id = ev.pointerById id := by
  simp only [Evaluator.pointerById, Evaluator.pointerAlong, Evaluator.context, h.setting, h.askPointer]

theorem nodesByKey (key : String) (d : Datum) : ev'.nodesByKey key d = ev.nodesByKey key d := by
  have hall : ∀ handle args, ev'.askPointers handle args = ev.askPointers handle args := fun _ _ => by
    simp only [Evaluator.askPointers, h.ask, h.deliverAll]
  simp only [Evaluator.nodesByKey, Evaluator.pointerByKey, Evaluator.pointerAlong, Evaluator.context, h.setting,
    h.askPointer, hall]

theorem keyed (key : String) (v : Value) : ev'.keyed key v = ev.keyed key v := by
  cases v with
  | nodes c => simp only [Evaluator.keyed, h.nodesByKey, h.on]
  | datum d => exact h.nodesByKey key d

theorem summands (v : Value) : ev'.summands v = ev.summands v := by
  cases v with
  | nodes c => simp only [Evaluator.summands, h.deliverAll]
  | datum d =>
    cases d with
    | object j => cases j <;> rfl
    | _ => rfl

section

variable (hes : ∀ e ∈ es, e.size ≤ n)

include hes

theorem subject : ev'.subject m es = ev.subject m es := by
  cases es with
  | nil => rfl
  | cons e es => simp only [Evaluator.subject, h.operand (hes e List.mem_cons_self)]

theorem nodeText (f : Pointer → Store → String) : ev'.nodeText m es f = ev.nodeText m es f := by
  simp only [Evaluator.nodeText, h.subject hes]

theorem subjectValue : ev'.subjectValue m es = ev.subjectValue m es := by
  cases es with
  | nil => rfl
  | cons e es => simp only [Evaluator.subjectValue, h.operand (hes e List.mem_cons_self)]

theorem concat : ev'.concat m es = ev.concat m es := by
  rw [Evaluator.concat, Evaluator.concat, Walk.mapM_congr fun e he => h.text (hes e he)]

end

theorem substring {position : Expr} {length : Option Expr} (he : e.size ≤ n) (hp : position.size ≤ n)
    (hl : ∀ e ∈ length, e.size ≤ n) : ev'.substring m e position length = ev.substring m e position length := by
  have hlength : length.mapM (ev'.double m) = length.mapM (ev.double m) := by
    cases length with
    | none => rw [Option.mapM_none, Option.mapM_none]
    | some e =>
      show some <$> ev'.double m e = some <$> ev.double m e
      rw [h.double (hl e rfl)]
  simp only [Evaluator.substring, h.chars he, h.double hp, hlength]

theorem formatNumber {pattern : Expr} {format : Option Expr} (he : e.size ≤ n) (hp : pattern.size ≤ n)
    (hf : ∀ e ∈ format, e.size ≤ n) : ev'.formatNumber m e pattern format = ev.formatNumber m e pattern format := by
  have hsymbols : ev'.symbols m format = ev.symbols m format := by
    cases format with
    | none => simp only [Evaluator.symbols, Evaluator.context, h.setting]
    | some e => simp only [Evaluator.symbols, Evaluator.context, h.setting, h.plain (hf e rfl)]
  simp only [Evaluator.formatNumber, h.double he, h.text hp, hsymbols]

/-- A core function comes to the same when its arguments do. -/
theorem callCore (hes : ∀ e ∈ es, e.size ≤ n) (f : CoreFunction) : ev'.callCore m f es = ev.callCore m f es := by
  have hlanguage : ev'.languageOf = ev.languageOf := by
    funext p st
    simp only [Evaluator.languageOf, Evaluator.context, h.setting]
  -- By the cases of the definition: each argument is smaller than the call, so both evaluators agree on it.
  have hvalue : ev'.coreValue m f es = ev.coreValue m f es := by
    unfold Evaluator.coreValue
    split
    · rfl
    · rfl
    · rename_i e
      simp only [h.lazy e (hes e (by simp)), h.countOf]
    · rename_i e
      simp only [h.text (hes e (by simp)), h.pointerById]
    · rename_i e₁ e₂
      simp only [h.plain (hes e₁ (by simp)), h.lazy e₂ (hes e₂ (by simp)), h.keyed]
    · exact h.nodeText hes _
    · exact h.nodeText hes _
    · exact h.nodeText hes _
    · rw [h.subjectValue hes]
    · rw [h.subjectValue hes]
    · rw [h.subjectValue hes]
    · exact h.concat hes
    iterate 3
      rename_i e₁ e₂
      simp only [Evaluator.testTexts, h.chars (hes e₁ (by simp)), h.chars (hes e₂ (by simp))]
    iterate 2
      rename_i e₁ e₂
      simp only [Evaluator.partOf, h.chars (hes e₁ (by simp)), h.chars (hes e₂ (by simp))]
    · exact h.substring (hes _ (by simp)) (hes _ (by simp)) (by simp)
    · exact h.substring (hes _ (by simp)) (hes _ (by simp)) (by simpa using hes _ (by simp))
    · rw [h.chars (hes _ (by simp))]
    · rename_i e old new
      simp only [Evaluator.translate, h.chars (hes e (by simp)), h.chars (hes old (by simp)), h.chars (hes new (by simp))]
    · rw [h.truth (hes _ (by simp))]
    · rw [h.truth (hes _ (by simp))]
    · rfl
    · rfl
    · rfl
    · rename_i e
      simp only [Evaluator.lang, h.chars (hes e (by simp)), hlanguage]
    · rename_i e
      simp only [h.lazy e (hes e (by simp)), h.summands]
    · rw [h.double (hes _ (by simp))]
    · rw [h.double (hes _ (by simp))]
    · rw [h.double (hes _ (by simp))]
    · exact h.formatNumber (hes _ (by simp)) (hes _ (by simp)) (by simp)
    · exact h.formatNumber (hes _ (by simp)) (hes _ (by simp)) (by simpa using hes _ (by simp))
    · rfl
  rw [Evaluator.callCore, Evaluator.callCore, hvalue]

/-! ## §E  Levels -/

theorem valueOf (he : e.size ≤ n + 1) : ev'.valueOf m e = ev.valueOf m e := by
  have hargs : ∀ {args}, Expr.sizeAll args + 1 ≤ n + 1 → ∀ a ∈ args, a.size ≤ n := fun hsize a ha =>
    Nat.le_trans (Expr.size_le_of_mem ha) (Nat.le_of_succ_le_succ hsize)
  cases e with
  | number x => rfl
  | text s => rfl
  | var name => simp only [Evaluator.valueOf, Evaluator.context, h.setting]
  | operation op args =>
    rw [Expr.size] at he
    exact h.operation (hargs he) op
  | core f args =>
    rw [Expr.size] at he
    exact h.callCore (hargs he) f
  | call name args =>
    rw [Expr.size] at he
    exact h.callFunction (hargs he) name
  | path absolute steps =>
    rw [Evaluator.valueOf, Evaluator.valueOf, h.locationPath, h.firstNode]
  | filter head predicates steps =>
    rw [Expr.size] at he
    rw [Evaluator.valueOf, Evaluator.valueOf, h.filterPath (by omega), h.firstNode]

theorem lazyValueOf (he : e.size ≤ n + 1) : ev'.lazyValueOf m e = ev.lazyValueOf m e := by
  cases e with
  | var name => simp only [Evaluator.lazyValueOf, Evaluator.context, h.setting]
  | path absolute steps => rw [Evaluator.lazyValueOf, Evaluator.lazyValueOf, h.locationPath]
  | filter head predicates steps =>
    rw [Expr.size] at he
    rw [Evaluator.lazyValueOf, Evaluator.lazyValueOf, h.filterPath (by omega)]
  | _ => exact h.valueOf (m := m) he

/-- **One level more** finds the same values of expressions that are one larger. -/
theorem next : ev.next.SameTo (n + 1) ev'.next where
  setting := h.setting
  surroundings := h.surroundings
  lazy _ he _ := h.lazyValueOf he
  value _ he _ := h.valueOf he

end

end Evaluator.SameTo

/-- **Levels beyond the size of an expression** change nothing, by induction on the levels that it needs. -/
theorem Setting.sameTo_evaluatorTo (s : Setting) (around : Surroundings) {depth : Nat} (h : n ≤ depth) :
    (s.evaluatorTo around n).SameTo n (s.evaluatorTo around depth) := by
  induction n generalizing depth with
  | zero =>
    -- No expression is as small as nothing.
    have hpos : ∀ e : Expr, ¬e.size ≤ 0 := fun e he => by cases e <;> simp [Expr.size] at he
    exact {
      setting := by induction depth with
        | zero => rfl
        | succ depth ih => exact ih (Nat.zero_le _)
      surroundings := by induction depth with
        | zero => rfl
        | succ depth ih => exact ih (Nat.zero_le _)
      lazy := fun e he => absurd he (hpos e)
      value := fun e he => absurd he (hpos e) }
  | succ n ih =>
    obtain ⟨depth, rfl⟩ : ∃ d, depth = d + 1 := ⟨depth - 1, by omega⟩
    exact (ih (Nat.le_of_succ_le_succ h)).next

end NodePath
