/-
# NodePath.Proofs.AlikeReading — texts read alike

A text is compiled before it is evaluated, and what is evaluated may read other texts. The cache of compiled
trees never changes what a text compiles to, so texts read alike to every depth, and everything that a context
evaluates with is natural as soon as its host is pure.

* §A  Compiling with a sound cache.
* §B  Values and nodes of an expression.
* §C  Readings of every depth.
-/
import NodePath.Context.Read
import NodePath.Proofs.AlikeEvaluation

namespace NodePath

variable {w w' : World} {st st' : Store}

/-! ## §A  Compiling -/

/-- **Compiling** with a sound cache gives the tree of the text, and leaves a sound cache. -/
theorem Engine.Sound.compile {e : Engine} (h : e.Sound) (text : String) :
    (e.compile text).1.map (·.expr) = Expr.parse text ∧ (e.compile text).2.Sound ∧
      (e.compile text).2.registry = e.registry := by
  unfold Engine.compile
  cases hfind : e.cache.find? text with
  | some found =>
    obtain ⟨c, cache⟩ := found
    obtain ⟨hmem, hentries, -⟩ := Cache.isLru.get_some hfind
    refine ⟨(h _ hmem).symm, fun entry he => ?_, rfl⟩
    replace he : entry ∈ cache.entries := he
    rw [hentries] at he
    rcases List.mem_cons.mp he with rfl | he
    · exact h _ hmem
    · exact h entry (List.mem_of_mem_filter he)
  | none =>
    cases hparse : Expr.parse text with
    | error err => exact ⟨rfl, h, rfl⟩
    | ok expr =>
      refine ⟨rfl, fun entry he => ?_, rfl⟩
      replace he : entry ∈ (e.cache.insert text _).entries := he
      rw [(Cache.isLru.put e.cache text _).1] at he
      rcases List.mem_cons.mp (List.mem_of_mem_take he) with rfl | he
      · exact hparse
      · exact h entry (List.mem_of_mem_filter he)

/-- The run of a compilation. -/
theorem runOn_compileText (text : String) (st : Store) :
    (compileText text).runOn st =
      (((st.engine.compile text).1.map (·.expr)).mapError .parse,
        { st with engine := (st.engine.compile text).2 }) := by
  rw [compileText, Eval.runOn_bind, Eval.runOn_get]
  dsimp only
  generalize st.engine.compile text = compiled
  obtain ⟨r, engine⟩ := compiled
  cases r <;> rfl

/-- A store that has compiled a text. -/
theorem Store.Extends.compile {base : Store} (h : base.Extends st) (text : String) :
    base.Extends { st with engine := (st.engine.compile text).2 } where
  documents := h.documents
  size_le := h.size_le
  forest := h.forest
  scopes := h.scopes
  registry := (h.sound.compile text).2.2.trans h.registry
  sound := (h.sound.compile text).2.1

theorem EvalAlike.compileText (text : String) :
    EvalAlike w (.eq Expr) (NodePath.compileText text) (NodePath.compileText text) := by
  intro v hv st st' hst
  rw [runOn_compileText, runOn_compileText, (hst.left.sound.compile text).1, (hst.right.sound.compile text).1]
  refine ⟨v, .refl v, ⟨hst.left.compile text, hst.right.compile text, hst.same⟩, ?_⟩
  cases Expr.parse text with
  | ok e => exact .ok rfl
  | error e => exact .error _

/-! ## §B  Values and nodes -/

namespace Setting.Natural

variable {s : Setting}

theorem start (h : s.Natural w) : EvalAlike w .cursor s.start s.start :=
  .get_bind fun _ _ _ hv hst => .pure (hst.startAt (Pointer.Alike.grow hv (Pointer.Within.alike h.context.contextPointer)))

theorem compute (h : s.Natural w) (e : Expr) : EvalAlike w .value (s.compute e) (s.compute e) :=
  h.start.bind fun _ _ _ hv hc => ((h.grow hv).evaluator e).on hc fun _ m n hu hmn =>
    ((h.grow hv).evaluator e).lazy _ .alike False m n e hu fun _ => hmn.queries

theorem computeValue (h : s.Natural w) (e : Expr) : EvalAlike w .value (s.computeValue e) (s.computeValue e) :=
  h.start.bind fun _ _ _ hv hc => ((h.grow hv).evaluator e).on hc fun _ m n hu hmn =>
    ((h.grow hv).evaluator e).value _ .alike False m n e hu fun _ => hmn.queries

theorem absent {α β : Type} {R : Relation α β} (text : String) {a : α} {b : β} (hab : R.rel w a b) :
    EvalAlike w R (s.absent text a) (s.absent text b) := by
  unfold Setting.absent
  split
  · exact .pure hab
  · exact .throw _

theorem glanceValue (h : s.Natural w) (e : Expr) : EvalAlike w .datum (s.glanceValue e) (s.glanceValue e) := by
  refine (h.computeValue e).bind fun v a b hv hab => ?_
  cases hab with
  | datum hd => exact .pure hd
  | nodes hc => exact EvalAlike.tryCatch (((h.grow hv).evaluator e).firstOf (.nodes hc)) fun _ _ _ => .pure .null

theorem readValue (h : s.Natural w) (text : String) (e : Expr) :
    EvalAlike w .datum (s.readValue text e) (s.readValue text e) := by
  refine (h.glanceValue e).bind fun v d d' hv hd => ?_
  cases hd with
  | null =>
    dsimp only
    split
    · exact absent text .null
    · exact .pure .null
  | pointer hp =>
    refine .get_bind fun u st st' hu hst => ?_
    have hp := hp.grow hu
    rw [hst.isOpenedActual hp]
    split
    · exact .pure (hst.openedValue hp)
    · exact absent text .null
  | boolean b => exact .pure (.boolean b)
  | number x => exact .pure (.number x)
  | text s => exact .pure (.text s)
  | object j => exact .pure (.object j)

theorem firstPointer (h : s.Natural w) (e : Expr) :
    EvalAlike w Relation.pointer.option (s.firstPointer e) (s.firstPointer e) := by
  refine (h.compute e).bind fun v a b hv hab => ?_
  have hwrap : ∀ {d d' : Datum}, d.Alike v d' → EvalAlike v Relation.pointer.option
      (do pure (some (← Pointer.wrap d))) (do pure (some (← Pointer.wrap d'))) := fun hd =>
    (EvalAlike.wrap hd).bind fun _ _ _ _ hp => .pure (.some hp)
  cases hab with
  | nodes hc => exact ((h.grow hv).evaluator e).first hc
  | datum hd =>
    cases hd with
    | null => exact .pure .none
    | boolean b => exact hwrap (.boolean b)
    | number x => exact hwrap (.number x)
    | text s => exact hwrap (.text s)
    | object j => exact hwrap (.object j)
    | pointer hp => exact hwrap (.pointer hp)

theorem readPointer (h : s.Natural w) (text : String) (e : Expr) :
    EvalAlike w Relation.pointer.option (s.readPointer text e) (s.readPointer text e) := by
  refine (h.firstPointer e).bind fun v p? q? hv hp => ?_
  cases hp with
  | none => exact absent text .none
  | some hp =>
    refine .get_bind fun u st st' hu hst => ?_
    have hp := Pointer.Alike.grow hu hp
    rw [hst.isActual hp]
    split
    · exact .pure (.some hp)
    · exact absent text .none

/-- **All nodes of an expression** are delivered alike. -/
theorem pointers (h : s.Natural w) (e : Expr) :
    EvalAlike w (.prod Relation.pointer.list (.eq (Option EvalError))) (s.pointers e) (s.pointers e) := by
  refine (h.compute e).bind fun v a b hv hab => ?_
  have hwrap : ∀ {d d' : Datum}, d.Alike v d' →
      EvalAlike v (.prod Relation.pointer.list (.eq (Option EvalError)))
        (do pure ([← Pointer.wrap d], none)) (do pure ([← Pointer.wrap d'], none)) := fun hd =>
    (EvalAlike.wrap hd).bind fun _ _ _ _ hp => .pure ⟨.cons hp .nil, rfl⟩
  cases hab with
  | nodes hc => exact ((h.grow hv).evaluator e).on hc fun _ _ _ _ hmn => hmn.deliverRest
  | datum hd =>
    cases hd with
    | null => exact .pure ⟨.nil, rfl⟩
    | boolean b => exact hwrap (.boolean b)
    | number x => exact hwrap (.number x)
    | text s => exact hwrap (.text s)
    | object j => exact hwrap (.object j)
    | pointer hp => exact hwrap (.pointer hp)

end Setting.Natural

/-! ## §C  Readings -/

/-- **Natural** says that texts read alike. -/
structure Reading.Natural (w : World) (r : Reading) : Prop where
  value : ∀ v c text, w.Grows v → c.Within w.base.documents.size →
    EvalAlike v .datum (r.value c text) (r.value c text)
  pointer : ∀ v c text, w.Grows v → c.Within w.base.documents.size →
    EvalAlike v Relation.pointer.option (r.pointer c text) (r.pointer c text)

namespace Reading

/-- What a text is used for, alike. -/
theorem withText_alike {α β : Type} {R : Relation α β} (text : String) {f : Expr → Eval α} {g : Expr → Eval β}
    (h : ∀ v e, w.Grows v → EvalAlike v R (f e) (g e)) : EvalAlike w R (withText text f) (withText text g) := by
  refine EvalAlike.tryCatch ((EvalAlike.compileText text).bind ?_) fun _ _ _ => .throw _
  rintro v e _ hv rfl
  exact h v e hv

theorem Natural.setting {r : Reading} (h : r.Natural w) {host : Host} (hhost : host.Pure) {c : Context}
    (hc : c.Within w.base.documents.size) : (r.setting host c).Natural w :=
  ⟨hc, hhost, h.value, h.pointer⟩

theorem Natural.next {r : Reading} (h : r.Natural w) {host : Host} (hhost : host.Pure) :
    (r.next host).Natural w where
  value _ _ text hv hc := (withText_alike text fun _ e hu => ((h.setting hhost hc).grow hu).readValue text e).grow hv
  pointer _ _ text hv hc := (withText_alike text fun _ e hu => ((h.setting hhost hc).grow hu).readPointer text e).grow hv

/-- **Texts read alike** to every depth. -/
theorem natural_toDepth {host : Host} (hhost : host.Pure) (depth : Nat) : (toDepth host depth).Natural w := by
  induction depth with
  | zero => exact ⟨fun _ _ _ _ _ => .throw _, fun _ _ _ _ _ => .throw _⟩
  | succ depth ih => exact ih.next hhost

end Reading

/-- **Everything that a context evaluates with is natural** when its host is pure. -/
theorem Context.Within.setting {c : Context} (hc : c.Within w.base.documents.size) {host : Host}
    (hhost : host.Pure) : (c.setting host).Natural w := (Reading.natural_toDepth hhost _).setting hhost hc

end NodePath
