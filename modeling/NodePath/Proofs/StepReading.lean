/-
# NodePath.Proofs.StepReading — where a step begins and what is read of it

A step is an axis, spelled out or abbreviated, a test and predicates. What begins with a name may also be a call:
the readers look behind the name to tell them apart. Here is what they see in front of a step and in front of a
call, and what they take of an axis and of a test.

* §A  What ends a name.
* §B  Whether a path begins with a name.
* §C  The front of a step.
* §D  Axes and tests.
* §E  Qualified names.
-/
import NodePath.Proofs.Following

namespace NodePath

open NodePath.Parser

/-! ## §A  What ends a name -/

/-- **Delimits** says that a name in front of a text ends there and is not part of anything else that begins with
a name. -/
def Delimits (rest : List Char) : Prop :=
  (∀ c ∈ rest.head?, isNameChar c = false ∧ c ≠ ':') ∧ ∀ c ∈ (Text.trimStart rest).head?, c ≠ '(' ∧ c ≠ ':'

theorem Level.Ends.delimits {l : Level} {rest : List Char} (h : l.Ends rest) : Delimits rest :=
  ⟨h.head, fun c hc => ⟨(h.trimStart_head c hc).1, (h.trimStart_head c hc).2.2.2⟩⟩

theorem delimits_cons {c : Char} (hc : c = '[' ∨ c = '/') (rest : List Char) : Delimits (c :: rest) := by
  have hblank : Text.isBlank c = false := by rcases hc with rfl | rfl <;> exact isBlank_eq_false (by decide)
  refine ⟨?_, ?_⟩
  · rintro _ ⟨⟩
    rcases hc with rfl | rfl <;> exact ⟨by decide, by decide⟩
  · rw [Text.trimStart_cons hblank]
    rintro _ ⟨⟩
    rcases hc with rfl | rfl <;> decide

theorem Delimits.head {rest : List Char} (h : Delimits rest) : ∀ c ∈ rest.head?, isNameChar c = false :=
  fun c hc => (h.1 c hc).1

theorem Delimits.colon {rest : List Char} (h : Delimits rest) : (rest.head? == some ':') = false :=
  beq_eq_false_iff_ne.mpr fun hc => (h.1 ':' hc).2 rfl

theorem Delimits.trimStart_ne {rest : List Char} (h : Delimits rest) {c : Char} (hc : c = '(' ∨ c = ':') :
    ((Text.trimStart rest).head? == some c) = false := by
  refine beq_eq_false_iff_ne.mpr fun hrest => ?_
  have hne := h.2 c hrest
  rcases hc with rfl | rfl
  · exact hne.1 rfl
  · exact hne.2 rfl

/-! ## §B  Names in front of paths -/

/-- A single colon is not two. -/
theorem isPrefixOf_colons_cons {cs : List Char} (h : (cs.head? == some ':') = false) :
    [':', ':'].isPrefixOf (':' :: cs) = false := by
  cases cs with
  | nil => rfl
  | cons c cs =>
    have hc : (':' == c) = false := by
      rw [BEq.comm]
      simpa using h
    simp [List.isPrefixOf, hc]

theorem head?_append_of_isNcName {s : String} (hs : IsNcName s) (behind : List Char) {d : Char}
    (hd : isNameStart d = false) : ((s.toList ++ behind).head? == some d) = false := by
  obtain ⟨c, cs, hcs, hc, -⟩ := hs
  rw [hcs]
  refine beq_eq_false_iff_ne.mpr ?_
  rintro ⟨⟩
  rw [hc] at hd
  cases hd

theorem takes_accept_false_of_isNcName {s : String} (hs : IsNcName s) (behind : List Char) {d : Char}
    (hd : isNameStart d = false) : Takes (accept [d]) (s.toList ++ behind) false (s.toList ++ behind) :=
  takes_accept_cons_false (beq_eq_false_iff_ne.mp (head?_append_of_isNcName hs behind hd))

section

variable {s : String} {behind : List Char} {n : Nat}

/-- What decides whether a path begins with a name is what stands behind the name and blanks. -/
theorem nameStartsPath_append (hs : IsNcName s) (hbehind : ∀ c ∈ behind.head?, isNameChar c = false) :
    nameStartsPath ⟨s.toList ++ behind, n⟩ =
      (if [':', ':'].isPrefixOf (Text.trimStart behind) then true
      else if (Text.trimStart behind).head? == some ':' then
        let l := (Text.trimStart behind).drop 1
        if l.head? == some '*' then true
        else (Text.trimStart (l.drop (Input.name ⟨l, 0⟩).length)).head? != some '('
      else if (Text.trimStart behind).head? == some '(' then (NodeType.ofName? s).isSome
      else true) := by
  have hname : Input.name ⟨s.toList ++ behind, n⟩ = s.toList := Input.name_of_isNcName hs hbehind
  have hskip : (Input.drop ⟨s.toList ++ behind, n⟩ s.toList.length).skipBlanks.rest = Text.trimStart behind := by
    rw [Input.rest_skipBlanks, Input.rest_drop rfl]
  simp only [nameStartsPath, hname, String.ofList_toList]
  -- Only the text behind the name and its blanks matters, not how far into the whole it is.
  generalize (Input.drop ⟨s.toList ++ behind, n⟩ s.toList.length).skipBlanks = j at hskip ⊢
  simp only [Input.startsWith, Input.peek?, Input.rest_skipBlanks, ← hskip]
  rfl

/-- A name with something behind it that delimits it begins a path. -/
theorem nameStartsPath_of_delimits (hs : IsNcName s) (hbehind : Delimits behind) :
    nameStartsPath ⟨s.toList ++ behind, n⟩ = true := by
  rw [nameStartsPath_append hs hbehind.head, isPrefixOf_eq_false (beq_eq_false_iff_ne.mp (hbehind.trimStart_ne (.inr rfl))),
    hbehind.trimStart_ne (.inr rfl), hbehind.trimStart_ne (.inl rfl)]
  rfl

/-- A name with two colons behind it begins a path. -/
theorem nameStartsPath_colons (hs : IsNcName s) : nameStartsPath ⟨s.toList ++ ':' :: ':' :: behind, n⟩ = true := by
  have hcolon : Text.trimStart (':' :: ':' :: behind) = ':' :: ':' :: behind :=
    Text.trimStart_cons (isBlank_eq_false (by decide))
  rw [nameStartsPath_append hs (by rintro _ ⟨⟩; decide), hcolon]
  rfl

/-- A name with a parenthesis behind it begins a path if it is a node type. -/
theorem nameStartsPath_parenthesis (hs : IsNcName s) :
    nameStartsPath ⟨s.toList ++ '(' :: behind, n⟩ = (NodeType.ofName? s).isSome := by
  have hopen : Text.trimStart ('(' :: behind) = '(' :: behind := Text.trimStart_cons (isBlank_eq_false (by decide))
  rw [nameStartsPath_append hs (by rintro _ ⟨⟩; decide), hopen]
  rfl

/-- A qualifier with a star behind it begins a path. -/
theorem nameStartsPath_star (hs : IsNcName s) : nameStartsPath ⟨s.toList ++ ':' :: '*' :: behind, n⟩ = true := by
  have hcolon : Text.trimStart (':' :: '*' :: behind) = ':' :: '*' :: behind :=
    Text.trimStart_cons (isBlank_eq_false (by decide))
  rw [nameStartsPath_append hs (by rintro _ ⟨⟩; decide), hcolon]
  rfl

/-- A qualified name begins a path unless a parenthesis stands behind it. -/
theorem nameStartsPath_qualified {t : String} (hs : IsNcName s) (ht : IsNcName t)
    (hbehind : ∀ c ∈ behind.head?, isNameChar c = false) :
    nameStartsPath ⟨s.toList ++ ':' :: (t.toList ++ behind), n⟩ =
      ((Text.trimStart behind).head? != some '(') := by
  have hcolon : Text.trimStart (':' :: (t.toList ++ behind)) = ':' :: (t.toList ++ behind) :=
    Text.trimStart_cons (isBlank_eq_false (by decide))
  have hname : Input.name ⟨t.toList ++ behind, 0⟩ = t.toList := Input.name_of_isNcName ht hbehind
  have hcolons := isPrefixOf_colons_cons (head?_append_of_isNcName ht behind (by decide))
  have hstar : ((t.toList ++ behind).head? == some '*') = false := head?_append_of_isNcName ht behind (by decide)
  rw [nameStartsPath_append hs (by rintro _ ⟨⟩; decide), hcolon, hcolons]
  simp only [List.drop_succ_cons, List.drop_zero, hstar, hname, List.drop_left, Bool.false_eq_true, if_false]
  rfl

end

/-! ## §C  The front of a step -/

/-- Where a name is next, a path begins if it begins with the name. -/
theorem startsPath_name {s : String} (hs : IsNcName s) (behind : List Char) (n : Nat) :
    startsPath ⟨s.toList ++ behind, n⟩ = nameStartsPath ⟨s.toList ++ behind, n⟩ := by
  obtain ⟨c, cs, hcs, hc, -⟩ := hs
  rw [hcs]
  exact startsPath_cons hc _ n

section

variable {a : Axis} {test : NodeTest} {as ts rest : List Char} {n : Nat}

/-- **TestFront** says what a test begins with: it is a star, or a name that begins a path and that no axis is
named by. -/
def TestFront (cs : List Char) : Prop :=
  (∃ tail, cs = '*' :: tail) ∨ ∃ s behind, IsNcName s ∧ cs = s.toList ++ behind ∧
    (∀ c ∈ behind.head?, isNameChar c = false) ∧ [':', ':'].isPrefixOf (Text.trimStart behind) = false ∧
    ∀ n, nameStartsPath ⟨cs, n⟩ = true

theorem testFront_parenthesis {s : String} (hs : IsNcName s) (htype : (NodeType.ofName? s).isSome = true)
    (behind : List Char) : TestFront (s.toList ++ '(' :: behind) := by
  refine .inr ⟨s, '(' :: behind, hs, rfl, by rintro _ ⟨⟩; decide, ?_, fun n => ?_⟩
  · rw [Text.trimStart_cons (isBlank_eq_false (by decide))]
    rfl
  · rw [nameStartsPath_parenthesis hs, htype]

theorem testFront_colon {s : String} (hs : IsNcName s) {behind : List Char}
    (hcolon : (behind.head? == some ':') = false)
    (hpath : ∀ n, nameStartsPath ⟨s.toList ++ ':' :: behind, n⟩ = true) : TestFront (s.toList ++ ':' :: behind) := by
  refine .inr ⟨s, ':' :: behind, hs, rfl, by rintro _ ⟨⟩; decide, ?_, hpath⟩
  rw [Text.trimStart_cons (isBlank_eq_false (by decide))]
  exact isPrefixOf_colons_cons hcolon

theorem NodeType.isSome_ofName?_name (t : NodeType) : (NodeType.ofName? t.name).isSome = true := by
  cases t <;> decide

theorem NodeTest.Spells.testFront (ht : test.Spells ts) (hwf : test.WellFormed) (hrest : Delimits rest) :
    TestFront (ts ++ rest) := by
  cases test with
  | type t =>
    obtain rfl := ht
    rw [List.append_assoc]
    exact testFront_parenthesis t.isNcName_name t.isSome_ofName?_name _
  | instruction target =>
    obtain ⟨q, -, -, rfl⟩ := ht
    rw [List.append_assoc]
    exact testFront_parenthesis (NodeType.isNcName_name _) (NodeType.isSome_ofName?_name _) _
  | name m =>
    obtain rfl := ht
    obtain ⟨hqualifier, hlocal⟩ := hwf
    unfold QName.written
    cases hq : m.qualifier with
    | none =>
      rcases hlocal with hstar | hlocal
      · exact .inl ⟨rest, by rw [hstar]; rfl⟩
      · exact .inr ⟨m.localName, rest, hlocal, rfl, hrest.head,
          isPrefixOf_eq_false (beq_eq_false_iff_ne.mp (hrest.trimStart_ne (.inr rfl))),
          fun n => nameStartsPath_of_delimits hlocal hrest⟩
    | some q =>
      have hwritten : (q ++ ":" ++ m.localName).toList ++ rest = q.toList ++ ':' :: (m.localName.toList ++ rest) := by
        simp [String.toList_append]
      simp only [hwritten]
      have hqname := hqualifier q hq
      rcases hlocal with hstar | hlocal
      · rw [hstar]
        exact testFront_colon hqname rfl fun n => nameStartsPath_star hqname
      · refine testFront_colon hqname ?_ fun n => ?_
        · exact head?_append_of_isNcName hlocal rest (by decide)
        · rw [nameStartsPath_qualified hqname hlocal hrest.head, bne, hrest.trimStart_ne (.inl rfl)]
          rfl

/-- Where a step is next, a path begins. -/
theorem startsPath_step (ha : a.Spells as) (hts : TestFront (ts ++ rest)) :
    startsPath ⟨as ++ (ts ++ rest), n⟩ = true := by
  cases ha with
  | full =>
    rw [List.append_assoc, startsPath_name a.isNcName_name]
    exact nameStartsPath_colons a.isNcName_name
  | attributes => rfl
  | child =>
    rcases hts with ⟨tail, htail⟩ | ⟨s, behind, hs, htext, -, -, hpath⟩
    · rw [List.nil_append, htail]
      rfl
    · rw [List.nil_append, htext, startsPath_name hs, ← htext]
      exact hpath n

/-! ## §D  Axes and tests -/

theorem Axis.ofName?_name (a : Axis) : Axis.ofName? a.name = some a := by
  cases a <;> decide

theorem NodeType.ofName?_name (t : NodeType) : NodeType.ofName? t.name = some t := by
  cases t <;> decide

/-- What is read in front of a test is the axis. -/
theorem takes_axis {cs : List Char} (ha : a.Spells as) (hcs : TestFront cs) : Takes axis (as ++ cs) a cs := by
  cases ha with
  | attributes => exact (takes_accept ['@'] cs).bind (Takes.pure _ _)
  | full =>
    rw [List.append_assoc]
    refine (takes_accept_false_of_isNcName a.isNcName_name _ (by decide)).bind (Takes.get_bind fun n => ?_)
    have hname : Input.name ⟨a.name.toList ++ ([':', ':'] ++ cs), n⟩ = a.name.toList :=
      Input.name_of_isNcName a.isNcName_name (by rintro _ ⟨⟩; decide)
    have hskip : (Input.drop ⟨a.name.toList ++ ([':', ':'] ++ cs), n⟩ a.name.toList.length).skipBlanks.rest =
        ':' :: ':' :: cs := by
      rw [Input.rest_skipBlanks, Input.rest_drop rfl]
      exact Text.trimStart_cons (isBlank_eq_false (by decide))
    have hne : a.name.toList.isEmpty = false := by cases a <;> rfl
    simp only [hname]
    generalize (Input.drop ⟨a.name.toList ++ ([':', ':'] ++ cs), n⟩ a.name.toList.length).skipBlanks = j at hskip
    have hcolons : j.startsWith [':', ':'] = true := by
      rw [Input.startsWith, hskip]
      rfl
    simp only [hne, hcolons, String.ofList_toList, a.ofName?_name]
    refine Takes.set_bind ?_
    rw [show (j.drop 2).rest = cs by rw [Input.drop, hskip]; rfl]
    exact Takes.pure _ _
  | child =>
    rw [List.nil_append]
    rcases hcs with ⟨tail, rfl⟩ | ⟨s, behind, hs, rfl, hbehind, hcolons, -⟩
    · exact (takes_accept_cons_false (by rintro ⟨⟩)).bind (Takes.get_bind fun n => Takes.pure _ _)
    · refine (takes_accept_false_of_isNcName hs _ (by decide)).bind
        (Takes.get_bind fun n => ?_)
      have hname : Input.name ⟨s.toList ++ behind, n⟩ = s.toList := Input.name_of_isNcName hs hbehind
      have hskip : (Input.drop ⟨s.toList ++ behind, n⟩ s.toList.length).skipBlanks.startsWith [':', ':'] = false := by
        rw [Input.startsWith, Input.rest_skipBlanks, Input.rest_drop rfl, hcolons]
      simp only [hname, hskip, Bool.and_false, Bool.false_eq_true, if_false]
      exact Takes.pure _ _

/-- The tail of a name test behind its qualifier. -/
theorem takes_qualified_test {q l : String} (hq : IsNcName q) (hl : l = "*" ∨ IsNcName l) (hrest : Delimits rest) :
    Takes nodeTest (q.toList ++ ':' :: (l.toList ++ rest)) (.name ⟨some q, l⟩) rest := by
  have hcolon : ((l.toList ++ rest).head? == some ':') = false := by
    rcases hl with rfl | hl
    · rfl
    · exact head?_append_of_isNcName hl _ (by decide)
  have hcolons := isPrefixOf_colons_cons hcolon
  refine (takes_accept_false_of_isNcName hq _ (by decide)).bind (Takes.get_bind fun n => ?_)
  refine (takes_name hq (by rintro _ ⟨⟩; decide)).bind (Takes.get_bind fun m => ?_)
  simp only [Input.peek?, Input.startsWith, hcolons, List.head?_cons, BEq.rfl, Bool.not_false, Bool.and_self, if_true]
  refine Takes.set_bind ?_
  show Takes _ (l.toList ++ rest) _ _
  rw [← QName.make_of_isNcName hq]
  rcases hl with rfl | hl
  · exact (takes_accept ['*'] rest).bind (Takes.pure _ _)
  · refine (takes_accept_false_of_isNcName hl _ (by decide)).bind ?_
    exact (takes_name hl hrest.head).bind (Takes.pure _ _)

/-- A test by kind of node, in front of what stands between its parentheses. -/
theorem takes_type_test {t : NodeType} {mid : List Char} (htail : Takes (nodeTypeTail t) mid test rest) :
    Takes nodeTest (t.name.toList ++ '(' :: mid) test rest := by
  have hopen : Text.trimStart ('(' :: mid) = '(' :: mid := Text.trimStart_cons (isBlank_eq_false (by decide))
  refine (takes_accept_false_of_isNcName t.isNcName_name _ (by decide)).bind (Takes.get_bind fun n => ?_)
  refine (takes_name t.isNcName_name (by rintro _ ⟨⟩; decide)).bind (Takes.get_bind fun m => ?_)
  have hskip : (Input.skipBlanks ⟨'(' :: mid, m⟩).rest = '(' :: mid := by rw [Input.rest_skipBlanks, hopen]
  generalize Input.skipBlanks ⟨'(' :: mid, m⟩ = j at hskip
  have hcolon : (some '(' == some ':') = false := by decide
  simp only [Input.peek?, hskip, List.head?_cons, hcolon, BEq.rfl, Bool.false_and, Bool.false_eq_true, if_false,
    if_true, t.ofName?_name]
  refine Takes.set_bind ?_
  rw [show (j.drop 1).rest = mid by rw [Input.drop, hskip]; rfl]
  exact htail

theorem takes_nodeTest (ht : test.Spells ts) (hwf : test.WellFormed) (hrest : Delimits rest) :
    Takes nodeTest (ts ++ rest) test rest := by
  cases test with
  | type t =>
    obtain rfl := ht
    have htext : t.name.toList ++ ['(', ')'] ++ rest = t.name.toList ++ '(' :: ')' :: rest := by simp
    rw [htext]
    refine takes_type_test ((takes_blanks _).bind (Takes.get_bind fun n => ?_))
    rw [Text.trimStart_cons (isBlank_eq_false (by decide))]
    have hquote : Input.atQuote ⟨')' :: rest, n⟩ = false := rfl
    simp only [hquote, Bool.and_false, Bool.false_eq_true, if_false]
    exact (takes_expect ')' rest).bind (Takes.pure _ _)
  | instruction target =>
    obtain ⟨q, hq, hmem, rfl⟩ := ht
    have htext : NodeType.processingInstruction.name.toList ++ '(' :: q :: (target.toList ++ [q, ')']) ++ rest =
        NodeType.processingInstruction.name.toList ++ '(' :: q :: (target.toList ++ q :: ')' :: rest) := by simp
    rw [htext]
    refine takes_type_test ((takes_blanks _).bind (Takes.get_bind fun n => ?_))
    have hblank : Text.isBlank q = false := by rcases hq with rfl | rfl <;> exact isBlank_eq_false (by decide)
    have hquote : Input.atQuote ⟨q :: (target.toList ++ q :: ')' :: rest), n⟩ = true := by
      rcases hq with rfl | rfl <;> rfl
    rw [Text.trimStart_cons hblank]
    simp only [hquote, BEq.rfl, Bool.and_self, if_true]
    refine (takes_quoted hq hmem).bind ((takes_blanks _).bind ?_)
    rw [Text.trimStart_cons (isBlank_eq_false (by decide))]
    exact (takes_expect ')' rest).bind (Takes.pure _ _)
  | name m =>
    obtain ⟨qualifier, l⟩ := m
    obtain rfl := ht
    obtain ⟨hqualifier, hlocal⟩ := hwf
    cases qualifier with
    | some q =>
      have hwritten : (QName.written ⟨some q, l⟩).toList ++ rest = q.toList ++ ':' :: (l.toList ++ rest) := by
        simp [QName.written, String.toList_append]
      rw [hwritten]
      exact takes_qualified_test (hqualifier q rfl) hlocal hrest
    | none =>
      rcases hlocal with rfl | hlocal
      · exact (takes_accept ['*'] rest).bind (Takes.pure _ _)
      · refine (takes_accept_false_of_isNcName hlocal _ (by decide)).bind ?_
        refine Takes.get_bind fun n => (takes_name hlocal hrest.head).bind (Takes.get_bind fun m => ?_)
        simp only [Input.peek?, hrest.colon, Input.rest_skipBlanks, hrest.trimStart_ne (.inl rfl), Bool.false_and,
          Bool.false_eq_true, if_false]
        exact Takes.pure _ _

end

/-! ## §E  Qualified names -/

section

variable {m : QName} {rest : List Char}

theorem takes_qualifiedName (hwf : m.WellFormed) (hrest : ∀ c ∈ rest.head?, isNameChar c = false ∧ c ≠ ':') :
    Takes qualifiedName (m.written.toList ++ rest) (m.qualifier, m.localName) rest := by
  obtain ⟨qualifier, l⟩ := m
  obtain ⟨hqualifier, hlocal⟩ := hwf
  have hhead : ∀ c ∈ rest.head?, isNameChar c = false := fun c hc => (hrest c hc).1
  cases qualifier with
  | none =>
    have hcolon : (rest.head? == some ':') = false := beq_eq_false_iff_ne.mpr fun hc => (hrest ':' hc).2 rfl
    refine (takes_name hlocal hhead).bind (Takes.get_bind fun n => ?_)
    simp only [Input.peek?, hcolon, Bool.false_and, Bool.false_eq_true, if_false]
    exact Takes.pure _ _
  | some q =>
    have hwritten : (QName.written ⟨some q, l⟩).toList ++ rest = q.toList ++ ':' :: (l.toList ++ rest) := by
      simp [QName.written, String.toList_append]
    have hcolons := isPrefixOf_colons_cons (head?_append_of_isNcName hlocal rest (by decide))
    rw [hwritten]
    refine (takes_name (hqualifier q rfl) (by rintro _ ⟨⟩; decide)).bind (Takes.get_bind fun n => ?_)
    simp only [Input.peek?, Input.startsWith, hcolons, List.head?_cons, BEq.rfl, Bool.not_false, Bool.and_self, if_true]
    refine Takes.set_bind ?_
    show Takes _ (l.toList ++ rest) _ _
    exact (takes_name hlocal hhead).bind (Takes.pure _ _)

/-- No path begins with the name of a call. -/
theorem startsPath_call (hwf : m.WellFormed) (hnone : m.qualifier = none → NodeType.ofName? m.localName = none)
    (n : Nat) : startsPath ⟨m.written.toList ++ '(' :: rest, n⟩ = false := by
  obtain ⟨qualifier, l⟩ := m
  obtain ⟨hqualifier, hlocal⟩ := hwf
  cases qualifier with
  | none =>
    refine (startsPath_name hlocal _ n).trans ?_
    rw [nameStartsPath_parenthesis hlocal, hnone rfl]
    rfl
  | some q =>
    have hwritten : (QName.written ⟨some q, l⟩).toList ++ '(' :: rest =
        q.toList ++ ':' :: (l.toList ++ '(' :: rest) := by simp [QName.written, String.toList_append]
    rw [hwritten, startsPath_name (hqualifier q rfl),
      nameStartsPath_qualified (hqualifier q rfl) hlocal (by rintro _ ⟨⟩; decide),
      Text.trimStart_cons (isBlank_eq_false (by decide))]
    rfl

end

end NodePath
