/-
# NodePath.Proofs.Taking — what a reader takes from the front of a text

**Takes** says that a reader takes a value from the front of a text and leaves the rest, wherever the text stands
in the input. Its rules follow the way readers are put together; the small readers of blanks, words, names,
numerals and quoted texts are each given once by what they take.

* §A  Characters that stand for nothing else.
* §B  The front of a text.
* §C  `Parser.Takes` and its rules.
* §D  Blanks, words, marks and keywords.
* §E  Names, numerals and quoted texts.
* §F  Sequences.
-/
import NodePath.Expr.Parser

namespace NodePath

/-! ## §A  Characters -/

/-- The scalar values of all blanks. -/
def blankValues : List Nat :=
  [0x9, 0xA, 0xB, 0xC, 0xD, 0x20, 0x85, 0xA0, 0x1680, 0x2000, 0x2001, 0x2002, 0x2003, 0x2004, 0x2005, 0x2006,
    0x2007, 0x2008, 0x2009, 0x200A, 0x2028, 0x2029, 0x202F, 0x205F, 0x3000]

theorem mem_blankValues {c : Char} (h : Text.isBlank c = true) : c.toNat ∈ blankValues := by
  simp only [Text.isBlank, Text.inRanges, Text.blankRanges, List.any_toArray, List.any_cons, List.any_nil,
    Bool.or_false, Bool.or_eq_true, Bool.and_eq_true, decide_eq_true_eq] at h
  simp only [blankValues, List.mem_cons, List.not_mem_nil, or_false]
  omega

/-- A character whose value is not listed is no blank. -/
theorem isBlank_eq_false {c : Char} (h : c.toNat ∉ blankValues) : Text.isBlank c = false := by
  cases hb : Text.isBlank c with
  | false => rfl
  | true => exact absurd (mem_blankValues hb) h

theorem alphabeticRanges_of_mem_blankValues : ∀ n ∈ blankValues,
    (Text.alphabeticRanges.toList.any fun r => r.1 ≤ n && n ≤ r.2) = false := by decide +kernel

theorem isNameStart_of_isBlank {c : Char} (h : Text.isBlank c = true) : isNameStart c = false := by
  have hmem := mem_blankValues h
  have halpha := alphabeticRanges_of_mem_blankValues c.toNat hmem
  rw [Array.any_toList] at halpha
  have hascii : ∀ n ∈ blankValues, (Char.ofNat n).isAlpha = false ∧ (Char.ofNat n == '_') = false := by
    decide +kernel
  have hc : c.isAlpha = false ∧ (c == '_') = false := by simpa using hascii c.toNat hmem
  unfold isNameStart Text.isAlphabetic Text.inRanges
  rw [halpha, hc.1, hc.2]
  split <;> rfl

theorem isBlank_of_isNameStart {c : Char} (h : isNameStart c = true) : Text.isBlank c = false := by
  cases hb : Text.isBlank c with
  | false => rfl
  | true => rw [isNameStart_of_isBlank hb] at h; cases h

theorem isDigit_iff {c : Char} : c.isDigit = true ↔ 48 ≤ c.toNat ∧ c.toNat ≤ 57 := by
  simp [Char.isDigit, UInt32.le_iff_toNat_le]

theorem isBlank_of_isDigit {c : Char} (h : c.isDigit = true) : Text.isBlank c = false := by
  cases hb : Text.isBlank c with
  | false => rfl
  | true =>
    have hmem := mem_blankValues hb
    have hdigit := isDigit_iff.mp h
    simp only [blankValues, List.mem_cons, List.not_mem_nil, or_false] at hmem
    omega

theorem isNameStart_of_isDigit {c : Char} (h : c.isDigit = true) : isNameStart c = false := by
  have hdigit := isDigit_iff.mp h
  have hall : ∀ n < 58, 48 ≤ n → isNameStart (Char.ofNat n) = false := by decide
  simpa using hall c.toNat (by omega) hdigit.1

theorem isNameChar_of_isNameStart {c : Char} (h : isNameStart c = true) : isNameChar c = true := by
  rcases (Bool.or_eq_true _ _).mp h with h | h
  · simp [isNameChar, Text.isAlphanumeric, h]
  · simp [isNameChar, h]

theorem isNameChar_of_isDigit {c : Char} (h : c.isDigit = true) : isNameChar c = true := by
  have hdigit := isDigit_iff.mp h
  have hnumeric : Text.isNumeric c = true := by rw [Text.isNumeric, if_pos (by omega), h]
  simp [isNameChar, Text.isAlphanumeric, hnumeric]

theorem ne_of_isNameStart {c d : Char} (hc : isNameStart c = true) (hd : isNameStart d = false) :
    (c == d) = false := by
  refine beq_eq_false_iff_ne.mpr ?_
  rintro rfl
  rw [hc] at hd
  cases hd

/-- Where a name is next, a path begins if it begins with the name. -/
theorem Parser.startsPath_cons {c : Char} (hc : isNameStart c = true) (cs : List Char) (n : Nat) :
    startsPath ⟨c :: cs, n⟩ = nameStartsPath ⟨c :: cs, n⟩ := by
  simp only [startsPath, ne_of_isNameStart hc (show isNameStart '/' = false by decide),
    ne_of_isNameStart hc (show isNameStart '@' = false by decide),
    ne_of_isNameStart hc (show isNameStart '*' = false by decide),
    ne_of_isNameStart hc (show isNameStart '.' = false by decide), hc, Bool.or_self, Bool.false_eq_true,
    if_false, if_true]

/-! ## §B  The front -/

/-- A text behind the blanks at its front. -/
def Text.trimStart (cs : List Char) : List Char := cs.dropWhile Text.isBlank

namespace Text

variable {bs cs rest : List Char}

theorem trimStart_length_le (cs : List Char) : (trimStart cs).length ≤ cs.length :=
  (List.dropWhile_sublist _).length_le

@[simp] theorem trimStart_nil : trimStart [] = [] := rfl

theorem trimStart_cons {c : Char} (h : isBlank c = false) : trimStart (c :: cs) = c :: cs := by
  simp [trimStart, h]

theorem trimStart_space : trimStart (' ' :: cs) = trimStart cs := by
  have : isBlank ' ' = true := by decide +kernel
  simp [trimStart, this]

theorem trimStart_append (h : ∀ b ∈ bs, isBlank b = true) : trimStart (bs ++ cs) = trimStart cs :=
  List.dropWhile_append_of_pos h

theorem trimStart_trimStart (cs : List Char) : trimStart (trimStart cs) = trimStart cs := by
  induction cs with
  | nil => rfl
  | cons c cs ih =>
    by_cases h : isBlank c = true
    · simpa [trimStart, h] using ih
    · simp [trimStart, h]

end Text

/-- What is taken from a text as long as `p` holds, if it does not hold of what comes behind. -/
theorem takeWhile_append_of_stop {p : Char → Bool} {cs rest : List Char} (hcs : ∀ c ∈ cs, p c = true)
    (hrest : ∀ c ∈ rest.head?, p c = false) : (cs ++ rest).takeWhile p = cs := by
  rw [List.takeWhile_append_of_pos hcs]
  cases rest with
  | nil => simp
  | cons c rest => simp [hrest c rfl]

/-- A word whose first character is not next is not next. -/
theorem isPrefixOf_eq_false {c : Char} {word cs : List Char} (h : cs.head? ≠ some c) :
    (c :: word).isPrefixOf cs = false := by
  cases cs with
  | nil => rfl
  | cons d cs =>
    have hne : (c == d) = false := beq_eq_false_iff_ne.mpr fun hcd => h (congrArg some hcd.symm)
    simp only [List.isPrefixOf, hne, Bool.false_and]

namespace Input

variable {n : Nat} {cs rest : List Char}

theorem rest_drop_front (i : Input) (p : Char → Bool) : (i.drop (i.front p).length).rest = i.rest.dropWhile p := by
  simp only [drop, front]
  conv => lhs; arg 2; rw [← List.takeWhile_append_dropWhile (p := p) (l := i.rest)]
  exact List.drop_left

theorem rest_skipBlanks (i : Input) : i.skipBlanks.rest = Text.trimStart i.rest := i.rest_drop_front _

/-- A name at the front of a text that goes on with something else. -/
theorem name_append {c : Char} (hc : isNameStart c = true) (hcs : ∀ d ∈ cs, isNameChar d = true)
    (hrest : ∀ d ∈ rest.head?, isNameChar d = false) : name ⟨c :: (cs ++ rest), n⟩ = c :: cs := by
  simp only [name, hc, if_true, takeWhile_append_of_stop hcs hrest]

variable {i : Input} {word : List Char}

theorem rest_drop (h : i.rest = word ++ rest) : (i.drop word.length).rest = rest := by
  simp only [drop, h, List.drop_left]

theorem skip?_eq_some (h : i.rest = word ++ rest) : i.skip? word = some (i.drop word.length) := by
  simp [skip?, startsWith, h]

theorem skip?_eq_none (h : word.isPrefixOf i.rest = false) : i.skip? word = none := by
  simp only [skip?, startsWith, h, Bool.false_eq_true, if_false]

end Input

/-! ## §C  Taking -/

namespace Parser

/-- **Takes** says that a reader takes `a` from the front of the text `cs` and leaves `rest`. -/
def Takes {α : Type} (p : Parser α) (cs : List Char) (a : α) (rest : List Char) : Prop :=
  ∀ n, ∃ m, p.run ⟨cs, n⟩ = .ok (a, ⟨rest, m⟩)

namespace Takes

variable {α β : Type} {p : Parser α} {f : α → Parser β} {a : α} {b : β} {cs mid rest : List Char}

theorem pure (a : α) (cs : List Char) : Takes (Pure.pure a) cs a cs := fun n => ⟨n, rfl⟩

/-- An outcome that is already there. -/
theorem ok (a : α) (cs : List Char) : Takes (liftM (Except.ok a : Except ParseError α)) cs a cs :=
  fun n => ⟨n, rfl⟩

theorem bind (h : Takes p cs a mid) (hf : Takes (f a) mid b rest) : Takes (p >>= f) cs b rest := by
  intro n
  obtain ⟨m, hm⟩ := h n
  obtain ⟨k, hk⟩ := hf m
  exact ⟨k, by rw [StateT.run_bind, hm]; exact hk⟩

/-- Reading the input. -/
theorem get_bind {f : Input → Parser β} (h : ∀ n, Takes (f ⟨cs, n⟩) cs b rest) : Takes (get >>= f) cs b rest :=
  fun n => h n n

/-- Going on with another input. -/
theorem set_bind {i : Input} {f : PUnit → Parser β} (h : Takes (f ⟨⟩) i.rest b rest) :
    Takes (set i >>= f) cs b rest :=
  fun _ => h i.offset

theorem set (i : Input) : Takes (MonadStateOf.set i) cs PUnit.unit i.rest := fun _ => ⟨i.offset, rfl⟩

/-- A bound on repetitions is the length of the text, and one. -/
theorem bounded {p : Nat → Parser α} (h : Takes (p (cs.length + 1)) cs a rest) : Takes (Parser.bounded p) cs a rest :=
  get_bind fun _ => h

end Takes

/-! ## §D  Blanks, words, marks -/

variable {cs rest : List Char}

theorem takes_blanks (cs : List Char) : Takes blanks cs () (Text.trimStart cs) := by
  intro n
  refine ⟨(Input.skipBlanks ⟨cs, n⟩).offset, ?_⟩
  rw [← Input.rest_skipBlanks ⟨cs, n⟩]
  rfl

theorem takes_accept (word rest : List Char) : Takes (accept word) (word ++ rest) true rest := by
  refine Takes.get_bind fun n => ?_
  rw [Input.skip?_eq_some rfl]
  refine Takes.set_bind ?_
  rw [Input.rest_drop rfl]
  exact Takes.pure true rest

theorem takes_accept_false {word : List Char} (h : word.isPrefixOf cs = false) : Takes (accept word) cs false cs := by
  refine Takes.get_bind fun n => ?_
  rw [Input.skip?_eq_none h]
  exact Takes.pure false cs

/-- A word whose first character is not next is not accepted. -/
theorem takes_accept_cons_false {c : Char} {word : List Char} (h : cs.head? ≠ some c) :
    Takes (accept (c :: word)) cs false cs :=
  takes_accept_false (isPrefixOf_eq_false h)

theorem takes_expect (c : Char) (rest : List Char) : Takes (expect c) (c :: rest) () rest := by
  refine Takes.get_bind fun n => ?_
  have hskip : Input.skip? ⟨c :: rest, n⟩ [c] = some (Input.drop ⟨c :: rest, n⟩ 1) := Input.skip?_eq_some rfl
  have hexpect : Input.expect ⟨c :: rest, n⟩ c = .ok (Input.drop ⟨c :: rest, n⟩ 1) := by
    rw [Input.expect, hskip]
  rw [hexpect]
  exact (Takes.ok _ _).bind (Takes.set _)

theorem takes_mark {c : Char} (h : Text.trimStart cs = c :: rest) : Takes (mark c) cs true rest :=
  (takes_blanks cs).bind (by rw [h]; exact takes_accept [c] rest)

theorem takes_mark_false {c : Char} (h : (Text.trimStart cs).head? ≠ some c) :
    Takes (mark c) cs false (Text.trimStart cs) :=
  (takes_blanks cs).bind (takes_accept_cons_false h)

theorem takes_keyword {word : String} (h : Text.trimStart cs = word.toList ++ rest)
    (hrest : ∀ c ∈ rest.head?, isNameChar c = false) : Takes (keyword word) cs true rest := by
  refine Takes.get_bind fun n => ?_
  have hfront : (Input.skipBlanks ⟨cs, n⟩).rest = word.toList ++ rest := (Input.rest_skipBlanks _).trans h
  have hskip := Input.skip?_eq_some hfront
  have hdrop := Input.rest_drop hfront
  have hpeek : ((Input.skipBlanks ⟨cs, n⟩).drop word.toList.length).peek?.any isNameChar = false := by
    rw [Input.peek?, hdrop]
    cases rest with
    | nil => rfl
    | cons c rest => exact hrest c rfl
  have htake : Input.takeKeyword ⟨cs, n⟩ word = (true, (Input.skipBlanks ⟨cs, n⟩).drop word.toList.length) := by
    simp only [Input.takeKeyword, hskip, hpeek, Bool.false_eq_true, if_false]
  rw [htake]
  refine Takes.set_bind ?_
  rw [hdrop]
  exact Takes.pure true rest

theorem takes_keyword_false {word : String} (h : word.toList.isPrefixOf (Text.trimStart cs) = false) :
    Takes (keyword word) cs false (Text.trimStart cs) := by
  refine Takes.get_bind fun n => ?_
  have htake : Input.takeKeyword ⟨cs, n⟩ word = (false, Input.skipBlanks ⟨cs, n⟩) := by
    have hskip : (Input.skipBlanks ⟨cs, n⟩).skip? word.toList = none :=
      Input.skip?_eq_none (by rw [Input.rest_skipBlanks]; exact h)
    simp only [Input.takeKeyword, hskip]
  rw [htake]
  refine Takes.set_bind ?_
  rw [Input.rest_skipBlanks]
  exact Takes.pure false _

end Parser

/-! ## §E  Names, numerals, quoted texts -/

/-- **IsNcName** says that a text is a name without a qualifier. -/
def IsNcName (s : String) : Prop :=
  ∃ c cs, s.toList = c :: cs ∧ isNameStart c = true ∧ ∀ d ∈ cs, isNameChar d = true

/-- A name at the front of a text that goes on with something else is the name that is read. -/
theorem Input.name_of_isNcName {s : String} {n : Nat} {rest : List Char} (hs : IsNcName s)
    (hrest : ∀ c ∈ rest.head?, isNameChar c = false) : Input.name ⟨s.toList ++ rest, n⟩ = s.toList := by
  obtain ⟨c, cs, hcs, hc, htail⟩ := hs
  rw [hcs]
  exact Input.name_append hc htail hrest

/-- **IsDigitLiteral** says that a text is a run of digits with at most one point. -/
inductive IsDigitLiteral : List Char → Prop
  | whole {ds : List Char} : ds ≠ [] → (∀ d ∈ ds, d.isDigit = true) → IsDigitLiteral ds
  | point {ds fs : List Char} : ds ++ fs ≠ [] → (∀ d ∈ ds ++ fs, d.isDigit = true) →
      IsDigitLiteral (ds ++ '.' :: fs)

/-- Whether a character is a quote. -/
def IsQuote (c : Char) : Prop := c = '\'' ∨ c = '"'

namespace Parser

variable {cs rest : List Char}

theorem takes_name {s : String} (hs : IsNcName s) (hrest : ∀ c ∈ rest.head?, isNameChar c = false) :
    Takes name (s.toList ++ rest) s rest := by
  refine Takes.get_bind fun n => ?_
  have htake : Input.takeName ⟨s.toList ++ rest, n⟩ =
      .ok (s, Input.drop ⟨s.toList ++ rest, n⟩ s.toList.length) := by
    have hne : s.toList.isEmpty = false := by
      obtain ⟨c, cs, hcs, -⟩ := hs
      rw [hcs]
      rfl
    simp only [Input.takeName, Input.name_of_isNcName hs hrest, hne, Bool.false_eq_true, if_false,
      String.ofList_toList]
  rw [htake]
  refine (Takes.ok _ _).bind (Takes.set_bind ?_)
  rw [Input.rest_drop rfl]
  exact Takes.pure s rest

theorem takes_quoted {s : String} {q : Char} (hq : IsQuote q) (hs : q ∉ s.toList) :
    Takes quoted (q :: (s.toList ++ q :: rest)) s rest := by
  have hquote : (q != '\'' && q != '"') = false := by rcases hq with rfl | rfl <;> rfl
  have hbody : (s.toList ++ q :: rest).takeWhile (· != q) = s.toList := by
    refine takeWhile_append_of_stop (fun c hc => ?_) (fun c hc => ?_)
    · exact bne_iff_ne.mpr fun h => hs (h ▸ hc)
    · cases hc
      exact bne_self_eq_false _
  have hlength : (s.toList.length == (s.toList ++ q :: rest).length) = false := by
    simp only [beq_eq_false_iff_ne, List.length_append, List.length_cons]
    omega
  refine Takes.get_bind fun n => ?_
  have htake : Input.takeQuoted ⟨q :: (s.toList ++ q :: rest), n⟩ =
      .ok (s, Input.drop ⟨q :: (s.toList ++ q :: rest), n⟩ (s.toList.length + 2)) := by
    simp only [Input.takeQuoted, hquote, hbody, hlength, Bool.false_eq_true, if_false, String.ofList_toList]
  rw [htake]
  refine (Takes.ok _ _).bind (Takes.set_bind ?_)
  have hdrop : (Input.drop ⟨q :: (s.toList ++ q :: rest), n⟩ (s.toList.length + 2)).rest = rest := by
    simp [Input.drop]
  rw [hdrop]
  exact Takes.pure s rest

theorem rest_skipDigits {i : Input} {ds : List Char} (hi : i.rest = ds ++ rest)
    (hds : ∀ d ∈ ds, d.isDigit = true) (hrest : ∀ d ∈ rest.head?, d.isDigit = false) : i.skipDigits.rest = rest := by
  unfold Input.skipDigits Input.front
  rw [hi, takeWhile_append_of_stop hds hrest, Input.rest_drop hi]

/-- A numeral at the front of a text that goes on neither with a digit nor with a point. -/
theorem rest_skipNumber {i : Input} (hi : i.rest = cs ++ rest) (hcs : IsDigitLiteral cs)
    (hrest : ∀ d ∈ rest.head?, d.isDigit = false ∧ d ≠ '.') : i.skipNumber.rest = rest := by
  cases hcs with
  | whole hne hds =>
    have hdigits : i.skipDigits.rest = rest := rest_skipDigits hi hds fun d hd => (hrest d hd).1
    have hpoint : i.skipDigits.skip? ['.'] = none := by
      refine Input.skip?_eq_none (isPrefixOf_eq_false ?_)
      rw [hdigits]
      exact fun h => (hrest '.' h).2 rfl
    simp only [Input.skipNumber, hpoint, hdigits]
  | @point ds fs hne hds =>
    rw [List.append_assoc] at hi
    have hdigits : i.skipDigits.rest = ['.'] ++ (fs ++ rest) :=
      rest_skipDigits hi (fun d hd => hds d (List.mem_append_left _ hd)) (by rintro _ ⟨⟩; rfl)
    simp only [Input.skipNumber, Input.skip?_eq_some hdigits]
    exact rest_skipDigits (Input.rest_drop hdigits) (fun d hd => hds d (List.mem_append_right _ hd))
      fun d hd => (hrest d hd).1

theorem ne_nil_of_isDigitLiteral (h : IsDigitLiteral cs) : cs ≠ [] ∧ cs ≠ ['.'] := by
  cases h with
  | whole hne hds =>
    refine ⟨hne, ?_⟩
    rintro rfl
    exact absurd (hds '.' (List.mem_singleton.mpr rfl)) (by decide)
  | @point ds fs hne hds =>
    cases ds with
    | nil =>
      refine ⟨by simp, fun h => hne ?_⟩
      simpa using h
    | cons d ds => simp

theorem takes_number (hcs : IsDigitLiteral cs) (hrest : ∀ d ∈ rest.head?, d.isDigit = false ∧ d ≠ '.') :
    Takes number (cs ++ rest) (String.ofList cs) rest := by
  refine Takes.get_bind fun n => ?_
  have hskip : (Input.skipNumber ⟨cs ++ rest, n⟩).rest = rest := rest_skipNumber rfl hcs hrest
  have htake : (cs ++ rest).take ((cs ++ rest).length - rest.length) = cs := by simp
  have hlone : (cs.isEmpty || cs == ['.']) = false := by
    obtain ⟨hne, hpoint⟩ := ne_nil_of_isDigitLiteral hcs
    simp [hne, hpoint]
  have hnumber : Input.takeNumber ⟨cs ++ rest, n⟩ = (.ok (String.ofList cs), Input.skipNumber ⟨cs ++ rest, n⟩) := by
    simp only [Input.takeNumber, hskip, htake, hlone, Bool.false_eq_true, if_false]
  rw [hnumber]
  refine Takes.set_bind ?_
  rw [hskip]
  exact Takes.ok _ _

/-! ## §F  Sequences -/

variable {α : Type} {more : Parser Bool} {item : Parser α} {mid : List Char}

/-- A sequence ends where nothing further is taken. -/
theorem takes_itemsFrom_nil {n : Nat} {taken : List α} (hmore : Takes more cs false rest) :
    Takes (itemsFrom more item (n + 1) taken) cs taken.reverse rest :=
  hmore.bind (Takes.pure _ _)

theorem takes_itemsFrom_cons {n : Nat} {taken as : List α} {a : α} {behind : List Char}
    (hmore : Takes more cs true mid) (hitem : Takes item mid a behind)
    (hothers : Takes (itemsFrom more item n (a :: taken)) behind as rest) :
    Takes (itemsFrom more item (n + 1) taken) cs as rest :=
  hmore.bind (hitem.bind hothers)

end Parser

end NodePath
