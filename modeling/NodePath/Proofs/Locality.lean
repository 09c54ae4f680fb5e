/-
# NodePath.Proofs.Locality — what stands behind a closing bracket is not looked at

What a reader takes from the front of a text, it takes also where more stands behind the text, as long as that begins
with a closing bracket: no name, number, blank or word goes on into a bracket, and no look ahead tells a bracket from
the end. The bounds on repetitions grow with the text, but they are never reached, since each repetition takes a
character; so a longer text does not change what is read under them either. Hence an expression that is read as a
whole text is read as the same tree between brackets.

Only success is carried over: an error at the end of the text may be another one in front of a bracket.

* §A  Inputs with more behind them.
* §B  `Parser.Carries` and its rules.
* §C  Small readers.
* §D  Sequences.
* §E  Steps and paths.
* §F  Primary expressions.
* §G  Operators.
* §H  Whole texts in brackets.
-/
import NodePath.Proofs.ParsedTree

namespace NodePath

/-! ## §A  Inputs with more behind them -/

/-- **Bracketed** says that a text is empty or begins with a closing bracket. -/
def Bracketed (tail : List Char) : Prop := ∀ c ∈ tail.head?, c = ']'

namespace Bracketed

variable {tail : List Char}

theorem nil : Bracketed [] := fun _ h => nomatch h

theorem cons (tail : List Char) : Bracketed (']' :: tail) := by
  rintro _ ⟨⟩
  rfl

theorem takeWhile_append (h : Bracketed tail) {p : Char → Bool} (hp : p ']' = false) (cs : List Char) :
    (cs ++ tail).takeWhile p = cs.takeWhile p := by
  induction cs with
  | nil =>
    cases tail with
    | nil => rfl
    | cons c tail =>
      obtain rfl := h c rfl
      simp [hp]
  | cons c cs ih => simp [List.takeWhile_cons, ih]

theorem isPrefixOf_append (h : Bracketed tail) {word : List Char} (hword : ']' ∉ word) (cs : List Char) :
    word.isPrefixOf (cs ++ tail) = word.isPrefixOf cs := by
  induction word generalizing cs with
  | nil => rfl
  | cons w word ih =>
    have hw := List.ne_of_not_mem_cons hword
    have hword := List.not_mem_of_not_mem_cons hword
    cases cs with
    | cons c cs => simp [List.isPrefixOf, ih hword]
    | nil =>
      refine isPrefixOf_eq_false fun hhead => hw ?_
      exact (h w hhead).symm

end Bracketed

namespace Input

variable {i j : Input} {n m : Nat} {tail word : List Char}

/-- **within** is an input with `tail` behind it, `n` bytes further on in a longer text. -/
def within (i : Input) (n : Nat) (tail : List Char) : Input := ⟨i.rest ++ tail, n + i.offset⟩

theorem within_nil (i : Input) : i.within 0 [] = i := by
  simp [within]

theorem drop_within (h : m ≤ i.rest.length) : (i.within n tail).drop m = (i.drop m).within n tail := by
  simp [within, drop, List.drop_append_of_le_length h, List.take_append_of_le_length h, Nat.add_assoc]

theorem length_drop (i : Input) (m : Nat) : (i.drop m).rest.length = i.rest.length - m := List.length_drop

theorem length_drop_le (i : Input) (m : Nat) : (i.drop m).rest.length ≤ i.rest.length := by
  rw [length_drop]
  exact Nat.sub_le _ _

theorem length_pos_of_peek? {c : Char} (h : (i.peek? == some c) = true) : 1 ≤ i.rest.length := by
  rw [peek?, beq_iff_eq] at h
  exact List.length_pos_of_mem (List.mem_of_mem_head? h)

theorem length_le_of_isPrefixOf (h : i.startsWith word = true) : word.length ≤ i.rest.length :=
  (List.isPrefixOf_iff_prefix.mp h).length_le

theorem length_front_le (i : Input) (p : Char → Bool) : (i.front p).length ≤ i.rest.length :=
  (List.takeWhile_sublist p).length_le

theorem length_name_le (i : Input) : i.name.length ≤ i.rest.length := by
  unfold name
  split
  · exact Nat.zero_le _
  · next c cs hrest =>
    split
    · rw [hrest]
      exact Nat.succ_le_succ (List.takeWhile_sublist _).length_le
    · exact Nat.zero_le _

theorem length_skipBlanks_le (i : Input) : i.skipBlanks.rest.length ≤ i.rest.length := by
  rw [skipBlanks, length_drop]
  exact Nat.sub_le _ _

/-- A word that is taken is there, and what stands behind it is left. -/
theorem of_skip? (h : i.skip? word = some j) : i.startsWith word = true ∧ j = i.drop word.length := by
  unfold skip? at h
  split at h
  · next hstarts => exact ⟨hstarts, (Option.some.inj h).symm⟩
  · cases h

theorem startsWith_of_skip?_eq_none (h : i.skip? word = none) : i.startsWith word = false := by
  unfold skip? at h
  split at h
  · cases h
  · next hstarts => exact Bool.eq_false_iff.mpr hstarts

theorem length_of_skip? (h : i.skip? word = some j) : j.rest.length + word.length ≤ i.rest.length := by
  obtain ⟨hstarts, rfl⟩ := of_skip? h
  have := length_le_of_isPrefixOf hstarts
  rw [length_drop]
  omega

/-- A word that is next is next also with more behind. -/
theorem skip?_within_of_some (h : i.skip? word = some j) : (i.within n tail).skip? word = some (j.within n tail) := by
  obtain ⟨hstarts, rfl⟩ := of_skip? h
  have hwithin : (i.within n tail).startsWith word = true :=
    List.isPrefixOf_iff_prefix.mpr ((List.isPrefixOf_iff_prefix.mp hstarts).trans (List.prefix_append _ _))
  rw [skip?, hwithin, if_pos rfl, drop_within (length_le_of_isPrefixOf hstarts)]

theorem peek?_within_of_some {c : Char} (h : i.peek? = some c) : (i.within n tail).peek? = some c := by
  rw [peek?, within, List.head?_append, ← peek?, h, Option.some_or]

section

variable (htail : Bracketed tail)

include htail

theorem peek?_within {c : Char} (hc : c ≠ ']') : ((i.within n tail).peek? == some c) = (i.peek? == some c) := by
  cases hrest : i.rest with
  | cons d cs => simp [within, peek?, hrest]
  | nil =>
    have hne : tail.head? ≠ some c := fun hhead => hc (htail c hhead)
    simpa [within, peek?, hrest] using hne

theorem any_peek?_within {p : Char → Bool} (hp : p ']' = false) : (i.within n tail).peek?.any p = i.peek?.any p := by
  cases hrest : i.rest with
  | cons d cs => simp [within, peek?, hrest]
  | nil =>
    cases tail with
    | nil => simp [within, peek?, hrest]
    | cons c tail =>
      obtain rfl := htail c rfl
      simp [within, peek?, hrest, hp]

theorem startsWith_within (hword : ']' ∉ word) : (i.within n tail).startsWith word = i.startsWith word :=
  htail.isPrefixOf_append hword i.rest

theorem skip?_within (hword : ']' ∉ word) :
    (i.within n tail).skip? word = (i.skip? word).map fun j => j.within n tail := by
  cases hskip : i.skip? word with
  | some j => exact skip?_within_of_some hskip
  | none =>
    rw [skip?, startsWith_within htail hword, startsWith_of_skip?_eq_none hskip]
    rfl

theorem front_within {p : Char → Bool} (hp : p ']' = false) : (i.within n tail).front p = i.front p :=
  htail.takeWhile_append hp i.rest

theorem drop_front_within {p : Char → Bool} (hp : p ']' = false) :
    (i.within n tail).drop ((i.within n tail).front p).length = (i.drop (i.front p).length).within n tail := by
  rw [front_within htail hp, drop_within (i.length_front_le p)]

theorem skipBlanks_within : (i.within n tail).skipBlanks = i.skipBlanks.within n tail :=
  drop_front_within htail (isBlank_eq_false (by decide))

theorem skipDigits_within : (i.within n tail).skipDigits = i.skipDigits.within n tail :=
  drop_front_within htail (by decide)

theorem skipNumber_within : (i.within n tail).skipNumber = i.skipNumber.within n tail := by
  simp only [skipNumber, skipDigits_within htail, skip?_within htail (show ']' ∉ ['.'] by decide)]
  cases i.skipDigits.skip? ['.'] with
  | none => rfl
  | some j => exact skipDigits_within htail

theorem name_within : (i.within n tail).name = i.name := by
  cases hrest : i.rest with
  | cons c cs => simp [name, within, hrest, htail.takeWhile_append (p := isNameChar) (by decide)]
  | nil =>
    cases tail with
    | nil => simp [name, within, hrest]
    | cons c tail =>
      obtain rfl := htail c rfl
      simp [name, within, hrest, show isNameStart ']' = false by decide]

theorem atQuote_within : (i.within n tail).atQuote = i.atQuote := by
  rw [atQuote, peek?_within htail (by decide), peek?_within htail (by decide), atQuote]

/-- The input behind a name and the blanks behind it. -/
theorem behindName_within : ((i.within n tail).drop i.name.length).skipBlanks =
    ((i.drop i.name.length).skipBlanks).within n tail := by
  rw [drop_within i.length_name_le, skipBlanks_within htail]

theorem takeKeyword_within {w : String} (hw : ']' ∉ w.toList) : (i.within n tail).takeKeyword w =
    ((i.takeKeyword w).1, (i.takeKeyword w).2.within n tail) := by
  simp only [takeKeyword, skipBlanks_within htail, skip?_within htail hw]
  cases i.skipBlanks.skip? w.toList with
  | none => rfl
  | some j =>
    simp only [Option.map_some, any_peek?_within htail (show isNameChar ']' = false by decide)]
    split <;> rfl

omit htail in
theorem length_takeKeyword (i : Input) (w : String) : (i.takeKeyword w).2.rest.length +
    (if (i.takeKeyword w).1 then w.toList.length else 0) ≤ i.rest.length := by
  have hblanks := i.length_skipBlanks_le
  unfold takeKeyword
  cases hskip : i.skipBlanks.skip? w.toList with
  | none => simpa [hskip] using hblanks
  | some j =>
    have hlength := length_of_skip? hskip
    cases hmore : j.peek?.any isNameChar with
    | true => simpa [hskip, hmore] using hblanks
    | false =>
      simp only [hskip, hmore, Bool.false_eq_true, if_false, if_true]
      omega

theorem takeName_within {s : String} (h : i.takeName = .ok (s, j)) :
    j.rest.length ≤ i.rest.length ∧ (i.within n tail).takeName = .ok (s, j.within n tail) := by
  unfold takeName at h ⊢
  rw [name_within htail]
  simp only at h ⊢
  split at h
  · cases h
  · next hne =>
    cases h
    rw [if_neg hne, drop_within i.length_name_le, length_drop]
    exact ⟨Nat.sub_le _ _, rfl⟩

end

theorem skipNumber_length_le (i : Input) : i.skipNumber.rest.length ≤ i.rest.length := by
  obtain ⟨cs, -, hrest⟩ := Parser.exists_skipNumber i
  rw [hrest, List.length_append]
  exact Nat.le_add_left _ _

theorem takeNumber_within (htail : Bracketed tail) {s : String} (h : i.takeNumber = (.ok s, j)) :
    j.rest.length ≤ i.rest.length ∧ (i.within n tail).takeNumber = (.ok s, j.within n tail) := by
  have htake : (i.within n tail).rest.take ((i.within n tail).rest.length - (i.skipNumber.within n tail).rest.length) =
      i.rest.take (i.rest.length - i.skipNumber.rest.length) := by
    simp only [within, List.length_append, Nat.add_sub_add_right]
    exact List.take_append_of_le_length (Nat.sub_le _ _)
  simp only [takeNumber] at h ⊢
  rw [skipNumber_within htail, htake]
  split at h
  · cases h
  · next hne =>
    cases h
    rw [if_neg hne]
    exact ⟨i.skipNumber_length_le, rfl⟩

theorem takeQuoted_within {s : String} (h : i.takeQuoted = .ok (s, j)) :
    j.rest.length ≤ i.rest.length ∧ (i.within n tail).takeQuoted = .ok (s, j.within n tail) := by
  unfold takeQuoted at h
  split at h
  · cases h
  next q cs hrest =>
  split at h
  · cases h
  next hq =>
  simp only at h
  split at h
  · cases h
  next hlength =>
  cases h
  -- The text ends at a quote, so that what stands behind it is not looked at.
  have hshort : (cs.takeWhile (· != q)).length < cs.length :=
    Nat.lt_of_le_of_ne (List.takeWhile_sublist _).length_le (by simpa using hlength)
  have hbody : (cs ++ tail).takeWhile (· != q) = cs.takeWhile (· != q) := by
    rw [List.takeWhile_append, if_neg (Nat.ne_of_lt hshort)]
  have hlonger : ¬((cs.takeWhile (· != q)).length == (cs ++ tail).length) = true := by
    simp only [beq_iff_eq, List.length_append]
    omega
  have hle : (cs.takeWhile (· != q)).length + 2 ≤ i.rest.length := by
    rw [hrest, List.length_cons]
    omega
  have hwithin : (i.within n tail).rest = q :: (cs ++ tail) := by rw [within, hrest]; rfl
  refine ⟨?_, ?_⟩
  · rw [length_drop]
    exact Nat.sub_le _ _
  · simp only [takeQuoted, hwithin, hbody, if_neg hq, if_neg hlonger, drop_within hle]

end Input

namespace Parser

/-! ## §B  Carrying -/

/-- **Carries** says that whatever `p` takes from `i`, with at least `k a` characters, `p'` takes from it also with
`tail` behind. -/
def Carries {α : Type} (tail : List Char) (n : Nat) (k : α → Nat) (p p' : Parser α) (i : Input) : Prop :=
  ∀ a j, p.run i = .ok (a, j) →
    j.rest.length + k a ≤ i.rest.length ∧ p'.run (i.within n tail) = .ok (a, j.within n tail)

/-- **Lasts** says the same of any input, and nothing of how many characters are taken. -/
abbrev Lasts {α : Type} (tail : List Char) (n : Nat) (p p' : Parser α) : Prop :=
  ∀ i, Carries tail n (fun _ => 0) p p' i

namespace Carries

variable {α β : Type} {tail : List Char} {n : Nat} {k : α → Nat} {m : β → Nat} {p p' : Parser α}
  {f f' : α → Parser β} {i : Input}

theorem pure {a : α} (h : k a = 0) : Carries tail n k (Pure.pure a) (Pure.pure a) i := by
  rintro _ _ ⟨⟩
  exact ⟨by omega, rfl⟩

theorem mono {k' : α → Nat} (h : Carries tail n k p p' i) (hk : ∀ a, k' a ≤ k a) : Carries tail n k' p p' i := by
  intro a j hrun
  obtain ⟨hlength, hrun'⟩ := h a j hrun
  have := hk a
  exact ⟨by omega, hrun'⟩

theorem bind (hp : Carries tail n k p p' i)
    (hf : ∀ a j, j.rest.length + k a ≤ i.rest.length → Carries tail n (fun b => m b - k a) (f a) (f' a) j) :
    Carries tail n m (p >>= f) (p' >>= f') i := by
  intro b j h
  rw [StateT.run_bind] at h
  cases hrun : p.run i with
  | error e =>
    rw [hrun] at h
    cases h
  | ok r =>
    obtain ⟨a, mid⟩ := r
    rw [hrun] at h
    obtain ⟨hmid, hrun'⟩ := hp a mid hrun
    obtain ⟨hlength, hbehind⟩ := hf a mid hmid b j h
    simp only at hlength
    refine ⟨by omega, ?_⟩
    rw [StateT.run_bind, hrun']
    exact hbehind

/-- Readers in a row, of which nothing is said about how many characters they take. -/
theorem andThen (hp : Carries tail n k p p' i)
    (hf : ∀ a j, j.rest.length + k a ≤ i.rest.length → Carries tail n (fun _ => 0) (f a) (f' a) j) :
    Carries tail n (fun _ => 0) (p >>= f) (p' >>= f') i :=
  hp.bind fun a j hj => (hf a j hj).mono fun _ => Nat.le_of_eq (Nat.zero_sub _)

/-- What is taken behind something else. -/
theorem after (hp : Carries tail n (fun _ => 0) p p' i) (hf : ∀ a j, Carries tail n m (f a) (f' a) j) :
    Carries tail n m (p >>= f) (p' >>= f') i :=
  hp.bind fun a j _ => hf a j

theorem get_bind {g g' : Input → Parser β} (h : Carries tail n m (g i) (g' (i.within n tail)) i) :
    Carries tail n m (get >>= g) (get >>= g') i :=
  h

/-- Going on with another input. -/
theorem set_bind {j : Input} {g g' : PUnit → Parser β} (hj : j.rest.length ≤ i.rest.length)
    (h : Carries tail n m (g ⟨⟩) (g' ⟨⟩) j) :
    Carries tail n m (MonadStateOf.set j >>= g) (MonadStateOf.set (j.within n tail) >>= g') i := by
  intro b l hrun
  obtain ⟨hlength, hbehind⟩ := h b l hrun
  exact ⟨by omega, hbehind⟩

theorem fail {fault : SyntaxFault} {q : Parser α} : Carries tail n k (Parser.fail fault) q i := by
  rintro _ _ ⟨⟩

theorem ite {c : Prop} [Decidable c] {q q' : Parser α} (ht : c → Carries tail n k p p' i)
    (he : ¬c → Carries tail n k q q' i) : Carries tail n k (if c then p else q) (if c then p' else q') i := by
  by_cases h : c
  · rw [if_pos h, if_pos h]
    exact ht h
  · rw [if_neg h, if_neg h]
    exact he h

theorem bounded {p p' : Nat → Parser α}
    (h : ∀ l l', i.rest.length < l → i.rest.length < l' → Carries tail n k (p l) (p' l') i) :
    Carries tail n k (Parser.bounded p) (Parser.bounded p') i :=
  get_bind (h _ _ (Nat.lt_succ_self _) (by simp only [Input.within, List.length_append]; omega))

end Carries

/-! ## §C  Small readers -/

section

variable {tail : List Char} {n : Nat} (htail : Bracketed tail)

include htail

theorem lasts_blanks : Lasts tail n blanks blanks := by
  rintro i _ _ ⟨⟩
  refine ⟨i.length_skipBlanks_le, ?_⟩
  show Except.ok (_, (i.within n tail).skipBlanks) = _
  rw [Input.skipBlanks_within htail]

theorem carries_accept {word : List Char} (hword : ']' ∉ word) (i : Input) :
    Carries tail n (fun found => if found then word.length else 0) (accept word) (accept word) i := by
  refine .get_bind ?_
  rw [Input.skip?_within htail hword]
  cases hskip : i.skip? word with
  | none => exact .pure rfl
  | some j =>
    rintro _ _ ⟨⟩
    exact ⟨Input.length_of_skip? hskip, rfl⟩

theorem lasts_accept {word : List Char} (hword : ']' ∉ word) : Lasts tail n (accept word) (accept word) :=
  fun i => (carries_accept htail hword i).mono fun _ => Nat.zero_le _

theorem carries_mark {c : Char} (hc : c ≠ ']') (i : Input) :
    Carries tail n (fun found => if found then 1 else 0) (mark c) (mark c) i :=
  (lasts_blanks htail i).after fun _ => carries_accept htail (by simpa using hc.symm)

theorem carries_keyword {word : String} (hword : ']' ∉ word.toList) (hlength : 1 ≤ word.toList.length) (i : Input) :
    Carries tail n (fun found => if found then 1 else 0) (keyword word) (keyword word) i := by
  refine .get_bind ?_
  rw [Input.takeKeyword_within htail hword]
  have htaken := i.length_takeKeyword word
  generalize i.takeKeyword word = r at htaken ⊢
  obtain ⟨found, j⟩ := r
  rintro _ _ ⟨⟩
  refine ⟨?_, rfl⟩
  cases found with
  | true =>
    simp only [if_true] at htaken ⊢
    omega
  | false => exact htaken

omit htail in
/-- What is taken by a function on the input. -/
theorem lasts_taking {α : Type} {take : Input → Except ParseError (α × Input)}
    (h : ∀ {i a j}, take i = .ok (a, j) →
      j.rest.length ≤ i.rest.length ∧ take (i.within n tail) = .ok (a, j.within n tail)) :
    Lasts tail n (do let (a, j) ← take (← get); set j; pure a) (do let (a, j) ← take (← get); set j; pure a) := by
  intro i
  refine .get_bind ?_
  cases htake : take i with
  | error e => rintro _ _ ⟨⟩
  | ok r =>
    obtain ⟨hlength, hwithin⟩ := h htake
    rw [hwithin]
    rintro _ _ ⟨⟩
    exact ⟨hlength, rfl⟩

theorem lasts_name : Lasts tail n name name := lasts_taking fun htake => Input.takeName_within htail htake

omit htail in
theorem lasts_quoted : Lasts tail n quoted quoted := lasts_taking fun htake => Input.takeQuoted_within htake

theorem lasts_number : Lasts tail n number number := by
  intro i
  refine .get_bind ?_
  rintro s j h
  have hnumber : i.takeNumber = (.ok s, j) := by
    cases hr : i.takeNumber with
    | mk r l =>
      rw [hr] at h
      cases r with
      | error e => cases h
      | ok t =>
        cases h
        rfl
  obtain ⟨hlength, hwithin⟩ := Input.takeNumber_within (n := n) htail hnumber
  rw [hwithin]
  exact ⟨hlength, rfl⟩

omit htail in
theorem lasts_expect (c : Char) : Lasts tail n (expect c) (expect c) := by
  intro i
  refine .get_bind ?_
  unfold Input.expect
  cases hskip : i.skip? [c] with
  | none => rintro _ _ ⟨⟩
  | some j =>
    rw [Input.skip?_within_of_some hskip]
    rintro _ _ ⟨⟩
    exact ⟨Nat.le_of_succ_le (Input.length_of_skip? hskip), rfl⟩

/-! ## §D  Sequences -/

omit htail in
theorem carries_itemsFrom {α : Type} {more : Parser Bool} {item item' : Parser α}
    (hmore : ∀ i, Carries tail n (fun found => if found then 1 else 0) more more i)
    (hitem : Lasts tail n item item') {l l' : Nat} {taken : List α} {i : Input} (hl : i.rest.length < l)
    (hl' : i.rest.length < l') :
    Carries tail n (fun _ => 0) (itemsFrom more item l taken) (itemsFrom more item' l' taken) i := by
  induction l generalizing l' taken i with
  | zero => omega
  | succ l ih =>
    obtain ⟨l', rfl⟩ : ∃ k, l' = k + 1 := ⟨l' - 1, by omega⟩
    refine (hmore i).andThen fun found j hj => .ite (fun hfound => ?_) fun _ => .pure rfl
    rw [if_pos hfound] at hj
    refine (hitem j).andThen fun a k hk => ?_
    exact ih (by omega) (by omega)

omit htail in
theorem lasts_items {α : Type} {more : Parser Bool} {item item' : Parser α}
    (hmore : ∀ i, Carries tail n (fun found => if found then 1 else 0) more more i)
    (hitem : Lasts tail n item item') :
    Lasts tail n (bounded fun l => itemsFrom more item l []) (bounded fun l => itemsFrom more item' l []) :=
  fun _ => .bounded fun _ _ => carries_itemsFrom hmore hitem

omit htail in
theorem lasts_operands {op : Operator} {more : Parser Bool} {operand operand' : Parser Expr}
    (hmore : ∀ i, Carries tail n (fun found => if found then 1 else 0) more more i)
    (hoperand : Lasts tail n operand operand') :
    Lasts tail n (operands op more operand) (operands op more operand') := by
  intro i
  refine (hoperand i).andThen fun first j _ => (lasts_items hmore hoperand j).andThen fun others k _ => ?_
  cases others with
  | nil => exact .pure rfl
  | cons e es => exact .pure rfl

omit htail in
theorem carries_leftFrom {operator : Parser (Option Operator)} {operand operand' : Parser Expr}
    (hoperator : ∀ i, Carries tail n (fun found => if found.isSome then 1 else 0) operator operator i)
    (hoperand : Lasts tail n operand operand') {l l' : Nat} {e : Expr} {i : Input} (hl : i.rest.length < l)
    (hl' : i.rest.length < l') :
    Carries tail n (fun _ => 0) (leftFrom operator operand l e) (leftFrom operator operand' l' e) i := by
  induction l generalizing l' e i with
  | zero => omega
  | succ l ih =>
    obtain ⟨l', rfl⟩ : ∃ k, l' = k + 1 := ⟨l' - 1, by omega⟩
    refine (hoperator i).andThen fun found j hj => ?_
    cases found with
    | none => exact .pure rfl
    | some op =>
      simp only [Option.isSome_some, if_true] at hj
      exact (hoperand j).andThen fun a k hk => ih (by omega) (by omega)

omit htail in
theorem lasts_left {operator : Parser (Option Operator)} {operand operand' : Parser Expr}
    (hoperator : ∀ i, Carries tail n (fun found => if found.isSome then 1 else 0) operator operator i)
    (hoperand : Lasts tail n operand operand') : Lasts tail n (left operator operand) (left operator operand') :=
  fun i => (hoperand i).andThen fun _ _ _ => .bounded fun _ _ => carries_leftFrom hoperator hoperand

omit htail in
/-- The first of several words is taken, or what stands for the others. -/
theorem carries_choice {word : Parser Bool} {op : Operator} {others : Parser (Option Operator)} {l : Nat} {i : Input}
    (hl : 1 ≤ l) (hword : Carries tail n (fun found => if found then l else 0) word word i)
    (hothers : ∀ j, Carries tail n (fun found => if found.isSome then 1 else 0) others others j) :
    Carries tail n (fun found => if found.isSome then 1 else 0) (do if ← word then pure (some op) else others)
      (do if ← word then pure (some op) else others) i := by
  refine hword.bind fun found j _ => .ite (fun hfound => .pure ?_) fun _ => ?_
  · simp only [hfound, if_true, Option.isSome_some]
    omega
  · exact (hothers j).mono fun _ => Nat.sub_le _ _

theorem carries_symbolOf {ops : List Operator} (hops : ∀ op ∈ ops, ']' ∉ op.symbol.toList ∧ 1 ≤ op.symbol.toList.length)
    (i : Input) : Carries tail n (fun found => if found.isSome then 1 else 0) (symbolOf ops) (symbolOf ops) i := by
  induction ops generalizing i with
  | nil => exact .pure rfl
  | cons op ops ih =>
    obtain ⟨⟨hbracket, hlength⟩, hops⟩ := List.forall_mem_cons.mp hops
    exact carries_choice hlength (carries_accept htail hbracket i) (ih hops)

theorem carries_symbolic {ops : List Operator} (hops : ∀ op ∈ ops, ']' ∉ op.symbol.toList ∧ 1 ≤ op.symbol.toList.length)
    (i : Input) : Carries tail n (fun found => if found.isSome then 1 else 0) (symbolic ops) (symbolic ops) i :=
  (lasts_blanks htail i).after fun _ => carries_symbolOf htail hops

theorem carries_multiplicativeOperator (i : Input) : Carries tail n (fun found => if found.isSome then 1 else 0)
    multiplicativeOperator multiplicativeOperator i := by
  refine (lasts_blanks htail i).after fun _ j => ?_
  refine carries_choice (Nat.le_refl 1) (carries_accept htail (by decide) j) fun k => ?_
  refine carries_choice (Nat.le_refl 1) (carries_keyword htail (by decide) (by decide) k) fun l => ?_
  exact carries_choice (Nat.le_refl 1) (carries_keyword htail (by decide) (by decide) l) fun _ => .pure rfl

/-! ## §E  Steps and paths -/

theorem lasts_predicate {inner inner' : Parser Expr} (hinner : Lasts tail n inner inner') :
    Lasts tail n (predicate inner) (predicate inner') := fun i =>
  (hinner i).andThen fun _ j _ => (lasts_blanks htail j).andThen fun _ k _ =>
    (lasts_expect ']' k).andThen fun _ _ _ => .pure rfl

theorem lasts_predicates {inner inner' : Parser Expr} (hinner : Lasts tail n inner inner') :
    Lasts tail n (predicates inner) (predicates inner') :=
  lasts_items (carries_mark htail (by decide)) (lasts_predicate htail hinner)

theorem lasts_qualifiedName : Lasts tail n qualifiedName qualifiedName := by
  intro i
  refine (lasts_name htail i).andThen fun first j _ => .get_bind ?_
  rw [Input.peek?_within htail (by decide), Input.startsWith_within htail (by decide)]
  refine .ite (fun hcolon => ?_) fun _ => .pure rfl
  rw [Input.drop_within (Input.length_pos_of_peek? (Bool.and_eq_true_iff.mp hcolon).1)]
  refine .set_bind (Input.length_drop_le _ _) ?_
  exact (lasts_name htail _).andThen fun _ _ _ => .pure rfl

theorem lasts_axis : Lasts tail n axis axis := by
  intro i
  refine (lasts_accept htail (by decide) i).andThen fun found j _ => .ite (fun _ => .pure rfl) fun _ => .get_bind ?_
  simp only [Input.name_within htail, Input.behindName_within htail,
    Input.startsWith_within htail (show ']' ∉ [':', ':'] by decide)]
  refine .ite (fun hcolons => ?_) fun _ => .pure rfl
  have hlength : 2 ≤ (j.drop j.name.length).skipBlanks.rest.length :=
    Input.length_le_of_isPrefixOf (Bool.and_eq_true_iff.mp hcolons).2
  cases Axis.ofName? (String.ofList j.name) with
  | none => exact .fail
  | some a =>
    simp only [Input.drop_within hlength]
    have hbehind := Nat.le_trans (Input.length_skipBlanks_le (j.drop j.name.length)) (Input.length_drop_le _ _)
    refine .set_bind (Nat.le_trans (Input.length_drop_le _ _) hbehind) ?_
    exact .pure rfl

theorem lasts_nodeTypeTail (t : NodeType) : Lasts tail n (nodeTypeTail t) (nodeTypeTail t) := by
  intro i
  refine (lasts_blanks htail i).andThen fun _ j _ => .get_bind ?_
  rw [Input.atQuote_within htail]
  refine .ite (fun _ => ?_) fun _ => (lasts_expect ')' j).andThen fun _ _ _ => .pure rfl
  refine (lasts_quoted j).andThen fun target k _ => (lasts_blanks htail k).andThen fun _ l _ => ?_
  exact (lasts_expect ')' l).andThen fun _ _ _ => .pure rfl

theorem lasts_nodeTest : Lasts tail n nodeTest nodeTest := by
  intro i
  refine (lasts_accept htail (by decide) i).andThen fun found j _ => .ite (fun _ => .pure rfl) fun _ => .get_bind ?_
  refine (lasts_name htail j).andThen fun first k _ => .get_bind ?_
  simp only [Input.peek?_within htail (show ':' ≠ ']' by decide), Input.peek?_within htail (show '(' ≠ ']' by decide),
    Input.startsWith_within htail (show ']' ∉ [':', ':'] by decide), Input.skipBlanks_within htail]
  refine .ite (fun hcolon => ?_) fun _ => .ite (fun hopen => ?_) fun _ => .pure rfl
  · rw [Input.drop_within (Input.length_pos_of_peek? (Bool.and_eq_true_iff.mp hcolon).1)]
    refine .set_bind (Input.length_drop_le _ _) ?_
    refine (lasts_accept htail (by decide) _).andThen fun star l _ => .ite (fun _ => .pure rfl) fun _ => ?_
    exact (lasts_name htail l).andThen fun _ _ _ => .pure rfl
  · cases NodeType.ofName? first with
    | none => rintro _ _ ⟨⟩
    | some type =>
      simp only [Input.drop_within (Input.length_pos_of_peek? hopen)]
      refine .set_bind ?_ (lasts_nodeTypeTail htail type _)
      exact Nat.le_trans (Input.length_drop_le _ _) (Input.length_skipBlanks_le _)

theorem nameStartsPath_within (i : Input) : nameStartsPath (i.within n tail) = nameStartsPath i := by
  have hcolon : ∀ {j : Input}, ((j.within n tail).peek? == some ':') = (j.peek? == some ':') :=
    Input.peek?_within htail (by decide)
  have hopen : ∀ {j : Input}, ((j.within n tail).peek? == some '(') = (j.peek? == some '(') :=
    Input.peek?_within htail (by decide)
  have hstar : ∀ {j : Input}, ((j.within n tail).peek? == some '*') = (j.peek? == some '*') :=
    Input.peek?_within htail (by decide)
  unfold nameStartsPath
  simp only [Input.name_within htail, Input.behindName_within htail, hcolon, hopen,
    Input.startsWith_within htail (show ']' ∉ [':', ':'] by decide)]
  generalize (i.drop i.name.length).skipBlanks = behind
  cases hpeek : behind.peek? == some ':' with
  | false => rfl
  | true =>
    simp only [Input.drop_within (Input.length_pos_of_peek? hpeek), Input.name_within htail,
      Input.behindName_within htail, hstar, bne, hopen]

theorem startsPath_within (i : Input) : startsPath (i.within n tail) = startsPath i := by
  obtain ⟨rest, offset⟩ := i
  cases rest with
  | nil =>
    cases tail with
    | nil => rfl
    | cons c tail =>
      obtain rfl := htail c rfl
      rfl
  | cons c cs =>
    have hpath := nameStartsPath_within (n := n) htail ⟨c :: cs, offset⟩
    have hdigit := Input.any_peek?_within (i := ⟨cs, 0⟩) (n := n) htail (show Char.isDigit ']' = false by decide)
    simp only [Input.within, Input.peek?, List.cons_append] at hpath hdigit
    simp only [startsPath, Input.within, List.cons_append, hpath, hdigit]

section

variable {inner inner' : Parser Expr} (hinner : Lasts tail n inner inner')

include hinner

theorem lasts_step : Lasts tail n (step inner) (step inner') := by
  intro i
  refine (lasts_blanks htail i).andThen fun _ j _ => (lasts_accept htail (by decide) j).andThen fun twice k _ => ?_
  refine .ite (fun _ => .pure rfl) fun _ => ?_
  refine (lasts_accept htail (by decide) k).andThen fun once l _ => .ite (fun _ => .pure rfl) fun _ => ?_
  refine (lasts_axis htail l).andThen fun a l _ => (lasts_blanks htail l).andThen fun _ l _ => ?_
  refine (lasts_nodeTest htail l).andThen fun test l _ => ?_
  exact (lasts_predicates htail hinner l).andThen fun _ _ _ => .pure rfl

theorem carries_stepsFrom {l l' : Nat} {taken : List Step} {i : Input} (hl : i.rest.length < l)
    (hl' : i.rest.length < l') :
    Carries tail n (fun _ => 0) (stepsFrom inner l taken) (stepsFrom inner' l' taken) i := by
  induction l generalizing l' taken i with
  | zero => omega
  | succ l ih =>
    obtain ⟨l', rfl⟩ : ∃ k, l' = k + 1 := ⟨l' - 1, by omega⟩
    refine (lasts_blanks htail i).andThen fun _ j hj => ?_
    refine (carries_accept htail (by decide) j).andThen fun twice k hk => .ite (fun htwice => ?_) fun _ => ?_
    · have hk : k.rest.length + 2 ≤ j.rest.length := by simpa [htwice] using hk
      exact (lasts_step htail hinner k).andThen fun s m hm => ih (by omega) (by omega)
    · refine (carries_accept htail (by decide) k).andThen fun once m hm => .ite (fun honce => ?_) fun _ => .pure rfl
      have hm : m.rest.length + 1 ≤ k.rest.length := by simpa [honce] using hm
      exact (lasts_step htail hinner m).andThen fun s m' hm' => ih (by omega) (by omega)

theorem lasts_steps (taken : List Step) : Lasts tail n (steps inner taken) (steps inner' taken) :=
  fun _ => .bounded fun _ _ => carries_stepsFrom htail hinner

theorem lasts_locationPath : Lasts tail n (locationPath inner) (locationPath inner') := by
  have hpath : ∀ absolute, Lasts tail n (do pure (Expr.path absolute (← steps inner [← step inner])))
      (do pure (Expr.path absolute (← steps inner' [← step inner']))) := fun absolute i =>
    (lasts_step htail hinner i).andThen fun s j _ => (lasts_steps htail hinner [s] j).andThen fun _ _ _ => .pure rfl
  intro i
  refine (lasts_accept htail (by decide) i).andThen fun twice j _ => .ite (fun _ => ?_) fun _ => ?_
  · refine (lasts_step htail hinner j).andThen fun first k _ => ?_
    exact (lasts_steps htail hinner _ k).andThen fun _ _ _ => .pure rfl
  refine (lasts_accept htail (by decide) j).andThen fun once k _ => .ite (fun _ => ?_) fun _ => hpath false k
  refine (lasts_blanks htail k).andThen fun _ l _ => .get_bind ?_
  rw [Input.any_peek?_within htail (by decide)]
  exact .ite (fun _ => .pure rfl) fun _ => hpath true l

/-! ## §F  Primary expressions -/

theorem lasts_arguments : Lasts tail n (arguments inner) (arguments inner') := by
  intro i
  refine (lasts_blanks htail i).andThen fun _ j _ => (lasts_accept htail (by decide) j).andThen fun none k _ => ?_
  refine .ite (fun _ => .pure rfl) fun _ => (hinner k).andThen fun first l _ => ?_
  refine (lasts_items (carries_mark htail (by decide)) hinner l).andThen fun others l _ => ?_
  exact (lasts_expect ')' l).andThen fun _ _ _ => .pure rfl

theorem lasts_functionCall : Lasts tail n (functionCall inner) (functionCall inner') := by
  intro i
  refine (lasts_qualifiedName htail i).andThen fun ⟨qualifier, name⟩ j _ => ?_
  refine (lasts_blanks htail j).andThen fun _ k _ => (lasts_expect '(' k).andThen fun _ l _ => ?_
  refine (lasts_arguments htail hinner l).andThen fun args l _ => ?_
  split
  · exact .pure rfl
  · exact .pure rfl

theorem lasts_primary : Lasts tail n (primary inner) (primary inner') := by
  intro i
  refine (lasts_blanks htail i).andThen fun _ j _ => .get_bind ?_
  cases hpeek : j.peek? with
  | none => exact .fail
  | some c =>
    have hpeek' : (j.within n tail).peek? = some c := Input.peek?_within_of_some hpeek
    have hlength : 1 ≤ j.rest.length := Input.length_pos_of_peek? (by rw [hpeek, beq_self_eq_true])
    have hdrop := Input.length_drop_le j 1
    rw [hpeek', Input.drop_within hlength]
    refine .ite (fun _ => .set_bind hdrop ?_) fun _ => .ite (fun _ => .set_bind hdrop ?_) fun _ => ?_
    · exact (lasts_qualifiedName htail _).andThen fun _ _ _ => .pure rfl
    · refine (hinner _).andThen fun e k _ => (lasts_blanks htail k).andThen fun _ l _ => ?_
      exact (lasts_expect ')' l).andThen fun _ _ _ => .pure rfl
    refine .ite (fun _ => (lasts_quoted j).andThen fun _ _ _ => .pure rfl) fun _ => ?_
    refine .ite (fun _ => (lasts_number htail j).andThen fun _ _ _ => .pure rfl) fun _ => ?_
    exact .ite (fun _ => lasts_functionCall htail hinner j) fun _ => .fail

theorem lasts_path : Lasts tail n (path inner) (path inner') := by
  intro i
  refine (lasts_blanks htail i).andThen fun _ j _ => .get_bind ?_
  rw [startsPath_within htail]
  refine .ite (fun _ => lasts_locationPath htail hinner j) fun _ => ?_
  refine (lasts_primary htail hinner j).andThen fun head k _ => ?_
  refine (lasts_predicates htail hinner k).andThen fun es l _ => ?_
  refine (lasts_blanks htail l).andThen fun _ l _ => .get_bind ?_
  rw [Input.peek?_within htail (by decide)]
  exact .ite (fun _ => (lasts_steps htail hinner [] l).andThen fun _ _ _ => .pure rfl) fun _ => .pure rfl

/-! ## §G  Operators -/

theorem lasts_union : Lasts tail n (union inner) (union inner') :=
  lasts_operands (carries_mark htail (by decide)) (lasts_path htail hinner)

theorem carries_unaryFrom {l l' : Nat} {i : Input} (hl : i.rest.length < l) (hl' : i.rest.length < l') :
    Carries tail n (fun _ => 0) (unaryFrom inner l) (unaryFrom inner' l') i := by
  induction l generalizing l' i with
  | zero => omega
  | succ l ih =>
    obtain ⟨l', rfl⟩ : ∃ k, l' = k + 1 := ⟨l' - 1, by omega⟩
    refine (lasts_blanks htail i).andThen fun _ j hj => ?_
    refine (carries_accept htail (by decide) j).andThen fun minus k hk => .ite (fun hminus => ?_) fun _ => ?_
    · have hk : k.rest.length + 1 ≤ j.rest.length := by simpa [hminus] using hk
      exact (ih (by omega) (by omega)).andThen fun _ _ _ => .pure rfl
    · exact lasts_union htail hinner k

theorem lasts_unary : Lasts tail n (unary inner) (unary inner') :=
  fun _ => .bounded fun _ _ => carries_unaryFrom htail hinner

theorem lasts_disjunction : Lasts tail n (disjunction inner) (disjunction inner') := by
  have hmultiplicative : Lasts tail n (multiplicative inner) (multiplicative inner') :=
    lasts_left (carries_multiplicativeOperator htail) (lasts_unary htail hinner)
  have hadditive : Lasts tail n (additive inner) (additive inner') :=
    lasts_left (carries_symbolic htail (by decide)) hmultiplicative
  have hrelational : Lasts tail n (relational inner) (relational inner') :=
    lasts_left (carries_symbolic htail (by decide)) hadditive
  have hequality : Lasts tail n (equality inner) (equality inner') :=
    lasts_left (carries_symbolic htail (by decide)) hrelational
  have hconjunction : Lasts tail n (conjunction inner) (conjunction inner') :=
    lasts_operands (carries_keyword htail (by decide) (by decide)) hequality
  exact lasts_operands (carries_keyword htail (by decide) (by decide)) hconjunction

end

theorem lasts_expression {depth depth' : Nat} (h : depth ≤ depth') :
    Lasts tail n (expression depth) (expression depth') := by
  induction depth generalizing depth' with
  | zero => exact fun _ => .fail
  | succ depth ih =>
    obtain ⟨depth', rfl⟩ : ∃ k, depth' = k + 1 := ⟨depth' - 1, by omega⟩
    exact lasts_disjunction htail (ih (by omega))

end

/-! ## §H  Whole texts in brackets -/

/-- **SkipsFirst** says that what a reader takes behind the blanks at the front of an input, it takes also from in
front of them. -/
def SkipsFirst {α : Type} (p : Parser α) : Prop := ∀ i r, p.run i.skipBlanks = .ok r → p.run i = .ok r

namespace SkipsFirst

theorem bind {α β : Type} {p : Parser α} {f : α → Parser β} (hp : SkipsFirst p) : SkipsFirst (p >>= f) := by
  intro i r h
  rw [StateT.run_bind] at h ⊢
  cases hrun : p.run i.skipBlanks with
  | error e =>
    rw [hrun] at h
    cases h
  | ok s =>
    rw [hrun] at h
    rw [hp i s hrun]
    exact h

end SkipsFirst

theorem run_blanks_bind {α : Type} {f : Unit → Parser α} (i : Input) : (blanks >>= f).run i = (f ()).run i.skipBlanks :=
  rfl

theorem run_bounded {α : Type} {p : Nat → Parser α} (i : Input) : (bounded p).run i = (p (i.rest.length + 1)).run i :=
  rfl

theorem skipsFirst_unary (depth : Nat) : SkipsFirst (unary (expression depth)) := by
  rintro i ⟨e, j⟩ h
  have hle := i.length_skipBlanks_le
  -- Fewer characters are left behind the blanks, so that fewer signs are allowed for, which does not matter.
  have hcarries := carries_unaryFrom (n := 0) .nil (lasts_expression .nil (Nat.le_refl depth))
    (Nat.lt_succ_self i.skipBlanks.rest.length) (Nat.lt_succ_of_le hle)
  have hrun := (hcarries e j h).2
  rw [Input.within_nil, Input.within_nil, unaryFrom, run_blanks_bind, skipBlanks_skipBlanks] at hrun
  change (unaryFrom (expression depth) (i.rest.length + 1)).run i = _
  rw [unaryFrom, run_blanks_bind, hrun]

theorem skipsFirst_expression (depth : Nat) : SkipsFirst (expression (depth + 1)) := by
  have hmultiplicative : SkipsFirst (multiplicative (expression depth)) := (skipsFirst_unary depth).bind
  have hequality : SkipsFirst (equality (expression depth)) := hmultiplicative.bind.bind.bind
  have hconjunction : SkipsFirst (conjunction (expression depth)) := hequality.bind
  exact hconjunction.bind

/-- What is read from a whole text, and that nothing but blanks is behind it. -/
theorem exists_run_expression {q : List Char} {e : Expr} (h : Expr.parse (String.ofList q) = .ok e) :
    ∃ depth ≤ q.length, ∃ j, (expression (depth + 1)).run ⟨q, 0⟩ = .ok (e, j) ∧ Text.trimStart j.rest = [] := by
  obtain ⟨k, hrun⟩ := Expr.exists_run_of_parse h
  rw [Input.ofString, String.toList_ofList, wholeText, run_blanks_bind, StateT.run_bind] at hrun
  rw [run_bounded] at hrun
  generalize hdepth : (Input.skipBlanks ⟨q, 0⟩).rest.length = depth at hrun
  cases hexpr : (expression (depth + 1)).run (Input.skipBlanks ⟨q, 0⟩) with
  | error err =>
    rw [hexpr] at hrun
    cases hrun
  | ok r =>
    obtain ⟨a, j⟩ := r
    rw [hexpr] at hrun
    change (if j.skipBlanks.atEnd then pure a else fail .trailing : Parser Expr).run j.skipBlanks = _ at hrun
    cases hend : j.skipBlanks.atEnd with
    | false =>
      rw [hend] at hrun
      cases hrun
    | true =>
      rw [hend] at hrun
      cases hrun
      refine ⟨depth, hdepth ▸ Input.length_skipBlanks_le ⟨q, 0⟩, j, skipsFirst_expression depth _ _ hexpr, ?_⟩
      rw [← Input.rest_skipBlanks]
      exact List.isEmpty_iff.mp hend

/-- **A whole text can be put in brackets**, wherever they stand: the predicate is what the text is read as. -/
theorem takes_predicate_of_parse {q tail : List Char} {e : Expr} {depth : Nat}
    (h : Expr.parse (String.ofList q) = .ok e) (hdepth : q.length < depth) :
    Takes (predicate (expression depth)) (q ++ ']' :: tail) e tail := by
  obtain ⟨d, hd, j, hrun, hend⟩ := exists_run_expression h
  have hbracket := Bracketed.cons tail
  have hinner : Takes (expression depth) (q ++ ']' :: tail) e (j.rest ++ ']' :: tail) := fun n =>
    ⟨_, (lasts_expression (n := n) hbracket (Nat.lt_of_le_of_lt hd hdepth) ⟨q, 0⟩ e j hrun).2⟩
  have hblanks : Text.trimStart (j.rest ++ ']' :: tail) = ']' :: tail := by
    have hblank : ∀ b ∈ j.rest, Text.isBlank b = true := by
      have hsplit := List.takeWhile_append_dropWhile (p := Text.isBlank) (l := j.rest)
      rw [show j.rest.dropWhile Text.isBlank = [] from hend, List.append_nil] at hsplit
      rw [← hsplit]
      exact List.all_eq_true.mp List.all_takeWhile
    rw [Text.trimStart_append hblank]
    exact Text.trimStart_cons (isBlank_eq_false (by decide))
  refine hinner.bind ((takes_blanks _).bind ?_)
  rw [hblanks]
  exact (takes_expect ']' tail).bind (Takes.pure _ _)

end Parser

end NodePath
