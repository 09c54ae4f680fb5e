/-
# NodePath.Proofs.ByteReader — reading by byte positions

The text of an expression can be read by a cursor that is a number of bytes. Then every move is arithmetic, by one, by
two, by the length of a word or of a character, and every look at the text is a slice from a number of bytes on; both
are sound only as long as the number is a boundary between characters inside the text. **ByteReader** is such reading
with every slice and every move checked: it stops with `Stop.slice` where one is unsound. It also stops, with
`Stop.stuck`, where a loop goes round without the cursor having moved on, or where a rule of the grammar is entered
while the same rule is under way from the same place. A look ahead has a cursor of its own, which is checked alike.

The small readers are given here, and each agrees with the one that takes from an `Input`: where that one gives a
value or an error, it does too, so that no check fails.

* §A  Checked reading.
* §B  Loops and rules.
* §C  The small readers.
* §D  Inputs that stand in a text.
* §E  Slices and moves that succeed.
* §F  Loops over characters.
* §G  `Agrees` and its rules.
* §H  The small readers agree.
-/
import NodePath.Proofs.Locality

namespace NodePath

/-! ## §A  Checked reading -/

/-- **Rule** is a rule of the grammar that can occur inside of itself. -/
inductive Rule where
  | disjunction
  | conjunction
  | equality
  | relational
  | additive
  | multiplicative
  | unary
  | union
  | path
  | locationPath
  | stepTail
  | step
  | predicates
  | primary
  | functionCall
deriving DecidableEq

/-- **Stop** is why a reading ends without a value. -/
inductive Stop where
  /-- The text is no expression. -/
  | invalid (e : ParseError)
  /-- A cursor is outside of the text or inside of a character. -/
  | slice
  /-- A loop or a rule begins again where it has begun before. -/
  | stuck
deriving DecidableEq

/-- **Site** is the text that is read and the rules that are under way, each with the place where it has begun, the
innermost first. -/
structure Site where
  text : String
  calls : List (Rule × Nat)

/-- **ByteReader** reads with a cursor that is a number of bytes. -/
abbrev ByteReader := ReaderT Site (StateT Nat (Except Stop))

namespace ByteReader

variable {α β σ : Type}

/-- An error at the cursor. -/
def fail (fault : SyntaxFault) : ByteReader α := do throw (.invalid ⟨← get, fault⟩)

/-- The text from a number of bytes on. -/
def sliceFrom (i : Nat) : ByteReader (List Char) := do
  let text := (← read).text
  if h : (String.Pos.Raw.mk i).IsValid text then pure (text.sliceFrom (text.pos ⟨i⟩ h)).copy.toList
  else throw .slice

/-- The text between two numbers of bytes. -/
def slice (i j : Nat) : ByteReader (List Char) := do
  let cs ← sliceFrom i
  let behind ← sliceFrom j
  if i ≤ j then pure (cs.take (cs.length - behind.length)) else throw .slice

/-- Moves the cursor. -/
def moveTo (i : Nat) : ByteReader Unit := do
  let _ ← sliceFrom i
  set i

/-- Moves the cursor on. -/
def advance (n : Nat) : ByteReader Unit := do moveTo ((← get) + n)

/-- The text from the cursor on. -/
def front : ByteReader (List Char) := do sliceFrom (← get)

/-- Reads with another cursor, and gives where that one ends. -/
def ahead (p : ByteReader α) : ByteReader (α × Nat) := do
  let i ← get
  let a ← p
  let j ← get
  set i
  pure (a, j)

/-! ## §B  Loops and rules -/

/-- **Turn** is what one turn of a loop ends with. -/
inductive Turn (σ β : Type) where
  | again (s : σ)
  | done (b : β)

/-- Ends a loop behind a turn that has begun at `start`, or goes on with it. The cursor must have moved on then. -/
def Turn.follow (next : σ → ByteReader β) (start : Nat) : Turn σ β → ByteReader β
  | .done b => pure b
  | .again s => do if start < (← get) then next s else throw .stuck

/-- A loop of at most so many turns. -/
def loopFrom (turn : σ → ByteReader (Turn σ β)) : Nat → σ → ByteReader β
  | 0, _ => throw .stuck
  | n + 1, s => do
    let start ← get
    let t ← turn s
    t.follow (loopFrom turn n) start

/-- A loop. It cannot have more turns than there are places in the text. -/
def loop (turn : σ → ByteReader (Turn σ β)) (s : σ) : ByteReader β := do
  loopFrom turn ((← read).text.utf8ByteSize + 1) s

/-- Reads by a rule. If the rule is under way already, it must have begun further to the front. -/
def enter (r : Rule) (p : ByteReader α) : ByteReader α := do
  let start ← get
  if (← read).calls.all fun call => call.1 != r || decide (call.2 < start) then
    withReader (fun site => { site with calls := (r, start) :: site.calls }) p
  else throw .stuck

/-! ## §C  The small readers -/

/-- The next character. -/
def peekChar : ByteReader (Option Char) := do pure (← front).head?

/-- The character behind so many others. -/
def peekNth (n : Nat) : ByteReader (Option Char) := do pure (← front)[n]?

/-- Whether a word is next. -/
def peekStr (word : List Char) : ByteReader Bool := do pure (word.isPrefixOf (← front))

/-- Takes a character if it is next. -/
def consumeChar (c : Char) : ByteReader Bool := do
  if (← peekChar) == some c then
    advance c.utf8Size
    pure true
  else pure false

/-- Takes a word if it is next. -/
def consumeStr (word : List Char) : ByteReader Bool := do
  if ← peekStr word then
    advance (Input.bytes word)
    pure true
  else pure false

/-- Skips characters for which `p` holds, by as many bytes as `width` says. -/
def skipWhile (p : Char → Bool) (width : Char → Nat) : ByteReader Unit :=
  loop (fun _ => do
    match ← peekChar with
    | none => pure (.done ())
    | some c =>
      if p c then
        advance (width c)
        pure (.again ())
      else pure (.done ())) ()

/-- Skips blanks. -/
def skipBlanks : ByteReader Unit := skipWhile Text.isBlank Char.utf8Size

/-- Skips digits, a byte each. -/
def skipDigits : ByteReader Unit := skipWhile Char.isDigit fun _ => 1

/-- A turn of the loop that runs through characters behind the cursor as long as a name goes on with them. -/
def nameTurn : List Char → ByteReader (Turn (List Char) Unit)
  | [] => pure (.done ())
  | c :: cs => do
    if isNameChar c then
      advance c.utf8Size
      pure (.again cs)
    else pure (.done ())

/-- A name, and nothing if none is next. -/
def ncName : ByteReader (List Char) := do
  let start ← get
  match ← front with
  | [] => pure []
  | c :: cs =>
    if isNameStart c then
      advance c.utf8Size
      loop nameTurn cs
      slice start (← get)
    else pure []

/-- Takes a name. -/
def identifier : ByteReader String := do
  let (name, behind) ← ahead ncName
  if name.isEmpty then fail .nameExpected
  else
    moveTo behind
    pure (String.ofList name)

/-- Skips digits, a point and the digits behind it. -/
def skipNumber : ByteReader Unit := do
  skipDigits
  if ← consumeChar '.' then skipDigits

/-- Takes a number: digits with at most one point. -/
def numberLiteral : ByteReader String := do
  let start ← get
  skipNumber
  let cs ← slice start (← get)
  if cs.isEmpty || cs == ['.'] then fail .numberExpected else pure (String.ofList cs)

/-- Takes a text between two quotes of one kind. -/
def quotedString : ByteReader String := do
  match ← peekChar with
  | none => fail .quoteExpected
  | some q =>
    if q != '\'' && q != '"' then fail .quoteExpected
    else
      let start := (← get) + 1
      let cs ← sliceFrom start
      let body := cs.takeWhile (· != q)
      if body.length == cs.length then fail .unterminated
      else
        moveTo (start + Input.bytes body + 1)
        pure (String.ofList (← slice start (start + Input.bytes body)))

/-- Takes the character `c` behind blanks if it is next. -/
def mark (c : Char) : ByteReader Bool := do
  skipBlanks
  consumeChar c

/-- Takes the character `c`. -/
def expect (c : Char) : ByteReader Unit := do
  if ← consumeChar c then pure () else fail (.expected c)

/-- Takes a word behind blanks, unless a name goes on behind it. -/
def keyword (word : String) : ByteReader Bool := do
  skipBlanks
  if ← peekStr word.toList then
    let behind ← sliceFrom ((← get) + Input.bytes word.toList)
    if behind.head?.any isNameChar then pure false
    else
      advance (Input.bytes word.toList)
      pure true
  else pure false

end ByteReader

/-! ## §D  Inputs that stand in a text -/

namespace Input

variable {i j : Input} {s : String} {cs : List Char}

theorem bytes_eq (cs : List Char) : bytes cs = (String.ofList cs).utf8ByteSize := by
  have hfold : ∀ n, cs.foldl (fun n c => n + c.utf8Size) n = n + (String.ofList cs).utf8ByteSize := by
    induction cs with
    | nil => exact fun n => rfl
    | cons c cs ih =>
      intro n
      rw [List.foldl_cons, ih, String.ofList_cons, String.utf8ByteSize_append, String.utf8ByteSize_singleton,
        Nat.add_assoc]
  rw [bytes, hfold, Nat.zero_add]

theorem bytes_append (cs ds : List Char) : bytes (cs ++ ds) = bytes cs + bytes ds := by
  rw [bytes_eq, bytes_eq, bytes_eq, String.ofList_append, String.utf8ByteSize_append]

theorem bytes_singleton (c : Char) : bytes [c] = c.utf8Size := Nat.zero_add _

theorem bytes_cons (c : Char) (cs : List Char) : bytes (c :: cs) = c.utf8Size + bytes cs := by
  rw [← bytes_singleton c, ← bytes_append]
  rfl

theorem length_le_bytes (cs : List Char) : cs.length ≤ bytes cs := by
  induction cs with
  | nil => exact Nat.zero_le _
  | cons c cs ih =>
    have := c.utf8Size_pos
    rw [bytes_cons, List.length_cons]
    omega

/-- **IsIn** says that an input is what a text goes on with behind some of its characters. -/
def IsIn (i : Input) (s : String) : Prop := ∃ before, s.toList = before ++ i.rest ∧ i.offset = bytes before

theorem isIn_ofString (s : String) : (ofString s).IsIn s := ⟨[], rfl, rfl⟩

theorem IsIn.drop (h : i.IsIn s) (n : Nat) : (i.drop n).IsIn s := by
  obtain ⟨before, hsplit, hoffset⟩ := h
  refine ⟨before ++ i.rest.take n, ?_, ?_⟩
  · rw [List.append_assoc, Input.drop, List.take_append_drop, hsplit]
  · rw [bytes_append, ← hoffset]
    rfl

theorem drop_zero (i : Input) : i.drop 0 = i := rfl

theorem drop_drop (i : Input) (m n : Nat) : (i.drop m).drop n = i.drop (m + n) := by
  simp only [Input.drop, List.drop_drop, List.take_add, bytes_append, Nat.add_assoc]

/-- The input behind its first character. -/
theorem drop_one {c : Char} (h : i.rest = c :: cs) :
    (i.drop 1).rest = cs ∧ (i.drop 1).offset = i.offset + c.utf8Size := by
  simp only [Input.drop, h, List.drop_succ_cons, List.drop_zero, List.take_succ_cons, List.take_zero, bytes_singleton,
    and_self]

/-- The place behind a word that is next. -/
theorem offset_drop_word {word : List Char} (h : i.startsWith word = true) :
    (i.drop word.length).offset = i.offset + bytes word := by
  obtain ⟨behind, hrest⟩ := List.isPrefixOf_iff_prefix.mp h
  rw [drop, ← hrest, List.take_left]

theorem offset_drop_one {c : Char} (h : i.peek? = some c) (hc : c.utf8Size = 1) : (i.drop 1).offset = i.offset + 1 := by
  obtain ⟨cs, hrest⟩ := List.head?_eq_some_iff.mp h
  rw [(drop_one hrest).2, hc]

theorem drop_front_cons {p : Char → Bool} {c : Char} (h : i.rest = c :: cs) (hc : p c = true) :
    i.drop (i.front p).length = (i.drop 1).drop ((i.drop 1).front p).length := by
  rw [drop_drop, Nat.add_comm, front, front, (drop_one h).1, h, List.takeWhile_cons, if_pos hc, List.length_cons]

/-- The name at the front is in front of what is left behind it. -/
theorem rest_name (i : Input) : i.rest = i.name ++ (i.drop i.name.length).rest := by
  refine (List.prefix_iff_eq_append.mp ?_).symm
  unfold name
  split
  · exact List.nil_prefix
  · next c cs hrest =>
    split
    · rw [hrest]
      exact List.cons_prefix_cons.mpr ⟨rfl, List.takeWhile_prefix _⟩
    · exact List.nil_prefix

/-- Behind the characters other than `q`, if they are not all, `q` is next. -/
theorem exists_rest_eq_cons {q : Char} (h : (i.front (· != q)).length ≠ i.rest.length) :
    ∃ ds, (i.drop (i.front (· != q)).length).rest = q :: ds := by
  rw [rest_drop_front]
  have hfirst := List.head?_dropWhile_not (· != q) i.rest
  cases hbehind : i.rest.dropWhile (· != q) with
  | nil =>
    refine absurd ?_ h
    rw [front, ← List.append_nil (i.rest.takeWhile (· != q)), ← hbehind, List.takeWhile_append_dropWhile]
  | cons d ds =>
    rw [hbehind, List.head?_cons] at hfirst
    obtain rfl : d = q := by simpa using hfirst
    exact ⟨ds, rfl⟩

/-- A text between quotes of one byte, and the places in front of the closing one and behind it. -/
theorem places_of_quoted {q : Char} {body : List Char} (hrest : i.rest = q :: cs) (hone : q.utf8Size = 1)
    (hbody : cs.takeWhile (· != q) = body) (hlength : body.length ≠ cs.length) :
    (i.drop 1).rest = body ++ ((i.drop 1).drop body.length).rest ∧
      ((i.drop 1).drop body.length).offset = i.offset + 1 + bytes body ∧
      (i.drop (body.length + 2)).offset = i.offset + 1 + bytes body + 1 := by
  obtain ⟨hbehind, hoffset⟩ := drop_one hrest
  have hfront : (i.drop 1).front (· != q) = body := by rw [front, hbehind, hbody]
  have hsplit : (i.drop 1).rest = body ++ ((i.drop 1).drop body.length).rest := by
    rw [← hfront, rest_drop_front, front, List.takeWhile_append_dropWhile]
  have hbegin : ((i.drop 1).drop body.length).offset = i.offset + 1 + bytes body := by
    rw [offset_drop_word (List.isPrefixOf_iff_prefix.mpr ⟨_, hsplit.symm⟩), hoffset, hone]
  obtain ⟨ds, hclose⟩ : ∃ ds, ((i.drop 1).drop body.length).rest = q :: ds := by
    rw [← hfront]
    refine exists_rest_eq_cons ?_
    rwa [hfront, hbehind]
  have hend := (drop_one hclose).2
  rw [hone, hbegin, drop_drop, drop_drop, Nat.add_comm 1] at hend
  exact ⟨hsplit, hbegin, hend⟩

theorem IsIn.offset_add (h : i.IsIn s) : i.offset + bytes i.rest = s.utf8ByteSize := by
  obtain ⟨before, hsplit, hoffset⟩ := h
  rw [hoffset, ← bytes_append, ← hsplit, bytes_eq, String.ofList_toList]

/-- **An input stands at a boundary of the text**, and what is left of it is the text behind that boundary. -/
theorem IsIn.exists_isValid (h : i.IsIn s) : ∃ hvalid : (String.Pos.Raw.mk i.offset).IsValid s,
    (s.sliceFrom (s.pos ⟨i.offset⟩ hvalid)).copy.toList = i.rest := by
  obtain ⟨before, hsplit, hoffset⟩ := h
  have happend : s = String.ofList before ++ String.ofList i.rest := by
    rw [← String.ofList_append, ← hsplit, String.ofList_toList]
  have hplace : String.Pos.Raw.mk i.offset = (String.ofList before).rawEndPos := by
    rw [hoffset, bytes_eq]
    rfl
  have hvalid : (String.Pos.Raw.mk i.offset).IsValid s :=
    String.Pos.Raw.isValid_iff_exists_append.mpr ⟨_, _, happend, hplace⟩
  have hsplits : (s.pos ⟨i.offset⟩ hvalid).Splits (String.ofList before) (String.ofList i.rest) := ⟨happend, hplace⟩
  refine ⟨hvalid, ?_⟩
  rw [hsplits.copy_sliceFrom_eq, String.toList_ofList]

/-- Of two inputs in one text, the one with less left is further on, by what is between them. -/
theorem IsIn.exists_between (hi : i.IsIn s) (hj : j.IsIn s) (h : j.rest.length ≤ i.rest.length) :
    ∃ between, i.rest = between ++ j.rest ∧ j.offset = i.offset + bytes between := by
  obtain ⟨before, hsplit, hoffset⟩ := hi
  obtain ⟨before', hsplit', hoffset'⟩ := hj
  rcases List.append_eq_append_iff.mp (hsplit.symm.trans hsplit') with
    ⟨between, hbefore, hrest⟩ | ⟨between, hbefore, hrest⟩
  · exact ⟨between, hrest, by rw [hoffset', hbefore, bytes_append, hoffset]⟩
  · rw [hrest, List.length_append] at h
    obtain rfl : between = [] := List.length_eq_zero_iff.mp (by omega)
    rw [List.append_nil] at hbefore
    exact ⟨[], by rw [hrest]; rfl, by rw [hoffset', hoffset, hbefore]; rfl⟩

theorem IsIn.offset_le (hi : i.IsIn s) (hj : j.IsIn s) (h : j.rest.length ≤ i.rest.length) : i.offset ≤ j.offset := by
  obtain ⟨between, -, hoffset⟩ := hi.exists_between hj h
  omega

theorem IsIn.offset_lt (hi : i.IsIn s) (hj : j.IsIn s) (h : j.rest.length < i.rest.length) : i.offset < j.offset := by
  obtain ⟨between, hrest, hoffset⟩ := hi.exists_between hj (Nat.le_of_lt h)
  have := length_le_bytes between
  rw [hrest, List.length_append] at h
  omega

theorem IsIn.bytes_lt (hi : i.IsIn s) (hj : j.IsIn s) (h : j.rest.length < i.rest.length) :
    bytes j.rest < bytes i.rest := by
  have hoffset := hi.offset_lt hj h
  have hlength := hi.offset_add
  rw [← hj.offset_add] at hlength
  omega

end Input

/-- **IsIn** says that an error shows at a place in a text, and is not about depth. -/
def ParseError.IsIn (e : ParseError) (s : String) : Prop :=
  (∃ i : Input, i.IsIn s ∧ e.position = i.offset) ∧ e.fault ≠ .tooDeep

/-! ## §E  Slices and moves that succeed -/

namespace ByteReader

variable {α β σ : Type} {site : Site} {i j k : Input} {p : ByteReader α} {f : α → ByteReader β} {a : α} {b : β}

/-- A run of a reader, from a cursor at a site. -/
def runAt (p : ByteReader α) (site : Site) (n : Nat) : Except Stop (α × Nat) := (p.run site).run n

/-- **Runs** says that a reader gives `a` from where `i` stands and ends where `j` stands. -/
def Runs (site : Site) (p : ByteReader α) (i : Input) (a : α) (j : Input) : Prop :=
  p.runAt site i.offset = .ok (a, j.offset)

namespace Runs

theorem pure (a : α) (i : Input) : Runs site (Pure.pure a) i a i := rfl

theorem runAt_bind (h : Runs site p i a j) : (p >>= f).runAt site i.offset = (f a).runAt site j.offset := by
  unfold Runs runAt at *
  rw [ReaderT.run_bind, StateT.run_bind, h]
  rfl

theorem bind (h : Runs site p i a j) (hf : Runs site (f a) j b k) : Runs site (p >>= f) i b k := h.runAt_bind.trans hf

theorem get (i : Input) : Runs site get i i.offset i := rfl

theorem read (i : Input) : Runs site read i site i := rfl

theorem ahead (h : Runs site p i a j) : Runs site (ByteReader.ahead p) i (a, j.offset) i :=
  (get i).bind (h.bind ((get j).bind rfl))

theorem ite {c : Prop} [Decidable c] {q : ByteReader α} {b : α} (ht : c → Runs site p i a j)
    (he : ¬c → Runs site q i b j) : Runs site (if c then p else q) i (if c then a else b) j := by
  by_cases h : c
  · rw [if_pos h, if_pos h]
    exact ht h
  · rw [if_neg h, if_neg h]
    exact he h

end Runs

/-- A slice from a place in the text on is what is left there, and no check fails. -/
theorem runs_sliceFrom (hi : i.IsIn site.text) (k : Input) : Runs site (sliceFrom i.offset) k i.rest k := by
  obtain ⟨hvalid, hrest⟩ := hi.exists_isValid
  refine (Runs.read k).bind ?_
  rw [dif_pos hvalid, hrest]
  exact Runs.pure _ _

theorem runs_slice (hi : i.IsIn site.text) (hj : j.IsIn site.text) {cs : List Char} (h : i.rest = cs ++ j.rest)
    (k : Input) : Runs site (slice i.offset j.offset) k cs k := by
  have htake : i.rest.take (i.rest.length - j.rest.length) = cs := by
    rw [h, List.length_append, Nat.add_sub_cancel, List.take_left]
  have hlength : j.rest.length ≤ i.rest.length := by
    rw [h, List.length_append]
    exact Nat.le_add_left _ _
  refine (runs_sliceFrom hi k).bind ((runs_sliceFrom hj k).bind ?_)
  rw [if_pos (hi.offset_le hj hlength), htake]
  exact Runs.pure _ _

theorem runs_moveTo (hj : j.IsIn site.text) (i : Input) : Runs site (moveTo j.offset) i () j :=
  (runs_sliceFrom hj i).bind rfl

theorem runs_advance (hj : j.IsIn site.text) {n : Nat} (h : i.offset + n = j.offset) :
    Runs site (advance n) i () j := by
  refine (Runs.get i).bind ?_
  rw [h]
  exact runs_moveTo hj i

theorem runs_front (hi : i.IsIn site.text) : Runs site front i i.rest i := (Runs.get i).bind (runs_sliceFrom hi i)

theorem runs_peekChar (hi : i.IsIn site.text) : Runs site peekChar i i.peek? i := (runs_front hi).bind (Runs.pure _ _)

theorem runs_peekNth (hi : i.IsIn site.text) (n : Nat) : Runs site (peekNth n) i i.rest[n]? i :=
  (runs_front hi).bind (Runs.pure _ _)

theorem runs_peekStr (hi : i.IsIn site.text) (word : List Char) : Runs site (peekStr word) i (i.startsWith word) i :=
  (runs_front hi).bind (Runs.pure _ _)

/-- A move over a character of one byte that is next. -/
theorem runs_advance_one (hi : i.IsIn site.text) {c : Char} (h : i.peek? = some c) (hc : c.utf8Size = 1) :
    Runs site (advance 1) i () (i.drop 1) :=
  runs_advance (hi.drop 1) (Input.offset_drop_one h hc).symm

/-- A move over a word that is next. -/
theorem runs_advance_word (hi : i.IsIn site.text) {word : List Char} (h : i.startsWith word = true) :
    Runs site (advance (Input.bytes word)) i () (i.drop word.length) :=
  runs_advance (hi.drop _) (Input.offset_drop_word h).symm

theorem runs_consumeStr_true (hi : i.IsIn site.text) {word : List Char} (h : i.skip? word = some j) :
    Runs site (consumeStr word) i true j := by
  obtain ⟨hstarts, rfl⟩ := Input.of_skip? h
  refine (runs_peekStr hi word).bind ?_
  rw [if_pos hstarts]
  exact (runs_advance_word hi hstarts).bind (Runs.pure _ _)

theorem runs_consumeStr_false (hi : i.IsIn site.text) {word : List Char} (h : i.skip? word = none) :
    Runs site (consumeStr word) i false i := by
  refine (runs_peekStr hi word).bind ?_
  rw [Input.startsWith_of_skip?_eq_none h]
  exact Runs.pure _ _

theorem startsWith_singleton (i : Input) (c : Char) : i.startsWith [c] = (i.peek? == some c) := by
  rw [Input.startsWith, Input.peek?]
  cases i.rest with
  | nil => rfl
  | cons d ds =>
    show (c == d && true) = (some d == some c)
    rw [Bool.and_true, BEq.comm]
    rfl

/-- To take a character is to take the word of that character. -/
theorem runAt_consumeChar (hi : i.IsIn site.text) (c : Char) :
    (consumeChar c).runAt site i.offset = (consumeStr [c]).runAt site i.offset := by
  cases hskip : i.skip? [c] with
  | some j =>
    obtain ⟨hstarts, rfl⟩ := Input.of_skip? hskip
    have hadvance := runs_advance_word hi hstarts
    rw [Input.bytes_singleton] at hadvance
    refine Eq.trans (b := .ok (true, (i.drop 1).offset)) ?_ (runs_consumeStr_true hi hskip).symm
    refine (runs_peekChar hi).bind ?_
    rw [← startsWith_singleton, if_pos hstarts]
    exact hadvance.bind (Runs.pure _ _)
  | none =>
    refine Eq.trans (b := .ok (false, i.offset)) ?_ (runs_consumeStr_false hi hskip).symm
    refine (runs_peekChar hi).bind ?_
    rw [← startsWith_singleton, Input.startsWith_of_skip?_eq_none hskip]
    exact Runs.pure _ _

/-! ## §F  Loops over characters -/

theorem Runs.done {turn : σ → ByteReader (Turn σ β)} {s : σ} {n : Nat} (h : Runs site (turn s) i (.done b) j)
    (hn : 0 < n) : Runs site (loopFrom turn n s) i b j := by
  obtain ⟨n, rfl⟩ : ∃ m, n = m + 1 := ⟨n - 1, by omega⟩
  exact (Runs.get i).bind (h.bind (Runs.pure _ _))

theorem Runs.again {turn : σ → ByteReader (Turn σ β)} {s t : σ} {n : Nat} (h : Runs site (turn s) i (.again t) j)
    (hmoved : i.offset < j.offset) (hn : 0 < n) (hgo : Runs site (loopFrom turn (n - 1) t) j b k) :
    Runs site (loopFrom turn n s) i b k := by
  obtain ⟨n, rfl⟩ : ∃ m, n = m + 1 := ⟨n - 1, by omega⟩
  refine (Runs.get i).bind (h.bind ((Runs.get j).bind ?_))
  rw [if_pos hmoved]
  exact hgo

/-- A loop has more turns at its disposal than there are bytes left. -/
theorem Runs.loop {turn : σ → ByteReader (Turn σ β)} {s : σ} (hi : i.IsIn site.text)
    (h : ∀ n, Input.bytes i.rest < n → Runs site (loopFrom turn n s) i b j) : Runs site (loop turn s) i b j := by
  refine (Runs.read i).bind (h _ ?_)
  have := hi.offset_add
  omega

/-- A loop over the characters at the front for which `p` holds, one a turn, where `state` is what the loop keeps of
the characters that are left. -/
theorem Runs.overFront {turn : σ → ByteReader (Turn σ Unit)} {p : Char → Bool} (state : List Char → σ)
    (hstop : ∀ i : Input, i.IsIn site.text → (∀ c ∈ i.rest.head?, p c = false) →
      Runs site (turn (state i.rest)) i (.done ()) i)
    (hmore : ∀ (i : Input) c cs, i.IsIn site.text → i.rest = c :: cs → p c = true →
      Runs site (turn (state (c :: cs))) i (.again (state cs)) (i.drop 1))
    (hi : i.IsIn site.text) : Runs site (ByteReader.loop turn (state i.rest)) i () (i.drop (i.front p).length) := by
  refine Runs.loop hi fun n hn => ?_
  induction hrest : i.rest generalizing i n with
  | nil =>
    have hdone := hstop i hi (by simp [hrest])
    rw [hrest] at hdone
    rw [Input.front, hrest, List.takeWhile_nil]
    exact Runs.done hdone (by omega)
  | cons c cs ih =>
    cases hc : p c with
    | false =>
      have hdone := hstop i hi (by simp [hrest, hc])
      rw [hrest] at hdone
      rw [Input.front, hrest, List.takeWhile_cons_of_neg (by simp [hc])]
      exact Runs.done hdone (by omega)
    | true =>
      obtain ⟨hbehind, hoffset⟩ := Input.drop_one hrest
      have hsize := c.utf8Size_pos
      rw [hrest, Input.bytes_cons] at hn
      rw [Input.drop_front_cons hrest hc]
      exact Runs.again (hmore i c cs hi hrest hc) (by omega) (by omega)
        (ih (hi.drop 1) (n - 1) (by rw [hbehind]; omega) hbehind)

theorem runs_skipWhile {p : Char → Bool} {width : Char → Nat} (hwidth : ∀ c, p c = true → width c = c.utf8Size)
    (hi : i.IsIn site.text) : Runs site (skipWhile p width) i () (i.drop (i.front p).length) := by
  refine Runs.overFront (fun _ => ()) (fun j hj hstop => ?_) (fun j c cs hj hrest hc => ?_) hi
  · refine (runs_peekChar hj).bind ?_
    cases hpeek : j.peek? with
    | none => exact Runs.pure _ _
    | some c =>
      simp only [hstop c hpeek, Bool.false_eq_true, if_false]
      exact Runs.pure _ _
  · refine (runs_peekChar hj).bind ?_
    simp only [Input.peek?, hrest, List.head?_cons, hc, if_true, hwidth c hc]
    exact (runs_advance (hj.drop 1) (Input.drop_one hrest).2.symm).bind (Runs.pure _ _)

theorem runs_skipBlanks (hi : i.IsIn site.text) : Runs site skipBlanks i () i.skipBlanks :=
  runs_skipWhile (fun _ _ => rfl) hi

theorem runs_skipDigits (hi : i.IsIn site.text) : Runs site skipDigits i () i.skipDigits := by
  refine runs_skipWhile (fun c hc => (Char.utf8Size_eq_one_iff.mpr ?_).symm) hi
  have := (isDigit_iff.mp hc).2
  rw [UInt32.le_iff_toNat_le]
  exact Nat.le_trans this (by decide)

theorem runs_nameTurns (hi : i.IsIn site.text) :
    Runs site (loop nameTurn i.rest) i () (i.drop (i.front isNameChar).length) := by
  refine Runs.overFront id (fun j hj hstop => ?_) (fun j c cs hj hrest hc => ?_) hi
  · cases hrest : j.rest with
    | nil => exact Runs.pure _ _
    | cons c cs =>
      have hc := hstop c (by rw [hrest, List.head?_cons]; exact rfl)
      simp only [id, nameTurn, hc, Bool.false_eq_true, if_false]
      exact Runs.pure _ _
  · simp only [id, nameTurn, hc, if_true]
    exact (runs_advance (hj.drop 1) (Input.drop_one hrest).2.symm).bind (Runs.pure _ _)

/-- The name at the front, with the cursor behind it. -/
theorem runs_ncName (hi : i.IsIn site.text) : Runs site ncName i i.name (i.drop i.name.length) := by
  refine (Runs.get i).bind ((runs_front hi).bind ?_)
  cases hrest : i.rest with
  | nil =>
    have hname : i.name = [] := by rw [Input.name, hrest]
    rw [hname]
    exact Runs.pure _ _
  | cons c cs =>
    cases hc : isNameStart c with
    | false =>
      have hname : i.name = [] := by rw [Input.name, hrest]; simp [hc]
      rw [hname]
      simp only [hc, Bool.false_eq_true, if_false]
      exact Runs.pure _ _
    | true =>
      obtain ⟨hbehind, hoffset⟩ := Input.drop_one hrest
      have hname : i.name = c :: (i.drop 1).front isNameChar := by
        rw [Input.name, hrest, Input.front, hbehind]
        simp [hc]
      have hend : i.drop i.name.length = (i.drop 1).drop ((i.drop 1).front isNameChar).length := by
        rw [Input.drop_drop, hname, List.length_cons, Nat.add_comm]
      simp only [hc, if_true]
      refine (runs_advance (hi.drop 1) hoffset.symm).bind ?_
      rw [← hbehind]
      refine (runs_nameTurns (hi.drop 1)).bind ?_
      rw [← hend]
      exact (Runs.get _).bind (runs_slice hi (hi.drop _) i.rest_name _)

/-- The word that is asked for, and the place behind it; or the place behind the blanks. -/
theorem runs_keyword (hi : i.IsIn site.text) (word : String) :
    Runs site (keyword word) i (i.takeKeyword word).1 (i.takeKeyword word).2 ∧
      (i.takeKeyword word).2.IsIn site.text := by
  have hj : i.skipBlanks.IsIn site.text := hi.drop _
  cases hskip : i.skipBlanks.skip? word.toList with
  | none =>
    simp only [Input.takeKeyword, hskip]
    refine ⟨(runs_skipBlanks hi).bind ((runs_peekStr hj _).bind ?_), hj⟩
    rw [Input.startsWith_of_skip?_eq_none hskip]
    exact Runs.pure _ _
  | some l =>
    obtain ⟨hstarts, rfl⟩ := Input.of_skip? hskip
    have hl := hj.drop word.toList.length
    have hbehind : Runs site (sliceFrom (i.skipBlanks.offset + Input.bytes word.toList)) i.skipBlanks
        (i.skipBlanks.drop word.toList.length).rest i.skipBlanks := by
      rw [← Input.offset_drop_word hstarts]
      exact runs_sliceFrom hl _
    simp only [Input.takeKeyword, hskip]
    cases hmore : (i.skipBlanks.drop word.toList.length).peek?.any isNameChar with
    | true =>
      refine ⟨(runs_skipBlanks hi).bind ((runs_peekStr hj _).bind ?_), hj⟩
      rw [hstarts, if_pos rfl]
      refine (Runs.get _).bind (hbehind.bind ?_)
      rw [← Input.peek?, hmore]
      exact Runs.pure _ _
    | false =>
      refine ⟨(runs_skipBlanks hi).bind ((runs_peekStr hj _).bind ?_), hl⟩
      rw [hstarts, if_pos rfl]
      refine (Runs.get _).bind (hbehind.bind ?_)
      rw [← Input.peek?, hmore]
      exact (runs_advance_word hj hstarts).bind (Runs.pure _ _)

theorem runs_skipNumber (hi : i.IsIn site.text) :
    Runs site skipNumber i () i.skipNumber ∧ i.skipNumber.IsIn site.text := by
  have hj : i.skipDigits.IsIn site.text := hi.drop _
  cases hskip : i.skipDigits.skip? ['.'] with
  | none =>
    have hpoint := (runAt_consumeChar hj '.').trans (runs_consumeStr_false hj hskip)
    simp only [Input.skipNumber, hskip]
    exact ⟨(runs_skipDigits hi).bind (Runs.bind hpoint (Runs.pure _ _)), hj⟩
  | some l =>
    obtain ⟨-, rfl⟩ := Input.of_skip? hskip
    have hpoint := (runAt_consumeChar hj '.').trans (runs_consumeStr_true hj hskip)
    have hl := hj.drop ['.'].length
    simp only [Input.skipNumber, hskip]
    exact ⟨(runs_skipDigits hi).bind (Runs.bind hpoint (runs_skipDigits hl)), hl.drop _⟩

/-! ## §G  Agreement -/

/-- **Agrees** says that from where `i` stands the checked reader `p` ends as `q` does: with the same value and at the
same place, which is in the text and behind at least `k a` characters; or with the same error. No check fails. -/
structure Agrees (site : Site) (k : α → Nat) (p : ByteReader α) (q : Parser α) (i : Input) : Prop where
  ok : ∀ a j, q.run i = .ok (a, j) → Runs site p i a j ∧ j.IsIn site.text ∧ j.rest.length + k a ≤ i.rest.length
  error : ∀ e, q.run i = .error e → p.runAt site i.offset = .error (.invalid e) ∧ e.IsIn site.text

namespace Agrees

variable {k : α → Nat} {m : β → Nat} {q q' : Parser α} {g : α → Parser β} {p' : ByteReader α} {l : Input}

theorem of_ok (hq : q.run i = .ok (a, j)) (hp : Runs site p i a j) (hj : j.IsIn site.text)
    (hlength : j.rest.length + k a ≤ i.rest.length) : Agrees site k p q i where
  ok := by
    intro _ _ h
    cases hq.symm.trans h
    exact ⟨hp, hj, hlength⟩
  error := by
    intro _ h
    cases hq.symm.trans h

theorem of_error {fault : SyntaxFault} (hq : q.run i = .error (l.error fault))
    (hp : p.runAt site i.offset = .error (.invalid (l.error fault))) (hl : l.IsIn site.text)
    (hfault : fault ≠ .tooDeep) : Agrees site k p q i where
  ok := by
    intro _ _ h
    cases hq.symm.trans h
  error := by
    intro _ h
    cases hq.symm.trans h
    exact ⟨hp, ⟨l, hl, rfl⟩, hfault⟩

theorem pure (hi : i.IsIn site.text) (h : k a = 0) : Agrees site k (Pure.pure a) (Pure.pure a) i :=
  of_ok rfl (Runs.pure _ _) hi (by omega)

theorem fail {fault : SyntaxFault} (hi : i.IsIn site.text) (hfault : fault ≠ .tooDeep) :
    Agrees site k (ByteReader.fail fault) (Parser.fail fault) i :=
  of_error rfl rfl hi hfault

theorem mono {k' : α → Nat} (h : Agrees site k p q i) (hk : ∀ a, k' a ≤ k a) : Agrees site k' p q i where
  ok := by
    intro a j hrun
    obtain ⟨hp, hj, hlength⟩ := h.ok a j hrun
    have := hk a
    exact ⟨hp, hj, by omega⟩
  error := h.error

/-- A step of the other reader. -/
theorem run_bind (hq : q.run i = .ok (a, j)) : (q >>= g).run i = (g a).run j := by
  rw [StateT.run_bind, hq]
  rfl

theorem bind (h : Agrees site k p q i) (hf : ∀ a j, j.IsIn site.text → j.rest.length + k a ≤ i.rest.length →
    Agrees site (fun b => m b - k a) (f a) (g a) j) : Agrees site m (p >>= f) (q >>= g) i := by
  cases hrun : q.run i with
  | error e =>
    obtain ⟨hp, he⟩ := h.error e hrun
    have hq : (q >>= g).run i = .error e := by
      rw [StateT.run_bind, hrun]
      rfl
    refine ⟨fun _ _ hok => ?_, fun e' herror => ?_⟩
    · cases hq.symm.trans hok
    · cases hq.symm.trans herror
      refine ⟨?_, he⟩
      unfold runAt at hp ⊢
      rw [ReaderT.run_bind, StateT.run_bind, hp]
      rfl
  | ok r =>
    obtain ⟨a, j⟩ := r
    obtain ⟨hp, hj, hlength⟩ := h.ok a j hrun
    have hq : (q >>= g).run i = (g a).run j := run_bind hrun
    have hbehind := hf a j hj hlength
    refine ⟨fun b l hok => ?_, fun e herror => ?_⟩
    · obtain ⟨hruns, hl, hlength'⟩ := hbehind.ok b l (hq.symm.trans hok)
      exact ⟨hp.bind hruns, hl, by omega⟩
    · obtain ⟨hfails, he⟩ := hbehind.error e (hq.symm.trans herror)
      exact ⟨hp.runAt_bind.trans hfails, he⟩

/-- Readers in a row, of which nothing is said about how many characters they take. -/
theorem andThen (h : Agrees site k p q i) (hf : ∀ a j, j.IsIn site.text → j.rest.length + k a ≤ i.rest.length →
    Agrees site (fun _ => 0) (f a) (g a) j) : Agrees site (fun _ => 0) (p >>= f) (q >>= g) i :=
  h.bind fun a j hj hlength => (hf a j hj hlength).mono fun _ => Nat.le_of_eq (Nat.zero_sub _)

/-- What is taken behind something else. -/
theorem after (h : Agrees site (fun _ => 0) p q i) (hf : ∀ a j, j.IsIn site.text → j.rest.length ≤ i.rest.length →
    Agrees site m (f a) (g a) j) : Agrees site m (p >>= f) (q >>= g) i :=
  h.bind hf

/-- Going on behind a run of the checked reader, where the other reader goes on from another input. -/
theorem behind {q q' : Parser β} (hp : Runs site p i a j) (hlength : j.rest.length ≤ i.rest.length)
    (hq : q'.run i = q.run j) (h : Agrees site m (f a) q j) : Agrees site m (p >>= f) q' i where
  ok := by
    intro b l hok
    obtain ⟨hruns, hl, hlength'⟩ := h.ok b l (hq.symm.trans hok)
    exact ⟨hp.bind hruns, hl, by omega⟩
  error := by
    intro e herror
    obtain ⟨hfails, he⟩ := h.error e (hq.symm.trans herror)
    exact ⟨hp.runAt_bind.trans hfails, he⟩

/-- A step of the other reader at which it stays where it is. -/
theorem unseen {p : ByteReader β} (hq : q.run i = .ok (a, i)) (h : Agrees site m p (g a) i) :
    Agrees site m p (q >>= g) i where
  ok b l hok := h.ok b l ((run_bind hq).symm.trans hok)
  error e herror := h.error e ((run_bind hq).symm.trans herror)

/-- A look at the text, which is no step of the other reader. -/
theorem look {q : Parser β} (hp : Runs site p i a i) (h : Agrees site m (f a) q i) : Agrees site m (p >>= f) q i :=
  behind hp (Nat.le_refl _) rfl h

/-- A move, which the other reader makes by going on with another input. -/
theorem move {p : ByteReader Unit} {f : Unit → ByteReader β} {g : PUnit → Parser β} (hp : Runs site p i () j)
    (hlength : j.rest.length ≤ i.rest.length) (h : Agrees site m (f ()) (g ⟨⟩) j) :
    Agrees site m (p >>= f) (MonadStateOf.set j >>= g) i :=
  behind hp hlength rfl h

theorem get_bind {p : ByteReader β} {g : Input → Parser β} (h : Agrees site m p (g i) i) :
    Agrees site m p (get >>= g) i :=
  ⟨h.ok, h.error⟩

theorem ite {c : Prop} [Decidable c] (ht : c → Agrees site k p q i) (he : ¬c → Agrees site k p' q' i) :
    Agrees site k (if c then p else p') (if c then q else q') i := by
  by_cases h : c
  · rw [if_pos h, if_pos h]
    exact ht h
  · rw [if_neg h, if_neg h]
    exact he h

theorem congr (hp : p.runAt site i.offset = p'.runAt site i.offset) (h : Agrees site k p' q i) :
    Agrees site k p q i where
  ok := by
    intro a j hrun
    obtain ⟨hruns, hj⟩ := h.ok a j hrun
    exact ⟨hp.trans hruns, hj⟩
  error := by
    intro e hrun
    obtain ⟨hfails, he⟩ := h.error e hrun
    exact ⟨hp.trans hfails, he⟩

/-- The last turn of a loop. -/
theorem done {next : σ → ByteReader β} {n : Nat} {q : Parser β} (h : Agrees site m (Pure.pure b) q i) :
    Agrees site m (Pure.pure (.done b) >>= Turn.follow next n) q i := h

/-- A turn that has begun at `i` and ends further on, at `j`. -/
theorem again {next : σ → ByteReader β} {s : σ} {q : Parser β} (hi : i.IsIn site.text) (hj : j.IsIn site.text)
    (hmoved : j.rest.length < i.rest.length) (h : Agrees site m (next s) q j) :
    Agrees site m (Pure.pure (.again s) >>= Turn.follow next i.offset) q j := by
  change Agrees site m (do if i.offset < (← get) then next s else throw .stuck) q j
  refine look (Runs.get j) ?_
  rw [if_pos (hi.offset_lt hj hmoved)]
  exact h

/-- A loop has more turns at its disposal than there are bytes left. -/
theorem loop {turn : σ → ByteReader (Turn σ β)} {s : σ} {q : Parser β} (hi : i.IsIn site.text)
    (h : ∀ n, Input.bytes i.rest < n → Agrees site m (loopFrom turn n s) q i) : Agrees site m (loop turn s) q i := by
  refine look (Runs.read i) (h _ ?_)
  have := hi.offset_add
  omega

theorem bounded {p : ByteReader β} {go : Nat → Parser β} (h : ∀ n, i.rest.length < n → Agrees site m p (go n) i) :
    Agrees site m p (Parser.bounded go) i :=
  get_bind (h _ (Nat.lt_succ_self _))

end Agrees

/-! ## §H  The small readers agree -/

theorem agrees_skipBlanks (hi : i.IsIn site.text) : Agrees site (fun _ => 0) skipBlanks Parser.blanks i :=
  .of_ok rfl (runs_skipBlanks hi) (hi.drop _) i.length_skipBlanks_le

theorem run_accept_of_some {word : List Char} (h : i.skip? word = some j) :
    (Parser.accept word).run i = .ok (true, j) := by
  unfold Parser.accept
  rw [Agrees.run_bind (StateT.run_get i), h]
  rfl

theorem run_accept_of_none {word : List Char} (h : i.skip? word = none) :
    (Parser.accept word).run i = .ok (false, i) := by
  unfold Parser.accept
  rw [Agrees.run_bind (StateT.run_get i), h]
  rfl

theorem agrees_consumeStr (hi : i.IsIn site.text) (word : List Char) :
    Agrees site (fun found => if found then word.length else 0) (consumeStr word) (Parser.accept word) i := by
  cases hskip : i.skip? word with
  | none => exact .of_ok (run_accept_of_none hskip) (runs_consumeStr_false hi hskip) hi (Nat.le_refl _)
  | some j =>
    obtain ⟨-, rfl⟩ := Input.of_skip? hskip
    exact .of_ok (run_accept_of_some hskip) (runs_consumeStr_true hi hskip) (hi.drop _) (Input.length_of_skip? hskip)

theorem agrees_consumeChar (hi : i.IsIn site.text) (c : Char) :
    Agrees site (fun found => if found then 1 else 0) (consumeChar c) (Parser.accept [c]) i :=
  .congr (runAt_consumeChar hi c) (agrees_consumeStr hi [c])

theorem agrees_mark (hi : i.IsIn site.text) (c : Char) :
    Agrees site (fun found => if found then 1 else 0) (mark c) (Parser.mark c) i :=
  (agrees_skipBlanks hi).after fun _ _ hj _ => agrees_consumeChar hj c

theorem agrees_expect (hi : i.IsIn site.text) (c : Char) : Agrees site (fun _ => 1) (expect c) (Parser.expect c) i := by
  have hword : (expect c).runAt site i.offset =
      (do if ← consumeStr [c] then pure () else fail (.expected c) : ByteReader Unit).runAt site i.offset := by
    unfold expect runAt
    rw [ReaderT.run_bind, StateT.run_bind, ReaderT.run_bind, StateT.run_bind]
    exact congrArg (· >>= _) (runAt_consumeChar hi c)
  refine .congr hword (.get_bind ?_)
  unfold Input.expect
  cases hskip : i.skip? [c] with
  | none => exact .of_error rfl (runs_consumeStr_false hi hskip).runAt_bind hi (by rintro ⟨⟩)
  | some j =>
    obtain ⟨-, rfl⟩ := Input.of_skip? hskip
    exact .of_ok rfl ((runs_consumeStr_true hi hskip).bind rfl) (hi.drop _) (Input.length_of_skip? hskip)

theorem agrees_identifier (hi : i.IsIn site.text) : Agrees site (fun _ => 0) identifier Parser.name i := by
  refine .look (runs_ncName hi).ahead (.get_bind ?_)
  unfold Input.takeName
  cases hname : i.name.isEmpty with
  | true =>
    simp only [hname, if_true]
    exact .of_error rfl rfl hi (by rintro ⟨⟩)
  | false =>
    simp only [hname, Bool.false_eq_true, if_false]
    exact .of_ok rfl ((runs_moveTo (hi.drop _) i).bind (Runs.pure _ _)) (hi.drop _) (i.length_drop_le _)

theorem agrees_keyword (hi : i.IsIn site.text) (word : String) :
    Agrees site (fun found => if found then word.toList.length else 0) (keyword word) (Parser.keyword word) i := by
  have hruns := runs_keyword hi word
  exact .of_ok rfl hruns.1 hruns.2 (i.length_takeKeyword word)

theorem agrees_numberLiteral (hi : i.IsIn site.text) : Agrees site (fun _ => 0) numberLiteral Parser.number i := by
  obtain ⟨cs, -, hrest⟩ := Parser.exists_skipNumber i
  have htake : i.rest.take (i.rest.length - i.skipNumber.rest.length) = cs := by
    conv => lhs; rw [hrest]
    rw [List.length_append, Nat.add_sub_cancel, List.take_left]
  obtain ⟨hskip, hj⟩ := runs_skipNumber hi
  refine .look (Runs.get i) (.get_bind ?_)
  cases hlone : cs.isEmpty || cs == ['.'] with
  | true =>
    have hnumber : i.takeNumber = (.error (i.skipNumber.error .numberExpected), i.skipNumber) := by
      simp only [Input.takeNumber, htake, hlone, if_true]
    rw [hnumber]
    refine .of_error rfl ?_ hj (by decide)
    rw [hskip.runAt_bind, (Runs.get _).runAt_bind, (runs_slice hi hj hrest _).runAt_bind, hlone]
    rfl
  | false =>
    have hnumber : i.takeNumber = (.ok (String.ofList cs), i.skipNumber) := by
      simp only [Input.takeNumber, htake, hlone, Bool.false_eq_true, if_false]
    rw [hnumber]
    refine .of_ok rfl (hskip.bind ((Runs.get _).bind ((runs_slice hi hj hrest _).bind ?_))) hj i.skipNumber_length_le
    rw [hlone]
    exact Runs.pure _ _

/-- A quote is one byte, so the text begins one byte on. What is searched is what stands there. -/
theorem agrees_quotedString (hi : i.IsIn site.text) : Agrees site (fun _ => 0) quotedString Parser.quoted i := by
  refine .look (runs_peekChar hi) (.get_bind ?_)
  cases hrest : i.rest with
  | nil =>
    simp only [Input.takeQuoted, Input.peek?, hrest, List.head?_nil]
    exact .of_error rfl rfl hi (by decide)
  | cons q cs =>
    simp only [Input.takeQuoted, Input.peek?, hrest, List.head?_cons]
    by_cases hquote : (q != '\'' && q != '"') = true
    · simp only [hquote, if_true]
      exact .of_error rfl rfl hi (by decide)
    simp only [hquote, Bool.false_eq_true, if_false]
    have hone : q.utf8Size = 1 := by
      simp only [Bool.and_eq_true, bne_iff_ne, ne_eq, not_and, Decidable.not_not] at hquote
      by_cases hq : q = '\''
      · rw [hq]; decide
      · rw [hquote hq]; decide
    have hj := hi.drop 1
    obtain ⟨hbehind, hoffset⟩ := Input.drop_one hrest
    rw [hone] at hoffset
    have hsearch : Runs site (sliceFrom (i.offset + 1)) i cs i := by
      rw [← hoffset, ← hbehind]
      exact runs_sliceFrom hj i
    refine .look (Runs.get i) (.look hsearch ?_)
    obtain ⟨body, hbody⟩ : ∃ body, cs.takeWhile (· != q) = body := ⟨_, rfl⟩
    rw [hbody]
    -- A body that is all there is has no closing quote behind it.
    cases hlength : body.length == cs.length with
    | true =>
      simp only [if_true]
      exact .of_error rfl rfl hi (by decide)
    | false =>
      simp only [Bool.false_eq_true, if_false]
      obtain ⟨hsplit, hbegin, hend⟩ := Input.places_of_quoted hrest hone hbody (beq_eq_false_iff_ne.mp hlength)
      have hmove : Runs site (moveTo (i.offset + 1 + Input.bytes body + 1)) i () (i.drop (body.length + 2)) := by
        rw [← hend]
        exact runs_moveTo (hi.drop _) i
      have hslice := runs_slice hj (hj.drop _) hsplit (i.drop (body.length + 2))
      rw [hbegin, hoffset] at hslice
      exact .of_ok rfl (hmove.bind (hslice.bind (Runs.pure _ _))) (hi.drop _) (i.length_drop_le _)

end ByteReader

end NodePath
