import Mathlib.Data.List.TakeWhile
import MapScript.Instruction.Opcode
import MapScript.Layout.Print
import MapScript.Proofs.DataType.Text
import MapScript.Proofs.Outcome
import MapScript.Proofs.Text.Hex

/-!
# Words of printed lines

Names are words: letters, digits and underscores. Where all names are words, the lines of a script consist of few more
characters (`CodePoint.isInLine`): marks of numbers, operators and lists, and the spaces between its words, but no braces
and no line feeds.

The first word of an expression has neither spaces nor the characters of operators in it (`StartsPlain`), so that it is
told from an operator that stands in its place.
-/

namespace MapScript

/-! ### Classes of code points -/

namespace CodePoint

/-- Letters, digits and underscores, and above U+007F whatever is not blank, the letters and digits of all scripts among
it. -/
def isWord : CodePoint → Bool
  | char c => c.isAlphanum || c = '_' || (128 ≤ c.toNat && !isBlank (char c))
  | surrogate _ => false

/-- What names and numbers consist of, with the marks that stand right behind a name or in front of an expression. -/
def isPlain (c : CodePoint) : Bool := c.isWord || c ∈ ['.', '-', '+', ':', '!', '('].map char

/-- What a line consists of, apart from its braces. -/
def isInLine (c : CodePoint) : Bool :=
  c.isPlain || c ∈ [' ', ')', ',', '&', '=', '<', '>', '*', '/', '%'].map char

/-- What lines are indented by. -/
def isIndent (c : CodePoint) : Bool := c = char ' ' || c = char '\t'

theorem isPlain_of_isWord {c : CodePoint} (h : c.isWord = true) : c.isPlain = true := by
  rw [isPlain, h, Bool.true_or]

theorem isInLine_of_isPlain {c : CodePoint} (h : c.isPlain = true) : c.isInLine = true := by
  rw [isInLine, h, Bool.true_or]

theorem not_isIndent_of_isPlain {c : CodePoint} (h : c.isPlain = true) : c.isIndent = false := by
  rw [Bool.eq_false_iff]
  intro hc
  simp only [isIndent, Bool.or_eq_true, decide_eq_true_eq] at hc
  rcases hc with rfl | rfl <;> exact absurd h (by decide)

end CodePoint

namespace Text

/-- All code points of the text are of a class. -/
def All (p : CodePoint → Bool) (t : Text) : Prop := ∀ c ∈ t.points, p c = true

instance (p : CodePoint → Bool) (t : Text) : Decidable (t.All p) := inferInstanceAs (Decidable (∀ c ∈ t.points, p c = true))

variable {p q : CodePoint → Bool} {t u : Text}

theorem append_assoc (t u v : Text) : t ++ u ++ v = t ++ (u ++ v) := by
  ext1
  simp

theorem All.append (ht : t.All p) (hu : u.All p) : (t ++ u).All p := List.forall_mem_append.2 ⟨ht, hu⟩

theorem All.imp (h : ∀ {c}, p c = true → q c = true) (ht : t.All p) : t.All q := fun c hc => h (ht c hc)

theorem All.notMem (ht : t.All p) {c : CodePoint} (hc : p c = false) : c ∉ t.points := by
  intro hmem
  rw [ht c hmem] at hc
  cases hc

theorem all_ofChars {cs : List Char} (h : ∀ c ∈ cs, p (.char c) = true) : (ofChars cs).All p := by
  intro c hc
  obtain ⟨d, hd, rfl⟩ := List.mem_map.1 hc
  exact h d hd

theorem all_intercalate (hseparator : u.All p) {ts : List Text} (h : ∀ t ∈ ts, t.All p) : (intercalate u ts).All p := by
  induction ts with
  | nil => exact nofun
  | cons t rest ih =>
    obtain ⟨ht, hrest⟩ := List.forall_mem_cons.1 h
    cases rest with
    | nil => rwa [intercalate, List.map_singleton, List.intercalate_singleton]
    | cons t' rest =>
      have hcons : intercalate u (t :: t' :: rest) = t ++ u ++ intercalate u (t' :: rest) := by
        ext1
        simp [intercalate, List.intercalate_cons_cons]
      rw [hcons]
      exact (ht.append hseparator).append (ih hrest)

end Text

/-- A text of letters, digits and underscores. -/
structure IsWord (t : Text) : Prop where
  ne_nil : t.points ≠ []
  all : t.All CodePoint.isWord

theorem IsWord.isPlain {t : Text} (h : IsWord t) : t.All CodePoint.isPlain := h.all.imp CodePoint.isPlain_of_isWord

/-! ### Numbers and types -/

theorem isWord_of_isDigit {c : Char} (h : c.isDigit = true) : (CodePoint.char c).isWord = true := by
  simp [CodePoint.isWord, Char.isAlphanum, h]

private theorem all_ofNat (n : Nat) : (Text.ofNat n).All CodePoint.isWord :=
  Text.all_ofChars fun _ hc => isWord_of_isDigit (Nat.isDigit_of_mem_toDigits (by decide) (by decide) hc)

theorem isPlain_decimalText {n : Int} {t : Text} (h : decimalText n = .ok t) : t.All CodePoint.isPlain := by
  have hdigits := (all_ofNat n.natAbs).imp CodePoint.isPlain_of_isWord
  have hsign : Text.All CodePoint.isPlain "-" := by decide
  unfold decimalText Text.ofInt? at h
  split at h
  · rename_i htext
    cases h
    split at htext
    · cases htext
    · rw [← Option.some.inj htext]
      split
      · exact hsign.append hdigits
      · exact hdigits
  · cases h

theorem isPlain_address (n : Int) : (Hex.address n).All CodePoint.isPlain := by
  have hmark : Text.All CodePoint.isPlain "0x" := by decide
  refine hmark.append (Text.all_ofChars ?_)
  simp only [List.forall_mem_append]
  refine ⟨⟨?_, ?_⟩, Hex.forall_mem_digits (by decide) _⟩
  · unfold Hex.sign
    split <;> exact List.all_eq_true.1 (by decide)
  · intro c hc
    rw [List.eq_of_mem_replicate hc]
    decide

namespace Binary64

private theorem Decimal.isDigit_ofCoefficient (n : Nat) (k : Int) :
    ∀ c ∈ (Decimal.ofCoefficient n k).digits, c.isDigit = true := by
  intro c hc
  have hmem := (List.dropWhile_sublist _).mem (List.mem_reverse.1 hc)
  exact Nat.isDigit_of_mem_toDigits (by decide) (by decide) (List.mem_reverse.1 hmem)

private theorem Interval.exists_shortest (i : Interval) : ∃ n k, i.shortest = .ofCoefficient n k := by
  unfold shortest
  simp only
  split
  · exact ⟨_, _, rfl⟩
  · exact ⟨_, _, rfl⟩

private theorem Decimal.isPlain_text {d : Decimal} (hd : ∀ c ∈ d.digits, c.isDigit = true) (l : DecimalLayout) :
    ∀ c ∈ d.text l, (CodePoint.char c).isPlain = true := by
  have hdigits : ∀ {cs : List Char}, (∀ c ∈ cs, c.isDigit = true) → ∀ c ∈ cs, (CodePoint.char c).isPlain = true :=
    fun h c hc => CodePoint.isPlain_of_isWord (isWord_of_isDigit (h c hc))
  have hzeros : ∀ n, ∀ c ∈ List.replicate n '0', (CodePoint.char c).isPlain = true := by
    intro n c hc
    rw [List.eq_of_mem_replicate hc]
    decide
  have htake : ∀ n, ∀ c ∈ d.digits.take n, (CodePoint.char c).isPlain = true :=
    fun n => hdigits fun c hc => hd c (List.mem_of_mem_take hc)
  have hdrop : ∀ n, ∀ c ∈ d.digits.drop n, (CodePoint.char c).isPlain = true :=
    fun n => hdigits fun c hc => hd c (List.mem_of_mem_drop hc)
  have hexponent : ∀ n, ∀ c ∈ Nat.toDigits 10 n, (CodePoint.char c).isPlain = true :=
    fun n => hdigits fun c hc => Nat.isDigit_of_mem_toDigits (by decide) (by decide) hc
  have hmarks : ∀ c ∈ ['0', '.', 'e', '-', '+'], (CodePoint.char c).isPlain = true := List.all_eq_true.1 (by decide)
  simp only [List.forall_mem_cons] at hmarks
  obtain ⟨hzero, hpoint, he, hminus, hplus, -⟩ := hmarks
  unfold text
  simp only
  split
  · split
    · simp only [List.cons_append, List.forall_mem_cons, List.forall_mem_append]
      exact ⟨hzero, hpoint, hzeros _, hdigits hd⟩
    · simp only [List.forall_mem_cons, List.forall_mem_append]
      refine ⟨⟨htake _, hzeros _⟩, hpoint, ?_⟩
      split
      · exact List.forall_mem_singleton.2 hzero
      · exact hdrop _
  · simp only [List.forall_mem_cons, List.forall_mem_append]
    refine ⟨⟨⟨htake _, ?_⟩, he, ?_, hzeros _⟩, hexponent _⟩
    · split
      · exact List.forall_mem_nil _
      · exact List.forall_mem_cons.2 ⟨hpoint, hdrop _⟩
    · split
      · exact hminus
      · exact hplus

/-- The text of a number consists of digits and the marks of numbers. -/
theorem isPlain_text (x : Binary64) : Text.All CodePoint.isPlain x.text := by
  have hsign : ∀ c ∈ (if x.isNegative then "-" else "").toList, (CodePoint.char c).isPlain = true := by
    split <;> exact List.all_eq_true.1 (by decide)
  unfold text
  simp only
  split
  · decide
  · refine Text.all_ofChars ?_
    rw [String.toList_append, List.forall_mem_append]
    exact ⟨hsign, List.all_eq_true.1 (by decide)⟩
  · split
    · refine Text.all_ofChars ?_
      rw [String.toList_append, List.forall_mem_append]
      exact ⟨hsign, List.all_eq_true.1 (by decide)⟩
    · obtain ⟨n, k, hshortest⟩ := (interval _ _).exists_shortest
      refine Text.all_ofChars ?_
      rw [String.toList_append, String.toList_ofList, List.forall_mem_append, hshortest]
      exact ⟨hsign, Decimal.isPlain_text (Decimal.isDigit_ofCoefficient n k) layout⟩

end Binary64

theorem DataType.isInLine_text (t : DataType) : t.text.All CodePoint.isInLine := by
  have halphabet : ∀ c ∈ alphabet, (CodePoint.char c).isInLine = true := List.all_eq_true.1 (by decide)
  exact Text.all_ofChars fun c hc => halphabet c (t.chars_subset hc)

/-! ### First words -/

/-- The first word of a line. -/
def firstWord (l : List CodePoint) : List CodePoint := l.takeWhile (· ≠ .char ' ')

/-- What stands behind the first space of a line. -/
def behindWord (l : List CodePoint) : List CodePoint := (l.dropWhile (· ≠ .char ' ')).tail

section

variable {l m : List CodePoint}

theorem firstWord_append (h : .char ' ' ∉ l) : firstWord (l ++ m) = l ++ firstWord m :=
  List.takeWhile_append_of_pos fun c hc => by
    rw [decide_eq_true_eq]
    exact fun he => h (he ▸ hc)

theorem firstWord_append_space (h : .char ' ' ∉ l) : firstWord (l ++ .char ' ' :: m) = l := by
  have hspace : firstWord (.char ' ' :: m) = [] := rfl
  rw [firstWord_append h, hspace, List.append_nil]

theorem behindWord_append_space (h : .char ' ' ∉ l) : behindWord (l ++ .char ' ' :: m) = m := by
  rw [behindWord, List.dropWhile_append_of_pos fun c hc => ?_]
  · rfl
  · rw [decide_eq_true_eq]
    exact fun he => h (he ▸ hc)

/-- There are no spaces and no characters of operators in the first word. -/
def StartsPlain (l : List CodePoint) : Prop := ∀ c ∈ firstWord l, c.isPlain = true

theorem StartsPlain.of_all (h : ∀ c ∈ l, c.isPlain = true) : StartsPlain l :=
  fun c hc => h c (List.takeWhile_subset _ hc)

theorem StartsPlain.append (hl : StartsPlain l) (hm : StartsPlain m) : StartsPlain (l ++ m) := by
  unfold StartsPlain firstWord at *
  rw [List.takeWhile_append]
  split
  · rename_i hlength
    have hall := List.IsPrefix.eq_of_length (List.takeWhile_prefix _) hlength
    rw [hall] at hl
    exact List.forall_mem_append.2 ⟨hl, hm⟩
  · exact hl

end

namespace Text

/-- A text may stand behind the first word of a line, and does not begin with an operator. -/
structure Fits (t : Text) : Prop where
  all : t.All CodePoint.isInLine
  starts : StartsPlain t.points

variable {t u : Text}

theorem All.fits (h : t.All CodePoint.isPlain) : t.Fits := ⟨h.imp CodePoint.isInLine_of_isPlain, .of_all h⟩

theorem Fits.append (ht : t.Fits) (hu : u.Fits) : (t ++ u).Fits := ⟨ht.all.append hu.all, ht.starts.append hu.starts⟩

/-- In front of a space there is nothing that could be an operator. -/
theorem All.fits_of_space (h : t.All CodePoint.isInLine) (hfirst : t.points.head? = some (.char ' ')) : t.Fits := by
  obtain ⟨rest, hrest⟩ := List.head?_eq_some_iff.1 hfirst
  refine ⟨h, ?_⟩
  rw [hrest]
  exact nofun

end Text

/-! ### Expressions -/

/-- The operators of conditions, which also compare the value of a switch. -/
def comparisonOperators : List String :=
  [Relation.equal, .unequal, .less, .greater, .atMost, .atLeast].map Relation.symbol ++ ["&", "!&"]

/-- The operators of assignments. -/
def assignmentOperators : List String :=
  "=" :: [Arithmetic.add, .sub, .mul, .div, .mod].map Arithmetic.symbol

/-- The names of an expression are words, and it compares by operators of conditions. -/
def Expr.Proper : Expr → Prop
  | identifier name => IsWord name
  | comparison lhs operator rhs => operator ∈ comparisonOperators ∧ lhs.Proper ∧ rhs.Proper
  | int _ | bool _ | float _ | pointer _ => True

/-- Addresses are bound to words. -/
def Scope.Proper (s : Scope) : Prop := ∀ {address name}, s.nameAt? address = some name → IsWord name

section

variable {s : Scope}

private theorem isPlain_pointerText (hs : s.Proper) (address : Int) : (pointerText address s).All CodePoint.isPlain := by
  unfold pointerText
  split
  · rename_i name hname
    split
    · exact isPlain_address address
    · exact (hs hname).isPlain
  · exact isPlain_address address

theorem all_comparisonOperator {operator : String} (h : operator ∈ comparisonOperators) :
    Text.All CodePoint.isInLine operator := by
  have hall : ∀ operator ∈ comparisonOperators, Text.All CodePoint.isInLine operator := by decide
  exact hall operator h

theorem Expr.fits_text (hs : s.Proper) {e : Expr} (he : e.Proper) {t : Text} (h : e.text s = .ok t) : t.Fits := by
  induction e generalizing t with
  | int value => exact (isPlain_decimalText h).fits
  | comparison lhs operator rhs ihl ihr =>
    obtain ⟨hoperator, hl, hr⟩ := he
    obtain ⟨left, hleft, h⟩ := bind_eq_ok_iff.1 h
    obtain ⟨right, hright, h⟩ := bind_eq_ok_iff.1 h
    have hleft := ihl hl hleft
    have hright := ihr hr hright
    rw [← Except.ok.inj h]
    split
    · have hmarks : ("!(" : Text).All CodePoint.isPlain ∧ (" & " : Text).All CodePoint.isInLine ∧
          (")" : Text).All CodePoint.isInLine := by decide
      have hbehind : (" & " ++ (right ++ ")")).All CodePoint.isInLine :=
        hmarks.2.1.append (hright.all.append hmarks.2.2)
      simp only [Text.append_assoc]
      exact hmarks.1.fits.append (hleft.append (hbehind.fits_of_space rfl))
    · have hspace : (" " : Text).All CodePoint.isInLine := by decide
      have hbehind : (" " ++ (operator ++ (" " ++ right))).All CodePoint.isInLine :=
        hspace.append ((all_comparisonOperator hoperator).append (hspace.append hright.all))
      simp only [Text.append_assoc]
      exact hleft.append (hbehind.fits_of_space rfl)
  | identifier name =>
    cases h
    exact he.isPlain.fits
  | bool value =>
    have hwords : ("true" : Text).All CodePoint.isPlain ∧ ("false" : Text).All CodePoint.isPlain := by decide
    cases value <;> cases h
    · exact hwords.2.fits
    · exact hwords.1.fits
  | float value =>
    cases h
    exact value.isPlain_text.fits
  | pointer address =>
    cases h
    exact (isPlain_pointerText hs address).fits

theorem Expr.all_listText (hs : s.Proper) {es : List Expr} (he : ∀ e ∈ es, e.Proper) {t : Text}
    (h : Expr.listText s es = .ok t) : t.All CodePoint.isInLine := by
  obtain ⟨texts, htexts, h⟩ := bind_eq_ok_iff.1 h
  rw [← Except.ok.inj h]
  refine Text.all_intercalate (by decide) fun t ht => ?_
  obtain ⟨e, hmem, htext⟩ := exists_left_of_forall₂ (mapM_eq_ok_iff.1 htexts) ht
  exact (fits_text hs (he e hmem) htext).all

end

end MapScript
