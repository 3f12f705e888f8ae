import MapScript.Proofs.Layout.Outline
import MapScript.Proofs.Layout.Words

/-!
# Marks of lines

A line has a mark, which says what kind of line it is. `Mark.read` tells it from the text of the line: from whether the line
opens a block, and from its first two words. A statement need not begin with a word of its own: names may be words like
`var` and `spawn`, so that assignments and calls are known by their operator and their parenthesis.

The lines of scripts whose names are words are read as what they are (`Line.bears_text`).
-/

namespace MapScript

/-! ### Marks -/

inductive Mark
  | declare
  | assign
  | call (kind : CallKind)
  | ret
  | exit
  | label
  | goto
  | wait
  | branch
  | loop (counted : Bool)
  | switch
  | thread (child : Bool)
  | arm (operator : String)
  | otherwise
  | close
  deriving DecidableEq, Repr

/-- The mark of the first line of a statement. Ends of loops and of arms look alike, and the first line of a branch does
not tell whether it goes on with a second block. -/
def Stmt.mark : Stmt → Mark
  | declare .. => .declare
  | assign .. => .assign
  | call _ _ kind => .call kind
  | ret => .ret
  | breakLoop | breakSwitch => .exit
  | label _ => .label
  | goto _ => .goto
  | wait .. => .wait
  | branch .. | branchElse .. => .branch
  | loop count _ => .loop count.isSome
  | switch .. => .switch
  | thread child _ => .thread child

def Line.mark : Line → Mark
  | first t => t.mark
  | arm operator _ => .arm operator
  | otherwise => .otherwise
  | close => .close

/-! ### Reading marks -/

def keyword (word : String) : List CodePoint := (Text.ofString word).points

namespace Mark

/-- What the first word of a line says that opens a block. -/
def openings : List (List CodePoint × Mark) :=
  [(keyword "if", branch), (keyword "switch", switch), (keyword "thread", thread false), (keyword "child", thread true),
    (keyword "default", arm "default"), (keyword "\x7d", otherwise)]

/-- What the first word of a simple statement says that is no assignment or call. -/
def simples : List (List CodePoint × Mark) :=
  [(keyword "var", declare), (keyword "return", ret), (keyword "break", exit), (keyword "label", label),
    (keyword "goto", goto), (keyword "wait", wait)]

/-- The operator of an arm by the word behind `case`. -/
def operatorOf (word : List CodePoint) : String := (comparisonOperators.find? (keyword · = word)).getD "range"

/-- The mark of a line by whether it opens a block and by its first two words. -/
def ofWords (opens : Bool) (first second : List CodePoint) : Mark :=
  if opens then
    (openings.lookup first).getD
      (if first = keyword "loop" then loop (second ≠ keyword "\x7b") else arm (operatorOf second))
  else if .char '(' ∈ first then call .call
  else if first = keyword "spawn" ∧ .char '(' ∈ second then call .spawn
  else if .char '=' ∈ second then assign
  else (simples.lookup first).getD close

/-- The mark of a line without indentation. -/
def read (l : List CodePoint) : Mark := ofWords (.char '\x7b' ∈ l) (firstWord l) (firstWord (behindWord l))

end Mark

/-! ### Proper scripts -/

/-- The callee has no name, or its name is a word. -/
def Callee.Proper : Callee → Prop
  | named name => IsWord name
  | pointer _ | unknown => True

/-- An arm has an operator that there is, and proper values. -/
def ProperArm (operator : String) (values : List Expr) : Prop :=
  (operator = "default" ∨ operator = "range" ∨ operator ∈ comparisonOperators) ∧ ∀ e ∈ values, e.Proper

/-- All names in the statement are words, and its operators are those that there are. The blocks in it do not count. -/
def Stmt.Proper : Stmt → Prop
  | declare _ name value => IsWord name ∧ ∀ e ∈ value, e.Proper
  | assign name operator value => IsWord name ∧ operator ∈ assignmentOperators ∧ value.Proper
  | call callee arguments _ => callee.Proper ∧ ∀ e ∈ arguments, e.Proper
  | wait amount _ => amount.Proper
  | branch condition _ | branchElse condition _ _ => condition.Proper
  | loop count _ => ∀ e ∈ count, e.Proper
  | switch value arms => value.Proper ∧ ∀ a ∈ arms, ProperArm a.operator a.values
  | ret | breakLoop | breakSwitch | label _ | goto _ | thread .. => True

def Line.Proper : Line → Prop
  | first t => t.Proper
  | arm operator values => ProperArm operator values
  | otherwise | close => True

/-! ### Lines are read as what they are -/

/-- The text is a single line, which is not indented and has the mark. -/
structure Text.Bears (t : Text) (m : Mark) : Prop where
  read_eq : Mark.read t.points = m
  starts : ∀ c ∈ t.points.head?, c.isIndent = false
  newline_notMem : .char '\n' ∉ t.points

namespace Mark

variable {first second : List CodePoint}

theorem ofWords_simple (hfirst : .char '(' ∉ first) (hspawn : first ≠ keyword "spawn") (hsecond : .char '=' ∉ second) :
    ofWords false first second = (simples.lookup first).getD close := by
  simp [ofWords, hfirst, hspawn, hsecond]

theorem ofWords_call (h : .char '(' ∈ first) : ofWords false first second = call .call := by
  simp [ofWords, h]

theorem ofWords_spawn (h : .char '(' ∈ second) : ofWords false (keyword "spawn") second = call .spawn := by
  have hword : .char '(' ∉ keyword "spawn" := by decide
  simp [ofWords, h, hword]

theorem ofWords_assign (hfirst : .char '(' ∉ first) (hsecond : .char '(' ∉ second) (h : .char '=' ∈ second) :
    ofWords false first second = assign := by
  simp [ofWords, hfirst, hsecond, h]

end Mark

section

variable {s : Scope} {word t : Text} {m : Mark}

/-- A line whose first word ends at a space. -/
private theorem bears_of_words (hne : word.points ≠ []) (hword : word.All CodePoint.isPlain)
    (hnewline : .char '\n' ∉ t.points)
    (h : Mark.ofWords (.char '\x7b' ∈ t.points) word.points (firstWord t.points) = m) : (word ++ (" " ++ t)).Bears m := by
  have hpoints : (word ++ (" " ++ t)).points = word.points ++ .char ' ' :: t.points := rfl
  have hspace : CodePoint.char ' ' ∉ word.points := hword.notMem (by decide)
  obtain ⟨c, rest, hcons⟩ := List.exists_cons_of_ne_nil hne
  refine ⟨?_, ?_, ?_⟩
  · have hopens : CodePoint.char '\x7b' ∈ word.points ++ .char ' ' :: t.points ↔ .char '\x7b' ∈ t.points := by
      simp [hword.notMem (show (CodePoint.char '\x7b').isPlain = false by decide)]
    rw [hpoints, Mark.read, firstWord_append_space hspace, behindWord_append_space hspace, decide_eq_decide.2 hopens, h]
  · rw [hpoints, hcons]
    rintro _ ⟨⟩
    exact CodePoint.not_isIndent_of_isPlain (hword c (hcons ▸ List.mem_cons_self ..))
  · simp [hpoints, hnewline, hword.notMem (show (CodePoint.char '\n').isPlain = false by decide)]

/-- A line without braces. -/
private theorem bears_of_simple (hne : word.points ≠ []) (hword : word.All CodePoint.isPlain) (ht : t.All CodePoint.isInLine)
    (h : Mark.ofWords false word.points (firstWord t.points) = m) : (word ++ (" " ++ t)).Bears m := by
  refine bears_of_words hne hword (ht.notMem (by decide)) ?_
  rwa [decide_eq_false (ht.notMem (by decide))]

/-- A line that opens a block. -/
private theorem bears_of_opening (hne : word.points ≠ []) (hword : word.All CodePoint.isPlain)
    (ht : t.All CodePoint.isInLine) (h : Mark.ofWords true word.points (firstWord (t ++ " \x7b").points) = m) :
    (word ++ (" " ++ (t ++ " \x7b"))).Bears m := by
  have hbrace : CodePoint.char '\x7b' ∈ (t ++ " \x7b").points := List.mem_append_right _ (by decide)
  have hnewline : CodePoint.char '\n' ∉ (t ++ " \x7b").points := by
    rw [Text.points_append, List.mem_append, not_or]
    exact ⟨ht.notMem (by decide), by decide⟩
  refine bears_of_words hne hword hnewline ?_
  rwa [decide_eq_true hbrace]

/-- A simple statement that begins with a word of its own. -/
private theorem bears_of_keyword (word : Text) (h : (word.points, m) ∈ Mark.simples) (ht : t.Fits) :
    (word ++ (" " ++ t)).Bears m := by
  have hall : ∀ p ∈ Mark.simples, p.1 ≠ [] ∧ (∀ c ∈ p.1, c.isPlain = true) ∧ .char '(' ∉ p.1 ∧ p.1 ≠ keyword "spawn" ∧
      Mark.simples.lookup p.1 = some p.2 := by decide
  obtain ⟨hne, hplain, hparenthesis, hspawn, hlookup⟩ := hall _ h
  have hequals : CodePoint.char '=' ∉ firstWord t.points := fun hc => absurd (ht.starts _ hc) (by decide)
  refine bears_of_simple hne hplain ht.all ?_
  rw [Mark.ofWords_simple hparenthesis hspawn hequals, hlookup, Option.getD_some]

/-! ### Simple statements -/

private theorem fits_empty : Text.Fits "" := Text.All.fits (by decide)

private theorem bears_declaration (hs : s.Proper) {type : DataType} {name : Text} {value : Option Expr} (hname : IsWord name)
    (hvalue : ∀ e ∈ value, e.Proper) (h : declarationText type name value s = .ok t) : t.Bears .declare := by
  have htyped : (if type.isWildcard then ("" : Text) else ": " ++ type.text).Fits := by
    split
    · exact fits_empty
    · have hcolon : (":" : Text).All CodePoint.isPlain := by decide
      have hspace : (" " : Text).All CodePoint.isInLine := by decide
      exact hcolon.fits.append ((hspace.append type.isInLine_text).fits_of_space rfl)
  cases value with
  | none =>
    cases h
    exact bears_of_keyword "var" (by decide) (hname.isPlain.fits.append htyped)
  | some e =>
    obtain ⟨initial, hinitial, h⟩ := bind_eq_ok_iff.1 h
    cases h
    have hequals : (" = " : Text).All CodePoint.isInLine := by decide
    have hfits := (hequals.append (Expr.fits_text hs (hvalue e rfl) hinitial).all).fits_of_space rfl
    simp only [Text.append_assoc]
    exact bears_of_keyword "var" (by decide) (hname.isPlain.fits.append (htyped.append hfits))

private theorem bears_assignment {name : Text} {operator : String} (hname : IsWord name)
    (hoperator : operator ∈ assignmentOperators) (ht : t.Fits) : (name ++ " " ++ operator ++ " " ++ t).Bears .assign := by
  have hall : ∀ operator ∈ assignmentOperators, Text.All CodePoint.isInLine operator ∧ .char ' ' ∉ keyword operator ∧
      .char '(' ∉ keyword operator ∧ .char '=' ∈ keyword operator := by decide
  obtain ⟨hline, hspace, hparenthesis, hequals⟩ := hall operator hoperator
  have hbehind : (operator ++ (" " ++ t) : Text).All CodePoint.isInLine := hline.append (.append (by decide) ht.all)
  have hsecond : firstWord (operator ++ (" " ++ t) : Text).points = keyword operator := firstWord_append_space hspace
  simp only [Text.append_assoc]
  refine bears_of_simple hname.ne_nil hname.isPlain hbehind ?_
  rw [hsecond, Mark.ofWords_assign (hname.all.notMem (by decide)) hparenthesis hequals]

private theorem isPlain_callee (hs : s.Proper) {callee : Callee} (hcallee : callee.Proper) {name : Text}
    (h : callee.text s = .ok name) : name.All CodePoint.isPlain := by
  cases callee with
  | named name' =>
    cases h
    exact hcallee.isPlain
  | pointer address =>
    unfold Callee.text at h
    cases hn : (Callee.pointer address).name? s with
    | none =>
      rw [hn] at h
      cases h
      exact isPlain_address address
    | some name' =>
      rw [hn] at h
      cases h
      exact (hs hn).isPlain
  | unknown => cases h

/-- The parenthesis of a call stands in the word that its callee begins. -/
private theorem parenthesis_mem_firstWord {name : Text} (hname : name.All CodePoint.isPlain) (more : List CodePoint) :
    .char '(' ∈ firstWord (name.points ++ .char '(' :: more) := by
  rw [firstWord_append (hname.notMem (by decide))]
  exact List.mem_append_right _ (List.mem_cons_self ..)

private theorem bears_call {name arguments : Text} (kind : CallKind) (hname : name.All CodePoint.isPlain)
    (harguments : arguments.All CodePoint.isInLine) :
    ((if kind = .spawn then "spawn " else "" : String) ++ name ++ "(" ++ arguments ++ ")").Bears (.call kind) := by
  have hmarks : ("(" : Text).All CodePoint.isInLine ∧ (")" : Text).All CodePoint.isInLine := by decide
  have hall : (name ++ ("(" ++ (arguments ++ ")"))).All CodePoint.isInLine :=
    (hname.imp CodePoint.isInLine_of_isPlain).append (hmarks.1.append (harguments.append hmarks.2))
  have hparenthesis : .char '(' ∈ firstWord (name ++ ("(" ++ (arguments ++ ")"))).points :=
    parenthesis_mem_firstWord hname _
  simp only [Text.append_assoc]
  cases kind with
  | spawn => exact bears_of_simple (by decide) (by decide) hall (Mark.ofWords_spawn hparenthesis)
  | call =>
    show (name ++ ("(" ++ (arguments ++ ")"))).Bears (.call .call)
    refine ⟨?_, ?_, hall.notMem (by decide)⟩
    · rw [Mark.read, decide_eq_false (hall.notMem (by decide))]
      exact Mark.ofWords_call hparenthesis
    · rw [Text.points_append]
      cases hpoints : name.points with
      | nil =>
        rintro _ ⟨⟩
        decide
      | cons c rest =>
        rintro _ ⟨⟩
        exact CodePoint.not_isIndent_of_isPlain (hname c (hpoints ▸ List.mem_cons_self ..))

private theorem bears_wait (ht : t.Fits) (seconds : Bool) :
    ("wait " ++ t ++ (if seconds then " secs" else "" : String)).Bears .wait := by
  have hunit : Text.Fits (if seconds then " secs" else "" : String) := by
    cases seconds with
    | false => exact fits_empty
    | true => exact Text.All.fits_of_space (by decide) rfl
  exact bears_of_keyword "wait" (by decide) (ht.append hunit)

/-! ### Lines that open blocks -/

private theorem bears_of_opening_keyword (word : Text) (h : (word.points, m) ∈ Mark.openings) (hne : word.points ≠ [])
    (hword : word.All CodePoint.isPlain) (ht : t.All CodePoint.isInLine) : (word ++ (" " ++ (t ++ " \x7b"))).Bears m := by
  have hall : ∀ p ∈ Mark.openings, Mark.openings.lookup p.1 = some p.2 := by decide
  refine bears_of_opening hne hword ht ?_
  rw [Mark.ofWords, if_pos rfl, hall _ h, Option.getD_some]

private theorem startsPlain_opening (ht : t.Fits) : StartsPlain (t ++ " \x7b").points := ht.starts.append nofun

private theorem bears_loop (ht : t.Fits) : ("loop " ++ t ++ " \x7b").Bears (.loop true) := by
  have hbrace : firstWord (t ++ " \x7b").points ≠ keyword "\x7b" := by
    intro h
    have hplain := startsPlain_opening ht
    rw [StartsPlain, h] at hplain
    exact absurd hplain (by decide)
  show ("loop" ++ (" " ++ (t ++ " \x7b"))).Bears _
  refine bears_of_opening (by decide) (by decide) ht.all ?_
  show Mark.loop (firstWord (t ++ " \x7b").points ≠ keyword "\x7b") = .loop true
  rw [decide_eq_true hbrace]

private theorem operatorOf_keyword {operator : String} (h : operator ∈ comparisonOperators) :
    Mark.operatorOf (keyword operator) = operator := by
  have hall : ∀ operator ∈ comparisonOperators, Mark.operatorOf (keyword operator) = operator := by decide
  exact hall operator h

/-- A word without characters of operators is no operator. -/
private theorem operatorOf_of_plain {word : List CodePoint} (h : ∀ c ∈ word, c.isPlain = true) :
    Mark.operatorOf word = "range" := by
  have hall : ∀ operator ∈ comparisonOperators, ¬∀ c ∈ keyword operator, c.isPlain = true := by decide
  have hnone : comparisonOperators.find? (keyword · = word) = none := by
    rw [List.find?_eq_none]
    intro operator hoperator he
    rw [decide_eq_true_eq] at he
    exact hall operator hoperator (he ▸ h)
  rw [Mark.operatorOf, hnone, Option.getD_none]

private theorem bears_case {operator : String} (ht : t.All CodePoint.isInLine)
    (h : Mark.operatorOf (firstWord (t ++ " \x7b").points) = operator) :
    ("case" ++ (" " ++ (t ++ " \x7b"))).Bears (.arm operator) := by
  refine bears_of_opening (by decide) (by decide) ht ?_
  show Mark.arm (Mark.operatorOf (firstWord (t ++ " \x7b").points)) = .arm operator
  rw [h]

private theorem bears_range {low high : Text} (hlow : low.Fits) (hhigh : high.Fits) :
    ("case " ++ low ++ ".." ++ high ++ " \x7b").Bears (.arm "range") := by
  have hdots : (".." : Text).All CodePoint.isPlain := by decide
  have hfits := hlow.append (hdots.fits.append hhigh)
  have hbears := bears_case hfits.all (operatorOf_of_plain (startsPlain_opening hfits))
  simp only [Text.append_assoc] at hbears ⊢
  exact hbears

private theorem bears_comparison {operator : String} (hoperator : operator ∈ comparisonOperators) (ht : t.Fits) :
    ("case " ++ operator ++ " " ++ t ++ " \x7b").Bears (.arm operator) := by
  have hspaces : ∀ operator ∈ comparisonOperators, .char ' ' ∉ keyword operator := by decide
  have hspace : Text.All CodePoint.isInLine " " := by decide
  have hall := (all_comparisonOperator hoperator).append (hspace.append ht.all)
  have hword : firstWord (operator ++ (" " ++ t) ++ " \x7b" : Text).points = keyword operator := by
    rw [Text.append_assoc]
    exact firstWord_append_space (hspaces operator hoperator)
  have hbears := bears_case hall (by rw [hword, operatorOf_keyword hoperator])
  simp only [Text.append_assoc] at hbears ⊢
  exact hbears

private theorem bears_arm (hs : s.Proper) {operator : String} {values : List Expr} (harm : ProperArm operator values)
    {header : Text} (h : armHeader operator values s = .ok header) : (header ++ " \x7b").Bears (.arm operator) := by
  obtain ⟨hoperator, hvalues⟩ := harm
  unfold armHeader at h
  split at h
  · rename_i hdefault
    cases h
    rw [hdefault]
    exact ⟨by decide, by decide, by decide⟩
  · rename_i hdefault
    split at h
    · rename_i hrange
      obtain ⟨texts, htexts, h⟩ := bind_eq_ok_iff.1 h
      have hfits : ∀ t ∈ texts, t.Fits := by
        intro t ht
        obtain ⟨e, he, htext⟩ := exists_left_of_forall₂ (mapM_eq_ok_iff.1 htexts) ht
        exact Expr.fits_text hs (hvalues e (List.mem_of_mem_take he)) htext
      split at h
      · cases h
        rw [hrange]
        obtain ⟨hlow, hhigh, -⟩ := List.forall_mem_cons.1 hfits |>.imp_right List.forall_mem_cons.1
        exact bears_range hlow hhigh
      · cases h
    · rename_i hrange
      have hoperator := (hoperator.resolve_left hdefault).resolve_left hrange
      split at h
      · obtain ⟨text, htext, h⟩ := bind_eq_ok_iff.1 h
        cases h
        exact bears_comparison hoperator (Expr.fits_text hs (List.forall_mem_cons.1 hvalues).1 htext)
      · cases h

/-! ### All lines -/

private theorem bears_firstText (hs : s.Proper) {u : Stmt} (hu : u.Proper) (h : u.firstText s = .ok t) :
    t.Bears u.mark := by
  cases u with
  | declare type name value => exact bears_declaration hs hu.1 hu.2 h
  | assign name operator value =>
    obtain ⟨text, htext, h⟩ := bind_eq_ok_iff.1 h
    cases h
    exact bears_assignment hu.1 hu.2.1 (Expr.fits_text hs hu.2.2 htext)
  | call callee arguments kind =>
    obtain ⟨list, hlist, h⟩ := bind_eq_ok_iff.1 h
    obtain ⟨name, hname, h⟩ := bind_eq_ok_iff.1 h
    cases h
    exact bears_call kind (isPlain_callee hs hu.1 hname) (Expr.all_listText hs hu.2 hlist)
  | ret | breakLoop | breakSwitch =>
    cases h
    exact ⟨by decide, by decide, by decide⟩
  | label index =>
    obtain ⟨number, hnumber, h⟩ := bind_eq_ok_iff.1 h
    cases h
    rw [Stmt.mark]
    exact bears_of_keyword "label" (by decide) (isPlain_decimalText hnumber).fits
  | goto index =>
    obtain ⟨number, hnumber, h⟩ := bind_eq_ok_iff.1 h
    cases h
    rw [Stmt.mark]
    exact bears_of_keyword "goto" (by decide) (isPlain_decimalText hnumber).fits
  | wait amount seconds =>
    obtain ⟨text, htext, h⟩ := bind_eq_ok_iff.1 h
    cases h
    exact bears_wait (Expr.fits_text hs hu htext) seconds
  | branch condition body | branchElse condition body otherwise =>
    obtain ⟨text, htext, h⟩ := bind_eq_ok_iff.1 h
    cases h
    rw [Stmt.mark]
    exact bears_of_opening_keyword "if" (by decide) (by decide) (by decide) (Expr.fits_text hs hu htext).all
  | loop count body =>
    cases count with
    | none =>
      cases h
      rw [Stmt.mark]
      exact ⟨by decide, by decide, by decide⟩
    | some count =>
      obtain ⟨text, htext, h⟩ := bind_eq_ok_iff.1 h
      cases h
      exact bears_loop (Expr.fits_text hs (hu count rfl) htext)
  | switch value arms =>
    obtain ⟨text, htext, h⟩ := bind_eq_ok_iff.1 h
    cases h
    rw [Stmt.mark]
    exact bears_of_opening_keyword "switch" (by decide) (by decide) (by decide) (Expr.fits_text hs hu.1 htext).all
  | thread child body =>
    cases h
    rw [Stmt.mark]
    cases child <;> exact ⟨by decide, by decide, by decide⟩

/-- The text of a line bears the mark of the line. -/
theorem Line.bears_text (hs : s.Proper) {l : Line} (hl : l.Proper) {text : Text} (h : l.text s = .ok text) :
    text.Bears l.mark := by
  cases l with
  | first t => exact bears_firstText hs hl h
  | arm operator values =>
    obtain ⟨header, hheader, h⟩ := bind_eq_ok_iff.1 h
    cases h
    exact bears_arm hs hl hheader
  | otherwise | close =>
    cases h
    exact ⟨by decide, by decide, by decide⟩

end

end MapScript
