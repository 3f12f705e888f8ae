import MapScript.Layout.Print
import MapScript.Proofs.Outcome
import MapScript.Proofs.Script.Parts

/-!
# Outlines of scripts

The outline of a script lists its lines in the order of the tree, each with the number of blocks around it: one line for a
simple statement, and for a statement with blocks its first line, what is inside it one level deeper, and a closing line.
Arms of a switch are laid out in the same way inside it.

Printing writes the lines of the outline behind those that are on the page, whatever level it has reached
(`print_eq_write`), so that the text of a declaration is made of its outline alone (`text_eq`).
-/

namespace MapScript

/-- A line of a script: the first one of a statement or of an arm, the one between the blocks of a branch, or the one
behind a block. -/
inductive Line
  | first (t : Stmt)
  | arm (operator : String) (values : List Expr)
  | otherwise
  | close

mutual

/-- The lines of a statement that stands at a level, and the levels of these lines. -/
def Stmt.outline (level : Nat) : Stmt → List (Nat × Line)
  | .branch condition body =>
    (level, .first (.branch condition body)) :: (Block.outline (level + 1) body ++ [(level, .close)])
  | .branchElse condition body otherwise =>
    (level, .first (.branchElse condition body otherwise)) ::
      (Block.outline (level + 1) body ++ (level, .otherwise) ::
        (Block.outline (level + 1) otherwise ++ [(level, .close)]))
  | .loop count body => (level, .first (.loop count body)) :: (Block.outline (level + 1) body ++ [(level, .close)])
  | .switch value arms => (level, .first (.switch value arms)) :: (Arm.outline (level + 1) arms ++ [(level, .close)])
  | .thread child body => (level, .first (.thread child body)) :: (Block.outline (level + 1) body ++ [(level, .close)])
  | t => [(level, .first t)]

/-- The lines of a block whose statements stand at a level. -/
def Block.outline (level : Nat) : List Stmt → List (Nat × Line)
  | [] => []
  | t :: rest => t.outline level ++ Block.outline level rest

/-- The lines of the arms of a switch. -/
def Arm.outline (level : Nat) : List Arm → List (Nat × Line)
  | [] => []
  | ⟨operator, values, body⟩ :: rest =>
    (level, .arm operator values) :: (Block.outline (level + 1) body ++ (level, .close) :: Arm.outline level rest)

end

private theorem Arm.forall_outline {P : Line → Prop} {arms : List Arm} (harm : ∀ a ∈ arms, P (.arm a.operator a.values))
    (hbody : ∀ a ∈ arms, ∀ n, ∀ l ∈ Block.outline n a.body, P l.2) (hclose : P .close) (n : Nat) :
    ∀ l ∈ outline n arms, P l.2 := by
  induction arms with
  | nil => exact nofun
  | cons a rest ih =>
    obtain ⟨operator, values, body⟩ := a
    obtain ⟨htop, harm⟩ := List.forall_mem_cons.1 harm
    obtain ⟨hinside, hbody⟩ := List.forall_mem_cons.1 hbody
    rw [outline, List.forall_mem_cons, List.forall_mem_append, List.forall_mem_cons]
    exact ⟨htop, hinside (n + 1), hclose, ih harm hbody⟩

/-- What holds of the first lines of statements and of arms, and of the lines between and behind blocks, holds of all
lines. -/
theorem Block.forall_outline {P : Line → Prop} {b : Block} (hfirst : ∀ t ∈ statements b, P (.first t))
    (harm : ∀ {value arms}, .switch value arms ∈ statements b → ∀ a ∈ arms, P (.arm a.operator a.values))
    (hotherwise : P .otherwise) (hclose : P .close) (n : Nat) : ∀ l ∈ outline n b, P l.2 := by
  induction b using Block.induction generalizing n with
  | nil => exact nofun
  | cons t rest inside ih =>
    have hsub : ∀ {u}, u ∈ statements rest → u ∈ statements (t :: rest) := fun h => mem_statements_cons.2 (.inr (.inr h))
    have hself : t ∈ statements (t :: rest) := mem_statements_cons.2 (.inl rfl)
    have hinside : ∀ d ∈ t.blocks, ∀ n, ∀ l ∈ outline n d, P l.2 := by
      intro d hd n
      have hsub : ∀ {u}, u ∈ statements d → u ∈ statements (t :: rest) :=
        fun h => mem_statements_cons.2 (.inr (.inl ⟨d, hd, h⟩))
      exact inside d hd (fun u hu => hfirst u (hsub hu)) (fun hu => harm (hsub hu)) n
    rw [outline, List.forall_mem_append]
    refine ⟨?_, ih (fun u hu => hfirst u (hsub hu)) (fun hu => harm (hsub hu)) n⟩
    cases t with
    | branch condition body | loop count body | thread child body =>
      simp only [Stmt.outline, List.forall_mem_cons, List.forall_mem_append]
      exact ⟨hfirst _ hself, hinside body (List.mem_cons_self ..) (n + 1), hclose, nofun⟩
    | branchElse condition body otherwise =>
      simp only [Stmt.outline, List.forall_mem_cons, List.forall_mem_append]
      have hlast := hinside otherwise (List.mem_cons_of_mem _ (List.mem_cons_self ..)) (n + 1)
      exact ⟨hfirst _ hself, hinside body (List.mem_cons_self ..) (n + 1), hotherwise, hlast, hclose, nofun⟩
    | switch value arms =>
      simp only [Stmt.outline, List.forall_mem_cons, List.forall_mem_append]
      have harms := Arm.forall_outline (harm hself) (fun a ha => hinside a.body (List.mem_map_of_mem ha)) hclose (n + 1)
      exact ⟨hfirst _ hself, harms, hclose, nofun⟩
    | _ =>
      simp only [Stmt.outline, List.forall_mem_singleton]
      exact hfirst _ hself

/-- The first line of a statement. -/
def Stmt.firstText (s : Scope) : Stmt → Except Failure Text
  | declare type name value => declarationText type name value s
  | assign name operator value => return name ++ " " ++ operator ++ " " ++ (← value.text s)
  | call callee arguments kind => do
    let arguments ← Expr.listText s arguments
    let callee ← callee.text s
    let spawn := if kind = .spawn then "spawn " else ""
    return spawn ++ callee ++ "(" ++ arguments ++ ")"
  | ret => .ok "return"
  | breakLoop | breakSwitch => .ok "break"
  | label index => return "label " ++ (← decimalText index)
  | goto index => return "goto " ++ (← decimalText index)
  | wait amount seconds => do
    let unit := if seconds then " secs" else ""
    return "wait " ++ (← amount.text s) ++ unit
  | branch condition _ | branchElse condition _ _ => return "if " ++ (← condition.text s) ++ " \x7b"
  | loop none _ => .ok "loop \x7b"
  | loop (some count) _ => return "loop " ++ (← count.text s) ++ " \x7b"
  | switch value _ => return "switch " ++ (← value.text s) ++ " \x7b"
  | thread child _ =>
    let header := if child then "child thread \x7b" else "thread \x7b"
    .ok header

/-- The text of a line, without indentation. -/
def Line.text (s : Scope) : Line → Except Failure Text
  | first t => t.firstText s
  | arm operator values => do return (← armHeader operator values s) ++ " \x7b"
  | otherwise => .ok "\x7d else \x7b"
  | close => .ok "\x7d"

/-- The text of a line at a level. -/
def Line.indented (s : Scope) (unit : Text) (l : Nat × Line) : Except Failure Text := do
  return .times l.1 unit ++ (← l.2.text s)

/-- Writes lines at their own levels. -/
def Page.write (s : Scope) (p : Page) (ls : List (Nat × Line)) : Except Failure Page := do
  return { p with lines := p.lines ++ (← ls.mapM (Line.indented s p.unit)) }

section

variable {s : Scope} {p : Page}

/-! ### Writing lines -/

theorem Page.write_nil : p.write s [] = .ok p := by
  rw [write, List.mapM_nil]
  show Except.ok { p with lines := p.lines ++ [] } = _
  rw [List.append_nil]

theorem Page.write_append (ls more : List (Nat × Line)) : p.write s (ls ++ more) = p.write s ls >>= (·.write s more) := by
  simp only [write, List.mapM_append, bind_assoc, pure_bind, List.append_assoc]

/-- A line is written at the level of the page. -/
theorem Page.write_singleton (l : Line) : p.write s [(p.level, l)] = l.text s >>= fun text => .ok (p.line text) := by
  simp only [write, List.mapM_cons, List.mapM_nil, Line.indented, bind_assoc, pure_bind]
  rfl

theorem Page.write_cons (l : Line) (ls : List (Nat × Line)) :
    p.write s ((p.level, l) :: ls) = l.text s >>= fun text => (p.line text).write s ls := by
  rw [← List.singleton_append, write_append, write_singleton, bind_assoc]
  rfl

/-- Writing lines leaves the level of the page alone. -/
theorem Page.nested_write {body : Page → Except Failure Page} {ls : List (Nat × Line)}
    (h : body p.indent = p.indent.write s ls) : p.nested body = p.write s ls := by
  rw [nested, h]
  simp only [write, bind_assoc, pure_bind]
  rfl

private theorem Page.level_of_write {p' : Page} {ls : List (Nat × Line)} (h : p.write s ls = .ok p') :
    p'.level = p.level := by
  obtain ⟨texts, -, h⟩ := bind_eq_ok_iff.1 h
  cases h
  rfl

/-- What is written first leaves the page at its level. -/
theorem Page.write_bind_congr {ls : List (Nat × Line)} {f g : Page → Except Failure Page}
    (h : ∀ p' : Page, p'.level = p.level → f p' = g p') : (p.write s ls >>= f) = p.write s ls >>= g :=
  bind_congr_of_ok fun p' hp' => h p' (level_of_write hp')

/-! ### Printing -/

/-- A line and what stands one level deeper, and then the rest at the level of the line. -/
private theorem nested_eq_write {l : Line} {text : Text} (hl : l.text s = .ok text)
    {body after : Page → Except Failure Page} {ls more : List (Nat × Line)}
    (hbody : ∀ q : Page, q.level = p.level + 1 → body q = q.write s ls)
    (hafter : ∀ q : Page, q.level = p.level → after q = q.write s more) :
    (p.line text).nested body >>= after = p.write s ((p.level, l) :: (ls ++ more)) := by
  have hnested : (p.line text).nested body = (p.line text).write s ls := Page.nested_write (hbody _ rfl)
  have hrest : (p.line text).write s ls >>= after = (p.line text).write s (ls ++ more) := by
    rw [Page.write_append]
    exact Page.write_bind_congr hafter
  rw [hnested, hrest, Page.write_cons, hl]
  rfl

/-- The same where the line has to be computed first. -/
private theorem bind_nested_eq_write {α : Type} {x : Except Failure α} {g : α → Text} {l : Line}
    (hl : l.text s = x >>= fun a => .ok (g a)) {body after : Page → Except Failure Page} {ls more : List (Nat × Line)}
    (hbody : ∀ q : Page, q.level = p.level + 1 → body q = q.write s ls)
    (hafter : ∀ q : Page, q.level = p.level → after q = q.write s more) :
    (x >>= fun a => (p.line (g a)).nested body >>= after) = p.write s ((p.level, l) :: (ls ++ more)) := by
  cases x with
  | error e =>
    rw [Page.write_cons, hl]
    rfl
  | ok a => exact nested_eq_write hl hbody hafter

private theorem close_eq_write (q : Page) {level : Nat} (h : q.level = level) :
    Except.ok (q.line "\x7d") = q.write s [(level, .close)] := by
  rw [← h, Page.write_singleton]
  rfl

variable (s) in
/-- A block is printed by writing its outline. -/
private def Outlined (b : Block) : Prop := ∀ p : Page, Block.print s p b = p.write s (Block.outline p.level b)

private theorem Outlined.at_level {b : Block} (h : Outlined s b) {level : Nat} (q : Page) (hq : q.level = level) :
    Block.print s q b = q.write s (Block.outline level b) := by
  rw [h, hq]

private theorem arms_eq_write {arms : List Arm} (h : ∀ a ∈ arms, Outlined s a.body) (p : Page) :
    Arm.print s p arms = p.write s (Arm.outline p.level arms) := by
  induction arms generalizing p with
  | nil => exact Page.write_nil.symm
  | cons a rest ih =>
    obtain ⟨operator, values, body⟩ := a
    obtain ⟨hbody, hrest⟩ := List.forall_mem_cons.1 h
    rw [Arm.print, Arm.outline]
    refine bind_nested_eq_write rfl hbody.at_level fun q hq => ?_
    have hclose : Line.text s .close = .ok "\x7d" := rfl
    rw [ih hrest, ← hq, Page.write_cons, hclose]
    rfl

private theorem statement_eq_write {t : Stmt} (h : ∀ d ∈ t.blocks, Outlined s d) (p : Page) :
    t.print s p = p.write s (t.outline p.level) := by
  cases t with
  | branch condition body =>
    exact bind_nested_eq_write rfl (h body (List.mem_cons_self ..)).at_level fun q hq => close_eq_write q hq
  | loop count body =>
    have hbody : Outlined s body := h body (List.mem_cons_self ..)
    cases count with
    | none => exact nested_eq_write rfl hbody.at_level fun q hq => close_eq_write q hq
    | some count => exact bind_nested_eq_write rfl hbody.at_level fun q hq => close_eq_write q hq
  | thread child body =>
    exact nested_eq_write rfl (h body (List.mem_cons_self ..)).at_level fun q hq => close_eq_write q hq
  | branchElse condition body otherwise =>
    have hotherwise := h otherwise (List.mem_cons_of_mem _ (List.mem_cons_self ..))
    refine bind_nested_eq_write rfl (h body (List.mem_cons_self ..)).at_level fun q hq => ?_
    rw [← hq]
    exact nested_eq_write rfl hotherwise.at_level fun q hq => close_eq_write q hq
  | switch value arms =>
    have harms := arms_eq_write fun a ha => h a.body (List.mem_map_of_mem ha)
    refine bind_nested_eq_write rfl (fun q hq => ?_) fun q hq => close_eq_write q hq
    rw [harms, hq]
  | _ =>
    simp only [Stmt.print, Stmt.outline, Page.write_singleton, Line.text, Stmt.firstText, bind_assoc]
    rfl

/-- Printing a block is writing its outline. -/
theorem print_eq_write (b : Block) (p : Page) : Block.print s p b = p.write s (Block.outline p.level b) := by
  induction b using Block.induction generalizing p with
  | nil => exact Page.write_nil.symm
  | cons t rest inside ih =>
    rw [Block.print, Block.outline, Page.write_append, statement_eq_write inside]
    refine Page.write_bind_congr fun q hq => ?_
    rw [ih, hq]

private theorem nested_print (b : Block) (p : Page) :
    p.nested (fun page => Block.print s page b) = p.write s (Block.outline (p.level + 1) b) :=
  Page.nested_write (print_eq_write b p.indent)

/-! ### Texts -/

private theorem exists_intercalate_append {α : Type} (separator : List α) (front : List (List α)) (last : List α) :
    ∃ start, separator.intercalate (front ++ [last]) = start ++ last := by
  induction front with
  | nil => exact ⟨[], List.intercalate_singleton⟩
  | cons first rest ih =>
    obtain ⟨start, hstart⟩ := ih
    refine ⟨first ++ separator ++ start, ?_⟩
    rw [List.cons_append, List.intercalate_cons_of_ne_nil (by simp), hstart, List.append_assoc, List.append_assoc,
      List.append_assoc]

/-- Nothing is taken away at the end of a page that ends with a closing brace. -/
theorem Page.text_of_brace {p : Page} {lines : List Text} (h : p.lines = lines ++ [("\x7d" : Text)]) :
    p.text = Text.intercalate "\n" p.lines ++ "\n" := by
  obtain ⟨start, hstart⟩ := exists_intercalate_append ("\n" : Text).points (lines.map Text.points) [.char '\x7d']
  have hpoints : (Text.intercalate "\n" p.lines).points = start ++ [.char '\x7d'] := by
    rw [h, Text.intercalate, List.map_append]
    exact hstart
  rw [Page.text, hpoints, trimEnd_append_of_not_blank start (by decide), ← hpoints]
  rfl

/-- The lines of a declaration that is called `name`, around those of its body. -/
def ScriptDeclaration.lines (d : ScriptDeclaration) (name : Text) (body : List Text) : List Text :=
  let parameters := Text.intercalate ", " (d.parameters.map fun p => p.1 ++ ": " ++ p.2.text)
  ("fun " ++ name ++ "(" ++ parameters ++ ") \x7b") :: body ++ [("\x7d" : Text)]

/-- The text of a declaration is its header, the lines of its outline, and a closing brace. -/
theorem ScriptDeclaration.text_eq (d : ScriptDeclaration) (unit : Text) : d.text s unit = do
    let name ← d.name.text s
    let body ← (Block.outline 1 d.body).mapM (Line.indented s unit)
    return Text.intercalate "\n" (d.lines name body) ++ "\n" := by
  rw [ScriptDeclaration.text]
  refine bind_congr_of_ok fun name _ => ?_
  dsimp only
  rw [nested_print, Page.write, bind_assoc]
  refine bind_congr_of_ok fun body _ => ?_
  exact congrArg Except.ok (Page.text_of_brace rfl)

/-- One declaration stands alone in the text of a list. -/
theorem ScriptDeclaration.listText_singleton (d : ScriptDeclaration) (unit : Text) : listText [d] s unit = d.text s unit := by
  rw [listText, List.mapM_cons, List.mapM_nil]
  cases d.text s unit with
  | error e => rfl
  | ok text =>
    show Except.ok (Text.intercalate "\n" [text]) = _
    rw [Text.intercalate, List.map_singleton, List.intercalate_singleton]

end

end MapScript
