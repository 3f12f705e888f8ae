import MapScript.Proofs.Layout.Marks

/-!
# The shape of a script is told by its text

The marks of the lines of a block tell its shape, whatever follows the block: as braces match, every block ends at the
first closing line that is not that of a block inside it (`sameShape_of_marks`). And the lines of a text tell their marks,
so that scripts with the same text have the same shape (`sameShape_of_text`).
-/

namespace MapScript

/-- The operators of the arms of a switch. -/
def Stmt.operators : Stmt → List String
  | switch _ arms => arms.map Arm.operator
  | _ => []

/-- Statements with the same mark, and arms with the same operators. -/
def Stmt.SameKind (t t' : Stmt) : Prop := t.mark = t'.mark ∧ t.operators = t'.operators

/-- Blocks with the same number of statements, which are of the same kinds in the same order and have as many blocks of the
same shape inside them. -/
def Block.SameShape (b b' : Block) : Prop := Block.Rewrites Stmt.SameKind b b'

private theorem Stmt.mark_head (t : Stmt) : t.head.mark = t.mark := by
  cases t <;> rfl

private theorem Stmt.operators_head (t : Stmt) : t.head.operators = t.operators := by
  cases t with
  | switch value arms => simp [head, operators]
  | _ => rfl

theorem Block.SameShape.cons {t t' : Stmt} {rest rest' : Block} (h : t.SameKind t')
    (hblocks : List.Forall₂ SameShape t.blocks t'.blocks) (hrest : SameShape rest rest') :
    SameShape (t :: rest) (t' :: rest') := by
  refine Rewrites.cons ?_ hblocks hrest
  rwa [Stmt.SameKind, Stmt.mark_head, Stmt.mark_head, Stmt.operators_head, Stmt.operators_head]

/-! ### Marks tell the shape -/

/-- The marks of lines. -/
def marks (ls : List (Nat × Line)) : List Mark := ls.map fun l => l.2.mark

private theorem marks_cons (level : Nat) (l : Line) (ls : List (Nat × Line)) :
    marks ((level, l) :: ls) = l.mark :: marks ls := rfl

private theorem marks_append (ls more : List (Nat × Line)) : marks (ls ++ more) = marks ls ++ marks more := List.map_append

/-- What may stand behind a block: nothing, or a line that closes it. -/
def Stopped (k : List Mark) : Prop := ∀ m ∈ k.head?, m = .close ∨ m = .otherwise

/-- The block ends where its marks say, whatever stands behind it. -/
private def Unambiguous (b : Block) : Prop :=
  ∀ {b' : Block} {n n' : Nat} {k k' : List Mark}, Stopped k → Stopped k' →
    marks (Block.outline n b) ++ k = marks (Block.outline n' b') ++ k' → Block.SameShape b b' ∧ k = k'

private theorem stopped_nil : Stopped [] := fun _ h => nomatch h

private theorem stopped_close (k : List Mark) : Stopped (.close :: k) := by
  rintro _ ⟨⟩
  exact .inl rfl

private theorem stopped_otherwise (k : List Mark) : Stopped (.otherwise :: k) := by
  rintro _ ⟨⟩
  exact .inr rfl

private theorem Stmt.marks_outline (n : Nat) (t : Stmt) :
    marks (t.outline n) = t.mark :: match t with
      | .branch _ body | .loop _ body | .thread _ body => marks (Block.outline (n + 1) body) ++ [.close]
      | .branchElse _ body otherwise =>
        marks (Block.outline (n + 1) body) ++ .otherwise :: (marks (Block.outline (n + 1) otherwise) ++ [.close])
      | .switch _ arms => marks (Arm.outline (n + 1) arms) ++ [.close]
      | _ => [] := by
  cases t <;> simp only [outline, marks_cons, marks_append] <;> rfl

private theorem arms_unambiguous {arms arms' : List Arm} (ih : ∀ a ∈ arms, Unambiguous a.body) {n n' : Nat}
    {k k' : List Mark}
    (h : marks (Arm.outline n arms) ++ .close :: k = marks (Arm.outline n' arms') ++ .close :: k') :
    arms.map Arm.operator = arms'.map Arm.operator ∧
      List.Forall₂ Block.SameShape (arms.map Arm.body) (arms'.map Arm.body) ∧ k = k' := by
  have hcons : ∀ (a : Arm) (rest : List Arm) (n : Nat) (k : List Mark), marks (Arm.outline n (a :: rest)) ++ k =
      .arm a.operator :: (marks (Block.outline (n + 1) a.body) ++ .close :: (marks (Arm.outline n rest) ++ k)) := by
    rintro ⟨operator, values, body⟩ rest n k
    simp only [Arm.outline, marks_cons, marks_append, Line.mark, List.cons_append, List.append_assoc]
  induction arms generalizing arms' with
  | nil =>
    cases arms' with
    | nil =>
      cases h
      exact ⟨rfl, .nil, rfl⟩
    | cons a' rest' =>
      rw [hcons] at h
      cases h
  | cons a rest ihrest =>
    rw [hcons] at h
    cases arms' with
    | nil => cases h
    | cons a' rest' =>
      obtain ⟨hbody, hrest⟩ := List.forall_mem_cons.1 ih
      rw [hcons, List.cons.injEq, Mark.arm.injEq] at h
      obtain ⟨hoperator, h⟩ := h
      obtain ⟨hshape, h⟩ := hbody (stopped_close _) (stopped_close _) h
      obtain ⟨hoperators, hbodies, rfl⟩ := ihrest hrest (List.cons.inj h).2
      refine ⟨?_, .cons hshape hbodies, rfl⟩
      rw [List.map_cons, List.map_cons, hoperator, hoperators]

/-- Blocks that are closed behind the same lines. -/
private theorem body_unambiguous {b b' : Block} (ih : Unambiguous b) {n n' : Nat} {k k' : List Mark}
    (h : marks (Block.outline n b) ++ [.close] ++ k = marks (Block.outline n' b') ++ [.close] ++ k') :
    Block.SameShape b b' ∧ k = k' := by
  rw [List.append_assoc, List.append_assoc] at h
  obtain ⟨hshape, h⟩ := ih (stopped_close k) (stopped_close k') h
  exact ⟨hshape, (List.cons.inj h).2⟩

private theorem statement_unambiguous {t t' : Stmt} (ih : ∀ d ∈ t.blocks, Unambiguous d) {n n' : Nat} {k k' : List Mark}
    (h : marks (t.outline n) ++ k = marks (t'.outline n') ++ k') :
    t.SameKind t' ∧ List.Forall₂ Block.SameShape t.blocks t'.blocks ∧ k = k' := by
  rw [Stmt.marks_outline, Stmt.marks_outline, List.cons_append, List.cons_append, List.cons.injEq] at h
  obtain ⟨hmark, h⟩ := h
  have hsame := hmark
  cases t with
  | branch condition body =>
    cases t' <;> cases hmark
    · obtain ⟨hshape, rfl⟩ := body_unambiguous (ih body (List.mem_cons_self ..)) h
      exact ⟨⟨rfl, rfl⟩, .cons hshape .nil, rfl⟩
    · -- the first block would end at a closing line here and at a turn there
      simp only [List.append_assoc] at h
      have h := (ih body (List.mem_cons_self ..) (stopped_close _) (stopped_otherwise _) h).2
      cases h
  | branchElse condition body otherwise =>
    cases t' <;> cases hmark
    · simp only [List.append_assoc] at h
      have h := (ih body (List.mem_cons_self ..) (stopped_otherwise _) (stopped_close _) h).2
      cases h
    · rw [List.append_assoc, List.append_assoc] at h
      obtain ⟨hshape, h⟩ := ih body (List.mem_cons_self ..) (stopped_otherwise _) (stopped_otherwise _) h
      obtain ⟨hotherwise, rfl⟩ :=
        body_unambiguous (ih otherwise (List.mem_cons_of_mem _ (List.mem_cons_self ..))) (List.cons.inj h).2
      exact ⟨⟨rfl, rfl⟩, .cons hshape (.cons hotherwise .nil), rfl⟩
  | loop count body | thread child body =>
    cases t' <;> simp only [Stmt.mark, reduceCtorEq] at hmark
    obtain ⟨hshape, rfl⟩ := body_unambiguous (ih body (List.mem_cons_self ..)) h
    exact ⟨⟨hmark, rfl⟩, .cons hshape .nil, rfl⟩
  | switch value arms =>
    cases t' <;> simp only [Stmt.mark, reduceCtorEq] at hmark
    simp only [List.append_assoc] at h
    obtain ⟨hoperators, hshapes, rfl⟩ := arms_unambiguous (fun a ha => ih a.body (List.mem_map_of_mem ha)) h
    exact ⟨⟨rfl, hoperators⟩, hshapes, rfl⟩
  | _ =>
    cases t' <;> simp only [Stmt.mark, reduceCtorEq] at hmark <;> exact ⟨⟨hsame, rfl⟩, .nil, h⟩

/-- The marks of the lines of a block tell its shape and where it ends, whatever stands behind it. -/
theorem Block.sameShape_of_marks {b b' : Block} {n n' : Nat} {k k' : List Mark} (hk : Stopped k) (hk' : Stopped k')
    (h : marks (outline n b) ++ k = marks (outline n' b') ++ k') : SameShape b b' ∧ k = k' := by
  suffices Unambiguous b from this hk hk' h
  clear hk hk' h
  have hfirst : ∀ (t : Stmt) (rest : Block) (n : Nat) (k : List Mark), ¬Stopped (marks (outline n (t :: rest)) ++ k) := by
    intro t rest n k hstopped
    rw [outline, marks_append, Stmt.marks_outline] at hstopped
    rcases hstopped _ rfl with hmark | hmark <;> cases t <;> cases hmark
  induction b using Block.induction with
  | nil =>
    intro b' n n' k k' hk hk' h
    cases b' with
    | nil => exact ⟨.nil, h⟩
    | cons t' rest' =>
      have hk : Stopped (marks (outline n []) ++ k) := hk
      rw [h] at hk
      exact absurd hk (hfirst t' rest' n' k')
  | cons t rest inside ih =>
    intro b' n n' k k' hk hk' h
    cases b' with
    | nil =>
      have hk' : Stopped (marks (outline n' []) ++ k') := hk'
      rw [← h] at hk'
      exact absurd hk' (hfirst t rest n k)
    | cons t' rest' =>
      rw [outline, outline, marks_append, marks_append, List.append_assoc, List.append_assoc] at h
      obtain ⟨hkind, hblocks, h⟩ := statement_unambiguous inside h
      obtain ⟨hrest, hend⟩ := ih hk hk' h
      exact ⟨.cons hkind hblocks hrest, hend⟩

/-! ### Texts tell the marks -/

/-- The mark of an indented line. -/
def Mark.ofLine (line : Text) : Mark := read (line.points.dropWhile CodePoint.isIndent)

section

variable {s : Scope} {unit : Text}

private theorem all_times {p : CodePoint → Bool} (h : unit.All p) (n : Nat) : (Text.times n unit).All p := by
  intro c hc
  obtain ⟨points, hpoints, hc⟩ := List.mem_flatten.1 hc
  rw [List.eq_of_mem_replicate hpoints] at hc
  exact h c hc

/-- Indentation does not change the mark of a line. -/
private theorem ofLine_of_indented (hs : s.Proper) (hunit : unit.All CodePoint.isIndent) {l : Nat × Line} (hl : l.2.Proper)
    {line : Text} (h : Line.indented s unit l = .ok line) : Mark.ofLine line = l.2.mark ∧ .char '\n' ∉ line.points := by
  obtain ⟨text, htext, h⟩ := bind_eq_ok_iff.1 h
  cases h
  obtain ⟨hread, hstarts, hnewline⟩ := Line.bears_text hs hl htext
  have hindent := all_times hunit l.1
  constructor
  · have hdrop : text.points.dropWhile CodePoint.isIndent = text.points := by
      cases hpoints : text.points with
      | nil => rfl
      | cons c rest =>
        have hc := hstarts c (by rw [hpoints]; rfl)
        rw [List.dropWhile_cons_of_neg (by simp [hc])]
    rw [Mark.ofLine, Text.points_append, List.dropWhile_append_of_pos hindent, hdrop, hread]
  · rw [Text.points_append, List.mem_append, not_or]
    exact ⟨hindent.notMem (by decide), hnewline⟩

private theorem ofLine_of_mapM (hs : s.Proper) (hunit : unit.All CodePoint.isIndent) {ls : List (Nat × Line)}
    (hls : ∀ l ∈ ls, l.2.Proper) {lines : List Text} (h : ls.mapM (Line.indented s unit) = .ok lines) :
    lines.map Mark.ofLine = marks ls ∧ ∀ line ∈ lines, .char '\n' ∉ line.points := by
  rw [mapM_eq_ok_iff] at h
  induction h with
  | nil => exact ⟨rfl, nofun⟩
  | cons hl _ ih =>
    obtain ⟨hproper, hrest⟩ := List.forall_mem_cons.1 hls
    obtain ⟨hmark, hnewline⟩ := ofLine_of_indented hs hunit hproper hl
    obtain ⟨hmarks, hnewlines⟩ := ih hrest
    refine ⟨?_, List.forall_mem_cons.2 ⟨hnewline, hnewlines⟩⟩
    rw [List.map_cons, hmark, hmarks]
    rfl

/-- The lines of a text that are single ones are told by it, behind a common beginning. -/
private theorem lines_eq_of_intercalate {header : Text} {ls ls' : List Text} (hne : ls ≠ []) (hne' : ls' ≠ [])
    (hls : ∀ l ∈ ls, .char '\n' ∉ l.points) (hls' : ∀ l ∈ ls', .char '\n' ∉ l.points)
    (h : Text.intercalate "\n" (header :: ls) = Text.intercalate "\n" (header :: ls')) : ls = ls' := by
  have hsplit : ∀ {ls : List Text}, ls ≠ [] → (∀ l ∈ ls, .char '\n' ∉ l.points) →
      ([.char '\n'].intercalate (ls.map Text.points)).splitOn (.char '\n') = ls.map Text.points := by
    intro ls hne hls
    refine List.splitOn_intercalate (CodePoint.char '\n') ?_ (by simpa using hne)
    intro points hpoints
    obtain ⟨l, hl, rfl⟩ := List.mem_map.1 hpoints
    exact hls l hl
  have hpoints := congrArg Text.points h
  simp only [Text.intercalate, List.map_cons] at hpoints
  rw [List.intercalate_cons_of_ne_nil (by simpa using hne), List.intercalate_cons_of_ne_nil (by simpa using hne')] at hpoints
  have hrest := List.append_cancel_left hpoints
  have hmap : ls.map Text.points = ls'.map Text.points := by
    rw [← hsplit hne hls, ← hsplit hne' hls']
    exact congrArg _ hrest
  exact (List.map_inj_right fun _ _ => Text.ext).1 hmap

end

/-! ### Texts tell the shape -/

private theorem proper_of_mem_outline {b : Block} (hb : ∀ t ∈ Block.statements b, t.Proper) (n : Nat) :
    ∀ l ∈ Block.outline n b, l.2.Proper :=
  Block.forall_outline hb (fun hmem a ha => (hb _ hmem).2 a ha) trivial trivial n

/-- The lines of the body of a declaration are told by its text. -/
private theorem body_eq_of_text {d d' : ScriptDeclaration} {called : Text} {lines lines' : List Text}
    (hd : d'.parameters = d.parameters) (hlines : ∀ l ∈ lines, .char '\n' ∉ l.points)
    (hlines' : ∀ l ∈ lines', .char '\n' ∉ l.points)
    (h : Text.intercalate "\n" (d.lines called lines) ++ "\n" = Text.intercalate "\n" (d'.lines called lines') ++ "\n") :
    lines = lines' := by
  have hbrace : ∀ l ∈ [("\x7d" : Text)], .char '\n' ∉ l.points := by decide
  have hintercalate := Text.ext (List.append_cancel_right (congrArg Text.points h))
  rw [ScriptDeclaration.lines, ScriptDeclaration.lines, hd] at hintercalate
  exact List.append_cancel_right (lines_eq_of_intercalate (by simp) (by simp)
    (List.forall_mem_append.2 ⟨hlines, hbrace⟩) (List.forall_mem_append.2 ⟨hlines', hbrace⟩) hintercalate)

/-- Scripts whose names are words have the same shape if declarations that differ in nothing else have the same text. -/
theorem ScriptDeclaration.sameShape_of_text {s : Scope} {unit text : Text} {name : Callee}
    {parameters : List (Text × DataType)} {b b' : Block} (hs : s.Proper) (hunit : unit.All CodePoint.isIndent)
    (hb : ∀ t ∈ Block.statements b, t.Proper) (hb' : ∀ t ∈ Block.statements b', t.Proper)
    (h : ScriptDeclaration.text ⟨name, parameters, b⟩ s unit = .ok text)
    (h' : ScriptDeclaration.text ⟨name, parameters, b'⟩ s unit = .ok text) : Block.SameShape b b' := by
  rw [text_eq] at h h'
  obtain ⟨called, hname, h⟩ := bind_eq_ok_iff.1 h
  obtain ⟨called', hname', h'⟩ := bind_eq_ok_iff.1 h'
  obtain ⟨lines, hlines, h⟩ := bind_eq_ok_iff.1 h
  obtain ⟨lines', hlines', h'⟩ := bind_eq_ok_iff.1 h'
  have hcalled : called = called' := Except.ok.inj (hname.symm.trans hname')
  subst hcalled
  obtain ⟨hmarks, hnewlines⟩ := ofLine_of_mapM hs hunit (proper_of_mem_outline hb 1) hlines
  obtain ⟨hmarks', hnewlines'⟩ := ofLine_of_mapM hs hunit (proper_of_mem_outline hb' 1) hlines'
  have hbody : lines = lines' := body_eq_of_text rfl hnewlines hnewlines' (Except.ok.inj (h.trans h'.symm))
  have hall : marks (Block.outline 1 b) ++ [] = marks (Block.outline 1 b') ++ [] := by rw [← hmarks, ← hmarks', hbody]
  exact (Block.sameShape_of_marks stopped_nil stopped_nil hall).1

/-- A loop that is left at once, by the end of a loop or of an arm, and a branch with an empty block. -/
def leftBlock (left : Stmt) (value : Expr) : Block :=
  [.loop none [left], .branchElse (.comparison (.identifier "x") "==" value) [] [.ret]]

/-- The text does not show which end it is that leaves the loop, and whether a value is a number or named like one. -/
theorem ScriptDeclaration.sameShape_of_text_left :
    Block.SameShape (leftBlock .breakLoop (.int 1)) (leftBlock .breakSwitch (.identifier "1")) := by
  have hscope : Scope.Proper .base := nofun
  have hx : IsWord "x" := ⟨by decide, by decide⟩
  have hone : IsWord "1" := ⟨by decide, by decide⟩
  have hproper : ∀ t ∈ Block.statements (leftBlock .breakLoop (.int 1)), t.Proper := by
    simp [leftBlock, Block.statements, Stmt.statements, Stmt.Proper, Expr.Proper, comparisonOperators, Relation.symbol, hx]
  have hproper' : ∀ t ∈ Block.statements (leftBlock .breakSwitch (.identifier "1")), t.Proper := by
    simp [leftBlock, Block.statements, Stmt.statements, Stmt.Proper, Expr.Proper, comparisonOperators, Relation.symbol, hx,
      hone]
  have htext : ScriptDeclaration.text ⟨.named "main", [], leftBlock .breakLoop (.int 1)⟩ .base " " =
      .ok "fun main() \x7b\n loop \x7b\n  break\n \x7d\n if x == 1 \x7b\n \x7d else \x7b\n  return\n \x7d\n\x7d\n" := by
    decide +kernel
  have htext' : ScriptDeclaration.text ⟨.named "main", [], leftBlock .breakSwitch (.identifier "1")⟩ .base " " =
      .ok "fun main() \x7b\n loop \x7b\n  break\n \x7d\n if x == 1 \x7b\n \x7d else \x7b\n  return\n \x7d\n\x7d\n" := by
    decide +kernel
  exact sameShape_of_text hscope (by decide) hproper hproper' htext htext'

end MapScript
