import MapScript.Proofs.Script.Items

/-!
# Names that statements use

A statement declares a name, sets it, or writes it in some way, and it has the names that its expressions consult. All of
this belongs to the statement itself and not to those inside it. In a line, the expressions of a statement are at the
items where a reader comes to them (`Stmt.exists_item`), and simple statements are items
(`Block.filterMap_statement?`).
-/

namespace MapScript

/-- The names of variables in an expression. -/
def Expr.identifiers : Expr → List Text
  | identifier name => [name]
  | comparison lhs _ rhs => lhs.identifiers ++ rhs.identifiers
  | int _ | bool _ | float _ | pointer _ => []

namespace Stmt

/-- The expressions of a statement; the values of its arms are among those of a switch. -/
def expressions : Stmt → List Expr
  | declare _ _ value => value.toList
  | assign _ _ value => [value]
  | call _ arguments _ => arguments
  | wait amount _ => [amount]
  | branch condition _ | branchElse condition _ _ => [condition]
  | loop count _ => count.toList
  | switch value arms => value :: arms.flatMap Arm.values
  | ret | breakLoop | breakSwitch | label _ | goto _ | thread .. => []

/-- The name that a statement declares. -/
def declared? : Stmt → Option Text
  | declare _ name _ => some name
  | _ => none

/-- The name that a statement sets, as a declaration or a plain assignment does. -/
def set? : Stmt → Option Text
  | declare _ name _ => some name
  | assign name operator _ => if operator = "=" then some name else none
  | _ => none

/-- The name that a statement writes. -/
def written? : Stmt → Option Text
  | declare _ name _ | assign name _ _ => some name
  | _ => none

/-- The name that a statement reads besides those in its expressions: the variable that a value is combined with, or what
is called by a name. -/
def consulted? : Stmt → Option Text
  | assign name operator _ => if operator = "=" then none else some name
  | call (.named name) _ _ => some name
  | _ => none

theorem eq_declare {t : Stmt} {name : Text} (h : t.declared? = some name) :
    ∃ type value, t = .declare type name value := by
  cases t <;> cases h
  exact ⟨_, _, rfl⟩

theorem set?_of_declared? {t : Stmt} {name : Text} (h : t.declared? = some name) : t.set? = some name := by
  cases t <;> first | exact h | cases h

theorem written?_of_set? {t : Stmt} {name : Text} (h : t.set? = some name) : t.written? = some name := by
  cases t with
  | declare _ _ _ => exact h
  | assign other operator value =>
    rw [set?] at h
    split at h
    · exact h
    · cases h
  | _ => cases h

theorem isSimple_of_written? {t : Stmt} {name : Text} (h : t.written? = some name) : t.isSimple = true := by
  cases t <;> first | rfl | cases h

theorem isSimple_of_set? {t : Stmt} {name : Text} (h : t.set? = some name) : t.isSimple = true :=
  isSimple_of_written? (written?_of_set? h)

end Stmt

namespace Item

/-- The statement that an item is. -/
def statement? : Item → Option Stmt
  | simple t _ => some t
  | _ => none

def declared? (item : Item) : Option Text := item.statement?.bind Stmt.declared?

def set? (item : Item) : Option Text := item.statement?.bind Stmt.set?

def written? (item : Item) : Option Text := item.statement?.bind Stmt.written?

def consulted? (item : Item) : Option Text := item.statement?.bind Stmt.consulted?

theorem set?_eq_none {item : Item} (h : item.written? = none) : item.set? = none := by
  cases item with
  | simple t ht =>
    by_contra hne
    obtain ⟨name, hname⟩ := Option.ne_none_iff_exists'.1 hne
    have hwritten : t.written? = some name := Stmt.written?_of_set? hname
    have hnone : t.written? = none := h
    rw [hwritten] at hnone
    cases hnone
  | _ => rfl

/-- The expressions at an item. -/
def expressions : Item → List Expr
  | simple t _ => t.expressions
  | loop count => count.toList
  | branch condition => [condition]
  | switch value => [value]
  | arm _ values => values
  | endLoop | otherwise | endBranch | endSwitch | thread _ | endThread _ => []

/-- The names that an item reads. -/
def reads (item : Item) : List Text := item.consulted?.toList ++ item.expressions.flatMap Expr.identifiers

end Item

/-! ### Lines -/

/-- The expressions of a statement are at its items. -/
theorem Stmt.exists_item {t : Stmt} {e : Expr} (h : e ∈ t.expressions) : ∃ item ∈ t.items, e ∈ item.expressions := by
  cases t with
  | switch value arms =>
    rcases List.mem_cons.1 h with rfl | h
    · exact ⟨.switch e, List.mem_cons_self .., List.mem_cons_self ..⟩
    · obtain ⟨a, ha, he⟩ := List.mem_flatMap.1 h
      have harm : .arm a.operator a.values ∈ Arm.items arms := (Arm.items_subset ha).1
      exact ⟨_, List.mem_cons_of_mem _ (List.mem_append_left _ harm), he⟩
  | branch condition body => exact ⟨.branch condition, List.mem_cons_self .., h⟩
  | branchElse condition body otherwise => exact ⟨.branch condition, List.mem_cons_self .., h⟩
  | loop count body => exact ⟨.loop count, List.mem_cons_self .., h⟩
  | thread child body => cases h
  | _ => exact ⟨.simple _ rfl, List.mem_singleton_self _, h⟩

private theorem Arm.filterMap_statement? {arms : List Arm}
    (h : ∀ a ∈ arms, (Block.items a.body).filterMap Item.statement? = (Block.statements a.body).filter Stmt.isSimple) :
    (Arm.items arms).filterMap Item.statement? = (Arm.statements arms).filter Stmt.isSimple := by
  induction arms with
  | nil => rfl
  | cons a rest ih =>
    obtain ⟨operator, values, body⟩ := a
    have hbody := h _ (List.mem_cons_self ..)
    have hrest := ih fun a ha => h a (List.mem_cons_of_mem _ ha)
    rw [items, statements, List.filterMap_cons_none rfl, List.filterMap_append, List.filter_append, hbody, hrest]

private theorem Stmt.filterMap_statement? {t : Stmt}
    (h : ∀ d ∈ t.blocks, (Block.items d).filterMap Item.statement? = (Block.statements d).filter Stmt.isSimple) :
    t.items.filterMap Item.statement? = t.statements.filter Stmt.isSimple := by
  cases t with
  | branch condition body | loop count body | thread child body =>
    have hbody := h body (List.mem_cons_self ..)
    rw [items, statements, List.filterMap_cons_none rfl, List.filterMap_append, hbody,
      List.filter_cons_of_neg Bool.false_ne_true]
    exact List.append_nil _
  | branchElse condition body otherwise =>
    have hbody := h body (List.mem_cons_self ..)
    have hotherwise := h otherwise (List.mem_cons_of_mem _ (List.mem_cons_self ..))
    rw [items, statements, List.filterMap_cons_none rfl, List.filterMap_append, List.filterMap_cons_none rfl,
      List.filterMap_append, hbody, hotherwise, List.filter_cons_of_neg Bool.false_ne_true, List.filter_append]
    exact congrArg _ (List.append_nil _)
  | switch value arms =>
    have harms := Arm.filterMap_statement? fun a ha => h a.body (List.mem_map_of_mem ha)
    rw [items, statements, List.filterMap_cons_none rfl, List.filterMap_append, harms,
      List.filter_cons_of_neg Bool.false_ne_true]
    exact List.append_nil _
  | _ => rfl

/-- The simple statements of a tree, in their order, are those of its line. -/
theorem Block.filterMap_statement? (b : Block) :
    (items b).filterMap Item.statement? = (statements b).filter Stmt.isSimple := by
  induction b using Block.induction with
  | nil => rfl
  | cons t rest inside ih =>
    rw [items, statements, List.filterMap_append, List.filter_append, Stmt.filterMap_statement? inside, ih]

/-- Where a simple statement comes in the order of a script, it comes in the line, behind the same simple statements. -/
theorem Block.exists_items_eq {b front back : Block} {t : Stmt} (h : statements b = front ++ t :: back)
    (ht : t.isSimple = true) : ∃ before after, items b = before ++ .simple t ht :: after ∧
      before.filterMap Item.statement? = front.filter Stmt.isSimple := by
  have hline : (items b).filterMap Item.statement? = front.filter Stmt.isSimple ++ t :: back.filter Stmt.isSimple := by
    rw [Block.filterMap_statement?, h, List.filter_append, List.filter_cons_of_pos ht]
  obtain ⟨line, rest, hitems, hline, hrest⟩ := List.filterMap_eq_append_iff.1 hline
  obtain ⟨skipped, item, after, rfl, hskipped, hitem, -⟩ := List.filterMap_eq_cons_iff.1 hrest
  have hsimple : item = .simple t ht := by
    cases item <;> cases hitem
    rfl
  subst hsimple
  refine ⟨line ++ skipped, after, by rw [hitems, List.append_assoc], ?_⟩
  rw [List.filterMap_append, hline, List.filterMap_eq_nil_iff.2 hskipped, List.append_nil]

/-- What simple statements of a line set. -/
theorem forall_set?_ne_iff {before : List Item} {front : Block} (h : before.filterMap Item.statement? = front.filter Stmt.isSimple)
    (name : Text) : (∀ item ∈ before, item.set? ≠ some name) ↔ ∀ u ∈ front, u.set? ≠ some name := by
  constructor
  · intro hall u hu hset
    have hmem : u ∈ before.filterMap Item.statement? := h ▸ List.mem_filter.2 ⟨hu, Stmt.isSimple_of_set? hset⟩
    obtain ⟨item, hitem, hstatement⟩ := List.mem_filterMap.1 hmem
    refine hall item hitem ?_
    rw [Item.set?, hstatement]
    exact hset
  · intro hall item hitem hset
    obtain ⟨u, hstatement, hset⟩ := Option.bind_eq_some_iff.1 hset
    have hmem : u ∈ before.filterMap Item.statement? := List.mem_filterMap.2 ⟨item, hitem, hstatement⟩
    rw [h] at hmem
    exact hall u (List.mem_filter.1 hmem).1 hset

end MapScript
