import MapScript.Proofs.Script.Parts

/-!
# Scripts as lines of items

The items of a script are its simple statements together with the openings, turns and closings of its blocks, in the
order in which a reader comes to them. An arm of a switch has no closing item of its own.

Items without their contents are the parts of speech of a script, and `Derives` is the grammar of their lines. It derives
the lines of scripts and no others (`derives_block_iff`).
-/

namespace MapScript

/-- Statements without blocks. -/
def Stmt.isSimple : Stmt → Bool
  | branch .. | branchElse .. | loop .. | switch .. | thread .. => false
  | declare .. | assign .. | call .. | ret | breakLoop | breakSwitch | label _ | goto _ | wait .. => true

/-- A simple statement, or the place where a block opens, where it goes on to another one, or where it closes. -/
inductive Item
  | simple (t : Stmt) (h : t.isSimple = true)
  | loop (count : Option Expr)
  | endLoop
  | branch (condition : Expr)
  | otherwise
  | endBranch
  | switch (value : Expr)
  | arm (operator : String) (values : List Expr)
  | endSwitch
  | thread (child : Bool)
  | endThread (child : Bool)

mutual

/-- The items of a statement in a line. -/
def Stmt.items : Stmt → List Item
  | .declare type name value => [.simple (.declare type name value) rfl]
  | .assign name operator value => [.simple (.assign name operator value) rfl]
  | .call callee arguments kind => [.simple (.call callee arguments kind) rfl]
  | .ret => [.simple .ret rfl]
  | .breakLoop => [.simple .breakLoop rfl]
  | .breakSwitch => [.simple .breakSwitch rfl]
  | .label index => [.simple (.label index) rfl]
  | .goto index => [.simple (.goto index) rfl]
  | .wait amount seconds => [.simple (.wait amount seconds) rfl]
  | .branch condition body => .branch condition :: (Block.items body ++ [.endBranch])
  | .branchElse condition body otherwise =>
    .branch condition :: (Block.items body ++ .otherwise :: (Block.items otherwise ++ [.endBranch]))
  | .loop count body => .loop count :: (Block.items body ++ [.endLoop])
  | .switch value arms => .switch value :: (Arm.items arms ++ [.endSwitch])
  | .thread child body => .thread child :: (Block.items body ++ [.endThread child])

/-- The items of a block in a line. -/
def Block.items : List Stmt → List Item
  | [] => []
  | t :: rest => t.items ++ Block.items rest

/-- The items of the arms of a switch in a line. -/
def Arm.items : List Arm → List Item
  | [] => []
  | ⟨operator, values, body⟩ :: rest => .arm operator values :: (Block.items body ++ Arm.items rest)

end

theorem Stmt.items_of_isSimple {t : Stmt} (h : t.isSimple = true) : t.items = [.simple t h] := by
  cases t <;> first | rfl | cases h

theorem Block.items_append (b c : Block) : Block.items (b ++ c) = Block.items b ++ Block.items c := by
  induction b with
  | nil => rfl
  | cons t rest ih => rw [List.cons_append, items, items, ih, List.append_assoc]

theorem Block.items_singleton (t : Stmt) : Block.items [t] = t.items := by
  rw [items, items, List.append_nil]

theorem Arm.items_append (arms more : List Arm) : Arm.items (arms ++ more) = Arm.items arms ++ Arm.items more := by
  induction arms with
  | nil => rfl
  | cons a rest ih =>
    obtain ⟨operator, values, body⟩ := a
    rw [List.cons_append, items, items, ih, List.cons_append, List.append_assoc]

/-! ### Items of statements inside -/

theorem Arm.items_subset {arms : List Arm} {a : Arm} (ha : a ∈ arms) :
    .arm a.operator a.values ∈ items arms ∧ Block.items a.body ⊆ items arms := by
  induction arms with
  | nil => cases ha
  | cons b rest ih =>
    obtain ⟨operator, values, body⟩ := b
    rw [items]
    rcases List.mem_cons.1 ha with rfl | ha
    · exact ⟨List.mem_cons_self .., fun _ h => List.mem_cons_of_mem _ (List.mem_append_left _ h)⟩
    · obtain ⟨harm, hbody⟩ := ih ha
      have hrest : ∀ {x}, x ∈ items rest → x ∈ .arm operator values :: (Block.items body ++ items rest) :=
        fun h => List.mem_cons_of_mem _ (List.mem_append_right _ h)
      exact ⟨hrest harm, fun _ h => hrest (hbody h)⟩

theorem Stmt.items_subset {t : Stmt} {d : Block} (hd : d ∈ t.blocks) : Block.items d ⊆ t.items := by
  intro x hx
  cases t with
  | branch condition body | loop count body | thread child body =>
    rw [List.mem_singleton.1 hd] at hx
    exact List.mem_cons_of_mem _ (List.mem_append_left _ hx)
  | branchElse condition body otherwise =>
    rw [items]
    rcases List.mem_cons.1 hd with rfl | hd
    · exact List.mem_cons_of_mem _ (List.mem_append_left _ hx)
    · rw [List.mem_singleton.1 hd] at hx
      refine List.mem_cons_of_mem _ (List.mem_append_right _ (List.mem_cons_of_mem _ ?_))
      exact List.mem_append_left _ hx
  | switch value arms =>
    obtain ⟨a, ha, rfl⟩ := List.mem_map.1 hd
    exact List.mem_cons_of_mem _ (List.mem_append_left _ ((Arm.items_subset ha).2 hx))
  | _ => cases hd

/-- The items of a statement at any depth are items of the block. -/
theorem Block.items_subset {t : Stmt} {b : Block} (ht : t ∈ statements b) : t.items ⊆ items b := by
  induction b using Block.induction with
  | nil => cases ht
  | cons u rest inside ih =>
    intro x hx
    rw [items]
    rcases mem_statements_cons.1 ht with rfl | ⟨d, hd, ht⟩ | ht
    · exact List.mem_append_left _ hx
    · exact List.mem_append_left _ (Stmt.items_subset hd (inside d hd ht hx))
    · exact List.mem_append_right _ (ih ht hx)

/-! ### The grammar of lines -/

/-- An item without its contents. -/
inductive Part
  | simple
  | loop
  | endLoop
  | branch
  | otherwise
  | endBranch
  | switch
  | arm
  | endSwitch
  | thread (child : Bool)
  | endThread (child : Bool)
  deriving DecidableEq, Repr

def Item.part : Item → Part
  | simple .. => .simple
  | loop _ => .loop
  | endLoop => .endLoop
  | branch _ => .branch
  | otherwise => .otherwise
  | endBranch => .endBranch
  | switch _ => .switch
  | arm .. => .arm
  | endSwitch => .endSwitch
  | thread child => .thread child
  | endThread child => .endThread child

/-- What a line may be derived from. -/
inductive Symbol
  | block
  | statement
  | arms

/-- The grammar: a block is a sequence of statements, the arms of a switch are a sequence of arms with a block each, and a
statement is a simple one or one with blocks between its parts. -/
inductive Derives : Symbol → List Part → Prop
  | empty : Derives .block []
  | next {ps qs : List Part} : Derives .statement ps → Derives .block qs → Derives .block (ps ++ qs)
  | simple : Derives .statement [.simple]
  | loop {ps : List Part} : Derives .block ps → Derives .statement (.loop :: (ps ++ [.endLoop]))
  | branch {ps : List Part} : Derives .block ps → Derives .statement (.branch :: (ps ++ [.endBranch]))
  | branchElse {ps qs : List Part} : Derives .block ps → Derives .block qs →
    Derives .statement (.branch :: (ps ++ .otherwise :: (qs ++ [.endBranch])))
  | switch {ps : List Part} : Derives .arms ps → Derives .statement (.switch :: (ps ++ [.endSwitch]))
  | thread {ps : List Part} (child : Bool) : Derives .block ps →
    Derives .statement (.thread child :: (ps ++ [.endThread child]))
  | noArms : Derives .arms []
  | arm {ps qs : List Part} : Derives .block ps → Derives .arms qs → Derives .arms (.arm :: (ps ++ qs))

private theorem derives_arms {arms : List Arm}
    (h : ∀ a ∈ arms, Derives .block ((Block.items a.body).map Item.part)) :
    Derives .arms ((Arm.items arms).map Item.part) := by
  induction arms with
  | nil => exact .noArms
  | cons a rest ih =>
    obtain ⟨operator, values, body⟩ := a
    rw [Arm.items, List.map_cons, List.map_append]
    exact .arm (h _ (List.mem_cons_self ..)) (ih fun a ha => h a (List.mem_cons_of_mem _ ha))

private theorem derives_statement {t : Stmt} (h : ∀ d ∈ t.blocks, Derives .block ((Block.items d).map Item.part)) :
    Derives .statement (t.items.map Item.part) := by
  cases t with
  | branch condition body =>
    rw [Stmt.items, List.map_cons, List.map_append]
    exact .branch (h body (List.mem_cons_self ..))
  | branchElse condition body otherwise =>
    rw [Stmt.items, List.map_cons, List.map_append, List.map_cons, List.map_append]
    exact .branchElse (h body (List.mem_cons_self ..)) (h otherwise (List.mem_cons_of_mem _ (List.mem_cons_self ..)))
  | loop count body =>
    rw [Stmt.items, List.map_cons, List.map_append]
    exact .loop (h body (List.mem_cons_self ..))
  | switch value arms =>
    rw [Stmt.items, List.map_cons, List.map_append]
    exact .switch (derives_arms fun a ha => h a.body (List.mem_map_of_mem ha))
  | thread child body =>
    rw [Stmt.items, List.map_cons, List.map_append]
    exact .thread child (h body (List.mem_cons_self ..))
  | _ => exact .simple

/-- The line of every script is derived. -/
theorem derives_items (b : Block) : Derives .block ((Block.items b).map Item.part) := by
  induction b using Block.induction with
  | nil => exact .empty
  | cons t rest inside ih =>
    rw [Block.items, List.map_append]
    exact .next (derives_statement inside) ih

/-- Whether items are the line of a tree of the kind that the symbol stands for. -/
def Symbol.IsLine : Symbol → List Item → Prop
  | block, items => ∃ b, Block.items b = items
  | statement, items => ∃ t : Stmt, t.items = items
  | arms, items => ∃ arms, Arm.items arms = items

private theorem exists_of_enclosed {items : List Item} {first last : Part} {ps : List Part}
    (hp : items.map Item.part = first :: (ps ++ [last])) : ∃ opening body closing,
      items = opening :: (body ++ [closing]) ∧ opening.part = first ∧ body.map Item.part = ps ∧
      closing.part = last := by
  obtain ⟨opening, rest, rfl, ho, hr⟩ := List.map_eq_cons_iff.1 hp
  obtain ⟨body, back, rfl, hb, hback⟩ := List.map_eq_append_iff.1 hr
  obtain ⟨closing, none, rfl, hc, hn⟩ := List.map_eq_cons_iff.1 hback
  obtain rfl := List.map_eq_nil_iff.1 hn
  exact ⟨opening, body, closing, rfl, ho, hb, hc⟩

private theorem Derives.isLine {symbol : Symbol} {ps : List Part} (h : Derives symbol ps) {items : List Item}
    (hp : items.map Item.part = ps) : symbol.IsLine items := by
  induction h generalizing items with
  | empty => exact ⟨[], (List.map_eq_nil_iff.1 hp).symm⟩
  | next _ _ ih ih' =>
    obtain ⟨front, back, rfl, hf, hb⟩ := List.map_eq_append_iff.1 hp
    obtain ⟨t, rfl⟩ := ih hf
    obtain ⟨b, rfl⟩ := ih' hb
    exact ⟨t :: b, rfl⟩
  | simple =>
    obtain ⟨item, rest, rfl, hi, hr⟩ := List.map_eq_cons_iff.1 hp
    obtain rfl := List.map_eq_nil_iff.1 hr
    cases item <;> cases hi
    rename_i t ht
    exact ⟨t, t.items_of_isSimple ht⟩
  | loop _ ih =>
    obtain ⟨opening, body, closing, rfl, ho, hb, hc⟩ := exists_of_enclosed hp
    obtain ⟨b, rfl⟩ := ih hb
    cases opening <;> cases ho
    cases closing <;> cases hc
    exact ⟨.loop _ b, rfl⟩
  | branch _ ih =>
    obtain ⟨opening, body, closing, rfl, ho, hb, hc⟩ := exists_of_enclosed hp
    obtain ⟨b, rfl⟩ := ih hb
    cases opening <;> cases ho
    cases closing <;> cases hc
    exact ⟨.branch _ b, rfl⟩
  | branchElse _ _ ih ih' =>
    obtain ⟨opening, rest, rfl, ho, hr⟩ := List.map_eq_cons_iff.1 hp
    obtain ⟨body, back, rfl, hb, hback⟩ := List.map_eq_append_iff.1 hr
    obtain ⟨turn, body', closing, rfl, ht, hb', hc⟩ := exists_of_enclosed hback
    obtain ⟨b, rfl⟩ := ih hb
    obtain ⟨b', rfl⟩ := ih' hb'
    cases opening <;> cases ho
    cases turn <;> cases ht
    cases closing <;> cases hc
    exact ⟨.branchElse _ b b', rfl⟩
  | switch _ ih =>
    obtain ⟨opening, body, closing, rfl, ho, hb, hc⟩ := exists_of_enclosed hp
    obtain ⟨arms, rfl⟩ := ih hb
    cases opening <;> cases ho
    cases closing <;> cases hc
    exact ⟨.switch _ arms, rfl⟩
  | thread child _ ih =>
    obtain ⟨opening, body, closing, rfl, ho, hb, hc⟩ := exists_of_enclosed hp
    obtain ⟨b, rfl⟩ := ih hb
    cases opening <;> cases ho
    cases closing <;> cases hc
    exact ⟨.thread child b, rfl⟩
  | noArms => exact ⟨[], (List.map_eq_nil_iff.1 hp).symm⟩
  | arm _ _ ih ih' =>
    obtain ⟨header, rest, rfl, hh, hr⟩ := List.map_eq_cons_iff.1 hp
    obtain ⟨body, more, rfl, hb, hm⟩ := List.map_eq_append_iff.1 hr
    obtain ⟨b, rfl⟩ := ih hb
    obtain ⟨arms, rfl⟩ := ih' hm
    cases header <;> cases hh
    exact ⟨⟨_, _, b⟩ :: arms, rfl⟩

/-- A line of items has a derivation from the symbol of blocks just when it is the line of a script. -/
theorem derives_block_iff {items : List Item} :
    Derives .block (items.map Item.part) ↔ ∃ b, Block.items b = items := by
  constructor
  · exact fun h => h.isLine rfl
  · rintro ⟨b, rfl⟩
    exact derives_items b

end MapScript
