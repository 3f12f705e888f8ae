import MapScript.Decoding.OpenBlocks
import MapScript.Proofs.Script.Items

/-!
# Adding items to an open script

An open script takes items one by one: a simple statement is appended to the innermost block, other items open a block,
go on to the next one or close it. The line of an open script consists of the items that have been added
(`items_of_add?`), and adding the line of a block appends its statements (`addAll?_items`). So a line leads from the empty
script to a script with all blocks closed just when it is the line of that script (`addAll?_empty_eq_some_iff`).
-/

namespace MapScript

/-- Items that may stand in a switch and outside its arms. -/
def Item.isSwitchPart : Item → Bool
  | arm .. | endSwitch => true
  | _ => false

namespace OpenScript

/-- Puts an item at the end of the script; none if it does not fit the innermost block. -/
def put? (o : OpenScript) : Item → Option OpenScript
  | .simple t _ => some (o.append t)
  | .loop count => some (o.enter (.loop count))
  | .endLoop => o.close? .loop
  | .branch condition => some (o.enter (.branch condition))
  | .otherwise => o.otherwise?
  | .endBranch => o.close? .branch
  | .switch value => some (o.enter (.switch value))
  | .arm operator values => o.switch?.map fun (value, arms, outside) => outside.enter (.arm value arms operator values)
  | .endSwitch => o.endSwitch?
  | .thread child => some (o.enter (.thread child))
  | .endThread child => o.close? (if child then .childThread else .thread)

/-- Adds an item to the script, which in a switch and outside its arms has to be a part of the switch. -/
def add? (o : OpenScript) (item : Item) : Option OpenScript :=
  if o.awaitsArm && !item.isSwitchPart then none else o.put? item

/-- Adds items one behind the other. -/
def addAll? (o : OpenScript) (items : List Item) : Option OpenScript := items.foldlM add? o

/-- Adds statements one behind the other to the innermost open block. -/
def appendAll (o : OpenScript) (b : Block) : OpenScript := b.foldl append o

/-! ### Adding the line of a block -/

section

variable {o : OpenScript}

theorem awaitsArm_append (o : OpenScript) (t : Stmt) : (o.append t).awaitsArm = o.awaitsArm := by
  obtain ⟨root, _ | ⟨b, outer⟩⟩ := o <;> rfl

theorem appendAll_enter (o : OpenScript) (opener : Opener) (body : Block) :
    (o.enter opener).appendAll body = ⟨o.root, ⟨opener, body⟩ :: o.blocks⟩ := by
  suffices ∀ front : Block, appendAll ⟨o.root, ⟨opener, front⟩ :: o.blocks⟩ body =
      ⟨o.root, ⟨opener, front ++ body⟩ :: o.blocks⟩ from this []
  induction body with
  | nil => intro front; rw [List.append_nil]; rfl
  | cons t rest ih =>
    intro front
    have h := ih (front ++ [t])
    rw [List.append_assoc] at h
    exact h

theorem appendAll_root (root body : Block) : appendAll ⟨root, []⟩ body = ⟨root ++ body, []⟩ := by
  induction body generalizing root with
  | nil => rw [List.append_nil]; rfl
  | cons t rest ih =>
    have h := ih (root ++ [t])
    rw [List.append_assoc] at h
    exact h

theorem addAll?_append (o : OpenScript) (front back : List Item) :
    o.addAll? (front ++ back) = (o.addAll? front).bind (·.addAll? back) :=
  List.foldlM_append ..

theorem addAll?_cons (o : OpenScript) (item : Item) (rest : List Item) :
    o.addAll? (item :: rest) = (o.add? item).bind (·.addAll? rest) :=
  List.foldlM_cons ..

theorem addAll?_singleton (o : OpenScript) (item : Item) : o.addAll? [item] = o.add? item := by
  rw [addAll?_cons]
  cases o.add? item <;> rfl

theorem add?_of_not_awaitsArm (h : o.awaitsArm = false) (item : Item) : o.add? item = o.put? item := by
  rw [add?, h, Bool.false_and]
  rfl

theorem addAll?_opening (h : o.awaitsArm = false) {opening : Item} {opener : Opener}
    (hopening : o.put? opening = some (o.enter opener)) (rest : List Item) :
    o.addAll? (opening :: rest) = (o.enter opener).addAll? rest := by
  rw [addAll?_cons, add?_of_not_awaitsArm h, hopening, Option.bind_some]

/-- The line of a block that has been opened, and what fits behind it. -/
private theorem addAll?_inside (opener : Opener) (hopener : decide (opener.kind = .switch) = false) {body : Block}
    (hbody : ∀ o : OpenScript, o.awaitsArm = false → o.addAll? (Block.items body) = some (o.appendAll body))
    {closing : Item} {o' : OpenScript} (hclosing : put? ⟨o.root, ⟨opener, body⟩ :: o.blocks⟩ closing = some o')
    (rest : List Item) : (o.enter opener).addAll? (Block.items body ++ closing :: rest) = o'.addAll? rest := by
  have hinside : ∀ body, awaitsArm ⟨o.root, ⟨opener, body⟩ :: o.blocks⟩ = false := fun _ => hopener
  have hbody := hbody (o.enter opener) (hinside [])
  rw [appendAll_enter] at hbody
  rw [addAll?_append, hbody, Option.bind_some, addAll?_cons, add?_of_not_awaitsArm (hinside body), hclosing,
    Option.bind_some]

/-- The arms of a switch are added to those that it has. -/
private theorem addAll?_arms {arms more : List Arm} {value : Expr} {outside : OpenScript}
    (hswitch : o.switch? = some (value, arms, outside))
    (hmore : ∀ a ∈ more, ∀ o : OpenScript, o.awaitsArm = false →
      o.addAll? (Block.items a.body) = some (o.appendAll a.body)) :
    ∃ o', o.addAll? (Arm.items more) = some o' ∧ o'.switch? = some (value, arms ++ more, outside) := by
  induction more generalizing o arms with
  | nil => exact ⟨o, rfl, by rw [List.append_nil]; exact hswitch⟩
  | cons a rest ih =>
    obtain ⟨operator, values, body⟩ := a
    have hadd : o.add? (.arm operator values) = some (outside.enter (.arm value arms operator values)) := by
      rw [add?, Item.isSwitchPart, Bool.not_true, Bool.and_false]
      show o.switch?.map _ = _
      rw [hswitch, Option.map_some]
    have hbody := hmore _ (List.mem_cons_self ..) (outside.enter (.arm value arms operator values)) rfl
    rw [appendAll_enter] at hbody
    have hswitch' : switch? ⟨outside.root, ⟨.arm value arms operator values, body⟩ :: outside.blocks⟩ =
        some (value, arms ++ [⟨operator, values, body⟩], outside) := rfl
    obtain ⟨o', ho', hs⟩ := ih hswitch' fun a ha => hmore a (List.mem_cons_of_mem _ ha)
    refine ⟨o', ?_, by rw [hs, List.append_assoc]; rfl⟩
    rw [Arm.items, addAll?_cons, hadd, Option.bind_some, addAll?_append, hbody, Option.bind_some]
    exact ho'

/-- A switch ends with the arms that it has. -/
private theorem endSwitch?_of_switch? {value : Expr} {arms : List Arm} {outside : OpenScript}
    (h : o.switch? = some (value, arms, outside)) : o.endSwitch? = some (outside.append (.switch value arms)) := by
  unfold switch? at h
  split at h
  · rename_i hblocks
    cases h
    simp only [endSwitch?, close?, hblocks]
    rfl
  · rename_i hblocks
    cases h
    simp only [endSwitch?, close?, hblocks]
    rfl
  · cases h

private theorem addAll?_statement {t : Stmt} (h : o.awaitsArm = false)
    (hblocks : ∀ d ∈ t.blocks, ∀ o : OpenScript, o.awaitsArm = false →
      o.addAll? (Block.items d) = some (o.appendAll d)) : o.addAll? t.items = some (o.append t) := by
  cases t with
  | branch condition body =>
    have hbody := hblocks body (List.mem_cons_self ..)
    rw [Stmt.items, addAll?_opening h rfl]
    exact addAll?_inside (.branch condition) rfl hbody rfl []
  | branchElse condition body otherwise =>
    have hbody := hblocks body (List.mem_cons_self ..)
    have hotherwise := hblocks otherwise (List.mem_cons_of_mem _ (List.mem_cons_self ..))
    rw [Stmt.items, addAll?_opening h rfl, addAll?_inside (.branch condition) rfl hbody rfl]
    show (o.enter (.otherwise condition body)).addAll? _ = _
    exact addAll?_inside (.otherwise condition body) rfl hotherwise rfl []
  | loop count body =>
    have hbody := hblocks body (List.mem_cons_self ..)
    rw [Stmt.items, addAll?_opening h rfl]
    exact addAll?_inside (.loop count) rfl hbody rfl []
  | switch value arms =>
    have harms : ∀ a ∈ arms, ∀ o : OpenScript, o.awaitsArm = false →
        o.addAll? (Block.items a.body) = some (o.appendAll a.body) :=
      fun a ha => hblocks a.body (List.mem_map_of_mem ha)
    have hswitch : (o.enter (.switch value)).switch? = some (value, [], o) := rfl
    obtain ⟨o', ho', hs⟩ := addAll?_arms hswitch harms
    rw [Stmt.items, addAll?_opening h rfl, addAll?_append, ho', Option.bind_some, addAll?_singleton, add?,
      Item.isSwitchPart, Bool.not_true, Bool.and_false]
    exact endSwitch?_of_switch? hs
  | thread child body =>
    have hbody := hblocks body (List.mem_cons_self ..)
    rw [Stmt.items, addAll?_opening h rfl]
    cases child with
    | false => exact addAll?_inside (.thread false) rfl hbody rfl []
    | true => exact addAll?_inside (.thread true) rfl hbody rfl []
  | _ =>
    rw [Stmt.items_of_isSimple rfl, addAll?_singleton, add?_of_not_awaitsArm h]
    rfl

/-- Adding the line of a block appends its statements. -/
theorem addAll?_items (b : Block) (h : o.awaitsArm = false) : o.addAll? (Block.items b) = some (o.appendAll b) := by
  induction b using Block.induction generalizing o with
  | nil => rfl
  | cons t rest inside ih =>
    rw [Block.items, addAll?_append, addAll?_statement h fun d hd o ho => inside d hd ho, Option.bind_some,
      ih (by rw [awaitsArm_append, h])]
    rfl

end

/-! ### The line of an open script -/

end OpenScript

/-- The items that have been read when a block is open, up to its first statement. -/
def Opener.items : Opener → List Item
  | loop count => [.loop count]
  | branch condition => [.branch condition]
  | otherwise condition body => .branch condition :: (Block.items body ++ [.otherwise])
  | switch value => [.switch value]
  | arm value arms operator values => .switch value :: (Arm.items arms ++ [.arm operator values])
  | thread child => [.thread child]

/-- The item that closes a block. -/
def Opener.closing : Opener → Item
  | loop _ => .endLoop
  | branch _ | otherwise .. => .endBranch
  | switch _ | arm .. => .endSwitch
  | thread child => .endThread child

/-- The closing item depends on the kind of the block alone. -/
theorem Opener.closing_eq (opener : Opener) : opener.closing = match opener.kind with
    | .loop => .endLoop
    | .branch => .endBranch
    | .thread => .endThread false
    | .childThread => .endThread true
    | _ => .endSwitch := by
  cases opener with
  | thread child => cases child <;> rfl
  | _ => rfl

theorem Opener.items_close (opener : Opener) (body : Block) (h : opener.kind = .switch → body = []) :
    (opener.close body).items = opener.items ++ Block.items body ++ [opener.closing] := by
  cases opener with
  | switch value =>
    rw [h rfl]
    rfl
  | arm value arms operator values =>
    simp [close, Stmt.items, Arm.items_append, Arm.items, items, closing]
  | _ => simp [close, Stmt.items, items, closing]

namespace OpenScript

/-- The items of an open script in a line, with these blocks open. -/
def itemsFrom (root : Block) : List OpenBlock → List Item
  | [] => Block.items root
  | b :: outer => itemsFrom root outer ++ (b.opener.items ++ Block.items b.body)

/-- The items of an open script in a line. -/
def items (o : OpenScript) : List Item := itemsFrom o.root o.blocks

/-- A switch outside its arms has no statements, and no block is open in it. -/
structure Orderly (o : OpenScript) : Prop where
  innermost : ∀ b ∈ o.blocks.head?, b.opener.kind = .switch → b.body = []
  outer : ∀ b ∈ o.blocks.tail, b.opener.kind ≠ .switch

section

variable {o o' : OpenScript}

theorem items_append (o : OpenScript) (t : Stmt) : (o.append t).items = o.items ++ t.items := by
  obtain ⟨root, _ | ⟨b, outer⟩⟩ := o
  · rw [append, items, itemsFrom, Block.items_append, Block.items_singleton]
    rfl
  · simp only [append, items, itemsFrom, Block.items_append, Block.items_singleton, List.append_assoc]

theorem items_enter (o : OpenScript) (opener : Opener) : (o.enter opener).items = o.items ++ opener.items := by
  rw [enter, items, itemsFrom, Block.items, List.append_nil]
  rfl

theorem Orderly.empty : Orderly .empty := ⟨nofun, nofun⟩

theorem Orderly.append (h : o.Orderly) (ha : o.awaitsArm = false) (t : Stmt) : (o.append t).Orderly := by
  obtain ⟨root, _ | ⟨b, outer⟩⟩ := o
  · exact ⟨nofun, nofun⟩
  · refine ⟨fun c hc hk => ?_, h.outer⟩
    cases hc
    exact absurd hk (of_decide_eq_false ha)

theorem Orderly.enter (h : o.Orderly) (ha : o.awaitsArm = false) (opener : Opener) : (o.enter opener).Orderly := by
  refine ⟨fun b hb _ => by cases hb; rfl, fun b hb => ?_⟩
  obtain ⟨root, _ | ⟨c, outer⟩⟩ := o
  · cases hb
  · rcases List.mem_cons.1 hb with rfl | hb
    · exact of_decide_eq_false ha
    · exact h.outer b hb

/-- What is left when the innermost block is taken away. -/
private theorem Orderly.outside {root : Block} {b : OpenBlock} {outer : List OpenBlock}
    (h : Orderly ⟨root, b :: outer⟩) : Orderly ⟨root, outer⟩ ∧ awaitsArm ⟨root, outer⟩ = false := by
  cases outer with
  | nil => exact ⟨⟨nofun, nofun⟩, rfl⟩
  | cons c outer =>
    have hc := h.outer c (List.mem_cons_self ..)
    refine ⟨⟨fun d hd hk => ?_, fun d hd => h.outer d (List.mem_cons_of_mem _ hd)⟩, decide_eq_false hc⟩
    cases hd
    exact absurd hk hc

/-- A block that is closed has its closing item at the end of its line. -/
theorem items_of_close? {kind : BlockKind} (h : o.Orderly) (hc : o.close? kind = some o') :
    o'.Orderly ∧ ∃ opener : Opener, opener.kind = kind ∧ o'.items = o.items ++ [opener.closing] := by
  obtain ⟨root, _ | ⟨b, outer⟩⟩ := o
  · cases hc
  · simp only [close?] at hc
    split at hc
    · rename_i hk
      cases hc
      obtain ⟨ho, ha⟩ := h.outside
      refine ⟨ho.append ha _, b.opener, hk, ?_⟩
      rw [items_append, Opener.items_close b.opener b.body (h.innermost b rfl), ← List.append_assoc]
      rfl
    · cases hc

theorem items_of_otherwise? (h : o.Orderly) (ho : o.otherwise? = some o') :
    o'.Orderly ∧ o'.items = o.items ++ [.otherwise] := by
  unfold otherwise? at ho
  split at ho
  · rename_i condition body outer hblocks
    cases ho
    obtain ⟨root, blocks⟩ := o
    obtain rfl : blocks = _ := hblocks
    refine ⟨⟨fun b hb hk => by cases hb; rfl, h.outer⟩, ?_⟩
    simp [items, itemsFrom, Opener.items, Block.items]
  · cases ho

theorem items_of_switch? {value : Expr} {arms : List Arm} (h : o.Orderly)
    (hs : o.switch? = some (value, arms, o')) : o'.Orderly ∧ o'.awaitsArm = false ∧
      o.items = o'.items ++ .switch value :: Arm.items arms := by
  obtain ⟨root, blocks⟩ := o
  unfold switch? at hs
  split at hs
  · rename_i hblocks
    cases hs
    obtain rfl : blocks = _ := hblocks
    have hbody := h.innermost _ rfl rfl
    obtain ⟨ho, ha⟩ := h.outside
    refine ⟨ho, ha, ?_⟩
    simp only at hbody
    simp [items, itemsFrom, Opener.items, Arm.items, hbody, Block.items]
  · rename_i hblocks
    cases hs
    obtain rfl : blocks = _ := hblocks
    obtain ⟨ho, ha⟩ := h.outside
    refine ⟨ho, ha, ?_⟩
    simp [items, itemsFrom, Opener.items, Arm.items_append, Arm.items]
  · cases hs

/-- The line of a script grows by the item that is added. -/
theorem items_of_add? {item : Item} (h : o.Orderly) (ha : o.add? item = some o') :
    o'.Orderly ∧ o'.items = o.items ++ [item] := by
  unfold add? at ha
  split at ha
  · cases ha
  · rename_i hguard
    have hawaits : item.isSwitchPart = false → o.awaitsArm = false := by
      intro hp
      rw [hp, Bool.not_false, Bool.and_true] at hguard
      exact Bool.eq_false_iff.2 hguard
    cases item with
    | simple t ht =>
      cases ha
      exact ⟨h.append (hawaits rfl) t, by rw [items_append, t.items_of_isSimple ht]⟩
    | loop _ | branch _ | switch _ | thread _ =>
      cases ha
      exact ⟨h.enter (hawaits rfl) _, items_enter ..⟩
    | endLoop | endBranch =>
      obtain ⟨ho, opener, hk, hi⟩ := items_of_close? h ha
      exact ⟨ho, by rw [hi, opener.closing_eq, hk]⟩
    | endThread child =>
      obtain ⟨ho, opener, hk, hi⟩ := items_of_close? h ha
      exact ⟨ho, by rw [hi, opener.closing_eq, hk]; cases child <;> rfl⟩
    | otherwise => exact items_of_otherwise? h ha
    | arm operator values =>
      obtain ⟨⟨value, arms, outside⟩, hs, ha⟩ := Option.map_eq_some_iff.1 ha
      obtain ⟨ho, hno, hi⟩ := items_of_switch? h hs
      cases ha
      refine ⟨ho.enter hno _, ?_⟩
      rw [items_enter, hi, List.append_assoc]
      rfl
    | endSwitch =>
      -- the innermost block is an arm, or else the switch itself
      rcases Option.or_eq_some_iff.1 ha with ha | ⟨-, ha⟩
      · obtain ⟨ho, opener, hk, hi⟩ := items_of_close? h ha
        exact ⟨ho, by rw [hi, opener.closing_eq, hk]⟩
      · obtain ⟨ho, opener, hk, hi⟩ := items_of_close? h ha
        exact ⟨ho, by rw [hi, opener.closing_eq, hk]⟩

theorem items_of_addAll? {more : List Item} (h : o.Orderly) (ha : o.addAll? more = some o') :
    o'.items = o.items ++ more := by
  induction more generalizing o with
  | nil =>
    cases ha
    rw [List.append_nil]
  | cons item rest ih =>
    rw [addAll?_cons] at ha
    obtain ⟨o₁, h₁, ha⟩ := Option.bind_eq_some_iff.1 ha
    obtain ⟨ho₁, hi⟩ := items_of_add? h h₁
    rw [ih ho₁ ha, hi, List.append_assoc]
    rfl

/-- A line leads from the empty script to one without open blocks just when it is the line of that one. -/
theorem addAll?_empty_eq_some_iff {line : List Item} {b : Block} :
    empty.addAll? line = some ⟨b, []⟩ ↔ Block.items b = line := by
  constructor
  · exact items_of_addAll? .empty
  · rintro rfl
    rw [addAll?_items b rfl, empty, appendAll_root, List.nil_append]

end

end OpenScript

end MapScript
