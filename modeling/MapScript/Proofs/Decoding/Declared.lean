import MapScript.Proofs.Decoding.Reads

/-!
# Declarations

A local variable is declared where a script sets it for the first time, in whatever block this is. Everything else that
is written is an assignment (`Instruction.WritesAs`). While instructions are read, the variables that are declared are the
local ones that have been set (`Reading.Follows`), so that what an instruction writes depends on the instructions in front
of it and on nothing else (`Conveys.writesAs`).

In the tree, the first statement in the order of the script that sets a local variable declares it, and no other one does.
A declaration has the type of the storage class, and the innermost layer of the scope keeps this type; variables of other
storage are bound as well (`declarations_of_decode`).
-/

namespace MapScript

/-! ### What instructions write -/

/-- The instruction gives the variable a value that does not depend on the one it has. -/
def Instruction.Sets (i : Instruction) (v : Variable) : Prop :=
  ∃ op, i.opcode? = some op ∧ op.isSet = true ∧ Targets i.operands v

/-- What an instruction writes behind earlier ones, if it writes anything: it declares a local variable that none of them
sets, and it assigns to all others. -/
inductive Instruction.WritesAs (earlier : List Instruction) (i : Instruction) : Item → Prop
  | declare {v : Variable} {value : Expr} : i.Sets v → v.storage.isLocal = true → (∀ j ∈ earlier, ¬j.Sets v) →
    WritesAs earlier i (.simple (.declare v.initialType v.name (some value)) rfl)
  | again {v : Variable} {value : Expr} : i.Sets v → v.storage.isLocal = true → (∃ j ∈ earlier, j.Sets v) →
    WritesAs earlier i (.simple (.assign v.name "=" value) rfl)
  | store {v : Variable} {value : Expr} : i.Sets v → v.storage.isLocal = false →
    WritesAs earlier i (.simple (.assign v.name "=" value) rfl)
  | update {op : Arithmetic} {v : Variable} {value : Expr} : i.opcode? = some (.arithmetic op) → Targets i.operands v →
    WritesAs earlier i (.simple (.assign v.name op.symbol value) rfl)
  | other {op : Opcode} {item : Item} : i.opcode? = some op → op.writes = false → item.written? = none →
    WritesAs earlier i item

section

variable {image : Option Overlay} {i : Instruction} {r r' : Reading} {item : Item} {op : Opcode} {v : Variable}

theorem Instruction.sets_iff (hop : i.opcode? = some op) : i.Sets v ↔ op.isSet = true ∧ Targets i.operands v := by
  constructor
  · rintro ⟨op', hop', hset, hv⟩
    rw [hop, Option.some.injEq] at hop'
    exact ⟨hop' ▸ hset, hv⟩
  · rintro ⟨hset, hv⟩
    exact ⟨op, hop, hset, hv⟩

/-- An instruction sets the variable whose name its item sets. -/
theorem Instruction.Says.set?_iff (h : i.Says image r item r') (v : Variable) : item.set? = some v.name ↔ i.Sets v := by
  obtain ⟨op, hop, hsaid⟩ := h
  rw [sets_iff hop, hsaid.set?_eq_iff]

end

/-! ### One instruction behind the other -/

/-- The variables that are declared are the local ones that one of these instructions sets. -/
def Reading.Follows (r : Reading) (earlier : List Instruction) : Prop :=
  ∀ v, v ∈ r.declared ↔ v.storage.isLocal = true ∧ ∃ j ∈ earlier, j.Sets v

section

variable {image : Option Overlay} {i : Instruction} {r r' : Reading} {item : Item} {earlier : List Instruction}
  {v : Variable}

private theorem follows_nil (s : Scope) : Reading.Follows ⟨s, []⟩ [] :=
  fun _ => ⟨nofun, fun h => by obtain ⟨-, j, hj, -⟩ := h; cases hj⟩

private theorem exists_sets_append_iff :
    (∃ j ∈ earlier ++ [i], j.Sets v) ↔ (∃ j ∈ earlier, j.Sets v) ∨ i.Sets v := by
  simp only [List.mem_append, List.mem_singleton, or_and_right, exists_or, exists_eq_left]

/-- What an instruction that declares nothing leaves declared. -/
private theorem Reading.Follows.skip (h : r.Follows earlier) (hd : r'.declared = r.declared)
    (hi : ∀ v, i.Sets v → v.storage.isLocal = true → v ∈ r.declared) : r'.Follows (earlier ++ [i]) := by
  intro v
  rw [hd, exists_sets_append_iff]
  constructor
  · intro hv
    obtain ⟨hl, hearlier⟩ := (h v).1 hv
    exact ⟨hl, .inl hearlier⟩
  · rintro ⟨hl, hearlier | hsets⟩
    · exact (h v).2 ⟨hl, hearlier⟩
    · exact hi v hsets hl

/-- An instruction that sets a variable declares it just when no earlier one sets it and it is local. -/
private theorem Reading.Follows.sets {s : Scope} {value : Expr} (h : r.Follows earlier) (hi : ∀ v', i.Sets v' ↔ v' = v)
    (hsets : { r with scope := s }.Sets v value item r') : i.WritesAs earlier item ∧ r'.Follows (earlier ++ [i]) := by
  have hv : i.Sets v := (hi v).2 rfl
  cases hsets with
  | declare hl hd hs =>
    have hnone : ∀ j ∈ earlier, ¬j.Sets v := fun j hj hsets => hd ((h v).2 ⟨hl, j, hj, hsets⟩)
    refine ⟨.declare hv hl hnone, fun v' => ?_⟩
    rw [List.mem_cons, h v', exists_sets_append_iff, hi v']
    constructor
    · rintro (rfl | ⟨hl', hearlier⟩)
      · exact ⟨hl, .inr rfl⟩
      · exact ⟨hl', .inl hearlier⟩
    · rintro ⟨hl', hearlier | rfl⟩
      · exact .inr ⟨hl', hearlier⟩
      · exact .inl rfl
  | again hl hd =>
    refine ⟨.again hv hl ((h v).1 hd).2, h.skip rfl fun v' hv' _ => ?_⟩
    rw [(hi v').1 hv']
    exact hd
  | store hl hs =>
    refine ⟨.store hv hl, h.skip rfl fun v' hv' hl' => ?_⟩
    rw [(hi v').1 hv', hl] at hl'
    cases hl'

theorem Instruction.Says.writesAs (h : i.Says image r item r') (hr : r.Follows earlier) :
    i.WritesAs earlier item ∧ r'.Follows (earlier ++ [i]) := by
  obtain ⟨op, hop, hsaid⟩ := h
  have hother : op.isSet = false → r'.declared = r.declared → r'.Follows (earlier ++ [i]) := by
    intro hset hd
    refine hr.skip hd fun v hv => ?_
    rw [sets_iff hop, hset] at hv
    cases hv.1
  have hsets : ∀ {v' : Variable}, op.isSet = true → Targets i.operands v' → ∀ v, i.Sets v ↔ v = v' := by
    intro v' hset hv' v
    rw [sets_iff hop]
    exact ⟨fun h => h.2.eq hv', fun h => ⟨hset, h ▸ hv'⟩⟩
  cases hsaid with
  | set hset hv _ h =>
    have hset : op.isSet = true := by rcases hset with rfl | rfl <;> rfl
    exact hr.sets (hsets hset hv) h
  | setConst hv _ h => exact hr.sets (hsets rfl hv) h
  | arithmetic hv _ hupdates =>
    cases hupdates with
    | word hl => exact ⟨.update hop hv, hother rfl rfl⟩
    | store hl hs => exact ⟨.update hop hv, hother rfl rfl⟩
  | _ => exact ⟨.other hop rfl rfl, hother rfl rfl⟩

/-- What an instruction of a line writes depends on those in front of it. -/
theorem Conveys.writesAs {is : List Instruction} {items : List Item} (h : Conveys image r is items r')
    (hr : r.Follows earlier) {k : Nat} (hi : is[k]? = some i) (hitem : items[k]? = some item) :
    i.WritesAs (earlier ++ is.take k) item := by
  induction h generalizing earlier k with
  | nil r =>
    rw [List.getElem?_nil] at hi
    cases hi
  | @cons r r₁ r' j rest first items hsaid _ ih =>
    obtain ⟨hwrites, hfollows⟩ := hsaid.writesAs hr
    cases k with
    | zero =>
      cases hi
      cases hitem
      rw [List.take_zero, List.append_nil]
      exact hwrites
    | succ k =>
      have hrest := ih hfollows hi hitem
      rwa [List.append_assoc] at hrest

/-- What is set is declared just when it is a local variable that no earlier instruction sets. -/
theorem Instruction.WritesAs.declared?_iff (h : i.WritesAs earlier item) (hset : item.set? = some v.name) :
    item.declared? = some v.name ↔ v.storage.isLocal = true ∧ ∀ j ∈ earlier, ¬j.Sets v := by
  cases h with
  | declare _ hl hnone =>
    have hname := Variable.name_injective (Option.some.inj hset)
    subst hname
    exact iff_of_true rfl ⟨hl, hnone⟩
  | again _ _ hfound =>
    have hname := Variable.name_injective (Option.some.inj hset)
    subst hname
    obtain ⟨j, hj, hsets⟩ := hfound
    exact iff_of_false nofun fun h => h.2 j hj hsets
  | store _ hl =>
    have hname := Variable.name_injective (Option.some.inj hset)
    subst hname
    refine iff_of_false nofun fun h => ?_
    rw [hl] at h
    cases h.1
  | @update op v' value _ _ =>
    have hnone : Item.set? (.simple (.assign v'.name op.symbol value) rfl) = none := if_neg op.symbol_ne_set
    rw [hnone] at hset
    cases hset
  | other _ _ hnone =>
    rw [Item.set?_eq_none hnone] at hset
    cases hset

/-- The instructions of a line set the variables that its items set. -/
theorem Conveys.forall₂_sets {is : List Instruction} {items : List Item} (h : Conveys image r is items r') :
    List.Forall₂ (fun i item => ∀ v : Variable, item.set? = some v.name ↔ i.Sets v) is items := by
  induction h with
  | nil r => exact .nil
  | cons hsaid _ ih => exact .cons hsaid.set?_iff ih

private theorem forall_set?_iff {is : List Instruction} {items : List Item}
    (h : List.Forall₂ (fun i item => ∀ v : Variable, item.set? = some v.name ↔ i.Sets v) is items) (v : Variable) :
    (∀ j ∈ is, ¬j.Sets v) ↔ ∀ u ∈ items, u.set? ≠ some v.name := by
  induction h with
  | nil => exact ⟨nofun, nofun⟩
  | cons hset _ ih => rw [List.forall_mem_cons, List.forall_mem_cons, ih, ← hset v]

/-- Behind other items an item declares a local variable just when it is the first one that sets it. -/
theorem Conveys.declared?_iff {is : List Instruction} {front back : List Item}
    (h : Conveys image r is (front ++ item :: back) r') (hr : r.Follows []) (hset : item.set? = some v.name) :
    item.declared? = some v.name ↔ v.storage.isLocal = true ∧ ∀ u ∈ front, u.set? ≠ some v.name := by
  have hsets := h.forall₂_sets
  have hlt : front.length < is.length := by
    rw [hsets.length_eq, List.length_append, List.length_cons]
    omega
  have hi : is[front.length]? = some is[front.length] := List.getElem?_eq_getElem hlt
  have hitem : (front ++ item :: back)[front.length]? = some item := by
    rw [List.getElem?_append_right (Nat.le_refl _), Nat.sub_self, List.getElem?_cons_zero]
  have hwrites : is[front.length].WritesAs ([] ++ is.take front.length) item := h.writesAs hr hi hitem
  rw [List.nil_append] at hwrites
  rw [hwrites.declared?_iff hset, forall_set?_iff (List.forall₂_take_append _ _ _ hsets)]

end

/-! ### What declarations bind -/

section

variable {image : Option Overlay} {r r' : Reading} {is : List Instruction} {items : List Item}

/-- The item declares a local variable with the type of its storage class if it declares anything, and the innermost
layer of the scope has this type for it. -/
def Item.DeclaresIn (s : Scope) (item : Item) : Prop := ∀ {type : DataType} {name : Text} {value : Option Expr},
  item.statement? = some (.declare type name value) → ∃ v : Variable, name = v.name ∧ v.storage.isLocal = true ∧
    type = v.initialType ∧ s.currentType? name = some type

private theorem Reading.Sets.declaresIn {v : Variable} {value : Expr} {item : Item} (h : r.Sets v value item r') :
    item.DeclaresIn r'.scope := by
  intro type name value hitem
  cases h with
  | declare hl hd hs =>
    cases hitem
    refine ⟨v, rfl, hl, rfl, ?_⟩
    rw [Scope.currentType?_bindName hs, if_pos rfl]
  | again | store => cases hitem

private theorem Instruction.Says.declaresIn {i : Instruction} {item : Item} (h : i.Says image r item r') :
    item.DeclaresIn r'.scope := by
  obtain ⟨op, -, hsaid⟩ := h
  intro type name value hitem
  cases hsaid with
  | set _ _ _ hsets | setConst _ _ hsets => exact hsets.declaresIn hitem
  | arithmetic _ _ hupdates => cases hupdates <;> cases hitem
  | _ => cases hitem

theorem Conveys.declaresIn (h : Conveys image r is items r') : ∀ item ∈ items, item.DeclaresIn r'.scope := by
  refine Conveys.forall_items (P := fun item s => item.DeclaresIn s) Instruction.Says.declaresIn ?_ h
  intro item s s' Q hgains hitem type name value he
  obtain ⟨v, rfl, hl, rfl, htype⟩ := hitem he
  exact ⟨v, rfl, hl, rfl, hgains.currentType?_variable htype⟩

/-- Every variable outside the script that the item consults in an expression or writes is bound. -/
def Item.MeetsIn (s : Scope) (item : Item) : Prop := ∀ v : Variable, v.storage.isLocal = false →
  v.name ∈ item.expressions.flatMap Expr.identifiers ∨ item.written? = some v.name → (s.typeOf? v.name).isSome

private theorem Reading.Sets.isSome_of_written? {v v' : Variable} {value : Expr} {item : Item}
    (h : r.Sets v' value item r') (hl : v.storage.isLocal = false) (hwritten : item.written? = some v.name) :
    (r'.scope.typeOf? v.name).isSome := by
  cases h with
  | declare hl' | again hl' =>
    rw [Variable.name_injective (Option.some.inj hwritten), hl] at hl'
    cases hl'
  | store _ hs =>
    rw [← Option.some.inj hwritten]
    exact isSome_of_meet hs

private theorem Reading.Updates.isSome_of_written? {v v' : Variable} {operator : String} {value : Expr} {item : Item}
    (h : r.Updates v' operator value item r') (hl : v.storage.isLocal = false) (hwritten : item.written? = some v.name) :
    (r'.scope.typeOf? v.name).isSome := by
  cases h with
  | word hl' =>
    rw [Variable.name_injective (Option.some.inj hwritten), hl] at hl'
    cases hl'
  | store _ hs =>
    rw [← Option.some.inj hwritten]
    exact isSome_of_meet hs

private theorem Instruction.Says.meetsIn {i : Instruction} {item : Item} (h : i.Says image r item r') :
    item.MeetsIn r'.scope := by
  obtain ⟨op, -, hsaid⟩ := h
  rintro v hl (hread | hwritten)
  · obtain ⟨w, -, v', -, hname, hbound⟩ := hsaid.exists_evaluated hread
    exact hbound (Variable.name_injective hname ▸ hl)
  · cases hsaid with
    | set _ _ _ hsets | setConst _ _ hsets => exact hsets.isSome_of_written? hl hwritten
    | arithmetic _ _ hupdates => exact hupdates.isSome_of_written? hl hwritten
    | _ => cases hwritten

theorem Conveys.meetsIn (h : Conveys image r is items r') : ∀ item ∈ items, item.MeetsIn r'.scope := by
  refine Conveys.forall_items (P := fun item s => item.MeetsIn s) Instruction.Says.meetsIn ?_ h
  intro item s s' Q hgains hitem v hl hv
  exact hgains.isSome_typeOf? (hitem v hl hv)

end

/-! ### Declarations of a tree -/

/-- How the statements of a tree, in the order of the script and at any depth, declare names and write them, for the scope
behind them. -/
structure Block.DeclaresFirst (b : Block) (s : Scope) : Prop where
  /-- A name is declared once. -/
  once : ((statements b).filterMap Stmt.declared?).Nodup
  /-- What is set is declared just when it is a local variable that no statement sets before. -/
  first : ∀ {front : List Stmt} {t : Stmt} {back : List Stmt} {v : Variable}, statements b = front ++ t :: back →
    t.set? = some v.name →
    (t.declared? = some v.name ↔ v.storage.isLocal = true ∧ ∀ u ∈ front, u.set? ≠ some v.name)
  /-- A declaration has the type of the storage class, and this is in the innermost layer. -/
  typed : ∀ {type : DataType} {name : Text} {value : Option Expr}, .declare type name value ∈ statements b →
    ∃ v : Variable, name = v.name ∧ v.storage.isLocal = true ∧ type = v.initialType ∧ s.currentType? name = some type
  /-- Variables outside the script that an expression consults are bound. -/
  read : ∀ {t : Stmt} {e : Expr} {v : Variable}, t ∈ statements b → e ∈ t.expressions → v.name ∈ e.identifiers →
    v.storage.isLocal = false → (s.typeOf? v.name).isSome
  /-- Variables outside the script that are written are bound. -/
  written : ∀ {t : Stmt} {v : Variable}, t ∈ statements b → t.written? = some v.name →
    v.storage.isLocal = false → (s.typeOf? v.name).isSome

section

variable {image : Option Overlay} {s s' : Scope} {b : Block} {address : Int} {bytes : List UInt8}

/-- Every name that a script declares is bound in the innermost layer when it has been read. -/
theorem isSome_of_decode (h : (decode image address bytes s).result = .ok (b, s')) {type : DataType} {name : Text}
    {value : Option Expr} (hd : .declare type name value ∈ Block.statements b) : (s'.currentType? name).isSome := by
  obtain ⟨before, r', -, hconveys, rfl⟩ := decode_eq_ok_iff.1 h
  have hitem : .simple (.declare type name value) rfl ∈ Block.items b :=
    Block.items_subset hd (List.mem_singleton_self _)
  obtain ⟨v, rfl, -, rfl, htype⟩ := hconveys.declaresIn _ hitem rfl
  rw [htype]
  rfl

private theorem first_of_conveys {r' : Reading} {before : List Instruction}
    (h : Conveys image ⟨s, []⟩ before (Block.items b) r') {front back : List Stmt} {t : Stmt} {v : Variable}
    (hb : Block.statements b = front ++ t :: back) (hset : t.set? = some v.name) :
    t.declared? = some v.name ↔ v.storage.isLocal = true ∧ ∀ u ∈ front, u.set? ≠ some v.name := by
  obtain ⟨line, after, hitems, hline⟩ := Block.exists_items_eq hb (Stmt.isSimple_of_set? hset)
  rw [hitems] at h
  rw [← forall_set?_ne_iff hline]
  exact h.declared?_iff (follows_nil s) hset

/-- If a statement declares only names that none sets before it, every name is declared once. -/
private theorem nodup_declared {ts : List Stmt} (h : ∀ {front : List Stmt} {t : Stmt} {back : List Stmt} {name : Text},
    ts = front ++ t :: back → t.declared? = some name → ∀ u ∈ front, u.set? ≠ some name) :
    (ts.filterMap Stmt.declared?).Nodup := by
  rw [List.Nodup, List.pairwise_filterMap, List.pairwise_iff_getElem]
  rintro i j hi hj hij name hname _ hname' rfl
  have hsplit : ts = ts.take j ++ ts[j] :: ts.drop (j + 1) := by
    rw [← List.drop_eq_getElem_cons hj, List.take_append_drop]
  have hmem : ts[i] ∈ ts.take j := List.mem_take_iff_getElem.2 ⟨i, by omega, rfl⟩
  exact h hsplit hname' _ hmem (Stmt.set?_of_declared? hname)

private theorem declaresFirst_of_conveys {r' : Reading} {before : List Instruction}
    (h : Conveys image ⟨s, []⟩ before (Block.items b) r') : b.DeclaresFirst r'.scope := by
  have htyped : ∀ {type : DataType} {name : Text} {value : Option Expr},
      .declare type name value ∈ Block.statements b → ∃ v : Variable, name = v.name ∧ v.storage.isLocal = true ∧
        type = v.initialType ∧ r'.scope.currentType? name = some type := by
    intro type name value hd
    have hitem : .simple (.declare type name value) rfl ∈ Block.items b :=
      Block.items_subset hd (List.mem_singleton_self _)
    exact h.declaresIn _ hitem rfl
  refine ⟨nodup_declared ?_, first_of_conveys h, htyped, ?_, ?_⟩
  · intro front t back name hb hdeclared
    have ht : t ∈ Block.statements b := hb ▸ List.mem_append_right _ (List.mem_cons_self ..)
    obtain ⟨type, value, rfl⟩ := Stmt.eq_declare hdeclared
    obtain ⟨v, rfl, -⟩ := htyped ht
    exact ((first_of_conveys h hb rfl).1 rfl).2
  · intro t e v ht he hv hl
    obtain ⟨item, hitem, he⟩ := t.exists_item he
    exact h.meetsIn item (Block.items_subset ht hitem) v hl (.inl (List.mem_flatMap.2 ⟨e, he, hv⟩))
  · intro t v ht hwritten hl
    have hsimple := Stmt.isSimple_of_written? hwritten
    have hitem : .simple t hsimple ∈ Block.items b :=
      Block.items_subset ht (by rw [Stmt.items_of_isSimple hsimple]; exact List.mem_singleton_self _)
    exact h.meetsIn _ hitem v hl (.inr hwritten)

/-- A script that is read writes what its instructions write, and the tree declares every local variable where it is first
set in the order of the script. -/
theorem declarations_of_decode (h : (decode image address bytes s).result = .ok (b, s')) :
    (∃ before, beforeFinish? (instructions address bytes) = some before ∧ before.length = (Block.items b).length ∧
      ∀ (k : Nat) (i : Instruction) (item : Item), before[k]? = some i → (Block.items b)[k]? = some item →
        i.WritesAs (before.take k) item) ∧ b.DeclaresFirst s' := by
  obtain ⟨before, r', hbefore, hconveys, rfl⟩ := decode_eq_ok_iff.1 h
  refine ⟨⟨before, hbefore, hconveys.forall₂_sets.length_eq, ?_⟩, declaresFirst_of_conveys hconveys⟩
  intro k i item hi hitem
  have hwrites : i.WritesAs ([] ++ before.take k) item := hconveys.writesAs (follows_nil s) hi hitem
  rwa [List.nil_append] at hwrites

end

/-- Adds to the first local word before anything is set, sets it in a loop to the first variable of the map together with
the first local flag, and sets both variables again behind the loop. -/
private def declaringScript : List UInt8 :=
  [0, 0, 0, 0x27, 0, 0, 0, 2, 0xfe, 0x36, 0x3c, 0x80, 0, 0, 0, 1,
    0, 0, 0, 0x05, 0, 0, 0, 1, 0, 0, 0, 2,
    0, 0, 0, 0x24, 0, 0, 0, 2, 0xfe, 0x36, 0x3c, 0x80, 0xfd, 0x05, 0x0f, 0x80,
    0, 0, 0, 0x25, 0, 0, 0, 2, 0xfb, 0xd3, 0xe2, 0x80, 0, 0, 0, 1,
    0, 0, 0, 0x06, 0, 0, 0, 0,
    0, 0, 0, 0x25, 0, 0, 0, 2, 0xfe, 0x36, 0x3c, 0x80, 0, 0, 0, 5,
    0, 0, 0, 0x24, 0, 0, 0, 2, 0xfd, 0x05, 0x0f, 0x80, 0, 0, 0, 3, 0, 0, 0, 1, 0, 0, 0, 0]

theorem declarations_of_decode_loop : ∃ b s', (decode none 0 declaringScript .base).result = .ok (b, s') ∧
    ((∃ before, beforeFinish? (instructions 0 declaringScript) = some before ∧ before.length = (Block.items b).length ∧
      ∀ (k : Nat) (i : Instruction) (item : Item), before[k]? = some i → (Block.items b)[k]? = some item →
        i.WritesAs (before.take k) item) ∧ Block.DeclaresFirst b s') ∧
    (Block.statements b).filterMap Stmt.declared? = ["FunWord_0", "FunFlag_0"] := by
  have hnames : (decode none 0 declaringScript .base).result.map (fun r => (Block.statements r.1).filterMap Stmt.declared?) =
      .ok ["FunWord_0", "FunFlag_0"] := by
    decide +kernel
  obtain ⟨⟨b, s'⟩, h, hnames⟩ := exists_of_map_eq_ok hnames
  exact ⟨b, s', h, declarations_of_decode h, hnames⟩

end MapScript
