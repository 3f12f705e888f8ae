import Mathlib.Data.List.Forall2
import MapScript.Proofs.Outcome
import MapScript.Script.Basic

/-!
# Parts of scripts

A statement is its head, which is the statement with empty blocks, together with the blocks inside it. `statements` lists
the statements of a block at any depth, `everyBlock` the blocks, and `at?` finds a statement by its place.

`Block.Rewrites R` relates two trees of one shape whose statements are related by `R` head by head. Whatever rewrites
statements in place is such a relation, and `Rewrites.exists_of_mem` finds the statement that another one comes from.
-/

namespace MapScript

/-! ### Heads and blocks -/

namespace Stmt

/-- The statement with its blocks emptied. -/
def head : Stmt → Stmt
  | branch condition _ => branch condition []
  | branchElse condition _ _ => branchElse condition [] []
  | loop count _ => loop count []
  | switch value arms => switch value (arms.map fun a => ⟨a.operator, a.values, []⟩)
  | thread child _ => thread child []
  | s => s

theorem head_head (s : Stmt) : s.head.head = s.head := by
  cases s with
  | switch value arms => simp [head, Function.comp_def]
  | _ => rfl

/-- The statement with other blocks inside, as many as it has. -/
def withBlocks : Stmt → List Block → Stmt
  | branch condition _, [body] => branch condition body
  | branchElse condition _ _, [body, otherwise] => branchElse condition body otherwise
  | loop count _, [body] => loop count body
  | switch value arms, bodies =>
    switch value (List.zipWith (fun (a : Arm) body => ⟨a.operator, a.values, body⟩) arms bodies)
  | thread child _, [body] => thread child body
  | s, _ => s

theorem withBlocks_blocks (s : Stmt) : s.withBlocks s.blocks = s := by
  cases s with
  | switch value arms =>
    simp only [blocks, withBlocks, switch.injEq, true_and]
    induction arms with
    | nil => rfl
    | cons a rest ih => cases a; rw [List.map_cons, List.zipWith_cons_cons, ih]
  | _ => rfl

private theorem zipWith_bodies {arms : List Arm} {bodies : List Block} (h : bodies.length = arms.length) :
    (List.zipWith (fun (a : Arm) body => (⟨a.operator, a.values, body⟩ : Arm)) arms bodies).map Arm.body = bodies ∧
      (List.zipWith (fun (a : Arm) body => (⟨a.operator, a.values, body⟩ : Arm)) arms bodies).map
        (fun a => (⟨a.operator, a.values, []⟩ : Arm)) = arms.map fun a => ⟨a.operator, a.values, []⟩ := by
  induction arms generalizing bodies with
  | nil => cases bodies with
    | nil => exact ⟨rfl, rfl⟩
    | cons b bodies => cases h
  | cons a rest ih => cases bodies with
    | nil => cases h
    | cons b bodies =>
      obtain ⟨h₁, h₂⟩ := ih (Nat.succ.inj h)
      constructor
      · rw [List.zipWith_cons_cons, List.map_cons, h₁]
      · rw [List.zipWith_cons_cons, List.map_cons, h₂, List.map_cons]

theorem blocks_withBlocks {s : Stmt} {bs : List Block} (h : bs.length = s.blocks.length) :
    (s.withBlocks bs).blocks = bs := by
  cases s with
  | switch value arms => exact (zipWith_bodies (by simpa [blocks] using h)).1
  | _ =>
    rcases bs with _ | ⟨b, _ | ⟨b', _ | ⟨b'', bs⟩⟩⟩ <;>
      simp only [blocks, List.length_cons, List.length_nil] at h <;> first | omega | rfl

theorem head_withBlocks {s : Stmt} {bs : List Block} (h : bs.length = s.blocks.length) :
    (s.withBlocks bs).head = s.head := by
  cases s with
  | switch value arms => exact congrArg (switch value) (zipWith_bodies (by simpa [blocks] using h)).2
  | _ =>
    rcases bs with _ | ⟨b, _ | ⟨b', _ | ⟨b'', bs⟩⟩⟩ <;>
      simp only [blocks, List.length_cons, List.length_nil] at h <;> first | omega | rfl

/-- A statement without blocks is its own head. -/
theorem withBlocks_nil {s : Stmt} (h : s.blocks = []) : s.withBlocks [] = s := by
  rw [← h, withBlocks_blocks]

private theorem depths_eq_foldr (arms : List Arm) :
    Arm.depths arms = ((arms.map Arm.body).map Block.depth).foldr max 0 := by
  induction arms with
  | nil => rfl
  | cons a rest ih => cases a; rw [Arm.depths, ih]; rfl

private theorem depths_emptied (arms : List Arm) :
    Arm.depths (arms.map fun a => ⟨a.operator, a.values, []⟩) = 0 := by
  induction arms with
  | nil => rfl
  | cons a rest ih => rw [List.map_cons, Arm.depths, ih]; rfl

theorem depth_eq (s : Stmt) : s.depth = s.head.depth + (s.blocks.map Block.depth).foldr max 0 := by
  cases s with
  | switch value arms => rw [head, depth, depth, depths_emptied, blocks, depths_eq_foldr, Nat.zero_add, Nat.add_comm]
  | _ => simp [head, blocks, depth, Block.depth, Nat.add_comm]

end Stmt

/-! ### Statements at any depth -/

mutual

/-- A statement and those at any depth inside it, in the order of the script. -/
def Stmt.statements : Stmt → List Stmt
  | .branch condition body => .branch condition body :: Block.statements body
  | .branchElse condition body otherwise =>
    .branchElse condition body otherwise :: (Block.statements body ++ Block.statements otherwise)
  | .loop count body => .loop count body :: Block.statements body
  | .switch value arms => .switch value arms :: Arm.statements arms
  | .thread child body => .thread child body :: Block.statements body
  | s => [s]

/-- The statements of a block at any depth. -/
def Block.statements : List Stmt → List Stmt
  | [] => []
  | s :: rest => s.statements ++ Block.statements rest

/-- The statements in the arms of a switch at any depth. -/
def Arm.statements : List Arm → List Stmt
  | [] => []
  | ⟨_, _, body⟩ :: rest => Block.statements body ++ Arm.statements rest

end

theorem Block.statements_eq (b : Block) : Block.statements b = b.flatMap Stmt.statements := by
  induction b with
  | nil => rfl
  | cons t rest ih => rw [Block.statements, ih, List.flatMap_cons]

theorem Arm.statements_eq (arms : List Arm) : Arm.statements arms = arms.flatMap fun a => Block.statements a.body := by
  induction arms with
  | nil => rfl
  | cons a rest ih =>
    obtain ⟨_, _, body⟩ := a
    rw [Arm.statements, ih, List.flatMap_cons]

theorem Stmt.statements_eq (s : Stmt) : s.statements = s :: s.blocks.flatMap Block.statements := by
  cases s with
  | switch value arms => rw [statements, blocks, Arm.statements_eq, List.flatMap_map]
  | _ => simp [statements, blocks]

theorem Block.mem_statements_cons {u t : Stmt} {rest : Block} :
    u ∈ Block.statements (t :: rest) ↔
      u = t ∨ (∃ c ∈ t.blocks, u ∈ Block.statements c) ∨ u ∈ Block.statements rest := by
  rw [Block.statements, List.mem_append, Stmt.statements_eq, List.mem_cons, List.mem_flatMap, or_assoc]

theorem Block.mem_statements_iff {u : Stmt} {b : Block} :
    u ∈ Block.statements b ↔ ∃ t ∈ b, u = t ∨ ∃ c ∈ t.blocks, u ∈ Block.statements c := by
  induction b with
  | nil => exact ⟨nofun, fun ⟨_, h, _⟩ => nomatch h⟩
  | cons t rest ih => rw [Block.mem_statements_cons, ih, List.exists_mem_cons_iff, or_assoc]

theorem Stmt.depth_le_of_mem {t : Stmt} {b : Block} (h : t ∈ b) : t.depth ≤ Block.depth b := by
  induction b with
  | nil => cases h
  | cons u rest ih =>
    rw [Block.depth]
    rcases List.mem_cons.1 h with rfl | h
    · exact Nat.le_max_left ..
    · exact Nat.le_trans (ih h) (Nat.le_max_right ..)

theorem Block.depth_lt_of_mem {d b : Block} {t : Stmt} (ht : t ∈ b) (hd : d ∈ t.blocks) : Block.depth d < Block.depth b :=
  Nat.lt_of_lt_of_le (Stmt.depth_lt_of_mem_blocks hd) (Stmt.depth_le_of_mem ht)

theorem Block.mem_statements_of_mem {t : Stmt} {b : Block} (h : t ∈ b) : t ∈ Block.statements b :=
  Block.mem_statements_iff.2 ⟨t, h, .inl rfl⟩

theorem Block.mem_statements_trans {u t : Stmt} {c b : Block} (ht : t ∈ Block.statements b) (hc : c ∈ t.blocks)
    (h : u ∈ Block.statements c) : u ∈ Block.statements b := by
  induction b using Block.induction with
  | nil => cases ht
  | cons v rest inside ih =>
    rcases Block.mem_statements_cons.1 ht with rfl | ⟨d, hd, ht⟩ | ht
    · exact Block.mem_statements_cons.2 (.inr (.inl ⟨c, hc, h⟩))
    · exact Block.mem_statements_cons.2 (.inr (.inl ⟨d, hd, inside d hd ht⟩))
    · exact Block.mem_statements_cons.2 (.inr (.inr (ih ht)))

/-- A block and the blocks at any depth inside it. -/
def Block.everyBlock (b : Block) : List Block := b :: (Block.statements b).flatMap Stmt.blocks

theorem Block.mem_everyBlock_self (b : Block) : b ∈ Block.everyBlock b := List.mem_cons_self ..

theorem Block.mem_statements_of_mem_everyBlock {u : Stmt} {c b : Block} (hc : c ∈ Block.everyBlock b)
    (h : u ∈ Block.statements c) : u ∈ Block.statements b := by
  rcases List.mem_cons.1 hc with rfl | hc
  · exact h
  · obtain ⟨t, ht, hc⟩ := List.mem_flatMap.1 hc
    exact Block.mem_statements_trans ht hc h

theorem Block.mem_everyBlock_of_mem_blocks {t : Stmt} {d c b : Block} (ht : t ∈ b) (hc : c ∈ t.blocks)
    (h : d ∈ Block.everyBlock c) : d ∈ Block.everyBlock b := by
  apply List.mem_cons_of_mem
  rw [List.mem_flatMap]
  rcases List.mem_cons.1 h with rfl | h
  · exact ⟨t, Block.mem_statements_of_mem ht, hc⟩
  · obtain ⟨u, hu, hd⟩ := List.mem_flatMap.1 h
    exact ⟨u, Block.mem_statements_trans (Block.mem_statements_of_mem ht) hc hu, hd⟩

theorem Block.mem_everyBlock_iff {c b : Block} :
    c ∈ Block.everyBlock b ↔ c = b ∨ ∃ t ∈ b, ∃ d ∈ t.blocks, c ∈ Block.everyBlock d := by
  constructor
  · intro h
    rcases List.mem_cons.1 h with rfl | h
    · exact .inl rfl
    · obtain ⟨u, hu, hc⟩ := List.mem_flatMap.1 h
      obtain ⟨t, ht, rfl | ⟨d, hd, hu⟩⟩ := Block.mem_statements_iff.1 hu
      · exact .inr ⟨u, ht, c, hc, Block.mem_everyBlock_self c⟩
      · exact .inr ⟨t, ht, d, hd, List.mem_cons_of_mem _ (List.mem_flatMap.2 ⟨u, hu, hc⟩)⟩
  · rintro (rfl | ⟨t, ht, d, hd, h⟩)
    · exact Block.mem_everyBlock_self c
    · exact Block.mem_everyBlock_of_mem_blocks ht hd h

/-! ### Places in a tree -/

/-- A place in a tree: the way to a block, by statements and the blocks inside them, and a statement of that block. -/
structure Place where
  way : List (Nat × Nat)
  index : Nat

/-- The block at the end of a way. -/
def Block.inside? : Block → List (Nat × Nat) → Option Block
  | b, [] => some b
  | b, (i, j) :: way => do
    let t ← b[i]?
    let d ← t.blocks[j]?
    inside? d way

/-- The statement at a place. -/
def Block.at? (b : Block) (p : Place) : Option Stmt := do
  let d ← Block.inside? b p.way
  d[p.index]?

theorem Block.at?_inside_eq_some_iff {b : Block} {i j k : Nat} {way : List (Nat × Nat)} {t : Stmt} :
    Block.at? b ⟨(i, j) :: way, k⟩ = some t ↔
      ∃ u d, b[i]? = some u ∧ u.blocks[j]? = some d ∧ Block.at? d ⟨way, k⟩ = some t := by
  constructor
  · intro h
    obtain ⟨c, hc, ht⟩ := Option.bind_eq_some_iff.1 h
    obtain ⟨u, hu, hc⟩ := Option.bind_eq_some_iff.1 hc
    obtain ⟨d, hd, hc⟩ := Option.bind_eq_some_iff.1 hc
    exact ⟨u, d, hu, hd, Option.bind_eq_some_iff.2 ⟨c, hc, ht⟩⟩
  · rintro ⟨u, d, hu, hd, h⟩
    obtain ⟨c, hc, ht⟩ := Option.bind_eq_some_iff.1 h
    exact Option.bind_eq_some_iff.2
      ⟨c, Option.bind_eq_some_iff.2 ⟨u, hu, Option.bind_eq_some_iff.2 ⟨d, hd, hc⟩⟩, ht⟩

theorem exists_append_of_getElem? {α : Type} {l : List α} {i : Nat} {a : α} (h : l[i]? = some a) :
    ∃ front back, l = front ++ a :: back ∧ front.length = i := by
  obtain ⟨hi, rfl⟩ := List.getElem?_eq_some_iff.1 h
  refine ⟨l.take i, l.drop (i + 1), ?_, List.length_take_of_le (Nat.le_of_lt hi)⟩
  rw [← List.drop_eq_getElem_cons hi, List.take_append_drop]

/-! ### Trees of one shape -/

/-- The second block is the first one with every statement rewritten as `R` allows it, which looks at heads alone. -/
inductive Block.Rewrites (R : Stmt → Stmt → Prop) : Block → Block → Prop
  | nil : Rewrites R [] []
  | cons {s t : Stmt} {rest rest' : Block} : R s.head t.head → List.Forall₂ (Rewrites R) s.blocks t.blocks →
    Rewrites R rest rest' → Rewrites R (s :: rest) (t :: rest')

namespace Block.Rewrites

variable {R : Stmt → Stmt → Prop}

/-- Induction along two trees of one shape at once. -/
theorem induction {motive : Block → Block → Prop} (nil : motive [] [])
    (cons : ∀ (s t : Stmt) (rest rest' : Block), R s.head t.head → List.Forall₂ (Rewrites R) s.blocks t.blocks →
      List.Forall₂ motive s.blocks t.blocks → motive rest rest' → motive (s :: rest) (t :: rest'))
    {b c : Block} (h : Rewrites R b c) : motive b c := by
  induction b using Block.induction generalizing c with
  | nil => cases h; exact nil
  | cons s rest inside ih =>
    cases h with
    | cons hst hbs hrest =>
      have hboth := (List.forall₂_and_left _ _).2 ⟨inside, hbs⟩
      exact cons _ _ _ _ hst hbs (hboth.imp fun _ _ h => h.1 h.2) (ih hrest)

theorem refl (hR : ∀ s, R s s) (b : Block) : Rewrites R b b := by
  induction b using Block.induction with
  | nil => exact .nil
  | cons s rest inside ih => exact .cons (hR _) (List.forall₂_same.2 inside) ih

/-- What is allowed of all heads is allowed of the heads in two trees. -/
theorem mono {Q : Stmt → Stmt → Prop} (hRQ : ∀ s t : Stmt, R s.head t.head → Q s.head t.head) {b c : Block}
    (h : Rewrites R b c) : Rewrites Q b c := by
  refine induction (motive := Rewrites Q) .nil ?_ h
  intro s t rest rest' hst _ hbs ih
  exact .cons (hRQ s t hst) hbs ih

private theorem forall₂_trans {bs cs ds : List Block}
    (h₁ : List.Forall₂ (fun b c => ∀ d, Rewrites R c d → Rewrites R b d) bs cs)
    (h₂ : List.Forall₂ (Rewrites R) cs ds) : List.Forall₂ (Rewrites R) bs ds := by
  induction h₁ generalizing ds with
  | nil => exact h₂
  | cons hbc _ ih =>
    cases h₂ with
    | cons hcd hcds => exact .cons (hbc _ hcd) (ih hcds)

theorem trans (hR : ∀ s t u, R s t → R t u → R s u) {b c d : Block} (h : Rewrites R b c) (h' : Rewrites R c d) :
    Rewrites R b d := by
  refine induction (motive := fun b c => ∀ d, Rewrites R c d → Rewrites R b d) ?_ ?_ h d h'
  · exact fun _ h => h
  · intro s t rest rest' hst _ hbs ih d h'
    cases h' with
    | cons htu hcs hrest => exact .cons (hR _ _ _ hst htu) (forall₂_trans hbs hcs) (ih _ hrest)

theorem depth_eq (hR : ∀ s t, R s t → s.depth = t.depth) {b c : Block} (h : Rewrites R b c) :
    Block.depth b = Block.depth c := by
  refine induction (motive := fun b c => Block.depth b = Block.depth c) rfl ?_ h
  intro s t rest rest' hst _ hbs ih
  have hmap : s.blocks.map Block.depth = t.blocks.map Block.depth := by
    rw [← List.forall₂_eq_eq_eq, List.forall₂_map_left_iff, List.forall₂_map_right_iff]
    exact hbs
  rw [Block.depth, Block.depth, s.depth_eq, t.depth_eq, hR _ _ hst, hmap, ih]

/-- Every statement of the rewritten tree comes from one of the tree before. -/
theorem exists_of_mem {b c : Block} (h : Rewrites R b c) {u : Stmt} (hu : u ∈ Block.statements c) :
    ∃ t ∈ Block.statements b, R t.head u.head ∧ List.Forall₂ (Rewrites R) t.blocks u.blocks := by
  refine induction (motive := fun b c => u ∈ Block.statements c →
    ∃ t ∈ Block.statements b, R t.head u.head ∧ List.Forall₂ (Rewrites R) t.blocks u.blocks) ?_ ?_ h hu
  · exact nofun
  · intro s t rest rest' hst hbs inside ih hu
    rcases Block.mem_statements_cons.1 hu with rfl | ⟨d, hd, hu⟩ | hu
    · exact ⟨s, Block.mem_statements_cons.2 (.inl rfl), hst, hbs⟩
    · obtain ⟨e, he, hed⟩ := exists_left_of_forall₂ inside hd
      obtain ⟨v, hv, hvu⟩ := hed hu
      exact ⟨v, Block.mem_statements_cons.2 (.inr (.inl ⟨e, he, hv⟩)), hvu⟩
    · obtain ⟨v, hv, hvu⟩ := ih hu
      exact ⟨v, Block.mem_statements_cons.2 (.inr (.inr hv)), hvu⟩

/-- Every block of the rewritten tree comes from one of the tree before. -/
theorem exists_of_mem_everyBlock {b c : Block} (h : Rewrites R b c) {d' : Block} (hd : d' ∈ Block.everyBlock c) :
    ∃ d ∈ Block.everyBlock b, Rewrites R d d' := by
  rcases List.mem_cons.1 hd with rfl | hd
  · exact ⟨b, Block.mem_everyBlock_self b, h⟩
  · obtain ⟨u, hu, hd⟩ := List.mem_flatMap.1 hd
    obtain ⟨t, ht, -, hbs⟩ := h.exists_of_mem hu
    obtain ⟨e, he, hed⟩ := exists_left_of_forall₂ hbs hd
    exact ⟨e, List.mem_cons_of_mem _ (List.mem_flatMap.2 ⟨t, ht, he⟩), hed⟩

end Block.Rewrites

end MapScript
