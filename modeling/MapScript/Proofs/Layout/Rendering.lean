import MapScript.Proofs.Layout.Printable

/-!
# Texts of declarations

The text of a declaration is its outline, line by line, and nothing is taken away from it. A declaration has no text just
when its name or some part of its body cannot be written (`ScriptDeclaration.Lacks`), and the failure says what is wrong
with one of them. In particular the indentation never runs out. Main statement: `text_layout`.

What the outline says of the tree is counted and measured here: every statement has its own lines in it (`length_outline`)
and stands as deep as blocks, bodies of switches and the script lie around it (`Encloses.first_mem_outline`).
-/

namespace MapScript

/-! ### Lines of the outline -/

/-- A statement lies somewhere in a block, with so many blocks and bodies of switches between them. -/
inductive Block.Encloses : Block → Nat → Stmt → Prop
  | here {b : Block} {t : Stmt} : t ∈ b → Encloses b 0 t
  | block {b d : Block} {u t : Stmt} {n : Nat} : u ∈ b → (∀ value arms, u ≠ .switch value arms) → d ∈ u.blocks →
    Encloses d n t → Encloses b (n + 1) t
  | arm {b : Block} {value : Expr} {arms : List Arm} {a : Arm} {t : Stmt} {n : Nat} : .switch value arms ∈ b →
    a ∈ arms → Encloses a.body n t → Encloses b (n + 2) t

namespace Block.Encloses

variable {b : Block} {t : Stmt} {k : Nat}

private theorem behind (h : Encloses b k t) (u : Stmt) : Encloses (u :: b) k t := by
  cases h with
  | here ht => exact .here (List.mem_cons_of_mem _ ht)
  | block hu hswitch hd h => exact .block (List.mem_cons_of_mem _ hu) hswitch hd h
  | arm hu ha h => exact .arm (List.mem_cons_of_mem _ hu) ha h

/-- Every statement at any depth is enclosed. -/
theorem exists_of_mem (h : t ∈ statements b) : ∃ k, Encloses b k t := by
  induction b using Block.induction with
  | nil => cases h
  | cons u rest inside ih =>
    rcases mem_statements_cons.1 h with rfl | ⟨d, hd, ht⟩ | ht
    · exact ⟨0, .here (List.mem_cons_self ..)⟩
    · obtain ⟨k, hk⟩ := inside d hd ht
      cases u with
      | switch value arms =>
        obtain ⟨a, ha, rfl⟩ := List.mem_map.1 hd
        exact ⟨k + 2, .arm (List.mem_cons_self ..) ha hk⟩
      | _ => exact ⟨k + 1, .block (List.mem_cons_self ..) nofun hd hk⟩
    · obtain ⟨k, hk⟩ := ih ht
      exact ⟨k, hk.behind u⟩

private theorem outline_subset_of_mem {u : Stmt} (hu : u ∈ b) (n : Nat) : u.outline n ⊆ outline n b := by
  induction b with
  | nil => cases hu
  | cons v rest ih =>
    rw [outline]
    rcases List.mem_cons.1 hu with rfl | hu
    · exact fun _ h => List.mem_append_left _ h
    · exact fun _ h => List.mem_append_right _ (ih hu h)

private theorem outline_subset_of_blocks {u : Stmt} {d : Block} (hswitch : ∀ value arms, u ≠ .switch value arms)
    (hd : d ∈ u.blocks) (n : Nat) : outline (n + 1) d ⊆ u.outline n := by
  intro l hl
  cases u with
  | switch value arms => exact absurd rfl (hswitch value arms)
  | branch condition body | loop count body | thread child body =>
    rw [List.mem_singleton.1 hd] at hl
    exact List.mem_cons_of_mem _ (List.mem_append_left _ hl)
  | branchElse condition body otherwise =>
    rw [Stmt.outline]
    rcases List.mem_cons.1 hd with rfl | hd
    · exact List.mem_cons_of_mem _ (List.mem_append_left _ hl)
    · rw [List.mem_singleton.1 hd] at hl
      exact List.mem_cons_of_mem _ (List.mem_append_right _ (List.mem_cons_of_mem _ (List.mem_append_left _ hl)))
  | _ => cases hd

private theorem outline_subset_of_arms {arms : List Arm} {a : Arm} (ha : a ∈ arms) (n : Nat) :
    (n, .arm a.operator a.values) ∈ Arm.outline n arms ∧ outline (n + 1) a.body ⊆ Arm.outline n arms := by
  induction arms with
  | nil => cases ha
  | cons b rest ih =>
    obtain ⟨operator, values, body⟩ := b
    rw [Arm.outline]
    rcases List.mem_cons.1 ha with rfl | ha
    · exact ⟨List.mem_cons_self .., fun _ h => List.mem_cons_of_mem _ (List.mem_append_left _ h)⟩
    · obtain ⟨harm, hbody⟩ := ih ha
      have hrest : ∀ {l}, l ∈ Arm.outline n rest →
          l ∈ (n, .arm operator values) :: (outline (n + 1) body ++ (n, .close) :: Arm.outline n rest) :=
        fun h => List.mem_cons_of_mem _ (List.mem_append_right _ (List.mem_cons_of_mem _ h))
      exact ⟨hrest harm, fun _ h => hrest (hbody h)⟩

/-- The lines of a statement are indented by what encloses it. -/
theorem outline_subset (h : Encloses b k t) (n : Nat) : t.outline (n + k) ⊆ outline n b := by
  induction h generalizing n with
  | here ht => exact outline_subset_of_mem ht n
  | @block b d u t k hu hswitch hd _ ih =>
    have hlines := ih (n + 1)
    rw [Nat.add_assoc, Nat.add_comm 1 k] at hlines
    exact fun _ hl => outline_subset_of_mem hu n (outline_subset_of_blocks hswitch hd n (hlines hl))
  | @arm b value arms a t k hu ha _ ih =>
    have hlines := ih (n + 2)
    rw [Nat.add_assoc, Nat.add_comm 2 k] at hlines
    have hinside : Arm.outline (n + 1) arms ⊆ (Stmt.switch value arms).outline n :=
      fun _ hl => List.mem_cons_of_mem _ (List.mem_append_left _ hl)
    exact fun _ hl => outline_subset_of_mem hu n (hinside ((outline_subset_of_arms ha (n + 1)).2 (hlines hl)))

theorem first_mem_outline (h : Encloses b k t) (n : Nat) : (n + k, .first t) ∈ outline n b :=
  h.outline_subset n (by cases t <;> exact List.mem_cons_self ..)

theorem arm_mem_outline {value : Expr} {arms : List Arm} {a : Arm} (h : Encloses b k (.switch value arms))
    (ha : a ∈ arms) (n : Nat) : (n + k + 1, .arm a.operator a.values) ∈ outline n b :=
  h.outline_subset n (List.mem_cons_of_mem _ (List.mem_append_left _ (outline_subset_of_arms ha (n + k + 1)).1))

end Block.Encloses

/-! ### Parts without a written form -/

/-- What is wrong where a script has no text. -/
inductive ScriptDeclaration.Lacks (d : ScriptDeclaration) : PrintFault → Prop
  | name : d.name = .unknown → Lacks d .namelessCallee
  | statement {t : Stmt} {fault : PrintFault} : t ∈ Block.statements d.body → t.Lacks fault → Lacks d fault
  | arm {value : Expr} {arms : List Arm} {a : Arm} {fault : PrintFault} :
    .switch value arms ∈ Block.statements d.body → a ∈ arms → HeaderLacks a.operator a.values fault → Lacks d fault

/-- What is wrong with a script is wrong with its name or with a line of its outline. -/
theorem ScriptDeclaration.lacks_iff (d : ScriptDeclaration) (n : Nat) (fault : PrintFault) :
    d.Lacks fault ↔ (fault = .namelessCallee ∧ d.name = .unknown) ∨ ∃ l ∈ Block.outline n d.body, l.2.Lacks fault := by
  constructor
  · intro h
    cases h with
    | name h => exact .inl ⟨rfl, h⟩
    | statement hmem ht =>
      obtain ⟨k, hk⟩ := Block.Encloses.exists_of_mem hmem
      exact .inr ⟨_, hk.first_mem_outline n, ht⟩
    | @arm value arms a _ hswitch ha hlacks =>
      obtain ⟨k, hk⟩ := Block.Encloses.exists_of_mem hswitch
      exact .inr ⟨_, hk.arm_mem_outline ha n, hlacks⟩
  · rintro (⟨rfl, hname⟩ | ⟨l, hl, hlacks⟩)
    · exact .name hname
    · have hlines : ∀ l ∈ Block.outline n d.body, l.2.Lacks fault → d.Lacks fault :=
        Block.forall_outline (P := fun l => l.Lacks fault → d.Lacks fault) (fun t ht h => .statement ht h)
          (fun hswitch a ha h => .arm hswitch ha h) False.elim False.elim n
      exact hlines l hl hlacks

/-! ### Texts -/

/-- The text of a line, with its indentation. -/
def Line.Reads (s : Scope) (unit : Text) (l : Nat × Line) (text : Text) : Prop :=
  ∃ content, l.2.text s = .ok content ∧ text = .times l.1 unit ++ content

namespace ScriptDeclaration

variable {d : ScriptDeclaration} {s : Scope} {unit : Text}

private theorem indented_eq_ok_iff {l : Nat × Line} {text : Text} :
    Line.indented s unit l = .ok text ↔ Line.Reads s unit l text := by
  rw [Line.indented, bind_eq_ok_iff]
  exact exists_congr fun content => and_congr_right fun _ => ⟨fun h => (Except.ok.inj h).symm, fun h => congrArg _ h.symm⟩

theorem text_eq_ok_iff {text : Text} : d.text s unit = .ok text ↔ ∃ name body, d.name.text s = .ok name ∧
    List.Forall₂ (Line.Reads s unit) (Block.outline 1 d.body) body ∧
      text = Text.intercalate "\n" (d.lines name body) ++ "\n" := by
  have hlines : ∀ {body}, (Block.outline 1 d.body).mapM (Line.indented s unit) = .ok body ↔
      List.Forall₂ (Line.Reads s unit) (Block.outline 1 d.body) body := by
    intro body
    rw [mapM_eq_ok_iff]
    simp only [indented_eq_ok_iff]
  rw [text_eq, bind_eq_ok_iff]
  constructor
  · rintro ⟨name, hname, h⟩
    obtain ⟨body, hbody, h⟩ := bind_eq_ok_iff.1 h
    exact ⟨name, body, hname, hlines.1 hbody, (Except.ok.inj h).symm⟩
  · rintro ⟨name, body, hname, hbody, rfl⟩
    exact ⟨name, hname, bind_eq_ok_iff.2 ⟨body, hlines.2 hbody, rfl⟩⟩

/-- A script has no text just when something is wrong with it, and the failure says what. -/
theorem text_fails (d : ScriptDeclaration) (s : Scope) (unit : Text) : FailsFor d.Lacks (d.text s unit) := by
  have hlines : FailsFor (fun fault => ∃ l ∈ Block.outline 1 d.body, l.2.Lacks fault)
      ((Block.outline 1 d.body).mapM (Line.indented s unit)) := .mapM fun l _ => l.2.text_fails.return _
  rw [text_eq]
  exact (d.name.text_fails.bind fun _ _ => hlines.return _).congr fun fault => (d.lacks_iff 1 fault).symm

/-- The declaration of a printable script has a text, of lines that begin with its header and end with a brace. -/
theorem exists_text {name : Text} (hname : d.name.text s = .ok name) (h : ∀ t ∈ Block.statements d.body, t.Printable)
    (unit : Text) : ∃ body, d.text s unit = .ok (Text.intercalate "\n" (d.lines name body) ++ "\n") := by
  have hnone : ∀ fault, ¬d.Lacks fault := by
    intro fault hlacks
    cases hlacks with
    | name hunknown =>
      rw [hunknown] at hname
      cases hname
    | statement ht hlacks => exact (h _ ht).not_lacks _ hlacks
    | arm hswitch ha hlacks => exact (h _ hswitch).headers rfl _ ha _ hlacks
  obtain ⟨text, htext⟩ := (d.text_fails s unit).exists_ok hnone
  obtain ⟨name', body, hname', -, rfl⟩ := text_eq_ok_iff.1 htext
  rw [hname, Except.ok.injEq] at hname'
  exact ⟨body, hname' ▸ htext⟩

end ScriptDeclaration

end MapScript
