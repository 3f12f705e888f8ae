import MapScript.Proofs.DataType.Grammar

/-!
# Reading the written form of a type

A type is read back from its written form, in whatever case its letters are and with blanks around it
(`ofText_of_spells`). So the text of a type tells the type.

The written form is one of the texts that describe the type (`describes_chars`): the parameters are listed with commas
between them, the texts of all but the first with a space in front.
-/

namespace MapScript.DataType

/-! ### Written forms -/

theorem chars_of_not_callable {t : DataType} (h : t.isCallable = false) : t.chars = t.word := by
  cases t with
  | callable c ps => cases h
  | _ => rfl

/-- The text of a list of types is the first one's, and then a comma, a space and the text of the others. -/
theorem charsList_cons (t : DataType) (ts : List DataType) :
    charsList (t :: ts) = t.chars ++ if ts = [] then [] else ',' :: ' ' :: charsList ts := by
  cases ts <;> simp [charsList]

/-- The characters that types are written with. -/
def alphabet : List Char := ['a', 'b', 'f', 'i', 'l', 'm', 'n', 'o', 's', 't', 'u', 'y', '(', ')', ',', ' ']

private theorem convention_subset (c : Convention) : c.word ⊆ alphabet := by
  cases c <;> decide

private theorem word_subset (t : DataType) : t.word ⊆ alphabet := by
  cases t with
  | callable c ps => exact convention_subset c
  | _ => decide

private theorem charsList_subset {ps : List DataType} (h : ∀ p ∈ ps, p.chars ⊆ alphabet) : charsList ps ⊆ alphabet := by
  induction ps with
  | nil => exact List.nil_subset _
  | cons p rest ih =>
    obtain ⟨hp, hrest⟩ := List.forall_mem_cons.1 h
    have hseparator : [',', ' '] ⊆ alphabet := by decide
    rw [charsList_cons]
    refine List.append_subset.2 ⟨hp, ?_⟩
    split
    · exact List.nil_subset _
    · exact List.append_subset.2 ⟨hseparator, ih hrest⟩

theorem chars_subset (t : DataType) : t.chars ⊆ alphabet := by
  induction t using DataType.induction with
  | scalar t ht =>
    rw [chars_of_not_callable ht]
    exact t.word_subset
  | callable c ps ih =>
    have hparentheses : ['('] ⊆ alphabet ∧ [')'] ⊆ alphabet := by decide
    have hinner := List.append_subset.2 ⟨hparentheses.1, charsList_subset ih⟩
    rw [chars]
    exact List.append_subset.2 ⟨List.append_subset.2 ⟨convention_subset c, hinner⟩, hparentheses.2⟩

/-- Types are written in lower case and with characters below U+0080. -/
private theorem toLower_of_mem_chars {t : DataType} {c : Char} (h : c ∈ t.chars) : c.toLower = c ∧ c.toNat < 128 := by
  have hall : (alphabet.all fun c => c.toLower = c ∧ c.toNat < 128) = true := by decide
  exact of_decide_eq_true (List.all_eq_true.1 hall c (t.chars_subset h))

theorem map_toLower_chars (t : DataType) : t.chars.map Char.toLower = t.chars := by
  have hall : ∀ c ∈ t.chars, c.toLower = id c := fun c hc => (toLower_of_mem_chars hc).1
  rw [List.map_congr_left hall, List.map_id]

private theorem exists_ends (t : DataType) : ∃ first last, t.chars.head? = some first ∧ t.chars.getLast? = some last ∧
    isBlank (.char first) = false ∧ isBlank (.char last) = false := by
  cases t with
  | callable c ps =>
    have hlast : (callable c ps).chars.getLast? = some ')' := by rw [chars, List.getLast?_concat]
    cases c with
    | script => exact ⟨'f', ')', by rw [chars]; rfl, hlast, by decide, by decide⟩
    | native => exact ⟨'a', ')', by rw [chars]; rfl, hlast, by decide, by decide⟩
  | _ => exact ⟨_, _, rfl, rfl, by decide, by decide⟩

/-- The written form of a type has no blanks at its ends. -/
private theorem not_blank_ends (t : DataType) : (∀ c ∈ t.chars.head?, isBlank (.char c) = false) ∧
    ∀ c ∈ t.chars.getLast?, isBlank (.char c) = false := by
  obtain ⟨first, last, hfirst, hlast, hblank⟩ := t.exists_ends
  rw [hfirst, hlast]
  simpa using hblank

/-- Written forms with commas and spaces between them are a parameter list. -/
private theorem exists_listed {ps : List DataType}
    (h : ∀ p ∈ ps, ∀ {front}, Blanks front → Describes (front ++ p.chars.map .char) p) {front : List CodePoint}
    (hfront : Blanks front) :
    ∃ pieces, Listed pieces (front ++ (charsList ps).map .char) ∧ List.Forall₂ Describes pieces ps := by
  induction ps generalizing front with
  | nil =>
    rw [charsList, List.map_nil, List.append_nil]
    exact ⟨[], .none hfront, .nil⟩
  | cons p rest ih =>
    obtain ⟨hp, hrest⟩ := List.forall_mem_cons.1 h
    rw [charsList_cons, List.map_append, ← List.append_assoc]
    split
    · rename_i hnil
      subst hnil
      rw [List.map_nil, List.append_nil]
      exact ⟨[_], .one, .cons (hp hfront) .nil⟩
    · have hspace : Blanks [.char ' '] := by unfold Blanks; decide
      obtain ⟨pieces, hlisted, hpieces⟩ := ih hrest hspace
      exact ⟨_ :: pieces, .more hlisted, .cons (hp hfront) hpieces⟩

/-- The written form of a type describes it, also with blanks in front. -/
theorem describes_chars (t : DataType) {front : List CodePoint} (hfront : Blanks front) :
    Describes (front ++ t.chars.map .char) t := by
  have hnone : Blanks [] := nofun
  induction t using DataType.induction generalizing front with
  | scalar t ht =>
    rw [chars_of_not_callable ht, ← List.append_nil (front ++ _)]
    exact .scalar ht hfront hnone
  | callable c ps ih =>
    obtain ⟨pieces, hlisted, hpieces⟩ := exists_listed (fun p hp _ => ih p hp) hnone
    have hchars : (callable c ps).chars.map CodePoint.char = framed c ((charsList ps).map .char) := by
      rw [chars]
      simp [framed]
    rw [hchars, ← List.append_nil (front ++ _)]
    exact .callable hfront hnone hlisted hpieces

/-! ### Spelling -/

/-- The text is the written form of the type in some letter case, with blanks around it. -/
def Spells (text : Text) (t : DataType) : Prop :=
  ∃ (front : List CodePoint) (cs : List Char) (back : List CodePoint), text.points = front ++ cs.map .char ++ back ∧
    (∀ c ∈ front ++ back, isBlank c = true) ∧ cs.map Char.toLower = t.chars.map Char.toLower

private theorem ofText_of_spells {text : Text} {t : DataType} (h : Spells text t) : ofText text = .ok t := by
  obtain ⟨front, cs, back, htext, hblank, hcs⟩ := h
  rw [map_toLower_chars] at hcs
  have hascii : ∀ c ∈ cs, c.toNat < 128 := by
    intro c hc
    have hmem : c.toLower ∈ t.chars := hcs ▸ List.mem_map_of_mem hc
    exact ascii_of_toLower (toLower_of_mem_chars hmem).2
  have htrim : trim text.points = cs.map .char := by
    obtain ⟨hfront, hback⟩ := List.forall_mem_append.1 hblank
    rw [htext]
    refine trim_of_blanks hfront hback ?_ ?_
    · intro p hp
      obtain ⟨c, hc, rfl⟩ := Option.map_eq_some_iff.1 (List.head?_map ▸ hp)
      rw [← isBlank_toLower]
      exact t.not_blank_ends.1 _ (by rw [← hcs, List.head?_map, hc]; rfl)
    · intro p hp
      obtain ⟨c, hc, rfl⟩ := Option.map_eq_some_iff.1 (List.getLast?_map ▸ hp)
      rw [← isBlank_toLower]
      exact t.not_blank_ends.2 _ (by rw [← hcs, List.getLast?_map, hc]; rfl)
  have hnone : Blanks [] := nofun
  rw [ofText, htrim, lower_of_ascii hascii, hcs]
  exact ofLower_of_describes (t.describes_chars hnone)

/-- A type is read from its written form, also in other letter cases and with blanks around it, and so the text of a type
tells the type. -/
theorem ofText_text : (∀ t : DataType, ofText t.text = .ok t) ∧
    (∀ (t : DataType) (text : Text), Spells text t → ofText text = .ok t) ∧ Function.Injective text := by
  have hspells : ∀ t : DataType, Spells t.text t := fun t => ⟨[], t.chars, [], by simp [text], nofun, rfl⟩
  refine ⟨fun t => ofText_of_spells (hspells t), fun t text h => ofText_of_spells h, fun t u h => ?_⟩
  have ht := ofText_of_spells (hspells t)
  rw [h, ofText_of_spells (hspells u)] at ht
  exact (Except.ok.inj ht).symm

theorem ofText_text_nested :
    Spells "\tFun(INT, asm(), Asm(any, fUn(bool)))\n " (.script [.int, .native [], .native [.any, .script [.bool]]]) ∧
    ofText "\tFun(INT, asm(), Asm(any, fUn(bool)))\n " =
      .ok (.script [.int, .native [], .native [.any, .script [.bool]]]) := by
  have hspells : Spells "\tFun(INT, asm(), Asm(any, fUn(bool)))\n "
      (.script [.int, .native [], .native [.any, .script [.bool]]]) :=
    ⟨['\t'], "Fun(INT, asm(), Asm(any, fUn(bool)))".toList, ['\n', ' '], by decide, by decide, by decide⟩
  exact ⟨hspells, ofText_text.2.1 _ _ hspells⟩

end MapScript.DataType
