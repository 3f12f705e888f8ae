import Mathlib.Data.List.TakeWhile
import MapScript.Text.Blank
import MapScript.Text.Lower

/-!
# Blanks and lower case

Trimming takes away just the blanks around a text that has none at its own ends (`trim_of_blanks`), and every text is of
that form (`exists_trim`). Characters below U+0080 have the lower case of their letters (`lower_of_ascii`), and no letter is
blank in either case (`isBlank_toLower`).
-/

namespace MapScript

/-! ### Blanks around a text -/

theorem trim_of_blanks {front body back : List CodePoint} (hfront : ∀ c ∈ front, isBlank c = true)
    (hback : ∀ c ∈ back, isBlank c = true) (hfirst : ∀ c ∈ body.head?, isBlank c = false)
    (hlast : ∀ c ∈ body.getLast?, isBlank c = false) : trim (front ++ body ++ back) = body := by
  have hstart : trimStart (front ++ (body ++ back)) = trimStart (body ++ back) := by
    rw [trimStart, trimStart, List.dropWhile_append_of_pos hfront]
  have hend : trimEnd (body ++ back) = body := by
    have hreverse : ∀ c ∈ back.reverse, isBlank c = true := fun c hc => hback c (List.mem_reverse.1 hc)
    rw [trimEnd, List.reverse_append, List.dropWhile_append_of_pos hreverse]
    cases hbody : body.reverse with
    | nil =>
      rw [List.reverse_eq_nil_iff.1 hbody]
      rfl
    | cons c rest =>
      have hc : isBlank c = false := hlast c (by rw [List.getLast?_eq_head?_reverse, hbody]; rfl)
      rw [List.dropWhile_cons_of_neg (by simp [hc]), ← hbody, List.reverse_reverse]
  rw [List.append_assoc, trim, hstart]
  cases body with
  | nil =>
    rw [List.nil_append, trimStart, ← List.append_nil back, List.dropWhile_append_of_pos hback]
    rfl
  | cons c rest =>
    have hc : isBlank c = false := hfirst c rfl
    rw [List.cons_append, trimStart, List.dropWhile_cons_of_neg (by simp [hc]), ← List.cons_append, hend]

private theorem exists_trimEnd (text : List CodePoint) : ∃ back, text = trimEnd text ++ back ∧
    (∀ c ∈ back, isBlank c = true) ∧ ∀ c ∈ (trimEnd text).getLast?, isBlank c = false := by
  refine ⟨(text.reverse.takeWhile isBlank).reverse, ?_, ?_, ?_⟩
  · rw [trimEnd, ← List.reverse_append, List.takeWhile_append_dropWhile, List.reverse_reverse]
  · intro c hc
    exact List.mem_takeWhile_imp (List.mem_reverse.1 hc)
  · intro c hc
    rw [trimEnd, List.getLast?_reverse] at hc
    have hhead := List.head?_dropWhile_not isBlank text.reverse
    rw [hc] at hhead
    simpa using hhead

/-- A text is its trimmed form with blanks around it. -/
theorem exists_trim (text : List CodePoint) : ∃ front back, text = front ++ trim text ++ back ∧
    (∀ c ∈ front, isBlank c = true) ∧ (∀ c ∈ back, isBlank c = true) ∧
    (∀ c ∈ (trim text).head?, isBlank c = false) ∧ ∀ c ∈ (trim text).getLast?, isBlank c = false := by
  obtain ⟨back, hstart, hback, hlast⟩ := exists_trimEnd (trimStart text)
  have htext : text = text.takeWhile isBlank ++ trimStart text := List.takeWhile_append_dropWhile.symm
  refine ⟨text.takeWhile isBlank, back, ?_, fun c hc => List.mem_takeWhile_imp hc, hback, ?_, hlast⟩
  · rw [trim, List.append_assoc, ← hstart, ← htext]
  · intro c hc
    -- what is left of a text at its end begins like the text
    have hfirst : (trimStart text).head? = some c := by
      rw [hstart, List.head?_append]
      exact Option.or_eq_some_iff.2 (.inl hc)
    have hhead := List.head?_dropWhile_not isBlank text
    rw [trimStart] at hfirst
    rw [hfirst] at hhead
    simpa using hhead

theorem trim_eq_nil_iff {text : List CodePoint} : trim text = [] ↔ ∀ c ∈ text, isBlank c = true := by
  obtain ⟨front, back, htext, hfront, hback, -, -⟩ := exists_trim text
  constructor
  · intro h c hc
    rw [htext, h, List.append_nil] at hc
    exact (List.mem_append.1 hc).elim (hfront c) (hback c)
  · intro h
    have htrim : trim (text ++ [] ++ []) = [] := trim_of_blanks h nofun nofun nofun
    rwa [List.append_nil, List.append_nil] at htrim

/-- Blanks around a text do not change its trimmed form. -/
theorem trim_blanks_append {front back : List CodePoint} (hfront : ∀ c ∈ front, isBlank c = true)
    (hback : ∀ c ∈ back, isBlank c = true) (text : List CodePoint) : trim (front ++ text ++ back) = trim text := by
  obtain ⟨front', back', htext, hfront', hback', hfirst, hlast⟩ := exists_trim text
  have hall : front ++ text ++ back = front ++ front' ++ trim text ++ (back' ++ back) := by
    calc front ++ text ++ back
      _ = front ++ (front' ++ trim text ++ back') ++ back := by rw [← htext]
      _ = front ++ front' ++ trim text ++ (back' ++ back) := by simp only [List.append_assoc]
  rw [hall]
  exact trim_of_blanks (List.forall_mem_append.2 ⟨hfront, hfront'⟩) (List.forall_mem_append.2 ⟨hback', hback⟩) hfirst hlast

/-! ### Characters below U+0080 -/

private theorem toLower_cases (c : Char) : c.toLower = c ∨ c.toNat < 128 := by
  unfold Char.toLower
  split
  · rename_i h
    have hlast : c.toNat ≤ 90 := UInt32.le_iff_toNat_le.1 h.2
    exact .inr (by omega)
  · exact .inl rfl

private theorem exists_eq_ofNat {c : Char} (h : c.toNat < 128) : ∃ n : Fin 128, c = Char.ofNat n :=
  ⟨⟨c.toNat, h⟩, (Char.ofNat_toNat c).symm⟩

theorem ascii_of_toLower {c : Char} (h : c.toLower.toNat < 128) : c.toNat < 128 := by
  rcases toLower_cases c with hc | hc
  · rwa [← hc]
  · exact hc

theorem isBlank_toLower (c : Char) : isBlank (.char c.toLower) = isBlank (.char c) := by
  rcases toLower_cases c with h | h
  · rw [h]
  · have hall : ∀ n : Fin 128, isBlank (.char (Char.ofNat n).toLower) = isBlank (.char (Char.ofNat n)) := by decide
    obtain ⟨n, rfl⟩ := exists_eq_ofNat h
    exact hall n

private theorem lowerChar_of_ascii {c : Char} (h : c.toNat < 128) : lowerChar c = c.toLower := by
  have hall : ∀ n : Fin 128, lowerChar (Char.ofNat n) = (Char.ofNat n).toLower := by decide
  obtain ⟨n, rfl⟩ := exists_eq_ofNat h
  exact hall n

private theorem lowerAfter_of_ascii {cs : List Char} (h : ∀ c ∈ cs, c.toNat < 128) (before : List CodePoint) :
    lowerAfter before (cs.map .char) = (cs.map Char.toLower).map .char := by
  induction cs generalizing before with
  | nil => rfl
  | cons c rest ih =>
    obtain ⟨hc, hrest⟩ := List.forall_mem_cons.1 h
    have hdotted : CodePoint.char c ≠ .char 'İ' := by
      rintro ⟨rfl⟩
      exact absurd hc (by decide)
    have hsigma : CodePoint.char c ≠ .char 'Σ' := by
      rintro ⟨rfl⟩
      exact absurd hc (by decide)
    rw [List.map_cons, lowerAfter, if_neg hdotted, if_neg hsigma, ih hrest, lowerPoint, lowerChar_of_ascii hc]
    rfl

theorem lower_of_ascii {cs : List Char} (h : ∀ c ∈ cs, c.toNat < 128) :
    lower (cs.map .char) = (cs.map Char.toLower).map .char :=
  lowerAfter_of_ascii h []

end MapScript
