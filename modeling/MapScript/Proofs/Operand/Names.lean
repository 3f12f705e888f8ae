import Mathlib.Data.List.Basic
import MapScript.Decoding.Operands
import MapScript.Proofs.Text.Hex

/-!
# Names that scripts give

A variable is named by the word of its storage class and its index, with a line between them that is in neither. So the
name tells the variable (`Variable.name_injective`). Routines that are called for the first time are named by their
address: different addresses give different names, methods are told from scripts, and no routine has the name of a
variable.
-/

namespace MapScript

/-! ### Names of variables -/

/-- The characters of a name in front of the line and behind it. -/
private theorem Variable.name_eq (v : Variable) :
    v.name = .ofChars (v.storage.word.toList ++ '_' :: (Hex.sign v.index ++ Hex.digits v.index.natAbs)) := by
  rw [Text.ofChars_append]
  ext1
  simp [name, Hex.signed, Text.ofString]

private theorem Storage.underscore_notMem_word (s : Storage) : '_' ∉ s.word.toList := by
  cases s <;> decide

theorem Storage.mem_all (s : Storage) : s ∈ all := by
  cases s <;> decide

private theorem Storage.word_injective {s t : Storage} (h : s.word.toList = t.word.toList) : s = t := by
  have hall : ∀ s ∈ all, ∀ t ∈ all, s.word.toList = t.word.toList → s = t := by decide +kernel
  exact hall s s.mem_all t t.mem_all h

private theorem underscore_notMem_signed (n : Int) : '_' ∉ Hex.sign n ++ Hex.digits n.natAbs := by
  have hdigits : '_' ∉ Hex.digits n.natAbs := Hex.notMem_digits (by decide) _
  have hsign : '_' ∉ Hex.sign n := by
    unfold Hex.sign
    split <;> decide
  simp [hdigits, hsign]

/-- The name of a variable tells the variable. -/
theorem Variable.name_injective {v v' : Variable} (h : v.name = v'.name) : v = v' := by
  rw [v.name_eq, v'.name_eq] at h
  have hchars := Text.ofChars_injective h
  rw [List.append_cons_inj_of_notMem (v.storage.underscore_notMem_word) (underscore_notMem_signed v.index)] at hchars
  obtain ⟨hword, -, hindex⟩ := hchars
  have hindex : v.index = v'.index := Hex.signed_injective (congrArg Text.ofChars hindex)
  cases v
  cases v'
  cases Storage.word_injective hword
  cases hindex
  rfl

/-- The name of a variable has a line in it. -/
theorem Variable.underscore_mem_name (v : Variable) : CodePoint.char '_' ∈ v.name.points := by
  simp [v.name_eq]

/-! ### Names of routines -/

/-- The word is the address of a routine, and no variable. -/
def IsAddress (w : Int32) : Prop := ∀ v, Operand.ofInt w.toInt ≠ .variable v

theorem unsigned_nonneg (w : Int32) : 0 ≤ unsigned w := Int.natCast_nonneg _

theorem unsigned_injective {w w' : Int32} (h : unsigned w = unsigned w') : w = w' := by
  have hwords : w.toUInt32 = w'.toUInt32 := UInt32.toNat_inj.1 (Int.ofNat.inj h)
  rw [← w.toInt32_toUInt32, ← w'.toInt32_toUInt32, hwords]

/-- The name of a native method that is called for the first time. -/
def methodName (address : Int) : Text := "func_" ++ Hex.padded 8 address

/-- The name of a script that is started for the first time. -/
def scriptName (address : Int) : Text := "script_" ++ Hex.padded 8 address

/-- A name that a routine at the address gets. -/
def IsRoutineName (address : Int) (name : Text) : Prop := name = methodName address ∨ name = scriptName address

private theorem first_methodName (address : Int) : (methodName address).points.head? = some (.char 'f') := rfl

private theorem first_scriptName (address : Int) : (scriptName address).points.head? = some (.char 's') := rfl

private theorem Storage.exists_first (s : Storage) : ∃ c, s.word.toList.head? = some c ∧ c ≠ 'f' ∧ c ≠ 's' := by
  have hall : ∀ s ∈ all, s.word.toList.head?.any (fun c => c ≠ 'f' && c ≠ 's') = true := by decide
  have hany := hall s s.mem_all
  cases hfirst : s.word.toList.head? with
  | none => simp [hfirst] at hany
  | some c => exact ⟨c, rfl, by simpa [hfirst] using hany⟩

private theorem Variable.exists_first (v : Variable) :
    ∃ c, v.name.points.head? = some (.char c) ∧ c ≠ 'f' ∧ c ≠ 's' := by
  obtain ⟨c, hfirst, hne⟩ := v.storage.exists_first
  refine ⟨c, ?_, hne⟩
  simp [v.name_eq, hfirst]

/-- No routine has the name of a variable. -/
theorem IsRoutineName.ne_variable {address : Int} {name : Text} (h : IsRoutineName address name) (v : Variable) :
    name ≠ v.name := by
  rintro rfl
  obtain ⟨c, hfirst, hmethod, hscript⟩ := v.exists_first
  rcases h with h | h
  · rw [h, first_methodName] at hfirst
    cases hfirst
    exact hmethod rfl
  · rw [h, first_scriptName] at hfirst
    cases hfirst
    exact hscript rfl

/-- The name of a routine has a line in it. -/
theorem IsRoutineName.underscore_mem {address : Int} {name : Text} (h : IsRoutineName address name) :
    CodePoint.char '_' ∈ name.points := by
  rcases h with rfl | rfl
  · exact List.mem_append_left _ (by decide)
  · exact List.mem_append_left _ (by decide)

/-- The name of a routine tells its address. -/
theorem IsRoutineName.address_eq {a a' : Int} (ha : 0 ≤ a) (ha' : 0 ≤ a') {name : Text} (h : IsRoutineName a name)
    (h' : IsRoutineName a' name) : a = a' := by
  have hcancel : ∀ front : Text, front ++ Hex.padded 8 a = front ++ Hex.padded 8 a' → a = a' := by
    intro front he
    have hpadded : Hex.padded 8 a = Hex.padded 8 a' := Text.ext (List.append_cancel_left (congrArg Text.points he))
    exact Hex.padded_injective (by decide) ha ha' hpadded
  have hapart : ∀ b b', methodName b ≠ scriptName b' := by
    intro b b' he
    have hfirst := first_methodName b
    rw [he, first_scriptName] at hfirst
    exact absurd hfirst (by decide)
  rcases h with rfl | rfl
  · rcases h' with h' | h'
    · exact hcancel _ h'
    · exact absurd h' (hapart a a')
  · rcases h' with h' | h'
    · exact absurd h'.symm (hapart a' a)
    · exact hcancel _ h'

end MapScript
