import Mathlib.Data.List.Basic
import MapScript.Instruction.Basic

/-!
# Encoded instructions

An instruction is written as its code, the number of its operands and the operands, each as a word of four bytes, so that
its bytes are as many as its size says (`Instruction.length_encode`). Reading and writing are inverse: a script that is
written and has any bytes behind it is read as it was, and the bytes of any script are those of its instructions and a
rest, in which no instruction is whole unless the script is finished before it (`instructions_inverse_encode`).

Words come first (`words_flatMap_wordBytes`), then one instruction (`nextInstruction?_words` and its converse
`eq_words_of_nextInstruction?`), and then the listing, which is one induction in each direction. The instruction at a
position is read as the next one is in a listing (`readAt?_natCast`).
-/

namespace MapScript

/-! ### Words -/

/-- The bytes of a word, the most significant first. -/
def wordBytes (w : UInt32) : List UInt8 :=
  [(w >>> 24).toUInt8, (w >>> 16).toUInt8, (w >>> 8).toUInt8, w.toUInt8]

theorem bigEndian_wordBytes (w : UInt32) : bigEndian (wordBytes w) = w.toNat := by
  have hlt := w.toNat_lt
  simp [wordBytes, bigEndian, Nat.shiftRight_eq_div_pow]
  omega

theorem wordBytes_bigEndian (a b c d : UInt8) : wordBytes (.ofNat (bigEndian [a, b, c, d])) = [a, b, c, d] := by
  have ha := a.toNat_lt
  have hb := b.toNat_lt
  have hc := c.toNat_lt
  have hd := d.toNat_lt
  simp only [wordBytes, List.cons.injEq, ← UInt8.toNat_inj, and_true]
  simp [bigEndian, Nat.shiftRight_eq_div_pow]
  omega

/-- The words of bytes that start with those of a word. -/
theorem words_wordBytes_append (w : UInt32) (rest : List UInt8) : words (wordBytes w ++ rest) = w :: words rest := by
  have hw : UInt32.ofNat (bigEndian (wordBytes w)) = w := by
    rw [bigEndian_wordBytes, UInt32.ofNat_toNat]
  show UInt32.ofNat (bigEndian (wordBytes w)) :: words rest = _
  rw [hw]

theorem words_flatMap_wordBytes (ws : List UInt32) (rest : List UInt8) :
    words (ws.flatMap wordBytes ++ rest) = ws ++ words rest := by
  induction ws with
  | nil => rfl
  | cons w ws ih => rw [List.flatMap_cons, List.append_assoc, words_wordBytes_append, ih, List.cons_append]

theorem length_flatMap_wordBytes (ws : List UInt32) : (ws.flatMap wordBytes).length = 4 * ws.length := by
  induction ws with
  | nil => rfl
  | cons w ws ih =>
    rw [List.flatMap_cons, List.length_append, ih, List.length_cons]
    simp only [wordBytes, List.length_cons, List.length_nil]
    omega

/-- Bytes are those of their words, and less than a word behind them. -/
theorem exists_bytes_eq (bytes : List UInt8) :
    ∃ rest, bytes = (words bytes).flatMap wordBytes ++ rest ∧ rest.length < 4 := by
  induction bytes using words.induct with
  | case1 a b c d bytes ih =>
    obtain ⟨rest, hbytes, hrest⟩ := ih
    refine ⟨rest, ?_, hrest⟩
    rw [words, List.flatMap_cons, wordBytes_bigEndian, List.append_assoc, ← hbytes]
    rfl
  | case2 bytes h =>
    refine ⟨bytes, ?_, ?_⟩
    · rw [words]
      · rfl
      · exact h
    · match bytes, h with
      | [], _ | [_], _ | [_, _], _ | [_, _, _], _ => simp
      | a :: b :: c :: d :: rest, h => exact absurd rfl (h a b c d rest)

theorem length_words (bytes : List UInt8) : (words bytes).length = bytes.length / 4 := by
  obtain ⟨rest, hbytes, hrest⟩ := exists_bytes_eq bytes
  have hlength := congrArg List.length hbytes
  rw [List.length_append, length_flatMap_wordBytes] at hlength
  omega

/-! ### One instruction -/

namespace Instruction

/-- The words of an instruction, operands in two's complement. -/
def words (i : Instruction) : List UInt32 := i.code :: .ofNat i.operands.length :: i.operands.map Int32.toUInt32

/-- The bytes of an instruction; its address is not among them. -/
def encode (i : Instruction) : List UInt8 := i.words.flatMap wordBytes

theorem length_encode (i : Instruction) : i.encode.length = i.size := by
  rw [encode, length_flatMap_wordBytes, words, size, List.length_cons, List.length_cons, List.length_map]
  omega

/-- Whether the number of the operands fits into a word. -/
def IsCountable (i : Instruction) : Prop := i.operands.length < UInt32.size

instance (i : Instruction) : Decidable i.IsCountable := inferInstanceAs (Decidable (_ < _))

end Instruction

theorem nextInstruction?_words {i : Instruction} (h : i.IsCountable) (address : Int) (rest : List UInt32) :
    nextInstruction? address (i.words ++ rest) = some ({ i with address }, rest) := by
  have hcount : (UInt32.ofNat i.operands.length).toNat = i.operands.length :=
    Nat.mod_eq_of_lt h
  have hlength : (i.operands.map Int32.toUInt32).length = i.operands.length := List.length_map ..
  have hoperands : (i.operands.map Int32.toUInt32).map UInt32.toInt32 = i.operands := by
    rw [List.map_map]
    exact List.map_id'' (fun w => Int32.toInt32_toUInt32 w) _
  rw [Instruction.words, List.cons_append, List.cons_append, nextInstruction?, hcount, if_pos]
  · rw [List.take_append_of_le_length (by omega), List.take_of_length_le (by omega), hoperands,
      List.drop_append_of_le_length (by omega), List.drop_of_length_le (by omega), List.nil_append]
  · rw [List.length_append, hlength]
    omega

theorem eq_words_of_nextInstruction? {address : Int} {ws rest : List UInt32} {i : Instruction}
    (h : nextInstruction? address ws = some (i, rest)) : ws = i.words ++ rest ∧ i.address = address ∧ i.IsCountable := by
  unfold nextInstruction? at h
  split at h
  · rename_i code count ws
    split at h
    · rename_i hle
      cases h
      have hlength : ((ws.take count.toNat).map UInt32.toInt32).length = count.toNat := by
        rw [List.length_map, List.length_take]
        omega
      have hoperands : ((ws.take count.toNat).map UInt32.toInt32).map Int32.toUInt32 = ws.take count.toNat := by
        rw [List.map_map]
        exact List.map_id'' (fun w => UInt32.toUInt32_toInt32 w) _
      refine ⟨?_, rfl, ?_⟩
      · rw [Instruction.words, hlength, UInt32.ofNat_toNat, hoperands, List.cons_append, List.cons_append,
          List.take_append_drop]
      · rw [Instruction.IsCountable, hlength]
        exact count.toNat_lt
    · cases h
  · cases h

/-! ### The instruction at a position -/

/-- The bytes of the word at a place, as many words behind the start. -/
private def wordAt (bytes : List UInt8) (place : Nat) : List UInt8 := (bytes.drop (4 * place)).take 4

private theorem slice_eq_wordAt {data : List UInt8} {n place : Nat} {start : Int} (h : start = n + 4 * place) :
    slice data start (start + 4) = wordAt (data.drop n) place := by
  subst h
  have hstart : position data.length (n + 4 * place) = n + 4 * place := by
    unfold position
    split <;> omega
  have hstop : position data.length (n + 4 * place + 4) = n + 4 * place + 4 := by
    unfold position
    split <;> omega
  rw [slice, hstart, hstop, List.drop_take, wordAt, List.drop_drop, Nat.add_sub_cancel_left]

private theorem length_wordAt {bytes : List UInt8} {place : Nat} (h : 4 * place + 4 ≤ bytes.length) :
    (wordAt bytes place).length = 4 := by
  rw [wordAt, List.length_take, List.length_drop]
  omega

private theorem getElem?_words {bytes : List UInt8} {place : Nat} (h : 4 * place + 4 ≤ bytes.length) :
    (words bytes)[place]? = some (.ofNat (bigEndian (wordAt bytes place))) := by
  induction bytes using words.induct generalizing place with
  | case1 a b c d bytes ih =>
    rw [words]
    cases place with
    | zero => rfl
    | succ place =>
      have hplace : 4 * (place + 1) = 4 * place + 4 := by omega
      rw [List.getElem?_cons_succ, ih (by simp only [List.length_cons] at h; omega), wordAt, wordAt, hplace]
      rfl
  | case2 bytes hshort =>
    match bytes, hshort with
    | [], _ | [_], _ | [_, _], _ | [_, _, _], _ => simp at h
    | a :: b :: c :: d :: rest, hshort => exact absurd rfl (hshort a b c d rest)

private theorem bigEndian_lt {bytes : List UInt8} (h : bytes.length = 4) : bigEndian bytes < UInt32.size := by
  match bytes, h with
  | [a, b, c, d], _ =>
    have ha := a.toNat_lt
    have hb := b.toNat_lt
    have hc := c.toNat_lt
    have hd := d.toNat_lt
    simp only [bigEndian, List.foldl_cons, List.foldl_nil, UInt32.size]
    omega

private theorem ofInt_signedBigEndian {bytes : List UInt8} (h : bytes.length = 4) :
    Int32.ofInt (signedBigEndian bytes) = (UInt32.ofNat (bigEndian bytes)).toInt32 := by
  have hnat : (UInt32.ofNat (bigEndian bytes)).toNat = bigEndian bytes := Nat.mod_eq_of_lt (bigEndian_lt h)
  have hword : (UInt32.ofNat (bigEndian bytes)).toInt32.toInt = (bigEndian bytes : Int).bmod Int32.size := by
    show (UInt32.ofNat (bigEndian bytes)).toBitVec.toInt = _
    rw [BitVec.toInt_eq_toNat_bmod]
    show ((UInt32.ofNat (bigEndian bytes)).toNat : Int).bmod Int32.size = _
    rw [hnat]
  rw [← Int32.toInt_inj, Int32.toInt_ofInt, hword]
  unfold signedBigEndian
  rw [h]
  simp only
  split
  · rfl
  · exact Int.sub_bmod_right ..

private theorem map_wordAt {bytes : List UInt8} {code count : UInt32} {ws : List UInt32} {n : Nat}
    (hwords : words bytes = code :: count :: ws) (hn : n ≤ ws.length) :
    ((List.range n).map fun k => Int32.ofInt (signedBigEndian (wordAt bytes (k + 2)))) =
      (ws.take n).map UInt32.toInt32 := by
  have hlength := length_words bytes
  rw [hwords, List.length_cons, List.length_cons] at hlength
  apply List.ext_getElem?
  intro k
  rw [List.getElem?_map, List.getElem?_map]
  by_cases hk : k < n
  · have hword : (words bytes)[k + 2]? = some (.ofNat (bigEndian (wordAt bytes (k + 2)))) := getElem?_words (by omega)
    rw [hwords, List.getElem?_cons_succ, List.getElem?_cons_succ] at hword
    rw [List.getElem?_range hk, List.getElem?_take_of_lt hk, hword, Option.map_some, Option.map_some,
      ofInt_signedBigEndian (length_wordAt (by omega))]
  · rw [List.getElem?_eq_none (by rw [List.length_range]; omega),
      List.getElem?_eq_none (by rw [List.length_take]; omega), Option.map_none, Option.map_none]

/-- The instruction at a position is the first one of the words from there on. -/
theorem readAt?_natCast (data : List UInt8) (n : Nat) (base : Int) :
    readAt? data n base = (nextInstruction? (base + n) (words (data.drop n))).map Prod.fst := by
  have hlength := length_words (data.drop n)
  have hdrop : (data.drop n).length = data.length - n := List.length_drop
  have hcode : slice data n (n + 4) = wordAt (data.drop n) 0 := slice_eq_wordAt (by omega)
  have hcount : slice data (n + 4) (n + 4 + 4) = wordAt (data.drop n) 1 := slice_eq_wordAt (by omega)
  have hoperand : ∀ k : Nat, slice data (n + 8 + 4 * k) (n + 8 + 4 * k + 4) = wordAt (data.drop n) (k + 2) :=
    fun k => slice_eq_wordAt (by omega)
  rw [readAt?]
  simp only [hcode, hcount, hoperand]
  by_cases hshort : (data.length : Int) < n + 8
  · have hnone : nextInstruction? (base + n) (words (data.drop n)) = none := by
      match words (data.drop n), hlength with
      | [], _ | [_], _ => rfl
      | _ :: _ :: _, hlength => simp only [List.length_cons] at hlength; omega
    rw [if_pos hshort, hnone, Option.map_none]
  · obtain ⟨code, count, ws, hwords⟩ : ∃ code count ws, words (data.drop n) = code :: count :: ws := by
      match words (data.drop n), hlength with
      | [], hlength | [_], hlength => simp only [List.length_cons, List.length_nil] at hlength; omega
      | code :: count :: ws, _ => exact ⟨code, count, ws, rfl⟩
    have hfirst : (words (data.drop n))[0]? = some (.ofNat (bigEndian (wordAt (data.drop n) 0))) :=
      getElem?_words (by omega)
    have hsecond : (words (data.drop n))[1]? = some (.ofNat (bigEndian (wordAt (data.drop n) 1))) :=
      getElem?_words (by omega)
    rw [hwords] at hfirst hsecond
    have hnat : count.toNat = bigEndian (wordAt (data.drop n) 1) := by
      rw [Option.some.inj hsecond]
      exact Nat.mod_eq_of_lt (bigEndian_lt (length_wordAt (by omega)))
    rw [hwords, List.length_cons, List.length_cons] at hlength
    rw [if_neg hshort, hwords, nextInstruction?, hnat, ← Option.some.inj hfirst]
    by_cases hfits : bigEndian (wordAt (data.drop n) 1) ≤ ws.length
    · rw [if_neg (by omega), if_pos hfits, Option.map_some, map_wordAt hwords hfits]
    · rw [if_pos (by omega), if_neg hfits, Option.map_none]

/-! ### Bytes without a whole instruction -/

/-- The bytes end within the first two words, or before the last operand that the second one counts. -/
def HoldsNone (bytes : List UInt8) : Prop :=
  bytes.length < 8 ∨ bytes.length < 4 * (2 + bigEndian ((bytes.drop 4).take 4))

theorem holdsNone_of_nextInstruction? {address : Int} {ws : List UInt32} {rest : List UInt8} (hrest : rest.length < 4)
    (h : nextInstruction? address ws = none) : HoldsNone (ws.flatMap wordBytes ++ rest) := by
  rw [HoldsNone, List.length_append, length_flatMap_wordBytes]
  unfold nextInstruction? at h
  split at h
  · rename_i code count ws
    split at h
    · cases h
    · -- the second word counts more operands than there are words
      rename_i hlt
      right
      have hcount : ((((code :: count :: ws).flatMap wordBytes ++ rest).drop 4).take 4) = wordBytes count := by
        rfl
      rw [hcount, bigEndian_wordBytes, List.length_cons, List.length_cons]
      omega
  · rename_i hshort
    left
    have hlength : ws.length < 2 := by
      match ws, hshort with
      | [], _ | [_], _ => simp
      | code :: count :: ws, hshort => exact absurd rfl (hshort code count ws)
    omega

/-! ### Listings -/

/-- The bytes of instructions, one behind the other. -/
def encodeAll (is : List Instruction) : List UInt8 := is.flatMap Instruction.encode

/-- Bytes that instructions take together. -/
def totalSize : List Instruction → Nat
  | [] => 0
  | i :: rest => i.size + totalSize rest

/-- The instructions at the addresses that they have when their bytes start at `base`. -/
def laidOut (base : Int) (is : List Instruction) : List Instruction :=
  is.mapIdx fun k i => { i with address := base + totalSize (is.take k) }

/-- The last instruction finishes its script, and no other one does. -/
def Finished (is : List Instruction) : Prop :=
  ∃ front last, is = front ++ [last] ∧ last.isFinish = true ∧ ∀ i ∈ front, i.isFinish = false

theorem laidOut_cons (base : Int) (i : Instruction) (rest : List Instruction) :
    laidOut base (i :: rest) = { i with address := base } :: laidOut (base + i.size) rest := by
  simp [laidOut, totalSize, List.mapIdx_cons, Int.add_assoc]

theorem finished_cons_iff {i : Instruction} {rest : List Instruction} :
    Finished (i :: rest) ↔ (i.isFinish = true ∧ rest = []) ∨ (i.isFinish = false ∧ Finished rest) := by
  constructor
  · rintro ⟨_ | ⟨j, front⟩, last, h, hlast, hfront⟩
    · cases h
      exact .inl ⟨hlast, rfl⟩
    · cases h
      exact .inr ⟨hfront _ (List.mem_cons_self ..), front, last, rfl, hlast,
        fun k hk => hfront k (List.mem_cons_of_mem _ hk)⟩
  · rintro (⟨hi, rfl⟩ | ⟨hi, front, last, rfl, hlast, hfront⟩)
    · exact ⟨[], i, rfl, hi, nofun⟩
    · refine ⟨i :: front, last, rfl, hlast, fun j hj => ?_⟩
      rcases List.mem_cons.1 hj with rfl | hj
      · exact hi
      · exact hfront j hj

theorem listing_of_nextInstruction? {address : Int} {ws rest : List UInt32} {i : Instruction}
    (h : nextInstruction? address ws = some (i, rest)) :
    listing address ws = if i.isFinish then [i] else i :: listing (address + i.size) rest := by
  rw [listing]
  split
  · rename_i hnone
    rw [h] at hnone
    cases hnone
  · rename_i hsome
    rw [h] at hsome
    cases hsome
    rfl

theorem listing_eq_nil {address : Int} {ws : List UInt32} (h : nextInstruction? address ws = none) :
    listing address ws = [] := by
  rw [listing]
  split
  · rfl
  · rename_i hsome
    rw [h] at hsome
    cases hsome

/-- The words of instructions that finish are listed up to the last of them, whatever comes behind. -/
theorem listing_words {is : List Instruction} (hf : Finished is) (hc : ∀ i ∈ is, i.IsCountable) (base : Int)
    (rest : List UInt32) : listing base (is.flatMap Instruction.words ++ rest) = laidOut base is := by
  induction is generalizing base with
  | nil =>
    obtain ⟨front, last, h, -, -⟩ := hf
    exact absurd h.symm (by simp)
  | cons i is ih =>
    have hnext := nextInstruction?_words (hc i (List.mem_cons_self ..)) base (is.flatMap Instruction.words ++ rest)
    rw [List.flatMap_cons, List.append_assoc, listing_of_nextInstruction? hnext, laidOut_cons]
    rcases finished_cons_iff.1 hf with ⟨hi, rfl⟩ | ⟨hi, hf⟩
    · exact if_pos hi
    · rw [ih hf fun j hj => hc j (List.mem_cons_of_mem _ hj)]
      exact if_neg (by rw [Bool.not_eq_true]; exact hi)

/-- Nothing is listed behind an instruction that finishes its script. -/
theorem eq_nil_of_listing {base : Int} {ws : List UInt32} {front rest : List Instruction} {last : Instruction}
    (h : listing base ws = front ++ last :: rest) (hlast : last.isFinish = true) : rest = [] := by
  induction base, ws using listing.induct generalizing front with
  | case1 base ws hnext =>
    rw [listing_eq_nil hnext] at h
    exact absurd h.symm (by simp)
  | case2 base ws i left hnext hi =>
    rw [listing_of_nextInstruction? hnext, if_pos hi] at h
    have hlength := congrArg List.length h
    rw [List.length_singleton, List.length_append, List.length_cons] at hlength
    exact List.length_eq_zero_iff.1 (by omega)
  | case3 base ws i left hnext hi ih =>
    rw [listing_of_nextInstruction? hnext, if_neg hi] at h
    cases front with
    | nil =>
      cases h
      exact absurd hlast hi
    | cons j front => exact ih (List.cons.inj h).2

/-- What is listed of words: they start with the words of the instructions, and behind these the script is finished or no
instruction is whole. -/
theorem exists_words_eq (base : Int) (ws : List UInt32) : ∃ rest, ws = (listing base ws).flatMap Instruction.words ++ rest ∧
    laidOut base (listing base ws) = listing base ws ∧
    (Finished (listing base ws) ∨
      (∀ i ∈ listing base ws, i.isFinish = false) ∧ ∃ address, nextInstruction? address rest = none) := by
  induction base, ws using listing.induct with
  | case1 base ws h =>
    rw [listing_eq_nil h]
    exact ⟨ws, rfl, rfl, .inr ⟨nofun, base, h⟩⟩
  | case2 base ws i rest h hi =>
    obtain ⟨hws, haddress, -⟩ := eq_words_of_nextInstruction? h
    rw [listing_of_nextInstruction? h, if_pos hi]
    refine ⟨rest, by rw [List.flatMap_singleton, hws], ?_, .inl ⟨[], i, rfl, hi, nofun⟩⟩
    rw [laidOut_cons, ← haddress]
    rfl
  | case3 base ws i rest h hi ih =>
    obtain ⟨hws, haddress, -⟩ := eq_words_of_nextInstruction? h
    obtain ⟨left, hrest, hlaid, hend⟩ := ih
    have hi := Bool.eq_false_iff.2 hi
    rw [listing_of_nextInstruction? h, if_neg (by rw [hi]; exact Bool.false_ne_true)]
    refine ⟨left, ?_, ?_, ?_⟩
    · rw [List.flatMap_cons, List.append_assoc, ← hrest, hws]
    · rw [laidOut_cons, hlaid, ← haddress]
    · rcases hend with hend | ⟨hnone, hleft⟩
      · exact .inl (finished_cons_iff.2 (.inr ⟨hi, hend⟩))
      · refine .inr ⟨fun j hj => ?_, hleft⟩
        rcases List.mem_cons.1 hj with rfl | hj
        · exact hi
        · exact hnone j hj

/-- Reading instructions and writing them are inverse. A finished script is read as it was written, at its addresses and
whatever bytes come behind it. And all bytes are those of the instructions that are read and a rest, which is too short
for another instruction unless the script is finished. -/
theorem instructions_inverse_encode (base : Int) :
    (∀ (is : List Instruction) (tail : List UInt8), Finished is → (∀ i ∈ is, i.IsCountable) →
      instructions base (encodeAll is ++ tail) = laidOut base is) ∧
    ∀ bytes, ∃ rest, bytes = encodeAll (instructions base bytes) ++ rest ∧
      laidOut base (instructions base bytes) = instructions base bytes ∧
      (Finished (instructions base bytes) ∨
        (∀ i ∈ instructions base bytes, i.isFinish = false) ∧ HoldsNone rest) := by
  have hencode : ∀ is : List Instruction, encodeAll is = (is.flatMap Instruction.words).flatMap wordBytes := by
    intro is
    rw [encodeAll, List.flatMap_assoc]
    rfl
  constructor
  · intro is tail hf hc
    rw [instructions, hencode, words_flatMap_wordBytes, listing_words hf hc]
  · intro bytes
    obtain ⟨left, hbytes, hleft⟩ := exists_bytes_eq bytes
    obtain ⟨rest, hws, hlaid, hend⟩ := exists_words_eq base (words bytes)
    refine ⟨rest.flatMap wordBytes ++ left, ?_, hlaid, hend.imp_right ?_⟩
    · conv_lhs => rw [hbytes, hws]
      rw [List.flatMap_append, List.append_assoc, ← hencode]
      rfl
    · rintro ⟨hnone, address, hrest⟩
      exact ⟨hnone, holdsNone_of_nextInstruction? hleft hrest⟩

/-- A set of a local word and the end of its script, both without an address. -/
private def settingPair : List Instruction := [⟨0, 0x24, [-30000000, -7]⟩, ⟨0, 0x01, []⟩]

theorem instructions_inverse_encode_pair : Finished settingPair ∧ (∀ i ∈ settingPair, i.IsCountable) ∧
    instructions 0x80240000 (encodeAll settingPair ++ [0xff]) =
      [⟨0x80240000, 0x24, [-30000000, -7]⟩, ⟨0x80240010, 0x01, []⟩] := by
  have hfinished : Finished settingPair := ⟨[⟨0, 0x24, [-30000000, -7]⟩], ⟨0, 0x01, []⟩, rfl, by decide, by decide⟩
  have hcountable : ∀ i ∈ settingPair, i.IsCountable := by decide
  exact ⟨hfinished, hcountable, (instructions_inverse_encode 0x80240000).1 settingPair [0xff] hfinished hcountable⟩

end MapScript
