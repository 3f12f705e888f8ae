import MapScript.Decoding.Decode
import MapScript.Proofs.Instruction.Encoding

/-!
# Scripts with more bytes behind them

A script is handed over with everything that lies behind it in its map. The instructions of longer bytes start with those
of shorter ones, and they are the same when the shorter bytes hold the end of the script (`exists_instructions_append`).
So a walk over the longer listing goes the same way up to where the shorter one is finished or fails
(`decodeFrom_append`), and only a script that is cut short can be read differently when more comes behind it
(`decode_ignores_tail`).
-/

namespace MapScript

/-! ### Listings -/

theorem words_encodeAll_append (is : List Instruction) (tail : List UInt8) :
    words (encodeAll is ++ tail) = is.flatMap Instruction.words ++ words tail := by
  have hencode : encodeAll is = (is.flatMap Instruction.words).flatMap wordBytes := by
    rw [encodeAll, List.flatMap_assoc]
    rfl
  rw [hencode, words_flatMap_wordBytes]

/-- Instructions that do not finish a script are listed in front of those behind them. -/
theorem listing_append {is : List Instruction} (hf : ∀ i ∈ is, i.isFinish = false) (hc : ∀ i ∈ is, i.IsCountable)
    (base : Int) (rest : List UInt32) : listing base (is.flatMap Instruction.words ++ rest) =
      laidOut base is ++ listing (base + totalSize is) rest := by
  induction is generalizing base with
  | nil => simp [laidOut, totalSize]
  | cons i is ih =>
    have hnext := nextInstruction?_words (hc i (List.mem_cons_self ..)) base (is.flatMap Instruction.words ++ rest)
    have hi : ¬({ i with address := base } : Instruction).isFinish = true := by
      rw [Bool.not_eq_true]
      exact hf i (List.mem_cons_self ..)
    have hsize : base + i.size + totalSize is = base + totalSize (i :: is) := by
      rw [totalSize]
      omega
    have ih := ih (fun j hj => hf j (List.mem_cons_of_mem _ hj)) (fun j hj => hc j (List.mem_cons_of_mem _ hj))
    rw [List.flatMap_cons, List.append_assoc, listing_of_nextInstruction? hnext, if_neg hi, laidOut_cons,
      List.cons_append, ← hsize, ← ih]
    rfl

theorem isCountable_of_mem_listing {base : Int} {ws : List UInt32} : ∀ i ∈ listing base ws, i.IsCountable := by
  induction base, ws using listing.induct with
  | case1 base ws h =>
    rw [listing_eq_nil h]
    exact List.forall_mem_nil _
  | case2 base ws i rest h hi =>
    rw [listing_of_nextInstruction? h, if_pos hi, List.forall_mem_singleton]
    exact (eq_words_of_nextInstruction? h).2.2
  | case3 base ws i rest h hi ih =>
    rw [listing_of_nextInstruction? h, if_neg hi, List.forall_mem_cons]
    exact ⟨(eq_words_of_nextInstruction? h).2.2, ih⟩

/-- The instructions of bytes, with more words behind those of the bytes that hold them. -/
private theorem exists_words_append_eq (base : Int) (bytes tail : List UInt8) : ∃ rest,
    words (bytes ++ tail) = (instructions base bytes).flatMap Instruction.words ++ rest := by
  obtain ⟨left, hbytes, -⟩ := exists_bytes_eq bytes
  obtain ⟨rest, hws, -⟩ := exists_words_eq base (words bytes)
  have hwords : words (bytes ++ tail) = words bytes ++ words (left ++ tail) := by
    conv_lhs => rw [hbytes]
    rw [List.append_assoc, words_flatMap_wordBytes]
  refine ⟨rest ++ words (left ++ tail), ?_⟩
  rw [hwords, ← List.append_assoc]
  exact congrArg (· ++ _) hws

/-- Instructions stand at the addresses that their sizes give them, and either the last one and no other finishes the
script, or none does. -/
theorem laidOut_instructions (base : Int) (bytes : List UInt8) :
    laidOut base (instructions base bytes) = instructions base bytes ∧
      (Finished (instructions base bytes) ∨ ∀ i ∈ instructions base bytes, i.isFinish = false) := by
  obtain ⟨_, -, hlaid, hend⟩ := exists_words_eq base (words bytes)
  exact ⟨hlaid, hend.imp_right And.left⟩

/-- A listing with an instruction that finishes a script has it at its end. -/
theorem finished_of_mem {base : Int} {bytes : List UInt8} {i : Instruction} (hi : i ∈ instructions base bytes)
    (hfinish : i.isFinish = true) : Finished (instructions base bytes) := by
  refine (laidOut_instructions base bytes).2.resolve_right fun hnone => ?_
  rw [hnone i hi] at hfinish
  cases hfinish

/-- The instructions of longer bytes are those of the shorter ones with more behind them, and with nothing behind them if
the shorter bytes hold the end of the script. -/
theorem exists_instructions_append (base : Int) (bytes tail : List UInt8) : ∃ more,
    instructions base (bytes ++ tail) = instructions base bytes ++ more ∧
      (Finished (instructions base bytes) → more = []) := by
  obtain ⟨rest, hwords⟩ := exists_words_append_eq base bytes tail
  obtain ⟨hlaid, hend⟩ := laidOut_instructions base bytes
  have hcountable : ∀ i ∈ instructions base bytes, i.IsCountable := isCountable_of_mem_listing
  have hlonger : instructions base (bytes ++ tail) =
      listing base ((instructions base bytes).flatMap Instruction.words ++ rest) := by
    rw [← hwords]
    rfl
  rcases hend with hfinished | hnone
  · refine ⟨[], ?_, fun _ => rfl⟩
    rw [hlonger, listing_words hfinished hcountable, hlaid, List.append_nil]
  · refine ⟨_, by rw [hlonger, listing_append hnone hcountable, hlaid], ?_⟩
    rintro ⟨front, last, his, hlast, -⟩
    have hmem : last ∈ instructions base bytes := by
      rw [his]
      exact List.mem_append_right _ (List.mem_singleton_self last)
    rw [hnone last hmem] at hlast
    cases hlast

/-! ### Walks -/

theorem Logged.bind_congr_of_ok {ε α β : Type} {x : Logged ε α} {f g : α → Logged ε β}
    (h : ∀ a, x.result = .ok a → f a = g a) : x >>= f = x >>= g := by
  obtain ⟨events, e | a⟩ := x
  · rfl
  · show (⟨events ++ (f a).events, (f a).result⟩ : Logged ε β) = ⟨events ++ (g a).events, (g a).result⟩
    rw [h a rfl]

/-- A walk that is not cut short does not come to the instructions behind its own. -/
theorem decodeFrom_append {image : Option Overlay} {w : Walk} {next : Int} {is : List Instruction}
    (h : ∀ behind, (decodeFrom image w next is).result ≠ .error (.decode ⟨.truncated, behind⟩))
    (more : List Instruction) : decodeFrom image w next (is ++ more) = decodeFrom image w next is := by
  induction is generalizing w next with
  | nil => exact absurd rfl (h next)
  | cons i rest ih =>
    rw [List.cons_append, decodeFrom, decodeFrom]
    by_cases hi : i.isFinish = true
    · rw [if_pos hi, if_pos hi]
    · rw [if_neg hi, if_neg hi]
      refine Logged.bind_congr_of_ok fun w₁ hstep => ih fun behind hcut => h behind ?_
      rw [decodeFrom, if_neg hi, Logged.result_bind, hstep]
      exact hcut

/-- Bytes behind the end of a script do not matter. Unless it is cut short, a script is read alike with any bytes behind
it, with the same tree and scope or the same fault, and the same reports; and its captured words are the same if it has an
end. -/
theorem decode_ignores_tail (image : Option Overlay) (address : Int) (bytes tail : List UInt8) (s : Scope) :
    ((∀ behind, (decode image address bytes s).result ≠ .error (.decode ⟨.truncated, behind⟩)) →
      decode image address (bytes ++ tail) s = decode image address bytes s) ∧
    ((∃ i ∈ instructions address bytes, i.isFinish = true) →
      capturedWords address (bytes ++ tail) = capturedWords address bytes) := by
  obtain ⟨more, hmore, hnone⟩ := exists_instructions_append address bytes tail
  constructor
  · intro h
    rw [decode, hmore]
    exact decodeFrom_append h more
  · rintro ⟨i, hi, hfinish⟩
    rw [capturedWords, hmore, hnone (finished_of_mem hi hfinish), List.append_nil]
    rfl

/-- A return, a wait for the second local word and an end. -/
private def waitingScript : List UInt8 :=
  [0, 0, 0, 2, 0, 0, 0, 0, 0, 0, 0, 8, 0, 0, 0, 1, 0xfe, 0x36, 0x3c, 0x81, 0, 0, 0, 1, 0, 0, 0, 0]

theorem decode_ignores_tail_waiting :
    (∀ behind, (decode none 0 waitingScript .base).result ≠ .error (.decode ⟨.truncated, behind⟩)) ∧
    decode none 0 (waitingScript ++ [0, 0, 0, 3, 0xff]) .base = decode none 0 waitingScript .base ∧
    (∃ i ∈ instructions 0 waitingScript, i.isFinish = true) ∧
    capturedWords 0 (waitingScript ++ [0, 0, 0, 3, 0xff]) = capturedWords 0 waitingScript ∧
    capturedWords 0 waitingScript = 2 := by
  have hok : (decode none 0 waitingScript .base).result.isOk = true := by decide +kernel
  have hends : ∀ behind, (decode none 0 waitingScript .base).result ≠ .error (.decode ⟨.truncated, behind⟩) := by
    intro behind h
    rw [h] at hok
    cases hok
  have hfinish : ∃ i ∈ instructions 0 waitingScript, i.isFinish = true := by decide +kernel
  have h := decode_ignores_tail none 0 waitingScript [0, 0, 0, 3, 0xff] .base
  exact ⟨hends, h.1 hends, hfinish, h.2 hfinish, by decide +kernel⟩

end MapScript
