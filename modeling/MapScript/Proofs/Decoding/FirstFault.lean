import MapScript.Proofs.Decoding.Acceptance
import MapScript.Proofs.Decoding.Prefixes

/-!
# The first fault of a script

All blocks that are open at some place of a script can be closed there (`OpenScript.exists_addAll?_closing`), so whatever a
walk has gone through is the beginning of some script that is read (`exists_sentence_append`). And an instruction at which a
walk fails is one at which the walk fails whatever comes behind it (`decodeFrom_of_conveys`). Which scripts are read does not
depend on their addresses, the image or the scope, so a fault is reported at the first place behind which no script can be
completed (`fault_of_decode`).
-/

namespace MapScript

/-! ### Closing what is open -/

/-- The instruction that closes a block. -/
def Opener.closer : Opener → Instruction
  | .loop _ => ⟨0, 0x06, []⟩
  | .branch _ | .otherwise .. => ⟨0, 0x13, []⟩
  | .switch _ | .arm .. => ⟨0, 0x23, []⟩
  | .thread false => ⟨0, 0x57, []⟩
  | .thread true => ⟨0, 0x59, []⟩

theorem Opener.operands_closer (opener : Opener) : opener.closer.operands = [] := by
  cases opener with
  | thread child => cases child <;> rfl
  | _ => rfl

theorem Opener.closer_plays (opener : Opener) : opener.closer.Plays opener.closing.part := by
  cases opener with
  | thread child =>
    cases child with
    | false => exact ⟨.endThread, rfl, rfl, Nat.zero_le _, nofun⟩
    | true => exact ⟨.endChildThread, rfl, rfl, Nat.zero_le _, nofun⟩
  | loop => exact ⟨.endLoop, rfl, rfl, Nat.zero_le _, nofun⟩
  | branch | otherwise => exact ⟨.endBranch, rfl, rfl, Nat.zero_le _, nofun⟩
  | switch | arm => exact ⟨.endSwitch, rfl, rfl, Nat.zero_le _, nofun⟩

namespace OpenScript

/-- What has opened the blocks that are open, the innermost first. -/
def openers (o : OpenScript) : List Opener := o.blocks.map OpenBlock.opener

theorem openers_append (o : OpenScript) (t : Stmt) : (o.append t).openers = o.openers := by
  obtain ⟨root, _ | ⟨b, outer⟩⟩ := o <;> rfl

/-- The innermost block can be closed. -/
theorem exists_add?_closing {o : OpenScript} {opener : Opener} {outer : List Opener} (h : o.openers = opener :: outer) :
    ∃ o', o.add? opener.closing = some o' ∧ o'.openers = outer := by
  obtain ⟨root, _ | ⟨⟨innermost, body⟩, blocks⟩⟩ := o
  · cases h
  · obtain rfl : innermost = opener := (List.cons.inj h).1
    obtain rfl : blocks.map OpenBlock.opener = outer := (List.cons.inj h).2
    refine ⟨append ⟨root, blocks⟩ (innermost.close body), ?_, openers_append _ _⟩
    cases innermost with
    | thread child => cases child <;> rfl
    | _ => rfl

/-- All blocks can be closed, one behind the other. -/
theorem exists_addAll?_closing (o : OpenScript) : ∃ b, o.addAll? (o.openers.map Opener.closing) = some ⟨b, []⟩ := by
  generalize h : o.openers = openers
  induction openers generalizing o with
  | nil =>
    obtain ⟨root, blocks⟩ := o
    obtain rfl : blocks = [] := List.map_eq_nil_iff.1 h
    exact ⟨root, rfl⟩
  | cons opener outer ih =>
    obtain ⟨o', hadd, ho'⟩ := exists_add?_closing h
    obtain ⟨b, hrest⟩ := ih o' ho'
    exact ⟨b, by rw [List.map_cons, addAll?_cons, hadd, Option.bind_some, hrest]⟩

end OpenScript

/-! ### Scripts that are read anywhere -/

/-- A script with an end, and with a sentence in front of it. -/
def Complete (is : List Instruction) : Prop := ∃ before, beforeFinish? is = some before ∧ Sentence before

/-- Instructions without their addresses. -/
private def bare (is : List Instruction) : List Instruction := is.map fun i => { i with address := 0 }

private theorem bare_laidOut (base : Int) (is : List Instruction) : bare (laidOut base is) = bare is := by
  induction is generalizing base with
  | nil => rfl
  | cons i is ih =>
    rw [laidOut_cons, bare, bare, List.map_cons, List.map_cons]
    exact congrArg _ (ih _)

private theorem beforeFinish?_bare (is : List Instruction) : beforeFinish? (bare is) = (beforeFinish? is).map bare := by
  induction is with
  | nil => rfl
  | cons i is ih =>
    have hbare : bare (i :: is) = { i with address := 0 } :: bare is := rfl
    have hi : ({ i with address := 0 } : Instruction).isFinish = i.isFinish := rfl
    rw [hbare, beforeFinish?, beforeFinish?, hi]
    split
    · rfl
    · rw [ih, Option.map_map, Option.map_map]
      rfl

/-- Whether a script is read does not depend on its addresses. -/
private theorem complete_bare_iff {is : List Instruction} : Complete (bare is) ↔ Complete is := by
  have hsentence : ∀ before, Sentence (bare before) ↔ Sentence before := by
    intro before
    refine exists_congr fun ps => and_congr_left' ?_
    rw [bare, List.forall₂_map_left_iff]
    rfl
  rw [Complete, Complete, beforeFinish?_bare]
  constructor
  · rintro ⟨_, hmap, hs⟩
    obtain ⟨before, hbefore, rfl⟩ := Option.map_eq_some_iff.1 hmap
    exact ⟨before, hbefore, (hsentence before).1 hs⟩
  · rintro ⟨before, hbefore, hs⟩
    exact ⟨bare before, by rw [hbefore, Option.map_some], (hsentence before).2 hs⟩

private theorem complete_congr {is js : List Instruction} (h : bare is = bare js) : Complete is ↔ Complete js := by
  rw [← complete_bare_iff, h, complete_bare_iff]

section

variable {image : Option Overlay} {s : Scope} {address : Int}

/-- A finished script that is complete is read in all scopes with layers, wherever it lies and whatever comes behind it. -/
theorem Complete.exists_decode {is : List Instruction} (h : Complete is) (hf : Finished is)
    (hc : ∀ i ∈ is, i.IsCountable) (hs : 0 < s.depth) (tail : List UInt8) :
    ∃ r, (decode image address (encodeAll is ++ tail) s).result = .ok r := by
  have hlisted : instructions address (encodeAll is ++ tail) = laidOut address is := by
    rw [instructions, words_encodeAll_append, listing_words hf hc]
  rw [decode, hlisted]
  exact (decodeFrom_start_isOk_iff hs).2 ((complete_congr (bare_laidOut address is)).2 h)

/-- If bytes are read that start with some instructions, then these are the beginning of a complete script. -/
theorem exists_complete_append {front : List Instruction} {i : Instruction} {tail : List UInt8}
    (hf : ∀ j ∈ front, j.isFinish = false) (hc : ∀ j ∈ front ++ [i], j.IsCountable) (hs : 0 < s.depth)
    (h : ∃ r, (decode image address (encodeAll (front ++ [i]) ++ tail) s).result = .ok r) :
    ∃ rest, Complete (front ++ i :: rest) := by
  have hnext := nextInstruction?_words (hc i (List.mem_append_right _ (List.mem_singleton_self i)))
    (address + totalSize front) (words tail)
  have hlisted : ∃ rest, instructions address (encodeAll (front ++ [i]) ++ tail) =
      laidOut address front ++ { i with address := address + totalSize front } :: rest := by
    rw [instructions, words_encodeAll_append, List.flatMap_append, List.flatMap_singleton, List.append_assoc,
      listing_append hf fun j hj => hc j (List.mem_append_left _ hj), listing_of_nextInstruction? hnext]
    split
    · exact ⟨[], rfl⟩
    · exact ⟨_, rfl⟩
  obtain ⟨rest, hlisted⟩ := hlisted
  rw [decode, hlisted] at h
  have hbare : bare (laidOut address front ++ { i with address := address + totalSize front } :: rest) =
      bare (front ++ i :: rest) := by
    have hfront := bare_laidOut address front
    rw [bare, bare] at hfront
    rw [bare, bare, List.map_append, List.map_append, hfront]
    rfl
  exact ⟨rest, (complete_congr hbare).1 ((decodeFrom_start_isOk_iff hs).1 h)⟩

end

/-! ### Beginnings of scripts -/

theorem Instruction.Plays.isFinish_eq_false {i : Instruction} {p : Part} (h : i.Plays p) : i.isFinish = false := by
  obtain ⟨op, hop, hpart, -⟩ := h
  refine decide_eq_false fun hfinish => ?_
  rw [hop] at hfinish
  cases hfinish
  cases hpart

theorem Sentence.isFinish_eq_false {is : List Instruction} (h : Sentence is) : ∀ i ∈ is, i.isFinish = false := by
  obtain ⟨ps, hplays, -⟩ := h
  induction hplays with
  | nil => exact List.forall_mem_nil _
  | cons hi _ ih => exact List.forall_mem_cons.2 ⟨hi.isFinish_eq_false, ih⟩

theorem beforeFinish?_append {is rest : List Instruction} {last : Instruction} (hf : ∀ i ∈ is, i.isFinish = false)
    (hlast : last.isFinish = true) : beforeFinish? (is ++ last :: rest) = some is := by
  induction is with
  | nil => rw [List.nil_append, beforeFinish?, if_pos hlast]
  | cons i is ih =>
    obtain ⟨hi, hf⟩ := List.forall_mem_cons.1 hf
    rw [List.cons_append, beforeFinish?, hi, if_neg Bool.false_ne_true, ih hf, Option.map_some]

/-- The instruction that finishes a script. -/
private def finisher : Instruction := ⟨0, 0x01, []⟩

section

variable {image : Option Overlay} {s : Scope} {is : List Instruction} {items : List Item} {r : Reading} {o : OpenScript}

/-- Instructions that say fitting items are the beginning of a sentence: what they have opened can be closed. -/
theorem Conveys.sentence_append (h : Conveys image ⟨s, []⟩ is items r) (hs : 0 < s.depth)
    (ho : OpenScript.empty.addAll? items = some o) : Sentence (is ++ o.openers.map Opener.closer) := by
  obtain ⟨b, hclosed⟩ := o.exists_addAll?_closing
  have hline : OpenScript.empty.addAll? (items ++ o.openers.map Opener.closing) = some ⟨b, []⟩ := by
    rw [OpenScript.addAll?_append, ho, Option.bind_some, hclosed]
  obtain hline := OpenScript.addAll?_empty_eq_some_iff.1 hline
  have hs : 0 < (⟨s, []⟩ : Reading).scope.depth := hs
  have hplays : List.Forall₂ Instruction.Plays is (items.map Item.part) := (exists_conveys_iff hs).1 ⟨items, r, h, rfl⟩
  have hclosers : List.Forall₂ Instruction.Plays (o.openers.map Opener.closer)
      ((o.openers.map Opener.closing).map Item.part) := by
    rw [List.map_map, List.forall₂_map_left_iff, List.forall₂_map_right_iff, List.forall₂_same]
    exact fun opener _ => opener.closer_plays
  refine ⟨(Block.items b).map Item.part, ?_, derives_items b⟩
  rw [hline, List.map_append]
  exact List.rel_append hplays hclosers

/-- Some bytes behind those of the instructions make a script of them that is read, in all scopes with layers and wherever
it lies. -/
def Continuable (is : List Instruction) : Prop :=
  ∃ tail, ∀ (image : Option Overlay) (address : Int) (s : Scope), 0 < s.depth →
    ∃ r, (decode image address (encodeAll is ++ tail) s).result = .ok r

/-- No bytes behind those of the instructions make a script of them that is read, in no scope with layers and nowhere. -/
def Hopeless (is : List Instruction) : Prop :=
  ∀ (tail : List UInt8) (image : Option Overlay) (address : Int) (s : Scope), 0 < s.depth →
    ¬∃ r, (decode image address (encodeAll is ++ tail) s).result = .ok r

theorem Conveys.continuable (h : Conveys image ⟨s, []⟩ is items r) (hs : 0 < s.depth)
    (ho : OpenScript.empty.addAll? items = some o) (hc : ∀ i ∈ is, i.IsCountable) : Continuable is := by
  have hsentence := h.sentence_append hs ho
  have hf := hsentence.isFinish_eq_false
  have hcount : ∀ i ∈ is ++ o.openers.map Opener.closer ++ [finisher], i.IsCountable := by
    intro i hi
    rcases List.mem_append.1 hi with hi | hi
    · rcases List.mem_append.1 hi with hi | hi
      · exact hc i hi
      · obtain ⟨opener, -, rfl⟩ := List.mem_map.1 hi
        rw [Instruction.IsCountable, opener.operands_closer]
        decide
    · rw [List.mem_singleton.1 hi]
      decide
  have hcomplete : Complete (is ++ o.openers.map Opener.closer ++ [finisher]) :=
    ⟨_, beforeFinish?_append hf rfl, hsentence⟩
  have hfinished : Finished (is ++ o.openers.map Opener.closer ++ [finisher]) := ⟨_, finisher, rfl, rfl, hf⟩
  refine ⟨encodeAll (o.openers.map Opener.closer ++ [finisher]), fun image' address s' hs' => ?_⟩
  have hread : ∃ result, (decode image' address
      (encodeAll (is ++ o.openers.map Opener.closer ++ [finisher]) ++ []) s').result = .ok result :=
    hcomplete.exists_decode hfinished hcount hs' []
  simpa [encodeAll] using hread

/-! ### Where a walk fails -/

/-- The walk fails at the instruction for a fault of it, whatever comes behind it. -/
def Walk.FailsAt (w : Walk) (image : Option Overlay) (i : Instruction) (e : Failure) : Prop :=
  i.IsFault e ∧ ∀ next rest, (decodeFrom image w next (i :: rest)).result = .error e

theorem Walk.failsAt_of_finish {w : Walk} {i : Instruction} {e : Failure} (hi : i.isFinish = true)
    (h : w.finish i = .error e) : w.FailsAt image i e := by
  refine ⟨?_, fun next rest => ?_⟩
  · unfold finish at h
    split at h
    · cases h
    · cases h
      exact i.isFault_failure nofun
  · rw [decodeFrom, if_pos hi]
    exact h

theorem Walk.failsAt_of_step {w : Walk} (hw : 0 < w.scope.depth) {i : Instruction} {e : Failure} (hi : i.isFinish = false)
    (h : (w.step image i).result = .error e) : w.FailsAt image i e := by
  refine ⟨?_, fun next rest => ?_⟩
  · have hends : w.StepEnds i (w.step image i).result := w.step_ends hw i
    rw [h] at hends
    exact hends.of_error
  · rw [decodeFrom, hi, if_neg Bool.false_ne_true, Logged.result_bind, h]
    rfl

/-- A walk goes through instructions that say fitting items, whatever comes behind them. -/
theorem decodeFrom_of_conveys {w : Walk} (h : Conveys image w.reading is items r) (ho : w.script.addAll? items = some o)
    (hf : ∀ i ∈ is, i.isFinish = false) (next : Int) (rest : List Instruction) :
    ∃ behind, (decodeFrom image w next (is ++ rest)).result =
      (decodeFrom image ⟨o, r.scope, r.declared⟩ behind rest).result := by
  induction is generalizing w items next with
  | nil =>
    cases h
    cases ho
    exact ⟨next, rfl⟩
  | cons i is ih =>
    obtain ⟨hi, hf⟩ := List.forall_mem_cons.1 hf
    cases h with
    | cons hsaid hconveys =>
      rw [OpenScript.addAll?_cons] at ho
      obtain ⟨script, hadd, ho⟩ := Option.bind_eq_some_iff.1 ho
      have hstep := (Walk.step_eq_ok_iff hi).2 ⟨_, _, script, hsaid, hadd, rfl⟩
      obtain ⟨behind, hbehind⟩ := ih (w := ⟨script, _, _⟩) hconveys ho hf (i.address + i.size)
      refine ⟨behind, ?_⟩
      rw [List.cons_append, decodeFrom, hi, if_neg Bool.false_ne_true, Logged.result_bind, hstep]
      exact hbehind

/-- A walk that fails goes through instructions that say fitting items, and then it is at the end or fails at the next
one. -/
theorem exists_of_decodeFrom_error {w : Walk} (hw : 0 < w.scope.depth) {next : Int} {e : Failure}
    (hlaid : laidOut next is = is) (h : (decodeFrom image w next is).result = .error e) :
    ∃ front items r o, (∀ i ∈ front, i.isFinish = false) ∧ Conveys image w.reading front items r ∧
      w.script.addAll? items = some o ∧
      (is = front ∧ e = .decode ⟨.truncated, next + totalSize front⟩ ∨
        ∃ i rest, is = front ++ i :: rest ∧ Walk.FailsAt ⟨o, r.scope, r.declared⟩ image i e) := by
  induction is generalizing w next with
  | nil =>
    refine ⟨[], [], w.reading, w.script, List.forall_mem_nil _, .nil _, rfl, .inl ⟨rfl, ?_⟩⟩
    cases h
    rw [totalSize, Int.natCast_zero, Int.add_zero]
  | cons i rest ih =>
    rw [laidOut_cons] at hlaid
    obtain ⟨haddress, hlaid⟩ := List.cons.inj hlaid
    have haddress : next = i.address := congrArg Instruction.address haddress
    rw [decodeFrom] at h
    by_cases hi : i.isFinish = true
    · rw [if_pos hi] at h
      exact ⟨[], [], w.reading, w.script, List.forall_mem_nil _, .nil _, rfl,
        .inr ⟨i, rest, rfl, Walk.failsAt_of_finish hi h⟩⟩
    · rw [if_neg hi, Logged.result_bind] at h
      have hi := Bool.eq_false_iff.2 hi
      cases hstep : (w.step image i).result with
      | error e' =>
        rw [hstep] at h
        cases h
        exact ⟨[], [], w.reading, w.script, List.forall_mem_nil _, .nil _, rfl,
          .inr ⟨i, rest, rfl, Walk.failsAt_of_step hw hi hstep⟩⟩
      | ok w₁ =>
        have hdepth : w.StepEnds i (w.step image i).result := w.step_ends hw i
        rw [hstep] at hdepth h
        obtain ⟨item, r₁, script, hsaid, hadd, rfl⟩ := (Walk.step_eq_ok_iff hi).1 hstep
        obtain ⟨front, items, r, o, hf, hconveys, ho, hend⟩ := ih (hdepth.of_ok ▸ hw) (haddress ▸ hlaid) h
        refine ⟨i :: front, item :: items, r, o, List.forall_mem_cons.2 ⟨hi, hf⟩, .cons hsaid hconveys, ?_, ?_⟩
        · rw [OpenScript.addAll?_cons, hadd, Option.bind_some]
          exact ho
        · rcases hend with ⟨rfl, rfl⟩ | ⟨j, more, rfl, hfails⟩
          · refine .inl ⟨rfl, ?_⟩
            rw [totalSize, haddress, Int.natCast_add, Int.add_assoc]
          · exact .inr ⟨j, more, rfl, hfails⟩

/-- What stands in front of an instruction at which a walk fails cannot be completed with it. -/
theorem Walk.FailsAt.hopeless {i : Instruction} {e : Failure} (hfails : Walk.FailsAt ⟨o, r.scope, r.declared⟩ image i e)
    (h : Conveys image ⟨s, []⟩ is items r) (hs : 0 < s.depth) (ho : OpenScript.empty.addAll? items = some o)
    (hf : ∀ j ∈ is, j.isFinish = false) (hc : ∀ j ∈ is ++ [i], j.IsCountable) : Hopeless (is ++ [i]) := by
  intro tail image' address s' hs' hread
  obtain ⟨rest, hcomplete⟩ := exists_complete_append hf hc hs' hread
  obtain ⟨result, hresult⟩ : ∃ result, (decodeFrom image (.start s) 0 (is ++ i :: rest)).result = .ok result :=
    (decodeFrom_start_isOk_iff hs).2 hcomplete
  obtain ⟨behind, hbehind⟩ := decodeFrom_of_conveys (w := .start s) h ho hf 0 (i :: rest)
  rw [hbehind, hfails.2] at hresult
  cases hresult

/-! ### Addresses -/

private theorem le_address_of_laidOut {base : Int} (h : laidOut base is = is) : ∀ i ∈ is, base ≤ i.address := by
  induction is generalizing base with
  | nil => exact List.forall_mem_nil _
  | cons i is ih =>
    rw [laidOut_cons] at h
    obtain ⟨haddress, h⟩ := List.cons.inj h
    have haddress : base = i.address := congrArg Instruction.address haddress
    refine List.forall_mem_cons.2 ⟨by omega, fun j hj => ?_⟩
    have := ih h j hj
    omega

/-- The instructions in front of a place are those with smaller addresses. -/
private theorem filter_of_laidOut {base : Int} {rest : List Instruction} (h : laidOut base (is ++ rest) = is ++ rest) :
    (is ++ rest).filter (·.address < base + totalSize is) = is ∧ ∀ i ∈ rest.head?, i.address = base + totalSize is := by
  induction is generalizing base with
  | nil =>
    have hle := le_address_of_laidOut h
    simp only [totalSize, Int.natCast_zero, Int.add_zero, List.nil_append, List.filter_eq_nil_iff,
      decide_eq_true_eq, Int.not_lt]
    refine ⟨hle, fun i hi => ?_⟩
    cases rest with
    | nil => cases hi
    | cons j rest =>
      cases hi
      rw [List.nil_append, laidOut_cons] at h
      exact (congrArg Instruction.address (List.cons.inj h).1).symm
  | cons i is ih =>
    rw [List.cons_append, laidOut_cons] at h
    obtain ⟨haddress, h⟩ := List.cons.inj h
    have haddress : base = i.address := congrArg Instruction.address haddress
    have hplace : base + totalSize (i :: is) = base + i.size + totalSize is := by
      rw [totalSize]
      omega
    have hlt : i.address < base + i.size + totalSize is := by
      rw [Instruction.size]
      omega
    obtain ⟨hfilter, hhead⟩ := ih h
    rw [hplace]
    refine ⟨?_, hhead⟩
    rw [List.cons_append, List.filter_cons_of_pos (by rw [decide_eq_true_eq]; exact hlt), hfilter]

/-! ### Faults -/

/-- When a script is not read, the instructions located before the reported address can be completed to one that is read.
If the script is cut short this is the address behind all its instructions, none of which finishes it; and otherwise it is
that of an instruction with which they can be completed no more. -/
theorem fault_of_decode {bytes : List UInt8} {base : Int} {e : Failure} (hs : 0 < s.depth)
    (h : (decode image base bytes s).result = .error e) : ∃ cause : DecodeError, e = .decode cause ∧
      Continuable ((instructions base bytes).filter (·.address < cause.address)) ∧
      (cause.fault = .truncated → cause.address = base + totalSize (instructions base bytes) ∧
        ∀ i ∈ instructions base bytes, i.isFinish = false) ∧
      (cause.fault ≠ .truncated → ∃ i ∈ instructions base bytes, i.address = cause.address ∧
        Hopeless ((instructions base bytes).filter (·.address < cause.address) ++ [i])) := by
  obtain ⟨hlaid, -⟩ := laidOut_instructions base bytes
  have hc : ∀ i ∈ instructions base bytes, i.IsCountable := isCountable_of_mem_listing
  rw [decode] at h
  obtain ⟨front, items, r, o, hf, hconveys, ho, hend⟩ := exists_of_decodeFrom_error (w := .start s) hs hlaid h
  rcases hend with ⟨his, rfl⟩ | ⟨i, rest, his, hfails⟩
  · rw [his] at hlaid hc ⊢
    have hbefore : (front ++ []).filter (·.address < base + totalSize front) = front :=
      (filter_of_laidOut (by rw [List.append_nil, hlaid])).1
    rw [List.append_nil] at hbefore
    refine ⟨_, rfl, ?_, fun _ => ⟨rfl, hf⟩, fun hne => absurd rfl hne⟩
    rw [hbefore]
    exact hconveys.continuable hs ho hc
  · obtain ⟨fault, hfault, rfl⟩ := hfails.1
    rw [his] at hlaid hc ⊢
    obtain ⟨hbefore, hhead⟩ := filter_of_laidOut hlaid
    have haddress : i.address = base + totalSize front := hhead i rfl
    refine ⟨⟨fault, i.address⟩, rfl, ?_, fun htruncated => absurd htruncated hfault, fun _ => ?_⟩
    · rw [haddress, hbefore]
      exact hconveys.continuable hs ho fun j hj => hc j (List.mem_append_left _ hj)
    · refine ⟨i, List.mem_append_right _ (List.mem_cons_self ..), rfl, ?_⟩
      rw [haddress, hbefore]
      refine hfails.hopeless hconveys hs ho hf fun j hj => hc j ?_
      rcases List.mem_append.1 hj with hj | hj
      · exact List.mem_append_left _ hj
      · rw [List.mem_singleton.1 hj]
        exact List.mem_append_right _ (List.mem_cons_self ..)

/-- A loop that is closed as a branch, and an end. -/
private def crossedScript : List UInt8 :=
  [0, 0, 0, 5, 0, 0, 0, 1, 0, 0, 0, 2, 0, 0, 0, 0x13, 0, 0, 0, 0, 0, 0, 0, 1, 0, 0, 0, 0]

theorem fault_of_decode_crossed : 0 < Scope.base.depth ∧
    (decode none 0 crossedScript .base).result.map (fun _ => ()) =
      .error (.decode ⟨.unbalanced (.closes 0x13 .branch .loop), 12⟩) ∧
    Continuable [⟨0, 5, [2]⟩] ∧ Hopeless [⟨0, 5, [2]⟩, ⟨12, 0x13, []⟩] := by
  have hdepth : 0 < Scope.base.depth := by decide
  have hmap : (decode none 0 crossedScript .base).result.map (fun _ => ()) =
      .error (.decode ⟨.unbalanced (.closes 0x13 .branch .loop), 12⟩) := by decide +kernel
  have herror : (decode none 0 crossedScript .base).result =
      .error (.decode ⟨.unbalanced (.closes 0x13 .branch .loop), 12⟩) := by
    cases h : (decode none 0 crossedScript .base).result with
    | ok r => rw [h] at hmap; cases hmap
    | error e => rw [h] at hmap; cases hmap; rfl
  have hlisted : instructions 0 crossedScript = [⟨0, 5, [2]⟩, ⟨12, 0x13, []⟩, ⟨20, 1, []⟩] := by decide +kernel
  obtain ⟨cause, hcause, hbefore, -, hfault⟩ := fault_of_decode hdepth herror
  cases hcause
  obtain ⟨i, hi, haddress, hhopeless⟩ := hfault nofun
  rw [hlisted] at hbefore hi hhopeless
  refine ⟨hdepth, hmap, hbefore, ?_⟩
  have hi : i = ⟨12, 0x13, []⟩ := by
    simp only [List.mem_cons, List.not_mem_nil, or_false] at hi
    rcases hi with rfl | rfl | rfl
    · cases haddress
    · rfl
    · cases haddress
  rw [hi] at hhopeless
  exact hhopeless

end

end MapScript
