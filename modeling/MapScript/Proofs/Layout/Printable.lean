import Mathlib.Algebra.GroupWithZero.Nat
import MapScript.Proofs.Layout.Outline

/-!
# Parts without a written form

Four kinds of parts have no written form: callees with neither name nor address, ranges without two bounds, comparisons
without a value, and numbers with more decimal digits than are written. Writing an expression, the header of an arm or the
first line of a statement fails just when there is such a part in it, and the failure says which (`FailsFor`). So it is with
every line of an outline (`Line.text_fails`).
-/

namespace MapScript

/-! ### Lacking parts -/

/-- The numbers that an expression writes in decimal. -/
def Expr.numbers : Expr → List Int
  | int value => [value]
  | comparison lhs _ rhs => lhs.numbers ++ rhs.numbers
  | identifier _ | bool _ | float _ | pointer _ => []

/-- The numbers that the first line of a statement writes in decimal. -/
def Stmt.numbers : Stmt → List Int
  | declare _ _ value => value.toList.flatMap Expr.numbers
  | assign _ _ value => value.numbers
  | call _ arguments _ => arguments.flatMap Expr.numbers
  | label index | goto index => [index]
  | wait amount _ => amount.numbers
  | branch condition _ | branchElse condition _ _ => condition.numbers
  | loop count _ => count.toList.flatMap Expr.numbers
  | switch value _ => value.numbers
  | ret | breakLoop | breakSwitch | thread .. => []

/-- The numbers that the header of an arm writes in decimal; where a range has too many values, its third one is written
before this is seen. -/
def headerNumbers (operator : String) (values : List Expr) : List Int :=
  if operator = "default" then []
  else if operator = "range" then (values.take 3).flatMap Expr.numbers
  else (values.take 1).flatMap Expr.numbers

theorem exists_of_mem_headerNumbers {operator : String} {values : List Expr} {n : Int}
    (h : n ∈ headerNumbers operator values) : ∃ e ∈ values, n ∈ e.numbers := by
  unfold headerNumbers at h
  split at h
  · cases h
  split at h
  all_goals
    obtain ⟨e, he, hn⟩ := List.mem_flatMap.1 h
    exact ⟨e, List.mem_of_mem_take he, hn⟩

/-- What is wrong where the first line of a statement cannot be written. -/
inductive Stmt.Lacks (t : Stmt) : PrintFault → Prop
  | callee {arguments : List Expr} {kind : CallKind} : t = .call .unknown arguments kind → Lacks t .namelessCallee
  | number {n : Int} : n ∈ t.numbers → TooLong n → Lacks t .tooManyDigits

/-- What is wrong where an arm with this operator and these values has no header. -/
inductive HeaderLacks (operator : String) (values : List Expr) : PrintFault → Prop
  | bounds : operator = "range" → values.length ≠ 2 → HeaderLacks operator values .rangeBounds
  | value : operator ≠ "range" → operator ≠ "default" → values = [] → HeaderLacks operator values .missingValue
  | number {n : Int} : n ∈ headerNumbers operator values → TooLong n → HeaderLacks operator values .tooManyDigits

/-- What is wrong where a line has no text. -/
def Line.Lacks : Line → PrintFault → Prop
  | first t => t.Lacks
  | arm operator values => HeaderLacks operator values
  | otherwise | close => fun _ => False

/-- Whether the statement itself can be written, apart from the blocks inside it. -/
structure Stmt.Printable (t : Stmt) : Prop where
  callee : ∀ arguments kind, t ≠ .call .unknown arguments kind
  numbers : ∀ n ∈ t.numbers, ¬TooLong n
  headers : ∀ {value arms}, t = .switch value arms → ∀ a ∈ arms, ∀ fault, ¬HeaderLacks a.operator a.values fault

theorem Stmt.Printable.not_lacks {t : Stmt} (h : t.Printable) (fault : PrintFault) : ¬t.Lacks fault := by
  rintro (hcallee | ⟨hn, hlong⟩)
  · exact h.callee _ _ hcallee
  · exact h.numbers _ hn hlong

theorem Stmt.printable_head (t : Stmt) : t.head.Printable ↔ t.Printable := by
  cases t with
  | switch value arms =>
    refine ⟨fun h => ⟨nofun, h.numbers, ?_⟩, fun h => ⟨nofun, h.numbers, ?_⟩⟩
    · rintro _ _ ⟨⟩ a ha
      exact h.headers rfl ⟨a.operator, a.values, []⟩ (List.mem_map.2 ⟨a, ha, rfl⟩)
    · rintro _ _ ⟨⟩ _ ha
      obtain ⟨a, hmem, rfl⟩ := List.mem_map.1 ha
      exact h.headers rfl a hmem
  | call callee arguments kind => rfl
  | _ => exact ⟨fun h => ⟨nofun, h.numbers, nofun⟩, fun h => ⟨nofun, h.numbers, nofun⟩⟩

/-! ### Failures -/

/-- A computation fails just when something is lacking, and the failure says what. -/
def FailsFor {α : Type} (lacks : PrintFault → Prop) (x : Except Failure α) : Prop :=
  Ends (fun _ => ∀ fault, ¬lacks fault) (fun e => ∃ fault, e = .print fault ∧ lacks fault) x

section

variable {α β : Type} {P Q : PrintFault → Prop} {x : Except Failure α}

theorem FailsFor.ok (a : α) : FailsFor (fun _ => False) (.ok a) := Ends.ok fun _ => id

theorem FailsFor.congr (h : FailsFor P x) (hPQ : ∀ fault, P fault ↔ Q fault) : FailsFor Q x := by
  refine Ends.mono h (fun _ hnone fault hQ => hnone fault ((hPQ fault).2 hQ)) ?_
  rintro _ ⟨fault, rfl, hP⟩
  exact ⟨fault, rfl, (hPQ fault).1 hP⟩

/-- What is lacking in one of two steps is lacking in their sequence. -/
theorem FailsFor.bind {f : α → Except Failure β} (hx : FailsFor P x) (hf : ∀ a, x = .ok a → FailsFor Q (f a)) :
    FailsFor (fun fault => P fault ∨ Q fault) (x >>= f) := by
  cases x with
  | error e =>
    obtain ⟨fault, rfl, hP⟩ := Ends.of_error hx
    exact Ends.error ⟨fault, rfl, .inl hP⟩
  | ok a =>
    have hnone := Ends.of_ok hx
    refine Ends.mono (hf a rfl) (fun _ hQ fault h => h.elim (hnone fault) (hQ fault)) ?_
    rintro _ ⟨fault, rfl, hQ⟩
    exact ⟨fault, rfl, .inr hQ⟩

/-- What is done with a value in the end does not fail. -/
theorem FailsFor.return (hx : FailsFor P x) (g : α → β) : FailsFor P (x >>= fun a => .ok (g a)) :=
  (hx.bind fun a _ => .ok (g a)).congr fun _ => or_iff_left id

theorem FailsFor.mapM {P : α → PrintFault → Prop} {f : α → Except Failure β} {as : List α}
    (h : ∀ a ∈ as, FailsFor (P a) (f a)) : FailsFor (fun fault => ∃ a ∈ as, P a fault) (as.mapM f) := by
  induction as with
  | nil => exact (FailsFor.ok []).congr fun _ => by simp
  | cons a rest ih =>
    obtain ⟨ha, hrest⟩ := List.forall_mem_cons.1 h
    rw [List.mapM_cons]
    exact (ha.bind fun _ _ => (ih hrest).return _).congr fun fault => (List.exists_mem_cons_iff (P · fault) a rest).symm

theorem FailsFor.exists_ok (h : FailsFor P x) (hnone : ∀ fault, ¬P fault) : ∃ a, x = .ok a := by
  cases x with
  | error e =>
    obtain ⟨fault, -, hP⟩ := Ends.of_error h
    exact absurd hP (hnone fault)
  | ok a => exact ⟨a, rfl⟩

end

/-! ### Numbers -/

theorem tooLong_iff {n : Int} : TooLong n ↔ 10 ^ maxDecimalDigits ≤ n.natAbs := by
  rw [TooLong, ← Nat.not_le, Nat.length_toDigits_le_iff (by decide) (by decide), Nat.not_lt]

example : TooLong (10 ^ 4300) ∧ ¬TooLong (1 - 10 ^ 4300) := by decide +kernel

/-- One of the numbers is too long. -/
def TooLongAmong (ns : List Int) (fault : PrintFault) : Prop := fault = .tooManyDigits ∧ ∃ n ∈ ns, TooLong n

private theorem tooLongAmong_append {ns ms : List Int} {fault : PrintFault} :
    TooLongAmong (ns ++ ms) fault ↔ TooLongAmong ns fault ∨ TooLongAmong ms fault := by
  simp only [TooLongAmong, List.mem_append, or_and_right, exists_or, and_or_left]

private theorem tooLongAmong_flatMap {es : List Expr} {fault : PrintFault} :
    TooLongAmong (es.flatMap Expr.numbers) fault ↔ ∃ e ∈ es, TooLongAmong e.numbers fault := by
  simp only [TooLongAmong, List.mem_flatMap]
  grind

private theorem fails_without_numbers {α : Type} (a : α) : FailsFor (TooLongAmong []) (.ok a) :=
  (FailsFor.ok a).congr fun _ => by simp [TooLongAmong]

theorem decimalText_fails (n : Int) : FailsFor (TooLongAmong [n]) (decimalText n) := by
  unfold decimalText Text.ofInt?
  split
  · rename_i h
    refine Ends.ok ?_
    rintro _ ⟨-, m, hm, hlong⟩
    rw [List.mem_singleton.1 hm] at hlong
    rw [if_pos hlong] at h
    cases h
  · rename_i h
    split at h
    · rename_i hlong
      exact Ends.error ⟨_, rfl, rfl, n, List.mem_singleton_self n, hlong⟩
    · cases h

section

variable {s : Scope}

theorem Expr.text_fails (e : Expr) : FailsFor (TooLongAmong e.numbers) (e.text s) := by
  induction e with
  | int value => exact decimalText_fails value
  | comparison lhs operator rhs ihl ihr =>
    exact (ihl.bind fun _ _ => ihr.return _).congr fun _ => tooLongAmong_append.symm
  | bool value => cases value <;> exact fails_without_numbers _
  | identifier _ | float _ | pointer _ => exact fails_without_numbers _

private theorem mapM_text_fails (es : List Expr) :
    FailsFor (TooLongAmong (es.flatMap Expr.numbers)) (es.mapM (·.text s)) :=
  (FailsFor.mapM fun e _ => e.text_fails).congr fun _ => tooLongAmong_flatMap.symm

theorem Expr.listText_fails (es : List Expr) : FailsFor (TooLongAmong (es.flatMap Expr.numbers)) (Expr.listText s es) :=
  (mapM_text_fails es).return _

/-! ### Lines -/

theorem Callee.text_fails (c : Callee) :
    FailsFor (fun fault => fault = .namelessCallee ∧ c = .unknown) (c.text s) := by
  cases c with
  | named name => exact Ends.ok nofun
  | pointer address =>
    unfold text
    cases (pointer address).name? s with
    | none => exact Ends.ok nofun
    | some name => exact Ends.ok nofun
  | unknown => exact Ends.error ⟨_, rfl, rfl, rfl⟩

private theorem armHeader_range_fails (values : List Expr) :
    FailsFor (fun fault => TooLongAmong ((values.take 3).flatMap Expr.numbers) fault ∨
      fault = .rangeBounds ∧ values.length ≠ 2) (armHeader "range" values s) := by
  refine (mapM_text_fails (values.take 3)).bind fun texts htexts => ?_
  have hlength := (mapM_eq_ok_iff.1 htexts).length_eq
  rw [List.length_take] at hlength
  split
  · refine Ends.ok ?_
    rintro _ ⟨-, hne⟩
    simp only [List.length_cons, List.length_nil] at hlength
    omega
  · rename_i hne
    refine Ends.error ⟨_, rfl, rfl, fun htwo => ?_⟩
    obtain ⟨low, high, hpair⟩ := List.length_eq_two.1 (show texts.length = 2 by omega)
    exact hne low high hpair

private theorem armHeader_comparison_fails {operator : String} (hdefault : operator ≠ "default")
    (hrange : operator ≠ "range") (values : List Expr) :
    FailsFor (fun fault => TooLongAmong ((values.take 1).flatMap Expr.numbers) fault ∨
      fault = .missingValue ∧ values = []) (armHeader operator values s) := by
  unfold armHeader
  rw [if_neg hdefault, if_neg hrange]
  cases values with
  | nil => exact Ends.error ⟨_, rfl, .inr ⟨rfl, rfl⟩⟩
  | cons value rest => exact (value.text_fails.return _).congr fun fault => by simp

private theorem headerLacks_iff {operator : String} {values : List Expr} {fault : PrintFault} :
    HeaderLacks operator values fault ↔ TooLongAmong (headerNumbers operator values) fault ∨
      (fault = .rangeBounds ∧ operator = "range" ∧ values.length ≠ 2) ∨
      (fault = .missingValue ∧ operator ≠ "range" ∧ operator ≠ "default" ∧ values = []) := by
  constructor
  · rintro (⟨hrange, hlength⟩ | ⟨hrange, hdefault, hvalues⟩ | ⟨hn, hlong⟩)
    · exact .inr (.inl ⟨rfl, hrange, hlength⟩)
    · exact .inr (.inr ⟨rfl, hrange, hdefault, hvalues⟩)
    · exact .inl ⟨rfl, _, hn, hlong⟩
  · rintro (⟨rfl, n, hn, hlong⟩ | ⟨rfl, hrange, hlength⟩ | ⟨rfl, hrange, hdefault, hvalues⟩)
    · exact .number hn hlong
    · exact .bounds hrange hlength
    · exact .value hrange hdefault hvalues

theorem armHeader_fails (operator : String) (values : List Expr) :
    FailsFor (HeaderLacks operator values) (armHeader operator values s) := by
  by_cases hdefault : operator = "default"
  · subst hdefault
    exact (FailsFor.ok _).congr fun fault => by simp [headerLacks_iff, headerNumbers, TooLongAmong]
  by_cases hrange : operator = "range"
  · subst hrange
    exact (armHeader_range_fails values).congr fun fault => by simp [headerLacks_iff, headerNumbers]
  · refine (armHeader_comparison_fails hdefault hrange values).congr fun fault => ?_
    simp [headerLacks_iff, headerNumbers, hdefault, hrange]

/-- A statement that is no call writes nothing that may be lacking but numbers. -/
private theorem fails_of_numbers {t : Stmt} {x : Except Failure Text}
    (hcall : ∀ callee arguments kind, t ≠ .call callee arguments kind) (h : FailsFor (TooLongAmong t.numbers) x) :
    FailsFor t.Lacks x := by
  refine h.congr fun fault => ⟨?_, fun h => ?_⟩
  · rintro ⟨rfl, n, hn, hlong⟩
    exact .number hn hlong
  · cases h with
    | callee h => exact absurd h (hcall _ _ _)
    | number hn hlong => exact ⟨rfl, _, hn, hlong⟩

private theorem call_fails (callee : Callee) (arguments : List Expr) (kind : CallKind) :
    FailsFor (Stmt.call callee arguments kind).Lacks (Stmt.firstText s (.call callee arguments kind)) := by
  refine ((Expr.listText_fails arguments).bind fun _ _ => callee.text_fails.return _).congr fun fault => ?_
  constructor
  · rintro (⟨rfl, n, hn, hlong⟩ | ⟨rfl, rfl⟩)
    · exact .number hn hlong
    · exact .callee rfl
  · intro h
    cases h with
    | callee h =>
      cases h
      exact .inr ⟨rfl, rfl⟩
    | number hn hlong => exact .inl ⟨rfl, _, hn, hlong⟩

private theorem firstText_fails (t : Stmt) : FailsFor t.Lacks (t.firstText s) := by
  cases t with
  | call callee arguments kind => exact call_fails callee arguments kind
  | declare type name value =>
    refine fails_of_numbers nofun ?_
    cases value with
    | none => exact fails_without_numbers _
    | some e => exact (e.text_fails.return _).congr fun _ => by simp [Stmt.numbers]
  | loop count body =>
    refine fails_of_numbers nofun ?_
    cases count with
    | none => exact fails_without_numbers _
    | some e => exact (e.text_fails.return _).congr fun _ => by simp [Stmt.numbers]
  | label index | goto index => exact fails_of_numbers nofun ((decimalText_fails index).return _)
  | assign name operator e | wait e seconds | branch e body | branchElse e body otherwise | switch e arms =>
    exact fails_of_numbers nofun (e.text_fails.return _)
  | ret | breakLoop | breakSwitch | thread child body => exact fails_of_numbers nofun (fails_without_numbers _)

/-- A line has no text just when something is wrong with it. -/
theorem Line.text_fails (l : Line) : FailsFor l.Lacks (l.text s) := by
  cases l with
  | first t => exact firstText_fails t
  | arm operator values => exact (armHeader_fails operator values).return _
  | otherwise | close => exact FailsFor.ok _

end

end MapScript
