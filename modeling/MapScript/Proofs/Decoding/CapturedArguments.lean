import Mathlib.Data.List.Nodup
import MapScript.Decoding.CapturedArguments
import MapScript.Proofs.Outcome
import MapScript.Proofs.Script.Parts
import MapScript.Proofs.Text.Hex

/-!
# Writing out captured arguments

Captured arguments are written out in every statement by itself and at any depth (`passCaptures_rewrites`): a call of a
script gets one argument for every parameter (`passCaptures_call`), and other statements stay as they are
(`passCaptures_cases`). It fails just when some call of a script has arguments already (`passCaptures_ends`).

The names of captured words are distinct (`nodup_capturedArguments`). What becomes of a tree as a whole is said by
`passCaptures_fails_iff`.
-/

namespace MapScript

variable {o : Options} {s : Scope}

@[simp] theorem length_capturedArguments (o : Options) (count : Nat) : (capturedArguments o count).length = count := by
  rw [capturedArguments, List.length_map, List.length_range]

/-- A call that has got its captured arguments has one for every parameter of the script that it calls. -/
theorem passCaptures_call {callee : Callee} {arguments : List Expr} {kind : CallKind} {t : Stmt}
    (h : (Stmt.call callee arguments kind).passCaptures o s = .ok t) :
    ∃ arguments', t = .call callee arguments' kind ∧
      ∀ {name parameters}, callee.lookup? s = some (name, .callable .script parameters) →
        arguments'.length = parameters.length := by
  rw [Stmt.passCaptures] at h
  split at h
  · rename_i hl
    split at h
    · cases h
      refine ⟨_, rfl, fun hl' => ?_⟩
      rw [hl] at hl'
      cases hl'
      exact length_capturedArguments o _
    · cases h
  · rename_i hl
    cases h
    exact ⟨arguments, rfl, fun hl' => absurd hl' (hl _ _)⟩

private theorem bind_return_eq_ok {α β : Type} {x : Except Failure α} {f : α → β} {b : β}
    (h : (do return f (← x)) = (.ok b : Except Failure β)) : ∃ a, x = .ok a ∧ b = f a := by
  obtain ⟨a, ha, h⟩ := bind_eq_ok_iff.1 h
  cases h
  exact ⟨a, ha, rfl⟩

private theorem passCaptures_arms {arms arms' : List Arm} (h : Arm.passCaptures o s arms = .ok arms') :
    (arms'.map fun a => (⟨a.operator, a.values, []⟩ : Arm)) = (arms.map fun a => ⟨a.operator, a.values, []⟩) ∧
      List.Forall₂ (fun b b' => Block.passCaptures o s b = .ok b') (arms.map Arm.body) (arms'.map Arm.body) := by
  induction arms generalizing arms' with
  | nil =>
    cases h
    exact ⟨rfl, .nil⟩
  | cons a rest ih =>
    obtain ⟨operator, values, body⟩ := a
    obtain ⟨body', hb, h⟩ := bind_eq_ok_iff.1 h
    obtain ⟨rest', hrest, rfl⟩ := bind_return_eq_ok h
    obtain ⟨he, hr⟩ := ih hrest
    exact ⟨by rw [List.map_cons, List.map_cons, he], .cons hb hr⟩

private theorem passCaptures_emptied (arms : List Arm) :
    Arm.passCaptures o s (arms.map fun a => ⟨a.operator, a.values, []⟩) =
      .ok (arms.map fun a => ⟨a.operator, a.values, []⟩) := by
  induction arms with
  | nil => rfl
  | cons a rest ih =>
    rw [List.map_cons, Arm.passCaptures, ih]
    rfl

/-- Only calls change themselves. -/
theorem passCaptures_cases {t t' : Stmt} (h : t.passCaptures o s = .ok t') :
    t'.head = t.head ∨ ∃ callee arguments arguments' kind, t = .call callee arguments kind ∧
      t' = .call callee arguments' kind := by
  cases t with
  | branch condition body | loop count body | thread child body =>
    obtain ⟨_, -, rfl⟩ := bind_return_eq_ok h
    exact .inl rfl
  | branchElse condition body otherwise =>
    obtain ⟨_, -, h⟩ := bind_eq_ok_iff.1 h
    obtain ⟨_, -, rfl⟩ := bind_return_eq_ok h
    exact .inl rfl
  | switch value arms =>
    obtain ⟨arms', ha, rfl⟩ := bind_return_eq_ok h
    exact .inl (by rw [Stmt.head, Stmt.head, (passCaptures_arms ha).1])
  | call callee arguments kind =>
    obtain ⟨arguments', rfl, -⟩ := passCaptures_call h
    exact .inr ⟨callee, arguments, arguments', kind, rfl, rfl⟩
  | _ =>
    cases h
    exact .inl rfl

/-- A statement is its head and its blocks, and captured arguments are written out in each by itself. -/
private theorem passCaptures_parts {t t' : Stmt} (h : t.passCaptures o s = .ok t') :
    t.head.passCaptures o s = .ok t'.head ∧
      List.Forall₂ (fun b b' => Block.passCaptures o s b = .ok b') t.blocks t'.blocks := by
  cases t with
  | branch condition body | loop count body | thread child body =>
    obtain ⟨body', hb, rfl⟩ := bind_return_eq_ok h
    exact ⟨rfl, .cons hb .nil⟩
  | branchElse condition body otherwise =>
    obtain ⟨body', hb, h⟩ := bind_eq_ok_iff.1 h
    obtain ⟨otherwise', ho, rfl⟩ := bind_return_eq_ok h
    exact ⟨rfl, .cons hb (.cons ho .nil)⟩
  | switch value arms =>
    obtain ⟨arms', ha, rfl⟩ := bind_return_eq_ok h
    obtain ⟨he, hr⟩ := passCaptures_arms ha
    refine ⟨?_, hr⟩
    rw [Stmt.head, Stmt.head, he, Stmt.passCaptures, passCaptures_emptied]
    rfl
  | call callee arguments kind =>
    obtain ⟨arguments', rfl, -⟩ := passCaptures_call h
    exact ⟨h, .nil⟩
  | _ =>
    cases h
    exact ⟨rfl, .nil⟩

private theorem forall₂_rewrites {R : Stmt → Stmt → Prop} {bs bs' : List Block}
    (hi : ∀ b ∈ bs, ∀ b', Block.passCaptures o s b = .ok b' → Block.Rewrites R b b')
    (h : List.Forall₂ (fun b b' => Block.passCaptures o s b = .ok b') bs bs') :
    List.Forall₂ (Block.Rewrites R) bs bs' := by
  induction h with
  | nil => exact .nil
  | cons hb _ ih =>
    exact .cons (hi _ (List.mem_cons_self ..) _ hb) (ih fun b hb => hi b (List.mem_cons_of_mem _ hb))

theorem passCaptures_rewrites {b b' : Block} (h : Block.passCaptures o s b = .ok b') :
    Block.Rewrites (fun t t' => t.passCaptures o s = .ok t') b b' := by
  induction b using Block.induction generalizing b' with
  | nil =>
    cases h
    exact .nil
  | cons t rest inside ih =>
    obtain ⟨t', ht, h⟩ := bind_eq_ok_iff.1 h
    obtain ⟨rest', hrest, rfl⟩ := bind_return_eq_ok h
    obtain ⟨hhead, hblocks⟩ := passCaptures_parts ht
    exact .cons hhead (forall₂_rewrites (fun d hd _ h => inside d hd h) hblocks) (ih hrest)

/-- Declarations stay as they are. -/
theorem declared_before {block₀ block₁ : Block} (hpass : Block.passCaptures o s block₀ = .ok block₁) {type : DataType}
    {name : Text} {value : Option Expr} (hd : .declare type name value ∈ Block.statements block₁) :
    .declare type name value ∈ Block.statements block₀ := by
  obtain ⟨t, ht, hcaptures, -⟩ := (passCaptures_rewrites hpass).exists_of_mem hd
  rcases passCaptures_cases hcaptures with he | ⟨_, _, _, _, -, he⟩
  · cases t <;> cases he
    exact ht
  · cases he

/-! ### Calls that have arguments already -/

/-- A call with arguments of what the scope knows as a script. -/
def Stmt.PassesToScript (s : Scope) : Stmt → Prop
  | call callee arguments _ =>
    arguments ≠ [] ∧ ∃ name parameters, callee.lookup? s = some (name, .callable .script parameters)
  | _ => False

/-- Writing out captured arguments in these statements succeeds if no script is passed arguments, and fails for one that
is. -/
private def Captures {α : Type} (s : Scope) (ts : List Stmt) : Except Failure α → Prop :=
  Ends (fun _ => ∀ t ∈ ts, ¬t.PassesToScript s)
    (fun e => (∃ t ∈ ts, t.PassesToScript s) ∧ ∃ name n, e = .inconsistent (.alreadyPassed name n))

private theorem Captures.cons {α : Type} {t : Stmt} {ts : List Stmt} {x : Except Failure α} (h : Captures s ts x)
    (ht : ¬t.PassesToScript s) : Captures s (t :: ts) x := by
  refine Ends.mono h (fun _ hts => List.forall_mem_cons.2 ⟨ht, hts⟩) ?_
  · rintro e ⟨⟨u, hu, hpasses⟩, he⟩
    exact ⟨⟨u, List.mem_cons_of_mem _ hu, hpasses⟩, he⟩

private theorem Captures.bind {α β : Type} {ts us : List Stmt} {x : Except Failure α} {f : α → Except Failure β}
    (hx : Captures s ts x) (hf : ∀ a, Captures s us (f a)) : Captures s (ts ++ us) (x >>= f) := by
  refine Ends.bind (Ends.mono hx (fun _ h => h) ?_) fun a _ hts => Ends.mono (hf a) (fun _ hus t ht => ?_) ?_
  · rintro e ⟨⟨t, ht, hpasses⟩, he⟩
    exact ⟨⟨t, List.mem_append_left _ ht, hpasses⟩, he⟩
  · exact (List.mem_append.1 ht).elim (hts t) (hus t)
  · rintro e ⟨⟨u, hu, hpasses⟩, he⟩
    exact ⟨⟨u, List.mem_append_right _ hu, hpasses⟩, he⟩

private theorem Captures.return {α β : Type} {ts : List Stmt} {x : Except Failure α} (hx : Captures s ts x) (f : α → β) :
    Captures s ts (do return f (← x)) :=
  Ends.bind hx fun _ _ h => .ok h

private theorem captures_arms {arms : List Arm}
    (h : ∀ a ∈ arms, Captures s (Block.statements a.body) (Block.passCaptures o s a.body)) :
    Captures s (Arm.statements arms) (Arm.passCaptures o s arms) := by
  induction arms with
  | nil => exact .ok nofun
  | cons a rest ih =>
    obtain ⟨operator, values, body⟩ := a
    rw [Arm.passCaptures, Arm.statements]
    have hrest := ih fun a ha => h a (List.mem_cons_of_mem _ ha)
    exact (h _ (List.mem_cons_self ..)).bind fun _ => hrest.return _

private theorem captures_statement {t : Stmt}
    (h : ∀ d ∈ t.blocks, Captures s (Block.statements d) (Block.passCaptures o s d)) :
    Captures s t.statements (t.passCaptures o s) := by
  cases t with
  | branch condition body | loop count body | thread child body =>
    rw [Stmt.passCaptures, Stmt.statements]
    exact ((h body (List.mem_cons_self ..)).return _).cons id
  | branchElse condition body otherwise =>
    rw [Stmt.passCaptures, Stmt.statements]
    have hbody := h body (List.mem_cons_self ..)
    have hotherwise := h otherwise (List.mem_cons_of_mem _ (List.mem_cons_self ..))
    exact (hbody.bind fun _ => hotherwise.return _).cons id
  | switch value arms =>
    rw [Stmt.passCaptures, Stmt.statements]
    have harms := captures_arms fun a ha => h a.body (List.mem_map_of_mem ha)
    exact (harms.return _).cons id
  | call callee arguments kind =>
    show Captures s [.call callee arguments kind] _
    rw [Stmt.passCaptures]
    split
    · rename_i name parameters hl
      split
      · rename_i hempty
        refine .ok (List.forall_mem_singleton.2 ?_)
        rintro ⟨hne, -⟩
        exact hne (List.isEmpty_iff.1 hempty)
      · rename_i hempty
        have hne : arguments ≠ [] := fun he => hempty (List.isEmpty_iff.2 he)
        exact .error ⟨⟨_, List.mem_singleton_self _, hne, name, parameters, hl⟩, _, _, rfl⟩
    · rename_i hl
      refine .ok (List.forall_mem_singleton.2 ?_)
      rintro ⟨-, name, parameters, hl'⟩
      exact hl _ _ hl'
  | _ => exact Captures.cons (.ok (List.forall_mem_nil _)) id

/-- Captured arguments are written out unless some call passes arguments to a script, and then this is the failure. -/
theorem passCaptures_ends (b : Block) : Ends (fun _ => ∀ t ∈ Block.statements b, ¬t.PassesToScript s)
    (fun e => (∃ t ∈ Block.statements b, t.PassesToScript s) ∧ ∃ name n, e = .inconsistent (.alreadyPassed name n))
    (Block.passCaptures o s b) := by
  show Captures s _ _
  induction b using Block.induction with
  | nil => exact .ok nofun
  | cons t rest inside ih =>
    rw [Block.passCaptures, Block.statements]
    exact (captures_statement inside).bind fun _ => ih.return _

/-! ### What calls get -/

theorem captureName_injective {i j : Int} (h : o.captureName i = o.captureName j) : i = j := by
  have hpoints := congrArg Text.points h
  simp only [Options.captureName, Text.points_append] at hpoints
  exact Hex.signed_injective (Text.ext (List.append_cancel_left hpoints))

theorem nodup_capturedArguments (o : Options) (count : Nat) : (capturedArguments o count).Nodup := by
  refine List.Nodup.map ?_ List.nodup_range
  intro i j h
  have hname := captureName_injective (Expr.identifier.inj h)
  omega

theorem getElem?_capturedArguments (o : Options) {count i : Nat} (h : i < count) :
    (capturedArguments o count)[i]? = some (.identifier (o.capturePrefix ++ "_" ++ .ofChars (Hex.digits i))) := by
  rw [capturedArguments, List.getElem?_map, List.getElem?_range h, Option.map_some, Options.captureName,
    Hex.signed_natCast]

/-- A call of what the scope knows as a script. -/
def Stmt.CallsScript (s : Scope) : Stmt → Prop
  | call callee _ _ => ∃ name parameters, callee.lookup? s = some (name, .callable .script parameters)
  | _ => False

/-- A call of a script gets a captured word for every parameter, by their names with the index in upper-case hexadecimal
and in order; every other statement stays as it is. -/
inductive Stmt.GetsCaptures (o : Options) (s : Scope) : Stmt → Stmt → Prop
  | script {callee : Callee} {arguments : List Expr} {kind : CallKind} {name : Text} {parameters : List DataType} :
    callee.lookup? s = some (name, .callable .script parameters) → arguments.length = parameters.length →
    (∀ i < parameters.length,
      arguments[i]? = some (.identifier (o.capturePrefix ++ "_" ++ .ofChars (Hex.digits i)))) →
    arguments.Nodup → GetsCaptures o s (.call callee [] kind) (.call callee arguments kind)
  | other {t : Stmt} : ¬t.CallsScript s → GetsCaptures o s t t

theorem getsCaptures_of_passCaptures {t t' : Stmt} (h : t.passCaptures o s = .ok t') :
    Stmt.GetsCaptures o s t.head t'.head := by
  cases t with
  | call callee arguments kind =>
    rw [Stmt.passCaptures] at h
    split at h
    · rename_i name parameters hl
      split at h
      · rename_i hempty
        obtain rfl := List.isEmpty_iff.1 hempty
        cases h
        refine .script hl (length_capturedArguments o _) ?_ (nodup_capturedArguments o _)
        exact fun i hi => getElem?_capturedArguments o hi
      · cases h
    · rename_i hl
      cases h
      refine .other ?_
      rintro ⟨name, parameters, hl'⟩
      exact hl name parameters hl'
  | _ =>
    have hhead := (passCaptures_cases h).resolve_right (by rintro ⟨_, _, _, _, hcall, -⟩; cases hcall)
    rw [hhead]
    exact .other id

/-- Writing out captured arguments fails as an inconsistency just when some call at any depth passes arguments to a
script. Otherwise every call of a script at any depth gets its captured words, and nothing else changes; the scope is only
read. -/
theorem passCaptures_fails_iff (o : Options) (s : Scope) (b : Block) :
    ((∃ cause, Block.passCaptures o s b = .error (.inconsistent cause)) ↔
      ∃ t ∈ Block.statements b, t.PassesToScript s) ∧
    ((∃ b', Block.passCaptures o s b = .ok b' ∧ Block.Rewrites (Stmt.GetsCaptures o s) b b') ↔
      ¬∃ t ∈ Block.statements b, t.PassesToScript s) := by
  have hends := passCaptures_ends (o := o) (s := s) b
  cases h : Block.passCaptures o s b with
  | error e =>
    rw [h] at hends
    obtain ⟨hpasses, name, n, rfl⟩ := hends.of_error
    have herror : ∃ cause, (.error (.inconsistent (.alreadyPassed name n)) : Except Failure Block) =
        .error (.inconsistent cause) := ⟨_, rfl⟩
    exact ⟨iff_of_true herror hpasses, iff_of_false (by rintro ⟨_, hok, -⟩; cases hok) (fun hnone => hnone hpasses)⟩
  | ok b' =>
    rw [h] at hends
    have hnone : ¬∃ t ∈ Block.statements b, t.PassesToScript s := by
      rintro ⟨t, ht, hpasses⟩
      exact hends.of_ok t ht hpasses
    have hrewrites : Block.Rewrites (Stmt.GetsCaptures o s) b b' := by
      apply (passCaptures_rewrites h).mono
      intro t t' ht
      have hheads := getsCaptures_of_passCaptures ht
      rwa [Stmt.head_head, Stmt.head_head] at hheads
    exact ⟨iff_of_false nofun hnone, iff_of_true ⟨b', rfl, hrewrites⟩ hnone⟩

/-- A script with two parameters, under a name and at an address. -/
def capturingScope : Scope := ⟨[⟨.ofList [(16, "script")], .ofList [("script", .script [.any, .bool])]⟩]⟩

/-- Calls of the script in blocks of every kind. -/
def capturingBlock : Block :=
  [.branchElse (.bool true) [.call (.pointer 16) [] .spawn] [.loop none [.call (.named "script") [] .call]],
    .switch (.int 0) [⟨"default", [], [.thread false [.call (.named "script") [] .call]]⟩]]

theorem passCaptures_of_capturingBlock : ∃ b', Block.passCaptures {} capturingScope capturingBlock = .ok b' ∧
    Block.Rewrites (Stmt.GetsCaptures {} capturingScope) capturingBlock b' := by
  refine (passCaptures_fails_iff {} capturingScope capturingBlock).2.2 ?_
  rintro ⟨t, ht, hpasses⟩
  simp only [capturingBlock, Block.statements, Stmt.statements, Arm.statements, List.mem_append, List.mem_cons,
    List.not_mem_nil, or_false] at ht
  -- no call has arguments
  rcases ht with (rfl | rfl | rfl | rfl) | (rfl | rfl | rfl) <;> first | exact hpasses | exact hpasses.1 rfl

end MapScript
