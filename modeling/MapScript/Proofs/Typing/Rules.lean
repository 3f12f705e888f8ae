import MapScript.Proofs.Outcome
import MapScript.Proofs.Scope.Refinement
import MapScript.Proofs.Script.Parts
import MapScript.Typing.Rules

/-!
# What the rules of statements do

A rule leaves the blocks of a statement alone, and changes no more than the type of a declaration and the literals in it
(`alike_of_examine`). It proposes types for names of the statement that have no concrete type (`learns_of_examine`).
Examining what it has made in the same scope makes and proposes the same again (`examine_idem`).

A declaration whose name has a type takes it over (`agrees_of_examine`); others stay as they are.
-/

namespace MapScript

def Expr.identifier? : Expr → Option Text
  | identifier name => some name
  | _ => none

namespace Stmt

/-- The names that a rule may propose types for. -/
def names : Stmt → List Text
  | declare _ name _ | assign name _ _ => [name]
  | call _ arguments _ => arguments.filterMap Expr.identifier?
  | _ => []

/-- Statements that are the same but for the type of a declaration, for values, and for literal arguments. -/
def Alike : Stmt → Stmt → Prop
  | declare _ name _, declare _ name' _ => name = name'
  | assign name operator _, assign name' operator' _ => name = name' ∧ operator = operator'
  | call callee arguments kind, call callee' arguments' kind' =>
    callee = callee' ∧ kind = kind' ∧ arguments.map Expr.identifier? = arguments'.map Expr.identifier?
  | s, t => s = t

/-- A declaration has the concrete type of its name in the innermost layer, and no integer for a truth value. -/
def Agrees (s : Scope) (t : Stmt) : Prop :=
  ∀ {type name value}, t = declare type name value → s.known name ≠ .any →
    type = s.known name ∧ (s.known name = .bool → ∀ n, value ≠ some (.int n))

theorem Alike.refl (s : Stmt) : s.Alike s := by
  cases s <;> simp [Alike]

theorem Alike.trans {s t u : Stmt} (h : s.Alike t) (h' : t.Alike u) : s.Alike u := by
  cases s <;> cases t <;> simp only [Alike, reduceCtorEq] at h <;> cases u <;>
    simp only [Alike, reduceCtorEq] at h' ⊢ <;> simp_all

theorem Alike.eq_call {t : Stmt} {callee : Callee} {arguments : List Expr} {kind : CallKind}
    (h : t.Alike (call callee arguments kind)) :
    ∃ arguments', t = call callee arguments' kind ∧ arguments'.length = arguments.length := by
  cases t <;> simp only [Alike, reduceCtorEq] at h
  obtain ⟨rfl, rfl, h⟩ := h
  have hlength := congrArg List.length h
  rw [List.length_map, List.length_map] at hlength
  exact ⟨_, rfl, hlength⟩

theorem Alike.depth_eq {s t : Stmt} (h : s.Alike t) : s.depth = t.depth := by
  cases s <;> cases t <;> simp only [Alike, reduceCtorEq] at h <;> first | rfl | rw [h]

private theorem filterMap_identifier? (arguments : List Expr) :
    arguments.filterMap Expr.identifier? = (arguments.map Expr.identifier?).filterMap id := by
  rw [List.filterMap_map]; rfl

theorem Alike.names_eq {s t : Stmt} (h : s.Alike t) : s.names = t.names := by
  cases s <;> cases t <;> simp only [Alike, reduceCtorEq] at h <;> try rfl
  · rw [names, names, h]
  · rw [names, names, h.1]
  · rw [names, names, filterMap_identifier?, filterMap_identifier?, h.2.2]

theorem names_head (s : Stmt) : s.head.names = s.names := by
  cases s <;> rfl

end Stmt

namespace Typing

/-! ### Literals as truth values -/

private theorem asBool_asBool (e : Expr) : e.asBool.asBool = e.asBool := by
  cases e <;> rfl

private theorem identifier?_asBool (e : Expr) : e.asBool.identifier? = e.identifier? := by
  cases e <;> rfl

private theorem asBool_ne_int (e : Expr) (n : Int) : e.asBool ≠ .int n := by
  cases e <;> nofun

theorem coerceArguments_eq_mapIdx (ps : List DataType) (es : List Expr) :
    coerceArguments ps es = es.mapIdx fun i e => if ps[i]? = some .bool then e.asBool else e := by
  induction ps generalizing es with
  | nil =>
    apply List.ext_getElem?
    intro i
    simp [coerceArguments]
  | cons p ps ih =>
    cases es with
    | nil => rfl
    | cons e es => simp [coerceArguments, ih]

private theorem map_identifier?_coerceArguments (ps : List DataType) (es : List Expr) :
    (coerceArguments ps es).map Expr.identifier? = es.map Expr.identifier? := by
  apply List.ext_getElem?
  intro i
  rw [coerceArguments_eq_mapIdx, List.getElem?_map, List.getElem?_mapIdx, List.getElem?_map, Option.map_map]
  congr 1
  funext e
  by_cases hp : ps[i]? = some .bool
  · simp [hp, identifier?_asBool]
  · simp [hp]

private theorem coerceArguments_coerceArguments (ps : List DataType) (es : List Expr) :
    coerceArguments ps (coerceArguments ps es) = coerceArguments ps es := by
  simp only [coerceArguments_eq_mapIdx, List.mapIdx_mapIdx]
  congr 1
  funext i e
  by_cases hp : ps[i]? = some .bool
  · simp [hp, asBool_asBool]
  · simp [hp]

private theorem useOf?_asBool (s : Scope) (p : DataType) (e : Expr) : useOf? s p e.asBool = useOf? s p e := by
  cases e <;> rfl

private theorem uses_coerceArguments (s : Scope) (ps : List DataType) (es : List Expr) :
    (ps.zip (coerceArguments ps es)).filterMap (fun (p, e) => useOf? s p e) =
      (ps.zip es).filterMap fun (p, e) => useOf? s p e := by
  induction ps generalizing es with
  | nil => rfl
  | cons p ps ih => cases es with
    | nil => rfl
    | cons e es =>
      have he : useOf? s p (if p.isBool then e.asBool else e) = useOf? s p e := by
        split
        · exact useOf?_asBool s p e
        · rfl
      rw [coerceArguments, List.zip_cons_cons, List.zip_cons_cons, List.filterMap_cons, List.filterMap_cons, ih]
      simp only [he]

/-! ### Single statements -/

section

variable {s : Scope} {t t' : Stmt} {found : List Candidate}

private theorem examineDeclaration_of_known {type : DataType} {name : Text} {value : Option Expr}
    (hk : s.known name ≠ .any) (ht : type = .any ∨ type = s.known name) :
    examineDeclaration s type name value =
      .ok (.declare (s.known name) name (if (s.known name).isBool then value.map Expr.asBool else value), []) := by
  unfold examineDeclaration
  show (if (s.known name).isWildcard then _ else if type.isWildcard ∨ type = s.known name then _ else _) = _
  rw [if_neg (fun h => hk (DataType.isWildcard_iff.1 h)), if_pos (ht.imp_left DataType.isWildcard_iff.2)]
  rfl

/-- A declaration takes over the type that its name has, or stays as it is. -/
theorem examineDeclaration_cases {type : DataType} {name : Text} {value : Option Expr}
    (h : examine s (.declare type name value) = .ok (t', found)) :
    s.known name = .any ∧ t' = .declare type name value ∧ found = [if type.isWildcard then
      ⟨name, (value.map (·.type s)).getD .any, .value⟩ else ⟨name, type, .declaration⟩] ∨
    s.known name ≠ .any ∧ (type = .any ∨ type = s.known name) ∧ found = [] ∧
      t' = .declare (s.known name) name (if (s.known name).isBool then value.map Expr.asBool else value) := by
  rw [examine, examineDeclaration] at h
  change (if (s.known name).isWildcard then _ else if type.isWildcard ∨ type = s.known name then _ else _) = _ at h
  split at h
  · rename_i hk
    cases h
    exact .inl ⟨DataType.isWildcard_iff.1 hk, rfl, rfl⟩
  · rename_i hk
    split at h
    · rename_i ht
      cases h
      rw [DataType.isWildcard_iff] at hk ht
      exact .inr ⟨hk, ht, rfl, rfl⟩
    · cases h

/-- An assignment proposes the type of its value for a name of unknown type, or its value may become a truth value. -/
theorem examineAssignment_cases (s : Scope) (name : Text) (operator : String) (value : Expr) :
    s.typeOf? name = some .any ∧
      examineAssignment s name operator value = (.assign name operator value, [⟨name, value.type s, .value⟩]) ∨
    s.typeOf? name ≠ some .any ∧ ∃ value', (value' = value ∨ value' = value.asBool) ∧
      examineAssignment s name operator value = (.assign name operator value', []) := by
  unfold examineAssignment
  split
  · rename_i h
    exact .inl ⟨h, rfl⟩
  · rename_i h
    refine .inr ⟨by rw [h]; nofun, _, ?_, rfl⟩
    split
    · exact .inr rfl
    · exact .inl rfl
  · rename_i h _
    exact .inr ⟨h, value, .inl rfl, rfl⟩

theorem alike_of_examine (h : examine s t = .ok (t', found)) : t'.blocks = t.blocks ∧ t.head.Alike t'.head := by
  cases t with
  | declare type name value =>
    rcases examineDeclaration_cases h with ⟨-, rfl, -⟩ | ⟨-, -, -, rfl⟩
    · exact ⟨rfl, rfl⟩
    · exact ⟨rfl, rfl⟩
  | assign name operator value =>
    rw [examine, Except.ok.injEq] at h
    rcases examineAssignment_cases s name operator value with ⟨-, he⟩ | ⟨-, value', -, he⟩
    · rw [he] at h; cases h
      exact ⟨rfl, rfl, rfl⟩
    · rw [he] at h; cases h
      exact ⟨rfl, rfl, rfl⟩
  | call callee arguments kind =>
    rw [examine, Except.ok.injEq] at h
    unfold examineCall at h
    split at h
    · cases h
      exact ⟨rfl, rfl, rfl, (map_identifier?_coerceArguments _ _).symm⟩
    · cases h
      exact ⟨rfl, .refl _⟩
  | _ =>
    cases h
    exact ⟨rfl, .refl _⟩

private theorem name_of_useOf? {p : DataType} {e : Expr} {c : Candidate} (h : useOf? s p e = some c) :
    e = .identifier c.name ∧ s.typeOf? c.name = some .any := by
  cases e with
  | identifier name =>
    rw [useOf?] at h
    split at h
    · rename_i hn
      cases h
      exact ⟨rfl, hn⟩
    · cases h
  | _ => cases h

/-- A candidate is of a name of the statement, which it declares, or which is bound to the wildcard. -/
theorem learns_of_examine (h : examine s t = .ok (t', found)) {c : Candidate} (hc : c ∈ found) :
    c.name ∈ t.names ∧ ((∃ type value, t = .declare type c.name value) ∨ s.typeOf? c.name = some .any) := by
  cases t with
  | declare type name value =>
    rcases examineDeclaration_cases h with ⟨-, -, rfl⟩ | ⟨-, -, rfl, -⟩
    · have hn : c.name = name := by
        rw [List.mem_singleton.1 hc]
        split <;> rfl
      exact ⟨by rw [hn]; exact List.mem_singleton_self name, .inl ⟨type, value, by rw [hn]⟩⟩
    · cases hc
  | assign name operator value =>
    rw [examine, Except.ok.injEq] at h
    rcases examineAssignment_cases s name operator value with ⟨hn, he⟩ | ⟨-, value', -, he⟩
    · rw [he] at h; cases h
      rw [List.mem_singleton.1 hc]
      exact ⟨List.mem_singleton_self name, .inr hn⟩
    · rw [he] at h; cases h
      cases hc
  | call callee arguments kind =>
    rw [examine, Except.ok.injEq] at h
    unfold examineCall at h
    split at h
    · cases h
      obtain ⟨⟨p, e⟩, he, hu⟩ := List.mem_filterMap.1 hc
      obtain ⟨rfl, hn⟩ := name_of_useOf? hu
      exact ⟨List.mem_filterMap.2 ⟨_, (List.of_mem_zip he).2, rfl⟩, .inr hn⟩
    · cases h
      cases hc
  | _ =>
    cases h
    cases hc

theorem agrees_of_examine (h : examine s t = .ok (t', found)) : t'.Agrees s := by
  intro type' name' value' ht hk
  subst ht
  cases t with
  | declare type name value =>
    rcases examineDeclaration_cases h with ⟨hn, ht, -⟩ | ⟨-, -, -, ht⟩
    · cases ht
      exact absurd hn hk
    · cases ht
      refine ⟨rfl, fun hb n => ?_⟩
      rw [hb, if_pos (by rfl)]
      cases value with
      | none => nofun
      | some e => exact fun h => asBool_ne_int e n (Option.some.inj h)
  | assign name operator value =>
    rw [examine, Except.ok.injEq] at h
    rcases examineAssignment_cases s name operator value with ⟨-, he⟩ | ⟨-, _, -, he⟩ <;> rw [he] at h <;> cases h
  | call callee arguments kind =>
    rw [examine, Except.ok.injEq] at h
    unfold examineCall at h
    split at h <;> cases h
  | _ => cases h

/-- A declaration whose name has no concrete type is not changed. -/
theorem eq_of_examineDeclaration {type : DataType} {name : Text} {value : Option Expr}
    (h : examine s t = .ok (.declare type name value, found)) (hn : s.known name = .any) :
    t = .declare type name value := by
  have ha := (alike_of_examine h).2
  cases t <;> simp only [Stmt.head, Stmt.Alike, reduceCtorEq] at ha
  subst ha
  rcases examineDeclaration_cases h with ⟨-, ht, -⟩ | ⟨hk, -⟩
  · exact ht.symm
  · exact absurd hn hk

/-- What a rule has made stays as it is in the same scope, and proposes the same. -/
theorem examine_idem (h : examine s t = .ok (t', found)) : examine s t' = .ok (t', found) := by
  cases t with
  | declare type name value =>
    rcases examineDeclaration_cases h with ⟨-, rfl, -⟩ | ⟨hk, -, rfl, rfl⟩
    · exact h
    · -- the declaration has the type of its name now, and its value has become a truth value already
      rw [examine, examineDeclaration_of_known hk (.inr rfl)]
      split
      · cases value with
        | none => rfl
        | some e => rw [Option.map_some, Option.map_some, asBool_asBool]
      · rfl
  | assign name operator value =>
    rw [examine, Except.ok.injEq] at h
    unfold examineAssignment at h
    split at h
    · rename_i hn
      cases h
      rw [examine, examineAssignment, hn]
    · rename_i hn
      cases h
      rw [examine, examineAssignment, hn]
      simp only
      split
      · rw [asBool_asBool]
      · rfl
    · cases h
      rw [examine]
      unfold examineAssignment
      split <;> simp_all
  | call callee arguments kind =>
    rw [examine, Except.ok.injEq] at h
    unfold examineCall at h
    split at h
    · rename_i hn
      cases h
      rw [examine, examineCall, hn]
      simp only [coerceArguments_coerceArguments, uses_coerceArguments]
    · rename_i hn
      cases h
      rw [examine]
      unfold examineCall
      split
      · rename_i hn'
        exact absurd hn' (hn _ _ _)
      · rfl
  | _ =>
    cases h
    rfl

theorem examine_failsByMismatch (s : Scope) (t : Stmt) : FailsByMismatch (examine s t) := by
  cases t with
  | declare type name value =>
    rw [examine]
    unfold examineDeclaration
    simp only
    split
    · exact .ok _
    · split
      · exact .ok _
      · exact .mismatch _
  | _ => exact .ok _

end

end Typing

end MapScript
