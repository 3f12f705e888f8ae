import MapScript.Decompile
import MapScript.Proofs.Decoding.CapturedArguments
import MapScript.Proofs.Decoding.Declared
import MapScript.Proofs.Typing.Learning

/-!
# Arguments of script calls

Captured arguments are written out when a script has been read, before its types are inferred. So a call of what is a
script in the end has one argument for every parameter, unless its callee was still of unknown type at that time
(`length_arguments_of_declareMain`). That happens with variables: `spawned_without_arguments` is a script that keeps the
address of another one in a local word and starts it from there.
-/

namespace MapScript

variable {c : Catalogue} {o : Options} {m : Overlay} {d : ScriptDeclaration} {s s₀ : Scope}

/-- What the phases before type inference have made of a map, and what is inferred from it. -/
theorem phases_of_declareMain (h : (declareMain c o m).result = .ok (d, s)) :
    ∃ scope block₀ s₀ block₁ passes, mainScope c m.entry.main = .ok scope ∧
      (decode (some m) m.entry.main m.mainBytes scope).result = .ok (block₀, s₀) ∧
      Block.passCaptures o s₀ block₀ = .ok block₁ ∧ (Typing.infer o block₁ s₀).result = .ok (passes, d.body, s) := by
  obtain ⟨scope, hscope, h⟩ := Logged.result_bind_eq_ok_iff.1 h
  obtain ⟨⟨block₀, s₀⟩, hdecode, h⟩ := Logged.result_bind_eq_ok_iff.1 h
  obtain ⟨block₁, hpass, h⟩ := Logged.result_bind_eq_ok_iff.1 h
  obtain ⟨⟨passes, block₂, s₂⟩, hinfer, h⟩ := Logged.result_bind_eq_ok_iff.1 h
  obtain ⟨_, -, h⟩ := Logged.result_bind_eq_ok_iff.1 h
  cases h
  refine ⟨scope, block₀, s₀, block₁, passes, hscope, ?_, hpass, hinfer⟩
  rw [Logged.mapError] at hdecode
  cases hr : (decode (some m) m.entry.main m.mainBytes scope).result with
  | error e => rw [hr] at hdecode; cases hdecode
  | ok r => rw [hr] at hdecode; cases hdecode; rfl

section

variable {block₀ block₁ block₂ : Block} {passes : Nat}

/-- A call in the inferred tree has as many arguments as its callee had parameters when captured arguments were written
out. -/
private theorem length_arguments_of_phases (hpass : Block.passCaptures o s₀ block₀ = .ok block₁)
    (hinfer : (Typing.infer o block₁ s₀).result = .ok (passes, block₂, s)) {callee : Callee} {arguments : List Expr}
    {kind : CallKind} (hc : .call callee arguments kind ∈ Block.statements block₂) {name : Text}
    {parameters : List DataType} (hl : callee.lookup? s₀ = some (name, .callable .script parameters)) :
    arguments.length = parameters.length := by
  obtain ⟨t₁, ht₁, halike, -⟩ := (Typing.infer_rewrites hinfer).exists_of_mem hc
  obtain ⟨t₀, ht₀, hcaptures, -⟩ := (passCaptures_rewrites hpass).exists_of_mem ht₁
  obtain ⟨arguments₁, ht₁, hlength⟩ := halike.eq_call
  rw [ht₁] at hcaptures
  have hcall : ∃ arguments₀, t₀.head = .call callee arguments₀ kind := by
    rcases passCaptures_cases hcaptures with he | ⟨_, arguments₀, _, _, he, he'⟩
    · cases t₀ <;> cases he
      exact ⟨_, rfl⟩
    · cases he'
      exact ⟨arguments₀, he⟩
  obtain ⟨arguments₀, ht₀⟩ := hcall
  rw [ht₀] at hcaptures
  obtain ⟨_, hcall, hparameters⟩ := passCaptures_call hcaptures
  cases hcall
  rw [← hlength, hparameters hl]

end

/-- In the declaration of a map, a call of what is a script in the resulting scope has one argument for every parameter,
or its callee had no known type yet when the map had been read. -/
theorem length_arguments_of_declareMain (h : (declareMain c o m).result = .ok (d, s)) :
    ∃ scope block₀ s₀, mainScope c m.entry.main = .ok scope ∧
      (decode (some m) m.entry.main m.mainBytes scope).result = .ok (block₀, s₀) ∧
      ∀ {callee arguments kind name parameters}, .call callee arguments kind ∈ Block.statements d.body →
        callee.lookup? s = some (name, .callable .script parameters) →
        arguments.length = parameters.length ∨ callee.lookup? s₀ = some (name, .any) := by
  obtain ⟨scope, block₀, s₀, block₁, passes, hscope, hdecode, hpass, hinfer⟩ := phases_of_declareMain h
  refine ⟨scope, block₀, s₀, hscope, hdecode, ?_⟩
  intro callee arguments kind name parameters hc hl
  have hs := Typing.infer_refines hinfer
  -- inference gives no names to addresses, so that the callee has its name from before
  have hname : callee.name? s = callee.name? s₀ := by
    cases callee with
    | pointer address => exact hs.nameAt?_eq address
    | _ => rfl
  obtain ⟨name', hn, hl⟩ := Option.bind_eq_some_iff.1 hl
  obtain ⟨type, htype, hl⟩ := Option.map_eq_some_iff.1 hl
  cases hl
  have hlookup : ∀ {type}, s₀.typeOf? name = some type → callee.lookup? s₀ = some (name, type) := by
    intro type ht
    rw [Callee.lookup?, ← hname, hn, Option.bind_some, ht, Option.map_some]
  rcases hs.typeOf?_eq_or name with he | ⟨hlearn, hunknown, -⟩
  · rw [he] at htype
    exact .inl (length_arguments_of_phases hpass hinfer hc (hlookup htype))
  · refine .inr (hlookup ?_)
    rcases hlearn.2 with ⟨type, value, hd⟩ | hn
    · -- a declared name is bound, and so it is bound to the wildcard if it has no type
      have hbound := isSome_of_decode hdecode (declared_before hpass hd)
      obtain ⟨type, ht⟩ := Option.isSome_iff_exists.1 hbound
      rw [Scope.known, ht, Option.getD_some] at hunknown
      subst hunknown
      exact Scope.typeOf?_of_currentType? ht
    · exact hn

/-! ### A script that is started from a variable -/

private def bytesOfWords (ws : List UInt32) : List UInt8 :=
  ws.flatMap fun (w : UInt32) => [(w >>> 24).toUInt8, (w >>> 16).toUInt8, (w >>> 8).toUInt8, w.toUInt8]

/-- The main script starts another one, keeps its address in a local word and starts it from there. The other one waits
for as long as the second local word of its caller says. -/
def spawningMap : Overlay where
  entry := ⟨"map", 0, 68, 0x80240000, 0x80240000⟩
  data := bytesOfWords
    [0x44, 1, 0x80240030, 0x24, 2, 0xfe363c80, 0x80240030, 0x44, 1, 0xfe363c80, 0x01, 0,
      0x08, 1, 0xfe363c81, 0x01, 0]

/-- Whether some call has another number of arguments than the script that it calls has parameters. -/
private def lacksArguments : Except Failure (ScriptDeclaration × Scope) → Bool
  | .error _ => false
  | .ok (d, s) => (Block.statements d.body).any fun
    | .call callee arguments _ =>
      match callee.lookup? s with
      | some (_, .callable .script parameters) => arguments.length ≠ parameters.length
      | _ => false
    | _ => false

private theorem exists_of_lacksArguments {x : Except Failure (ScriptDeclaration × Scope)} (h : lacksArguments x = true) :
    ∃ d s callee arguments kind name parameters, x = .ok (d, s) ∧
      .call callee arguments kind ∈ Block.statements d.body ∧
      callee.lookup? s = some (name, .callable .script parameters) ∧ arguments.length ≠ parameters.length := by
  cases x with
  | error e => cases h
  | ok r =>
    obtain ⟨d, s⟩ := r
    obtain ⟨t, ht, h⟩ := List.any_eq_true.1 h
    split at h
    · split at h
      · rename_i hl
        exact ⟨d, s, _, _, _, _, _, rfl, ht, hl, of_decide_eq_true h⟩
      · cases h
    · cases h

private theorem lacksArguments_spawningMap : lacksArguments (declareMain .empty {} spawningMap).result = true := by
  decide +kernel

/-- The script that is started from the variable gets no arguments, though it has two parameters in the end. -/
theorem spawned_without_arguments : ∃ d s callee arguments kind name parameters,
    (declareMain .empty {} spawningMap).result = .ok (d, s) ∧ .call callee arguments kind ∈ Block.statements d.body ∧
      callee.lookup? s = some (name, .callable .script parameters) ∧ arguments.length ≠ parameters.length :=
  exists_of_lacksArguments lacksArguments_spawningMap

/-- The callee of that call was a variable of unknown type when the map had been read. -/
theorem spawned_from_variable : ∃ d s, (declareMain .empty {} spawningMap).result = .ok (d, s) ∧
    ∃ scope block₀ s₀, mainScope .empty spawningMap.entry.main = .ok scope ∧
      (decode (some spawningMap) spawningMap.entry.main spawningMap.mainBytes scope).result = .ok (block₀, s₀) ∧
      ∃ callee arguments kind name, .call callee arguments kind ∈ Block.statements d.body ∧
        callee.lookup? s₀ = some (name, .any) := by
  obtain ⟨d, s, callee, arguments, kind, name, parameters, h, hc, hl, hne⟩ :=
    exists_of_lacksArguments lacksArguments_spawningMap
  obtain ⟨scope, block₀, s₀, hscope, hdecode, hall⟩ := length_arguments_of_declareMain h
  exact ⟨d, s, h, scope, block₀, s₀, hscope, hdecode, callee, arguments, kind, name, hc, (hall hc hl).resolve_left hne⟩

end MapScript
