import MapScript.Proofs.Decompile.CallArity
import MapScript.Proofs.Scope.TypedAddresses
import MapScript.Proofs.Typing.Passes

/-!
# Reachable scopes

A scope is pushed and popped, written to, and handed on: to the reading of scripts, to the passing of captured arguments and
to type inference (`ScopeUse`). Reading and inference write while they go on. If they fail, what they have written so far
stays; so a use that fails leaves one of the scopes in which it may break off (`BreaksReading`, `Typing.BreaksInference`).

Whatever a use leaves, it has only bound names and addresses on the way, each address with a type for its name. Hence all
scopes that come from a fresh one by uses have types for their addresses, and a pointer with a name is never taken for an
integer for want of a type (`pointer_cases_of_reachable`). The scope that a main script is printed in is one of them
(`reachable_of_declareMain`).
-/

namespace MapScript

/-! ### Breaking off -/

/-- A scope in which the reading of a script may break off: some of its instructions have been read, and maybe an operand of
the next one. -/
inductive BreaksReading (image : Option Overlay) (address : Int) (bytes : List UInt8) (s : Scope) : Scope → Prop
  | between {front rest : List Instruction} {items : List Item} {r : Reading} :
    instructions address bytes = front ++ rest → Conveys image ⟨s, []⟩ front items r →
    BreaksReading image address bytes s r.scope
  | within {front rest : List Instruction} {i : Instruction} {items : List Item} {r : Reading} {position : Nat} {e : Expr}
      {s' : Scope} :
    instructions address bytes = front ++ i :: rest → Conveys image ⟨s, []⟩ front items r →
    ReadsAt image i.operands r.scope position e s' → BreaksReading image address bytes s s'

namespace Typing

/-- The run over `b` from `s` comes to the block `c` and the scope `s₁` behind some of its rounds. -/
inductive SomeRound (o : Options) : Block → Scope → Block → Scope → Prop
  | first {b : Block} {s : Scope} : SomeRound o b s b s
  | again {k : Nat} {b b₁ c : Block} {s s₁ s₂ : Scope} :
    (round (nested o) o.commitPolicy b s).result = .ok (k, b₁, s₁) → SomeRound o b₁ s₁ c s₂ → SomeRound o b s c s₂

/-- A scope in which inference may break off: in some round over the block or over one inside it, the pass has come so far,
or some of its candidates have been committed. -/
inductive BreaksInference (o : Options) (b : Block) (s : Scope) : Scope → Prop
  | passing {way : List (Nat × Nat)} {front rest rest' : Block} {s₁ s' : Scope} {found : List Candidate} :
    PassOf o (SomeRound o) b s way (front ++ rest) s₁ → (pass (nested o) rest s₁).result = .ok (rest', s', found) →
    BreaksInference o b s s'
  | committing {way : List (Nat × Nat)} {c c' : Block} {s₁ s₂ s' : Scope} {front back : List Candidate}
      {resolved : Table Text DataType} {k : Nat} :
    PassOf o (SomeRound o) b s way c s₁ → (pass (nested o) c s₁).result = .ok (c', s₂, front ++ back) →
    resolve (front ++ back) = .ok resolved → commitEach o.commitPolicy resolved front s₂ = .ok (k, s') →
    BreaksInference o b s s'

section

variable {o : Options} {b c : Block} {s s₁ s' : Scope}

theorem SomeRound.grows (h : SomeRound o b s c s₁) : s.Grows s₁ := by
  induction h with
  | first => exact .refl
  | again hround _ ih => exact (grows_of_round hround).trans ih

theorem PassOf.grows {way : List (Nat × Nat)} (h : PassOf o (SomeRound o) b s way c s₁) : s.Grows s₁ := by
  induction h with
  | own hround => exact hround.grows
  | inside hround hrest _ _ hbefore _ ih =>
    exact hround.grows.trans ((grows_of_pass hrest).trans ((grows_of_settleBlocks hbefore).trans ih))

theorem BreaksInference.grows (h : BreaksInference o b s s') : s.Grows s' := by
  cases h with
  | passing hpass hrest => exact hpass.grows.trans (grows_of_pass hrest)
  | committing hpass hc hresolved hcommit =>
    have hcommits := commits_of_commitEach
      (fun _ hd => exists_get?_of_resolve hresolved (List.mem_append_left _ hd)) hcommit
    exact hpass.grows.trans ((grows_of_pass hc).trans hcommits.refines.grows)

end

end Typing

/-! ### Uses of a scope -/

/-- What can be done with a scope. -/
inductive ScopeUse
  | step (step : ScopeStep)
  | decode (image : Option Overlay) (address : Int) (bytes : List UInt8)
  | passCaptures (o : Options) (b : Block)
  | infer (o : Options) (b : Block)

namespace Scope

/-- What a use leaves of a scope, whether it succeeds or fails. Captured arguments are passed without writing to it. -/
inductive Leaves (s : Scope) : ScopeUse → Scope → Prop
  | step (step : ScopeStep) : Leaves s (.step step) (s.perform step).2
  | decode {image : Option Overlay} {address : Int} {bytes : List UInt8} {b : Block} {s' : Scope} :
    (MapScript.decode image address bytes s).result = .ok (b, s') → Leaves s (.decode image address bytes) s'
  | decodeFails {image : Option Overlay} {address : Int} {bytes : List UInt8} {e : Failure} {s' : Scope} :
    (MapScript.decode image address bytes s).result = .error e → BreaksReading image address bytes s s' →
    Leaves s (.decode image address bytes) s'
  | passCaptures {o : Options} {b : Block} : Leaves s (.passCaptures o b) s
  | infer {o : Options} {n : Nat} {b b' : Block} {s' : Scope} :
    (Typing.infer o b s).result = .ok (n, b', s') → Leaves s (.infer o b) s'
  | inferFails {o : Options} {b : Block} {e : Failure} {s' : Scope} :
    (Typing.infer o b s).result = .error e → Typing.BreaksInference o b s s' → Leaves s (.infer o b) s'

/-- The scopes that come from a fresh one by uses. -/
inductive Reachable : Scope → Prop
  | fresh : Reachable base
  | use {s s' : Scope} {use : ScopeUse} : Reachable s → s.Leaves use s' → Reachable s'

variable {s s' : Scope}

namespace TypesAddresses

theorem of_gains {P : Int → Text → DataType → Prop} (hs : s.TypesAddresses) (h : s.Gains P s') : s'.TypesAddresses := by
  induction h with
  | refl => exact hs
  | «variable» _ hb ih => exact ih.of_bindName hb
  | routine _ _ _ _ hb ih => exact ih.of_bindAddress hb

theorem of_breaksReading {image : Option Overlay} {address : Int} {bytes : List UInt8} (hs : s.TypesAddresses)
    (h : BreaksReading image address bytes s s') : s'.TypesAddresses := by
  cases h with
  | between _ hconveys => exact hs.of_gains hconveys.gains
  | within _ hconveys hreads => exact (hs.of_gains hconveys.gains).of_gains hreads.gains

theorem of_leaves {use : ScopeUse} (hs : s.TypesAddresses) (h : s.Leaves use s') : s'.TypesAddresses := by
  cases h with
  | step step => exact hs.perform step
  | decode hdecode =>
    obtain ⟨before, r', -, hconveys, rfl⟩ := decode_eq_ok_iff.1 hdecode
    exact hs.of_gains hconveys.gains
  | decodeFails _ hbreaks => exact hs.of_breaksReading hbreaks
  | passCaptures => exact hs
  | infer hinfer => exact hs.of_refines (Typing.infer_refines hinfer)
  | inferFails _ hbreaks => exact hs.of_refines hbreaks.grows

end TypesAddresses

theorem Reachable.typesAddresses (h : s.Reachable) : s.TypesAddresses := by
  induction h with
  | fresh => exact .base
  | use _ hleaves ih => exact ih.of_leaves hleaves

end Scope

/-! ### Scopes of main scripts -/

theorem Catalogue.reachable_scope (c : Catalogue) : c.scope.Reachable := by
  -- the layer is filled method by method, and may have been filled before
  suffices ∀ (es : List EntryPoint) (l : Layer), Scope.Reachable ⟨[l]⟩ →
      Scope.Reachable ⟨[es.foldl (fun l e => ⟨l.addresses.insert e.address e.name, l.names.insert e.name e.type⟩) l]⟩ from
    this c.toList .empty .fresh
  intro es
  induction es with
  | nil => exact fun l hl => hl
  | cons e es ih => exact fun l hl => ih _ (hl.use (.step (.bindAddress e.address e.name e.type)))

theorem reachable_of_declareMain {c : Catalogue} {o : Options} {m : Overlay} {d : ScriptDeclaration} {s : Scope}
    (h : (declareMain c o m).result = .ok (d, s)) : s.Reachable := by
  obtain ⟨scope, block₀, s₀, block₁, passes, hscope, hdecode, -, hinfer⟩ := phases_of_declareMain h
  cases hscope
  have hmain := c.reachable_scope.use (.step (.bindAddress m.entry.main "main" (.script [])))
  exact ((hmain.use (.step .push)).use (.decode hdecode)).use (.infer hinfer)

/-! ### Types of pointers -/

/-- In a reachable scope every layer binds the names of its addresses. So a pointer to an address with a name is found with
the type of that name, and only one to an address without a name is not found and taken for an integer. -/
theorem pointer_cases_of_reachable {s : Scope} (h : s.Reachable) :
    (∀ layer ∈ s.layers, ∀ address name, layer.addresses.get? address = some name → name ∈ layer.names.keys) ∧
    ∀ address,
      s.nameAt? address = none ∧ (Callee.pointer address).lookup? s = none ∧ (Expr.pointer address).type s = .int ∨
      ∃ name type, s.nameAt? address = some name ∧ s.typeOf? name = some type ∧
        (Callee.pointer address).lookup? s = some (name, type) ∧ (Expr.pointer address).type s = type :=
  ⟨h.typesAddresses, h.typesAddresses.pointer_cases⟩

/-- A scope that knows a method with a truth value, and an inner layer. -/
private def doorScope : Scope := (Scope.base.run [.bindAddress 32 "door" (.native [.bool]), .push]).2

/-- Calls the method at address 32 with a word of the game, and starts the script at address 48. -/
private def doorScript : List UInt8 :=
  [0, 0, 0, 0x43, 0, 0, 0, 2, 0, 0, 0, 32, 0xf5, 0xde, 0x01, 0x80, 0, 0, 0, 0x44, 0, 0, 0, 1, 0, 0, 0, 48,
    0, 0, 0, 1, 0, 0, 0, 0]

theorem pointer_cases_of_reachable_door : ∃ s, s.Reachable ∧
    (∀ layer ∈ s.layers, ∀ address name, layer.addresses.get? address = some name → name ∈ layer.names.keys) ∧
    (Expr.pointer 32).type s = .native [.bool] ∧ (Expr.pointer 48).type s = .script [] ∧
    (Callee.pointer 64).lookup? s = none := by
  have hlookups : (((decode none 0 doorScript doorScope).result.bind fun r => (Typing.infer {} r.1 r.2).result).map
      fun r => ((Callee.pointer 32).lookup? r.2.2, (Callee.pointer 48).lookup? r.2.2, r.2.2.nameAt? 64)) =
      .ok (some ("door", .native [.bool]), some (scriptName 48, .script []), none) := by
    decide +kernel
  obtain ⟨⟨n, b', s⟩, h, hlookups⟩ := exists_of_map_eq_ok hlookups
  obtain ⟨⟨b, s₀⟩, hdecode, hinfer⟩ := bind_eq_ok_iff.1 h
  have hbind := Scope.Reachable.fresh.use (.step (.bindAddress 32 "door" (.native [.bool])))
  have hdoor : doorScope.Reachable := hbind.use (.step .push)
  have hs : s.Reachable := (hdoor.use (.decode hdecode)).use (.infer hinfer)
  obtain ⟨htyped, hpointers⟩ := pointer_cases_of_reachable hs
  simp only [Prod.mk.injEq] at hlookups
  obtain ⟨hmethod, hscript, hnone⟩ := hlookups
  -- what has a name is looked up with the type that the pointer has
  have htype : ∀ {address name type}, (Callee.pointer address).lookup? s = some (name, type) →
      (Expr.pointer address).type s = type := by
    intro address name type hlookup
    rcases hpointers address with ⟨-, hno, -⟩ | ⟨_, _, -, -, hlookup', rfl⟩
    · rw [hno] at hlookup
      cases hlookup
    · rw [hlookup'] at hlookup
      exact congrArg Prod.snd (Option.some.inj hlookup)
  refine ⟨s, hs, htyped, htype hmethod, htype hscript, ?_⟩
  rcases hpointers 64 with ⟨-, hno, -⟩ | ⟨_, _, hname, -⟩
  · exact hno
  · rw [hnone] at hname
    cases hname

end MapScript
