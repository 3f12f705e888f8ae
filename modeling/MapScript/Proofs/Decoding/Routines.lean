import MapScript.Proofs.Decoding.Bindings

/-!
# Routines that scripts call

A scope is prepared for a script when its addresses have the names of routines and no name is that of a variable.
Reading a script then leaves every routine that it calls by an address with a signature, and changes nothing that was
known of other names (`routines_of_decode`).

An address without a name gets one from the first instruction that calls it, with the signature of that call. Behind it
the address is bound (`Says.isSome_of_calls`), so nothing in front of it has called the address, and nothing behind it
changes the signature (`Conveys.exists_firstCall`).
-/

namespace MapScript

namespace Scope

/-- Addresses have names of routines. -/
def NamesRoutines (s : Scope) : Prop := ∀ {address : Int} {name : Text}, s.nameAt? address = some name →
  (∃ convention parameters, s.typeOf? name = some (.callable convention parameters)) ∧ ∀ v : Variable, name ≠ v.name

/-- Addresses keep having names of routines, also where a new routine takes the name of an old one. -/
theorem Gains.namesRoutines {P : Int → Text → DataType → Prop} {s s' : Scope} (h : Gains P s s') (hs : s.NamesRoutines) :
    s'.NamesRoutines := by
  induction h with
  | refl => exact hs
  | «variable» _ hb ih =>
    intro address name hname
    rw [nameAt?_bindName hb] at hname
    obtain ⟨hcallable, hne⟩ := ih hname
    refine ⟨?_, hne⟩
    rw [typeOf?_bindName hb, if_neg (hne _).symm]
    exact hcallable
  | @routine s₁ s₂ other given type _ _ hroutine _ hb ih =>
    have hgiven : ∃ convention parameters, s₂.typeOf? given = some (.callable convention parameters) := by
      obtain ⟨convention, parameters, rfl⟩ := hroutine.isCallable
      exact ⟨convention, parameters, by rw [typeOf?_bindAddress hb, if_pos rfl]⟩
    intro address name hname
    rw [nameAt?_bindAddress hb] at hname
    by_cases hsame : given = name
    · subst hsame
      exact ⟨hgiven, hroutine.isRoutineName.ne_variable⟩
    · have hother : other ≠ address := by
        rintro rfl
        rw [if_pos rfl, Option.some.injEq] at hname
        exact hsame hname
      rw [if_neg hother] at hname
      obtain ⟨hcallable, hne⟩ := ih hname
      refine ⟨?_, hne⟩
      rw [typeOf?_bindAddress hb, if_neg hsame]
      exact hcallable

end Scope

/-! ### The first call of a routine -/

section

variable {image : Option Overlay} {r r' : Reading}

private theorem Calls.exists_target {ws : List Int32} {op : Opcode} {address : Int} {name : Text} {type : DataType}
    (h : Calls image ws op address name type) : op.isCall = true ∧
      ∃ w, ws[0]? = some w ∧ IsAddress w ∧ unsigned w = address := by
  cases h with
  | method hw haddress => exact ⟨rfl, _, hw, haddress, rfl⟩
  | script hop hw haddress => exact ⟨by rcases hop with rfl | rfl <;> rfl, _, hw, haddress, rfl⟩

/-- Where an instruction calls an address, the address has a name behind it. -/
theorem Says.isSome_of_calls {ws : List Int32} {op : Opcode} {item : Item} (h : Says image ws r op item r') {address : Int}
    {name : Text} {type : DataType} (hcalls : Calls image ws op address name type) :
    (r'.scope.nameAt? address).isSome := by
  obtain ⟨hop, w, hw, haddress, rfl⟩ := hcalls.exists_target
  obtain ⟨callee, arguments, kind, target, -, ht, hresolves⟩ := h.exists_call hop
  rw [hw, Option.some.injEq] at ht
  subst ht
  cases hresolves with
  | «variable» hv => exact absurd hv (haddress _)
  | address _ hname => rw [hname]; rfl

/-- An address that gets a name gets it in its first call, together with a signature that stays. -/
theorem Conveys.exists_firstCall {is : List Instruction} {items : List Item} (h : Conveys image r is items r')
    {address : Int} {name : Text} (hnone : r.scope.nameAt? address = none)
    (hname : r'.scope.nameAt? address = some name) : ∃ front i back type, is = front ++ i :: back ∧
      i.Calls image address name type ∧ (∀ j ∈ front, ¬∃ name type, j.Calls image address name type) ∧
      r'.scope.typeOf? name = some type := by
  induction h with
  | nil r =>
    rw [hnone] at hname
    cases hname
  | @cons r r₁ r' i rest item items hsaid hrest ih =>
    obtain ⟨op, hop, hsaid⟩ := hsaid
    cases hbehind : r₁.scope.nameAt? address with
    | some given =>
      -- the first instruction is the one that calls
      have hgiven := hrest.gains.nameAt?_eq hbehind
      rw [hname, Option.some.injEq] at hgiven
      subst hgiven
      rcases hsaid.gains.nameAt?_cases hbehind with hbefore | ⟨-, type, hcalls, hroutine, htype⟩
      · rw [hnone] at hbefore
        cases hbefore
      · refine ⟨[], i, rest, type, rfl, ⟨op, hop, hcalls⟩, nofun, ?_⟩
        rw [hrest.gains.typeOf?_of_routine hroutine hbehind, htype]
    | none =>
      obtain ⟨front, j, back, type, rfl, hcalls, hfront, htype⟩ := ih hbehind hname
      refine ⟨i :: front, j, back, type, rfl, hcalls, List.forall_mem_cons.2 ⟨?_, hfront⟩, htype⟩
      rintro ⟨given, type', op', hop', hcalls'⟩
      rw [hop, Option.some.injEq] at hop'
      subst hop'
      have hbound := hsaid.isSome_of_calls hcalls'
      rw [hbehind] at hbound
      cases hbound

/-- What a line calls by its address has a name behind the line. -/
theorem Conveys.isSome_of_call {is : List Instruction} {items : List Item} (h : Conveys image r is items r') {address : Int}
    {arguments : List Expr} {kind : CallKind} (hi : .simple (.call (.pointer address) arguments kind) rfl ∈ items) :
    (r'.scope.nameAt? address).isSome := by
  have hall : ∀ item ∈ items, ∀ {address arguments kind}, item = .simple (.call (.pointer address) arguments kind) rfl →
      (r'.scope.nameAt? address).isSome := by
    refine Conveys.forall_items (P := fun item s => ∀ {address arguments kind},
      item = .simple (.call (.pointer address) arguments kind) rfl → (s.nameAt? address).isSome) ?_ ?_ h
    · rintro i r r' item ⟨op, hop, hsaid⟩ address arguments kind rfl
      obtain ⟨_, _, _, target, hitem, -, hresolves⟩ := hsaid.exists_call hsaid.isCall
      cases hitem
      cases hresolves with
      | address _ hname => rw [hname]; rfl
    · intro item s s' Q hgains hP address arguments kind hitem
      obtain ⟨name, hname⟩ := Option.isSome_iff_exists.1 (hP hitem)
      rw [hgains.nameAt?_eq hname]
      rfl
  exact hall _ hi rfl

end

/-! ### Reading a script in a prepared scope -/

/-- A scope in which addresses have names of routines, and no name is that of a variable. -/
structure Scope.IsPrepared (s : Scope) : Prop where
  callable : ∀ {address name}, s.nameAt? address = some name →
    ∃ convention parameters, s.typeOf? name = some (.callable convention parameters)
  unbound : ∀ v : Variable, s.typeOf? v.name = none

theorem Scope.IsPrepared.namesRoutines {s : Scope} (h : s.IsPrepared) : s.NamesRoutines := by
  intro address name hname
  obtain ⟨convention, parameters, htype⟩ := h.callable hname
  refine ⟨⟨convention, parameters, htype⟩, ?_⟩
  rintro v rfl
  rw [h.unbound v] at htype
  cases htype

/-- What instructions that are read one behind the other make of a scope, as far as routines go. -/
structure Scope.LearnsRoutines (image : Option Overlay) (is : List Instruction) (s s' : Scope) : Prop where
  /-- The outer layers stay. -/
  outer : s'.layers.tail = s.layers.tail
  /-- Addresses keep their names. -/
  known : ∀ {address name}, s.nameAt? address = some name → s'.nameAt? address = some name
  /-- Names keep their types, unless a routine at some address may have them. -/
  typed : ∀ {name type}, s.typeOf? name = some type → (∀ w, ¬IsRoutineName (unsigned w) name) →
    s'.typeOf? name = some type
  /-- What is new at an address comes from the first instruction that calls it. -/
  called : ∀ {address name}, s.nameAt? address = none → s'.nameAt? address = some name →
    ∃ front i back type, is = front ++ i :: back ∧ i.Calls image address name type ∧
      (∀ j ∈ front, ¬∃ name type, j.Calls image address name type) ∧ s'.typeOf? name = some type
  /-- Routines that are new have names of their own. -/
  apart : ∀ {address address' name}, s.nameAt? address = none → s'.nameAt? address = some name →
    s.nameAt? address' = none → s'.nameAt? address' = some name → address = address'

theorem Conveys.learnsRoutines {image : Option Overlay} {r r' : Reading} {is : List Instruction} {items : List Item}
    (h : Conveys image r is items r') (hr : ∀ v : Variable, r.scope.typeOf? v.name = none) :
    r.scope.LearnsRoutines image is r'.scope where
  outer := h.gains.tail_eq
  known := h.gains.nameAt?_eq
  typed {name type} htype hname := by
    have hvariable : ∀ v : Variable, name ≠ v.name := by
      rintro v rfl
      rw [hr v] at htype
      cases htype
    rw [h.gains.typeOf?_eq hvariable fun w hroutine => absurd hroutine (hname w), htype]
  called := h.exists_firstCall
  apart {address address' name} hnone hname hnone' hname' := by
    obtain ⟨_, i, _, type, -, ⟨_, _, hcalls⟩, -⟩ := h.exists_firstCall hnone hname
    obtain ⟨_, i', _, type', -, ⟨_, _, hcalls'⟩, -⟩ := h.exists_firstCall hnone' hname'
    have hroutine := hcalls.isRoutine
    have hroutine' := hcalls'.isRoutine
    exact hroutine.isRoutineName.address_eq hroutine.nonneg hroutine'.nonneg hroutine'.isRoutineName

/-- Reading a script in a prepared scope teaches the scope its routines, and every call at any depth of the tree is then
of something that has a signature, if it is by an address. -/
theorem routines_of_decode {image : Option Overlay} {address : Int} {bytes : List UInt8} {s s' : Scope} {b : Block}
    (hs : s.IsPrepared) (h : (decode image address bytes s).result = .ok (b, s')) :
    (∃ before, beforeFinish? (instructions address bytes) = some before ∧ s.LearnsRoutines image before s') ∧
      ∀ {target arguments kind}, .call (.pointer target) arguments kind ∈ Block.statements b →
        ∃ name convention parameters,
          (Callee.pointer target).lookup? s' = some (name, .callable convention parameters) := by
  obtain ⟨before, r', hbefore, hconveys, rfl⟩ := decode_eq_ok_iff.1 h
  refine ⟨⟨before, hbefore, hconveys.learnsRoutines hs.unbound⟩, ?_⟩
  intro target arguments kind hcall
  have hitem : .simple (.call (.pointer target) arguments kind) rfl ∈ Block.items b :=
    Block.items_subset hcall (List.mem_singleton_self _)
  obtain ⟨name, hname⟩ := Option.isSome_iff_exists.1 (hconveys.isSome_of_call hitem)
  obtain ⟨⟨convention, parameters, htype⟩, -⟩ := hconveys.gains.namesRoutines hs.namesRoutines hname
  refine ⟨name, convention, parameters, ?_⟩
  rw [Callee.lookup?, Callee.name?, hname, Option.bind_some, htype, Option.map_some]

/-- A scope that knows the method at address 16. -/
private def preparedScope : Scope :=
  ⟨[⟨Table.empty.insert 16 (methodName 16), Table.empty.insert (methodName 16) (.native [.any])⟩]⟩

private theorem isPrepared_preparedScope : preparedScope.IsPrepared where
  callable {address name} hname := by
    have hmethod : name = methodName 16 := by
      by_cases ha : 16 = address
      · simpa [preparedScope, Scope.nameAt?, ha, eq_comm] using hname
      · simp [preparedScope, Scope.nameAt?, ha] at hname
    subst hmethod
    exact ⟨_, _, by simp [preparedScope, Scope.typeOf?]; rfl⟩
  unbound v := by
    have hne : methodName 16 ≠ v.name := IsRoutineName.ne_variable (.inl rfl) v
    simp [preparedScope, Scope.typeOf?, hne]

/-- A map whose only script waits for as long as its first local word says. -/
private def waitingMap : Overlay :=
  ⟨⟨"map", 0, 20, 0x80240000, 0x80240000⟩,
    [0, 0, 0, 0x08, 0, 0, 0, 1, 0xfe, 0x36, 0x3c, 0x80, 0, 0, 0, 1, 0, 0, 0, 0]⟩

/-- Calls the method at address 16, the one at 32 with two arguments, starts the script of the map, and calls the method
at 32 without arguments. -/
private def callingScript : List UInt8 :=
  [0, 0, 0, 0x43, 0, 0, 0, 1, 0, 0, 0, 16,
    0, 0, 0, 0x43, 0, 0, 0, 3, 0, 0, 0, 32, 0, 0, 0, 1, 0, 0, 0, 2,
    0, 0, 0, 0x44, 0, 0, 0, 1, 0x80, 0x24, 0, 0,
    0, 0, 0, 0x43, 0, 0, 0, 1, 0, 0, 0, 32, 0, 0, 0, 1, 0, 0, 0, 0]

theorem routines_of_decode_calling : preparedScope.IsPrepared ∧
    ∃ b s', (decode (some waitingMap) 0 callingScript preparedScope).result = .ok (b, s') ∧
      ((∃ before, beforeFinish? (instructions 0 callingScript) = some before ∧
          preparedScope.LearnsRoutines (some waitingMap) before s') ∧
        ∀ {target arguments kind}, .call (.pointer target) arguments kind ∈ Block.statements b →
          ∃ name convention parameters,
            (Callee.pointer target).lookup? s' = some (name, .callable convention parameters)) ∧
      (Callee.pointer 32).lookup? s' = some (methodName 32, .native [.any, .any]) ∧
      (Callee.pointer 0x80240000).lookup? s' = some (scriptName 0x80240000, .script [.any]) := by
  have hlookups : (decode (some waitingMap) 0 callingScript preparedScope).result.map (fun r =>
      ((Callee.pointer 32).lookup? r.2, (Callee.pointer 0x80240000).lookup? r.2)) =
      .ok (some (methodName 32, .native [.any, .any]), some (scriptName 0x80240000, .script [.any])) := by
    decide +kernel
  obtain ⟨⟨b, s'⟩, h, hlookups⟩ := exists_of_map_eq_ok hlookups
  obtain ⟨hmethod, hscript⟩ := Prod.mk.inj hlookups
  exact ⟨isPrepared_preparedScope, b, s', h, routines_of_decode isPrepared_preparedScope h, hmethod, hscript⟩

end MapScript
