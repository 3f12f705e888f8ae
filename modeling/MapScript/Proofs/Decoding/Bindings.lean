import MapScript.Proofs.Decoding.Acceptance
import MapScript.Proofs.Operand.Names
import MapScript.Proofs.Scope.Binding

/-!
# What instructions bind

A scope gains variables and routines while a script is read, and nothing else (`Says.gains`, `Conveys.gains`). A variable
has the type of its storage class. A routine is what an instruction calls at an address that has no name; it gets a name
of its own and the signature of that call (`Calls`).

So addresses keep their names, and names their types unless they are those of variables or of new routines
(`Gains.typeOf?_eq`). What is new at an address comes from a call of it (`Gains.nameAt?_cases`).
-/

namespace MapScript

/-- Words that the script at an address captures as its parameters, none if it lies outside the map image. -/
def captureCount (image : Option Overlay) (address : Int) : Nat :=
  match image.bind (·.read? address) with
  | some bytes => (capturedWords address bytes).toNat
  | none => 0

/-- Whether the operation calls a native method or a script. -/
def Opcode.isCall : Opcode → Bool
  | call | exec | execWait => true
  | _ => false

/-- The operation with these operands calls the routine at an address, and takes it to have a name and a signature as
long as nothing else is known. -/
inductive Calls (image : Option Overlay) (ws : List Int32) : Opcode → Int → Text → DataType → Prop
  | method {w : Int32} : ws[0]? = some w → IsAddress w →
    Calls image ws .call (unsigned w) (methodName (unsigned w)) (.native (.replicate (ws.length - 1) .any))
  | script {op : Opcode} {w : Int32} : op = .exec ∨ op = .execWait → ws[0]? = some w → IsAddress w →
    Calls image ws op (unsigned w) (scriptName (unsigned w)) (.script (.replicate (captureCount image (unsigned w)) .any))

/-- The routine at an address, by its name and its type. -/
structure IsRoutine (address : Int) (name : Text) (type : DataType) : Prop where
  isAddress : ∃ w, IsAddress w ∧ unsigned w = address
  isRoutineName : IsRoutineName address name
  isCallable : ∃ convention parameters, type = .callable convention parameters

theorem IsRoutine.nonneg {address : Int} {name : Text} {type : DataType} (h : IsRoutine address name type) :
    0 ≤ address := by
  obtain ⟨w, -, rfl⟩ := h.isAddress
  exact unsigned_nonneg w

theorem Calls.isRoutine {image : Option Overlay} {ws : List Int32} {op : Opcode} {address : Int} {name : Text}
    {type : DataType} (h : Calls image ws op address name type) : IsRoutine address name type := by
  cases h with
  | method _ hw => exact ⟨⟨_, hw, rfl⟩, .inl rfl, _, _, rfl⟩
  | script _ _ hw => exact ⟨⟨_, hw, rfl⟩, .inr rfl, _, _, rfl⟩

namespace Scope

/-- Variables are bound to the types of their storage classes, and addresses without a name to routines with the property
`P`, one behind the other. -/
inductive Gains (P : Int → Text → DataType → Prop) (s : Scope) : Scope → Prop
  | refl : Gains P s s
  | variable {s₁ s₂ : Scope} {v : Variable} : Gains P s s₁ → s₁.bindName v.name v.initialType = .ok s₂ → Gains P s s₂
  | routine {s₁ s₂ : Scope} {address : Int} {name : Text} {type : DataType} : Gains P s s₁ → P address name type →
    IsRoutine address name type → s₁.nameAt? address = none → s₁.bindAddress address name type = .ok s₂ → Gains P s s₂

/-- Only variables are gained. -/
abbrev GainsVariables (s s' : Scope) : Prop := Gains (fun _ _ _ => False) s s'

namespace Gains

variable {P Q : Int → Text → DataType → Prop} {s s₁ s' : Scope}

theorem trans (h : Gains P s s₁) (h' : Gains P s₁ s') : Gains P s s' := by
  induction h' with
  | refl => exact h
  | «variable» _ hb ih => exact .variable ih hb
  | routine _ hP hroutine hnone hb ih => exact .routine ih hP hroutine hnone hb

theorem mono (hPQ : ∀ address name type, P address name type → Q address name type) (h : Gains P s s') : Gains Q s s' := by
  induction h with
  | refl => exact .refl
  | «variable» _ hb ih => exact .variable ih hb
  | routine _ hP hroutine hnone hb ih => exact .routine ih (hPQ _ _ _ hP) hroutine hnone hb

theorem of_variables (h : GainsVariables s s') : Gains P s s' := h.mono fun _ _ _ => False.elim

theorem tail_eq (h : Gains P s s') : s'.layers.tail = s.layers.tail := by
  induction h with
  | refl => rfl
  | «variable» _ hb ih => rw [tail_bindName hb, ih]
  | routine _ _ _ _ hb ih => rw [tail_bindAddress hb, ih]

theorem depth_eq (h : Gains P s s') : s'.depth = s.depth := by
  induction h with
  | refl => rfl
  | «variable» _ hb ih => rw [depth_bindName hb, ih]
  | routine _ _ _ _ hb ih => rw [depth_bindAddress hb, ih]

/-! #### Addresses -/

/-- An address keeps its name. -/
theorem nameAt?_eq (h : Gains P s s') {address : Int} {name : Text} (hn : s.nameAt? address = some name) :
    s'.nameAt? address = some name := by
  induction h with
  | refl => exact hn
  | «variable» _ hb ih => rw [nameAt?_bindName hb, ih]
  | @routine s₁ s₂ other _ _ _ _ _ hnone hb ih =>
    have hne : other ≠ address := by
      rintro rfl
      rw [ih] at hnone
      cases hnone
    rw [nameAt?_bindAddress hb, if_neg hne, ih]

theorem nameAt?_eq_none (h : Gains P s s') {address : Int} (hn : s'.nameAt? address = none) :
    s.nameAt? address = none := by
  cases hs : s.nameAt? address with
  | none => rfl
  | some name =>
    rw [h.nameAt?_eq hs] at hn
    cases hn

/-! #### Names -/

/-- A name keeps its type unless it is that of a variable or of a routine that is new. -/
theorem typeOf?_eq (h : Gains P s s') {name : Text} (hvariable : ∀ v : Variable, name ≠ v.name)
    (hroutine : ∀ w, IsRoutineName (unsigned w) name → s.nameAt? (unsigned w) ≠ none) :
    s'.typeOf? name = s.typeOf? name := by
  induction h with
  | refl => rfl
  | «variable» _ hb ih => rw [typeOf?_bindName hb, if_neg (hvariable _).symm, ih]
  | @routine s₁ s₂ address other _ h₁ _ hr hnone hb ih =>
    have hne : other ≠ name := by
      rintro rfl
      obtain ⟨w, -, rfl⟩ := hr.isAddress
      exact hroutine w hr.isRoutineName (h₁.nameAt?_eq_none hnone)
    rw [typeOf?_bindAddress hb, if_neg hne, ih]

/-- The type of a routine stays. -/
theorem typeOf?_of_routine (h : Gains P s s') {address : Int} {name : Text} {type : DataType}
    (hr : IsRoutine address name type) (hn : s.nameAt? address = some name) : s'.typeOf? name = s.typeOf? name := by
  refine h.typeOf?_eq hr.isRoutineName.ne_variable fun w hname hnone => ?_
  have haddress := hr.isRoutineName.address_eq hr.nonneg (unsigned_nonneg w) hname
  rw [← haddress, hn] at hnone
  cases hnone

/-- A name that is bound remains so. -/
theorem isSome_typeOf? (h : Gains P s s') {name : Text} (hn : (s.typeOf? name).isSome) : (s'.typeOf? name).isSome := by
  induction h with
  | refl => exact hn
  | «variable» _ hb ih =>
    rw [typeOf?_bindName hb]
    split
    · rfl
    · exact ih
  | routine _ _ _ _ hb ih =>
    rw [typeOf?_bindAddress hb]
    split
    · rfl
    · exact ih

/-- A variable keeps its type in the innermost layer. -/
theorem currentType?_variable (h : Gains P s s') {v : Variable} (hv : s.currentType? v.name = some v.initialType) :
    s'.currentType? v.name = some v.initialType := by
  induction h with
  | refl => exact hv
  | @«variable» s₁ s₂ other _ hb ih =>
    rw [currentType?_bindName hb]
    split
    · rename_i hname
      rw [Variable.name_injective hname]
    · exact ih
  | routine _ _ hr _ hb ih => rw [currentType?_bindAddress hb, if_neg (hr.isRoutineName.ne_variable v), ih]

/-- The name of an address was there before, or its routine is new. -/
theorem nameAt?_cases (h : Gains P s s') {address : Int} {name : Text} (hn : s'.nameAt? address = some name) :
    s.nameAt? address = some name ∨
      s.nameAt? address = none ∧ ∃ type, P address name type ∧ IsRoutine address name type ∧
        s'.typeOf? name = some type := by
  induction h with
  | refl => exact .inl hn
  | @«variable» s₁ s₂ v _ hb ih =>
    rw [nameAt?_bindName hb] at hn
    refine (ih hn).imp_right ?_
    rintro ⟨hnone, type, hP, hr, htype⟩
    refine ⟨hnone, type, hP, hr, ?_⟩
    rw [typeOf?_bindName hb, if_neg (hr.isRoutineName.ne_variable v).symm, htype]
  | @routine s₁ s₂ other given type h₁ hP hr hnone hb ih =>
    rw [nameAt?_bindAddress hb] at hn
    by_cases ho : other = address
    · subst ho
      rw [if_pos rfl, Option.some.injEq] at hn
      subst hn
      refine .inr ⟨h₁.nameAt?_eq_none hnone, type, hP, hr, ?_⟩
      rw [typeOf?_bindAddress hb, if_pos rfl]
    · rw [if_neg ho] at hn
      refine (ih hn).imp_right ?_
      rintro ⟨hbefore, type', hP', hr', htype⟩
      refine ⟨hbefore, type', hP', hr', ?_⟩
      have hne : given ≠ name := by
        rintro rfl
        exact ho (hr.isRoutineName.address_eq hr.nonneg hr'.nonneg hr'.isRoutineName)
      rw [typeOf?_bindAddress hb, if_neg hne, htype]

end Gains

end Scope

/-! ### Operands -/

section

variable {image : Option Overlay} {s s' : Scope}

theorem gains_of_meet {v : Variable} (h : s.meet v = .ok s') : s.GainsVariables s' := by
  unfold Scope.meet at h
  split at h
  · cases h
    exact .refl
  · exact .variable .refl h

theorem isSome_of_meet {v : Variable} (h : s.meet v = .ok s') : (s'.typeOf? v.name).isSome := by
  unfold Scope.meet at h
  split at h
  · rename_i type htype
    cases h
    rw [htype]
    rfl
  · rw [Scope.typeOf?_bindName h, if_pos rfl]
    rfl

theorem gains_of_readExpr {w : Int32} {e : Expr} (h : readExpr image w s = .ok (e, s')) : s.GainsVariables s' := by
  unfold readExpr at h
  split at h
  · cases h
    exact .refl
  · split at h
    · cases h
      exact .refl
    · cases h
      exact .refl
    · split at h
      · cases h
        exact .refl
      · obtain ⟨s₁, hs₁, h⟩ := bind_eq_ok_iff.1 h
        cases h
        exact gains_of_meet hs₁

theorem gains_of_readExprs {ws : List Int32} {es : List Expr} (h : readExprs image ws s = .ok (es, s')) :
    s.GainsVariables s' ∧ es.length = ws.length := by
  induction ws generalizing s es with
  | nil =>
    cases h
    exact ⟨.refl, rfl⟩
  | cons w rest ih =>
    obtain ⟨⟨e, s₁⟩, he, h⟩ := bind_eq_ok_iff.1 h
    obtain ⟨⟨es, s₂⟩, hes, h⟩ := bind_eq_ok_iff.1 h
    cases h
    obtain ⟨hgains, hlength⟩ := ih hes
    exact ⟨(gains_of_readExpr he).trans hgains, congrArg (· + 1) hlength⟩

/-- What a word calls, in the scope behind the call: a variable by its name, or the routine at an address that has one. -/
inductive Resolves (target : Int32) (s' : Scope) : Callee → Prop
  | variable {v : Variable} : Operand.ofInt target.toInt = .variable v → Resolves target s' (.named v.name)
  | address {name : Text} : IsAddress target → s'.nameAt? (unsigned target) = some name →
    Resolves target s' (.pointer (unsigned target))

/-- A routine without a name gets one when it is called. -/
private theorem Calls.gains {ws : List Int32} {op : Opcode} {target : Int32} {name : Text} {type : DataType}
    (h : Calls image ws op (unsigned target) name type) (hnone : s.nameAt? (unsigned target) = none)
    (hb : s.bindAddress (unsigned target) name type = .ok s') : s.Gains (Calls image ws op) s' ∧
      s'.nameAt? (unsigned target) = some name := by
  refine ⟨.routine .refl h h.isRoutine hnone hb, ?_⟩
  rw [Scope.nameAt?_bindAddress hb, if_pos rfl]

variable (image) in
theorem gains_of_readMethod {ws : List Int32} {target : Int32} {c : Callee} (ht : ws[0]? = some target)
    (h : readMethod target (ws.length - 1) s = .ok (c, s')) : s.Gains (Calls image ws .call) s' ∧ Resolves target s' c := by
  unfold readMethod at h
  split at h
  · rename_i v hv
    cases h
    exact ⟨.refl, .variable hv⟩
  · rename_i hv
    simp only at h
    split at h
    · rename_i name hname
      cases h
      exact ⟨.refl, .address hv hname⟩
    · rename_i hnone
      obtain ⟨s₁, hs₁, h⟩ := bind_eq_ok_iff.1 h
      cases h
      obtain ⟨hgains, hname⟩ := Calls.gains (.method ht hv) hnone hs₁
      exact ⟨hgains, .address hv hname⟩

private theorem toNat_of_capturedBy {address n : Int} (h : (capturedBy image address).result = .ok n) :
    n.toNat = captureCount image address := by
  unfold capturedBy at h
  unfold captureCount
  cases hbytes : image.bind (·.read? address) with
  | some bytes =>
    rw [hbytes] at h
    cases h
    rfl
  | none =>
    rw [hbytes] at h
    cases h
    rfl

theorem gains_of_readScript {op : Opcode} (hop : op = .exec ∨ op = .execWait) {ws : List Int32} {target : Int32}
    {c : Callee} (ht : ws[0]? = some target) (h : (readScript image target s).result = .ok (c, s')) :
    s.Gains (Calls image ws op) s' ∧ Resolves target s' c := by
  unfold readScript at h
  split at h
  · rename_i v hv
    cases h
    exact ⟨.refl, .variable hv⟩
  · rename_i hv
    simp only at h
    split at h
    · rename_i name hname
      cases h
      exact ⟨.refl, .address hv hname⟩
    · rename_i hnone
      obtain ⟨arity, harity, h⟩ := Logged.result_bind_eq_ok_iff.1 h
      obtain ⟨s₁, hs₁, h⟩ := Logged.result_bind_eq_ok_iff.1 h
      cases h
      rw [toNat_of_capturedBy harity] at hs₁
      obtain ⟨hgains, hname⟩ := Calls.gains (.script hop ht hv) hnone hs₁
      exact ⟨hgains, .address hv hname⟩

end

/-! ### Instructions -/

section

variable {image : Option Overlay} {ws : List Int32} {op : Opcode} {r r' : Reading} {item : Item}

theorem ReadsAt.gains {s s' : Scope} {position : Nat} {e : Expr} (h : ReadsAt image ws s position e s') :
    s.GainsVariables s' := by
  obtain ⟨a, -, he⟩ := h
  exact gains_of_readExpr he

theorem Reading.Sets.gains {v : Variable} {value : Expr} (h : r.Sets v value item r') :
    r.scope.GainsVariables r'.scope := by
  cases h with
  | declare _ _ hs => exact .variable .refl hs
  | again => exact .refl
  | store _ hs => exact gains_of_meet hs

theorem Reading.Updates.gains {v : Variable} {operator : String} {value : Expr} (h : r.Updates v operator value item r') :
    r.scope.GainsVariables r'.scope := by
  cases h with
  | word => exact .refl
  | store _ hs => exact gains_of_meet hs

/-- An instruction makes the scope gain variables and the routine that it calls. -/
theorem Says.gains (h : Says image ws r op item r') : r.scope.Gains (Calls image ws op) r'.scope := by
  cases h with
  | loop _ he => exact .of_variables he.gains
  | wait he | waitSeconds he | switch he | arm he | branchMask he | branchNotMask he => exact .of_variables he.gains
  | branch hlhs hrhs => exact .of_variables (hlhs.gains.trans hrhs.gains)
  | armRange hlow hhigh => exact .of_variables (hlow.gains.trans hhigh.gains)
  | set _ _ he hsets => exact .of_variables (he.gains.trans hsets.gains)
  | setConst _ _ hsets => exact .of_variables hsets.gains
  | arithmetic _ he hupdates => exact .of_variables (he.gains.trans hupdates.gains)
  | call ht harguments hcallee =>
    obtain ⟨hgains, hlength⟩ := gains_of_readExprs harguments
    rw [hlength, List.length_drop] at hcallee
    exact hgains.of_variables.trans (gains_of_readMethod image ht hcallee).1
  | exec ht hcallee => exact (gains_of_readScript (.inl rfl) ht hcallee).1
  | execWait ht hcallee => exact (gains_of_readScript (.inr rfl) ht hcallee).1
  | _ => exact .refl

/-- An operation that calls says a call, and what it calls is known behind it. -/
theorem Says.exists_call (h : Says image ws r op item r') (hop : op.isCall = true) :
    ∃ callee arguments kind target, item = .simple (.call callee arguments kind) rfl ∧ ws[0]? = some target ∧
      Resolves target r'.scope callee := by
  cases h with
  | call ht harguments hcallee =>
    obtain ⟨-, hlength⟩ := gains_of_readExprs harguments
    rw [hlength, List.length_drop] at hcallee
    exact ⟨_, _, _, _, rfl, ht, (gains_of_readMethod image ht hcallee).2⟩
  | exec ht hcallee => exact ⟨_, _, _, _, rfl, ht, (gains_of_readScript (.inl rfl) ht hcallee).2⟩
  | execWait ht hcallee => exact ⟨_, _, _, _, rfl, ht, (gains_of_readScript (.inr rfl) ht hcallee).2⟩
  | set hset => rcases hset with rfl | rfl <;> cases hop
  | _ => cases hop

/-- Only operations that call say calls. -/
theorem Says.isCall {callee : Callee} {arguments : List Expr} {kind : CallKind}
    (h : Says image ws r op (.simple (.call callee arguments kind) rfl) r') : op.isCall = true := by
  cases h with
  | call | exec | execWait => rfl
  | set _ _ _ hsets | setConst _ _ hsets => cases hsets
  | arithmetic _ _ hupdates => cases hupdates

/-- The instruction calls the routine at an address, and takes it to have a name and a signature as long as nothing else
is known. -/
def Instruction.Calls (image : Option Overlay) (i : Instruction) (address : Int) (name : Text) (type : DataType) : Prop :=
  ∃ op, i.opcode? = some op ∧ MapScript.Calls image i.operands op address name type

/-- Instructions make the scope gain variables and the routines that they call. -/
theorem Conveys.gains {is : List Instruction} {items : List Item} (h : Conveys image r is items r') :
    r.scope.Gains (fun address name type => ∃ i ∈ is, i.Calls image address name type) r'.scope := by
  induction h with
  | nil r => exact .refl
  | @cons r r₁ r' i rest item items hsaid _ ih =>
    obtain ⟨op, hop, hsaid⟩ := hsaid
    have hhead := hsaid.gains.mono fun address name type hcalls =>
      (⟨i, List.mem_cons_self .., op, hop, hcalls⟩ : ∃ j ∈ i :: rest, j.Calls image address name type)
    refine hhead.trans (ih.mono ?_)
    rintro address name type ⟨j, hj, hcalls⟩
    exact ⟨j, List.mem_cons_of_mem _ hj, hcalls⟩

/-- What every item has in the scope behind it, and no gain takes away, the items of a line have in the end. -/
theorem Conveys.forall_items {P : Item → Scope → Prop}
    (hstep : ∀ {i : Instruction} {r r' : Reading} {item : Item}, i.Says image r item r' → P item r'.scope)
    (hkeep : ∀ {item : Item} {s s' : Scope} {Q : Int → Text → DataType → Prop}, s.Gains Q s' → P item s → P item s')
    {is : List Instruction} {items : List Item} (h : Conveys image r is items r') : ∀ item ∈ items, P item r'.scope := by
  induction h with
  | nil r => exact List.forall_mem_nil _
  | cons hsaid hrest ih => exact List.forall_mem_cons.2 ⟨hkeep hrest.gains (hstep hsaid), ih⟩

end

end MapScript
