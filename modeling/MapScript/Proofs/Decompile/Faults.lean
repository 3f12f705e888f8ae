import MapScript.Decompile
import MapScript.Proofs.Decoding.Declared
import MapScript.Proofs.Decompile.WrittenForm
import MapScript.Proofs.Layout.Rendering
import MapScript.Proofs.Typing.Termination

/-!
# Faults of maps

Whatever the bytes of a map are, decompiling it ends in a text or in a fault of its script, but for one case: a script may
call with arguments what it knows to be a script, which is no native method, and writing out captured arguments finds these
in their place (`decompile_ends_iff`). `call_of_main` is the shortest script that does so: it calls itself with an argument.
-/

namespace MapScript

/-! ### Decompiling -/

section

variable {c : Catalogue} {o : Options} {m : Overlay}

/-- Whether the main script of a map calls with arguments what is known as a script when all of it has been read. -/
def PassesToScript (c : Catalogue) (m : Overlay) : Prop :=
  ∃ scope b s, mainScope c m.entry.main = .ok scope ∧
    (decode (some m) m.entry.main m.mainBytes scope).result = .ok (b, s) ∧ ∃ t ∈ Block.statements b, t.PassesToScript s

/-- Whether more passes are allowed than the statements of the main script have names without a type, when captured
arguments have been written out. -/
def EnoughPasses (c : Catalogue) (o : Options) (m : Overlay) : Prop :=
  ∀ scope b s b', mainScope c m.entry.main = .ok scope →
    (decode (some m) m.entry.main m.mainBytes scope).result = .ok (b, s) → Block.passCaptures o s b = .ok b' →
    ((Block.untyped b' s).card : Int) < o.passLimit

private theorem exists_mainScope (c : Catalogue) (main : Int) : ∃ s, mainScope c main = .ok s ∧ 0 < s.depth :=
  ⟨_, rfl, Nat.succ_pos _⟩

private theorem result_decompile (c : Catalogue) (o : Options) (m : Overlay) : (decompile c o m).result =
    mainScope c m.entry.main >>= fun scope =>
      (decode (some m) m.entry.main m.mainBytes scope).result.mapError Failure.ofBytecode >>= fun (b, s) =>
        Block.passCaptures o s b >>= fun b => (Typing.infer o b s).result >>= fun (_, b, s) =>
          ScriptDeclaration.listText [⟨.pointer m.entry.main, [], b⟩] s o.indent := by
  simp only [decompile, declareMain, declareMainBy, Logged.result_bind, Logged.result_liftM, Logged.mapError, bind_assoc]
  rfl

section

variable {scope s : Scope} {b b' : Block} (hscope : mainScope c m.entry.main = .ok scope)

include hscope

private theorem decompile_of_decode_error {cause : DecodeError}
    (hdecode : (decode (some m) m.entry.main m.mainBytes scope).result = .error (.decode cause)) :
    (decompile c o m).result = .error (.bytecode cause) := by
  rw [result_decompile, hscope]
  show (decode (some m) m.entry.main m.mainBytes scope).result.mapError _ >>= _ = _
  rw [hdecode]
  rfl

variable (hdecode : (decode (some m) m.entry.main m.mainBytes scope).result = .ok (b, s))

include hdecode

private theorem decompile_of_decode : (decompile c o m).result =
    Block.passCaptures o s b >>= fun b => (Typing.infer o b s).result >>= fun (_, b, s) =>
      ScriptDeclaration.listText [⟨.pointer m.entry.main, [], b⟩] s o.indent := by
  rw [result_decompile, hscope]
  show (decode (some m) m.entry.main m.mainBytes scope).result.mapError _ >>= _ = _
  rw [hdecode]
  rfl

/-- When captured arguments have been written out, types that disagree are the only failure. -/
private theorem decompile_of_passCaptures (hs : 0 < s.depth) (hpass : Block.passCaptures o s b = .ok b')
    (hlimit : ((Block.untyped b' s).card : Int) < o.passLimit) :
    Ends (fun _ => True) (fun e => e.isScriptFault = true) (decompile c o m).result := by
  have hbound : ∀ {type name value}, .declare type name value ∈ Block.statements b' → (s.currentType? name).isSome :=
    fun hd => isSome_of_decode hdecode (declared_before hpass hd)
  have hfails : FailsByMismatch (Typing.infer o b' s).result := by
    refine Typing.infer_failsByMismatch_of_pending hs fun d hd => ?_
    have := Block.card_pending_le_untyped hd hbound
    omega
  have hprintable := printable_of_passCaptures hpass (printable_of_decode hdecode)
  rw [decompile_of_decode hscope hdecode, hpass]
  show Ends _ _ ((Typing.infer o b' s).result >>= _)
  cases hinfer : (Typing.infer o b' s).result with
  | error e =>
    obtain ⟨mismatch, rfl⟩ := hfails e hinfer
    exact .error rfl
  | ok r =>
    obtain ⟨n, b'', s'⟩ := r
    have hname : ∃ name, (Callee.pointer m.entry.main).text s' = .ok name := (Callee.text_fails _).exists_ok nofun
    obtain ⟨name, hname⟩ := hname
    have htext := ScriptDeclaration.exists_text (d := ⟨.pointer m.entry.main, [], b''⟩) hname
      (printable_of_infer hinfer hprintable) o.indent
    obtain ⟨body, htext⟩ := htext
    show Ends _ _ (ScriptDeclaration.listText _ s' o.indent)
    rw [ScriptDeclaration.listText_singleton, htext]
    exact .ok trivial

end

/-- Decompiling a map ends in a text or in a fault of the script, unless a script is passed arguments, and then this is
found to be inconsistent. -/
theorem decompile_ends (hlimit : EnoughPasses c o m) : Ends (fun _ => ¬PassesToScript c m)
    (fun e => ¬PassesToScript c m ∧ e.isScriptFault = true ∨
      PassesToScript c m ∧ ∃ name n, e = .inconsistent (.alreadyPassed name n)) (decompile c o m).result := by
  obtain ⟨scope, hscope, hdepth⟩ := exists_mainScope c m.entry.main
  have hpasses : PassesToScript c m ↔ ∃ b s, (decode (some m) m.entry.main m.mainBytes scope).result = .ok (b, s) ∧
      ∃ t ∈ Block.statements b, t.PassesToScript s := by
    constructor
    · rintro ⟨scope', b, s, hscope', h⟩
      rw [hscope] at hscope'
      cases hscope'
      exact ⟨b, s, h⟩
    · rintro ⟨b, s, h⟩
      exact ⟨scope, b, s, hscope, h⟩
  have hends : Ends (fun r => scope.SameDepth r.2) (fun e => ∃ cause, e = .decode cause)
      (decode (some m) m.entry.main m.mainBytes scope).result := decode_ends hdepth
  cases hdecode : (decode (some m) m.entry.main m.mainBytes scope).result with
  | error e =>
    rw [hdecode] at hends hpasses
    obtain ⟨cause, rfl⟩ := hends.of_error
    rw [decompile_of_decode_error hscope hdecode]
    exact .error (.inl ⟨by rw [hpasses]; exact nofun, rfl⟩)
  | ok r =>
    obtain ⟨b, s⟩ := r
    rw [hdecode] at hends hpasses
    have hs : 0 < s.depth := hends.of_ok ▸ hdepth
    have hcaptures := passCaptures_ends (o := o) (s := s) b
    cases hpass : Block.passCaptures o s b with
    | error e =>
      rw [hpass] at hcaptures
      obtain ⟨hfound, he⟩ := hcaptures.of_error
      rw [decompile_of_decode hscope hdecode, hpass]
      exact .error (.inr ⟨hpasses.2 ⟨b, s, rfl, hfound⟩, he⟩)
    | ok b' =>
      rw [hpass] at hcaptures
      have hnone : ¬PassesToScript c m := by
        rw [hpasses]
        rintro ⟨_, _, he, t, ht, hfound⟩
        cases he
        exact hcaptures.of_ok t ht hfound
      have hrest := decompile_of_passCaptures hscope hdecode hs hpass (hlimit _ _ _ _ hscope hdecode hpass)
      exact hrest.mono (fun _ _ => hnone) fun _ h => .inl ⟨hnone, h⟩

/-- A map is decompiled to a text or fails for a fault of its script, just when the script does not pass arguments to what
it knows to be a script. -/
theorem decompile_ends_iff (hlimit : EnoughPasses c o m) :
    ((∃ text, (decompile c o m).result = .ok text) ∨
      ∃ e, (decompile c o m).result = .error e ∧ e.isScriptFault = true) ↔ ¬PassesToScript c m := by
  have h := decompile_ends hlimit
  cases hresult : (decompile c o m).result with
  | ok text =>
    rw [hresult] at h
    exact ⟨fun _ => h.of_ok, fun _ => .inl ⟨text, rfl⟩⟩
  | error e =>
    rw [hresult] at h
    rcases h.of_error with ⟨hnone, he⟩ | ⟨hfound, name, n, rfl⟩
    · exact ⟨fun _ => hnone, fun _ => .inr ⟨e, rfl, he⟩⟩
    · refine ⟨?_, fun hnone => absurd hfound hnone⟩
      rintro (⟨_, he⟩ | ⟨_, he, hfault⟩)
      · cases he
      · cases he
        cases hfault

end

/-! ### A script that calls itself with an argument -/

/-- A map of one script, with these bytes. -/
def mapOf (bytes : List UInt8) : Overlay := ⟨⟨"map", 0, bytes.length, 0x80240000, 0x80240000⟩, bytes⟩

/-- The main script sets its first local word to one. -/
private def settingMap : Overlay :=
  mapOf [0, 0, 0, 0x24, 0, 0, 0, 2, 0xfe, 0x36, 0x3c, 0x80, 0, 0, 0, 1, 0, 0, 0, 1, 0, 0, 0, 0]

/-- The main script calls itself with an argument. -/
def callingMap : Overlay :=
  mapOf [0, 0, 0, 0x43, 0, 0, 0, 2, 0x80, 0x24, 0, 0, 0, 0, 0, 5, 0, 0, 0, 1, 0, 0, 0, 0]

private def readMain (m : Overlay) : Except Failure (Block × Scope) := do
  let scope ← mainScope .empty m.entry.main
  (decode (some m) m.entry.main m.mainBytes scope).result

/-- How many names the statements of the main script have, when captured arguments have been written out. -/
private def countNames (m : Overlay) : Except Failure Nat := do
  let (b, s) ← readMain m
  return (Block.names (← Block.passCaptures {} s b)).length

private theorem enoughPasses_of_countNames {m : Overlay} {n : Nat} (h : countNames m = .ok n) (hn : n < 1024) :
    EnoughPasses .empty {} m := by
  intro scope b s b' hscope hdecode hpass
  have hcount : countNames m = .ok (Block.names b').length := by
    refine bind_eq_ok_iff.2 ⟨(b, s), bind_eq_ok_iff.2 ⟨scope, hscope, hdecode⟩, ?_⟩
    exact bind_eq_ok_iff.2 ⟨b', hpass, rfl⟩
  rw [h, Except.ok.injEq] at hcount
  have hcard : (Block.untyped b' s).card ≤ (Block.names b').length :=
    Nat.le_trans (List.toFinset_card_le _) (List.length_filter_le ..)
  show _ < (1024 : Int)
  omega

theorem decompile_ends_iff_setting : EnoughPasses .empty {} settingMap ∧
    (((∃ text, (decompile .empty {} settingMap).result = .ok text) ∨
      ∃ e, (decompile .empty {} settingMap).result = .error e ∧ e.isScriptFault = true) ↔
      ¬PassesToScript .empty settingMap) := by
  have hlimit : EnoughPasses .empty {} settingMap :=
    enoughPasses_of_countNames (n := 1) (by decide +kernel) (by decide)
  exact ⟨hlimit, decompile_ends_iff hlimit⟩

private theorem readMain_callingMap : (readMain callingMap).map (fun r => Block.names r.1) = .ok [] := by
  decide +kernel

/-- The call of itself is found to be inconsistent, though the script has no names and so any passes are enough. -/
theorem call_of_main : (∃ scope b s, mainScope .empty callingMap.entry.main = .ok scope ∧
      (decode (some callingMap) callingMap.entry.main callingMap.mainBytes scope).result = .ok (b, s) ∧
      Block.names b = []) ∧
    (decompile .empty {} callingMap).result = .error (.inconsistent (.alreadyPassed "main" 1)) := by
  refine ⟨?_, by decide +kernel⟩
  have hnames := readMain_callingMap
  cases hread : readMain callingMap with
  | error e => rw [hread] at hnames; cases hnames
  | ok r =>
    obtain ⟨b, s⟩ := r
    obtain ⟨scope, hscope, hdecode⟩ := bind_eq_ok_iff.1 hread
    rw [hread] at hnames
    exact ⟨scope, b, s, hscope, hdecode, Except.ok.inj hnames⟩

end MapScript
