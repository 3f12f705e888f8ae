import MapScript.Proofs.Decompile.CallArity
import MapScript.Proofs.Decompile.Faults

/-!
# The declaration of a map

All that a map declares is declared in the inner one of two layers. The outer one stays as it was made, with the main script
in it, and neither the address nor the name of the main script is bound again. In that scope the declaration can be written;
its first line says that it is called `main` and its last one is a closing brace (`declareMain_frame`).
-/

namespace MapScript

/-- The layer of the catalogue with the main script in it. -/
def Catalogue.mainLayer (c : Catalogue) (main : Int) : Layer :=
  ⟨c.layer.addresses.insert main "main", c.layer.names.insert "main" (.script [])⟩

theorem mainScope_eq (c : Catalogue) (main : Int) : mainScope c main = .ok ⟨[.empty, c.mainLayer main]⟩ := rfl

section

variable {c : Catalogue} {main : Int}

private theorem nameAt?_main : (⟨[.empty, c.mainLayer main]⟩ : Scope).nameAt? main = some ("main" : Text) := by
  have hbind : c.scope.bindAddress main "main" (.script []) = .ok ⟨[c.mainLayer main]⟩ := rfl
  exact (Scope.nameAt?_bindAddress hbind main).trans (if_pos rfl)

private theorem typeOf?_main : (⟨[.empty, c.mainLayer main]⟩ : Scope).typeOf? "main" = some (.script []) := by
  have hbind : c.scope.bindAddress main "main" (.script []) = .ok ⟨[c.mainLayer main]⟩ := rfl
  exact (Scope.typeOf?_bindAddress hbind "main").trans (if_pos rfl)

end

/-- Names of variables and of routines have a line in them, and so they are other names than `main`. -/
private theorem main_ne {name : Text} (h : CodePoint.char '_' ∈ name.points) : "main" ≠ name := by
  rintro rfl
  exact absurd h (by decide)

section

variable {c : Catalogue} {o : Options} {m : Overlay} {d : ScriptDeclaration} {s : Scope}

private theorem name_of_declareMain (h : (declareMain c o m).result = .ok (d, s)) :
    d.name = .pointer m.entry.main ∧ d.parameters = [] := by
  obtain ⟨_, -, h⟩ := Logged.result_bind_eq_ok_iff.1 h
  obtain ⟨_, -, h⟩ := Logged.result_bind_eq_ok_iff.1 h
  obtain ⟨_, -, h⟩ := Logged.result_bind_eq_ok_iff.1 h
  obtain ⟨_, -, h⟩ := Logged.result_bind_eq_ok_iff.1 h
  obtain ⟨_, -, h⟩ := Logged.result_bind_eq_ok_iff.1 h
  cases h
  exact ⟨rfl, rfl⟩

private theorem printable_of_declareMain (h : (declareMain c o m).result = .ok (d, s)) :
    ∀ t ∈ Block.statements d.body, t.Printable := by
  obtain ⟨_, _, _, _, _, -, hdecode, hpass, hinfer⟩ := phases_of_declareMain h
  exact printable_of_infer hinfer (printable_of_passCaptures hpass (printable_of_decode hdecode))

/-- The outer layer is as it was made, and the main script keeps its name and its type. -/
private theorem scope_of_declareMain (h : (declareMain c o m).result = .ok (d, s)) :
    (∃ inner, s.layers = [inner, c.mainLayer m.entry.main]) ∧ s.nameAt? m.entry.main = some ("main" : Text)
      ∧ s.typeOf? "main" = some (.script []) := by
  obtain ⟨scope, block₀, s₀, block₁, passes, hscope, hdecode, hpass, hinfer⟩ := phases_of_declareMain h
  rw [mainScope_eq, Except.ok.injEq] at hscope
  subst hscope
  obtain ⟨before, r', -, hconveys, rfl⟩ := decode_eq_ok_iff.1 hdecode
  have hgains := hconveys.gains
  have hrefines := Typing.infer_refines hinfer
  refine ⟨?_, ?_, ?_⟩
  · have htail : s.layers.tail = [c.mainLayer m.entry.main] := hrefines.tail_eq.trans hgains.tail_eq
    have hdepth : s.depth = 2 := hrefines.depth_eq.trans hgains.depth_eq
    obtain ⟨_ | ⟨inner, outer⟩⟩ := s
    · cases hdepth
    · exact ⟨inner, congrArg (inner :: ·) htail⟩
  · rw [hrefines.nameAt?_eq]
    exact hgains.nameAt?_eq nameAt?_main
  · have htype : r'.scope.typeOf? "main" = some (.script []) := by
      rw [hgains.typeOf?_eq (fun v => main_ne v.underscore_mem_name) fun w hw => absurd rfl (main_ne hw.underscore_mem)]
      exact typeOf?_main
    rcases hrefines.typeOf?_eq_or "main" with he | ⟨hlearn, hunknown, -⟩
    · rw [he, htype]
    · rcases hlearn.2 with ⟨type, value, hd⟩ | hany
      · -- a declared name is bound in the inner layer, and there the main script would have its type
        have hbound := isSome_of_decode hdecode (declared_before hpass hd)
        obtain ⟨type, hcurrent⟩ := Option.isSome_iff_exists.1 hbound
        rw [Scope.typeOf?_of_currentType? hcurrent, Option.some_inj] at htype
        rw [Scope.known, hcurrent, htype] at hunknown
        cases hunknown
      · rw [htype] at hany
        cases hany

/-- A map that is declared leaves the outer layer alone, and its declaration can be written with any unit. -/
theorem declareMain_frame (h : (declareMain c o m).result = .ok (d, s)) :
    (∃ inner, s.layers = [inner, c.mainLayer m.entry.main])
      ∧ s.nameAt? m.entry.main = some ("main" : Text) ∧ s.typeOf? "main" = some (.script [])
      ∧ ∀ unit, ∃ body, ScriptDeclaration.listText [d] s unit
          = .ok (Text.intercalate "\n" (("fun main() \x7b" : Text) :: body ++ [("\x7d" : Text)]) ++ "\n") := by
  obtain ⟨hlayers, hname, htype⟩ := scope_of_declareMain h
  obtain ⟨hpointer, hparameters⟩ := name_of_declareMain h
  refine ⟨hlayers, hname, htype, fun unit => ?_⟩
  have hcallee : d.name.text s = .ok "main" := by
    simp only [hpointer, Callee.text, Callee.name?, hname]
  obtain ⟨body, htext⟩ := ScriptDeclaration.exists_text hcallee (printable_of_declareMain h) unit
  refine ⟨body, ?_⟩
  rw [ScriptDeclaration.listText_singleton, htext, ScriptDeclaration.lines, hparameters]
  rfl

end

/-! ### A script that calls and starts itself -/

/-- The main script sets its first local word to one, calls itself and starts itself. -/
def recurringMap : Overlay :=
  mapOf [0, 0, 0, 0x24, 0, 0, 0, 2, 0xfe, 0x36, 0x3c, 0x80, 0, 0, 0, 1, 0, 0, 0, 0x43, 0, 0, 0, 1, 0x80, 0x24, 0, 0,
    0, 0, 0, 0x44, 0, 0, 0, 1, 0x80, 0x24, 0, 0, 0, 0, 0, 1, 0, 0, 0, 0]

private theorem isOk_recurringMap : (declareMain .empty {} recurringMap).result.isOk = true := by
  decide +kernel

theorem declareMain_frame_recurring : ∃ d s, (declareMain .empty {} recurringMap).result = .ok (d, s)
    ∧ (∃ inner, s.layers = [inner, Catalogue.empty.mainLayer 0x80240000])
    ∧ s.nameAt? 0x80240000 = some ("main" : Text) ∧ s.typeOf? "main" = some (.script [])
    ∧ ∀ unit, ∃ body, ScriptDeclaration.listText [d] s unit
        = .ok (Text.intercalate "\n" (("fun main() \x7b" : Text) :: body ++ [("\x7d" : Text)]) ++ "\n") := by
  cases h : (declareMain .empty {} recurringMap).result with
  | error e => 
    have hok := isOk_recurringMap
    rw [h] at hok
    cases hok
  | ok r => exact ⟨r.1, r.2, rfl, declareMain_frame h⟩

end MapScript
