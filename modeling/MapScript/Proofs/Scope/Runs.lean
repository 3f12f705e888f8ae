import MapScript.Scope.Steps
import Mathlib.Data.List.Induction

/-!
# Runs over a scope

A run is judged by its records alone. `height` follows a layer through pushes and pops: how far it lies from the innermost
layer behind them, if none of them has closed it. `Key.Holds` says what a layer has for a key behind a run: what was
written last while it was the innermost one, or else what it had before the run.

Every layer has just that (`Key.get_run_iff`), since this is so for one step (`Key.get_performs_iff`). Hence looking up finds
the value of the innermost layer that has one, and a layer leaves no trace when it is closed again, whatever was done
inside it (`run_discipline`).
-/

namespace MapScript

/-! ### Layers in a run -/

namespace ScopeStep

/-- Where a layer is behind a step, counted from the innermost one outwards; a closed layer is nowhere. -/
def move? : ScopeStep → Nat → Option Nat
  | push, n => some (n + 1)
  | pop, 0 => none
  | pop, n + 1 => some n
  | bindAddress .., n | bindName .., n | refineName .., n => some n

/-- The name that a step binds. -/
def name? : ScopeStep → Option Text
  | bindAddress _ name _ | bindName name _ | refineName name _ => some name
  | push | pop => none

/-- What a step writes to a layer. -/
def write : ScopeStep → Layer → Layer
  | bindAddress address name type, l => ⟨l.addresses.insert address name, l.names.insert name type⟩
  | bindName name type, l | refineName name type, l => { l with names := l.names.insert name type }
  | push, l | pop, l => l

theorem move?_of_name? {step : ScopeStep} {name : Text} (h : step.name? = some name) (n : Nat) : step.move? n = some n := by
  cases step with
  | push | pop => cases h
  | _ => rfl

end ScopeStep

/-- Where a layer is behind the steps of a run. -/
def height (n : Nat) (steps : List ScopeStep) : Option Nat := steps.foldlM (fun n step => step.move? n) n

/-! ### Single steps -/

namespace Scope

/-- What a step answers, and what it does to the layers. -/
inductive Performs (s : Scope) : ScopeStep → Except Failure ScopeAnswer → Scope → Prop
  | push : Performs s .push (.ok .opened) ⟨.empty :: s.layers⟩
  | pop : Performs s .pop (.ok (.closed s.layers.head?)) ⟨s.layers.tail⟩
  | bind {step : ScopeStep} {name : Text} {layer : Layer} {outer : List Layer} : step.name? = some name →
    s.layers = layer :: outer → Performs s step (.ok (.bound (layer.names.get? name))) ⟨step.write layer :: outer⟩
  | outside {step : ScopeStep} {name : Text} : step.name? = some name → s.layers = [] →
    Performs s step (.error .noLayers) s
  | unfit {name : Text} {type previous : DataType} : s.currentType? name = some previous → ¬previous.isWildcard →
    previous ≠ type → Performs s (.refineName name type) (.error (.inconsistent (.alreadyTyped name type previous))) s

theorem performs (s : Scope) (step : ScopeStep) : s.Performs step (s.perform step).1 (s.perform step).2 := by
  obtain ⟨_ | ⟨layer, outer⟩⟩ := s
  · cases step with
    | push => exact .push
    | pop => exact .pop
    | _ => exact .outside rfl rfl
  · cases step with
    | push => exact .push
    | pop => exact .pop
    | bindAddress address name type => exact .bind rfl rfl
    | bindName name type => exact .bind rfl rfl
    | refineName name type =>
      cases hprevious : layer.names.get? name with
      | none =>
        have h : refineName ⟨layer :: outer⟩ name type = bindName ⟨layer :: outer⟩ name type := by
          simp only [refineName, hprevious]
        rw [perform, h]
        exact .bind rfl rfl
      | some previous =>
        by_cases hfits : previous.isWildcard ∨ previous = type
        · have h : refineName ⟨layer :: outer⟩ name type = bindName ⟨layer :: outer⟩ name type := by
            simp only [refineName, hprevious, if_pos hfits]
          rw [perform, h]
          exact .bind rfl rfl
        · have h : refineName ⟨layer :: outer⟩ name type
              = .error (.inconsistent (.alreadyTyped name type previous)) := by
            simp only [refineName, hprevious, if_neg hfits]
          rw [perform, h]
          exact .unfit hprevious (fun hw => hfits (.inl hw)) fun he => hfits (.inr he)

theorem run_append (s : Scope) (steps more : List ScopeStep) :
    s.run (steps ++ more) = ((s.run steps).1 ++ ((s.run steps).2.run more).1, ((s.run steps).2.run more).2) := by
  induction steps generalizing s with
  | nil => rfl
  | cons step rest ih => rw [List.cons_append, run_cons, ih, run_cons, List.cons_append]

/-! ### Closing a layer -/

/-- A step does not touch the layers around a layer that it leaves open. -/
theorem Performs.drop_eq {s s' : Scope} {step : ScopeStep} {answer : Except Failure ScopeAnswer} {n h : Nat}
    (hstep : s.Performs step answer s') (hn : n < s.depth) (hmove : step.move? n = some h) :
    h < s'.depth ∧ s'.layers.drop (h + 1) = s.layers.drop (n + 1) := by
  cases hstep with
  | push =>
    obtain rfl : n + 1 = h := Option.some.inj hmove
    exact ⟨Nat.succ_lt_succ hn, rfl⟩
  | pop =>
    obtain _ | n := n
    · cases hmove
    · obtain rfl : n = h := Option.some.inj hmove
      rw [depth, List.length_tail, List.drop_tail]
      exact ⟨Nat.lt_sub_of_add_lt hn, rfl⟩
  | bind hname hlayers =>
    obtain rfl : n = h := Option.some.inj ((ScopeStep.move?_of_name? hname n).symm.trans hmove)
    rw [depth, hlayers] at hn
    rw [hlayers]
    exact ⟨hn, rfl⟩
  | outside hname hlayers =>
    rw [depth, hlayers] at hn
    exact absurd hn (Nat.not_lt_zero n)
  | unfit =>
    obtain rfl : n = h := Option.some.inj hmove
    exact ⟨hn, rfl⟩

theorem drop_run {s : Scope} {steps : List ScopeStep} {n h : Nat} (hn : n < s.depth)
    (hheight : height n steps = some h) :
    h < (s.run steps).2.depth ∧ (s.run steps).2.layers.drop (h + 1) = s.layers.drop (n + 1) := by
  induction steps generalizing s n with
  | nil =>
    obtain rfl : n = h := Option.some.inj hheight
    exact ⟨hn, rfl⟩
  | cons step rest ih =>
    obtain ⟨m, hmove, hrest⟩ := Option.bind_eq_some_iff.mp hheight
    obtain ⟨hm, hstep⟩ := (s.performs step).drop_eq hn hmove
    obtain ⟨hh, hdrop⟩ := ih hm hrest
    exact ⟨hh, hdrop.trans hstep⟩

theorem perform_pop (s : Scope) : (s.perform .pop).2 = ⟨s.layers.tail⟩ := by
  obtain ⟨_ | ⟨layer, outer⟩⟩ := s <;> rfl

theorem run_pops (s : Scope) (n : Nat) : (s.run (List.replicate n .pop)).2 = ⟨s.layers.drop n⟩ := by
  induction n generalizing s with
  | zero => rfl
  | succ n ih => rw [List.replicate_succ, run_cons, ih, perform_pop, List.drop_tail]

end Scope

/-! ### What a layer has -/

/-- An address or a name, as what a layer has for it and what a step writes for it. -/
structure Key (α : Type) where
  get : Layer → Option α
  written : ScopeStep → Option α
  get_empty : get .empty = none
  get_write (step : ScopeStep) (layer : Layer) : get (step.write layer) = (written step).or (get layer)

namespace Key

variable {α : Type}

def address (address : Int) : Key Text where
  get layer := layer.addresses.get? address
  written
    | .bindAddress other name _ => if other = address then some name else none
    | .bindName .. | .refineName .. | .push | .pop => none
  get_empty := rfl
  get_write
    | .bindAddress other name type, layer => by
      simp [ScopeStep.write]
      split <;> simp
    | .bindName .., _ | .refineName .., _ | .push, _ | .pop, _ => rfl

def type (name : Text) : Key DataType where
  get layer := layer.names.get? name
  written
    | .bindAddress _ other type | .bindName other type | .refineName other type => if other = name then some type else none
    | .push | .pop => none
  get_empty := rfl
  get_write
    | .bindAddress .., _ | .bindName .., _ | .refineName .., _ => by
      simp [ScopeStep.write]
      split <;> simp
    | .push, _ | .pop, _ => rfl

/-- What a record writes: a step that fails writes nothing. -/
def recorded (k : Key α) (r : ScopeRecord) : Option α :=
  match r.answer with
  | .ok _ => k.written r.step
  | .error _ => none

/-- Where a layer is behind a record, unless it is closed or written to. -/
def keep? (k : Key α) (r : ScopeRecord) (n : Nat) : Option Nat :=
  if n = 0 ∧ (k.recorded r).isSome then none else r.step.move? n

/-- Where a layer is behind records that neither close it nor write to it. -/
def kept? (k : Key α) (n : Nat) (rs : List ScopeRecord) : Option Nat := rs.foldlM (fun n r => k.keep? r n) n

/-- What the layer at a height has behind a run. -/
inductive Holds (k : Key α) (s : Scope) (rs : List ScopeRecord) (h : Nat) (v : α) : Prop
  /-- It was written while the layer was the innermost one, and nothing has been written since. -/
  | written {before after : List ScopeRecord} {r : ScopeRecord} : rs = before ++ r :: after → k.recorded r = some v →
    k.kept? 0 after = some h → Holds k s rs h v
  /-- It was there before the run, and nothing has been written. -/
  | kept {n : Nat} : s.layers[n]?.bind k.get = some v → k.kept? n rs = some h → Holds k s rs h v

/-- What the innermost layer that has something has, and at which height. -/
def Prevails (k : Key α) (s : Scope) (rs : List ScopeRecord) (h : Nat) (v : α) : Prop :=
  k.Holds s rs h v ∧ ∀ h' < h, ∀ v', ¬k.Holds s rs h' v'

/-! ### What the layers behind a run have -/

theorem written_eq_none {k : Key α} {step : ScopeStep} (h : step.name? = none) : k.written step = none := by
  have hwrite : step.write .empty = .empty := by
    cases step with
    | push | pop => rfl
    | _ => cases h
  have hget := k.get_write step .empty
  rwa [hwrite, k.get_empty, Option.or_none, eq_comm] at hget

theorem keep?_eq_some_iff {k : Key α} {r : ScopeRecord} {n h : Nat} :
    k.keep? r n = some h ↔ r.step.move? n = some h ∧ (n = 0 → k.recorded r = none) := by
  rw [keep?]
  split_ifs with hn
  · obtain ⟨rfl, hsome⟩ := hn
    simp [Option.isSome_iff_ne_none.mp hsome]
  · rw [not_and, Option.not_isSome_iff_eq_none] at hn
    exact (and_iff_left hn).symm

/-- A step that writes nothing moves what the layers have. -/
theorem get_moved_iff {k : Key α} {s s' : Scope} {step : ScopeStep} {answer : Except Failure ScopeAnswer}
    (hnone : k.recorded ⟨step, answer⟩ = none) {h : Nat} {v : α}
    (hmoved : s'.layers[h]?.bind k.get = some v ↔ ∃ n, s.layers[n]?.bind k.get = some v ∧ step.move? n = some h) :
    s'.layers[h]?.bind k.get = some v ↔ (h = 0 ∧ k.recorded ⟨step, answer⟩ = some v)
      ∨ ∃ n, s.layers[n]?.bind k.get = some v ∧ k.keep? ⟨step, answer⟩ n = some h := by
  simpa [keep?_eq_some_iff, hnone] using hmoved

/-- What a layer has behind a step was written by it, or the layer had it before. -/
theorem get_performs_iff {k : Key α} {s s' : Scope} {step : ScopeStep} {answer : Except Failure ScopeAnswer}
    (hstep : s.Performs step answer s') {h : Nat} {v : α} :
    s'.layers[h]?.bind k.get = some v ↔ (h = 0 ∧ k.recorded ⟨step, answer⟩ = some v)
      ∨ ∃ n, s.layers[n]?.bind k.get = some v ∧ k.keep? ⟨step, answer⟩ n = some h := by
  cases hstep with
  | push =>
    refine get_moved_iff (written_eq_none rfl) ?_
    cases h with
    | zero => simp [k.get_empty, ScopeStep.move?]
    | succ h => simp [ScopeStep.move?]
  | pop =>
    refine get_moved_iff (written_eq_none rfl) ?_
    rw [List.getElem?_tail]
    constructor
    · exact fun hget => ⟨h + 1, hget, rfl⟩
    · rintro ⟨_ | n, hget, hmove⟩
      · cases hmove
      · rwa [← Option.some.inj hmove]
  | bind hname hlayers =>
    simp only [keep?_eq_some_iff, ScopeStep.move?_of_name? hname, recorded, hlayers, Option.some_inj]
    cases h with
    | zero =>
      simp [k.get_write, Option.or_eq_some_iff, and_comm]
    | succ h => simp
  | outside hname hlayers =>
    refine get_moved_iff rfl ?_
    simp [ScopeStep.move?_of_name? hname]
  | unfit =>
    refine get_moved_iff rfl ?_
    simp [ScopeStep.move?]

theorem kept?_append_singleton_eq_some_iff {k : Key α} {n h : Nat} {rs : List ScopeRecord} {r : ScopeRecord} :
    k.kept? n (rs ++ [r]) = some h ↔ ∃ m, k.kept? n rs = some m ∧ k.keep? r m = some h := by
  rw [kept?, List.foldlM_append]
  simp only [List.foldlM_cons, List.foldlM_nil, bind_pure]
  exact Option.bind_eq_some_iff

theorem holds_append_singleton_iff {k : Key α} {s : Scope} {rs : List ScopeRecord} {r : ScopeRecord} {h : Nat} {v : α} :
    k.Holds s (rs ++ [r]) h v
      ↔ (h = 0 ∧ k.recorded r = some v) ∨ ∃ n, k.Holds s rs n v ∧ k.keep? r n = some h := by
  constructor
  · intro hholds
    cases hholds with
    | @written before after r' hrs hwritten hafter =>
      obtain rfl | ⟨after, last, rfl⟩ := List.eq_nil_or_concat after
      · obtain ⟨-, hr⟩ := List.append_inj' hrs rfl
        obtain rfl : r = r' := List.singleton_inj.mp hr
        obtain rfl : 0 = h := Option.some.inj hafter
        exact .inl ⟨rfl, hwritten⟩
      · rw [List.concat_eq_append, ← List.cons_append, ← List.append_assoc] at hrs
        obtain ⟨hbefore, hr⟩ := List.append_inj' hrs rfl
        obtain rfl : r = last := List.singleton_inj.mp hr
        rw [List.concat_eq_append] at hafter
        obtain ⟨n, hkept, hlast⟩ := kept?_append_singleton_eq_some_iff.mp hafter
        exact .inr ⟨n, .written hbefore hwritten hkept, hlast⟩
    | kept hget hrs =>
      obtain ⟨n, hrs, hr⟩ := kept?_append_singleton_eq_some_iff.mp hrs
      exact .inr ⟨n, .kept hget hrs, hr⟩
  · rintro (⟨rfl, hr⟩ | ⟨n, hn, hr⟩)
    · exact .written rfl hr rfl
    · cases hn with
      | @written before after r' hrs hwritten hafter =>
        have hsplit : rs ++ [r] = before ++ r' :: (after ++ [r]) := by
          rw [hrs, List.append_assoc, List.cons_append]
        exact .written hsplit hwritten (kept?_append_singleton_eq_some_iff.mpr ⟨n, hafter, hr⟩)
      | kept hget hrs => exact .kept hget (kept?_append_singleton_eq_some_iff.mpr ⟨n, hrs, hr⟩)

theorem get_run_iff {k : Key α} {s : Scope} {steps : List ScopeStep} {h : Nat} {v : α} :
    (s.run steps).2.layers[h]?.bind k.get = some v ↔ k.Holds s (s.run steps).1 h v := by
  induction steps using List.reverseRecOn generalizing h with
  | nil =>
    constructor
    · exact fun hget => .kept hget rfl
    · rintro (⟨hrs, -, -⟩ | ⟨hget, hrs⟩)
      · exact absurd hrs.symm (List.append_ne_nil_of_right_ne_nil _ (List.cons_ne_nil _ _))
      · rwa [← Option.some.inj hrs]
  | append_singleton steps step ih =>
    rw [Scope.run_append, Scope.run_cons, Scope.run, holds_append_singleton_iff,
      get_performs_iff ((s.run steps).2.performs step)]
    exact or_congr Iff.rfl (exists_congr fun n => and_congr ih Iff.rfl)

/-! ### Looking up -/

/-- The innermost layer that has something comes first. -/
theorem findSome?_get_iff {k : Key α} {layers : List Layer} {v : α} : layers.findSome? k.get = some v
    ↔ ∃ h : Nat, layers[h]?.bind k.get = some v ∧ ∀ m < h, layers[m]?.bind k.get = none := by
  induction layers with
  | nil => simp
  | cons layer outer ih =>
    cases hget : k.get layer with
    | some w =>
      rw [List.findSome?_cons_of_isSome (by rw [hget]; rfl), hget]
      constructor
      · exact fun hw => ⟨0, hget.trans hw, fun m hm => absurd hm (Nat.not_lt_zero m)⟩
      · rintro ⟨_ | h, hv, hinner⟩
        · exact hget.symm.trans hv
        · exact absurd (hget.symm.trans (hinner 0 h.succ_pos)) (Option.some_ne_none w)
    | none =>
      rw [List.findSome?_cons_of_isNone (by rw [hget]; rfl), ih]
      constructor
      · rintro ⟨h, hv, hinner⟩
        refine ⟨h + 1, hv, fun m hm => ?_⟩
        obtain _ | m := m
        · exact hget
        · exact hinner m (Nat.lt_of_succ_lt_succ hm)
      · rintro ⟨_ | h, hv, hinner⟩
        · exact absurd (hv.symm.trans hget) (Option.some_ne_none v)
        · exact ⟨h, hv, fun m hm => hinner (m + 1) (Nat.succ_lt_succ hm)⟩

theorem prevails_run_iff {k : Key α} {s : Scope} {steps : List ScopeStep} {h : Nat} {v : α} :
    k.Prevails s (s.run steps).1 h v ↔ (s.run steps).2.layers[h]?.bind k.get = some v
      ∧ ∀ m < h, (s.run steps).2.layers[m]?.bind k.get = none := by
  simp only [Prevails, ← get_run_iff, Option.eq_none_iff_forall_ne_some, ne_eq]

theorem findSome?_run_iff {k : Key α} {s : Scope} {steps : List ScopeStep} {v : α} :
    (s.run steps).2.layers.findSome? k.get = some v ↔ ∃ h, k.Prevails s (s.run steps).1 h v := by
  simp only [findSome?_get_iff, prevails_run_iff]

theorem findSome?_take_run_iff {k : Key α} {s : Scope} {steps : List ScopeStep} {d : Nat} {v : α} :
    ((s.run steps).2.layers.take (d + 1)).findSome? k.get = some v ↔ ∃ h ≤ d, k.Prevails s (s.run steps).1 h v := by
  simp only [findSome?_get_iff, prevails_run_iff, List.getElem?_take]
  refine exists_congr fun h => ?_
  constructor
  · rintro ⟨hget, hinner⟩
    split_ifs at hget with hh
    · refine ⟨Nat.le_of_lt_succ hh, hget, fun m hm => ?_⟩
      simpa only [if_pos (Nat.lt_trans hm hh)] using hinner m hm
    · cases hget
  · rintro ⟨hh, hget, hinner⟩
    rw [if_pos (Nat.lt_succ_of_le hh)]
    refine ⟨hget, fun m hm => ?_⟩
    rw [if_pos (Nat.lt_trans hm (Nat.lt_succ_of_le hh))]
    exact hinner m hm

end Key

namespace Scope

variable {s : Scope} {steps : List ScopeStep}

theorem nameAt?_run_iff {address : Int} {name : Text} :
    (s.run steps).2.nameAt? address = some name ↔ ∃ h, (Key.address address).Prevails s (s.run steps).1 h name :=
  Key.findSome?_run_iff (k := Key.address address)

theorem typeOf?_run_iff {name : Text} {type : DataType} :
    (s.run steps).2.typeOf? name = some type ↔ ∃ h, (Key.type name).Prevails s (s.run steps).1 h type :=
  Key.findSome?_run_iff (k := Key.type name)

theorem typeWithin?_run_iff {name : Text} {type : DataType} {d : Nat} :
    (s.run steps).2.typeWithin? name d = some type ↔ ∃ h ≤ d, (Key.type name).Prevails s (s.run steps).1 h type :=
  Key.findSome?_take_run_iff (k := Key.type name)

theorem currentType?_run_iff {name : Text} {type : DataType} :
    (s.run steps).2.currentType? name = some type ↔ (Key.type name).Holds s (s.run steps).1 0 type := by
  rw [currentType?, List.head?_eq_getElem?]
  exact Key.get_run_iff (k := Key.type name)

/-- A layer leaves no trace once it is closed again. -/
theorem run_push_pops (hopen : height 0 steps ≠ none) :
    s.depth < (s.run (.push :: steps)).2.depth ∧ ((s.run (.push :: steps)).2.run
      (List.replicate ((s.run (.push :: steps)).2.depth - s.depth) .pop)).2 = s := by
  obtain ⟨h, hheight⟩ := Option.ne_none_iff_exists'.mp hopen
  have hpush : 0 < s.push.depth := s.depth.succ_pos
  obtain ⟨hh, hdrop⟩ := drop_run hpush hheight
  rw [run_cons]
  change s.depth < (s.push.run steps).2.depth ∧
    ((s.push.run steps).2.run (List.replicate ((s.push.run steps).2.depth - s.depth) .pop)).2 = s
  have hlayers : (s.push.run steps).2.layers.drop (h + 1) = s.layers := hdrop
  have hdepth : (s.push.run steps).2.depth - (h + 1) = s.depth := by
    rw [depth, ← List.length_drop, hlayers, depth]
  have hpops : (s.push.run steps).2.depth - s.depth = h + 1 := by omega
  exact ⟨by omega, by rw [run_pops, hpops, hlayers]⟩

/-- A step that binds a name answers the type that the name had in the innermost layer, or changes nothing. -/
theorem perform_of_name? {step : ScopeStep} {name : Text} (hs : 0 < s.depth) (hname : step.name? = some name) :
    (s.perform step).1 = .ok (.bound (s.currentType? name))
      ∨ ∃ type previous, step = .refineName name type ∧ s.currentType? name = some previous
          ∧ ¬previous.isWildcard ∧ previous ≠ type
          ∧ s.perform step = (.error (.inconsistent (.alreadyTyped name type previous)), s) := by
  have hstep := s.performs step
  generalize s.perform step = result at hstep
  obtain ⟨answer, s'⟩ := result
  cases hstep with
  | push | pop => cases hname
  | bind hother hlayers =>
    obtain rfl := Option.some.inj (hname.symm.trans hother)
    exact .inl (by rw [currentType?, hlayers]; rfl)
  | outside _ hlayers => 
    rw [depth, hlayers] at hs
    exact absurd hs (Nat.lt_irrefl 0)
  | unfit hcurrent hwildcard hne =>
    cases hname
    exact .inr ⟨_, _, rfl, hcurrent, hwildcard, hne, rfl⟩

/-- A layer leaves no trace once it is closed again, whatever was done inside it. While it is open, looking up finds what
was written last in the innermost layer that has something, and a step that binds a name answers what the innermost layer
had for it. -/
theorem run_discipline (s : Scope) (steps : List ScopeStep) (hopen : height 0 steps ≠ none) :
    let records := (s.run (.push :: steps)).1
    let s' := (s.run (.push :: steps)).2
    (s'.run (List.replicate (s'.depth - s.depth) .pop)).2 = s
      ∧ (∀ address name, s'.nameAt? address = some name ↔ ∃ h, (Key.address address).Prevails s records h name)
      ∧ (∀ name type, s'.typeOf? name = some type ↔ ∃ h, (Key.type name).Prevails s records h type)
      ∧ (∀ name type, ∀ d : Nat, s'.typeWithin? name d = some type
          ↔ ∃ h ≤ d, (Key.type name).Prevails s records h type)
      ∧ ∀ step name, step.name? = some name →
          (∃ previous, (s'.perform step).1 = .ok (.bound previous)
            ∧ ∀ type, previous = some type ↔ (Key.type name).Holds s records 0 type)
          ∨ ∃ type previous, step = .refineName name type ∧ (Key.type name).Holds s records 0 previous
            ∧ ¬previous.isWildcard ∧ previous ≠ type
            ∧ s'.perform step = (.error (.inconsistent (.alreadyTyped name type previous)), s') := by
  obtain ⟨hdepth, hpops⟩ := run_push_pops hopen
  refine ⟨hpops, fun address name => nameAt?_run_iff, fun name type => typeOf?_run_iff,
    fun name type d => typeWithin?_run_iff, fun step name hname => ?_⟩
  obtain hanswer | ⟨type, previous, hstep, hprevious, hfails⟩ := perform_of_name? (Nat.zero_lt_of_lt hdepth) hname
  · exact .inl ⟨_, hanswer, fun type => currentType?_run_iff⟩
  · exact .inr ⟨type, previous, hstep, currentType?_run_iff.mp hprevious, hfails⟩

/-- A name is hidden by an inner layer and bound once more inside a further one, where it cannot be refined again. -/
theorem run_discipline_nested :
    let s : Scope := ⟨[⟨.ofList [(4096, "door")], .ofList [("door", .script [])]⟩]⟩
    let steps : List ScopeStep := [.bindName "door" .int, .push, .refineName "door" .any, .refineName "door" .bool,
      .refineName "door" .float]
    let s' := (s.run (.push :: steps)).2
    height 0 steps ≠ none
      ∧ s'.depth = 3 ∧ s'.typeOf? "door" = some .bool ∧ s'.nameAt? 4096 = some ("door" : Text)
      ∧ (∃ h, (Key.type "door").Prevails s (s.run (.push :: steps)).1 h .bool)
      ∧ (∃ h, (Key.address 4096).Prevails s (s.run (.push :: steps)).1 h "door")
      ∧ (s'.run [.pop, .pop]).2 = s := by
  intro s steps s'
  have hopen : height 0 steps ≠ none := by decide
  have htype : s'.typeOf? "door" = some .bool := by decide
  have hname : s'.nameAt? 4096 = some ("door" : Text) := by decide
  obtain ⟨hpops, hnames, htypes, -⟩ := run_discipline s steps hopen
  exact ⟨hopen, by decide, htype, hname, (htypes "door" .bool).mp htype, (hnames 4096 "door").mp hname, hpops⟩

end Scope

end MapScript
