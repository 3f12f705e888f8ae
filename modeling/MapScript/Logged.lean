import MapScript.Text.Hex

/-!
# Events and logged computations

A logged computation ends in a value or a failure and reports events on its way; the events up to a failure are kept.
What it computes does not depend on what it reports: `result_bind` and `result_pure` say that results behave as plain
`Except` values, and `events_bind` that the events of two steps stand one behind the other.
-/

namespace MapScript

/-- What is worth reporting while scripts and their tables are read. -/
inductive Event
  /-- A script is called that lies outside the map image. -/
  | outsideImage (address : Int)
  /-- A pass of type inference is over. -/
  | passDone (pass committed : Nat)
  /-- Type inference of a map is over. -/
  | settled (map : Text) (passes : Nat)
  /-- An entry of the catalogue file at `path` is no method. -/
  | malformedEntry (key path : Text)
  /-- The key of a catalogue entry is no address; `shown` is its quoted form. -/
  | invalidAddress (shown : String)
  /-- The catalogue file at `path` has been read. -/
  | catalogueLoaded (size : Nat) (path : Text)
  deriving DecidableEq, Repr

namespace Event

/-- Whether the event is a warning; others are for debugging. -/
def isWarning : Event → Bool
  | outsideImage _ | malformedEntry _ _ | invalidAddress _ => true
  | passDone _ _ | settled _ _ | catalogueLoaded _ _ => false

def text : Event → Text
  | outsideImage address =>
    "script " ++ Hex.address address ++ " lies outside the map image; assuming it captures nothing"
  | passDone pass committed => "inference pass " ++ .ofNat pass ++ " committed " ++ .ofNat committed ++ " type(s)"
  | settled map passes => "map " ++ map ++ ": inference settled after " ++ .ofNat passes ++ " pass(es)"
  | malformedEntry key path => "skipping malformed catalogue entry " ++ key ++ " in " ++ path
  | invalidAddress shown => "skipping catalogue entry with invalid address " ++ shown
  | catalogueLoaded size path => "loaded " ++ .ofNat size ++ " entry points from " ++ path

/-- The channel that the event is reported on. -/
def channel : Event → String
  | outsideImage _ => "evtdecomp.decoder"
  | passDone _ _ => "evtdecomp.inference"
  | settled _ _ => "evtdecomp.decompiler"
  | malformedEntry _ _ | invalidAddress _ | catalogueLoaded _ _ => "evtdecomp.knowledge"

def level (e : Event) : String := if e.isWarning then "WARNING" else "DEBUG"

/-- The line of the event in a log. -/
def line (e : Event) : Text := e.level ++ " " ++ e.channel ++ ": " ++ e.text

end Event

/-- A computation that reports events and ends in a value or a failure. -/
structure Logged (ε α : Type) where
  events : List Event
  result : Except ε α

namespace Logged

variable {ε α β : Type}

def pure (a : α) : Logged ε α := ⟨[], .ok a⟩

/-- Goes on with the value; a failure ends the computation with the events so far. -/
def bind (x : Logged ε α) (f : α → Logged ε β) : Logged ε β :=
  match x.result with
  | .ok a => ⟨x.events ++ (f a).events, (f a).result⟩
  | .error e => ⟨x.events, .error e⟩

instance : Monad (Logged ε) where
  pure := pure
  bind := bind

def fail (e : ε) : Logged ε α := ⟨[], .error e⟩

def report (e : Event) : Logged ε Unit := ⟨[e], .ok ()⟩

/-- A computation without events. -/
def ofExcept (x : Except ε α) : Logged ε α := ⟨[], x⟩

instance : MonadLift (Except ε) (Logged ε) := ⟨ofExcept⟩

/-- The computation with `f` applied to its failure. -/
def mapError {ε' : Type} (f : ε → ε') (x : Logged ε α) : Logged ε' α := ⟨x.events, x.result.mapError f⟩

def warnings (x : Logged ε α) : List Text := (x.events.filter Event.isWarning).map Event.text

@[simp] theorem result_pure (a : α) : (Pure.pure a : Logged ε α).result = .ok a := rfl

@[simp] theorem result_fail (e : ε) : (fail e : Logged ε α).result = .error e := rfl

@[simp] theorem result_report (e : Event) : (report e : Logged ε Unit).result = .ok () := rfl

@[simp] theorem result_ofExcept (x : Except ε α) : (ofExcept x).result = x := rfl

@[simp] theorem result_liftM (x : Except ε α) : (liftM x : Logged ε α).result = x := rfl

@[simp] theorem result_bind (x : Logged ε α) (f : α → Logged ε β) :
    (x >>= f).result = x.result >>= fun a => (f a).result := by
  obtain ⟨events, a | e⟩ := x <;> rfl

theorem result_bind_eq_ok_iff {x : Logged ε α} {f : α → Logged ε β} {b : β} :
    (x >>= f).result = .ok b ↔ ∃ a, x.result = .ok a ∧ (f a).result = .ok b := by
  obtain ⟨events, e | a⟩ := x
  · exact ⟨nofun, nofun⟩
  · exact ⟨fun h => ⟨a, rfl, h⟩, fun ⟨_, h, h'⟩ => by cases h; exact h'⟩

/-- What a fold of logged steps computes is the fold of what the steps compute. -/
theorem result_foldlM (f : α → β → Logged ε α) (a : α) (bs : List β) :
    (bs.foldlM f a).result = bs.foldlM (fun a b => (f a b).result) a := by
  induction bs generalizing a with
  | nil => rfl
  | cons b rest ih =>
    rw [List.foldlM_cons, List.foldlM_cons, result_bind]
    simp only [ih]

theorem events_bind_of_ok {x : Logged ε α} {a : α} (h : x.result = .ok a) (f : α → Logged ε β) :
    (x >>= f).events = x.events ++ (f a).events := by
  obtain ⟨events, _⟩ := x
  cases h; rfl

end Logged

end MapScript
