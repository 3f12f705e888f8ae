import Mathlib.Data.List.Forall2
import MapScript.Proofs.Catalogue.Lookup
import MapScript.Proofs.Outcome

/-!
# Reading a catalogue

An item of a catalogue file is a method if its key is an address and its value an object with a name (`IsMethod`). Items
of other kinds are reported and left out, whatever else is wrong with them; a method whose parameters cannot be read is a
failure (`Refuses`), and any other method makes an entry (`Makes`). Of the methods at one address, in whatever spelling, the
last one stays (`LastAt`).

Whether an item is a method does not depend on what was read before it (`addItem_cases`). So a file is refused if one of its
items is, and at each address a run over the items leaves what was there or the entry of the last method there
(`lookup?_addItems`). Main statement: `ofText_methods`.
-/

namespace MapScript.Catalogue

/-! ### Items -/

/-- The item is a method at this address, with this name and these fields: its key is an integer literal, its value an
object with a name that counts as present. -/
inductive IsMethod : Text × Json → Int → Json → List (Text × Json) → Prop
  | intro {key : Text} {address : Int} {name : Json} {fields : List (Text × Json)} : integer? key = some address →
    Json.field? "name" fields = some name → name.isTruthy = true → IsMethod (key, .object fields) address name fields

/-- The item is a method at this address. -/
def IsMethodAt (item : Text × Json) (address : Int) : Prop := ∃ name fields, IsMethod item address name fields

/-- The types of the parameters of a method with these fields; there are none if the parameters do not count as present. -/
inductive HasParameters (fields : List (Text × Json)) : List DataType → Prop
  | absent : (∀ p, Json.field? "parameters" fields = some p → p.isTruthy = false) → HasParameters fields []
  | listed {items : List Json} {types : List DataType} : Json.field? "parameters" fields = some (.array items) →
    List.Forall₂ (fun item type => DataType.ofText item.text = .ok type) items types → HasParameters fields types

/-- Why the parameters of a method with this name and these fields cannot be read: they count as present, and are no list
or hold an item whose text is no type. -/
inductive LacksParameters (name : Json) (fields : List (Text × Json)) : CatalogueError → Prop
  | notList {p : Json} : Json.field? "parameters" fields = some p → p.isTruthy = true → (∀ items, p ≠ .array items) →
    LacksParameters name fields (.parametersNotList name.text)
  | noType {items : List Json} {item : Json} {cause : DataType.Unreadable} :
    Json.field? "parameters" fields = some (.array items) → item ∈ items → DataType.ofText item.text = .error cause →
    LacksParameters name fields (.type cause)

/-- The item is a method and makes this entry. -/
inductive Makes : Text × Json → EntryPoint → Prop
  | intro {item : Text × Json} {address : Int} {name : Json} {fields : List (Text × Json)} {types : List DataType} :
    IsMethod item address name fields → HasParameters fields types → Makes item ⟨address, name.text, .native types⟩

/-- The item is a method that cannot be read. -/
inductive Refuses : Text × Json → CatalogueError → Prop
  | intro {item : Text × Json} {address : Int} {name : Json} {fields : List (Text × Json)} {err : CatalogueError} :
    IsMethod item address name fields → LacksParameters name fields err → Refuses item err

/-- What is reported about an item of the file at `path`: nothing if it is a method. -/
def warning? (path : Text) (item : Text × Json) : Option Event :=
  match methodName? item.2, integer? item.1 with
  | none, _ => some (.malformedEntry item.1 path)
  | some _, none => some (.invalidAddress (quoted item.1))
  | some _, some _ => none

/-- The last item of a list that is a method at this address. -/
def LastAt (a : Int) (items : List (Text × Json)) (item : Text × Json) : Prop :=
  ∃ front back, items = front ++ item :: back ∧ IsMethodAt item a ∧ ∀ other ∈ back, ¬IsMethodAt other a

section

variable {item : Text × Json} {address : Int} {name : Json} {fields : List (Text × Json)} {types : List DataType}

theorem methodName?_eq_some_iff {value : Json} : methodName? value = some name ↔
    ∃ fields, value = .object fields ∧ Json.field? "name" fields = some name ∧ name.isTruthy = true := by
  unfold methodName?
  split
  · rename_i fields
    rw [Option.filter_eq_some_iff]
    constructor
    · rintro ⟨hname, htruthy⟩
      exact ⟨fields, rfl, hname, htruthy⟩
    · rintro ⟨_, h, hname, htruthy⟩
      cases h
      exact ⟨hname, htruthy⟩
  · rename_i hobject
    constructor
    · nofun
    · rintro ⟨fields, rfl, -⟩
      exact absurd rfl (hobject fields)

/-- Whether parameters count as present decides everything but the types in a list. -/
private theorem parameterTypes_cases (name : Json) (fields : List (Text × Json)) :
    ((∀ p, Json.field? "parameters" fields = some p → p.isTruthy = false) ∧ parameterTypes name fields = .ok []) ∨
    (∃ items, Json.field? "parameters" fields = some (.array items) ∧
      parameterTypes name fields = items.mapM fun item => (DataType.ofText item.text).mapError .type) ∨
    ∃ p, Json.field? "parameters" fields = some p ∧ p.isTruthy = true ∧ (∀ items, p ≠ .array items) ∧
      parameterTypes name fields = .error (.parametersNotList name.text) := by
  unfold parameterTypes
  cases hp : Json.field? "parameters" fields with
  | none => exact .inl ⟨nofun, rfl⟩
  | some p =>
    by_cases htruthy : p.isTruthy = true
    · rw [Option.filter_some_pos htruthy]
      right
      cases p with
      | array items => exact .inl ⟨items, rfl, rfl⟩
      | _ => exact .inr ⟨_, rfl, htruthy, nofun, rfl⟩
    · rw [Bool.not_eq_true] at htruthy
      rw [Option.filter_some_neg (by simp [htruthy])]
      exact .inl ⟨fun _ h => Option.some.inj h ▸ htruthy, rfl⟩

/-- A list that does not count as present has no items. -/
private theorem eq_nil_of_absent {items : List Json}
    (habsent : ∀ p, Json.field? "parameters" fields = some p → p.isTruthy = false)
    (hitems : Json.field? "parameters" fields = some (.array items)) : items = [] := by
  have hempty := habsent _ hitems
  rwa [Json.isTruthy, Bool.not_eq_false', List.isEmpty_iff] at hempty

theorem parameterTypes_eq_ok_iff : parameterTypes name fields = .ok types ↔ HasParameters fields types := by
  rcases parameterTypes_cases name fields with ⟨habsent, heq⟩ | ⟨items, hitems, heq⟩ | ⟨p, hp, htruthy, hlist, heq⟩
  · rw [heq]
    constructor
    · intro h
      cases h
      exact .absent habsent
    · rintro (_ | ⟨hitems, htypes⟩)
      · rfl
      · cases eq_nil_of_absent habsent hitems
        cases htypes
        rfl
  · rw [heq, mapM_eq_ok_iff]
    simp only [mapError_eq_ok_iff]
    constructor
    · exact .listed hitems
    · rintro (habsent | ⟨hitems', htypes⟩)
      · cases eq_nil_of_absent habsent hitems
        exact .nil
      · rw [hitems] at hitems'
        cases hitems'
        exact htypes
  · rw [heq]
    constructor
    · nofun
    · rintro (habsent | ⟨hitems, -⟩)
      · rw [habsent p hp] at htruthy
        cases htruthy
      · rw [hp] at hitems
        exact absurd (Option.some.inj hitems) (hlist _)

theorem HasParameters.unique {types' : List DataType} (h : HasParameters fields types) (h' : HasParameters fields types') :
    types = types' := by
  have htypes : parameterTypes .null fields = .ok types := parameterTypes_eq_ok_iff.2 h
  rw [parameterTypes_eq_ok_iff.2 h'] at htypes
  exact (Except.ok.inj htypes).symm

theorem lacks_of_parameterTypes {err : CatalogueError} (h : parameterTypes name fields = .error err) :
    LacksParameters name fields err := by
  rcases parameterTypes_cases name fields with ⟨-, heq⟩ | ⟨items, hitems, heq⟩ | ⟨p, hp, htruthy, hlist, heq⟩
  · rw [heq] at h
    cases h
  · rw [heq] at h
    obtain ⟨item, hitem, hfails⟩ := exists_of_mapM_error h
    obtain ⟨cause, hcause, rfl⟩ := exists_of_mapError_error hfails
    exact .noType hitems hitem hcause
  · rw [heq] at h
    cases h
    exact .notList hp htruthy hlist

theorem LacksParameters.not_hasParameters {err : CatalogueError} (h : LacksParameters name fields err) :
    ¬HasParameters fields types := by
  intro htypes
  cases h with
  | @notList p hp htruthy hlist =>
    cases htypes with
    | absent habsent =>
      rw [habsent p hp] at htruthy
      cases htruthy
    | listed hitems _ =>
      rw [hp] at hitems
      exact hlist _ (Option.some.inj hitems)
  | @noType items item cause hitems hitem hcause =>
    cases htypes with
    | absent habsent =>
      cases eq_nil_of_absent habsent hitems
      cases hitem
    | listed hitems' htypes =>
      rw [hitems] at hitems'
      cases hitems'
      obtain ⟨type, -, htype⟩ := exists_right_of_forall₂ htypes hitem
      rw [hcause] at htype
      cases htype

theorem IsMethod.unique {address' : Int} {name' : Json} {fields' : List (Text × Json)}
    (h : IsMethod item address name fields) (h' : IsMethod item address' name' fields') :
    address = address' ∧ name = name' ∧ fields = fields' := by
  obtain ⟨hkey, hname, -⟩ := h
  obtain ⟨hkey', hname', -⟩ := h'
  exact ⟨Option.some.inj (hkey.symm.trans hkey'), Option.some.inj (hname.symm.trans hname'), rfl⟩

theorem Makes.unique {e e' : EntryPoint} (h : Makes item e) (h' : Makes item e') : e = e' := by
  obtain ⟨hmethod, htypes⟩ := h
  obtain ⟨hmethod', htypes'⟩ := h'
  obtain ⟨rfl, rfl, rfl⟩ := hmethod.unique hmethod'
  rw [htypes.unique htypes']

/-! ### Steps -/

/-- An item is reported and left out, or it is a method and its parameters are read. -/
theorem addItem_cases (path : Text) (c : Catalogue) (item : Text × Json) :
    (∃ w, warning? path item = some w ∧ (∀ a, ¬IsMethodAt item a) ∧ addItem path c item.1 item.2 = ⟨[w], .ok c⟩) ∨
    ∃ address name fields, IsMethod item address name fields ∧ warning? path item = none ∧
      addItem path c item.1 item.2 =
        ⟨[], (parameterTypes name fields).map fun types => c.insert ⟨address, name.text, .native types⟩⟩ := by
  obtain ⟨key, value⟩ := item
  cases hname : methodName? value with
  | none =>
    left
    refine ⟨.malformedEntry key path, by rw [warning?, hname], ?_, by rw [addItem, hname]; rfl⟩
    rintro a ⟨name, fields, _, hname', htruthy⟩
    rw [methodName?_eq_some_iff.2 ⟨_, rfl, hname', htruthy⟩] at hname
    cases hname
  | some name =>
    cases hkey : integer? key with
    | none =>
      left
      refine ⟨.invalidAddress (quoted key), by rw [warning?, hname, hkey], ?_, by rw [addItem, hname, hkey]; rfl⟩
      rintro a ⟨name, fields, hkey', _, _⟩
      rw [hkey] at hkey'
      cases hkey'
    | some address =>
      right
      obtain ⟨fields, rfl, hname', htruthy⟩ := methodName?_eq_some_iff.1 hname
      refine ⟨address, name, fields, .intro hkey hname' htruthy, by rw [warning?, hname, hkey], ?_⟩
      rw [addItem, hname, hkey]
      dsimp only [fieldsOf]
      cases parameterTypes name fields <;> rfl

theorem events_addItem (path : Text) (c : Catalogue) (item : Text × Json) :
    (addItem path c item.1 item.2).events = (warning? path item).toList := by
  rcases addItem_cases path c item with ⟨w, hw, -, heq⟩ | ⟨_, _, _, -, hw, heq⟩
  · rw [hw, heq, Option.toList_some]
  · rw [hw, heq, Option.toList_none]

theorem Makes.isMethodAt {e : EntryPoint} (h : Makes item e) : IsMethodAt item e.address := by
  obtain ⟨hmethod, -⟩ := h
  exact ⟨_, _, hmethod⟩

theorem IsMethodAt.unique {a a' : Int} (h : IsMethodAt item a) (h' : IsMethodAt item a') : a = a' := by
  obtain ⟨_, _, h⟩ := h
  obtain ⟨_, _, h'⟩ := h'
  exact (h.unique h').1

theorem makes_of_addItem {path : Text} {c c' : Catalogue} (h : (addItem path c item.1 item.2).result = .ok c') :
    ((∀ a, ¬IsMethodAt item a) ∧ c' = c) ∨ ∃ e, Makes item e ∧ c' = c.insert e := by
  rcases addItem_cases path c item with ⟨_, -, hno, heq⟩ | ⟨_, _, _, hmethod, -, heq⟩
  · rw [heq] at h
    exact .inl ⟨hno, (Except.ok.inj h).symm⟩
  · rw [heq] at h
    obtain ⟨types, htypes, hinsert⟩ := exists_of_map_eq_ok h
    exact .inr ⟨_, .intro hmethod (parameterTypes_eq_ok_iff.1 htypes), hinsert.symm⟩

theorem refuses_of_addItem {path : Text} {c : Catalogue} {err : CatalogueError}
    (h : (addItem path c item.1 item.2).result = .error err) : Refuses item err := by
  rcases addItem_cases path c item with ⟨_, -, -, heq⟩ | ⟨_, name, fields, hmethod, -, heq⟩
  · rw [heq] at h
    cases h
  · rw [heq] at h
    cases htypes : parameterTypes name fields with
    | error err' =>
      rw [htypes] at h
      cases h
      exact .intro hmethod (lacks_of_parameterTypes htypes)
    | ok types =>
      rw [htypes] at h
      cases h

theorem Refuses.addItem_ne_ok {path : Text} {c c' : Catalogue} {err : CatalogueError} (h : Refuses item err) :
    (addItem path c item.1 item.2).result ≠ .ok c' := by
  intro hok
  obtain ⟨hmethod, hlacks⟩ := h
  rcases makes_of_addItem hok with ⟨hno, -⟩ | ⟨e, hmakes, -⟩
  · exact hno _ ⟨_, _, hmethod⟩
  · obtain ⟨hmethod', htypes⟩ := hmakes
    obtain ⟨rfl, rfl, rfl⟩ := hmethod.unique hmethod'
    exact hlacks.not_hasParameters htypes

end

/-! ### Runs -/

section

variable {path : Text} {c c' : Catalogue} {a : Int} {item : Text × Json} {items : List (Text × Json)}

/-- The items of a file are added to a catalogue one after the other. -/
def addItems (path : Text) (c : Catalogue) (items : List (Text × Json)) : Logged CatalogueError Catalogue :=
  items.foldlM (fun c item => addItem path c item.1 item.2) c

theorem addItems_cons : addItems path c (item :: items) =
    addItem path c item.1 item.2 >>= fun c => addItems path c items := rfl

theorem result_addItems : (addItems path c items).result =
    items.foldlM (fun c item => (addItem path c item.1 item.2).result) c := Logged.result_foldlM ..

theorem refuses_of_addItems {err : CatalogueError} (h : (addItems path c items).result = .error err) :
    ∃ item ∈ items, Refuses item err := by
  rw [result_addItems] at h
  obtain ⟨_, item, _, _, rfl, -, hstep⟩ := exists_of_foldlM_error h
  exact ⟨item, List.mem_append_cons_self, refuses_of_addItem hstep⟩

theorem exists_addItems_error_iff :
    (∃ err, (addItems path c items).result = .error err) ↔ ∃ item ∈ items, ∃ err, Refuses item err := by
  constructor
  · rintro ⟨err, h⟩
    obtain ⟨item, hitem, hrefuses⟩ := refuses_of_addItems h
    exact ⟨item, hitem, err, hrefuses⟩
  · rintro ⟨item, hitem, err, hrefuses⟩
    rw [exists_eq_error_iff, result_addItems]
    rintro ⟨c', hok⟩
    obtain ⟨_, _, hstep⟩ := exists_of_foldlM_ok hok item hitem
    exact hrefuses.addItem_ne_ok hstep

theorem events_addItems (h : (addItems path c items).result = .ok c') :
    (addItems path c items).events = items.filterMap (warning? path) := by
  induction items generalizing c with
  | nil => rfl
  | cons item rest ih =>
    rw [addItems_cons] at h
    obtain ⟨c₁, hstep, hrest⟩ := Logged.result_bind_eq_ok_iff.1 h
    rw [addItems_cons, Logged.events_bind_of_ok hstep, ih hrest, events_addItem, List.filterMap_cons]
    cases warning? path item <;> rfl

theorem LastAt.cons {other : Text × Json} (h : LastAt a items item) : LastAt a (other :: items) item := by
  obtain ⟨front, back, rfl, hitem, hback⟩ := h
  exact ⟨other :: front, back, rfl, hitem, hback⟩

private theorem eq_of_notMem_back {item' : Text × Json} {back back' between : List (Text × Json)}
    (h : item :: back = between ++ item' :: back') (hback : ∀ other ∈ back, ¬IsMethodAt other a)
    (hitem' : IsMethodAt item' a) : item = item' := by
  rcases List.cons_eq_append_iff.1 h with ⟨-, h⟩ | ⟨_, -, rfl⟩
  · exact (List.cons.inj h).1.symm
  · exact absurd hitem' (hback _ List.mem_append_cons_self)

theorem LastAt.unique {item' : Text × Json} (h : LastAt a items item) (h' : LastAt a items item') : item = item' := by
  obtain ⟨front, back, rfl, hitem, hback⟩ := h
  obtain ⟨front', back', heq, hitem', hback'⟩ := h'
  rcases List.append_eq_append_iff.1 heq with ⟨between, -, hbetween⟩ | ⟨between, -, hbetween⟩
  · exact eq_of_notMem_back hbetween hback hitem'
  · exact (eq_of_notMem_back hbetween hback' hitem).symm

/-- At each address a run leaves what was there, or the entry of the last item that is a method there. -/
theorem lookup?_addItems (h : (addItems path c items).result = .ok c') (a : Int) :
    ((∀ item ∈ items, ¬IsMethodAt item a) ∧ c'.lookup? a = c.lookup? a) ∨
      ∃ item e, LastAt a items item ∧ Makes item e ∧ c'.lookup? a = some e := by
  induction items generalizing c with
  | nil =>
    cases h
    exact .inl ⟨nofun, rfl⟩
  | cons item rest ih =>
    rw [addItems_cons] at h
    obtain ⟨c₁, hstep, hrest⟩ := Logged.result_bind_eq_ok_iff.1 h
    -- A later method at the address decides; otherwise this item does, if it is one.
    rcases ih hrest with ⟨hnone, hlookup⟩ | ⟨last, e, hlast, hmakes, hlookup⟩
    · rcases makes_of_addItem hstep with ⟨hno, rfl⟩ | ⟨e, hmakes, rfl⟩
      · exact .inl ⟨List.forall_mem_cons.2 ⟨hno a, hnone⟩, hlookup⟩
      · rw [lookup?_insert] at hlookup
        by_cases haddress : e.address = a
        · rw [if_pos haddress] at hlookup
          exact .inr ⟨item, e, ⟨[], rest, rfl, haddress ▸ hmakes.isMethodAt, hnone⟩, hmakes, hlookup⟩
        · rw [if_neg haddress] at hlookup
          exact .inl ⟨List.forall_mem_cons.2 ⟨fun hat => haddress (hmakes.isMethodAt.unique hat), hnone⟩, hlookup⟩
    · exact .inr ⟨last, e, hlast.cons, hmakes, hlookup⟩

theorem LastAt.mem (h : LastAt a items item) : item ∈ items := by
  obtain ⟨front, back, rfl, -, -⟩ := h
  exact List.mem_append_cons_self

theorem LastAt.isMethodAt (h : LastAt a items item) : IsMethodAt item a := by
  obtain ⟨_, _, -, hitem, -⟩ := h
  exact hitem

/-- From the empty catalogue, a method is seen just where the last item makes it. -/
theorem lookup?_addItems_empty (h : (addItems path empty items).result = .ok c) (a : Int) (e : EntryPoint) :
    c.lookup? a = some e ↔ ∃ item, LastAt a items item ∧ Makes item e := by
  rcases lookup?_addItems h a with ⟨hnone, hlookup⟩ | ⟨last, e', hlast, hmakes, hlookup⟩
  · rw [hlookup, lookup?_empty]
    constructor
    · nofun
    · rintro ⟨item, hitem, -⟩
      exact absurd hitem.isMethodAt (hnone item hitem.mem)
  · rw [hlookup]
    constructor
    · intro he
      cases he
      exact ⟨last, hlast, hmakes⟩
    · rintro ⟨item, hitem, he⟩
      cases hitem.unique hlast
      rw [he.unique hmakes]

theorem lookup?_addItems_empty_eq_none_iff (h : (addItems path empty items).result = .ok c) (a : Int) :
    c.lookup? a = none ↔ ∀ item ∈ items, ¬IsMethodAt item a := by
  rcases lookup?_addItems h a with ⟨hnone, hlookup⟩ | ⟨last, e', hlast, -, hlookup⟩
  · rw [hlookup, lookup?_empty]
    exact ⟨fun _ => hnone, fun _ => rfl⟩
  · rw [hlookup]
    constructor
    · nofun
    · intro hnone
      exact absurd hlast.isMethodAt (hnone last hlast.mem)

end

/-! ### Files -/

theorem isWarning_of_warning? {path : Text} {item : Text × Json} {w : Event} (h : warning? path item = some w) :
    w.isWarning = true := by
  unfold warning? at h
  split at h
  · cases h
    rfl
  · cases h
    rfl
  · cases h

theorem warning?_eq_none_iff {path : Text} {item : Text × Json} :
    warning? path item = none ↔ ∃ a, IsMethodAt item a := by
  rcases addItem_cases path empty item with ⟨w, hw, hno, -⟩ | ⟨address, name, fields, hmethod, hw, -⟩
  · rw [hw]
    exact ⟨nofun, fun ⟨a, ha⟩ => absurd ha (hno a)⟩
  · exact ⟨fun _ => ⟨address, name, fields, hmethod⟩, fun _ => hw⟩

variable {path : Text} {text : String} {fields : List (Text × Json)}

private theorem ofText_eq (h : Json.ofText text = .ok (.object fields)) : ofText path text =
    addItems path empty fields >>= fun c => Logged.report (.catalogueLoaded c.size path) >>= fun _ => pure c := by
  rw [ofText, h]
  rfl

private theorem result_ofText (h : Json.ofText text = .ok (.object fields)) :
    (ofText path text).result = (addItems path empty fields).result := by
  rw [ofText_eq h, Logged.result_bind]
  cases (addItems path empty fields).result <;> rfl

private theorem warnings_ofText {c : Catalogue} (h : Json.ofText text = .ok (.object fields))
    (hok : (addItems path empty fields).result = .ok c) :
    (ofText path text).events.filter Event.isWarning = fields.filterMap (warning? path) := by
  have hwarnings : (fields.filterMap (warning? path)).filter Event.isWarning = fields.filterMap (warning? path) := by
    rw [List.filter_eq_self]
    intro w hw
    obtain ⟨item, -, hitem⟩ := List.mem_filterMap.1 hw
    exact isWarning_of_warning? hitem
  have hloaded : (Logged.report (.catalogueLoaded c.size path) >>= fun _ => pure c : Logged CatalogueError _).events.filter
      Event.isWarning = [] := rfl
  rw [ofText_eq h, Logged.events_bind_of_ok hok, List.filter_append, events_addItems hok, hwarnings, hloaded,
    List.append_nil]

/-- Reading an object fails just if some method cannot be read, and for nothing else. Otherwise the catalogue has at each
address the entry of the last method there, its list has exactly these entries and increases with their addresses, and the
warnings are one for each item that is no method, in the order of the file. -/
theorem ofText_methods (h : Json.ofText text = .ok (.object fields)) :
    ((∃ err, (ofText path text).result = .error err) ↔ ∃ item ∈ fields, ∃ err, Refuses item err) ∧
    (∀ err, (ofText path text).result = .error err → ∃ item ∈ fields, Refuses item err) ∧
    ∀ c, (ofText path text).result = .ok c →
      (∀ a e, c.lookup? a = some e ↔ ∃ item, LastAt a fields item ∧ Makes item e) ∧
      (∀ a, c.lookup? a = none ↔ ∀ item ∈ fields, ¬IsMethodAt item a) ∧
      (∀ e, e ∈ c.toList ↔ c.lookup? e.address = some e) ∧
      c.toList.Pairwise (fun d e => d.address < e.address) ∧
      (ofText path text).events.filter Event.isWarning = fields.filterMap (warning? path) ∧
      ∀ item, warning? path item = none ↔ ∃ a, IsMethodAt item a := by
  rw [result_ofText h]
  refine ⟨exists_addItems_error_iff, fun err => refuses_of_addItems, fun c hok => ?_⟩
  exact ⟨lookup?_addItems_empty hok, lookup?_addItems_empty_eq_none_iff hok, fun e => mem_toList_iff, pairwise_toList c,
    warnings_ofText h hok, fun item => warning?_eq_none_iff⟩

/-- A file with two methods at one address, spelled in two ways, and an item that is no method, whose parameters would be
refused. -/
def spelledTwice : String := "\x7b" ++
  "\"0x10\": \x7b\"name\": \"a\", \"parameters\": [\"int\"]\x7d, " ++
  "\"x\": \x7b\"name\": \"b\", \"parameters\": 5\x7d, " ++
  "\"16\": \x7b\"name\": \"c\"\x7d" ++ "\x7d"

/-- The items of the file `spelledTwice`. -/
def spelledTwiceItems : List (Text × Json) := [
  ("0x10", .object [("name", .string "a"), ("parameters", .array [.string "int"])]),
  ("x", .object [("name", .string "b"), ("parameters", .int 5)]),
  ("16", .object [("name", .string "c")])]

theorem ofText_methods_spelled : Json.ofText spelledTwice = .ok (.object spelledTwiceItems) ∧
    ∃ c, (ofText "methods.json" spelledTwice).result = .ok c ∧ c.lookup? 16 = some ⟨16, "c", .native []⟩ ∧
      (ofText "methods.json" spelledTwice).events.filter Event.isWarning = [.invalidAddress "'x'"] := by
  have hread : Json.ofText spelledTwice = .ok (.object spelledTwiceItems) := rfl
  have hok : (ofText "methods.json" spelledTwice).result =
      .ok ((empty.insert ⟨16, "a", .native [.int]⟩).insert ⟨16, "c", .native []⟩) := by decide +kernel
  obtain ⟨-, -, hmethods⟩ := @ofText_methods "methods.json" _ _ hread
  obtain ⟨hlookup, -, -, -, hwarnings, -⟩ := hmethods _ hok
  have hmethod : IsMethod ("16", .object [("name", .string "c")]) 16 (.string "c") [("name", .string "c")] :=
    .intro rfl rfl rfl
  have hlast : LastAt 16 spelledTwiceItems ("16", .object [("name", .string "c")]) :=
    ⟨spelledTwiceItems.take 2, [], rfl, ⟨_, _, hmethod⟩, nofun⟩
  refine ⟨hread, _, hok, (hlookup _ _).2 ⟨_, hlast, .intro hmethod (.absent nofun)⟩, hwarnings.trans ?_⟩
  decide +kernel

end MapScript.Catalogue
