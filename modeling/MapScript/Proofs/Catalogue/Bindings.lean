import MapScript.Proofs.Catalogue.Lookup

/-!
# The scope of a catalogue

A catalogue keeps the last of the methods listed at an address (`lookup?_ofList`). Its scope is written in the order of the
addresses, so that every address has the name of its own method, whereas of the methods that share a name the one at the
greatest address gives the type (`IsTopmost`). Main statement: `scope_ofList`.
-/

namespace MapScript.Catalogue

/-- The method at the greatest address among those of a name. -/
structure IsTopmost (c : Catalogue) (name : Text) (e : EntryPoint) : Prop where
  lookup : c.lookup? e.address = some e
  name_eq : e.name = name
  address_le : ∀ d, c.lookup? d.address = some d → d.name = name → d.address ≤ e.address

section

variable {c : Catalogue} {name : Text} {e : EntryPoint}

private theorem of_findRev? {es : List EntryPoint} {P : EntryPoint → Prop} [DecidablePred P]
    (h : es.findRev? (fun e => P e) = some e) : e ∈ es ∧ P e := by
  rw [List.findRev?_eq_find?_reverse] at h
  exact ⟨List.mem_reverse.1 (List.mem_of_find?_eq_some h), of_decide_eq_true (List.find?_some (p := fun e => P e) h)⟩

theorem lookup?_ofList (es : List EntryPoint) (a : Int) : (ofList es).lookup? a = es.findRev? fun e => e.address = a := by
  have hmethods : (ofList es).methods = es.foldl (fun t e => t.insert e.address ⟨e.name, e.type⟩) .empty :=
    (List.foldl_hom Catalogue.methods fun _ _ => rfl).symm
  rw [lookup?, hmethods, Table.get?_foldl_insert, Table.get?_empty, Option.or_none]
  cases hlast : es.findRev? fun e => e.address = a with
  | none => rfl
  | some e =>
    obtain ⟨-, rfl⟩ := of_findRev? hlast
    rfl

/-! ### Names of addresses -/

private theorem findRev?_toList (c : Catalogue) (a : Int) : (c.toList.findRev? fun e => e.address = a) = c.lookup? a := by
  cases hlast : c.toList.findRev? fun e => e.address = a with
  | some e =>
    obtain ⟨hmem, rfl⟩ := of_findRev? hlast
    exact (mem_toList_iff.1 hmem).symm
  | none =>
    rw [List.findRev?_eq_find?_reverse, List.find?_eq_none] at hlast
    symm
    rw [Option.eq_none_iff_forall_ne_some]
    intro e he
    obtain ⟨rfl, -⟩ := lookup?_eq_some_iff.1 he
    exact hlast e (List.mem_reverse.2 (mem_toList_iff.2 he)) (decide_eq_true rfl)

theorem nameAt?_scope (c : Catalogue) (a : Int) : c.scope.nameAt? a = (c.lookup? a).map EntryPoint.name := by
  have haddresses : c.layer.addresses = c.toList.foldl (fun t e => t.insert e.address e.name) .empty :=
    (List.foldl_hom Layer.addresses fun _ _ => rfl).symm
  rw [Scope.nameAt?, scope, List.findSome?_singleton, haddresses, Table.get?_foldl_insert, Table.get?_empty,
    Option.or_none, findRev?_toList]

/-! ### Types of names -/

private theorem typeOf?_scope (c : Catalogue) (name : Text) :
    c.scope.typeOf? name = (c.toList.findRev? fun e => e.name = name).map EntryPoint.type := by
  have hnames : c.layer.names = c.toList.foldl (fun t e => t.insert e.name e.type) .empty :=
    (List.foldl_hom Layer.names fun _ _ => rfl).symm
  rw [Scope.typeOf?, scope, List.findSome?_singleton, hnames, Table.get?_foldl_insert, Table.get?_empty, Option.or_none]

theorem IsTopmost.unique {e' : EntryPoint} (h : c.IsTopmost name e) (h' : c.IsTopmost name e') : e = e' := by
  have haddress : e.address = e'.address :=
    Int.le_antisymm (h'.address_le e h.lookup h.name_eq) (h.address_le e' h'.lookup h'.name_eq)
  have hlookup := h.lookup
  rw [haddress, h'.lookup] at hlookup
  exact (Option.some.inj hlookup).symm

/-- The last method of a name in the list of a catalogue is the one at the greatest address. -/
private theorem isTopmost_of_findRev? (h : (c.toList.findRev? fun e => e.name = name) = some e) : c.IsTopmost name e := by
  rw [List.findRev?_eq_find?_reverse, List.find?_eq_some_iff_append] at h
  obtain ⟨hname, above, below, hlist, habove⟩ := h
  have hmem : ∀ {d}, d ∈ above ++ e :: below ↔ c.lookup? d.address = some d := by
    intro d
    rw [← hlist, List.mem_reverse, mem_toList_iff]
  have hbelow : ∀ d ∈ below, d.address < e.address := by
    have hpairwise := List.pairwise_reverse.2 (pairwise_toList c)
    rw [hlist, List.pairwise_append, List.pairwise_cons] at hpairwise
    exact hpairwise.2.1.1
  refine ⟨hmem.1 List.mem_append_cons_self, of_decide_eq_true hname, fun d hd hn => ?_⟩
  rcases List.mem_append.1 (hmem.2 hd) with hd | hd
  · have hother := habove d hd
    rw [Bool.not_eq_true', decide_eq_false_iff_not] at hother
    exact absurd hn hother
  · rcases List.mem_cons.1 hd with rfl | hd
    · exact Int.le_refl _
    · exact Int.le_of_lt (hbelow d hd)

private theorem findRev?_name_eq_none_iff : (c.toList.findRev? fun e => e.name = name) = none ↔
    ∀ e, c.lookup? e.address = some e → e.name ≠ name := by
  simp only [List.findRev?_eq_find?_reverse, List.find?_eq_none, List.mem_reverse, mem_toList_iff, decide_eq_true_eq]

theorem typeOf?_scope_eq_none_iff :
    c.scope.typeOf? name = none ↔ ∀ e, c.lookup? e.address = some e → e.name ≠ name := by
  rw [typeOf?_scope, Option.map_eq_none_iff, findRev?_name_eq_none_iff]

theorem typeOf?_scope_eq_some_iff {type : DataType} :
    c.scope.typeOf? name = some type ↔ ∃ e, c.IsTopmost name e ∧ e.type = type := by
  rw [typeOf?_scope, Option.map_eq_some_iff]
  constructor
  · rintro ⟨e, hlast, htype⟩
    exact ⟨e, isTopmost_of_findRev? hlast, htype⟩
  · rintro ⟨e, he, htype⟩
    cases hlast : c.toList.findRev? fun e => e.name = name with
    | none => exact absurd he.name_eq (findRev?_name_eq_none_iff.1 hlast e he.lookup)
    | some e' =>
      cases he.unique (isTopmost_of_findRev? hlast)
      exact ⟨e, rfl, htype⟩

end

/-- The scope of the catalogue of a list has one layer. In it an address has the name of the last method listed there, and
a name the type of the method at the greatest address among those of that name that the catalogue has kept. -/
theorem scope_ofList (es : List EntryPoint) :
    (ofList es).scope.depth = 1 ∧
    (∀ a, (ofList es).lookup? a = es.findRev? fun e => e.address = a) ∧
    (∀ a, (ofList es).scope.nameAt? a = (es.findRev? fun e => e.address = a).map EntryPoint.name) ∧
    (∀ name type, (ofList es).scope.typeOf? name = some type ↔ ∃ e, (ofList es).IsTopmost name e ∧ e.type = type) ∧
    ∀ name, (ofList es).scope.typeOf? name = none ↔ ∀ e, (ofList es).lookup? e.address = some e → e.name ≠ name := by
  refine ⟨rfl, lookup?_ofList es, fun a => ?_, fun _ _ => typeOf?_scope_eq_some_iff, fun _ => typeOf?_scope_eq_none_iff⟩
  rw [nameAt?_scope, lookup?_ofList]

end MapScript.Catalogue
