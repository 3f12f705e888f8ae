import Mathlib.Data.List.Nodup
import MapScript.MapTable
import MapScript.Proofs.Outcome
import MapScript.Slice

/-!
# Maps and their windows

A list of entries makes a table if every entry fits into the image (`MapEntry.Fits`) and no two have one name, and the
table keeps the entries in their order (`ofEntries_eq_ok_iff`). Other lists are refused, for something that is wrong with
them (`Refuses`).

Three steps lead from an address to bytes: the entry is checked against the image, the overlay is cut out of it, and the
overlay is read. For an entry that fits they make one slice of the image, which is never empty (`read?_cut`). Main
statement: `ofEntries_windows`.
-/

namespace MapScript

/-! ### Entries that fit -/

/-- The map is a part of an image of this length, with at least one byte, and its main script starts in its window. -/
structure MapEntry.Fits (e : MapEntry) (imageLength : Nat) : Prop where
  start_nonneg : 0 ≤ e.romStart
  start_lt_end : e.romStart < e.romEnd
  end_le : e.romEnd ≤ imageLength
  le_main : e.vramStart ≤ e.main
  main_lt : e.main < e.vramStart + (e.romEnd - e.romStart)

namespace MapEntry

variable {e : MapEntry} {n : Nat}

theorem Fits.length_eq (h : e.Fits n) : e.length = e.romEnd - e.romStart :=
  Int.max_eq_right (by have := h.start_lt_end; omega)

theorem validate_eq_ok_iff : e.validate n = .ok () ↔ e.Fits n := by
  unfold validate
  constructor
  · intro h
    split at h
    · cases h
    rename_i hinside
    split at h
    · cases h
    rename_i hlength
    split at h
    · cases h
    rename_i hmain
    simp only [vramEnd, length] at hlength hmain
    exact ⟨by omega, by omega, by omega, by omega, by omega⟩
  · intro h
    have hlength := h.length_eq
    obtain ⟨hstart, hlt, hend, hle, hmain⟩ := h
    rw [if_neg (by omega), if_neg (by omega), if_neg (by rw [vramEnd]; omega)]

end MapEntry

/-- The overlay that an entry cuts out of an image. -/
def MapEntry.cut (e : MapEntry) (image : List UInt8) : Overlay :=
  ⟨e, (image.take e.romEnd.toNat).drop e.romStart.toNat⟩

namespace MapTable

/-- What an error says about the entries that an image is given. -/
inductive Refuses (imageLength : Nat) (es : List MapEntry) : MapTableError → Prop
  | outsideImage {e : MapEntry} : e ∈ es → ¬(0 ≤ e.romStart ∧ e.romStart ≤ e.romEnd ∧ e.romEnd ≤ imageLength) →
    Refuses imageLength es (.outsideImage e imageLength)
  | emptyMap {e : MapEntry} : e ∈ es → e.romStart = e.romEnd → Refuses imageLength es (.emptyMap e.name)
  | mainOutside {e : MapEntry} : e ∈ es → ¬(e.vramStart ≤ e.main ∧ e.main < e.vramStart + (e.romEnd - e.romStart)) →
    Refuses imageLength es (.mainOutside e.name e.main)
  | duplicate {front back : List MapEntry} {d e : MapEntry} : es = front ++ e :: back → d ∈ front → d.name = e.name →
    Refuses imageLength es (.duplicate e.name)

theorem refuses_of_validate {e : MapEntry} {n : Nat} {es : List MapEntry} {err : MapTableError} (he : e ∈ es)
    (h : e.validate n = .error err) : Refuses n es err := by
  unfold MapEntry.validate at h
  split at h
  · rename_i hinside
    cases h
    exact .outsideImage he hinside
  rename_i hinside
  split at h
  · rename_i hlength
    cases h
    simp only [MapEntry.length] at hlength
    exact .emptyMap he (by omega)
  split at h
  · rename_i hmain
    cases h
    simp only [MapEntry.vramEnd, MapEntry.length] at hmain
    exact .mainOutside he (by omega)
  · cases h

/-! ### Tables of entries -/

variable {t t' : MapTable} {e : MapEntry} {es : List MapEntry}

theorem add_eq_ok_iff : t.add e = .ok t' ↔
    e.Fits t.image.length ∧ e.name ∉ t.names ∧ t' = { t with entries := t.entries.insert e.name e } := by
  have hfits : e.validate t.image.length = .ok () ↔ e.Fits t.image.length := MapEntry.validate_eq_ok_iff
  rw [add, bind_eq_ok_iff]
  constructor
  · rintro ⟨⟨⟩, hvalid, h⟩
    cases hget : t.entries.get? e.name with
    | some _ => simp [hget] at h
    | none =>
      rw [hget] at h
      cases h
      exact ⟨hfits.1 hvalid, Table.get?_eq_none_iff.1 hget, rfl⟩
  · rintro ⟨hvalid, hname, rfl⟩
    refine ⟨(), hfits.2 hvalid, ?_⟩
    rw [Table.get?_eq_none_iff.2 hname]
    rfl

/-- The table with an entry of a new name at its end. -/
private def push (t : MapTable) (e : MapEntry) : MapTable := { t with entries := t.entries.insert e.name e }

private theorem entries_push (h : e.name ∉ t.names) :
    (t.push e).entries.entries = t.entries.entries ++ [(e.name, e)] :=
  Table.entries_insert_of_notMem h e

private theorem names_push (h : e.name ∉ t.names) : (t.push e).names = t.names ++ [e.name] := by
  rw [names, Table.keys, entries_push h, List.map_append]
  rfl

/-- Entries are put at the end of a table, if they fit and bring new names. -/
theorem foldlM_add_eq_ok_iff : es.foldlM add t = .ok t' ↔
    (∀ e ∈ es, e.Fits t.image.length) ∧ (t.names ++ es.map MapEntry.name).Nodup ∧ t'.image = t.image ∧
      t'.entries.entries = t.entries.entries ++ es.map fun e => (e.name, e) := by
  induction es generalizing t with
  | nil =>
    rw [List.foldlM_nil, List.map_nil, List.map_nil, List.append_nil, List.append_nil]
    constructor
    · intro h
      cases h
      exact ⟨nofun, Table.nodup_keys _, rfl, rfl⟩
    · rintro ⟨-, -, himage, hentries⟩
      obtain ⟨image, entries⟩ := t'
      cases himage
      cases Table.ext hentries
      rfl
  | cons e rest ih =>
    rw [List.foldlM_cons, bind_eq_ok_iff, List.forall_mem_cons, List.map_cons, List.map_cons]
    constructor
    · rintro ⟨t₁, hadd, hrest⟩
      obtain ⟨hfits, hname, rfl⟩ := add_eq_ok_iff.1 hadd
      obtain ⟨hrest, hnodup, himage, hentries⟩ := ih.1 hrest
      have hnames := names_push hname
      have hpushed := entries_push hname
      rw [push] at hnames hpushed
      rw [hnames, List.append_assoc] at hnodup
      rw [hpushed, List.append_assoc] at hentries
      exact ⟨⟨hfits, hrest⟩, hnodup, himage, hentries⟩
    · rintro ⟨⟨hfits, hrest⟩, hnodup, himage, hentries⟩
      have hname : e.name ∉ t.names := by
        intro hmem
        exact (List.nodup_append.1 hnodup).2.2 _ hmem _ (List.mem_cons_self ..) rfl
      refine ⟨t.push e, add_eq_ok_iff.2 ⟨hfits, hname, rfl⟩, ih.2 ⟨hrest, ?_, himage, ?_⟩⟩
      · rwa [names_push hname, List.append_assoc]
      · rwa [entries_push hname, List.append_assoc]

theorem ofEntries_eq_ok_iff {image : List UInt8} : ofEntries image es = .ok t ↔
    (∀ e ∈ es, e.Fits image.length) ∧ (es.map MapEntry.name).Nodup ∧ t.image = image ∧
      t.entries.entries = es.map fun e => (e.name, e) :=
  foldlM_add_eq_ok_iff

/-- A list of entries that is refused gives a reason. -/
theorem refuses_of_ofEntries {image : List UInt8} {err : MapTableError} (h : ofEntries image es = .error err) :
    Refuses image.length es err := by
  -- The table up to the entry that is refused holds the entries in front of it, so a name that is taken is one of theirs.
  obtain ⟨front, e, back, t, rfl, hfront, hadd⟩ := exists_of_foldlM_error h
  obtain ⟨-, -, himage, hentries⟩ := foldlM_add_eq_ok_iff.1 hfront
  have he : e ∈ front ++ e :: back := List.mem_append_cons_self
  rw [add, himage] at hadd
  cases hvalid : e.validate image.length with
  | error err' =>
    have heq : err' = err := by
      rw [hvalid] at hadd
      exact Except.error.inj hadd
    exact heq ▸ refuses_of_validate he hvalid
  | ok _ =>
    rw [hvalid] at hadd
    cases hget : t.entries.get? e.name with
    | none =>
      simp only [hget] at hadd
      cases hadd
    | some d =>
      simp only [hget] at hadd
      cases hadd
      have hmem := Table.mem_entries_of_get? hget
      rw [hentries] at hmem
      obtain ⟨d, hd, hname⟩ := List.mem_map.1 hmem
      exact .duplicate rfl hd (congrArg Prod.fst hname)

theorem exists_ofEntries_eq_ok_iff {image : List UInt8} :
    (∃ t, ofEntries image es = .ok t) ↔ (∀ e ∈ es, e.Fits image.length) ∧ (es.map MapEntry.name).Nodup := by
  constructor
  · rintro ⟨t, h⟩
    obtain ⟨hfits, hnodup, -, -⟩ := ofEntries_eq_ok_iff.1 h
    exact ⟨hfits, hnodup⟩
  · rintro ⟨hfits, hnodup⟩
    have hkeys : ((es.map fun e => (e.name, e)).map Prod.fst).Nodup := by rwa [List.map_map]
    exact ⟨⟨image, ⟨_, hkeys⟩⟩, ofEntries_eq_ok_iff.2 ⟨hfits, hnodup, rfl, rfl⟩⟩

/-! ### Reading -/

theorem map?_eq_some_iff {image : List UInt8} (h : ofEntries image es = .ok t) {name : Text} {m : Overlay} :
    t.map? name = some m ↔ ∃ e ∈ es, e.name = name ∧ e.cut image = m := by
  obtain ⟨-, -, himage, hentries⟩ := ofEntries_eq_ok_iff.1 h
  rw [map?, himage, Option.map_eq_some_iff]
  constructor
  · rintro ⟨e, hget, rfl⟩
    have hmem := Table.get?_eq_some_iff.1 hget
    rw [hentries] at hmem
    obtain ⟨d, hd, hde⟩ := List.mem_map.1 hmem
    cases hde
    exact ⟨e, hd, rfl, rfl⟩
  · rintro ⟨e, he, rfl, rfl⟩
    refine ⟨e, Table.get?_eq_some_iff.2 ?_, rfl⟩
    rw [hentries]
    exact List.mem_map_of_mem he

theorem names_of_ofEntries {image : List UInt8} (h : ofEntries image es = .ok t) : t.names = es.map MapEntry.name := by
  obtain ⟨-, -, -, hentries⟩ := ofEntries_eq_ok_iff.1 h
  rw [names, Table.keys, hentries, List.map_map]
  rfl

/-- The maps are cut out by the entries, in their order. -/
theorem maps_of_ofEntries {image : List UInt8} (h : ofEntries image es = .ok t) : t.maps = es.map (·.cut image) := by
  have hmap : ∀ e ∈ es, (t.map? ∘ MapEntry.name) e = some (e.cut image) :=
    fun e he => (map?_eq_some_iff h).2 ⟨e, he, rfl, rfl⟩
  rw [maps, names_of_ofEntries h, List.filterMap_map, List.filterMap_congr hmap]
  exact congrFun (List.filterMap_eq_map ..) es

end MapTable

namespace MapEntry

variable {e : MapEntry} {image : List UInt8} {a : Int}

theorem contains_cut_iff : (e.cut image).contains a = true ↔ e.vramStart ≤ a ∧ a < e.vramEnd := by
  rw [Overlay.contains, Bool.and_eq_true, decide_eq_true_eq, decide_eq_true_eq]
  rfl

theorem read?_cut_ne_none_iff : (e.cut image).read? a ≠ none ↔ e.vramStart ≤ a ∧ a < e.vramEnd := by
  rw [← @contains_cut_iff e image a, Overlay.read?]
  split <;> simp_all

/-- Cutting a map out and reading it from an address on is one slice, with at least one byte. -/
theorem Fits.read?_cut (h : e.Fits image.length) {bytes : List UInt8} (hread : (e.cut image).read? a = some bytes) :
    bytes = slice image (e.romStart + (a - e.vramStart)) e.romEnd ∧ bytes ≠ [] := by
  have hwindow := read?_cut_ne_none_iff.1 (Option.ne_none_iff_exists'.2 ⟨_, hread⟩)
  rw [Overlay.read?, if_pos (contains_cut_iff.2 hwindow), Option.some.injEq] at hread
  obtain ⟨hlow, hhigh⟩ := hwindow
  rw [vramEnd, h.length_eq] at hhigh
  obtain ⟨hstart, hlt, hend, -, -⟩ := h
  have hfrom : position image.length (e.romStart + (a - e.vramStart)) =
      e.romStart.toNat + (a - e.vramStart).toNat := by
    rw [position, if_neg (by omega)]
    omega
  have hto : position image.length e.romEnd = e.romEnd.toNat := by
    rw [position, if_neg (by omega)]
  constructor
  · rw [slice, hfrom, hto, ← List.drop_drop]
    exact hread.symm
  · have hlength := congrArg List.length hread
    simp only [cut, List.length_drop, List.length_take] at hlength
    rw [← List.length_pos_iff]
    omega

theorem Fits.read?_main (h : e.Fits image.length) :
    (e.cut image).read? e.main = some (e.cut image).mainBytes ∧ (e.cut image).mainBytes ≠ [] := by
  have hmain : e.main < e.vramEnd := by
    rw [vramEnd, h.length_eq]
    exact h.main_lt
  obtain ⟨bytes, hread⟩ := Option.ne_none_iff_exists'.1 (read?_cut_ne_none_iff.2 ⟨h.le_main, hmain⟩)
  have hbytes : (e.cut image).mainBytes = bytes := by
    rw [Overlay.mainBytes]
    exact congrArg (·.getD []) hread
  rw [hbytes]
  exact ⟨hread, (h.read?_cut hread).2⟩

end MapEntry

/-- A list of entries is refused just when an entry does not fit into the image or two have one name, and then for a
reason. Otherwise its maps stand in the table in their order, each can be read from the addresses of its window and no
others, and what is read is the image from the place of the address to the end of the map, at least one byte of it. -/
theorem MapTable.ofEntries_windows (image : List UInt8) (es : List MapEntry) :
    ((∃ err, ofEntries image es = .error err) ↔
      (∃ e ∈ es, ¬e.Fits image.length) ∨ ¬(es.map MapEntry.name).Nodup) ∧
    (∀ err, ofEntries image es = .error err → Refuses image.length es err) ∧
    ∀ t, ofEntries image es = .ok t →
      (t.names = es.map MapEntry.name ∧ t.names.Nodup ∧ t.maps.map Overlay.entry = es) ∧
      (∀ name m, t.map? name = some m ↔ m ∈ t.maps ∧ m.entry.name = name) ∧
      ∀ m ∈ t.maps,
        (∀ a, m.read? a ≠ none ↔ m.entry.vramStart ≤ a ∧ a < m.entry.vramEnd) ∧
        (∀ a bytes, m.read? a = some bytes →
          bytes = slice image (m.entry.romStart + (a - m.entry.vramStart)) m.entry.romEnd ∧ bytes ≠ []) ∧
        m.read? m.entry.main = some m.mainBytes ∧ m.mainBytes ≠ [] := by
  refine ⟨?_, fun _ => refuses_of_ofEntries, fun t h => ?_⟩
  · rw [exists_eq_error_iff, exists_ofEntries_eq_ok_iff, not_and_or]
    simp only [not_forall, exists_prop]
  have hmaps := maps_of_ofEntries h
  obtain ⟨hfits, hnodup, -, -⟩ := ofEntries_eq_ok_iff.1 h
  refine ⟨⟨names_of_ofEntries h, t.entries.nodup_keys, ?_⟩, fun name m => ?_, ?_⟩
  · rw [hmaps, List.map_map]
    exact List.map_id es
  · rw [map?_eq_some_iff h, hmaps, List.mem_map]
    constructor
    · rintro ⟨e, he, hname, rfl⟩
      exact ⟨⟨e, he, rfl⟩, hname⟩
    · rintro ⟨⟨e, he, rfl⟩, hname⟩
      exact ⟨e, he, hname, rfl⟩
  · rw [hmaps, List.forall_mem_map]
    intro e he
    exact ⟨fun _ => MapEntry.read?_cut_ne_none_iff, fun _ _ => (hfits e he).read?_cut, (hfits e he).read?_main⟩

end MapScript
