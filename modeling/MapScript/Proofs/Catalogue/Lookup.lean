import Mathlib.Data.List.Basic
import MapScript.Catalogue.Basic

/-!
# Looking up methods

A catalogue is seen through the method at an address, `lookup?`. Adding a method changes what is seen at its own address
(`lookup?_insert`). The list of a catalogue holds what is seen anywhere, in the order of the addresses and each address once
(`mem_toList_iff`, `pairwise_toList`).
-/

namespace MapScript.Catalogue

variable {c : Catalogue} {e : EntryPoint}

theorem lookup?_eq_some_iff {a : Int} : c.lookup? a = some e ↔ e.address = a ∧ (a, ⟨e.name, e.type⟩) ∈ c.methods.entries := by
  rw [lookup?, Option.map_eq_some_iff]
  constructor
  · rintro ⟨m, hget, rfl⟩
    exact ⟨rfl, Table.get?_eq_some_iff.1 hget⟩
  · rintro ⟨rfl, hmem⟩
    exact ⟨_, Table.get?_eq_some_iff.2 hmem, rfl⟩

theorem lookup?_empty (a : Int) : empty.lookup? a = none := rfl

theorem lookup?_insert (c : Catalogue) (e : EntryPoint) (a : Int) :
    (c.insert e).lookup? a = if e.address = a then some e else c.lookup? a := by
  rw [lookup?, insert, Table.get?_insert]
  by_cases h : e.address = a
  · subst h
    rw [if_pos rfl, if_pos rfl]
    rfl
  · rw [if_neg h, if_neg h]
    rfl

/-- The method of an entry of the table. -/
private def entryOf (entry : Int × Method) : EntryPoint := ⟨entry.1, entry.2.name, entry.2.type⟩

private theorem toList_perm (c : Catalogue) : c.toList.Perm (c.methods.entries.map entryOf) := List.mergeSort_perm ..

theorem mem_toList_iff : e ∈ c.toList ↔ c.lookup? e.address = some e := by
  rw [(toList_perm c).mem_iff, lookup?_eq_some_iff, List.mem_map]
  constructor
  · rintro ⟨entry, hmem, rfl⟩
    exact ⟨rfl, hmem⟩
  · rintro ⟨-, hmem⟩
    exact ⟨_, hmem, rfl⟩

/-- Addresses increase along the list. -/
theorem pairwise_toList (c : Catalogue) : c.toList.Pairwise fun d e => d.address < e.address := by
  have hsorted : c.toList.Pairwise fun d e => d.address ≤ e.address := by
    have htotal : ∀ d e : EntryPoint, (decide (d.address ≤ e.address) || decide (e.address ≤ d.address)) = true := by
      intro d e
      rw [Bool.or_eq_true, decide_eq_true_eq, decide_eq_true_eq]
      omega
    have htrans : ∀ d e f : EntryPoint, decide (d.address ≤ e.address) = true → decide (e.address ≤ f.address) = true →
        decide (d.address ≤ f.address) = true := by
      intro d e f
      rw [decide_eq_true_eq, decide_eq_true_eq, decide_eq_true_eq]
      omega
    exact (List.pairwise_mergeSort htrans htotal _).imp fun h => of_decide_eq_true h
  have hdistinct : (c.toList.map EntryPoint.address).Nodup := by
    rw [((toList_perm c).map EntryPoint.address).nodup_iff, List.map_map]
    exact c.methods.nodup_keys
  rw [List.Nodup, List.pairwise_map] at hdistinct
  exact hsorted.imp₂ (fun d e hle hne => by omega) hdistinct

end MapScript.Catalogue
