/-!
# Tables

A table is a finite map that remembers the order in which its keys came. Writing to a key that is there replaces the
value and keeps the place of the key; writing to any other key puts it at the end. Keys are distinct in every table.

The view of a table is `get?`, and `get?_insert` says what writing does to it.
-/

namespace MapScript

namespace Entries

variable {κ ν : Type} [DecidableEq κ]

/-- Value of the first entry at `k`. -/
def get? (k : κ) : List (κ × ν) → Option ν
  | [] => none
  | (k', v) :: rest => if k' = k then some v else get? k rest

/-- Replaces the value of the first entry at `k`, or adds an entry at the end. -/
def insert (k : κ) (v : ν) : List (κ × ν) → List (κ × ν)
  | [] => [(k, v)]
  | (k', w) :: rest => if k' = k then (k, v) :: rest else (k', w) :: insert k v rest

theorem get?_insert (k k' : κ) (v : ν) (es : List (κ × ν)) :
    get? k' (insert k v es) = if k = k' then some v else get? k' es := by
  induction es with
  | nil => simp [insert, get?]
  | cons e rest ih =>
    obtain ⟨a, w⟩ := e
    by_cases h : a = k
    · by_cases h' : k = k' <;> simp [insert, get?, h, h']
    · by_cases h' : k = k'
      · subst h'; simp [insert, get?, h, ih]
      · simp [insert, get?, h, h', ih]

theorem get?_map {μ : Type} (f : ν → μ) (k : κ) (es : List (κ × ν)) :
    get? k (es.map fun e => (e.1, f e.2)) = (get? k es).map f := by
  induction es with
  | nil => rfl
  | cons e rest ih =>
    obtain ⟨a, w⟩ := e
    by_cases h : a = k <;> simp [get?, h, ih]

theorem mem_keys_insert {k k' : κ} {v : ν} {es : List (κ × ν)} :
    k' ∈ (insert k v es).map Prod.fst ↔ k' = k ∨ k' ∈ es.map Prod.fst := by
  induction es with
  | nil => simp [insert]
  | cons e rest ih =>
    obtain ⟨a, w⟩ := e
    by_cases h : a = k
    · subst h; simp [insert]
    · simp only [insert, h, if_false, List.map_cons, List.mem_cons, ih]
      exact or_left_comm

theorem nodup_keys_insert (k : κ) (v : ν) {es : List (κ × ν)} (h : (es.map Prod.fst).Nodup) :
    ((insert k v es).map Prod.fst).Nodup := by
  induction es with
  | nil => simp [insert]
  | cons e rest ih =>
    obtain ⟨a, w⟩ := e
    rw [List.map_cons, List.nodup_cons] at h
    by_cases ha : a = k
    · subst ha; simpa [insert] using h
    · simp only [insert, ha, if_false, List.map_cons, List.nodup_cons, mem_keys_insert]
      exact ⟨by simpa using h.1, ih h.2⟩

theorem get?_eq_none_iff {k : κ} {es : List (κ × ν)} : get? k es = none ↔ k ∉ es.map Prod.fst := by
  induction es with
  | nil => simp [get?]
  | cons e rest ih =>
    obtain ⟨a, w⟩ := e
    by_cases h : a = k
    · simp [get?, h]
    · simp [get?, h, Ne.symm h, ih]

theorem mem_of_get?_eq_some {k : κ} {v : ν} {es : List (κ × ν)} (h : get? k es = some v) : (k, v) ∈ es := by
  induction es with
  | nil => simp [get?] at h
  | cons e rest ih =>
    obtain ⟨a, w⟩ := e
    by_cases ha : a = k
    · simp only [get?, ha, if_true, Option.some.injEq] at h
      simp [ha, h]
    · simp only [get?, ha, if_false] at h
      exact List.mem_cons_of_mem _ (ih h)

theorem get?_of_mem {k : κ} {v : ν} {es : List (κ × ν)} (hkeys : (es.map Prod.fst).Nodup) (h : (k, v) ∈ es) :
    get? k es = some v := by
  induction es with
  | nil => cases h
  | cons e rest ih =>
    obtain ⟨a, w⟩ := e
    rw [List.map_cons, List.nodup_cons] at hkeys
    rcases List.mem_cons.1 h with h | h
    · cases h; simp [get?]
    · have ha : a ≠ k := by
        rintro rfl
        exact hkeys.1 (List.mem_map.2 ⟨_, h, rfl⟩)
      simp [get?, ha, ih hkeys.2 h]

theorem insert_of_notMem {k : κ} {v : ν} {es : List (κ × ν)} (h : k ∉ es.map Prod.fst) :
    insert k v es = es ++ [(k, v)] := by
  induction es with
  | nil => rfl
  | cons e rest ih =>
    obtain ⟨a, w⟩ := e
    rw [List.map_cons, List.mem_cons, not_or] at h
    simp [insert, Ne.symm h.1, ih h.2]

end Entries

/-- A finite map as the list of its entries, with distinct keys. -/
structure Table (κ : Type) (ν : Type) where
  entries : List (κ × ν)
  nodup_keys : (entries.map Prod.fst).Nodup

namespace Table

variable {κ ν : Type}

@[ext] theorem ext {s t : Table κ ν} (h : s.entries = t.entries) : s = t := by
  cases s; cases t; cases h; rfl

instance [DecidableEq κ] [DecidableEq ν] : DecidableEq (Table κ ν) := fun _ _ =>
  decidable_of_iff _ ⟨ext, congrArg entries⟩

def empty : Table κ ν := ⟨[], .nil⟩

instance : Inhabited (Table κ ν) := ⟨empty⟩

def keys (t : Table κ ν) : List κ := t.entries.map Prod.fst

def values (t : Table κ ν) : List ν := t.entries.map Prod.snd

def size (t : Table κ ν) : Nat := t.entries.length

/-- The table with `f` applied to every value. -/
def mapValues {μ : Type} (f : ν → μ) (t : Table κ ν) : Table κ μ :=
  ⟨t.entries.map fun e => (e.1, f e.2), by simpa [Function.comp_def] using t.nodup_keys⟩

variable [DecidableEq κ]

/-- The value at a key. -/
def get? (t : Table κ ν) (k : κ) : Option ν := Entries.get? k t.entries

/-- The table with the value at `k` replaced by `v`. -/
def insert (t : Table κ ν) (k : κ) (v : ν) : Table κ ν :=
  ⟨Entries.insert k v t.entries, Entries.nodup_keys_insert k v t.nodup_keys⟩

/-- The table of a list of entries; of two entries at one key the later one counts. -/
def ofList (es : List (κ × ν)) : Table κ ν := es.foldl (fun t e => t.insert e.1 e.2) empty

@[simp] theorem get?_empty (k : κ) : (empty : Table κ ν).get? k = none := rfl

@[simp] theorem get?_insert (t : Table κ ν) (k k' : κ) (v : ν) :
    (t.insert k v).get? k' = if k = k' then some v else t.get? k' :=
  Entries.get?_insert k k' v t.entries

@[simp] theorem get?_mapValues {μ : Type} (f : ν → μ) (t : Table κ ν) (k : κ) :
    (t.mapValues f).get? k = (t.get? k).map f :=
  Entries.get?_map f k t.entries

/-- Of the values that are written for a key one after the other the last one counts. -/
theorem get?_foldl_insert {α : Type} (key : α → κ) (value : α → ν) (as : List α) (t : Table κ ν) (k : κ) :
    (as.foldl (fun t a => t.insert (key a) (value a)) t).get? k =
      ((as.findRev? fun a => key a = k).map value).or (t.get? k) := by
  induction as generalizing t with
  | nil => rfl
  | cons a as ih =>
    rw [List.foldl_cons, ih, get?_insert, List.findRev?]
    cases as.findRev? fun a => key a = k with
    | some b => rfl
    | none => by_cases h : key a = k <;> simp [h]

theorem mem_keys_insert {t : Table κ ν} {k k' : κ} {v : ν} :
    k' ∈ (t.insert k v).keys ↔ k' = k ∨ k' ∈ t.keys :=
  Entries.mem_keys_insert

theorem get?_eq_none_iff {t : Table κ ν} {k : κ} : t.get? k = none ↔ k ∉ t.keys :=
  Entries.get?_eq_none_iff

theorem mem_keys_iff {t : Table κ ν} {k : κ} : k ∈ t.keys ↔ ∃ v, t.get? k = some v := by
  rw [← Option.ne_none_iff_exists', ne_eq, get?_eq_none_iff, Decidable.not_not]

theorem mem_entries_of_get? {t : Table κ ν} {k : κ} {v : ν} (h : t.get? k = some v) : (k, v) ∈ t.entries :=
  Entries.mem_of_get?_eq_some h

theorem get?_eq_some_iff {t : Table κ ν} {k : κ} {v : ν} : t.get? k = some v ↔ (k, v) ∈ t.entries :=
  ⟨mem_entries_of_get?, Entries.get?_of_mem t.nodup_keys⟩

theorem entries_insert_of_notMem {t : Table κ ν} {k : κ} (h : k ∉ t.keys) (v : ν) :
    (t.insert k v).entries = t.entries ++ [(k, v)] :=
  Entries.insert_of_notMem h

end Table

end MapScript
