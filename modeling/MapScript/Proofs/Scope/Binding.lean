import MapScript.Scope

/-!
# Binding in a scope

What is looked up when a name has been bound, or an address with its name. Only the innermost layer changes, and in it
only what is bound.
-/

namespace MapScript.Scope

/-! ### Binding a name -/

theorem typeOf?_bindName {s s' : Scope} {name : Text} {type : DataType} (h : s.bindName name type = .ok s')
    (other : Text) : s'.typeOf? other = if name = other then some type else s.typeOf? other := by
  obtain ⟨_ | ⟨layer, outer⟩⟩ := s
  · cases h
  · cases h
    by_cases hn : name = other
    · simp [typeOf?, hn]
    · simp [typeOf?, List.findSome?_cons, hn]

theorem tail_bindName {s s' : Scope} {name : Text} {type : DataType} (h : s.bindName name type = .ok s') :
    s'.layers.tail = s.layers.tail := by
  obtain ⟨_ | ⟨layer, outer⟩⟩ := s
  · cases h
  · cases h; rfl

theorem addresses_bindName {s s' : Scope} {name : Text} {type : DataType} (h : s.bindName name type = .ok s') :
    s'.layers.map Layer.addresses = s.layers.map Layer.addresses := by
  obtain ⟨_ | ⟨layer, outer⟩⟩ := s
  · cases h
  · cases h; rfl

theorem nameAt?_eq_addresses (s : Scope) (address : Int) :
    s.nameAt? address = (s.layers.map Layer.addresses).findSome? fun addresses => addresses.get? address := by
  rw [nameAt?, List.findSome?_map]
  rfl

theorem nameAt?_bindName {s s' : Scope} {name : Text} {type : DataType} (h : s.bindName name type = .ok s')
    (address : Int) : s'.nameAt? address = s.nameAt? address := by
  rw [nameAt?_eq_addresses, nameAt?_eq_addresses, addresses_bindName h]

theorem depth_bindName {s s' : Scope} {name : Text} {type : DataType} (h : s.bindName name type = .ok s') :
    s'.depth = s.depth := by
  have hlength := congrArg List.length (addresses_bindName h)
  rwa [List.length_map, List.length_map] at hlength

theorem exists_bindName {s : Scope} (h : 0 < s.depth) (name : Text) (type : DataType) :
    ∃ s', s.bindName name type = .ok s' := by
  obtain ⟨_ | ⟨layer, outer⟩⟩ := s
  · exact absurd h (Nat.lt_irrefl 0)
  · exact ⟨_, rfl⟩

/-- The innermost layer comes first, and then the layers around it. -/
theorem typeOf?_eq_or_tail (s : Scope) (name : Text) :
    s.typeOf? name = (s.currentType? name).or (s.layers.tail.findSome? fun layer => layer.names.get? name) := by
  obtain ⟨_ | ⟨layer, outer⟩⟩ := s
  · rfl
  · rw [typeOf?, List.findSome?_cons, currentType?, List.head?_cons, Option.bind_some, List.tail_cons]
    cases layer.names.get? name <;> rfl

theorem typeOf?_of_currentType? {s : Scope} {name : Text} {type : DataType} (h : s.currentType? name = some type) :
    s.typeOf? name = some type := by
  rw [typeOf?_eq_or_tail, h, Option.some_or]

/-! ### Binding an address -/

section

variable {s s' : Scope} {address : Int} {name : Text} {type : DataType}

theorem currentType?_bindAddress (h : s.bindAddress address name type = .ok s') (other : Text) :
    s'.currentType? other = if name = other then some type else s.currentType? other := by
  obtain ⟨_ | ⟨layer, outer⟩⟩ := s
  · cases h
  · cases h; simp [currentType?]

theorem typeOf?_bindAddress (h : s.bindAddress address name type = .ok s') (other : Text) :
    s'.typeOf? other = if name = other then some type else s.typeOf? other := by
  obtain ⟨_ | ⟨layer, outer⟩⟩ := s
  · cases h
  · cases h
    by_cases hn : name = other
    · simp [typeOf?, hn]
    · simp [typeOf?, List.findSome?_cons, hn]

theorem nameAt?_bindAddress (h : s.bindAddress address name type = .ok s') (other : Int) :
    s'.nameAt? other = if address = other then some name else s.nameAt? other := by
  obtain ⟨_ | ⟨layer, outer⟩⟩ := s
  · cases h
  · cases h
    by_cases ha : address = other
    · simp [nameAt?, ha]
    · simp [nameAt?, List.findSome?_cons, ha]

theorem tail_bindAddress (h : s.bindAddress address name type = .ok s') : s'.layers.tail = s.layers.tail := by
  obtain ⟨_ | ⟨layer, outer⟩⟩ := s
  · cases h
  · cases h; rfl

theorem depth_bindAddress (h : s.bindAddress address name type = .ok s') : s'.depth = s.depth := by
  obtain ⟨_ | ⟨layer, outer⟩⟩ := s
  · cases h
  · cases h; rfl

end

end MapScript.Scope
