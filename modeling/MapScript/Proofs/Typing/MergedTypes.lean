import MapScript.Proofs.Typing.Merging

/-!
# What merged types rest on

The candidate that stands for others has forgotten them: those of its type leave no trace, and a use that prevails over it
takes its place. What every candidate still says for the merged type is `Supports`. If there are uses one of them has told
it, if there are none all candidates have, and a value of another type is an integer that is taken for a truth value, or has
an annotation of its own type beside it. Main statement: `resolve_support`.
-/

namespace MapScript.Typing

/-- What the concrete candidates of one name say for the type that they are merged to. -/
structure Supports (l : List Candidate) (type : DataType) : Prop where
  used : (∃ u ∈ l, u.source = .use) → ∃ u ∈ l, u.source = .use ∧ u.type = type
  unused : (∀ c ∈ l, c.source ≠ .use) → ∀ c ∈ l, c.type = type
  value : ∀ c ∈ l, c.source = .value →
    c.type = type ∨ c.type = .int ∧ type = .bool ∨ ∃ d ∈ l, d.source = .declaration ∧ d.type = c.type

section

variable {c r u : Candidate} {l : List Candidate}

/-- Of the candidates with a value only an integer gives way to a use of another type. -/
theorem Candidate.GivesWay.of_value (h : c.GivesWay r) (hc : c.source = .value) :
    c.type = r.type ∨ c.type = .int ∧ r.type = .bool := by
  rcases h with htype | ⟨-, hdeclared | ⟨hbool, -, hint⟩⟩
  · exact .inl htype
  · rw [hc] at hdeclared
    cases hdeclared
  · exact .inr ⟨hint, hbool⟩

/-- A use supports its own type if it is clear what the values say. -/
private theorem Supports.of_use (hmem : u ∈ l) (hu : u.source = .use)
    (hvalue : ∀ c ∈ l, c.source = .value →
      c.GivesWay u ∨ ∃ d ∈ l, d.source = .declaration ∧ d.type = c.type) : Supports l u.type := by
  refine ⟨fun _ => ⟨u, hmem, hu, rfl⟩, fun hno => absurd hu (hno u hmem), fun c hc hsource => ?_⟩
  rcases hvalue c hc hsource with hway | hdeclared
  · exact (hway.of_value hsource).imp_right .inl
  · exact .inr (.inr hdeclared)

theorem StandsFor.supports (h : StandsFor r l) : Supports l r.type := by
  have hmem := h.mem
  cases h with
  | agreed hrest =>
    have hall : ∀ c ∈ r :: _, c.type = r.type := List.forall_mem_cons.2 ⟨rfl, hrest⟩
    exact ⟨fun ⟨u, hu, hsource⟩ => ⟨u, hu, hsource, hall u hu⟩, fun _ => hall, fun c hc _ => .inl (hall c hc)⟩
  | use hu hrest =>
    exact .of_use hmem hu (List.forall_mem_cons.2 ⟨fun _ => .inl (.inl rfl), fun c hc _ => .inl (hrest c hc)⟩)
  | @takenOver first _ front back hp hne hfront hback =>
    -- a value in front has the type of the first candidate, which gives way as an annotation or as an integer value
    have hfirst : ∀ c : Candidate, c.type = first.type → c.source = .value →
        c.GivesWay r ∨ ∃ d ∈ first :: (front ++ r :: back), d.source = .declaration ∧ d.type = c.type := by
      intro c htype hsource
      rcases hp.2 with hdeclared | ⟨hbool, -, hint⟩
      · exact .inr ⟨first, List.mem_cons_self .., hdeclared, htype.symm⟩
      · exact .inl (.inr ⟨hp.1, .inr ⟨hbool, hsource, htype.trans hint⟩⟩)
    refine .of_use hmem hp.1 ?_
    rw [List.forall_mem_cons, List.forall_mem_append, List.forall_mem_cons]
    exact ⟨hfirst first rfl, fun c hc => hfirst c (hfront c hc), fun _ => .inl (.inl rfl), fun c hc _ => .inl (hback c hc)⟩

end

section

variable {cs : List Candidate} {resolved : Table Text DataType} {name : Text}

theorem exists_standsFor_of_resolve {type : DataType} (h : resolve cs = .ok resolved)
    (hget : resolved.get? name = some type) : ∃ r, StandsFor r (told name cs) ∧ r.type = type := by
  rw [get?_of_resolve h, Option.map_eq_some_iff] at hget
  obtain ⟨r, hr, htype⟩ := hget
  exact ⟨r, standing?_eq_some_iff.1 hr, htype⟩

/-- The names with a merged type are those with a concrete candidate. -/
theorem exists_get?_of_resolve_iff (h : resolve cs = .ok resolved) :
    (∃ type, resolved.get? name = some type) ↔ ∃ c ∈ cs, c.name = name ∧ c.type ≠ .any := by
  constructor
  · rintro ⟨type, hget⟩
    obtain ⟨r, hr, -⟩ := exists_standsFor_of_resolve h hget
    exact ⟨r, mem_told.1 hr.mem⟩
  · rintro ⟨c, hc, rfl, hconcrete⟩
    obtain ⟨type, hget, -⟩ := exists_get?_of_resolve h hc hconcrete
    exact ⟨type, hget⟩

end

/-- The merged types are those of the names with a concrete candidate, and the candidates of a name support its type. -/
theorem resolve_support {cs : List Candidate} {resolved : Table Text DataType} (h : resolve cs = .ok resolved) :
    (∀ name, name ∈ resolved.keys ↔ ∃ c ∈ cs, c.name = name ∧ c.type ≠ .any) ∧
    ∀ name type, resolved.get? name = some type → Supports (told name cs) type := by
  constructor
  · intro name
    rw [Table.mem_keys_iff, exists_get?_of_resolve_iff h]
  · intro name type hget
    obtain ⟨r, hr, rfl⟩ := exists_standsFor_of_resolve h hget
    exact hr.supports

/-- An annotation with a value of its type, which no use of another type lets clash. -/
private def annotatedValue : List Candidate := [⟨"x", .float, .declaration⟩, ⟨"x", .float, .value⟩, ⟨"x", .bool, .use⟩]

theorem resolve_support_annotated :
    ∃ resolved, resolve annotatedValue = .ok resolved ∧ resolved.get? "x" = some .bool ∧ ("x" : Text) ∈ resolved.keys ∧
      Supports (told "x" annotatedValue) .bool := by
  have hok : ∃ resolved, resolve annotatedValue = .ok resolved ∧ resolved.get? "x" = some .bool := ⟨_, rfl, rfl⟩
  obtain ⟨resolved, hok, hget⟩ := hok
  obtain ⟨hkeys, hsupports⟩ := resolve_support hok
  refine ⟨resolved, hok, hget, (hkeys "x").2 ⟨⟨"x", .float, .declaration⟩, ?_, rfl, nofun⟩, hsupports "x" .bool hget⟩
  exact List.mem_cons_self ..

end MapScript.Typing
