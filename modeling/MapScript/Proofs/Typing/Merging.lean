import Mathlib.Data.List.Perm.Basic
import MapScript.Proofs.Typing.Commit

/-!
# Merging candidates

Candidates of one name are judged pair by pair: two of them clash if they differ and neither prevails over the other
(`Candidate.Clashes`). The merge does not look at the pairs. It keeps one candidate for every name and compares each further
one with it, so that what it finds depends on the order: a value or an annotation that comes first stands for all candidates
of its type, and the uses among them are forgotten.

What the merge does is `resolve_cases`, by the candidate that stands for those of a name (`StandsFor`). A clash is
noticed in every order unless a use covers it (`Covered`), and `judgedByPairs_iff` says of which candidates the merge
judges pair by pair. A single use has the merged type unless it is hidden in this way (`resolve_use_iff`).
-/

namespace MapScript.Typing

/-! ### Pairs of candidates -/

namespace Candidate

/-- Whether a candidate is a use that takes the place of another candidate of a different type. -/
def Prevails (u c : Candidate) : Prop :=
  u.source = .use ∧ (c.source = .declaration ∨ u.type = .bool ∧ c.source = .value ∧ c.type = .int)

/-- Whether a candidate changes nothing where another one stands. -/
def GivesWay (c r : Candidate) : Prop := c.type = r.type ∨ r.Prevails c

/-- Two concrete candidates of one name that differ, and neither prevails over the other. -/
structure Clashes (c d : Candidate) : Prop where
  name : c.name = d.name
  left : c.type ≠ .any
  right : d.type ≠ .any
  type : c.type ≠ d.type
  not_prevails : ¬c.Prevails d
  not_prevailed : ¬d.Prevails c

instance (u c : Candidate) : Decidable (u.Prevails c) := inferInstanceAs (Decidable (_ ∧ _))

instance (c r : Candidate) : Decidable (c.GivesWay r) := inferInstanceAs (Decidable (_ ∨ _))

variable {c d u : Candidate}

theorem overrides_iff : c.overrides d = true ↔ c.Prevails d := by
  cases hd : d.source <;> simp [overrides, Prevails, hd]

theorem Prevails.source_ne (h : u.Prevails c) : c.source ≠ .use := by
  rcases h.2 with hc | ⟨-, hc, -⟩ <;> simp [hc]

theorem Prevails.not_prevails (h : u.Prevails c) : ¬c.Prevails u := fun h' => h.source_ne h'.1

theorem GivesWay.type_eq_of_use (h : c.GivesWay d) (hc : c.source = .use) : c.type = d.type :=
  h.resolve_right fun hp => hp.source_ne hc

theorem GivesWay.type_eq (h : c.GivesWay d) (h' : d.GivesWay c) : c.type = d.type := by
  rcases h with h | h
  · exact h
  · exact (h'.resolve_right h.not_prevails).symm

end Candidate

/-- The concrete candidates of a name. -/
def told (name : Text) (cs : List Candidate) : List Candidate := cs.filter (·.tells name)

theorem mem_told {name : Text} {cs : List Candidate} {c : Candidate} :
    c ∈ told name cs ↔ c ∈ cs ∧ c.name = name ∧ c.type ≠ .any := by
  rw [told, List.mem_filter, Candidate.tells_iff]

/-- Of two candidates, one gives way to the other. -/
def Compatible (l : List Candidate) : Prop := ∀ c ∈ l, ∀ d ∈ l, c.GivesWay d ∨ d.GivesWay c

theorem compatible_told_iff {name : Text} {cs : List Candidate} :
    Compatible (told name cs) ↔ ∀ c ∈ cs, ∀ d ∈ cs, c.name = name → ¬c.Clashes d := by
  constructor
  · intro h c hc d hd hname hclash
    have hc' := mem_told.2 ⟨hc, hname, hclash.left⟩
    have hd' := mem_told.2 ⟨hd, hclash.name.symm.trans hname, hclash.right⟩
    rcases h c hc' d hd' with (htype | hp) | (htype | hp)
    · exact hclash.type htype
    · exact hclash.not_prevailed hp
    · exact hclash.type htype.symm
    · exact hclash.not_prevails hp
  · intro h c hc d hd
    obtain ⟨hc, hname, hleft⟩ := mem_told.1 hc
    obtain ⟨hd, hname', hright⟩ := mem_told.1 hd
    by_contra hno
    rw [not_or, Candidate.GivesWay, not_or, Candidate.GivesWay, not_or] at hno
    exact h c hc d hd hname ⟨hname.trans hname'.symm, hleft, hright, hno.1.1, hno.2.2, hno.1.2⟩

/-! ### The candidate that stands for others -/

/-- The candidate that stands for candidates of one name which come in this order. Those of the type of the first one
change nothing; the first use that prevails over it takes its place; and what comes behind a use gives way to it. -/
inductive StandsFor : Candidate → List Candidate → Prop
  | agreed {first : Candidate} {rest : List Candidate} : (∀ c ∈ rest, c.type = first.type) →
    StandsFor first (first :: rest)
  | use {u : Candidate} {rest : List Candidate} : u.source = .use → (∀ c ∈ rest, c.GivesWay u) →
    StandsFor u (u :: rest)
  | takenOver {first u : Candidate} {front back : List Candidate} : u.Prevails first → u.type ≠ first.type →
    (∀ c ∈ front, c.type = first.type) → (∀ c ∈ back, c.GivesWay u) → StandsFor u (first :: (front ++ u :: back))

/-- The candidate that stands for `r` and those that come behind it, unless one of them clashes with the one in front. -/
def merge : Candidate → List Candidate → Option Candidate
  | r, [] => some r
  | r, c :: rest => if c.GivesWay r then merge r rest else if c.Prevails r then merge c rest else none

def standing? : List Candidate → Option Candidate
  | [] => none
  | first :: rest => merge first rest

section

variable {c r r' u : Candidate} {l m rest : List Candidate}

theorem merge_append : merge r (l ++ m) = (merge r l).bind fun r' => merge r' m := by
  induction l generalizing r with
  | nil => rfl
  | cons c l ih =>
    rw [List.cons_append, merge, merge]
    split
    · exact ih
    · split
      · exact ih
      · rfl

theorem merge_of_use (hu : u.source = .use) : merge u rest = some r ↔ u = r ∧ ∀ c ∈ rest, c.GivesWay u := by
  induction rest with
  | nil => simp [merge]
  | cons c rest ih =>
    rw [merge]
    by_cases hc : c.GivesWay u
    · rw [if_pos hc, ih, List.forall_mem_cons, and_iff_right hc]
    · rw [if_neg hc, if_neg fun hp => hp.source_ne hu, List.forall_mem_cons]
      exact ⟨nofun, fun h => absurd h.2.1 hc⟩

theorem standsFor_cons_iff : StandsFor r' (r :: rest) ↔
    r = r' ∧ ((∀ c ∈ rest, c.type = r.type) ∨ r.source = .use ∧ ∀ c ∈ rest, c.GivesWay r) ∨
    r'.Prevails r ∧ r'.type ≠ r.type ∧ ∃ front back, rest = front ++ r' :: back ∧ (∀ c ∈ front, c.type = r.type) ∧
      ∀ c ∈ back, c.GivesWay r' := by
  constructor
  · intro h
    generalize hl : r :: rest = l at h
    cases h with
    | agreed hrest =>
      cases hl
      exact .inl ⟨rfl, .inl hrest⟩
    | use hu hrest =>
      cases hl
      exact .inl ⟨rfl, .inr ⟨hu, hrest⟩⟩
    | takenOver hp hne hfront hback =>
      cases hl
      exact .inr ⟨hp, hne, _, _, rfl, hfront, hback⟩
  · rintro (⟨rfl, hrest | ⟨hu, hrest⟩⟩ | ⟨hp, hne, front, back, rfl, hfront, hback⟩)
    · exact .agreed hrest
    · exact .use hu hrest
    · exact .takenOver hp hne hfront hback

/-- A candidate in front that has the type of the first one and is no use makes no difference. -/
private theorem standsFor_cons_cons (hr : r.source ≠ .use) (hc : c.type = r.type) :
    StandsFor r' (r :: c :: rest) ↔ StandsFor r' (r :: rest) := by
  rw [standsFor_cons_iff, standsFor_cons_iff]
  constructor
  · rintro (⟨rfl, hall | ⟨hu, -⟩⟩ | ⟨hp, hne, _ | ⟨d, front⟩, back, hrest, hfront, hback⟩)
    · exact .inl ⟨rfl, .inl (List.forall_mem_cons.1 hall).2⟩
    · exact absurd hu hr
    · cases hrest
      exact absurd hc hne
    · cases hrest
      exact .inr ⟨hp, hne, front, back, rfl, (List.forall_mem_cons.1 hfront).2, hback⟩
  · rintro (⟨rfl, hall | ⟨hu, -⟩⟩ | ⟨hp, hne, front, back, rfl, hfront, hback⟩)
    · exact .inl ⟨rfl, .inl (List.forall_mem_cons.2 ⟨hc, hall⟩)⟩
    · exact absurd hu hr
    · exact .inr ⟨hp, hne, c :: front, back, rfl, List.forall_mem_cons.2 ⟨hc, hfront⟩, hback⟩

/-- A candidate of another type than the first one, which is no use, has to be a use that prevails. -/
private theorem standsFor_cons_cons_of_ne (hr : r.source ≠ .use) (hc : c.type ≠ r.type) :
    StandsFor r' (r :: c :: rest) ↔ c.Prevails r ∧ c = r' ∧ ∀ d ∈ rest, d.GivesWay c := by
  rw [standsFor_cons_iff]
  constructor
  · rintro (⟨rfl, hall | ⟨hu, -⟩⟩ | ⟨hp, -, _ | ⟨d, front⟩, back, hrest, hfront, hback⟩)
    · exact absurd (List.forall_mem_cons.1 hall).1 hc
    · exact absurd hu hr
    · cases hrest
      exact ⟨hp, rfl, hback⟩
    · cases hrest
      exact absurd (List.forall_mem_cons.1 hfront).1 hc
  · rintro ⟨hp, rfl, hrest⟩
    exact .inr ⟨hp, hc, [], rest, rfl, List.forall_mem_nil _, hrest⟩

private theorem standsFor_cons_of_use (hu : u.source = .use) :
    StandsFor r (u :: rest) ↔ u = r ∧ ∀ c ∈ rest, c.GivesWay u := by
  rw [standsFor_cons_iff]
  constructor
  · rintro (⟨rfl, hall | ⟨-, hall⟩⟩ | ⟨hp, -⟩)
    · exact ⟨rfl, fun c hc => .inl (hall c hc)⟩
    · exact ⟨rfl, hall⟩
    · exact absurd hu hp.source_ne
  · rintro ⟨rfl, hall⟩
    exact .inl ⟨rfl, .inr ⟨hu, hall⟩⟩

theorem merge_eq_some_iff : merge r rest = some r' ↔ StandsFor r' (r :: rest) := by
  rcases Decidable.em (r.source = .use) with hu | hr
  · rw [merge_of_use hu, standsFor_cons_of_use hu]
  · induction rest with
    | nil =>
      rw [merge, Option.some_inj, standsFor_cons_iff]
      constructor
      · rintro rfl
        exact .inl ⟨rfl, .inl (List.forall_mem_nil _)⟩
      · rintro (⟨rfl, -⟩ | ⟨-, -, front, back, hnil, -⟩)
        · rfl
        · exact absurd hnil (by simp)
    | cons c rest ih =>
      rw [merge]
      -- only a use has others give way to it by prevailing over them
      have hway : c.GivesWay r ↔ c.type = r.type := or_iff_left fun hp => hr hp.1
      by_cases hc : c.type = r.type
      · rw [if_pos (hway.2 hc), standsFor_cons_cons hr hc, ih]
      · rw [if_neg (mt hway.1 hc), standsFor_cons_cons_of_ne hr hc]
        split
        · rename_i hp
          rw [merge_of_use hp.1, and_iff_right hp]
        · rename_i hp
          exact ⟨nofun, fun h => absurd h.1 hp⟩

theorem standing?_eq_some_iff : standing? l = some r ↔ StandsFor r l := by
  cases l with
  | nil => exact ⟨nofun, fun h => by cases h⟩
  | cons first rest => exact merge_eq_some_iff

theorem standing?_append_cons : standing? (l ++ c :: m) = (standing? (l ++ [c])).bind fun r => merge r m := by
  rw [List.append_cons]
  cases l with
  | nil => rfl
  | cons first l => exact merge_append

theorem StandsFor.mem (h : StandsFor r l) : r ∈ l := by
  cases h <;> simp

end

/-! ### What the merge does -/

/-- Whether the merge reports that a variable is used as two types. -/
def Fails (cs : List Candidate) : Prop :=
  ∃ name first second, resolve cs = .error (.mismatch (.used name first second))

/-- The candidate that stands for a name, followed by those that are still to be merged. -/
private def line (chosen : Table Text Candidate) (cs : List Candidate) (name : Text) : List Candidate :=
  (chosen.get? name).toList ++ told name cs

private theorem prevailing_eq {r c : Candidate} (h : c.type ≠ r.type) : prevailing r c =
    match standing? [r, c] with
    | some r' => .ok r'
    | none => .error (.mismatch (.used r.name r.type c.type)) := by
  unfold prevailing
  simp only [Candidate.overrides_iff, standing?, merge, Candidate.GivesWay, h, false_or]
  split
  · rfl
  · split <;> rfl

/-- A concrete candidate is merged with the one that stands for its name. -/
private theorem choose_concrete {chosen : Table Text Candidate} {c : Candidate} (hc : c.type ≠ .any)
    (hconcrete : ∀ {name r}, chosen.get? name = some r → r.type ≠ .any) :
    (∃ r chosen', standing? ((chosen.get? c.name).toList ++ [c]) = some r ∧ choose chosen c = .ok chosen' ∧
      ∀ name, chosen'.get? name = if c.name = name then some r else chosen.get? name) ∨
    standing? ((chosen.get? c.name).toList ++ [c]) = none ∧
      ∃ name first second, choose chosen c = .error (.mismatch (.used name first second)) := by
  unfold choose
  rw [if_neg fun h => hc (DataType.isWildcard_iff.1 h)]
  cases hd : chosen.get? c.name with
  | none => exact .inl ⟨c, _, rfl, rfl, fun name => Table.get?_insert ..⟩
  | some d =>
    rw [Option.toList_some, List.singleton_append]
    by_cases hway : c.type = d.type
    · refine .inl ⟨d, chosen, ?_, ?_, fun name => ?_⟩
      · rw [standing?, merge, if_pos (.inl hway), merge]
      · simp only [hway, DataType.unify_self]
      · split
        · rename_i hname
          rw [← hname, hd]
        · rfl
    · have hunify : d.type.unify c.type = none := DataType.unify_eq_none_iff.2 ⟨hconcrete hd, hc, Ne.symm hway⟩
      simp only [hunify, prevailing_eq hway]
      cases hs : standing? [d, c] with
      | none => exact .inr ⟨rfl, _, _, _, rfl⟩
      | some r => exact .inl ⟨r, _, rfl, rfl, fun name => Table.get?_insert ..⟩

private theorem foldlM_choose {cs : List Candidate} {chosen : Table Text Candidate}
    (hconcrete : ∀ {name r}, chosen.get? name = some r → r.type ≠ .any) :
    (∃ chosen', cs.foldlM choose chosen = .ok chosen' ∧ ∀ name, chosen'.get? name = standing? (line chosen cs name) ∧
      (line chosen cs name = [] ∨ ∃ r, standing? (line chosen cs name) = some r)) ∨
    (∃ name first second, cs.foldlM choose chosen = .error (.mismatch (.used name first second))) ∧
      ∃ name, line chosen cs name ≠ [] ∧ standing? (line chosen cs name) = none := by
  induction cs generalizing chosen with
  | nil =>
    refine .inl ⟨chosen, rfl, fun name => ?_⟩
    rw [line, told, List.filter_nil, List.append_nil]
    cases chosen.get? name with
    | none => exact ⟨rfl, .inl rfl⟩
    | some r => exact ⟨rfl, .inr ⟨r, rfl⟩⟩
  | cons c cs ih =>
    rw [List.foldlM_cons]
    by_cases hc : c.type = .any
    · have hline : ∀ name, line chosen (c :: cs) name = line chosen cs name := fun name => by
        rw [line, told, List.filter_cons_of_neg fun h => (Candidate.tells_iff.1 h).2 hc]
        rfl
      have hchoose : choose chosen c = .ok chosen := if_pos (DataType.isWildcard_iff.2 hc)
      rw [hchoose]
      simp only [hline]
      exact ih hconcrete
    · have hown : line chosen (c :: cs) c.name = (chosen.get? c.name).toList ++ c :: told c.name cs := by
        rw [line, told, List.filter_cons_of_pos (Candidate.tells_iff.2 ⟨rfl, hc⟩)]
        rfl
      have hother : ∀ {name}, c.name ≠ name → line chosen (c :: cs) name = (chosen.get? name).toList ++ told name cs :=
        fun hne => by
          rw [line, told, List.filter_cons_of_neg fun h => hne (Candidate.tells_iff.1 h).1]
          rfl
      rcases choose_concrete hc hconcrete with ⟨r, chosen₁, hr, hchoose, hget⟩ | ⟨hnone, name, first, second, hchoose⟩
      · rw [hchoose]
        have hconcrete₁ : ∀ {name r'}, chosen₁.get? name = some r' → r'.type ≠ .any := by
          intro name r' h
          rw [hget] at h
          split at h
          · cases h
            rcases List.mem_append.1 (standing?_eq_some_iff.1 hr).mem with hm | hm
            · exact hconcrete (Option.mem_toList.1 hm)
            · rwa [List.mem_singleton.1 hm]
          · exact hconcrete h
        -- the lines behind the step have the same standing candidates as those in front of it
        have hlines : ∀ name, standing? (line chosen (c :: cs) name) = standing? (line chosen₁ cs name) ∧
            (line chosen (c :: cs) name = [] ↔ line chosen₁ cs name = []) := by
          intro name
          by_cases hname : c.name = name
          · subst hname
            have hline₁ : line chosen₁ cs c.name = r :: told c.name cs := by
              rw [line, hget, if_pos rfl]
              rfl
            rw [hown, hline₁, standing?_append_cons, hr]
            exact ⟨rfl, by simp⟩
          · rw [hother hname, line, hget, if_neg hname]
            exact ⟨rfl, Iff.rfl⟩
        simp only [hlines, ne_eq]
        exact ih hconcrete₁
      · rw [hchoose]
        refine .inr ⟨⟨name, first, second, rfl⟩, c.name, ?_, ?_⟩
        · simp [hown]
        · rw [hown, standing?_append_cons, hnone, Option.bind_none]

/-- Either every name has the type of the candidate that stands for it, or there is a name with candidates and none of them
stands for the others. -/
theorem resolve_cases (cs : List Candidate) :
    (∃ resolved, resolve cs = .ok resolved ∧ ∀ name, resolved.get? name = (standing? (told name cs)).map Candidate.type ∧
      (told name cs = [] ∨ ∃ r, StandsFor r (told name cs))) ∨
    Fails cs ∧ ∃ name, told name cs ≠ [] ∧ ∀ r, ¬StandsFor r (told name cs) := by
  have hline : ∀ name, line .empty cs name = told name cs := fun name => rfl
  have h := @foldlM_choose cs .empty nofun
  simp only [hline] at h
  rcases h with ⟨chosen, hchosen, h⟩ | ⟨⟨name, first, second, hfails⟩, name', hne, hnone⟩
  · refine .inl ⟨chosen.mapValues Candidate.type, ?_, fun name => ⟨?_, ?_⟩⟩
    · rw [resolve, hchosen]
      rfl
    · rw [Table.get?_mapValues, (h name).1]
    · exact (h name).2.imp_right fun ⟨r, hr⟩ => ⟨r, standing?_eq_some_iff.1 hr⟩
  · refine .inr ⟨⟨name, first, second, ?_⟩, name', hne, fun r hr => ?_⟩
    · rw [resolve, hfails]
      rfl
    · rw [standing?_eq_some_iff.2 hr] at hnone
      cases hnone

theorem fails_iff {cs : List Candidate} : Fails cs ↔ ∃ name, told name cs ≠ [] ∧ ∀ r, ¬StandsFor r (told name cs) := by
  rcases resolve_cases cs with ⟨resolved, hok, h⟩ | h
  · constructor
    · rintro ⟨name, first, second, hfails⟩
      rw [hok] at hfails
      cases hfails
    · rintro ⟨name, hne, hnone⟩
      obtain ⟨r, hr⟩ := (h name).2.resolve_left hne
      exact absurd hr (hnone r)
  · exact ⟨fun _ => h.2, fun _ => h.1⟩

theorem get?_of_resolve {cs : List Candidate} {resolved : Table Text DataType} (h : resolve cs = .ok resolved) (name : Text) :
    resolved.get? name = (standing? (told name cs)).map Candidate.type := by
  rcases resolve_cases cs with ⟨_, hok, hget⟩ | ⟨⟨_, _, _, hfails⟩, -⟩
  · rw [h] at hok
    cases hok
    exact (hget name).1
  · rw [h] at hfails
    cases hfails

/-! ### Uses among other candidates -/

/-- A use between other candidates is hidden if all of its name have its type up to a use of another type that prevails over
the first one of them. -/
def Hidden (front back : List Candidate) (c : Candidate) : Prop :=
  ∃ first seen more u rest, told c.name front = first :: seen ∧ told c.name back = more ++ u :: rest ∧
    (∀ d ∈ first :: (seen ++ more), d.type = c.type) ∧ u.type ≠ c.type ∧ u.Prevails first

section

variable {c first r u : Candidate} {l m seen more rest : List Candidate}

/-- What stands for a use has its type, or is a later use of another type: then the first candidate had stood for both up
to there. -/
private theorem StandsFor.cases_of_use (h : StandsFor r (l ++ c :: m)) (hc : c.source = .use) :
    r.type = c.type ∨ ∃ first seen more rest, l = first :: seen ∧ m = more ++ r :: rest ∧
      (∀ d ∈ first :: (seen ++ more), d.type = c.type) ∧ r.type ≠ c.type ∧ r.Prevails first := by
  have hmem : c ∈ l ++ c :: m := List.mem_append_right _ (List.mem_cons_self ..)
  generalize hlist : l ++ c :: m = list at h hmem
  cases h with
  | agreed hrest =>
    rcases List.mem_cons.1 hmem with rfl | hmem
    · exact .inl rfl
    · exact .inl (hrest c hmem).symm
  | use _ hrest =>
    rcases List.mem_cons.1 hmem with rfl | hmem
    · exact .inl rfl
    · exact .inl ((hrest c hmem).type_eq_of_use hc).symm
  | @takenOver first _ front back hp hne hfront hback =>
    cases l with
    | nil =>
      cases hlist
      exact absurd hc hp.source_ne
    | cons first' seen =>
      obtain ⟨rfl, hrest⟩ := List.cons.inj hlist
      rcases List.append_eq_append_iff.1 hrest with ⟨more, rfl, hm⟩ | ⟨more, rfl, hm⟩
      · cases more with
        | nil =>
          cases hm
          exact .inl rfl
        | cons d more =>
          -- the use stands among those in front, which have the type of the first one
          cases hm
          have htype : c.type = first'.type := hfront c (by simp)
          refine .inr ⟨first', seen, more, back, rfl, rfl, ?_, by rwa [htype], hp⟩
          rw [List.forall_mem_cons]
          refine ⟨htype.symm, fun d hd => ?_⟩
          rw [htype]
          exact hfront d (by rcases List.mem_append.1 hd with hd | hd <;> simp [hd])
      · cases more with
        | nil =>
          cases hm
          exact .inl rfl
        | cons d more =>
          cases hm
          exact .inl ((hback c (by simp)).type_eq_of_use hc).symm

/-- Where all candidates have the type of the first one, the one that prevails over it stands for it. -/
private theorem StandsFor.eq_of_prevails (h : StandsFor r (first :: (l ++ u :: rest))) (hl : ∀ d ∈ l, d.type = first.type)
    (hne : u.type ≠ first.type) (hp : u.Prevails first) : r = u := by
  have hfront : merge first l = some first := merge_eq_some_iff.2 (.agreed hl)
  have hway : ¬u.GivesWay first := fun hway => hway.elim hne hp.not_prevails
  rw [← merge_eq_some_iff, merge_append, hfront, Option.bind_some, merge, if_neg hway, if_pos hp, merge_of_use hp.1] at h
  exact h.1.symm

end

/-- A use has the merged type just when it is not hidden. -/
theorem resolve_use_iff {front back : List Candidate} {c : Candidate} {resolved : Table Text DataType}
    (h : resolve (front ++ c :: back) = .ok resolved) (hu : c.source = .use) (hc : c.type ≠ .any) :
    resolved.get? c.name = some c.type ↔ ¬Hidden front back c := by
  have hmem : c ∈ front ++ c :: back := List.mem_append_right _ (List.mem_cons_self ..)
  have htold : told c.name (front ++ c :: back) = told c.name front ++ c :: told c.name back := by
    rw [told, List.filter_append, List.filter_cons_of_pos (Candidate.tells_iff.2 ⟨rfl, hc⟩)]
    rfl
  obtain ⟨type, hget, -⟩ := exists_get?_of_resolve h hmem hc
  have hstanding := get?_of_resolve h c.name
  rw [hget, htold, eq_comm, Option.map_eq_some_iff] at hstanding
  obtain ⟨r, hr, rfl⟩ := hstanding
  have hr := standing?_eq_some_iff.1 hr
  rw [hget, Option.some_inj]
  constructor
  · rintro htype ⟨first, seen, more, u, rest, hfront, hback, hall, hne, hp⟩
    have hlist : told c.name front ++ c :: told c.name back = first :: ((seen ++ c :: more) ++ u :: rest) := by
      rw [hfront, hback]
      simp
    obtain ⟨hfirst, hrest⟩ := List.forall_mem_cons.1 hall
    obtain ⟨hseen, hmore⟩ := List.forall_mem_append.1 hrest
    have hbetween : ∀ d ∈ seen ++ c :: more, d.type = first.type := by
      rw [List.forall_mem_append, List.forall_mem_cons, hfirst]
      exact ⟨hseen, rfl, hmore⟩
    rw [hlist] at hr
    have heq : r = u := hr.eq_of_prevails hbetween (by rwa [hfirst]) hp
    exact hne (heq ▸ htype)
  · intro hhidden
    refine (hr.cases_of_use hu).resolve_right ?_
    rintro ⟨first, seen, more, rest, hfront, hback, hall, hne, hp⟩
    exact hhidden ⟨first, seen, more, r, rest, hfront, hback, hall, hne, hp⟩

/-! ### Orders of candidates -/

/-- Without a clash all candidates seen give way to the one that stands for them. -/
private theorem exists_merge_of_compatible {seen rest : List Candidate} {r : Candidate} (hmem : r ∈ seen)
    (hr : ∀ c ∈ seen, c.GivesWay r) (h : Compatible (seen ++ rest)) :
    ∃ r', merge r rest = some r' ∧ ∀ c ∈ seen ++ rest, c.GivesWay r' := by
  induction rest generalizing seen r with
  | nil => exact ⟨r, rfl, by rwa [List.append_nil]⟩
  | cons c rest ih =>
    rw [List.append_cons] at h ⊢
    rw [merge]
    have hseen : ∀ {d}, d ∈ seen → d ∈ seen ++ [c] ++ rest := fun hd => by simp [hd]
    have hc : c ∈ seen ++ [c] ++ rest := by simp
    split
    · rename_i hway
      refine ih (List.mem_append_left _ hmem) (fun d hd => ?_) h
      rcases List.mem_append.1 hd with hd | hd
      · exact hr d hd
      · rwa [List.mem_singleton.1 hd]
    · rename_i hway
      have hp : c.Prevails r := by
        rcases (h c hc r (hseen hmem)).resolve_left hway with htype | hp
        · exact absurd (.inl htype.symm) hway
        · exact hp
      rw [if_pos hp]
      refine ih (by simp) (fun d hd => ?_) h
      rcases List.mem_append.1 hd with hd | hd
      · -- a candidate seen has the type of the one that stood for it, which was no use
        have htype : d.type = r.type := (hr d hd).resolve_right fun h => hp.source_ne h.1
        rcases h d (hseen hd) c hc with h' | h'
        · exact h'
        · exact absurd (.inl ((h'.type_eq_of_use hp.1).trans htype)) hway
      · rw [List.mem_singleton.1 hd]
        exact .inl rfl

theorem exists_standsFor_of_compatible {l : List Candidate} (hne : l ≠ []) (h : Compatible l) :
    ∃ r, StandsFor r l ∧ ∀ c ∈ l, c.GivesWay r := by
  cases l with
  | nil => exact absurd rfl hne
  | cons first rest =>
    have hfirst : ∀ c ∈ [first], c.GivesWay first := List.forall_mem_singleton.2 (.inl rfl)
    obtain ⟨r, hr, hall⟩ := exists_merge_of_compatible (List.mem_singleton.2 rfl) hfirst h
    exact ⟨r, merge_eq_some_iff.1 hr, hall⟩

theorem Compatible.of_perm {l l' : List Candidate} (h : Compatible l) (hp : l'.Perm l) : Compatible l' := by
  simpa only [Compatible, hp.mem_iff] using h

/-- Without a clash the order does not matter. -/
theorem standing?_type_of_perm {l l' : List Candidate} (hp : l'.Perm l) (h : Compatible l) :
    (standing? l').map Candidate.type = (standing? l).map Candidate.type := by
  rcases Decidable.em (l = []) with rfl | hne
  · rw [hp.eq_nil]
  · obtain ⟨r, hr, hall⟩ := exists_standsFor_of_compatible hne h
    obtain ⟨r', hr', hall'⟩ := exists_standsFor_of_compatible (mt (fun hnil => (hnil ▸ hp).symm.eq_nil) hne) (h.of_perm hp)
    rw [standing?_eq_some_iff.2 hr, standing?_eq_some_iff.2 hr', Option.map_some, Option.map_some,
      (hall r' (hp.mem_iff.1 hr'.mem)).type_eq (hall' r (hp.mem_iff.2 hr.mem))]

/-- A use covers the clashes of a list if every candidate gives way to it, or has the type of one certain candidate that
does: with that one in front, and the use behind all of its type, no clash is noticed. -/
def Covered (l : List Candidate) : Prop :=
  ∃ u ∈ l, u.source = .use ∧ ∃ f ∈ l, f.GivesWay u ∧ ∀ c ∈ l, c.GivesWay u ∨ c.type = f.type

theorem Covered.of_perm {l l' : List Candidate} (h : Covered l) (hp : l'.Perm l) : Covered l' := by
  simpa only [Covered, hp.mem_iff] using h

theorem StandsFor.covered {l : List Candidate} {r : Candidate} (h : StandsFor r l) (hl : ¬Compatible l) : Covered l := by
  cases h with
  | @agreed _ rest hrest =>
    refine absurd (fun c hc d hd => .inl (.inl ?_)) hl
    have hall : ∀ c ∈ r :: rest, c.type = r.type := List.forall_mem_cons.2 ⟨rfl, hrest⟩
    rw [hall c hc, hall d hd]
  | use hu hrest =>
    exact ⟨r, List.mem_cons_self .., hu, r, List.mem_cons_self .., .inl rfl,
      List.forall_mem_cons.2 ⟨.inl (.inl rfl), fun c hc => .inl (hrest c hc)⟩⟩
  | @takenOver first _ front back hp hne hfront hback =>
    refine ⟨r, by simp, hp.1, first, List.mem_cons_self .., .inr hp, ?_⟩
    rw [List.forall_mem_cons, List.forall_mem_append, List.forall_mem_cons]
    exact ⟨.inr rfl, fun c hc => .inr (hfront c hc), .inl (.inl rfl), fun c hc => .inl (hback c hc)⟩

/-- Some order of covered candidates lets no clash be noticed. -/
theorem Covered.exists_perm {l : List Candidate} (h : Covered l) : ∃ l' r, l'.Perm l ∧ StandsFor r l' := by
  obtain ⟨u, hul, hu, f, hfl, hfu, hall⟩ := h
  by_cases htype : f.type = u.type
  · refine ⟨u :: l.erase u, u, (List.perm_cons_erase hul).symm, .use hu fun c hc => ?_⟩
    rcases hall c (List.mem_of_mem_erase hc) with hc | hc
    · exact hc
    · exact .inl (hc.trans htype)
  · -- the certain candidate, the others of its type, the use, and the rest
    let front := (l.erase f).filter fun c => c.type = f.type
    let rest := (l.erase f).filter fun c => ¬c.type = f.type
    have hur : u ∈ rest := by
      refine List.mem_filter.2 ⟨(List.mem_erase_of_ne fun h => htype (by rw [h])).2 hul, ?_⟩
      rw [decide_eq_true_eq]
      exact Ne.symm htype
    refine ⟨f :: (front ++ u :: rest.erase u), u, ?_, ?_⟩
    · calc List.Perm (f :: (front ++ u :: rest.erase u)) (f :: (front ++ rest)) :=
            ((List.perm_cons_erase hur).symm.append_left front).cons f
        List.Perm _ (f :: l.erase f) := by
          refine .cons f ?_
          simpa [front, rest] using List.filter_append_perm (fun c => decide (c.type = f.type)) (l.erase f)
        List.Perm _ l := (List.perm_cons_erase hfl).symm
    · refine .takenOver (hfu.resolve_left htype) (Ne.symm htype) (fun c hc => ?_) fun c hc => ?_
      · exact of_decide_eq_true (List.mem_filter.1 hc).2
      · have hc := List.mem_filter.1 (List.mem_of_mem_erase hc)
        exact (hall c (List.mem_of_mem_erase hc.1)).resolve_right (of_decide_eq_true hc.2)

theorem told_perm {name : Text} {cs cs' : List Candidate} (hp : cs'.Perm cs) : (told name cs').Perm (told name cs) :=
  hp.filter _

section

variable {name own : Text} {cs l : List Candidate}

/-- The candidates with those of one name in front, in an order of their own. -/
private def inFront (l : List Candidate) (own : Text) (cs : List Candidate) : List Candidate :=
  l ++ cs.filter fun c => !c.tells own

private theorem told_inFront : told name (inFront l own cs) = told name l ++ told name (cs.filter fun c => !c.tells own) :=
  List.filter_append ..

private theorem inFront_perm (hl : l.Perm (told own cs)) : (inFront l own cs).Perm cs :=
  (hl.append_right _).trans (List.filter_append_perm _ cs)

private theorem told_own_inFront (hl : l.Perm (told own cs)) : told own (inFront l own cs) = l := by
  have hleft : told own l = l := List.filter_eq_self.2 fun c hc => (List.mem_filter.1 (hl.mem_iff.1 hc)).2
  have hright : told own (cs.filter fun c => !c.tells own) = [] := by
    rw [told, List.filter_filter, List.filter_eq_nil_iff]
    intro c _
    simp
  rw [told_inFront, hleft, hright, List.append_nil]

private theorem told_inFront_of_ne (hl : l.Perm (told own cs)) (hne : name ≠ own) :
    told name (inFront l own cs) = told name cs := by
  have hdistinct : ∀ {c : Candidate}, c.tells name = true → ¬c.tells own = true := fun h h' =>
    hne ((Candidate.tells_iff.1 h).1.symm.trans (Candidate.tells_iff.1 h').1)
  have hleft : told name l = [] := by
    rw [told, List.filter_eq_nil_iff]
    exact fun c hc htells => hdistinct htells (List.mem_filter.1 (hl.mem_iff.1 hc)).2
  have hright : told name (cs.filter fun c => !c.tells own) = told name cs := by
    rw [told, List.filter_filter]
    refine List.filter_congr fun c _ => ?_
    cases hc : c.tells name with
    | false => rfl
    | true => rw [Bool.eq_false_iff.2 (hdistinct hc), Bool.not_false, Bool.and_true]
  rw [told_inFront, hleft, hright, List.nil_append]

end

/-- The candidates of some names can be put in order, each name on its own. -/
theorem exists_perm_of_covered {names : List Text} {cs : List Candidate} (h : ∀ name ∈ names, Covered (told name cs)) :
    ∃ cs', cs'.Perm cs ∧ (∀ name ∈ names, ∃ r, StandsFor r (told name cs')) ∧
      ∀ name ∉ names, told name cs' = told name cs := by
  induction names with
  | nil => exact ⟨cs, .refl cs, List.forall_mem_nil _, fun _ _ => rfl⟩
  | cons own names ih =>
    obtain ⟨hown, hnames⟩ := List.forall_mem_cons.1 h
    obtain ⟨cs₁, hp₁, hstands, hsame⟩ := ih hnames
    obtain ⟨l, r, hl, hr⟩ := (hown.of_perm (told_perm hp₁)).exists_perm
    refine ⟨inFront l own cs₁, (inFront_perm hl).trans hp₁, fun name hname => ?_, fun name hname => ?_⟩
    · rcases Decidable.em (name = own) with rfl | hne
      · exact ⟨r, by rwa [told_own_inFront hl]⟩
      · rw [told_inFront_of_ne hl hne]
        exact hstands name ((List.mem_cons.1 hname).resolve_left hne)
    · obtain ⟨hne, hno⟩ := not_or.1 (mt List.mem_cons.2 hname)
      rw [told_inFront_of_ne hl hne, hsame name hno]

/-! ### Judging by pairs -/

/-- Whether two of the candidates clash. -/
def HasClash (cs : List Candidate) : Prop := ∃ c ∈ cs, ∃ d ∈ cs, c.Clashes d

/-- Whether the merge judges candidates pair by pair: it fails just for a clash, and their order makes no difference. -/
structure JudgedByPairs (cs : List Candidate) : Prop where
  fails_iff : Fails cs ↔ HasClash cs
  fails_iff_of_perm : ∀ cs', cs'.Perm cs → (Fails cs' ↔ Fails cs)
  get?_eq_of_perm : ∀ cs', cs'.Perm cs → ∀ resolved resolved', resolve cs = .ok resolved → resolve cs' = .ok resolved' →
    ∀ name, resolved'.get? name = resolved.get? name

section

variable {cs cs' : List Candidate}

private theorem not_fails_of_not_hasClash (h : ¬HasClash cs) : ¬Fails cs := by
  rw [fails_iff]
  rintro ⟨name, hne, hnone⟩
  have hcompatible : Compatible (told name cs) :=
    compatible_told_iff.2 fun c hc d hd _ hclash => h ⟨c, hc, d, hd, hclash⟩
  obtain ⟨r, hr, -⟩ := exists_standsFor_of_compatible hne hcompatible
  exact hnone r hr

private theorem fails_of_not_covered {c d : Candidate} (hc : c ∈ cs) (hd : d ∈ cs) (hclash : c.Clashes d)
    (h : ¬Covered (told c.name cs)) : Fails cs := by
  refine fails_iff.2 ⟨c.name, List.ne_nil_of_mem (mem_told.2 ⟨hc, rfl, hclash.left⟩), fun r hr => h (hr.covered ?_)⟩
  rw [compatible_told_iff]
  exact fun hno => hno c hc d hd rfl hclash

/-- If every clash is covered, some order lets all of them pass. -/
private theorem exists_perm_not_fails (h : ∀ c ∈ cs, ∀ d ∈ cs, c.Clashes d → Covered (told c.name cs)) :
    ∃ cs', cs'.Perm cs ∧ ¬Fails cs' := by
  classical
  let names := (cs.map Candidate.name).filter fun name => Covered (told name cs)
  obtain ⟨cs', hp, hstands, hsame⟩ : ∃ cs', cs'.Perm cs ∧ (∀ name ∈ names, ∃ r, StandsFor r (told name cs')) ∧
      ∀ name ∉ names, told name cs' = told name cs :=
    exists_perm_of_covered fun name hname => of_decide_eq_true (List.mem_filter.1 hname).2
  refine ⟨cs', hp, ?_⟩
  rw [fails_iff]
  rintro ⟨name, hne, hnone⟩
  rcases Decidable.em (name ∈ names) with hname | hname
  · obtain ⟨r, hr⟩ := hstands name hname
    exact hnone r hr
  · rw [hsame name hname] at hne hnone
    have hcompatible : Compatible (told name cs) := by
      refine compatible_told_iff.2 fun c hc d hd hcn hclash => hname ?_
      exact List.mem_filter.2 ⟨List.mem_map.2 ⟨c, hc, hcn⟩, decide_eq_true (hcn ▸ h c hc d hd hclash)⟩
    obtain ⟨r, hr, -⟩ := exists_standsFor_of_compatible hne hcompatible
    exact hnone r hr

private theorem HasClash.of_perm (h : HasClash cs) (hp : cs'.Perm cs) : HasClash cs' := by
  simpa only [HasClash, hp.mem_iff] using h

private theorem judgedByPairs_of_not_hasClash (h : ¬HasClash cs) : JudgedByPairs cs := by
  have hfails : ∀ {cs'}, cs'.Perm cs → ¬Fails cs' := fun hp =>
    not_fails_of_not_hasClash fun hclash => h (hclash.of_perm hp.symm)
  refine ⟨iff_of_false (hfails (.refl cs)) h, fun cs' hp => iff_of_false (hfails hp) (hfails (.refl cs)), ?_⟩
  intro cs' hp resolved resolved' hok hok' name
  rw [get?_of_resolve hok', get?_of_resolve hok]
  exact standing?_type_of_perm (told_perm hp)
    (compatible_told_iff.2 fun c hc d hd _ hclash => h ⟨c, hc, d, hd, hclash⟩)

private theorem judgedByPairs_of_not_covered {c d : Candidate} (hc : c ∈ cs) (hd : d ∈ cs) (hclash : c.Clashes d)
    (h : ¬Covered (told c.name cs)) : JudgedByPairs cs := by
  have hfails : ∀ {cs'}, cs'.Perm cs → Fails cs' := fun hp =>
    fails_of_not_covered (hp.mem_iff.2 hc) (hp.mem_iff.2 hd) hclash fun h' => h (h'.of_perm (told_perm hp.symm))
  refine ⟨iff_of_true (hfails (.refl cs)) ⟨c, hc, d, hd, hclash⟩,
    fun cs' hp => iff_of_true (hfails hp) (hfails (.refl cs)), ?_⟩
  intro cs' _ resolved _ hok
  obtain ⟨_, _, _, herror⟩ := hfails (.refl cs)
  rw [hok] at herror
  cases herror

end

/-- The merge fails just if no candidate stands for some name that has any, and gives every name the type of the candidate
that stands for it. It judges the candidates pair by pair if none clash, or if they do where no use covers it, and in no other
case. -/
theorem merged_by_pairs_iff (cs : List Candidate) :
    (Fails cs ↔ ∃ name, told name cs ≠ [] ∧ ∀ r, ¬StandsFor r (told name cs)) ∧
    (∀ resolved, resolve cs = .ok resolved → ∀ name type,
      resolved.get? name = some type ↔ ∃ r, StandsFor r (told name cs) ∧ r.type = type) ∧
    (JudgedByPairs cs ↔ ¬HasClash cs ∨ ∃ c ∈ cs, ∃ d ∈ cs, c.Clashes d ∧ ¬Covered (told c.name cs)) := by
  refine ⟨fails_iff, fun resolved hok name type => ?_, fun hj => ?_, ?_⟩
  · rw [get?_of_resolve hok, Option.map_eq_some_iff]
    simp only [standing?_eq_some_iff]
  · by_contra hno
    rw [not_or, not_not] at hno
    obtain ⟨hclash, huncovered⟩ := hno
    obtain ⟨cs', hp, hpasses⟩ : ∃ cs', cs'.Perm cs ∧ ¬Fails cs' :=
      exists_perm_not_fails fun c hc d hd h => by_contra fun hcovered => huncovered ⟨c, hc, d, hd, h, hcovered⟩
    exact hpasses ((hj.fails_iff_of_perm cs' hp).2 (hj.fails_iff.2 hclash))
  · rintro (hno | ⟨c, hc, d, hd, hclash, hcovered⟩)
    · exact judgedByPairs_of_not_hasClash hno
    · exact judgedByPairs_of_not_covered hc hd hclash hcovered

/-- An integer value, and a use as truth value that prevails over it. -/
private def overriddenValue : List Candidate := [⟨"x", .int, .value⟩, ⟨"x", .bool, .use⟩]

theorem merged_by_pairs_overridden :
    (∃ resolved, resolve overriddenValue = .ok resolved ∧ resolved.get? "x" = some .bool ∧
      ∃ r, StandsFor r (told "x" overriddenValue) ∧ r.type = .bool) ∧
    ¬HasClash overriddenValue ∧ JudgedByPairs overriddenValue := by
  obtain ⟨-, htypes, hpairs⟩ := merged_by_pairs_iff overriddenValue
  have hno : ¬HasClash overriddenValue := by
    rintro ⟨c, hc, d, hd, hclash⟩
    simp only [overriddenValue, List.mem_cons, List.not_mem_nil, or_false] at hc hd
    rcases hc with rfl | rfl <;> rcases hd with rfl | rfl
    · exact hclash.type rfl
    · exact hclash.not_prevailed (by decide)
    · exact hclash.not_prevails (by decide)
    · exact hclash.type rfl
  exact ⟨⟨_, rfl, rfl, (htypes _ rfl "x" .bool).1 rfl⟩, hno, hpairs.2 (.inl hno)⟩

/-- A value, a use of its type, and a use of another type. -/
def valueBeforeUses : List Candidate := [⟨"x", .int, .value⟩, ⟨"x", .int, .use⟩, ⟨"x", .bool, .use⟩]

/-- The value hides the use of its type, and the two uses that differ pass unnoticed; the other way round they do not. -/
theorem valueBeforeUses_unnoticed :
    (∃ c ∈ valueBeforeUses, ∃ d ∈ valueBeforeUses, c.source = .use ∧ d.source = .use ∧ c.Clashes d) ∧
      ¬Fails valueBeforeUses ∧ valueBeforeUses.reverse.Perm valueBeforeUses ∧ Fails valueBeforeUses.reverse := by
  refine ⟨⟨⟨"x", .int, .use⟩, by simp [valueBeforeUses], ⟨"x", .bool, .use⟩, by simp [valueBeforeUses], rfl, rfl, ?_⟩, ?_,
    List.reverse_perm _, ?_⟩
  · constructor <;> decide
  · have hok : ∃ resolved, resolve valueBeforeUses = .ok resolved := ⟨_, rfl⟩
    rintro ⟨name, first, second, hfails⟩
    obtain ⟨resolved, hok⟩ := hok
    rw [hok] at hfails
    cases hfails
  · exact ⟨"x", .bool, .int, rfl⟩

end MapScript.Typing
