import Mathlib.Algebra.BigOperators.Group.List.Basic
import Mathlib.Algebra.Ring.Int.Defs
import Mathlib.Data.List.Forall2
import MapScript.DataType.Text
import MapScript.Proofs.Outcome
import MapScript.Proofs.Text.Lower

/-!
# The grammar of type texts

A type is described by its word, a callable by its word and the texts of its parameters in parentheses; blanks may stand
around every type. Reading gives a type from the texts that describe it and from no others (`ofLower_eq_ok_iff`), so an
ASCII text is read by its letters in lower case (`ofText_reads_descriptions`).

The pieces between the commas of a parameter list always make up the list again (`listed_pieces`), so what is read from
them all is a description. The other way round, the commas in a description are all inside parentheses (`Describes.uncut`),
so that a list is cut just between its parameters.
-/

namespace MapScript.DataType

/-- What is shown of callables when it is shown of their parameters, and of all other types, holds of every type. -/
theorem induction {motive : DataType → Prop} (scalar : ∀ t, t.isCallable = false → motive t)
    (callable : ∀ c ps, (∀ p ∈ ps, motive p) → motive (.callable c ps)) : (t : DataType) → motive t
  | .any | .bool | .int | .float => scalar _ rfl
  | .callable c ps => callable c ps fun p _ => induction scalar callable p

/-- Only blanks. -/
def Blanks (text : List CodePoint) : Prop := ∀ c ∈ text, isBlank c = true

/-- A parameter list of the given pieces: commas stand between them, and perhaps one more behind the last of them with
blanks behind it. A list without pieces is blank. -/
inductive Listed : List (List CodePoint) → List CodePoint → Prop
  | none {blanks : List CodePoint} : Blanks blanks → Listed [] blanks
  | one {piece : List CodePoint} : Listed [piece] piece
  | more {pieces : List (List CodePoint)} {piece rest : List CodePoint} : Listed pieces rest →
    Listed (piece :: pieces) (piece ++ .char ',' :: rest)

/-- The word of a callable and what stands between its parentheses. -/
def framed (c : Convention) (inner : List CodePoint) : List CodePoint :=
  c.word.map .char ++ (.char '(' :: inner ++ [.char ')'])

/-- The text describes the type, in lower case. -/
inductive Describes : List CodePoint → DataType → Prop
  | scalar {front back : List CodePoint} {t : DataType} : t.isCallable = false → Blanks front → Blanks back →
    Describes (front ++ t.word.map .char ++ back) t
  | callable {front inner back : List CodePoint} {c : Convention} {pieces : List (List CodePoint)} {ps : List DataType} :
    Blanks front → Blanks back → Listed pieces inner → List.Forall₂ Describes pieces ps →
    Describes (front ++ framed c inner ++ back) (.callable c ps)

/-! ### How descriptions are built -/

/-- The code points are neither commas nor parentheses. -/
def Flat (text : List CodePoint) : Prop := ∀ c ∈ text, c ≠ .char ',' ∧ nesting c = 0

/-- A property of texts at a depth of parentheses that passes from flat texts to what is built from them, where commas
stand inside parentheses. -/
structure Structural (P : Int → List CodePoint → Prop) : Prop where
  flat {depth : Int} {text : List CodePoint} : Flat text → P depth text
  append {depth : Int} {text more : List CodePoint} : P depth text → P depth more → P depth (text ++ more)
  comma {depth : Int} : depth ≠ 0 → P depth [.char ',']
  parenthesized {depth : Int} {text : List CodePoint} : P (depth + 1) text → P depth (.char '(' :: text ++ [.char ')'])

theorem Blanks.flat {text : List CodePoint} (h : Blanks text) : Flat text := by
  intro c hc
  have hblank := h c hc
  refine ⟨?_, ?_⟩
  · rintro rfl
    exact absurd hblank (by decide)
  · unfold nesting
    split
    · exact absurd hblank (by decide)
    · exact absurd hblank (by decide)
    · rfl

theorem flat_convention (c : Convention) : Flat (c.word.map .char) := by
  cases c <;> unfold Flat <;> decide

theorem flat_word (t : DataType) : Flat (t.word.map .char) := by
  cases t with
  | callable c ps => exact flat_convention c
  | _ => unfold Flat; decide

theorem Structural.listed {P : Int → List CodePoint → Prop} (hP : Structural P) {depth : Int} (hdepth : depth ≠ 0)
    {pieces : List (List CodePoint)} {inner : List CodePoint} (h : Listed pieces inner)
    (hpieces : ∀ piece ∈ pieces, P depth piece) : P depth inner := by
  induction h with
  | none hblanks => exact hP.flat hblanks.flat
  | one => exact hpieces _ (List.mem_singleton_self _)
  | more _ ih =>
    obtain ⟨hpiece, hrest⟩ := List.forall_mem_cons.1 hpieces
    exact hP.append hpiece (hP.append (hP.comma hdepth) (ih hrest))

theorem Structural.describes {P : Int → List CodePoint → Prop} (hP : Structural P) {depth : Int} (hdepth : 0 ≤ depth)
    {text : List CodePoint} {t : DataType} (h : Describes text t) : P depth text := by
  induction t using DataType.induction generalizing text depth with
  | scalar t ht =>
    cases h with
    | scalar _ hfront hback => exact hP.append (hP.append (hP.flat hfront.flat) (hP.flat t.flat_word)) (hP.flat hback.flat)
    | callable => cases ht
  | callable c ps ih =>
    cases h with
    | scalar ht => cases ht
    | callable hfront hback hlisted hpieces =>
      have hinner := hP.listed (by omega : depth + 1 ≠ 0) hlisted fun piece hpiece => by
        obtain ⟨p, hp, hdescribes⟩ := exists_right_of_forall₂ hpieces hpiece
        exact ih p hp (by omega) hdescribes
      have hbody := hP.append (hP.flat (flat_convention c)) (hP.parenthesized hinner)
      exact hP.append (hP.append (hP.flat hfront.flat) hbody) (hP.flat hback.flat)

/-! ### Parentheses -/

/-- How many parentheses are open behind a text. -/
def depthBehind (text : List CodePoint) : Int := (text.map nesting).sum

/-- Every parenthesis is closed, and none before it is opened. -/
def Balanced (text : List CodePoint) : Prop := depthBehind text = 0 ∧ ∀ n, 0 ≤ depthBehind (text.take n)

private theorem depthBehind_append (text more : List CodePoint) :
    depthBehind (text ++ more) = depthBehind text + depthBehind more := by
  rw [depthBehind, List.map_append, List.sum_append]
  rfl

private theorem depthBehind_of_flat {text : List CodePoint} (h : Flat text) : depthBehind text = 0 := by
  refine List.sum_eq_zero fun n hn => ?_
  obtain ⟨c, hc, rfl⟩ := List.mem_map.1 hn
  exact (h c hc).2

private theorem structural_balanced : Structural fun _ => Balanced where
  flat h := ⟨depthBehind_of_flat h,
    fun _ => Int.le_of_eq (depthBehind_of_flat fun c hc => h c (List.mem_of_mem_take hc)).symm⟩
  append {_ text more} h h' := by
    refine ⟨by rw [depthBehind_append, h.1, h'.1, Int.add_zero], fun n => ?_⟩
    have hfront := h.2 n
    have hback := h'.2 (n - text.length)
    rw [List.take_append, depthBehind_append]
    omega
  comma _ := ⟨rfl, fun n => by cases n <;> simp [depthBehind, nesting]⟩
  parenthesized {_ text} h := by
    have hopen (rest : List CodePoint) : depthBehind (.char '(' :: rest) = 1 + depthBehind rest := rfl
    have hclose (n : Nat) : -1 ≤ depthBehind ([CodePoint.char ')'].take n) := by
      cases n <;> simp [depthBehind, nesting]
    refine ⟨?_, fun n => ?_⟩
    · rw [List.cons_append, hopen, depthBehind_append, h.1]
      rfl
    · cases n with
      | zero => exact Int.le_refl 0
      | succ n =>
        have hfront := h.2 n
        have hback := hclose (n - text.length)
        rw [List.cons_append, List.take_succ_cons, hopen, List.take_append, depthBehind_append]
        omega

theorem Describes.balanced {text : List CodePoint} {t : DataType} (h : Describes text t) : Balanced text :=
  structural_balanced.describes (Int.le_refl 0) h

/-! ### Cutting parameters apart -/

private theorem listed_piecesFrom (depth : Int) (current text : List CodePoint) :
    Listed (piecesFrom depth current text) (current ++ text) := by
  induction text generalizing depth current with
  | nil =>
    rw [piecesFrom, List.append_nil]
    split
    · rename_i h
      exact .none (trim_eq_nil_iff.1 h)
    · exact .one
  | cons c rest ih =>
    rw [piecesFrom]
    split
    · rename_i h
      obtain ⟨rfl, -⟩ := h
      exact .more (ih 0 [])
    · have hrest := ih (depth + nesting c) (current ++ [c])
      rwa [List.append_assoc, List.singleton_append] at hrest

/-- The pieces of a parameter list make it up. -/
theorem listed_pieces (inner : List CodePoint) : Listed (pieces inner) inner := listed_piecesFrom 0 [] inner

/-- Behind this many parentheses, reading takes the text into the current piece as a whole. -/
def Uncut (depth : Int) (text : List CodePoint) : Prop :=
  ∀ current rest, piecesFrom depth current (text ++ rest) = piecesFrom depth (current ++ text) rest

/-- A code point that is no comma goes into the current piece. -/
private theorem piecesFrom_cons {depth : Int} {current rest : List CodePoint} {c : CodePoint} (h : c ≠ .char ',') :
    piecesFrom depth current (c :: rest) = piecesFrom (depth + nesting c) (current ++ [c]) rest := by
  rw [piecesFrom, if_neg fun hc => h hc.1]

private theorem uncut_of_flat {depth : Int} {text : List CodePoint} (h : Flat text) : Uncut depth text := by
  induction text with
  | nil => exact fun current rest => by rw [List.nil_append, List.append_nil]
  | cons c rest ih =>
    obtain ⟨⟨hc, hnesting⟩, hrest⟩ := List.forall_mem_cons.1 h
    intro current behind
    rw [List.cons_append, piecesFrom_cons hc, hnesting, Int.add_zero, ih hrest, List.append_assoc,
      List.singleton_append]

private theorem structural_uncut : Structural Uncut where
  flat := uncut_of_flat
  append h h' := fun current rest => by rw [List.append_assoc, h, h', List.append_assoc]
  comma h := fun current rest => by
    have hnesting : nesting (.char ',') = 0 := rfl
    rw [List.singleton_append, piecesFrom, if_neg fun hc => h hc.2, hnesting, Int.add_zero]
  parenthesized {depth text} h := fun current rest => by
    calc piecesFrom depth current (.char '(' :: text ++ [.char ')'] ++ rest)
      _ = piecesFrom depth current (.char '(' :: (text ++ .char ')' :: rest)) := by simp
      _ = piecesFrom (depth + 1) (current ++ [.char '(']) (text ++ .char ')' :: rest) := piecesFrom_cons (by decide)
      _ = piecesFrom (depth + 1) (current ++ [.char '('] ++ text) (.char ')' :: rest) := h _ _
      _ = piecesFrom (depth + 1 + -1) (current ++ [.char '('] ++ text ++ [.char ')']) rest := piecesFrom_cons (by decide)
      _ = piecesFrom depth (current ++ (.char '(' :: text ++ [.char ')'])) rest := by
        rw [Int.add_neg_cancel_right]
        simp

theorem Describes.uncut {text : List CodePoint} {t : DataType} (h : Describes text t) : Uncut 0 text :=
  structural_uncut.describes (Int.le_refl 0) h

/-- A parameter list is cut into its pieces if none of them is cut itself and none is blank. -/
theorem pieces_of_listed {ps : List (List CodePoint)} {inner : List CodePoint} (h : Listed ps inner)
    (hps : ∀ piece ∈ ps, Uncut 0 piece ∧ trim piece ≠ []) : pieces inner = ps := by
  induction h with
  | @none blanks hblanks =>
    have huncut : Uncut 0 blanks := uncut_of_flat hblanks.flat
    have hcut := huncut [] []
    rw [List.append_nil, List.nil_append] at hcut
    rw [pieces, hcut, piecesFrom, if_pos (trim_eq_nil_iff.2 hblanks)]
  | @one piece =>
    obtain ⟨huncut, hne⟩ := hps piece (List.mem_singleton_self _)
    have hcut := huncut [] []
    rw [List.append_nil, List.nil_append] at hcut
    rw [pieces, hcut, piecesFrom, if_neg hne]
  | @more ps piece rest _ ih =>
    obtain ⟨⟨huncut, -⟩, hrest⟩ := List.forall_mem_cons.1 hps
    rw [pieces, huncut, List.nil_append, piecesFrom, if_pos ⟨rfl, rfl⟩, ← ih hrest, pieces]

/-! ### Reading -/

theorem scalar?_eq_some_iff {text : List CodePoint} {t : DataType} :
    scalar? text = some t ↔ t.isCallable = false ∧ text = t.word.map .char := by
  constructor
  · intro h
    have hscalars : ∀ t ∈ [DataType.any, .bool, .int, .float], t.isCallable = false := by decide
    have hword := List.find?_some h
    exact ⟨hscalars t (List.mem_of_find?_eq_some h), (of_decide_eq_true hword).symm⟩
  · rintro ⟨ht, rfl⟩
    cases t with
    | callable c ps => cases ht
    | _ => rfl

private theorem framed_iff {c : Convention} {text : List CodePoint} :
    (((c.word ++ ['(']).map CodePoint.char).isPrefixOf text ∧ [CodePoint.char ')'].isSuffixOf text) ↔
      ∃ inner, text = framed c inner := by
  rw [List.isPrefixOf_iff_prefix, List.isSuffixOf_iff_suffix, List.singleton_suffix_iff_getLast?_eq_some]
  constructor
  · rintro ⟨⟨rest, rfl⟩, hlast⟩
    rcases List.eq_nil_or_concat' rest with rfl | ⟨inner, last, rfl⟩
    · -- the text would end with the parenthesis that opens
      rw [List.append_nil, List.map_append, List.map_singleton, List.getLast?_concat] at hlast
      cases hlast
    · rw [← List.append_assoc, List.getLast?_concat, Option.some.injEq] at hlast
      exact ⟨inner, by simp [framed, hlast]⟩
  · rintro ⟨inner, rfl⟩
    exact ⟨⟨inner ++ [.char ')'], by simp [framed]⟩, by rw [framed, ← List.append_assoc, List.getLast?_concat]⟩

private theorem inner_framed (c : Convention) (inner : List CodePoint) :
    ((framed c inner).drop (c.word.length + 1)).dropLast = inner := by
  have hdrop : (framed c inner).drop (c.word.length + 1) = inner ++ [.char ')'] := by
    have hframed : framed c inner = (c.word ++ ['(']).map .char ++ (inner ++ [.char ')']) := by simp [framed]
    rw [hframed, List.drop_left' (by simp)]
  rw [hdrop, List.dropLast_concat]

theorem callable?_eq_some_iff {text inner : List CodePoint} {c : Convention} :
    callable? text = some (c, inner) ↔ text = framed c inner := by
  constructor
  · intro h
    obtain ⟨d, -, hd⟩ := List.exists_of_findSome?_eq_some h
    split at hd
    · rename_i hframed
      obtain ⟨inner', rfl⟩ := framed_iff.1 hframed
      rw [inner_framed] at hd
      cases hd
      rfl
    · cases hd
  · rintro rfl
    have hself := (framed_iff (c := c)).2 ⟨inner, rfl⟩
    cases c with
    | script => rw [callable?, List.findSome?_cons, if_pos hself, inner_framed]
    | native =>
      have hother : ((Convention.script.word ++ ['(']).map CodePoint.char).isPrefixOf (framed .native inner) = false := rfl
      rw [callable?, List.findSome?_cons, hother, if_neg (by simp), List.findSome?_cons, if_pos hself, inner_framed]

private theorem scalar?_framed (c : Convention) (inner : List CodePoint) : scalar? (framed c inner) = none := by
  have hparenthesis : CodePoint.char '(' ∈ framed c inner := by simp [framed]
  rw [Option.eq_none_iff_forall_ne_some]
  intro t h
  obtain ⟨-, hword⟩ := scalar?_eq_some_iff.1 h
  rw [hword] at hparenthesis
  exact absurd (t.flat_word _ hparenthesis).2 (by decide)

private theorem ofLower_of_scalar {shown text : List CodePoint} {t : DataType} (h : scalar? (trim text) = some t) :
    ofLower shown text = .ok t := by
  rw [ofLower, h]

private theorem ofLower_of_framed {shown text inner : List CodePoint} {c : Convention} (h : trim text = framed c inner) :
    ofLower shown text = (pieces inner).mapM (fun piece => ofLower piece piece) >>= fun ps => .ok (callable c ps) := by
  have hscalar : scalar? (trim text) = none := by rw [h, scalar?_framed]
  rw [ofLower, hscalar]
  simp only
  split
  · rename_i hnone
    rw [h, callable?_eq_some_iff.2 rfl] at hnone
    cases hnone
  · rename_i hsome
    rw [h, callable?_eq_some_iff.2 rfl] at hsome
    cases hsome
    simp
    rfl

private theorem ofLower_of_neither {shown text : List CodePoint} (h : scalar? (trim text) = none)
    (h' : callable? (trim text) = none) : ofLower shown text = .error ⟨⟨shown⟩⟩ := by
  rw [ofLower, h]
  simp only
  split
  · rfl
  · rename_i hsome
    rw [h'] at hsome
    cases hsome

/-- What is read is a scalar, or a callable with what is read from the pieces of its parameter list. -/
private theorem ofLower_eq_ok_cases {shown text : List CodePoint} {t : DataType} (h : ofLower shown text = .ok t) :
    scalar? (trim text) = some t ∨ ∃ c inner ps, trim text = framed c inner ∧ t = callable c ps ∧
      List.Forall₂ (fun piece p => ofLower piece piece = .ok p) (pieces inner) ps := by
  cases hscalar : scalar? (trim text) with
  | some u =>
    rw [ofLower_of_scalar hscalar] at h
    exact .inl (congrArg some (Except.ok.inj h))
  | none =>
    cases hcallable : callable? (trim text) with
    | none =>
      rw [ofLower_of_neither hscalar hcallable] at h
      cases h
    | some r =>
      obtain ⟨c, inner⟩ := r
      have hframed := callable?_eq_some_iff.1 hcallable
      rw [ofLower_of_framed hframed] at h
      obtain ⟨ps, hps, h⟩ := bind_eq_ok_iff.1 h
      exact .inr ⟨c, inner, ps, hframed, (Except.ok.inj h).symm, mapM_eq_ok_iff.1 hps⟩

private theorem forall₂_of_right {α β : Type} {R S : α → β → Prop} {as : List α} {bs : List β} (h : List.Forall₂ R as bs)
    (hS : ∀ b ∈ bs, ∀ a, R a b → S a b) : List.Forall₂ S as bs := by
  induction h with
  | nil => exact .nil
  | cons hab _ ih =>
    obtain ⟨hb, hrest⟩ := List.forall_mem_cons.1 hS
    exact .cons (hb _ hab) (ih hrest)

theorem describes_of_ofLower {shown text : List CodePoint} {t : DataType} (h : ofLower shown text = .ok t) :
    Describes text t := by
  induction t using DataType.induction generalizing shown text with
  | scalar t ht =>
    obtain ⟨front, back, htext, hfront, hback, -⟩ := exists_trim text
    rcases ofLower_eq_ok_cases h with hscalar | ⟨c, inner, ps, -, rfl, -⟩
    · rw [htext, (scalar?_eq_some_iff.1 hscalar).2]
      exact .scalar ht hfront hback
    · cases ht
  | callable c ps ih =>
    obtain ⟨front, back, htext, hfront, hback, -⟩ := exists_trim text
    rcases ofLower_eq_ok_cases h with hscalar | ⟨c, inner, ps, hframed, ⟨⟩, hps⟩
    · cases (scalar?_eq_some_iff.1 hscalar).1
    · rw [htext, hframed]
      exact .callable hfront hback (listed_pieces inner) (forall₂_of_right hps fun p hp _ => ih p hp)

private theorem trim_word {front back : List CodePoint} {t : DataType} (hfront : Blanks front) (hback : Blanks back)
    (ht : t.isCallable = false) : trim (front ++ t.word.map .char ++ back) = t.word.map .char := by
  refine trim_of_blanks hfront hback ?_ ?_
  · cases t with
    | callable c ps => cases ht
    | _ => decide
  · cases t with
    | callable c ps => cases ht
    | _ => decide

private theorem trim_framed {front inner back : List CodePoint} (c : Convention) (hfront : Blanks front)
    (hback : Blanks back) : trim (front ++ framed c inner ++ back) = framed c inner := by
  refine trim_of_blanks hfront hback ?_ ?_
  · cases c <;> rintro _ ⟨⟩ <;> decide
  · rw [framed, ← List.append_assoc, List.getLast?_concat]
    decide

private theorem trim_ne_nil_of_describes {text : List CodePoint} {t : DataType} (h : Describes text t) : trim text ≠ [] := by
  cases h with
  | scalar ht hfront hback =>
    rw [trim_word hfront hback ht]
    cases t with
    | callable c ps => cases ht
    | _ => nofun
  | callable hfront hback =>
    rw [trim_framed _ hfront hback]
    simp [framed]

theorem ofLower_of_describes {shown text : List CodePoint} {t : DataType} (h : Describes text t) :
    ofLower shown text = .ok t := by
  induction t using DataType.induction generalizing shown text with
  | scalar t ht =>
    cases h with
    | scalar _ hfront hback => exact ofLower_of_scalar (scalar?_eq_some_iff.2 ⟨ht, trim_word hfront hback ht⟩)
    | callable => cases ht
  | callable c ps ih =>
    cases h with
    | scalar ht => cases ht
    | callable hfront hback hlisted hpieces =>
      rename_i ts
      have hcut : pieces _ = ts := pieces_of_listed hlisted fun piece hpiece => by
        obtain ⟨p, -, hp⟩ := exists_right_of_forall₂ hpieces hpiece
        exact ⟨hp.uncut, trim_ne_nil_of_describes hp⟩
      have hps : ts.mapM (fun piece => ofLower piece piece) = .ok ps :=
        mapM_eq_ok_iff.2 (forall₂_of_right hpieces fun p hp _ => ih p hp)
      rw [ofLower_of_framed (trim_framed c hfront hback), hcut, hps]
      rfl

/-- A type is read from just the texts that describe it. -/
theorem ofLower_eq_ok_iff {shown text : List CodePoint} {t : DataType} : ofLower shown text = .ok t ↔ Describes text t :=
  ⟨describes_of_ofLower, ofLower_of_describes⟩

/-- Blanks around a text do not matter. -/
theorem Describes.of_trim_eq {text text' : List CodePoint} {t : DataType} (h : Describes text t)
    (htrim : trim text' = trim text) : Describes text' t := by
  obtain ⟨front, back, htext, hfront, hback, -⟩ := exists_trim text'
  rw [htext, htrim]
  cases h with
  | scalar ht hf hb =>
    rw [trim_word hf hb ht]
    exact .scalar ht hfront hback
  | callable hf hb hlisted hpieces =>
    rw [trim_framed _ hf hb]
    exact .callable hfront hback hlisted hpieces

/-! ### Letter case -/

/-- An ASCII text with its letters in lower case. -/
def lowered (cs : List Char) : List CodePoint := (cs.map Char.toLower).map .char

/-- Lower case and trimming go together. -/
theorem trim_lower_trim {cs : List Char} (h : ∀ c ∈ cs, c.toNat < 128) :
    trim (lower (trim (cs.map .char))) = trim (lowered cs) := by
  obtain ⟨front, back, htext, hfront, hback, -⟩ := exists_trim (cs.map .char)
  obtain ⟨fm, b, rfl, hfm, rfl⟩ := List.map_eq_append_iff.1 htext
  obtain ⟨f, m, rfl, rfl, hm⟩ := List.map_eq_append_iff.1 hfm
  have hblank {ds : List Char} (hds : Blanks (ds.map .char)) : Blanks (lowered ds) := by
    intro c hc
    obtain ⟨_, hlower, rfl⟩ := List.mem_map.1 hc
    obtain ⟨d, hd, rfl⟩ := List.mem_map.1 hlower
    rw [isBlank_toLower]
    exact hds _ (List.mem_map_of_mem hd)
  have hascii : ∀ c ∈ m, c.toNat < 128 := fun c hc => h c (List.mem_append_left _ (List.mem_append_right _ hc))
  have hparts : lowered (f ++ m ++ b) = lowered f ++ lowered m ++ lowered b := by simp [lowered]
  rw [← hm, lower_of_ascii hascii, hparts, trim_blanks_append (hblank hfront) (hblank hback)]
  rfl

/-- An ASCII text gives a type just when it describes the type in lower case. A text that describes none is refused, and
so is every text in which parentheses are left open or closed too often. -/
theorem ofText_reads_descriptions {cs : List Char} (h : ∀ c ∈ cs, c.toNat < 128) :
    (∀ t, ofText (.ofChars cs) = .ok t ↔ Describes (lowered cs) t) ∧
      ((∀ t, ¬Describes (lowered cs) t) → ∃ u, ofText (.ofChars cs) = .error u) ∧
      (¬Balanced (lowered cs) → ∃ u, ofText (.ofChars cs) = .error u) := by
  have htrim := trim_lower_trim h
  have hreads : ∀ t, ofText (.ofChars cs) = .ok t ↔ Describes (lowered cs) t := by
    intro t
    rw [ofText, ofLower_eq_ok_iff]
    exact ⟨fun h => h.of_trim_eq htrim.symm, fun h => h.of_trim_eq htrim⟩
  have hrefused (hnone : ∀ t, ¬Describes (lowered cs) t) : ∃ u, ofText (.ofChars cs) = .error u := by
    cases hread : ofText (.ofChars cs) with
    | ok t => exact absurd ((hreads t).1 hread) (hnone t)
    | error u => exact ⟨u, rfl⟩
  exact ⟨hreads, hrefused, fun hopen => hrefused fun t ht => hopen ht.balanced⟩

/-- A list with a comma behind its last parameter, and one that is closed before it is opened again. -/
theorem ofText_reads_descriptions_nested :
    (∀ c ∈ "Asm( INT ,fun( ),)".toList, c.toNat < 128) ∧ ofText "Asm( INT ,fun( ),)" = .ok (.native [.int, .script []]) ∧
    (∀ c ∈ "fun(int)),fun((int)".toList, c.toNat < 128) ∧ ¬Balanced (lowered "fun(int)),fun((int)".toList) ∧
      ∃ u, ofText "fun(int)),fun((int)" = .error u := by
  have hascii : ∀ c ∈ "Asm( INT ,fun( ),)".toList, c.toNat < 128 := List.forall_iff_forall_mem.1 (by decide)
  have hascii' : ∀ c ∈ "fun(int)),fun((int)".toList, c.toNat < 128 := List.forall_iff_forall_mem.1 (by decide)
  have hopen : ¬Balanced (lowered "fun(int)),fun((int)".toList) := fun h => absurd (h.2 9) (by decide)
  have hnone : Blanks [] := nofun
  have hspace : Blanks [.char ' '] := by unfold Blanks; decide
  have hint : Describes ([.char ' '] ++ DataType.int.word.map .char ++ [.char ' ']) .int := .scalar rfl hspace hspace
  have hscript : Describes ([] ++ framed .script [.char ' '] ++ []) (.script []) :=
    .callable hnone hnone (.none hspace) .nil
  have hall : Describes ([] ++ framed .native (_ ++ .char ',' :: (_ ++ .char ',' :: [])) ++ [])
      (.native [.int, .script []]) :=
    .callable hnone hnone (.more (.more (.none hnone))) (.cons hint (.cons hscript .nil))
  exact ⟨hascii, ((ofText_reads_descriptions hascii).1 _).2 hall, hascii', hopen,
    (ofText_reads_descriptions hascii').2.2 hopen⟩

end MapScript.DataType
