import MapScript.CommandLine.Files
import MapScript.Proofs.Outcome
import Mathlib.Tactic.SplitIfs

/-!
# Writing files

A file that is written is found where it was written, and every other place holds what it held before. Which places a path
can lead to depends on the directories alone, and writing files leaves these as they are; so files that can be written one
by one can be written one behind the other (`SameDirectories`).

Files in one directory are told apart by their names (`location_join_injective`).
-/

namespace MapScript

namespace FileTree

variable {t t' : FileTree} {p : Path} {l l' : List FileName}

/-! ### Places -/

theorem locate_cons_eq_ok_iff {name : FileName} {rest : List FileName} : t.locate l (name :: rest) = .ok l' ↔
    t.node? l = some .directory ∧ name.length ≤ maxNameBytes ∧ t.locate (next l name) rest = .ok l' := by
  rw [locate]
  split
  · rename_i hnode
    split_ifs with hlength
    · simp [Nat.not_le.mpr hlength]
    · simp [hnode, Nat.not_lt.mp hlength]
  · rename_i hnode
    simp [hnode]
  · rename_i hnode
    simp [hnode]

theorem locate_append {names more : List FileName} :
    t.locate l (names ++ more) = t.locate l names >>= fun l => t.locate l more := by
  induction names generalizing l with
  | nil => rfl
  | cons name rest ih =>
    rw [List.cons_append, locate, locate]
    split
    · split_ifs
      · rfl
      · exact ih
    · rfl
    · rfl

/-- Both trees have the same directories. -/
def SameDirectories (t t' : FileTree) : Prop := ∀ l, t'.node? l = some .directory ↔ t.node? l = some .directory

namespace SameDirectories

theorem refl (t : FileTree) : t.SameDirectories t := fun _ => Iff.rfl

theorem trans {t'' : FileTree} (h : t.SameDirectories t') (h' : t'.SameDirectories t'') : t.SameDirectories t'' :=
  fun l => (h' l).trans (h l)

theorem locate_eq_ok_iff (h : t.SameDirectories t') {names : List FileName} :
    t'.locate l names = .ok l' ↔ t.locate l names = .ok l' := by
  induction names generalizing l with
  | nil => exact Iff.rfl
  | cons name rest ih => rw [locate_cons_eq_ok_iff, locate_cons_eq_ok_iff, h l, ih]

theorem location_eq_ok_iff (h : t.SameDirectories t') : t'.location p = .ok l ↔ t.location p = .ok l := by
  rw [location, location, bind_eq_ok_iff, bind_eq_ok_iff]
  exact exists_congr fun names => and_congr Iff.rfl h.locate_eq_ok_iff

end SameDirectories

/-! ### Reading and writing -/

theorem at?_eq_ok_iff {node : FileNode} :
    t.at? p = .ok node ↔ ∃ l, t.location p = .ok l ∧ t.node? l = some node := by
  rw [at?, bind_eq_ok_iff]
  refine exists_congr fun l => and_congr Iff.rfl ?_
  cases t.node? l <;> simp

theorem read_eq_ok_iff {bytes : List UInt8} :
    t.read p = .ok bytes ↔ ∃ l, t.location p = .ok l ∧ t.node? l = some (.file bytes) := by
  rw [← at?_eq_ok_iff, read, bind_eq_ok_iff]
  constructor
  · rintro ⟨_ | bytes, hat, h⟩
    · cases h
    · cases h
      exact hat
  · exact fun hat => ⟨_, hat, rfl⟩

theorem pathExists_of_read {bytes : List UInt8} (h : t.read p = .ok bytes) : t.pathExists p = .ok true := by
  rw [pathExists, at?_eq_ok_iff.mpr (read_eq_ok_iff.mp h)]

theorem writeText_eq_ok_iff {text : Text} : t.writeText p text = .ok t' ↔
    ∃ bytes l, text.utf8? = some bytes ∧ t.location p = .ok l ∧ t.node? l ≠ some .directory
      ∧ t' = ⟨t.nodes.insert l (.file bytes)⟩ := by
  have hwrite (bytes : List UInt8) : t.write p bytes = .ok t' ↔ ∃ l, t.location p = .ok l ∧ t.node? l ≠ some .directory
      ∧ t' = ⟨t.nodes.insert l (.file bytes)⟩ := by
    rw [write, bind_eq_ok_iff]
    refine exists_congr fun l => and_congr Iff.rfl ?_
    split_ifs with hnode
    · simp [hnode]
    · rw [and_iff_right hnode]
      constructor
      · rintro ⟨⟩
        rfl
      · rintro rfl
        rfl
  rw [writeText]
  cases text.utf8? with
  | some bytes => simp [hwrite]
  | none =>
    constructor
    · intro h
      obtain ⟨_, -, h⟩ := bind_eq_ok_iff.mp h
      cases h
    · rintro ⟨_, _, h, -⟩
      cases h

theorem node?_insert {node : FileNode} (h : t.node? l ≠ some .directory) (l' : List FileName) :
    (⟨t.nodes.insert l node⟩ : FileTree).node? l' = if l = l' then some node else t.node? l' := by
  rw [node?, node?, Table.get?_insert]
  split_ifs with hroot hl hl
  · subst hl
    rw [node?, if_pos hroot] at h
    exact absurd rfl h
  · rfl
  · rfl
  · rfl

theorem sameDirectories_of_writeText {text : Text} (h : t.writeText p text = .ok t') : t.SameDirectories t' := by
  obtain ⟨bytes, l, -, -, hnode, rfl⟩ := writeText_eq_ok_iff.mp h
  intro l'
  rw [node?_insert hnode]
  split_ifs with hl
  · subst hl
    simp [hnode]
  · exact Iff.rfl

/-- A text can be written to a tree with the same directories. -/
theorem SameDirectories.exists_writeText (h : t.SameDirectories t') {text : Text} {t₁ : FileTree}
    (hwrite : t.writeText p text = .ok t₁) : ∃ t₂, t'.writeText p text = .ok t₂ := by
  obtain ⟨bytes, l, hbytes, hlocation, hnode, -⟩ := writeText_eq_ok_iff.mp hwrite
  have hnode' : t'.node? l ≠ some .directory := fun hd => hnode ((h l).mp hd)
  exact ⟨_, writeText_eq_ok_iff.mpr ⟨bytes, l, hbytes, h.location_eq_ok_iff.mpr hlocation, hnode', rfl⟩⟩

/-! ### Making directories -/

/-- Making a directory leaves all files as they are. -/
theorem node?_makeFrom {made : Bool} {names : List FileName} (h : t.makeFrom made l names = .ok t') (l' : List FileName)
    (bytes : List UInt8) : t'.node? l' = some (.file bytes) ↔ t.node? l' = some (.file bytes) := by
  induction names generalizing t made l with
  | nil =>
    cases h
    exact Iff.rfl
  | cons name rest ih =>
    rw [makeFrom] at h
    split at h
    · cases h
    · split at h
      · exact ih h
      · cases h
      · rename_i hnone
        have hfree : t.node? (next l name) ≠ some .directory := by
          rw [hnone]
          exact (Option.some_ne_none _).symm
        rw [ih h, node?_insert hfree]
        split_ifs with hl
        · subst hl
          simp [hnone]
        · exact Iff.rfl

theorem node?_make (h : t.make p = .ok t') (l : List FileName) (bytes : List UInt8) :
    t'.node? l = some (.file bytes) ↔ t.node? l = some (.file bytes) := by
  obtain ⟨names, -, hmake⟩ := bind_eq_ok_iff.mp h
  exact node?_makeFrom hmake l bytes

end FileTree

/-! ### Names in a directory -/

section

variable {cs : List CodePoint} (h : CodePoint.char '/' ∉ cs)

include h

private theorem pieces_of_notMem : Path.pieces cs = (cs, []) := by
  induction cs with
  | nil => rfl
  | cons c rest ih =>
    rw [List.mem_cons, not_or] at h
    obtain ⟨hc, hrest⟩ := h
    rw [Path.pieces, ih hrest]
    exact if_neg (Ne.symm hc)

private theorem rootOf_of_notMem : Path.rootOf cs = "" := by
  unfold Path.rootOf
  split
  · exact absurd (List.mem_cons_self ..) h
  · exact absurd (List.mem_cons_self ..) h
  · exact absurd (List.mem_cons_self ..) h
  · rfl

end

/-- A name without a slash leads on from a directory as it stands. -/
theorem Path.join_of_notMem {name : Text} (h : CodePoint.char '/' ∉ name.points) (hname : isName name = true) (p : Path) :
    p.join name = { p with names := p.names ++ [name] } := by
  have hpath : ofText name = ⟨"", [name]⟩ := by
    rw [ofText, pieces_of_notMem h, rootOf_of_notMem h]
    exact congrArg (Path.mk "") (List.filter_cons_of_pos hname)
  rw [join, hpath]
  rfl

theorem Text.pathBytes?_append (s t : Text) :
    (s ++ t).pathBytes? = s.pathBytes?.bind fun a => t.pathBytes?.map fun b => a ++ b := by
  simp only [pathBytes?, points_append, List.mapM_append]
  cases s.points.mapM CodePoint.pathBytes? with
  | none => rfl
  | some a =>
    cases t.points.mapM CodePoint.pathBytes? with
    | none => rfl
    | some b => exact congrArg some List.flatten_append

namespace FileTree

variable {t : FileTree} {p : Path} {l : List FileName}

theorem mapM_of_fileNames {names : List FileName} (h : p.fileNames = .ok names) :
    p.names.mapM Text.pathBytes? = some names := by
  unfold Path.fileNames at h
  split at h
  · rename_i hnames
    split_ifs at h
    cases h
    exact hnames
  · cases h

/-- A path that leads on by one name leads to a place in the directory that the path leads to. -/
private theorem location_join {name : Text} (hslash : CodePoint.char '/' ∉ name.points) (hname : Path.isName name = true)
    (h : t.location (p.join name) = .ok l) : ∃ names d bytes, p.names.mapM Text.pathBytes? = some names ∧
      t.locate (start p) names = .ok d ∧ name.pathBytes? = some bytes ∧ l = next d bytes := by
  rw [Path.join_of_notMem hslash hname] at h
  obtain ⟨all, hall, hlocate⟩ := bind_eq_ok_iff.mp h
  have hmap := mapM_of_fileNames hall
  rw [List.mapM_append] at hmap
  obtain ⟨names, hnames, hmap⟩ := Option.bind_eq_some_iff.mp hmap
  obtain ⟨last, hlast, hmap⟩ := Option.bind_eq_some_iff.mp hmap
  rw [List.mapM_cons, List.mapM_nil] at hlast
  obtain ⟨bytes, hbytes, hlast⟩ := Option.bind_eq_some_iff.mp hlast
  cases hlast
  cases hmap
  rw [locate_append] at hlocate
  obtain ⟨d, hd, hlocate⟩ := bind_eq_ok_iff.mp hlocate
  obtain ⟨-, -, hlocate⟩ := locate_cons_eq_ok_iff.mp hlocate
  exact ⟨names, d, bytes, hnames, hd, hbytes, (Except.ok.inj hlocate).symm⟩

private theorem pathBytes?_ending : Text.pathBytes? ".evt.txt" = some [46, 101, 118, 116, 46, 116, 120, 116] := by
  decide

/-- The place of a file by the bytes of its name. -/
private theorem location_file {name : Text} (hname : CodePoint.char '/' ∉ name.points)
    (h : t.location (p.join (name ++ ".evt.txt")) = .ok l) : ∃ names d bytes, p.names.mapM Text.pathBytes? = some names ∧
      t.locate (start p) names = .ok d ∧ name.pathBytes? = some bytes ∧
      l = d ++ [bytes ++ [46, 101, 118, 116, 46, 116, 120, 116]] := by
  have hslash : CodePoint.char '/' ∉ (name ++ ".evt.txt" : Text).points := by
    rw [Text.points_append, List.mem_append, not_or]
    exact ⟨hname, by decide⟩
  have hlength : (name ++ ".evt.txt" : Text).points.length = name.points.length + 8 := List.length_append
  have hisName : Path.isName (name ++ ".evt.txt") = true := by
    have hempty : (name ++ ".evt.txt" : Text).isEmpty = false := by
      rw [Text.isEmpty, List.isEmpty_eq_false_iff_exists_mem]
      exact ⟨.char '.', List.mem_append_right _ (by decide)⟩
    have hdot : (name ++ ".evt.txt" : Text) ≠ "." := by
      intro he
      rw [he] at hlength
      exact absurd hlength (by simp [Text.ofString])
    simp [Path.isName, hempty, hdot]
  obtain ⟨names, d, all, hnames, hd, hall, rfl⟩ := location_join hslash hisName h
  rw [Text.pathBytes?_append, pathBytes?_ending] at hall
  obtain ⟨bytes, hbytes, hall⟩ := Option.bind_eq_some_iff.mp hall
  cases hall
  refine ⟨names, d, bytes, hnames, hd, hbytes, if_neg ?_⟩
  intro hup
  have htwo := congrArg List.length hup
  rw [List.length_append, show up.length = 2 by decide +kernel] at htwo
  exact absurd htwo (by simp)

/-- Names of files in a directory that lead to one place are the same bytes. -/
theorem location_join_injective {name other : Text} (hname : CodePoint.char '/' ∉ name.points)
    (hother : CodePoint.char '/' ∉ other.points) (h : t.location (p.join (name ++ ".evt.txt")) = .ok l)
    (h' : t.location (p.join (other ++ ".evt.txt")) = .ok l) :
    ∃ bytes, name.pathBytes? = some bytes ∧ other.pathBytes? = some bytes := by
  obtain ⟨names, d, bytes, hnames, hd, hbytes, rfl⟩ := location_file hname h
  obtain ⟨names', d', bytes', hnames', hd', hbytes', he⟩ := location_file hother h'
  rw [hnames, Option.some_inj] at hnames'
  subst hnames'
  rw [hd, Except.ok.injEq] at hd'
  subst hd'
  have hlast := List.singleton_inj.mp (List.append_cancel_left he)
  rw [List.append_cancel_right hlast] at hbytes
  exact ⟨bytes', hbytes, hbytes'⟩

end FileTree

end MapScript
