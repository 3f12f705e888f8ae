import MapScript.CommandLine.Run
import MapScript.Proofs.CommandLine.Files
import Mathlib.Data.List.Basic

/-!
# Runs over many maps

Once its inputs are read, a run handles the maps in order, each as if there were no others (`run_maps`). What a map comes
to is said by `Job.alone`, which knows nothing of the other maps. A map with a text gets a file with it, and no other files
change; a map without one, be it unknown or faulty, costs a line on the error stream and the exit code.

The error stream is also where events are logged, in front of what is said of the map: `two_lines_of_failure` is a map
that fails after a warning.
-/

namespace MapScript

/-- A computation that goes on from the place where another one has ended. -/
private theorem bind_apply {α β : Type} {x : StateM FileTree α} {f : α → StateM FileTree β} {t t' : FileTree} {a : α}
    (h : x t = (a, t')) : (x >>= f) t = f a t' := by
  show (match x t with | (a, t) => f a t) = _
  rw [h]

/-! ### Inputs -/

/-- The file at a path holds a text in UTF-8. -/
def FileTree.Holds (t : FileTree) (p : Path) (text : String) : Prop :=
  ∃ bytes, t.read p = .ok bytes ∧ String.fromUTF8? ⟨bytes.toArray⟩ = some text

/-- The catalogue that a source gives, and what is reported about it. -/
inductive CatalogueSource.Gives (enginePath : Text) (t : FileTree) : CatalogueSource → List Event → Catalogue → Prop
  | engine {events : List Event} {c : Catalogue} : Catalogue.loadEngine enginePath = ⟨events, .ok c⟩ →
    Gives enginePath t .engine events c
  | file {path : Path} {text : String} {events : List Event} {c : Catalogue} : t.Holds path text →
    Catalogue.ofText path.text text = ⟨events, .ok c⟩ → Gives enginePath t (.file (some path)) events c

/-- A command line whose inputs are valid: what is reported about the catalogue, what there is to do for which maps, and
the files when the directory for the texts has been made. -/
inductive Prepares (enginePath : Text) (t : FileTree) : List Text → List Event → Job → List Text → FileTree → Prop
  | intro {arguments : List Text} {a : Arguments} {image table : Path} {policy : CommitPolicy} {given : List Text}
    {events : List Event} {c : Catalogue} {bytes : List UInt8} {text : String} {maps : MapTable} {t' : FileTree} :
    Arguments.ofList arguments = .ok a → a.image = some image → a.table = some table → a.policy = some policy →
    a.maps = given.map some → a.catalogue.Gives enginePath t events c → t.read image = .ok bytes → t.Holds table text →
    MapTable.ofText bytes text = .ok maps → t.make (a.outDir.getD image.parent) = .ok t' →
    Prepares enginePath t arguments events ⟨c, maps, policy, a.verbose, a.outDir.getD image.parent⟩
      (if given = [] then maps.names else given) t'

section

variable {enginePath : Text} {t t' : FileTree}

private theorem readText_apply {p : Path} {text : String} (h : t.Holds p text) :
    (readText p : StateM FileTree _) t = (.ok text, t) := by
  obtain ⟨bytes, hread, hutf⟩ := h
  have hbytes : (MonadFiles.readBytes p : StateM FileTree _) t = (.ok bytes, t) := congrArg (·, t) hread
  refine (bind_apply hbytes).trans ?_
  simp only [hutf]
  rfl

private theorem readCatalogue_apply {source : CatalogueSource} {events : List Event} {c : Catalogue}
    (h : source.Gives enginePath t events c) :
    (readCatalogue enginePath source : StateM FileTree _) t = (⟨events, .ok c⟩, t) := by
  cases h with
  | engine hload =>
    show ((Catalogue.loadEngine enginePath).mapError RunFault.catalogue, t) = _
    rw [hload]
    rfl
  | file hholds hload =>
    refine (bind_apply (readText_apply hholds)).trans ?_
    show ((Catalogue.ofText _ _).mapError RunFault.catalogue, t) = _
    rw [hload]
    rfl

private theorem readTable_apply {image table : Path} {bytes : List UInt8} {text : String} {maps : MapTable}
    (himage : t.read image = .ok bytes) (htable : t.Holds table text) (hmaps : MapTable.ofText bytes text = .ok maps) :
    (readTable image table : StateM FileTree _) t = (.ok maps, t) := by
  have hbytes : (MonadFiles.readBytes image : StateM FileTree _) t = (.ok bytes, t) := congrArg (·, t) himage
  refine (bind_apply hbytes).trans ?_
  refine (bind_apply (readText_apply htable)).trans ?_
  show ((MapTable.ofText bytes text).mapError RunFault.table, t) = _
  rw [hmaps]
  rfl

private theorem exists_of_gives {source : CatalogueSource} {events : List Event} {c : Catalogue}
    (h : source.Gives enginePath t events c) : ∀ path ∈ source.paths, ∃ p, path = some p ∧ t.pathExists p = .ok true := by
  cases h with
  | engine => exact nofun
  | file hholds =>
    obtain ⟨bytes, hread, -⟩ := hholds
    exact List.forall_mem_singleton.mpr ⟨_, rfl, FileTree.pathExists_of_read hread⟩

private theorem checkInputs_apply {paths : List (Option Path)}
    (h : ∀ path ∈ paths, ∃ p, path = some p ∧ t.pathExists p = .ok true) :
    (checkInputs paths : StateM FileTree _) t = (none, t) := by
  induction paths with
  | nil => rfl
  | cons path rest ih =>
    obtain ⟨⟨p, rfl, hexists⟩, hrest⟩ := List.forall_mem_cons.mp h
    have hp : (MonadFiles.pathExists p : StateM FileTree _) t = (.ok true, t) := congrArg (·, t) hexists
    exact (bind_apply hp).trans (ih hrest)

/-- Once its inputs are read a run is nothing but work on the maps. -/
private theorem run_of_prepares {arguments : List Text} {events : List Event} {j : Job} {names : List Text}
    (h : Prepares enginePath t arguments events j names t') : (run enginePath arguments : StateM FileTree _) t =
      (j.perform (names.map some) (Printed.nothing.log j.verbose events) 0 : StateM FileTree _) t' := by
  cases h with
  | @intro a image table policy given _ c bytes text maps _ ha himage htable hpolicy hgiven hc hread hholds hmaps hmake =>
    have hpaths : ∀ path ∈ [a.image, a.table] ++ a.catalogue.paths,
        ∃ p, path = some p ∧ t.pathExists p = .ok true := by
      obtain ⟨_, hread', -⟩ := hholds
      refine List.forall_mem_append.mpr ⟨?_, exists_of_gives hc⟩
      rw [himage, htable]
      refine List.forall_mem_cons.mpr ⟨⟨_, rfl, FileTree.pathExists_of_read hread⟩, ?_⟩
      exact List.forall_mem_singleton.mpr ⟨_, rfl, FileTree.pathExists_of_read hread'⟩
    have hmade : (MonadFiles.makeDirectory (a.outDir.getD image.parent) : StateM FileTree _) t = (.ok (), t') := by
      show t.update (t.make _) = _
      rw [hmake]
      rfl
    have hselected : (if a.maps.isEmpty then maps.names.map some else a.maps)
        = (if given = [] then maps.names else given).map some := by
      rw [hgiven]
      cases given <;> rfl
    rw [run, ha]
    refine (bind_apply (checkInputs_apply hpaths)).trans ?_
    rw [himage, htable]
    show (runOn enginePath a image table : StateM FileTree _) t = _
    refine (bind_apply (readCatalogue_apply hc)).trans ?_
    refine (bind_apply (readTable_apply hread hholds hmaps)).trans ?_
    rw [hpolicy]
    refine (bind_apply hmade).trans ?_
    rw [← hselected]

end

/-! ### Single maps -/

namespace Job

/-- The text of a map that is decompiled alone, or the reason why there is none. -/
def alone (j : Job) (name : Text) : Except Text Text :=
  match j.table.map? name with
  | none => .error "unknown map"
  | some m => (decompile j.catalogue { commitPolicy := j.policy } m).result.mapError fun cause => cause.message?.getD ""

/-- What decompiling a map reports. -/
def reports (j : Job) (name : Text) : List Event :=
  match j.table.map? name with
  | none => []
  | some m => (decompile j.catalogue { commitPolicy := j.policy } m).events

def fails (j : Job) (name : Text) : Bool := !(j.alone name).isOk

/-- The lines on the output for a map. -/
def output (j : Job) (name : Text) : List Text :=
  match j.alone name with
  | .ok _ => [name ++ " written to " ++ (j.file name).text]
  | .error _ => []

/-- The lines on the error stream for a map, but for what is logged. -/
def complaints (j : Job) (name : Text) : List Text :=
  match j.alone name with
  | .ok _ => []
  | .error reason => [name ++ ": " ++ reason]

/-- The lines of events that are logged. -/
def logged (j : Job) (events : List Event) : List Text :=
  (events.filter fun e => j.verbose || e.isWarning).map Event.line

/-- Every map that is known has a text or a fault of its script. -/
def Decompiles (j : Job) (names : List Text) : Prop :=
  ∀ name ∈ names, ∀ m, j.table.map? name = some m →
    Ends (fun _ => True) (fun e => e.isScriptFault = true) (decompile j.catalogue { commitPolicy := j.policy } m).result

/-- Every map that has a text can be written by itself. -/
def Writable (j : Job) (t : FileTree) (names : List Text) : Prop :=
  ∀ name ∈ names, ∀ source, j.alone name = .ok source → ∃ t', t.writeText (j.file name) source = .ok t'

/-- No two of the maps that have a text go to one place. -/
def Apart (j : Job) (t : FileTree) (names : List Text) : Prop :=
  ∀ name ∈ names, ∀ other ∈ names, j.fails name = false → j.fails other = false → ∀ l,
    t.location (j.file name) = .ok l → t.location (j.file other) = .ok l → name = other

/-- The texts of the maps have been written, and nothing else. -/
structure Wrote (j : Job) (names : List Text) (t t' : FileTree) : Prop where
  directories : t.SameDirectories t'
  written : ∀ name ∈ names, ∀ source, j.alone name = .ok source → ∀ l, t.location (j.file name) = .ok l →
    ∃ bytes, source.utf8? = some bytes ∧ t'.node? l = some (.file bytes)
  kept : ∀ l, (∀ name ∈ names, ∀ source, j.alone name = .ok source → t.location (j.file name) ≠ .ok l) →
    t'.node? l = t.node? l

variable {j : Job} {name : Text} {names : List Text} {t t₁ t' : FileTree}

private theorem unknown_eq : (name ++ ": unknown map" : Text) = name ++ ": " ++ "unknown map" := by
  ext1
  rw [Text.points_append, Text.points_append, Text.points_append, List.append_assoc]
  rfl

private theorem result_eq (h : j.Decompiles (name :: names)) : j.result name =
    (j.reports name, match j.alone name with
      | .ok source => .text source
      | .error reason => .refused (name ++ ": " ++ reason)) := by
  rw [result, reports, alone]
  cases hmap : j.table.map? name with
  | none => simp only [unknown_eq]
  | some m =>
    have hends := h name (List.mem_cons_self ..) m hmap
    simp only
    cases hresult : (decompile j.catalogue { commitPolicy := j.policy } m).result with
    | ok source => rfl
    | error cause =>
      rw [hresult] at hends
      simp only [hends.of_error]
      rfl

theorem Writable.tail (h : j.Writable t (name :: names)) : j.Writable t names :=
  fun other hother => h other (List.mem_cons_of_mem _ hother)

theorem Writable.of_same (h : j.Writable t names) (hsame : t.SameDirectories t₁) : j.Writable t₁ names := by
  intro name hname source hsource
  obtain ⟨t', hwrite⟩ := h name hname source hsource
  exact hsame.exists_writeText hwrite

theorem Apart.tail (h : j.Apart t (name :: names)) : j.Apart t names :=
  fun other hother again hagain => h other (List.mem_cons_of_mem _ hother) again (List.mem_cons_of_mem _ hagain)

theorem Apart.of_same (h : j.Apart t names) (hsame : t.SameDirectories t₁) : j.Apart t₁ names :=
  fun name hname other hother hn ho l hl hl' =>
    h name hname other hother hn ho l (hsame.location_eq_ok_iff.mp hl) (hsame.location_eq_ok_iff.mp hl')

theorem fails_eq_false {source : Text} (h : j.alone name = .ok source) : j.fails name = false := by
  rw [fails, h]
  rfl

theorem Wrote.of_error {reason : Text} (h : j.alone name = .error reason) (hrest : j.Wrote names t t') :
    j.Wrote (name :: names) t t' where
  directories := hrest.directories
  written := by
    refine List.forall_mem_cons.mpr ⟨fun source hsource => ?_, hrest.written⟩
    rw [h] at hsource
    cases hsource
  kept l hl := hrest.kept l fun other hother => hl other (List.mem_cons_of_mem _ hother)

theorem Wrote.cons {source : Text} (hsource : j.alone name = .ok source) (hapart : j.Apart t (name :: names))
    (hwrite : t.writeText (j.file name) source = .ok t₁) (hrest : j.Wrote names t₁ t') : j.Wrote (name :: names) t t' := by
  obtain ⟨bytes, l, hbytes, hl, hnode, ht₁⟩ := FileTree.writeText_eq_ok_iff.mp hwrite
  have hsame : t.SameDirectories t₁ := FileTree.sameDirectories_of_writeText hwrite
  refine ⟨hsame.trans hrest.directories, List.forall_mem_cons.mpr ⟨?_, ?_⟩, ?_⟩
  · intro source' hsource' l' hl'
    cases hsource.symm.trans hsource'
    cases hl.symm.trans hl'
    by_cases hagain : ∃ other ∈ names, ∃ again, j.alone other = .ok again ∧ t₁.location (j.file other) = .ok l
    · obtain ⟨other, hother, again, hagain, hl₁⟩ := hagain
      have hplace := hsame.location_eq_ok_iff.mp hl₁
      cases hapart name (List.mem_cons_self ..) other (List.mem_cons_of_mem _ hother) (fails_eq_false hsource)
        (fails_eq_false hagain) l hl hplace
      exact hrest.written name hother source hsource l hl₁
    · have hkept := hrest.kept l fun other hother again hagain' hl₁ => hagain ⟨other, hother, again, hagain', hl₁⟩
      refine ⟨bytes, hbytes, ?_⟩
      rw [hkept, ht₁, FileTree.node?_insert hnode, if_pos rfl]
  · intro other hother again hagain l' hl'
    exact hrest.written other hother again hagain l' (hsame.location_eq_ok_iff.mpr hl')
  · intro l' hfree
    have hne : l ≠ l' := by
      rintro rfl
      exact hfree name (List.mem_cons_self ..) source hsource hl
    rw [hrest.kept l' ?_, ht₁, FileTree.node?_insert hnode, if_neg hne]
    intro other hother again hagain hl₁
    exact hfree other (List.mem_cons_of_mem _ hother) again hagain (hsame.location_eq_ok_iff.mp hl₁)

/-- Maps are handled in order, each by itself. -/
theorem perform_eq (hdecompiles : j.Decompiles names) (hwritable : j.Writable t names) (hapart : j.Apart t names)
    (p : Printed) (failures : Nat) : ∃ t', j.Wrote names t t' ∧
      (j.perform (names.map some) p failures : StateM FileTree _) t =
        (⟨⟨p.output ++ names.flatMap j.output, p.errors ++ names.flatMap fun name =>
          j.logged (j.reports name) ++ j.complaints name⟩, .finished (failures + names.countP j.fails)⟩, t') := by
  induction names generalizing t p failures with
  | nil =>
    refine ⟨t, ⟨.refl t, List.forall_mem_nil _, fun _ _ => rfl⟩, ?_⟩
    simp only [List.flatMap_nil, List.append_nil, List.countP_nil, Nat.add_zero]
    rfl
  | cons name rest ih =>
    have hdecompiles' : j.Decompiles rest := fun other hother => hdecompiles other (List.mem_cons_of_mem _ hother)
    rw [List.map_cons, perform, result_eq hdecompiles]
    simp only [List.flatMap_cons, List.countP_cons]
    cases halone : j.alone name with
    | error reason =>
      obtain ⟨t', hwrote, hrun⟩ := ih hdecompiles' hwritable.tail hapart.tail
        ((p.log j.verbose (j.reports name)).complain (name ++ ": " ++ reason)) (failures + 1)
      refine ⟨t', .of_error halone hwrote, hrun.trans ?_⟩
      simp [Printed.log, Printed.complain, logged, output, complaints, fails, halone, Except.isOk, Except.toBool,
        Nat.add_assoc, Nat.add_comm]
    | ok source =>
      obtain ⟨t₁, hwrite⟩ := hwritable name (List.mem_cons_self ..) source halone
      have hsame := FileTree.sameDirectories_of_writeText hwrite
      obtain ⟨t', hwrote, hrun⟩ := ih hdecompiles' (hwritable.tail.of_same hsame) (hapart.tail.of_same hsame)
        ((p.log j.verbose (j.reports name)).print (name ++ " written to " ++ (j.file name).text)) failures
      have happly : (MonadFiles.writeText (j.file name) source : StateM FileTree _) t = (.ok (), t₁) := by
        show t.update (t.writeText _ _) = _
        rw [hwrite]
        rfl
      refine ⟨t', .cons halone hapart hwrite hwrote, ((bind_apply happly).trans hrun).trans ?_⟩
      simp [Printed.log, Printed.print, logged, output, complaints, fails, halone, Except.isOk, Except.toBool]

/-! ### All maps -/

/-- Of all files just those of the maps that have a text are written, each with its text. -/
structure Files (j : Job) (names : List Text) (t t' : FileTree) : Prop where
  written : ∀ name ∈ names, ∀ source, j.alone name = .ok source →
    ∃ bytes, source.utf8? = some bytes ∧ t'.read (j.file name) = .ok bytes
  kept : ∀ l, (∀ name ∈ names, ∀ source, j.alone name = .ok source → t'.location (j.file name) ≠ .ok l) →
    ∀ bytes, t'.node? l = some (.file bytes) ↔ t.node? l = some (.file bytes)

theorem mem_names_of_alone {source : Text} (h : j.alone name = .ok source) : name ∈ j.table.names := by
  cases hget : j.table.entries.get? name with
  | none =>
    rw [alone, MapTable.map?, hget] at h
    cases h
  | some entry => exact List.mem_map_of_mem (Entries.mem_of_get?_eq_some hget)

theorem exists_alone_of_fails (h : j.fails name = false) : ∃ source, j.alone name = .ok source := by
  rw [fails] at h
  cases halone : j.alone name with
  | ok source => exact ⟨source, rfl⟩
  | error reason =>
    rw [halone] at h
    cases h

theorem apart_of_names (hslash : ∀ name ∈ j.table.names, CodePoint.char '/' ∉ name.points)
    (hdistinct : ∀ name ∈ j.table.names, ∀ other ∈ j.table.names,
      name.pathBytes? ≠ none → name.pathBytes? = other.pathBytes? → name = other) : j.Apart t names := by
  intro name _ other _ hn ho l hl hl'
  obtain ⟨source, hsource⟩ := exists_alone_of_fails hn
  obtain ⟨again, hagain⟩ := exists_alone_of_fails ho
  have hname := mem_names_of_alone hsource
  have hother := mem_names_of_alone hagain
  obtain ⟨bytes, hb, hb'⟩ := FileTree.location_join_injective (hslash name hname) (hslash other hother) hl hl'
  refine hdistinct name hname other hother ?_ (hb.trans hb'.symm)
  rw [hb]
  exact Option.some_ne_none bytes

end Job

private theorem files_of_prepares {enginePath : Text} {arguments : List Text} {t start : FileTree} {events : List Event}
    {j : Job} {names : List Text} (h : Prepares enginePath t arguments events j names start) (l : List FileName)
    (bytes : List UInt8) : start.node? l = some (.file bytes) ↔ t.node? l = some (.file bytes) := by
  cases h with
  | intro _ _ _ _ _ _ _ _ _ hmake => exact FileTree.node?_make hmake l bytes

private theorem exitCode_countP {names : List Text} {fails : Text → Bool} :
    exitCode (names.countP fails) = if ∃ name ∈ names, fails name = true then 1 else 0 := by
  rw [exitCode]
  split_ifs with hcount hfails hfails
  · obtain ⟨name, hname, hfails⟩ := hfails
    exact absurd hfails (List.countP_eq_zero.mp hcount name hname)
  · rfl
  · rfl
  · exact absurd (List.countP_eq_zero.mpr fun name hname h => hfails ⟨name, hname, h⟩) hcount

/-- A run writes each map that has a text and complains of each other one, whatever the maps around it are. -/
theorem run_maps {enginePath : Text} {arguments : List Text} {t start : FileTree} {events : List Event} {j : Job}
    {names : List Text} (hprepares : Prepares enginePath t arguments events j names start)
    (hdecompiles : j.Decompiles names) (hslash : ∀ name ∈ j.table.names, CodePoint.char '/' ∉ name.points)
    (hdistinct : ∀ name ∈ j.table.names, ∀ other ∈ j.table.names,
      name.pathBytes? ≠ none → name.pathBytes? = other.pathBytes? → name = other)
    (hwritable : j.Writable start names) :
    ∃ final, (run enginePath arguments : StateM FileTree _) t =
        (⟨⟨names.flatMap j.output,
            j.logged events ++ names.flatMap fun name => j.logged (j.reports name) ++ j.complaints name⟩,
          .finished (names.countP j.fails)⟩, final) ∧
      j.Files names t final ∧
      exitCode (names.countP j.fails) = if ∃ name ∈ names, j.fails name = true then 1 else 0 := by
  obtain ⟨final, hwrote, hperform⟩ := Job.perform_eq hdecompiles hwritable (Job.apart_of_names hslash hdistinct)
    (Printed.nothing.log j.verbose events) 0
  refine ⟨final, ((run_of_prepares hprepares).trans hperform).trans ?_, ⟨?_, ?_⟩, exitCode_countP⟩
  · rw [Nat.zero_add]
    rfl
  · intro name hname source hsource
    obtain ⟨_, hwrite⟩ := hwritable name hname source hsource
    obtain ⟨_, l, -, hl, -, -⟩ := FileTree.writeText_eq_ok_iff.mp hwrite
    obtain ⟨bytes, hbytes, hnode⟩ := hwrote.written name hname source hsource l hl
    have hl' := hwrote.directories.location_eq_ok_iff.mpr hl
    exact ⟨bytes, hbytes, FileTree.read_eq_ok_iff.mpr ⟨l, hl', hnode⟩⟩
  · intro l hfree bytes
    have hkept := hwrote.kept l fun name hname source hsource hl =>
      hfree name hname source hsource (hwrote.directories.location_eq_ok_iff.mpr hl)
    rw [hkept, files_of_prepares hprepares]

/-! ### A run over a map that fails with a warning -/

/-- The first map returns at once. The second one starts a script outside its image and has no end. -/
def twoMaps : MapTable where
  image := [0, 0, 0, 2, 0, 0, 0, 0, 0, 0, 0, 1, 0, 0, 0, 0, 0, 0, 0, 0x44, 0, 0, 0, 1, 0x80, 0x40, 0, 0, 0, 0, 0, 2,
    0, 0, 0, 0]
  entries := .ofList [("a", ⟨"a", 0, 16, 0, 0⟩), ("b", ⟨"b", 16, 36, 0, 0⟩)]

private def twoMapsText : String :=
  "\x7b\"maps\":[\x7b\"name\":\"a\",\"rom_start\":0,\"rom_end\":16,\"vram_start\":0,\"main\":0\x7d," ++
    "\x7b\"name\":\"b\",\"rom_start\":16,\"rom_end\":36,\"vram_start\":0,\"main\":0\x7d]\x7d"

/-- The bytes of a text. -/
private def contents (text : String) : FileNode := .file text.toByteArray.data.toList

/-- An image `i` with its table `t`, and a catalogue `c` without methods. -/
def twoMapsFiles : FileTree where
  nodes := .ofList [([[0x69]], .file twoMaps.image), ([[0x74]], contents twoMapsText), ([[0x63]], contents "\x7b\x7d")]

/-- The files with a directory for the texts. -/
def twoMapsStart : FileTree := ⟨twoMapsFiles.nodes.insert [[0x6f]] .directory⟩

def twoMapsJob : Job := ⟨.empty, twoMaps, .skipRemaining, false, .ofText "o"⟩

/-- The arguments that ask for these maps. -/
def twoMapsArguments (names : List Text) : List Text :=
  (["i", "t", "--catalogue", "c", "--out-dir", "o"] : List Text) ++ names.flatMap fun name => [("--map" : Text), name]

private theorem holds_of_contents {t : FileTree} {p : Path} {l : List FileName} {text : String}
    (hl : t.location p = .ok l) (hnode : t.node? l = some (contents text)) : t.Holds p text := by
  refine ⟨_, FileTree.read_eq_ok_iff.mpr ⟨l, hl, hnode⟩, ?_⟩
  rw [Array.toArray_toList]
  exact dif_pos text.isValidUTF8

private theorem gives_twoMaps :
    (CatalogueSource.file (some (.ofText "c"))).Gives "" twoMapsFiles [.catalogueLoaded 0 "c"] .empty := by
  have hholds : twoMapsFiles.Holds (.ofText "c") "\x7b\x7d" :=
    holds_of_contents (l := [[0x63]]) (by decide +kernel) (by decide +kernel)
  have hevents : (Catalogue.ofText (Path.ofText "c").text "\x7b\x7d").events = [.catalogueLoaded 0 "c"] := by
    decide +kernel
  have hresult : (Catalogue.ofText (Path.ofText "c").text "\x7b\x7d").result = .ok .empty := by
    decide +kernel
  exact .file hholds (congr (congrArg Logged.mk hevents) hresult)

private theorem prepares_twoMaps {names : List Text} (hnames : names ≠ [])
    (h : Arguments.ofList (twoMapsArguments names) = .ok ⟨some (.ofText "i"), some (.ofText "t"), names.map some,
      some (.ofText "o"), .file (some (.ofText "c")), some .skipRemaining, false⟩) :
    Prepares "" twoMapsFiles (twoMapsArguments names) [.catalogueLoaded 0 "c"] twoMapsJob names twoMapsStart := by
  have himage : twoMapsFiles.read (.ofText "i") = .ok twoMaps.image := by
    decide +kernel
  have htable : twoMapsFiles.Holds (.ofText "t") twoMapsText :=
    holds_of_contents (l := [[0x74]]) (by decide +kernel) (by decide +kernel)
  have hmaps : MapTable.ofText twoMaps.image twoMapsText = .ok twoMaps := by
    decide +kernel
  have hmake : twoMapsFiles.make (.ofText "o") = .ok twoMapsStart := by
    decide +kernel
  have hprepares : Prepares "" twoMapsFiles (twoMapsArguments names) [.catalogueLoaded 0 "c"] twoMapsJob
      (if names = [] then twoMaps.names else names) twoMapsStart :=
    .intro h rfl rfl rfl rfl gives_twoMaps himage htable hmaps hmake
  rwa [if_neg hnames] at hprepares

/-- Whether decompiling a map ends in a text or in a fault of its script. -/
private def endsWell (j : Job) (m : Overlay) : Bool :=
  match (decompile j.catalogue { commitPolicy := j.policy } m).result with
  | .ok _ => true
  | .error cause => cause.isScriptFault

private theorem decompiles_of_all {j : Job} {names : List Text}
    (h : (names.all fun name => (j.table.map? name).all (endsWell j)) = true) : j.Decompiles names := by
  intro name hname m hm
  have hends := List.all_eq_true.mp h name hname
  rw [hm, Option.all_some, endsWell] at hends
  cases hresult : (decompile j.catalogue { commitPolicy := j.policy } m).result with
  | ok source => exact .ok trivial
  | error cause =>
    rw [hresult] at hends
    exact .error hends

private theorem writable_of_all {j : Job} {t : FileTree} {names : List Text}
    (h : (names.all fun name => match j.alone name with
      | .ok source => (t.writeText (j.file name) source).isOk
      | .error _ => true) = true) : j.Writable t names := by
  intro name hname source hsource
  have hwrite := List.all_eq_true.mp h name hname
  simp only [hsource] at hwrite
  cases hresult : t.writeText (j.file name) source with
  | ok t' => exact ⟨t', rfl⟩
  | error e =>
    rw [hresult] at hwrite
    cases hwrite

private theorem slash_notMem_twoMaps : ∀ name ∈ twoMapsJob.table.names, CodePoint.char '/' ∉ name.points := by
  decide +kernel

private theorem distinct_twoMaps : ∀ name ∈ twoMapsJob.table.names, ∀ other ∈ twoMapsJob.table.names,
    name.pathBytes? ≠ none → name.pathBytes? = other.pathBytes? → name = other := by
  decide +kernel

private theorem errors_of_failure : twoMapsJob.logged (twoMapsJob.reports "b") ++ twoMapsJob.complaints "b" =
    (["WARNING evtdecomp.decoder: script 0x80400000 lies outside the map image; assuming it captures nothing",
      "b: failed to decompile bytecode: script ends before End at 0x00000014"] : List Text) := by
  decide +kernel

/-- A map that fails may have two lines on the error stream: its warnings are logged there, too. -/
theorem two_lines_of_failure :
    Prepares "" twoMapsFiles (twoMapsArguments ["b"]) [.catalogueLoaded 0 "c"] twoMapsJob ["b"] twoMapsStart ∧
      twoMapsJob.Decompiles ["b"] ∧ (∀ name ∈ twoMapsJob.table.names, CodePoint.char '/' ∉ name.points) ∧
      (∀ name ∈ twoMapsJob.table.names, ∀ other ∈ twoMapsJob.table.names,
        name.pathBytes? ≠ none → name.pathBytes? = other.pathBytes? → name = other) ∧
      twoMapsJob.Writable twoMapsStart ["b"] ∧ [("b" : Text)].countP twoMapsJob.fails = 1 ∧
      ((run "" (twoMapsArguments ["b"]) : StateM FileTree _) twoMapsFiles).1.printed.errors =
        (["WARNING evtdecomp.decoder: script 0x80400000 lies outside the map image; assuming it captures nothing",
          "b: failed to decompile bytecode: script ends before End at 0x00000014"] : List Text) := by
  have hprepares : Prepares "" twoMapsFiles (twoMapsArguments ["b"]) [.catalogueLoaded 0 "c"] twoMapsJob ["b"]
      twoMapsStart := prepares_twoMaps (List.cons_ne_nil _ _) (by decide +kernel)
  have hdecompiles : twoMapsJob.Decompiles ["b"] := decompiles_of_all (by decide +kernel)
  have hwritable : twoMapsJob.Writable twoMapsStart ["b"] := writable_of_all (by decide +kernel)
  refine ⟨hprepares, hdecompiles, slash_notMem_twoMaps, distinct_twoMaps, hwritable, by decide +kernel, ?_⟩
  obtain ⟨final, -, hperform⟩ := Job.perform_eq hdecompiles hwritable
    (Job.apart_of_names slash_notMem_twoMaps distinct_twoMaps) (Printed.nothing.log false [.catalogueLoaded 0 "c"]) 0
  rw [(run_of_prepares hprepares).trans hperform]
  simp only [List.flatMap_cons, List.flatMap_nil, List.append_nil, errors_of_failure]
  rfl

/-- A run over these maps, one of which is asked for twice and another one is unknown. -/
theorem run_maps_repeated :
    Prepares "" twoMapsFiles (twoMapsArguments ["a", "x", "b", "a"]) [.catalogueLoaded 0 "c"] twoMapsJob
        ["a", "x", "b", "a"] twoMapsStart ∧
      ∃ final, (run "" (twoMapsArguments ["a", "x", "b", "a"]) : StateM FileTree _) twoMapsFiles =
          (⟨⟨["a written to o/a.evt.txt", "a written to o/a.evt.txt"], ["x: unknown map",
              "WARNING evtdecomp.decoder: script 0x80400000 lies outside the map image; assuming it captures nothing",
              "b: failed to decompile bytecode: script ends before End at 0x00000014"]⟩, .finished 2⟩, final) ∧
        twoMapsJob.Files ["a", "x", "b", "a"] twoMapsFiles final ∧ exitCode 2 = 1 := by
  have hprepares : Prepares "" twoMapsFiles (twoMapsArguments ["a", "x", "b", "a"]) [.catalogueLoaded 0 "c"] twoMapsJob
      ["a", "x", "b", "a"] twoMapsStart := prepares_twoMaps (List.cons_ne_nil _ _) (by decide +kernel)
  have hdecompiles : twoMapsJob.Decompiles ["a", "x", "b", "a"] := decompiles_of_all (by decide +kernel)
  have hwritable : twoMapsJob.Writable twoMapsStart ["a", "x", "b", "a"] := writable_of_all (by decide +kernel)
  have hwritten : twoMapsJob.logged (twoMapsJob.reports "a") ++ twoMapsJob.complaints "a" = [] := by
    decide +kernel
  have hunknown : twoMapsJob.logged (twoMapsJob.reports "x") ++ twoMapsJob.complaints "x" = ["x: unknown map"] := by
    decide +kernel
  have houtput : (["a", "x", "b", "a"] : List Text).flatMap twoMapsJob.output =
      ["a written to o/a.evt.txt", "a written to o/a.evt.txt"] := by
    decide +kernel
  have hfails : (["a", "x", "b", "a"] : List Text).countP twoMapsJob.fails = 2 := by
    decide +kernel
  obtain ⟨final, hrun, hfiles, -⟩ := run_maps hprepares hdecompiles slash_notMem_twoMaps distinct_twoMaps hwritable
  refine ⟨hprepares, final, hrun.trans ?_, hfiles, rfl⟩
  rw [houtput, hfails, List.flatMap_cons, List.flatMap_cons, List.flatMap_cons, List.flatMap_cons, List.flatMap_nil,
    hwritten, hunknown, errors_of_failure]
  rfl

end MapScript
