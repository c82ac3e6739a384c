/-
Rulebook/Proofs/Written.lean

What writing files does to a disk, whatever the files and the disk.  One file is written
in two steps (`Wrote`): the missing directories on its way are made, and then the file is
set where its path leads, where nothing was or a file.  A row of files is written one
after the other (`WroteAll`), and nothing else happens: a run is such a row up to the
first file that fails, for which at most directories are made (`writeAll_cases`).

What a row of files leaves is said place by place (`WroteAll.fate`): a place is as it
was, or a directory on the way to one of the files, or holds one of the files.  The last
file at a place is the one that stays (`WroteAll.reach_last`).

So files that have been written can be written again, and this changes nothing
(`WroteAll.writeAll_again`), even where several of them go to one place.
-/
import Rulebook.Compilation
import Rulebook.Proofs.Disk.Retains

namespace Rulebook

open Disk (DirsMade MadeFor Name Place Retains)

variable {d d₁ d' d'' : Disk} {loc l dir : Location} {file : OutputFile}
variable {files more before after : List OutputFile} {e : Entry}

/-! ### Writing to a path -/

namespace Disk

variable {n : Name} {p : Path} {bytes old : ByteArray}

theorem writeFile_eq_ok (h : d.writeFile p bytes = .ok d') :
    ∃ n dir, d.entryAt dir = some .directory ∧
      (∀ e, d.entryAt (n :: dir) = some e → ∃ old, e = .file old) ∧
      d' = d.put n dir (.file bytes) ∧
      d'.reach .write p = .ok (.taken (n :: dir) (.file bytes)) := by
  obtain ⟨place, hreach, h⟩ := bind_eq_ok_iff.1 h
  have hstands := entryAt_of_reach hreach
  -- the two places at which a file can be set
  have hplace : ∃ n dir, place.loc = n :: dir ∧ d' = d.put n dir (.file bytes) ∧
      ∀ e, place.entry? = some e → ∃ old, e = .file old := by
    rcases place with ⟨- | ⟨n, dir⟩, - | old | target⟩ | ⟨n, dir⟩
    case taken.cons.file =>
      obtain rfl : d.put n dir (.file bytes) = d' := by simpa [pure, Except.pure] using h
      exact ⟨n, dir, rfl, rfl, fun e he => ⟨old, (Option.some.inj he).symm⟩⟩
    case free =>
      obtain rfl : d.put n dir (.file bytes) = d' := by simpa [pure, Except.pure] using h
      exact ⟨n, dir, rfl, rfl, by simp [Place.entry?]⟩
    all_goals simp at h
  obtain ⟨n, dir, hloc, rfl, hold⟩ := hplace
  rw [← hstands, hloc] at hold
  have hdir : d.entryAt dir = some .directory := entryAt_dir_of_reach hreach hloc
  have hfree : d.entryAt (n :: dir) ≠ some .directory := by
    intro hd
    obtain ⟨old, hold⟩ := hold _ hd
    cases hold
  have hretains : Retains d (d.put n dir (.file bytes)) := by
    refine .put hdir fun e he => ?_
    obtain ⟨old, rfl⟩ := hold e he
    exact ⟨old, bytes, rfl, rfl⟩
  have hnew : (d.put n dir (.file bytes)).entryAt (n :: dir) = some (.file bytes) := by
    rw [entryAt_put ⟨hdir, hfree⟩, if_pos rfl]
  refine ⟨n, dir, hdir, hold, rfl, ?_⟩
  rw [← hloc] at hnew ⊢
  exact hretains.reach hreach hnew nofun

/-- Where a file is, new bytes can be written. -/
theorem exists_writeFile_of_reach (h : d.reach .write p = .ok (.taken loc (.file old)))
    (bytes : ByteArray) : ∃ d', d.writeFile p bytes = .ok d' := by
  rcases loc with - | ⟨n, dir⟩
  · exact absurd (entryAt_of_reach h) (by simp [Place.loc, Place.entry?])
  · exact ⟨d.put n dir (.file bytes), by rw [writeFile, h]; rfl⟩

end Disk

/-! ### One file -/

/-- The directories on the way to a file, innermost first. -/
def OutputFile.parents (file : OutputFile) : List Path :=
  match file.path.parent? with
  | none => []
  | some dir => dir.ancestors

/-- Whether the directory that a file goes into is there, if its path names one. -/
def HasRoom (d : Disk) (file : OutputFile) : Prop :=
  ∀ dir, file.path.parent? = some dir → dir.chars = [] ∨ d.hasDir dir = true

/-- Whether nothing has changed but that a file is set at a place. -/
structure FileSet (d : Disk) (file : OutputFile) (loc : Location) (d' : Disk) : Prop where
  here : d'.here = d.here
  /-- Nothing was there, or a file. -/
  old : ∀ e, d.entryAt loc = some e → ∃ bytes, e = .file bytes
  /-- The path of the file leads there now, and the whole content is there. -/
  reach : d'.reach .write file.path = .ok (.taken loc (.file file.content.toUTF8))
  other : ∀ l, l ≠ loc → d'.entryAt l = d.entryAt l

/-- Whether a file has been written: the missing directories on its way have been made, so
that it has room, and the file has been set. -/
def Wrote (d : Disk) (file : OutputFile) (d' : Disk) : Prop :=
  ∃ d₁ loc, DirsMade d file.parents d₁ ∧ HasRoom d₁ file ∧ FileSet d₁ file loc d'

theorem HasRoom.mono (h : HasRoom d file) (hretains : Retains d d') : HasRoom d' file :=
  fun dir hdir => (h dir hdir).imp_right hretains.hasDir

theorem FileSet.retains (h : FileSet d file loc d') : Retains d d' := by
  have hkept : ∀ l e, d.entryAt l = some e → (∀ bytes, e ≠ .file bytes) →
      d'.entryAt l = some e := by
    intro l e hl hno
    have hne : l ≠ loc := by
      rintro rfl
      obtain ⟨bytes, rfl⟩ := h.old e hl
      exact hno bytes rfl
    rw [h.other l hne, hl]
  refine ⟨h.here, fun l hl => hkept l _ hl nofun, fun l target hl => hkept l _ hl nofun,
    fun l bytes hl => ?_⟩
  by_cases hne : l = loc
  · exact ⟨_, hne ▸ Disk.entryAt_of_reach h.reach⟩
  · exact ⟨bytes, by rw [h.other l hne, hl]⟩

/-- In place of a file, nothing is lost or won but bytes. -/
theorem FileSet.retains_back {old : ByteArray} (h : FileSet d file loc d')
    (hold : d.entryAt loc = some (.file old)) : Retains d' d := by
  have hkept : ∀ l e, d'.entryAt l = some e → (∀ bytes, e ≠ .file bytes) →
      d.entryAt l = some e := by
    intro l e hl hno
    have hne : l ≠ loc := by
      rintro rfl
      have hstands : d'.entryAt l = _ := Disk.entryAt_of_reach h.reach
      exact hno _ (Option.some.inj (hl.symm.trans hstands))
    rw [← h.other l hne, hl]
  refine ⟨h.here.symm, fun l hl => hkept l _ hl nofun, fun l target hl => hkept l _ hl nofun,
    fun l bytes hl => ?_⟩
  by_cases hne : l = loc
  · exact ⟨old, hne ▸ hold⟩
  · exact ⟨bytes, by rw [← h.other l hne, hl]⟩

theorem fileSet_of_writeText (h : d.writeText file.path file.content = .ok d') :
    ∃ loc, FileSet d file loc d' := by
  obtain ⟨n, dir, hdir, hold, rfl, hreach⟩ := Disk.writeFile_eq_ok h
  have hcan : d.CanPut n dir := by
    refine ⟨hdir, fun hd => ?_⟩
    obtain ⟨old, hold⟩ := hold _ hd
    cases hold
  refine ⟨n :: dir, Disk.here_put d n dir _, hold, hreach, fun l hl => ?_⟩
  rw [Disk.entryAt_put hcan, if_neg hl]

/-! ### Room for a file -/

theorem dirsMade_makeRoom (d : Disk) (file : OutputFile) :
    DirsMade d file.parents (makeRoom d file).1 := by
  rw [makeRoom, OutputFile.parents]
  cases file.path.parent? with
  | none => exact .refl d _
  | some dir => exact Disk.dirsMade_makeDirsUp d dir.ancestors

theorem hasRoom_of_makeRoom (h : makeRoom d file = (d', .ok ())) : HasRoom d' file := by
  intro dir hdir
  obtain ⟨above, habove⟩ := Path.exists_ancestorsUpTo_eq_cons dir.chars.length dir
  rw [makeRoom, hdir] at h
  dsimp only at h
  rcases hmade : d.makeDirs dir with ⟨d₁, made⟩
  rw [hmade] at h
  dsimp only at h
  obtain ⟨rfl, hok⟩ := Prod.mk.inj h
  rw [mapError_eq_ok_iff.1 hok, Disk.makeDirs, Path.ancestors, habove] at hmade
  exact Disk.hasDir_of_makeDirsUp hmade

/-- Where a file has room, nothing is to be made. -/
theorem makeRoom_of_hasRoom (h : HasRoom d file) : makeRoom d file = (d, .ok ()) := by
  rw [makeRoom]
  cases hdir : file.path.parent? with
  | none => rfl
  | some dir =>
    have hmade : d.makeDirs dir = (d, .ok ()) := by
      obtain ⟨above, habove⟩ := Path.exists_ancestorsUpTo_eq_cons dir.chars.length dir
      rw [Disk.makeDirs, Path.ancestors, habove]
      rcases h dir hdir with hnil | hthere
      · rw [Disk.makeDirsUp, if_pos hnil]
      · exact Disk.makeDirsUp_of_hasDir hthere
    dsimp only
    rw [hmade]
    rfl

theorem wrote_of_writeGenerated (h : writeGenerated d file = (d', .ok ())) : Wrote d file d' := by
  rw [writeGenerated] at h
  rcases hroom : makeRoom d file with ⟨d₁, f | ⟨⟩⟩
  · simp [hroom] at h
  · rw [hroom] at h
    dsimp only at h
    rcases hwrite : d₁.writeText file.path file.content with fault | d₂
    · simp [hwrite] at h
    · rw [hwrite] at h
      obtain ⟨rfl, -⟩ := Prod.mk.inj h
      obtain ⟨loc, hset⟩ := fileSet_of_writeText hwrite
      have hmade := dirsMade_makeRoom d file
      rw [hroom] at hmade
      exact ⟨d₁, loc, hmade, hasRoom_of_makeRoom hroom, hset⟩

/-- A file that cannot be written leaves new directories at most. -/
theorem dirsMade_of_writeGenerated {f : Failure} (h : writeGenerated d file = (d', .error f)) :
    DirsMade d file.parents d' := by
  have hmade := dirsMade_makeRoom d file
  rw [writeGenerated] at h
  rcases hroom : makeRoom d file with ⟨d₁, f' | ⟨⟩⟩
  · rw [hroom] at h hmade
    exact (Prod.mk.inj h).1 ▸ hmade
  · rw [hroom] at h hmade
    dsimp only at h
    rcases hwrite : d₁.writeText file.path file.content with fault | d₂
    · rw [hwrite] at h
      exact (Prod.mk.inj h).1 ▸ hmade
    · simp [hwrite] at h

namespace Wrote

theorem retains (h : Wrote d file d') : Retains d d' := by
  obtain ⟨d₁, loc, hmade, -, hset⟩ := h
  exact hmade.retains.trans hset.retains

theorem hasRoom (h : Wrote d file d') : HasRoom d' file := by
  obtain ⟨d₁, loc, -, hroom, hset⟩ := h
  exact hroom.mono hset.retains

end Wrote

/-! ### What becomes of a place -/

/-- What has become of a place while files were written. -/
inductive Fate (d : Disk) (files : List OutputFile) (d' : Disk) (loc : Location) : Prop
  /-- It is as it was. -/
  | kept : d'.entryAt loc = d.entryAt loc → Fate d files d' loc
  /-- It is a new directory on the way to one of the files. -/
  | made {file : OutputFile} : d.entryAt loc = none → d'.entryAt loc = some .directory →
      file ∈ files → MadeFor d file.parents d' loc → Fate d files d' loc
  /-- It holds one of the files, where nothing was or a file. -/
  | written {file : OutputFile} : (∀ e, d.entryAt loc = some e → ∃ bytes, e = .file bytes) →
      file ∈ files → d'.reach .write file.path = .ok (.taken loc (.file file.content.toUTF8)) →
        Fate d files d' loc

namespace Fate

theorem mono (h : Fate d files d' loc) (hsub : files ⊆ more) : Fate d more d' loc := by
  cases h with
  | kept hkept => exact .kept hkept
  | made hnone hdir hfile hmade => exact .made hnone hdir (hsub hfile) hmade
  | written hold hfile hreach => exact .written hold (hsub hfile) hreach

/-- Files written after others. -/
theorem trans (h : Fate d files d' loc) (h' : Fate d' more d'' loc) (hbefore : Retains d d')
    (hretains : Retains d' d'') :
    Fate d (files ++ more) d'' loc := by
  cases h' with
  | kept hkept =>
    cases h with
    | kept hkept' => exact .kept (hkept.trans hkept')
    | made hnone hdir hfile hmade =>
      exact .made hnone (hkept.trans hdir) (List.mem_append_left _ hfile) (hmade.after hretains)
    | written hold hfile hreach =>
      have hstands : d''.entryAt loc = _ := hkept.trans (Disk.entryAt_of_reach hreach)
      exact .written hold (List.mem_append_left _ hfile) (hretains.reach hreach hstands nofun)
  | made hnone hdir hfile hmade =>
    have hnone' : d.entryAt loc = none := by
      cases h with
      | kept hkept => exact hkept ▸ hnone
      | made _ hdir' => simp [hdir'] at hnone
      | written _ _ hreach =>
        have hstands : d'.entryAt loc = _ := Disk.entryAt_of_reach hreach
        simp [hstands, Place.entry?] at hnone
    exact .made hnone' hdir (List.mem_append_right _ hfile) (hmade.before hbefore)
  | written hold hfile hreach =>
    refine .written ?_ (List.mem_append_right _ hfile) hreach
    cases h with
    | kept hkept => exact hkept ▸ hold
    | made hnone => simp [hnone]
    | written hold' => exact hold'

end Fate

theorem Wrote.fate (h : Wrote d file d') (loc : Location) : Fate d [file] d' loc := by
  obtain ⟨d₁, loc', hmade, -, hset⟩ := h
  have hdirs : Fate d [file] d₁ loc := by
    rcases hmade.entryAt loc with hkept | ⟨hnone, hdir, hnew⟩
    · exact .kept hkept
    · exact .made hnone hdir (List.mem_singleton.2 rfl) hnew
  have hfile : Fate d₁ [file] d' loc := by
    by_cases hloc : loc = loc'
    · subst hloc
      exact .written hset.old (List.mem_singleton.2 rfl) hset.reach
    · exact .kept (hset.other loc hloc)
  exact (hdirs.trans hfile hmade.retains hset.retains).mono (by simp)

/-! ### A row of files -/

/-- Whether files have been written one after the other. -/
inductive WroteAll : Disk → List OutputFile → Disk → Prop
  | nil {d : Disk} : WroteAll d [] d
  | cons {d d₁ d' : Disk} {file : OutputFile} {files : List OutputFile} :
      Wrote d file d₁ → WroteAll d₁ files d' → WroteAll d (file :: files) d'

namespace WroteAll

theorem retains (h : WroteAll d files d') : Retains d d' := by
  induction h with
  | nil => exact .refl _
  | cons hfile _ ih => exact hfile.retains.trans ih

/-- What a row of files leaves, place by place. -/
theorem fate (h : WroteAll d files d') (loc : Location) : Fate d files d' loc := by
  induction h with
  | nil => exact .kept rfl
  | cons hfile hrest ih => exact (hfile.fate loc).trans ih hfile.retains hrest.retains

/-- No link is made where files are written. -/
theorem noLinks (h : WroteAll d files d') (hlinks : d.NoLinks) : d'.NoLinks := by
  intro loc target hloc
  cases h.fate loc with
  | kept hkept => exact hlinks loc target (hkept ▸ hloc)
  | made _ hdir => simp [hdir] at hloc
  | written _ _ hreach =>
    have hstands : d'.entryAt loc = _ := Disk.entryAt_of_reach hreach
    simp [hstands, Place.entry?] at hloc

theorem append_iff :
    WroteAll d (files ++ more) d'' ↔ ∃ d', WroteAll d files d' ∧ WroteAll d' more d'' := by
  induction files generalizing d with
  | nil =>
    refine ⟨fun h => ⟨d, .nil, h⟩, ?_⟩
    rintro ⟨d', hnil, h⟩
    cases hnil
    exact h
  | cons file files ih =>
    constructor
    · intro h
      cases h with
      | cons hfile hrest =>
        obtain ⟨d', hfiles, hmore⟩ := ih.1 hrest
        exact ⟨d', .cons hfile hfiles, hmore⟩
    · rintro ⟨d', h, hmore⟩
      cases h with
      | cons hfile hfiles => exact .cons hfile (ih.2 ⟨d', hfiles, hmore⟩)

/-- A file that has been written has room, and its path leads to a file. -/
theorem reach_of_mem (h : WroteAll d files d') (hfile : file ∈ files) :
    HasRoom d' file ∧ ∃ loc bytes, d'.reach .write file.path = .ok (.taken loc (.file bytes)) := by
  obtain ⟨before, after, rfl⟩ := List.append_of_mem hfile
  obtain ⟨d₁, -, h⟩ := append_iff.1 h
  cases h with
  | cons hfile hafter =>
    refine ⟨hfile.hasRoom.mono hafter.retains, ?_⟩
    obtain ⟨_, loc, -, -, hset⟩ := hfile
    exact ⟨loc, hafter.retains.reach_file hset.reach⟩

/-- A file that no later one is written over has its whole content. -/
theorem reach_last (h : WroteAll d (before ++ file :: after) d')
    (hfile : d'.reach .write file.path = .ok (.taken loc e))
    (hafter : ∀ later ∈ after, ¬ ∃ bytes, d'.reach .write later.path = .ok (.taken loc (.file bytes))) :
    e = .file file.content.toUTF8 := by
  obtain ⟨d₁, -, h⟩ := append_iff.1 h
  cases h with
  | @cons _ d₂ _ _ _ hwrote hrest =>
    obtain ⟨_, loc', -, -, hset⟩ := hwrote
    -- the path still leads to where the file was set
    obtain ⟨bytes, hreach⟩ := hrest.retains.reach_file hset.reach
    obtain ⟨rfl, rfl⟩ : loc = loc' ∧ e = .file bytes := by simpa [hfile] using hreach
    have hthen : d₂.entryAt loc = _ := Disk.entryAt_of_reach hset.reach
    have hnow : d'.entryAt loc = _ := Disk.entryAt_of_reach hreach
    cases hrest.fate loc with
    | kept hkept => simpa [hthen, hnow, Place.entry?] using hkept
    | made hnone => simp [hthen, Place.entry?] at hnone
    | written _ hlater hreach' => exact absurd ⟨_, hreach'⟩ (hafter _ hlater)

end WroteAll

/-! ### A run -/

/-- How a run ends that has written all files. -/
def complete (files : List OutputFile) (d : Disk) : Outcome (List Path) where
  log := List.replicate files.length .generated
  result := .ok (files.map (·.path))
  disk := d

/-- A run writes the files up to the first that fails, as it would if there were no more of
them, and tells of each. -/
theorem writeAll_cases (d : Disk) (files : List OutputFile) :
    ∃ k d', WroteAll d (files.take k) d' ∧
      writeAll d (files.take k) = complete (files.take k) d' ∧
      (writeAll d files).log = List.replicate k .generated ∧
      (k = files.length ∨
        ∃ file f, files[k]? = some file ∧ (writeAll d files).result = .error f ∧
          DirsMade d' file.parents (writeAll d files).disk) := by
  induction files generalizing d with
  | nil => exact ⟨0, d, .nil, rfl, rfl, .inl rfl⟩
  | cons file files ih =>
    rw [writeAll]
    rcases hwrite : writeGenerated d file with ⟨d₁, f | ⟨⟩⟩
    · exact ⟨0, d, .nil, rfl, rfl, .inr ⟨file, f, rfl, rfl, dirsMade_of_writeGenerated hwrite⟩⟩
    · obtain ⟨k, d', hrest, hrun, hlog, hend⟩ := ih d₁
      refine ⟨k + 1, d', .cons (wrote_of_writeGenerated hwrite) hrest, ?_, ?_, ?_⟩
      · rw [List.take_succ_cons, writeAll, hwrite]
        dsimp only
        rw [hrun]
        rfl
      · exact congrArg (Event.generated :: ·) hlog
      · rcases hend with hk | ⟨failed, f, hfailed, herr, hmade⟩
        · exact .inl (congrArg Nat.succ hk)
        · exact .inr ⟨failed, f, hfailed, congrArg (Except.map (file.path :: ·)) herr, hmade⟩

/-- A run that ends well has written all its files. -/
theorem exists_writeAll_eq_complete {paths : List Path}
    (h : (writeAll d files).result = .ok paths) :
    ∃ d', WroteAll d files d' ∧ writeAll d files = complete files d' := by
  obtain ⟨k, d', hwrote, hrun, -, rfl | ⟨file, f, -, herr, -⟩⟩ := writeAll_cases d files
  · rw [List.take_length] at hwrote hrun
    exact ⟨d', hwrote, hrun⟩
  · exact absurd (herr.symm.trans h) nofun

/-- However a run ends, it has written files of its row, and made directories at most after
that. -/
theorem writeAll_disk (d : Disk) (files : List OutputFile) :
    ∃ wrote d' ps, wrote ⊆ files ∧ WroteAll d wrote d' ∧ DirsMade d' ps (writeAll d files).disk := by
  obtain ⟨k, d', hwrote, hrun, -, rfl | ⟨file, -, -, -, hmade⟩⟩ := writeAll_cases d files
  · rw [List.take_length] at hwrote hrun
    exact ⟨files, d', [], List.Subset.refl _, hwrote, hrun ▸ .refl d' _⟩
  · exact ⟨_, d', _, List.take_subset _ _, hwrote, hmade⟩

theorem noLinks_writeAll (hlinks : d.NoLinks) (files : List OutputFile) :
    (writeAll d files).disk.NoLinks := by
  obtain ⟨wrote, d', ps, -, hwrote, hmade⟩ := writeAll_disk d files
  exact hmade.noLinks (hwrote.noLinks hlinks)

/-! ### Writing again -/

/-- A file that has room and is there can be written over, and that is all that happens. -/
theorem exists_writeGenerated_of_reach {old : ByteArray} (hroom : HasRoom d file)
    (hreach : d.reach .write file.path = .ok (.taken loc (.file old))) :
    ∃ d', writeGenerated d file = (d', .ok ()) ∧ Wrote d file d' ∧ Retains d' d := by
  obtain ⟨d', hwrite⟩ := Disk.exists_writeFile_of_reach hreach file.content.toUTF8
  have hgenerated : writeGenerated d file = (d', .ok ()) := by
    rw [writeGenerated, makeRoom_of_hasRoom hroom]
    dsimp only
    rw [Disk.writeText, hwrite]
  obtain ⟨loc', hset⟩ := fileSet_of_writeText hwrite
  -- the file is set where there was one
  obtain ⟨bytes, hreach'⟩ := hset.retains.reach_file hreach
  obtain ⟨rfl, -⟩ : loc = loc' ∧ _ := by simpa [hset.reach] using hreach'.symm
  have hold : d.entryAt loc = some (.file old) := Disk.entryAt_of_reach hreach
  exact ⟨d', hgenerated, ⟨d, loc, .refl d _, hroom, hset⟩, hset.retains_back hold⟩

/-- Files that are all there can be written over. -/
theorem exists_writeAll_of_reach (hfiles : ∀ file ∈ files, HasRoom d file ∧
      ∃ loc bytes, d.reach .write file.path = .ok (.taken loc (.file bytes))) :
    ∃ d', writeAll d files = complete files d' ∧ WroteAll d files d' ∧ Retains d' d := by
  induction files generalizing d with
  | nil => exact ⟨d, rfl, .nil, .refl d⟩
  | cons file files ih =>
    obtain ⟨⟨hroom, loc, bytes, hreach⟩, hrest⟩ := List.forall_mem_cons.1 hfiles
    obtain ⟨d₁, hwrite, hwrote, hback⟩ := exists_writeGenerated_of_reach hroom hreach
    have hrest' : ∀ file ∈ files, HasRoom d₁ file ∧
        ∃ loc bytes, d₁.reach .write file.path = .ok (.taken loc (.file bytes)) := by
      intro file hfile
      obtain ⟨hroom, loc, bytes, hreach⟩ := hrest file hfile
      exact ⟨hroom.mono hwrote.retains, loc, hwrote.retains.reach_file hreach⟩
    obtain ⟨d', hall, hwroteAll, hback'⟩ := ih hrest'
    refine ⟨d', ?_, .cons hwrote hwroteAll, hback'.trans hback⟩
    rw [writeAll, hwrite]
    dsimp only
    rw [hall]
    rfl

/-- Of the members of a list with a property, one is the last. -/
theorem exists_last {α : Type} {P : α → Prop} {xs : List α} {x : α} (hx : x ∈ xs) (hP : P x) :
    ∃ before y after, xs = before ++ y :: after ∧ P y ∧ ∀ z ∈ after, ¬ P z := by
  induction xs generalizing x with
  | nil => simp at hx
  | cons a xs ih =>
    by_cases hlater : ∃ z ∈ xs, P z
    · obtain ⟨z, hz, hPz⟩ := hlater
      obtain ⟨before, y, after, rfl, hy, hafter⟩ := ih hz hPz
      exact ⟨a :: before, y, after, rfl, hy, hafter⟩
    · have hno : ∀ z ∈ xs, ¬ P z := fun z hz hPz => hlater ⟨z, hz, hPz⟩
      rcases List.mem_cons.1 hx with rfl | hx
      · exact ⟨[], x, xs, rfl, hP, hno⟩
      · exact absurd hP (hno x hx)

/-- Files that have been written can be written again, and leave the disk as it is. -/
theorem WroteAll.writeAll_again (h : WroteAll d files d') :
    writeAll d' files = complete files d' := by
  obtain ⟨d'', hall, hagain, hback⟩ := exists_writeAll_of_reach fun file hfile =>
    h.reach_of_mem hfile
  suffices hsame : d'' = d' by rw [hall, hsame]
  refine Disk.ext_entryAt (fun loc => ?_) hagain.retains.here
  cases hagain.fate loc with
  | kept hkept => exact hkept
  | made hnone hdir => exact absurd hnone (hback.ne_none (by simp [hdir]))
  | written _ hfile hreach =>
    -- the last of the files that go to this place is what stands there, both times
    have hsame : ∀ g : OutputFile,
        (∃ bytes, d''.reach .write g.path = .ok (.taken loc (.file bytes))) ↔
          ∃ bytes, d'.reach .write g.path = .ok (.taken loc (.file bytes)) := fun g =>
      ⟨fun ⟨_, hg⟩ => hback.reach_file hg, fun ⟨_, hg⟩ => hagain.retains.reach_file hg⟩
    obtain ⟨before, last, after, rfl, ⟨bytes, hlast⟩, hafter⟩ := exists_last
      (P := fun g : OutputFile => ∃ bytes, d'.reach .write g.path = .ok (.taken loc (.file bytes)))
      hfile ((hsame _).1 ⟨_, hreach⟩)
    obtain ⟨bytes', hlast'⟩ := (hsame last).2 ⟨bytes, hlast⟩
    have hthen : d'.entryAt loc = some (.file bytes) := Disk.entryAt_of_reach hlast
    have hnow : d''.entryAt loc = some (.file bytes') := Disk.entryAt_of_reach hlast'
    rw [hthen, hnow, h.reach_last hlast hafter,
      hagain.reach_last hlast' fun later hlater hl => hafter later hlater ((hsame later).1 hl)]

end Rulebook
