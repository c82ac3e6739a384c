/-
Rulebook/Proofs/PreviewAgreement.lean

What is previewed is what is compiled.  Both start from one plan, which has an output for each
assistant with the files that its generator makes, in the order of the documents
(`plan_eq_ok_iff`, `inOrder`).  What a text shows is said apart from the code that makes it, line
by line (`ShowsFiles`, `Shows`).  The text of a plan shows its files in the order in which
they are written (`shows_previewText`, `files_titledBlocks`), and an output that takes
everything has the whole text (`preview_eq`).

Main result `preview_agrees`: where compiling succeeds, previewing does as well, and shows the
files under the paths that compiling returns, telling of as many.  With the assistants' own
generators and without links, each of the paths then leads to the content that the preview
shows last under it.
-/
import Rulebook.Preview
import Rulebook.Proofs.FailedWrite
import Rulebook.Proofs.Planning
import Rulebook.Proofs.Sources

namespace Rulebook

open Text

variable {d d' : Disk} {r : Registry} {input root : Path} {ds : List Document}
variable {patterns : Option String} {outputs : List Output} {file : OutputFile}

/-! ### Files in order -/

/-- Whether a generator makes the files of some documents in their order: one file for all, or
the files of one document after those of the other. -/
def InOrder (g : Generator) (ds : List Document) (root : Path) : Prop :=
  (g.files ds root).length ≤ 1 ∨ g.files ds root = ds.flatMap fun doc => g.files [doc] root

theorem inOrder (g : Generator) (ds : List Document) (root : Path) : InOrder g ds root := by
  rw [InOrder]
  cases hg : g.layout with
  | merged file =>
    left
    simp only [Generator.files, hg]
    split <;> simp
  | perDocument dir | frontMatter dir legacy => exact .inr (files_eq_flatMap (by simp [hg]) ds root)

/-! ### What a preview shows -/

/-- Whether a text is that of some files one after the other: each under a line with its path
between dashes, and with a newline after its content. -/
inductive ShowsFiles : List OutputFile → String → Prop
  | nil : ShowsFiles [] ""
  | cons {file : OutputFile} {files : List OutputFile} {text : String} :
      ShowsFiles files text →
      ShowsFiles (file :: files)
        ("\n--- " ++ file.path.toString ++ " ---\n" ++ file.content ++ "\n" ++ text)

/-- Whether a text is that of some blocks one after the other: each has a line with its title, the
files in it, and a line that closes it. -/
inductive Shows : List (String × List OutputFile) → String → Prop
  | nil : Shows [] ""
  | cons {title : String} {files : List OutputFile} {shown : String}
      {blocks : List (String × List OutputFile)} {text : String} :
      ShowsFiles files shown → Shows blocks text →
      Shows ((title, files) :: blocks)
        ("\n=== " ++ title ++ " ===\n" ++ shown ++ "\n=== END PREVIEW ===\n\n" ++ text)

/-- The blocks of a preview: the rule files of each assistant, and then the ignore file of each
that has one. -/
def titledBlocks (outputs : List Output) : List (String × List OutputFile) :=
  outputs.map (fun o => (o.assistant.name.toUpper ++ " PREVIEW", o.files)) ++
    outputs.filterMap fun o =>
      o.ignore.map fun file => (o.assistant.name.toUpper ++ " IGNORE PREVIEW", [file])

/-- Titles are names in capitals. -/
theorem Assistant.title_eq (a : Assistant) : a.title = a.name.toUpper := by
  cases a <;> decide +kernel

/-- The files of the blocks are those of the plan, in the order in which they are written. -/
theorem files_titledBlocks (outputs : List Output) :
    (titledBlocks outputs).flatMap (·.2) = plannedFiles outputs := by
  rw [titledBlocks, List.flatMap_append, List.flatMap_map, plannedFiles]
  refine congrArg (outputs.flatMap (·.files) ++ ·) ?_
  induction outputs with
  | nil => rfl
  | cons output outputs ih =>
    rw [List.filterMap_cons, List.filterMap_cons]
    rcases output.ignore with - | file
    · exact ih
    · exact congrArg (file :: ·) ih

theorem previewPieces_eq (outputs : List Output) :
    previewPieces outputs = (titledBlocks outputs).flatMap fun b => blockText b.1 b.2 := by
  rw [titledBlocks, List.flatMap_append, List.flatMap_map, previewPieces]
  simp only [Assistant.title_eq]
  refine congrArg (outputs.flatMap _ ++ ·) ?_
  induction outputs with
  | nil => rfl
  | cons output outputs ih =>
    rw [List.flatMap_cons, List.filterMap_cons, ih]
    rcases output.ignore with - | file <;> rfl

theorem showsFiles_join (files : List OutputFile) :
    ShowsFiles files (String.join (files.flatMap fileText)) := by
  induction files with
  | nil => exact .nil
  | cons file files ih =>
    have htext : String.join ((file :: files).flatMap fileText) = "\n--- " ++ file.path.toString ++
        " ---\n" ++ file.content ++ "\n" ++ String.join (files.flatMap fileText) := by
      simp only [List.flatMap_cons, fileText, List.cons_append, List.nil_append, String.join_cons,
        String.append_assoc]
    exact htext ▸ ih.cons

theorem shows_join (blocks : List (String × List OutputFile)) :
    Shows blocks (String.join (blocks.flatMap fun b => blockText b.1 b.2)) := by
  induction blocks with
  | nil => exact .nil
  | cons block blocks ih =>
    obtain ⟨title, files⟩ := block
    have htext : String.join (((title, files) :: blocks).flatMap fun b => blockText b.1 b.2) =
        "\n=== " ++ title ++ " ===\n" ++ String.join (files.flatMap fileText) ++
          "\n=== END PREVIEW ===\n\n" ++
            String.join (blocks.flatMap fun b => blockText b.1 b.2) := by
      simp only [List.flatMap_cons, blockText, List.cons_append, String.join_cons,
        String.join_append, String.join_nil, String.append_empty, String.append_assoc]
    exact htext ▸ .cons (showsFiles_join files) ih

/-- The text of a plan shows its blocks. -/
theorem shows_previewText (outputs : List Output) :
    Shows (titledBlocks outputs) (previewText outputs) := by
  rw [previewText, previewPieces_eq]
  exact shows_join _

/-! ### How a preview is sent -/

/-- An output without a limit takes all pieces. -/
theorem send_unlimited (taken : List UInt8) (pieces : List String) :
    Sink.send ⟨taken, none⟩ pieces =
      (⟨taken ++ (String.join pieces).toUTF8.data.toList, none⟩, .ok ()) := by
  induction pieces generalizing taken with
  | nil => simp [Sink.send]
  | cons piece pieces ih =>
    simp only [Sink.send, Sink.fits, Sink.accept, if_true, ih, String.join_cons,
      String.toUTF8_eq_toByteArray, String.toByteArray_append, ByteArray.data_append,
      Array.toList_append, List.append_assoc]

theorem text_toUTF8 (text : String) : Sink.text ⟨text.toUTF8.data.toList, none⟩ = text := by
  rw [Sink.text, Array.toArray_toList, fromUTF8?_eq_some_iff.2 rfl, Option.getD_some]

/-- A preview tells of every file of its plan. -/
theorem length_shown (outputs : List Output) :
    (outputs.flatMap fun o => o.files ++ o.ignore.toList).length = (plannedFiles outputs).length := by
  induction outputs with
  | nil => rfl
  | cons output outputs ih =>
    rw [plannedFiles, List.length_append] at ih ⊢
    rcases hignore : output.ignore with - | file <;> simp [hignore, ih] <;> omega

/-- On an output without a limit a preview comes to the text of the plan. -/
theorem preview_eq (hplan : (plan d r input root).result = .ok outputs) :
    (preview d r input root {}).1.text = previewText outputs ∧
      (preview d r input root {}).2.result = .ok () ∧
      (preview d r input root {}).2.log.count .previewed = (plannedFiles outputs).length := by
  have hsent : Sink.send {} (previewPieces outputs) =
      (⟨(previewText outputs).toUTF8.data.toList, none⟩, .ok ()) := send_unlimited [] _
  rw [preview, hplan]
  dsimp only
  rw [hsent]
  refine ⟨text_toUTF8 _, rfl, ?_⟩
  rw [List.count_append, count_log_plan (.inr rfl), ← length_shown, List.map_const',
    List.count_replicate_self, Nat.zero_add]

/-! ### What is read back -/

/-- A planned file that no later one has the path of is read back whole. -/
theorem find_of_last {before after : List OutputFile} (hlinks : d'.NoLinks) (hds : AreNamed ds)
    (hwrote : WroteAll d (ownFiles ds patterns root) d')
    (hfiles : ownFiles ds patterns root = before ++ file :: after)
    (hafter : ∀ later ∈ after, later.path ≠ file.path) :
    ∃ loc, d'.find file.path = .ok (loc, .file file.content.toUTF8) := by
  have hplanned : ∀ g ∈ before ++ file :: after,
      g ∈ ownFiles ds patterns root := by
    rw [hfiles]
    exact fun _ hg => hg
  rw [hfiles] at hwrote
  have hmem : file ∈ before ++ file :: after := by simp
  obtain ⟨-, loc, bytes, hreach⟩ := hwrote.reach_of_mem hmem
  have hlast : Entry.file bytes = .file file.content.toUTF8 := by
    refine hwrote.reach_last hreach ?_
    rintro later hlater ⟨bytes', hreach'⟩
    exact hafter later hlater (path_eq_of_place_eq hlinks hds (hplanned later (by simp [hlater]))
      (hplanned file hmem) hreach' hreach)
  exact ⟨loc, Disk.find_of_reach (hlast ▸ hreach)⟩

/-- Planned files whose paths say the same have one path. -/
theorem path_eq_of_agrees {later : OutputFile} (hds : AreNamed ds)
    (hfile : file ∈ ownFiles ds patterns root)
    (hlater : later ∈ ownFiles ds patterns root)
    (h : file.path.agrees later.path = true) : file.path = later.path := by
  obtain ⟨trail, htrail⟩ := exists_onTrail hds hfile
  obtain ⟨other, hother⟩ := exists_onTrail hds hlater
  obtain ⟨hne, hplain⟩ := isPlain_plannedTrails hds htrail.mem
  obtain ⟨hne', hplain'⟩ := isPlain_plannedTrails hds hother.mem
  rw [htrail.path, hother.path] at h ⊢
  rw [(Path.agrees_below_iff hne hne' hplain hplain').1 h]

/-- Whether a path leads to the content of the last of some files that have this path. -/
def ReadsLast (d : Disk) (files : List OutputFile) (p : Path) : Prop :=
  ∃ before file after, files = before ++ file :: after ∧ file.path = p ∧
    (∀ later ∈ after, later.path.agrees p = false) ∧
    ∃ loc, d.find p = .ok (loc, .file file.content.toUTF8)

theorem readsLast_of_mem (hlinks : d'.NoLinks) (hds : AreNamed ds)
    (hwrote : WroteAll d (ownFiles ds patterns root) d')
    (hfile : file ∈ ownFiles ds patterns root) :
    ReadsLast d' (ownFiles ds patterns root) file.path := by
  obtain ⟨before, last, after, hfiles, hpath, hafter⟩ :=
    exists_last (P := fun g : OutputFile => g.path = file.path) hfile rfl
  have hsame : ∀ later ∈ after, later.path.agrees file.path = false := by
    intro later hlater
    rw [← Bool.not_eq_true]
    exact fun hagrees => hafter later hlater
      (path_eq_of_agrees hds (hfiles ▸ by simp [hlater]) hfile hagrees)
  rw [← hpath]
  refine ⟨before, last, after, hfiles, rfl, hpath ▸ hsame, ?_⟩
  exact find_of_last hlinks hds hwrote hfiles fun later hlater => hpath ▸ hafter later hlater

/-- Where ignore files have been written, the patterns are read back. -/
theorem find_of_ignore {output : Output} (hlinks : d'.NoLinks) (hds : AreNamed ds)
    (hwrote : WroteAll d (ownFiles ds patterns root) d')
    (houtput : output ∈ ownGenerators.map (·.output ds patterns root))
    (hfile : output.ignore = some file) :
    ∃ loc, d'.find file.path = .ok (loc, .file file.content.toUTF8) := by
  have hcontent : ∀ g ∈ (ownGenerators.map (·.output ds patterns root)).filterMap (·.ignore),
      patterns = some g.content := by
    intro g hg
    obtain ⟨output, houtput, hignore⟩ := List.mem_filterMap.1 hg
    obtain ⟨generator, -, rfl⟩ := List.mem_map.1 houtput
    exact patterns_of_ignore hignore
  have hmem := List.mem_filterMap.2 ⟨output, houtput, hfile⟩
  -- the last file of this path is an ignore file, since these come after all rule files
  obtain ⟨before, last, after, hfiles, hpath, hafter⟩ :=
    exists_last (P := fun g : OutputFile => g.path = file.path) hmem rfl
  have hfiles' : ownFiles ds patterns root =
      ((ownGenerators.map (·.output ds patterns root)).flatMap (·.files) ++ before) ++
        last :: after := by
    rw [ownFiles, plannedFiles, hfiles, List.append_assoc]
  obtain ⟨loc, hfind⟩ := find_of_last hlinks hds hwrote hfiles' fun later hlater =>
    hpath ▸ hafter later hlater
  have hsame : some last.content = some file.content :=
    (hcontent last (hfiles ▸ by simp)).symm.trans (hcontent file hmem)
  rw [hpath, Option.some.inj hsame] at hfind
  exact ⟨loc, hfind⟩

/-! ### Agreement -/

/-- How a preview of a plan agrees with compiling it, which returned `paths`. -/
structure Agrees (d : Disk) (r : Registry) (input root : Path) (paths : List Path)
    (outputs : List Output) : Prop where
  planned : (plan d r input root).result = .ok outputs
  /-- There is an output for each assistant in turn, with its files in the order of the
  documents. -/
  assistants : outputs.map (·.assistant) = [.copilot, .cline, .cursor]
  made : ∃ ds patterns, (loadRules d (input / rulesDir)).result = .ok ds ∧
    readIgnore d (input / ignoreFile) = .ok patterns ∧ ∀ output ∈ outputs, ∃ g,
      r.get? output.assistant = some g ∧ output = g.output ds patterns root ∧ InOrder g ds root
  /-- The paths are those of all rule files and then of all ignore files. -/
  paths_eq : paths = (outputs.flatMap (·.files) ++ outputs.filterMap (·.ignore)).map (·.path)
  /-- The preview goes well, and its text is that of the plan. -/
  result : (preview d r input root {}).2.result = .ok ()
  text : (preview d r input root {}).1.text = previewText outputs
  /-- The text shows the files of each assistant, under the paths in the same order. -/
  shows : Shows (titledBlocks outputs) (preview d r input root {}).1.text
  order : ((titledBlocks outputs).flatMap (·.2)).map (·.path) = paths
  /-- Both tell of each file. -/
  previewed : (preview d r input root {}).2.log.count .previewed = paths.length
  generated : (compile d r input root).log.count .generated = paths.length
  /-- Ignore files hold what was read. -/
  ignore : ∀ output ∈ outputs, ∀ file, output.ignore = some file →
    ∃ loc, d.find (input / ignoreFile) = .ok (loc, .file file.content.toUTF8)

/-- Where compiling succeeds, the preview shows what it writes.  With the assistants' own
generators and without links, each path leads to the last planned file that has it, and the
paths of ignore files lead to what the ignore patterns were read from. -/
theorem preview_agrees {paths : List Path} (hok : (compile d r input root).result = .ok paths) :
    ∃ outputs, Agrees d r input root paths outputs ∧
      (r = .standard → d.NoLinks →
        (∀ p ∈ paths, ReadsLast (compile d r input root).disk (plannedFiles outputs) p) ∧
        ∀ output ∈ outputs, ∀ file, output.ignore = some file →
          ∃ loc, (compile d r input root).disk.find file.path =
            .ok (loc, .file file.content.toUTF8)) := by
  obtain ⟨outputs, d', hplan, -, hwrote, hrun⟩ := compile_eq_complete hok
  obtain rfl : (plannedFiles outputs).map (·.path) = paths := by
    rw [hrun] at hok
    exact Except.ok.inj hok
  obtain ⟨ds, patterns, hds, hpatterns, gs, hgs, hget, houtputs⟩ := plan_eq_ok_iff.1 hplan
  have hmade : ∀ output ∈ outputs, ∃ g,
      r.get? output.assistant = some g ∧ output = g.output ds patterns root ∧ InOrder g ds root := by
    intro output houtput
    rw [houtputs] at houtput
    obtain ⟨g, hg, rfl⟩ := List.mem_map.1 houtput
    exact ⟨g, hget g hg, rfl, inOrder g ds root⟩
  obtain ⟨htext, hresult, hpreviewed⟩ := preview_eq hplan
  refine ⟨outputs, ?_, ?_⟩
  · refine ⟨hplan, ?_, ⟨ds, patterns, hds, hpatterns, hmade⟩, rfl, hresult, htext,
      htext ▸ shows_previewText outputs, by rw [files_titledBlocks], ?_, ?_, ?_⟩
    · rw [houtputs, List.map_map]
      exact hgs
    · rw [hpreviewed, List.length_map]
    · rw [hrun]
      simp [complete, count_log_plan]
    · intro output houtput file hfile
      obtain ⟨g, -, rfl, -⟩ := hmade output houtput
      exact readIgnore_eq_some_iff.1 (patterns_of_ignore hfile ▸ hpatterns)
  · rintro rfl hlinks
    obtain ⟨ds, patterns, hload, -, rfl⟩ := plan_standard_eq_ok_iff.1 hplan
    have hds := areNamed_of_loadRules hload
    have hlinks' := hwrote.noLinks hlinks
    rw [hrun]
    refine ⟨fun p hp => ?_, fun output houtput file hfile => ?_⟩
    · obtain ⟨file, hfile, rfl⟩ := List.mem_map.1 hp
      exact readsLast_of_mem hlinks' hds hwrote hfile
    · exact find_of_ignore hlinks' hds hwrote houtput hfile

/-- The paths of the files that `sharedRoot` is compiled into. -/
def sharedRootPaths : List Path :=
  ["./.github/copilot-instructions.md", "./.clinerules/a.md", "./.cursor/rules/a.mdc",
    "./.copilotignore", "./.clineignore", "./.cursor/ignore"]

/-- What a preview of `sharedRoot` shows. -/
def sharedRootText : String :=
  "\n=== COPILOT PREVIEW ===\n" ++
    "\n--- ./.github/copilot-instructions.md ---\ntext\n\n" ++
  "\n=== END PREVIEW ===\n\n" ++
  "\n=== CLINE PREVIEW ===\n" ++
    "\n--- ./.clinerules/a.md ---\ntext\n\n" ++
  "\n=== END PREVIEW ===\n\n" ++
  "\n=== CURSOR PREVIEW ===\n" ++
    "\n--- ./.cursor/rules/a.mdc ---\n" ++
      "---\ndescription: a\nglobs:\nalwaysApply: false\n---\n\ntext\n" ++
  "\n=== END PREVIEW ===\n\n" ++
  "\n=== COPILOT IGNORE PREVIEW ===\n" ++
    "\n--- ./.copilotignore ---\ntarget\n" ++
  "\n=== END PREVIEW ===\n\n" ++
  "\n=== CLINE IGNORE PREVIEW ===\n" ++
    "\n--- ./.clineignore ---\ntarget\n" ++
  "\n=== END PREVIEW ===\n\n" ++
  "\n=== CURSOR IGNORE PREVIEW ===\n" ++
    "\n--- ./.cursor/ignore ---\ntarget\n" ++
  "\n=== END PREVIEW ===\n\n"

theorem preview_agrees_sharedRoot : sharedRoot.NoLinks ∧
    (compile sharedRoot .standard ".cursor" ".").result = .ok sharedRootPaths ∧
      (preview sharedRoot .standard ".cursor" "." {}).1.text = sharedRootText ∧
      ∃ outputs, Agrees sharedRoot .standard ".cursor" "." sharedRootPaths outputs ∧
        (∀ p ∈ sharedRootPaths, ReadsLast (compile sharedRoot .standard ".cursor" ".").disk
          (plannedFiles outputs) p) ∧
        ∀ output ∈ outputs, ∀ file, output.ignore = some file →
          ∃ loc, (compile sharedRoot .standard ".cursor" ".").disk.find file.path =
            .ok (loc, .file file.content.toUTF8) := by
  have hlinks : sharedRoot.NoLinks := noLinks_writeAll Disk.noLinks_empty _
  have hpaths : (compile sharedRoot .standard ".cursor" ".").result = .ok sharedRootPaths := by
    decide +kernel
  have hrendered : (plan sharedRoot .standard ".cursor" ".").result.map previewText =
      .ok sharedRootText := by decide +kernel
  obtain ⟨outputs, hagrees, hreads⟩ := preview_agrees hpaths
  have htext : previewText outputs = sharedRootText := by
    rw [hagrees.planned] at hrendered
    exact Except.ok.inj hrendered
  exact ⟨hlinks, hpaths, hagrees.text.trans htext, outputs, hagrees, hreads rfl hlinks⟩

end Rulebook
