/-
Rulebook/Proofs/SettingUp.lean

Setting up a project, and setting it up again.  A task is done or fails (`Task.Does`,
`Task.Fails`), and a run is one task after the other up to the first that fails
(`runTasks_cons`).  Nothing that is there is changed on the way: a directory is made where there
was nothing, and a file is written only if nothing was found at its path, so that it is a new
one wherever links may lead (`Task.Does.toExtends`, `Task.Fails.toExtends`).

What a task is to bring about is there after it (`Task.Does.isDone`), and stays there, since
later tasks change nothing.  With everything there, a run does nothing but report the files
(`runTasks_of_isDone`).

Main result `setUp_again`: setting up keeps whatever there is, whether it succeeds or not, and
after it has succeeded, setting up again changes nothing and skips every file.
-/
import Rulebook.Proofs.CleanOutput
import Rulebook.Proofs.Disk.Retains
import Rulebook.Proofs.Path
import Rulebook.Proofs.Placement
import Rulebook.Starter

namespace Rulebook

open Disk (Extends)

variable {d d' : Disk} {t : Task} {ts rest : List Task} {report : Report} {f : Failure}
variable {root : Path}

/-! ### One task -/

namespace Task

/-- What a task that succeeds comes to: what it reports, and the disk it leaves. -/
inductive Does (d : Disk) : Task → Report → Disk → Prop
  | directoryThere {p : Path} : d.hasDir p = true → Does d (.directory p) {} d
  | directoryMade {p : Path} {d' : Disk} : d.hasDir p = false → d.makeDirs p = (d', .ok ()) →
      Does d (.directory p) { createdDirs := [p] } d'
  | fileThere {p : Path} {content : String} : d.has p = true →
      Does d (.file p content) { skippedFiles := [p] } d
  | fileMade {p : Path} {content : String} {d' : Disk} : d.has p = false →
      d.writeText p content = .ok d' → Does d (.file p content) { createdFiles := [p] } d'

/-- What a task that fails comes to.  Directories above the one that cannot be made may have
been made already. -/
inductive Fails (d : Disk) : Task → Failure → Disk → Prop
  | directory {p : Path} {fault : Disk.Fault} {d' : Disk} : d.hasDir p = false →
      d.makeDirs p = (d', .error fault) →
        Fails d (.directory p) (.ofFault (.createDirectory p) fault) d'
  | file {p : Path} {content : String} {fault : Disk.Fault} : d.has p = false →
      d.writeText p content = .error fault →
        Fails d (.file p content) (.ofFault (.writeFile p) fault) d

/-- The path of what is to be there. -/
def path : Task → Path
  | .directory p => p
  | .file p _ => p

/-- The path of a file that is to be there. -/
def file? : Task → Option Path
  | .directory _ => none
  | .file p _ => some p

/-- Whether what is to be there is there. -/
def IsDone (d : Disk) : Task → Prop
  | .directory p => d.hasDir p = true
  | .file p _ => d.has p = true

theorem IsDone.mono (h : t.IsDone d) (hextends : Extends d d') : t.IsDone d' := by
  cases t with
  | directory p => exact hextends.retains.hasDir h
  | file p content => exact hextends.retains.has h

theorem extends_makeDirs (d : Disk) (p : Path) : Extends d (d.makeDirs p).1 :=
  (Disk.dirsMade_makeDirsUp d p.ancestors).toExtends

theorem Does.toExtends (h : t.Does d report d') : Extends d d' := by
  cases h with
  | directoryThere _ | fileThere _ => exact .refl d
  | @directoryMade p _ _ hmade => simpa [hmade] using extends_makeDirs d p
  | fileMade hno hwrite =>
    obtain ⟨n, dir, hdir, hnone, rfl, -⟩ := Disk.writeFile_of_not_has hno hwrite
    exact .put hdir hnone

theorem Fails.toExtends (h : t.Fails d f d') : Extends d d' := by
  cases h with
  | @directory p _ _ _ hmade => simpa [hmade] using extends_makeDirs d p
  | file _ _ => exact .refl d

/-- What a task is to bring about is there after it. -/
theorem Does.isDone (h : t.Does d report d') (hpath : t.path.chars ≠ []) : t.IsDone d' := by
  cases h with
  | directoryThere hdir => exact hdir
  | @directoryMade p _ _ hmade =>
    obtain ⟨above, habove⟩ := Path.exists_ancestorsUpTo_eq_cons p.chars.length p
    rw [Disk.makeDirs, Path.ancestors, habove] at hmade
    exact (Disk.hasDir_of_makeDirsUp hmade).resolve_left hpath
  | fileThere hhas => exact hhas
  | fileMade hno hwrite =>
    obtain ⟨n, dir, -, -, -, hfind⟩ := Disk.writeFile_of_not_has hno hwrite
    exact Disk.has_iff.2 ⟨_, _, hfind⟩

end Task

/-! ### One task after the other -/

/-- What has been done before and after. -/
def Report.and (before after : Report) : Report where
  createdDirs := before.createdDirs ++ after.createdDirs
  createdFiles := before.createdFiles ++ after.createdFiles
  skippedFiles := before.skippedFiles ++ after.skippedFiles

/-- A run goes on after a task that succeeds, and ends with one that fails. -/
theorem runTasks_cons (d : Disk) (t : Task) (rest : List Task) :
    (∃ report d', t.Does d report d' ∧ (runTasks d (t :: rest)).disk = (runTasks d' rest).disk ∧
      (runTasks d (t :: rest)).result = (runTasks d' rest).result.map report.and) ∨
    ∃ f d', t.Fails d f d' ∧ (runTasks d (t :: rest)).disk = d' ∧
      (runTasks d (t :: rest)).result = .error f := by
  have hnothing : ∀ result : Except Failure Report, result.map (Report.and {}) = result := by
    rintro (f | report) <;> rfl
  cases t with
  | directory p =>
    rw [runTasks]
    by_cases hdir : d.hasDir p = true
    · rw [if_pos hdir]
      exact .inl ⟨{}, d, .directoryThere hdir, rfl, (hnothing _).symm⟩
    · have hno := Bool.not_eq_true _ ▸ hdir
      rw [if_neg hdir]
      rcases hmade : d.makeDirs p with ⟨d', fault | ⟨⟩⟩
      · exact .inr ⟨_, d', .directory hno hmade, rfl, rfl⟩
      · exact .inl ⟨_, d', .directoryMade hno hmade, rfl, rfl⟩
  | file p content =>
    rw [runTasks]
    by_cases hhas : d.has p = true
    · rw [if_pos hhas]
      exact .inl ⟨_, d, .fileThere hhas, rfl, rfl⟩
    · have hno := Bool.not_eq_true _ ▸ hhas
      rw [if_neg hhas]
      rcases hwrite : d.writeText p content with fault | d'
      · exact .inr ⟨_, d, .file hno hwrite, rfl, rfl⟩
      · exact .inl ⟨_, d', .fileMade hno hwrite, rfl, rfl⟩

/-- A run keeps whatever there is, whether it succeeds or not. -/
theorem extends_runTasks (d : Disk) (ts : List Task) : Extends d (runTasks d ts).disk := by
  induction ts generalizing d with
  | nil => exact .refl d
  | cons t rest ih =>
    rcases runTasks_cons d t rest with ⟨report, d', hdoes, hdisk, -⟩ | ⟨f, d', hfails, hdisk, -⟩
    · rw [hdisk]
      exact hdoes.toExtends.trans (ih d')
    · rw [hdisk]
      exact hfails.toExtends

/-- After a run that succeeds, everything is there. -/
theorem isDone_of_runTasks (h : (runTasks d ts).result = .ok report)
    (hpaths : ∀ t ∈ ts, t.path.chars ≠ []) : ∀ t ∈ ts, t.IsDone (runTasks d ts).disk := by
  induction ts generalizing d report with
  | nil => simp
  | cons t rest ih =>
    obtain ⟨hpath, hpaths⟩ := List.forall_mem_cons.1 hpaths
    rcases runTasks_cons d t rest with ⟨_, d', hdoes, hdisk, hresult⟩ | ⟨f, _, -, -, hresult⟩
    · obtain ⟨report', hrest, -⟩ := map_eq_ok_iff.1 (hresult.symm.trans h)
      rw [hdisk]
      exact List.forall_mem_cons.2
        ⟨(hdoes.isDone hpath).mono (extends_runTasks d' rest), ih hrest hpaths⟩
    · cases hresult.symm.trans h

/-- Where everything is there, a run has nothing to do. -/
theorem runTasks_of_isDone (h : ∀ t ∈ ts, t.IsDone d) :
    runTasks d ts =
      { log := [], result := .ok { skippedFiles := ts.filterMap Task.file? }, disk := d } := by
  induction ts with
  | nil => rfl
  | cons t rest ih =>
    obtain ⟨ht, hrest⟩ := List.forall_mem_cons.1 h
    cases t with
    | directory p =>
      have hdir : d.hasDir p = true := ht
      rw [runTasks, if_pos hdir, ih hrest]
      rfl
    | file p content =>
      have hhas : d.has p = true := ht
      rw [runTasks, if_pos hhas, ih hrest]
      rfl

/-! ### The tasks of setting up -/

/-- The files of a project that has been set up, in their order. -/
def starterFiles (root : Path) : List Path :=
  templates.map (fun doc => root / docsDir / rulesDir / Path.ofString doc.filename) ++
    [root / docsDir / ignoreFile]

theorem filterMap_file?_tasks (root : Path) :
    (tasks root).filterMap Task.file? = starterFiles root := rfl

theorem path_ne_nil_of_mem_tasks (ht : t ∈ tasks root) : t.path.chars ≠ [] := by
  have hnames : ∀ doc ∈ templates, (Path.ofString doc.filename).chars ≠ [] := by decide
  simp only [tasks, List.mem_append, List.mem_cons, List.mem_map, List.not_mem_nil, or_false] at ht
  rcases ht with ((rfl | rfl) | ⟨doc, hdoc, rfl⟩) | rfl
  · exact Path.div_ne_nil _ (by decide)
  · exact Path.div_ne_nil _ (by decide)
  · exact Path.div_ne_nil _ (hnames doc hdoc)
  · exact Path.div_ne_nil _ (by decide)

/-! ### Setting up again -/

/-- Whatever there is, setting up keeps it, whether it succeeds or not.  After it has succeeded,
all is there, and setting up again succeeds, changes nothing, and skips every file. -/
theorem setUp_again (d : Disk) (root : Path) :
    (∀ loc e, d.entryAt loc = some e → (setUp d root).disk.entryAt loc = some e) ∧
    ∀ report, (setUp d root).result = .ok report →
      (∀ t ∈ tasks root, t.IsDone (setUp d root).disk) ∧
      setUp (setUp d root).disk root =
        { log := []
          result := .ok { createdDirs := [], createdFiles := [], skippedFiles := starterFiles root }
          disk := (setUp d root).disk } := by
  refine ⟨(extends_runTasks d (tasks root)).entryAt, fun report h => ?_⟩
  have hdone : ∀ t ∈ tasks root, t.IsDone (setUp d root).disk :=
    isDone_of_runTasks h fun t => path_ne_nil_of_mem_tasks
  refine ⟨hdone, ?_⟩
  rw [← filterMap_file?_tasks]
  exact runTasks_of_isDone hdone

/-- The names of a project root and of the directory of everything. -/
def projectName : Disk.Name := ⟨"project".toUTF8.data.toList, by decide +kernel⟩

@[inherit_doc projectName]
def docsName : Disk.Name := ⟨"ai-docs".toUTF8.data.toList, by decide +kernel⟩

/-- A disk with a project that has one of the documents already, and a link that leads to nothing
in place of the ignore patterns. -/
def halfSetUp : Disk :=
  (writeAll .empty [⟨"project/ai-docs/rules/01-general.md", "my own rules"⟩]).disk.put
    ignoreName [docsName, projectName] (.link "later")

theorem setUp_again_halfSetUp :
    (setUp halfSetUp "project").result = .ok
      { createdFiles := ["project/ai-docs/rules/02-assistants.md", "project/ai-docs/ignore"]
        skippedFiles := ["project/ai-docs/rules/01-general.md"] } ∧
    (setUp halfSetUp "project").disk.entryAt [ignoreName, docsName, projectName] =
      some (.link "later") ∧
    setUp (setUp halfSetUp "project").disk "project" =
      { log := []
        result := .ok
          { createdDirs := [], createdFiles := [], skippedFiles := starterFiles "project" }
        disk := (setUp halfSetUp "project").disk } := by
  have hok : (setUp halfSetUp "project").result = .ok
      { createdFiles := ["project/ai-docs/rules/02-assistants.md", "project/ai-docs/ignore"]
        skippedFiles := ["project/ai-docs/rules/01-general.md"] } := by
    decide +kernel
  obtain ⟨hkept, hagain⟩ := setUp_again halfSetUp "project"
  exact ⟨hok, hkept _ _ (by decide +kernel), (hagain _ hok).2⟩

end Rulebook
