/-
Rulebook/Proofs/SetUpReport.lean

What setting up reports.  Without links, each task is about one place straight below the
root, and all that a task that succeeds can do is to fill this place (`Task.Does.settles`).
The places are different, and each comes after the one above it (`TopDown`,
`topDown_starterTrails`).  So no task changes what a later one sees, and what a run makes
and what it skips can be told from the disk that it starts on (`Exact.cons`,
`exact_runTasks`).

Main result `setUp_reports`: what is reported is just what was missing and what was there,
the new files hold their texts, and nothing is new on the disk but what is reported.
-/
import Rulebook.Proofs.SettingUp
import Rulebook.Proofs.Sources

namespace Rulebook

open Disk (Extends Name NoLinks Spelled)
open Rulebook.Path (Segment)

variable {d d' d'' : Disk} {t : Task} {ts : List Task} {report report' : Report}
variable {root : Path} {l loc : Location} {above way : List Name} {n : Name} {e : Entry}
variable {trail : List Segment} {before trails : List (List Segment)}

/-! ### Reports that can be told before -/

namespace Task

/-- The path of a directory that is to be there. -/
def directory? : Task → Option Path
  | .directory p => some p
  | .file _ _ => none

/-- What a task puts where nothing is. -/
def entry : Task → Entry
  | .directory _ => .directory
  | .file _ content => .file content.toUTF8

theorem path_of_directory? {p : Path} (h : t.directory? = some p) : t.path = p := by
  cases t with
  | directory q => exact Option.some.inj h
  | file q content => cases h

theorem path_of_file? {p : Path} (h : t.file? = some p) : t.path = p := by
  cases t with
  | directory q => cases h
  | file q content => exact Option.some.inj h

end Task

/-- The report on some tasks as it can be told from a disk on which none of them is done yet. -/
def reportOf (d : Disk) (ts : List Task) : Report where
  createdDirs := (ts.filterMap Task.directory?).filter fun p => !d.has p
  createdFiles := (ts.filterMap Task.file?).filter fun p => !d.has p
  skippedFiles := (ts.filterMap Task.file?).filter fun p => d.has p

theorem reportOf_append (d : Disk) (ts ts' : List Task) :
    reportOf d (ts ++ ts') = (reportOf d ts).and (reportOf d ts') := by
  simp [reportOf, Report.and]

/-- Only what is seen at the paths of the tasks counts. -/
theorem reportOf_congr (h : ∀ t ∈ ts, d'.has t.path = d.has t.path) :
    reportOf d' ts = reportOf d ts := by
  have hsame : ∀ f : Task → Option Path, (∀ t p, f t = some p → t.path = p) →
      ∀ p ∈ ts.filterMap f, d'.has p = d.has p := by
    intro f hf p hp
    obtain ⟨t, ht, htp⟩ := List.mem_filterMap.1 hp
    exact hf t p htp ▸ h t ht
  have hdirs := hsame Task.directory? fun t p => Task.path_of_directory?
  have hfiles := hsame Task.file? fun t p => Task.path_of_file?
  show Report.mk _ _ _ = Report.mk _ _ _
  congr 1
  · exact List.filter_congr fun p hp => by rw [hdirs p hp]
  · exact List.filter_congr fun p hp => by rw [hfiles p hp]
  · exact List.filter_congr hfiles

/-- Whether a run of some tasks has made just what it reports, and its report could be told
before. -/
structure Exact (d : Disk) (ts : List Task) (report : Report) (d' : Disk) : Prop where
  report : report = reportOf d ts
  kept : Extends d d'
  /-- What was missing is new, and is what the task puts there. -/
  made : ∀ t ∈ ts, d.has t.path = false →
    ∃ loc, d.entryAt loc = none ∧ d'.find t.path = .ok (loc, t.entry)
  /-- What is new was missing. -/
  new : ∀ loc, d.entryAt loc = none → d'.entryAt loc ≠ none →
    ∃ t ∈ ts, d.has t.path = false ∧ d'.find t.path = .ok (loc, t.entry)

namespace Exact

theorem nil (d : Disk) : Exact d [] {} d where
  report := rfl
  kept := .refl d
  made := by simp
  new _ hnone hsome := absurd hnone hsome

/-- A task and a run after it, if the task does not change what the run sees. -/
theorem cons (h : Exact d [t] report d') (h' : Exact d' ts report' d'')
    (hsame : ∀ t' ∈ ts, d'.has t'.path = d.has t'.path) :
    Exact d (t :: ts) (report.and report') d'' where
  report := by
    rw [h.report, h'.report, reportOf_congr hsame]
    exact (reportOf_append d [t] ts).symm
  kept := h.kept.trans h'.kept
  made := by
    refine List.forall_mem_cons.2 ⟨fun hno => ?_, fun t' ht' hno => ?_⟩
    · obtain ⟨loc, hnone, hfind⟩ := h.made t List.mem_cons_self hno
      exact ⟨loc, hnone, h'.kept.find hfind⟩
    · obtain ⟨loc, hnone, hfind⟩ := h'.made t' ht' (hsame t' ht' ▸ hno)
      exact ⟨loc, h.kept.eq_none hnone, hfind⟩
  new loc hnone hsome := by
    by_cases hloc : d'.entryAt loc = none
    · obtain ⟨t', ht', hno, hfind⟩ := h'.new loc hloc hsome
      exact ⟨t', List.mem_cons_of_mem t ht', hsame t' ht' ▸ hno, hfind⟩
    · obtain ⟨t', ht', hno, hfind⟩ := h.new loc hnone hloc
      obtain rfl := List.mem_singleton.1 ht'
      exact ⟨t', List.mem_cons_self, hno, h'.kept.find hfind⟩

end Exact

/-! ### One task -/

/-- No link comes up where one entry is set that is none. -/
theorem Disk.NoLinks.of_set (hlinks : d.NoLinks)
    (hset : ∀ other, d'.entryAt other = if other = loc then some e else d.entryAt other)
    (he : ∀ target, e ≠ .link target) : d'.NoLinks := by
  intro other target hother
  rw [hset] at hother
  split at hother
  · exact he target (Option.some.inj hother)
  · exact hlinks other target hother

namespace Task

/-- Where the directory above is there, making a directory makes no other. -/
theorem eq_of_dirsMade (hmade : Disk.DirsMade d (root.under trail).ancestors d')
    (hlinks : d.NoLinks) (hroot : d.find root = .ok (l, .directory))
    (hspelled : Spelled trail (above ++ [n])) (habove : d.entryAt (above.reverse ++ l) ≠ none)
    (hnew : d'.entryAt loc ≠ d.entryAt loc) :
    loc = (above ++ [n]).reverse ++ l ∧ d.entryAt loc = none := by
  obtain ⟨hnone, -, hfor⟩ := (hmade.entryAt loc).resolve_left hnew
  obtain ⟨names, -, hprefix, rfl⟩ :=
    hfor.exists_names (hmade.noLinks hlinks) hroot hmade.retains hnone hspelled
  rcases List.prefix_concat_iff.1 hprefix with rfl | ⟨more, rfl⟩
  · exact ⟨rfl, hnone⟩
  · -- what is above is there, and so is all on the way to it
    refine absurd (Disk.entryAt_append_of_none hnone more.reverse) ?_
    simpa using habove

/-- So one entry is set. -/
theorem entryAt_of_makeDirs (hlinks : d.NoLinks) (hroot : d.find root = .ok (l, .directory))
    (hspelled : Spelled trail (above ++ [n])) (habove : d.entryAt (above.reverse ++ l) ≠ none)
    (hno : d.hasDir (root.below trail) = false)
    (h : d.makeDirs (root.below trail) = (d', .ok ())) :
    d.entryAt ((above ++ [n]).reverse ++ l) = none ∧ ∀ other, d'.entryAt other =
      if other = (above ++ [n]).reverse ++ l then some .directory else d.entryAt other := by
  have hne : above ++ [n] ≠ [] := by simp
  have htrail : trail ≠ [] := hspelled.ne_nil_iff.2 hne
  have hunder : root.under trail = root.below trail := if_neg htrail
  have hmade : Disk.DirsMade d (root.under trail).ancestors d' := by
    have hdisk : (d.makeDirs (root.under trail)).1 = d' := by rw [hunder, h]
    exact hdisk ▸ Disk.dirsMade_makeDirsUp d _
  have hthere : d'.entryAt ((above ++ [n]).reverse ++ l) = some .directory := by
    have hpath : (root.below trail).chars ≠ [] :=
      Path.chars_below_ne_nil root htrail hspelled.plain
    have hdone : d'.hasDir (root.below trail) = true := (Does.directoryMade hno h).isDone hpath
    obtain ⟨loc, hfind⟩ := Disk.hasDir_iff.1 hdone
    have hroot' := hmade.retains.find_directory hroot
    obtain ⟨rfl, hdir⟩ :=
      (Disk.find_below_iff (hmade.noLinks hlinks) hroot' hspelled hne).1 hfind
    exact hdir
  have hnew : ∀ other, d'.entryAt other ≠ d.entryAt other →
      other = (above ++ [n]).reverse ++ l ∧ d.entryAt other = none :=
    fun other => eq_of_dirsMade hmade hlinks hroot hspelled habove
  refine ⟨(hnew _ fun hsame => ?_).2, fun other => ?_⟩
  · -- a directory that was there would have been found
    rw [hsame] at hthere
    have hdir : d.hasDir (root.below trail) = true :=
      Disk.hasDir_iff.2 ⟨_, (Disk.find_below_iff hlinks hroot hspelled hne).2 ⟨rfl, hthere⟩⟩
    simp [hno] at hdir
  · split
    · next hother => rw [hother, hthere]
    · next hother => exact Classical.byContradiction fun hne => hother (hnew other hne).1

/-- What a task comes to that is about one place: it fills the place if nothing is there, and does
nothing else. -/
structure Settles (d : Disk) (t : Task) (loc : Location) (report : Report) (d' : Disk) :
    Prop where
  report : report = reportOf d [t]
  kept : Extends d d'
  entryAt : ∀ other, d'.entryAt other =
    if other = loc then some ((d.entryAt loc).getD t.entry) else d.entryAt other

theorem Settles.there (hreport : report = reportOf d [t]) (hloc : d.entryAt loc ≠ none) :
    t.Settles d loc report d := by
  refine ⟨hreport, .refl d, fun other => ?_⟩
  obtain ⟨e, he⟩ := Option.ne_none_iff_exists'.1 hloc
  split
  · next hother => rw [hother, he, Option.getD_some]
  · rfl

theorem Settles.made (hreport : report = reportOf d [t]) (hkept : Extends d d')
    (hloc : d.entryAt loc = none)
    (hput : ∀ other, d'.entryAt other = if other = loc then some t.entry else d.entryAt other) :
    t.Settles d loc report d' := by
  refine ⟨hreport, hkept, fun other => ?_⟩
  rw [hput, hloc, Option.getD_none]

/-- Straight below a root, and with something above, a task is about one place. -/
theorem Does.settles (h : t.Does d report d') (hlinks : d.NoLinks)
    (hroot : d.find root = .ok (l, .directory)) (hspelled : Spelled trail (above ++ [n]))
    (hpath : t.path = root.below trail) (habove : d.entryAt (above.reverse ++ l) ≠ none) :
    t.Settles d ((above ++ [n]).reverse ++ l) report d' := by
  have hne : above ++ [n] ≠ [] := by simp
  have hhas : d.has t.path = true ↔ d.entryAt ((above ++ [n]).reverse ++ l) ≠ none := by
    rw [hpath]
    exact Disk.has_below_iff hlinks hroot hspelled hne
  have hkept : Extends d d' := h.toExtends
  cases h with
  | @directoryThere p hdir =>
    have hthere : d.has p = true := by
      obtain ⟨loc, hfind⟩ := Disk.hasDir_iff.1 hdir
      exact Disk.has_iff.2 ⟨loc, _, hfind⟩
    exact .there (by simp [reportOf, directory?, file?, hthere]) (hhas.1 hthere)
  | @directoryMade p _ hno hmade =>
    obtain rfl : p = root.below trail := hpath
    obtain ⟨hnone, hput⟩ := entryAt_of_makeDirs hlinks hroot hspelled habove hno hmade
    have hmissing : d.has (root.below trail) = false :=
      Bool.eq_false_iff.2 fun hthere => hhas.1 hthere hnone
    exact .made (by simp [reportOf, directory?, file?, hmissing]) hkept hnone hput
  | fileThere hthere =>
    exact .there (by simp [reportOf, directory?, file?, hthere]) (hhas.1 hthere)
  | @fileMade p content _ hno hwrite =>
    obtain rfl : p = root.below trail := hpath
    obtain ⟨m, dir, hdir, hnone, rfl, hfind⟩ := Disk.writeFile_of_not_has hno hwrite
    have hput := Disk.entryAt_put (n := m) ⟨hdir, by simp [hnone]⟩ (.file content.toUTF8)
    -- the file is at the end of the path, and so in the place
    have hlinks' := hlinks.of_set hput (by simp)
    obtain ⟨hloc, -⟩ := (Disk.find_below_iff hlinks' (hkept.find hroot) hspelled hne).1 hfind
    rw [← hloc]
    exact .made (by simp [reportOf, directory?, file?, hno]) hkept hnone hput

theorem Settles.noLinks (h : t.Settles d loc report d') (hlinks : d.NoLinks) : d'.NoLinks := by
  refine hlinks.of_set h.entryAt fun target htarget => ?_
  rcases hloc : d.entryAt loc with - | old
  · rw [hloc, Option.getD_none] at htarget
    cases t <;> cases htarget
  · rw [hloc, Option.getD_some] at htarget
    exact hlinks loc target (htarget ▸ hloc)

/-- Something stands at the place then. -/
theorem Settles.ne_none (h : t.Settles d loc report d') : d'.entryAt loc ≠ none := by
  rw [h.entryAt, if_pos rfl]
  exact Option.some_ne_none _

/-- At the end of another path below the root nothing changes. -/
theorem Settles.has_eq (h : t.Settles d (way.reverse ++ l) report d') (hlinks : d.NoLinks)
    (hroot : d.find root = .ok (l, .directory)) {other : List Name}
    (hspelled : Spelled trail other) (hne : other ≠ []) (hother : other ≠ way) :
    d'.has (root.below trail) = d.has (root.below trail) := by
  have hplace : other.reverse ++ l ≠ way.reverse ++ l :=
    fun heq => hother (List.reverse_injective (List.append_cancel_right heq))
  rw [Bool.eq_iff_iff, Disk.has_below_iff (h.noLinks hlinks) (h.kept.find hroot) hspelled hne,
    Disk.has_below_iff hlinks hroot hspelled hne, h.entryAt, if_neg hplace]

theorem Settles.exact (h : t.Settles d ((above ++ [n]).reverse ++ l) report d')
    (hlinks : d.NoLinks) (hroot : d.find root = .ok (l, .directory))
    (hspelled : Spelled trail (above ++ [n])) (hpath : t.path = root.below trail) :
    Exact d [t] report d' := by
  have hne : above ++ [n] ≠ [] := by simp
  have hmissing : d.has t.path = false ↔ d.entryAt ((above ++ [n]).reverse ++ l) = none := by
    rw [← Bool.not_eq_true, hpath, Disk.has_below_iff hlinks hroot hspelled hne, not_not]
  have hfind : d.entryAt ((above ++ [n]).reverse ++ l) = none →
      d'.find t.path = .ok ((above ++ [n]).reverse ++ l, t.entry) := by
    intro hnone
    rw [hpath, Disk.find_below_iff (h.noLinks hlinks) (h.kept.find hroot) hspelled hne]
    exact ⟨rfl, by rw [h.entryAt, if_pos rfl, hnone, Option.getD_none]⟩
  refine ⟨h.report, h.kept, fun t' ht' hno => ?_, fun other hnone hsome => ?_⟩
  · obtain rfl := List.mem_singleton.1 ht'
    exact ⟨_, hmissing.1 hno, hfind (hmissing.1 hno)⟩
  · by_cases hother : other = (above ++ [n]).reverse ++ l
    · subst hother
      exact ⟨t, List.mem_singleton_self t, hmissing.2 hnone, hfind hnone⟩
    · rw [h.entryAt, if_neg hother] at hsome
      exact absurd hnone hsome

end Task

/-! ### One task after the other -/

instance (trail : List Segment) (way : List Name) : Decidable (Spelled trail way) :=
  decidable_of_iff ((∀ s ∈ trail, s.IsPlain) ∧ (∀ s ∈ trail, '\x00' ∉ s) ∧
    trail.map Disk.Step.ofSegment = way.map .down)
    ⟨fun h => ⟨h.1, h.2.1, h.2.2⟩, fun h => ⟨h.plain, h.nul, h.steps⟩⟩

/-- Whether some trails are spelled by names, and each comes once, after the one above it. -/
def TopDown (before : List (List Segment)) : List (List Segment) → Prop
  | [] => True
  | trail :: rest => Spelled trail (namesOf trail) ∧ trail ≠ [] ∧ trail.dropLast ∈ before ∧
      trail ∉ before ∧ TopDown (trail :: before) rest

instance decidableTopDown : ∀ before trails, Decidable (TopDown before trails)
  | _, [] => isTrue trivial
  | before, trail :: rest =>
    have := decidableTopDown (trail :: before) rest
    inferInstanceAs (Decidable (_ ∧ _ ∧ _ ∧ _ ∧ _))

theorem TopDown.of_mem (h : TopDown before trails) (htrail : trail ∈ trails) :
    Spelled trail (namesOf trail) ∧ trail ≠ [] ∧ trail ∉ before := by
  induction trails generalizing before with
  | nil => cases htrail
  | cons first rest ih =>
    obtain ⟨hspelled, hne, -, hnew, hrest⟩ := h
    rcases List.mem_cons.1 htrail with rfl | htrail
    · exact ⟨hspelled, hne, hnew⟩
    · obtain ⟨hspelled, hne, hnot⟩ := ih hrest htrail
      exact ⟨hspelled, hne, fun hmem => hnot (List.mem_cons_of_mem _ hmem)⟩

/-- A run of tasks makes just what it reports if each is about a place of its own, and the place
above is filled before. -/
theorem exact_runTasks (hpaths : ts.map Task.path = trails.map root.below)
    (htrails : TopDown before trails) (hlinks : d.NoLinks)
    (hroot : d.find root = .ok (l, .directory))
    (hbefore : ∀ trail ∈ before, ∀ way, Spelled trail way → d.entryAt (way.reverse ++ l) ≠ none)
    (h : (runTasks d ts).result = .ok report) : Exact d ts report (runTasks d ts).disk := by
  induction trails generalizing d ts report before with
  | nil =>
    obtain rfl : ts = [] := List.map_eq_nil_iff.1 hpaths
    obtain rfl : ({} : Report) = report := Except.ok.inj h
    exact .nil d
  | cons trail trails ih =>
    obtain ⟨t, ts, rfl, hpath, hrest⟩ := List.map_eq_cons_iff.1 hpaths
    obtain ⟨hspelled, hne, habove, -, hlater⟩ := htrails
    obtain ⟨above, n, hway⟩ :=
      (List.eq_nil_or_concat' (namesOf trail)).resolve_left (hspelled.ne_nil_iff.1 hne)
    rw [hway] at hspelled
    obtain ⟨init, last, rfl, hinit, -⟩ := hspelled.concat
    rw [List.dropLast_concat] at habove
    rcases runTasks_cons d t ts with ⟨start, d', hdoes, hdisk, hresult⟩ | ⟨f, _, -, -, hresult⟩
    · obtain ⟨after, hafter, rfl⟩ := map_eq_ok_iff.1 (hresult.symm.trans h)
      have hsettles := hdoes.settles hlinks hroot hspelled hpath (hbefore init habove above hinit)
      have hlinks' := hsettles.noLinks hlinks
      have hroot' := hsettles.kept.find hroot
      have hbefore' : ∀ trail ∈ (init ++ [last]) :: before, ∀ way, Spelled trail way →
          d'.entryAt (way.reverse ++ l) ≠ none := by
        refine List.forall_mem_cons.2 ⟨fun way h => ?_, fun trail htrail way h =>
          hsettles.kept.retains.ne_none (hbefore trail htrail way h)⟩
        rw [h.names_unique hspelled]
        exact hsettles.ne_none
      rw [hdisk]
      refine (hsettles.exact hlinks hroot hspelled hpath).cons
        (ih hrest hlater hlinks' hroot' hbefore' hafter) fun t' ht' => ?_
      -- a later task is about another place, where nothing has changed
      obtain ⟨trail', htrail', hpath'⟩ : ∃ trail' ∈ trails, root.below trail' = t'.path :=
        List.mem_map.1 (hrest ▸ List.mem_map_of_mem ht')
      obtain ⟨hspelled', hne', hnot⟩ := hlater.of_mem htrail'
      have hother : namesOf trail' ≠ above ++ [n] := by
        intro hsame
        rw [hsame] at hspelled'
        exact hnot (hspelled'.unique hspelled ▸ List.mem_cons_self)
      rw [← hpath']
      exact hsettles.has_eq hlinks hroot hspelled' (hspelled'.ne_nil_iff.1 hne') hother
    · cases hresult.symm.trans h

/-! ### The tasks of setting up -/

/-- The trails of what is to be there under a project root. -/
def starterTrails : List (List Segment) :=
  let docs := docsDir.chars
  let rules := rulesDir.chars
  [[docs], [docs, rules]] ++ templates.map (fun doc => [docs, rules, doc.filename.toList]) ++
    [[docs, ignoreFile.chars]]

theorem map_path_tasks (root : Path) :
    (tasks root).map Task.path = starterTrails.map root.below := by
  have hdocs : root / docsDir = root.below [docsDir.chars] := Path.div_eq_below root docsDir
  have hrules : root / docsDir / rulesDir = root.below [docsDir.chars, rulesDir.chars] := by
    rw [hdocs]
    exact Path.below_div root (by simp) (by decide) (by decide)
  have hignore : root / docsDir / ignoreFile = root.below [docsDir.chars, ignoreFile.chars] := by
    rw [hdocs]
    exact Path.below_div root (by simp) (by decide) (by decide)
  have hnames : ∀ doc ∈ templates, Segment.IsPlain doc.filename.toList := by decide
  have hfiles : ∀ doc ∈ templates, root / docsDir / rulesDir / Path.ofString doc.filename =
      root.below [docsDir.chars, rulesDir.chars, doc.filename.toList] := by
    intro doc hdoc
    rw [hrules]
    exact Path.below_div root (by simp) (by decide) (hnames doc hdoc)
  show [root / docsDir, root / docsDir / rulesDir] ++
    (templates.map fun doc => root / docsDir / rulesDir / Path.ofString doc.filename) ++
      [root / docsDir / ignoreFile] = _
  rw [List.map_congr_left hfiles, hrules, hignore, hdocs]
  rfl

theorem topDown_starterTrails : TopDown [[]] starterTrails := by
  decide +kernel

/-! ### Setting up -/

/-- The files of a project that has been set up, with the texts they start with. -/
def starterTexts (root : Path) : List (Path × String) :=
  let rules := root / docsDir / rulesDir
  templates.map (fun doc => (rules / Path.ofString doc.filename, doc.content)) ++
    [(root / docsDir / ignoreFile, defaultIgnore)]

theorem tasks_eq (root : Path) : tasks root =
    [.directory (root / docsDir), .directory (root / docsDir / rulesDir)] ++
      (starterTexts root).map fun file => .file file.1 file.2 := rfl

/-- Whether a report says exactly what setting up has done. -/
structure IsReportOn (d : Disk) (root : Path) (report : Report) (d' : Disk) : Prop where
  /-- Directories have been created where nothing was. -/
  createdDirs : report.createdDirs =
    [root / docsDir, root / docsDir / rulesDir].filter fun p => !d.has p
  /-- So have files, and those where something was have been skipped. -/
  createdFiles : report.createdFiles = (starterFiles root).filter fun p => !d.has p
  skippedFiles : report.skippedFiles = (starterFiles root).filter fun p => d.has p
  /-- The new directories are there, and the new files hold the texts they start with. -/
  directories : ∀ p ∈ report.createdDirs, d'.hasDir p = true
  texts : ∀ file ∈ starterTexts root, file.1 ∈ report.createdFiles →
    d'.readText file.1 = .ok file.2
  /-- What was there is as it was. -/
  kept : Extends d d'
  /-- What is new has been reported, and what has been reported is new. -/
  new : ∀ loc, d.entryAt loc = none ∧ d'.entryAt loc ≠ none ↔
    ∃ p ∈ report.createdDirs ++ report.createdFiles, ∃ e, d'.find p = .ok (loc, e)

/-- What is reported as created was missing, and is what a task puts there. -/
theorem mem_created_iff {p : Path} :
    p ∈ (reportOf d ts).createdDirs ++ (reportOf d ts).createdFiles ↔
      ∃ t ∈ ts, t.path = p ∧ d.has p = false := by
  simp only [reportOf, List.mem_append, List.mem_filter, List.mem_filterMap, Bool.not_eq_true']
  constructor
  · rintro (⟨⟨t, ht, hp⟩, hno⟩ | ⟨⟨t, ht, hp⟩, hno⟩)
    · exact ⟨t, ht, Task.path_of_directory? hp, hno⟩
    · exact ⟨t, ht, Task.path_of_file? hp, hno⟩
  · rintro ⟨t, ht, hp, hno⟩
    cases t with
    | directory q => exact .inl ⟨⟨_, ht, congrArg some hp⟩, hno⟩
    | file q content => exact .inr ⟨⟨_, ht, congrArg some hp⟩, hno⟩

/-- What setting up reports is exactly what it has done. -/
theorem setUp_reports (hlinks : d.NoLinks) (hroot : d.hasDir root = true)
    (h : (setUp d root).result = .ok report) :
    IsReportOn d root report (setUp d root).disk := by
  obtain ⟨l, hfind⟩ := Disk.hasDir_iff.1 hroot
  have hbefore : ∀ trail ∈ ([[]] : List (List Segment)), ∀ way, Spelled trail way →
      d.entryAt (way.reverse ++ l) ≠ none := by
    intro trail htrail way hspelled
    obtain rfl := List.mem_singleton.1 htrail
    obtain rfl : way = [] := by simpa using hspelled.length.symm
    simp [Disk.entryAt_of_find_eq hfind]
  have hexact : Exact d (tasks root) report (setUp d root).disk :=
    exact_runTasks (map_path_tasks root) topDown_starterTrails hlinks hfind hbefore h
  obtain rfl := hexact.report
  refine ⟨rfl, rfl, rfl, fun p hp => ?_, fun file hfile hp => ?_, hexact.kept, fun loc => ⟨?_, ?_⟩⟩
  · obtain ⟨hmem, hno⟩ := List.mem_filter.1 hp
    obtain ⟨t, ht, htp⟩ := List.mem_filterMap.1 hmem
    cases t with
    | directory q =>
      obtain rfl : q = p := Option.some.inj htp
      have hmissing : d.has q = false := by simpa using hno
      obtain ⟨loc, -, hmade⟩ := hexact.made _ ht hmissing
      exact Disk.hasDir_iff.2 ⟨loc, hmade⟩
    | file q content => cases htp
  · have ht : .file file.1 file.2 ∈ tasks root := by
      rw [tasks_eq]
      exact List.mem_append_right _ (List.mem_map_of_mem hfile)
    have hmissing : d.has file.1 = false := by simpa using (List.mem_filter.1 hp).2
    obtain ⟨loc, -, hmade⟩ := hexact.made _ ht hmissing
    exact Disk.readText_eq_ok_iff.2 ⟨loc, hmade⟩
  · rintro ⟨hnone, hsome⟩
    obtain ⟨t, ht, hno, hmade⟩ := hexact.new loc hnone hsome
    exact ⟨t.path, mem_created_iff.2 ⟨t, ht, rfl, hno⟩, _, hmade⟩
  · rintro ⟨p, hp, e, hthere⟩
    obtain ⟨t, ht, rfl, hno⟩ := mem_created_iff.1 hp
    obtain ⟨loc', hnone, hmade⟩ := hexact.made t ht hno
    obtain ⟨rfl, rfl⟩ : loc = loc' ∧ e = t.entry := by simpa [hthere] using hmade
    have hstands : (setUp d root).disk.entryAt loc = some t.entry :=
      Disk.entryAt_of_reach (Disk.find_eq_ok_iff.1 hthere)
    exact ⟨hnone, by simp [hstands]⟩

/-- A disk with a project that has no rules, and a directory in place of the ignore patterns. -/
def ignoreDirectory : Disk :=
  (writeAll .empty [⟨"project/ai-docs/ignore/more", "target"⟩]).disk

theorem setUp_reports_ignoreDirectory : ∃ report,
    ignoreDirectory.NoLinks ∧ ignoreDirectory.hasDir "project" = true ∧
    (setUp ignoreDirectory "project").result = .ok report ∧
    report =
      { createdDirs := ["project/ai-docs/rules"]
        createdFiles :=
          ["project/ai-docs/rules/01-general.md", "project/ai-docs/rules/02-assistants.md"]
        skippedFiles := ["project/ai-docs/ignore"] } ∧
    IsReportOn ignoreDirectory "project" report (setUp ignoreDirectory "project").disk := by
  have hlinks : ignoreDirectory.NoLinks := noLinks_writeAll Disk.noLinks_empty _
  have hroot : ignoreDirectory.hasDir "project" = true := by decide +kernel
  have hok : (setUp ignoreDirectory "project").result = .ok
      { createdDirs := ["project/ai-docs/rules"]
        createdFiles :=
          ["project/ai-docs/rules/01-general.md", "project/ai-docs/rules/02-assistants.md"]
        skippedFiles := ["project/ai-docs/ignore"] } := by
    decide +kernel
  exact ⟨_, hlinks, hroot, hok, rfl, setUp_reports hlinks hroot hok⟩

end Rulebook
