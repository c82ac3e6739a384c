/-
Rulebook/Proofs/FrontMatter.lean

What is read back from a rule file with front matter.  Reading accepts what writing produces
from a description of one line, and nothing else (`decode?_eq_some_iff`).  So a rule file is
read back as it was written if its description is one line, whatever the body looks like.

The description is the stem of a file name, which may be any text.  It is said here without
running over the text (`Describes`): the name is the last piece between slashes that says
something, and its stem is what stands before the last dot in it, unless that is nothing.

Main result `decode?_ofText_iff`: a rule file is read back as it was written if and only if
there is no newline in its description.  For a document that has been loaded, that is when
there is none in its file name, since all but the `.md` of it is the description
(`exists_describe_eq`).
-/
import Mathlib.Data.List.TakeWhile
import Rulebook.FrontMatter
import Rulebook.Proofs.PlannedPaths

namespace Rulebook

open Rulebook.Path (Segment)
open Text

/-! ### Names and stems -/

namespace Path

variable {cs name stem : List Char}

/-- Whether a path ends in a name: what comes after it says nothing, and it is itself neither
idle nor the way up. -/
def EndsIn (path name : List Char) : Prop :=
  ∃ before idle, split '/' path = before ++ name :: idle ∧ (∀ s ∈ idle, s = [] ∨ s = ['.']) ∧
    name ≠ [] ∧ name ≠ ['.'] ∧ name ≠ ['.', '.']

/-- The last piece that says something is found with or without the first one, which may only
say where the path starts. -/
theorem find?_anatomy (p : Path) :
    p.anatomy.2.reverse.find? (!·.isIdle) =
      (split '/' p.chars).reverse.find? fun s : Segment => !s.isIdle := by
  rw [anatomy_eq]
  rcases split '/' p.chars with - | ⟨first, rest⟩
  · rfl
  · rw [anatomyOf, List.reverse_cons, List.find?_append]
    split
    · next h => simp [h.1, Segment.isIdle]
    · split
      · next h => simp [h, Segment.isIdle]
      · rw [List.reverse_cons, List.find?_append]

/-- The name of a path is looked for from the end. -/
theorem name?_eq_some_iff_find? {p : Path} :
    p.name? = some name ↔
      p.anatomy.2.reverse.find? (!·.isIdle) = some name ∧ name ≠ ['.', '.'] := by
  rw [name?, last?, dropIdle, List.find?_not_eq_head?_dropWhile]
  rcases p.anatomy.2.reverse.dropWhile Segment.isIdle with - | ⟨s, before⟩
  · simp
  · by_cases hup : s = ['.', '.']
    · simp only [if_pos hup, reduceCtorEq, List.head?_cons, Option.some.injEq, false_iff, not_and,
        not_not]
      exact fun hname => hname ▸ hup
    · simp only [if_neg hup, List.head?_cons, Option.some.injEq, iff_self_and]
      exact fun hname => hname ▸ hup

theorem name?_eq_some_iff : (Path.mk cs).name? = some name ↔ EndsIn cs name := by
  -- the pieces are looked through from the end, so what comes after the name is met before it
  rw [name?_eq_some_iff_find?, find?_anatomy, List.find?_eq_some_iff_append]
  constructor
  · rintro ⟨⟨hidle, after, before, hsplit, hafter⟩, hup⟩
    obtain ⟨hnil, hdot⟩ : name ≠ [] ∧ name ≠ ['.'] := by simpa [Segment.isIdle] using hidle
    refine ⟨before.reverse, after.reverse, ?_, ?_, hnil, hdot, hup⟩
    · rw [← List.reverse_reverse (split '/' cs), hsplit]
      simp
    · intro s hs
      simpa [Segment.isIdle] using hafter s (List.mem_reverse.1 hs)
  · rintro ⟨before, after, hsplit, hafter, hnil, hdot, hup⟩
    have hidle : (!Segment.isIdle name) = true := by simp [Segment.isIdle, hnil, hdot]
    refine ⟨⟨hidle, after.reverse, before.reverse, ?_, ?_⟩, hup⟩
    · simp [hsplit]
    · intro s hs
      simpa [Segment.isIdle] using hafter s (List.mem_reverse.1 hs)

/-- Whether a name has a stem. -/
inductive HasStem : List Char → List Char → Prop
  /-- What stands before the last dot. -/
  | cut {stem ext : List Char} : stem ≠ [] → '.' ∉ ext → HasStem (stem ++ '.' :: ext) stem
  /-- The whole name, where nothing stands before the last dot. -/
  | hidden {ext : List Char} : '.' ∉ ext → HasStem ('.' :: ext) ('.' :: ext)
  /-- The whole name, where there is no dot. -/
  | whole {name : List Char} : '.' ∉ name → HasStem name name

theorem cutExtension?_eq_none (h : '.' ∉ name) : cutExtension? name = none := by
  have hall : ∀ c ∈ name.reverse, decide (c ≠ '.') = true := by
    intro c hc
    exact decide_eq_true (ne_of_mem_of_not_mem (List.mem_reverse.1 hc) h)
  rw [cutExtension?, List.takeWhile_eq_self_iff.2 hall]
  simp

theorem exists_hasStem (name : List Char) : ∃ stem, HasStem name stem := by
  by_cases hdot : '.' ∈ name
  · obtain ⟨ext, stem, hname, hext⟩ := List.eq_append_cons_of_mem (List.mem_reverse.2 hdot)
    obtain rfl : name = stem.reverse ++ '.' :: ext.reverse := by
      rw [← List.reverse_reverse name, hname]
      simp
    have hext' : '.' ∉ ext.reverse := mt List.mem_reverse.1 hext
    by_cases hnil : stem.reverse = []
    · rw [hnil]
      exact ⟨_, .hidden hext'⟩
    · exact ⟨_, .cut hnil hext'⟩
  · exact ⟨name, .whole hdot⟩

/-- The stem of a path is a stem of its name. -/
theorem HasStem.stem?_eq (h : HasStem name stem) (hname : EndsIn cs name) :
    (Path.mk cs).stem? = some stem := by
  rw [stem?, name?_eq_some_iff.2 hname]
  cases h with
  | cut hne hext => rw [Option.map_some, cutExtension?_append hext, if_neg hne]
  | @hidden ext hext =>
    have hcut : cutExtension? ('.' :: ext) = none := by
      rw [← List.nil_append ('.' :: ext), cutExtension?_append hext, if_pos rfl]
    rw [Option.map_some, hcut]
  | whole hdot => rw [Option.map_some, cutExtension?_eq_none hdot]

end Path

namespace FrontMatter

variable {cs description body : List Char} {filename : String}

/-! ### What is read -/

theorem after?_eq_some_iff {start rest : List Char} :
    after? start cs = some rest ↔ cs = start ++ rest := by
  constructor
  · intro h
    rw [after?] at h
    split at h
    · next hstart =>
      obtain ⟨rest', rfl⟩ := List.isPrefixOf_iff_prefix.1 hstart
      rw [List.drop_left] at h
      rw [Option.some.inj h]
    · cases h
  · rintro rfl
    exact after?_append start rest

/-- Reading gives a description of one line and a body from what writing makes of these, and from
nothing else. -/
theorem decode?_eq_some_iff :
    decode? cs = some (description, body) ↔ '\n' ∉ description ∧ cs = encode description body := by
  constructor
  · intro h
    rw [decode?_eq] at h
    rcases hopening : after? opening cs with - | rest
    · rw [hopening] at h
      cases h
    · obtain rfl := after?_eq_some_iff.1 hopening
      rw [hopening] at h
      obtain ⟨body', hclosing, heq⟩ := Option.map_eq_some_iff.1 h
      obtain ⟨rfl, rfl⟩ := Prod.mk.inj heq
      constructor
      · intro hmem
        simpa using List.mem_takeWhile_imp hmem
      · rw [encode, List.append_assoc, List.append_assoc, ← after?_eq_some_iff.1 hclosing,
          List.takeWhile_append_dropWhile]
  · rintro ⟨hline, rfl⟩
    exact decode?_encode hline body

/-! ### Descriptions -/

/-- What describes a document in its front matter. -/
inductive Describes (filename : String) : List Char → Prop
  /-- The stem of its name. -/
  | stem {name stem : List Char} :
      Path.EndsIn filename.toList name → Path.HasStem name stem → Describes filename stem
  /-- Nothing, where there is no name. -/
  | nameless : (∀ name, ¬ Path.EndsIn filename.toList name) → Describes filename []

theorem Describes.eq_describe (h : Describes filename description) :
    description = describe filename := by
  rw [describe]
  cases h with
  | stem hname hstem => exact (congrArg (·.getD []) (hstem.stem?_eq hname)).symm
  | nameless hno =>
    have hname : (Path.ofString filename).name? = none := by
      rw [Option.eq_none_iff_forall_ne_some]
      intro name hname
      exact hno name (Path.name?_eq_some_iff.1 hname)
    rw [Path.stem?, hname]
    rfl

theorem exists_describes (filename : String) : ∃ description, Describes filename description := by
  by_cases h : ∃ name, Path.EndsIn filename.toList name
  · obtain ⟨name, hname⟩ := h
    obtain ⟨stem, hstem⟩ := Path.exists_hasStem name
    exact ⟨stem, .stem hname hstem⟩
  · exact ⟨[], .nameless (not_exists.1 h)⟩

theorem describes_iff : Describes filename description ↔ description = describe filename := by
  constructor
  · exact Describes.eq_describe
  · rintro rfl
    obtain ⟨description, h⟩ := exists_describes filename
    exact h.eq_describe ▸ h

theorem toList_ofText (filename text : String) :
    (ofText filename text).toList = encode (describe filename) text.toList := by
  rw [ofText, String.toList_ofList]

/-- A loaded document is described by its file name without `.md`, or by `.md` if that is all. -/
theorem exists_describe_eq {ds : List Document} {doc : Document} (hds : AreNamed ds)
    (hdoc : doc ∈ ds) :
    ∃ stem, doc.filename.toList = stem ++ ['.', 'm', 'd'] ∧
      describe doc.filename = if stem = [] then ['.', 'm', 'd'] else stem := by
  obtain ⟨stem, hstem⟩ := hds.md doc hdoc
  -- the whole file name is the name of the path, for it is a segment of its own
  have hplain : Segment.IsPlain doc.filename.toList := hds.isPlain hdoc
  have hends : Path.EndsIn doc.filename.toList doc.filename.toList := by
    refine ⟨[], [], split_eq_singleton hplain.slash, by simp, hplain.ne_nil, hplain.ne_dot, ?_⟩
    intro hup
    simpa [hstem] using congrArg List.length hup
  refine ⟨stem, hstem, ?_⟩
  symm
  apply Describes.eq_describe
  apply Describes.stem hends
  rw [hstem]
  split
  · next hnil =>
    subst hnil
    exact .hidden (by simp)
  · next hne => exact .cut hne (by simp)

theorem newline_mem_describe_iff {ds : List Document} {doc : Document} (hds : AreNamed ds)
    (hdoc : doc ∈ ds) : '\n' ∈ describe doc.filename ↔ '\n' ∈ doc.filename.toList := by
  obtain ⟨stem, hname, hdescribe⟩ := exists_describe_eq hds hdoc
  rw [hname, hdescribe]
  by_cases hnil : stem = [] <;> simp [hnil]

/-- The description in front matter is the stem of the file name, or nothing where there is no
name.  A rule file is read back with its description and its body exactly when there is no
newline in the description, whatever stands in the body.  For the documents of a rules
directory, that is when there is none in the file name. -/
theorem decode?_ofText_iff (filename text : String) :
    (∀ description, Describes filename description ↔ description = describe filename) ∧
    (decode? (ofText filename text).toList = some (describe filename, text.toList) ↔
      '\n' ∉ describe filename) ∧
    ∀ d dir ds doc, (loadRules d dir).result = .ok ds → doc ∈ ds → doc.filename = filename →
      ('\n' ∉ describe filename ↔ '\n' ∉ filename.toList) := by
  refine ⟨fun description => describes_iff, ?_, ?_⟩
  · rw [decode?_eq_some_iff, toList_ofText]
    exact and_iff_left rfl
  · rintro d dir ds doc hload hdoc rfl
    exact not_congr (newline_mem_describe_iff (areNamed_of_loadRules hload) hdoc)

/-- A disk with a document whose name is two lines. -/
def twoLineNamed : Disk := (writeAll .empty [⟨"rules/a\nb.md", "text"⟩]).disk

/-- The text of another document reads back, though its body could be front matter itself. -/
theorem decode?_ofText_iff_twoLineNamed :
    (loadRules twoLineNamed "rules").result = .ok [⟨"a\nb.md", "text"⟩] ∧
    '\n' ∈ describe "a\nb.md" ∧
    decode? (ofText "a\nb.md" "text").toList ≠ some (describe "a\nb.md", "text".toList) ∧
    ofText "a.b.md" "---\ndescription: c\n---\n" =
      "---\ndescription: a.b\nglobs:\nalwaysApply: false\n---\n\n---\ndescription: c\n---\n" ∧
    decode? (ofText "a.b.md" "---\ndescription: c\n---\n").toList =
      some ("a.b".toList, "---\ndescription: c\n---\n".toList) := by
  have hload : (loadRules twoLineNamed "rules").result = .ok [⟨"a\nb.md", "text"⟩] := by
    decide +kernel
  obtain ⟨-, hback, hloaded⟩ := decode?_ofText_iff "a\nb.md" "text"
  have hname := hloaded _ _ _ _ hload List.mem_cons_self rfl
  have hnewline : '\n' ∈ describe "a\nb.md" := not_not.1 fun hno => hname.1 hno (by decide)
  have hdescribe : describe "a.b.md" = "a.b".toList := by decide +kernel
  obtain ⟨-, hback', -⟩ := decode?_ofText_iff "a.b.md" "---\ndescription: c\n---\n"
  rw [hdescribe] at hback'
  exact ⟨hload, hnewline, fun h => hback.1 h hnewline, by decide +kernel, hback'.2 (by decide)⟩

/-- A description of several lines can pass for front matter with another body. -/
example : decode? (ofText "a\nglobs:\nalwaysApply: false\n---\n\nb.md" "text").toList =
    some ("a".toList, "b\nglobs:\nalwaysApply: false\n---\n\ntext".toList) := by
  decide +kernel

end FrontMatter

end Rulebook
