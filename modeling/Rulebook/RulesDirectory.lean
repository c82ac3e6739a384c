/-
Rulebook/RulesDirectory.lean

Loading rule documents.  The documents of a directory are the regular files
directly in it, links followed, whose names are text and end in `.md`.  Entries
are gone through in the order of their names' bytes, and the first that cannot be
looked at or read ends the run; so do links that lead nowhere or back to the
directory, whatever their names.  A name that is not text is passed over with a
warning, and so is a directory without documents.
-/
import Rulebook.Disk.Look
import Rulebook.Document
import Rulebook.Outcome
import Rulebook.Text.Lossy

namespace Rulebook

open Disk (Name)

/-! ### One entry -/

/-- The path by which an entry of a directory is reported. -/
def Disk.Name.reportedIn (n : Name) (dir : Path) : Path :=
  match n.text? with
  | some text => dir / Path.ofString text
  | none => dir / ⟨Text.lossy n.bytes⟩

/-- What an entry of the rules directory `dir`, which is at `home`, really is: itself,
or what it leads to as a link. -/
def resolveRule (d : Disk) (dir : Path) (home : Location) (n : Name) (e : Entry) :
    Except Failure Entry :=
  match e with
  | .link _ =>
    match d.findIn dir n with
    | .error fault =>
      .error { during := [.listRules dir], cause := .entry (n.reportedIn dir) fault }
    | .ok (loc, target) =>
      if target = .directory ∧ loc = home then
        .error { during := [.listRules dir], cause := .cycle (n.reportedIn dir) dir }
      else .ok target
  | e => .ok e

/-- What an entry of the rules directory comes to. -/
inductive Finding
  | document (doc : Document)
  /-- Its name is not text. -/
  | unnamed
  /-- It is not a document. -/
  | other

/-- Look at one entry of the rules directory `dir`, which is at `home`. -/
def inspectRule (d : Disk) (dir : Path) (home : Location) (n : Name) (e : Entry) :
    Except Failure Finding := do
  let target ← resolveRule d dir home n e
  match n.text?, target with
  | none, _ => return .unnamed
  | some name, .file bytes =>
    if ".md".toList.isSuffixOf name.toList then
      match Disk.Entry.text (.file bytes) with
      | .ok content => return .document ⟨name, content⟩
      | .error fault => throw (.ofFault (.readDocument (dir / Path.ofString name)) fault)
    else return .other
  | some _, _ => return .other

/-! ### All entries -/

/-- The documents among some entries of the rules directory. -/
def gatherRules (d : Disk) (dir : Path) (home : Location) :
    List (Name × Entry) → Account (List Document)
  | [] => ⟨[], .ok []⟩
  | (n, e) :: rest =>
    match inspectRule d dir home n e with
    | .error f => .failed f
    | .ok .unnamed => (gatherRules d dir home rest).telling .skippedName
    | .ok .other => gatherRules d dir home rest
    | .ok (.document doc) => (gatherRules d dir home rest).map (doc :: ·)

/-- An account of loading, with the warning that belongs to an empty result. -/
def warnIfNone (r : Account (List Document)) : Account (List Document) :=
  match r.result with
  | .ok [] => { r with log := r.log ++ [.noDocuments] }
  | _ => r

/-- The documents of a rules directory. -/
def loadRules (d : Disk) (dir : Path) : Account (List Document) :=
  match d.find dir with
  | .ok (home, .directory) => warnIfNone (gatherRules d dir home (d.children home))
  | _ => .failed { cause := .missingInput dir }

end Rulebook
