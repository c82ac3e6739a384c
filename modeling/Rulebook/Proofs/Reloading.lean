/-
Rulebook/Proofs/Reloading.lean

What loading rules takes notice of.  Of the entries of a rules directory only some matter,
if there are no links among them: files whose names end in `.md`, and whatever has a name
that is no text (`isNoticed`).  All others are passed over without a word, so that loading
comes to the same on two disks where the noticed entries are the same (`loadRules_eq`).
-/
import Mathlib.Data.List.Sort
import Rulebook.Proofs.Disk.Ends
import Rulebook.Proofs.RulesDirectory

namespace Rulebook

open Disk (Name)

variable {d d' : Disk} {dir : Path} {home : Location} {n : Name} {e : Entry}

/-- Whether loading takes notice of an entry that is no link. -/
def isNoticed (entry : Name × Entry) : Bool :=
  match entry.1.text?, entry.2 with
  | none, _ => true
  | some name, .file _ => ".md".toList.isSuffixOf name.toList
  | some _, _ => false

/-- Of the entries whose names are text only files are noticed whose names end in `.md`. -/
theorem endsInMd_of_isNoticed {name : String} (hname : n.text? = some name)
    (h : isNoticed (n, e) = true) : (∃ bytes, e = .file bytes) ∧ n.EndsInMd := by
  rw [isNoticed] at h
  cases e with
  | directory | link target => simp [hname] at h
  | file bytes =>
    refine ⟨⟨bytes, rfl⟩, ?_⟩
    obtain ⟨stem, hstem⟩ : ".md".toList <:+ name.toList := by simpa [hname] using h
    rw [Name.EndsInMd, ← Name.text?_eq_some_iff.1 hname, ← hstem, Text.utf8_append]
    exact List.suffix_append _ _

/-- What is no link is looked at where it is. -/
theorem inspectRule_eq (d d' : Disk) (hlink : ∀ target, e ≠ .link target) :
    inspectRule d dir home n e = inspectRule d' dir home n e := by
  cases e with
  | link target => exact absurd rfl (hlink target)
  | directory | file bytes => rfl

theorem inspectRule_eq_other (hlink : ∀ target, e ≠ .link target)
    (hnotice : isNoticed (n, e) = false) : inspectRule d dir home n e = .ok .other := by
  rw [isNoticed] at hnotice
  rw [inspectRule]
  rcases hn : n.text? with - | name
  · simp [hn] at hnotice
  · cases e with
    | link target => exact absurd rfl (hlink target)
    | directory => rfl
    | file bytes =>
      have hmd : ".md".toList.isSuffixOf name.toList = false := by simpa [hn] using hnotice
      simp only [resolveRule, ok_bind, hmd]
      rfl

/-- Loading goes by the entries that it takes notice of. -/
theorem gatherRules_eq_filter (d d' : Disk) {entries : List (Name × Entry)}
    (hlinks : ∀ entry ∈ entries, ∀ target, entry.2 ≠ .link target) :
    gatherRules d dir home entries = gatherRules d' dir home (entries.filter isNoticed) := by
  induction entries with
  | nil => rfl
  | cons entry rest ih =>
    obtain ⟨n, e⟩ := entry
    obtain ⟨hlink, hrest⟩ := List.forall_mem_cons.1 hlinks
    rcases hnotice : isNoticed (n, e) with - | -
    · rw [List.filter_cons_of_neg (by simp [hnotice]), gatherRules, inspectRule_eq_other hlink hnotice]
      exact ih hrest
    · rw [List.filter_cons_of_pos hnotice, gatherRules, gatherRules, inspectRule_eq d d' hlink,
        ih hrest]

/-- The entries of a directory that are noticed are known from what stands where. -/
theorem filter_children_eq
    (hsame : ∀ n e, isNoticed (n, e) = true →
      (d'.entryAt (n :: home) = some e ↔ d.entryAt (n :: home) = some e)) :
    (d'.children home).filter isNoticed = (d.children home).filter isNoticed := by
  have hsorted : ∀ d : Disk, ((d.children home).filter isNoticed).Pairwise fun x y => x.1 < y.1 :=
    fun d => (List.pairwise_map.1 (d.pairwise_children home)).filter _
  have hirrefl : Std.Irrefl fun x y : Name × Entry => x.1 < y.1 := ⟨fun x => Name.lt_irrefl x.1⟩
  have hantisymm : Std.Antisymm fun x y : Name × Entry => x.1 < y.1 :=
    ⟨fun x y h h' => absurd (Name.lt_trans h h') (Name.lt_irrefl x.1)⟩
  refine (hsorted d').eq_of_mem_iff (hsorted d) fun ⟨n, e⟩ => ?_
  rw [List.mem_filter, List.mem_filter, Disk.mem_children, Disk.mem_children]
  exact and_congr_left (hsame n e)

/-- Without links, loading comes to the same where the noticed entries are the same. -/
theorem loadRules_eq (hlinks : d.NoLinks) (hlinks' : d'.NoLinks)
    (hfind : d.find dir = .ok (home, .directory)) (hfind' : d'.find dir = .ok (home, .directory))
    (hsame : ∀ n e, isNoticed (n, e) = true →
      (d'.entryAt (n :: home) = some e ↔ d.entryAt (n :: home) = some e)) :
    loadRules d' dir = loadRules d dir := by
  have hchildren : ∀ d : Disk, d.NoLinks →
      ∀ entry ∈ d.children home, ∀ target, entry.2 ≠ .link target := by
    rintro d hlinks ⟨n, e⟩ hmem target rfl
    exact hlinks _ _ (Disk.mem_children.1 hmem)
  rw [loadRules, loadRules, hfind, hfind']
  dsimp only
  rw [gatherRules_eq_filter d' d (hchildren d' hlinks'), filter_children_eq hsame,
    gatherRules_eq_filter d d (hchildren d hlinks)]

end Rulebook
