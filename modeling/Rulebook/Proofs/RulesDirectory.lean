/-
Rulebook/Proofs/RulesDirectory.lean

The names of loaded documents.  A document goes by the name of an entry of the rules
directory, which is text and ends in `.md`, and since no two entries have the same name,
no two documents have (`areNamed_of_loadRules`).  Any name that ends in `.md` can occur,
`.md` itself included.
-/
import Rulebook.Proofs.Disk.Name
import Rulebook.Proofs.Outcome
import Rulebook.RulesDirectory

namespace Rulebook

open Disk (Name)

variable {d : Disk} {dir : Path} {home : Location} {ds : List Document}

/-- What is known of the names of documents that have been loaded together. -/
structure AreNamed (ds : List Document) : Prop where
  /-- They are the text of names. -/
  text : ∀ doc ∈ ds, ∃ n : Name, n.text? = some doc.filename
  /-- They end in `.md`. -/
  md : ∀ doc ∈ ds, ∃ stem, doc.filename.toList = stem ++ ['.', 'm', 'd']
  /-- They are different. -/
  nodup : (ds.map (·.filename)).Nodup

/-- Whether the bytes of a name end in those of `.md`, as the names of rule documents do. -/
def Disk.Name.EndsInMd (n : Name) : Prop := Text.utf8 ".md".toList <:+ n.bytes

theorem inspectRule_eq_document {n : Name} {e : Entry} {doc : Document}
    (h : inspectRule d dir home n e = .ok (.document doc)) :
    n.text? = some doc.filename ∧ ∃ stem, doc.filename.toList = stem ++ ['.', 'm', 'd'] := by
  obtain ⟨target, -, h⟩ := bind_eq_ok_iff.1 h
  -- of all branches only the one for a text file whose name ends in `.md` gives a document
  rcases hn : n.text? with - | name
  · simp [hn, pure, Except.pure] at h
  · cases target with
    | directory => simp [hn, pure, Except.pure] at h
    | file bytes =>
      by_cases hmd : ['.', 'm', 'd'] <:+ name.toList
      · rcases ht : Disk.Entry.text (.file bytes) with fault | content
        · simp [hn, hmd, ht, throw, throwThe, MonadExceptOf.throw] at h
        · obtain rfl : ⟨name, content⟩ = doc := by simpa [hn, hmd, ht, pure, Except.pure] using h
          obtain ⟨stem, hstem⟩ := hmd
          exact ⟨rfl, stem, hstem.symm⟩
      · simp [hn, hmd, pure, Except.pure] at h
    | link target => simp [hn, pure, Except.pure] at h

/-- The documents come from some of the entries, in the order of these. -/
theorem gatherRules_names {entries : List (Name × Entry)}
    (h : (gatherRules d dir home entries).result = .ok ds) :
    (ds.map fun doc => some doc.filename).Sublist (entries.map (·.1.text?)) ∧
      ∀ doc ∈ ds, ∃ stem, doc.filename.toList = stem ++ ['.', 'm', 'd'] := by
  induction entries generalizing ds with
  | nil =>
    obtain rfl : [] = ds := by simpa [gatherRules] using h
    simp
  | cons entry rest ih =>
    obtain ⟨n, e⟩ := entry
    rw [gatherRules] at h
    rcases hi : inspectRule d dir home n e with f | doc | - | -
    · simp [hi, Account.failed] at h
    · rw [hi] at h
      obtain ⟨ds, hds, rfl⟩ := map_eq_ok_iff.1 (show ((gatherRules d dir home rest).result.map _) =
        _ from h)
      obtain ⟨hnames, hmd⟩ := ih hds
      obtain ⟨htext, hdoc⟩ := inspectRule_eq_document hi
      refine ⟨?_, List.forall_mem_cons.2 ⟨hdoc, hmd⟩⟩
      rw [List.map_cons, List.map_cons, htext]
      exact hnames.cons_cons _
    · rw [hi] at h
      obtain ⟨hnames, hmd⟩ := ih h
      exact ⟨hnames.cons _, hmd⟩
    · rw [hi] at h
      obtain ⟨hnames, hmd⟩ := ih h
      exact ⟨hnames.cons _, hmd⟩

/-- A warning changes nothing in what is loaded. -/
theorem result_warnIfNone (r : Account (List Document)) : (warnIfNone r).result = r.result := by
  rw [warnIfNone]
  split <;> rfl

theorem mem_log_gatherRules {entries : List (Name × Entry)} {event : Event}
    (h : event ∈ (gatherRules d dir home entries).log) : event = .skippedName := by
  induction entries with
  | nil => simp [gatherRules] at h
  | cons entry rest ih =>
    obtain ⟨n, e⟩ := entry
    rw [gatherRules] at h
    rcases hi : inspectRule d dir home n e with f | doc | - | - <;> rw [hi] at h
    · simp [Account.failed] at h
    · exact ih h
    · rcases List.mem_cons.1 h with rfl | h
      · rfl
      · exact ih h
    · exact ih h

/-- Loading tells of names passed over, and of a directory without documents. -/
theorem mem_log_loadRules {event : Event} (h : event ∈ (loadRules d dir).log) :
    event = .skippedName ∨ event = .noDocuments := by
  rw [loadRules] at h
  split at h
  · rw [warnIfNone] at h
    split at h
    · rcases List.mem_append.1 h with h | h
      · exact .inl (mem_log_gatherRules h)
      · exact .inr (List.mem_singleton.1 h)
    · exact .inl (mem_log_gatherRules h)
  · simp [Account.failed] at h

/-- No two names of a directory have the same text. -/
theorem pairwise_text?_children (d : Disk) (home : Location) :
    ((d.children home).map (·.1.text?)).Pairwise fun s t => s = none ∨ s ≠ t := by
  have hnames := d.pairwise_children home
  rw [List.pairwise_map] at hnames ⊢
  refine hnames.imp fun {m n} hlt => ?_
  rcases hm : m.1.text? with - | s
  · exact .inl rfl
  · refine .inr fun heq => ?_
    rw [Name.text?_inj hm heq.symm] at hlt
    exact Name.lt_irrefl _ hlt

/-- Loading succeeds for a directory, and comes to what its entries come to. -/
theorem exists_home_of_loadRules (h : (loadRules d dir).result = .ok ds) :
    ∃ home, d.find dir = .ok (home, .directory) ∧
      (gatherRules d dir home (d.children home)).result = .ok ds := by
  rw [loadRules] at h
  split at h
  · next home hfind =>
    rw [result_warnIfNone] at h
    exact ⟨home, hfind, h⟩
  · simp [Account.failed] at h

/-- The documents that are loaded have different names, which end in `.md`. -/
theorem areNamed_of_loadRules (h : (loadRules d dir).result = .ok ds) : AreNamed ds := by
  obtain ⟨home, -, h⟩ := exists_home_of_loadRules h
  obtain ⟨hnames, hmd⟩ := gatherRules_names h
  refine ⟨fun doc hdoc => ?_, hmd, ?_⟩
  · have hmem := hnames.subset (List.mem_map_of_mem hdoc)
    obtain ⟨⟨n, e⟩, -, hn⟩ := List.mem_map.1 hmem
    exact ⟨n, hn⟩
  · have hpairwise := (pairwise_text?_children d home).sublist hnames
    rw [List.pairwise_map] at hpairwise
    rw [List.Nodup, List.pairwise_map]
    exact hpairwise.imp fun hne heq => by simp [heq] at hne

end Rulebook
