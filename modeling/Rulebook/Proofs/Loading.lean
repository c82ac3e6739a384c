/-
Rulebook/Proofs/Loading.lean

What loading a rules directory comes to, said without going through its entries one by one.
Entries of two kinds count: rule files, which are plain files with names that are text and
end in `.md`, links followed (`IsRuleFile`), and entries at which loading fails
(`Offends`): links that lead nowhere or back to the directory, whatever their names, and
rule files that are not text.

Looking at one entry tells whether it is of either kind (`inspectRule_spec`).  A run over the
entries ends at the first that offends, and else it gives the documents of all rule files;
on its way it warns of every name that is no text (`gathered_gatherRules`).

Main result `loads_iff`: loading fails with the failure of the least name that offends, in
the order of bytes, and gives the rule files in that order if none does.
-/
import Mathlib.Data.List.Sort
import Rulebook.Proofs.Disk.Change
import Rulebook.Proofs.Disk.Leads
import Rulebook.Proofs.RulesDirectory

namespace Rulebook

open Disk (Name)

variable {d : Disk} {dir : Path} {home : Location} {n : Name} {e : Entry} {f : Failure}

/-! ### What an entry of a directory leads to -/

namespace Disk

/-- The way to an entry of a directory goes on from that directory. -/
theorem exists_findIn_eq (hdir : d.find dir = .ok (home, .directory)) (n : Name) :
    ∃ k, d.findIn dir n = walk d .look k [.down n] home >>= Place.found := by
  obtain ⟨-, k, hleads⟩ := find_eq_directory_iff.1 hdir
  have hlook : Purpose.look = .write → [Step.down n] ≠ [] ∧ [Step.down n] ≠ [.slash] := nofun
  exact ⟨k, by rw [findIn, hleads.walk_append hlook]⟩

theorem findIn_of_entryAt (hdir : d.find dir = .ok (home, .directory))
    (he : d.entryAt (n :: home) = some e) (hlink : ∀ target, e ≠ .link target) :
    d.findIn dir n = .ok (n :: home, e) := by
  obtain ⟨k, hfind⟩ := exists_findIn_eq hdir n
  rw [hfind, walk_down, if_neg (by simp), he]
  cases e with
  | directory => simp [Place.found]
  | file bytes => simp [Place.found]
  | link target => exact absurd rfl (hlink target)

theorem findIn_of_entryAt_eq_none (hdir : d.find dir = .ok (home, .directory))
    (hnone : d.entryAt (n :: home) = none) : d.findIn dir n = .error .notFound := by
  obtain ⟨k, hfind⟩ := exists_findIn_eq hdir n
  rw [hfind, walk_down, if_neg (by simp), hnone]
  rfl

end Disk

/-! ### Entries that count -/

/-- Whether an entry of a directory is a rule file with the given bytes: its name is a text
that ends in `.md`, and it is a plain file, links followed. -/
structure IsRuleFile (d : Disk) (dir : Path) (n : Name) (filename : String)
    (bytes : ByteArray) : Prop where
  text : n.text? = some filename
  md : ".md".toList <:+ filename.toList
  found : ∃ loc, d.findIn dir n = .ok (loc, .file bytes)

/-- The failures of loading at single entries of the rules directory `dir`, which is at
`home`. -/
inductive Offends (d : Disk) (dir : Path) (home : Location) (n : Name) : Failure → Prop
  /-- A link that leads nowhere. -/
  | unresolved {target : Path} {fault : Disk.Fault} :
      d.entryAt (n :: home) = some (.link target) → d.findIn dir n = .error fault →
        Offends d dir home n
          { during := [.listRules dir], cause := .entry (n.reportedIn dir) fault }
  /-- A link back to the directory. -/
  | cycle {target : Path} :
      d.entryAt (n :: home) = some (.link target) → d.findIn dir n = .ok (home, .directory) →
        Offends d dir home n
          { during := [.listRules dir], cause := .cycle (n.reportedIn dir) dir }
  /-- A rule file that is not text. -/
  | notText {filename : String} {bytes : ByteArray} :
      IsRuleFile d dir n filename bytes → String.fromUTF8? bytes = none →
        Offends d dir home n (.ofFault (.readDocument (dir / Path.ofString filename)) .notText)

/-- Whatever counts is there. -/
theorem IsRuleFile.exists_entry {filename : String} {bytes : ByteArray}
    (h : IsRuleFile d dir n filename bytes) (hdir : d.find dir = .ok (home, .directory)) :
    ∃ e, d.entryAt (n :: home) = some e := by
  obtain ⟨loc, hfound⟩ := h.found
  rcases he : d.entryAt (n :: home) with - | e
  · rw [Disk.findIn_of_entryAt_eq_none hdir he] at hfound
    cases hfound
  · exact ⟨e, rfl⟩

theorem Offends.exists_entry (h : Offends d dir home n f)
    (hdir : d.find dir = .ok (home, .directory)) : ∃ e, d.entryAt (n :: home) = some e := by
  cases h with
  | unresolved he _ | cycle he _ => exact ⟨_, he⟩
  | notText hfile _ => exact hfile.exists_entry hdir

/-! ### Looking at one entry -/

/-- Every entry is what the way to it ends at, unless that is the directory itself. -/
theorem resolveRule_eq (hdir : d.find dir = .ok (home, .directory))
    (he : d.entryAt (n :: home) = some e) :
    resolveRule d dir home n e =
      match d.findIn dir n with
      | .error fault =>
        .error { during := [.listRules dir], cause := .entry (n.reportedIn dir) fault }
      | .ok (loc, target) =>
        if target = .directory ∧ loc = home then
          .error { during := [.listRules dir], cause := .cycle (n.reportedIn dir) dir }
        else .ok target := by
  cases e with
  | link target => rfl
  | directory | file bytes =>
    rw [Disk.findIn_of_entryAt hdir he nofun]
    simp [resolveRule]

/-- A rule file is read. -/
theorem IsRuleFile.inspectRule_eq {filename : String} {bytes : ByteArray}
    (h : IsRuleFile d dir n filename bytes) (hdir : d.find dir = .ok (home, .directory))
    (he : d.entryAt (n :: home) = some e) :
    inspectRule d dir home n e =
      match String.fromUTF8? bytes with
      | some content => .ok (.document ⟨filename, content⟩)
      | none => .error (.ofFault (.readDocument (dir / Path.ofString filename)) .notText) := by
  obtain ⟨loc, hfind⟩ := h.found
  have hresolve : resolveRule d dir home n e = .ok (.file bytes) := by
    rw [resolveRule_eq hdir he, hfind]
    rfl
  rw [inspectRule, hresolve, ok_bind, h.text]
  dsimp only
  rw [if_pos (List.isSuffixOf_iff_suffix.2 h.md), Disk.Entry.text]
  rcases String.fromUTF8? bytes with - | content <;> rfl

theorem Offends.inspectRule_eq (h : Offends d dir home n f)
    (hdir : d.find dir = .ok (home, .directory)) (he : d.entryAt (n :: home) = some e) :
    inspectRule d dir home n e = .error f := by
  cases h with
  | unresolved _ hfind =>
    rw [inspectRule, resolveRule_eq hdir he, hfind]
    rfl
  | cycle _ hfind =>
    rw [inspectRule, resolveRule_eq hdir he, hfind]
    simp
  | notText hfile hbytes => rw [hfile.inspectRule_eq hdir he, hbytes]

/-- Where the way to an entry fails, or comes back to the directory, the entry is a link. -/
theorem resolveRule_spec (hdir : d.find dir = .ok (home, .directory))
    (he : d.entryAt (n :: home) = some e) :
    match resolveRule d dir home n e with
    | .error f => Offends d dir home n f
    | .ok target => ∃ loc, d.findIn dir n = .ok (loc, target) := by
  cases e with
  | directory | file bytes => exact ⟨_, Disk.findIn_of_entryAt hdir he nofun⟩
  | link target =>
    rw [resolveRule_eq hdir he]
    rcases hfind : d.findIn dir n with fault | ⟨loc, e⟩
    · exact .unresolved he hfind
    · by_cases hcycle : e = .directory ∧ loc = home
      · obtain ⟨rfl, rfl⟩ := hcycle
        simpa using Offends.cycle he hfind
      · dsimp only
        rw [if_neg hcycle]
        exact ⟨loc, rfl⟩

/-- What is found of an entry is so. -/
theorem inspectRule_spec (hdir : d.find dir = .ok (home, .directory))
    (he : d.entryAt (n :: home) = some e) :
    match inspectRule d dir home n e with
    | .error f => Offends d dir home n f
    | .ok (.document doc) => IsRuleFile d dir n doc.filename doc.content.toUTF8
    | .ok .unnamed => n.text? = none
    | .ok .other => n.text? ≠ none := by
  have hspec := resolveRule_spec hdir he
  rcases hresolve : resolveRule d dir home n e with f | target
  · rw [hresolve] at hspec
    rw [inspectRule, hresolve]
    exact hspec
  · rw [hresolve] at hspec
    obtain ⟨loc, hfind⟩ := hspec
    rcases hn : n.text? with - | name
    · rw [inspectRule, hresolve, ok_bind, hn]
      rfl
    · by_cases hrule : ".md".toList <:+ name.toList ∧ ∃ bytes, target = .file bytes
      · obtain ⟨hmd, bytes, rfl⟩ := hrule
        have hfile : IsRuleFile d dir n name bytes := ⟨hn, hmd, loc, hfind⟩
        rw [hfile.inspectRule_eq hdir he]
        rcases hbytes : String.fromUTF8? bytes with - | content
        · exact .notText hfile hbytes
        · rw [Text.fromUTF8?_eq_some_iff.1 hbytes] at hfile
          exact hfile
      · rw [inspectRule, hresolve, ok_bind, hn]
        cases target with
        | directory | link target => exact nofun
        | file bytes =>
          have hmd : ¬ ".md".toList.isSuffixOf name.toList = true := fun h =>
            hrule ⟨List.isSuffixOf_iff_suffix.1 h, bytes, rfl⟩
          dsimp only
          rw [if_neg hmd]
          exact nofun

/-- The document of a finding, if it is one. -/
def Finding.documents : Finding → List Document
  | .document doc => [doc]
  | .unnamed | .other => []

/-- What is told of a finding. -/
def Finding.events : Finding → List Event
  | .unnamed => [.skippedName]
  | .document _ | .other => []

/-- The documents found are the rule files that are text. -/
theorem mem_documents_iff {finding : Finding} (hdir : d.find dir = .ok (home, .directory))
    (he : d.entryAt (n :: home) = some e) (hi : inspectRule d dir home n e = .ok finding)
    (doc : Document) :
    doc ∈ finding.documents ↔ IsRuleFile d dir n doc.filename doc.content.toUTF8 := by
  constructor
  · intro hdoc
    have hspec := inspectRule_spec hdir he
    rw [hi] at hspec
    cases finding with
    | document doc' =>
      obtain rfl : doc = doc' := List.mem_singleton.1 hdoc
      exact hspec
    | unnamed | other => exact absurd hdoc List.not_mem_nil
  · intro hfile
    rw [hfile.inspectRule_eq hdir he, Text.fromUTF8?_eq_some_iff.2 rfl] at hi
    obtain rfl : Finding.document doc = finding := Except.ok.inj hi
    exact List.mem_singleton.2 rfl

/-! ### A run over entries -/

/-- How many entries have names that are no text. -/
def unnamed (entries : List (Name × Entry)) : Nat := entries.countP (·.1.text?.isNone)

theorem events_eq_replicate {finding : Finding} (hdir : d.find dir = .ok (home, .directory))
    (he : d.entryAt (n :: home) = some e) (hi : inspectRule d dir home n e = .ok finding) :
    finding.events = List.replicate (unnamed [(n, e)]) .skippedName := by
  have hspec := inspectRule_spec hdir he
  rw [hi] at hspec
  cases finding with
  | document doc => simp [Finding.events, unnamed, hspec.text]
  | unnamed => simp [Finding.events, unnamed, show n.text? = none from hspec]
  | other => simp [Finding.events, unnamed, show n.text? ≠ none from hspec]

/-- A run tells of an entry, and takes its document, before it goes on. -/
theorem gatherRules_cons {finding : Finding} (rest : List (Name × Entry))
    (hi : inspectRule d dir home n e = .ok finding) :
    gatherRules d dir home ((n, e) :: rest) =
      ⟨finding.events ++ (gatherRules d dir home rest).log,
        (gatherRules d dir home rest).result.map (finding.documents ++ ·)⟩ := by
  rw [gatherRules, hi]
  cases finding with
  | document doc => rfl
  | unnamed | other => simp [Finding.events, Finding.documents, Account.telling]

/-- What a run over entries of a directory comes to.  It warns of each name on its way that is
no text. -/
inductive Gathered (d : Disk) (dir : Path) (home : Location) :
    List (Name × Entry) → Account (List Document) → Prop
  /-- The first entry that offends ends it. -/
  | stopped {before after : List (Name × Entry)} {n : Name} {e : Entry} {f : Failure} :
      (∀ x ∈ before, ∀ f, ¬ Offends d dir home x.1 f) → Offends d dir home n f →
        Gathered d dir home (before ++ (n, e) :: after)
          ⟨List.replicate (unnamed before) .skippedName, .error f⟩
  /-- If no entry offends, it gives the documents of the rule files. -/
  | whole {entries : List (Name × Entry)} {ds : List Document} :
      (∀ x ∈ entries, ∀ f, ¬ Offends d dir home x.1 f) →
      (∀ doc : Document, doc ∈ ds ↔
        ∃ x ∈ entries, IsRuleFile d dir x.1 doc.filename doc.content.toUTF8) →
        Gathered d dir home entries ⟨List.replicate (unnamed entries) .skippedName, .ok ds⟩

/-- An entry that does not offend adds its warning and its document, if it has any. -/
theorem Gathered.cons {rest : List (Name × Entry)} {r : Account (List Document)}
    {finding : Finding} (h : Gathered d dir home rest r)
    (hdir : d.find dir = .ok (home, .directory)) (he : d.entryAt (n :: home) = some e)
    (hi : inspectRule d dir home n e = .ok finding) :
    Gathered d dir home ((n, e) :: rest)
      ⟨finding.events ++ r.log, r.result.map (finding.documents ++ ·)⟩ := by
  have hno : ∀ f, ¬ Offends d dir home n f := by
    intro f hf
    rw [hf.inspectRule_eq hdir he] at hi
    cases hi
  have hlog : ∀ entries, finding.events ++ List.replicate (unnamed entries) .skippedName =
      List.replicate (unnamed ((n, e) :: entries)) .skippedName := by
    intro entries
    have hcount : unnamed ([(n, e)] ++ entries) = unnamed [(n, e)] + unnamed entries :=
      List.countP_append
    rw [events_eq_replicate hdir he hi, List.replicate_append_replicate, ← hcount,
      List.singleton_append]
  cases h with
  | @stopped before after m e' f hbefore hoffends =>
    rw [hlog]
    exact stopped (List.forall_mem_cons.2 ⟨hno, hbefore⟩) hoffends
  | @whole _ ds hentries hds =>
    rw [hlog]
    refine whole (List.forall_mem_cons.2 ⟨hno, hentries⟩) fun doc => ?_
    rw [List.mem_append, mem_documents_iff hdir he hi, hds]
    simp only [List.mem_cons, exists_eq_or_imp]

theorem gathered_gatherRules (hdir : d.find dir = .ok (home, .directory))
    {entries : List (Name × Entry)} (hentries : ∀ x ∈ entries, d.entryAt (x.1 :: home) = some x.2) :
    Gathered d dir home entries (gatherRules d dir home entries) := by
  induction entries with
  | nil => exact .whole (by simp) (by simp)
  | cons entry rest ih =>
    obtain ⟨n, e⟩ := entry
    obtain ⟨he, hrest⟩ := List.forall_mem_cons.1 hentries
    rcases hi : inspectRule d dir home n e with f | finding
    · have hoffends := inspectRule_spec hdir he
      rw [hi] at hoffends
      rw [gatherRules, hi]
      show Gathered d dir home ([] ++ (n, e) :: rest) _
      exact .stopped (by simp) hoffends
    · rw [gatherRules_cons rest hi]
      exact (ih hrest).cons hdir he hi

/-! ### Loading a directory -/

/-- The entries of a directory with names before a given one. -/
def Disk.childrenBefore (d : Disk) (home : Location) (n : Name) : List (Name × Entry) :=
  (d.children home).filter (·.1 < n)

/-- Whether the name of one document comes before that of another, by the bytes of both. -/
def Document.Precedes (x y : Document) : Prop :=
  Text.utf8 x.filename.toList < Text.utf8 y.filename.toList

/-- What loading the rules of a directory comes to. -/
inductive Loads (d : Disk) (dir : Path) : Account (List Document) → Prop
  /-- There is no directory. -/
  | missing : d.hasDir dir = false → Loads d dir ⟨[], .error { cause := .missingInput dir }⟩
  /-- An entry offends, and none with a lesser name does. -/
  | stopped {home : Location} {n : Name} {f : Failure} :
      d.find dir = .ok (home, .directory) → Offends d dir home n f →
      (∀ m g, Offends d dir home m g → ¬ m < n) →
        Loads d dir
          ⟨List.replicate (unnamed (d.childrenBefore home n)) .skippedName, .error f⟩
  /-- No entry offends.  There is a document for each rule file, by the order of names. -/
  | loaded {home : Location} {ds : List Document} :
      d.find dir = .ok (home, .directory) → (∀ n f, ¬ Offends d dir home n f) →
      (∀ doc : Document, doc ∈ ds ↔ ∃ n, IsRuleFile d dir n doc.filename doc.content.toUTF8) →
      ds.Pairwise Document.Precedes →
        Loads d dir
          ⟨List.replicate (unnamed (d.children home)) .skippedName ++
            (if ds = [] then [.noDocuments] else []), .ok ds⟩

theorem Offends.unique {g : Failure} (h : Offends d dir home n f) (h' : Offends d dir home n g)
    (hdir : d.find dir = .ok (home, .directory)) : f = g := by
  obtain ⟨e, he⟩ := h.exists_entry hdir
  exact Except.error.inj ((h.inspectRule_eq hdir he).symm.trans (h'.inspectRule_eq hdir he))

/-- Documents whose names ascend are known from which they are. -/
theorem eq_of_pairwise_precedes {ds ds' : List Document} (h : ds.Pairwise Document.Precedes)
    (h' : ds'.Pairwise Document.Precedes) (hmem : ∀ doc, doc ∈ ds ↔ doc ∈ ds') : ds = ds' := by
  have hirrefl : Std.Irrefl Document.Precedes := ⟨fun x => List.lt_irrefl _⟩
  have hantisymm : Std.Antisymm Document.Precedes :=
    ⟨fun x y hlt hlt' => absurd (List.lt_trans hlt hlt') (List.lt_irrefl _)⟩
  exact h.eq_of_mem_iff h' hmem

/-- Loading comes to one thing only. -/
theorem Loads.unique {r r' : Account (List Document)} (h : Loads d dir r)
    (h' : Loads d dir r') : r = r' := by
  have hhome : ∀ {l l' : Location}, d.find dir = .ok (l, .directory) →
      d.find dir = .ok (l', .directory) → l = l' := by
    intro l l' hl hl'
    simpa using hl.symm.trans hl'
  have hthere : ∀ {l : Location}, d.find dir = .ok (l, .directory) → d.hasDir dir ≠ false := by
    intro l hl
    simp [Disk.hasDir_iff.2 ⟨l, hl⟩]
  cases h with
  | missing hno =>
    cases h' with
    | missing => rfl
    | stopped hdir _ _ | loaded hdir _ _ _ => exact absurd hno (hthere hdir)
  | @stopped home n f hdir hn hleast =>
    cases h' with
    | missing hno => exact absurd hno (hthere hdir)
    | @stopped home' m g hdir' hm hleast' =>
      obtain rfl := hhome hdir hdir'
      obtain rfl : n = m := Classical.byContradiction fun hne =>
        hleast m g hm (Name.lt_of_not_lt (hleast' n f hn) hne)
      rw [hn.unique hm hdir]
    | loaded hdir' hnone _ _ =>
      obtain rfl := hhome hdir hdir'
      exact absurd hn (hnone n f)
  | @loaded home ds hdir hnone hmem hsorted =>
    cases h' with
    | missing hno => exact absurd hno (hthere hdir)
    | stopped hdir' hm _ =>
      obtain rfl := hhome hdir hdir'
      exact absurd hm (hnone _ _)
    | @loaded home' ds' hdir' _ hmem' hsorted' =>
      obtain rfl := hhome hdir hdir'
      obtain rfl : ds = ds' := eq_of_pairwise_precedes hsorted hsorted' fun doc =>
        (hmem doc).trans (hmem' doc).symm
      rfl

/-- Names ascend: whatever stands before an entry, and nothing else, has a lesser name. -/
theorem eq_childrenBefore {before after : List (Name × Entry)}
    (h : d.children home = before ++ (n, e) :: after) : before = d.childrenBefore home n := by
  have hsorted := List.pairwise_map.1 (d.pairwise_children home)
  rw [h] at hsorted
  obtain ⟨-, hrest, hless⟩ := List.pairwise_append.1 hsorted
  have hbefore : ∀ x ∈ before, x.1 < n := fun x hx => hless x hx _ List.mem_cons_self
  have hafter : ∀ x ∈ (n, e) :: after, ¬ x.1 < n :=
    List.forall_mem_cons.2 ⟨Name.lt_irrefl n, fun x hx hlt =>
      Name.lt_irrefl n (Name.lt_trans ((List.pairwise_cons.1 hrest).1 x hx) hlt)⟩
  rw [Disk.childrenBefore, h, List.filter_append, List.filter_eq_self.2 (by simpa using hbefore),
    List.filter_eq_nil_iff.2 (by simpa using hafter), List.append_nil]

/-- Documents come in the order of the entries, which is that of names. -/
theorem pairwise_precedes_of_gatherRules {ds : List Document}
    (h : (gatherRules d dir home (d.children home)).result = .ok ds) :
    ds.Pairwise Document.Precedes := by
  have hnames : ((d.children home).map (·.1.text?)).Pairwise fun s t =>
      ∀ x ∈ s, ∀ y ∈ t, Text.utf8 x.toList < Text.utf8 y.toList := by
    have hsorted := d.pairwise_children home
    rw [List.pairwise_map] at hsorted ⊢
    refine hsorted.imp fun {m n} hlt x hx y hy => ?_
    rw [Name.text?_eq_some_iff.1 hx, Name.text?_eq_some_iff.1 hy]
    exact hlt
  have hdocs := hnames.sublist (gatherRules_names h).1
  rw [List.pairwise_map] at hdocs
  exact hdocs.imp fun hlt => hlt _ rfl _ rfl

/-- A run over all entries of a directory comes to what loading should.  Whatever counts is an
entry, so that nothing is missed by looking at entries alone. -/
theorem Gathered.loads {r : Account (List Document)}
    (h : Gathered d dir home (d.children home) r) (hdir : d.find dir = .ok (home, .directory))
    (hsorted : ∀ ds, r.result = .ok ds → ds.Pairwise Document.Precedes) :
    Loads d dir (warnIfNone r) := by
  have hmem : ∀ {n : Name}, (∃ e, d.entryAt (n :: home) = some e) →
      ∃ x ∈ d.children home, x.1 = n := by
    rintro n ⟨e, he⟩
    exact ⟨(n, e), Disk.mem_children.2 he, rfl⟩
  generalize hentries : d.children home = entries at h hmem
  cases h with
  | @stopped before after n e f hbefore hoffends =>
    rw [eq_childrenBefore hentries] at hbefore ⊢
    refine .stopped hdir hoffends fun m g hm hlt => ?_
    obtain ⟨e', he'⟩ := hm.exists_entry hdir
    exact hbefore (m, e')
      (List.mem_filter.2 ⟨Disk.mem_children.2 he', decide_eq_true hlt⟩) g hm
  | @whole _ ds hnone hds =>
    have hwarn : warnIfNone ⟨List.replicate (unnamed entries) .skippedName, .ok ds⟩ =
        ⟨List.replicate (unnamed entries) .skippedName ++
          (if ds = [] then [.noDocuments] else []), .ok ds⟩ := by
      cases ds <;> simp [warnIfNone]
    rw [hwarn, ← hentries]
    refine .loaded hdir (fun n f h => ?_) (fun doc => ?_) (hsorted ds rfl)
    · obtain ⟨x, hx, rfl⟩ := hmem (h.exists_entry hdir)
      exact hnone x hx f h
    · rw [hds]
      constructor
      · rintro ⟨x, -, hfile⟩
        exact ⟨x.1, hfile⟩
      · rintro ⟨n, hfile⟩
        obtain ⟨x, hx, rfl⟩ := hmem (hfile.exists_entry hdir)
        exact ⟨x, hx, hfile⟩

theorem loads_loadRules (d : Disk) (dir : Path) : Loads d dir (loadRules d dir) := by
  rw [loadRules]
  split
  · next home hdir =>
    have hgathered : Gathered d dir home (d.children home) _ :=
      gathered_gatherRules hdir fun x hx => Disk.mem_children.1 hx
    exact hgathered.loads hdir fun ds => pairwise_precedes_of_gatherRules
  · next hno =>
    refine .missing (Bool.eq_false_iff.2 fun hdir => ?_)
    obtain ⟨home, hfind⟩ := Disk.hasDir_iff.1 hdir
    exact hno home hfind

/-- Loading a rules directory comes to what it should. -/
theorem loads_iff {r : Account (List Document)} : Loads d dir r ↔ loadRules d dir = r := by
  constructor
  · exact (loads_loadRules d dir).unique
  · rintro rfl
    exact loads_loadRules d dir

end Rulebook
