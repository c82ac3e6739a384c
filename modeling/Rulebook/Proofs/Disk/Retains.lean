/-
Rulebook/Proofs/Disk/Retains.lean

What changes leave in place.  A disk `Retains` another when directories and links are as
they were and files are files still, whatever their bytes.  Every change of the kinds
made here, a new entry or new bytes in a file, is retained (`Retains.put`), and what is
retained is found where it was: paths to directories lead there still
(`Retains.find_directory`), and so do paths under which files are written
(`Retains.reach_file`).  A disk `Extends` another when the bytes are as they were, too.

Making directories is said by what it can come to, whether it succeeds or not
(`DirsMade`): each new entry is a directory, one of the paths leads to it, and those before
it led to none.  That is what making a directory with all above it does
(`dirsMade_makeDirsUp`), and where it succeeds, the directory is there
(`hasDir_of_makeDirsUp`).
-/
import Rulebook.Proofs.Disk.Change
import Rulebook.Proofs.Disk.Ends

namespace Rulebook.Disk

variable {d d' d'' : Disk} {why : Purpose} {loc l dir : Location} {n : Name} {p : Path}
variable {ps : List Path} {place : Place} {e : Entry}

/-! ### Paths and where they end -/

theorem reach_eq_ok_iff : d.reach why p = .ok place ↔
    checkPath p = .ok () ∧ Ends d why maxLinks (steps p) (origin p d.here) place := by
  rw [reach, bind_eq_ok_iff, ← walk_eq_ok_iff]
  constructor
  · rintro ⟨⟨⟩, hcheck, hwalk⟩
    exact ⟨hcheck, hwalk⟩
  · rintro ⟨hcheck, hwalk⟩
    exact ⟨(), hcheck, hwalk⟩

theorem find_eq_ok_iff : d.find p = .ok (loc, e) ↔ d.reach .look p = .ok (.taken loc e) := by
  rw [find, bind_eq_ok_iff]
  constructor
  · rintro ⟨⟨loc', e'⟩ | ⟨n, dir⟩, hreach, hfound⟩
    · obtain ⟨rfl, rfl⟩ : loc' = loc ∧ e' = e := by simpa [Place.found] using hfound
      exact hreach
    · simp [Place.found] at hfound
  · exact fun hreach => ⟨_, hreach, rfl⟩

/-- Links are followed, so that a path leads to none. -/
theorem find_ne_link (d : Disk) (p : Path) (loc : Location) (target : Path) :
    d.find p ≠ .ok (loc, .link target) := by
  intro hfind
  exact (reach_eq_ok_iff.1 (find_eq_ok_iff.1 hfind)).2.entry?_ne_link target rfl

/-- What a path leads to stands there. -/
theorem entryAt_of_reach (h : d.reach why p = .ok place) : d.entryAt place.loc = place.entry? :=
  (reach_eq_ok_iff.1 h).2.entryAt (entryAt_origin d p d.entryAt_here)

theorem entryAt_dir_of_reach (h : d.reach why p = .ok place) (hplace : place.loc = n :: dir) :
    d.entryAt dir = some .directory :=
  (reach_eq_ok_iff.1 h).2.entryAt_dir (entryAt_origin d p d.entryAt_here) hplace

/-- What a path can be written to is what it leads to. -/
theorem find_of_reach (h : d.reach why p = .ok (.taken loc e)) : d.find p = .ok (loc, e) := by
  obtain ⟨hcheck, hends⟩ := reach_eq_ok_iff.1 h
  exact find_eq_ok_iff.2 (reach_eq_ok_iff.2 ⟨hcheck, hends.look⟩)

theorem has_iff : d.has p = true ↔ ∃ loc e, d.find p = .ok (loc, e) := by
  rw [has]
  rcases d.find p with fault | ⟨loc, e⟩ <;> simp

/-! ### What is retained -/

/-- Whether directories and links are as they were, and files are files still. -/
structure Retains (d d' : Disk) : Prop where
  here : d'.here = d.here
  directory : ∀ loc, d.entryAt loc = some .directory → d'.entryAt loc = some .directory
  link : ∀ loc target, d.entryAt loc = some (.link target) → d'.entryAt loc = some (.link target)
  file : ∀ loc bytes, d.entryAt loc = some (.file bytes) →
    ∃ bytes', d'.entryAt loc = some (.file bytes')

namespace Retains

theorem refl (d : Disk) : Retains d d where
  here := rfl
  directory _ h := h
  link _ _ h := h
  file _ bytes h := ⟨bytes, h⟩

theorem trans (h : Retains d d') (h' : Retains d' d'') : Retains d d'' where
  here := h'.here.trans h.here
  directory loc hloc := h'.directory loc (h.directory loc hloc)
  link loc target hloc := h'.link loc target (h.link loc target hloc)
  file loc bytes hloc := by
    obtain ⟨bytes', hloc'⟩ := h.file loc bytes hloc
    exact h'.file loc bytes' hloc'

/-- Nothing that was there is gone. -/
theorem ne_none (h : Retains d d') (hloc : d.entryAt loc ≠ none) : d'.entryAt loc ≠ none := by
  rcases hl : d.entryAt loc with - | - | bytes | target
  · exact absurd hl hloc
  · simp [h.directory loc hl]
  · obtain ⟨bytes', hl'⟩ := h.file loc bytes hl
    simp [hl']
  · simp [h.link loc target hl]

/-- An entry is set where nothing was, or new bytes in a file. -/
theorem put (hdir : d.entryAt dir = some .directory)
    (hold : ∀ old, d.entryAt (n :: dir) = some old → ∃ b b', old = .file b ∧ e = .file b') :
    Retains d (d.put n dir e) := by
  have hfree : d.entryAt (n :: dir) ≠ some .directory := by
    intro hd
    obtain ⟨b, -, hb, -⟩ := hold _ hd
    cases hb
  have hput := entryAt_put (e := e) ⟨hdir, hfree⟩
  have hkept : ∀ loc old, d.entryAt loc = some old → (∀ bytes, old ≠ .file bytes) →
      (d.put n dir e).entryAt loc = some old := by
    intro loc old hloc hno
    have hne : loc ≠ n :: dir := by
      rintro rfl
      obtain ⟨b, -, rfl, -⟩ := hold _ hloc
      exact hno b rfl
    rw [hput, if_neg hne, hloc]
  refine ⟨here_put d n dir e, fun loc hloc => hkept loc _ hloc nofun,
    fun loc target hloc => hkept loc _ hloc nofun, fun loc bytes hloc => ?_⟩
  by_cases hne : loc = n :: dir
  · subst hne
    obtain ⟨-, b', -, rfl⟩ := hold _ hloc
    exact ⟨b', by rw [hput, if_pos rfl]⟩
  · exact ⟨bytes, by rw [hput, if_neg hne, hloc]⟩

/-- A path ends where it did, if something stands there. -/
theorem reach (h : Retains d d') (hreach : d.reach why p = .ok place)
    (he : d'.entryAt place.loc = some e) (hne : ∀ target, e ≠ .link target) :
    d'.reach why p = .ok (.taken place.loc e) := by
  obtain ⟨hcheck, hends⟩ := reach_eq_ok_iff.1 hreach
  refine reach_eq_ok_iff.2 ⟨hcheck, ?_⟩
  rw [h.here]
  exact hends.of_keeps (entryAt_origin d p d.entryAt_here) h.directory h.link he hne

theorem reach_file (h : Retains d d') {bytes : ByteArray}
    (hreach : d.reach why p = .ok (.taken loc (.file bytes))) :
    ∃ bytes', d'.reach why p = .ok (.taken loc (.file bytes')) := by
  obtain ⟨bytes', hloc⟩ := h.file loc bytes (entryAt_of_reach hreach)
  exact ⟨bytes', h.reach hreach hloc nofun⟩

theorem find_directory (h : Retains d d') (hfind : d.find p = .ok (loc, .directory)) :
    d'.find p = .ok (loc, .directory) := by
  have hreach := find_eq_ok_iff.1 hfind
  exact find_eq_ok_iff.2 (h.reach hreach (h.directory loc (entryAt_of_reach hreach)) nofun)

theorem hasDir (h : Retains d d') (hdir : d.hasDir p = true) : d'.hasDir p = true := by
  obtain ⟨loc, hfind⟩ := hasDir_iff.1 hdir
  exact hasDir_iff.2 ⟨loc, h.find_directory hfind⟩

theorem has (h : Retains d d') (hhas : d.has p = true) : d'.has p = true := by
  obtain ⟨loc, e, hfind⟩ := has_iff.1 hhas
  rcases e with - | bytes | target
  · exact has_iff.2 ⟨loc, _, h.find_directory hfind⟩
  · obtain ⟨bytes', hreach⟩ := h.reach_file (find_eq_ok_iff.1 hfind)
    exact has_iff.2 ⟨loc, _, find_eq_ok_iff.2 hreach⟩
  · exact absurd hfind (find_ne_link d p loc target)

end Retains

/-- Whether everything that was there is there still, as it was. -/
structure Extends (d d' : Disk) : Prop where
  here : d'.here = d.here
  entryAt : ∀ loc e, d.entryAt loc = some e → d'.entryAt loc = some e

namespace Extends

theorem refl (d : Disk) : Extends d d := ⟨rfl, fun _ _ h => h⟩

theorem trans (h : Extends d d') (h' : Extends d' d'') : Extends d d'' :=
  ⟨h'.here.trans h.here, fun loc e hloc => h'.entryAt loc e (h.entryAt loc e hloc)⟩

theorem retains (h : Extends d d') : Retains d d' where
  here := h.here
  directory loc := h.entryAt loc _
  link loc _ := h.entryAt loc _
  file loc bytes hloc := ⟨bytes, h.entryAt loc _ hloc⟩

/-- Where nothing is, nothing was. -/
theorem eq_none (h : Extends d d') (hloc : d'.entryAt loc = none) : d.entryAt loc = none := by
  refine Option.eq_none_iff_forall_ne_some.2 fun e he => ?_
  cases hloc.symm.trans (h.entryAt loc e he)

/-- A path leads to what it led to. -/
theorem find (h : Extends d d') (hfind : d.find p = .ok (loc, e)) : d'.find p = .ok (loc, e) := by
  have hreach := find_eq_ok_iff.1 hfind
  refine find_eq_ok_iff.2 (h.retains.reach hreach (h.entryAt loc e (entryAt_of_reach hreach)) ?_)
  rintro target rfl
  exact find_ne_link d p loc target hfind

/-- An entry is set where nothing was. -/
theorem put (hdir : d.entryAt dir = some .directory) (hnone : d.entryAt (n :: dir) = none) :
    Extends d (d.put n dir e) := by
  refine ⟨here_put d n dir e, fun loc old hloc => ?_⟩
  rw [entryAt_put ⟨hdir, by simp [hnone]⟩, if_neg, hloc]
  rintro rfl
  cases hnone.symm.trans hloc

end Extends

/-! ### Directories made -/

/-- Whether a directory has been made for the first of some paths, each of which lies in the
next: one of the paths leads there now, and those before it led to no directory. -/
def MadeFor (d : Disk) (ps : List Path) (d' : Disk) (loc : Location) : Prop :=
  ∃ inner p outer, ps = inner ++ p :: outer ∧ (∀ q ∈ inner, d.hasDir q = false) ∧
    d'.find p = .ok (loc, .directory)

namespace MadeFor

theorem cons (h : MadeFor d ps d' loc) (hp : d.hasDir p = false) : MadeFor d (p :: ps) d' loc := by
  obtain ⟨inner, q, outer, rfl, hinner, hfind⟩ := h
  exact ⟨p :: inner, q, outer, rfl, List.forall_mem_cons.2 ⟨hp, hinner⟩, hfind⟩

theorem after (h : MadeFor d ps d' loc) (hretains : Retains d' d'') : MadeFor d ps d'' loc := by
  obtain ⟨inner, q, outer, rfl, hinner, hfind⟩ := h
  exact ⟨inner, q, outer, rfl, hinner, hretains.find_directory hfind⟩

theorem before (h : MadeFor d' ps d'' loc) (hretains : Retains d d') : MadeFor d ps d'' loc := by
  obtain ⟨inner, q, outer, rfl, hinner, hfind⟩ := h
  refine ⟨inner, q, outer, rfl, fun q hq => ?_, hfind⟩
  rw [← Bool.not_eq_true]
  intro hdir
  exact absurd (hinner q hq) (by simp [hretains.hasDir hdir])

end MadeFor

/-- Whether nothing has changed but for new directories, made for the first of the paths. -/
structure DirsMade (d : Disk) (ps : List Path) (d' : Disk) : Prop where
  here : d'.here = d.here
  entryAt : ∀ loc, d'.entryAt loc = d.entryAt loc ∨
    d.entryAt loc = none ∧ d'.entryAt loc = some .directory ∧ MadeFor d ps d' loc

namespace DirsMade

theorem refl (d : Disk) (ps : List Path) : DirsMade d ps d := ⟨rfl, fun _ => .inl rfl⟩

theorem entryAt_of_ne_none (h : DirsMade d ps d') (hloc : d.entryAt loc ≠ none) :
    d'.entryAt loc = d.entryAt loc := by
  rcases h.entryAt loc with hkept | ⟨hnone, -⟩
  · exact hkept
  · exact absurd hnone hloc

theorem toExtends (h : DirsMade d ps d') : Extends d d' :=
  ⟨h.here, fun _ _ hloc => (h.entryAt_of_ne_none (by simp [hloc])).trans hloc⟩

theorem retains (h : DirsMade d ps d') : Retains d d' := h.toExtends.retains

theorem noLinks (h : DirsMade d ps d') (hlinks : d.NoLinks) : d'.NoLinks := by
  intro loc target hloc
  rcases h.entryAt loc with hkept | ⟨-, hdir, -⟩
  · exact hlinks loc target (hkept ▸ hloc)
  · simp [hdir] at hloc

theorem cons (h : DirsMade d ps d') (hp : d.hasDir p = false) : DirsMade d (p :: ps) d' := by
  refine ⟨h.here, fun loc => (h.entryAt loc).imp_right ?_⟩
  rintro ⟨hnone, hdir, hmade⟩
  exact ⟨hnone, hdir, hmade.cons hp⟩

theorem trans (h : DirsMade d ps d') (h' : DirsMade d' ps d'') : DirsMade d ps d'' := by
  refine ⟨h'.here.trans h.here, fun loc => ?_⟩
  rcases h.entryAt loc with hkept | ⟨hnone, hdir, hmade⟩
  · rw [← hkept]
    refine (h'.entryAt loc).imp_right ?_
    rintro ⟨hnone, hdir, hmade⟩
    exact ⟨hnone, hdir, hmade.before h.retains⟩
  · exact .inr ⟨hnone, h'.retains.directory loc hdir, hmade.after h'.retains⟩

end DirsMade

/-! ### Making directories -/

theorem approach_eq_ok {last : Step} (h : d.approach p = .ok (dir, some last)) :
    checkPath p = .ok () ∧ ∃ init, (steps p).filter (· ≠ .slash) = init ++ [last] ∧
      ∃ k, Leads d maxLinks init (origin p d.here) k dir := by
  obtain ⟨⟨⟩, hcheck, h⟩ := bind_eq_ok_iff.1 h
  refine ⟨hcheck, ?_⟩
  obtain ⟨place, hwalk, h⟩ := bind_eq_ok_iff.1 h
  rcases place with ⟨loc, - | bytes | target⟩ | ⟨n, loc⟩
  · obtain ⟨rfl, hlast⟩ : loc = dir ∧ ((steps p).filter (· ≠ .slash)).getLast? = some last := by
      simpa using h
    obtain ⟨init, hinit⟩ := List.getLast?_eq_some_iff.1 hlast
    rw [hinit, List.dropLast_concat] at hwalk
    exact ⟨init, hinit, walk_eq_directory_iff.1 hwalk⟩
  all_goals cases h

/-- A directory that is made is new, and the path leads to it. -/
theorem makeDir_eq_ok (h : d.makeDir p = .ok d') :
    ∃ n dir, d.entryAt dir = some .directory ∧ d.entryAt (n :: dir) = none ∧
      d' = d.put n dir .directory ∧ d'.find p = .ok (n :: dir, .directory) := by
  obtain ⟨⟨n, dir⟩, hvacancy, h⟩ := bind_eq_ok_iff.1 h
  obtain rfl : d.put n dir .directory = d' := by simpa [pure, Except.pure] using h
  obtain ⟨⟨dir', last⟩, happroach, h⟩ := bind_eq_ok_iff.1 hvacancy
  have hdown : last = some (.down n) ∧ dir' = dir ∧ d.entryAt (n :: dir) = none := by
    rcases last with - | - | - | - | m | -
    case some.down =>
      rcases he : d.entryAt (m :: dir') with - | e
      · obtain ⟨rfl, rfl⟩ : m = n ∧ dir' = dir := by simpa [he] using h
        exact ⟨rfl, rfl, he⟩
      · simp [he] at h
    all_goals cases h
  obtain ⟨rfl, rfl, hnone⟩ := hdown
  obtain ⟨hcheck, init, hway, k, hleads⟩ := approach_eq_ok happroach
  have hdir : d.entryAt dir' = some .directory :=
    hleads.entryAt (entryAt_origin d p d.entryAt_here)
  have hretains : Retains d (d.put n dir' .directory) := .put hdir (by simp [hnone])
  have hnew : (d.put n dir' .directory).entryAt (n :: dir') = some .directory := by
    rw [entryAt_put ⟨hdir, by simp [hnone]⟩, if_pos rfl]
  refine ⟨n, dir', hdir, hnone, rfl, find_eq_directory_iff.2 ⟨hcheck, ?_⟩⟩
  -- the way to the new directory leads through the one it is in, and then down
  have hleads' := hleads.mono hretains.directory hretains.link
  have hwalk : walk (d.put n dir' .directory) .look maxLinks (init ++ [.down n])
      (origin p d.here) = .ok (.taken (n :: dir') .directory) := by
    rw [hleads'.walk_append (by simp)]
    exact walk_eq_directory_iff.2 ⟨k, .down hnew .here⟩
  obtain ⟨k', hall⟩ := walk_eq_directory_iff.1 hwalk
  refine ⟨k', ?_⟩
  rw [hretains.here]
  refine hall.of_moves_eq ?_
  rw [← hway]
  exact (moves_filter_slash _).symm

theorem dirsMade_makeDir (h : d.makeDir p = .ok d') (ps : List Path) :
    DirsMade d (p :: ps) d' := by
  obtain ⟨n, dir, hdir, hnone, rfl, hfind⟩ := makeDir_eq_ok h
  have hcan : d.CanPut n dir := ⟨hdir, by simp [hnone]⟩
  have hput := entryAt_put hcan .directory
  refine ⟨here_put d n dir _, fun loc => ?_⟩
  by_cases hloc : loc = n :: dir
  · subst hloc
    exact .inr ⟨hnone, by rw [hput, if_pos rfl], [], p, ps, rfl, by simp, hfind⟩
  · exact .inl (by rw [hput, if_neg hloc])

/-- However the making of directories ends, all that is new are directories on its way. -/
theorem dirsMade_makeDirsUp (d : Disk) (ps : List Path) : DirsMade d ps (d.makeDirsUp ps).1 := by
  induction ps with
  | nil => exact .refl d _
  | cons p above ih =>
    rw [makeDirsUp]
    split
    · exact .refl d _
    · split
      · next d' hmade => exact dirsMade_makeDir hmade above
      · next hmade =>
        have hno : d.hasDir p = false := by
          rw [← Bool.not_eq_true]
          intro hdir
          cases hmade.symm.trans (makeDir_of_hasDir hdir)
        have habove := ih.cons hno
        -- the directory above comes first, and then there is a second try
        rcases hup : d.makeDirsUp above with ⟨d', fault | ⟨⟩⟩
        · rw [hup] at habove
          exact habove
        · rw [hup] at habove
          rcases hmade' : d'.makeDir p with fault | d''
          · simpa [hmade'] using habove
          · simpa [hmade'] using habove.trans (dirsMade_makeDir hmade' above)
      · exact .refl d _

/-- Where directories have been made, the first is there, unless it goes without saying. -/
theorem hasDir_of_makeDirsUp {above : List Path} (h : d.makeDirsUp (p :: above) = (d', .ok ())) :
    p.chars = [] ∨ d'.hasDir p = true := by
  have hmade : ∀ {d d' : Disk}, d.makeDir p = .ok d' → d'.hasDir p = true := by
    intro d d' hd
    obtain ⟨n, dir, -, -, -, hfind⟩ := makeDir_eq_ok hd
    exact hasDir_iff.2 ⟨_, hfind⟩
  have hthere : ∀ {d : Disk} {fault : Fault},
      (d, if d.hasDir p = true then Except.ok () else Except.error fault) = (d', .ok ()) →
        d'.hasDir p = true := by
    intro d fault heq
    obtain ⟨rfl, hok⟩ := Prod.mk.inj heq
    by_contra hno
    simp [hno] at hok
  by_cases hnil : p.chars = []
  · exact .inl hnil
  · right
    rw [makeDirsUp, if_neg hnil] at h
    split at h
    · next d₁ hd =>
      obtain ⟨rfl, -⟩ := Prod.mk.inj h
      exact hmade hd
    · split at h
      · simp at h
      · split at h
        · next d₂ hd =>
          obtain ⟨rfl, -⟩ := Prod.mk.inj h
          exact hmade hd
        · exact hthere h
    · exact hthere h

/-! ### New files -/

/-- A file that is written where nothing was found is a new one, and the path leads to it. -/
theorem writeFile_of_not_has {bytes : ByteArray} (hno : d.has p = false)
    (h : d.writeFile p bytes = .ok d') :
    ∃ n dir, d.entryAt dir = some .directory ∧ d.entryAt (n :: dir) = none ∧
      d' = d.put n dir (.file bytes) ∧ d'.find p = .ok (n :: dir, .file bytes) := by
  obtain ⟨place, hreach, h⟩ := bind_eq_ok_iff.1 h
  rcases place with ⟨loc, e⟩ | ⟨n, dir⟩
  · rw [has, find_of_reach hreach] at hno
    cases hno
  · obtain rfl : d.put n dir (.file bytes) = d' := by simpa [pure, Except.pure] using h
    have hdir : d.entryAt dir = some .directory := entryAt_dir_of_reach hreach rfl
    have hnone : d.entryAt (n :: dir) = none := entryAt_of_reach hreach
    have hnew : (d.put n dir (.file bytes)).entryAt (n :: dir) = some (.file bytes) := by
      rw [entryAt_put ⟨hdir, by simp [hnone]⟩, if_pos rfl]
    have hretains : Retains d (d.put n dir (.file bytes)) := (Extends.put hdir hnone).retains
    exact ⟨n, dir, hdir, hnone, rfl, find_of_reach (hretains.reach hreach hnew nofun)⟩

end Rulebook.Disk
