/-
Rulebook/Proofs/Extension.lean

The names that documents get with another extension.  `withExtension` cuts the letters
of the old extension from the path and puts the new one after the stem of what is left.
For the name of a document, which ends in `.md`, this gives the stem with `.mdc`, with two
exceptions (`withExtension_md`): `.md` has no extension, and keeps its dot and letters, and
nothing of `..md` is left but `..`, which is no name.

So different documents have different names, but for `.md` and `.md.md`
(`reformatted_inj`).
-/
import Rulebook.Proofs.Path

namespace Rulebook.Path

open Text

/-! ### Paths of one segment -/

variable {name stem ext : Segment}

theorem anatomy_of_isPlain (h : name.IsPlain) : (Path.mk name).anatomy = (.bare, [name]) := by
  have hpieces : split '/' name = [name] := by
    have hone : split '/' (assemble .bare [name]).chars = [name] :=
      split_assemble_bare (by simp) (by simpa using h)
    simpa [assemble] using hone
  rw [anatomy_eq, hpieces]
  simp [anatomyOf, h.ne_nil, h.ne_dot]

theorem last?_of_isPlain (h : name.IsPlain) : (Path.mk name).last? = some ([], name) := by
  rw [last?, anatomy_of_isPlain h]
  simp [dropIdle, h.idle]

theorem name?_of_isPlain (h : name.IsPlain) :
    (Path.mk name).name? = if name = ['.', '.'] then none else some name := by
  rw [name?, last?_of_isPlain h]

theorem withName_of_isPlain (h : name.IsPlain) (new : Segment) :
    (Path.mk name).withName new = ⟨new⟩ := by
  rw [withName, last?_of_isPlain h, anatomy_of_isPlain h]
  simp [assemble]

/-! ### Extensions -/

/-- A name is parted at its last dot, if something is before it. -/
theorem cutExtension?_append (h : '.' ∉ ext) :
    cutExtension? (stem ++ '.' :: ext) = if stem = [] then none else some (stem, ext) := by
  -- seen from the end, the letters before the first dot are those of the extension
  have hext : ((stem ++ '.' :: ext).reverse.takeWhile (· ≠ '.')).reverse = ext := by
    have hall : ∀ c ∈ ext.reverse, decide (c ≠ '.') = true := by
      intro c hc
      refine decide_eq_true fun hdot => h ?_
      rw [← hdot]
      exact List.mem_reverse.1 hc
    rw [List.reverse_append, List.reverse_cons, List.append_assoc,
      List.takeWhile_append_of_pos hall]
    simp
  have hlen : (stem ++ '.' :: ext).length - ext.length - 1 = stem.length := by
    rw [List.length_append, List.length_cons]
    omega
  have hne : ext.length ≠ (stem ++ '.' :: ext).length := by
    rw [List.length_append, List.length_cons]
    omega
  rw [cutExtension?, hext, hlen, List.take_left]
  simp only [hne, false_or]

theorem isPlain_append_dot (hslash : '/' ∉ stem) (hext : '/' ∉ ext) (hne : stem ≠ []) :
    Segment.IsPlain (stem ++ '.' :: ext) := by
  refine ⟨by simp [hslash, hext], ?_⟩
  have hdot : stem ++ '.' :: ext ≠ ['.'] := by
    rcases stem with - | ⟨c, stem⟩
    · exact absurd rfl hne
    · simp
  simp [Segment.isIdle, hdot]

/-! ### Names of documents -/

/-- The name that a document gets whose own is the stem with `.md`. -/
def reformatted (stem : Segment) : Segment :=
  if stem = ['.'] then ['.', '.']
  else (if stem = [] then ['.', 'm', 'd'] else stem) ++ ['.', 'm', 'd', 'c']

/-- What becomes of the name of a document. -/
theorem withExtension_md (hslash : '/' ∉ stem) :
    (Path.mk (stem ++ ['.', 'm', 'd'])).withExtension ['m', 'd', 'c'] = ⟨reformatted stem⟩ := by
  have hmd : Segment.IsPlain (stem ++ ['.', 'm', 'd']) := by
    refine ⟨by simp [hslash], ?_⟩
    rcases stem with - | ⟨c, stem⟩ <;> simp [Segment.isIdle]
  have hname : (Path.mk (stem ++ ['.', 'm', 'd'])).name? = some (stem ++ ['.', 'm', 'd']) := by
    rw [name?_of_isPlain hmd, if_neg]
    intro h
    have := congrArg List.length h
    simp at this
  by_cases hnil : stem = []
  · -- a leading dot parts nothing: the whole name is the stem
    subst hnil
    rfl
  · -- the letters are cut, and the dot before them stays
    have hcut : (Path.mk (stem ++ ['.', 'm', 'd'])).extension? = some ['m', 'd'] := by
      rw [extension?, hname]
      simp [cutExtension?_append, hnil]
    have hdot : Segment.IsPlain (stem ++ ['.']) := isPlain_append_dot hslash (by simp) hnil
    have hchars : (stem ++ ['.', 'm', 'd']).take ((stem ++ ['.', 'm', 'd']).length - 2) =
        stem ++ ['.'] := by
      have : stem ++ ['.', 'm', 'd'] = (stem ++ ['.']) ++ ['m', 'd'] := by simp
      rw [this, List.length_append]
      exact List.take_left
    rw [withExtension, hcut]
    dsimp only
    rw [show (['m', 'd'] : List Char).length = 2 from rfl, hchars, stem?, name?_of_isPlain hdot]
    by_cases hone : stem = ['.']
    · -- what is left is `..`, which has no stem to put the new letters after
      subst hone
      rfl
    · have hne : stem ++ ['.'] ≠ ['.', '.'] := by
        intro h
        exact hone ((List.append_left_inj ['.']).1 (show stem ++ ['.'] = ['.'] ++ ['.'] from h))
      rw [if_neg hne, Option.map_some, cutExtension?_append (by simp), if_neg hnil]
      dsimp only
      rw [withName_of_isPlain hdot, reformatted, if_neg hone, if_neg hnil]

theorem isPlain_reformatted (hslash : '/' ∉ stem) : (reformatted stem).IsPlain := by
  rw [reformatted]
  split
  · exact ⟨by simp, by simp [Segment.isIdle]⟩
  · split
    · exact ⟨by simp, by simp [Segment.isIdle]⟩
    · next hne => exact isPlain_append_dot hslash (by simp) hne

theorem mem_reformatted {c : Char} (h : c ∈ reformatted stem) :
    c ∈ stem ∨ c ∈ ['.', 'm', 'd', 'c'] := by
  rw [reformatted] at h
  split at h
  · right
    have hdots : ['.', '.'] ⊆ ['.', 'm', 'd', 'c'] := by simp
    exact hdots h
  · split at h
    · right
      have hmd : ['.', 'm', 'd'] ++ ['.', 'm', 'd', 'c'] ⊆ ['.', 'm', 'd', 'c'] := by simp
      exact hmd h
    · exact List.mem_append.1 h

/-- Different documents get different names, but for `.md` and `.md.md`. -/
theorem reformatted_inj {stem' : Segment} :
    reformatted stem = reformatted stem' ↔
      stem = stem' ∨ stem = [] ∧ stem' = ['.', 'm', 'd'] ∨ stem = ['.', 'm', 'd'] ∧ stem' = [] := by
  have hlong : ∀ s : Segment, s ++ ['.', 'm', 'd', 'c'] ≠ ['.', '.'] := by
    intro s h
    have := congrArg List.length h
    simp at this
  by_cases h : stem = ['.']
  · by_cases h' : stem' = ['.']
    · simp [h, h']
    · simp [reformatted, h, h', Ne.symm (hlong _), Ne.symm h']
  · by_cases h' : stem' = ['.']
    · simp [reformatted, h, h', hlong]
    · rw [reformatted, reformatted, if_neg h, if_neg h', List.append_left_inj]
      by_cases hnil : stem = []
      · by_cases hnil' : stem' = []
        · simp [hnil, hnil']
        · subst hnil
          rw [if_pos rfl, if_neg hnil']
          constructor
          · exact fun heq => .inr (.inl ⟨rfl, heq.symm⟩)
          · rintro (heq | ⟨-, heq⟩ | ⟨-, heq⟩)
            · exact absurd heq.symm hnil'
            · exact heq.symm
            · exact absurd heq hnil'
      · by_cases hnil' : stem' = []
        · simp [hnil, hnil']
        · simp [hnil, hnil']

end Rulebook.Path
