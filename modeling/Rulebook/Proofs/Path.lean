/-
Rulebook/Proofs/Path.lean

Paths that are joined to a root.  Below a root, a path goes on with segments of its own
(`below`), and its anatomy is that of the root with these segments after it, up to one
empty segment that a slash at the end of the root leaves (`anatomy_below`).  So the
names on the way, the parents and the place a path stands for can all be read off the
root and the segments, however the root is spelled.

The parent of a path directly below a root is the root without the idle segments at its
end (`settled`); it says the same as the root, though it need not be the same text.
-/
import Mathlib.Data.List.DropRight
import Rulebook.Disk.Walk

namespace Rulebook

open Text

/-! ### Pieces -/

namespace Text

/-- A text with a separator in it has the pieces of what is before and of what is after. -/
theorem split_append_cons (sep : Char) (l r : List Char) :
    split sep (l ++ sep :: r) = split sep l ++ split sep r := by
  induction l with
  | nil => simp [split]
  | cons c l ih =>
    rw [List.cons_append, split, split, ih]
    by_cases hc : c = sep
    · simp [hc]
    · rcases hs : split sep l with - | ⟨piece, pieces⟩
      · exact absurd hs (split_ne_nil sep l)
      · simp [hc]

/-- The last piece is empty after a separator at the end. -/
theorem getLast?_split_eq_nil_iff {sep : Char} {cs : List Char} :
    (split sep cs).getLast? = some [] ↔ cs = [] ∨ cs.getLast? = some sep := by
  rcases List.eq_nil_or_concat' cs with rfl | ⟨l, c, rfl⟩
  · simp [split]
  · by_cases hc : c = sep
    · subst hc
      have hs : split c (l ++ [c]) = split c l ++ [[]] := by
        simpa [split] using split_append_cons c l []
      simp [hs]
    · have hlast : ∀ l : List Char, (split sep (l ++ [c])).getLast? ≠ some [] := by
        intro l
        induction l with
        | nil => simp [split, hc]
        | cons x l ih =>
          rw [List.cons_append, split]
          rcases hs : split sep (l ++ [c]) with - | ⟨piece, _ | ⟨next, pieces⟩⟩
          · exact absurd hs (split_ne_nil _ _)
          · by_cases hx : x = sep
            · simpa [hs, hx] using ih
            · simp [hx]
          · rw [hs] at ih
            by_cases hx : x = sep <;> simpa [hx] using ih
      simp [hlast l, hc]

theorem mem_of_mem_split {sep c : Char} {cs l : List Char} (hl : l ∈ split sep cs) (hc : c ∈ l) :
    c ∈ cs := by
  induction cs generalizing l with
  | nil =>
    obtain rfl : l = [] := by simpa [split] using hl
    exact hc
  | cons x cs ih =>
    rw [split] at hl
    rcases hs : split sep cs with - | ⟨piece, pieces⟩
    · exact absurd hs (split_ne_nil _ _)
    · rw [hs] at hl ih
      split at hl
      · rcases List.mem_cons.1 hl with rfl | hl
        · simp at hc
        · exact List.mem_cons_of_mem _ (ih hl hc)
      · rcases List.mem_cons.1 hl with rfl | hl
        · rcases List.mem_cons.1 hc with rfl | hc
          · simp
          · exact List.mem_cons_of_mem _ (ih (by simp) hc)
        · exact List.mem_cons_of_mem _ (ih (by simp [hl]) hc)

/-- What is joined holds the separator and what is in the pieces. -/
theorem mem_intercalate {sep c : Char} {ls : List (List Char)}
    (h : c ∈ [sep].intercalate ls) : c = sep ∨ ∃ l ∈ ls, c ∈ l := by
  induction ls with
  | nil => simp at h
  | cons l ls ih =>
    rcases ls with - | ⟨next, ls⟩
    · exact .inr ⟨l, by simp, by simpa using h⟩
    · rw [List.intercalate_cons_cons, List.append_assoc, List.mem_append] at h
      rcases h with h | h
      · exact .inr ⟨l, by simp, h⟩
      · rcases List.mem_cons.1 h with rfl | h
        · exact .inl rfl
        · rcases ih h with rfl | ⟨k, hk, hc⟩
          · exact .inl rfl
          · exact .inr ⟨k, List.mem_cons_of_mem _ hk, hc⟩

end Text

namespace Path

/-! ### Plain segments -/

/-- Whether a segment says something: it is no empty one and no dot, and is one segment. -/
structure Segment.IsPlain (s : Segment) : Prop where
  slash : '/' ∉ s
  idle : s.isIdle = false

theorem Segment.IsPlain.ne_nil {s : Segment} (h : s.IsPlain) : s ≠ [] := by
  intro hs
  have := h.idle
  simp [hs, isIdle] at this

theorem Segment.IsPlain.ne_dot {s : Segment} (h : s.IsPlain) : s ≠ ['.'] := by
  intro hs
  have := h.idle
  simp [hs, isIdle] at this

/-- The start of a path and its segments, from its pieces. -/
def anatomyOf : List Segment → Start × List Segment
  | first :: rest =>
    if first = [] ∧ rest ≠ [] then (.root, rest)
    else if first = ['.'] then (.here, rest)
    else (.bare, first :: rest)
  | [] => (.bare, [])

theorem anatomy_eq (p : Path) : p.anatomy = anatomyOf (split '/' p.chars) := rfl

/-- Segments without the empty one that a slash at the end leaves. -/
def trunkOf (ss : List Segment) : List Segment := if ss.getLast? = some [] then ss.dropLast else ss

/-- The segments of a path that another one joined to it comes after. -/
def trunk (p : Path) : List Segment := trunkOf p.anatomy.2

/-- The path that goes on from a root with some segments. -/
def below (root : Path) (trail : List Segment) : Path := root / assemble .bare trail

/-! ### Joined paths -/

variable {trail : List Segment}

theorem div_ne_nil (p : Path) {q : Path} (hq : q.chars ≠ []) : (p / q).chars ≠ [] := by
  rw [div_def, join]
  split
  · exact hq
  · split <;> simp [hq]

theorem split_assemble_bare (hne : trail ≠ []) (h : ∀ s ∈ trail, s.IsPlain) :
    split '/' (assemble .bare trail).chars = trail :=
  split_intercalate hne fun s hs => (h s hs).slash

theorem isAbsolute_assemble_bare (hne : trail ≠ []) (h : ∀ s ∈ trail, s.IsPlain) :
    (assemble .bare trail).isAbsolute = false := by
  rcases trail with - | ⟨s, rest⟩
  · exact absurd rfl hne
  · have hs := h s (by simp)
    rcases s with - | ⟨c, s⟩
    · exact absurd rfl hs.ne_nil
    · have hc : c ≠ '/' := fun hc => hs.slash (by simp [hc])
      rcases rest with - | ⟨next, rest⟩ <;> simpa [isAbsolute, assemble] using hc

/-- The pieces of a joined path are those of the root, without the empty one at its end,
and the segments joined to it. -/
theorem split_below (root : Path) (hne : trail ≠ []) (h : ∀ s ∈ trail, s.IsPlain) :
    split '/' (root.below trail).chars = trunkOf (split '/' root.chars) ++ trail := by
  have htrail := split_assemble_bare hne h
  have hrel := isAbsolute_assemble_bare hne h
  have hlast := @getLast?_split_eq_nil_iff '/' root.chars
  -- with a slash at its end, or empty, the root has an empty last piece, which goes
  rw [below, div_def, join, if_neg (by simp [hrel]), trunkOf]
  by_cases hroot : root.chars = []
  · rw [if_pos (.inl hroot), if_pos (hlast.2 (.inl hroot))]
    simpa [hroot, split] using htrail
  · by_cases hslash : root.chars.getLast? = some '/'
    · obtain ⟨cs, hcs⟩ := List.getLast?_eq_some_iff.1 hslash
      rw [if_pos (.inr hslash), if_pos (hlast.2 (.inr hslash))]
      have hpieces : split '/' root.chars = split '/' cs ++ [[]] := by
        rw [hcs, split_append_cons]
        rfl
      show split '/' (root.chars ++ _) = _
      rw [hpieces, hcs, List.append_assoc, List.singleton_append, split_append_cons, htrail,
        List.dropLast_concat]
    · have hno : ¬ (root.chars = [] ∨ root.chars.getLast? = some '/') := by simp [hroot, hslash]
      rw [if_neg hno, if_neg (fun hl => hno (hlast.1 hl)), split_append_cons, htrail]

/-- A joined path starts where the root starts, and has the segments of the root and
those joined to it. -/
theorem anatomy_below (root : Path) (hne : trail ≠ []) (h : ∀ s ∈ trail, s.IsPlain) :
    (root.below trail).anatomy = (root.anatomy.1, root.trunk ++ trail) := by
  rw [anatomy_eq, split_below root hne h, trunk, anatomy_eq]
  obtain ⟨s, rest, rfl⟩ := List.exists_cons_of_ne_nil hne
  have hs := h s (by simp)
  -- the first piece decides where the path starts; it is the root's, unless the root is empty
  rcases hp : split '/' root.chars with - | ⟨first, _ | ⟨next, pieces⟩⟩
  · exact absurd hp (split_ne_nil _ _)
  · by_cases hf : first = []
    · simp [hf, trunkOf, anatomyOf, hs.ne_nil, hs.ne_dot]
    · by_cases hd : first = ['.'] <;> simp [hf, hd, trunkOf, anatomyOf]
  · have htrunk : trunkOf (first :: next :: pieces) = first :: trunkOf (next :: pieces) := by
      simp only [trunkOf, List.getLast?_cons_cons, List.dropLast_cons_cons]
      split <;> rfl
    rw [htrunk]
    by_cases hf : first = []
    · simp [hf, anatomyOf]
    · by_cases hd : first = ['.'] <;> simp [hf, hd, anatomyOf, htrunk]

/-- A path is known from its anatomy. -/
theorem eq_of_anatomy_eq {p q : Path} (h : p.anatomy = q.anatomy) : p = q := by
  rw [← assemble_anatomy p, h, assemble_anatomy]

theorem trunk_below (root : Path) (hne : trail ≠ []) (h : ∀ s ∈ trail, s.IsPlain) :
    (root.below trail).trunk = root.trunk ++ trail := by
  have hlast : (root.trunk ++ trail).getLast? ≠ some [] := by
    rw [List.getLast?_append_of_ne_nil _ hne]
    intro hl
    exact (h [] (List.mem_of_getLast? hl)).ne_nil rfl
  rw [trunk, anatomy_below root hne h, trunkOf, if_neg hlast]

/-- Going on twice is going on once. -/
theorem below_below (root : Path) {more : List Segment} (hne : trail ≠ []) (hne' : more ≠ [])
    (h : ∀ s ∈ trail, s.IsPlain) (h' : ∀ s ∈ more, s.IsPlain) :
    (root.below trail).below more = root.below (trail ++ more) := by
  have happ : ∀ s ∈ trail ++ more, s.IsPlain := by
    intro s hs
    exact (List.mem_append.1 hs).elim (h s) (h' s)
  apply eq_of_anatomy_eq
  rw [anatomy_below _ hne' h', anatomy_below _ hne h, trunk_below _ hne h,
    anatomy_below _ (by simp [hne]) happ, List.append_assoc]

/-! ### Paths that say the same -/

theorem agrees_iff {p q : Path} :
    p.agrees q = true ↔ p.anatomy.1 = q.anatomy.1 ∧
      p.anatomy.2.filter (!·.isIdle) = q.anatomy.2.filter (!·.isIdle) := by
  simp [agrees]

theorem filter_isIdle_eq_self (h : ∀ s ∈ trail, s.IsPlain) :
    trail.filter (!·.isIdle) = trail := by
  rw [List.filter_eq_self]
  intro s hs
  simp [(h s hs).idle]

theorem filter_isIdle_trunkOf (ss : List Segment) :
    (trunkOf ss).filter (!·.isIdle) = ss.filter (!·.isIdle) := by
  rw [trunkOf]
  split
  · next hl =>
    obtain ⟨init, hinit⟩ := List.getLast?_eq_some_iff.1 hl
    simp [hinit, Segment.isIdle]
  · rfl

/-- Below one root, paths say the same only if they go on with the same segments. -/
theorem agrees_below_iff {root : Path} {other : List Segment} (hne : trail ≠ []) (hne' : other ≠ [])
    (h : ∀ s ∈ trail, s.IsPlain) (h' : ∀ s ∈ other, s.IsPlain) :
    (root.below trail).agrees (root.below other) = true ↔ trail = other := by
  rw [agrees_iff, anatomy_below root hne h, anatomy_below root hne' h']
  simp [filter_isIdle_eq_self h, filter_isIdle_eq_self h']

/-! ### Parents -/

/-- The root without the idle segments at its end: the parent of what lies directly in it. -/
def settled (root : Path) : Path :=
  assemble root.anatomy.1 (dropIdle root.trunk.reverse).reverse

/-- The root itself, or the path that goes on from it. -/
def under (root : Path) (trail : List Segment) : Path :=
  if trail = [] then root.settled else root.below trail

/-- The parent of a path below a root is the path with one segment less. -/
theorem parent?_below (root : Path) {last : Segment} (h : ∀ s ∈ trail, s.IsPlain)
    (hlast : last.IsPlain) : (root.below (trail ++ [last])).parent? = some (root.under trail) := by
  have happ : ∀ s ∈ trail ++ [last], s.IsPlain := by
    intro s hs
    rcases List.mem_append.1 hs with hs | hs
    · exact h s hs
    · rw [List.mem_singleton.1 hs]
      exact hlast
  have hanat := anatomy_below root (by simp) happ
  have hlast? : (root.below (trail ++ [last])).last? = some (root.trunk ++ trail, last) := by
    rw [last?, hanat, ← List.append_assoc]
    simp [dropIdle, hlast.idle]
  rw [parent?, hlast?, hanat]
  dsimp only
  rw [under]
  by_cases hne : trail = []
  · rw [if_pos hne, settled, hne, List.append_nil]
  · -- the last segment before is not idle, so that nothing more is dropped
    obtain ⟨init, next, rfl⟩ := (List.eq_nil_or_concat' trail).resolve_left hne
    have hnext : next.IsPlain := h next (by simp)
    rw [if_neg hne, ← assemble_anatomy (root.below _), anatomy_below root hne h]
    simp [dropIdle, hnext.idle]

theorem mem_split_of_mem_trunk {root : Path} {s : Segment} (h : s ∈ root.trunk) :
    s ∈ split '/' root.chars := by
  have hbody : s ∈ root.anatomy.2 := by
    rw [trunk, trunkOf] at h
    split at h
    · exact List.dropLast_subset _ h
    · exact h
  rw [anatomy_eq] at hbody
  rcases hp : split '/' root.chars with - | ⟨first, rest⟩
  · exact absurd hp (split_ne_nil _ _)
  · rw [hp, anatomyOf] at hbody
    split at hbody
    · exact List.mem_cons_of_mem _ hbody
    · split at hbody
      · exact List.mem_cons_of_mem _ hbody
      · exact hbody

/-- An assembled path says what it was assembled from. -/
theorem anatomy_assemble {start : Start} {body : List Segment} (h : ∀ s ∈ body, '/' ∉ s)
    (hbare : start = .bare → ∃ first rest, body = first :: rest ∧ first.IsPlain) :
    (assemble start body).anatomy.1 = start ∧
      (assemble start body).anatomy.2.filter (!·.isIdle) = body.filter (!·.isIdle) := by
  rw [anatomy_eq]
  cases start with
  | root =>
    -- an empty piece comes first
    have hpieces : split '/' (assemble .root body).chars =
        [] :: split '/' (['/'].intercalate body) := split_append_cons '/' [] _
    rw [hpieces]
    by_cases hb : body = []
    · simp [hb, split, anatomyOf, Segment.isIdle]
    · rw [split_intercalate hb h]
      simp [anatomyOf, hb]
  | here =>
    have hpieces : split '/' (assemble .here body).chars = ['.'] :: body := by
      refine split_intercalate (by simp) fun s hs => ?_
      rcases List.mem_cons.1 hs with rfl | hs
      · simp
      · exact h s hs
    simp [hpieces, anatomyOf]
  | bare =>
    obtain ⟨first, rest, rfl, hfirst⟩ := hbare rfl
    have hpieces : split '/' (assemble .bare (first :: rest)).chars = first :: rest :=
      split_intercalate (by simp) h
    simp [hpieces, anatomyOf, hfirst.ne_nil, hfirst.ne_dot]

theorem filter_rdropWhile_isIdle (ss : List Segment) :
    (ss.rdropWhile Segment.isIdle).filter (!·.isIdle) = ss.filter (!·.isIdle) := by
  induction ss using List.reverseRecOn with
  | nil => rfl
  | append_singleton ss s ih =>
    rw [List.rdropWhile_concat]
    by_cases hs : s.isIdle = true
    · simp [hs, ih]
    · simp [hs]

/-- A path that starts with a segment has a plain one first, unless it is empty. -/
theorem exists_plain_of_bare {root : Path} (hne : root.chars ≠ []) (h : root.anatomy.1 = .bare) :
    ∃ first rest, root.anatomy.2 = first :: rest ∧ first.IsPlain := by
  rw [anatomy_eq] at h ⊢
  rcases hp : split '/' root.chars with - | ⟨first, rest⟩
  · exact absurd hp (split_ne_nil _ _)
  · rw [hp, anatomyOf] at h
    have hmem : first ∈ split '/' root.chars := by simp [hp]
    have hslash : '/' ∉ first := not_mem_of_mem_split hmem
    by_cases hf : first = []
    · by_cases hr : rest = []
      · have := intercalate_split '/' root.chars
        exact absurd (by simpa [hp, hf, hr] using this.symm) hne
      · simp [hf, hr] at h
    · by_cases hd : first = ['.']
      · simp [hd] at h
      · exact ⟨first, rest, by simp [anatomyOf, hf, hd], hslash, by simp [Segment.isIdle, hf, hd]⟩

/-- The root and the parent of what lies directly in it say the same. -/
theorem agrees_settled {root : Path} (hne : root.chars ≠ []) :
    root.settled.agrees root = true := by
  have hbody : (dropIdle root.trunk.reverse).reverse = root.trunk.rdropWhile Segment.isIdle := rfl
  have hfilter : (root.trunk.rdropWhile Segment.isIdle).filter (!·.isIdle) =
      root.anatomy.2.filter (!·.isIdle) := by
    rw [filter_rdropWhile_isIdle, trunk, filter_isIdle_trunkOf]
  have hslash : ∀ s ∈ root.trunk.rdropWhile Segment.isIdle, '/' ∉ s := by
    intro s hs
    exact not_mem_of_mem_split (mem_split_of_mem_trunk ((List.rdropWhile_prefix _ _).subset hs))
  have hbare : root.anatomy.1 = .bare →
      ∃ first rest, root.trunk.rdropWhile Segment.isIdle = first :: rest ∧ first.IsPlain := by
    intro hstart
    obtain ⟨first, rest, hfirst, hplain⟩ := exists_plain_of_bare hne hstart
    -- what is left after dropping starts as before, and the first segment is left
    have hpre : root.trunk.rdropWhile Segment.isIdle <+: root.anatomy.2 := by
      refine (List.rdropWhile_prefix _ _).trans ?_
      rw [trunk, trunkOf]
      split
      · exact List.dropLast_prefix _
      · exact List.prefix_rfl
    rcases hd : root.trunk.rdropWhile Segment.isIdle with - | ⟨s, ss⟩
    · rw [hd, hfirst] at hfilter
      simp [hplain.idle] at hfilter
    · rw [hd, hfirst] at hpre
      exact ⟨s, ss, rfl, (List.cons_prefix_cons.1 hpre).1 ▸ hplain⟩
  obtain ⟨hstart, hsegments⟩ := anatomy_assemble hslash hbare
  rw [agrees_iff, settled, hbody]
  exact ⟨hstart, hsegments.trans hfilter⟩

/-! ### Characters -/

theorem chars_below_ne_nil (root : Path) (hne : trail ≠ []) (h : ∀ s ∈ trail, s.IsPlain) :
    (root.below trail).chars ≠ [] := by
  intro hnil
  have hp := split_below root hne h
  rw [hnil] at hp
  have hlast : (trunkOf (split '/' root.chars) ++ trail).getLast? = some [] := by simp [← hp, split]
  rw [List.getLast?_append_of_ne_nil _ hne] at hlast
  exact (h [] (List.mem_of_getLast? hlast)).ne_nil rfl

theorem mem_chars_below {root : Path} {c : Char} (h : c ∈ (root.below trail).chars) :
    c = '/' ∨ c ∈ root.chars ∨ ∃ s ∈ trail, c ∈ s := by
  have hbare : c ∈ (assemble .bare trail).chars → c = '/' ∨ ∃ s ∈ trail, c ∈ s := mem_intercalate
  rw [below, div_def, join] at h
  split at h
  · exact (hbare h).imp_right .inr
  · split at h
    · rcases List.mem_append.1 h with h | h
      · exact .inr (.inl h)
      · exact (hbare h).imp_right .inr
    · rcases List.mem_append.1 h with h | h
      · exact .inr (.inl h)
      · rcases List.mem_cons.1 h with rfl | h
        · exact .inl rfl
        · exact (hbare h).imp_right .inr

/-- A path that goes on from a root holds the characters of the root. -/
theorem mem_chars_below_of_mem {root : Path} (hne : trail ≠ []) (h : ∀ s ∈ trail, s.IsPlain)
    {c : Char} (hc : c ∈ root.chars) : c ∈ (root.below trail).chars := by
  rw [below, div_def, join, if_neg (by simp [isAbsolute_assemble_bare hne h])]
  split <;> exact List.mem_append_left _ hc

theorem mem_chars_settled {root : Path} {c : Char} (h : c ∈ root.settled.chars) :
    c = '/' ∨ c = '.' ∨ c ∈ root.chars := by
  have hbody : (∃ s ∈ root.trunk.rdropWhile Segment.isIdle, c ∈ s) → c ∈ root.chars := by
    rintro ⟨s, hs, hc⟩
    exact mem_of_mem_split (mem_split_of_mem_trunk ((List.rdropWhile_prefix _ _).subset hs)) hc
  rw [settled] at h
  cases hstart : root.anatomy.1 with
  | root =>
    rw [hstart] at h
    rcases List.mem_cons.1 h with rfl | h
    · exact .inl rfl
    · exact (mem_intercalate h).imp_right fun h => .inr (hbody h)
  | here =>
    rw [hstart] at h
    rcases mem_intercalate h with rfl | ⟨s, hs, hc⟩
    · exact .inl rfl
    · rcases List.mem_cons.1 hs with rfl | hs
      · exact .inr (.inl (List.mem_singleton.1 hc))
      · exact .inr (.inr (hbody ⟨s, hs, hc⟩))
  | bare =>
    rw [hstart] at h
    exact (mem_intercalate h).imp_right fun h => .inr (hbody h)

theorem chars_settled_ne_nil {root : Path} (hne : root.chars ≠ []) : root.settled.chars ≠ [] := by
  intro hnil
  have hanat : root.settled.anatomy = (.bare, [[]]) := by
    rw [anatomy_eq, hnil]
    rfl
  have hagree := agrees_iff.1 (agrees_settled hne)
  rw [hanat] at hagree
  obtain ⟨first, rest, hfirst, hplain⟩ := exists_plain_of_bare hne hagree.1.symm
  have hnone := hagree.2
  rw [hfirst] at hnone
  simp [Segment.isIdle, hplain.ne_nil, hplain.ne_dot] at hnone

theorem isAbsolute_iff {p : Path} : p.isAbsolute = true ↔ p.anatomy.1 = .root := by
  rw [anatomy_eq]
  rcases hc : p.chars with - | ⟨c, cs⟩
  · simp [isAbsolute, hc, split, anatomyOf]
  · by_cases hslash : c = '/'
    · subst hslash
      simp [isAbsolute, hc, split, anatomyOf, split_ne_nil]
    · rcases hs : split '/' cs with - | ⟨piece, pieces⟩
      · exact absurd hs (split_ne_nil _ _)
      · by_cases hd : c :: piece = ['.'] <;>
          simp [isAbsolute, hc, split, hslash, hs, anatomyOf, hd]

theorem length_le_intercalate {ss : List Segment} (h : ∀ s ∈ ss, s ≠ []) :
    ss.length ≤ (['/'].intercalate ss).length := by
  induction ss with
  | nil => simp
  | cons s ss ih =>
    have hs : 0 < s.length := List.length_pos_iff.2 (h s (by simp))
    have hrest := ih fun t ht => h t (by simp [ht])
    rcases ss with - | ⟨next, ss⟩
    · simpa using Nat.succ_le_of_lt hs
    · rw [List.intercalate_cons_cons, List.length_append, List.length_append]
      simp only [List.length_cons] at hrest ⊢
      omega

/-- A path has a character at least for each segment that it goes on with. -/
theorem length_le_chars_under (root : Path) (h : ∀ s ∈ trail, s.IsPlain) :
    trail.length ≤ (root.under trail).chars.length := by
  have htrail := length_le_intercalate fun s hs => (h s hs).ne_nil
  rw [under]
  split
  · next hnil => simp [hnil]
  · rw [below, div_def, join]
    split
    · exact htrail
    · split <;> simp only [assemble, List.length_append, List.length_cons] <;> omega

/-- The first of a path and its parents is the path. -/
theorem exists_ancestorsUpTo_eq_cons (fuel : Nat) (p : Path) :
    ∃ above, ancestorsUpTo fuel p = p :: above := by
  rcases fuel with - | fuel
  · exact ⟨[], rfl⟩
  · rcases hp : p.parent? with - | q
    · exact ⟨[], by rw [ancestorsUpTo, hp]⟩
    · exact ⟨ancestorsUpTo fuel q, by rw [ancestorsUpTo, hp]⟩

end Path

end Rulebook
