/-
Rulebook/Disk/Forest/View.lean

A forest is seen through `entry`, which goes down a row of names to what stands at
the end, and through `under`, which goes there for what the directory holds.  The
equations of the view say what a change at the end of a way does to it.  A tidy
forest is the only one with its view (`Tidy.ext`).
-/
import Rulebook.Disk.Forest.Basic

namespace Rulebook.Disk.Forest

/-! ### The view -/

/-- What stands at the end of a row of names, with what it holds.  At the end of no
names that is the directory which the forest is in. -/
def at? : Forest → List Name → Option (Entry × Forest)
  | f, [] => some (.directory, f)
  | f, n :: way =>
    match f.get? n with
    | none => none
    | some (.directory, inside) => inside.at? way
    | some (e, _) => if way = [] then some (e, nil) else none

/-- What the directory at the end of a row of names holds. -/
def under (f : Forest) (way : List Name) : Forest :=
  match f.at? way with
  | some (.directory, inside) => inside
  | _ => nil

@[simp] theorem at?_nil (f : Forest) : f.at? [] = some (.directory, f) := by
  simp [at?]

/-- What stands at the end of a row of names. -/
def entry (f : Forest) (way : List Name) : Option Entry := (f.at? way).map (·.1)

@[simp] theorem entry_nil (f : Forest) : f.entry [] = some .directory := rfl

theorem entry_singleton (f : Forest) (n : Name) : f.entry [n] = (f.get? n).map (·.1) := by
  simp only [entry, at?]
  rcases f.get? n with - | ⟨- | b | t, inside⟩ <;> simp

theorem entry_cons (f : Forest) (n : Name) {way : List Name} (hne : way ≠ []) :
    f.entry (n :: way) =
      match f.get? n with
      | some (.directory, inside) => inside.entry way
      | _ => none := by
  simp only [entry, at?]
  rcases f.get? n with - | ⟨- | b | t, inside⟩ <;> simp [hne]

theorem at?_of_entry {f : Forest} {way : List Name} (h : f.entry way = some .directory) :
    f.at? way = some (.directory, f.under way) := by
  simp only [entry, under] at h ⊢
  rcases hf : f.at? way with - | ⟨- | b | t, inside⟩ <;> simp [hf] at h ⊢

theorem under_of_entry_ne {f : Forest} {way : List Name} (h : f.entry way ≠ some .directory) :
    f.under way = nil := by
  simp only [entry, under] at h ⊢
  rcases hf : f.at? way with - | ⟨- | b | t, inside⟩ <;> simp [hf] at h ⊢

/-- What a name stands for at the end of a way is what the directory there holds. -/
theorem entry_append_singleton (f : Forest) (way : List Name) (n : Name) :
    f.entry (way ++ [n]) = ((f.under way).get? n).map (·.1) := by
  induction way generalizing f with
  | nil => exact entry_singleton f n
  | cons m way ih =>
    rw [List.cons_append, entry_cons f m (by simp)]
    simp only [under, at?]
    rcases f.get? m with - | ⟨- | b | t, inside⟩
    · rfl
    · exact ih inside
    · by_cases h : way = [] <;> simp [h, get?]
    · by_cases h : way = [] <;> simp [h, get?]

/-- What a directory holds that is held by the directory at the end of a way. -/
theorem under_append_singleton (f : Forest) (way : List Name) (n : Name) :
    f.under (way ++ [n]) =
      match (f.under way).get? n with
      | some (.directory, inside) => inside
      | _ => nil := by
  induction way generalizing f with
  | nil =>
    simp only [List.nil_append, under, at?]
    rcases f.get? n with - | ⟨- | b | t, inside⟩ <;> simp
  | cons m way ih =>
    simp only [List.cons_append, under, at?]
    rcases f.get? m with - | ⟨- | b | t, inside⟩
    · rfl
    · exact ih inside
    · by_cases h : way = [] <;> simp [h, get?]
    · by_cases h : way = [] <;> simp [h, get?]

/-- A way that goes on from a directory is a way in what that directory holds. -/
theorem entry_append {f : Forest} {way : List Name} (h : f.entry way = some .directory)
    (more : List Name) : f.entry (way ++ more) = (f.under way).entry more := by
  induction way generalizing f with
  | nil => rfl
  | cons n way ih =>
    rcases hf : f.get? n with - | ⟨- | b | t, inside⟩
    · simp [entry, at?, hf] at h
    · have hi : inside.entry way = some .directory := by simpa [entry, at?, hf] using h
      simpa [entry, at?, under, hf] using ih hi
    · by_cases hw : way = [] <;> simp [entry, at?, hf, hw] at h
    · by_cases hw : way = [] <;> simp [entry, at?, hf, hw] at h

/-! ### Changes at the end of a way -/

/-- A change at the end of a way shows there and further down. -/
theorem entry_modifyAt_append {f : Forest} {way : List Name} (h : f.entry way = some .directory)
    (g : Forest → Forest) (more : List Name) :
    (f.modifyAt g way).entry (way ++ more) = (g (f.under way)).entry more := by
  induction way generalizing f with
  | nil => rfl
  | cons n way ih =>
    rcases hf : f.get? n with - | ⟨- | b | t, inside⟩
    · simp [entry, at?, hf] at h
    · have hi : inside.entry way = some .directory := by simpa [entry, at?, hf] using h
      simpa [entry, at?, under, modifyAt, get?_modify, hf] using ih hi
    · by_cases hw : way = [] <;> simp [entry, at?, hf, hw] at h
    · by_cases hw : way = [] <;> simp [entry, at?, hf, hw] at h

/-- A change at the end of a way shows nowhere else. -/
theorem entry_modifyAt_of_not_prefix {way l : List Name} (h : ¬ way <+: l) (f : Forest)
    (g : Forest → Forest) : (f.modifyAt g way).entry l = f.entry l := by
  induction way generalizing f l with
  | nil => exact absurd List.nil_prefix h
  | cons n way ih =>
    rcases l with - | ⟨m, l⟩
    · rfl
    · simp only [entry, at?, modifyAt, get?_modify]
      rcases hf : f.get? m with - | ⟨- | b | t, inside⟩
      · rfl
      · by_cases hm : m = n
        · subst hm
          have hl : ¬ way <+: l := fun hp => h (List.cons_prefix_cons.2 ⟨rfl, hp⟩)
          simpa [entry] using ih hl inside
        · simp [hm]
      · simp
      · simp

/-- An entry that is set in a directory shows there, and nothing else changes. -/
theorem entry_modifyAt_set {f : Forest} {way : List Name} {n : Name}
    (hway : f.entry way = some .directory) (hn : f.entry (way ++ [n]) ≠ some .directory)
    (e : Entry) (l : List Name) :
    (f.modifyAt (.set n e) way).entry l = if l = way ++ [n] then some e else f.entry l := by
  by_cases hp : way <+: l
  · obtain ⟨more, rfl⟩ := hp
    rw [entry_modifyAt_append hway, entry_append hway]
    rw [entry_append hway] at hn
    rcases more with - | ⟨m, _ | ⟨k, more⟩⟩
    · simp
    · simp only [entry_singleton, get?_set, List.append_cancel_left_eq]
      by_cases hm : m = n <;> simp [hm]
    · have hne : m :: k :: more ≠ [n] := by simp
      simp only [List.append_cancel_left_eq, hne, if_false]
      rw [entry_cons _ m (by simp), entry_cons _ m (by simp), get?_set]
      by_cases hm : m = n
      · subst hm
        rw [entry_singleton] at hn
        rcases hg : (f.under way).get? m with - | ⟨- | b | t, held⟩
        all_goals rcases e with - | b' | t' <;> simp [hg, entry, at?, get?] at hn ⊢
      · simp [hm]
  · have hne : l ≠ way ++ [n] := fun he => hp ⟨[n], he.symm⟩
    rw [if_neg hne, entry_modifyAt_of_not_prefix hp]

theorem Tidy.of_get? {f : Forest} (h : f.Tidy) {n : Name} {e : Entry} {inside : Forest}
    (hn : f.get? n = some (e, inside)) : inside.Tidy := by
  induction f with
  | nil => simp [get?] at hn
  | cons m old held rest _ ih =>
    by_cases hm : m = n
    · simp only [get?, if_pos hm, Option.some.injEq, Prod.mk.injEq] at hn
      exact hn.2 ▸ h.2.2.1
    · exact ih h.2.2.2 (by simpa [get?, hm] using hn)

theorem Tidy.under {f : Forest} (h : f.Tidy) (way : List Name) : (f.under way).Tidy := by
  induction way generalizing f with
  | nil => exact h
  | cons n way ih =>
    simp only [Forest.under, at?]
    rcases hf : f.get? n with - | ⟨- | b | t, inside⟩
    · trivial
    · exact ih (h.of_get? hf)
    · by_cases hw : way = [] <;> simp [hw, Tidy]
    · by_cases hw : way = [] <;> simp [hw, Tidy]

/-- An entry that is erased from a directory is gone with all below it, and nothing else
changes. -/
theorem entry_modifyAt_erase {f : Forest} (hf : f.Tidy) {way : List Name} {n : Name}
    (hway : f.entry way = some .directory) (l : List Name) :
    (f.modifyAt (.erase n) way).entry l = if way ++ [n] <+: l then none else f.entry l := by
  by_cases hp : way <+: l
  · obtain ⟨more, rfl⟩ := hp
    have hu : (f.under way).Tidy := hf.under way
    have hin : way ++ [n] <+: way ++ more ↔ [n] <+: more := List.prefix_append_right_inj way
    simp only [entry_modifyAt_append hway, entry_append hway, hin]
    rcases more with - | ⟨m, more⟩
    · simp
    · by_cases hm : m = n
      · subst hm
        simp [entry, at?, hu.get?_erase]
      · simp [entry, at?, hu.get?_erase, hm, Ne.symm hm]
  · have hne : ¬ way ++ [n] <+: l := fun h => hp ((List.prefix_append _ _).trans h)
    rw [if_neg hne, entry_modifyAt_of_not_prefix hp]

/-! ### The only tidy forest with its view -/

/-- Tidy forests that look alike are the same. -/
theorem Tidy.ext {f g : Forest} (hf : f.Tidy) (hg : g.Tidy)
    (h : ∀ way, f.entry way = g.entry way) : f = g := by
  induction f generalizing g with
  | nil =>
    rcases g with - | ⟨n, e, inside, rest⟩
    · rfl
    · have := h [n]
      simp [entry_singleton, get?] at this
  | cons n e inside rest ih_inside ih_rest =>
    rcases g with - | ⟨m, e', inside', rest'⟩
    · have := h [n]
      simp [entry_singleton, get?] at this
    · obtain ⟨hlt, hnil, hi, hr⟩ := hf
      obtain ⟨hlt', hnil', hi', hr'⟩ := hg
      have hnm : n = m := by
        refine Classical.byContradiction fun hne => ?_
        have hn := h [n]
        have hm := h [m]
        simp only [entry_singleton, get?, if_true, hne, Ne.symm hne, if_false] at hn hm
        have hn' : n ∈ rest'.names := Classical.byContradiction fun hnot => by
          simp [get?_eq_none_iff.2 hnot] at hn
        have hm' : m ∈ rest.names := Classical.byContradiction fun hnot => by
          simp [get?_eq_none_iff.2 hnot] at hm
        exact Name.lt_irrefl n (Name.lt_trans (hlt m hm') (hlt' n hn'))
      subst hnm
      have he : e = e' := by simpa [entry_singleton, get?] using h [n]
      subst he
      have hin : inside = inside' := by
        by_cases he : e = .directory
        · subst he
          exact ih_inside hi hi' fun way => by simpa [entry, at?, get?] using h (n :: way)
        · rw [hnil he, hnil' he]
      have hrest : rest = rest' := by
        refine ih_rest hr hr' fun way => ?_
        rcases way with - | ⟨k, way⟩
        · rfl
        · by_cases hk : n = k
          · subst hk
            have h1 : rest.get? n = none :=
              get?_eq_none_iff.2 fun hmem => Name.lt_irrefl n (hlt n hmem)
            have h2 : rest'.get? n = none :=
              get?_eq_none_iff.2 fun hmem => Name.lt_irrefl n (hlt' n hmem)
            simp [entry, at?, h1, h2]
          · simpa [entry, at?, get?, hk] using h (k :: way)
      rw [hin, hrest]

end Rulebook.Disk.Forest
