/-
Rulebook/Disk/Forest/Basic.lean

What directories hold: entries by name, and in each directory among them entries
again.  In a tidy forest names ascend and only directories hold anything; every
change keeps a forest tidy.
-/
import Rulebook.Disk.Entry
import Rulebook.Disk.Name

namespace Rulebook.Disk

/-- Entries by name, each with what it holds. -/
inductive Forest
  | nil
  | cons (n : Name) (e : Entry) (inside rest : Forest)

namespace Forest

/-! ### Entries -/

/-- The entry of a name, with what it holds. -/
def get? (n : Name) : Forest → Option (Entry × Forest)
  | nil => none
  | cons m e inside rest => if m = n then some (e, inside) else rest.get? n

/-- The names of the entries. -/
def names : Forest → List Name
  | nil => []
  | cons n _ _ rest => n :: rest.names

/-- The entries, without what they hold. -/
def entries : Forest → List (Name × Entry)
  | nil => []
  | cons n e _ rest => (n, e) :: rest.entries

/-- All entries by the names that lead to them, each directly before what it holds. -/
def listing : Forest → List (List Name × Entry)
  | nil => []
  | cons n e inside rest =>
    ([n], e) :: inside.listing.map (fun (way, x) => (n :: way, x)) ++ rest.listing

theorem get?_eq_none_iff {n : Name} {f : Forest} : f.get? n = none ↔ n ∉ f.names := by
  induction f with
  | nil => simp [get?, names]
  | cons m e inside rest _ ih =>
    by_cases h : m = n
    · simp [get?, names, h]
    · simp [get?, names, h, Ne.symm h, ih]

theorem names_eq_map (f : Forest) : f.names = f.entries.map (·.1) := by
  induction f with
  | nil => rfl
  | cons n e inside rest _ ih => simp [names, entries, ih]

/-! ### Changes -/

/-- The forest with an entry set, which holds nothing. -/
def set (n : Name) (e : Entry) : Forest → Forest
  | nil => cons n e nil nil
  | cons m old inside rest =>
    if m = n then cons n e nil rest
    else if m < n then cons m old inside (rest.set n e)
    else cons n e nil (cons m old inside rest)

/-- The forest without an entry and what that holds. -/
def erase (n : Name) : Forest → Forest
  | nil => nil
  | cons m e inside rest => if m = n then rest else cons m e inside (rest.erase n)

/-- The forest with what one directory holds changed. -/
def modify (g : Forest → Forest) (n : Name) : Forest → Forest
  | nil => nil
  | cons m e inside rest =>
    if m = n then cons m e (if e = .directory then g inside else inside) rest
    else cons m e inside (rest.modify g n)

/-- The forest with what one directory under it holds changed. -/
def modifyAt (g : Forest → Forest) : List Name → Forest → Forest
  | [], f => g f
  | n :: way, f => f.modify (modifyAt g way) n

theorem get?_set (n m : Name) (e : Entry) (f : Forest) :
    (f.set n e).get? m = if m = n then some (e, nil) else f.get? m := by
  induction f with
  | nil => simp [set, get?, eq_comm]
  | cons k old inside rest _ ih =>
    by_cases hk : k = n
    · subst hk
      by_cases hm : m = k
      · simp [set, get?, hm]
      · simp [set, get?, hm, Ne.symm hm]
    · by_cases hlt : k < n
      · by_cases hkm : k = m
        · subst hkm
          simp [set, get?, hk, hlt]
        · simp [set, get?, hk, hlt, hkm, ih]
      · by_cases hm : m = n
        · subst hm
          simp [set, get?, hk, hlt]
        · simp [set, get?, hk, hlt, hm, Ne.symm hm]

theorem names_set {n m : Name} {e : Entry} {f : Forest} :
    m ∈ (f.set n e).names ↔ m = n ∨ m ∈ f.names := by
  have h := @get?_eq_none_iff m (f.set n e)
  rw [get?_set] at h
  by_cases hm : m = n
  · simpa [hm] using h
  · rw [if_neg hm, get?_eq_none_iff] at h
    simp [hm, Decidable.not_iff_not.1 h]

theorem get?_modify (g : Forest → Forest) (n m : Name) (f : Forest) :
    (f.modify g n).get? m =
      (f.get? m).map fun x => if m = n ∧ x.1 = .directory then (x.1, g x.2) else x := by
  induction f with
  | nil => rfl
  | cons k e inside rest _ ih =>
    by_cases hk : k = n
    · subst hk
      by_cases hm : k = m
      · subst hm
        by_cases he : e = .directory <;> simp [modify, get?, he]
      · have hid : (fun x : Entry × Forest =>
            if m = k ∧ x.1 = .directory then (x.1, g x.2) else x) = id := by
          funext x
          simp [Ne.symm hm]
        simp [modify, get?, hm, hid]
    · by_cases hm : k = m
      · subst hm
        simp [modify, get?, hk]
      · simp [modify, get?, hk, hm, ih]

theorem names_modify (g : Forest → Forest) (n : Name) (f : Forest) :
    (f.modify g n).names = f.names := by
  induction f with
  | nil => rfl
  | cons k e inside rest _ ih =>
    by_cases hk : k = n
    · simp [modify, names, hk]
    · simp [modify, names, hk, ih]

theorem mem_names_of_mem_names_erase {n m : Name} {f : Forest} (h : m ∈ (f.erase n).names) :
    m ∈ f.names := by
  induction f with
  | nil => exact h
  | cons k e inside rest _ ih =>
    by_cases hk : k = n
    · simp only [erase, if_pos hk] at h
      exact List.mem_cons_of_mem _ h
    · simp only [erase, if_neg hk, names] at h
      rcases List.mem_cons.1 h with rfl | h
      · exact List.mem_cons_self
      · exact List.mem_cons_of_mem _ (ih h)

/-! ### Tidy forests -/

/-- Whether names ascend, here and further down, and only directories hold anything. -/
def Tidy : Forest → Prop
  | nil => True
  | cons n e inside rest =>
    (∀ m ∈ rest.names, n < m) ∧ (e ≠ .directory → inside = nil) ∧ inside.Tidy ∧ rest.Tidy

theorem Tidy.set {f : Forest} (h : f.Tidy) (n : Name) (e : Entry) : (f.set n e).Tidy := by
  induction f with
  | nil => simp [Forest.set, Tidy, names]
  | cons k old inside rest _ ih =>
    obtain ⟨hlt, hnil, hi, hr⟩ := h
    by_cases hk : k = n
    · subst hk
      simpa [Forest.set, Tidy] using ⟨hlt, hr⟩
    · by_cases hkn : k < n
      · simp only [Forest.set, if_neg hk, if_pos hkn]
        refine ⟨fun m hm => ?_, hnil, hi, ih hr⟩
        rcases names_set.1 hm with rfl | hm
        · exact hkn
        · exact hlt m hm
      · simp only [Forest.set, if_neg hk, if_neg hkn]
        have hnk : n < k := Name.lt_of_not_lt hkn hk
        refine ⟨fun m hm => ?_, fun _ => rfl, trivial, hlt, hnil, hi, hr⟩
        rcases List.mem_cons.1 hm with rfl | hm
        · exact hnk
        · exact Name.lt_trans hnk (hlt m hm)

theorem Tidy.erase {f : Forest} (h : f.Tidy) (n : Name) : (f.erase n).Tidy := by
  induction f with
  | nil => trivial
  | cons k e inside rest _ ih =>
    obtain ⟨hlt, hnil, hi, hr⟩ := h
    by_cases hk : k = n
    · simpa [Forest.erase, hk] using hr
    · simp only [Forest.erase, if_neg hk]
      exact ⟨fun m hm => hlt m (mem_names_of_mem_names_erase hm), hnil, hi, ih hr⟩

theorem Tidy.modify {f : Forest} (h : f.Tidy) {g : Forest → Forest}
    (hg : ∀ x : Forest, x.Tidy → (g x).Tidy) (n : Name) : (f.modify g n).Tidy := by
  induction f with
  | nil => trivial
  | cons k e inside rest _ ih =>
    obtain ⟨hlt, hnil, hi, hr⟩ := h
    by_cases hk : k = n
    · simp only [Forest.modify, if_pos hk]
      by_cases he : e = .directory
      · exact ⟨hlt, fun hne => absurd he hne, by simpa [he] using hg _ hi, hr⟩
      · exact ⟨hlt, fun hne => by simpa [he] using hnil hne, by simpa [he] using hi, hr⟩
    · simp only [Forest.modify, if_neg hk]
      exact ⟨by simpa [names_modify] using hlt, hnil, hi, ih hr⟩

theorem Tidy.modifyAt {f : Forest} (h : f.Tidy) {g : Forest → Forest}
    (hg : ∀ x : Forest, x.Tidy → (g x).Tidy) (way : List Name) : (f.modifyAt g way).Tidy := by
  induction way generalizing f with
  | nil => exact hg _ h
  | cons n way ih => exact h.modify (fun x hx => ih hx) n

theorem Tidy.get?_erase {f : Forest} (h : f.Tidy) (n m : Name) :
    (f.erase n).get? m = if m = n then none else f.get? m := by
  induction f with
  | nil => simp [Forest.erase, get?]
  | cons k e inside rest _ ih =>
    obtain ⟨hlt, -, -, hr⟩ := h
    by_cases hk : k = n
    · subst hk
      by_cases hm : m = k
      · subst hm
        have : rest.get? m = none := get?_eq_none_iff.2 fun hmem => Name.lt_irrefl m (hlt m hmem)
        simp [Forest.erase, this]
      · simp [Forest.erase, get?, hm, Ne.symm hm]
    · by_cases hkm : k = m
      · subst hkm
        simp [Forest.erase, get?, hk]
      · simp [Forest.erase, get?, hk, hkm, ih hr]

theorem Tidy.mem_entries {f : Forest} (h : f.Tidy) {n : Name} {e : Entry} :
    (n, e) ∈ f.entries ↔ (f.get? n).map (·.1) = some e := by
  induction f with
  | nil => simp [entries, get?]
  | cons k old inside rest _ ih =>
    obtain ⟨hlt, -, -, hr⟩ := h
    by_cases hk : k = n
    · subst hk
      have hnot : (k, e) ∉ rest.entries := fun hmem =>
        Name.lt_irrefl k (hlt k (by
          rw [names_eq_map]
          exact List.mem_map_of_mem hmem))
      simp [entries, get?, hnot, eq_comm]
    · simp [entries, get?, hk, Ne.symm hk, ih hr]

theorem Tidy.pairwise_names {f : Forest} (h : f.Tidy) : f.names.Pairwise (· < ·) := by
  induction f with
  | nil => exact .nil
  | cons n e inside rest _ ih => exact .cons h.1 (ih h.2.2.2)

end Forest

end Rulebook.Disk
