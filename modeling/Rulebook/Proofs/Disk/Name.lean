/-
Rulebook/Proofs/Disk/Name.lean

Names and the text in them.  Text stands in a name as its bytes in UTF-8, where a
character of ASCII is one byte and no byte of any other character is one of ASCII.  So
a name that is text is known from its text, and the text has no slash and no NUL in it
(`Name.ofChars?_of_text?`, `Name.not_mem_of_text?`).  The other way, text that says
something can be a name unless it takes more than 255 bytes (`ofSegment_eq_down_iff`).
-/
import Rulebook.Disk.Walk
import Rulebook.Proofs.Path

namespace Rulebook

open Text

/-! ### Bytes of a text -/

namespace Text

/-- The bytes of some characters in UTF-8. -/
def utf8 (cs : List Char) : List UInt8 := cs.flatMap String.utf8EncodeChar

theorem toList_toUTF8 (cs : List Char) : (String.ofList cs).toUTF8.data.toList = utf8 cs := by
  rw [String.toUTF8_eq_toByteArray, String.toByteArray_ofList, List.utf8Encode, utf8]
  simp

theorem utf8_append (cs ds : List Char) : utf8 (cs ++ ds) = utf8 cs ++ utf8 ds :=
  List.flatMap_append

theorem utf8_inj {cs ds : List Char} : utf8 cs = utf8 ds ↔ cs = ds := by
  refine ⟨fun h => ?_, fun h => h ▸ rfl⟩
  rw [← toList_toUTF8, ← toList_toUTF8, Array.toList_inj] at h
  exact String.ofList_inj.1 (String.toByteArray_inj.1 (ByteArray.ext h))

/-- A byte of ASCII in the bytes of a character is that character. -/
theorem toNat_eq_of_mem_utf8EncodeChar {c : Char} {b : UInt8} (h : b ∈ String.utf8EncodeChar c)
    (hb : b.toNat < 128) : c.toNat = b.toNat := by
  show c.val.toNat = b.toNat
  rw [String.utf8EncodeChar] at h
  split at h
  · obtain rfl := List.mem_singleton.1 h
    rw [UInt8.toNat_ofNat']
    omega
  · -- all bytes of a longer encoding are 128 or more
    have hlong : ∀ n m base, 0 < m → 128 ≤ base → m + base ≤ 256 →
        b ≠ UInt8.ofNat (n % m + base) := by
      rintro n m base hm hbase hmax rfl
      rw [UInt8.toNat_ofNat'] at hb
      have hmod := Nat.mod_lt n hm
      omega
    refine absurd h ?_
    split
    · simp only [List.mem_cons, List.not_mem_nil, or_false, not_or]
      exact ⟨hlong _ _ _ (by decide) (by decide) (by decide),
        hlong _ _ _ (by decide) (by decide) (by decide)⟩
    · split
      · simp only [List.mem_cons, List.not_mem_nil, or_false, not_or]
        exact ⟨hlong _ _ _ (by decide) (by decide) (by decide),
          hlong _ _ _ (by decide) (by decide) (by decide),
          hlong _ _ _ (by decide) (by decide) (by decide)⟩
      · simp only [List.mem_cons, List.not_mem_nil, or_false, not_or]
        exact ⟨hlong _ _ _ (by decide) (by decide) (by decide),
          hlong _ _ _ (by decide) (by decide) (by decide),
          hlong _ _ _ (by decide) (by decide) (by decide),
          hlong _ _ _ (by decide) (by decide) (by decide)⟩

/-- A character of ASCII is in a text when its byte is in the bytes of the text. -/
theorem mem_utf8_iff {cs : List Char} {c : Char} (hc : c.toNat < 128) :
    UInt8.ofNat c.toNat ∈ utf8 cs ↔ c ∈ cs := by
  have hbyte : (UInt8.ofNat c.toNat).toNat = c.toNat := by
    rw [UInt8.toNat_ofNat']
    omega
  rw [utf8, List.mem_flatMap]
  constructor
  · rintro ⟨d, hd, hmem⟩
    have hdc : d.toNat = c.toNat :=
      (toNat_eq_of_mem_utf8EncodeChar hmem (by omega)).trans hbyte
    obtain rfl : d = c := Char.toNat_inj.1 hdc
    exact hd
  · intro h
    refine ⟨c, h, ?_⟩
    have hval : c.val.toNat ≤ 127 := Nat.le_of_lt_succ hc
    rw [String.utf8EncodeChar, if_pos hval]
    exact List.mem_singleton.2 rfl

theorem length_utf8 (s : String) : (utf8 s.toList).length = s.utf8ByteSize := by
  rw [← toList_toUTF8, String.ofList_toList, String.toUTF8_eq_toByteArray, Array.length_toList]
  rfl

/-- Bytes are a text when they are the bytes of that text. -/
theorem fromUTF8?_eq_some_iff {bytes : ByteArray} {s : String} :
    String.fromUTF8? bytes = some s ↔ bytes = s.toUTF8 := by
  rw [String.fromUTF8?, String.toUTF8_eq_toByteArray]
  constructor
  · intro h
    split at h
    · next hvalid =>
      rw [← Option.some.inj h]
      rfl
    · cases h
  · rintro rfl
    rw [dif_pos s.isValidUTF8]
    rfl

end Text

namespace Disk

/-! ### Names -/

theorem Name.ofChars?_eq (cs : List Char) : Name.ofChars? cs = Name.ofBytes? (utf8 cs) := by
  rw [Name.ofChars?, toList_toUTF8]

/-- The name that a segment stands for is the name that it is the text of. -/
theorem Name.ofChars?_of_down {s : Path.Segment} {n : Name} (h : Step.ofSegment s = .down n) :
    Name.ofChars? s = some n := by
  rw [Step.ofSegment] at h
  split at h
  · cases h
  · split at h
    · cases h
    · rcases hn : Name.ofChars? s with - | m
      · simp [hn] at h
      · simpa [hn] using h

theorem isName_iff {bytes : List UInt8} :
    isName bytes = true ↔ bytes.length ≤ 255 ∧ 0 ∉ bytes ∧ 0x2f ∉ bytes ∧ bytes ≠ [] ∧
      bytes ≠ [0x2e] ∧ bytes ≠ [0x2e, 0x2e] := by
  simp only [isName, Bool.and_eq_true, decide_eq_true_eq, List.all_eq_true]
  constructor
  · rintro ⟨⟨⟨⟨hlen, hall⟩, hnil⟩, hdot⟩, hdots⟩
    exact ⟨hlen, fun h => (hall 0 h).1 rfl, fun h => (hall 0x2f h).2 rfl, hnil, hdot, hdots⟩
  · rintro ⟨hlen, hnul, hslash, hnil, hdot, hdots⟩
    refine ⟨⟨⟨⟨hlen, fun b hb => ⟨?_, ?_⟩⟩, hnil⟩, hdot⟩, hdots⟩
    · rintro rfl
      exact hnul hb
    · rintro rfl
      exact hslash hb

/-- The text of a name has the bytes of the name. -/
theorem Name.text?_eq_some_iff {n : Name} {s : String} : n.text? = some s ↔ utf8 s.toList = n.bytes := by
  have hs : s.toUTF8.data.toList = utf8 s.toList := by rw [← toList_toUTF8, String.ofList_toList]
  rw [Name.text?, fromUTF8?_eq_some_iff, ← hs]
  constructor
  · intro h
    rw [← h]
  · intro h
    exact ByteArray.ext (by simp [← h])

/-- A name that is text is the one name with that text. -/
theorem Name.ofChars?_of_text? {n : Name} {s : String} (h : n.text? = some s) :
    Name.ofChars? s.toList = some n := by
  rw [Name.ofChars?_eq, Name.text?_eq_some_iff.1 h, Name.ofBytes?, dif_pos n.usable]

theorem Name.text?_inj {m n : Name} {s : String} (hm : m.text? = some s) (hn : n.text? = some s) :
    m = n := by
  have hmn := (Name.ofChars?_of_text? hm).symm.trans (Name.ofChars?_of_text? hn)
  exact Option.some.inj hmn

/-- The text of a name is one segment, and says where the name leads. -/
theorem Name.segment_of_text? {n : Name} {s : String} (h : n.text? = some s) :
    Path.Segment.IsPlain s.toList ∧ '\x00' ∉ s.toList ∧ Step.ofSegment s.toList = .down n := by
  have hbytes : utf8 s.toList = n.bytes := Name.text?_eq_some_iff.1 h
  obtain ⟨-, hnul, hslash, hnil, hdot, hdots⟩ := isName_iff.1 n.usable
  rw [← hbytes] at hnul hslash hnil hdot hdots
  have hne : s.toList ≠ [] := fun hs => hnil (by rw [hs]; rfl)
  have hne_dot : s.toList ≠ ['.'] := fun hs => hdot (by rw [hs]; decide)
  have hne_dots : s.toList ≠ ['.', '.'] := fun hs => hdots (by rw [hs]; decide)
  refine ⟨⟨fun hmem => hslash ?_, by simp [Path.Segment.isIdle, hne, hne_dot]⟩,
    fun hmem => hnul ?_, ?_⟩
  · exact (mem_utf8_iff (c := '/') (by decide)).2 hmem
  · exact (mem_utf8_iff (c := '\x00') (by decide)).2 hmem
  · rw [Step.ofSegment, if_neg hne_dot, if_neg hne_dots, Name.ofChars?_of_text? h]

/-- A segment that says something is the text of a name, unless it is `..` or too long. -/
theorem exists_ofSegment_eq_down_iff {s : Path.Segment} (h : s.IsPlain) (hnul : '\x00' ∉ s) :
    (∃ n, Step.ofSegment s = .down n) ↔ s ≠ ['.', '.'] ∧ (utf8 s).length ≤ 255 := by
  have hslash : 0x2f ∉ utf8 s := fun hmem =>
    h.slash ((mem_utf8_iff (c := '/') (by decide)).1 hmem)
  have hnul' : 0 ∉ utf8 s := fun hmem => hnul ((mem_utf8_iff (c := '\x00') (by decide)).1 hmem)
  have hne : ∀ t : Path.Segment, s ≠ t → utf8 s ≠ utf8 t := fun t ht heq => ht (utf8_inj.1 heq)
  by_cases hdots : s = ['.', '.']
  · simp [hdots, Step.ofSegment]
  · -- nothing but its length can keep such a text from being a name
    have hname : isName (utf8 s) = true ↔ (utf8 s).length ≤ 255 := by
      rw [isName_iff]
      exact ⟨fun hall => hall.1, fun hlen => ⟨hlen, hnul', hslash, hne [] h.ne_nil,
        hne ['.'] h.ne_dot, hne ['.', '.'] hdots⟩⟩
    rw [Step.ofSegment, if_neg h.ne_dot, if_neg hdots, Name.ofChars?_eq, Name.ofBytes?, ← hname]
    by_cases hn : isName (utf8 s) = true <;> simp [hn, hdots]

end Disk

end Rulebook
