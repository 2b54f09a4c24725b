import Airspace.Verdict

/-! # Texts cut short

  A cut text is the longest that the text begins with, in whole characters, and that keeps to
  the limit. The search behind it looks at bytes: it goes back from the limit and stops at the
  last boundary of characters. It does not go far, since the character that begins there takes
  at most four bytes and ends behind the limit.
-/

namespace Airspace

namespace Text

variable {s : String} {limit : Nat} {p : s.Pos}

/-! ### The search for a boundary -/

/-- The search ends within the limit, and there is no boundary that it passes. -/
theorem lastBoundary?_eq_some (h : lastBoundary? s limit = some p) :
    p.offset.byteIdx ≤ limit ∧ ∀ q : s.Pos, q.offset.byteIdx ≤ limit → q ≤ p := by
  induction limit with
  | zero =>
    rw [lastBoundary?, dif_pos (isValid_start s)] at h
    obtain rfl := Option.some.inj h
    exact ⟨Nat.le_refl 0, fun q hq => hq⟩
  | succ i ih =>
    rw [lastBoundary?] at h
    split at h
    · obtain rfl := Option.some.inj h
      exact ⟨Nat.le_refl (i + 1), fun q hq => hq⟩
    · next hnone =>
      obtain ⟨hle, hlast⟩ := ih h
      refine ⟨Nat.le_succ_of_le hle, fun q hq => hlast q ?_⟩
      -- a boundary at the byte just looked at would have been found
      have hne : q.offset.byteIdx ≠ i + 1 := by
        intro heq
        apply hnone
        rw [← heq]
        exact String.Pos.Raw.isValid_eq_true_iff.mpr q.isValid
      omega

/-- A text within the limit has its last boundary at its end. -/
theorem eq_endPos_of_fits (h : lastBoundary? s limit = some p) (hfits : s.utf8ByteSize ≤ limit) :
    p = s.endPos :=
  Std.le_antisymm p.le_endPos ((lastBoundary?_eq_some h).2 s.endPos hfits)

/-- From the last boundary to the limit it is less than a character. -/
theorem lt_lastBoundary_add (h : lastBoundary? s limit = some p) (hlong : limit < s.utf8ByteSize) :
    limit < p.offset.byteIdx + 4 := by
  obtain ⟨hle, hlast⟩ := lastBoundary?_eq_some h
  have hend : p ≠ s.endPos := by
    intro heq
    rw [heq, String.offset_endPos, String.byteIdx_rawEndPos] at hle
    omega
  have hnext : limit < (p.next hend).offset.byteIdx := by
    apply Nat.lt_of_not_le
    intro hwithin
    have hback : p.next hend ≤ p := hlast (p.next hend) hwithin
    exact Std.lt_irrefl (String.Pos.next_le_iff_lt.mp hback)
  rw [String.Pos.byteIdx_offset_next] at hnext
  have hsize : (p.get hend).utf8Size ≤ 4 := (p.get hend).utf8Size_le_four
  omega

/-- A text that keeps to the limit is left as it is. -/
theorem cut_of_fits (h : s.utf8ByteSize ≤ limit) : cut limit s = s := if_pos h

/-- What is left of a text ends at its last boundary within the limit, whether the text was too
    long or not. -/
theorem cut_eq (h : lastBoundary? s limit = some p) : cut limit s = (s.sliceTo p).copy := by
  by_cases hfits : s.utf8ByteSize ≤ limit
  · rw [cut_of_fits hfits, eq_endPos_of_fits h hfits]
    simp
  · simp [cut, hfits, h]

/-! ### The longest prefix -/

/-- Of the texts that `s` begins with, character by character, `p` is the longest that takes at
    most `limit` bytes. -/
structure IsLongestPrefix (limit : Nat) (s p : String) : Prop where
  /-- The text begins with it. -/
  begins : p.toList <+: s.toList
  /-- It keeps to the limit. -/
  fits : p.utf8ByteSize ≤ limit
  /-- No other such text goes on behind its end. -/
  longest : ∀ q : String, q.toList <+: s.toList → q.utf8ByteSize ≤ limit → q.toList <+: p.toList

/-- What a text begins with ends at a boundary. -/
theorem exists_pos_of_begins {q : String} (h : q.toList <+: s.toList) :
    ∃ p : s.Pos, (s.sliceTo p).copy = q ∧ p.offset = q.rawEndPos := by
  obtain ⟨rest, hrest⟩ := h
  have hs : s = q ++ String.ofList rest := by
    rw [← String.toList_inj, String.toList_append, String.toList_ofList, hrest]
  have hvalid : q.rawEndPos.IsValid s := by
    rw [String.Pos.Raw.isValid_iff_exists_append]
    exact ⟨q, String.ofList rest, hs, rfl⟩
  exact ⟨⟨_, hvalid⟩, String.Pos.Splits.copy_sliceTo_eq ⟨hs, rfl⟩, rfl⟩

theorem isLongestPrefix_cut (limit : Nat) (s : String) : IsLongestPrefix limit s (cut limit s) := by
  obtain ⟨p, hp⟩ := Option.isSome_iff_exists.mp (isSome_lastBoundary? s limit)
  obtain ⟨hle, hlast⟩ := lastBoundary?_eq_some hp
  rw [cut_eq hp]
  refine ⟨?_, ?_, ?_⟩
  · have hs : (s.sliceTo p).copy.toList ++ (s.sliceFrom p).copy.toList = s.toList := by
      rw [← String.toList_append, String.sliceTo_append_sliceFrom]
    exact ⟨_, hs⟩
  · have hend := p.splits.offset_eq_rawEndPos
    rw [hend] at hle
    exact hle
  · intro q hq hfits
    obtain ⟨p', rfl, hend⟩ := exists_pos_of_begins hq
    have hbefore : p' ≤ p := hlast p' (hend ▸ hfits)
    obtain ⟨more, hmore, -⟩ := (p'.splits.le_iff_exists_eq_append p.splits).mp hbefore
    rw [hmore, String.toList_append]
    exact List.prefix_append _ _

end Text

namespace Verdict

/-- The detail of a denial is the longest beginning of the text, in whole characters, that takes
    at most fifty bytes. Its bytes are the first bytes of the text, and they are well-formed on
    their own. A text that fits is left as it is, of any other more than 46 bytes are left, and a
    detail is not cut again. The search for the place to cut always ends, at the end of the
    detail, and does not pass the start of the text. -/
theorem detail_longest (reason : Reason) (s : String) :
    let d := (deny reason s).detail
    Text.IsLongestPrefix 50 s d ∧
      d.toUTF8 = s.toUTF8.extract 0 d.utf8ByteSize ∧
      (s.toUTF8.extract 0 d.utf8ByteSize).IsValidUTF8 ∧
      (s.utf8ByteSize ≤ 50 → d = s) ∧
      (50 < s.utf8ByteSize → 46 < d.utf8ByteSize) ∧
      (∀ again : Reason, (deny again d).detail = d) ∧
      ∃ p : s.Pos, Text.lastBoundary? s 50 = some p ∧ p.offset = d.rawEndPos := by
  intro d
  have hlongest : Text.IsLongestPrefix 50 s d := Text.isLongestPrefix_cut 50 s
  obtain ⟨p, hp⟩ := Option.isSome_iff_exists.mp (Text.isSome_lastBoundary? s 50)
  have hcut : d = (s.sliceTo p).copy := Text.cut_eq hp
  have hend : p.offset = d.rawEndPos := hcut ▸ p.splits.offset_eq_rawEndPos
  have hbytes : d.toUTF8 = s.toUTF8.extract 0 d.utf8ByteSize := by
    have hleft := p.splits.toByteArray_left_eq
    rw [← hcut, hend] at hleft
    exact hleft
  refine ⟨hlongest, hbytes, hbytes ▸ d.isValidUTF8, Text.cut_of_fits, ?_, ?_, p, hp, hend⟩
  · intro hlong
    have hnear := Text.lt_lastBoundary_add hp hlong
    rw [hend, String.byteIdx_rawEndPos] at hnear
    omega
  · intro again
    exact Text.cut_of_fits hlongest.fits

/-- The last character takes four bytes, one too many, and is left out as a whole. -/
theorem detail_longest_landing :
    let s := "near Zürich and 東京, both closed at night: 🛬"
    50 < s.utf8ByteSize ∧ 46 < (deny .airport s).detail.utf8ByteSize ∧
      (deny .airport s).detail = "near Zürich and 東京, both closed at night: " ∧
      "no position".utf8ByteSize ≤ 50 ∧ (deny .gps "no position").detail = "no position" := by
  intro s
  have hlong : 50 < s.utf8ByteSize := by decide
  have hfits : "no position".utf8ByteSize ≤ 50 := by decide
  obtain ⟨-, -, -, -, hmore, -⟩ := detail_longest .airport s
  obtain ⟨-, -, -, hsame, -⟩ := detail_longest .gps "no position"
  exact ⟨hlong, hmore hlong, by decide, hfits, hsame hfits⟩

end Verdict

end Airspace
