import FrontEnd.Proofs.LineRanges

/-!
# Lines and columns in bytes

In the UTF-8 form of a text lines start behind the bytes that are line feeds, since such a byte is
never part of a longer character. So the lines above an offset are counted by the line feeds among
the bytes in front of it, also if the offset is inside a character or behind the text.
-/

namespace FrontEnd

/-- The bytes of the UTF-8 form of a text. -/
def Text.bytes (text : String) : List UInt8 := text.toUTF8.data.toList

theorem Text.bytes_eq (text : String) : bytes text = text.toList.flatMap String.utf8EncodeChar := by
  rw [bytes, String.toUTF8_eq_toByteArray, ← String.utf8Encode_toList, List.utf8Encode,
    List.toList_data_toByteArray]

namespace LineTable

/-- The line feed as a byte. -/
def lineFeed : UInt8 := 10

/-- The bytes of the lines above an offset, up to the last line feed in front of it. -/
def bytesAbove (text : String) (offset : Nat) : List UInt8 :=
  ((Text.bytes text).take offset).rdropWhile (· ≠ lineFeed)

/-- The offsets just behind each line feed of some bytes that begin at `pos`. -/
def byteStarts (pos : Nat) : List UInt8 → List Nat
  | [] => []
  | b :: bs =>
    if b = lineFeed then (pos + 1) :: byteStarts (pos + 1) bs else byteStarts (pos + 1) bs

theorem byteStarts_append (pos : Nat) (as bs : List UInt8) :
    byteStarts pos (as ++ bs) = byteStarts pos as ++ byteStarts (pos + as.length) bs := by
  induction as generalizing pos with
  | nil => rfl
  | cons a as ih =>
    rw [List.cons_append, byteStarts, byteStarts, ih, List.length_cons, Nat.add_assoc,
      Nat.add_comm 1]
    split <;> rfl

/-- One line starts behind each line feed. -/
theorem length_byteStarts (pos : Nat) (bs : List UInt8) :
    (byteStarts pos bs).length = bs.count lineFeed := by
  induction bs generalizing pos with
  | nil => rfl
  | cons b bs ih =>
    by_cases hb : b = lineFeed
    · rw [byteStarts, if_pos hb, hb, List.length_cons, ih, List.count_cons_self]
    · rw [byteStarts, if_neg hb, ih, List.count_cons_of_ne hb]

/-- No line starts without a line feed. -/
theorem byteStarts_eq_nil {bs : List UInt8} (h : lineFeed ∉ bs) (pos : Nat) :
    byteStarts pos bs = [] := by
  rw [← List.length_eq_zero_iff, length_byteStarts, List.count_eq_zero_of_not_mem h]

/-- All lines but the first start behind the place where the bytes begin. -/
theorem lt_of_mem_byteStarts {pos start : Nat} {bs : List UInt8} (h : start ∈ byteStarts pos bs) :
    pos < start := by
  induction bs generalizing pos with
  | nil => cases h
  | cons b bs ih =>
    unfold byteStarts at h
    split at h
    · rcases List.mem_cons.1 h with rfl | h
      · exact Nat.lt_succ_self pos
      · exact Nat.lt_of_succ_lt (ih h)
    · exact Nat.lt_of_succ_lt (ih h)

/-- The last line starts behind the last line feed. -/
theorem getLastD_byteStarts (pos : Nat) (bs : List UInt8) :
    (byteStarts pos bs).getLastD pos = pos + (bs.rdropWhile (· ≠ lineFeed)).length := by
  induction bs using List.reverseRecOn with
  | nil => rfl
  | append_singleton bs b ih =>
    rw [byteStarts_append, List.rdropWhile_concat]
    by_cases hb : b = lineFeed
    · subst hb
      simp [byteStarts, Nat.add_assoc]
    · simpa [byteStarts, hb] using ih

/-- The lines that start at or before an offset are those of the bytes in front of it. -/
theorem takeWhile_byteStarts (pos offset : Nat) (bs : List UInt8) :
    (byteStarts pos bs).takeWhile (· ≤ offset) = byteStarts pos (bs.take (offset - pos)) := by
  induction bs generalizing pos with
  | nil => rw [List.take_nil]; rfl
  | cons b bs ih =>
    rcases Nat.lt_or_ge pos offset with hlt | hle
    · have hsize : offset - pos = offset - (pos + 1) + 1 := by omega
      rw [hsize, List.take_succ_cons, byteStarts, byteStarts, ← ih]
      split
      · exact List.takeWhile_cons_of_pos (decide_eq_true (Nat.succ_le_of_lt hlt))
      · rfl
    · rw [Nat.sub_eq_zero_of_le hle, List.take_zero]
      refine List.takeWhile_eq_nil_iff.2 fun hsome => ?_
      have hstart := lt_of_mem_byteStarts (List.get_mem (byteStarts pos (b :: bs)) ⟨0, hsome⟩)
      simp only [decide_eq_true_eq]
      omega

/-- The byte of a line feed is part of no other character. -/
theorem eq_of_lineFeed_mem {c : Char} (h : lineFeed ∈ String.utf8EncodeChar c) : c = '\n' := by
  have value {n : Nat} (hn : lineFeed = UInt8.ofNat n) : n % 256 = 10 := by
    simpa [lineFeed] using (congrArg UInt8.toNat hn).symm
  unfold String.utf8EncodeChar at h
  dsimp only at h
  split at h
  · rename_i hsmall
    have hvalue := value (List.mem_singleton.1 h)
    refine Char.ext (UInt32.toNat_inj.1 ?_)
    change c.val.toNat = 10
    omega
  · exfalso
    -- The bytes of a longer character are at least 128.
    have other {n : Nat} (hn : 128 ≤ n % 256) : lineFeed ≠ UInt8.ofNat n := fun heq => by
      have hvalue := value heq
      omega
    split at h
    · simp only [List.mem_cons, List.not_mem_nil, or_false] at h
      rcases h with h | h <;> exact other (by omega) h
    · split at h <;> simp only [List.mem_cons, List.not_mem_nil, or_false] at h
      · rcases h with h | h | h <;> exact other (by omega) h
      · rcases h with h | h | h | h <;> exact other (by omega) h

/-- The lines of a text are those of its bytes. -/
theorem startsFrom_eq_byteStarts (pos : Nat) (cs : List Char) :
    startsFrom pos cs = byteStarts pos (cs.flatMap String.utf8EncodeChar) := by
  induction cs generalizing pos with
  | nil => rfl
  | cons c cs ih =>
    rw [List.flatMap_cons, byteStarts_append, String.length_utf8EncodeChar, ← ih]
    by_cases hc : c = '\n'
    · subst hc
      rfl
    · rw [startsFrom_other hc, byteStarts_eq_nil (mt eq_of_lineFeed_mem hc), List.nil_append]

/-- The line of an offset is counted by the line feeds in front of it, and begins behind the last
one. -/
theorem lineCol_scan (text : String) (offset : Nat) : (scan text).lineCol offset =
    (1 + ((Text.bytes text).take offset).count lineFeed,
      offset - (bytesAbove text offset).length) := by
  have hbefore : (scan text).later.takeWhile (· ≤ offset) =
      byteStarts 0 ((Text.bytes text).take offset) := by
    rw [Text.bytes_eq]
    exact (congrArg _ (startsFrom_eq_byteStarts 0 text.toList)).trans
      (takeWhile_byteStarts 0 offset _)
  have hlast := getLastD_byteStarts 0 ((Text.bytes text).take offset)
  unfold lineCol bytesAbove
  dsimp only
  rw [hbefore, length_byteStarts, hlast, Nat.zero_add, Nat.add_comm]

/-- **Lines and columns.** The line of an offset is one more than the number of line feeds among the
bytes in front of it, and its column is the distance from the byte behind the last of them, or from
the start of the text. However the line starts are searched by halves, the same line is found. Lines
and columns increase with the offset, and no two offsets have the same; all offsets behind the text
are on the last line. -/
theorem lineCol_increasing (text : String) :
    (∀ offset, (bytesAbove text offset).length ≤ offset ∧ (scan text).lineCol offset =
      (1 + ((Text.bytes text).take offset).count lineFeed,
        offset - (bytesAbove text offset).length)) ∧
      (∀ offset, (∃ answer, Searched (scan text).starts offset answer) ∧
        ∀ answer, Searched (scan text).starts offset answer →
          ∃ start, (scan text).starts[searchedIndex answer]? = some start ∧ start ≤ offset ∧
            (scan text).lineCol offset = (searchedIndex answer + 1, offset - start)) ∧
      Function.Injective (scan text).lineCol ∧
      (StrictMono fun offset => toLex ((scan text).lineCol offset)) ∧
      ∀ offset, text.utf8ByteSize ≤ offset →
        ((scan text).lineCol offset).1 = (scan text).count := by
  have hincreasing : (scan text).starts.Pairwise (· < ·) := startsFrom_increasing 0 text.toList
  have hmono := lineCol_strictMono hincreasing
  refine ⟨fun offset => ⟨?_, lineCol_scan text offset⟩, fun offset => ?_, ?_, hmono, ?_⟩
  · exact (List.rdropWhile_prefix _ _).length_le.trans (List.length_take_le _ _)
  · refine ⟨exists_searched hincreasing offset, fun answer hanswer => ?_⟩
    obtain ⟨start, hon⟩ := hanswer.onLine hincreasing
    exact ⟨start, hon.starts, hon.le, hon.lineCol_eq hincreasing⟩
  · exact fun offset offset' heq => hmono.injective (congrArg toLex heq)
  · intro offset hbehind
    rw [Text.utf8ByteSize_eq] at hbehind
    have hall : (scan text).later.takeWhile (· ≤ offset) = (scan text).later := by
      refine List.takeWhile_eq_self_iff.2 fun start hstart => ?_
      have hle := startsFrom_le 0 text.toList start hstart
      exact decide_eq_true (by omega)
    exact congrArg (·.length + 1) hall

-- Inside a character, at the line feed, and behind the text.
example : (scan "é\nx").lineCol 1 = (1, 1) ∧ (scan "é\nx").lineCol 2 = (1, 2) ∧
    (scan "é\nx").lineCol 9 = (2, 6) := by decide

end LineTable

end FrontEnd
