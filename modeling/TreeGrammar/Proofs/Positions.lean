import Mathlib.Data.List.DropRight
import Mathlib.Order.Monotone.Defs
import TreeGrammar.Source

/-!
Positions and offsets. The row of an offset is the count of line feeds before it, its column the
count of bytes since the last of them. The table of row starts has one entry for each line feed and
one for the first row, in ascending order, and the entry of that row is where the bytes of the
column start. So a position leads back to its offset.
-/
namespace TreeGrammar.Source

theorem startsAfter_append (offset : Nat) (xs ys : List UInt8) :
    startsAfter offset (xs ++ ys) =
      startsAfter offset xs ++ startsAfter (offset + xs.length) ys := by
  induction xs generalizing offset with
  | nil => rfl
  | cons b xs ih =>
    have hlength : offset + 1 + xs.length = offset + (b :: xs).length := by
      rw [List.length_cons]
      omega
    rw [List.cons_append, startsAfter, startsAfter, ih, hlength]
    split <;> rfl

theorem length_startsAfter (offset : Nat) (bytes : List UInt8) :
    (startsAfter offset bytes).length = bytes.count 0x0a := by
  induction bytes generalizing offset with
  | nil => rfl
  | cons b bytes ih =>
    rw [startsAfter]
    split
    · rename_i hb
      rw [hb, List.count_cons_self, List.length_cons, ih]
    · rename_i hb
      rw [List.count_cons_of_ne hb, ih]

/-- Rows start after the offset, at the end of the bytes at the latest. -/
theorem mem_startsAfter_le {offset start : Nat} {bytes : List UInt8}
    (h : start ∈ startsAfter offset bytes) : offset < start ∧ start ≤ offset + bytes.length := by
  induction bytes generalizing offset with
  | nil => cases h
  | cons b bytes ih =>
    have hrest : start ∈ startsAfter (offset + 1) bytes →
        offset < start ∧ start ≤ offset + (b :: bytes).length := by
      intro hm
      have hbounds := ih hm
      rw [List.length_cons]
      omega
    rw [startsAfter] at h
    split at h
    · rcases List.mem_cons.mp h with rfl | hm
      · rw [List.length_cons]
        omega
      · exact hrest hm
    · exact hrest h

theorem pairwise_startsAfter (offset : Nat) (bytes : List UInt8) :
    (startsAfter offset bytes).Pairwise (· < ·) := by
  induction bytes generalizing offset with
  | nil => exact List.Pairwise.nil
  | cons b bytes ih =>
    rw [startsAfter]
    split
    · exact List.pairwise_cons.mpr ⟨fun start hm => (mem_startsAfter_le hm).1, ih (offset + 1)⟩
    · exact ih (offset + 1)

/-- The last row of some bytes starts where the bytes after the last line feed do. -/
theorem exists_lastStart (bytes : List UInt8) :
    ∃ start, (0 :: startsAfter 0 bytes)[bytes.count 0x0a]? = some start ∧
      start + (bytes.rtakeWhile (· ≠ 0x0a)).length = bytes.length := by
  induction bytes using List.reverseRecOn with
  | nil => exact ⟨0, rfl, rfl⟩
  | append_singleton bytes b ih =>
    rw [startsAfter_append, Nat.zero_add, List.count_append]
    by_cases hb : b = 0x0a
    -- The line feed starts a row of which no byte is there yet.
    · subst hb
      refine ⟨bytes.length + 1, ?_, ?_⟩
      · rw [List.count_singleton_self, List.getElem?_cons_succ, List.getElem?_append_right
          (length_startsAfter 0 bytes).le, length_startsAfter, Nat.sub_self]
        rfl
      · rw [List.rtakeWhile_concat_neg _ _ _ (by decide), List.length_append]
        rfl
    · obtain ⟨start, hstart, hlength⟩ := ih
      have hnone : startsAfter bytes.length [b] = [] := by rw [startsAfter, if_neg hb, startsAfter]
      refine ⟨start, ?_, ?_⟩
      · rw [hnone, List.append_nil, List.count_singleton, beq_eq_false_iff_ne.mpr hb]
        exact hstart
      · rw [List.rtakeWhile_concat_pos _ _ _ (by simpa using hb), List.length_append,
          List.length_append, ← Nat.add_assoc, hlength]

variable (src : Source)

theorem length_rowStarts : src.rowStarts.length = src.lineCount + 1 := by
  rw [rowStarts, List.length_cons, length_startsAfter, lineCount]

theorem pairwise_rowStarts : src.rowStarts.Pairwise (· < ·) :=
  List.pairwise_cons.mpr
    ⟨fun _ hm => (mem_startsAfter_le hm).1, pairwise_startsAfter 0 src.bytes⟩

/-- The position of an offset: the count of line feeds before it, and that of the bytes between the
last of them and the offset. -/
def positionAt (i : Nat) : Position :=
  .at ((src.bytes.take i).count 0x0a) ((src.bytes.take i).rtakeWhile (· ≠ 0x0a)).length

/-- The offset of a row and a column that are not negative. -/
def offsetAt (row column : Nat) : Nat :=
  match src.rowStarts[row]? with
  | none => src.bytes.length
  | some start => min (start + column) src.bytes.length

theorem offset_at_nat (row column : Nat) :
    src.offset (.at row column) = .ok (src.offsetAt row column) := by
  have hrow : ¬ (row : Int) < 0 := by omega
  rw [offset_at, rowOffset, if_neg hrow, offsetAt]
  simp only [if_neg hrow, Int.toNat_natCast]
  cases src.rowStarts[row]? with
  | none => rfl
  | some start =>
    have hmin : min ((start : Int) + column) src.bytes.length =
        (min (start + column) src.bytes.length : Nat) := by omega
    simp only [columnOffset, Json.whole?, hmin]

variable {src}

/-- The position of an offset leads back to it. -/
theorem offset_positionAt {i : Nat} (h : i ≤ src.bytes.length) :
    src.offset (src.positionAt i) = .ok i := by
  obtain ⟨start, hstart, hlength⟩ := exists_lastStart (src.bytes.take i)
  have hsplit : src.rowStarts =
      (0 :: startsAfter 0 (src.bytes.take i)) ++ startsAfter i (src.bytes.drop i) := by
    have htake : 0 + (src.bytes.take i).length = i := by
      rw [Nat.zero_add, List.length_take_of_le h]
    rw [rowStarts, List.cons_append]
    conv_lhs => rw [← List.take_append_drop i src.bytes, startsAfter_append, htake]
  have hrow : src.rowStarts[(src.bytes.take i).count 0x0a]? = some start := by
    obtain ⟨hlt, -⟩ := List.getElem?_eq_some_iff.mp hstart
    rw [hsplit, List.getElem?_append_left hlt]
    exact hstart
  rw [List.length_take_of_le h] at hlength
  rw [positionAt, offset_at_nat, offsetAt, hrow]
  simp only [hlength, Nat.min_eq_left h]

theorem offsetAt_le (row column : Nat) : src.offsetAt row column ≤ src.bytes.length := by
  unfold offsetAt
  split
  · exact le_rfl
  · exact Nat.min_le_right _ _

theorem monotone_offsetAt (row : Nat) : Monotone (src.offsetAt row) := by
  intro column column' h
  unfold offsetAt
  split
  · exact le_rfl
  · omega

/-- A later row starts later. -/
theorem monotone_offsetAt_row (column : Nat) : Monotone fun row => src.offsetAt row column := by
  intro row row' h
  change src.offsetAt row column ≤ src.offsetAt row' column
  rw [offsetAt.eq_def src row']
  split
  · exact src.offsetAt_le row column
  · rename_i start' hstart'
    obtain ⟨hlt', rfl⟩ := List.getElem?_eq_some_iff.mp hstart'
    have hlt : row < src.rowStarts.length := by omega
    have hstart : src.rowStarts[row] ≤ src.rowStarts[row'] := by
      rcases h.eq_or_lt with rfl | hrow
      · exact le_rfl
      · exact (List.pairwise_iff_getElem.mp src.pairwise_rowStarts row row' hlt hlt' hrow).le
    rw [offsetAt, List.getElem?_eq_getElem hlt]
    change min (src.rowStarts[row] + column) src.bytes.length ≤ _
    omega

theorem offsetAt_of_lt {row : Nat} (h : src.lineCount < row) (column : Nat) :
    src.offsetAt row column = src.bytes.length := by
  have hnone : src.rowStarts[row]? = none := by
    rw [List.getElem?_eq_none_iff, length_rowStarts]
    omega
  rw [offsetAt, hnone]

/-- The bytes between two offsets. -/
theorem slice_natCast (bytes : List UInt8) (i j : Nat) :
    slice bytes i j = (bytes.drop i).take (j - i) := by
  have hbound (n : Nat) : sliceBound bytes.length n = n := by
    rw [sliceBound, if_neg (by omega), Int.toNat_natCast]
  rw [slice, hbound, hbound]

/-- The token between two places is the text of the bytes between their offsets. -/
theorem token_of_offset {l : Loc} {i j : Nat} (hi : src.offset l.start = .ok i)
    (hj : src.offset l.finish = .ok j) :
    src.token l = .ok (Text.decodeLossy ((src.bytes.drop i).take (j - i))) := by
  rw [token, hi, hj, ← slice_natCast]
  rfl

/-- Offsets and positions fit together: the position of an offset leads back to it, so the token
between two positions has the bytes between their offsets. Any row and column that are not negative
have an offset in the file, later columns and rows have no earlier one, and the rows after the last
one lie at the end. -/
theorem positions_fit_offsets (src : Source) :
    (∀ i ≤ src.bytes.length, src.offset (src.positionAt i) = .ok i) ∧
    (∀ i j, i ≤ j → j ≤ src.bytes.length →
      src.token ⟨src.positionAt i, src.positionAt j⟩ =
        .ok (Text.decodeLossy ((src.bytes.drop i).take (j - i)))) ∧
    ∃ offsetAt : Nat → Nat → Nat,
      (∀ row column : Nat, src.offset (.at row column) = .ok (offsetAt row column)) ∧
      (∀ row column, offsetAt row column ≤ src.bytes.length) ∧
      (∀ row, Monotone (offsetAt row)) ∧
      (∀ column, Monotone fun row => offsetAt row column) ∧
      ∀ row column, src.lineCount < row → offsetAt row column = src.bytes.length := by
  refine ⟨fun i => offset_positionAt, fun i j hij hj => ?_, src.offsetAt, src.offset_at_nat,
    offsetAt_le, monotone_offsetAt, monotone_offsetAt_row,
    fun row column h => offsetAt_of_lt h column⟩
  exact token_of_offset (offset_positionAt (hij.trans hj)) (offset_positionAt hj)

/-- Two rows of which the first one is empty. -/
def emptyFirstRow : Source :=
  .ofText "\nab"

theorem emptyFirstRow_token :
    emptyFirstRow.positionAt 1 = .at 1 0 ∧ emptyFirstRow.positionAt 3 = .at 1 2 ∧
    1 ≤ 3 ∧ 3 ≤ emptyFirstRow.bytes.length ∧
    emptyFirstRow.token ⟨.at 1 0, .at 1 2⟩ = .ok "ab" := by
  have hlength : 3 ≤ emptyFirstRow.bytes.length := by decide
  have htoken := (positions_fit_offsets emptyFirstRow).2.1 1 3 (by decide) hlength
  exact ⟨by decide, by decide, by decide, hlength, htoken⟩

end TreeGrammar.Source
