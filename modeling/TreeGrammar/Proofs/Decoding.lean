import Mathlib.Data.List.Basic
import TreeGrammar.Text.Utf8

/-!
Reading what was written. The first byte of a character says how many follow and which bits it has
itself, every further byte has six bits. What keeps long forms and surrogates out are the ranges of
the byte after the first one, and the bytes of a character lie in them.
-/
namespace TreeGrammar.Text

theorem toNat_byte {n : Nat} (h : n < 256) : (UInt8.ofNat n).toNat = n :=
  UInt8.toNat_ofNat_of_lt' h

theorem toNat_continuation {d : Nat} (hd : d < 64) : (UInt8.ofNat (d + 128)).toNat = d + 128 :=
  toNat_byte (by omega)

section
variable {p : Pending} {d : Nat} (bytes : List UInt8)

theorem accepts_continuation (hd : d < 64) (hlow : p.low.toNat ≤ d + 128)
    (hhigh : d + 128 ≤ p.high.toNat) : p.accepts (UInt8.ofNat (d + 128)) = true := by
  rw [Pending.accepts, Bool.and_eq_true, decide_eq_true_eq, decide_eq_true_eq,
    UInt8.le_iff_toNat_le, UInt8.le_iff_toNat_le, toNat_continuation hd]
  exact ⟨hlow, hhigh⟩

theorem extend_continuation (hd : d < 64) :
    p.extend (UInt8.ofNat (d + 128)) = p.bits * 64 + d := by
  unfold Pending.extend
  rw [toNat_continuation hd, Nat.add_sub_cancel]

/-- The last byte of a character. -/
theorem decodeFrom_last (ho : p.owed ≤ 1) (hd : d < 64) (hlow : p.low.toNat ≤ d + 128)
    (hhigh : d + 128 ≤ p.high.toNat) :
    decodeFrom (some p) (UInt8.ofNat (d + 128) :: bytes) =
      Char.ofNat (p.bits * 64 + d) :: decodeFrom none bytes := by
  rw [decodeFrom, if_pos (accepts_continuation hd hlow hhigh), Pending.next, if_pos ho,
    extend_continuation hd]

/-- A byte of a character after which others follow. -/
theorem decodeFrom_more (ho : 1 < p.owed) (hd : d < 64) (hlow : p.low.toNat ≤ d + 128)
    (hhigh : d + 128 ≤ p.high.toNat) :
    decodeFrom (some p) (UInt8.ofNat (d + 128) :: bytes) =
      decodeFrom (some ⟨p.owed - 1, 0x80, 0xbf, p.bits * 64 + d⟩) bytes := by
  rw [decodeFrom, if_pos (accepts_continuation hd hlow hhigh), Pending.next, if_neg (by omega),
    extend_continuation hd]

end

/-- The first byte of a character of two bytes. The bytes below it would start a long form. -/
theorem leadOf_two {a : Nat} (hlow : 2 ≤ a) (hhigh : a < 32) :
    leadOf (UInt8.ofNat (a + 192)) = .more ⟨1, 0x80, 0xbf, a⟩ := by
  have hb : (UInt8.ofNat (a + 192)).toNat = a + 192 := toNat_byte (by omega)
  simp only [leadOf, UInt8.lt_iff_toNat_lt, hb]
  rw [if_neg (by simp), if_neg (by simp; omega), if_pos (by simp; omega), Nat.add_sub_cancel]

/-- The first byte of a character of three bytes. -/
theorem leadOf_three {a : Nat} (ha : a < 16) : leadOf (UInt8.ofNat (a + 224)) =
    .more ⟨2, if a = 0 then 0xa0 else 0x80, if a = 13 then 0x9f else 0xbf, a⟩ := by
  have hb : (UInt8.ofNat (a + 224)).toNat = a + 224 := toNat_byte (by omega)
  have hfirst : UInt8.ofNat (a + 224) = 0xe0 ↔ a = 0 := by
    rw [← UInt8.toNat_inj, hb]
    simp
  have hsurrogate : UInt8.ofNat (a + 224) = 0xed ↔ a = 13 := by
    rw [← UInt8.toNat_inj, hb]
    simp
  simp only [leadOf, UInt8.lt_iff_toNat_lt, hb, hfirst, hsurrogate]
  rw [if_neg (by simp), if_neg (by simp), if_neg (by simp), if_pos (by simp; omega),
    Nat.add_sub_cancel]

/-- The first byte of a character of four bytes. -/
theorem leadOf_four {a : Nat} (ha : a < 5) : leadOf (UInt8.ofNat (a + 240)) =
    .more ⟨3, if a = 0 then 0x90 else 0x80, if a = 4 then 0x8f else 0xbf, a⟩ := by
  have hb : (UInt8.ofNat (a + 240)).toNat = a + 240 := toNat_byte (by omega)
  have hfirst : UInt8.ofNat (a + 240) = 0xf0 ↔ a = 0 := by
    rw [← UInt8.toNat_inj, hb]
    simp
  have hlast : UInt8.ofNat (a + 240) = 0xf4 ↔ a = 4 := by
    rw [← UInt8.toNat_inj, hb]
    simp
  simp only [leadOf, UInt8.lt_iff_toNat_lt, hb, hfirst, hlast]
  rw [if_neg (by simp), if_neg (by simp), if_neg (by simp), if_neg (by simp),
    if_pos (by simp; omega), Nat.add_sub_cancel]

section
variable {n : Nat} (bytes : List UInt8)

theorem decodeFrom_one (h : n < 0x80) :
    decodeFrom none (UInt8.ofNat n :: bytes) = Char.ofNat n :: decodeFrom none bytes := by
  have hb : (UInt8.ofNat n).toNat = n := toNat_byte (by omega)
  have hlead : leadOf (UInt8.ofNat n) = .char (Char.ofNat n) := by
    rw [leadOf, if_pos (by rw [UInt8.lt_iff_toNat_lt, hb]; exact h), hb]
  rw [decodeFrom, hlead]

theorem decodeFrom_two (hlow : 0x80 ≤ n) (hhigh : n < 0x800) :
    decodeFrom none (UInt8.ofNat (n / 64 + 192) :: UInt8.ofNat (n % 64 + 128) :: bytes) =
      Char.ofNat n :: decodeFrom none bytes := by
  have hn : n / 64 * 64 + n % 64 = n := by omega
  have hlast := decodeFrom_last (p := ⟨1, 0x80, 0xbf, n / 64⟩) (d := n % 64) bytes (Nat.le_refl 1)
    (by omega) (by simp) (by simp; omega)
  rw [decodeFrom, leadOf_two (by omega) (by omega)]
  rw [hn] at hlast
  exact hlast

/-- The range of the second byte leaves out long forms and surrogates. -/
theorem decodeFrom_three (hlow : 0x800 ≤ n) (hhigh : n < 0x10000)
    (hvalid : n < 0xd800 ∨ 0xdfff < n) :
    decodeFrom none (UInt8.ofNat (n / 4096 + 224) :: UInt8.ofNat (n / 64 % 64 + 128) ::
      UInt8.ofNat (n % 64 + 128) :: bytes) = Char.ofNat n :: decodeFrom none bytes := by
  have hn : (n / 4096 * 64 + n / 64 % 64) * 64 + n % 64 = n := by omega
  have hlast := decodeFrom_last (p := ⟨1, 0x80, 0xbf, n / 4096 * 64 + n / 64 % 64⟩) (d := n % 64)
    bytes (Nat.le_refl 1) (by omega) (by simp) (by simp; omega)
  rw [decodeFrom, leadOf_three (by omega)]
  rw [hn] at hlast
  refine (decodeFrom_more _ (by simp) (by omega) ?_ ?_).trans hlast
  · change (if n / 4096 = 0 then (0xa0 : UInt8) else 0x80).toNat ≤ _
    split
    · simp
      omega
    · simp
  · change _ ≤ (if n / 4096 = 13 then (0x9f : UInt8) else 0xbf).toNat
    split <;> simp <;> omega

/-- The range of the second byte leaves out long forms and numbers beyond the last code point. -/
theorem decodeFrom_four (hlow : 0x10000 ≤ n) (hhigh : n < 0x110000) :
    decodeFrom none (UInt8.ofNat (n / 262144 + 240) :: UInt8.ofNat (n / 4096 % 64 + 128) ::
      UInt8.ofNat (n / 64 % 64 + 128) :: UInt8.ofNat (n % 64 + 128) :: bytes) =
      Char.ofNat n :: decodeFrom none bytes := by
  have hn : ((n / 262144 * 64 + n / 4096 % 64) * 64 + n / 64 % 64) * 64 + n % 64 = n := by omega
  have hthird := decodeFrom_more (p := ⟨2, 0x80, 0xbf, n / 262144 * 64 + n / 4096 % 64⟩)
    (d := n / 64 % 64) (UInt8.ofNat (n % 64 + 128) :: bytes) (by simp) (by omega) (by simp)
    (by simp; omega)
  have hlast := decodeFrom_last
    (p := ⟨1, 0x80, 0xbf, (n / 262144 * 64 + n / 4096 % 64) * 64 + n / 64 % 64⟩) (d := n % 64)
    bytes (Nat.le_refl 1) (by omega) (by simp) (by simp; omega)
  rw [decodeFrom, leadOf_four (by omega)]
  rw [hn] at hlast
  refine (decodeFrom_more _ (by simp) (by omega) ?_ ?_).trans (hthird.trans hlast)
  · change (if n / 262144 = 0 then (0x90 : UInt8) else 0x80).toNat ≤ _
    split
    · simp
      omega
    · simp
  · change _ ≤ (if n / 262144 = 4 then (0x8f : UInt8) else 0xbf).toNat
    split <;> simp <;> omega

end

/-- The bytes of a character are read as the character. -/
theorem decodeFrom_encode (c : Char) (bytes : List UInt8) :
    decodeFrom none (String.utf8EncodeChar c ++ bytes) = c :: decodeFrom none bytes := by
  have hvalid : c.toNat < 0xd800 ∨ 0xdfff < c.toNat ∧ c.toNat < 0x110000 := c.valid
  have hchar : Char.ofNat c.toNat = c := c.ofNat_toNat
  have hval : c.val.toNat = c.toNat := rfl
  rw [String.utf8EncodeChar, hval]
  generalize c.toNat = n at *
  subst hchar
  -- In each case the number is so small that no bits of the first byte are cut off.
  split_ifs with hone htwo hthree
  · exact decodeFrom_one bytes (by omega)
  · have hlead : n / 64 % 32 = n / 64 := by omega
    rw [hlead]
    exact decodeFrom_two bytes (by omega) (by omega)
  · have hlead : n / 4096 % 16 = n / 4096 := by omega
    rw [hlead]
    exact decodeFrom_three bytes (by omega) (by omega) (by omega)
  · have hlead : n / 262144 % 8 = n / 262144 := by omega
    rw [hlead]
    exact decodeFrom_four bytes (by omega) (by omega)

/-- A text is read back from its bytes. -/
theorem decodeLossy_encodeUtf8 (s : String) : decodeLossy (encodeUtf8 s) = s := by
  have hchars (cs : List Char) : decodeFrom none (cs.flatMap String.utf8EncodeChar) = cs := by
    induction cs with
    | nil => rfl
    | cons c cs ih => rw [List.flatMap_cons, decodeFrom_encode, ih]
  rw [decodeLossy, encodeUtf8, hchars, String.ofList_toList]

end TreeGrammar.Text
