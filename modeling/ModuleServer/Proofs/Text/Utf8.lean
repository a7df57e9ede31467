import ModuleServer.Text.Utf8

/-!
# Text written as bytes is read back

The bytes of a character are read as that character, whatever stands behind them
(`units_encodeChar`), so every text comes back from its bytes (`decodeLossy_encode`).
-/

namespace ModuleServer.Utf8

/-- A byte that continues a character and lies between its bounds brings six bits. -/
theorem follow_ofNat {b low high : Nat} (hlow : low ≤ b) (hhigh : b ≤ high) (hb : b < 256)
    (more bits : Nat) (t : Bytes) :
    follow (more + 1) low high bits (UInt8.ofNat b :: t) =
      follow more 0x80 0xBF (bits * 64 + b % 64) t := by
  have hnat : (UInt8.ofNat b).toNat = b := UInt8.toNat_ofNat_of_lt' hb
  rw [follow, hnat, if_pos ⟨hlow, hhigh⟩]

/-- A character is read off bytes once its first byte and those that it announces are. -/
theorem units_of_follow {b : Nat} {c : Char} {l : Lead} {t rest : Bytes} (hb : b < 256)
    (hlead : lead? b = some l)
    (hfollow : follow l.more l.low l.high l.bits t = (some c.toNat, rest)) :
    units (UInt8.ofNat b :: t) = some c :: units rest := by
  have hnat : (UInt8.ofNat b).toNat = b := UInt8.toNat_ofNat_of_lt' hb
  rw [units, hnat, hlead]
  dsimp only
  rw [hfollow, Option.map_some, Char.ofNat_toNat]

/-- The first of three bytes. The bounds of the second keep out overlong forms and surrogates. -/
theorem exists_lead?_three {n : Nat} (hlow : 0x800 ≤ n) (hhigh : n < 0x10000)
    (hvalid : n < 0xD800 ∨ 0xDFFF < n) :
    ∃ low high, lead? (0xE0 + n / 4096) = some ⟨2, low, high, n / 4096⟩ ∧
      low ≤ 0x80 + n / 64 % 64 ∧ 0x80 + n / 64 % 64 ≤ high := by
  by_cases hfirst : n / 4096 = 0
  · refine ⟨0xA0, 0xBF, ?_, by omega, by omega⟩
    rw [hfirst]
    rfl
  by_cases hlast : n / 4096 = 0xD
  · refine ⟨0x80, 0x9F, ?_, by omega, by omega⟩
    rw [hlast]
    rfl
  · refine ⟨0x80, 0xBF, ?_, by omega, by omega⟩
    rw [lead?, if_neg (by omega), if_neg (by omega), if_neg (by omega), if_neg (by omega),
      if_neg (by omega), if_pos (by omega), Nat.add_sub_cancel_left]

/-- The first of four bytes. The bounds of the second keep out overlong forms, and what lies behind
the last plane. -/
theorem exists_lead?_four {n : Nat} (hlow : 0x10000 ≤ n) (hhigh : n < 0x110000) :
    ∃ low high, lead? (0xF0 + n / 262144) = some ⟨3, low, high, n / 262144⟩ ∧
      low ≤ 0x80 + n / 4096 % 64 ∧ 0x80 + n / 4096 % 64 ≤ high := by
  by_cases hfirst : n / 262144 = 0
  · refine ⟨0x90, 0xBF, ?_, by omega, by omega⟩
    rw [hfirst]
    rfl
  by_cases hlast : n / 262144 = 4
  · refine ⟨0x80, 0x8F, ?_, by omega, by omega⟩
    rw [hlast]
    rfl
  · refine ⟨0x80, 0xBF, ?_, by omega, by omega⟩
    rw [lead?, if_neg (by omega), if_neg (by omega), if_neg (by omega), if_neg (by omega),
      if_neg (by omega), if_neg (by omega), if_neg (by omega), if_pos (by omega),
      Nat.add_sub_cancel_left]

/-- The bytes of a character are read as that character. -/
theorem units_encodeChar (c : Char) (rest : Bytes) :
    units (encodeChar c ++ rest) = some c :: units rest := by
  have hvalid : c.toNat < 0xD800 ∨ 0xDFFF < c.toNat ∧ c.toNat < 0x110000 := c.valid
  rw [encodeChar, encodePoint]
  generalize hn : c.toNat = n at hvalid
  -- one case for each number of bytes
  by_cases h1 : n < 0x80
  · rw [if_pos h1]
    refine units_of_follow (l := ⟨0, 0x80, 0xBF, n⟩) (by omega) ?_ ?_
    · rw [lead?, if_pos h1]
    · rw [hn]
      rfl
  rw [if_neg h1]
  by_cases h2 : n < 0x800
  · rw [if_pos h2]
    refine units_of_follow (l := ⟨1, 0x80, 0xBF, n / 64⟩) (by omega) ?_ ?_
    · rw [lead?, if_neg (by omega), if_neg (by omega), if_pos (by omega), Nat.add_sub_cancel_left]
    · show follow 1 0x80 0xBF (n / 64) (UInt8.ofNat (0x80 + n % 64) :: rest) = _
      rw [follow_ofNat (by omega) (by omega) (by omega), follow, hn]
      congr 2
      omega
  rw [if_neg h2]
  by_cases h3 : n < 0x10000
  · rw [if_pos h3]
    have hbits : n / 4096 * 64 + (0x80 + n / 64 % 64) % 64 = n / 64 := by omega
    obtain ⟨low, high, hlead, hlow, hhigh⟩ := exists_lead?_three (n := n) (by omega) h3 (by omega)
    refine units_of_follow (by omega) hlead ?_
    show follow 2 low high (n / 4096)
      (UInt8.ofNat (0x80 + n / 64 % 64) :: UInt8.ofNat (0x80 + n % 64) :: rest) = _
    rw [follow_ofNat hlow hhigh (by omega), hbits, follow_ofNat (by omega) (by omega) (by omega),
      follow, hn]
    congr 2
    omega
  · rw [if_neg h3]
    have hbits : n / 262144 * 64 + (0x80 + n / 4096 % 64) % 64 = n / 4096 := by omega
    have hbits' : n / 4096 * 64 + (0x80 + n / 64 % 64) % 64 = n / 64 := by omega
    obtain ⟨low, high, hlead, hlow, hhigh⟩ := exists_lead?_four (n := n) (by omega) (by omega)
    refine units_of_follow (by omega) hlead ?_
    show follow 3 low high (n / 262144)
      (UInt8.ofNat (0x80 + n / 4096 % 64) :: UInt8.ofNat (0x80 + n / 64 % 64) ::
        UInt8.ofNat (0x80 + n % 64) :: rest) = _
    rw [follow_ofNat hlow hhigh (by omega), hbits, follow_ofNat (by omega) (by omega) (by omega),
      hbits', follow_ofNat (by omega) (by omega) (by omega), follow, hn]
    congr 2
    omega

theorem encode_append (t rest : Text) : encode (t ++ rest) = encode t ++ encode rest :=
  List.flatMap_append

theorem units_encode_append (t : Text) (rest : Bytes) :
    units (encode t ++ rest) = t.map some ++ units rest := by
  induction t with
  | nil => rfl
  | cons c t ih =>
    rw [encode, List.flatMap_cons, List.append_assoc, units_encodeChar, ← encode, ih]
    rfl

theorem units_encode (t : Text) : units (encode t) = t.map some := by
  have h := units_encode_append t []
  rw [List.append_nil] at h
  rw [h, units, List.append_nil]

/-- A text comes back from its bytes. -/
theorem decodeLossy_encode (t : Text) : decodeLossy (encode t) = t := by
  rw [decodeLossy, units_encode, List.map_map]
  exact List.map_id t

end ModuleServer.Utf8
