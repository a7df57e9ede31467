import ModuleServer.Proofs.Component.Link

/-!
# Decoding in pieces

What an encoded text stands for, when the text is anything: bytes may be written that are no text,
and a byte may go with bytes before it that are written otherwise.

* `Percent.decodeText_append_cons`: a text is decoded in two pieces at a character of ASCII that is
  neither a percent sign nor a digit.
* `Percent.length_decodeText_cons_le`: one more character in front gives at most one more.
-/

namespace ModuleServer

open Text

/-! ## Bytes -/

namespace Utf8

/-- What continues a character is neither below nor above the bytes that do. -/
theorem bounds_of_lead? {b : Nat} {l : Lead} (h : lead? b = some l) :
    0x80 ≤ l.low ∧ l.high ≤ 0xBF := by
  unfold lead? at h
  split_ifs at h <;> cases h <;> exact ⟨by simp, by simp⟩

theorem units_ascii {b : UInt8} (hb : b.toNat < 0x80) (t : Bytes) :
    units (b :: t) = some (Char.ofNat b.toNat) :: units t := by
  have hlead : lead? b.toNat = some ⟨0, 0x80, 0xBF, b.toNat⟩ := by rw [lead?, if_pos hb]
  rw [units, hlead]
  rfl

/-- A byte of ASCII continues no character. -/
theorem follow_append_cons {low : Nat} (hlow : 0x80 ≤ low) {b : UInt8} (hb : b.toNat < 0x80)
    (more high bits : Nat) (t rest : Bytes) :
    follow more low high bits (t ++ b :: rest) =
      ((follow more low high bits t).1, (follow more low high bits t).2 ++ b :: rest) := by
  induction t generalizing more low high bits with
  | nil =>
    cases more with
    | zero => rfl
    | succ more =>
      rw [List.nil_append, follow, follow, if_neg (by omega)]
      rfl
  | cons c t ih =>
    cases more with
    | zero => rfl
    | succ more =>
      rw [List.cons_append, follow, follow]
      split
      · exact ih (Nat.le_refl _) ..
      · rfl

/-- Bytes are read in two pieces at a byte of ASCII. -/
theorem units_append_cons {b : UInt8} (hb : b.toNat < 0x80) (t rest : Bytes) :
    units (t ++ b :: rest) = units t ++ units (b :: rest) := by
  fun_induction units t with
  | case1 => rfl
  | case2 c t hlead ih =>
    rw [List.cons_append, units, hlead]
    exact congrArg _ ih
  | case3 c t l hlead ih =>
    rw [List.cons_append, units, hlead]
    dsimp only
    rw [follow_append_cons (bounds_of_lead? hlead).1 hb]
    exact congrArg _ ih

/-- Bytes that go with a first byte would have been units of their own without it. -/
theorem length_units_follow_le {low high : Nat} (hlow : 0x80 ≤ low) (hhigh : high ≤ 0xBF)
    (more bits : Nat) (t : Bytes) :
    (units (follow more low high bits t).2).length ≤ (units t).length := by
  induction t generalizing more low high bits with
  | nil => cases more <;> exact Nat.le_refl _
  | cons c t ih =>
    cases more with
    | zero => exact Nat.le_refl _
    | succ more =>
      rw [follow]
      split
      · rename_i hc
        have hnone : lead? c.toNat = none := by
          rw [lead?, if_neg (by omega), if_pos (by omega)]
        rw [units, hnone]
        exact Nat.le_succ_of_le (ih (Nat.le_refl _) (Nat.le_refl _) more _)
      · exact Nat.le_refl _

/-- One more byte in front gives at most one more unit. -/
theorem length_units_cons_le (b : UInt8) (t : Bytes) :
    (units (b :: t)).length ≤ (units t).length + 1 := by
  rw [units]
  split
  · exact Nat.le_refl _
  · rename_i l hlead
    obtain ⟨hlow, hhigh⟩ := bounds_of_lead? hlead
    exact Nat.succ_le_succ (length_units_follow_le hlow hhigh ..)

end Utf8

/-! ## Percent signs -/

namespace Percent

/-- A percent sign is taken with two digits behind it or stands for itself, as any other byte. -/
theorem decode_cons_cases (b : UInt8) (t : Bytes) : decode (b :: t) = b :: decode t ∨
    ∃ h l rest high low, t = h :: l :: rest ∧ digit? h = some high ∧ digit? l = some low ∧
      decode (b :: t) = UInt8.ofNat (high * 16 + low) :: decode rest := by
  match t with
  | [] => exact .inl rfl
  | [_] => exact .inl rfl
  | h :: l :: rest =>
    rw [decode]
    split
    · split
      · rename_i high low hhigh hlow
        exact .inr ⟨h, l, rest, high, low, rfl, hhigh, hlow, rfl⟩
      · exact .inl rfl
    · exact .inl rfl

/-- Bytes are decoded in two pieces at one that is neither a percent sign nor a digit. -/
theorem decode_append_cons {b : UInt8} (hb : b ≠ 37) (hdigit : digit? b = none) (t rest : Bytes) :
    decode (t ++ b :: rest) = decode t ++ b :: decode rest := by
  fun_induction decode t with
  | case1 => exact decode_cons_of_ne hb rest
  | case2 h l t high low hhigh hlow ih =>
    rw [List.cons_append, List.cons_append, List.cons_append, decode, if_pos rfl, hhigh, hlow]
    exact congrArg _ ih
  | case3 h l t hnone ih =>
    rw [List.cons_append, List.cons_append, List.cons_append, decode, if_pos rfl]
    split
    · rename_i high low hhigh hlow
      exact absurd hlow (hnone high low hhigh)
    · exact congrArg _ ih
  | case4 c h l t hc ih =>
    rw [List.cons_append, List.cons_append, List.cons_append, decode, if_neg hc]
    exact congrArg _ ih
  | case5 c t hshort ih =>
    -- at most one byte stands between the first one and the seam
    rw [List.cons_append]
    have hcons : decode (c :: (t ++ b :: rest)) = c :: decode (t ++ b :: rest) := by
      rcases decode_cons_cases c (t ++ b :: rest) with h | ⟨h, l, r, high, low, ht, hh, hl, -⟩
      · exact h
      · rcases t with _ | ⟨d, _ | ⟨e, t⟩⟩
        · obtain ⟨rfl, -⟩ := List.cons.inj ht
          rw [hdigit] at hh
          cases hh
        · obtain ⟨-, ht⟩ := List.cons.inj ht
          obtain ⟨rfl, -⟩ := List.cons.inj ht
          rw [hdigit] at hl
          cases hl
        · exact absurd rfl (hshort d e t)
    rw [hcons, ih]
    rfl

/-- A text is decoded in two pieces at a character of ASCII that is neither a percent sign nor a
digit. -/
theorem decodeText_append_cons {c : Char} (hc : c.toNat < 0x80) (hpercent : c ≠ '%')
    (hdigit : digit? (UInt8.ofNat c.toNat) = none) (t rest : Text) :
    decodeText (t ++ c :: rest) = decodeText t ++ c :: decodeText rest := by
  have hb : (UInt8.ofNat c.toNat).toNat = c.toNat :=
    UInt8.toNat_ofNat_of_lt' (Nat.lt_trans hc (by decide))
  have hne : UInt8.ofNat c.toNat ≠ 37 := by
    refine ne_of_mem_encodeChar hpercent ?_
    rw [encodeChar_ascii hc]
    exact List.mem_cons_self
  have hencode : Utf8.encode (c :: rest) = UInt8.ofNat c.toNat :: Utf8.encode rest := by
    rw [Utf8.encode, List.flatMap_cons, encodeChar_ascii hc]
    rfl
  rw [decodeText, Utf8.encode_append, hencode, decode_append_cons hne hdigit, Utf8.decodeLossy,
    Utf8.units_append_cons (by rw [hb]; exact hc), Utf8.units_ascii (by rw [hb]; exact hc), hb,
    Char.ofNat_toNat, List.map_append]
  rfl

/-- A digit is a byte of ASCII. -/
theorem lt_of_digit? {b : UInt8} {n : Nat} (h : digit? b = some n) : b.toNat < 0x80 ∧ b ≠ 37 := by
  have hsmall : b.toNat < 0x80 ∧ b.toNat ≠ 37 := by
    unfold digit? at h
    dsimp only at h
    split_ifs at h <;> omega
  refine ⟨hsmall.1, ?_⟩
  rintro rfl
  exact hsmall.2 rfl

/-- One more byte in front is decoded to at most one more unit. -/
theorem length_units_decode_cons_le (b : UInt8) (t : Bytes) :
    (Utf8.units (decode (b :: t))).length ≤ (Utf8.units (decode t)).length + 1 := by
  rcases decode_cons_cases b t with h | ⟨h, l, rest, high, low, rfl, hhigh, hlow, hdecode⟩
  · rw [h]
    exact Utf8.length_units_cons_le b _
  · -- the digits would have stood for themselves
    obtain ⟨hh, hh'⟩ := lt_of_digit? hhigh
    obtain ⟨hl, hl'⟩ := lt_of_digit? hlow
    have hmany := Utf8.length_units_cons_le (UInt8.ofNat (high * 16 + low)) (decode rest)
    rw [hdecode, decode_cons_of_ne hh', decode_cons_of_ne hl', Utf8.units_ascii hh,
      Utf8.units_ascii hl]
    simp only [List.length_cons]
    omega

/-- A character that is no percent sign stands for itself. -/
theorem decodeText_cons {c : Char} (hpercent : c ≠ '%') (t : Text) :
    decodeText (c :: t) = c :: decodeText t := by
  have hencode : Utf8.encode (c :: t) = Utf8.encodeChar c ++ Utf8.encode t := rfl
  rw [decodeText, hencode, decode_encodeChar hpercent, Utf8.decodeLossy, Utf8.units_encodeChar]
  rfl

/-- One more character in front gives at most one more character. -/
theorem length_decodeText_cons_le (c : Char) (t : Text) :
    (decodeText (c :: t)).length ≤ (decodeText t).length + 1 := by
  by_cases hpercent : c = '%'
  · subst hpercent
    rw [decodeText, decodeText, Utf8.decodeLossy, Utf8.decodeLossy, List.length_map,
      List.length_map]
    exact length_units_decode_cons_le 37 (Utf8.encode t)
  · rw [decodeText_cons hpercent]
    exact Nat.le_refl _

end Percent

end ModuleServer
