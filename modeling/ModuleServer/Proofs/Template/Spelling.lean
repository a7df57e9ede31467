import Mathlib.Data.List.Forall2
import ModuleServer.Proofs.Text.Cut
import ModuleServer.Proofs.Text.Run
import ModuleServer.Template.Reference

/-!
# The spellings of a character

A character can be written as itself, unless it is an ampersand, by its name, if it has one, and by
its code, in decimal or in hexadecimal digits. A text may spell each of its characters in another
way, and is decoded to what it spells.

* `digits?_toDigits`: the digits that a number is written with are read as the number.
* `character?_of_isBody`: what stands for a character between the marks of a reference has no
  semicolon, is short enough, and is read as the character.
* `decode_append_of_spells`: a spelling is decoded to its character, whatever stands behind it.
-/

namespace ModuleServer.Template.Reference

open Text
open List (Forall₂)

/-! ## Spellings -/

/-- The names of characters. -/
def names : List (Text × Char) :=
  [("amp".toList, '&'), ("lt".toList, '<'), ("gt".toList, '>'), ("quot".toList, '"'),
   ("apos".toList, '\''), ("nbsp".toList, '\u00a0')]

/-- What stands for a character between the marks of a reference: its name, or its code without
zeros in front. -/
inductive IsBody (c : Char) : Text → Prop where
  | named {name : Text} (h : (name, c) ∈ names) : IsBody c name
  | decimal : IsBody c ('#' :: Nat.toDigits 10 c.toNat)
  | hexadecimal {mark : Char} {digits : Text} (hmark : mark = 'x' ∨ mark = 'X')
      (hdigits : digits.map Char.toLower = Nat.toDigits 16 c.toNat) :
      IsBody c ('#' :: mark :: digits)

/-- The spellings of a character. -/
inductive Spells (c : Char) : Text → Prop where
  | itself (h : c ≠ '&') : Spells c [c]
  | reference {body : Text} (h : IsBody c body) : Spells c ('&' :: (body ++ [';']))

/-! ## Digits -/

section Digits

variable {base n : Nat} {w : Text}

theorem digits?_append (u v : Text) (acc : Nat) :
    digits? base acc (u ++ v) = (digits? base acc u).bind fun n => digits? base n v := by
  induction u generalizing acc with
  | nil => rfl
  | cons c u ih =>
    rw [List.cons_append, digits?, digits?, Option.bind_assoc]
    simp only [ih]

theorem digit?_digitChar (hbase : base ≤ 16) {d : Nat} (hd : d < base) :
    digit? base (Nat.digitChar d) = some d := by
  have hall : ∀ base ≤ 16, ∀ d < base, digit? base (Nat.digitChar d) = some d := by decide
  exact hall base hbase d hd

/-- The digits that a number is written with are read as the number. -/
theorem digits?_toDigits (hone : 1 < base) (hbase : base ≤ 16) (n : Nat) :
    digits? base 0 (Nat.toDigits base n) = some n := by
  induction n using Nat.strongRecOn with
  | _ n ih =>
    rw [Nat.toDigits_eq_if hone]
    split
    · rename_i hlt
      rw [digits?, digit?_digitChar hbase hlt]
      simp [digits?]
    · -- the digits of the quotient, and the remainder as the last one
      have hless : n / base < n := Nat.div_lt_self (by omega) hone
      have hlast := digit?_digitChar hbase (Nat.mod_lt n (Nat.zero_lt_of_lt hone))
      rw [digits?_append, ih _ hless, Option.bind_some, digits?, hlast]
      simp [digits?, Nat.div_add_mod']

/-- A number is written in digits. -/
theorem isSome_of_digits? {acc : Nat} (h : digits? base acc w = some n) :
    ∀ c ∈ w, (digit? base c).isSome := by
  induction w generalizing acc with
  | nil => exact nofun
  | cons d w ih =>
    obtain ⟨k, hk, hrest⟩ := Option.bind_eq_some_iff.1 h
    exact List.forall_mem_cons.2 ⟨by simp [hk], ih hrest⟩

theorem number?_of_digits? (hne : w ≠ []) (hdigits : digits? base 0 w = some n)
    (hn : n < UInt32.size) : number? base w = some n := by
  rw [number?, if_neg (by simpa using hne), hdigits, Option.bind_some, if_pos hn]
  -- a plus sign is no digit
  rintro r rfl
  have hdigit := isSome_of_digits? hdigits '+' List.mem_cons_self
  simp [digit?] at hdigit

/-- The case of a digit does not count. -/
theorem digit?_toLower (c : Char) : digit? 16 c.toLower = digit? 16 c := by
  by_cases hc : c.toNat < 0x80
  · have hall : ∀ n < 0x80, digit? 16 (Char.ofNat n).toLower = digit? 16 (Char.ofNat n) := by
      decide
    have hdigit := hall c.toNat hc
    rwa [Char.ofNat_toNat] at hdigit
  · have hlower : c.toLower = c := by
      refine dif_neg fun h => hc ?_
      have hle : c.toNat ≤ 'Z'.toNat := h.2
      exact Nat.lt_of_le_of_lt hle (by decide)
    rw [hlower]

theorem digits?_map_toLower (acc : Nat) (w : Text) :
    digits? 16 acc (w.map Char.toLower) = digits? 16 acc w := by
  induction w generalizing acc with
  | nil => rfl
  | cons c w ih =>
    rw [List.map_cons, digits?, digits?, digit?_toLower]
    simp only [ih]

theorem toNat_lt_of_isSome_digit? {c : Char} (h : (digit? base c).isSome) : c.toNat < 0x80 := by
  refine toNat_lt_of_isAlphanum ?_
  by_contra hnone
  simp only [Char.isAlphanum, Bool.or_eq_true, not_or, Bool.not_eq_true] at hnone
  simp [digit?, hnone] at h

end Digits

/-! ## References -/

section References

variable {c : Char} {body : Text}

theorem toNat_lt (c : Char) : c.toNat < 0x110000 := by
  rcases c.valid with h | h
  · exact Nat.lt_trans h (by decide)
  · exact h.2

theorem ofCode?_toNat (c : Char) : ofCode? c.toNat = some c := by
  have hvalid : c.toNat.isValidChar := c.valid
  rw [ofCode?, if_pos hvalid, Char.ofNat_toNat]

/-- Digits hold no semicolon, and take one byte each. -/
theorem digits_fit {base n : Nat} {w : Text} (h : digits? base 0 w = some n) :
    ';' ∉ w ∧ byteSize w = w.length := by
  have hdigits := isSome_of_digits? h
  constructor
  · intro hmem
    have hdigit := hdigits ';' hmem
    simp [digit?] at hdigit
  · clear h
    induction w with
    | nil => rfl
    | cons d w ih =>
      obtain ⟨hd, hw⟩ := List.forall_mem_cons.1 hdigits
      have hone : d.utf8Size = 1 :=
        Char.utf8Size_eq_one_iff.2 (Nat.le_of_lt_succ (toNat_lt_of_isSome_digit? hd))
      rw [byteSize_cons, hone, ih hw, List.length_cons, Nat.add_comm]

/-- A code is read by its digits, which are few enough. -/
theorem character?_code {base : Nat} {digits : Text} (hdigits : digits? base 0 digits = some c.toNat)
    (hlength : digits ≠ [] ∧ digits.length ≤ 7) :
    ';' ∉ digits ∧ byteSize digits ≤ 7 ∧ (number? base digits).bind ofCode? = some c := by
  obtain ⟨hsemicolon, hsize⟩ := digits_fit hdigits
  have hnumber := number?_of_digits? hlength.1 hdigits (Nat.lt_trans (toNat_lt c) (by decide))
  refine ⟨hsemicolon, hsize ▸ hlength.2, ?_⟩
  rw [hnumber, Option.bind_some, ofCode?_toNat]

theorem length_toDigits_toNat {base : Nat} (hbase : 10 ≤ base) (c : Char) :
    Nat.toDigits base c.toNat ≠ [] ∧ (Nat.toDigits base c.toNat).length ≤ 7 := by
  have hlt := Nat.lt_of_lt_of_le (toNat_lt c)
    (Nat.le_trans (by decide) (Nat.pow_le_pow_left hbase 7))
  exact ⟨Nat.toDigits_ne_nil, (Nat.length_toDigits_le_iff (by omega) (by decide)).2 hlt⟩

/-- What stands for a character between the marks of a reference is read as the character. -/
theorem character?_of_isBody (h : IsBody c body) :
    ';' ∉ body ∧ byteSize body ≤ 9 ∧ character? body = some c := by
  cases h with
  | named h =>
    have hnames : ∀ p ∈ names, ';' ∉ p.1 ∧ byteSize p.1 ≤ 9 ∧ character? p.1 = some p.2 := by
      decide
    exact hnames _ h
  | decimal =>
    have hdigits : digits? 10 0 (Nat.toDigits 10 c.toNat) = some c.toNat :=
      digits?_toDigits (by decide) (by decide) c.toNat
    obtain ⟨hsemicolon, hsize, hread⟩ :=
      character?_code hdigits (length_toDigits_toNat (by decide) c)
    refine ⟨by simp [hsemicolon], by simp [Char.utf8Size]; omega, ?_⟩
    -- the marks of the other base are no digits
    have hmark : ∀ mark, digit? 10 mark = none → ∀ r, Nat.toDigits 10 c.toNat ≠ mark :: r := by
      intro mark hnone r heq
      rw [heq] at hdigits
      have hdigit := isSome_of_digits? hdigits mark List.mem_cons_self
      simp [hnone] at hdigit
    rw [character?, hread]
    · exact hmark 'x' (by decide)
    · exact hmark 'X' (by decide)
  | @hexadecimal mark digits hmark hlower =>
    have hdigits : digits? 16 0 digits = some c.toNat := by
      rw [← digits?_map_toLower, hlower]
      exact digits?_toDigits (by decide) (by decide) c.toNat
    have hlength : Nat.toDigits 16 c.toNat ≠ [] ∧ (Nat.toDigits 16 c.toNat).length ≤ 7 :=
      length_toDigits_toNat (by decide) c
    rw [← hlower, ne_eq, List.map_eq_nil_iff, List.length_map] at hlength
    obtain ⟨hsemicolon, hsize, hread⟩ := character?_code hdigits hlength
    rcases hmark with rfl | rfl
    · exact ⟨by simp [hsemicolon], by simp [Char.utf8Size]; omega, hread⟩
    · exact ⟨by simp [hsemicolon], by simp [Char.utf8Size]; omega, hread⟩

theorem read?_of_isBody (h : IsBody c body) (rest : Text) :
    read? (body ++ ';' :: rest) = some (c, rest) := by
  obtain ⟨hsemicolon, hsize, hread⟩ := character?_of_isBody h
  have hcut : cut? [';'] (body ++ ';' :: rest) = some (body, rest) := cut?_append hsemicolon rest
  rw [read?, hcut]
  simp [hsize, hread]

end References

/-! ## Texts -/

/-- A spelling is decoded to its character, whatever stands behind it. -/
theorem decode_append_of_spells {c : Char} {w : Text} (h : Spells c w) (rest : Text) :
    decode (w ++ rest) = c :: decode rest := by
  cases h with
  | itself hne => exact decode_cons_of_ne hne rest
  | @reference body hbody =>
    rw [List.cons_append, List.append_assoc, List.singleton_append, decode, if_pos rfl]
    split
    · rename_i d rest' hread
      rw [read?_of_isBody hbody] at hread
      obtain ⟨rfl, rfl⟩ := Prod.mk.inj (Option.some.inj hread)
      rfl
    · rename_i hread
      rw [read?_of_isBody hbody] at hread
      exact absurd hread (Option.some_ne_none _)

/-- Spellings of the characters of a text, one behind the other, are decoded to the text, and so is
text without an ampersand. -/
theorem decode_spelled : (∀ {t : Text} {ws : List Text}, Forall₂ Spells t ws → decode ws.flatten = t) ∧
    ∀ {t : Text}, '&' ∉ t → decode t = t := by
  refine ⟨fun {t ws} h => ?_, decode_eq_self⟩
  induction h with
  | nil => exact decode_nil
  | cons hc _ ih => rw [List.flatten_cons, decode_append_of_spells hc, ih]

/-- A semicolon behind a reference, a hash sign by itself, and the longest code in digits of both
cases. -/
theorem decode_spelled_mixed :
    Forall₂ Spells ['&', ';', '#', '\u00a0', '😀', Char.ofNat 0x10FFFF]
      ["&amp;".toList, ";".toList, "#".toList, "&nbsp;".toList, "&#128512;".toList,
        "&#X10fFfF;".toList] ∧
    decode ["&amp;".toList, ";".toList, "#".toList, "&nbsp;".toList, "&#128512;".toList,
        "&#X10fFfF;".toList].flatten = ['&', ';', '#', '\u00a0', '😀', Char.ofNat 0x10FFFF] ∧
    '&' ∉ "#38;amp;".toList ∧ decode "#38;amp;".toList = "#38;amp;".toList := by
  have hamp : ("amp".toList, '&') ∈ names := by decide
  have hnbsp : ("nbsp".toList, '\u00a0') ∈ names := by decide
  have hcode : "10fFfF".toList.map Char.toLower = Nat.toDigits 16 (Char.ofNat 0x10FFFF).toNat := by
    decide
  have hspells := Forall₂.cons (Spells.reference (.named hamp)) <|
    .cons (Spells.itself (by decide : ';' ≠ '&')) <|
    .cons (Spells.itself (by decide : '#' ≠ '&')) <| .cons (.reference (.named hnbsp)) <|
    .cons (Spells.reference (c := '😀') .decimal) <|
    .cons (.reference (.hexadecimal (.inr rfl) hcode)) .nil
  have hplain : '&' ∉ "#38;amp;".toList := by decide
  exact ⟨hspells, decode_spelled.1 hspells, hplain, decode_spelled.2 hplain⟩

end ModuleServer.Template.Reference
