import ModuleServer.Proofs.Component.Decode
import ModuleServer.Proofs.Script.StringValue
import ModuleServer.Proofs.Template.Spelling

/-!
# How a path in a literal is read

A path is written for an address and read as code: what is written for it stands in a string literal,
where a backslash starts an escape. Each character apart from these stands for itself, and an escape
takes at least one more character of the path than it gives. So a literal with a backslash in it says
less than the path that it was written for.

* `exists_of_encodePath_append`: what is read off an encoded path is one of its characters, unless it
  is a percent sign.
* `escape?_encodePath`: what an escape takes of a path.
* `saysAtMost_backslash`: what a literal says of a path is shorter behind a backslash.
-/

namespace ModuleServer.Component

open Text Script

/-! ## Characters of an encoded path -/

theorem encodePath_append (p q : Text) : encodePath (p ++ q) = encodePath p ++ encodePath q :=
  List.flatMap_append

theorem encodePath_cons (a : Char) (p : Text) : encodePath (a :: p) = encodePath [a] ++ encodePath p :=
  encodePath_append [a] p

theorem encodePath_of_plain {a : Char} (hascii : a.toNat < 0x80) (hplain : isEncoded a = false) :
    encodePath [a] = [a] := by
  rw [encodePath, List.flatMap_cons, List.flatMap_nil, List.append_nil, if_pos]
  simp [hascii, hplain]

/-- A character is written as it is, or starting with a percent sign. -/
theorem encodePath_singleton (a : Char) :
    encodePath [a] = [a] ∧ a.toNat < 0x80 ∧ isEncoded a = false ∨
      ∃ tail, encodePath [a] = '%' :: tail := by
  by_cases hplain : a.toNat < 0x80 ∧ isEncoded a = false
  · exact .inl ⟨encodePath_of_plain hplain.1 hplain.2, hplain⟩
  · -- a character has at least one byte
    obtain ⟨b, bytes, hbytes⟩ : ∃ b bytes, Utf8.encodeChar a = b :: bytes := by
      rw [Utf8.encodeChar, Utf8.encodePoint]
      split_ifs <;> exact ⟨_, _, rfl⟩
    rw [encodePath, List.flatMap_cons, List.flatMap_nil, List.append_nil, if_neg (by simpa using hplain),
      hbytes]
    exact .inr ⟨_, rfl⟩

/-- A character of an encoded path that is no percent sign is the first of the path, if it comes
first. -/
theorem exists_of_encodePath_cons {g r : Text} {a : Char} (ha : a ≠ '%')
    (h : encodePath g = a :: r) : ∃ g', g = a :: g' ∧ r = encodePath g' := by
  cases g with
  | nil => cases h
  | cons d g =>
    rw [encodePath_cons] at h
    rcases encodePath_singleton d with ⟨hd, -⟩ | ⟨tail, hd⟩
    · rw [hd] at h
      obtain ⟨rfl, rfl⟩ := List.cons.inj h
      exact ⟨g, rfl, rfl⟩
    · rw [hd] at h
      exact absurd (List.cons.inj h).1.symm ha

/-- Characters of an encoded path that are no percent signs are those of the path. -/
theorem exists_of_encodePath_append {w rest : Text} (hw : '%' ∉ w) :
    ∀ {g : Text}, encodePath g = w ++ rest → ∃ g', g = w ++ g' ∧ rest = encodePath g' := by
  induction w with
  | nil =>
    intro g h
    exact ⟨g, rfl, h.symm⟩
  | cons a w ih =>
    intro g h
    obtain ⟨hpercent, hothers⟩ := not_or.1 (mt List.mem_cons.2 hw)
    obtain ⟨g', rfl, hr⟩ := exists_of_encodePath_cons (Ne.symm hpercent) h
    obtain ⟨g'', rfl, hrest⟩ := ih hothers hr.symm
    exact ⟨g'', rfl, hrest⟩

/-- An encoded path is parted at a character that is written as it is. -/
theorem exists_of_encodePath_append_cons {c : Char} (hpercent : c ≠ '%')
    (hdigit : ∀ n < 16, c ≠ hexDigit n) {g : Text} : ∀ {a b : Text}, encodePath g = a ++ c :: b →
      ∃ p q, g = p ++ c :: q ∧ a = encodePath p ∧ b = encodePath q := by
  induction g with
  | nil =>
    intro a b h
    cases a <;> cases h
  | cons d g ih =>
    intro a b h
    rw [encodePath_cons] at h
    rcases List.append_eq_append_iff.1 h with ⟨a', rfl, hrest⟩ | ⟨r, hd, hrest⟩
    · obtain ⟨p, q, rfl, rfl, rfl⟩ := ih hrest
      exact ⟨d :: p, q, rfl, (encodePath_cons d p).symm, rfl⟩
    · cases r with
      | nil =>
        obtain ⟨p, q, rfl, hp, rfl⟩ := ih (a := []) hrest.symm
        rw [List.append_nil] at hd
        refine ⟨d :: p, q, rfl, ?_, rfl⟩
        rw [encodePath_cons, ← hp, List.append_nil, hd]
      | cons e r =>
        obtain ⟨rfl, rfl⟩ := List.cons.inj hrest
        have hmem : c ∈ encodePath [d] := by
          rw [hd]
          simp
        -- the character is one that is written as it is, so nothing else is written with it
        rcases of_mem_encodePath hmem with ⟨hself, hascii, hplain⟩ | hc | ⟨n, hn, hc⟩
        · obtain rfl := List.mem_singleton.1 hself
          rw [encodePath_of_plain hascii hplain] at hd
          cases a with
          | nil =>
            obtain ⟨-, rfl⟩ := List.cons.inj hd
            exact ⟨[], g, rfl, rfl, rfl⟩
          | cons e a =>
            have hlength := congrArg List.length hd
            simp only [List.length_cons, List.length_append, List.length_nil] at hlength
            omega
        · exact absurd hc hpercent
        · exact absurd hc (hdigit n hn)

/-- The same in front of a mark: characters that are neither percent signs nor the mark are those of
the path. -/
theorem exists_of_encodePath_append_mark {c : Char} {w rest t g : Text}
    (hw : ∀ a ∈ w, a ≠ '%' ∧ a ≠ c) (h : encodePath g ++ c :: t = w ++ rest) :
    ∃ g', g = w ++ g' ∧ rest = encodePath g' ++ c :: t := by
  have hpercent : '%' ∉ w := fun hmem => (hw '%' hmem).1 rfl
  rcases List.append_eq_append_iff.1 h with ⟨r, heq, hrest⟩ | ⟨r, hg, rfl⟩
  · cases r with
    | nil =>
      rw [List.append_nil] at heq
      have hw' : encodePath g = w ++ [] := by rw [heq, List.append_nil]
      obtain ⟨g', hg, hnil⟩ := exists_of_encodePath_append hpercent hw'
      exact ⟨g', hg, by rw [← hnil]; exact hrest.symm⟩
    | cons d r =>
      obtain rfl : c = d := (List.cons.inj hrest).1
      exact absurd rfl (hw c (by rw [heq]; simp)).2
  · obtain ⟨g', rfl, rfl⟩ := exists_of_encodePath_append hpercent hg
    exact ⟨g', rfl, rfl⟩

/-- What is written for a path stands for itself in a literal, but for backslashes. -/
theorem isOwnValue_of_mem_encodePath {p : Text} (hp : '\\' ∉ p) :
    ∀ c ∈ encodePath p, isOwnValue c := by
  intro c hc
  rcases of_mem_encodePath hc with ⟨hmem, hascii, hplain⟩ | rfl | ⟨n, hn, rfl⟩
  · have hne : ∀ e, isEncoded e = true → c ≠ e := by
      rintro e he rfl
      rw [hplain] at he
      cases he
    have hbackslash : c ≠ '\\' := by
      rintro rfl
      exact hp hmem
    simp [isOwnValue, hascii, hne '"' (by decide), hne '\n' (by decide), hne '\r' (by decide),
      hbackslash]
  · decide
  · have hdigit : ∀ n < 16, isOwnValue (hexDigit n) := by decide
    exact hdigit n hn

theorem toNat_lt_of_mem_encodePath {p : Text} {c : Char} (hc : c ∈ encodePath p) :
    c.toNat < 0x80 := by
  rcases of_mem_encodePath hc with ⟨-, hascii, -⟩ | rfl | ⟨n, hn, rfl⟩
  · exact hascii
  · decide
  · have hdigit : ∀ n < 16, (hexDigit n).toNat < 0x80 := by decide
    exact hdigit n hn

/-! ## Escapes -/

section Escapes

variable {c : Char} (hc : c = 'i' ∨ c = '?')

theorem lt_lookup_letterEscapes {a : Char} (ha : a.toNat < 0x80) :
    ((letterEscapes.lookup a).getD a).toNat < 0x80 := by
  have hall : ∀ p ∈ letterEscapes, p.2.toNat < 0x80 := by decide
  cases hlookup : letterEscapes.lookup a with
  | none => exact ha
  | some d =>
    obtain ⟨front, back, hletters, -⟩ := List.lookup_eq_some_iff.1 hlookup
    exact hall (a, d) (by rw [hletters]; simp)

include hc

/-- Hexadecimal digits in front of a mark are characters of the path. -/
theorem exists_of_hexEscape? {count : Nat} {g t rest : Text} {units : List Nat}
    (h : hexEscape? count (encodePath g ++ c :: t) = some (units, rest)) :
    ∃ w g' n, g = w ++ g' ∧ units = [n] ∧ rest = encodePath g' ++ c :: t := by
  obtain ⟨w, n, heq, -, hdigits, rfl⟩ := hexEscape?_eq_some h
  have hw : ∀ a ∈ w, a ≠ '%' ∧ a ≠ c := by
    intro a ha
    have hdigit := Template.Reference.isSome_of_digits? hdigits a ha
    constructor
    · rintro rfl
      exact absurd hdigit (by decide)
    · rintro rfl
      rcases hc with rfl | rfl <;> exact absurd hdigit (by decide)
  obtain ⟨g', rfl, rfl⟩ := exists_of_encodePath_append_mark hw heq
  exact ⟨w, g', n, rfl, rfl, rfl⟩

/-- Behind a character that is written as it is, an escape takes characters of the path. -/
theorem exists_of_escape?_plain {a : Char} {g t rest : Text} {units : List Nat}
    (hascii : a.toNat < 0x80) (hplain : isEncoded a = false)
    (h : escape? (a :: (encodePath g ++ c :: t)) = some (units, rest)) :
    ∃ w g' n, a :: g = w ++ g' ∧ w ≠ [] ∧ units = [n] ∧ rest = encodePath g' ++ c :: t := by
  have hne : ∀ e, isEncoded e = true → a ≠ e := by
    rintro e he rfl
    rw [hplain] at he
    cases he
  rw [escape?] at h
  split_ifs at h with hx hu hbrace hzero _ _ hreturn _ hend
  · obtain ⟨w, g', n, rfl, rfl, rfl⟩ := exists_of_hexEscape? hc h
    exact ⟨a :: w, g', n, rfl, List.cons_ne_nil _ _, rfl, rfl⟩
  · -- braces are written in bytes
    have hbrace : '\x7b' ∈ encodePath g ∨ c = '\x7b' := by
      cases hg : encodePath g with
      | nil =>
        rw [hg] at hbrace
        exact .inr (Option.some.inj hbrace)
      | cons d r =>
        rw [hg] at hbrace
        exact .inl (Option.some.inj hbrace ▸ List.mem_cons_self)
    rcases hbrace with hbrace | rfl
    · exact absurd hbrace (not_mem_encodePath (by decide) (by decide) g)
    · rcases hc with hc | hc <;> exact absurd hc (by decide)
  · obtain ⟨w, g', n, rfl, rfl, rfl⟩ := exists_of_hexEscape? hc h
    exact ⟨a :: w, g', n, rfl, List.cons_ne_nil _ _, rfl, rfl⟩
  · cases h
    exact ⟨[a], g, 0, rfl, List.cons_ne_nil _ _, rfl, rfl⟩
  · exact absurd hreturn (hne '\r' (by decide))
  · exact absurd hreturn (hne '\r' (by decide))
  · simp only [isLineEnd, Bool.or_eq_true, decide_eq_true_eq] at hend
    rcases hend with ((rfl | rfl) | rfl) | rfl <;>
      first | exact absurd rfl (hne _ (by decide)) | exact absurd hascii (by decide)
  · cases h
    have hsmall := lt_lookup_letterEscapes hascii
    exact ⟨[a], g, _, rfl, List.cons_ne_nil _ _, utf16_toNat hsmall, rfl⟩

/-- What an escape takes of a path: nothing but the mark behind it, the percent sign of a character
that is written in bytes, or characters of the path. -/
theorem escape?_encodePath {g t rest : Text} {units : List Nat}
    (h : escape? (encodePath g ++ c :: t) = some (units, rest)) :
    (g = [] ∧ units = [c.toNat] ∧ rest = t) ∨
    (∃ a g' tail, g = a :: g' ∧ encodePath [a] = '%' :: tail ∧ units = ['%'.toNat] ∧
      rest = tail ++ (encodePath g' ++ c :: t)) ∨
    ∃ w g' n, g = w ++ g' ∧ w ≠ [] ∧ units = [n] ∧ rest = encodePath g' ++ c :: t := by
  cases g with
  | nil =>
    have hmark : escape? (c :: t) = some ([c.toNat], t) := by
      rcases hc with rfl | rfl <;> rfl
    have hsame := hmark.symm.trans h
    cases hsame
    exact .inl ⟨rfl, rfl, rfl⟩
  | cons a g =>
    rw [encodePath_cons] at h
    rcases encodePath_singleton a with ⟨ha, hascii, hplain⟩ | ⟨tail, ha⟩
    · rw [ha, List.append_assoc, List.singleton_append] at h
      exact .inr (.inr (exists_of_escape?_plain hc hascii hplain h))
    · refine .inr (.inl ?_)
      rw [ha, List.append_assoc, List.cons_append] at h
      have hpercent : ∀ r, escape? ('%' :: r) = some (['%'.toNat], r) := fun r => rfl
      rw [hpercent] at h
      cases h
      exact ⟨a, g, tail, rfl, ha, rfl, rfl⟩

end Escapes

/-! ## What a literal says -/

/-- The text that code units stand for when they are asked for as an address. -/
def decoded (units : List Nat) : Text :=
  Percent.decodeText (ofUtf16 units)

@[simp] theorem decoded_nil : decoded [] = [] :=
  Percent.decodeText_of_no_percent List.not_mem_nil

/-- One more code unit in front gives at most one more character. -/
theorem length_decoded_cons_le (u : Nat) (t : List Nat) :
    (decoded (u :: t)).length ≤ (decoded t).length + 1 := by
  rcases ofUtf16_cons_cases u t with h | ⟨d, rest, h, ht⟩
  · rw [decoded, h]
    exact Percent.length_decodeText_cons_le _ _
  · have hless := Percent.length_decodeText_cons_le d rest
    have hlone := Percent.decodeText_cons (c := '\uFFFD') (by decide) rest
    rw [decoded, decoded, h, ht, hlone, List.length_cons]
    omega

theorem decoded_encodePath_append (p : Text) (t : List Nat) :
    decoded ((encodePath p).map Char.toNat ++ t) = p ++ decoded t := by
  rw [decoded, ofUtf16_ascii_append fun c hc => toNat_lt_of_mem_encodePath hc,
    decodeText_encodePath_append]
  rfl

/-- A literal says so many characters at most up to a mark, and goes on behind it. -/
def SaysAtMost (c : Char) (t behind : Text) (value : List Nat) (n : Nat) : Prop :=
  ∃ u₀ u₁, value = u₀ ++ c.toNat :: u₁ ∧ readLiteral? t = some (u₁, behind) ∧
    (decoded u₀).length ≤ n

section Says

variable {c : Char} {g t behind : Text} {value : List Nat} {n : Nat}

theorem saysAtMost_mark (h : readLiteral? t = some (value, behind)) :
    SaysAtMost c t behind (c.toNat :: value) 0 :=
  ⟨[], value, rfl, h, by simp⟩

theorem SaysAtMost.mono {m : Nat} (h : SaysAtMost c t behind value n) (hle : n ≤ m) :
    SaysAtMost c t behind value m := by
  obtain ⟨u₀, u₁, hvalue, hrest, hlength⟩ := h
  exact ⟨u₀, u₁, hvalue, hrest, Nat.le_trans hlength hle⟩

theorem SaysAtMost.cons (h : SaysAtMost c t behind value n) (u : Nat) :
    SaysAtMost c t behind (u :: value) (n + 1) := by
  obtain ⟨u₀, u₁, rfl, hrest, hlength⟩ := h
  exact ⟨u :: u₀, u₁, rfl, hrest,
    Nat.le_trans (length_decoded_cons_le u u₀) (Nat.succ_le_succ hlength)⟩

theorem SaysAtMost.path_append (h : SaysAtMost c t behind value n) (p : Text) :
    SaysAtMost c t behind ((encodePath p).map Char.toNat ++ value) (p.length + n) := by
  obtain ⟨u₀, u₁, rfl, hrest, hlength⟩ := h
  refine ⟨(encodePath p).map Char.toNat ++ u₀, u₁, by simp, hrest, ?_⟩
  rw [decoded_encodePath_append, List.length_append]
  exact Nat.add_le_add_left hlength _

variable (hc : c = 'i' ∨ c = '?')

include hc

/-- An escape says no more than the characters of the path that it takes, and the backslash itself
says nothing. -/
theorem saysAtMost_escape
    (ih : ∀ g' : Text, g'.length ≤ g.length → ∀ value,
      readLiteral? (encodePath g' ++ c :: t) = some (value, behind) →
        SaysAtMost c t behind value g'.length)
    (h : readLiteral? (encodePath ('\\' :: g) ++ c :: t) = some (value, behind)) :
    SaysAtMost c t behind value g.length := by
  have hbackslash : encodePath ('\\' :: g) = '\\' :: encodePath g := rfl
  rw [hbackslash, List.cons_append] at h
  obtain ⟨units, rest, value, hescape, hrest, rfl⟩ := readLiteral?_backslash h
  rcases escape?_encodePath hc hescape with ⟨rfl, rfl, rfl⟩ | ⟨a, g', tail, rfl, ha, rfl, rfl⟩ |
    ⟨w, g', n, rfl, hw, rfl, rfl⟩
  · exact saysAtMost_mark hrest
  · -- without the backslash the character is there as a whole
    have hplain : '\\' ∉ [a] := by
      intro hmem
      rw [← List.mem_singleton.1 hmem] at ha
      cases ha
    have htail : ∀ d ∈ tail, isOwnValue d := fun d hd =>
      isOwnValue_of_mem_encodePath hplain d (ha ▸ List.mem_cons_of_mem _ hd)
    rw [readLiteral?_append htail] at hrest
    obtain ⟨⟨value', behind'⟩, hvalue, heq⟩ := Option.map_eq_some_iff.1 hrest
    cases heq
    have hstep := (ih g' (Nat.le_succ _) value' hvalue).path_append [a]
    rw [ha] at hstep
    exact hstep.mono (Nat.add_comm _ _).le
  · have hpositive := List.length_pos_iff.2 hw
    have hlength : g'.length + 1 ≤ (w ++ g').length := by
      rw [List.length_append]
      omega
    exact ((ih g' (Nat.le_of_succ_le hlength) value hrest).cons n).mono hlength

/-- What a literal says of a path up to a mark is no longer than the path. -/
theorem saysAtMost_encodePath (g : Text) : ∀ value,
    readLiteral? (encodePath g ++ c :: t) = some (value, behind) →
      SaysAtMost c t behind value g.length := by
  -- an escape may take any number of characters, so the induction is on the length
  induction hn : g.length using Nat.strong_induction_on generalizing g with
  | _ n ih =>
    intro value h
    subst hn
    cases g with
    | nil =>
      have hmark : isOwnValue c := by rcases hc with rfl | rfl <;> decide
      have hread : readLiteral? ([c] ++ t) = some (value, behind) := h
      rw [readLiteral?_append (by simpa using hmark)] at hread
      obtain ⟨⟨u₁, behind'⟩, hu₁, heq⟩ := Option.map_eq_some_iff.1 hread
      cases heq
      exact saysAtMost_mark hu₁
    | cons a g =>
      by_cases ha : a = '\\'
      · subst ha
        have hshorter : ∀ g' : Text, g'.length ≤ g.length → ∀ value,
            readLiteral? (encodePath g' ++ c :: t) = some (value, behind) →
              SaysAtMost c t behind value g'.length :=
          fun g' hle => ih g'.length (Nat.lt_succ_of_le hle) g' rfl
        exact (saysAtMost_escape hc hshorter h).mono (Nat.le_succ _)
      · have hplain : '\\' ∉ [a] := by simpa using Ne.symm ha
        rw [encodePath_cons, List.append_assoc,
          readLiteral?_append (isOwnValue_of_mem_encodePath hplain)] at h
        obtain ⟨⟨value', behind'⟩, hvalue, heq⟩ := Option.map_eq_some_iff.1 h
        cases heq
        have hstep := ih g.length (Nat.lt_succ_self _) g rfl value' hvalue
        exact (hstep.path_append [a]).mono (Nat.add_comm _ _).le

/-- Behind a backslash a literal says less than the path. -/
theorem saysAtMost_backslash
    (h : readLiteral? (encodePath ('\\' :: g) ++ c :: t) = some (value, behind)) :
    SaysAtMost c t behind value g.length :=
  saysAtMost_escape hc (fun g' _ => saysAtMost_encodePath hc g') h

end Says

end ModuleServer.Component
