import ModuleServer.Proofs.Text.Cut
import ModuleServer.Proofs.Text.Pieces
import ModuleServer.Proofs.Text.Utf8
import ModuleServer.Server.Basic

/-!
# From a main module to its template module

The first line of a main module names an address. Whoever asks for that address, decoded as any
request is, asks for the template module of the same path, with the token that the main module took.

* `decodeText_encodePath`: a path comes back from what is written for it.
* `ofRaw_parameters`: the parameters of the address are read as they were written.
* `moduleCode_address` puts the two together.
-/

namespace ModuleServer

open Text

/-! ## Percent signs -/

namespace Percent

theorem decode_cons_of_ne {b : UInt8} (hb : b ≠ 37) (t : Bytes) :
    decode (b :: t) = b :: decode t := by
  match t with
  | [] => rfl
  | [_] => rfl
  | _ :: _ :: _ => rw [decode, if_neg hb]

/-- A character of ASCII is one byte. -/
theorem encodeChar_ascii {c : Char} (hc : c.toNat < 0x80) :
    Utf8.encodeChar c = [UInt8.ofNat c.toNat] := by
  rw [Utf8.encodeChar, Utf8.encodePoint, if_pos hc]
  rfl

/-- Only the percent sign has its byte: those of the characters behind ASCII are larger. -/
theorem ne_of_mem_encodeChar {c : Char} (hpercent : c ≠ '%') {b : UInt8}
    (hb : b ∈ Utf8.encodeChar c) : b ≠ 37 := by
  rintro rfl
  by_cases hc : c.toNat < 0x80
  · rw [encodeChar_ascii hc, List.mem_singleton] at hb
    have hnat : (UInt8.ofNat c.toNat).toNat = c.toNat :=
      UInt8.toNat_ofNat_of_lt' (Nat.lt_trans hc (by decide))
    rw [← hb] at hnat
    apply hpercent
    rw [← Char.ofNat_toNat c, ← hnat]
    rfl
  · obtain ⟨n, hn, hbyte⟩ := List.mem_map.1 hb
    have hlarge : 0x80 ≤ n ∧ n < 256 := by
      have hvalid : c.toNat < 0xD800 ∨ 0xDFFF < c.toNat ∧ c.toNat < 0x110000 := c.valid
      rw [Utf8.encodePoint, if_neg hc] at hn
      split_ifs at hn <;> simp only [List.mem_cons, List.not_mem_nil, or_false] at hn <;> omega
    have hnat : (UInt8.ofNat n).toNat = n := UInt8.toNat_ofNat_of_lt' hlarge.2
    rw [hbyte] at hnat
    have hsmall : (37 : UInt8).toNat = 37 := rfl
    omega

theorem decode_append {bytes : Bytes} (h : ∀ b ∈ bytes, b ≠ 37) (t : Bytes) :
    decode (bytes ++ t) = bytes ++ decode t := by
  induction bytes with
  | nil => rfl
  | cons b bytes ih =>
    obtain ⟨hb, hbytes⟩ := List.forall_mem_cons.1 h
    rw [List.cons_append, decode_cons_of_ne hb, ih hbytes, List.cons_append]

/-- Any other character than the percent sign stands for itself. -/
theorem decode_encodeChar {c : Char} (hpercent : c ≠ '%') (t : Bytes) :
    decode (Utf8.encodeChar c ++ t) = Utf8.encodeChar c ++ decode t :=
  decode_append (fun _ => ne_of_mem_encodeChar hpercent) t

/-- A text without percent signs stands for itself. -/
theorem decodeText_of_no_percent {t : Text} (h : '%' ∉ t) : decodeText t = t := by
  have hbytes : ∀ b ∈ Utf8.encode t, b ≠ 37 := by
    intro b hb
    obtain ⟨c, hc, hb⟩ := List.mem_flatMap.1 hb
    refine ne_of_mem_encodeChar ?_ hb
    rintro rfl
    exact h hc
  have hdecode := decode_append hbytes []
  rw [List.append_nil, decode, List.append_nil] at hdecode
  rw [decodeText, hdecode, Utf8.decodeLossy_encode]

theorem digit?_hexDigit : ∀ n < 16, (Component.hexDigit n).toNat < 0x80 ∧
    digit? (UInt8.ofNat (Component.hexDigit n).toNat) = some n := by
  decide

/-- A byte comes back from what is written for it. -/
theorem decode_encodeByte (b : UInt8) (t : Bytes) :
    decode (Utf8.encode (Component.encodeByte b) ++ t) = b :: decode t := by
  have hb : b.toNat < 256 := b.toNat_lt
  obtain ⟨hhigh, hhigh'⟩ := digit?_hexDigit (b.toNat / 16) (by omega)
  obtain ⟨hlow, hlow'⟩ := digit?_hexDigit (b.toNat % 16) (by omega)
  have hbytes : Utf8.encode (Component.encodeByte b) =
      [37, UInt8.ofNat (Component.hexDigit (b.toNat / 16)).toNat,
        UInt8.ofNat (Component.hexDigit (b.toNat % 16)).toNat] := by
    simp only [Utf8.encode, Component.encodeByte, List.flatMap_cons, List.flatMap_nil,
      encodeChar_ascii hhigh, encodeChar_ascii hlow]
    rfl
  have hvalue : b.toNat / 16 * 16 + b.toNat % 16 = b.toNat := by omega
  simp only [hbytes, List.cons_append, List.nil_append, decode, if_true, hhigh', hlow', hvalue,
    UInt8.ofNat_toNat]

theorem decode_flatMap_encodeByte (bytes t : Bytes) :
    decode (Utf8.encode (bytes.flatMap Component.encodeByte) ++ t) = bytes ++ decode t := by
  induction bytes with
  | nil => rfl
  | cons b bytes ih =>
    rw [List.flatMap_cons, Utf8.encode, List.flatMap_append, List.append_assoc, ← Utf8.encode,
      ← Utf8.encode, decode_encodeByte, ih]
    rfl

end Percent

/-! ## Paths -/

namespace Component

theorem isEncoded_hexDigit : ∀ n < 16, isEncoded (hexDigit n) = false := by
  decide

/-- What is written for a path are characters of it, percent signs and digits. -/
theorem of_mem_encodePath {path : Text} {c : Char} (h : c ∈ encodePath path) :
    (c ∈ path ∧ c.toNat < 0x80 ∧ isEncoded c = false) ∨ c = '%' ∨ ∃ n < 16, c = hexDigit n := by
  obtain ⟨d, hd, hc⟩ := List.mem_flatMap.1 h
  split at hc
  · rename_i hplain
    rw [Bool.and_eq_true, decide_eq_true_eq, Bool.not_eq_true'] at hplain
    obtain rfl := List.mem_singleton.1 hc
    exact .inl ⟨hd, hplain⟩
  · obtain ⟨b, -, hc⟩ := List.mem_flatMap.1 hc
    have hb : b.toNat < 256 := b.toNat_lt
    simp only [encodeByte, List.mem_cons, List.not_mem_nil, or_false] at hc
    rcases hc with rfl | rfl | rfl
    · exact .inr (.inl rfl)
    · exact .inr (.inr ⟨_, by omega, rfl⟩)
    · exact .inr (.inr ⟨_, by omega, rfl⟩)

/-- What is written for a path holds no character that is never written as it is, the percent sign
apart. -/
theorem isEncoded_of_mem_encodePath {path : Text} {c : Char} (h : c ∈ encodePath path) :
    c = '%' ∨ isEncoded c = false := by
  rcases of_mem_encodePath h with ⟨-, -, hplain⟩ | rfl | ⟨n, hn, rfl⟩
  · exact .inr hplain
  · exact .inl rfl
  · exact .inr (isEncoded_hexDigit n hn)

theorem not_mem_encodePath {c : Char} (hc : isEncoded c) (hpercent : c ≠ '%') (path : Text) :
    c ∉ encodePath path := by
  intro h
  rcases isEncoded_of_mem_encodePath h with rfl | hplain
  · exact hpercent rfl
  · exact absurd (hc.symm.trans hplain) Bool.noConfusion

theorem decode_encodePath_append (path : Text) (rest : Bytes) :
    Percent.decode (Utf8.encode (encodePath path) ++ rest) =
      Utf8.encode path ++ Percent.decode rest := by
  induction path with
  | nil => rfl
  | cons c path ih =>
    have hpath : Utf8.encode (c :: path) = Utf8.encodeChar c ++ Utf8.encode path := rfl
    rw [encodePath, List.flatMap_cons, ← encodePath, Utf8.encode_append, hpath, List.append_assoc,
      List.append_assoc]
    split
    · rename_i hplain
      rw [Bool.and_eq_true, decide_eq_true_eq, Bool.not_eq_true'] at hplain
      have hpercent : c ≠ '%' := by
        rintro rfl
        exact absurd hplain.2 (by decide)
      have hone : Utf8.encode [c] = Utf8.encodeChar c := List.append_nil _
      rw [hone, Percent.decode_encodeChar hpercent, ih]
    · rw [Percent.decode_flatMap_encodeByte, ih]

/-- A path comes back from what is written for it, whatever stands behind. -/
theorem decodeText_encodePath_append (path rest : Text) :
    Percent.decodeText (encodePath path ++ rest) = path ++ Percent.decodeText rest := by
  rw [Percent.decodeText, Utf8.encode_append, decode_encodePath_append, Utf8.decodeLossy,
    Utf8.units_encode_append, List.map_append, List.map_map]
  exact congrArg (· ++ _) (List.map_id path)

/-- A path comes back from what is written for it. -/
theorem decodeText_encodePath (path : Text) : Percent.decodeText (encodePath path) = path := by
  have h := decodeText_encodePath_append path []
  rw [List.append_nil, Percent.decodeText_of_no_percent List.not_mem_nil, List.append_nil] at h
  exact h

end Component

/-! ## Parameters -/

namespace Query

/-- Letters and digits stand for themselves. -/
theorem decodePart_alphanum {t : Text} (ht : t.all Char.isAlphanum) : decodePart t = t := by
  have hpercent : '%' ∉ t := fun h => absurd (List.all_eq_true.1 ht _ h) (by decide)
  have hplus : '+' ∉ t := fun h => absurd (List.all_eq_true.1 ht _ h) (by decide)
  rw [decodePart, replaceChar_of_not_mem hplus, Percent.decodeText_of_no_percent hpercent]

theorem cutParameter_eq {name : Text} (hname : name.all Char.isAlphanum) (value : Text) :
    cutParameter (name ++ '=' :: value) = (name, value) := by
  have hmem : '=' ∉ name := by
    intro h
    exact absurd (List.all_eq_true.1 hname _ h) (by decide)
  have hcut : cut? ['='] (name ++ '=' :: value) = some (name, value) := cut?_append hmem value
  rw [cutParameter, hcut]

/-- Two parameters of letters and digits under different names are read as they were written. -/
theorem ofRaw_parameters {name value name' value' : Text} (hname : name.all Char.isAlphanum)
    (hvalue : value.all Char.isAlphanum) (hname' : name'.all Char.isAlphanum)
    (hvalue' : value'.all Char.isAlphanum) (hne : name ≠ name') :
    ofRaw (name ++ '=' :: value ++ '&' :: (name' ++ '=' :: value')) =
      [(name, value), (name', value')] := by
  have hfree : ∀ name value : Text, name.all Char.isAlphanum → value.all Char.isAlphanum →
      ∀ c ∈ name ++ '=' :: value, decide (c = '&') = false := by
    intro name value hname hvalue c hc
    refine decide_eq_false ?_
    rintro rfl
    rcases List.mem_append.1 hc with h | h
    · exact absurd (List.all_eq_true.1 hname _ h) (by decide)
    rcases List.mem_cons.1 h with h | h
    · exact absurd h (by decide)
    · exact absurd (List.all_eq_true.1 hvalue _ h) (by decide)
  have hpieces : pieces (fun c => decide (c = '&'))
      (name ++ '=' :: value ++ '&' :: (name' ++ '=' :: value')) =
      [name ++ '=' :: value, name' ++ '=' :: value'] := by
    rw [pieces_append (by decide), pieces_of_no_separator (hfree _ _ hname hvalue),
      pieces_of_no_separator (hfree _ _ hname' hvalue')]
    rfl
  rw [ofRaw, hpieces, List.filter_cons_of_pos (by simp), List.filter_cons_of_pos (by simp),
    List.filter_nil, List.foldl_cons, List.foldl_cons, List.foldl_nil, cutParameter_eq hname,
    cutParameter_eq hname']
  dsimp only
  rw [decodePart_alphanum hname, decodePart_alphanum hvalue, decodePart_alphanum hname',
    decodePart_alphanum hvalue']
  simp only [Table.set, if_neg hne]

end Query

/-! ## The address -/

namespace Component

/-- What stands in front of the address in the first line of a main module. -/
def importStart : Text := "import \x7b render as _sfc_render \x7d from \"".toList

theorem all_isAlphanum_decimal (n : Nat) : (decimal n).all Char.isAlphanum := by
  refine List.all_eq_true.2 fun c hc => ?_
  have hdigit := Nat.isDigit_of_mem_toDigits (by decide) (by decide) hc
  rw [Char.isAlphanum, hdigit, Bool.or_true]

/-- A request for the address of a template module is one for the path it was written for. -/
theorem ofRaw_templateUrl {path : Text} (hpath : path.head? = some '/') (token : Nat) :
    ∃ raw query, cut? ['?'] (templateUrl path token) = some (raw, query) ∧
      Request.ofRaw raw (some query) = ⟨path,
        [("type".toList, "template".toList), ("d".toList, decimal token)]⟩ := by
  refine ⟨encodePath path, "type=template&d=".toList ++ decimal token, ?_, ?_⟩
  · have hurl : templateUrl path token =
        encodePath path ++ (['?'] ++ ("type=template&d=".toList ++ decimal token)) := by
      rw [templateUrl, List.append_assoc]
      rfl
    rw [hurl]
    exact cut?_append (not_mem_encodePath (by decide) (by decide) path) _
  · have hraw : "type=template&d=".toList ++ decimal token =
        "type".toList ++ '=' :: "template".toList ++ '&' :: ("d".toList ++ '=' :: decimal token) :=
      rfl
    have hquery : Query.ofRaw ("type=template&d=".toList ++ decimal token) =
        [("type".toList, "template".toList), ("d".toList, decimal token)] := by
      rw [hraw]
      exact Query.ofRaw_parameters (by decide) (by decide) (by decide)
        (all_isAlphanum_decimal token) (by decide)
    rw [Request.ofRaw, decodeText_encodePath, if_pos hpath, Option.map_some, hquery,
      Option.getD_some]

/-- The address holds no character that would end the literal or the line. -/
theorem not_mem_templateUrl {c : Char} (hc : isEncoded c) (hpercent : c ≠ '%')
    (hfixed : c ∉ "?type=template&d=".toList) (hdigit : c.isDigit = false) (path : Text)
    (token : Nat) : c ∉ templateUrl path token := by
  rw [templateUrl, List.mem_append, List.mem_append, not_or, not_or]
  refine ⟨⟨not_mem_encodePath hc hpercent path, hfixed⟩, ?_⟩
  intro h
  have htrue := Nat.isDigit_of_mem_toDigits (by decide) (by decide) h
  exact absurd (htrue.symm.trans hdigit) Bool.noConfusion

/-- A main module starts with the line that imports the render function. -/
theorem mainModule_eq (path : Text) (token : Nat) (c : Component) :
    ∃ behind, mainModule path token c =
      importStart ++ templateUrl path token ++ ['"', '\n'] ++ behind := by
  obtain ⟨object, hobject⟩ : ∃ object, mainModule path token c =
      endLine (importLine path token ++ object) ++ exportLines := ⟨_, rfl⟩
  obtain ⟨tail, htail⟩ : ∃ tail, endLine (importLine path token ++ object) =
      importLine path token ++ object ++ tail := by
    rw [endLine]
    split
    · exact ⟨[], (List.append_nil _).symm⟩
    · exact ⟨['\n'], rfl⟩
  have hline : importLine path token =
      importStart ++ templateUrl path token ++ ['"', '\n'] := rfl
  refine ⟨object ++ tail ++ exportLines, ?_⟩
  rw [hobject, htail, hline]
  simp only [List.append_assoc]

end Component

/-- The first line of a main module imports from one address without a double quote and without a
line feed. A request for what stands before and behind its first question mark is one for the path
of the main module, with the token just taken: it asks for the template module of the same file. -/
theorem moduleCode_address {path source code : Text} {clock next : Clock} {reading : Nat}
    (hpath : path.head? = some '/')
    (h : moduleCode (.component .main) path source clock reading = (.ok code, next)) :
    ∃! url, '"' ∉ url ∧ '\n' ∉ url ∧
      (∃ behind, code = Component.importStart ++ url ++ ['"', '\n'] ++ behind) ∧
      ∃ raw query, cut? ['?'] url = some (raw, query) ∧
        let request := Request.ofRaw raw (some query)
        request.path = path ∧
          request.query = [("type".toList, "template".toList), ("d".toList, decimal next.last)] ∧
          request.variant = .ok .template ∧
          ∀ query, request.extension? = (Request.mk path query).extension? := by
  obtain ⟨c, -, hcode, hlast⟩ : ∃ c, Component.read path source = .ok c ∧
      code = Component.mainModule path (clock.tick reading) c ∧ clock.tick reading = next.last := by
    rw [moduleCode] at h
    cases hread : Component.read path source with
    | error e =>
      rw [hread] at h
      cases h
    | ok c =>
      rw [hread] at h
      cases h
      exact ⟨c, rfl, rfl, rfl⟩
  obtain ⟨raw, query, hcut, hrequest⟩ := Component.ofRaw_templateUrl hpath (clock.tick reading)
  have hquote : '"' ∉ Component.templateUrl path (clock.tick reading) :=
    Component.not_mem_templateUrl (by decide) (by decide) (by decide) (by decide) path _
  refine ⟨Component.templateUrl path (clock.tick reading), ⟨hquote, ?_, ?_, ?_⟩, ?_⟩
  · exact Component.not_mem_templateUrl (by decide) (by decide) (by decide) (by decide) path _
  · rw [hcode]
    exact Component.mainModule_eq path _ c
  · refine ⟨raw, query, hcut, ?_⟩
    rw [hrequest, ← hlast]
    exact ⟨rfl, rfl, rfl, fun _ => rfl⟩
  · -- both addresses end at the first double quote behind the same words
    rintro url ⟨hfree, -, ⟨behind, hbehind⟩, -⟩
    obtain ⟨behind', hbehind'⟩ := Component.mainModule_eq path (clock.tick reading) c
    rw [← hcode, hbehind] at hbehind'
    simp only [List.append_assoc, List.append_cancel_left_eq] at hbehind'
    have hurl : cut? ['"'] (url ++ (['"', '\n'] ++ behind)) = some (url, '\n' :: behind) :=
      cut?_append hfree _
    have hurl' : cut? ['"'] (Component.templateUrl path (clock.tick reading) ++
        (['"', '\n'] ++ behind')) =
        some (Component.templateUrl path (clock.tick reading), '\n' :: behind') :=
      cut?_append hquote _
    rw [hbehind', hurl'] at hurl
    exact (Prod.mk.inj (Option.some.inj hurl)).1.symm

/-- A path with characters that have a meaning in an address, in a string and in a line. -/
def awkwardPath : Text := "/a b%3F?#&'\"é\n\u2028.vue".toList

theorem moduleCode_address_awkwardPath :
    let code := Component.mainModule awkwardPath 7
      ⟨none, some ⟨"export default 0".toList, [], ⟨8, 24⟩⟩, none⟩
    awkwardPath.head? = some '/' ∧
      moduleCode (.component .main) awkwardPath "<script>export default 0</script>".toList
        .start 7 = (.ok code, ⟨7⟩) ∧
      ∃ url raw query, (∃ behind, code = Component.importStart ++ url ++ ['"', '\n'] ++ behind) ∧
        cut? ['?'] url = some (raw, query) ∧ (Request.ofRaw raw (some query)).path = awkwardPath ∧
        (Request.ofRaw raw (some query)).variant = .ok .template := by
  intro code
  have hpath : awkwardPath.head? = some '/' := rfl
  have hmodule : moduleCode (.component .main) awkwardPath
      "<script>export default 0</script>".toList .start 7 = (.ok code, ⟨7⟩) := by
    decide +kernel
  obtain ⟨url, ⟨-, -, hcode, raw, query, hcut, hrequest, -, hvariant, -⟩, -⟩ :=
    moduleCode_address hpath hmodule
  exact ⟨hpath, hmodule, url, raw, query, hcode, hcut, hrequest, hvariant⟩

end ModuleServer
