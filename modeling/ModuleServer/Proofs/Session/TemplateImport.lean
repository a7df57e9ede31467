import ModuleServer.Proofs.Import.Mistaken
import ModuleServer.Proofs.Session.Origin
import ModuleServer.Proofs.Session.Tokens

/-!
# The import of the render function, as a program reads it

The address of a template module is written for a path, stands in a string literal, and is asked for
as the program understands it. Three languages meet here. A path may hold characters that are
written as they are, and have a meaning in the literal or in the code around it: a backslash starts an
escape, and the word for imports with a single quote behind it starts a specifier.

* `importedRequest?` is the request that a program makes for the literal.
* `importedRequest?_templateUrl`: without such characters it is for the path of the component.
* `path_ne_of_slash` and `path_ne_of_backslash`: with either of them it never is.
* `Session.templateImport_iff` puts these together for every main module that is served.
-/

namespace ModuleServer

open Text Script Component

/-- The address that a program reads off the literal at the start of a text, parted at its first
question mark. The opening quote has been read. -/
def address? (literal : Text) : Option (Text × Text) :=
  (readLiteral? literal).bind fun (value, _) => cut? ['?'] (ofUtf16 value)

/-- The request that a program makes for a literal, if its value has a question mark. -/
def importedRequest? (literal : Text) : Option Request :=
  (address? literal).map fun (raw, query) => Request.ofRaw raw (some query)

theorem address?_eq_some_iff {literal raw query : Text} : address? literal = some (raw, query) ↔
    ∃ value behind, readLiteral? literal = some (value, behind) ∧
      ofUtf16 value = raw ++ '?' :: query ∧ '?' ∉ raw := by
  rw [address?, Option.bind_eq_some_iff]
  constructor
  · rintro ⟨⟨value, behind⟩, hread, hcut⟩
    exact ⟨value, behind, hread, cut?_singleton_iff.1 hcut⟩
  · rintro ⟨value, behind, hread, hcut⟩
    exact ⟨(value, behind), hread, cut?_singleton_iff.2 hcut⟩

/-- Characters that stand for themselves stand at the start of the address. -/
theorem exists_of_address?_append {w t raw query : Text} (hw : ∀ c ∈ w, isOwnValue c)
    (hmark : '?' ∉ w) (h : address? (w ++ t) = some (raw, query)) :
    ∃ raw', raw = w ++ raw' ∧ address? t = some (raw', query) := by
  obtain ⟨value, behind, hread, htext, hraw⟩ := address?_eq_some_iff.1 h
  rw [readLiteral?_append hw] at hread
  obtain ⟨⟨value', behind'⟩, hvalue', heq⟩ := Option.map_eq_some_iff.1 hread
  cases heq
  rw [ofUtf16_ascii_append fun c hc => toNat_lt_of_isOwnValue (hw c hc)] at htext
  rcases List.append_eq_append_iff.1 htext with ⟨raw', rfl, hrest⟩ | ⟨v, rfl, hrest⟩
  · refine ⟨raw', rfl, address?_eq_some_iff.2 ⟨value', _, hvalue', hrest, fun hmem => ?_⟩⟩
    exact hraw (List.mem_append_right _ hmem)
  · cases v with
    | nil =>
      refine ⟨[], by simp, address?_eq_some_iff.2 ⟨value', _, hvalue', hrest.symm, ?_⟩⟩
      exact List.not_mem_nil
    | cons d v =>
      obtain rfl : '?' = d := (List.cons.inj hrest).1
      exact absurd (by simp) hmark

/-! ## Paths that are read as they were written -/

theorem isOwnValue_of_isDigit {c : Char} (h : c.isDigit) : isOwnValue c := by
  have hbound : c.toNat ≤ 57 := (Char.isDigit_iff_toNat.1 h).2
  have hne : ∀ d, d.isDigit = false → c ≠ d := by
    rintro d hd rfl
    rw [h] at hd
    cases hd
  simp [isOwnValue, hne '"' (by decide), hne '\\' (by decide), hne '\n' (by decide),
    hne '\r' (by decide)]
  omega

theorem isOwnValue_of_mem_templateUrl {path : Text} {token : Nat} (h : '\\' ∉ path) :
    ∀ c ∈ templateUrl path token, isOwnValue c := by
  have hfixed : "?type=template&d=".toList.all isOwnValue := by decide
  intro c hc
  rw [templateUrl, List.mem_append, List.mem_append] at hc
  rcases hc with (hc | hc) | hc
  · exact isOwnValue_of_mem_encodePath h c hc
  · exact List.all_eq_true.1 hfixed c hc
  · exact isOwnValue_of_isDigit (Nat.isDigit_of_mem_toDigits (by decide) (by decide) hc)

/-- Without a backslash in the path the request is for the template module of the path. -/
theorem importedRequest?_templateUrl {path : Text} (hslash : path.head? = some '/')
    (hbackslash : '\\' ∉ path) (token : Nat) (behind : Text) :
    importedRequest? (templateUrl path token ++ '"' :: behind) =
      some ⟨path, [("type".toList, "template".toList), ("d".toList, decimal token)]⟩ := by
  have hown : ∀ c ∈ templateUrl path token, isOwnValue c := isOwnValue_of_mem_templateUrl hbackslash
  have hend : readLiteral? ('"' :: behind) = some ([], behind) := by
    rw [readLiteral?, if_pos rfl]
  obtain ⟨raw, query, hcut, hrequest⟩ := ofRaw_templateUrl hslash token
  rw [importedRequest?, address?, readLiteral?_append hown, hend]
  dsimp only [Option.map_some, Option.bind_some]
  rw [ofUtf16_ascii_append fun c hc => toNat_lt_of_isOwnValue (hown c hc), ofUtf16, List.append_nil,
    hcut, Option.map_some, hrequest]

/-! ## Paths that are read otherwise -/

/-- What is read behind the start of a path is decoded behind it. -/
theorem exists_of_importedRequest? {front t : Text} {r : Request} (hslash : front.head? = some '/')
    (hbackslash : '\\' ∉ front) (h : importedRequest? (encodePath front ++ t) = some r) :
    ∃ raw query, address? t = some (raw, query) ∧ r.path = front ++ Percent.decodeText raw := by
  obtain ⟨⟨_, query⟩, hread, hrequest⟩ := Option.map_eq_some_iff.1 h
  obtain ⟨raw, rfl, haddress⟩ := exists_of_address?_append (isOwnValue_of_mem_encodePath hbackslash)
    (not_mem_encodePath (by decide) (by decide) front) hread
  refine ⟨raw, query, haddress, ?_⟩
  dsimp only at hrequest
  have hhead : (front ++ Percent.decodeText raw).head? = some '/' := by
    rw [List.head?_append, hslash]
    rfl
  rw [← hrequest, Request.ofRaw, decodeText_encodePath_append, if_pos hhead]

/-- Where the literal goes on with a slash and the path does not, the request is for another path. -/
theorem path_ne_of_slash {front behind t : Text} {d : Char} {r : Request}
    (hslash : front.head? = some '/') (hbackslash : '\\' ∉ front) (hd : d ≠ '/')
    (h : importedRequest? (encodePath front ++ '/' :: t) = some r) : r.path ≠ front ++ d :: behind := by
  obtain ⟨raw, query, haddress, hpath⟩ := exists_of_importedRequest? hslash hbackslash h
  have hown : ['/'].all isOwnValue := by decide
  obtain ⟨raw, rfl, -⟩ :=
    exists_of_address?_append (List.all_eq_true.1 hown) (by decide) haddress
  rw [hpath, List.singleton_append, Percent.decodeText_cons (by decide)]
  intro hsame
  exact hd (List.cons.inj (List.append_cancel_left hsame)).1.symm

/-- What is read behind a backslash of a path, up to a mark: too little, or something that goes on
behind the mark. -/
theorem length_le_or_exists {c : Char} (hc : c = 'i' ∨ c = '?') {g t raw query : Text}
    (h : address? (encodePath ('\\' :: g) ++ c :: t) = some (raw, query)) :
    (Percent.decodeText raw).length ≤ g.length ∨
      c = 'i' ∧ ∃ said raw', Percent.decodeText raw = said ++ 'i' :: Percent.decodeText raw' ∧
        said.length ≤ g.length ∧ address? t = some (raw', query) := by
  obtain ⟨value, behind, hread, htext, hmark⟩ := address?_eq_some_iff.1 h
  obtain ⟨u₀, u₁, rfl, hu₁, hsaid⟩ := saysAtMost_backslash hc hread
  rw [decoded] at hsaid
  have hascii : c.toNat < 0x80 := by rcases hc with rfl | rfl <;> decide
  rw [ofUtf16_append_cons hascii] at htext
  rcases List.append_eq_append_iff.1 htext with ⟨w, rfl, hrest⟩ | ⟨w, hu₀, hrest⟩
  · cases w with
    | nil =>
      rw [List.append_nil]
      exact .inl hsaid
    | cons d raw' =>
      obtain ⟨hd, htail⟩ := List.cons.inj hrest
      subst hd
      obtain rfl : c = 'i' := by
        refine hc.resolve_right ?_
        rintro rfl
        exact hmark (by simp)
      refine .inr ⟨rfl, _, raw', ?_, hsaid, address?_eq_some_iff.2 ⟨u₁, behind, hu₁, htail, ?_⟩⟩
      · exact Percent.decodeText_append_cons (by decide) (by decide) (by decide) _ _
      · exact fun hmem => hmark (by simp [hmem])
  · cases w with
    | nil =>
      rw [List.append_nil] at hu₀
      rw [← hu₀]
      exact .inl hsaid
    | cons d w =>
      -- the value has its first question mark before the mark is reached
      obtain rfl : '?' = d := (List.cons.inj hrest).1
      rw [hu₀, Percent.decodeText_append_cons (by decide) (by decide) (by decide),
        List.length_append] at hsaid
      exact .inl (by omega)

/-- Where a path has a backslash, the request is for another path. What stands in the literal is what
is written for the path up to a mark: the question mark behind the path, or the word for imports and
the quote where the path has them first. -/
theorem path_ne_of_backslash {front g rest t : Text} {c : Char} {r : Request}
    (hslash : front.head? = some '/') (hbackslash : '\\' ∉ front)
    (hc : c = '?' ∨ (∃ t', c :: t = Import.importQuote ++ t') ∧
      ∀ a b, g ++ rest = a ++ Import.importQuote ++ b → g.length ≤ a.length)
    (h : importedRequest? (encodePath (front ++ '\\' :: g) ++ c :: t) = some r) :
    r.path ≠ front ++ '\\' :: (g ++ rest) := by
  rw [encodePath_append, List.append_assoc] at h
  obtain ⟨raw, query, haddress, hpath⟩ := exists_of_importedRequest? hslash hbackslash h
  intro hsame
  have hraw : Percent.decodeText raw = '\\' :: (g ++ rest) :=
    List.append_cancel_left (hpath.symm.trans hsame)
  have hmark : c = 'i' ∨ c = '?' :=
    hc.elim .inr fun hword => .inl (hword.1.elim fun _ ht => (List.cons.inj ht).1)
  rcases length_le_or_exists hmark haddress with hle | ⟨rfl, said, raw', hsaid, hle, haddress'⟩
  · rw [hraw, List.length_cons, List.length_append] at hle
    omega
  · obtain ⟨⟨t', ht⟩, hfirst⟩ := hc.resolve_left (by decide)
    obtain rfl : t = "mport'".toList ++ t' := (List.cons.inj ht).2
    have hown : "mport'".toList.all isOwnValue := by decide
    obtain ⟨raw', rfl, -⟩ :=
      exists_of_address?_append (List.all_eq_true.1 hown) (by decide) haddress'
    -- so the path has the word for imports and the quote before it does
    have hread : Percent.decodeText ("mport'".toList ++ raw') =
        "mport'".toList ++ Percent.decodeText raw' :=
      decodeText_encodePath_append "mport'".toList raw'
    rw [hraw, hread] at hsaid
    cases said with
    | nil => exact absurd (List.cons.inj hsaid).1 (by decide)
    | cons d said =>
      have hearlier := hfirst said (Percent.decodeText raw') (by
        rw [(List.cons.inj hsaid).2]
        simp [Import.importQuote, Import.importWord])
      rw [List.length_cons] at hle
      omega

/-- A path that starts with a slash has something before its first backslash. -/
theorem exists_first_backslash {path : Text} (hslash : path.head? = some '/') (h : '\\' ∈ path) :
    ∃ front behind, path = front ++ '\\' :: behind ∧ '\\' ∉ front ∧ front.head? = some '/' := by
  obtain ⟨front, behind, rfl, hfront⟩ := List.eq_append_cons_of_mem h
  refine ⟨front, behind, rfl, hfront, ?_⟩
  cases front with
  | nil => exact absurd (Option.some.inj hslash) (by decide)
  | cons c front => exact hslash

/-- The same where the literal goes on otherwise than the path, but has a word for imports and a
quote of the path: the first of these behind the backslash is the mark. -/
theorem path_ne_of_backslash_of_importQuote {front behind t : Text} {r : Request}
    (hslash : front.head? = some '/') (hmem : '\\' ∈ front)
    (h : importedRequest? (encodePath (front ++ Import.importQuote) ++ t) = some r) :
    r.path ≠ front ++ Import.importQuote ++ behind := by
  obtain ⟨a, b, rfl, ha, hhead⟩ := exists_first_backslash hslash hmem
  have hne : Import.importQuote ≠ [] := by simp [Import.importQuote]
  obtain ⟨g, w, hg, hfirst⟩ := exists_first_occurrence hne b
  have hwhole : b ++ Import.importQuote ++ behind =
      g ++ (Import.importQuote ++ (w ++ behind)) := by
    rw [hg]
    simp only [List.append_assoc]
  have hsame : a ++ '\\' :: b ++ Import.importQuote ++ behind =
      a ++ '\\' :: (g ++ (Import.importQuote ++ (w ++ behind))) := by
    rw [← hwhole]
    simp
  have hread : encodePath (a ++ '\\' :: b ++ Import.importQuote) =
      encodePath (a ++ '\\' :: g) ++ (Import.importQuote ++ encodePath w) := by
    have hword : encodePath Import.importQuote = Import.importQuote := rfl
    have hparts : a ++ '\\' :: b ++ Import.importQuote =
        a ++ '\\' :: g ++ (Import.importQuote ++ w) := by
      simp [hg]
    rw [hparts, encodePath_append (a ++ '\\' :: g), encodePath_append Import.importQuote, hword]
  rw [hread, List.append_assoc] at h
  rw [hsame]
  exact path_ne_of_backslash hhead ha (.inr ⟨⟨_, rfl⟩, fun x y => hwhole ▸ hfirst behind x y⟩) h

/-! ## The path in the line -/

section Rewritten

variable {σ ε : Type} {resolve : Import.Resolution σ ε} {s s' : σ} {path path' : Text}
  (hslash : path.head? = some '/')
  (hpath : Import.resolveSegments resolve
    (Import.segmentsFrom .sideEffect false (encodePath path)) s = (.ok path', s'))

include hslash hpath

/-- Where nothing in the path is read otherwise, the request is for the template module. -/
theorem importedRequest?_of_plain (hbackslash : '\\' ∉ path) (hnone : Import.mistaken path = [])
    (token : Nat) (behind : Text) :
    importedRequest? (path' ++ "?type=template&d=".toList ++ decimal token ++ '"' :: behind) =
      some ⟨path, [("type".toList, "template".toList), ("d".toList, decimal token)]⟩ := by
  obtain rfl := Import.eq_of_mistaken_eq_nil hnone hpath
  exact importedRequest?_templateUrl hslash hbackslash token behind

/-- Where something in the path is read otherwise, the request is for another path, as long as
packages are served under addresses that start with a slash. -/
theorem path_ne_of_misread {query : Text} {r : Request}
    (hurl : ∀ spec url, Specifier.isBare spec → (resolve spec s).1 = .ok url → url.head? = some '/')
    (hmisread : '\\' ∈ path ∨ Import.mistaken path ≠ [])
    (h : importedRequest? (path' ++ '?' :: query) = some r) : r.path ≠ path := by
  by_cases hnone : Import.mistaken path = []
  · obtain rfl := Import.eq_of_mistaken_eq_nil hnone hpath
    obtain ⟨a, b, rfl, ha, hhead⟩ :=
      exists_first_backslash hslash (hmisread.resolve_right (not_not.2 hnone))
    have hne : r.path ≠ a ++ '\\' :: (b ++ []) := path_ne_of_backslash hhead ha (.inl rfl) h
    rwa [List.append_nil] at hne
  · obtain ⟨front, d, back, spec, url, rest, rfl, hd, hbare, hresolve, rfl⟩ :=
      Import.exists_of_mistaken hnone hpath
    have hfront : ∀ {a b : Text}, (a ++ b).head? = some '/' → a ≠ [] → a.head? = some '/' := by
      intro a b hhead ha
      rwa [List.head?_append_of_ne_nil _ ha] at hhead
    rw [List.append_assoc] at h
    by_cases hmem : '\\' ∈ front
    · rw [List.append_assoc] at hslash
      exact path_ne_of_backslash_of_importQuote (hfront hslash (List.ne_nil_of_mem hmem)) hmem h
    · -- an address of a package goes on with a slash, and the path does not
      obtain ⟨url, rfl⟩ : ∃ url', url = '/' :: url' :=
        List.head?_eq_some_iff.1 (hurl spec url hbare hresolve)
      refine path_ne_of_slash (hfront hslash ?_) ?_ hd h
      · simp [Import.importQuote]
      · simpa [Import.importQuote, Import.importWord] using hmem

/-- So the request is for the path only if nothing in it is read otherwise. -/
theorem plain_of_path_eq {token : Nat} {behind : Text} {r : Request}
    (hurl : ∀ spec url, Specifier.isBare spec → (resolve spec s).1 = .ok url → url.head? = some '/')
    (h : importedRequest? (path' ++ "?type=template&d=".toList ++ decimal token ++ behind) = some r)
    (hsame : r.path = path) : '\\' ∉ path ∧ Import.mistaken path = [] := by
  have hmark : path' ++ "?type=template&d=".toList ++ decimal token ++ behind =
      path' ++ '?' :: ("type=template&d=".toList ++ decimal token ++ behind) := by
    simp only [List.append_assoc]
    rfl
  rw [hmark] at h
  by_contra hplain
  rw [not_and_or, not_not] at hplain
  exact path_ne_of_misread hslash hpath hurl hplain h hsame

end Rewritten

/-! ## Main modules -/

namespace Server

variable {s s' : Server} {tree : FileTree} {reading : Nat} {r : Request} {served : Served}

/-- The first line of a main module imports its template module, from the file that it was made of,
exactly if nothing in the path is read otherwise. -/
theorem exists_literal_of_main (hmemo : s.memo.IsRooted) (hslash : r.path.head? = some '/')
    (h : s.handle tree reading r = (.ok served, s')) (hkind : served.kind = .component .main) :
    ∃ literal source, served.body = Utf8.encode (importStart ++ literal) ∧
      s.config.findModule tree r = .ok (.component .main, source) ∧
      ((∃ imported, importedRequest? literal = some imported ∧ imported.path = r.path) ↔
        '\\' ∉ r.path ∧ Import.mistaken r.path = []) ∧
      ∀ imported, importedRequest? literal = some imported → imported.path = r.path →
        imported.variant = .ok .template ∧
          s.config.findModule tree imported = .ok (.component .template, source) := by
  obtain ⟨-, -, source, behind, text, hfind, htext, hbody⟩ := exists_of_main h hkind
  obtain ⟨code₁, memo, path', memo', behind', hclause, hpath, -, rfl⟩ :=
    Import.resolveAll_templateUrl hslash htext
  -- the memo is still rooted when the path is taken for code
  have hrooted : memo.IsRooted := by
    have hasked : ∀ spec (memo : Specifier.Memo), Specifier.isBare spec → memo.IsRooted →
        (s.config.resolution tree spec memo).2.IsRooted :=
      fun spec memo _ hmemo => Specifier.isRooted_resolve hmemo s.config tree spec
    have hkept := Import.replace_keeps hasked .clause
      (importStart ++ templateUrl r.path s'.clock.last ++ ['"', '\n'] ++ behind) s.memo hmemo
    rw [hclause] at hkept
    exact hkept
  have hurl : ∀ spec url, Specifier.isBare spec →
      (s.config.resolution tree spec memo).1 = .ok url → url.head? = some '/' := by
    intro spec url _ hurl
    obtain ⟨resolved, hresolved, rfl⟩ := Render.map_eq_ok.1 hurl
    exact Specifier.head?_url_of_resolve hrooted hresolved
  refine ⟨path' ++ "?type=template&d=".toList ++ decimal s'.clock.last ++ '"' :: '\n' :: behind',
    source, ?_, hfind, ⟨?_, ?_⟩, ?_⟩
  · rw [hbody]
    simp
  · rintro ⟨imported, himported, hsame⟩
    exact plain_of_path_eq hslash hpath hurl himported hsame
  · rintro ⟨hbackslash, hnone⟩
    exact ⟨_, importedRequest?_of_plain hslash hpath hbackslash hnone _ _, rfl⟩
  · intro imported himported hsame
    obtain ⟨hbackslash, hnone⟩ := plain_of_path_eq hslash hpath hurl himported hsame
    rw [importedRequest?_of_plain hslash hpath hbackslash hnone] at himported
    obtain rfl := Option.some.inj himported
    exact ⟨rfl, Config.findModule_component hfind rfl rfl⟩

end Server

namespace Session

/-- The import of the render function survives being read by a program exactly for paths without
backslashes in which nothing is taken for an import. In every state of a server, what a program asks
for at the literal in the first line of a main module is for the path of that module if and only if
the path has no backslash and no bare specifier is found in it; then it is for the template module,
made from the same file. Other paths are served all the same, since a backslash parts the names of a
path as a slash does, and a semicolon or a quote may stand in a name. -/
theorem templateImport_iff {config : Config} {tree : FileTree} {steps : List Step} {reading : Nat}
    {r : Request} {served : Served} (hslash : r.path.head? = some '/') :
    let s := ((start config tree).run steps).2
    (s.server.handle s.tree reading r).1 = .ok served → served.kind = .component .main →
      ∃ literal source, served.body = Utf8.encode (importStart ++ literal) ∧
        config.findModule s.tree r = .ok (.component .main, source) ∧
        ((∃ imported, importedRequest? literal = some imported ∧ imported.path = r.path) ↔
          '\\' ∉ r.path ∧ Import.mistaken r.path = []) ∧
        ∀ imported, importedRequest? literal = some imported → imported.path = r.path →
          imported.variant = .ok .template ∧
            config.findModule s.tree imported = .ok (.component .template, source) := by
  intro s h hkind
  have hconfig : s.server.config = config := config_run _ steps
  rw [← hconfig]
  exact Server.exists_literal_of_main (isRooted_run config tree steps) hslash (Prod.ext h rfl) hkind

/-- A component under three spellings of its path, of which a program can ask for the first alone. -/
theorem templateImport_iff_oneComponent :
    let config : Config := { root := "/p".toList }
    let steps : List Step := [.handle (.ofRaw "/App.vue".toList none) 7, .reload]
    let s := ((start config (Server.oneComponent "<template><p/></template>".toList)).run steps).2
    ∀ path, path = "/./App.vue".toList ∨ path = "/.\\App.vue".toList ∨
        path = "/;import'vue'/../App.vue".toList →
      ∃ served literal, (s.server.handle s.tree 8 ⟨path, []⟩).1 = .ok served ∧
        served.body = Utf8.encode (importStart ++ literal) ∧
        ((∃ imported, importedRequest? literal = some imported ∧ imported.path = path) ↔
          path = "/./App.vue".toList) := by
  intro config steps s path hpath
  have hserved : ((s.server.handle s.tree 8 ⟨path, []⟩).1.map Served.kind) =
      .ok (.component .main) := by
    rcases hpath with rfl | rfl | rfl <;> decide +kernel
  obtain ⟨served, hserved, hkind⟩ := Render.map_eq_ok.1 hserved
  have hslash : (Request.mk path []).path.head? = some '/' := by
    rcases hpath with rfl | rfl | rfl <;> rfl
  obtain ⟨literal, -, hbody, -, hiff, -⟩ := templateImport_iff hslash hserved hkind.symm
  refine ⟨served, literal, hserved, hbody, hiff.trans ?_⟩
  rcases hpath with rfl | rfl | rfl <;> decide +kernel

end Session

end ModuleServer
