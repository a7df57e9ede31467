import ModuleServer.Proofs.Files.Components
import ModuleServer.Proofs.Server.Confinement

/-!
# The entry document

The entry document is configured as a path from the root, and served at that path with all slashes
and dots in front of it left out. What is left out can be segments that lead nowhere, and then the
path leads where it did; but it can also be the dots that a hidden name starts with.

* `Entry.Keeps` says for which paths nothing else is left out, `Entry.segments?_kept_iff` that it
  does.
* `Server.handle_entry`: the entry document is the configured file for these paths, and for all
  others that file is not even looked for.
-/

namespace ModuleServer

open Text

/-! ## What is left out of an entry -/

namespace Entry

open ModuleServer.Path

/-- The characters that are left out in front of an entry. -/
def isLead (c : Char) : Bool :=
  c = '/' || c = '.'

/-- An entry without the slashes and dots in front of it. -/
def kept (entry : Text) : Text :=
  entry.dropWhile isLead

/-- The name that what is kept starts with; empty if it starts with a separator. -/
def name (entry : Text) : Text :=
  (kept entry).takeWhile fun c => !isSeparator c

/-- What stands behind that name. -/
def behind (entry : Text) : Text :=
  (kept entry).dropWhile fun c => !isSeparator c

/-- The dots that the name has lost: those at the end of what is left out. -/
def lostDots (entry : Text) : Text :=
  if name entry = [] then []
  else ((entry.takeWhile isLead).reverse.takeWhile (· = '.')).reverse

/-- What is left out before them. -/
def front (entry : Text) : Text :=
  if name entry = [] then entry.takeWhile isLead
  else ((entry.takeWhile isLead).reverse.dropWhile (· = '.')).reverse

/-- An entry leads to the same place without what is left out: the segments before the first name
lead nowhere, and if the name loses dots then it is left again. -/
structure Keeps (entry : Text) : Prop where
  idle : segments? (front entry) = some []
  left : lostDots entry ≠ [] → segments? (behind entry) = none

instance (entry : Text) : Decidable (Keeps entry) :=
  decidable_of_iff (segments? (front entry) = some [] ∧
    (lostDots entry ≠ [] → segments? (behind entry) = none))
    ⟨fun h => ⟨h.1, h.2⟩, fun h => ⟨h.idle, h.left⟩⟩

variable {entry : Text}

theorem front_append : front entry ++ (lostDots entry ++ kept entry) = entry := by
  have hall : entry.takeWhile isLead ++ kept entry = entry := List.takeWhile_append_dropWhile
  unfold front lostDots
  split
  · exact hall
  · rw [← List.append_assoc, ← List.reverse_append, List.takeWhile_append_dropWhile,
      List.reverse_reverse, hall]

theorem name_append : name entry ++ behind entry = kept entry :=
  List.takeWhile_append_dropWhile

/-- What is kept starts with nothing that is left out. -/
theorem not_lead_of_kept {c : Char} {t : Text} (h : kept entry = c :: t) : isLead c = false := by
  have hhead := List.head?_dropWhile_not isLead entry
  rw [← kept, h] at hhead
  simpa using hhead

/-- A name that has something before it is still an entry. -/
theorem ordinary_append_name (hname : name entry ≠ []) {dots : Text}
    (hdots : ∀ c ∈ dots, c = '.') : Ordinary (dots ++ name entry) := by
  obtain ⟨c, t, hcut⟩ := List.exists_cons_of_ne_nil hname
  have hkept : kept entry = c :: (t ++ behind entry) := by
    rw [← name_append, hcut, List.cons_append]
  have hlead := not_lead_of_kept hkept
  have hdot : c ≠ '.' := by
    rintro rfl
    exact absurd hlead (by decide)
  have hmem : c ∈ dots ++ name entry := by simp [hcut]
  have hne : ∀ t : Text, (∀ d ∈ t, d = '.') → dots ++ name entry ≠ t := by
    rintro t ht rfl
    exact hdot (ht c hmem)
  refine ⟨hne _ (by simp), hne _ (by simp), hne _ (by simp), fun d hd => ?_⟩
  rcases List.mem_append.1 hd with hd | hd
  · rw [hdots d hd]
    rfl
  · simpa using List.all_eq_true.1 List.all_takeWhile d hd

theorem eq_dot_of_lostDots : ∀ c ∈ lostDots entry, c = '.' := by
  intro c hc
  unfold lostDots at hc
  split at hc
  · cases hc
  · simpa using List.all_eq_true.1 List.all_takeWhile c (List.mem_reverse.1 hc)

/-- The first name ends where a separator stands. -/
theorem behind_cases :
    behind entry = [] ∨ ∃ c rest, isSeparator c ∧ behind entry = c :: rest := by
  cases hbehind : behind entry with
  | nil => exact .inl rfl
  | cons c rest =>
    have hhead := List.head?_dropWhile_not (fun c => !isSeparator c) (kept entry)
    rw [← behind, hbehind] at hhead
    exact .inr ⟨c, rest, by simpa using hhead, rfl⟩

/-- What is left out whole ends where a separator stands. -/
theorem meet_front : Meet (front entry) (lostDots entry ++ kept entry) := by
  unfold front lostDots
  split
  · rename_i hname
    rw [← name_append, hname, List.nil_append, List.nil_append]
    exact .inr (.inr behind_cases)
  · -- before the dots at its end stands a slash
    cases hrest : (entry.takeWhile isLead).reverse.dropWhile (· = '.') with
    | nil => exact .inl rfl
    | cons c rest =>
      have hhead := List.head?_dropWhile_not (· = '.') (entry.takeWhile isLead).reverse
      rw [hrest] at hhead
      have hdot : c ≠ '.' := by simpa using hhead
      have hmem : c ∈ (entry.takeWhile isLead).reverse :=
        (List.dropWhile_sublist _).subset (hrest ▸ List.mem_cons_self)
      have hlead : isLead c = true :=
        List.all_eq_true.1 List.all_takeWhile c (List.mem_reverse.1 hmem)
      have hslash : c = '/' := by simpa [isLead, hdot] using hlead
      exact .inr (.inl ⟨rest.reverse, c, hslash ▸ rfl, List.reverse_cons⟩)

/-- Where a name with dots before it leads, and where what is behind it leads from there. -/
theorem climb?_name (hname : name entry ≠ []) (dots : Text) (hdots : ∀ c ∈ dots, c = '.')
    (stack : List Text) :
    climb? stack (pieces isSeparator (dots ++ kept entry)) =
      climb? ((dots ++ name entry) :: stack) (pieces isSeparator (behind entry)) := by
  have hordinary := ordinary_append_name hname hdots
  have hmeet : Meet (dots ++ name entry) (behind entry) := .inr (.inr behind_cases)
  rw [← name_append, ← List.append_assoc, hmeet.climb?_append,
    pieces_of_no_separator hordinary.no_separator, hordinary.climb?_cons]
  rfl

/-- What is kept of an entry leads where the entry does exactly if nothing is left out that leads
anywhere. -/
theorem segments?_kept_iff {segments : List Text} (h : segments? entry = some segments) :
    segments? (kept entry) = some segments ↔ Keeps entry := by
  obtain ⟨out, hout, rfl⟩ := Option.map_eq_some_iff.1 h
  have hcut : climb? [] (pieces isSeparator (front entry ++ (lostDots entry ++ kept entry))) =
      some out := by
    rw [front_append, hout]
  rw [meet_front.climb?_append] at hcut
  obtain ⟨stack, hfront, hlater⟩ := Option.bind_eq_some_iff.1 hcut
  have hidle : segments? (front entry) = some [] ↔ stack = [] := by
    simp [segments?, hfront]
  have hkept : segments? (kept entry) = some out.reverse ↔
      climb? [] (pieces isSeparator (kept entry)) = some out := by
    simp [segments?, List.reverse_eq_iff]
  rw [hkept]
  by_cases hlost : lostDots entry = []
  · rw [hlost, List.nil_append] at hlater
    constructor
    · intro hsame
      have hstack := climb?_append_stack stack hsame
      rw [List.nil_append, hlater] at hstack
      refine ⟨hidle.2 ?_, fun hne => absurd hlost hne⟩
      simpa using hstack
    · rintro ⟨hnone, -⟩
      rwa [hidle.1 hnone] at hlater
  · have hname : name entry ≠ [] := fun hname => hlost (if_pos hname)
    have hleft : segments? (behind entry) = none ↔
        climb? [] (pieces isSeparator (behind entry)) = none := Option.map_eq_none_iff
    have hplain : climb? [] (pieces isSeparator (kept entry)) =
        climb? [name entry] (pieces isSeparator (behind entry)) :=
      climb?_name hname [] (List.forall_mem_nil _) []
    rw [climb?_name hname _ eq_dot_of_lostDots] at hlater
    rw [hplain]
    constructor
    · intro hsame
      -- as long as the name is not left, it is seen to have lost its dots
      have hnone : climb? [] (pieces isSeparator (behind entry)) = none := by
        cases hbehind : climb? [] (pieces isSeparator (behind entry)) with
        | none => rfl
        | some further =>
          have h₁ := climb?_append_stack [name entry] hbehind
          have h₂ := climb?_append_stack ((lostDots entry ++ name entry) :: stack) hbehind
          rw [List.nil_append] at h₁ h₂
          have heq := (h₁.symm.trans hsame).trans (hlater.symm.trans h₂)
          simp [hlost] at heq
      have hstack := climb?_append_stack stack hsame
      have hchange := climb?_replace hnone (name entry) (lostDots entry ++ name entry) stack
      simp only [List.nil_append, List.singleton_append] at hchange hstack
      rw [hchange, hlater] at hstack
      refine ⟨hidle.2 ?_, fun _ => hleft.2 hnone⟩
      simpa using hstack
    · rintro ⟨hempty, hnone⟩
      rw [hidle.1 hempty] at hlater
      rw [← hlater]
      exact climb?_replace (hleft.1 (hnone hlost)) _ _ []

end Entry

/-! ## The entry document -/

/-- The path of the entry document leads where its entry does exactly if nothing is left out of the
entry that leads anywhere. -/
theorem Config.underRoot?_entryPath_iff {c : Config} {file : Path}
    (h : Path.underRoot? c.root c.entry = some file) :
    Path.underRoot? c.root c.entryPath = some file ↔ Entry.Keeps c.entry := by
  obtain ⟨segments, hsegments, rfl⟩ := Option.map_eq_some_iff.1 h
  have hkept : Path.segments? c.entryPath = Path.segments? (Entry.kept c.entry) := by
    have hcut : pieces Path.isSeparator c.entryPath =
        [] :: pieces Path.isSeparator (Entry.kept c.entry) := pieces_append rfl [] _
    rw [Path.segments?, hcut, Path.climb?_nil_cons, Path.segments?]
  rw [← Entry.segments?_kept_iff hsegments, ← hkept]
  constructor
  · intro hsame
    rw [Path.segments?_eq_of_underRoot? hsame h, hsegments]
  · intro hsame
    rw [Path.underRoot?, hsame]
    rfl

namespace Server

/-- A request for the entry document reads the configured file, and only that, if nothing is left
out of the entry that leads anywhere. The answer is what can be read there, as HTML, or that there
is no file. For any other entry the configured file is never read. -/
theorem handle_entry (s : Server) (tree : FileTree) (reading : Nat) (r : Request)
    (hpath : r.path = ['/'] ∨ r.path = s.config.entryPath) {file : Path}
    (hfile : Path.underRoot? s.config.root s.config.entry = some file) :
    (Entry.Keeps s.config.entry →
      s.reads tree reading r = [file] ∧
      s.handle tree reading r =
        (match tree.readBytes file with
          | .ok body => .ok ⟨.entry, body⟩
          | .error _ => Outcome.fail (.fileNotFound s.config.entryPath), s) ∧
      ∀ served, (s.handle tree reading r).1 = .ok served →
        served.kind.contentType = "text/html") ∧
    (¬Entry.Keeps s.config.entry → file ∉ s.reads tree reading r) := by
  have hentry : s.config.isEntry r = true := by
    simpa [Config.isEntry] using hpath
  have hiff := Config.underRoot?_entryPath_iff hfile
  rw [reads, if_pos hentry, handle, if_pos hentry]
  refine ⟨fun hkeeps => ?_, fun hnot hmem => hnot (hiff.1 ?_)⟩
  · have hplace : s.config.filePath s.config.entryPath = .ok file := by
      rw [Config.filePath, hiff.2 hkeeps]
    rw [Config.entryFiles, Config.readEntry, hplace]
    simp only [bind, Except.bind]
    cases tree.readBytes file with
    | error e => exact ⟨rfl, rfl, nofun⟩
    | ok body =>
      refine ⟨rfl, rfl, fun served h => ?_⟩
      cases h
      rfl
  · rw [Config.entryFiles, Config.filePath] at hmem
    cases hplace : Path.underRoot? s.config.root s.config.entryPath with
    | none =>
      rw [hplace] at hmem
      cases hmem
    | some place =>
      rw [hplace] at hmem
      rw [List.mem_singleton.1 hmem]

/-- An entry in a hidden folder is not found although its file is there; one behind dots that lead
nowhere is. -/
theorem handle_entry_hiddenFolder :
    let tree := FileTree.folder [("p".toList, .folder [
      (".app".toList, .folder [("index.html".toList, .file [104, 105])])])]
    let r : Request := ⟨['/'], []⟩
    let hidden := start { root := "/p".toList, entry := ".app/index.html".toList }
    let plain := start { root := "/p/.app".toList, entry := "././x/../index.html".toList }
    let file := "/p/.app/index.html".toList
    tree.readBytes file = .ok [104, 105] ∧
      Path.underRoot? hidden.config.root hidden.config.entry = some file ∧
      file ∉ hidden.reads tree 7 r ∧
      hidden.handle tree 7 r = (Outcome.fail (.fileNotFound "/app/index.html".toList), hidden) ∧
      Path.underRoot? plain.config.root plain.config.entry = some file ∧
      plain.handle tree 7 r = (.ok ⟨.entry, [104, 105]⟩, plain) := by
  intro tree r hidden plain file
  have hcontent : tree.readBytes file = .ok [104, 105] := by decide +kernel
  have hhidden : Path.underRoot? hidden.config.root hidden.config.entry = some file := by
    decide +kernel
  have hplain : Path.underRoot? plain.config.root plain.config.entry = some file := by
    decide +kernel
  have hmissed := (handle_entry hidden tree 7 r (.inl rfl) hhidden).2 (by decide +kernel)
  obtain ⟨-, hserved, -⟩ := (handle_entry plain tree 7 r (.inl rfl) hplain).1 (by decide +kernel)
  rw [hcontent] at hserved
  exact ⟨hcontent, hhidden, hmissed, by decide +kernel, hplain, hserved⟩

end Server

end ModuleServer
