import ModuleServer.Proofs.Expression.Parameters
import ModuleServer.Proofs.Expression.Place
import ModuleServer.Proofs.Text.Pieces

/-!
# How names that are bound are found

Binding patterns are read without regard to their brackets: from a separator on, reading starts
afresh, and from an equals sign to the next separator nothing is read.

* `isBindable_of_mem`: whatever is found is a name, and no word of the language.
* `bindingNames_append_congr`: all that a text has to do with what stands behind it.
* `bindingNames_append`, `bindingNames_colon`: reading starts afresh at separators and behind a
  colon.
* `bindingNames_eq_pieces`: the names of a text are those of its pieces, each up to its first equals
  sign.
-/

namespace ModuleServer.Expression

open Text

/-- Whether a text is found where it is bound. -/
def isBindable (t : Text) : Bool :=
  isName t && !isKeyword t

/-- Whatever is found is a name, and no word of the language. -/
theorem isBindable_of_mem {t x : Text} (h : x ∈ bindingNames t) : isBindable x := by
  fun_induction bindingNames t with
  | case1 => cases h
  | case2 c r hstart name rest hskip ih => exact ih h
  | case3 c r hstart name rest hskip ih =>
    rcases List.mem_cons.1 h with rfl | h
    · have hname : isName name := by
        simp [name, isName, hstart]
      simp_all [isBindable]
    · exact ih h
  | case4 => simp_all
  | case5 => simp_all

/-! ## Texts that are put together -/

/-- Whether every equals sign of a text has a separator behind it. -/
def isClosed : Text → Bool
  | [] => true
  | c :: t => (c ≠ '=' || t.any isSeparator) && isClosed t

theorem isClosed_of_not_mem {t : Text} (h : '=' ∉ t) : isClosed t := by
  induction t with
  | nil => rfl
  | cons c t ih =>
    obtain ⟨hc, ht⟩ := List.ne_and_not_mem_of_not_mem_cons h
    simp [isClosed, Ne.symm hc, ih ht]

theorem isClosed_of_append {u v : Text} (h : isClosed (u ++ v)) : isClosed v := by
  induction u with
  | nil => exact h
  | cons c u ih =>
    rw [List.cons_append, isClosed, Bool.and_eq_true] at h
    exact ih h.2

theorem isClosed_of_suffix {u v : Text} (hv : v <:+ u) (h : isClosed u) : isClosed v := by
  obtain ⟨w, rfl⟩ := hv
  exact isClosed_of_append h

section Append

variable {s m : Text} {names : List Text}

theorem firstVisible?_cons (c : Char) (t : Text) :
    firstVisible? (c :: t) = if isWhite c then firstVisible? t else some c := by
  rw [firstVisible?, trimStart, List.dropWhile_cons]
  split <;> rfl

theorem firstVisible?_append (u t : Text) :
    firstVisible? (u ++ t) = (firstVisible? u).or (firstVisible? t) := by
  induction u with
  | nil => rfl
  | cons c u ih =>
    rw [List.cons_append, firstVisible?_cons, firstVisible?_cons, ih]
    split <;> rfl

theorem bindingNames_nil : bindingNames [] = [] := by
  rw [bindingNames]

theorem bindingNames_colonMark : bindingNames [':'] = [] := by
  rw [bindingNames_skip (by decide) (by decide), bindingNames_nil]

theorem bindingNames_default (t : Text) :
    bindingNames ('=' :: t) = bindingNames (t.dropWhile fun d => !isSeparator d) := by
  rw [bindingNames, if_neg (by decide), if_pos rfl]

theorem bindingNames_word {c : Char} (hstart : isNameStart c) (hs : headIs isNameChar s = false)
    (r : Text) : bindingNames (c :: r ++ s) =
      if firstVisible? (r.dropWhile isNameChar ++ s) = some ':' ||
          isKeyword (c :: r.takeWhile isNameChar) then
        bindingNames (r.dropWhile isNameChar ++ s)
      else (c :: r.takeWhile isNameChar) :: bindingNames (r.dropWhile isNameChar ++ s) := by
  rw [List.cons_append, bindingNames, if_pos hstart, takeWhile_append_stop hs,
    dropWhile_append_stop hs]

/-- A text has to do with what stands behind it in three ways: as part of a name, as the colon that
makes a name a key, and as part of a default value. -/
theorem bindingNames_append_congr (hs : headIs isNameChar s = false)
    (hm : headIs isNameChar m = false)
    (hcolon : firstVisible? s = some ':' ↔ firstVisible? m = some ':')
    (hnames : bindingNames s = bindingNames m ++ names) (u : Text)
    (hvalue : isClosed u ∨ bindingNames (s.dropWhile fun d => !isSeparator d) =
      bindingNames (m.dropWhile fun d => !isSeparator d) ++ names) :
    bindingNames (u ++ s) = bindingNames (u ++ m) ++ names := by
  have hkey : ∀ v, firstVisible? (v ++ s) = some ':' ↔ firstVisible? (v ++ m) = some ':' := by
    intro v
    rw [firstVisible?_append, firstVisible?_append]
    cases firstVisible? v with
    | none => exact hcolon
    | some c => rfl
  fun_induction bindingNames u with
  | case1 => exact hnames
  | case2 c r hstart _ _ _ ih | case3 c r hstart _ _ _ ih =>
    have hbehind : r.dropWhile isNameChar <:+ c :: r :=
      (List.dropWhile_suffix _).trans (List.suffix_cons c r)
    have ih := ih (hvalue.imp_left (isClosed_of_suffix hbehind))
    rw [bindingNames_word hstart hs, bindingNames_word hstart hm, ih]
    simp only [hkey]
    split
    · rfl
    · rfl
  | case4 r hstart ih =>
    rw [List.cons_append, List.cons_append, bindingNames_default, bindingNames_default]
    by_cases hany : r.any isSeparator
    · -- the value ends inside of the text
      have hne : r.dropWhile (fun d => !isSeparator d) ≠ [] := by
        simpa [List.dropWhile_eq_nil_iff] using hany
      have hbehind : r.dropWhile (fun d => !isSeparator d) <:+ '=' :: r :=
        (List.dropWhile_suffix _).trans (List.suffix_cons '=' r)
      have ih := ih (hvalue.imp_left (isClosed_of_suffix hbehind))
      rw [List.dropWhile_append, List.dropWhile_append, if_neg (by simpa using hne),
        if_neg (by simpa using hne)]
      exact ih
    · -- the value goes on behind the text
      have hall : ∀ d ∈ r, (!isSeparator d) = true := by simpa using hany
      rw [List.dropWhile_append_of_pos hall, List.dropWhile_append_of_pos hall]
      exact hvalue.resolve_left (by simp [isClosed, hany])
  | case5 c r hstart hdefault ih =>
    rw [List.cons_append, List.cons_append, bindingNames_skip (by simpa using hstart) hdefault,
      bindingNames_skip (by simpa using hstart) hdefault]
    exact ih (hvalue.imp_left (isClosed_of_suffix (List.suffix_cons c r)))

end Append

/-! ## Separators -/

section Separators

variable {t u : Text}

theorem isNameChar_of_isSeparator {c : Char} (h : isSeparator c) : isNameChar c = false := by
  simp only [isSeparator, Bool.or_eq_true, decide_eq_true_eq] at h
  rcases h with ((rfl | rfl) | rfl) | rfl <;> decide

theorem isSeparator_of_white {c : Char} (h : isWhite c) : isSeparator c = false :=
  forall_white (P := fun c => isSeparator c = false) (by decide) h

theorem bindingNames_separator {c : Char} (h : isSeparator c) (t : Text) :
    bindingNames (c :: t) = bindingNames t := by
  refine bindingNames_skip ?_ (ne_of_class h rfl) t
  exact Bool.eq_false_iff.2 fun hstart =>
    absurd (isNameChar_of_isNameStart hstart) (by simp [isNameChar_of_isSeparator h])

/-- Nothing but white space stands before a separator or the end. -/
def stops (t : Text) : Bool :=
  (firstVisible? t).all isSeparator

theorem stops_separator {c : Char} (h : isSeparator c) (t : Text) : stops (c :: t) := by
  have hwhite : isWhite c = false := Bool.eq_false_iff.2 fun hwhite => by
    simp [isSeparator_of_white hwhite] at h
  simp [stops, firstVisible?_cons, hwhite, h]

theorem headIs_isNameChar_of_stops (h : stops t) : headIs isNameChar t = false := by
  cases t with
  | nil => rfl
  | cons c t =>
    by_cases hwhite : isWhite c
    · exact isNameChar_of_white hwhite
    · rw [stops, firstVisible?_cons, if_neg hwhite] at h
      exact isNameChar_of_isSeparator h

theorem firstVisible?_ne_of_stops {c : Char} (h : stops t) (hc : isSeparator c = false) :
    firstVisible? t ≠ some c := by
  intro hfirst
  rw [stops, hfirst, Option.all_some, hc] at h
  cases h

/-- A default value ends where nothing else is left of it. -/
theorem bindingNames_dropWhile_of_stops (h : stops t) :
    bindingNames (t.dropWhile fun d => !isSeparator d) = bindingNames t := by
  induction t with
  | nil => rfl
  | cons c t ih =>
    rw [stops, firstVisible?_cons] at h
    by_cases hwhite : isWhite c
    · rw [if_pos hwhite] at h
      have hgap := bindingNames_gap ⟨[c], by simp [hwhite]⟩ t
      rw [List.dropWhile_cons, if_pos (by simp [isSeparator_of_white hwhite]), ih h]
      exact hgap.symm
    · rw [if_neg hwhite] at h
      rw [List.dropWhile_cons, if_neg (by simpa using h)]

/-- Reading starts afresh at a separator. -/
theorem bindingNames_append (h : stops t) (u : Text) :
    bindingNames (u ++ t) = bindingNames u ++ bindingNames t := by
  have hcolon : firstVisible? t = some ':' ↔ firstVisible? [] = some ':' :=
    iff_of_false (firstVisible?_ne_of_stops h rfl) (by decide)
  have hvalue := bindingNames_dropWhile_of_stops h
  have happend := bindingNames_append_congr (headIs_isNameChar_of_stops h) rfl hcolon
    (by rw [bindingNames_nil, List.nil_append]) u
    (.inr (by rw [hvalue, List.dropWhile_nil, bindingNames_nil, List.nil_append]))
  rwa [List.append_nil] at happend

/-- Reading starts afresh behind the colon of a key. -/
theorem bindingNames_colon (h : isClosed u) (gap : Gap) (rest : Text) :
    bindingNames (u ++ (gap.text ++ ':' :: rest)) =
      bindingNames (u ++ [':']) ++ bindingNames rest := by
  have hnames : bindingNames (gap.text ++ ':' :: rest) = bindingNames [':'] ++ bindingNames rest := by
    rw [bindingNames_gap, bindingNames_skip (by decide) (by decide), bindingNames_colonMark,
      List.nil_append]
  have hcolon : firstVisible? (gap.text ++ ':' :: rest) = some ':' ↔
      firstVisible? [':'] = some ':' :=
    iff_of_true (firstVisible?_gap gap (by decide) rest) (by decide)
  exact bindingNames_append_congr (headIs_isNameChar (headIs_gapMark gap (by decide) rest)) rfl
    hcolon hnames u (.inl h)

/-- A piece is read up to its first equals sign. -/
theorem bindingNames_piece (h : ∀ c ∈ t, isSeparator c = false) :
    bindingNames t = bindingNames (t.takeWhile (· ≠ '=')) := by
  obtain ⟨v, w, rfl, hv, hw⟩ := exists_run (· ≠ '=') t
  rw [takeWhile_run hv hw]
  cases w with
  | nil => rw [List.append_nil]
  | cons c w =>
    obtain rfl : c = '=' := by simpa [headIs] using hw
    have hclosed : isClosed v := isClosed_of_not_mem fun hmem => by
      simpa using List.all_eq_true.1 hv _ hmem
    have hvalue : w.dropWhile (fun d => !isSeparator d) = [] :=
      List.dropWhile_eq_nil_iff.2 fun d hd => by simp [h d (by simp [hd])]
    have hnames : bindingNames ('=' :: w) = bindingNames [] ++ [] := by
      rw [bindingNames_default, hvalue, List.append_nil]
    have hwhite : isWhite '=' = false := by decide
    have hcolon : firstVisible? ('=' :: w) = some ':' ↔ firstVisible? [] = some ':' :=
      iff_of_false (by simp [firstVisible?_cons, hwhite]) (by decide)
    have happend := bindingNames_append_congr rfl rfl hcolon hnames v (.inl hclosed)
    rwa [List.append_nil, List.append_nil] at happend

/-- The names of a text are those of its pieces, each up to its first equals sign. -/
theorem bindingNames_eq_pieces (t : Text) : bindingNames t =
    (pieces isSeparator t).flatMap fun p => bindingNames (p.takeWhile (· ≠ '=')) := by
  induction hlength : t.length using Nat.strongRecOn generalizing t with
  | _ n ih =>
    obtain ⟨p, rest, rfl, hp, hrest⟩ := exists_run (fun c => !isSeparator c) t
    have hpiece : ∀ c ∈ p, isSeparator c = false := by simpa using hp
    cases rest with
    | nil =>
      rw [List.append_nil, pieces_of_no_separator hpiece, List.flatMap_singleton]
      exact bindingNames_piece hpiece
    | cons c t =>
      have hc : isSeparator c := by simpa [headIs] using hrest
      rw [bindingNames_append (stops_separator hc t), bindingNames_separator hc, pieces_append hc,
        pieces_of_no_separator hpiece, List.flatMap_append, List.flatMap_singleton,
        ← bindingNames_piece hpiece, ih t.length _ t rfl]
      rw [← hlength, List.length_append, List.length_cons]
      omega

end Separators

end ModuleServer.Expression
