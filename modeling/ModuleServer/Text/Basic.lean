/-!
# Text

Text is a list of characters. Offsets into it count bytes of its UTF-8 form, so a text has a
size in bytes beside its length in characters.

* `after?` reads a fixed prefix off a text, `cut?` splits at the first occurrence of a word.
* `pieces` splits at every separator and `joined` puts pieces together.

`length_lt_of_cut?` and its neighbours say that what is left to read gets shorter, which is what
ends every scan of this library.
-/

namespace ModuleServer

/-- A text, as the list of its characters. -/
abbrev Text := List Char

namespace Text

/-- Number of bytes of the UTF-8 form. -/
def byteSize (t : Text) : Nat :=
  t.foldl (fun size c => size + c.utf8Size) 0

theorem foldl_utf8Size (t : Text) (n : Nat) :
    t.foldl (fun size c => size + c.utf8Size) n = n + byteSize t := by
  induction t generalizing n with
  | nil => rfl
  | cons c t ih =>
    simp only [byteSize, List.foldl_cons, ih (n + c.utf8Size), ih (0 + c.utf8Size)]
    omega

@[simp] theorem byteSize_nil : byteSize [] = 0 := rfl

@[simp] theorem byteSize_cons (c : Char) (t : Text) :
    byteSize (c :: t) = c.utf8Size + byteSize t := by
  rw [byteSize, List.foldl_cons, foldl_utf8Size, Nat.zero_add]

@[simp] theorem byteSize_append (s t : Text) : byteSize (s ++ t) = byteSize s + byteSize t := by
  rw [byteSize, List.foldl_append, foldl_utf8Size, ← byteSize]

/-! ## Prefixes -/

/-- What follows `word` at the start of the text, if the text starts with it. -/
def after? : (word t : Text) → Option Text
  | [], t => some t
  | _ :: _, [] => none
  | a :: word, c :: t => if a = c then after? word t else none

/-- Whether the text starts with `word`. -/
def startsWith (word t : Text) : Bool :=
  (after? word t).isSome

/-- Whether the text ends with `word`. -/
def endsWith (word t : Text) : Bool :=
  startsWith word.reverse t.reverse

/-- Whether the first character of the text is in the class. -/
def headIs (p : Char → Bool) : Text → Bool
  | [] => false
  | c :: _ => p c

theorem after?_eq_some {word t r : Text} : after? word t = some r ↔ t = word ++ r := by
  induction word generalizing t with
  | nil => simp [after?]
  | cons a word ih =>
    cases t with
    | nil => simp [after?]
    | cons c t =>
      simp only [after?, List.cons_append, List.cons.injEq]
      by_cases h : a = c
      · simp [h, ih]
      · simp [h, Ne.symm h]

theorem after?_append (word r : Text) : after? word (word ++ r) = some r :=
  after?_eq_some.2 rfl

/-! ## Splitting -/

/-- The text before the first occurrence of `word`, and the text after it. -/
def cut? (word : Text) : Text → Option (Text × Text)
  | [] => if word.isEmpty then some ([], []) else none
  | c :: t =>
    match after? word (c :: t) with
    | some rest => some ([], rest)
    | none => (cut? word t).map fun (before, rest) => (c :: before, rest)

/-- Whether `word` occurs in the text. -/
def has (word t : Text) : Bool :=
  (cut? word t).isSome

theorem eq_of_cut? {word t a b : Text} (h : cut? word t = some (a, b)) : t = a ++ word ++ b := by
  induction t generalizing a b with
  | nil =>
    simp only [cut?] at h
    split at h
    · rename_i hw
      simp_all
    · simp at h
  | cons c t ih =>
    simp only [cut?] at h
    split at h
    · rename_i rest hr
      obtain ⟨rfl, rfl⟩ := Prod.mk.inj (Option.some.inj h)
      simpa using after?_eq_some.1 hr
    · obtain ⟨⟨x, y⟩, hxy, he⟩ := Option.map_eq_some_iff.1 h
      obtain ⟨rfl, rfl⟩ := Prod.mk.inj he
      simp [ih hxy]

/-- What follows a word that occurs is shorter by at least the word. -/
theorem length_of_cut? {word t a b : Text} (h : cut? word t = some (a, b)) :
    b.length + word.length ≤ t.length := by
  rw [eq_of_cut? h]
  simp only [List.length_append]
  omega

/-- The pieces between the separators, in order. There is always at least one. -/
def pieces (separator : Char → Bool) : Text → List Text
  | [] => [[]]
  | c :: t =>
    match pieces separator t with
    | [] => [[c]]
    | p :: ps => if separator c then [] :: p :: ps else (c :: p) :: ps

/-- The pieces put together with `separator` between neighbours. -/
def joined (separator : Text) : List Text → Text
  | [] => []
  | [p] => p
  | p :: q :: ps => p ++ separator ++ joined separator (q :: ps)

/-- The text with `c` replaced by `d` throughout. -/
def replaceChar (c d : Char) (t : Text) : Text :=
  t.map fun x => if x = c then d else x

theorem replaceChar_of_not_mem {c d : Char} {t : Text} (h : c ∉ t) : replaceChar c d t = t := by
  refine (List.map_congr_left fun x hx => ?_).trans (List.map_id t)
  refine if_neg ?_
  rintro rfl
  exact h hx

/-- The text up to the last character in the class and after it, without that character. -/
def splitLast? (p : Char → Bool) (t : Text) : Option (Text × Text) :=
  match t.reverse.span fun c => !p c with
  | (_, []) => none
  | (tail, _ :: front) => some (front.reverse, tail.reverse)

/-- The text without the leading and trailing characters in the class. -/
def stripBoth (p : Char → Bool) (t : Text) : Text :=
  (((t.dropWhile p).reverse).dropWhile p).reverse

/-! ## Numbers -/

/-- The decimal digits of a number. -/
def decimal (n : Nat) : Text :=
  Nat.toDigits 10 n

end Text

end ModuleServer
