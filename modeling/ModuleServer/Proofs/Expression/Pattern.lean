import ModuleServer.Proofs.Expression.Bound

/-!
# Binding patterns

Binding patterns as trees, nested in any way and written with any white space: names, patterns for
the items of arrays and the entries of objects, defaults, and a pattern for what is left. The words
of a pattern are the names that it binds, the keys of its entries, and its default values. Names,
keys and values are any texts here; what is asked of them is said of each word by itself.

* `Slots.bindingNames_append`: by induction on the tree, what is found in a list of patterns is what
  is found in each of its words.
* `bindingNames_render_iff`: exactly the names that a list of patterns binds are found in it if and
  only if each of its words is harmless: the names are names and no words of the language, and
  nothing is found in a key or behind the first separator of a default value.
-/

namespace ModuleServer.Expression

open Text

/-! ## Trees -/

/-- What stands before the colon of an entry: a name, a number, a string or an expression in
brackets. Every equals sign in it has a separator behind it, so that the colon is seen. -/
structure Key where
  /-- The text of the key. -/
  text : Text
  closed : isClosed text = true := by decide

mutual

/-- A binding pattern. -/
inductive Pattern where
  /-- A name. -/
  | name (text : Text)
  /-- The items of an array. -/
  | array (slots : Slots)
  /-- The entries of an object. -/
  | object (slots : Slots)

/-- A pattern with or without a default value. -/
inductive Target where
  /-- A pattern by itself. -/
  | plain (pattern : Pattern)
  /-- A pattern and the text behind its equals sign. -/
  | withDefault (pattern : Pattern) (gap : Gap) (value : Text)

/-- What stands between two commas. -/
inductive Slot where
  /-- Nothing. -/
  | hole
  /-- A pattern for an item, or a name that is key and bound in one. -/
  | item (target : Target)
  /-- A pattern for what stands under a key. -/
  | entry (key : Key) (beforeColon behindColon : Gap) (target : Target)
  /-- A pattern for all that is left. -/
  | rest (gap : Gap) (target : Target)

/-- Slots with commas between them. -/
inductive Slots where
  /-- The last slot. -/
  | last (first : Gap) (slot : Slot) (last : Gap)
  /-- A slot and a comma. -/
  | more (first : Gap) (slot : Slot) (last : Gap) (others : Slots)

end

/-- A list of patterns, in round brackets or without. -/
inductive PatternList where
  /-- Patterns by themselves. -/
  | bare (slots : Slots)
  /-- Patterns in round brackets. -/
  | enclosed (first : Gap) (slots : Slots) (last : Gap)

mutual

/-- The text of a pattern. -/
def Pattern.render : Pattern → Text
  | .name text => text
  | .array slots => '[' :: (slots.render ++ [']'])
  | .object slots => '{' :: (slots.render ++ ['}'])

/-- The text of a pattern and its default value. -/
def Target.render : Target → Text
  | .plain pattern => pattern.render
  | .withDefault pattern gap value => pattern.render ++ gap.text ++ '=' :: value

/-- The text of a slot. -/
def Slot.render : Slot → Text
  | .hole => []
  | .item target => target.render
  | .entry key beforeColon behindColon target =>
    key.text ++ beforeColon.text ++ ':' :: (behindColon.text ++ target.render)
  | .rest gap target => ellipsis ++ gap.text ++ target.render

/-- The text of slots. -/
def Slots.render : Slots → Text
  | .last first slot last => first.text ++ slot.render ++ last.text
  | .more first slot last others =>
    first.text ++ slot.render ++ last.text ++ ',' :: others.render

end

/-- The text of a list of patterns. -/
def PatternList.render : PatternList → Text
  | .bare slots => slots.render
  | .enclosed first slots last => first.text ++ '(' :: (slots.render ++ ')' :: last.text)

/-! ## Words -/

/-- A part of a pattern that is no pattern itself. -/
inductive PatternWord where
  /-- A name that is bound. -/
  | name (text : Text)
  /-- The key of an entry. -/
  | key (k : Key)
  /-- A default value. -/
  | value (text : Text)

mutual

/-- The words of a pattern, in the order written. -/
def Pattern.words : Pattern → List PatternWord
  | .name text => [.name text]
  | .array slots => slots.words
  | .object slots => slots.words

/-- The words of a pattern and its default value. -/
def Target.words : Target → List PatternWord
  | .plain pattern => pattern.words
  | .withDefault pattern _ value => pattern.words ++ [.value value]

/-- The words of a slot. -/
def Slot.words : Slot → List PatternWord
  | .hole => []
  | .item target => target.words
  | .entry key _ _ target => .key key :: target.words
  | .rest _ target => target.words

/-- The words of slots. -/
def Slots.words : Slots → List PatternWord
  | .last _ slot _ => slot.words
  | .more _ slot _ others => slot.words ++ others.words

end

/-- The words of a list of patterns. -/
def PatternList.words : PatternList → List PatternWord
  | .bare slots => slots.words
  | .enclosed _ slots _ => slots.words

/-- The name that a word binds, if it is one that is bound. -/
def PatternWord.bound : PatternWord → List Text
  | .name text => [text]
  | .key _ => []
  | .value _ => []

/-- The names that patterns bind, in the order written. -/
def PatternList.bound (patterns : PatternList) : List Text :=
  patterns.words.flatMap PatternWord.bound

/-- The names that are found in a key. -/
def Key.strays (k : Key) : List Text :=
  bindingNames (k.text ++ [':'])

/-- The names that are found in a default value: those behind its first separator, from a separator
to the next equals sign each. -/
def valueStrays (value : Text) : List Text :=
  (pieces isSeparator value).tail.flatMap fun p => bindingNames (p.takeWhile (· ≠ '='))

/-- The names that are found in a word where it stands. -/
def PatternWord.found : PatternWord → List Text
  | .name text => [text]
  | .key k => k.strays
  | .value text => valueStrays text

/-- Whether exactly the name that a word binds is found in it. -/
def PatternWord.isHarmless : PatternWord → Bool
  | .name text => isBindable text
  | .key k => k.strays.isEmpty
  | .value text => (valueStrays text).isEmpty

/-! ## Reading -/

theorem bindingNames_value (value : Text) : bindingNames ('=' :: value) = valueStrays value := by
  obtain ⟨p, ps, hpieces⟩ := List.exists_cons_of_ne_nil (pieces_ne_nil isSeparator value)
  rw [bindingNames_eq_pieces, pieces, valueStrays, hpieces]
  simp [isSeparator, bindingNames_nil]

/-- Nothing is found in a key that is a name. -/
theorem Key.strays_eq_nil {k : Key} (h : isName k.text) : k.strays = [] := by
  have hcolon : firstVisible? [':'] = some ':' := by decide
  have hname : bindingNames (k.text ++ [':']) = _ := bindingNames_name ⟨k.text, h⟩ rfl
  rwa [hcolon, decide_eq_true rfl, Bool.true_or, if_pos rfl, bindingNames_colonMark] at hname

/-- Nothing is found in a default value without separators. -/
theorem valueStrays_eq_nil {value : Text} (h : ∀ c ∈ value, isSeparator c = false) :
    valueStrays value = [] := by
  rw [valueStrays, pieces_of_no_separator h]
  rfl

theorem bindingNames_ellipsis (t : Text) : bindingNames (ellipsis ++ t) = bindingNames t := by
  simp only [ellipsis, List.cons_append, List.nil_append]
  repeat rw [bindingNames_skip (by decide) (by decide)]

theorem stops_gap (gap : Gap) (t : Text) : stops (gap.text ++ t) = stops t := by
  have hgap : firstVisible? gap.text = none := by
    rw [firstVisible?, trimStart, List.dropWhile_eq_nil_iff.2 (List.all_eq_true.1 gap.white)]
    rfl
  rw [stops, firstVisible?_append, hgap, Option.none_or, stops]

mutual

/-- What is found in a pattern is what is found in each of its words. -/
theorem Pattern.bindingNames_append (p : Pattern)
    (hnames : ∀ x, .name x ∈ p.words → isBindable x) {rest : Text}
    (hrest : headIs isNameChar rest = false) (hcolon : firstVisible? rest ≠ some ':') :
    bindingNames (p.render ++ rest) = p.words.flatMap PatternWord.found ++ bindingNames rest := by
  cases p with
  | name x =>
    have hx := hnames x (List.mem_singleton.2 rfl)
    rw [isBindable, Bool.and_eq_true, Bool.not_eq_true'] at hx
    obtain ⟨hname, hkeyword⟩ := hx
    rw [Pattern.render, bindingNames_name ⟨x, hname⟩ hrest, if_neg (by simp [hcolon, hkeyword])]
    rfl
  | array slots =>
    have hslots := slots.bindingNames_append hnames (stops_separator (c := ']') rfl rest)
    rw [Pattern.render, List.cons_append, List.append_assoc,
      bindingNames_skip (by decide) (by decide)]
    exact hslots.trans (by rw [bindingNames_separator rfl, Pattern.words])
  | object slots =>
    have hslots := slots.bindingNames_append hnames (stops_separator (c := '}') rfl rest)
    rw [Pattern.render, List.cons_append, List.append_assoc,
      bindingNames_skip (by decide) (by decide)]
    exact hslots.trans (by rw [bindingNames_separator rfl, Pattern.words])

/-- What is found in a pattern and its default value is what is found in each of their words. -/
theorem Target.bindingNames_append (t : Target)
    (hnames : ∀ x, .name x ∈ t.words → isBindable x) {rest : Text} (hrest : stops rest) :
    bindingNames (t.render ++ rest) = t.words.flatMap PatternWord.found ++ bindingNames rest := by
  cases t with
  | plain p =>
    exact p.bindingNames_append hnames (headIs_isNameChar_of_stops hrest)
      (firstVisible?_ne_of_stops hrest rfl)
  | withDefault p gap value =>
    have hmark : headIs isNameChar (gap.text ++ '=' :: (value ++ rest)) = false :=
      headIs_isNameChar (headIs_gapMark gap (by decide) _)
    have hcolon : firstVisible? (gap.text ++ '=' :: (value ++ rest)) ≠ some ':' := by
      rw [firstVisible?_gap gap (by decide)]
      decide
    have hp := p.bindingNames_append (fun x hx => hnames x (List.mem_append_left _ hx)) hmark hcolon
    have hvalue := Expression.bindingNames_append hrest ('=' :: value)
    rw [bindingNames_value] at hvalue
    simp only [Target.render, Target.words, List.append_assoc, List.cons_append,
      List.flatMap_append, List.flatMap_singleton] at hp hvalue ⊢
    rw [hp, bindingNames_gap, hvalue]
    rfl

/-- What is found in a slot is what is found in each of its words. -/
theorem Slot.bindingNames_append (s : Slot)
    (hnames : ∀ x, .name x ∈ s.words → isBindable x) {rest : Text} (hrest : stops rest) :
    bindingNames (s.render ++ rest) = s.words.flatMap PatternWord.found ++ bindingNames rest := by
  cases s with
  | hole => rfl
  | item t => exact t.bindingNames_append hnames hrest
  | entry key beforeColon behindColon t =>
    have ht := t.bindingNames_append (fun x hx => hnames x (List.mem_cons_of_mem _ hx)) hrest
    have hkey := bindingNames_colon key.closed beforeColon (behindColon.text ++ (t.render ++ rest))
    simp only [Slot.render, Slot.words, List.append_assoc, List.cons_append,
      List.flatMap_cons] at hkey ⊢
    rw [hkey, bindingNames_gap, ht]
    rfl
  | rest gap t =>
    have ht := t.bindingNames_append hnames hrest
    simp only [Slot.render, Slot.words, List.append_assoc]
    rw [bindingNames_ellipsis, bindingNames_gap, ht]

/-- What is found in slots is what is found in each of their words. -/
theorem Slots.bindingNames_append (slots : Slots)
    (hnames : ∀ x, .name x ∈ slots.words → isBindable x) {rest : Text} (hrest : stops rest) :
    bindingNames (slots.render ++ rest) =
      slots.words.flatMap PatternWord.found ++ bindingNames rest := by
  cases slots with
  | last first slot last =>
    have hstop : stops (last.text ++ rest) := by rwa [stops_gap]
    have hslot := slot.bindingNames_append hnames hstop
    simp only [Slots.render, Slots.words, List.append_assoc]
    rw [bindingNames_gap, hslot, bindingNames_gap]
  | more first slot last others =>
    have hstop : stops (last.text ++ ',' :: (others.render ++ rest)) := by
      rw [stops_gap]
      exact stops_separator rfl _
    have hslot := slot.bindingNames_append (fun x hx => hnames x (List.mem_append_left _ hx)) hstop
    have hothers := others.bindingNames_append (fun x hx => hnames x (List.mem_append_right _ hx))
      hrest
    simp only [Slots.render, Slots.words, List.append_assoc, List.cons_append,
      List.flatMap_append]
    rw [bindingNames_gap, hslot, bindingNames_gap, bindingNames_separator rfl, hothers]

end

/-- What is found in a list of patterns is what is found in each of its words. -/
theorem PatternList.bindingNames_render (patterns : PatternList)
    (hnames : ∀ x, .name x ∈ patterns.words → isBindable x) :
    bindingNames patterns.render = patterns.words.flatMap PatternWord.found := by
  cases patterns with
  | bare slots =>
    have hslots : bindingNames (slots.render ++ []) = _ := slots.bindingNames_append hnames rfl
    rwa [bindingNames_nil, List.append_nil, List.append_nil] at hslots
  | enclosed first slots last =>
    have hlast := bindingNames_gap last []
    rw [List.append_nil, bindingNames_nil] at hlast
    have hslots := slots.bindingNames_append hnames (stops_separator (c := ')') rfl last.text)
    rw [bindingNames_separator rfl, hlast, List.append_nil] at hslots
    rw [PatternList.render, bindingNames_gap, bindingNames_skip (by decide) (by decide)]
    exact hslots

/-! ## Names that are bound -/

theorem PatternWord.bound_sublist (w : PatternWord) : List.Sublist w.bound w.found := by
  cases w with
  | name x => exact List.Sublist.refl _
  | key k => exact List.nil_sublist _
  | value t => exact List.nil_sublist _

/-- A name is harmless if it is a name and no word of the language, any other word if nothing is
found in it. -/
theorem PatternWord.isHarmless_iff (w : PatternWord) :
    w.isHarmless ↔ (∀ x, w = .name x → isBindable x) ∧ w.found = w.bound := by
  cases w <;> simp [isHarmless, found, bound]

/-- Exactly the names that a list of patterns binds are found in it if and only if each of its words
is harmless. -/
theorem bindingNames_render_iff (patterns : PatternList) :
    bindingNames patterns.render = patterns.bound ↔ patterns.words.all PatternWord.isHarmless := by
  rw [List.all_eq_true]
  constructor
  · intro h w hw
    have hnames : ∀ x, .name x ∈ patterns.words → isBindable x := by
      intro x hx
      have hbound : x ∈ patterns.bound := List.mem_flatMap.2 ⟨.name x, hx, List.mem_singleton.2 rfl⟩
      exact isBindable_of_mem (h ▸ hbound)
    rw [patterns.bindingNames_render hnames, PatternList.bound] at h
    -- nothing that is found in one word makes up for what is not found in another
    have hfound := eq_of_flatMap_eq (fun w _ => w.bound_sublist) h.symm w hw
    exact w.isHarmless_iff.2 ⟨fun x hx => hnames x (hx ▸ hw), hfound.symm⟩
  · intro h
    have hharmless := fun w hw => (PatternWord.isHarmless_iff w).1 (h w hw)
    rw [patterns.bindingNames_render fun x hx => (hharmless _ hx).1 x rfl]
    exact List.flatMap_congr fun w hw => (hharmless w hw).2

/-- The second argument of a call stands behind a separator. -/
example : bindingNames "(a = f(x, y), b)".toList = [['a'], ['y'], ['b']] := by
  decide +kernel

end ModuleServer.Expression
