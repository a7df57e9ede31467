import ModuleServer.Proofs.Server.Answered

/-!
# The place that a message names

The message of a failure closes with a line and a column of the component file. They name one offset
there (`offsetNamed?`): where the file is wrong, or where the part of the template's text stands
that is wrong (`failures_located`).
-/

namespace ModuleServer.Component

open Text

/-! ## Reading a message -/

/-- The line and the column that a message closes with. -/
def placeNamed? (message : Text) : Option (Nat × Nat) :=
  match message.reverse with
  | ')' :: t =>
    match t.dropWhile Char.isDigit with
    | ':' :: r =>
      if headIs (· = '(') (r.dropWhile Char.isDigit) then
        some (Nat.ofDigitChars 10 (r.takeWhile Char.isDigit).reverse 0,
          Nat.ofDigitChars 10 (t.takeWhile Char.isDigit).reverse 0)
      else none
    | _ => none
  | _ => none

/-- The offset that a message names in a file. -/
def offsetNamed? (source message : Text) : Option Nat :=
  (placeNamed? message).map fun (line, column) => offsetOf source line column

theorem takeWhile_decimal (n : Nat) {c : Char} (hc : c.isDigit = false) (rest : Text) :
    ((decimal n).reverse ++ c :: rest).takeWhile Char.isDigit = (decimal n).reverse ∧
      ((decimal n).reverse ++ c :: rest).dropWhile Char.isDigit = c :: rest := by
  have hdigits : ∀ d ∈ (decimal n).reverse, d.isDigit := fun d hd =>
    Nat.isDigit_of_mem_toDigits (by decide) (by decide) (List.mem_reverse.1 hd)
  constructor
  · rw [List.takeWhile_append_of_pos hdigits, List.takeWhile_cons_of_neg (by simp [hc]),
      List.append_nil]
  · rw [List.dropWhile_append_of_pos hdigits, List.dropWhile_cons_of_neg (by simp [hc])]

/-- The place is read from a message as it was written there. -/
theorem placeNamed?_located (message : Text) (line column : Nat) :
    placeNamed? (message ++ [' ', '('] ++ decimal line ++ [':'] ++ decimal column ++ [')']) =
      some (line, column) := by
  have hreverse :
      (message ++ [' ', '('] ++ decimal line ++ [':'] ++ decimal column ++ [')']).reverse =
      ')' :: ((decimal column).reverse ++ ':' :: ((decimal line).reverse ++
        '(' :: ' ' :: message.reverse)) := by simp
  obtain ⟨hcolumn, hbehind⟩ := takeWhile_decimal column (c := ':') rfl
    ((decimal line).reverse ++ '(' :: ' ' :: message.reverse)
  obtain ⟨hline, hopen⟩ := takeWhile_decimal line (c := '(') rfl (' ' :: message.reverse)
  have hvalue : ∀ n, Nat.ofDigitChars 10 (decimal n) 0 = n := fun n =>
    Nat.ofDigitChars_toDigits (by decide) (by decide)
  simp only [placeNamed?, hreverse, hbehind]
  rw [hopen, hline, hcolumn, List.reverse_reverse, List.reverse_reverse, hvalue, hvalue]
  rfl

/-! ## Failures -/

section Failures

variable {path source : Text} {c : Component}

/-- A message with the place of an offset names that offset. -/
theorem exists_offsetNamed {offset : Nat} (h : IsOffset source offset) (message : Text) :
    ∃ text, located? source offset message = some text ∧
      offsetNamed? source text = some offset := by
  obtain ⟨⟨line, column⟩, hplace⟩ := exists_lineColumn? h
  refine ⟨_, by rw [located?, hplace]; rfl, ?_⟩
  rw [offsetNamed?, placeNamed?_located]
  exact congrArg some (offsetOf_lineColumn h hplace)

/-- What is wrong with a file is reported with its place. -/
theorem read_of_parse_error {e : Error} (h : parse source = .error e) :
    ∃ message, Component.read path source = .error (.failed (.parseFailure path message)) ∧
      offsetNamed? source message = some e.span.start := by
  obtain ⟨message, hlocated, hnamed⟩ := exists_offsetNamed (isIn_of_parse h).start e.fault.message
  refine ⟨message, ?_, hnamed⟩
  rw [Component.read, h]
  dsimp only
  rw [hlocated]
  rfl

theorem compile_of_compiler {markup : Text} {stop : Stop Template.Error}
    (h : compiler markup = .error stop) : Render.compile .module markup = .error stop := by
  rw [compiler] at h
  cases hcompile : Render.compile .module markup with
  | ok code =>
    rw [hcompile] at h
    cases h
  | error stop' =>
    rw [hcompile] at h
    exact congrArg _ (Except.error.inj h)

/-- What is wrong with a template is reported with its place in the file. -/
theorem templateModule_of_compile_error {block : Block} {e : Template.Error}
    (hparse : parse source = .ok c) (hvisible : visibleTemplate? c = some block)
    (hcompile : compiler block.content = .error (.failed e)) :
    ∃ message, (Component.read path source).bind (templateModule compiler path source) =
        .error (.failed (.compileFailure path message)) ∧
      offsetNamed? source message = some (block.span.start + e.span.start) := by
  have hoffset := isOffset_in_file hparse hvisible (compile_of_compiler hcompile)
  obtain ⟨message, hlocated, hnamed⟩ := exists_offsetNamed hoffset e.fault.message
  refine ⟨message, ?_, hnamed⟩
  rw [read_of_visibleTemplate? hparse hvisible]
  change templateModule compiler path source c = _
  rw [templateModule, hvisible]
  dsimp only
  rw [hcompile]
  dsimp only
  rw [hlocated]
  rfl

/-- The text of a template from an offset on stands in the file, that much behind the start of the
template. -/
theorem standsIn_from {block : Block} {n : Nat} (hparse : parse source = .ok c)
    (hvisible : visibleTemplate? c = some block) (hn : IsOffset block.content n) :
    ∃ front back before behind, block.content = front ++ back ∧ byteSize front = n ∧
      source = before ++ (back ++ behind) ∧ byteSize before = block.span.start + n := by
  have hmem : block ∈ c.blocks := by
    have htemplate : c.template = some block := (Option.filter_eq_some_iff.1 hvisible).1
    simp [blocks, htemplate]
  obtain ⟨before, behind, hsource, hspan⟩ := standsIn_of_parse hparse block hmem
  obtain ⟨front, back, hcontent, rfl⟩ := hn
  refine ⟨front, back, before ++ front, behind, hcontent, rfl, ?_, ?_⟩
  · rw [hsource, hcontent]
    simp only [List.append_assoc]
  · rw [byteSize_append, hspan]

/-- Whatever is wrong with a component file or with markup lies in it, and a message that says so
names one offset of the file: the one where the file is wrong, or the one where the part of the
template's text stands that starts where the template is wrong. -/
theorem failures_located (path source : Text) :
    (∀ e, parse source = .error e → e.span.IsIn source ∧
      ∃ message, Component.read path source = .error (.failed (.parseFailure path message)) ∧
        offsetNamed? source message = some e.span.start) ∧
    (∀ mode markup e, Render.compile mode markup = .error (.failed e) → e.span.IsIn markup) ∧
    ∀ c block e, parse source = .ok c → visibleTemplate? c = some block →
      compiler block.content = .error (.failed e) →
        ∃ message offset, (Component.read path source).bind (templateModule compiler path source) =
            .error (.failed (.compileFailure path message)) ∧
          offsetNamed? source message = some offset ∧ offset = block.span.start + e.span.start ∧
          ∃ front back before behind, block.content = front ++ back ∧
            byteSize front = e.span.start ∧ source = before ++ (back ++ behind) ∧
              byteSize before = offset := by
  refine ⟨fun e he => ⟨isIn_of_parse he, read_of_parse_error he⟩,
    fun mode markup e he => isIn_of_compile he, fun c block e hparse hvisible hcompile => ?_⟩
  have hoffset := (isIn_of_compile (compile_of_compiler hcompile)).start
  obtain ⟨message, hread, hnamed⟩ :=
    templateModule_of_compile_error hparse hvisible hcompile
  exact ⟨message, _, hread, hnamed, rfl, standsIn_from hparse hvisible hoffset⟩

/-- A file without the end tag of its script. -/
def cutScript : Text := "é\n<script>".toList

/-- A file whose template has no end tag of its paragraph, and that template. -/
def cutTemplate : Text × Block :=
  ("<template>é\n<p></template>".toList, ⟨"é\n<p>".toList, [], ⟨10, 16⟩⟩)

theorem failures_located_cut :
    parse cutScript = .error ⟨.missingEndTag "script".toList, ⟨3, 11⟩⟩ ∧
    (∃ message, Component.read "/A.vue".toList cutScript =
        .error (.failed (.parseFailure "/A.vue".toList message)) ∧
      offsetNamed? cutScript message = some 3) ∧
    ∃ message, (Component.read "/A.vue".toList cutTemplate.1).bind
        (templateModule compiler "/A.vue".toList cutTemplate.1) =
          .error (.failed (.compileFailure "/A.vue".toList message)) ∧
      offsetNamed? cutTemplate.1 message = some 13 := by
  have hscript : parse cutScript = .error ⟨.missingEndTag "script".toList, ⟨3, 11⟩⟩ := by
    decide +kernel
  have htemplate : parse cutTemplate.1 = .ok ⟨some cutTemplate.2, none, none⟩ := by
    decide +kernel
  have hvisible : visibleTemplate? ⟨some cutTemplate.2, none, none⟩ = some cutTemplate.2 := by
    decide +kernel
  have hcompile : compiler cutTemplate.2.content =
      .error (.failed ⟨.missingEndTag "p".toList, ⟨3, 6⟩⟩) := by
    decide +kernel
  refine ⟨hscript, ((failures_located _ _).1 _ hscript).2, ?_⟩
  obtain ⟨message, _, hread, hnamed, rfl, -⟩ :=
    (failures_located "/A.vue".toList _).2.2 _ _ _ htemplate hvisible hcompile
  exact ⟨message, hread, hnamed⟩

end Failures

end ModuleServer.Component
