import ModuleServer.Proofs.Render.Given
import ModuleServer.Proofs.Render.Guard
import ModuleServer.Proofs.Render.Whole

/-!
# Directives that are not supported

Whether a template is refused for a directive that is not supported is a matter of where the
directive stands (`compile_unsupported`). The props of an element are where such a directive is
seen, so it is refused on elements that have props, and it is passed over on templates, and on all
that stands where nothing is drawn. An argument that is only known when rendering is refused on
templates as well.
-/

namespace ModuleServer.Render

open Text Template

/-- Names of the directives that are supported. -/
def supportedDirectives : List Text :=
  ["bind".toList, "on".toList, "html".toList] ++ structuralDirectives

/-- Whether the argument of a directive is only known when rendering. -/
def isDynamic (d : Directive) : Bool :=
  (d.arg.getD []).head? = some '['

/-! ## Where directives are seen -/

section Seen

variable {locals skipped : List Text} {items : List Item} {d : Directive}

/-- A directive contributes something or nothing only if it is supported. -/
theorem mem_supported_of_contributes {found : Option Assignment}
    (h : Contributes locals skipped (.directive d) found) : d.name ∈ supportedDirectives := by
  cases h with
  | bind hname | spread hname | listener hname | markup hname | skippedBind hname =>
    rw [hname]
    decide
  | structural hname => exact List.mem_append_right _ hname

theorem mem_supported_of_assignments {props : List Assignment}
    (h : assignments locals skipped items = .ok props) (hd : .directive d ∈ items) :
    d.name ∈ supportedDirectives := by
  obtain ⟨found, hfound, -⟩ := contributes_of_assignments h
  obtain ⟨c, -, hcontributes⟩ := exists_of_forall₂_mem hfound.flip hd
  exact mem_supported_of_contributes hcontributes

/-- Every element but a template looks at its directives. -/
theorem mem_supported_of_buildPlain {tag : Tag} {span : Span} {children : List Sibling} {v : VNode}
    (hkind : tag.kind ≠ .template) (h : buildPlain tag span children locals = .ok v)
    (hd : .directive d ∈ tag.items) : d.name ∈ supportedDirectives := by
  rw [buildPlain] at h
  cases hkind' : tag.kind with
  | template => exact absurd hkind' hkind
  | outlet =>
    rw [hkind'] at h
    obtain ⟨_, props, _, _, hprops, _⟩ := buildOutlet_eq_ok.1 h
    exact mem_supported_of_assignments hprops hd
  | component =>
    rw [hkind'] at h
    obtain ⟨_, props, _, _, hprops, _⟩ := buildComponent_eq_ok.1 h
    exact mem_supported_of_assignments hprops hd
  | native =>
    rw [hkind'] at h
    obtain ⟨props, _, hprops, _⟩ := buildNative_eq_ok.1 h
    exact mem_supported_of_assignments hprops hd

theorem isDynamic_eq_false (h : refuseDynamic items = .ok ()) (hd : .directive d ∈ items) :
    isDynamic d = false := by
  induction items with
  | nil => cases hd
  | cons item items ih =>
    rcases item with a | d'
    · rcases List.mem_cons.1 hd with hd | hd
      · cases hd
      · exact ih h hd
    · rw [refuseDynamic] at h
      split at h
      · cases h
      · rename_i hstatic
        rcases List.mem_cons.1 hd with hd | hd
        · obtain rfl := Item.directive.inj hd
          exact decide_eq_false hstatic
        · exact ih h hd

end Seen

/-! ## Where they are passed over -/

section PassedOver

variable {tag tag' : Tag} {span : Span} {before behind : List Item} {d : Directive}

theorem refuseDynamic_without (hstatic : isDynamic d = false) :
    refuseDynamic (before ++ .directive d :: behind) = refuseDynamic (before ++ behind) := by
  induction before with
  | nil =>
    rw [List.nil_append, List.nil_append, refuseDynamic, if_neg (of_decide_eq_false hstatic)]
  | cons item before ih =>
    rcases item with a | d'
    · exact ih
    · rw [List.cons_append, List.cons_append, refuseDynamic, refuseDynamic, ih]

/-- Without a directive that ties it to nothing, a tag tells its parent the same. -/
theorem sameView_without (hitems : tag.items = before ++ .directive d :: behind)
    (hname : d.name ∉ structuralDirectives) (hstatic : isDynamic d = false) :
    SameView tag { tag with items := before ++ behind } where
  kind := rfl
  dynamic := by rw [hitems, refuseDynamic_without hstatic]
  directive := by
    intro name hmem
    have hne : d.name ≠ name := by
      rintro rfl
      exact hname hmem
    simp only [Tag.directive?, hitems, List.findSome?_append, List.findSome?_cons, if_neg hne]

/-- Templates can be exchanged if they tell their parent the same and have the same children. -/
theorem exchangeable_template (hkind : tag.kind = .template) (view : SameView tag tag')
    (children : List Node) :
    Exchangeable (Sibling.ofNode (.element tag children span))
      (Sibling.ofNode (.element tag' children span)) := by
  have hbuild : buildElement tag' span (Sibling.ofNodes children) =
      buildElement tag span (Sibling.ofNodes children) := by
    funext locals
    simp only [buildElement, buildPlain, view.kind, hkind, view.dynamic,
      view.directive _ (show "for".toList ∈ structuralDirectives by decide)]
  simp only [Sibling.ofNode]
  rw [hbuild]
  exact .element view fun _ => rfl

end PassedOver

/-! ## Templates -/

/-- Whether a directive of an element at a place is looked at. -/
def Place.sees (p : Place) (tag : Tag) (d : Directive) : Bool :=
  p.isDrawn && (tag.kind ≠ .template || isDynamic d)

/-- An element of a template has a directive that is not supported. Where the directive is looked
at, compiling ends with an error, which has a text unless some text of the template cannot be read.
Where it is not, the result is that of the template without the directive. -/
theorem compile_unsupported (mode : Mode) {markup : Text} {p : Place} {tag : Tag}
    {children : List Node} {span : Span} {before behind : List Item} {d : Directive}
    (hparse : parse markup = .ok (p.fill (.element tag children span)))
    (hitems : tag.items = before ++ .directive d :: behind)
    (hname : d.name ∉ supportedDirectives) :
    (p.sees tag d = true → (∃ e, compile mode markup = Outcome.fail e) ∨
      compile mode markup = .error .splitCharacter ∧
        ∃ t ∈ textsOfNodes (p.fill (.element tag children span)), isReadable t = false) ∧
    (p.sees tag d = false → compile mode markup =
      generate mode (p.fill (.element { tag with items := before ++ behind } children span))) := by
  rw [compile_of_parse mode hparse]
  have hd : .directive d ∈ tag.items := by
    rw [hitems]
    exact List.mem_append_right _ (List.mem_cons_self ..)
  constructor
  · intro hsees
    rw [Place.sees, Bool.and_eq_true, Bool.or_eq_true, decide_eq_true_eq] at hsees
    obtain ⟨hdrawn, hkind⟩ := hsees
    -- the template is not built, since building the element looks at the directive
    have herror : ∀ roots, buildTemplate (p.fill (.element tag children span)) ≠ .ok roots := by
      intro roots hroots
      have hstatic : refuseDynamic tag.items = .ok () := by
        cases hpasses : p.passes tag with
        | true => exact ((carries_place p hdrawn children tag span id hroots).2 hpasses).1
        | false => exact (exists_spot p hdrawn children tag span id hpasses hroots).1
      rcases hkind with hkind | hdynamic
      · have hkept : p.passes tag = false := by
          cases p with
          | root => rfl
          | inside => simp [Place.passes, isSlotTemplate, hkind]
        obtain ⟨-, spot, hcarries, -⟩ := exists_spot p hdrawn children tag span id hkept hroots
        obtain ⟨item, hitem⟩ := hcarries.exists_ok
        exact hname (mem_supported_of_buildPlain hkind hitem hd)
      · exact absurd (hdynamic.symm.trans (isDynamic_eq_false hstatic hd)) Bool.noConfusion
    rw [generate]
    cases hroots : buildTemplate (p.fill (.element tag children span)) with
    | ok roots => exact absurd hroots (herror roots)
    | error stop =>
      cases stop with
      | failed e => exact .inl ⟨e, rfl⟩
      | splitCharacter =>
        refine .inr ⟨rfl, ?_⟩
        by_contra hall
        push Not at hall
        refine buildTemplate_whole (fun t ht => ?_) hroots
        exact Bool.of_not_eq_false (hall t ht)
  · intro hsees
    rw [Place.sees, Bool.and_eq_false_iff, Bool.or_eq_false_iff] at hsees
    rw [generate, generate]
    rcases hsees with hhidden | ⟨hkind, hstatic⟩
    · rw [buildTemplate_hidden p hhidden]
    · have hkind : tag.kind = .template := by simpa using hkind
      have hview := sameView_without hitems
        (fun hmem => hname (List.mem_append_right _ hmem)) hstatic
      rw [buildTemplate_exchange p (exchangeable_template hkind hview children)]

/-- A template with a directive that is not supported. -/
def unsupportedTag : Tag :=
  ⟨"template".toList, .template, [.directive ⟨"foo".toList, none, none, [], ⟨10, 15⟩⟩]⟩

theorem compile_unsupported_unsupportedTag :
    let markup := "<template v-foo>x</template>".toList
    let text : Node := .text ['x'] ⟨16, 17⟩
    parse markup = .ok (Place.fill (.root [] []) (.element unsupportedTag [text] ⟨0, 28⟩)) ∧
      "foo".toList ∉ supportedDirectives ∧
      compile .module markup = generate .module
        [.element { unsupportedTag with items := [] } [text] ⟨0, 28⟩] := by
  intro markup text
  have hparse : parse markup =
      .ok (Place.fill (.root [] []) (.element unsupportedTag [text] ⟨0, 28⟩)) := by
    decide +kernel
  have hitems : unsupportedTag.items =
      [] ++ .directive ⟨"foo".toList, none, none, [], ⟨10, 15⟩⟩ :: [] := rfl
  have hname : "foo".toList ∉ supportedDirectives := by decide
  exact ⟨hparse, hname, (compile_unsupported .module hparse hitems hname).2 rfl⟩

end ModuleServer.Render
