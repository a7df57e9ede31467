import Mathlib
import ModuleServer.Proofs.Render.Given
import ModuleServer.Proofs.Render.Literal

/-!
# Props that are merged

What a key is in the end, of all that the attributes and directives of a tag give it. The code of
the props is one object, or several that are merged, some of them given by expressions; of the
entries of an object the last counts, and of objects that are merged the last that has the key
(`Argument.get`). What is asked for is the last in the order of the tag (`Gift.last`).

Giving a key again changes its entry where it stands. So the code gives what is asked for, whatever
the objects are, unless something that may have the key stands between the place where the key is
given first and the place where it is given last (`assignments_merged`).
-/

namespace ModuleServer.Render

open Text Template
open List (Forall₂)

/-- An object: the value of each key that it has. -/
abbrev Object (V : Type) := Text → Option V

/-! ## What the code gives -/

/-- An argument of the function that merges props. -/
inductive Argument where
  /-- An object with its entries, as written. -/
  | literal (entries : List (Text × Value))
  /-- An object that an expression gives. -/
  | spread (exp : Text)
deriving DecidableEq, Repr

/-- The value that the last entry of a key has. -/
def lastEntry {V : Type} (value : Value → V) (key : Text) : List (Text × Value) → Option V
  | [] => none
  | (k, v) :: rest => (lastEntry value key rest).or (if k = key then some (value v) else none)

namespace Argument

/-- The arguments that parts make, `run` being the entries before them, last first. -/
def ofParts (run : List (Text × Value)) : List Part → List Argument
  | [] => if run.isEmpty then [] else [.literal run.reverse]
  | .entry key value :: rest => ofParts ((key, value) :: run) rest
  | .spread exp :: rest =>
    (if run.isEmpty then [] else [.literal run.reverse]) ++ .spread exp :: ofParts [] rest

/-- The arguments that contributions make. -/
def ofProps (props : List Assignment) : List Argument :=
  ofParts [] (Assignment.parts props)

/-- The code of an argument. -/
def print (depth : Nat) : Argument → Text
  | literal entries => Render.object depth (entries.map printEntry)
  | spread exp => exp

/-- The code of props: none, an object, or objects that are merged. -/
def code? (depth : Nat) : List Argument → Option Text
  | [] => none
  | [.literal entries] => some (print depth (.literal entries))
  | arguments => some (call Helper.mergeProps.localName (arguments.map (print depth)))

/-- The value that a key has when objects are merged, those that expressions give being `objects`
from the `n`th on. -/
def get {V : Type} (value : Value → V) (objects : Nat → Object V) (key : Text) :
    Nat → List Argument → Option V
  | _, [] => none
  | n, .literal entries :: rest => (get value objects key n rest).or (lastEntry value key entries)
  | n, .spread _ :: rest => (get value objects key (n + 1) rest).or (objects n key)

end Argument

/-! ## What is asked for -/

/-- What an item of a tag gives to a key. -/
inductive Gift where
  /-- A value, in place of the one that the key has. -/
  | set (value : Value)
  /-- The inner markup, behind all that is there. -/
  | markup (value : Value)
  /-- An object, which may have the key. -/
  | object
deriving DecidableEq, Repr

/-- What an item gives to a key, if anything: an attribute or a binding of the key, inner markup, or
an object. -/
def gift? (locals : List Text) (key : Text) : Item → Option Gift
  | .attribute a => if a.name = key then some (.set (.literal (a.value.getD []))) else none
  | .directive d =>
    if d.name = "bind".toList then
      match d.arg with
      | some arg =>
        if boundKey arg d = key then
          (Expression.prefixNames? locals (d.exp.getD (camelize arg))).map
            fun e => .set (.expression e)
        else none
      | none => some .object
    else if d.name = "html".toList ∧ key = "innerHTML".toList then
      (d.exp.bind (Expression.prefixNames? locals)).map fun e => .markup (.expression e)
    else none

/-- What the items of a tag give to a key, in order. -/
def gifts (locals : List Text) (key : Text) (items : List Item) : List Gift :=
  items.filterMap (gift? locals key)

/-- Whether a key is one of a listener: its name goes on from `on` with no small letter. -/
def isListenerKey : Text → Bool
  | 'o' :: 'n' :: rest => !headIs Char.isLower rest
  | _ => false

namespace Gift

/-- Whether a gift takes the place of the value that its key has. -/
def isSet : Gift → Bool
  | set _ => true
  | _ => false

/-- The value of the last gift that gives one, the objects among them being `objects` from the `n`th
on. -/
def last {V : Type} (value : Value → V) (objects : Nat → Object V) (key : Text) :
    Nat → List Gift → Option V
  | _, [] => none
  | n, .set v :: rest => (last value objects key n rest).or (some (value v))
  | n, .markup v :: rest => (last value objects key n rest).or (some (value v))
  | n, .object :: rest => (last value objects key (n + 1) rest).or (objects n key)

/-- The last value is set where the key was given first, and of what stands between and keeps its
place, the last is anything but markup of the same value. -/
def IsOvertaken (gifts : List Gift) : Prop :=
  ∃ before first between value behind rival,
    gifts = before ++ first :: (between ++ .set value :: behind) ∧
    (∀ g ∈ before, g = .object) ∧ first ≠ .object ∧ (∀ g ∈ behind, g = .object) ∧
    (between.filter fun g => !g.isSet).getLast? = some rival ∧ rival ≠ .markup value

end Gift

/-! ## The code of props -/

theorem arguments_eq (depth : Nat) (run : List (Text × Value)) (parts : List Part) :
    Part.arguments depth (run.map printEntry) parts =
      (Argument.ofParts run parts).map (Argument.print depth) := by
  have hrun : ∀ run : List (Text × Value),
      (if (run.map printEntry).isEmpty then []
        else [Render.object depth (run.map printEntry).reverse]) =
      (if run.isEmpty then [] else [Argument.literal run.reverse]).map (Argument.print depth) := by
    intro run
    cases run with
    | nil => rfl
    | cons entry run => simp [Argument.print]
  induction parts generalizing run with
  | nil => exact hrun run
  | cons part rest ih =>
    cases part with
    | entry key value => exact ih ((key, value) :: run)
    | spread exp =>
      rw [Part.arguments, Argument.ofParts, List.map_append, hrun, List.map_cons, ← ih []]
      rfl

/-- Where nothing is spread, there is one object at most. -/
theorem ofParts_of_no_spread {parts : List Part} (h : parts.any Part.isSpread = false)
    (run : List (Text × Value)) :
    Argument.ofParts run parts = [] ∨
      ∃ entries, Argument.ofParts run parts = [.literal entries] := by
  induction parts generalizing run with
  | nil =>
    rw [Argument.ofParts]
    split
    · exact .inl rfl
    · exact .inr ⟨_, rfl⟩
  | cons part rest ih =>
    rw [List.any_cons, Bool.or_eq_false_iff] at h
    cases part with
    | entry key value => exact ih h.2 _
    | spread exp => cases h.1

theorem spread_mem_ofParts {parts : List Part} (h : parts.any Part.isSpread)
    (run : List (Text × Value)) : ∃ exp, Argument.spread exp ∈ Argument.ofParts run parts := by
  induction parts generalizing run with
  | nil => cases h
  | cons part rest ih =>
    cases part with
    | entry key value => exact ih h _
    | spread exp => exact ⟨exp, List.mem_append_right _ List.mem_cons_self⟩

/-- The code of props is that of their arguments. -/
theorem print?_eq_code? (depth : Nat) (props : List Assignment) :
    Assignment.print? depth props = Argument.code? depth (Argument.ofProps props) := by
  have harguments := arguments_eq depth [] (Assignment.parts props)
  rw [List.map_nil] at harguments
  rw [Assignment.print?, harguments, Argument.ofProps]
  cases hspread : (Assignment.parts props).any Part.isSpread with
  | true =>
    obtain ⟨exp, hexp⟩ := spread_mem_ofParts hspread []
    generalize Argument.ofParts [] (Assignment.parts props) = arguments at hexp
    rcases arguments with _ | ⟨first, _ | ⟨second, others⟩⟩
    · cases hexp
    · obtain rfl := List.mem_singleton.1 hexp
      rfl
    · cases first <;> rfl
  | false =>
    rcases ofParts_of_no_spread hspread [] with h | ⟨entries, h⟩
    · rw [h]
      rfl
    · rw [h]
      rfl

/-! ## One key of the parts -/

/-- What a part gives to a key. The value of an entry stays where it stands. -/
def Part.gift? (key : Text) : Part → Option Gift
  | .entry k value => if k = key then some (.markup value) else none
  | .spread _ => some .object

/-- What a contribution gives to a key. -/
def Assignment.gift? (key : Text) : Assignment → Option Gift
  | .set k value => if k = key then some (.set value) else none
  | .append k value => if k = key then some (.markup value) else none
  | .spread _ => some .object

namespace Gift

/-- Gifts with a value in place of the first one among them. -/
def put (value : Value) : List Gift → List Gift
  | [] => [.markup value]
  | .object :: rest => .object :: put value rest
  | _ :: rest => .markup value :: rest

/-- Gifts that keep their places, with one more. -/
def settle (settled : List Gift) : Gift → List Gift
  | .set value => put value settled
  | .markup value => settled ++ [.markup value]
  | .object => settled ++ [.object]

end Gift

theorem lastEntry_append {V : Type} (value : Value → V) (key : Text) (xs ys : List (Text × Value)) :
    lastEntry value key (xs ++ ys) = (lastEntry value key ys).or (lastEntry value key xs) := by
  induction xs with
  | nil => exact Option.or_none.symm
  | cons entry xs ih =>
    rw [List.cons_append, lastEntry, ih, lastEntry, Option.or_assoc]

section Parts

variable {key : Text}

theorem filterMap_gift?_set (hclass : key ≠ "class".toList) (hstyle : key ≠ "style".toList)
    (k : Text) (value : Value) (parts : List Part) :
    (Part.set k value parts).filterMap (Part.gift? key) =
      if k = key then Gift.put value (parts.filterMap (Part.gift? key))
      else parts.filterMap (Part.gift? key) := by
  induction parts with
  | nil => by_cases hk : k = key <;> simp [Part.set, Part.gift?, Gift.put, hk]
  | cons part rest ih =>
    cases part with
    | spread exp =>
      have hspread : ∀ parts : List Part, (Part.spread exp :: parts).filterMap (Part.gift? key) =
          .object :: parts.filterMap (Part.gift? key) := fun _ => rfl
      rw [Part.set, hspread, hspread, ih]
      split <;> rfl
    | entry k' v =>
      rw [Part.set]
      by_cases hsame : k' = k
      · obtain rfl := hsame
        by_cases hk : k' = key
        · obtain rfl := hk
          have hcombine : v.combine k' value = value := by
            rw [Value.combine, if_neg hclass, if_neg hstyle]
          simp [Part.gift?, Gift.put, hcombine]
        · simp [Part.gift?, hk]
      · rw [if_neg hsame]
        by_cases hk' : k' = key
        · obtain rfl := hk'
          simp [Part.gift?, ih, Ne.symm hsame]
        · simp [Part.gift?, ih, hk']

/-- The parts of a key are what the contributions give to it, settled one after another. -/
theorem filterMap_gift?_parts (hclass : key ≠ "class".toList) (hstyle : key ≠ "style".toList)
    (props : List Assignment) :
    (Assignment.parts props).filterMap (Part.gift? key) =
      (props.filterMap (Assignment.gift? key)).foldl Gift.settle [] := by
  suffices h : ∀ parts : List Part, (props.foldl Part.add parts).filterMap (Part.gift? key) =
      (props.filterMap (Assignment.gift? key)).foldl Gift.settle
        (parts.filterMap (Part.gift? key)) from h []
  induction props with
  | nil => exact fun _ => rfl
  | cons a props ih =>
    intro parts
    rw [List.foldl_cons, ih]
    cases a with
    | set k value =>
      rw [Part.add, filterMap_gift?_set hclass hstyle]
      by_cases hk : k = key <;> simp [Assignment.gift?, Gift.settle, hk]
    | append k value =>
      by_cases hk : k = key <;> simp [Part.add, Part.gift?, Assignment.gift?, Gift.settle, hk]
    | spread exp => simp [Part.add, Part.gift?, Assignment.gift?, Gift.settle]

/-- The value that a key has in the arguments of parts is the last that the parts give to it. -/
theorem get_ofParts {V : Type} (value : Value → V) (objects : Nat → Object V) (n : Nat)
    (run : List (Text × Value)) (parts : List Part) :
    Argument.get value objects key n (Argument.ofParts run parts) =
      (Gift.last value objects key n (parts.filterMap (Part.gift? key))).or
        (lastEntry value key run.reverse) := by
  have hrun : ∀ (n : Nat) (run : List (Text × Value)) (arguments : List Argument),
      Argument.get value objects key n
          ((if run.isEmpty then [] else [Argument.literal run.reverse]) ++ arguments) =
        (Argument.get value objects key n arguments).or (lastEntry value key run.reverse) := by
    intro n run arguments
    cases run with
    | nil => exact (Option.or_none).symm
    | cons entry run => rfl
  induction parts generalizing n run with
  | nil =>
    rw [Argument.ofParts, ← List.append_nil (ite _ _ _), hrun]
    rfl
  | cons part rest ih =>
    cases part with
    | entry k v =>
      rw [Argument.ofParts, ih, List.reverse_cons, lastEntry_append]
      by_cases hk : k = key
      · simp [Part.gift?, lastEntry, Gift.last, hk]
      · simp [Part.gift?, lastEntry, hk]
    | spread exp =>
      rw [Argument.ofParts, hrun, Argument.get, ih, List.reverse_nil]
      simp [Part.gift?, lastEntry, Gift.last]

end Parts

/-! ## Settling -/

namespace Gift

section Settling

variable {before gs behind settled : List Gift} {first : Gift} {v : Value}

/-- Gifts none of which takes a place come one behind the other. -/
theorem foldl_settle_of_unset (h : ∀ g ∈ gs, g.isSet = false) (settled : List Gift) :
    gs.foldl settle settled = settled ++ gs := by
  induction gs generalizing settled with
  | nil => exact (List.append_nil _).symm
  | cons g gs ih =>
    obtain ⟨hg, hgs⟩ := List.forall_mem_cons.1 h
    have hstep : settle settled g = settled ++ [g] := by
      cases g with
      | set => cases hg
      | markup | object => rfl
    rw [List.foldl_cons, hstep, ih hgs, List.append_assoc, List.singleton_append]

theorem isSet_of_objects (h : ∀ g ∈ before, g = .object) : ∀ g ∈ before, g.isSet = false := by
  intro g hg
  rw [h g hg]
  rfl

theorem put_append (hbefore : ∀ g ∈ before, g = .object) (v w : Value) (behind : List Gift) :
    put v (before ++ .markup w :: behind) = before ++ .markup v :: behind ∧
      put v before = before ++ [.markup v] := by
  induction before with
  | nil => exact ⟨rfl, rfl⟩
  | cons g before ih =>
    obtain ⟨rfl, hrest⟩ := List.forall_mem_cons.1 hbefore
    obtain ⟨hput, hend⟩ := ih hrest
    exact ⟨congrArg (List.cons object) hput, congrArg (List.cons object) hend⟩

/-- The first gift of a value, behind objects, finds its place. -/
theorem exists_foldl_settle_first (hbefore : ∀ g ∈ before, g = .object) (hfirst : first ≠ .object) :
    ∃ v, (first = .set v ∨ first = .markup v) ∧
      (before ++ [first]).foldl settle [] = before ++ [.markup v] := by
  rw [List.foldl_append, foldl_settle_of_unset (isSet_of_objects hbefore), List.nil_append,
    List.foldl_cons, List.foldl_nil]
  cases first with
  | set v => exact ⟨v, .inl rfl, (put_append hbefore v v []).2⟩
  | markup v => exact ⟨v, .inr rfl, rfl⟩
  | object => exact absurd rfl hfirst

/-- Behind the first value, the place of that value stays, and all that takes no place comes in
order. -/
theorem exists_foldl_settle (hbefore : ∀ g ∈ before, g = .object) (gs : List Gift) (v : Value)
    (behind : List Gift) :
    ∃ w, gs.foldl settle (before ++ .markup v :: behind) =
      before ++ .markup w :: (behind ++ gs.filter fun g => !g.isSet) := by
  induction gs generalizing v behind with
  | nil => exact ⟨v, by rw [List.filter_nil, List.append_nil, List.foldl_nil]⟩
  | cons g gs ih =>
    have hkept : ∀ g : Gift, g.isSet = false →
        before ++ .markup v :: behind ++ [g] = before ++ .markup v :: (behind ++ [g]) := by
      intro g _
      rw [List.append_assoc, List.cons_append]
    rw [List.foldl_cons]
    cases g with
    | set w =>
      rw [settle, (put_append hbefore w v behind).1]
      exact ih w behind
    | markup w =>
      rw [settle, hkept _ rfl]
      obtain ⟨u, hu⟩ := ih v (behind ++ [.markup w])
      exact ⟨u, by rw [hu, List.append_assoc]; rfl⟩
    | object =>
      rw [settle, hkept _ rfl]
      obtain ⟨u, hu⟩ := ih v (behind ++ [.object])
      exact ⟨u, by rw [hu, List.append_assoc]; rfl⟩

/-- A first value and none that is set stay as they are. -/
theorem exists_settled_of_unset (hbefore : ∀ g ∈ before, g = .object) (hfirst : first ≠ .object)
    (hgs : ∀ g ∈ gs, g.isSet = false) :
    ∃ v, (first = .set v ∨ first = .markup v) ∧
      (before ++ first :: gs).foldl settle [] = before ++ .markup v :: gs := by
  obtain ⟨v, hv, hplace⟩ := exists_foldl_settle_first hbefore hfirst
  refine ⟨v, hv, ?_⟩
  rw [← List.singleton_append, ← List.append_assoc, List.foldl_append, hplace,
    foldl_settle_of_unset hgs, List.append_assoc, List.singleton_append]

/-- The last value that is set stands in the place of the first value, before all that takes no
place. -/
theorem settled_of_set (hbefore : ∀ g ∈ before, g = .object) (hfirst : first ≠ .object)
    (between : List Gift) (v : Value) (hbehind : ∀ g ∈ behind, g.isSet = false) :
    (before ++ first :: (between ++ .set v :: behind)).foldl settle [] =
      before ++ .markup v :: ((between.filter fun g => !g.isSet) ++ behind) := by
  obtain ⟨u, -, hplace⟩ := exists_foldl_settle_first hbefore hfirst
  obtain ⟨w, hbetween⟩ := exists_foldl_settle hbefore between u []
  rw [← List.singleton_append, ← List.append_assoc, List.foldl_append, hplace, List.foldl_append,
    hbetween, List.nil_append, List.foldl_cons, settle, (put_append hbefore v w _).1,
    foldl_settle_of_unset hbehind, List.append_assoc, List.cons_append]

end Settling

/-! ## The last value -/

section Last

variable {V : Type} (value : Value → V) (objects : Nat → Object V) (key : Text)
variable {gs before between behind : List Gift} {first : Gift}

theorem last_append (n : Nat) (xs ys : List Gift) :
    last value objects key n (xs ++ ys) =
      (last value objects key (n + xs.count .object) ys).or (last value objects key n xs) := by
  induction xs generalizing n with
  | nil => exact Option.or_none.symm
  | cons g xs ih =>
    cases g with
    | set v | markup v =>
      rw [List.cons_append, last, ih, List.count_cons_of_ne (by exact nofun), last, Option.or_assoc]
    | object =>
      rw [List.cons_append, last, ih, List.count_cons_self, last, Option.or_assoc,
        Nat.add_right_comm, Nat.add_assoc]

/-- Any value that is given is a value in the end. -/
theorem isSome_last {g : Gift} (hmem : g ∈ gs) (hg : g ≠ .object) (n : Nat) :
    (last value objects key n gs).isSome := by
  obtain ⟨xs, ys, rfl⟩ := List.append_of_mem hmem
  have hhead : ∀ m, (last value objects key m (g :: ys)).isSome := by
    intro m
    cases g with
    | set v | markup v => exact Option.isSome_or.trans (Bool.or_true _)
    | object => exact absurd rfl hg
  rw [last_append, Option.isSome_or, hhead, Bool.true_or]

/-- Objects without the key give it nothing. -/
theorem last_eq_none (hall : ∀ g ∈ gs, g = .object) {n : Nat}
    (hobjects : ∀ i, n ≤ i → objects i key = none) : last value objects key n gs = none := by
  induction gs generalizing n with
  | nil => rfl
  | cons g gs ih =>
    obtain ⟨rfl, hrest⟩ := List.forall_mem_cons.1 hall
    rw [last, hobjects n (Nat.le_refl n), ih hrest fun i hi => hobjects i (Nat.le_of_succ_le hi),
      Option.or_none]

theorem count_unset (gs : List Gift) :
    (gs.filter fun g => !g.isSet).count .object = gs.count .object :=
  List.count_filter rfl

/-- Gifts that are one value in the end, behind the same gifts. -/
theorem last_congr {xs ys : List Gift}
    (h : last value objects key (before.count .object) xs =
      last value objects key (before.count .object) ys) :
    last value objects key 0 (before ++ xs) = last value objects key 0 (before ++ ys) := by
  rw [last_append, last_append, Nat.zero_add, h]

end Last

/-- The gifts of a key: objects only; or a first value and then none that is set; or a first value
and then a last one that is set. -/
theorem cases_of_gifts (gs : List Gift) :
    (∀ g ∈ gs, g = .object) ∨
      ∃ before first others, gs = before ++ first :: others ∧ (∀ g ∈ before, g = .object) ∧
        first ≠ .object ∧
          ((∀ g ∈ others, g.isSet = false) ∨ ∃ between value behind,
            others = between ++ .set value :: behind ∧ ∀ g ∈ behind, g.isSet = false) := by
  cases hfirst : gs.find? fun g => g ≠ .object with
  | none => exact .inl fun g hg => by simpa using List.find?_eq_none.1 hfirst g hg
  | some first =>
    obtain ⟨hvalue, before, others, rfl, hbefore⟩ := List.find?_eq_some_iff_append.1 hfirst
    refine .inr ⟨before, first, others, rfl, fun g hg => by simpa using hbefore g hg,
      of_decide_eq_true hvalue, ?_⟩
    cases hlast : others.reverse.find? isSet with
    | none => exact .inl fun g hg => by simpa using List.find?_eq_none.1 hlast g (by simpa using hg)
    | some g =>
      obtain ⟨hset, behind, between, hothers, hbehind⟩ := List.find?_eq_some_iff_append.1 hlast
      cases g with
      | set value =>
        refine .inr ⟨between.reverse, value, behind.reverse, ?_, fun g hg => ?_⟩
        · rw [← List.reverse_reverse others, hothers]
          simp
        · simpa using hbehind g (List.mem_reverse.1 hg)
      | markup | object => cases hset

section Overtaken

variable {V : Type} (value : Value → V) (objects : Nat → Object V) (key : Text)

/-- What a place and its successors give in the end, if the last value is put into it: what stands
behind the last value counts first, then what keeps its place between, and then the value. -/
theorem last_settled (n : Nat) (v : Value) (between behind : List Gift) :
    last value objects key n
        (.markup v :: ((between.filter fun g => !g.isSet) ++ behind)) =
      ((last value objects key (n + between.count .object) behind).or
        (last value objects key n (between.filter fun g => !g.isSet))).or (some (value v)) := by
  rw [last, last_append, count_unset]

/-- What the same gifts give in order: what stands behind the last value counts first, and then the
value. -/
theorem last_in_order (n : Nat) {first : Gift} (hfirst : first ≠ .object) (v : Value)
    (between behind : List Gift) :
    last value objects key n (first :: (between ++ .set v :: behind)) =
      (last value objects key (n + between.count .object) behind).or (some (value v)) := by
  have hvalue : ∀ o rest : Option V, (o.or (some (value v))).or rest = o.or (some (value v)) := by
    intro o rest
    rw [Option.or_assoc, Option.some_or]
  cases first with
  | set u | markup u => rw [last, last_append, last, hvalue, hvalue]
  | object => exact absurd rfl hfirst

/-- Gifts settled one after another give what the last one gives, whatever the objects are, unless
it is overtaken. -/
theorem last_settle {gs : List Gift} (hnot : ¬IsOvertaken gs) :
    last value objects key 0 (gs.foldl settle []) = last value objects key 0 gs := by
  rcases cases_of_gifts gs with hall | ⟨before, first, others, rfl, hbefore, hfirst, hothers⟩
  · rw [foldl_settle_of_unset (isSet_of_objects hall), List.nil_append]
  rcases hothers with hunset | ⟨between, v, behind, rfl, hbehind⟩
  · obtain ⟨u, hu, hsettled⟩ := exists_settled_of_unset hbefore hfirst hunset
    rw [hsettled]
    refine last_congr value objects key ?_
    rcases hu with rfl | rfl <;> rfl
  · rw [settled_of_set hbefore hfirst between v hbehind]
    refine last_congr value objects key ?_
    rw [last_settled, last_in_order value objects key _ hfirst]
    by_cases hobjects : ∀ g ∈ behind, g = .object
    · cases hrival : (between.filter fun g => !g.isSet).getLast? with
      | none => rw [List.getLast?_eq_none_iff.1 hrival, last, Option.or_none]
      | some rival =>
        have hsame : rival = .markup v := by
          by_contra hdiffers
          exact hnot ⟨before, first, between, v, behind, rival, rfl, hbefore, hfirst, hobjects,
            hrival, hdiffers⟩
        obtain ⟨kept, hkept⟩ := List.getLast?_eq_some_iff.1 hrival
        rw [hkept, hsame, last_append, last, last, Option.none_or, Option.some_or, Option.or_assoc,
          Option.some_or]
    · push Not at hobjects
      obtain ⟨g, hg, hvalue⟩ := hobjects
      obtain ⟨x, hx⟩ := Option.isSome_iff_exists.1 (isSome_last value objects key hg hvalue
        (before.count .object + between.count .object))
      rw [hx, Option.some_or, Option.some_or]

/-- A last value that is overtaken is lost for some objects. -/
theorem exists_last_settle_ne {gs : List Gift} (h : IsOvertaken gs) :
    ∃ (V : Type) (value : Value → V) (objects : Nat → Object V),
      last value objects key 0 (gs.foldl settle []) ≠ last value objects key 0 gs := by
  obtain ⟨before, first, between, v, behind, rival, rfl, hbefore, hfirst, hbehind, hrival,
    hdiffers⟩ := h
  obtain ⟨kept, hkept⟩ := List.getLast?_eq_some_iff.1 hrival
  -- the objects have no key behind the last value, so that only the rival and the value count
  have hlost : ∀ {V : Type} (value : Value → V) (objects : Nat → Object V) (x : V),
      (∀ i, before.count .object + between.count .object ≤ i → objects i key = none) →
      last value objects key (before.count .object + kept.count .object) [rival] = some x →
      x ≠ value v →
      last value objects key 0
          ((before ++ first :: (between ++ .set v :: behind)).foldl settle []) ≠
        last value objects key 0 (before ++ first :: (between ++ .set v :: behind)) := by
    intro V value objects x hobjects hx hne
    rw [settled_of_set hbefore hfirst between v (isSet_of_objects hbehind), last_append,
      last_append, Nat.zero_add, last_settled, last_in_order value objects key _ hfirst,
      last_eq_none value objects key hbehind hobjects, hkept, last_append, hx]
    simpa using hne
  cases rival with
  | set u =>
    have hmem : Gift.set u ∈ between.filter fun g => !g.isSet := by simp [hkept]
    cases (List.mem_filter.1 hmem).2
  | markup u =>
    refine ⟨Value, id, fun _ _ => none, hlost id _ u (fun _ _ => rfl) rfl ?_⟩
    rintro rfl
    exact hdiffers rfl
  | object =>
    have hcount : between.count .object = kept.count .object + 1 := by
      rw [← count_unset between, hkept, List.count_append, List.count_singleton_self]
    refine ⟨Option Value, some,
      fun i _ => if i = before.count .object + kept.count .object then some none else none,
      hlost some _ none (fun i hi => if_neg (by omega)) (if_pos rfl) nofun⟩

end Overtaken

end Gift

/-! ## The items of a tag -/

theorem headIs_isLower_capitalize (t : Text) : headIs Char.isLower (capitalize t) = false := by
  cases t with
  | nil => rfl
  | cons c t => exact Char.isLower_toUpper_eq_false c

/-- The key of a listener is one of a listener. -/
theorem isListenerKey_heardKey (event : Text) (d : Directive) :
    isListenerKey (heardKey event d) := by
  have hmodifiers : ∀ modifiers : List Text,
      headIs Char.isLower (modifiers.flatMap capitalize) = false := by
    intro modifiers
    induction modifiers with
    | nil => rfl
    | cons modifier modifiers ih =>
      cases modifier with
      | nil => exact ih
      | cons c t => exact headIs_isLower_capitalize (c :: t)
  show (!headIs Char.isLower (capitalize (camelize event) ++ _)) = true
  rw [Bool.not_eq_true']
  cases hevent : camelize event with
  | nil => exact hmodifiers _
  | cons c t => exact headIs_isLower_capitalize (c :: t)

section Items

variable {locals : List Text} {key : Text}

/-- A contribution gives to a key what its item gives. -/
theorem gift?_of_contributes (hkey : isListenerKey key = false) {item : Item}
    {found : Option Assignment} (h : Contributes locals [] item found) :
    found.bind (Assignment.gift? key) = gift? locals key item := by
  cases h with
  | plain a hkept => rfl
  | bind hname harg hkept he =>
    simp only [gift?, hname, harg, inContext_eq_ok.1 he, Option.map_some, if_true]
    rfl
  | spread hname harg hexp he =>
    simp only [gift?, hname, harg, if_true]
    rfl
  | @listener d event reaction hname harg hreact =>
    have hne : heardKey event d ≠ key := by
      rintro rfl
      rw [isListenerKey_heardKey] at hkey
      cases hkey
    have hothers : ¬d.name = "bind".toList ∧ ¬d.name = "html".toList := by
      rw [hname]
      decide
    rw [gift?, if_neg hothers.1, if_neg fun h => hothers.2 h.1]
    exact if_neg hne
  | @markup d exp e hname hexp he =>
    have hbind : ¬d.name = "bind".toList := by
      rw [hname]
      decide
    rw [gift?, if_neg hbind, hexp]
    simp only [Option.bind_some, inContext_eq_ok.1 he, Option.map_some]
    by_cases hinner : key = "innerHTML".toList
    · rw [if_pos ⟨hname, hinner⟩]
      exact if_pos hinner.symm
    · rw [if_neg fun h => hinner h.2]
      exact if_neg (Ne.symm hinner)
  | skippedPlain a hskipped => cases hskipped
  | skippedBind hname harg hskipped => cases hskipped
  | @structural d hname =>
    have hother : ∀ name, name ∉ structuralDirectives → ¬d.name = name := by
      rintro _ hnot rfl
      exact hnot hname
    rw [gift?, if_neg (hother _ (by decide)), if_neg fun h => hother _ (by decide) h.1]
    rfl

/-- The contributions of a tag give to a key what its items give, in order. -/
theorem gifts_of_assignments (hkey : isListenerKey key = false) {items : List Item}
    {props : List Assignment} (h : assignments locals [] items = .ok props) :
    props.filterMap (Assignment.gift? key) = gifts locals key items := by
  obtain ⟨found, hfound, rfl⟩ := contributes_of_assignments h
  clear h
  induction hfound with
  | nil => rfl
  | @cons item c items found hfirst hfound ih =>
    rw [List.flatMap_cons, List.filterMap_append, ih, gifts, gifts, List.filterMap_cons,
      ← gift?_of_contributes hkey hfirst]
    cases c with
    | none => rfl
    | some a =>
      rw [Option.toList_some, Option.bind_some, List.filterMap_cons, List.filterMap_nil]
      cases Assignment.gift? key a <;> rfl

end Items

/-! ## Props -/

/-- A native element is written with its props, and each key of them that is no class, style or
listener has the value that was given last, whatever the objects are, if and only if that is not
overtaken. -/
theorem assignments_merged {locals : List Text} {tag : Tag} {props : List Assignment}
    (hprops : assignments locals [] tag.items = .ok props) :
    (∀ children node, buildNative locals tag children = .ok node → ∀ depth, ∃ content,
      VNode.print depth node = create (Script.quote tag.name)
        (Argument.code? depth (Argument.ofProps props)) content) ∧
    ∀ key, key ≠ "class".toList → key ≠ "style".toList → isListenerKey key = false →
      ((∀ (V : Type) (value : Value → V) (objects : Nat → Object V),
          Argument.get value objects key 0 (Argument.ofProps props) =
            Gift.last value objects key 0 (gifts locals key tag.items)) ↔
        ¬Gift.IsOvertaken (gifts locals key tag.items)) := by
  constructor
  · intro children node hnode depth
    obtain ⟨props', content, hprops', -, rfl⟩ := buildNative_eq_ok.1 hnode
    cases hprops.symm.trans hprops'
    rw [← print?_eq_code?]
    cases content with
    | none | text | nodes => exact ⟨_, rfl⟩
  · intro key hclass hstyle hkey
    have hget : ∀ (V : Type) (value : Value → V) (objects : Nat → Object V),
        Argument.get value objects key 0 (Argument.ofProps props) =
          Gift.last value objects key 0 ((gifts locals key tag.items).foldl Gift.settle []) := by
      intro V value objects
      rw [Argument.ofProps, get_ofParts, filterMap_gift?_parts hclass hstyle,
        gifts_of_assignments hkey hprops]
      exact Option.or_none
    simp only [hget]
    constructor
    · intro heq hovertaken
      obtain ⟨V, value, objects, hne⟩ := Gift.exists_last_settle_ne key hovertaken
      exact hne (heq V value objects)
    · exact fun hnot V value objects => Gift.last_settle value objects key hnot

/-- The tag `<div id="a" v-bind="o" :id="b">`. -/
def boundLast : Tag :=
  ⟨"div".toList, .native,
    [.attribute ⟨"id".toList, some "a".toList, ⟨5, 11⟩⟩,
      .directive ⟨"bind".toList, none, some "o".toList, [], ⟨12, 22⟩⟩,
      .directive ⟨"bind".toList, some "id".toList, some "b".toList, [], ⟨23, 30⟩⟩]⟩

/-- Its code, in which an `id` of the object counts although another is bound behind it. -/
theorem assignments_merged_boundLast :
    parse "<div id=\"a\" v-bind=\"o\" :id=\"b\"></div>".toList =
      .ok [.element boundLast [] ⟨0, 37⟩] ∧
    buildNative [] boundLast [] = .ok (.leaf "div".toList
      [.set "id".toList (.literal "a".toList), .spread "_ctx.o".toList,
        .set "id".toList (.expression "_ctx.b".toList)]) ∧
    VNode.print 0 (.leaf "div".toList
      [.set "id".toList (.literal "a".toList), .spread "_ctx.o".toList,
        .set "id".toList (.expression "_ctx.b".toList)]) =
      "_createVNode(\"div\", _mergeProps(\x7b id: _ctx.b \x7d, _ctx.o))".toList ∧
    ¬∀ (V : Type) (value : Value → V) (objects : Nat → Object V),
      Argument.get value objects "id".toList 0
          [.literal [("id".toList, .expression "_ctx.b".toList)], .spread "_ctx.o".toList] =
        Gift.last value objects "id".toList 0 (gifts [] "id".toList boundLast.items) := by
  have hprops : assignments [] [] boundLast.items =
      .ok [.set "id".toList (.literal "a".toList), .spread "_ctx.o".toList,
        .set "id".toList (.expression "_ctx.b".toList)] := by decide +kernel
  refine ⟨by decide +kernel, buildNative_eq_ok.2 ⟨_, .none, hprops, rfl, rfl⟩, by decide +kernel,
    fun heq => ?_⟩
  have hgifts : gifts [] "id".toList boundLast.items =
      [.set (.literal "a".toList), .object, .set (.expression "_ctx.b".toList)] := by
    decide +kernel
  refine ((assignments_merged hprops).2 "id".toList (by decide) (by decide) (by decide)).1 heq ?_
  rw [hgifts]
  exact ⟨[], _, [.object], _, [], .object, rfl, nofun, nofun, nofun, rfl, nofun⟩

end ModuleServer.Render
