import Mathlib.Data.List.TakeWhile
import Schemata.Path.Argument

/-!
# The grammar of path text

Path text is a row of items: brackets around digits or around nothing, names behind a point, and
bare names, which open a path or follow a bracket. A name is as long as it can be. Text begins with
one item at most, so there is one row of items that it begins with and that cannot be continued.
-/

namespace Schemata.Path

/-! ## Items -/

/-- One item of path text. -/
inductive Lexeme where
  /-- Digits, or nothing, between brackets. -/
  | bracket (digits : List Char)
  /-- A name behind a point. -/
  | pointed (name : List Char)
  /-- A name by itself. -/
  | bare (name : List Char)
  deriving Repr, DecidableEq

namespace Lexeme

def text : Lexeme → List Char
  | bracket digits => '[' :: (digits ++ [']'])
  | pointed name => '.' :: name
  | bare name => name

/-- The segment that an item stands for. -/
def segment : Lexeme → Segment
  | bracket [] => .element
  | bracket digits => .index (Decimal.natOfDigits digits)
  | pointed name => .property (String.ofList name)
  | bare name => .property (String.ofList name)

/-- A bare name may open a path or follow a bracket. -/
def AllowsBare : Option Lexeme → Prop
  | none => True
  | some (bracket _) => True
  | some (pointed _) => False
  | some (bare _) => False

/-- A bracket holds no more digits than a position may have. -/
def Short : Lexeme → Prop
  | bracket digits => digits.length ≤ Decimal.digitLimit
  | pointed _ => True
  | bare _ => True

end Lexeme

/-- Text at whose front no name goes on. -/
def EndsNames (cs : List Char) : Prop :=
  ∀ c ∈ cs.head?, c = '.' ∨ c = '['

/-- `name` is the whole of a name that `rest` follows. -/
structure IsRun (name rest : List Char) : Prop where
  nonempty : name ≠ []
  inside : ∀ c ∈ name, c ≠ '.' ∧ c ≠ '['
  maximal : EndsNames rest

/-- Text that stands behind `previous` begins with `item`, and `rest` follows it. -/
inductive Takes : (previous : Option Lexeme) → List Char → (item : Lexeme) → (rest : List Char) → Prop
  | bracket {previous : Option Lexeme} {digits rest : List Char} :
    (∀ c ∈ digits, c.isDigit = true) →
    Takes previous ('[' :: (digits ++ ']' :: rest)) (.bracket digits) rest
  | pointed {previous : Option Lexeme} {name rest : List Char} :
    IsRun name rest → Takes previous ('.' :: (name ++ rest)) (.pointed name) rest
  | bare {previous : Option Lexeme} {name rest : List Char} :
    Lexeme.AllowsBare previous → IsRun name rest → Takes previous (name ++ rest) (.bare name) rest

/-- Text that stands behind `previous` begins with `items`, and `rest` follows them. -/
inductive Reads : (previous : Option Lexeme) → List Char → (items : List Lexeme) →
    (rest : List Char) → Prop
  | nil {previous : Option Lexeme} {cs : List Char} : Reads previous cs [] cs
  | cons {previous : Option Lexeme} {cs mid rest : List Char} {item : Lexeme}
    {items : List Lexeme} :
    Takes previous cs item mid → Reads (some item) mid items rest →
    Reads previous cs (item :: items) rest

/-- Path text begins with `items`, and `rest` follows them. A point at the very start may be skipped
if a bracket follows it. -/
inductive Begins : List Char → (items : List Lexeme) → (rest : List Char) → Prop
  | plain {cs rest : List Char} {items : List Lexeme} :
    Reads none cs items rest → Begins cs items rest
  | skipped {cs rest : List Char} {items : List Lexeme} :
    Reads none ('[' :: cs) items rest → Begins ('.' :: '[' :: cs) items rest

variable {previous previous' : Option Lexeme} {cs mid rest rest' name : List Char}
  {item item' : Lexeme} {items items' : List Lexeme}

/-! ## Runs of characters -/

@[simp] theorem endsName_eq_true_iff (c : Char) :
    Segment.endsName c = true ↔ c = '.' ∨ c = '[' := by
  simp [Segment.endsName]

@[simp] theorem endsName_eq_false_iff (c : Char) :
    Segment.endsName c = false ↔ c ≠ '.' ∧ c ≠ '[' := by
  simp [Segment.endsName]

theorem EndsNames.nil : EndsNames [] := by
  simp [EndsNames]

theorem endsNames_cons_iff (c : Char) : EndsNames (c :: cs) ↔ c = '.' ∨ c = '[' := by
  simp [EndsNames]

theorem EndsNames.append (h : EndsNames cs) (h' : EndsNames rest) : EndsNames (cs ++ rest) := by
  cases cs with
  | nil => exact h'
  | cons c cs => exact h

theorem nameRun_append (inside : ∀ c ∈ name, c ≠ '.' ∧ c ≠ '[') (ends : EndsNames rest) :
    nameRun (name ++ rest) = name := by
  have stop : nameRun rest = [] := by
    cases rest with
    | nil => rfl
    | cons c rest =>
      have hc := (endsName_eq_true_iff c).mpr ((endsNames_cons_iff c).mp ends)
      simp [nameRun, hc]
  unfold nameRun at stop ⊢
  rw [List.takeWhile_append_of_pos, stop, List.append_nil]
  intro c hc
  simpa using inside c hc

/-- What stands before the end of a name, and what stands behind it. -/
theorem exists_nameRun (cs : List Char) :
    ∃ rest, cs = nameRun cs ++ rest ∧ (∀ c ∈ nameRun cs, c ≠ '.' ∧ c ≠ '[') ∧ EndsNames rest := by
  induction cs with
  | nil => exact ⟨[], rfl, by simp [nameRun], .nil⟩
  | cons c cs ih =>
    by_cases hc : Segment.endsName c = true
    · have stop : nameRun (c :: cs) = [] := by simp [nameRun, hc]
      rw [stop]
      exact ⟨c :: cs, rfl, by simp, (endsNames_cons_iff c).mpr ((endsName_eq_true_iff c).mp hc)⟩
    · obtain ⟨rest, hcs, inside, ends⟩ := ih
      have go : nameRun (c :: cs) = c :: nameRun cs := by simp [nameRun, hc]
      rw [go]
      refine ⟨rest, congrArg (c :: ·) hcs, ?_, ends⟩
      intro d hd
      rcases List.mem_cons.mp hd with rfl | hd
      · simpa using hc
      · exact inside d hd

theorem bracketRun_append {content : List Char} (inside : ']' ∉ content) (tail : List Char) :
    bracketRun (content ++ ']' :: tail) = content := by
  unfold bracketRun
  rw [List.takeWhile_append_of_pos]
  · simp
  · intro c hc
    have : c ≠ ']' := fun h => inside (h ▸ hc)
    simpa using this

theorem bracketRun_of_not_mem (unclosed : ']' ∉ cs) : bracketRun cs = cs := by
  unfold bracketRun
  apply List.takeWhile_eq_self_iff.mpr
  intro c hc
  have : c ≠ ']' := fun h => unclosed (h ▸ hc)
  simpa using this

/-- A bracket does not close, or it closes at the first end of a bracket. -/
theorem closing_cases (cs : List Char) :
    ']' ∉ cs ∨ ∃ content tail, cs = content ++ ']' :: tail ∧ ']' ∉ content := by
  by_cases closes : ']' ∈ cs
  · obtain ⟨content, tail, heq, first⟩ := List.eq_append_cons_of_mem closes
    exact .inr ⟨content, tail, heq, first⟩
  · exact .inl closes

theorem not_mem_of_digits {digits : List Char} (h : ∀ c ∈ digits, c.isDigit = true) :
    ']' ∉ digits := by
  intro hmem
  exact absurd (h ']' hmem) (by decide)

/-! ## One item -/

/-- The text of an item stands before what follows it. -/
theorem Takes.eq_append (h : Takes previous cs item rest) : cs = item.text ++ rest := by
  cases h with
  | bracket digits => simp [Lexeme.text]
  | pointed run => rfl
  | bare allows run => rfl

theorem Takes.text_ne_nil (h : Takes previous cs item rest) : item.text ≠ [] := by
  cases h with
  | bracket digits => exact List.cons_ne_nil _ _
  | pointed run => exact List.cons_ne_nil _ _
  | bare allows run => exact run.nonempty

theorem Takes.length_lt (h : Takes previous cs item rest) : rest.length < cs.length := by
  have := List.length_pos_iff.mpr h.text_ne_nil
  rw [h.eq_append, List.length_append]
  omega

/-- Behind an item stands a bare name only where one is allowed. -/
theorem Takes.boundary (h : Takes previous cs item rest) :
    Lexeme.AllowsBare (some item) ∨ EndsNames rest := by
  cases h with
  | bracket digits => exact .inl trivial
  | pointed run => exact .inr run.maximal
  | bare allows run => exact .inr run.maximal

theorem not_takes_nil : ¬ Takes previous [] item rest := by
  intro h
  exact absurd h.length_lt (Nat.not_lt_zero _)

/-- A bare name begins with a character of a name. -/
theorem IsRun.head (h : IsRun name rest) : ¬ EndsNames (name ++ rest) := by
  obtain ⟨c, name, rfl⟩ := List.exists_cons_of_ne_nil h.nonempty
  have inside := h.inside c List.mem_cons_self
  intro ends
  rcases (endsNames_cons_iff c).mp ends with rfl | rfl
  · exact inside.1 rfl
  · exact inside.2 rfl

theorem IsRun.det {name' : List Char} (h : IsRun name rest) (h' : IsRun name' rest')
    (heq : name ++ rest = name' ++ rest') : name = name' ∧ rest = rest' := by
  have same : name = name' := by
    rw [← nameRun_append h.inside h.maximal, ← nameRun_append h'.inside h'.maximal, heq]
  subst same
  exact ⟨rfl, List.append_cancel_left heq⟩

theorem takes_bracket_iff {tail : List Char} : Takes previous ('[' :: tail) item rest ↔
    ∃ digits, tail = digits ++ ']' :: rest ∧ (∀ c ∈ digits, c.isDigit = true)
      ∧ item = .bracket digits := by
  constructor
  · intro h
    generalize hcs : '[' :: tail = cs at h
    cases h with
    | bracket digits => exact ⟨_, (List.cons.inj hcs).2, digits, rfl⟩
    | pointed run => exact absurd (List.cons.inj hcs).1 (by decide)
    | bare allows run =>
      exact absurd (hcs ▸ (endsNames_cons_iff '[').mpr (.inr rfl)) run.head
  · rintro ⟨digits, rfl, hdigits, rfl⟩
    exact .bracket hdigits

theorem takes_point_iff {tail : List Char} : Takes previous ('.' :: tail) item rest ↔
    ∃ name, tail = name ++ rest ∧ IsRun name rest ∧ item = .pointed name := by
  constructor
  · intro h
    generalize hcs : '.' :: tail = cs at h
    cases h with
    | bracket digits => exact absurd (List.cons.inj hcs).1 (by decide)
    | pointed run => exact ⟨_, (List.cons.inj hcs).2, run, rfl⟩
    | bare allows run =>
      exact absurd (hcs ▸ (endsNames_cons_iff '.').mpr (.inl rfl)) run.head
  · rintro ⟨name, rfl, run, rfl⟩
    exact .pointed run

/-- Text begins with one item at most. -/
theorem Takes.det (h : Takes previous cs item rest) (h' : Takes previous' cs item' rest') :
    item = item' ∧ rest = rest' := by
  cases h with
  | @bracket digits _ hdigits =>
    obtain ⟨digits', heq, hdigits', rfl⟩ := takes_bracket_iff.mp h'
    have same : digits = digits' := by
      rw [← bracketRun_append (not_mem_of_digits hdigits),
        ← bracketRun_append (not_mem_of_digits hdigits'), heq]
    subst same
    exact ⟨rfl, (List.cons.inj (List.append_cancel_left heq)).2⟩
  | pointed run =>
    obtain ⟨name', heq, run', rfl⟩ := takes_point_iff.mp h'
    obtain ⟨rfl, rfl⟩ := run.det run' heq
    exact ⟨rfl, rfl⟩
  | @bare name _ allows run =>
    generalize hcs : name ++ rest = cs at h'
    cases h' with
    | bracket digits =>
      exact absurd (hcs ▸ (endsNames_cons_iff '[').mpr (.inr rfl)) run.head
    | pointed run' =>
      exact absurd (hcs ▸ (endsNames_cons_iff '.').mpr (.inl rfl)) run.head
    | bare allows' run' =>
      obtain ⟨rfl, rfl⟩ := run.det run' hcs
      exact ⟨rfl, rfl⟩

/-! ## Rows of items -/

theorem Reads.eq_append (h : Reads previous cs items rest) :
    cs = items.flatMap Lexeme.text ++ rest := by
  induction h with
  | nil => rfl
  | cons takes _ ih => rw [takes.eq_append, ih, List.flatMap_cons, List.append_assoc]

theorem Reads.length_le (h : Reads previous cs items rest) : rest.length ≤ cs.length := by
  rw [h.eq_append, List.length_append]
  omega

theorem Reads.eq_nil (h : Reads previous [] items rest) : items = [] ∧ rest = [] := by
  cases h with
  | nil => exact ⟨rfl, rfl⟩
  | cons takes _ => exact absurd takes not_takes_nil

/-- No item stands at the front of the text. -/
def Final (cs : List Char) : Prop :=
  ∀ previous item rest, ¬ Takes previous cs item rest

theorem Final.nil : Final [] := fun _ _ _ => not_takes_nil

/-- A row of items that cannot be continued begins with every other row of the text. -/
theorem Reads.continues (h : Reads previous cs items rest) (final : Final rest)
    (h' : Reads previous cs items' rest') :
    ∃ last more, items = items' ++ more ∧ Reads last rest' more rest := by
  induction h' generalizing items with
  | nil => exact ⟨_, items, rfl, h⟩
  | cons takes' _ ih =>
    cases h with
    | nil => exact absurd takes' (final _ _ _)
    | cons takes reads =>
      obtain ⟨rfl, rfl⟩ := takes.det takes'
      obtain ⟨last, more, rfl, hmore⟩ := ih reads
      exact ⟨last, more, rfl, hmore⟩

/-- The items of a text are determined. -/
theorem Reads.unique (h : Reads previous cs items []) (h' : Reads previous cs items' []) :
    items = items' := by
  obtain ⟨last, more, heq, hmore⟩ := h.continues .nil h'
  rw [hmore.eq_nil.1, List.append_nil] at heq
  exact heq

/-- At a point before a bracket stands no item. -/
theorem Reads.of_point_bracket (h : Reads previous ('.' :: '[' :: cs) items rest) :
    items = [] ∧ rest = '.' :: '[' :: cs := by
  cases h with
  | nil => exact ⟨rfl, rfl⟩
  | cons takes _ =>
    obtain ⟨name, heq, run, _⟩ := takes_point_iff.mp takes
    exact absurd (heq ▸ (endsNames_cons_iff '[').mpr (.inr rfl)) run.head

theorem Begins.unique (h : Begins cs items []) (h' : Begins cs items' []) : items = items' := by
  cases h with
  | plain reads =>
    cases h' with
    | plain reads' => exact reads.unique reads'
    | skipped reads' => cases reads.of_point_bracket.2
  | skipped reads =>
    cases h' with
    | plain reads' => cases reads'.of_point_bracket.2
    | skipped reads' => exact reads.unique reads'

/-- Text of which no bracket holds more digits than a position may have. -/
def ShortBrackets (cs : List Char) : Prop :=
  ∀ before digits after, cs = before ++ '[' :: (digits ++ ']' :: after) →
    (∀ c ∈ digits, c.isDigit = true) → digits.length ≤ Decimal.digitLimit

theorem ShortBrackets.of_append {before : List Char} (h : ShortBrackets (before ++ cs)) :
    ShortBrackets cs := by
  rintro front digits after rfl
  exact h (before ++ front) digits after (List.append_assoc ..).symm

/-- A text holds no bracket that is longer than the text. -/
theorem ShortBrackets.of_length (h : cs.length ≤ Decimal.digitLimit) : ShortBrackets cs := by
  rintro before digits after rfl _
  simp only [List.length_append, List.length_cons] at h
  omega

theorem Reads.short (h : Reads previous cs items rest) (short : ShortBrackets cs) :
    ∀ item ∈ items, item.Short := by
  induction h with
  | nil => simp
  | cons takes _ ih =>
    intro item hitem
    rcases List.mem_cons.mp hitem with rfl | hitem
    · cases takes with
      | bracket digits => exact short [] _ _ rfl digits
      | pointed run => trivial
      | bare allows run => trivial
    · rw [takes.eq_append] at short
      exact ih short.of_append item hitem

theorem Begins.short (h : Begins cs items rest) (short : ShortBrackets cs) :
    ∀ item ∈ items, item.Short := by
  cases h with
  | plain reads => exact reads.short short
  | @skipped cs _ _ reads =>
    have behind : ShortBrackets (['.'] ++ '[' :: cs) := short
    exact reads.short behind.of_append

end Schemata.Path
