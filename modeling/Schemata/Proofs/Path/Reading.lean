import Mathlib
import Schemata.Proofs.Path.Grammar

/-!
# Reading along the grammar

Reading goes from item to item for as long as there is one. Path text is accepted if it ends where
its items end, and otherwise what is reported is what stands behind the last item.
-/

namespace Schemata.Path

variable {previous : Option Lexeme} {cs rest name : List Char} {item : Lexeme} {items : List Lexeme}

/-! ## Reading one item -/

theorem segmentsFrom_bracket {content : List Char} (inside : ']' ∉ content) (tail : List Char)
    (position : Nat) :
    segmentsFrom position ('[' :: (content ++ ']' :: tail))
      = (bracketSegment content position).bind fun segment =>
        (segmentsFrom (position + content.length + 2) tail).map (segment :: ·) := by
  have closed : content.length < (content ++ ']' :: tail).length := by simp
  have after : (content ++ ']' :: tail).drop (content.length + 1) = tail := by simp
  rw [segmentsFrom, bracketRun_append inside]
  simp only [closed, if_true, after]
  rfl

theorem segmentsFrom_unclosed (unclosed : ']' ∉ cs) (position : Nat) :
    segmentsFrom position ('[' :: cs) = .error (.unclosedBracket position) := by
  rw [segmentsFrom, bracketRun_of_not_mem unclosed]
  simp

theorem segmentsFrom_pointed (run : IsRun name rest) (position : Nat) :
    segmentsFrom position ('.' :: (name ++ rest))
      = (segmentsFrom (position + 1 + name.length) rest).map
        (.property (String.ofList name) :: ·) := by
  rw [segmentsFrom, nameRun_append run.inside run.maximal]
  · simp [run.nonempty]
    rfl
  · exact fun h => absurd h (by decide)

theorem segmentsFrom_nameless (ends : EndsNames cs) (position : Nat) :
    segmentsFrom position ('.' :: cs) = .error (.emptyName (position + 1)) := by
  have empty : nameRun ([] ++ cs) = [] := nameRun_append (by simp) ends
  rw [List.nil_append] at empty
  rw [segmentsFrom, empty]
  · simp
  · exact fun h => absurd h (by decide)

theorem segmentsFrom_bare (run : IsRun name rest) (position : Nat) :
    segmentsFrom position (name ++ rest)
      = (segmentsFrom (position + name.length) rest).map
        (.property (String.ofList name) :: ·) := by
  obtain ⟨c, name, rfl⟩ := List.exists_cons_of_ne_nil run.nonempty
  obtain ⟨point, bracket⟩ := run.inside c List.mem_cons_self
  have inside : ∀ d ∈ name, d ≠ '.' ∧ d ≠ '[' := fun d hd =>
    run.inside d (List.mem_cons_of_mem _ hd)
  have place : position + 1 + name.length = position + (c :: name).length := by
    rw [List.length_cons]
    omega
  rw [← place, List.cons_append, segmentsFrom, nameRun_append inside run.maximal]
  · simp [point]
    rfl
  · exact bracket

theorem bracketSegment_digits {digits : List Char} (h : ∀ c ∈ digits, c.isDigit = true)
    (short : digits.length ≤ Decimal.digitLimit) (position : Nat) :
    bracketSegment digits position = .ok (Lexeme.bracket digits).segment := by
  cases digits with
  | nil => rfl
  | cons c digits =>
    unfold bracketSegment
    rw [if_neg (by simp), if_pos (List.all_eq_true.mpr h), if_neg (Nat.not_lt.mpr short)]
    rfl

/-- An item at the front gives its segment, and reading goes on behind it. -/
theorem segmentsFrom_takes (h : Takes previous cs item rest) (short : item.Short)
    (position : Nat) :
    segmentsFrom position cs
      = (segmentsFrom (position + item.text.length) rest).map (item.segment :: ·) := by
  cases h with
  | @bracket digits _ hdigits =>
    have place : position + (Lexeme.bracket digits).text.length = position + digits.length + 2 := by
      simp [Lexeme.text]
      omega
    rw [segmentsFrom_bracket (not_mem_of_digits hdigits), bracketSegment_digits hdigits short, place]
    rfl
  | pointed run =>
    rw [segmentsFrom_pointed run, Lexeme.text, List.length_cons, Nat.add_right_comm]
    rfl
  | bare allows run =>
    rw [segmentsFrom_bare run]
    rfl

/-! ## Reading to the end -/

/-- Where reading ends: `rest` begins at `position` and gives nothing more. -/
inductive Halts (position : Nat) : (rest : List Char) → Except Defect (List Segment) → Prop
  | ended : Halts position [] (.ok [])
  | unclosed {tail : List Char} : ']' ∉ tail →
    Halts position ('[' :: tail) (.error (.unclosedBracket position))
  | invalid {content tail : List Char} : ']' ∉ content → ¬ (∀ c ∈ content, c.isDigit = true) →
    Halts position ('[' :: (content ++ ']' :: tail))
      (.error (.invalidIndex (String.ofList content) position))
  | huge {digits tail : List Char} : (∀ c ∈ digits, c.isDigit = true) →
    Decimal.digitLimit < digits.length →
    Halts position ('[' :: (digits ++ ']' :: tail)) (.error (.hugeIndex digits.length))
  | nameless {tail : List Char} : EndsNames tail →
    Halts position ('.' :: tail) (.error (.emptyName (position + 1)))

/-- Where reading ends, no item stands, unless a bracket holds too many digits. -/
theorem Halts.final {position : Nat} {outcome : Except Defect (List Segment)}
    (h : Halts position rest outcome) (short : ShortBrackets rest) : Final rest := by
  intro previous item after takes
  cases h with
  | ended => exact not_takes_nil takes
  | unclosed unclosed =>
    obtain ⟨digits, rfl, _⟩ := takes_bracket_iff.mp takes
    simp at unclosed
  | invalid inside invalid =>
    obtain ⟨digits, heq, hdigits, _⟩ := takes_bracket_iff.mp takes
    have same : bracketRun (_ ++ ']' :: _) = digits :=
      heq ▸ bracketRun_append (not_mem_of_digits hdigits) after
    rw [bracketRun_append inside] at same
    exact invalid (same ▸ hdigits)
  | huge digits huge =>
    exact Nat.not_lt.mpr (short [] _ _ rfl digits) huge
  | nameless ends =>
    obtain ⟨name, rfl, run, _⟩ := takes_point_iff.mp takes
    exact run.head ends

/-- At the front of a text stands an item, or reading ends there. A bare name is read only where it
is allowed: behind another name, what ends it stands first. -/
theorem takes_or_halts (cs : List Char) (boundary : Lexeme.AllowsBare previous ∨ EndsNames cs)
    (position : Nat) :
    (∃ item rest, Takes previous cs item rest ∧ item.Short) ∨
      ∃ outcome, Halts position cs outcome ∧ segmentsFrom position cs = outcome := by
  cases cs with
  | nil => exact .inr ⟨_, .ended, by rw [segmentsFrom]⟩
  | cons c cs =>
    -- A bracket, a point, or the first character of a bare name. In each case the next item is taken
    -- up to where it has to end, and what is wrong with it is what reading reports.
    by_cases bracket : c = '['
    · subst bracket
      rcases closing_cases cs with unclosed | ⟨content, tail, rfl, inside⟩
      · exact .inr ⟨_, .unclosed unclosed, segmentsFrom_unclosed unclosed position⟩
      · by_cases digits : ∀ c ∈ content, c.isDigit = true
        · by_cases short : content.length ≤ Decimal.digitLimit
          · exact .inl ⟨_, _, .bracket digits, short⟩
          · refine .inr ⟨_, .huge digits (Nat.lt_of_not_le short), ?_⟩
            have some : content ≠ [] := by
              rintro rfl
              exact short (Nat.zero_le _)
            rw [segmentsFrom_bracket inside]
            simp [bracketSegment, some, List.all_eq_true.mpr digits, Nat.lt_of_not_le short,
              Except.bind]
        · refine .inr ⟨_, .invalid inside digits, ?_⟩
          have some : content ≠ [] := by
            rintro rfl
            simp at digits
          have all : content.all Char.isDigit = false := by simpa using digits
          rw [segmentsFrom_bracket inside]
          simp [bracketSegment, some, all, Except.bind]
    · by_cases point : c = '.'
      · subst point
        obtain ⟨rest, hcs, inside, ends⟩ := exists_nameRun cs
        by_cases empty : nameRun cs = []
        · rw [empty, List.nil_append] at hcs
          subst hcs
          exact .inr ⟨_, .nameless ends, segmentsFrom_nameless ends position⟩
        · rw [hcs]
          exact .inl ⟨_, _, .pointed ⟨empty, inside, ends⟩, trivial⟩
      · obtain ⟨rest, hcs, inside, ends⟩ := exists_nameRun (c :: cs)
        have nonempty : nameRun (c :: cs) ≠ [] := by simp [nameRun, point, bracket]
        have allows : Lexeme.AllowsBare previous := by
          rcases boundary with allows | ends
          · exact allows
          · rcases (endsNames_cons_iff c).mp ends with h | h
            · exact absurd h point
            · exact absurd h bracket
        rw [hcs]
        exact .inl ⟨_, _, .bare allows ⟨nonempty, inside, ends⟩, trivial⟩

/-- Reading goes from item to item up to where it ends, and gives the segments of the items if it
ends well. -/
theorem segmentsFrom_run (previous : Option Lexeme) (cs : List Char)
    (boundary : Lexeme.AllowsBare previous ∨ EndsNames cs)
    (position : Nat) :
    ∃ items before rest outcome, cs = before ++ rest ∧ Reads previous cs items rest ∧
      (∀ item ∈ items, item.Short) ∧ Halts (position + before.length) rest outcome ∧
      segmentsFrom position cs = outcome.map (items.map Lexeme.segment ++ ·) := by
  rcases takes_or_halts cs boundary position with
    ⟨item, mid, takes, short⟩ | ⟨outcome, halts, heq⟩
  · have := takes.length_lt
    obtain ⟨items, before, rest, outcome, rfl, reads, shorts, halts, heq⟩ :=
      segmentsFrom_run (some item) mid takes.boundary (position + item.text.length)
    refine ⟨item :: items, item.text ++ before, rest, outcome, ?_, .cons takes reads, ?_, ?_, ?_⟩
    · rw [takes.eq_append, List.append_assoc]
    · intro i hi
      rcases List.mem_cons.mp hi with rfl | hi
      · exact short
      · exact shorts i hi
    · rw [List.length_append, ← Nat.add_assoc]
      exact halts
    · rw [segmentsFrom_takes takes short, heq]
      cases outcome <;> rfl
  · refine ⟨[], [], cs, outcome, rfl, .nil, by simp, halts, ?_⟩
    rw [heq]
    cases outcome <;> rfl
termination_by cs.length

/-- Items that make up the rest of a text are read as their segments. -/
theorem segmentsFrom_reads (h : Reads previous cs items []) (short : ∀ item ∈ items, item.Short)
    (position : Nat) : segmentsFrom position cs = .ok (items.map Lexeme.segment) := by
  generalize hrest : ([] : List Char) = rest at h
  induction h generalizing position with
  | nil =>
    subst hrest
    rw [segmentsFrom]
    rfl
  | cons takes _ ih =>
    rw [segmentsFrom_takes takes (short _ List.mem_cons_self),
      ih (fun i hi => short i (List.mem_cons_of_mem _ hi)) _ hrest]
    rfl

/-! ## Reading path text -/

theorem parse_of_point_bracket {p : String} (h : p.toList = '.' :: '[' :: cs) :
    parse p = segmentsFrom 1 ('[' :: cs) := by
  simp only [parse, h]

theorem parse_of_plain {p : String} (h : ∀ cs, p.toList ≠ '.' :: '[' :: cs) :
    parse p = segmentsFrom 0 p.toList := by
  unfold parse
  split
  next rest heq => exact absurd heq (h rest)
  next => rfl

/-- Reading path text goes along the longest row of items that it begins with. -/
theorem parse_run (p : String) :
    ∃ items before rest outcome, p.toList = before ++ rest ∧ Begins p.toList items rest ∧
      (∀ item ∈ items, item.Short) ∧ Halts before.length rest outcome ∧
      (Final rest → ∀ items' rest', Begins p.toList items' rest' → rest.length ≤ rest'.length) ∧
      parse p = outcome.map (items.map Lexeme.segment ++ ·) := by
  -- A point before a bracket at the very start is skipped, so positions count from one there.
  by_cases opens : ∃ cs, p.toList = '.' :: '[' :: cs
  · obtain ⟨cs, hp⟩ := opens
    obtain ⟨items, before, rest, outcome, hcs, reads, short, halts, heq⟩ :=
      segmentsFrom_run none ('[' :: cs) (.inl trivial) 1
    rw [hp, parse_of_point_bracket hp]
    refine ⟨items, '.' :: before, rest, outcome, congrArg ('.' :: ·) hcs, .skipped reads, short,
      ?_, ?_, heq⟩
    · rw [List.length_cons, Nat.add_comm]
      exact halts
    · intro final items' rest' h'
      cases h' with
      | plain reads' =>
        -- without the skipped point, no item can be read at all
        rw [reads'.of_point_bracket.2]
        exact Nat.le_succ_of_le reads.length_le
      | skipped reads' =>
        obtain ⟨_, _, _, hmore⟩ := reads.continues final reads'
        exact hmore.length_le
  · have plain : ∀ cs, p.toList ≠ '.' :: '[' :: cs := fun cs h => opens ⟨cs, h⟩
    obtain ⟨items, before, rest, outcome, hcs, reads, short, halts, heq⟩ :=
      segmentsFrom_run none p.toList (.inl trivial) 0
    refine ⟨items, before, rest, outcome, hcs, .plain reads, short, ?_, ?_, ?_⟩
    · rw [← Nat.zero_add before.length]
      exact halts
    · intro final items' rest' h'
      generalize hp : p.toList = cs at h' reads
      cases h' with
      | plain reads' =>
        obtain ⟨_, _, _, hmore⟩ := reads.continues final reads'
        exact hmore.length_le
      | skipped reads' => exact absurd hp (plain _)
    · rw [parse_of_plain plain]
      exact heq

theorem parse_of_begins {p : String} (h : Begins p.toList items [])
    (short : ∀ item ∈ items, item.Short) : parse p = .ok (items.map Lexeme.segment) := by
  generalize hp : p.toList = cs at h
  cases h with
  | skipped reads =>
    rw [parse_of_point_bracket hp]
    exact segmentsFrom_reads reads short 1
  | plain reads =>
    rw [parse_of_plain]
    · exact segmentsFrom_reads (hp ▸ reads) short 0
    · rintro tail htail
      rw [hp] at htail
      subst htail
      cases reads.of_point_bracket.2

theorem begins_of_parse {p : String} {segments : List Segment} (h : parse p = .ok segments) :
    ∃ items, Begins p.toList items [] ∧ (∀ item ∈ items, item.Short) ∧
      items.map Lexeme.segment = segments := by
  obtain ⟨items, before, rest, outcome, hp, begins, short, halts, -, heq⟩ := parse_run p
  rw [h] at heq
  cases halts with
  | ended =>
    have same := Except.ok.inj heq
    simp only [List.append_nil] at same
    exact ⟨items, begins, short, same.symm⟩
  | unclosed => cases heq
  | invalid => cases heq
  | huge => cases heq
  | nameless => cases heq

/-! ## What is accepted and what is reported -/

/-- Reading `p` fails as malformed for `what` at `position`. The failure carries all of `p`. -/
def Refuses (p what : String) (position : Nat) : Prop :=
  ∃ defect, PathArgument.parse p = .error (.malformedPath p defect) ∧
    (Failure.malformedPath p defect).category = .malformedPath ∧
    Failure.position? defect = some position ∧
    (Failure.malformedPath p defect).message
      = "invalid path " ++ Text.quoted p ++ ": " ++ what ++ " at position " ++ toString position

theorem argument_parse_ok_iff {p : String} {segments : List Segment} :
    PathArgument.parse p = .ok segments ↔ parse p = .ok segments := by
  unfold PathArgument.parse
  cases parse p <;> simp [Except.mapError]

theorem argument_parse_error {p : String} {defect : Defect} (h : parse p = .error defect) :
    PathArgument.parse p = .error (.malformedPath p defect) := by
  rw [PathArgument.parse, h]
  rfl

theorem argument_coerce_text {p : String} {segments : List Segment}
    (h : PathArgument.parse p = .ok segments) :
    PathArgument.coerce (.text p) = .ok (p, segments.map .segment) := by
  simp [PathArgument.coerce, h, Except.map]

/-- Path text that is not accepted is malformed. -/
theorem isPathFailure_of_parse_error {p : String} {failure : Failure}
    (short : ShortBrackets p.toList) (h : PathArgument.parse p = .error failure) :
    failure.isPathFailure = true := by
  obtain ⟨items, before, rest, outcome, hp, -, -, halts, -, heq⟩ := parse_run p
  rw [hp] at short
  rw [PathArgument.parse, heq] at h
  cases halts with
  | ended => cases h
  | huge digits huge => exact absurd (short _ _ _ rfl digits) (Nat.not_le.mpr huge)
  | unclosed | invalid | nameless =>
    obtain rfl := Except.error.inj h
    rfl

/-- Path text is accepted exactly if it is a row of items, which is then the only one, and is read
as the segments of the items. Otherwise the longest row of items that it begins with ends before a
bracket or a point, and that is what is reported: a bracket that does not close, a bracket that
holds no digits, or a point before no name. -/
theorem parse_accepts_rows {p : String} (short : ShortBrackets p.toList) :
    (∀ segments, PathArgument.parse p = .ok segments ↔
      ∃ items, Begins p.toList items [] ∧ items.map Lexeme.segment = segments) ∧
    (∀ items items', Begins p.toList items [] → Begins p.toList items' [] → items = items') ∧
    ((¬ ∃ items, Begins p.toList items []) →
      ∃ items before rest, p.toList = before ++ rest ∧ Begins p.toList items rest ∧
        (∀ items' rest', Begins p.toList items' rest' → rest.length ≤ rest'.length) ∧
        ((∃ tail, rest = '[' :: tail ∧ ']' ∉ tail ∧
            Refuses p "unclosed bracket" before.length) ∨
          (∃ content tail, rest = '[' :: (content ++ ']' :: tail) ∧ ']' ∉ content ∧
            Refuses p ("invalid index " ++ Text.quoted (String.ofList content)) before.length) ∨
          (∃ tail, rest = '.' :: tail ∧
            Refuses p "empty property name" (before.length + 1)))) := by
  refine ⟨?_, fun items items' h h' => h.unique h', ?_⟩
  · intro segments
    rw [argument_parse_ok_iff]
    constructor
    · intro h
      obtain ⟨items, begins, _, rfl⟩ := begins_of_parse h
      exact ⟨items, begins, rfl⟩
    · rintro ⟨items, begins, rfl⟩
      exact parse_of_begins begins (begins.short short)
  · intro malformed
    obtain ⟨items, before, rest, outcome, hp, begins, _, halts, longest, heq⟩ := parse_run p
    rw [hp] at short
    refine ⟨items, before, rest, hp, begins, longest (halts.final short.of_append), ?_⟩
    cases halts with
    | ended => exact absurd ⟨items, begins⟩ malformed
    | huge digits huge => exact absurd (short _ _ _ rfl digits) (Nat.not_le.mpr huge)
    | unclosed unclosed =>
      exact .inl ⟨_, rfl, unclosed, _, argument_parse_error heq, rfl, rfl, rfl⟩
    | invalid inside _ =>
      exact .inr (.inl ⟨_, _, rfl, inside, _, argument_parse_error heq, rfl, rfl, rfl⟩)
    | nameless _ => exact .inr (.inr ⟨_, rfl, _, argument_parse_error heq, rfl, rfl, rfl⟩)

/-- In `.[0]]a.b[]c` a point is skipped, a name holds a closing bracket and a name follows a
bracket. In `a.b[x].c` the content of the bracket is reported. -/
theorem parse_accepts_rows_mixed :
    (∃ items, Begins ".[0]]a.b[]c".toList items [] ∧ items.map Lexeme.segment =
      [.index 0, .property "]a", .property "b", .element, .property "c"]) ∧
    ∃ items before rest, "a.b[x].c".toList = before ++ rest ∧ Begins "a.b[x].c".toList items rest ∧
      (∀ items' rest', Begins "a.b[x].c".toList items' rest' → rest.length ≤ rest'.length) ∧
      ((∃ tail, rest = '[' :: tail ∧ ']' ∉ tail ∧
          Refuses "a.b[x].c" "unclosed bracket" before.length) ∨
        (∃ content tail, rest = '[' :: (content ++ ']' :: tail) ∧ ']' ∉ content ∧
          Refuses "a.b[x].c" ("invalid index " ++ Text.quoted (String.ofList content))
            before.length) ∨
        (∃ tail, rest = '.' :: tail ∧
          Refuses "a.b[x].c" "empty property name" (before.length + 1))) := by
  have accepted : PathArgument.parse ".[0]]a.b[]c" =
      .ok [.index 0, .property "]a", .property "b", .element, .property "c"] := by cbv
  have refused : ∀ segments, PathArgument.parse "a.b[x].c" ≠ .ok segments := by
    intro segments h
    have fails : PathArgument.parse "a.b[x].c" =
      .error (.malformedPath "a.b[x].c" (.invalidIndex "x" 3)) := by cbv
    rw [fails] at h
    cases h
  have short : ShortBrackets "a.b[x].c".toList := .of_length (by decide)
  refine ⟨((parse_accepts_rows (.of_length (by decide))).1 _).mp accepted,
    (parse_accepts_rows short).2.2 ?_⟩
  rintro ⟨items, begins⟩
  exact refused _ (((parse_accepts_rows short).1 _).mpr ⟨items, begins, rfl⟩)

end Schemata.Path
