import Schemata.Proofs.Decimal.Digits
import Schemata.Proofs.Path.Reading

/-!
# Canonical path text

Segments are written as a row of items in which only the first name is bare and no position has a
superfluous zero. Reading such a row gives the segments back. Text that is read and written again
stays as it is exactly if it is such a row already and skips no point.
-/

namespace Schemata

/-- A segment that can stand in path text. -/
def Segment.Writable : Segment → Prop
  | property name => name ≠ "" ∧ ∀ c ∈ name.toList, c ≠ '.' ∧ c ≠ '['
  | element => True
  | index n => (toString n).length ≤ Decimal.digitLimit

theorem Segment.isName_iff (name : String) :
    Segment.isName name = true ↔ name ≠ "" ∧ ∀ c ∈ name.toList, c ≠ '.' ∧ c ≠ '[' := by
  simp [Segment.isName, Segment.endsName]

theorem Segment.writable_index_iff (n : Nat) :
    (Segment.index n).Writable ↔ (Nat.toDigits 10 n).length ≤ Decimal.digitLimit := by
  rw [Segment.Writable, ← String.length_toList, Nat.toString_eq_repr, Nat.toList_repr]

namespace Path

variable {previous : Option Lexeme} {cs rest : List Char} {items : List Lexeme} {first : Bool}
  {segment : Segment} {segments : List Segment}

/-! ## Canonical items -/

/-- The canonical item of a segment, `first` telling whether nothing stands before it. -/
def Lexeme.ofSegment (first : Bool) : Segment → Lexeme
  | .property name => if first then .bare name.toList else .pointed name.toList
  | .element => .bracket []
  | .index n => .bracket (Nat.toDigits 10 n)

/-- The canonical items of the segments that follow others, or of a whole path. -/
def canonicalItems (first : Bool) : List Segment → List Lexeme
  | [] => []
  | segment :: rest => Lexeme.ofSegment first segment :: canonicalItems false rest

theorem Lexeme.segment_bracket {digits : List Char} (nonempty : digits ≠ []) :
    (Lexeme.bracket digits).segment = .index (Decimal.natOfDigits digits) := by
  cases digits with
  | nil => exact absurd rfl nonempty
  | cons c digits => rfl

@[simp] theorem Lexeme.segment_ofSegment (first : Bool) (segment : Segment) :
    (Lexeme.ofSegment first segment).segment = segment := by
  cases segment with
  | property name => cases first <;> simp [Lexeme.ofSegment, Lexeme.segment]
  | element => rfl
  | index n =>
    rw [Lexeme.ofSegment, Lexeme.segment_bracket Nat.toDigits_ne_nil,
      Decimal.natOfDigits_toDigits]

@[simp] theorem map_segment_canonicalItems (first : Bool) (segments : List Segment) :
    (canonicalItems first segments).map Lexeme.segment = segments := by
  induction segments generalizing first with
  | nil => rfl
  | cons segment rest ih => simp [canonicalItems, ih]

/-! ## Writing -/

theorem bracket_some_toList (n : Nat) :
    (Segment.bracket (some n)).toList = '[' :: (Nat.toDigits 10 n ++ [']']) := by
  simp [Segment.bracket, Nat.toString_eq_repr, Nat.toList_repr]

theorem writeSegment_of_writable (h : segment.Writable) (first : Bool) :
    writeSegment first segment = .ok (String.ofList (Lexeme.ofSegment first segment).text) := by
  cases segment with
  | property name =>
    have named : Segment.isName name = true := (Segment.isName_iff name).mpr h
    have pointed : String.ofList ('.' :: name.toList) = "." ++ name := by
      apply String.toList_inj.mp
      simp
    cases first <;> simp [writeSegment, named, Lexeme.ofSegment, Lexeme.text, pointed]
  | element => rfl
  | index n =>
    have small := (Nat.length_toDigits_le_iff (by decide) (by decide)).mp
      ((Segment.writable_index_iff n).mp h)
    have text : Segment.bracket (some n)
        = String.ofList (Lexeme.ofSegment first (.index n)).text := by
      apply String.toList_inj.mp
      rw [bracket_some_toList, String.toList_ofList]
      rfl
    rw [writeSegment, Nat.pow_eq, if_pos small, text]

/-- Writable segments are written as their canonical items. -/
theorem writeFrom_of_writable (h : ∀ s ∈ segments, s.Writable) (first : Bool) :
    writeFrom first segments
      = .ok (String.ofList ((canonicalItems first segments).flatMap Lexeme.text)) := by
  induction segments generalizing first with
  | nil => rfl
  | cons segment rest ih =>
    have rests := ih (fun s hs => h s (List.mem_cons_of_mem _ hs)) false
    rw [writeFrom, writeSegment_of_writable (h segment List.mem_cons_self), rests,
      canonicalItems, List.flatMap_cons, String.ofList_append]
    rfl

theorem writeFrom_map_segment (first : Bool) (segments : List Segment) :
    Piece.writeFrom first (segments.map .segment)
      = (writeFrom first segments).mapError .unwritablePath := by
  induction segments generalizing first with
  | nil => rfl
  | cons segment rest ih =>
    rw [List.map_cons, Piece.writeFrom, writeFrom]
    cases writeSegment first segment with
    | error cause => rfl
    | ok text =>
      simp only [ih]
      cases writeFrom false rest <;> rfl

theorem write_of_writable (h : ∀ s ∈ segments, s.Writable) :
    Piece.write (segments.map .segment)
      = .ok (String.ofList ((canonicalItems true segments).flatMap Lexeme.text)) := by
  rw [Piece.write, writeFrom_map_segment, writeFrom_of_writable h]
  rfl

/-! ## Reading what was written -/

theorem endsNames_canonicalItems (segments : List Segment) :
    EndsNames ((canonicalItems false segments).flatMap Lexeme.text) := by
  cases segments with
  | nil => exact .nil
  | cons segment rest =>
    rw [canonicalItems, List.flatMap_cons]
    cases segment with
    | property name => exact (endsNames_cons_iff '.').mpr (.inl rfl)
    | element => exact (endsNames_cons_iff '[').mpr (.inr rfl)
    | index n => exact (endsNames_cons_iff '[').mpr (.inr rfl)

theorem takes_ofSegment (h : segment.Writable)
    (bare : first = true → Lexeme.AllowsBare previous) (ends : EndsNames rest) :
    Takes previous ((Lexeme.ofSegment first segment).text ++ rest)
      (Lexeme.ofSegment first segment) rest := by
  cases segment with
  | property name =>
    have run : IsRun name.toList rest := ⟨by simpa using h.1, h.2, ends⟩
    cases first with
    | true => exact .bare (bare rfl) run
    | false => exact .pointed run
  | element =>
    have takes : Takes previous ('[' :: ([] ++ ']' :: rest)) (.bracket []) rest :=
      .bracket (by simp)
    exact takes
  | index n =>
    have digits : ∀ c ∈ Nat.toDigits 10 n, c.isDigit = true := fun c hc =>
      Nat.isDigit_of_mem_toDigits (by decide) (by decide) hc
    have takes : Takes previous ('[' :: (Nat.toDigits 10 n ++ ']' :: rest)) _ rest :=
      .bracket digits
    simpa [Lexeme.ofSegment, Lexeme.text] using takes

theorem reads_canonicalItems (h : ∀ s ∈ segments, s.Writable)
    (bare : first = true → Lexeme.AllowsBare previous) :
    Reads previous ((canonicalItems first segments).flatMap Lexeme.text)
      (canonicalItems first segments) [] := by
  induction segments generalizing previous first with
  | nil => exact .nil
  | cons segment rest ih =>
    rw [canonicalItems, List.flatMap_cons]
    apply Reads.cons
    · exact takes_ofSegment (h segment List.mem_cons_self) bare (endsNames_canonicalItems rest)
    · exact ih (fun s hs => h s (List.mem_cons_of_mem _ hs)) fun first => by cases first

theorem short_ofSegment (h : segment.Writable) (first : Bool) :
    (Lexeme.ofSegment first segment).Short := by
  cases segment with
  | property name => cases first <;> trivial
  | element => exact Nat.zero_le _
  | index n => exact (Segment.writable_index_iff n).mp h

theorem short_canonicalItems (h : ∀ s ∈ segments, s.Writable) (first : Bool) :
    ∀ item ∈ canonicalItems first segments, item.Short := by
  induction segments generalizing first with
  | nil => simp [canonicalItems]
  | cons segment rest ih =>
    intro item hitem
    rcases List.mem_cons.mp hitem with rfl | hitem
    · exact short_ofSegment (h segment List.mem_cons_self) first
    · exact ih (fun s hs => h s (List.mem_cons_of_mem _ hs)) false item hitem

/-- What was written is read as the segments that were written. -/
theorem parse_canonicalItems (h : ∀ s ∈ segments, s.Writable) :
    PathArgument.parse (String.ofList ((canonicalItems true segments).flatMap Lexeme.text))
      = .ok segments := by
  have begins : Begins (String.ofList ((canonicalItems true segments).flatMap Lexeme.text)).toList
      (canonicalItems true segments) [] := by
    rw [String.toList_ofList]
    exact .plain (reads_canonicalItems h fun _ => trivial)
  rw [argument_parse_ok_iff, parse_of_begins begins (short_canonicalItems h true),
    map_segment_canonicalItems]

/-! ## Writing what was read -/

theorem Takes.writable {item : Lexeme} (h : Takes previous cs item rest) (short : item.Short) :
    item.segment.Writable := by
  cases h with
  | @bracket digits _ hdigits =>
    cases digits with
    | nil => trivial
    | cons c digits =>
      apply (Segment.writable_index_iff _).mpr
      apply (Nat.length_toDigits_le_iff (by decide) (by decide)).mpr
      calc Decimal.natOfDigits (c :: digits)
          < 10 ^ (c :: digits).length := Decimal.natOfDigits_lt hdigits
        _ ≤ 10 ^ Decimal.digitLimit := Nat.pow_le_pow_right (by decide) short
  | pointed run =>
    refine ⟨?_, ?_⟩
    · simpa using run.nonempty
    · simpa using run.inside
  | bare _ run =>
    refine ⟨?_, ?_⟩
    · simpa using run.nonempty
    · simpa using run.inside

theorem Reads.writable (h : Reads previous cs items rest) (short : ∀ item ∈ items, item.Short) :
    ∀ s ∈ items.map Lexeme.segment, s.Writable := by
  induction h with
  | nil => simp
  | cons takes _ ih =>
    intro s hs
    rcases List.mem_cons.mp hs with rfl | hs
    · exact takes.writable (short _ List.mem_cons_self)
    · exact ih (fun i hi => short i (List.mem_cons_of_mem _ hi)) s hs

theorem Begins.writable (h : Begins cs items rest) (short : ∀ item ∈ items, item.Short) :
    ∀ s ∈ items.map Lexeme.segment, s.Writable := by
  cases h with
  | plain reads => exact reads.writable short
  | skipped reads => exact reads.writable short

/-- Digits without a superfluous zero are those of the canonical item. -/
theorem ofSegment_bracket {digits : List Char} (h : ∀ c ∈ digits, c.isDigit = true)
    (lean : ∀ d rest, digits ≠ '0' :: d :: rest) (first : Bool) :
    Lexeme.ofSegment first (Lexeme.bracket digits).segment = .bracket digits := by
  by_cases empty : digits = []
  · rw [empty]
    rfl
  · rw [Lexeme.segment_bracket empty, Lexeme.ofSegment,
      Decimal.toDigits_natOfDigits h empty lean]

/-- A row of items is canonical if no point is superfluous in front, no bare name follows a bracket,
and no zero is superfluous. -/
theorem Reads.eq_canonicalItems (h : Reads previous cs items [])
    (point : previous = none → cs.head? ≠ some '.')
    (apart : ∀ digits name,
      ¬ [Lexeme.bracket digits, .bare name] <:+: previous.toList ++ items)
    (lean : ∀ d digits, Lexeme.bracket ('0' :: d :: digits) ∉ items) :
    items = canonicalItems previous.isNone (items.map Lexeme.segment) := by
  generalize hrest : ([] : List Char) = rest at h
  induction h with
  | nil => rfl
  | @cons previous _ mid rest item items takes _ ih =>
    have rests := ih (by simp)
      (fun digits name inner => apart digits name (inner.trans (List.suffix_append _ _).isInfix))
      (fun d digits hmem => lean d digits (List.mem_cons_of_mem _ hmem)) hrest
    have front : item = Lexeme.ofSegment previous.isNone item.segment := by
      cases takes with
      | bracket digits =>
        refine (ofSegment_bracket digits ?_ _).symm
        rintro d rest rfl
        exact lean d rest List.mem_cons_self
      | pointed run =>
        cases previous with
        | none => exact absurd rfl (point rfl)
        | some before => simp [Lexeme.segment, Lexeme.ofSegment]
      | bare allows run =>
        cases previous with
        | none => simp [Lexeme.segment, Lexeme.ofSegment]
        | some before =>
          cases before with
          | bracket digits => exact absurd ⟨[], items, rfl⟩ (apart digits _)
          | pointed name => exact allows.elim
          | bare name => exact allows.elim
    rw [List.map_cons, canonicalItems, ← front]
    exact congrArg (item :: ·) rests

theorem bare_not_mem_canonicalItems (name : List Char) (segments : List Segment) :
    Lexeme.bare name ∉ canonicalItems false segments := by
  induction segments with
  | nil => simp [canonicalItems]
  | cons segment rest ih =>
    intro h
    rcases List.mem_cons.mp h with h | h
    · cases segment <;> cases h
    · exact ih h

theorem canonicalItems_apart (first : Bool) (segments : List Segment) (digits name : List Char) :
    ¬ [Lexeme.bracket digits, .bare name] <:+: canonicalItems first segments := by
  rintro ⟨before, after, heq⟩
  cases segments with
  | nil => simp [canonicalItems] at heq
  | cons segment rest =>
    -- only the first item can be bare, but the bare one here has another before it
    have behind : Lexeme.bare name ∈ canonicalItems false rest := by
      rw [canonicalItems] at heq
      cases before with
      | nil => simp [← (List.cons.inj heq).2]
      | cons item before => simp [← (List.cons.inj heq).2]
    exact bare_not_mem_canonicalItems name rest behind

theorem canonicalItems_lean (first : Bool) (segments : List Segment) (d : Char)
    (digits : List Char) : Lexeme.bracket ('0' :: d :: digits) ∉ canonicalItems first segments := by
  induction segments generalizing first with
  | nil => simp [canonicalItems]
  | cons segment rest ih =>
    intro h
    rcases List.mem_cons.mp h with h | h
    · cases segment with
      | property name => cases first <;> cases h
      | element => cases h
      | index n => exact Decimal.toDigits_ne_zero_cons n d digits (Lexeme.bracket.inj h).symm
    · exact ih false h

/-- Canonical text does not begin with a point. -/
theorem canonicalItems_head (h : ∀ s ∈ segments, s.Writable) :
    ((canonicalItems true segments).flatMap Lexeme.text).head? ≠ some '.' := by
  cases segments with
  | nil => simp [canonicalItems]
  | cons segment rest =>
    have writable := h segment List.mem_cons_self
    rw [canonicalItems, List.flatMap_cons]
    cases segment with
    | element => simp [Lexeme.ofSegment, Lexeme.text]
    | index n => simp [Lexeme.ofSegment, Lexeme.text]
    | property name =>
      obtain ⟨c, cs, hname⟩ := List.exists_cons_of_ne_nil
        (show name.toList ≠ [] by simpa using writable.1)
      have inside := writable.2 c (by simp [hname])
      simpa [Lexeme.ofSegment, Lexeme.text, hname] using inside.1

/-- Text is the canonical text of what it is read as exactly if it skips no point, no bare name
follows a bracket, and no position has a superfluous zero. -/
theorem Begins.canonical_iff {p : String} (h : Begins p.toList items [])
    (short : ∀ item ∈ items, item.Short) :
    String.ofList ((canonicalItems true (items.map Lexeme.segment)).flatMap Lexeme.text) = p ↔
      p.toList.head? ≠ some '.' ∧
      (∀ digits name, ¬ [Lexeme.bracket digits, .bare name] <:+: items) ∧
      ∀ d digits, Lexeme.bracket ('0' :: d :: digits) ∉ items := by
  have writable := h.writable short
  constructor
  · intro same
    have text : p.toList
        = (canonicalItems true (items.map Lexeme.segment)).flatMap Lexeme.text := by
      rw [← same, String.toList_ofList]
    have canonical : Begins p.toList (canonicalItems true (items.map Lexeme.segment)) [] := by
      rw [text]
      exact .plain (reads_canonicalItems writable fun _ => trivial)
    rw [h.unique canonical, text]
    exact ⟨canonicalItems_head writable, canonicalItems_apart true _, canonicalItems_lean true _⟩
  · rintro ⟨point, apart, lean⟩
    generalize hp : p.toList = cs at h point
    cases h with
    | skipped reads => exact absurd rfl point
    | plain reads =>
      have same := reads.eq_canonicalItems (fun _ => point) apart lean
      have text := reads.eq_append
      apply String.toList_inj.mp
      rw [String.toList_ofList, hp, text, List.append_nil]
      exact congrArg (List.flatMap Lexeme.text) same.symm

/-! ## Round trips -/

/-- Writable segments are written as text that is read as them, and every form of the path comes to
this text and these segments. What path text is read as can be written, reading that gives the same
segments, and it is the text itself exactly if the text does not begin with a point, no name directly
follows a bracket, and no position has a superfluous zero. -/
theorem path_text_round_trip :
    (∀ segments : List Segment, (∀ s ∈ segments, s.Writable) →
      ∃ text, Piece.write (segments.map .segment) = .ok text ∧
        PathArgument.parse text = .ok segments ∧
        ∀ path ∈ [PathArgument.list (segments.map .segment), .tuple (segments.map .segment),
            .reference (segments.map .segment), .text text],
          path.coerce = .ok (text, segments.map .segment)) ∧
    ∀ (p : String) (segments : List Segment), PathArgument.parse p = .ok segments →
      ∃ text items, Piece.write (segments.map .segment) = .ok text ∧
        PathArgument.parse text = .ok segments ∧
        Begins p.toList items [] ∧ items.map Lexeme.segment = segments ∧
        (text = p ↔ p.toList.head? ≠ some '.' ∧
          (∀ digits name, ¬ [Lexeme.bracket digits, .bare name] <:+: items) ∧
          ∀ d digits, Lexeme.bracket ('0' :: d :: digits) ∉ items) := by
  constructor
  · intro segments writable
    have written := write_of_writable writable
    have read := parse_canonicalItems writable
    refine ⟨_, written, read, ?_⟩
    simp [PathArgument.coerce, written, read, Except.map]
  · intro p segments h
    obtain ⟨items, begins, short, rfl⟩ := begins_of_parse (argument_parse_ok_iff.mp h)
    have writable := begins.writable short
    exact ⟨_, items, write_of_writable writable, parse_canonicalItems writable, begins, rfl,
      begins.canonical_iff short⟩

/-- A position, and a name that holds a closing bracket. -/
def padded : List Segment :=
  [.index 7, .property "a]"]

/-- In `[007]a]` the zeros are superfluous, and a bare name follows the bracket. -/
theorem path_text_round_trip_padded :
    (∃ text, Piece.write (padded.map .segment) = .ok text ∧
      PathArgument.parse text = .ok padded ∧
      ∀ path ∈ [PathArgument.list (padded.map .segment), .tuple (padded.map .segment),
          .reference (padded.map .segment), .text text],
        path.coerce = .ok (text, padded.map .segment)) ∧
    ∃ text items, Piece.write (padded.map .segment) = .ok text ∧
      PathArgument.parse text = .ok padded ∧
      Begins "[007]a]".toList items [] ∧ items.map Lexeme.segment = padded ∧
      (text = "[007]a]" ↔ "[007]a]".toList.head? ≠ some '.' ∧
        (∀ digits name, ¬ [Lexeme.bracket digits, .bare name] <:+: items) ∧
        ∀ d digits, Lexeme.bracket ('0' :: d :: digits) ∉ items) := by
  have writable : ∀ s ∈ padded, s.Writable := by
    intro s hs
    simp only [padded, List.mem_cons, List.not_mem_nil, or_false] at hs
    rcases hs with rfl | rfl
    · exact (Segment.writable_index_iff 7).mpr (by decide)
    · exact (Segment.isName_iff "a]").mp (by decide)
  have read : PathArgument.parse "[007]a]" = .ok padded := by cbv
  exact ⟨path_text_round_trip.1 padded writable, path_text_round_trip.2 "[007]a]" padded read⟩

end Path

end Schemata
