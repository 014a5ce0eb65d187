import Schemata.Proofs.Path.Reading

/-!
# Joining path text

Behind path text that is complete, a bracket goes on with the path at once and a name behind a
point. The text that is joined so is read as the segments of both parts.
-/

namespace Schemata.Path

variable {previous previous' : Option Lexeme} {cs tail rest : List Char} {item : Lexeme}
  {items items' : List Lexeme}

/-- Text of the path that goes along `p` and then along `q`. -/
def join (p q : String) : String :=
  if p = "" ∨ q = "" ∨ q.toList.head? = some '[' then p ++ q else p ++ "." ++ q

/-! ## Rows in longer text -/

/-- An item stays what it is in longer text, if no name goes on there. -/
theorem Takes.append (h : Takes previous cs item rest) (ends : EndsNames tail) :
    Takes previous (cs ++ tail) item (rest ++ tail) := by
  cases h with
  | @bracket digits _ hdigits =>
    have takes : Takes previous ('[' :: (digits ++ ']' :: (rest ++ tail))) (.bracket digits)
      (rest ++ tail) := .bracket hdigits
    simpa using takes
  | @pointed name _ run =>
    have takes : Takes previous ('.' :: (name ++ (rest ++ tail))) (.pointed name) (rest ++ tail) :=
      .pointed ⟨run.nonempty, run.inside, run.maximal.append ends⟩
    simpa using takes
  | bare allows run =>
    rw [List.append_assoc]
    exact .bare allows ⟨run.nonempty, run.inside, run.maximal.append ends⟩

/-- Where no name begins, it does not matter what stands before. -/
theorem Takes.anywhere (h : Takes previous cs item rest) (ends : EndsNames cs) :
    Takes previous' cs item rest := by
  cases h with
  | bracket digits => exact .bracket digits
  | pointed run => exact .pointed run
  | bare _ run => exact absurd ends run.head

theorem Reads.anywhere (h : Reads previous cs items rest) (ends : EndsNames cs) :
    Reads previous' cs items rest := by
  cases h with
  | nil => exact .nil
  | cons takes reads => exact .cons (takes.anywhere ends) reads

/-- A complete row goes on with any row that can stand behind every item. -/
theorem Reads.append (h : Reads previous cs items []) (ends : EndsNames tail)
    (more : ∀ last, Reads last tail items' rest) :
    Reads previous (cs ++ tail) (items ++ items') rest := by
  generalize hnil : ([] : List Char) = last at h
  induction h with
  | nil =>
    subst hnil
    exact more _
  | cons takes _ ih => exact .cons (takes.append ends) (ih hnil)

theorem Begins.append (h : Begins cs items []) (ends : EndsNames tail)
    (more : ∀ last, Reads last tail items' rest) :
    Begins (cs ++ tail) (items ++ items') rest := by
  cases h with
  | plain reads => exact .plain (reads.append ends more)
  | skipped reads => exact .skipped (reads.append ends more)

theorem Begins.eq_nil (h : Begins [] items rest) : items = [] := by
  cases h with
  | plain reads => exact reads.eq_nil.1

/-- Without a point in front, no point is skipped. -/
theorem Begins.reads (h : Begins cs items rest) (point : cs.head? ≠ some '.') :
    Reads none cs items rest := by
  cases h with
  | plain reads => exact reads
  | skipped reads => exact absurd rfl point

/-! ## Joined text -/

/-- Text that goes on with a path behind other text: a bare name in front gets a point. -/
theorem reads_behind (h : Reads none cs items []) (nonempty : cs ≠ [])
    (point : cs.head? ≠ some '.') (bracket : cs.head? ≠ some '[') :
    ∃ items', (∀ last, Reads last ('.' :: cs) items' []) ∧
      items'.map Lexeme.segment = items.map Lexeme.segment ∧
      ((∀ item ∈ items, item.Short) → ∀ item ∈ items', item.Short) := by
  cases h with
  | nil => exact absurd rfl nonempty
  | cons takes reads =>
    cases takes with
    | bracket _ => exact absurd rfl bracket
    | pointed _ => exact absurd rfl point
    | @bare name _ _ run =>
      refine ⟨.pointed name :: _, fun last => .cons (.pointed run) (reads.anywhere run.maximal),
        rfl, ?_⟩
      intro short item hitem
      rcases List.mem_cons.mp hitem with rfl | hitem
      · trivial
      · exact short item (List.mem_cons_of_mem _ hitem)

/-- Joined text is read as the segments of both parts. -/
theorem parse_join {p q : String} {ps qs : List Segment} (hp : parse p = .ok ps)
    (hq : parse q = .ok qs) (point : q.toList.head? ≠ some '.') :
    parse (join p q) = .ok (ps ++ qs) := by
  obtain ⟨items, begins, short, rfl⟩ := begins_of_parse hp
  obtain ⟨items', begins', short', rfl⟩ := begins_of_parse hq
  have shorts {more : List Lexeme} (h : ∀ item ∈ more, item.Short) :
      ∀ item ∈ items ++ more, item.Short := by
    intro item hitem
    rcases List.mem_append.mp hitem with hitem | hitem
    · exact short item hitem
    · exact h item hitem
  -- The cases of `join`: nothing is put between the parts if one is empty or the second one opens
  -- with a bracket, and a point otherwise.
  by_cases emptyLeft : p = ""
  · subst emptyLeft
    rw [begins.eq_nil, join, if_pos (.inl rfl), String.empty_append, hq]
    rfl
  by_cases emptyRight : q = ""
  · subst emptyRight
    rw [begins'.eq_nil, join, if_pos (.inr (.inl rfl)), String.append_empty, hp, List.map_nil,
      List.append_nil]
  by_cases bracket : q.toList.head? = some '['
  · have ends : EndsNames q.toList := by
      intro c hc
      rw [bracket] at hc
      exact .inr (Option.some.inj hc).symm
    have joined : Begins (p ++ q).toList (items ++ items') [] := by
      rw [String.toList_append]
      exact begins.append ends fun last => (begins'.reads point).anywhere ends
    rw [join, if_pos (.inr (.inr bracket)), parse_of_begins joined (shorts short'),
      List.map_append]
  · obtain ⟨behind, reads, same, keeps⟩ :=
      reads_behind (begins'.reads point) (by simpa using emptyRight) point bracket
    have joined : Begins (p ++ "." ++ q).toList (items ++ behind) [] := by
      have text : (p ++ "." ++ q).toList = p.toList ++ '.' :: q.toList := by simp
      rw [text]
      exact begins.append ((endsNames_cons_iff '.').mpr (.inl rfl)) reads
    have apart : ¬ (p = "" ∨ q = "" ∨ q.toList.head? = some '[') := by
      rintro (h | h | h)
      · exact emptyLeft h
      · exact emptyRight h
      · exact bracket h
    rw [join, if_neg apart, parse_of_begins joined (shorts (keeps short')), List.map_append, same]

end Schemata.Path
