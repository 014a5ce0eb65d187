import Schemata.Proofs.Validation.Fits
import Schemata.Validation.Leaf

/-!
# What the checks of leaves give

Strict or lax, the check of a leaf gives values of the plain type of the leaf; a literal gives one of
the expected values.
-/

namespace Schemata

namespace Leaf

variable {v r : Value} {s s' : Standing}

theorem checkString_gives {strict : Bool} (h : checkString strict v s = .accepted r s') :
    PlainType.str.Holds r := by
  unfold checkString at h
  split at h
  · cases h
    exact .str _
  · split at h
    · cases h
    · split at h <;> cases h
      exact .str _
  · cases h

theorem integerOfText_gives {text : String} {w : Value}
    (h : integerOfText text w s = .accepted r s') : PlainType.int.Holds r := by
  unfold integerOfText at h
  split at h <;> cases h
  exact .int _

theorem integerOfFloat_gives {f : Float} {w : Value}
    (h : integerOfFloat f w s = .accepted r s') : PlainType.int.Holds r := by
  unfold integerOfFloat at h
  split at h
  · cases h
  · split at h
    · cases h
    · split at h <;> cases h
      exact .int _

theorem checkInteger_gives {strict : Bool} (h : checkInteger strict v s = .accepted r s') :
    PlainType.int.Holds r := by
  unfold checkInteger at h
  split at h
  · cases h
    exact .int _
  · split at h
    · cases h
    · split at h
      · cases h
        exact .int _
      · exact integerOfFloat_gives h
      · exact integerOfText_gives h
      · split at h
        · exact integerOfText_gives h
        · cases h
      · cases h

theorem finite_gives {f : Float} {w : Value} (h : finite f w s = .accepted r s') :
    PlainType.float.Holds r := by
  unfold finite at h
  split at h <;> cases h
  exact .float _

theorem numberOfText_gives {text : String} {w : Value}
    (h : numberOfText text w s = .accepted r s') : PlainType.float.Holds r := by
  unfold numberOfText at h
  split at h
  · exact finite_gives h
  · cases h

theorem checkNumber_gives {strict : Bool} (h : checkNumber strict v s = .accepted r s') :
    PlainType.float.Holds r := by
  unfold checkNumber at h
  split at h
  · exact finite_gives h
  · split at h <;> cases h
    exact .float _
  · split at h
    · cases h
    · split at h
      · cases h
        exact .float _
      · exact numberOfText_gives h
      · split at h
        · exact numberOfText_gives h
        · cases h
      · cases h

theorem booleanOfText_gives {text : String} {w : Value}
    (h : booleanOfText text w s = .accepted r s') : PlainType.bool.Holds r := by
  unfold booleanOfText at h
  split at h <;> cases h
  exact .bool _

theorem checkBoolean_gives {strict : Bool} (h : checkBoolean strict v s = .accepted r s') :
    PlainType.bool.Holds r := by
  unfold checkBoolean at h
  split at h
  · cases h
    exact .bool _
  · split at h
    · cases h
    · split at h
      · split at h
        · cases h
          exact .bool _
        · split at h <;> cases h
          exact .bool _
      · split at h
        · cases h
          exact .bool _
        · split at h <;> cases h
          exact .bool _
      · exact booleanOfText_gives h
      · split at h
        · exact booleanOfText_gives h
        · cases h
      · cases h

theorem checkNull_gives (h : checkNull v s = .accepted r s') : r = .none := by
  unfold checkNull at h
  split at h <;> cases h
  rfl

/-- What stands for a value is one of the expected values. -/
theorem mem_of_literalMatch? {expected : List Value} (h : literalMatch? expected v = some r) :
    r ∈ expected := by
  have last {among : Value → Bool} {e : Value} (h : lastEqual? among expected v = some e) :
      e ∈ expected := List.mem_reverse.mp (List.mem_of_find?_eq_some h)
  simp only [literalMatch?, Option.orElse_eq_orElse, Option.orElse_eq_or, Option.or_eq_some_iff,
    Option.ite_none_right_eq_some] at h
  rcases h with ⟨_, h⟩ | ⟨_, ⟨_, h⟩ | ⟨_, h | ⟨_, _, h⟩⟩⟩
  · exact List.mem_reverse.mp (List.mem_of_find?_eq_some h)
  · exact last h
  · exact List.mem_of_find?_eq_some h
  · exact last h

theorem checkLiteral_gives {expected : List Value}
    (h : checkLiteral expected v s = .accepted r s') : r ∈ expected := by
  unfold checkLiteral at h
  split at h
  · cases h
  · split at h
    next e he =>
      cases h
      exact mem_of_literalMatch? he
    next => cases h

end Leaf

end Schemata
