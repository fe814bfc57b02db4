import Lisplet.Eval.Operation
import Mathlib

/-!
# Loose equality

Two values that are not lists are loosely equal for one of two reasons: they are identical, or they
stand for equal numbers and are not both strings (`Value.looselyEqual_iff`).  Both reasons are
symmetric and transitive, and they can be chained.  So loose equality is almost an equivalence: it
is transitive except between two strings, which may stand for one number without being equal.  Where
there is at most one string, comparing all arguments with the first one compares any two of them
(`Value.allEqual_iff`), and their order does not matter.
-/

namespace Lisplet

namespace Value

def isList : Value → Bool
  | list _ => true
  | _ => false

def isString : Value → Bool
  | string _ => true
  | _ => false

/-! ## Equal numbers -/

theorem numericallyEqual_iff {a b : Value} :
    a.numericallyEqual b = true ↔
      ∃ x y, a.asNumber? = some x ∧ b.asNumber? = some y ∧ (x == y) = true := by
  unfold numericallyEqual
  cases a.asNumber? <;> cases b.asNumber? <;> simp

theorem numericallyEqual_symm {a b : Value} (h : a.numericallyEqual b = true) :
    b.numericallyEqual a = true := by
  obtain ⟨x, y, hx, hy, same⟩ := numericallyEqual_iff.1 h
  exact numericallyEqual_iff.2 ⟨y, x, hy, hx, BEq.symm same⟩

theorem numericallyEqual_trans {a b c : Value} (h : a.numericallyEqual b = true)
    (h' : b.numericallyEqual c = true) : a.numericallyEqual c = true := by
  obtain ⟨x, y, hx, hy, same⟩ := numericallyEqual_iff.1 h
  obtain ⟨y', z, hy', hz, same'⟩ := numericallyEqual_iff.1 h'
  obtain rfl : y = y' := Option.some.inj (hy.symm.trans hy')
  exact numericallyEqual_iff.2 ⟨x, z, hx, hz, PartialEquivBEq.trans same same'⟩

/-! ## Identical values -/

/-- Values that are equal whatever they stand for: nothing, the same text, the same primitive, the
same closure, and the same result that is no number. -/
inductive Identical : Value → Value → Prop
  | null : Identical null null
  | string (text : String) : Identical (string text) (string text)
  | primitive (p : Primitive) : Identical (primitive p) (primitive p)
  | closure {c d : Closure Value} (same : c.id = d.id) : Identical (closure c) (closure d)
  | notNumber {x y : Number} (left : x.isNaN = true) (right : y.isNaN = true)
      (same : x.mark = y.mark) : Identical (number x) (number y)

theorem Identical.symm {a b : Value} : Identical a b → Identical b a
  | .null => .null
  | .string text => .string text
  | .primitive p => .primitive p
  | .closure same => .closure same.symm
  | .notNumber left right same => .notNumber right left same.symm

theorem Identical.trans {a b c : Value} (h : Identical a b) (h' : Identical b c) :
    Identical a c := by
  cases h with
  | null | string | primitive => exact h'
  | closure same =>
    cases h' with
    | closure same' => exact .closure (same.trans same')
  | notNumber left _ same =>
    cases h' with
    | notNumber _ right same' => exact .notNumber left right (same.trans same')

/-- A result that is no number equals no number. -/
theorem beq_eq_false_of_isNaN {x : Number} (h : x.isNaN = true) (y : Float) :
    (x.value == y) = false := by
  by_contra same
  have same : (x.value == y) = true := Bool.of_not_eq_false same
  have self : (x.value == x.value) = true := PartialEquivBEq.trans same (BEq.symm same)
  rw [Number.isNaN, self] at h
  cases h

/-- Identical values stand for the same number, if they stand for any. -/
theorem Identical.numericallyEqual {a b c : Value} (h : Identical a b)
    (h' : b.numericallyEqual c = true) : a.numericallyEqual c = true := by
  cases h with
  | null | string | primitive => exact h'
  | closure => cases h'
  | notNumber _ right _ =>
    obtain ⟨x, y, hx, -, same⟩ := numericallyEqual_iff.1 h'
    cases hx
    rw [beq_eq_false_of_isNaN right] at same
    cases same

/-! ## Loose equality -/

theorem Identical.looselyEqual {a b : Value} (h : Identical a b) : a.looselyEqual b = true := by
  cases h with
  | null => rfl
  | string text => exact beq_self_eq_true text
  | primitive p => exact beq_self_eq_true p
  | closure same => exact beq_iff_eq.2 same
  | notNumber left right same => simp [Value.looselyEqual, Number.same, left, right, same]

theorem looselyEqual_of_numericallyEqual {a b : Value}
    (apart : ¬ (a.isString = true ∧ b.isString = true)) (equal : a.numericallyEqual b = true) :
    a.looselyEqual b = true := by
  unfold looselyEqual
  split
  · cases equal
  · exact absurd ⟨rfl, rfl⟩ apart
  · exact Bool.or_eq_true_iff.2 (.inl equal)
  · cases equal
  · cases equal
  · cases equal
  · exact equal

theorem identical_or_numericallyEqual {a b : Value} (plain : a.isList = false)
    (h : a.looselyEqual b = true) :
    a.Identical b ∨
      (¬ (a.isString = true ∧ b.isString = true) ∧ a.numericallyEqual b = true) := by
  unfold looselyEqual at h
  split at h
  next => exact .inl .null
  next s t =>
    obtain rfl : s = t := beq_iff_eq.1 h
    exact .inl (.string s)
  next x y =>
    rcases Bool.or_eq_true_iff.1 h with equal | identical
    · exact .inr ⟨fun both => Bool.false_ne_true both.1, equal⟩
    · obtain ⟨both, marks⟩ := Bool.and_eq_true_iff.1 identical
      obtain ⟨left, right⟩ := Bool.and_eq_true_iff.1 both
      exact .inl (.notNumber left right (beq_iff_eq.1 marks))
  next => cases plain
  next p q =>
    obtain rfl : p = q := beq_iff_eq.1 h
    exact .inl (.primitive p)
  next c d => exact .inl (.closure (beq_iff_eq.1 h))
  next strings _ _ _ _ =>
    refine .inr ⟨?_, h⟩
    rintro ⟨left, right⟩
    cases a <;> cases left
    cases b <;> cases right
    exact strings _ _ rfl rfl

/-- The two reasons for loose equality. -/
theorem looselyEqual_iff {a b : Value} (plain : a.isList = false) :
    a.looselyEqual b = true ↔
      a.Identical b ∨
        (¬ (a.isString = true ∧ b.isString = true) ∧ a.numericallyEqual b = true) := by
  constructor
  · exact identical_or_numericallyEqual plain
  · rintro (identical | ⟨apart, equal⟩)
    · exact identical.looselyEqual
    · exact looselyEqual_of_numericallyEqual apart equal

theorem looselyEqual_refl {a : Value} (plain : a.isList = false) : a.looselyEqual a = true := by
  cases a with
  | null => rfl
  | boolean b => cases b <;> decide +kernel
  | number x =>
    by_cases notNumber : x.isNaN = true
    · exact (Identical.notNumber notNumber notNumber rfl).looselyEqual
    · have self : (x.value == x.value) = true := by simpa [Number.isNaN] using notNumber
      exact Bool.or_eq_true_iff.2 (.inl self)
  | string text => exact (Identical.string text).looselyEqual
  | list items => cases plain
  | primitive p => exact (Identical.primitive p).looselyEqual
  | closure c => exact (Identical.closure rfl).looselyEqual

theorem looselyEqual_symm {a b : Value} (plain : a.isList = false) (plain' : b.isList = false)
    (h : a.looselyEqual b = true) : b.looselyEqual a = true := by
  rw [looselyEqual_iff plain] at h
  rw [looselyEqual_iff plain']
  exact h.imp Identical.symm fun ⟨apart, equal⟩ =>
    ⟨fun both => apart both.symm, numericallyEqual_symm equal⟩

theorem looselyEqual_trans {a b c : Value} (plain : a.isList = false) (plain' : b.isList = false)
    (apart : ¬ (a.isString = true ∧ c.isString = true)) (h : a.looselyEqual b = true)
    (h' : b.looselyEqual c = true) : a.looselyEqual c = true := by
  rw [looselyEqual_iff plain] at h ⊢
  rw [looselyEqual_iff plain'] at h'
  rcases h with identical | ⟨-, equal⟩
  · exact h'.imp identical.trans fun ⟨_, equal⟩ => ⟨apart, identical.numericallyEqual equal⟩
  · rcases h' with identical | ⟨-, equal'⟩
    · have chained := identical.symm.numericallyEqual (numericallyEqual_symm equal)
      exact .inr ⟨apart, numericallyEqual_symm chained⟩
    · exact .inr ⟨apart, numericallyEqual_trans equal equal'⟩

/-! ## Comparing arguments -/

/-- Where there is at most one string, any two strings are the same argument. -/
theorem eq_of_isString {arguments : List Value} (few : arguments.countP isString ≤ 1)
    {a b : Value} (ha : a ∈ arguments) (hb : b ∈ arguments) (sa : a.isString = true)
    (sb : b.isString = true) : a = b := by
  rw [List.countP_eq_length_filter] at few
  have left := List.mem_filter.2 ⟨ha, sa⟩
  have right := List.mem_filter.2 ⟨hb, sb⟩
  obtain ⟨i, hi, rfl⟩ := List.getElem_of_mem left
  obtain ⟨j, hj, rfl⟩ := List.getElem_of_mem right
  obtain rfl : i = j := by omega
  rfl

/-- Comparing all arguments with the first one compares any two of them. -/
theorem allEqual_iff {arguments : List Value} (plain : ∀ a ∈ arguments, a.isList = false)
    (few : arguments.countP isString ≤ 1) :
    allEqual arguments = true ↔
      ∀ a ∈ arguments, ∀ b ∈ arguments, a.looselyEqual b = true := by
  match arguments with
  | [] => exact iff_of_true rfl (by simp)
  | first :: rest =>
    have mem : first ∈ first :: rest := List.mem_cons_self
    constructor
    · intro h a ha b hb
      have equal : ∀ c ∈ first :: rest, first.looselyEqual c = true := by
        intro c hc
        rcases List.mem_cons.1 hc with rfl | later
        · exact looselyEqual_refl (plain c hc)
        · exact List.all_eq_true.1 h c later
      by_cases both : a.isString = true ∧ b.isString = true
      · obtain rfl := eq_of_isString few ha hb both.1 both.2
        exact looselyEqual_refl (plain a ha)
      · have back := looselyEqual_symm (plain first mem) (plain a ha) (equal a ha)
        exact looselyEqual_trans (plain a ha) (plain first mem) both back (equal b hb)
    · intro h
      exact List.all_eq_true.2 fun c later => h first mem c (List.mem_cons_of_mem _ later)

/-- Loose equality of values that are not lists is reflexive and symmetric, and it is transitive
except between two strings.  For arguments with at most one string, in any order, the test for
equality tells whether any two of them are loosely equal. -/
theorem looselyEqual_almost_equivalence :
    (∀ a : Value, a.isList = false → a.looselyEqual a = true) ∧
      (∀ a b : Value, a.isList = false → b.isList = false →
        a.looselyEqual b = b.looselyEqual a) ∧
      (∀ a b c : Value, a.isList = false → b.isList = false → c.isList = false →
        a.looselyEqual b = true → b.looselyEqual c = true →
        ¬ (a.isString = true ∧ c.isString = true) → a.looselyEqual c = true) ∧
      ∀ arguments permuted : List Value, (∀ a ∈ arguments, a.isList = false) →
        arguments.countP isString ≤ 1 → arguments.Perm permuted →
        Eval.operate .equal permuted =
          pure (.boolean (decide (∀ a ∈ arguments, ∀ b ∈ arguments, a.looselyEqual b = true))) := by
  refine ⟨fun a plain => looselyEqual_refl plain, fun a b plain plain' => ?_,
    fun a b c plain plain' _ h h' apart => looselyEqual_trans plain plain' apart h h',
    fun arguments permuted plain few perm => ?_⟩
  · exact Bool.eq_iff_iff.2
      ⟨looselyEqual_symm plain plain', looselyEqual_symm plain' plain⟩
  · have plain' : ∀ a ∈ permuted, a.isList = false := fun a mem => plain a (perm.mem_iff.2 mem)
    have few' : permuted.countP isString ≤ 1 := by rwa [← perm.countP_eq]
    have answer : allEqual permuted =
        decide (∀ a ∈ arguments, ∀ b ∈ arguments, a.looselyEqual b = true) := by
      rw [Bool.eq_iff_iff, allEqual_iff plain' few', decide_eq_true_iff]
      simp only [perm.mem_iff]
    show pure (Value.boolean (allEqual permuted)) = _
    rw [answer]

/-- The string `" 1.0"`, the number one and `#t` are equal in any order. -/
theorem looselyEqual_almost_equivalence_one :
    let one : Value := number ⟨1, 7⟩
    let arguments : List Value := [string " 1.0", boolean true, one]
    (∀ a ∈ arguments, a.isList = false) ∧ arguments.countP isString ≤ 1 ∧
      (string " 1.0").looselyEqual (boolean true) = true ∧
      (boolean true).looselyEqual one = true ∧ (string " 1.0").looselyEqual one = true ∧
      Eval.operate .equal [one, string " 1.0", boolean true] = pure (.boolean true) := by
  intro one arguments
  obtain ⟨-, -, transitive, order⟩ := looselyEqual_almost_equivalence
  have plain : ∀ a ∈ arguments, a.isList = false := by simp [arguments, one, isList]
  have few : arguments.countP isString ≤ 1 := by decide
  have left : (string " 1.0").looselyEqual (boolean true) = true := by decide +kernel
  have right : (boolean true).looselyEqual one = true := by decide +kernel
  have ends := transitive _ _ _ rfl rfl rfl left right (by simp [one, isString])
  have perm : arguments.Perm [one, string " 1.0", boolean true] := by
    show ([string " 1.0", boolean true] ++ [one]).Perm ([one] ++ [string " 1.0", boolean true])
    exact List.perm_append_comm
  have all : decide (∀ a ∈ arguments, ∀ b ∈ arguments, a.looselyEqual b = true) = true := by
    decide +kernel
  refine ⟨plain, few, left, right, ends, ?_⟩
  rw [order arguments _ plain few perm, all]

/-- Two strings may stand for one number without being equal. -/
example :
    (string "1").looselyEqual (boolean true) = true ∧
      (boolean true).looselyEqual (string "1.0") = true ∧
      (string "1").looselyEqual (string "1.0") = false := by
  decide +kernel

end Value

end Lisplet
