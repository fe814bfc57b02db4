import Lisplet.Proofs.Reading

/-!
# Balanced texts

A text is read into forms exactly if its parentheses are balanced, and otherwise the fault names the
parenthesis that is one too many (`parse_balance`): what is read from a text that can be scanned is
what its tokens come to (`read_text`), and for tokens the three outcomes are told apart by counting
their parentheses.
-/

namespace Lisplet

/-- No leaf of the forms that tokens are read into is a parenthesis. -/
theorem isParen_of_mem_leavesAll {forms : List Tree} {ts : List Token} {token : Token}
    (h : Tree.writtenAll forms = written ts) (mem : token ∈ Tree.leavesAll forms) :
    token.isParen = false := by
  have leaf := Tree.mem_writtenAll_of_mem_leavesAll mem
  rw [h, written, List.mem_map] at leaf
  obtain ⟨token', -, same⟩ := leaf
  rcases token'.written_cases with ⟨-, hw⟩ | ⟨-, hw⟩ | ⟨noParen, hw⟩
  · cases hw.symm.trans same
  · cases hw.symm.trans same
  · cases hw.symm.trans same
    exact noParen

/-- What is read from a text that can be scanned is what its tokens come to. -/
theorem read_text {text : String} {ts : List Token} (h : tokens text = .ok ts)
    {forms : List Tree} {fault : Option ReadFault}
    (hf : Script.ended (Script.formsOf defaultLimit [] ts) = (forms, fault)) :
    (TokenStream.ofText text).readAll defaultLimit = (forms, fault) ∧
      parse text = Script.result (forms, fault) := by
  have read : (TokenStream.ofText text).readAll defaultLimit = (forms, fault) := by
    rw [← hf, ← Script.upToFault_ofRowsFrom (TokenStream.pending_ofText h)]
    exact TokenStream.readAll_ofRows _ _
  exact ⟨read, by rw [parse_eq_readAll, read]⟩

/-- A text is read into forms exactly if its parentheses are balanced, and then the forms, written
out, are its tokens.  Otherwise the forms before the fault are read: those before the first right
parenthesis that closes nothing, which is the fault, or those before the first left parenthesis
that is never closed; the fault is then the last such one.  Each form that is read takes its own
tokens from the stream, and no row beyond that of the last of them. -/
theorem parse_balance {text : String} {ts : List Token} (h : tokens text = .ok ts)
    (within : WithinFrom defaultLimit 0 (written ts)) :
    (Balanced (written ts) → ∃ forms, parse text = .ok forms ∧
        (TokenStream.ofText text).readAll defaultLimit = (forms, none) ∧
        Tree.writtenAll forms = written ts ∧
        ∀ token ∈ Tree.leavesAll forms, token.isParen = false) ∧
      (¬ Proper (written ts) → ∃ before stray after forms, ts = before ++ stray :: after ∧
        Proper (written before) ∧
        opens (written (before ++ [stray])) < closes (written (before ++ [stray])) ∧
        Tree.writtenAll forms = written before ∧
        (TokenStream.ofText text).readAll defaultLimit = (forms, some (.strayParen stray.line)) ∧
        parse text = .error (.strayParen stray.line)) ∧
      (Proper (written ts) → opens (written ts) ≠ closes (written ts) →
        ∃ done first inside before last after forms, ts = done ++ first :: inside ∧
          Unmatched first inside ∧ Tree.writtenAll forms = written done ∧
          ts = before ++ last :: after ∧ Unmatched last after ∧
          (∀ a paren b, after = a ++ paren :: b → ¬ Unmatched paren b) ∧
          (TokenStream.ofText text).readAll defaultLimit = (forms, some (.unclosed last.line)) ∧
          parse text = .error (.unclosed last.line)) ∧
      (∀ limit s tree s', TokenStream.read limit s = (.ok tree, s') →
        ∃ used took, written used = tree.written ∧ TokenStream.Spends s s' used took) := by
  refine ⟨fun balanced => ?_, fun improper => ?_, fun proper unequal => ?_, ?_⟩
  · obtain ⟨forms, hf, same⟩ := Script.formsOf_of_balanced balanced within
    obtain ⟨all, parsed⟩ := read_text h (congrArg Script.ended hf)
    exact ⟨forms, parsed, all, same, fun token => isParen_of_mem_leavesAll same⟩
  · obtain ⟨before, stray, after, forms, split, proper, more, hf, same⟩ :=
      Script.formsOf_of_not_proper improper within
    obtain ⟨all, parsed⟩ := read_text h (congrArg Script.ended hf)
    exact ⟨before, stray, after, forms, split, proper, more, same, all, parsed⟩
  · obtain ⟨forms, inner, outer, done, rest, hf, split, same, reads⟩ :=
      Script.formsOf_of_unclosed proper unequal within
    obtain ⟨first, inside, begins, unmatched⟩ := reads.first (by simp)
    obtain ⟨before, last, after, ends, line, open', later⟩ := reads.last
    have fault : Script.ended (Script.formsOf defaultLimit [] ts) =
        (forms, some (.unclosed last.line)) := by
      rw [hf, ← line]
      rfl
    obtain ⟨all, parsed⟩ := read_text h fault
    refine ⟨done, first, inside, done ++ before, last, after, forms, ?_, unmatched, same, ?_, open',
      later, all, parsed⟩
    · rw [split, begins]
    · rw [split, ends, List.append_assoc]
  · intro limit s tree s' read
    obtain ⟨used, took, -, reads, spends⟩ := TokenStream.read_spends read
    exact ⟨used, took, reads, spends⟩

/-- Tokens that are not more than the limit are not nested deeper. -/
theorem withinFrom_of_length {limit : Nat} {ws : List Written} (h : ws.length ≤ limit) :
    WithinFrom limit 0 ws := by
  intro front hf _
  have fewer : opens front ≤ front.length := List.countP_le_length
  have shorter := hf.length_le
  omega

/-- A list in a list, over two lines. -/
theorem parse_balance_nested :
    ∃ forms, parse "(a\n (#t) b)" = .ok forms ∧ Tree.writtenAll forms = [.opening,
      .leaf ⟨0, .identifier "a"⟩, .opening, .leaf ⟨1, .boolean true⟩, .closing,
      .leaf ⟨1, .identifier "b"⟩, .closing] := by
  have scanned : tokens "(a\n (#t) b)" = .ok [⟨0, .leftParen⟩, ⟨0, .identifier "a"⟩,
      ⟨1, .leftParen⟩, ⟨1, .boolean true⟩, ⟨1, .rightParen⟩, ⟨1, .identifier "b"⟩,
      ⟨1, .rightParen⟩] := rfl
  have balanced := Tree.balanced_writtenAll [.list [.leaf ⟨0, .identifier "a"⟩,
    .list [.leaf ⟨1, .boolean true⟩], .leaf ⟨1, .identifier "b"⟩]]
  obtain ⟨forms, parsed, -, same, -⟩ :=
    (parse_balance scanned (withinFrom_of_length (by decide))).1 balanced
  exact ⟨forms, parsed, same⟩

end Lisplet
