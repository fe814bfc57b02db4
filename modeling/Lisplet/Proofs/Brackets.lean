import Lisplet.Tree.Script
import Mathlib.Data.List.Induction
import Mathlib.Tactic.SplitIfs

/-!
# Parentheses

A tree is written with a parenthesis at each end of every list and its tokens for leaves
(`Tree.written`), and tokens are read into trees by a stack of the lists that are still open.  The
stack always stands for the tokens that were read into it (`Partial.Reads`), so nothing is lost on
the way.  Whether tokens can be read is a matter of counting: no first part of them may have more
right than left parentheses (`Proper`), and in all there must be as many of each (`Balanced`).
-/

namespace Lisplet

/-- A written token: parentheses are all alike, any other token stands for itself. -/
inductive Written where
  | opening
  | closing
  | leaf (token : Token)

def Token.written (token : Token) : Written :=
  match token.kind with
  | .leftParen => .opening
  | .rightParen => .closing
  | _ => .leaf token

namespace Tree

mutual

/-- A tree as it is written. -/
def written : Tree → List Written
  | leaf token => [.leaf token]
  | list items => .opening :: (writtenAll items ++ [.closing])

/-- Some trees as they are written, one after the other. -/
def writtenAll : List Tree → List Written
  | [] => []
  | tree :: trees => written tree ++ writtenAll trees

end

theorem writtenAll_append (trees more : List Tree) :
    writtenAll (trees ++ more) = writtenAll trees ++ writtenAll more := by
  induction trees with
  | nil => rfl
  | cons tree trees ih => rw [List.cons_append, writtenAll, writtenAll, ih, List.append_assoc]

mutual

theorem mem_written_of_mem_leaves {token : Token} :
    ∀ {tree : Tree}, token ∈ tree.leaves → .leaf token ∈ tree.written
  | leaf _, h => by
    rw [leaves, List.mem_singleton] at h
    rw [h, written, List.mem_singleton]
  | list items, h => by
    have inside : .leaf token ∈ writtenAll items := mem_writtenAll_of_mem_leavesAll h
    simp [written, inside]

theorem mem_writtenAll_of_mem_leavesAll {token : Token} :
    ∀ {trees : List Tree}, token ∈ leavesAll trees → .leaf token ∈ writtenAll trees
  | [], h => by cases h
  | tree :: trees, h => by
    rw [writtenAll, List.mem_append]
    rcases List.mem_append.1 h with first | later
    · exact .inl (mem_written_of_mem_leaves first)
    · exact .inr (mem_writtenAll_of_mem_leavesAll later)

end

end Tree

/-- Tokens as they are written. -/
def written (tokens : List Token) : List Written := tokens.map Token.written

theorem written_nil : written [] = [] := rfl

theorem written_cons (token : Token) (tokens : List Token) :
    written (token :: tokens) = token.written :: written tokens := rfl

theorem written_append (tokens more : List Token) :
    written (tokens ++ more) = written tokens ++ written more := List.map_append

/-! ## Counting -/

namespace Written

@[simp] def isOpening : Written → Bool
  | opening => true
  | _ => false

@[simp] def isClosing : Written → Bool
  | closing => true
  | _ => false

end Written

/-- The number of left parentheses. -/
def opens (ws : List Written) : Nat := ws.countP Written.isOpening

/-- The number of right parentheses. -/
def closes (ws : List Written) : Nat := ws.countP Written.isClosing

@[simp] theorem opens_nil : opens [] = 0 := rfl

@[simp] theorem closes_nil : closes [] = 0 := rfl

@[simp] theorem opens_cons (w : Written) (ws : List Written) :
    opens (w :: ws) = opens ws + if w.isOpening then 1 else 0 := List.countP_cons

@[simp] theorem closes_cons (w : Written) (ws : List Written) :
    closes (w :: ws) = closes ws + if w.isClosing then 1 else 0 := List.countP_cons

@[simp] theorem opens_append (ws more : List Written) :
    opens (ws ++ more) = opens ws + opens more := List.countP_append

@[simp] theorem closes_append (ws more : List Written) :
    closes (ws ++ more) = closes ws + closes more := List.countP_append

/-- With `depth` lists open before, no first part closes more lists than are open. -/
def ProperFrom (depth : Nat) (ws : List Written) : Prop :=
  ∀ front, front <+: ws → closes front ≤ depth + opens front

/-- No first part has more right than left parentheses. -/
def Proper (ws : List Written) : Prop := ∀ front, front <+: ws → closes front ≤ opens front

/-- No first part has more right than left parentheses, and in all there are as many of each. -/
structure Balanced (ws : List Written) : Prop where
  proper : Proper ws
  equal : opens ws = closes ws

/-- With `depth` lists open before, no more than `limit` lists are open at any time. -/
def WithinFrom (limit depth : Nat) (ws : List Written) : Prop :=
  ∀ front, front <+: ws → ProperFrom depth front → depth + opens front ≤ limit + closes front

theorem proper_iff (ws : List Written) : Proper ws ↔ ProperFrom 0 ws := by
  simp only [Proper, ProperFrom, Nat.zero_add]

theorem forall_prefix_cons {p : List Written → Prop} {w : Written} {ws : List Written} :
    (∀ front, front <+: w :: ws → p front) ↔ p [] ∧ ∀ front, front <+: ws → p (w :: front) := by
  constructor
  · intro h
    exact ⟨h [] List.nil_prefix, fun front hf => h _ (List.cons_prefix_cons.2 ⟨rfl, hf⟩)⟩
  · rintro ⟨empty, later⟩ front hf
    rcases List.prefix_cons_iff.1 hf with rfl | ⟨rest, rfl, hr⟩
    · exact empty
    · exact later rest hr

theorem properFrom_opening {depth : Nat} {ws : List Written} :
    ProperFrom depth (.opening :: ws) ↔ ProperFrom (depth + 1) ws := by
  rw [ProperFrom, forall_prefix_cons]
  simp [ProperFrom, Nat.add_assoc, Nat.add_comm 1]

theorem properFrom_leaf {depth : Nat} {token : Token} {ws : List Written} :
    ProperFrom depth (.leaf token :: ws) ↔ ProperFrom depth ws := by
  rw [ProperFrom, forall_prefix_cons]
  simp [ProperFrom]

theorem properFrom_closing {depth : Nat} {ws : List Written} :
    ProperFrom (depth + 1) (.closing :: ws) ↔ ProperFrom depth ws := by
  rw [ProperFrom, forall_prefix_cons]
  simp [ProperFrom, Nat.add_right_comm]

theorem not_properFrom_closing {ws : List Written} : ¬ ProperFrom 0 (.closing :: ws) := by
  intro h
  have first := h [.closing] (List.cons_prefix_cons.2 ⟨rfl, List.nil_prefix⟩)
  simp at first

theorem ProperFrom.append {depth : Nat} {ws more : List Written} (h : ProperFrom depth ws)
    (hm : ProperFrom 0 more) : ProperFrom depth (ws ++ more) := by
  intro front hf
  rcases List.prefix_or_prefix_of_prefix hf (List.prefix_append ws more) with inside | ⟨rest, rfl⟩
  · exact h front inside
  · have first := h ws List.prefix_rfl
    have second := hm rest ((List.prefix_append_right_inj ws).1 hf)
    rw [opens_append, closes_append]
    omega

theorem WithinFrom.of_append {limit depth : Nat} {ws more : List Written}
    (h : WithinFrom limit depth (ws ++ more)) : WithinFrom limit depth ws :=
  fun front hf => h front (hf.trans (List.prefix_append ws more))

theorem withinFrom_opening {limit depth : Nat} {ws : List Written}
    (h : WithinFrom limit depth (.opening :: ws)) :
    depth < limit ∧ WithinFrom limit (depth + 1) ws := by
  obtain ⟨-, later⟩ := forall_prefix_cons.1 h
  simp only [properFrom_opening] at later
  constructor
  · have first : depth + 1 ≤ limit := by
      simpa using later [] List.nil_prefix (by simp [ProperFrom])
    exact first
  · intro front hf proper
    have deep : depth + (opens front + 1) ≤ limit + closes front := by
      simpa using later front hf proper
    omega

theorem withinFrom_closing {limit depth : Nat} {ws : List Written}
    (h : WithinFrom limit (depth + 1) (.closing :: ws)) : WithinFrom limit depth ws := by
  obtain ⟨-, later⟩ := forall_prefix_cons.1 h
  intro front hf proper
  have deep : depth + 1 + opens front ≤ limit + (closes front + 1) := by
    simpa using later front hf (properFrom_closing.2 proper)
  omega

theorem withinFrom_leaf {limit depth : Nat} {token : Token} {ws : List Written}
    (h : WithinFrom limit depth (.leaf token :: ws)) : WithinFrom limit depth ws := by
  obtain ⟨-, later⟩ := forall_prefix_cons.1 h
  intro front hf proper
  simpa using later front hf (properFrom_leaf.2 proper)

namespace Tree

mutual

/-- A written tree closes all lists that it opens, and no others. -/
theorem properFrom_written : ∀ (tree : Tree) (depth : Nat) (ws : List Written),
    ProperFrom depth (tree.written ++ ws) ↔ ProperFrom depth ws
  | leaf token, depth, ws => properFrom_leaf
  | list items, depth, ws => by
    rw [written, List.cons_append, properFrom_opening, List.append_assoc, properFrom_writtenAll,
      List.singleton_append, properFrom_closing]

theorem properFrom_writtenAll : ∀ (trees : List Tree) (depth : Nat) (ws : List Written),
    ProperFrom depth (writtenAll trees ++ ws) ↔ ProperFrom depth ws
  | [], _, _ => Iff.rfl
  | tree :: trees, depth, ws => by
    rw [writtenAll, List.append_assoc, properFrom_written, properFrom_writtenAll]

end

theorem opens_written_eq :
    (∀ tree : Tree, opens tree.written = closes tree.written) ∧
      ∀ trees : List Tree, opens (writtenAll trees) = closes (writtenAll trees) := by
  apply written.mutual_induct
  · intro token
    rfl
  · intro items inside
    simp [written, inside]
  · rfl
  · intro tree trees first rest
    simp [writtenAll, first, rest]

theorem opens_writtenAll (trees : List Tree) :
    opens (writtenAll trees) = closes (writtenAll trees) := opens_written_eq.2 trees

/-- Written trees are balanced. -/
theorem balanced_writtenAll (trees : List Tree) : Balanced (writtenAll trees) := by
  refine ⟨?_, opens_writtenAll trees⟩
  have all := properFrom_writtenAll trees 0 []
  rw [List.append_nil] at all
  rw [proper_iff, all]
  intro front hf
  simp [List.prefix_nil.1 hf]

end Tree

/-! ## Open lists -/

/-- A token is a left parenthesis, a right parenthesis or a leaf. -/
theorem Token.written_cases (token : Token) :
    (token.kind = .leftParen ∧ token.written = .opening) ∨
      (token.kind = .rightParen ∧ token.written = .closing) ∨
      (token.isParen = false ∧ token.written = .leaf token) := by
  cases h : token.kind <;> simp [Token.written, Token.isParen, h]

namespace Partial

variable {limit : Nat} {p : Partial} {token : Token}

theorem feed_left (h : token.kind = .leftParen) :
    feed limit p token =
      if p.length < limit then .more (⟨token.line, []⟩ :: p) else .fault .tooDeep := by
  cases p <;> simp only [feed, h]

theorem feed_right_nil (h : token.kind = .rightParen) :
    feed limit [] token = .fault (.strayParen token.line) := by
  simp only [feed, h]

theorem feed_right_cons (h : token.kind = .rightParen) (inner : OpenList) :
    feed limit (inner :: p) token = add (.list inner.items.reverse) p := by
  simp only [feed, h]

theorem feed_leaf (h : token.isParen = false) : feed limit p token = add (.leaf token) p := by
  cases hk : token.kind <;> cases p <;> simp_all [feed, Token.isParen]

/-- The open lists hold exactly what some tokens say: each its parenthesis and, written out, its
items. -/
inductive Reads : Partial → List Token → Prop where
  | nil : Reads [] []
  | cons {outer : Partial} {inner : OpenList} {before after : List Token} {paren : Token}
      (reads : Reads outer before) (kind : paren.kind = .leftParen) (line : inner.line = paren.line)
      (items : written after = Tree.writtenAll inner.items.reverse) :
      Reads (inner :: outer) (before ++ paren :: after)

end Partial

/-- What was made of some tokens is exactly what they say. -/
def Fed.Reads : Fed → List Token → Prop
  | .more p, tokens => p.Reads tokens
  | .form tree, tokens => written tokens = tree.written
  | .fault _, _ => True

namespace Partial

variable {limit : Nat} {p : Partial} {token : Token} {before : List Token}

theorem Reads.add {tree : Tree} {tokens : List Token} (h : p.Reads before)
    (ht : written tokens = tree.written) : (add tree p).Reads (before ++ tokens) := by
  cases h with
  | nil => exact ht
  | @cons outer inner before after paren reads kind line items =>
    have longer : written (after ++ tokens) =
        Tree.writtenAll (tree :: inner.items).reverse := by
      rw [written_append, items, ht, List.reverse_cons, Tree.writtenAll_append, Tree.writtenAll,
        Tree.writtenAll, List.append_nil]
    rw [List.append_assoc, List.cons_append]
    exact .cons reads kind line longer

/-- Reading a token loses nothing. -/
theorem Reads.feed (h : p.Reads before) (token : Token) :
    (feed limit p token).Reads (before ++ [token]) := by
  rcases token.written_cases with ⟨kind, -⟩ | ⟨kind, hw⟩ | ⟨leaf, hw⟩
  · rw [feed_left kind]
    split_ifs
    · exact .cons h kind rfl rfl
    · trivial
  · cases h with
    | nil =>
      rw [feed_right_nil kind]
      trivial
    | @cons outer inner before after paren reads left line items =>
      have list : written (paren :: (after ++ [token])) =
          (Tree.list inner.items.reverse).written := by
        have opened : paren.written = .opening := by rw [Token.written, left]
        rw [Tree.written, ← items]
        simp [written, opened, hw]
      rw [feed_right_cons kind, List.append_assoc, List.cons_append]
      exact reads.add list
  · rw [feed_leaf leaf]
    exact h.add (by simp [written, hw, Tree.written])

end Partial

/-! ## Forms -/

namespace Script

open Partial

variable {limit : Nat} {p p' : Partial} {before tokens : List Token} {trees : List Tree}

theorem formsOf_append (limit : Nat) (p : Partial) (tokens more : List Token) :
    formsOf limit p (tokens ++ more) =
      match formsOf limit p tokens with
      | (trees, .ok p') => (trees ++ (formsOf limit p' more).1, (formsOf limit p' more).2)
      | (trees, .error fault) => (trees, .error fault) := by
  induction tokens generalizing p with
  | nil => rfl
  | cons token tokens ih =>
    rw [List.cons_append, formsOf, formsOf]
    cases hf : feed limit p token with
    | more p₁ => exact ih p₁
    | fault fault => rfl
    | form tree =>
      simp only [ih []]
      cases formsOf limit [] tokens with
      | mk trees rest => cases rest <;> rfl

/-- The tokens of a text are those of its forms, followed by those of the lists that are open at
its end. -/
theorem formsOf_reads (h : p.Reads before) (hf : formsOf limit p tokens = (trees, .ok p')) :
    ∃ done rest, before ++ tokens = done ++ rest ∧ written done = Tree.writtenAll trees ∧
      p'.Reads rest := by
  induction tokens generalizing p before trees with
  | nil =>
    cases hf
    exact ⟨[], before, List.append_nil before, rfl, h⟩
  | cons token tokens ih =>
    have fed : (feed limit p token).Reads (before ++ [token]) := h.feed token
    rw [formsOf] at hf
    cases hr : feed limit p token with
    | fault fault =>
      rw [hr] at hf
      cases hf
    | more p₁ =>
      rw [hr] at hf fed
      obtain ⟨done, rest, same, forms, reads⟩ := ih fed hf
      exact ⟨done, rest, by simpa using same, forms, reads⟩
    | form tree =>
      rw [hr] at hf fed
      cases hl : formsOf limit [] tokens with
      | mk later outcome =>
        simp only [hl] at hf
        cases hf
        -- All that was read before belongs to the form; reading goes on with no list open.
        obtain ⟨done, rest, same, forms, reads⟩ := ih .nil hl
        refine ⟨before ++ [token] ++ done, rest, ?_, ?_, reads⟩
        · simpa using same
        · rw [written_append, forms, Tree.writtenAll]
          exact congrArg (· ++ _) fed

/-- Where a tree is finished, reading goes on with as many lists open. -/
theorem formsOf_cons_of_add {token : Token} {tree : Tree} {q : Partial}
    (hf : feed limit p token = add tree q)
    (later : ∀ r : Partial, r.length = q.length → ∃ trees p', formsOf limit r tokens =
      (trees, .ok p')) :
    ∃ trees p', formsOf limit p (token :: tokens) = (trees, .ok p') := by
  rw [formsOf, hf]
  cases q with
  | nil =>
    obtain ⟨trees, p', h⟩ := later [] rfl
    exact ⟨tree :: trees, p', by simp only [add, h]⟩
  | cons inner outer => exact later _ rfl

/-- Tokens that close no list too many, and have not too many open at a time, are read without a
fault. -/
theorem formsOf_of_properFrom (proper : ProperFrom p.length (written tokens))
    (within : WithinFrom limit p.length (written tokens)) :
    ∃ trees p', formsOf limit p tokens = (trees, .ok p') := by
  induction tokens generalizing p with
  | nil => exact ⟨[], p, rfl⟩
  | cons token tokens ih =>
    rw [written, List.map_cons] at proper within
    rcases token.written_cases with ⟨kind, hw⟩ | ⟨kind, hw⟩ | ⟨leaf, hw⟩
    · rw [hw] at proper within
      obtain ⟨room, within⟩ := withinFrom_opening within
      rw [formsOf, feed_left kind, if_pos room]
      exact ih (p := ⟨token.line, []⟩ :: p) (properFrom_opening.1 proper) within
    · rw [hw] at proper within
      cases p with
      | nil => exact absurd proper not_properFrom_closing
      | cons inner outer =>
        refine formsOf_cons_of_add (feed_right_cons kind inner) fun r hr => ih ?_ ?_
        · rw [hr]
          exact properFrom_closing.1 proper
        · rw [hr]
          exact withinFrom_closing within
    · rw [hw] at proper within
      refine formsOf_cons_of_add (feed_leaf leaf) fun r hr => ih ?_ ?_
      · rw [hr]
        exact properFrom_leaf.1 proper
      · rw [hr]
        exact withinFrom_leaf within

end Script

/-! ## Unmatched parentheses -/

/-- A left parenthesis that is never closed by the tokens after it. -/
structure Unmatched (paren : Token) (after : List Token) : Prop where
  kind : paren.kind = .leftParen
  proper : Proper (written after)

theorem written_of_left {paren : Token} (h : paren.kind = .leftParen) :
    paren.written = .opening := by
  rw [Token.written, h]

theorem written_append_left {before after : List Token} {paren : Token}
    (h : paren.kind = .leftParen) :
    written (before ++ paren :: after) = written before ++ .opening :: written after := by
  rw [written_append, written_cons, written_of_left h]

/-- In balanced tokens every left parenthesis is closed. -/
theorem Balanced.not_unmatched {before after : List Token} {paren : Token}
    (h : Balanced (written (before ++ paren :: after))) : ¬ Unmatched paren after := by
  rintro ⟨kind, proper⟩
  have equal := h.equal
  have first := h.proper (written before) (by rw [written_append]; exact List.prefix_append _ _)
  have second := proper (written after) List.prefix_rfl
  rw [written_append_left kind, opens_append, closes_append, opens_cons, closes_cons] at equal
  simp only [Written.isOpening, Written.isClosing, if_true, Bool.false_eq_true, if_false] at equal
  omega

namespace Partial

variable {p : Partial} {rest : List Token}

/-- There are as many lists open as there are left parentheses too many. -/
theorem Reads.length (h : p.Reads rest) :
    opens (written rest) = closes (written rest) + p.length := by
  induction h with
  | nil => rfl
  | @cons outer inner before after paren reads kind line items ih =>
    have inside := Tree.opens_writtenAll inner.items.reverse
    rw [← items] at inside
    rw [written_append_left kind, opens_append, closes_append, opens_cons, closes_cons, ih, inside,
      List.length_cons]
    simp only [Written.isOpening, Written.isClosing, if_true, Bool.false_eq_true, if_false]
    omega

/-- What the open lists hold begins with a left parenthesis that is not closed. -/
theorem Reads.first (h : p.Reads rest) (hp : p ≠ []) :
    ∃ first inside, rest = first :: inside ∧ Unmatched first inside := by
  induction h with
  | nil => exact absurd rfl hp
  | @cons outer inner before after paren reads kind line items ih =>
    have proper : Proper (written after) := by
      rw [items]
      exact (Tree.balanced_writtenAll _).proper
    cases reads with
    | nil => exact ⟨paren, after, rfl, kind, proper⟩
    | cons reads kind' line' items' =>
      obtain ⟨first, inside, same, unmatched⟩ := ih (by simp)
      refine ⟨first, inside ++ paren :: after, by rw [same]; rfl, unmatched.kind, ?_⟩
      have opened : ProperFrom 0 (.opening :: written after) := by
        rw [properFrom_opening]
        intro front hf
        have := proper front hf
        omega
      rw [proper_iff, written_append_left kind]
      exact ((proper_iff _).1 unmatched.proper).append opened

/-- The innermost open list is that of the last left parenthesis that is not closed. -/
theorem Reads.last {inner : OpenList} {outer : Partial} (h : Reads (inner :: outer) rest) :
    ∃ before last after, rest = before ++ last :: after ∧ inner.line = last.line ∧
      Unmatched last after ∧ ∀ a paren b, after = a ++ paren :: b → ¬ Unmatched paren b := by
  cases h with
  | @cons _ _ before after paren reads kind line items =>
    have balanced : Balanced (written after) := by
      rw [items]
      exact Tree.balanced_writtenAll _
    refine ⟨before, paren, after, rfl, line, ⟨kind, balanced.proper⟩, ?_⟩
    rintro a paren' b rfl
    exact balanced.not_unmatched

end Partial

/-! ## Three outcomes -/

namespace Script

variable {limit : Nat} {tokens : List Token}

/-- Balanced tokens are the forms that they are read into. -/
theorem formsOf_of_balanced (h : Balanced (written tokens))
    (within : WithinFrom limit 0 (written tokens)) :
    ∃ trees, formsOf limit [] tokens = (trees, .ok []) ∧
      Tree.writtenAll trees = written tokens := by
  obtain ⟨trees, p, hf⟩ := formsOf_of_properFrom (p := []) ((proper_iff _).1 h.proper) within
  obtain ⟨done, rest, same, forms, reads⟩ := formsOf_reads .nil hf
  rw [List.nil_append] at same
  have count := reads.length
  have equal := h.equal
  have closed := Tree.opens_writtenAll trees
  rw [same, written_append, opens_append, closes_append, forms] at equal
  obtain rfl : p = [] := by
    rw [← List.length_eq_zero_iff]
    omega
  cases reads
  exact ⟨trees, hf, by rw [same, List.append_nil, forms]⟩

/-- Improper tokens have a first right parenthesis that closes no list. -/
theorem exists_stray (h : ¬ Proper (written tokens)) :
    ∃ before stray after, tokens = before ++ stray :: after ∧ Proper (written before) ∧
      opens (written (before ++ [stray])) < closes (written (before ++ [stray])) := by
  induction tokens using List.reverseRecOn with
  | nil => exact absurd (Tree.balanced_writtenAll []).proper h
  | append_singleton tokens last ih =>
    by_cases proper : Proper (written tokens)
    · refine ⟨tokens, last, [], rfl, proper, Nat.lt_of_not_le fun enough => h fun front hf => ?_⟩
      rw [written_append] at hf enough
      rcases List.prefix_concat_iff.1 hf with rfl | inside
      · exact enough
      · exact proper front inside
    · obtain ⟨before, stray, after, rfl, first, more⟩ := ih proper
      exact ⟨before, stray, after ++ [last], by simp, first, more⟩

/-- What makes tokens improper is a right parenthesis after balanced ones. -/
theorem closing_of_stray {before : List Token} {stray : Token} (proper : Proper (written before))
    (more : opens (written (before ++ [stray])) < closes (written (before ++ [stray]))) :
    stray.kind = .rightParen ∧ Balanced (written before) := by
  have enough := proper (written before) List.prefix_rfl
  rw [written_append, opens_append, closes_append, written_cons] at more
  rcases stray.written_cases with ⟨-, hw⟩ | ⟨kind, hw⟩ | ⟨-, hw⟩
  · have counts : opens (written before) + 1 < closes (written before) := by
      simpa [hw, written_nil] using more
    omega
  · have counts : opens (written before) < closes (written before) + 1 := by
      simpa [hw, written_nil] using more
    exact ⟨kind, proper, by omega⟩
  · have counts : opens (written before) < closes (written before) := by
      simpa [hw, written_nil] using more
    omega

/-- Improper tokens are read up to the first right parenthesis that closes no list, which is the
fault. -/
theorem formsOf_of_not_proper (h : ¬ Proper (written tokens))
    (within : WithinFrom limit 0 (written tokens)) :
    ∃ before stray after trees, tokens = before ++ stray :: after ∧ Proper (written before) ∧
      opens (written (before ++ [stray])) < closes (written (before ++ [stray])) ∧
      formsOf limit [] tokens = (trees, .error (.strayParen stray.line)) ∧
      Tree.writtenAll trees = written before := by
  obtain ⟨before, stray, after, rfl, proper, more⟩ := exists_stray h
  obtain ⟨kind, balanced⟩ := closing_of_stray proper more
  rw [written_append] at within
  obtain ⟨trees, hf, forms⟩ := formsOf_of_balanced balanced within.of_append
  have stop : formsOf limit [] (stray :: after) = ([], .error (.strayParen stray.line)) := by
    rw [formsOf, Partial.feed_right_nil kind]
  refine ⟨before, stray, after, trees, rfl, proper, more, ?_, forms⟩
  rw [formsOf_append, hf]
  simp only [stop, List.append_nil]

/-- Tokens that leave lists open are read to their end. -/
theorem formsOf_of_unclosed (h : Proper (written tokens))
    (unequal : opens (written tokens) ≠ closes (written tokens))
    (within : WithinFrom limit 0 (written tokens)) :
    ∃ trees inner outer done rest, formsOf limit [] tokens = (trees, .ok (inner :: outer)) ∧
      tokens = done ++ rest ∧ Tree.writtenAll trees = written done ∧
      Partial.Reads (inner :: outer) rest := by
  obtain ⟨trees, p, hf⟩ := formsOf_of_properFrom (p := []) ((proper_iff _).1 h) within
  obtain ⟨done, rest, same, forms, reads⟩ := formsOf_reads .nil hf
  rw [List.nil_append] at same
  cases p with
  | nil =>
    cases reads
    rw [same, List.append_nil, forms] at unequal
    exact absurd (Tree.opens_writtenAll trees) unequal
  | cons inner outer => exact ⟨trees, inner, outer, done, rest, hf, same, forms.symm, reads⟩

end Script

end Lisplet
