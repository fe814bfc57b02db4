import Lisplet.Environment
import Lisplet.Proofs.Alike
import Lisplet.Proofs.Brackets
import Lisplet.Proofs.Frame
import Lisplet.Proofs.Row

/-!
# Well-formed data

What programs and their values look like, once they come from the reader and from evaluation.  No
parenthesis is left in a tree, and identifiers have the text of identifiers (`Tree.WellFormed`).  No
list is among the values that can be reached from a well-formed one, and every closure that can be
reached has identifiers for formals, a well-formed body and a name of its own that is not reserved
(`Value.WellFormed`).  An environment is well-formed if the values in all its scopes are, and if no
reserved name is bound among the globals or being defined (`Environment.WellFormed`).  All forms
that are read from a text are well-formed (`Script.wellFormed_ofText`).
-/

namespace Lisplet

/-! ## Trees -/

/-- A token as the reader leaves it in a tree. -/
structure Token.WellFormed (token : Token) : Prop where
  leaf : token.isParen = false
  identifier : ∀ name, token.kind = .identifier name → isIdentifierText name.toList = true

def Tree.WellFormed (tree : Tree) : Prop := ∀ token ∈ tree.leaves, token.WellFormed

theorem Tree.wellFormed_leaf {token : Token} :
    (Tree.leaf token).WellFormed ↔ token.WellFormed := by
  simp [Tree.WellFormed, leaves]

theorem Tree.wellFormed_list {items : List Tree} :
    (Tree.list items).WellFormed ↔ ∀ item ∈ items, item.WellFormed := Tree.forall_mem_leaves_list

/-- A token that was scanned and is no parenthesis may stand in a tree. -/
theorem Token.wellFormed_of_ofLexeme {text : List Char} {line : Nat} {token : Token}
    (h : ofLexeme text line = .ok token) (leaf : token.isParen = false) : token.WellFormed := by
  refine ⟨leaf, fun name kind => ?_⟩
  unfold ofLexeme at h
  split_ifs at h with left right string boolean identifier symbol numeral
  · cases h
    cases kind
  · cases h
    cases kind
  · cases h
    cases kind
  · unfold booleanOfLexeme at h
    split_ifs at h <;> cases h <;> cases kind
  · cases h
    cases kind
    rwa [String.toList_ofList]
  · cases h
    cases kind
  · unfold numberOfLexeme at h
    cases hr : Binary64.read? text with
    | none => simp [hr] at h
    | some x =>
      rw [hr] at h
      cases h
      cases kind

/-! ## Reading -/

/-- The items of all open lists are well-formed. -/
def Partial.WellFormed (p : Partial) : Prop := ∀ list ∈ p, ∀ item ∈ list.items, item.WellFormed

/-- What a token makes of open lists is well-formed. -/
def Fed.WellFormed : Fed → Prop
  | .more p => p.WellFormed
  | .form tree => tree.WellFormed
  | .fault _ => True

theorem Partial.wellFormed_nil : Partial.WellFormed [] := by simp [WellFormed]

theorem Partial.WellFormed.add {p : Partial} (h : p.WellFormed) {tree : Tree}
    (ht : tree.WellFormed) : (Partial.add tree p).WellFormed := by
  cases p with
  | nil => exact ht
  | cons inner outer =>
    obtain ⟨first, rest⟩ := List.forall_mem_cons.1 h
    exact List.forall_mem_cons.2 ⟨List.forall_mem_cons.2 ⟨ht, first⟩, rest⟩

theorem Partial.WellFormed.feed {limit : Nat} {p : Partial} (h : p.WellFormed) {token : Token}
    (ht : token.isParen = false → token.WellFormed) : (p.feed limit token).WellFormed := by
  rcases token.written_cases with ⟨kind, -⟩ | ⟨kind, -⟩ | ⟨leaf, -⟩
  · rw [feed_left kind]
    split_ifs
    · exact List.forall_mem_cons.2 ⟨by simp, h⟩
    · trivial
  · cases p with
    | nil =>
      rw [feed_right_nil kind]
      trivial
    | cons inner outer =>
      obtain ⟨first, rest⟩ := List.forall_mem_cons.1 h
      rw [feed_right_cons kind]
      refine WellFormed.add rest (Tree.wellFormed_list.2 fun item mem => ?_)
      exact first item (List.mem_reverse.1 mem)
  · rw [feed_leaf leaf]
    exact h.add (Tree.wellFormed_leaf.2 (ht leaf))

namespace Script

variable {limit : Nat} {p : Partial}

/-- All forms of a script are well-formed. -/
def WellFormed (script : Script) : Prop := ∀ tree, .form tree ∈ script → tree.WellFormed

theorem formsOf_wellFormed (limit : Nat) (h : p.WellFormed) {tokens : List Token}
    (ht : ∀ token ∈ tokens, token.isParen = false → token.WellFormed) :
    (∀ tree ∈ (formsOf limit p tokens).1, tree.WellFormed) ∧
      ∀ p', (formsOf limit p tokens).2 = .ok p' → p'.WellFormed := by
  induction tokens generalizing p with
  | nil =>
    refine ⟨by simp [formsOf], fun p' hp => ?_⟩
    cases hp
    exact h
  | cons token tokens ih =>
    obtain ⟨first, rest⟩ := List.forall_mem_cons.1 ht
    have fed : (p.feed limit token).WellFormed := h.feed first
    rw [formsOf]
    cases hf : p.feed limit token with
    | more p₁ =>
      rw [hf] at fed
      exact ih fed rest
    | fault fault => exact ⟨by simp, fun p' hp => by cases hp⟩
    | form tree =>
      rw [hf] at fed
      obtain ⟨trees, later⟩ := ih Partial.wellFormed_nil rest
      exact ⟨List.forall_mem_cons.2 ⟨fed, trees⟩, later⟩

theorem ofRowsFrom_wellFormed (h : p.WellFormed) (line : Nat) (rows : List (List Char)) :
    (ofRowsFrom limit p line rows).WellFormed := by
  induction rows generalizing p line with
  | nil =>
    intro tree mem
    cases p <;> simp [ofRowsFrom, endEvents] at mem
  | cons row rows ih =>
    intro tree mem
    have scanned : ∀ token ∈ (scanRow line row).1, token.isParen = false → token.WellFormed := by
      intro token mem
      obtain ⟨text, -, read⟩ := exists_lexeme_of_mem_scanPieces mem
      exact Token.wellFormed_of_ofLexeme read
    rw [ofRowsFrom] at mem
    rcases List.mem_append.1 mem with own | mem
    · unfold rowEvents at own
      split_ifs at own <;> simp at own
    cases hs : scanRow line row with
    | mk tokens fault =>
      rw [hs] at mem scanned
      cases fault with
      | some fault => simp at mem
      | none =>
        obtain ⟨forms, rest⟩ := formsOf_wellFormed limit h scanned
        dsimp only at mem
        cases hf : formsOf limit p tokens with
        | mk trees outcome =>
          rw [hf] at mem forms rest
          cases outcome with
          | error fault =>
            have inside : tree ∈ trees := by simpa using mem
            exact forms tree inside
          | ok p' =>
            rcases List.mem_append.1 mem with inside | later
            · exact forms tree (by simpa using inside)
            · exact ih (rest p' rfl) (line + 1) tree later

/-- All forms that are read from a text are well-formed. -/
theorem wellFormed_ofText (limit : Nat) (text : String) : (ofText limit text).WellFormed :=
  ofRowsFrom_wellFormed Partial.wellFormed_nil 0 _

end Script

/-! ## Values -/

namespace Value

/-- What a value by itself has to be. -/
def Proper : Value → Prop
  | list _ => False
  | closure c =>
    (∀ formal ∈ c.formals, isIdentifierText formal.toList = true) ∧ c.body.WellFormed ∧
      ∀ name, c.selfName = some name → isReserved name = false
  | _ => True

/-- All that can be reached from a value is proper. -/
def WellFormed (v : Value) : Prop := ∀ part, v.Reaches part → part.Proper

theorem wellFormed_null : WellFormed .null := by
  rintro part ⟨⟩
  trivial

theorem wellFormed_boolean (b : Bool) : WellFormed (.boolean b) := by
  rintro part ⟨⟩
  trivial

theorem wellFormed_number (x : Number) : WellFormed (.number x) := by
  rintro part ⟨⟩
  trivial

theorem wellFormed_string (text : String) : WellFormed (.string text) := by
  rintro part ⟨⟩
  trivial

theorem wellFormed_primitive (p : Primitive) : WellFormed (.primitive p) := by
  rintro part ⟨⟩
  trivial

/-- What a token stands for by itself is well-formed. -/
theorem wellFormed_of_ofToken? {token : Token} {v : Value} (h : ofToken? token = some v) :
    v.WellFormed := by
  unfold ofToken? at h
  split at h
  · cases h
    exact wellFormed_string _
  · cases h
    exact wellFormed_number _
  · cases h
    exact wellFormed_boolean _
  · cases h

end Value

/-- All values of a scope are well-formed. -/
def Scope.WellFormed (s : Scope Value) : Prop := ∀ name v, s.get? name = some v → v.WellFormed

theorem Scope.WellFormed.set {s : Scope Value} (h : s.WellFormed) {v : Value} (hv : v.WellFormed)
    (name : String) : (s.set name v).WellFormed := by
  intro key w get
  rw [Scope.get?_set] at get
  split_ifs at get
  · cases get
    exact hv
  · exact h key w get

theorem Value.wellFormed_closure {c : Closure Value} :
    (Value.closure c).WellFormed ↔ (Value.closure c).Proper ∧ c.captured.WellFormed := by
  constructor
  · intro h
    exact ⟨h _ (.refl _), fun name v get part reaches => h part (.captured get reaches)⟩
  · rintro ⟨proper, captured⟩ part reaches
    cases reaches with
    | refl => exact proper
    | captured get inside => exact captured _ _ get part inside

namespace Closure

variable {c : Closure Value} {arguments : List Value}

theorem bindFormals_wellFormed (formals : List String) (hv : ∀ v ∈ arguments, v.WellFormed)
    {scope : Scope Value} (h : scope.WellFormed) :
    (bindFormals formals arguments scope).WellFormed := by
  induction formals generalizing arguments scope with
  | nil => exact h
  | cons name names ih =>
    cases arguments with
    | nil => exact ih (by simp) (h.set Value.wellFormed_null name)
    | cons value values =>
      obtain ⟨first, rest⟩ := List.forall_mem_cons.1 hv
      exact ih rest (h.set first name)

/-- The local scope of a call is well-formed. -/
theorem bindings_wellFormed (h : (Value.closure c).WellFormed)
    (hv : ∀ v ∈ arguments, v.WellFormed) : (c.bindings arguments).WellFormed := by
  have captured := (Value.wellFormed_closure.1 h).2
  refine bindFormals_wellFormed c.formals hv ?_
  unfold selfScope
  cases c.selfName with
  | none => exact captured
  | some name => exact captured.set h name

end Closure

/-! ## Environments -/

namespace Environment

/-- The values that can be got from an environment, through any of its scopes. -/
def Reaches (env : Environment) (part : Value) : Prop :=
  ∃ scope ∈ env.globals :: env.locals, ∃ name v, scope.get? name = some v ∧ v.Reaches part

structure WellFormed (env : Environment) : Prop where
  scopes : ∀ scope ∈ env.globals :: env.locals, scope.WellFormed
  globals : ∀ name, isReserved name = true → env.globals.has name = false
  defining : ∀ name, env.defining = some name → isReserved name = false

variable {env : Environment}

theorem WellFormed.proper (h : env.WellFormed) {part : Value} (reaches : env.Reaches part) :
    part.Proper := by
  obtain ⟨scope, mem, name, v, get, inside⟩ := reaches
  exact h.scopes scope mem name v get part inside

theorem WellFormed.active (h : env.WellFormed) : env.active.WellFormed := by
  obtain ⟨globals, locals, defining⟩ := env
  cases locals with
  | nil => exact h.scopes globals (by simp)
  | cons top rest => exact h.scopes top (by simp)

theorem WellFormed.get? (h : env.WellFormed) {name : String} {v : Value}
    (get : env.get? name = some v) : v.WellFormed := by
  unfold Environment.get? at get
  cases ha : env.active.get? name with
  | some w =>
    rw [ha] at get
    cases get
    exact h.active name _ ha
  | none =>
    rw [ha] at get
    exact h.scopes env.globals (by simp) name v get

theorem WellFormed.push (h : env.WellFormed) {scope : Scope Value} (hs : scope.WellFormed) :
    (env.push scope).WellFormed := by
  obtain ⟨first, rest⟩ := List.forall_mem_cons.1 h.scopes
  exact ⟨List.forall_mem_cons.2 ⟨first, List.forall_mem_cons.2 ⟨hs, rest⟩⟩, h.globals, h.defining⟩

theorem WellFormed.pop (h : env.WellFormed) : env.pop.WellFormed := by
  obtain ⟨first, rest⟩ := List.forall_mem_cons.1 h.scopes
  refine ⟨List.forall_mem_cons.2 ⟨first, fun scope mem => ?_⟩, h.globals, h.defining⟩
  exact rest scope (List.mem_of_mem_tail mem)

/-- Setting a name that is not reserved keeps an environment well-formed. -/
theorem WellFormed.set (h : env.WellFormed) {name : String} (unreserved : isReserved name = false)
    {v : Value} (hv : v.WellFormed) : (env.set name v).WellFormed := by
  obtain ⟨globals, locals, defining⟩ := env
  obtain ⟨first, rest⟩ := List.forall_mem_cons.1 h.scopes
  cases locals with
  | nil =>
    refine ⟨List.forall_mem_cons.2 ⟨first.set hv name, rest⟩, fun key reserved => ?_, h.defining⟩
    have other : key ≠ name := by
      rintro rfl
      rw [reserved] at unreserved
      cases unreserved
    have unbound := h.globals key reserved
    show (globals.set name v).has key = false
    rw [Scope.has] at unbound ⊢
    rwa [Scope.get?_set, if_neg other]
  | cons top more =>
    obtain ⟨second, others⟩ := List.forall_mem_cons.1 rest
    exact ⟨List.forall_mem_cons.2 ⟨first, List.forall_mem_cons.2 ⟨second.set hv name, others⟩⟩,
      h.globals, h.defining⟩

theorem WellFormed.begin (h : env.WellFormed) {name : String}
    (unreserved : isReserved name = false) :
    WellFormed { env with defining := some name } := by
  refine ⟨h.scopes, h.globals, fun current same => ?_⟩
  cases same
  exact unreserved

theorem WellFormed.endDefine (h : env.WellFormed) : env.endDefine.WellFormed :=
  ⟨h.scopes, h.globals, fun _ none => by cases none⟩

/-- The constants that every program starts with are numbers under names that are not reserved. -/
theorem wellFormed_initial : initial.WellFormed := by
  have names (name : String) (v : Value) (get : constants.get? name = some v) :
      (name = "PI" ∨ name = "E") ∧ ∃ x, v = .number x := by
    simp only [constants, Scope.get?, Scope.find?] at get
    split_ifs at get with first second
    · cases get
      exact ⟨.inl first.symm, _, rfl⟩
    · cases get
      exact ⟨.inr second.symm, _, rfl⟩
  refine ⟨?_, fun name reserved => ?_, fun _ none => by cases none⟩
  · refine List.forall_mem_cons.2 ⟨fun name v get => ?_, by simp [initial]⟩
    obtain ⟨-, x, rfl⟩ := names name v get
    exact Value.wellFormed_number x
  · rw [Scope.has, Option.isSome_eq_false_iff, Option.isNone_iff_eq_none]
    cases get : initial.globals.get? name with
    | none => rfl
    | some v =>
      obtain ⟨rfl | rfl, -⟩ := names name v get
      · cases reserved
      · cases reserved

end Environment

/-! ## Correspondence -/

/-- What is well-formed corresponds to itself. -/
def Correspondence.wellFormed : Correspondence where
  matching := .same
  tokens := Token.WellFormed
  values v w := v.WellFormed ∧ v = w
  environments e e' := e.WellFormed ∧ e = e'
  faithful := Matching.same_faithful
  readable _ := Token.readable_ignoring fun _ _ => .inr id
  alike := by
    rintro v _ ⟨-, rfl⟩
    exact v.alike_same
  null := ⟨Value.wellFormed_null, rfl⟩
  boolean b := ⟨Value.wellFormed_boolean b, rfl⟩
  number {x y} value mark := by
    obtain ⟨value', mark'⟩ := x
    cases value
    cases mark
    exact ⟨Value.wellFormed_number _, rfl⟩
  primitive p := ⟨Value.wellFormed_primitive p, rfl⟩
  literal _ literal := ⟨Value.wellFormed_of_ofToken? literal, rfl⟩
  closure {e e' id id' formals body} environments marks identifiers tokens := by
    obtain ⟨wellFormed, rfl⟩ := environments
    cases marks
    refine ⟨Value.wellFormed_closure.2 ⟨⟨?_, tokens, wellFormed.defining⟩, wellFormed.active⟩, rfl⟩
    intro name mem
    obtain ⟨token, ht, kind⟩ := identifiers name mem
    exact ht.identifier name kind
  body h := (Value.wellFormed_closure.1 h.1).1.2.1
  has := by
    rintro e _ name ⟨-, rfl⟩ -
    rfl
  get? := by
    rintro e _ name ⟨wellFormed, rfl⟩ -
    cases get : e.get? name with
    | none => exact .none
    | some v => exact .some ⟨wellFormed.get? get, rfl⟩

theorem Correspondence.wellFormed_list {vs ws : List Value}
    (h : List.Forall₂ Correspondence.wellFormed.values vs ws) :
    (∀ v ∈ vs, v.WellFormed) ∧ vs = ws := by
  obtain ⟨values, same⟩ := (List.forall₂_and_left vs ws).1 h
  exact ⟨values, List.forall₂_eq_eq_eq ▸ same⟩

end Lisplet
