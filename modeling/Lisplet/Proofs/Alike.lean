import Lisplet.Eval.Fault
import Lisplet.Value.Equality
import Mathlib.Data.List.Forall2

/-!
# Values that look alike

Two runs of a program may hand out different marks, and they may bind names that the program never
looks at.  A `Matching` says which marks of the one run correspond to which marks of the other, and
which names count.  Two values are alike under a matching if they differ only so far
(`Value.Alike`): then they print the same, they are described in the same way, and comparing them
with alike values gives the same answer.  A value is like itself if the matching leaves alone all
that can be reached from it (`Value.alike_self`).
-/

namespace Lisplet

/-- The marks of two runs that correspond to each other, and the names that count. -/
structure Matching where
  marks : Nat → Nat → Prop
  names : String → Prop

variable {M : Matching}

/-- Marks correspond one to one, and the shared mark corresponds to itself. -/
structure Matching.Faithful (M : Matching) : Prop where
  shared : M.marks Number.sharedMark Number.sharedMark
  unique : ∀ {a a' b b'}, M.marks a b → M.marks a' b' → (a = a' ↔ b = b')

theorem Matching.Faithful.beq_eq (faithful : M.Faithful) {a a' b b' : Nat} (h : M.marks a b)
    (h' : M.marks a' b') : (a == a') = (b == b') := by
  rw [Bool.eq_iff_iff, beq_iff_eq, beq_iff_eq]
  exact faithful.unique h h'

/-- Both runs hand out the same marks, and all names count but those that are ignored. -/
def Matching.ignoring (ignored : String → Prop) : Matching where
  marks := Eq
  names name := ¬ ignored name

theorem Matching.ignoring_faithful (ignored : String → Prop) : (ignoring ignored).Faithful where
  shared := rfl
  unique := by
    rintro a a' _ _ rfl rfl
    exact Iff.rfl

/-- Both runs hand out the same marks, and all names count. -/
def Matching.same : Matching := .ignoring fun _ => False

theorem Matching.same_faithful : Matching.same.Faithful := ignoring_faithful _

/-- A token that means the same in both runs: the name counts, unless it is reserved, and the mark
of a number corresponds to itself. -/
def Token.Readable (M : Matching) (token : Token) : Prop :=
  match token.kind with
  | .identifier name | .symbol name => isReserved name = true ∨ M.names name
  | .number x => M.marks x.mark x.mark
  | _ => True

theorem Token.Readable.counts {token : Token} (h : token.Readable M) {name : String}
    (hn : token.name = .ok name) (unreserved : ¬ isReserved name = true) : M.names name := by
  cases hk : token.kind with
  | identifier key | symbol key =>
    simp only [Token.Readable, hk] at h
    simp only [Token.name, hk, Except.ok.injEq] at hn
    rw [← hn] at unreserved ⊢
    exact h.resolve_left unreserved
  | _ => simp [Token.name, hk] at hn

def Tree.Readable (M : Matching) (tree : Tree) : Prop := ∀ token ∈ tree.leaves, token.Readable M

theorem Tree.mem_leavesAll {token : Token} {trees : List Tree} :
    token ∈ leavesAll trees ↔ ∃ tree ∈ trees, token ∈ tree.leaves := by
  induction trees with
  | nil => simp [leavesAll]
  | cons tree trees ih => simp [leavesAll, ih]

/-- What holds of all leaves of a list holds of all leaves of its items. -/
theorem Tree.forall_mem_leaves_list {p : Token → Prop} {items : List Tree} :
    (∀ token ∈ (Tree.list items).leaves, p token) ↔
      ∀ item ∈ items, ∀ token ∈ item.leaves, p token := by
  simp only [leaves, mem_leavesAll]
  constructor
  · intro h item mem token inside
    exact h token ⟨item, mem, inside⟩
  · rintro h token ⟨item, mem, inside⟩
    exact h item mem token inside

theorem Token.readable_ignoring {ignored : String → Prop} {token : Token}
    (h : ∀ name, token.name = .ok name → isReserved name = true ∨ ¬ ignored name) :
    token.Readable (.ignoring ignored) := by
  cases kind : token.kind with
  | identifier name | symbol name =>
    simp only [Token.Readable, kind]
    exact h name (by simp [Token.name, kind])
  | number x =>
    simp only [Token.Readable, kind]
    rfl
  | _ => simp [Token.Readable, kind]

/-- A tree is readable if all its names are reserved or count. -/
theorem Tree.readable_ignoring {ignored : String → Prop} {tree : Tree}
    (h : ∀ token ∈ tree.leaves, ∀ name, token.name = .ok name →
      isReserved name = true ∨ ¬ ignored name) : tree.Readable (.ignoring ignored) :=
  fun token mem => Token.readable_ignoring (h token mem)

namespace Value

/-- Values that differ in their marks, and in what closures hold under names that do not count. -/
inductive Alike (M : Matching) : Value → Value → Prop where
  | null : Alike M .null .null
  | boolean (b : Bool) : Alike M (.boolean b) (.boolean b)
  | number {x y : Number} (value : x.value = y.value) (mark : M.marks x.mark y.mark) :
      Alike M (.number x) (.number y)
  | string (text : String) : Alike M (.string text) (.string text)
  | list {xs ys : List Value} (items : List.Forall₂ (Alike M) xs ys) :
      Alike M (.list xs) (.list ys)
  | primitive (p : Primitive) : Alike M (.primitive p) (.primitive p)
  | closure {c d : Closure Value} (id : M.marks c.id d.id) (formals : c.formals = d.formals)
      (body : c.body = d.body) (readable : c.body.Readable M) (selfName : c.selfName = d.selfName)
      (captured : ∀ name, M.names name →
        Option.Rel (Alike M) (c.captured.get? name) (d.captured.get? name)) :
      Alike M (.closure c) (.closure d)

end Value

/-- What a readable token stands for is like itself. -/
theorem Token.Readable.alike {token : Token} (h : token.Readable M) {v : Value}
    (hv : Value.ofToken? token = some v) : v.Alike M v := by
  cases hk : token.kind with
  | string text =>
    simp only [Value.ofToken?, hk, Option.some.injEq] at hv
    rw [← hv]
    exact .string text
  | boolean b =>
    simp only [Value.ofToken?, hk, Option.some.injEq] at hv
    rw [← hv]
    exact .boolean b
  | number x =>
    simp only [Value.ofToken?, hk, Option.some.injEq] at hv
    simp only [Token.Readable, hk] at h
    rw [← hv]
    exact .number rfl h
  | _ => simp [Value.ofToken?, hk] at hv

/-- Scopes that bind the names that count to alike values. -/
def Scope.Alike (M : Matching) (s t : Scope Value) : Prop :=
  ∀ name, M.names name → Option.Rel (Value.Alike M) (s.get? name) (t.get? name)

theorem Scope.Alike.set {s t : Scope Value} (h : s.Alike M t) {v w : Value} (hv : v.Alike M w)
    (name : String) : (s.set name v).Alike M (t.set name w) := by
  intro key counts
  rw [Scope.get?_set, Scope.get?_set]
  by_cases same : key = name
  · rw [if_pos same, if_pos same]
    exact .some hv
  · rw [if_neg same, if_neg same]
    exact h key counts

theorem Scope.Alike.has {s t : Scope Value} (h : s.Alike M t) {name : String}
    (counts : M.names name) : s.has name = t.has name := by
  have bound := h name counts
  unfold Scope.has
  generalize s.get? name = a, t.get? name = b at bound
  cases bound <;> rfl

namespace Closure

variable {c d : Closure Value} {vs ws : List Value}

theorem bindFormals_alike (formals : List String) (hv : List.Forall₂ (Value.Alike M) vs ws)
    {s t : Scope Value} (h : s.Alike M t) :
    (bindFormals formals vs s).Alike M (bindFormals formals ws t) := by
  induction formals generalizing vs ws s t with
  | nil => exact h
  | cons name names ih =>
    cases hv with
    | nil => exact ih .nil (h.set .null name)
    | cons first rest => exact ih rest (h.set first name)

/-- Alike closures that are called with alike arguments start from alike scopes. -/
theorem bindings_alike (h : (Value.closure c).Alike M (.closure d))
    (hv : List.Forall₂ (Value.Alike M) vs ws) : (c.bindings vs).Alike M (d.bindings ws) := by
  have self := h
  cases h with
  | closure id formals body readable selfName captured =>
    have start : c.selfScope.Alike M d.selfScope := by
      unfold selfScope
      rw [← selfName]
      cases c.selfName with
      | none => exact captured
      | some name => exact Scope.Alike.set captured self name
    unfold bindings
    rw [← formals]
    exact bindFormals_alike c.formals hv start

theorem display_eq (formals : c.formals = d.formals) (selfName : c.selfName = d.selfName) :
    c.display = d.display := by
  unfold display
  rw [formals, selfName]

end Closure

/-! ## What programs and messages show -/

namespace Value

variable {v w v' w' : Value}

theorem Alike.typeName_eq (h : v.Alike M w) : v.typeName = w.typeName := by
  cases h <;> rfl

theorem Alike.isCallable_eq (h : v.Alike M w) : v.isCallable = w.isCallable := by
  cases h <;> rfl

theorem Alike.isLazy_eq (h : v.Alike M w) : v.isLazy = w.isLazy := by
  cases h <;> rfl

theorem Alike.isTrue_eq (h : v.Alike M w) : v.isTrue = w.isTrue := by
  cases h with
  | number value mark => simp only [isTrue, Number.isTrue, Number.isNaN, value]
  | _ => rfl

theorem Alike.asNumber?_eq (h : v.Alike M w) : v.asNumber? = w.asNumber? := by
  cases h with
  | number value mark => simp only [asNumber?, value]
  | _ => rfl

mutual

theorem display_eq : ∀ {v w : Value}, v.Alike M w → v.display = w.display
  | .null, _, h | .boolean _, _, h | .string _, _, h | .primitive _, _, h => by
    cases h
    rfl
  | .number x, _, h => by
    cases h with
    | number value mark => rw [display, display, value]
  | .list items, _, h => by
    cases h with
    | list items => rw [display, display, displays_eq items]
  | .closure c, _, h => by
    cases h with
    | closure id formals body readable selfName captured =>
      exact Closure.display_eq formals selfName

theorem displays_eq : ∀ {vs ws : List Value}, List.Forall₂ (Alike M) vs ws →
    displays vs = displays ws
  | [], _, h => by
    cases h
    rfl
  | v :: vs, _, h => by
    cases h with
    | cons first rest => rw [displays, displays, display_eq first, displays_eq rest]

end

mutual

theorem description_eq : ∀ {v w : Value}, v.Alike M w → v.description = w.description
  | .null, _, h | .boolean _, _, h | .string _, _, h | .primitive _, _, h => by
    cases h
    rfl
  | .number x, _, h => by
    cases h with
    | number value mark => rw [description, description, value]
  | .list items, _, h => by
    cases h with
    | list items => rw [description, description, descriptions_eq items]
  | .closure c, _, h => by
    cases h with
    | closure id formals body readable selfName captured =>
      exact Closure.display_eq formals selfName

theorem descriptions_eq : ∀ {vs ws : List Value}, List.Forall₂ (Alike M) vs ws →
    descriptions vs = descriptions ws
  | [], _, h => by
    cases h
    rfl
  | v :: vs, _, h => by
    cases h with
    | cons first rest => rw [descriptions, descriptions, description_eq first, descriptions_eq rest]

end

/-! ## Comparing -/

theorem same_eq (faithful : M.Faithful) {x x' y y' : Number} (hx : x.value = x'.value)
    (mx : M.marks x.mark x'.mark) (hy : y.value = y'.value) (my : M.marks y.mark y'.mark) :
    x.same y = x'.same y' := by
  simp only [Number.same, Number.isNaN, hx, hy, faithful.beq_eq mx my]

mutual

theorem strictlyEqual_eq (faithful : M.Faithful) : ∀ {v v' w w' : Value}, v.Alike M v' →
    w.Alike M w' → strictlyEqual v w = strictlyEqual v' w'
  | .list items, _, _, _, hv, hw => by
    cases hv with
    | list hv =>
      cases hw with
      | list hw => rw [strictlyEqual, strictlyEqual, allStrictlyEqual_eq faithful hv hw]
      | _ => rfl
  | .null, _, _, _, hv, hw | .boolean _, _, _, _, hv, hw | .string _, _, _, _, hv, hw
  | .primitive _, _, _, _, hv, hw => by
    cases hv
    cases hw with
    | number value mark => simp only [strictlyEqual, value]
    | _ => rfl
  | .number x, _, _, _, hv, hw => by
    cases hv with
    | number value mark =>
      cases hw with
      | number value' mark' => exact same_eq faithful value mark value' mark'
      | boolean b => simp only [strictlyEqual, value]
      | _ => rfl
  | .closure c, _, _, _, hv, hw => by
    cases hv with
    | closure id =>
      cases hw with
      | closure id' => exact faithful.beq_eq id id'
      | _ => rfl

theorem allStrictlyEqual_eq (faithful : M.Faithful) : ∀ {vs vs' ws ws' : List Value},
    List.Forall₂ (Alike M) vs vs' → List.Forall₂ (Alike M) ws ws' →
    allStrictlyEqual vs ws = allStrictlyEqual vs' ws'
  | [], _, _, _, hv, hw => by
    cases hv
    cases hw <;> rfl
  | v :: vs, _, _, _, hv, hw => by
    cases hv with
    | cons first rest =>
      cases hw with
      | nil => rfl
      | cons first' rest' =>
        rw [allStrictlyEqual, allStrictlyEqual, strictlyEqual_eq faithful first first',
          allStrictlyEqual_eq faithful rest rest']

end

theorem looselyEqual_eq (faithful : M.Faithful) (hv : v.Alike M v') (hw : w.Alike M w') :
    looselyEqual v w = looselyEqual v' w' := by
  have numerically : numericallyEqual v w = numericallyEqual v' w' := by
    unfold numericallyEqual
    rw [hv.asNumber?_eq, hw.asNumber?_eq]
  cases hv with
  | boolean b => exact numerically
  | null | string text | primitive p =>
    cases hw with
    | null | string text' | primitive p' => rfl
    | _ => exact numerically
  | number value mark =>
    cases hw with
    | number value' mark' => exact same_eq faithful value mark value' mark'
    | _ => exact numerically
  | list items =>
    cases hw with
    | list items' => exact allStrictlyEqual_eq faithful items items'
    | _ => exact numerically
  | closure id =>
    cases hw with
    | closure id' => exact faithful.beq_eq id id'
    | _ => exact numerically

theorem allEqual_eq (faithful : M.Faithful) {vs ws : List Value}
    (h : List.Forall₂ (Alike M) vs ws) : allEqual vs = allEqual ws := by
  cases h with
  | nil => rfl
  | cons first rest =>
    rw [allEqual, allEqual]
    induction rest with
    | nil => rfl
    | cons next rest ih =>
      rw [List.all_cons, List.all_cons, ih, looselyEqual_eq faithful first next]

end Value

/-! ## Faults -/

/-- The value that a fault names. -/
def EvalFault.culprit? : EvalFault → Option Value
  | notFunction value _ | notApplicable value | notNumber _ value => some value
  | _ => none

/-- Faults that differ in the values that they name, which are alike. -/
inductive EvalFault.Alike (M : Matching) : EvalFault → EvalFault → Prop where
  | same {fault : EvalFault} (h : fault.culprit? = none) : Alike M fault fault
  | notFunction {v w : Value} (h : v.Alike M w) (line : Option Nat) :
      Alike M (.notFunction v line) (.notFunction w line)
  | notApplicable {v w : Value} (h : v.Alike M w) : Alike M (.notApplicable v) (.notApplicable w)
  | notNumber {v w : Value} (operation : Operation) (h : v.Alike M w) :
      Alike M (.notNumber operation v) (.notNumber operation w)

/-- Alike faults have the same message. -/
theorem EvalFault.Alike.message_eq {f g : EvalFault} (h : f.Alike M g) :
    f.message = g.message := by
  have lines : f.line? = g.line? := by
    cases h <;> rfl
  have texts : f.text = g.text := by
    cases h with
    | same => rfl
    | notFunction h line =>
      unfold text
      dsimp only
      rw [h.typeName_eq]
    | notApplicable h =>
      unfold text
      dsimp only
      rw [Value.description_eq h]
    | notNumber operation h =>
      unfold text
      dsimp only
      rw [Value.display_eq h]
  rw [message, message, lines, texts]

/-! ## Values that look like themselves -/

namespace Value

/-- The values that can be got from a value: the items of lists, and what closures hold. -/
inductive Reaches : Value → Value → Prop where
  | refl (v : Value) : Reaches v v
  | item {items : List Value} {v part : Value} (mem : v ∈ items) (h : Reaches v part) :
      Reaches (.list items) part
  | captured {c : Closure Value} {name : String} {v part : Value}
      (get : c.captured.get? name = some v) (h : Reaches v part) : Reaches (.closure c) part

/-- The matching leaves alone what a value itself is made of. -/
def Fixed (M : Matching) : Value → Prop
  | number x => M.marks x.mark x.mark
  | closure c => M.marks c.id c.id ∧ c.body.Readable M
  | _ => True

end Value

theorem Scope.sizeOf_get? {s : Scope Value} {name : String} {v : Value}
    (h : s.get? name = some v) : sizeOf v < sizeOf s := by
  obtain ⟨entries⟩ := s
  rw [get?] at h
  induction entries with
  | nil => cases h
  | cons entry rest ih =>
    obtain ⟨key, value⟩ := entry
    rw [find?] at h
    simp only [Scope.mk.sizeOf_spec, List.cons.sizeOf_spec, Prod.mk.sizeOf_spec] at ih ⊢
    split at h
    · cases h
      omega
    · have smaller := ih h
      omega

namespace Value

/-- A value is like itself if the matching leaves alone all that it reaches. -/
theorem alike_self (v : Value) (h : ∀ part, v.Reaches part → part.Fixed M) : v.Alike M v := by
  have self : v.Fixed M := h v (.refl v)
  match v with
  | .null => exact .null
  | .boolean b => exact .boolean b
  | .string text => exact .string text
  | .primitive p => exact .primitive p
  | .number x => exact .number rfl self
  | .list items =>
    refine .list (List.forall₂_same.2 fun item mem => ?_)
    exact alike_self item fun part reaches => h part (.item mem reaches)
  | .closure c =>
    refine .closure self.1 rfl rfl self.2 rfl fun name _ => ?_
    cases get : c.captured.get? name with
    | none => exact .none
    | some value =>
      exact .some (alike_self value fun part reaches => h part (.captured get reaches))
termination_by sizeOf v
decreasing_by
  · have smaller := List.sizeOf_lt_of_mem mem
    simp only [Value.list.sizeOf_spec]
    omega
  · have smaller := Scope.sizeOf_get? get
    obtain ⟨id, formals, body, captured, selfName⟩ := c
    simp only [Value.closure.sizeOf_spec, Closure.mk.sizeOf_spec] at smaller ⊢
    omega

/-- Where nothing is ignored every value is like itself. -/
theorem alike_same (v : Value) : v.Alike .same v := by
  refine v.alike_self fun part _ => ?_
  cases part with
  | number x => rfl
  | closure c =>
    exact ⟨rfl, Tree.readable_ignoring fun token _ name _ => .inr id⟩
  | _ => trivial

end Value

end Lisplet
