import Lisplet.Proofs.Alike
import Lisplet.Proofs.Outcome

/-!
# Simulations

What is said of two evaluations is said of the computations that they are made of.  A
`Correspondence` fixes which tokens, values and environments of two runs correspond, and a
`Simulation` is a relation between computations with one clause for each thing that computations
are made of.  Such a relation goes from the evaluators that a step is given to the step
(`Simulation.step`), and this is the only place where the special forms and operations are gone
through.

A relation that does not look at results is a simulation if it is a `Congruence`.  What holds of a
single evaluation is a congruence too: it is the relation that does not look at its second side.
-/

namespace Lisplet

/-- The faults of the evaluator itself: it was given something that it never should be given. -/
def EvalFault.isInternal : EvalFault → Bool
  | notAForm _ | nameless _ | notApplicable _ => true
  | _ => false

/-- What corresponds in two runs. -/
structure Correspondence where
  matching : Matching
  /-- The tokens of the trees that both runs evaluate. -/
  tokens : Token → Prop
  values : Value → Value → Prop
  environments : Environment → Environment → Prop
  faithful : matching.Faithful
  readable : ∀ {token}, tokens token → token.Readable matching
  alike : ∀ {v w}, values v w → v.Alike matching w
  null : values .null .null
  boolean : ∀ b, values (.boolean b) (.boolean b)
  number : ∀ {x y : Number}, x.value = y.value → matching.marks x.mark y.mark →
    values (.number x) (.number y)
  primitive : ∀ p, values (.primitive p) (.primitive p)
  literal : ∀ {token v}, tokens token → Value.ofToken? token = some v → values v v
  /-- Functions that are made of the same parameters and body. -/
  closure : ∀ {e e' id id' formals body}, environments e e' → matching.marks id id' →
    (∀ name ∈ formals, ∃ token, tokens token ∧ token.kind = .identifier name) →
    (∀ token ∈ Tree.leaves body, tokens token) →
    values (.closure ⟨id, formals, body, e.active, e.defining⟩)
      (.closure ⟨id', formals, body, e'.active, e'.defining⟩)
  body : ∀ {c d}, values (.closure c) (.closure d) → ∀ token ∈ c.body.leaves, tokens token
  has : ∀ {e e' name}, environments e e' → matching.names name → e.has name = e'.has name
  get? : ∀ {e e' name}, environments e e' → matching.names name →
    Option.Rel values (e.get? name) (e'.get? name)

namespace Correspondence

variable (C : Correspondence)

/-- A tree of tokens that both runs evaluate. -/
def Reads (tree : Tree) : Prop := ∀ token ∈ tree.leaves, C.tokens token

/-- Faults that correspond: the same one, or one about corresponding values. -/
inductive Faults : EvalFault → EvalFault → Prop
  | same {fault : EvalFault} (nobody : fault.culprit? = none)
      (regular : fault.isInternal = false) : Faults fault fault
  | notAForm {token : Token} (read : C.tokens token) (paren : token.isParen = true) :
      Faults (.notAForm token) (.notAForm token)
  | notFunction {v w : Value} (h : C.values v w) (line : Option Nat) :
      Faults (.notFunction v line) (.notFunction w line)
  | notNumber (operation : Operation) {v w : Value} (h : C.values v w) :
      Faults (.notNumber operation v) (.notNumber operation w)

/-- How the results are related that a computation goes on with. -/
inductive Carried : ∀ {α : Type}, (α → α → Prop) → Prop
  | same {α : Type} : Carried (@Eq α)
  | marks : Carried C.matching.marks
  | values : Carried C.values
  | list : Carried (List.Forall₂ C.values)
  | environments : Carried C.environments

variable {C}

theorem reads_leaf {token : Token} : C.Reads (.leaf token) ↔ C.tokens token := by
  simp [Reads, Tree.leaves]

theorem reads_list {items : List Tree} : C.Reads (.list items) ↔ ∀ item ∈ items, C.Reads item :=
  Tree.forall_mem_leaves_list

theorem getLast_values {vs ws : List Value} (h : List.Forall₂ C.values vs ws) :
    C.values (vs.getLast?.getD .null) (ws.getLast?.getD .null) := by
  induction h with
  | nil => exact C.null
  | cons first rest ih =>
    cases rest with
    | nil => exact first
    | cons next rest => exact ih

/-- Corresponding values are the same numbers, or the first one that is no number corresponds to
the first one on the other side. -/
theorem numbersOf_values (operation : Operation) {vs ws : List Value}
    (h : List.Forall₂ C.values vs ws) :
    (∃ xs, numbersOf operation vs = .ok xs ∧ numbersOf operation ws = .ok xs) ∨
      ∃ f g, numbersOf operation vs = .error f ∧ numbersOf operation ws = .error g ∧
        C.Faults f g := by
  induction h with
  | nil => exact .inl ⟨[], rfl, rfl⟩
  | @cons v w vs ws first rest ih =>
    have alike := C.alike first
    cases alike with
    | @number x y value mark =>
      rw [numbersOf, numbersOf]
      obtain ⟨xs, left, right⟩ | ⟨f, g, left, right, faults⟩ := ih
      · exact .inl ⟨x.value :: xs, by rw [left]; rfl, by rw [right, value]; rfl⟩
      · exact .inr ⟨f, g, by rw [left]; rfl, by rw [right]; rfl, faults⟩
    | _ => exact .inr ⟨_, _, rfl, rfl, .notNumber operation first⟩

theorem displays_eq {vs ws : List Value} (h : List.Forall₂ C.values vs ws) :
    Value.displays vs = Value.displays ws := Value.displays_eq (h.imp fun _ _ => C.alike)

theorem allEqual_eq {vs ws : List Value} (h : List.Forall₂ C.values vs ws) :
    Value.allEqual vs = Value.allEqual ws :=
  Value.allEqual_eq C.faithful (h.imp fun _ _ => C.alike)

end Correspondence

namespace Eval

/-- A relation between computations that goes through all that evaluation is made of. -/
structure Simulation (C : Correspondence)
    (Rel : ∀ {α : Type}, (α → α → Prop) → Eval α → Eval α → Prop) : Prop where
  pure : ∀ {α} {R : α → α → Prop} {a b}, R a b → Rel R (pure a) (pure b)
  fail : ∀ {α} {R : α → α → Prop} {f g}, C.Faults f g → Rel R (fail f) (fail g)
  bind : ∀ {α β} {R : α → α → Prop} {S : β → β → Prop} {x y f g}, C.Carried R → Rel R x y →
    (∀ a b, R a b → Rel S (f a) (g b)) → Rel S (x >>= f) (y >>= g)
  environment : Rel C.environments environment environment
  freshMark : Rel C.matching.marks freshMark freshMark
  print : ∀ line, Rel Eq (print line) (print line)
  calling : ∀ {c d}, C.values (.closure c) (.closure d) → ∀ count,
    Rel Eq (note (.calling c count)) (note (.calling d count))
  inScope : ∀ {c d vs ws x y}, C.values (.closure c) (.closure d) → List.Forall₂ C.values vs ws →
    Rel C.values x y → Rel C.values (inScope (c.bindings vs) x) (inScope (d.bindings ws) y)
  binding : ∀ {name x y}, isReserved name = false → Rel C.values x y →
    Rel C.values (binding name x) (binding name y)

namespace Simulation

variable {C : Correspondence} {Rel : ∀ {α : Type}, (α → α → Prop) → Eval α → Eval α → Prop}
  (S : Simulation C Rel)

include S

/-! ## Operations -/

theorem freshNumber (x : Float) : Rel C.values (freshNumber x) (freshNumber x) :=
  S.bind .marks S.freshMark fun _ _ mark => S.pure (C.number rfl mark)

section Operations

variable {vs ws : List Value} (hv : List.Forall₂ C.values vs ws)

include hv

theorem arithmetic (operation : Operation) {calculate : List Float → Eval Value}
    (hc : ∀ xs, Rel C.values (calculate xs) (calculate xs)) :
    Rel C.values (arithmetic operation vs calculate) (arithmetic operation ws calculate) := by
  unfold Eval.arithmetic
  obtain ⟨xs, left, right⟩ | ⟨f, g, left, right, faults⟩ := C.numbersOf_values operation hv
  · rw [left, right]
    exact hc xs
  · rw [left, right]
    exact S.fail faults

theorem operate (operation : Operation) :
    Rel C.values (operate operation vs) (operate operation ws) := by
  cases operation with
  | add => exact S.arithmetic hv .add fun xs => S.freshNumber _
  | sub =>
    refine S.arithmetic hv .sub fun xs => ?_
    unfold difference
    split
    · exact S.pure C.null
    · exact S.freshNumber _
    · exact S.freshNumber _
  | mul => exact S.arithmetic hv .mul fun xs => S.freshNumber _
  | div =>
    refine S.arithmetic hv .div fun xs => ?_
    split
    · exact S.pure (C.number rfl C.faithful.shared)
    · exact S.freshNumber _
  | equal =>
    rw [Eval.operate, Eval.operate, C.allEqual_eq hv]
    exact S.pure (C.boolean _)
  | write =>
    rw [Eval.operate, Eval.operate, C.displays_eq hv]
    exact S.bind .same (S.print _) fun _ _ _ => S.pure C.null
  | block => exact S.pure (C.getLast_values hv)

end Operations

/-! ## Names -/

theorem resolve {name : String} (line : Nat)
    (counts : ¬ isReserved name = true → C.matching.names name) :
    Rel C.values (resolve name line) (resolve name line) := by
  unfold Eval.resolve
  cases hp : Primitive.named? name with
  | some p => exact S.pure (C.primitive p)
  | none =>
    have named : C.matching.names name := counts (by rw [isReserved, hp]; simp)
    refine S.bind .environments S.environment fun e e' he => ?_
    have bound := C.get? he named
    unfold Environment.isBound Environment.lookup
    generalize e.get? name = found, e'.get? name = found' at bound
    cases bound with
    | some values => exact S.pure values
    | none => exact S.fail (.same rfl rfl)

theorem atom {token : Token} (read : C.tokens token) : Rel C.values (atom token) (atom token) := by
  have counts (name : String) (named : token.name = .ok name) :
      ¬ isReserved name = true → C.matching.names name := (C.readable read).counts named
  unfold Eval.atom
  cases hv : Value.ofToken? token with
  | some value => exact S.pure (C.literal read hv)
  | none =>
    dsimp only
    split
    · next isName =>
      obtain ⟨name, named⟩ := token.isName_iff.1 isName
      rw [nameOf_eq_ok named]
      exact S.resolve token.line (counts name named)
    · next nameless =>
      -- A token that is neither a literal nor a name is a parenthesis.
      refine S.fail (.notAForm read ?_)
      cases kind : token.kind <;> simp_all [Value.ofToken?, Token.isName, Token.isParen]

/-! ## Special forms -/

variable {eval eval' : Tree → Eval Value}
  (h : ∀ tree, C.Reads tree → Rel C.values (eval tree) (eval' tree))

theorem lambda {arguments : List Tree} (read : ∀ tree ∈ arguments, C.Reads tree) :
    Rel C.values (lambda arguments) (lambda arguments) := by
  unfold Eval.lambda
  split
  · next parameters body =>
    cases parameters with
    | leaf token => exact S.fail (.same rfl rfl)
    | list items =>
      unfold parametersOf
      dsimp only
      cases hp : parametersOf? items with
      | none => exact S.fail (.same rfl rfl)
      | some tokens =>
        obtain ⟨formals, named, written⟩ := namesOf_of_parametersOf? hp
        have items : ∀ item ∈ items, C.Reads item := C.reads_list.1 (read (.list items) (by simp))
        simp only [Eval.pure_bind, named]
        refine S.bind .environments S.environment fun e e' he => ?_
        refine S.bind .marks S.freshMark fun id id' marks => S.pure ?_
        refine C.closure he marks (fun name mem => ?_) (read body (by simp))
        obtain ⟨token, inside, kind⟩ := written name mem
        exact ⟨token, C.reads_leaf.1 (items _ inside), kind⟩
  · exact S.fail (.same rfl rfl)

include h

theorem flagOf {flag : Tree} (read : C.Reads flag) (line : Nat) :
    Rel Eq (flagOf eval flag line) (flagOf eval' flag line) := by
  refine S.bind .values (h flag read) fun v w values => ?_
  have alike := C.alike values
  cases alike with
  | boolean b => exact S.pure rfl
  | _ => exact S.fail (.same rfl rfl)

theorem bindName (redefine : Bool) {token : Token} {name : String} (named : token.name = .ok name)
    (ht : C.tokens token) {tree : Tree} (read : C.Reads tree) :
    Rel C.values (bindName eval redefine token tree) (bindName eval' redefine token tree) := by
  rw [bindName_eq eval redefine named, bindName_eq eval' redefine named]
  refine S.bind .environments S.environment fun e e' he => ?_
  by_cases reserved : isReserved name = true
  · rw [if_pos reserved, if_pos reserved]
    exact S.fail (.same rfl rfl)
  -- A name that is looked up is not reserved, and so it counts.
  rw [if_neg reserved, if_neg reserved, C.has he ((C.readable ht).counts named reserved)]
  split_ifs
  · exact S.fail (.same rfl rfl)
  · exact S.binding (by simpa using reserved) (h tree read)

theorem define (redefine : Bool) {arguments : List Tree}
    (read : ∀ tree ∈ arguments, C.Reads tree) :
    Rel C.values (define eval redefine arguments) (define eval' redefine arguments) := by
  have target {tree : Tree} (mem : tree ∈ arguments) {f g : Token → Eval Value}
      (next : ∀ token name, token.name = .ok name → C.tokens token →
        Rel C.values (f token) (g token)) :
      Rel C.values (targetOf tree >>= f) (targetOf tree >>= g) := by
    cases isName : tree.isName with
    | false =>
      rw [targetOf_of_not_isName isName]
      exact S.fail (.same rfl rfl)
    | true =>
      obtain ⟨token, name, rfl, named, found⟩ := targetOf_of_isName isName
      rw [found, Eval.pure_bind, Eval.pure_bind]
      exact next token name named (C.reads_leaf.1 (read _ mem))
  unfold Eval.define
  split
  · refine target (by simp) fun token name named ht => ?_
    exact S.bindName h redefine named ht (read _ (by simp))
  · refine target (by simp) fun token name named ht => ?_
    refine S.bind .same (S.flagOf h (read _ (by simp)) token.line) ?_
    rintro allowed _ rfl
    exact S.bindName h _ named ht (read _ (by simp))
  · exact S.fail (.same rfl rfl)

theorem branch {arguments : List Tree} (read : ∀ tree ∈ arguments, C.Reads tree) :
    Rel C.values (branch eval arguments) (branch eval' arguments) := by
  unfold Eval.branch
  split
  · refine S.bind .values (h _ (read _ (by simp))) fun v w values => ?_
    rw [(C.alike values).isTrue_eq]
    split
    · exact h _ (read _ (by simp))
    · exact S.pure C.null
  · refine S.bind .values (h _ (read _ (by simp))) fun v w values => ?_
    rw [(C.alike values).isTrue_eq]
    split
    · exact h _ (read _ (by simp))
    · exact h _ (read _ (by simp))
  · exact S.fail (.same rfl rfl)

theorem special (form : SpecialForm) {arguments : List Tree}
    (read : ∀ tree ∈ arguments, C.Reads tree) :
    Rel C.values (special eval form arguments) (special eval' form arguments) := by
  cases form with
  | lambda => exact S.lambda read
  | define => exact S.define h false read
  | set => exact S.define h true read
  | branch => exact S.branch h read

/-! ## Evaluation -/

theorem call {c d : Closure Value} (hc : C.values (.closure c) (.closure d)) {vs ws : List Value}
    (hv : List.Forall₂ C.values vs ws) : Rel C.values (call eval c vs) (call eval' d ws) := by
  have body := h c.body (C.body hc)
  have alike := C.alike hc
  cases alike with
  | closure id formals same readable selfName captured =>
    unfold Eval.call
    rw [← hv.length_eq, ← same]
    exact S.bind .same (S.calling hc _) fun _ _ _ => S.inScope hc hv body

/-- A function of values is given values. -/
theorem apply_values {f g : Value} (callable : f.isCallable = true) (eager : f.isLazy = false)
    (hf : C.values f g) {vs ws : List Value} (hv : List.Forall₂ C.values vs ws) :
    Rel C.values (apply eval f (.values vs)) (apply eval' g (.values ws)) := by
  have alike := C.alike hf
  cases alike with
  | closure id formals body readable selfName captured => exact S.call h hf hv
  | primitive p =>
    cases p with
    | eager operation => exact S.operate hv operation
    | lazy form => cases eager
  | _ => cases callable

/-- A special form is given trees. -/
theorem apply_trees {f g : Value} (isLazy : f.isLazy = true) (hf : C.values f g)
    {trees : List Tree} (read : ∀ tree ∈ trees, C.Reads tree) :
    Rel C.values (apply eval f (.trees trees)) (apply eval' g (.trees trees)) := by
  have alike := C.alike hf
  cases alike with
  | primitive p =>
    cases p with
    | eager operation => cases isLazy
    | lazy form => exact S.special h form read
  | _ => cases isLazy

theorem valuesOf {trees : List Tree} (read : ∀ tree ∈ trees, C.Reads tree) :
    Rel (List.Forall₂ C.values) (valuesOf eval trees) (valuesOf eval' trees) := by
  induction trees with
  | nil => exact S.pure .nil
  | cons tree trees ih =>
    obtain ⟨first, rest⟩ := List.forall_mem_cons.1 read
    refine S.bind .values (h tree first) fun v w hv => ?_
    exact S.bind .list (ih rest) fun vs ws hvs => S.pure (.cons hv hvs)

/-- A simulation goes from the evaluators that a step is given to the step. -/
theorem step {tree : Tree} (read : C.Reads tree) :
    Rel C.values (step eval tree) (step eval' tree) := by
  match tree with
  | .leaf token => exact S.atom (C.reads_leaf.1 read)
  | .list [] => exact S.fail (.same rfl rfl)
  | .list (head :: tail) =>
    obtain ⟨first, rest⟩ := List.forall_mem_cons.1 (C.reads_list.1 read)
    refine S.bind .values (h head first) fun f g hf => ?_
    rw [← (C.alike hf).isCallable_eq, ← (C.alike hf).isLazy_eq]
    split_ifs with stuck isLazy
    · exact S.fail (.notFunction hf _)
    · exact S.apply_trees h isLazy hf rest
    · refine S.bind .list (S.valuesOf h rest) fun vs ws hv => ?_
      exact S.apply_values h (by simpa using stuck) (by simpa using isLazy) hf hv

omit h

/-- A tree that both runs read is evaluated in the same way by both. -/
theorem evaluate (depth : Nat) {tree : Tree} (read : C.Reads tree) :
    Rel C.values (evaluate depth tree) (evaluate depth tree) := by
  induction depth generalizing tree with
  | zero => exact S.fail (.same rfl rfl)
  | succ depth ih => exact S.step (fun _ => ih) read

end Simulation

end Eval

/-! ## Congruences -/

/-- Everything corresponds to itself. -/
def Correspondence.identity : Correspondence where
  matching := .same
  tokens _ := True
  values := Eq
  environments := Eq
  faithful := Matching.same_faithful
  readable _ := Token.readable_ignoring fun _ _ => .inr id
  alike := by
    rintro v _ rfl
    exact v.alike_same
  null := rfl
  boolean _ := rfl
  number {x y} value mark := by
    obtain ⟨value', mark'⟩ := x
    cases value
    cases mark
    rfl
  primitive _ := rfl
  literal _ _ := rfl
  closure := by
    rintro e _ id _ formals body rfl rfl - -
    rfl
  body _ _ _ := trivial
  has := by
    rintro e _ name rfl -
    rfl
  get? := by
    rintro e _ name rfl -
    cases e.get? name with
    | none => exact .none
    | some v => exact .some rfl

namespace Eval

/-- A relation between computations that goes from parts to wholes, whatever the results are. -/
structure Congruence (P : ∀ {α : Type}, Eval α → Eval α → Prop) : Prop where
  pure : ∀ {α} (a : α), P (pure a) (pure a)
  fail : ∀ {α} (fault : EvalFault), P (fail fault : Eval α) (fail fault)
  bind : ∀ {α β} {x y : Eval α} {f g : α → Eval β}, P x y → (∀ a, P (f a) (g a)) →
    P (x >>= f) (y >>= g)
  environment : P environment environment
  freshMark : P freshMark freshMark
  print : ∀ line, P (print line) (print line)
  calling : ∀ closure count, P (note (.calling closure count)) (note (.calling closure count))
  inScope : ∀ {x y : Eval Value}, P x y → ∀ scope, P (inScope scope x) (inScope scope y)
  binding : ∀ {name} {x y : Eval Value}, isReserved name = false → P x y →
    P (binding name x) (binding name y)

namespace Congruence

variable {P : ∀ {α : Type}, Eval α → Eval α → Prop} (c : Congruence P)

include c

/-- Under the identity, results that a computation goes on with are related if they are equal. -/
theorem simulation : Simulation .identity fun R x y => (∀ a b, R a b → a = b) → P x y where
  pure related same := same _ _ related ▸ c.pure _
  fail {_ _ f g} faults _ := by
    have same : f = g := by
      cases faults with
      | same | notAForm => rfl
      | notFunction h | notNumber operation h =>
        cases h
        rfl
    exact same ▸ c.fail f
  bind {α β R S x y f g} carried first next same := by
    have iff : ∀ a b, R a b ↔ a = b := by
      cases carried with
      | same | marks | values | environments => exact fun _ _ => Iff.rfl
      | list =>
        intro a b
        rw [show List.Forall₂ Correspondence.identity.values = Eq from List.forall₂_eq_eq_eq]
    exact c.bind (first fun a b => (iff a b).1) fun a => next a a ((iff a a).2 rfl) same
  environment _ := c.environment
  freshMark _ := c.freshMark
  print line _ := c.print line
  calling := by
    rintro closure _ ⟨⟩ count -
    exact c.calling closure count
  inScope := by
    rintro closure _ vs ws x y ⟨⟩ arguments body same
    obtain rfl : vs = ws := by
      rwa [← List.forall₂_eq_eq_eq]
    exact c.inScope (body same) _
  binding unreserved value same := c.binding unreserved (value same)

variable {eval eval' : Tree → Eval Value} (h : ∀ tree, P (eval tree) (eval' tree))

include h

theorem call (closure : Closure Value) (arguments : List Value) :
    P (call eval closure arguments) (call eval' closure arguments) :=
  c.simulation.call (fun tree _ _ => h tree) rfl (List.forall₂_same.2 fun _ _ => rfl)
    fun _ _ => id

theorem valuesOf (trees : List Tree) : P (valuesOf eval trees) (valuesOf eval' trees) :=
  c.simulation.valuesOf (fun tree _ _ => h tree) (fun _ _ _ _ => trivial) fun _ _ same =>
    List.forall₂_eq_eq_eq ▸ same

theorem step (tree : Tree) : P (step eval tree) (step eval' tree) :=
  c.simulation.step (fun tree _ _ => h tree) (fun _ _ => trivial) fun _ _ => id

omit h

theorem evaluate (depth : Nat) (tree : Tree) : P (evaluate depth tree) (evaluate depth tree) :=
  c.simulation.evaluate depth (fun _ _ => trivial) fun _ _ => id

end Congruence

end Eval

end Lisplet
