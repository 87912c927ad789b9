import Mathlib.Data.List.Forall2
import MiniLisp.Session

/-!
# Two evaluations side by side

A `Simulation` is a correspondence between two machines, with the values, expressions and tokens
that belong to them, which everything that evaluation does to a machine keeps. What is particular to
a correspondence is how it treats the store: how names are looked up and bound, and how a call is
entered and left. `Simulation/Forms` proves once for all of them that corresponding expressions have
corresponding outcomes.

* `Expr.Matches`, `Value.Matches` : expressions, or values, of one shape with corresponding parts;
* `Machine.enter` : the machine on which the body of a function starts (`invoke_eq`);
* `Simulation.Action` : actions that take corresponding machines to corresponding outcomes, with
  one lemma for each action that evaluation is made of.

A law about single runs is a simulation of a machine by itself.
-/

namespace MiniLisp

open EvalM List

/-! ## Actions in a row -/

theorem EvalM.bind_done {α β : Type} {x : EvalM α} {f : α → EvalM β} {a : α} {m n : Machine}
    (h : x m = .done a n) : (x >>= f) m = f a n := by
  show (x m).bind f = f a n
  rw [h]
  rfl

theorem EvalM.bind_failed {α β : Type} {x : EvalM α} {f : α → EvalM β} {error : RuntimeError}
    {m n : Machine} (h : x m = .failed error n) : (x >>= f) m = .failed error n := by
  show (x m).bind f = _
  rw [h]
  rfl

/-! ## Shapes -/

/-- Is this the kind of a keyword that stands for a value? Such a keyword cannot fail. -/
def Kind.IsConstant (k : Kind) : Prop :=
  k = .keyword .nilConst ∨ k = .keyword .trueConst ∨ k = .keyword .falseConst

/-- Expressions of one shape whose parts correspond. Of the tokens only those must correspond that
can be blamed for an error. -/
inductive Expr.Matches (token : Token → Token → Prop) (expr : Expr → Expr → Prop) :
    Expr → Expr → Prop
  | atom (value : Literal) (t t' : Token) : Matches token expr (.atom value t) (.atom value t')
  | symbol {t t' : Token} (ht : token t t') : Matches token expr (.symbol t) (.symbol t')
  | operator {t t' : Token} {xs xs' : List Expr} (ht : token t t') (hxs : Forall₂ expr xs xs') :
      Matches token expr (.operator t xs) (.operator t' xs')
  | keyword {t t' : Token} {xs xs' : List Expr} (hk : t'.kind = t.kind)
      (ht : t.kind.IsConstant ∨ token t t') (hxs : Forall₂ expr xs xs') :
      Matches token expr (.keyword t xs) (.keyword t' xs')
  | list {x x' : Expr} {xs xs' : List Expr} (ht : token x.token x'.token) (hx : expr x x')
      (hxs : Forall₂ expr xs xs') : Matches token expr (.list x xs) (.list x' xs')
  | data (label : Nat) {x x' : Expr} {xs xs' : List Expr} (hx : expr x x')
      (hxs : Forall₂ expr xs xs') : Matches token expr (.data label x xs) (.data label x' xs')
  | define (label : Nat) {t t' : Token} {ps ps' : List Token} {x x' : Expr} (ht : token t t')
      (hps : Forall₂ token ps ps') (hx : expr x x') :
      Matches token expr (.define label t ps x) (.define label t' ps' x')
  | call {x x' : Expr} {t t' : Token} {xs xs' : List Expr} (hx : expr x x') (ht : token t t')
      (hxs : Forall₂ expr xs xs') : Matches token expr (.call x t xs) (.call x' t' xs')

/-- Values of one shape whose parts correspond. -/
inductive Value.Matches (expr : Expr → Expr → Prop) : Value → Value → Prop
  | nil : Matches expr .nil .nil
  | bool (b : Bool) : Matches expr (.bool b) (.bool b)
  | number (n : Binary64) : Matches expr (.number n) (.number n)
  | string (s : String) : Matches expr (.string s) (.string s)
  | list {l l' : ListValue} (hx : expr l.head l'.head) (hxs : Forall₂ expr l.tail l'.tail) :
      Matches expr (.list l) (.list l')
  | function {f f' : Closure} (hname : f'.name.lexeme = f.name.lexeme)
      (hparams : f'.params.map (·.lexeme) = f.params.map (·.lexeme))
      (hbody : expr f.body f'.body) : Matches expr (.function f) (.function f')

theorem Expr.Matches.refl (e : Expr) : Expr.Matches (· = ·) (· = ·) e e := by
  have same {α : Type} (l : List α) : Forall₂ (· = ·) l l := forall₂_same.2 fun _ _ => rfl
  cases e with
  | atom => exact .atom _ _ _
  | symbol => exact .symbol rfl
  | operator => exact .operator rfl (same _)
  | keyword => exact .keyword rfl (.inr rfl) (same _)
  | list => exact .list rfl rfl (same _)
  | data => exact .data _ rfl (same _)
  | define => exact .define _ rfl (same _) rfl
  | call => exact .call rfl rfl (same _)

theorem Value.Matches.refl (v : Value) : Value.Matches (· = ·) v v := by
  cases v with
  | nil => exact .nil
  | bool => exact .bool _
  | number => exact .number _
  | string => exact .string _
  | list => exact .list rfl (forall₂_same.2 fun _ _ => rfl)
  | function => exact .function rfl rfl rfl

/-- Is a value no function, or a function whose scope is `inside`? -/
def Value.ClosedIn (inside : ScopeId → Prop) : Value → Prop
  | .function f => inside f.scope
  | _ => True

theorem Value.Matches.isTruthy {expr : Expr → Expr → Prop} {v v' : Value}
    (h : Value.Matches expr v v') : v'.isTruthy = v.isTruthy := by
  cases h <;> rfl

theorem Value.Matches.isNil {expr : Expr → Expr → Prop} {v v' : Value}
    (h : Value.Matches expr v v') : v'.isNil = v.isNil := by
  cases h <;> rfl

/-- Results that correspond, or the same error. -/
inductive RuntimeError.Results {α β : Type} (A : α → β → Prop) :
    Except RuntimeError.Cause α → Except RuntimeError.Cause β → Prop
  | ok {a : α} {b : β} (h : A a b) : Results A (.ok a) (.ok b)
  | error (cause : RuntimeError.Cause) : Results A (.error cause) (.error cause)

open RuntimeError (Results)

/-! ## Calls -/

/-- The machine with a new scope inside that of `f`, which is current. -/
def Machine.opened (m : Machine) (f : Closure) : Machine :=
  { m with store := m.store.push (some f.scope), current := m.store.size }

namespace Machine

variable (m : Machine)

@[simp] theorem store_define (name : String) (value : Value) :
    (m.define name value).store = m.store.define m.current name value := rfl

@[simp] theorem store_opened (f : Closure) :
    (m.opened f).store = m.store.push (some f.scope) := rfl

end Machine

/-- Binds names to values in the current scope, one after the other. -/
def Machine.defineAll (m : Machine) (names : List String) (values : List Value) : Machine :=
  (names.zip values).foldl (fun m (name, value) => m.define name value) m

theorem Machine.defineAll_eq (m : Machine) (names : List String) (values : List Value) :
    m.defineAll names values = { m with store := m.store.defineAll m.current names values } := by
  unfold Machine.defineAll Store.defineAll
  generalize names.zip values = pairs
  induction pairs generalizing m with
  | nil => rfl
  | cons pair pairs ih => rw [List.foldl_cons, ih]; rfl

/-- What holds of a machine, and is kept by every binding of one of the values, holds after all. -/
theorem Machine.defineAll_induction {P : Machine → Prop} {values : List Value}
    (hdefine : ∀ n name, ∀ v ∈ values, P n → P (n.define name v)) (names : List String)
    {m : Machine} (hm : P m) : P (m.defineAll names values) :=
  List.foldlRecOn _ _ hm fun n hn pair hpair =>
    hdefine n pair.1 pair.2 (List.of_mem_zip hpair).2 hn

/-- The machine on which the body of `f` starts: in the new scope the parameters are bound. -/
def Machine.enter (m : Machine) (f : Closure) (args : List Value) : Machine :=
  (m.opened f).defineAll (f.params.map (·.lexeme)) args

theorem invoke_eq (ev : Evaluator) (f : Closure) (args : List Value) (m : Machine) :
    ev.invoke f args m =
      (ev f.body (m.enter f args)).mapMachine ({ · with current := m.current }) := by
  rw [Machine.enter, Machine.defineAll_eq]
  rfl

/-! ## Simulations -/

/-- A correspondence between two machines that evaluation keeps. -/
structure Simulation where
  token : Token → Token → Prop
  expr : Expr → Expr → Prop
  value : Value → Value → Prop
  machine : Machine → Machine → Prop
  token_eq : ∀ {t t'}, token t t' → t'.kind = t.kind ∧ t'.lexeme = t.lexeme
  expr_matches : ∀ {e e'}, expr e e' → Expr.Matches token expr e e'
  value_matches : ∀ {v v'}, value v v' → Value.Matches expr v v'
  nil : value .nil .nil
  bool : ∀ b, value (.bool b) (.bool b)
  number : ∀ n, value (.number n) (.number n)
  string : ∀ s, value (.string s) (.string s)
  list : ∀ label {x x' xs xs'}, expr x x' → Forall₂ expr xs xs' →
    value (.list ⟨label, x, xs⟩) (.list ⟨label, x', xs'⟩)
  datum : ∀ {t t' v v'}, token t t' → value v v' →
    Results expr (v.datum t.line) (v'.datum t'.line)
  same : ∀ {v v' w w'}, value v v' → value w w' → v'.same w' = v.same w
  label : ∀ {m m'}, machine m m' → m'.labels.object = m.labels.object
  relabelled : ∀ {m m'}, machine m m' →
    machine (m.relabelled Labels.freshObject).2 (m'.relabelled Labels.freshObject).2
  lookup : ∀ {m m'} name, machine m m' →
    Option.Rel value (m.store.lookup name m.current) (m'.store.lookup name m'.current)
  define : ∀ {m m' v v'} name, machine m m' → value v v' →
    machine (m.define name v) (m'.define name v')
  function : ∀ {m m' t t' ps ps' x x'} label, machine m m' → token t t' → Forall₂ token ps ps' →
    expr x x' →
    value (.function ⟨label, t, ps, x, m.current⟩) (.function ⟨label, t', ps', x', m'.current⟩)
  opened : ∀ {m m' f f'}, machine m m' → value (.function f) (.function f') →
    machine (m.opened f) (m'.opened f')
  leave : ∀ {m m' n n'}, machine m m' → machine n n' →
    machine { n with current := m.current } { n' with current := m'.current }

namespace Simulation

variable (R : Simulation)

/-- Outcomes, from machines `m` and `m'`, that correspond: results, or errors with one cause, and
the machines that are left. The scope that was current is current again. -/
inductive Outcomes {α β : Type} (A : α → β → Prop) (m m' : Machine) :
    Outcome α → Outcome β → Prop
  | done {a : α} {b : β} {n n' : Machine} (hab : A a b) (hn : R.machine n n')
      (hcurrent : n.current = m.current ∧ n'.current = m'.current) :
      Outcomes A m m' (.done a n) (.done b n')
  | failed {t t' : Token} (cause : RuntimeError.Cause) {n n' : Machine} (ht : R.token t t')
      (hn : R.machine n n') (hcurrent : n.current = m.current ∧ n'.current = m'.current) :
      Outcomes A m m' (.failed ⟨t, cause⟩ n) (.failed ⟨t', cause⟩ n')
  | exhausted : Outcomes A m m' .exhausted .exhausted

/-- Actions that take corresponding machines to corresponding outcomes. -/
def Action {α β : Type} (A : α → β → Prop) (x : EvalM α) (y : EvalM β) : Prop :=
  ∀ ⦃m m'⦄, R.machine m m' → R.Outcomes A m m' (x m) (y m')

/-- Ways to evaluate that take corresponding expressions to corresponding actions. -/
def Evaluators (ev ev' : Evaluator) : Prop :=
  ∀ ⦃e e'⦄, R.expr e e' → R.Action R.value (ev e) (ev' e')

variable {R}

theorem Action.pure {α β : Type} {A : α → β → Prop} {a : α} {b : β} (h : A a b) :
    R.Action A (Pure.pure a) (Pure.pure b) := fun _ _ hm => .done h hm ⟨rfl, rfl⟩

theorem Action.fail {α β : Type} {A : α → β → Prop} {t t' : Token} (ht : R.token t t')
    (cause : RuntimeError.Cause) : R.Action A (EvalM.fail t cause) (EvalM.fail t' cause) :=
  fun _ _ hm => .failed cause ht hm ⟨rfl, rfl⟩

theorem Action.bind {α β γ δ : Type} {A : α → β → Prop} {B : γ → δ → Prop} {x : EvalM α}
    {y : EvalM β} {f : α → EvalM γ} {g : β → EvalM δ} (hx : R.Action A x y)
    (hf : ∀ a b, A a b → R.Action B (f a) (g b)) : R.Action B (x >>= f) (y >>= g) := by
  intro m m' hm
  show R.Outcomes B m m' ((x m).bind f) ((y m').bind g)
  generalize x m = o, y m' = o', hx hm = h
  cases h with
  | failed cause ht hn hcurrent => exact .failed cause ht hn hcurrent
  | exhausted => exact .exhausted
  | @done a b n n' hab hn hcurrent =>
    have h := hf a b hab hn
    show R.Outcomes B m m' (f a n) (g b n')
    generalize f a n = o, g b n' = o' at h
    cases h with
    | done hab hk hcurrent' =>
      exact .done hab hk ⟨hcurrent'.1.trans hcurrent.1, hcurrent'.2.trans hcurrent.2⟩
    | failed cause ht hk hcurrent' =>
      exact .failed cause ht hk ⟨hcurrent'.1.trans hcurrent.1, hcurrent'.2.trans hcurrent.2⟩
    | exhausted => exact .exhausted

theorem Action.ofExcept {α β : Type} {A : α → β → Prop} {t t' : Token} (ht : R.token t t')
    {a : Except RuntimeError.Cause α} {b : Except RuntimeError.Cause β} (h : Results A a b) :
    R.Action A (ofExcept t a) (ofExcept t' b) := by
  cases h with
  | ok h => exact .pure h
  | error cause => exact .fail ht cause

theorem Action.get {t t' : Token} (ht : R.token t t') :
    R.Action R.value (EvalM.get t) (EvalM.get t') := by
  intro m m' hm
  have h := R.lookup t.lexeme hm
  unfold EvalM.get
  rw [(R.token_eq ht).2]
  generalize m.store.lookup t.lexeme m.current = v at h
  generalize m'.store.lookup t.lexeme m'.current = v' at h
  cases h with
  | none => exact .failed _ ht hm ⟨rfl, rfl⟩
  | some h => exact .done h hm ⟨rfl, rfl⟩

theorem Action.define (name : String) {v v' : Value} (hv : R.value v v') :
    R.Action (fun _ _ => True) (EvalM.define name v) (EvalM.define name v') :=
  fun _ _ hm => .done trivial (R.define name hm hv) ⟨rfl, rfl⟩

theorem Action.freshLabel : R.Action (· = ·) EvalM.freshLabel EvalM.freshLabel := by
  intro m m' hm
  exact .done (R.label hm).symm (R.relabelled hm) ⟨rfl, rfl⟩

theorem Action.newList {x x' : Expr} {xs xs' : List Expr} (hx : R.expr x x')
    (hxs : Forall₂ R.expr xs xs') :
    R.Action R.value (EvalM.newList x xs) (EvalM.newList x' xs') :=
  Action.freshLabel.bind fun label _ h => h ▸ Action.pure (R.list label hx hxs)

theorem Action.defineFunction {t t' : Token} {ps ps' : List Token} {x x' : Expr}
    (ht : R.token t t') (hps : Forall₂ R.token ps ps') (hx : R.expr x x') :
    R.Action (fun _ _ => True) (EvalM.defineFunction t ps x)
      (EvalM.defineFunction t' ps' x') := by
  intro m m' hm
  have hfun := R.function m.labels.object hm ht hps hx
  refine .done trivial ?_ ⟨rfl, rfl⟩
  show R.machine (((m.relabelled Labels.freshObject).2).define t.lexeme
      (.function ⟨m.labels.object, t, ps, x, m.current⟩))
    (((m'.relabelled Labels.freshObject).2).define t'.lexeme
      (.function ⟨m'.labels.object, t', ps', x', m'.current⟩))
  rw [(R.token_eq ht).2, R.label hm]
  exact R.define _ (R.relabelled hm) hfun

theorem defineAll (R : Simulation) (names : List String) {vs vs' : List Value}
    (hvs : Forall₂ R.value vs vs') {m m' : Machine} (hm : R.machine m m') :
    R.machine (m.defineAll names vs) (m'.defineAll names vs') := by
  induction hvs generalizing names m m' with
  | nil =>
    unfold Machine.defineAll
    rw [List.zip_nil_right]
    exact hm
  | cons hv _ ih =>
    cases names with
    | nil => exact hm
    | cons name names => exact ih names (R.define name hm hv)

theorem enter (R : Simulation) {f f' : Closure} (hf : R.value (.function f) (.function f'))
    {vs vs' : List Value} (hvs : Forall₂ R.value vs vs') {m m' : Machine} (hm : R.machine m m') :
    R.machine (m.enter f vs) (m'.enter f' vs') := by
  have hparams : f'.params.map (·.lexeme) = f.params.map (·.lexeme) := by
    cases R.value_matches hf with
    | function _ hparams _ => exact hparams
  unfold Machine.enter
  rw [hparams]
  exact R.defineAll _ hvs (R.opened hm hf)

end Simulation

end MiniLisp
