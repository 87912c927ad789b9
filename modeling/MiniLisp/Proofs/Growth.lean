import MiniLisp.Proofs.Equality
import MiniLisp.Proofs.Simulation.Basic
import MiniLisp.Proofs.StoreLaws

/-!
# What evaluation keeps while it grows

What is known of values can be relative to a world, such as the store of scopes or a table of
labels, that has grown whenever the machine has changed. A `Growth` says what is known of
expressions, values and machines in each world, and that everything evaluation does to a machine
leads to a later world in which as much is known.

* `Meets` : the values that an evaluation comes upon, in all evaluations inside it;
* `Growth.Action` : actions that lead to a later world, and look only where it is known what they
  find, with one lemma for each form;
* `Growth.eval` : an evaluation leads to a later world, in which all values that it meets are known;
* `Growth.interpret` : so does a program.
-/

namespace MiniLisp

open EvalM

/-! ## What evaluation meets -/

/-- Does it depend on what `ev` makes of `x` on machine `k` how `e` is evaluated on `m`? -/
def Evaluator.Asks (ev : Evaluator) (e : Expr) (m : Machine) (x : Expr) (k : Machine) : Prop :=
  ∃ ev' : Evaluator, (∀ y n, (y, n) ≠ (x, k) → ev' y n = ev y n) ∧ ev'.step e m ≠ ev.step e m

def Outcome.after? {α : Type} : Outcome α → Option Machine
  | done _ m | failed _ m => some m
  | exhausted => none

/-- The evaluation of `e` on `m` comes upon a value: it is bound in a scope before it or after it,
or it is the result, or an evaluation inside comes upon it. -/
inductive Meets : Nat → Expr → Machine → Value → Prop
  | bound {depth : Nat} {e : Expr} {m : Machine} {i : ScopeId} {name : String} {v : Value}
      (h : (name, v) ∈ m.store.bindings i) : Meets depth e m v
  | left {depth : Nat} {e : Expr} {m n : Machine} {i : ScopeId} {name : String} {v : Value}
      (hn : (eval depth e m).after? = some n) (h : (name, v) ∈ n.store.bindings i) :
      Meets depth e m v
  | result {depth : Nat} {e : Expr} {m n : Machine} {v : Value} (h : eval depth e m = .done v n) :
      Meets depth e m v
  | inside {depth : Nat} {e x : Expr} {m k : Machine} {v : Value}
      (h : (eval depth).Asks e m x k) (hv : Meets depth x k v) : Meets (depth + 1) e m v

/-- The evaluation of a program comes upon a value: it is bound before it, or the evaluation of an
expression comes upon it. -/
inductive Machine.Meets (depth : Nat) : Machine → List Expr → Value → Prop
  | bound {m : Machine} {es : List Expr} {i : ScopeId} {name : String} {v : Value}
      (h : (name, v) ∈ m.store.bindings i) : Meets depth m es v
  | now {m : Machine} {e : Expr} {es : List Expr} {v : Value} (h : MiniLisp.Meets depth e m v) :
      Meets depth m (e :: es) v
  | later {m n : Machine} {e : Expr} {es : List Expr} {u v : Value}
      (h : eval depth e m = .done u n) (hv : Meets depth n es v) : Meets depth m (e :: es) v

/-- The values that a program emits, and those that are bound after it, come up in it. -/
theorem Machine.Meets.of_interpret {depth : Nat} {v : Value} (es : List Expr) (m : Machine)
    (h : v ∈ (m.interpret depth es).emitted ∨
      ∃ i name, (name, v) ∈ (m.interpret depth es).machine.store.bindings i) :
    m.Meets depth es v := by
  induction es generalizing m with
  | nil =>
    rcases h with h | ⟨i, name, h⟩
    · exact nomatch h
    · exact .bound h
  | cons e es ih =>
    rw [interpret] at h
    cases he : eval depth e m with
    | exhausted =>
      rw [he] at h
      rcases h with h | ⟨i, name, h⟩
      · exact nomatch h
      · exact .bound h
    | failed error n =>
      rw [he] at h
      rcases h with h | ⟨i, name, h⟩
      · exact nomatch h
      · exact .now (.left (by rw [he]; rfl) h)
    | done u n =>
      rw [he] at h
      dsimp only at h
      split at h
      · exact .later he (ih n h)
      · rcases h with h | h
        · rcases List.mem_cons.1 h with rfl | h
          · exact .now (.result he)
          · exact .later he (ih n (.inl h))
        · exact .later he (ih n (.inr h))

namespace Evaluator

variable {ev : Evaluator}

/-- Where a failure would be that of the whole expression, the evaluator is asked. -/
theorem Asks.of_failed {e x : Expr} {m k : Machine}
    (h : ∀ ev' : Evaluator, (∀ y n, (y, n) ≠ (x, k) → ev' y n = ev y n) →
      ∀ error, ev' x k = .failed error k → ev'.step e m = .failed error k) : ev.Asks e m x k := by
  classical
  obtain ⟨error, herror⟩ : ∃ error, ev.step e m ≠ .failed error k := by
    by_contra hall
    have hall : ∀ error, ev.step e m = .failed error k := fun error =>
      Classical.not_not.1 fun hne => hall ⟨error, hne⟩
    have htwo := (hall ⟨x.token, .notAddable⟩).symm.trans (hall ⟨x.token, .notNumbers⟩)
    exact nomatch htwo
  let ev' : Evaluator := fun y n => if (y, n) = (x, k) then .failed error k else ev y n
  have hother (y : Expr) (n : Machine) (hyn : (y, n) ≠ (x, k)) : ev' y n = ev y n := if_neg hyn
  have houtcome := h ev' hother error (if_pos rfl)
  exact ⟨ev', hother, fun hsame => herror (hsame.symm.trans houtcome)⟩

end Evaluator

/-! ## Growth -/

def RuntimeError.Cause.wanted? : RuntimeError.Cause → Option String
  | undefinedVariable name => some name
  | _ => none

def Value.IsScalar : Value → Prop
  | .list _ | .function _ => False
  | _ => True

/-- An operator gives no list and no function, and does not fail for want of a name. -/
theorem Operator.apply_spec (op : Operator) (v w : Value) :
    (∀ u, op.apply v w = .ok u → u.IsScalar) ∧
      ∀ cause, op.apply v w = .error cause → cause.wanted? = none := by
  cases op <;> cases v <;> cases w <;> refine ⟨?_, ?_⟩ <;> rintro _ ⟨⟩ <;>
    first | exact trivial | rfl

theorem Value.datum_error {line : Nat} {v : Value} {cause : RuntimeError.Cause}
    (h : v.datum line = .error cause) : cause.wanted? = none := by
  cases v with
  | bool b => cases b <;> exact nomatch h
  | function f =>
    cases h
    rfl
  | nil | number | string | list => exact nomatch h

/-- What is known in a world, and stays known in later ones; and what evaluation does to a machine
leads from a world to a later one. Of the cause of an error it is known that it cannot come up in an
earlier world either, if it can in a later one. -/
structure Growth where
  World : Type
  le : World → World → Prop
  expr : World → Expr → Prop
  value : World → Value → Prop
  machine : World → Machine → Prop
  cause : World → RuntimeError.Cause → Prop
  refl : ∀ w, le w w
  trans : ∀ {u v w}, le u v → le v w → le u w
  expr_mono : ∀ {w w' e}, le w w' → expr w e → expr w' e
  value_mono : ∀ {w w' v}, le w w' → value w v → value w' v
  cause_anti : ∀ {w w' c}, le w w' → cause w' c → cause w c
  children : ∀ {w e}, expr w e → ∀ x ∈ e.children, expr w x
  scalar : ∀ {w} {v : Value}, v.IsScalar → value w v
  list : ∀ {w l}, value w (.list l) ↔ expr w l.expr
  body : ∀ {w f}, value w (.function f) → expr w f.body
  datum : ∀ {w} {v : Value} {line e}, value w v → v.datum line = .ok e → expr w e
  bound : ∀ {w} {m : Machine} {i name v}, machine w m → (name, v) ∈ m.store.bindings i → value w v
  unbound : ∀ {w} {m : Machine} {name}, machine w m → m.store.lookup name m.current = none →
    cause w (.undefinedVariable name)
  failure : ∀ {w c}, c.wanted? = none → cause w c
  newList : ∀ {w m x xs}, machine w m → expr w x → (∀ y ∈ xs, expr w y) →
    ∃ w', le w w' ∧ machine w' (m.relabelled Labels.freshObject).2 ∧
      value w' (.list ⟨m.labels.object, x, xs⟩)
  newFunction : ∀ {w m label name params x}, machine w m → expr w (.define label name params x) →
    ∃ w', le w w' ∧ machine w' (m.relabelled Labels.freshObject).2 ∧
      value w' (.function ⟨m.labels.object, name, params, x, m.current⟩)
  define : ∀ {w m v} (name : String), machine w m → value w v →
    ∃ w', le w w' ∧ machine w' (m.define name v)
  opened : ∀ {w m f}, machine w m → value w (.function f) →
    ∃ w', le w w' ∧ machine w' (m.opened f)
  leave : ∀ {w w' m n}, machine w m → le w w' → machine w' n →
    machine w' { n with current := m.current }

namespace Growth

variable (G : Growth)

/-- What an action leaves that was started on `m` in world `w`: a machine that is known in world
`w'`, with the scope current that was, and a result as `A` says, or an error that can come up. -/
def Leaves {α : Type} (w : G.World) (m : Machine) (A : G.World → α → Prop) (w' : G.World) :
    Outcome α → Prop
  | .done a n => G.machine w' n ∧ n.current = m.current ∧ A w' a
  | .failed e n => G.machine w' n ∧ n.current = m.current ∧ G.cause w e.cause
  | .exhausted => True

/-- An evaluator under watch. What it makes of an expression that is known leads to a later world,
and in that world and all later ones it has been `seen` there. -/
structure Watched (ev : Evaluator) (seen : G.World → Expr → Machine → Prop) : Prop where
  mono : ∀ {w w' e m}, G.le w w' → seen w e m → seen w' e m
  sound : ∀ {w e m}, G.expr w e → G.machine w m →
    ∃ w', G.le w w' ∧ G.Leaves w m G.value w' (ev e m) ∧ seen w' e m

/-- Started in world `w`, the action `x ev` leads to a later world, and depends on `ev` only where
it has been seen there. -/
def Action (ev : Evaluator) (seen : G.World → Expr → Machine → Prop) {α : Type} (w : G.World)
    (A : G.World → α → Prop) (x : Evaluator → EvalM α) : Prop :=
  ∀ m, G.machine w m → ∃ w', G.le w w' ∧ G.Leaves w m A w' (x ev m) ∧
    ∀ ev' : Evaluator, (∀ e k, seen w' e k → ev' e k = ev e k) → x ev' m = x ev m

variable {G} {ev : Evaluator} {seen : G.World → Expr → Machine → Prop} {w : G.World}

namespace Action

theorem of_const {α : Type} {A : G.World → α → Prop} {x : EvalM α}
    (h : ∀ m, G.machine w m → ∃ w', G.le w w' ∧ G.Leaves w m A w' (x m)) :
    G.Action ev seen w A fun _ => x := by
  intro m hm
  obtain ⟨w', hw, hleaves⟩ := h m hm
  exact ⟨w', hw, hleaves, fun _ _ => rfl⟩

theorem pure {α : Type} {A : G.World → α → Prop} {a : α} (h : A w a) :
    G.Action ev seen w A fun _ => Pure.pure a :=
  .of_const fun _ hm => ⟨w, G.refl w, hm, rfl, h⟩

theorem fail {α : Type} {A : G.World → α → Prop} (token : Token) {cause : RuntimeError.Cause}
    (h : cause.wanted? = none) : G.Action ev seen w A fun _ => EvalM.fail token cause :=
  .of_const fun _ hm => ⟨w, G.refl w, hm, rfl, G.failure h⟩

theorem ofExcept {α : Type} {A : G.World → α → Prop} (token : Token)
    {r : Except RuntimeError.Cause α} (hok : ∀ a, r = .ok a → A w a)
    (herror : ∀ cause, r = .error cause → cause.wanted? = none) :
    G.Action ev seen w A fun _ => EvalM.ofExcept token r := by
  cases r with
  | ok a => exact .pure (hok a rfl)
  | error cause => exact .fail token (herror cause rfl)

theorem get (name : Token) : G.Action ev seen w G.value fun _ => EvalM.get name := by
  refine .of_const fun m hm => ⟨w, G.refl w, ?_⟩
  unfold EvalM.get
  cases hv : m.store.lookup name.lexeme m.current with
  | some v =>
    obtain ⟨i, hmem⟩ := Store.exists_mem_of_lookup hv
    exact ⟨hm, rfl, G.bound hm hmem⟩
  | none => exact ⟨hm, rfl, G.unbound hm hv⟩

theorem define (name : String) {v : Value} (hv : G.value w v) :
    G.Action ev seen w (fun _ _ => True) fun _ => EvalM.define name v := by
  refine .of_const fun m hm => ?_
  obtain ⟨w', hw, hm'⟩ := G.define name hm hv
  exact ⟨w', hw, hm', rfl, trivial⟩

theorem defineFunction {label : Nat} {name : Token} {params : List Token} {body : Expr}
    (h : G.expr w (.define label name params body)) :
    G.Action ev seen w (fun _ _ => True) fun _ => EvalM.defineFunction name params body := by
  refine .of_const fun m hm => ?_
  obtain ⟨u, hwu, hu, hfunction⟩ := G.newFunction hm h
  obtain ⟨v, huv, hv⟩ := G.define name.lexeme hu hfunction
  exact ⟨v, G.trans hwu huv, hv, rfl, trivial⟩

theorem newList {x : Expr} {xs : List Expr} (hx : G.expr w x) (hxs : ∀ y ∈ xs, G.expr w y) :
    G.Action ev seen w G.value fun _ => EvalM.newList x xs := by
  refine .of_const fun m hm => ?_
  obtain ⟨w', hw, hm', hlist⟩ := G.newList hm hx hxs
  exact ⟨w', hw, hm', rfl, hlist⟩

end Action

namespace Watched

variable (W : G.Watched ev seen)
include W

theorem eval {e : Expr} (he : G.expr w e) : G.Action ev seen w G.value fun ev => ev e := by
  intro m hm
  obtain ⟨w', hw, hleaves, hseen⟩ := W.sound he hm
  exact ⟨w', hw, hleaves, fun ev' h => h e m hseen⟩

theorem bind {α β : Type} {A : G.World → α → Prop} {B : G.World → β → Prop}
    {x : Evaluator → EvalM α} {f : α → Evaluator → EvalM β} (hx : G.Action ev seen w A x)
    (hf : ∀ w' a, G.le w w' → A w' a → G.Action ev seen w' B (f a)) :
    G.Action ev seen w B fun ev => x ev >>= fun a => f a ev := by
  intro m hm
  obtain ⟨u, hwu, hleaves, hasked⟩ := hx m hm
  show ∃ w', G.le w w' ∧ G.Leaves w m B w' ((x ev m).bind fun a => f a ev) ∧
    ∀ ev' : Evaluator, (∀ e k, seen w' e k → ev' e k = ev e k) →
      ((x ev' m).bind fun a => f a ev') = (x ev m).bind fun a => f a ev
  cases ho : x ev m with
  | exhausted =>
    refine ⟨u, hwu, trivial, fun ev' h => ?_⟩
    rw [hasked ev' h, ho]
    rfl
  | failed e n =>
    rw [ho] at hleaves
    refine ⟨u, hwu, hleaves, fun ev' h => ?_⟩
    rw [hasked ev' h, ho]
    rfl
  | done a n =>
    rw [ho] at hleaves
    obtain ⟨hn, hcurrent, ha⟩ := hleaves
    obtain ⟨v, huv, hleaves', hasked'⟩ := hf u a hwu ha n hn
    refine ⟨v, G.trans hwu huv, ?_, fun ev' h => ?_⟩
    · show G.Leaves w m B v (f a ev n)
      generalize f a ev n = o at hleaves'
      cases o with
      | exhausted => trivial
      | done b k =>
        obtain ⟨hk, hcurrent', hb⟩ := hleaves'
        exact ⟨hk, hcurrent'.trans hcurrent, hb⟩
      | failed e k =>
        obtain ⟨hk, hcurrent', he⟩ := hleaves'
        exact ⟨hk, hcurrent'.trans hcurrent, G.cause_anti hwu he⟩
    · rw [hasked ev' fun e k hseen => h e k (W.mono huv hseen), ho]
      exact hasked' ev' h

/-! ## Forms -/

theorem all {xs : List Expr} (hxs : ∀ x ∈ xs, G.expr w x) :
    G.Action ev seen w (fun w vs => ∀ v ∈ vs, G.value w v) fun ev => ev.all xs := by
  induction xs generalizing w with
  | nil => exact .pure (List.forall_mem_nil _)
  | cons x xs ih =>
    obtain ⟨hx, hxs⟩ := List.forall_mem_cons.1 hxs
    refine W.bind (W.eval hx) fun u v hwu hv => ?_
    refine W.bind (ih fun y hy => G.expr_mono hwu (hxs y hy)) fun u' vs huu' hvs => ?_
    exact .pure (List.forall_mem_cons.2 ⟨G.value_mono huu' hv, hvs⟩)

theorem unary {x : Expr} (hx : G.expr w x) {f : Value → Evaluator → EvalM Value}
    (hf : ∀ u v, G.le w u → G.value u v → G.Action ev seen u G.value (f v)) :
    G.Action ev seen w G.value fun ev => ev x >>= fun v => f v ev :=
  W.bind (W.eval hx) hf

theorem binary {x y : Expr} (hx : G.expr w x) (hy : G.expr w y)
    {f : Value → Value → Evaluator → EvalM Value}
    (hf : ∀ u v v', G.value u v → G.value u v' → G.Action ev seen u G.value (f v v')) :
    G.Action ev seen w G.value fun ev => ev x >>= fun v => ev y >>= fun v' => f v v' ev :=
  W.unary hx fun _ _ hwu hv => W.unary (G.expr_mono hwu hy) fun u' _ huu' hv' =>
    hf u' _ _ (G.value_mono huu' hv) hv'

omit W in
theorem datum (token : Token) {v : Value} (hv : G.value w v) :
    G.Action ev seen w G.expr fun _ => EvalM.ofExcept token (v.datum token.line) :=
  .ofExcept token (fun _ he => G.datum hv he) fun _ he => Value.datum_error he

omit W in
theorem elements {l : ListValue} (hl : G.value w (.list l)) : ∀ x ∈ l.elements, G.expr w x :=
  G.children (G.list.1 hl)

theorem cons (token : Token) {first second : Value} (hfirst : G.value w first)
    (hsecond : G.value w second) :
    G.Action ev seen w G.value fun _ => Evaluator.cons token first second := by
  unfold Evaluator.cons
  refine W.bind (datum token hfirst) fun u head hwu hhead => ?_
  have hsecond := G.value_mono hwu hsecond
  cases second with
  | list l => exact .newList hhead (elements hsecond)
  | nil => exact .newList hhead nofun
  | bool | number | string | function =>
    refine W.bind (datum token hsecond) fun u' last huu' hlast => ?_
    exact .newList (G.expr_mono huu' hhead) (List.forall_mem_singleton.2 hlast)

theorem operate (op : Token) {xs : List Expr} (hxs : ∀ x ∈ xs, G.expr w x) :
    G.Action ev seen w G.value fun ev => ev.operate op xs := by
  match xs with
  | [x, y] =>
    obtain ⟨hx, hy⟩ := List.forall_mem_cons.1 hxs
    refine W.binary hx (List.forall_mem_singleton.1 hy) fun u v v' _ _ => ?_
    split
    · rename_i o _
      obtain ⟨hok, herror⟩ := o.apply_spec v v'
      exact .ofExcept op (fun a ha => G.scalar (hok a ha)) herror
    · exact .fail op rfl
  | [] | [_] | _ :: _ :: _ :: _ => exact .fail op rfl

theorem cond (token : Token) {xs : List Expr} (hxs : ∀ x ∈ xs, G.expr w x) :
    G.Action ev seen w G.value fun ev => ev.cond token xs := by
  induction xs using Evaluator.cond.induct generalizing w with
  | case1 condition result rest ih =>
    obtain ⟨hcondition, hxs⟩ := List.forall_mem_cons.1 hxs
    refine W.unary hcondition fun u v hwu _ => ?_
    obtain ⟨hresult, hrest⟩ := List.forall_mem_cons.1 hxs
    by_cases hv : v.isTruthy = true
    · simp only [hv, if_true]
      exact W.eval (G.expr_mono hwu hresult)
    · simp only [hv]
      exact ih fun x hx => G.expr_mono hwu (hrest x hx)
  | case2 condition =>
    exact W.unary (List.forall_mem_singleton.1 hxs) fun u v _ _ => .fail token rfl
  | case3 => exact .fail token rfl

theorem applyForm (form : Keyword) (token : Token) {xs : List Expr} (hxs : ∀ x ∈ xs, G.expr w x) :
    G.Action ev seen w G.value fun ev => ev.applyForm form token xs := by
  have scalar {u : G.World} {v : Value} (hv : v.IsScalar) :
      G.Action ev seen u G.value fun _ => Pure.pure v := .pure (G.scalar hv)
  match form, xs with
  | .trueConst, _ | .falseConst, _ | .nilConst, _ => exact scalar trivial
  | .car, [x] =>
    refine W.unary (List.forall_mem_singleton.1 hxs) fun u v _ hv => ?_
    cases v with
    | list l => exact W.eval (elements hv l.head List.mem_cons_self)
    | nil | bool | number | string | function => exact .pure hv
  | .cdr, [x] =>
    refine W.unary (List.forall_mem_singleton.1 hxs) fun u v _ hv => ?_
    split
    · exact scalar trivial
    · obtain ⟨-, hrest⟩ := List.forall_mem_cons.1 (elements hv)
      obtain ⟨hfirst, hrest⟩ := List.forall_mem_cons.1 hrest
      exact .newList hfirst hrest
    · exact .fail token rfl
  | .cons, [x, y] =>
    obtain ⟨hx, hy⟩ := List.forall_mem_cons.1 hxs
    refine W.binary hx (List.forall_mem_singleton.1 hy) fun u v v' hv hv' => ?_
    exact W.cons token hv hv'
  | .cond, xs => exact W.cond token hxs
  | .isNumber, [x] | .isList, [x] =>
    refine W.unary (List.forall_mem_singleton.1 hxs) fun u v _ _ => ?_
    split <;> exact scalar trivial
  | .isNil, [x] | .not, [x] =>
    exact W.unary (List.forall_mem_singleton.1 hxs) fun u v _ _ => scalar trivial
  | .isSymbol, [x] => cases x <;> exact scalar trivial
  | .and, [x, y] =>
    obtain ⟨hx, hy⟩ := List.forall_mem_cons.1 hxs
    exact W.binary hx (List.forall_mem_singleton.1 hy) fun _ _ _ _ _ => scalar trivial
  | .or, [x, y] =>
    obtain ⟨hx, hy⟩ := List.forall_mem_cons.1 hxs
    refine W.binary hx (List.forall_mem_singleton.1 hy) fun _ _ _ _ _ => scalar ?_
    split <;> trivial
  | .set, [x, y] =>
    obtain ⟨-, hy⟩ := List.forall_mem_cons.1 hxs
    cases x with
    | symbol name =>
      refine W.unary (List.forall_mem_singleton.1 hy) fun u v _ hv => ?_
      exact W.bind (.define name.lexeme hv) fun _ _ _ _ => scalar trivial
    | atom | operator | keyword | list | data | define | call => exact .fail token rfl
  | .define, _ => exact .fail token rfl
  | .car, [] | .cdr, [] | .isNumber, [] | .isSymbol, [] | .isList, [] | .isNil, [] | .not, []
  | .car, _ :: _ :: _ | .cdr, _ :: _ :: _ | .isNumber, _ :: _ :: _ | .isSymbol, _ :: _ :: _
  | .isList, _ :: _ :: _ | .isNil, _ :: _ :: _ | .not, _ :: _ :: _
  | .cons, [] | .and, [] | .or, [] | .set, [] | .cons, [_] | .and, [_] | .or, [_] | .set, [_]
  | .cons, _ :: _ :: _ :: _ | .and, _ :: _ :: _ :: _ | .or, _ :: _ :: _ :: _
  | .set, _ :: _ :: _ :: _ => exact .fail token rfl

theorem applyKeyword (token : Token) {xs : List Expr} (hxs : ∀ x ∈ xs, G.expr w x) :
    G.Action ev seen w G.value fun ev => ev.applyKeyword token xs := by
  unfold Evaluator.applyKeyword
  cases token.kind with
  | keyword form => exact W.applyForm form token hxs
  | mark | symbol | string | number | endOfText => exact .fail token rfl

omit W in
theorem enter {m : Machine} (hm : G.machine w m) {f : Closure} (hf : G.value w (.function f))
    {vs : List Value} (hvs : ∀ v ∈ vs, G.value w v) :
    ∃ w', G.le w w' ∧ G.machine w' (m.enter f vs) := by
  obtain ⟨u, hwu, hu⟩ := G.opened hm hf
  refine Machine.defineAll_induction (P := fun n => ∃ w', G.le w w' ∧ G.machine w' n) ?_ _
    ⟨u, hwu, hu⟩
  rintro n name v hv ⟨u, hwu, hu⟩
  obtain ⟨u', huu', hu'⟩ := G.define name hu (G.value_mono hwu (hvs v hv))
  exact ⟨u', G.trans hwu huu', hu'⟩

/-- After the body of a function the scope that was current is current again, also if the body has
failed. -/
theorem invoke {f : Closure} (hf : G.value w (.function f)) {vs : List Value}
    (hvs : ∀ v ∈ vs, G.value w v) : G.Action ev seen w G.value fun ev => ev.invoke f vs := by
  intro m hm
  obtain ⟨u, hwu, hu⟩ := enter hm hf hvs
  obtain ⟨w', huw', hleaves, hseen⟩ := W.sound (G.expr_mono hwu (G.body hf)) hu
  have hww' := G.trans hwu huw'
  refine ⟨w', hww', ?_, fun ev' h => ?_⟩
  · show G.Leaves w m G.value w' (ev.invoke f vs m)
    rw [invoke_eq]
    generalize ev f.body (m.enter f vs) = o at hleaves
    cases o with
    | exhausted => trivial
    | done v n => exact ⟨G.leave hm hww' hleaves.1, rfl, hleaves.2.2⟩
    | failed e n => exact ⟨G.leave hm hww' hleaves.1, rfl, G.cause_anti hwu hleaves.2.2⟩
  · show ev'.invoke f vs m = ev.invoke f vs m
    rw [invoke_eq, invoke_eq, h _ _ hseen]

theorem call {callee : Value} (hcallee : G.value w callee) (token : Token) {xs : List Expr}
    (hxs : ∀ x ∈ xs, G.expr w x) :
    G.Action ev seen w G.value fun ev => ev.call callee token xs := by
  refine W.bind (W.all hxs) fun u vs hwu hvs => ?_
  cases callee with
  | nil | bool | number | string | list => exact .fail token rfl
  | function f =>
    dsimp only
    by_cases hlength : vs.length = f.arity
    · simp only [hlength, if_true]
      exact W.invoke (G.value_mono hwu hcallee) hvs
    · simp only [hlength, if_false]
      exact .fail token rfl

theorem form {head : Expr} {tail : List Expr} (h : G.expr w (.list head tail)) :
    G.Action ev seen w G.value fun ev => ev.form head tail := by
  obtain ⟨hhead, htail⟩ := List.forall_mem_cons.1 (G.children h)
  cases head with
  | operator op => exact W.operate op htail
  | keyword token => exact W.applyKeyword token htail
  | atom => exact .newList hhead htail
  | call _ token =>
    exact W.unary hhead fun _ _ hwu hv =>
      W.call hv token fun x hx => G.expr_mono hwu (htail x hx)
  | symbol | list | data | define => exact .fail _ rfl

/-- What an expression does leads to a later world, and asks only what has been seen there. -/
theorem step {e : Expr} (h : G.expr w e) : G.Action ev seen w G.value fun ev => ev.step e := by
  have hchildren := G.children h
  cases e with
  | atom value _ => exact .pure (G.scalar (by cases value <;> trivial))
  | data label head tail => exact .pure (G.list.2 h)
  | symbol name => exact .get name
  | operator op xs => exact W.operate op hchildren
  | keyword token xs => exact W.applyKeyword token hchildren
  | list head tail => exact W.form h
  | define label name params body =>
    exact W.bind (.defineFunction h) fun _ _ _ _ => .pure (G.scalar trivial)
  | call callee token xs =>
    obtain ⟨hcallee, hxs⟩ := List.forall_mem_cons.1 hchildren
    exact W.unary hcallee fun _ _ hwu hv =>
      W.call hv token fun x hx => G.expr_mono hwu (hxs x hx)

theorem step_asks {e : Expr} (h : G.expr w e) {m : Machine} (hm : G.machine w m) :
    ∃ w', G.le w w' ∧ G.Leaves w m G.value w' (ev.step e m) ∧
      ∀ x k, ev.Asks e m x k → seen w' x k := by
  obtain ⟨w', hw, hleaves, hasked⟩ := W.step h m hm
  refine ⟨w', hw, hleaves, fun x k ⟨ev', hagree, hdiffer⟩ => ?_⟩
  by_contra hseen
  refine hdiffer (hasked ev' fun y n hyn => hagree y n ?_)
  rintro ⟨⟩
  exact hseen hyn

end Watched

/-! ## Runs -/

variable (G) in
/-- Are all values known in the world that the evaluation of `e` on `m` meets? -/
def Seen (depth : Nat) (w : G.World) (e : Expr) (m : Machine) : Prop :=
  ∀ v, Meets depth e m v → G.value w v

theorem Leaves.bound {α : Type} {A : G.World → α → Prop} {w' : G.World} {m n : Machine}
    {o : Outcome α} (h : G.Leaves w m A w' o) (hn : o.after? = some n) : G.machine w' n := by
  cases o with
  | exhausted => exact nomatch hn
  | done | failed =>
    cases hn
    exact h.1

variable (G) in
/-- **An evaluation leads to a later world**, in which all values that it meets are known. -/
theorem watched (depth : Nat) : G.Watched (eval depth) (G.Seen depth) := by
  induction depth with
  | zero =>
    refine ⟨fun hw hseen v hv => G.value_mono hw (hseen v hv), fun {w e m} _ hm => ?_⟩
    refine ⟨w, G.refl w, trivial, fun v hv => ?_⟩
    cases hv with
    | bound h => exact G.bound hm h
    | left hn => exact nomatch hn
    | result h => exact nomatch h
  | succ depth ih =>
    refine ⟨fun hw hseen v hv => G.value_mono hw (hseen v hv), fun {w e m} he hm => ?_⟩
    obtain ⟨w', hw, hleaves, hasks⟩ := ih.step_asks he hm
    refine ⟨w', hw, hleaves, fun v hv => ?_⟩
    cases hv with
    | bound h => exact G.value_mono hw (G.bound hm h)
    | left hn h => exact G.bound (hleaves.bound hn) h
    | result h =>
      rw [show (eval depth).step e m = _ from h] at hleaves
      exact hleaves.2.2
    | inside h hv => exact hasks _ _ h v hv

/-- **A program leads to a later world**, in which all values that it meets are known. The machine
that is left is known in that world, unless the evaluation was stopped. -/
theorem interpret (depth : Nat) {es : List Expr} (hes : ∀ e ∈ es, G.expr w e) {m : Machine}
    (hm : G.machine w m) :
    ∃ w', G.le w w' ∧ (∀ v, m.Meets depth es v → G.value w' v) ∧
      ((m.interpret depth es).ending ≠ .exhausted →
        G.machine w' (m.interpret depth es).machine) := by
  induction es generalizing w m with
  | nil =>
    refine ⟨w, G.refl w, fun v hv => ?_, fun _ => hm⟩
    cases hv with
    | bound h => exact G.bound hm h
  | cons e es ih =>
    obtain ⟨he, hes⟩ := List.forall_mem_cons.1 hes
    obtain ⟨u, hwu, hleaves, hseen⟩ := (G.watched depth).sound he hm
    rw [Machine.interpret]
    cases ho : eval depth e m with
    | exhausted =>
      refine ⟨u, hwu, fun v hv => ?_, fun h => absurd rfl h⟩
      cases hv with
      | bound h => exact G.value_mono hwu (G.bound hm h)
      | now h => exact hseen v h
      | later h => exact nomatch ho.symm.trans h
    | failed error n =>
      rw [ho] at hleaves
      refine ⟨u, hwu, fun v hv => ?_, fun _ => hleaves.1⟩
      cases hv with
      | bound h => exact G.value_mono hwu (G.bound hm h)
      | now h => exact hseen v h
      | later h => exact nomatch ho.symm.trans h
    | done value n =>
      rw [ho] at hleaves
      obtain ⟨w', huw', hmeets, hmachine⟩ := ih (fun x hx => G.expr_mono hwu (hes x hx)) hleaves.1
      refine ⟨w', G.trans hwu huw', fun v hv => ?_, ?_⟩
      · cases hv with
        | bound h => exact G.value_mono (G.trans hwu huw') (G.bound hm h)
        | now h => exact G.value_mono huw' (hseen v h)
        | later h hv =>
          cases ho.symm.trans h
          exact hmeets v hv
      · dsimp only
        split <;> exact hmachine

end Growth

end MiniLisp
