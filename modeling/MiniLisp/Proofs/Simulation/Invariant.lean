import MiniLisp.Proofs.Simulation.Forms
import MiniLisp.Proofs.StoreLaws

/-!
# Properties of code that evaluation keeps

An `Invariant` is a property of tokens and of expressions. It passes from an expression to its
parts, and to the elements that `cons` makes of values; nothing else is asked of it. Evaluation then
keeps it, wherever code is stored in between.

* `Value.Satisfies`, `Machine.Satisfies` : it holds of the code in a value, or in all bound values;
* `Invariant.simulation` : the simulation of a machine that satisfies it by itself;
* `Invariant.interpret` : a program that satisfies it emits values that do, leaves a machine that
  does, and fails only at tokens that do.
-/

namespace MiniLisp

open List
open RuntimeError (Results)

/-- Two things that are one, which has a property. -/
def Kept {α : Type} (P : α → Prop) (a b : α) : Prop := P a ∧ a = b

theorem Kept.self {α : Type} {P : α → Prop} {a : α} (h : P a) : Kept P a a := ⟨h, rfl⟩

theorem forall₂_kept {α : Type} {P : α → Prop} {xs ys : List α} :
    Forall₂ (Kept P) xs ys ↔ (∀ x ∈ xs, P x) ∧ xs = ys := by
  have h : Forall₂ (Kept P) xs ys ↔ (∀ x ∈ xs, P x) ∧ Forall₂ (· = ·) xs ys :=
    forall₂_and_left xs ys
  rw [h, forall₂_eq_eq_eq]

theorem forall₂_kept_self {α : Type} {P : α → Prop} {xs : List α} (h : ∀ x ∈ xs, P x) :
    Forall₂ (Kept P) xs xs :=
  forall₂_kept.2 ⟨h, rfl⟩

/-! ## Values and machines -/

def Value.Satisfies (token : Token → Prop) (expr : Expr → Prop) : Value → Prop
  | .list l => ∀ e ∈ l.elements, expr e
  | .function f => token f.name ∧ (∀ p ∈ f.params, token p) ∧ expr f.body
  | _ => True

/-- Does all code in the values that are bound have the properties? -/
def Machine.Satisfies (token : Token → Prop) (expr : Expr → Prop) (m : Machine) : Prop :=
  ∀ i name v, (name, v) ∈ m.store.bindings i → v.Satisfies token expr

theorem Machine.initial_bindings (i : ScopeId) : initial.store.bindings i = [] := by
  show (Store.empty.push none).bindings i = []
  rw [Store.bindings_push]
  exact Store.bindings_of_size_le _ (Nat.zero_le i)

theorem Machine.satisfies_initial (token : Token → Prop) (expr : Expr → Prop) :
    initial.Satisfies token expr := by
  intro i name v hv
  rw [initial_bindings] at hv
  exact nomatch hv

section Machine

variable {token : Token → Prop} {expr : Expr → Prop} {m : Machine}

theorem Machine.Satisfies.lookup (h : m.Satisfies token expr) {name : String} {i : ScopeId}
    {v : Value} (hv : m.store.lookup name i = some v) : v.Satisfies token expr := by
  obtain ⟨j, hmem⟩ := Store.exists_mem_of_lookup hv
  exact h j name v hmem

theorem Machine.Satisfies.define (h : m.Satisfies token expr) (name : String) {v : Value}
    (hv : v.Satisfies token expr) : (m.define name v).Satisfies token expr := by
  intro i n w hw
  rcases Store.mem_bindings_define _ _ _ _ hw with ⟨-, heq⟩ | hw
  · cases heq
    exact hv
  · exact h i n w hw

theorem Machine.Satisfies.opened (h : m.Satisfies token expr) (f : Closure) :
    (m.opened f).Satisfies token expr := by
  intro i n w hw
  rw [store_opened, Store.bindings_push] at hw
  exact h i n w hw

end Machine

/-! ## Invariants -/

/-- Properties of tokens and expressions that hold of all code evaluation comes to, if they hold of
the code it starts with. Of the tokens only those must have theirs that can be blamed. -/
structure Invariant where
  token : Token → Prop
  expr : Expr → Prop
  parts : ∀ {e}, expr e → Expr.Matches (Kept token) (Kept expr) e e
  datum : ∀ {t : Token} {v : Value} {e : Expr}, token t → v.Satisfies token expr →
    v.datum t.line = .ok e → expr e

namespace Invariant

variable (I : Invariant)

abbrev value (v : Value) : Prop := v.Satisfies I.token I.expr

abbrev machine (m : Machine) : Prop := m.Satisfies I.token I.expr

theorem value_matches {v : Value} (h : I.value v) : Value.Matches (Kept I.expr) v v := by
  cases v with
  | nil => exact .nil
  | bool b => exact .bool b
  | number n => exact .number n
  | string s => exact .string s
  | list l =>
    obtain ⟨hhead, htail⟩ := List.forall_mem_cons.1 h
    exact .list (.self hhead) (forall₂_kept_self htail)
  | function f => exact .function rfl rfl (.self h.2.2)

/-- Evaluation on a machine that satisfies an invariant, beside itself. -/
def simulation : Simulation where
  token := Kept I.token
  expr := Kept I.expr
  value := Kept I.value
  machine := Kept I.machine
  token_eq h := ⟨congrArg Token.kind h.2.symm, congrArg Token.lexeme h.2.symm⟩
  expr_matches h := h.2 ▸ I.parts h.1
  value_matches h := h.2 ▸ I.value_matches h.1
  nil := .self trivial
  bool _ := .self trivial
  number _ := .self trivial
  string _ := .self trivial
  list label _ _ _ _ hx hxs := by
    obtain ⟨hx, rfl⟩ := hx
    obtain ⟨hall, rfl⟩ := forall₂_kept.1 hxs
    exact .self (List.forall_mem_cons.2 ⟨hx, hall⟩)
  datum := by
    rintro t _ v _ ⟨ht, rfl⟩ ⟨hv, rfl⟩
    cases hdatum : v.datum t.line with
    | ok e => exact .ok (.self (I.datum ht hv hdatum))
    | error cause => exact .error cause
  same := by
    rintro v _ w _ ⟨-, rfl⟩ ⟨-, rfl⟩
    rfl
  label h := h.2 ▸ rfl
  relabelled h := ⟨h.1, h.2 ▸ rfl⟩
  lookup {m m'} name h := by
    obtain ⟨hm, rfl⟩ := h
    cases hv : m.store.lookup name m.current with
    | none => exact .none
    | some v => exact .some (.self (hm.lookup hv))
  define := by
    rintro m _ v _ name ⟨hm, rfl⟩ ⟨hv, rfl⟩
    exact .self (hm.define name hv)
  function := by
    rintro m _ t _ ps _ x _ label ⟨-, rfl⟩ ⟨ht, rfl⟩ hps ⟨hx, rfl⟩
    obtain ⟨hall, rfl⟩ := forall₂_kept.1 hps
    exact .self ⟨ht, hall, hx⟩
  opened := by
    rintro m _ f _ ⟨hm, rfl⟩ ⟨-, heq⟩
    cases heq
    exact .self (hm.opened f)
  leave := by
    rintro m _ n _ ⟨-, rfl⟩ ⟨hn, rfl⟩
    exact .self hn

/-- What a run has if all its code has the properties of an invariant. -/
structure Keeps (r : Run) : Prop where
  emitted : ∀ v ∈ r.emitted, I.value v
  blamed : ∀ e, r.ending = .failed e → I.token e.token
  machine : I.machine r.machine

/-- **A program that satisfies an invariant** emits values that do, leaves a machine that does, and
fails only at tokens that do. -/
theorem interpret (depth : Nat) {xs : List Expr} (hxs : ∀ x ∈ xs, I.expr x) {m : Machine}
    (hm : I.machine m) : I.Keeps (m.interpret depth xs) := by
  obtain ⟨hemitted, hending, hmachine⟩ :=
    I.simulation.interpret depth (forall₂_kept_self hxs) (.self hm)
  refine ⟨(forall₂_kept.1 hemitted).1, fun e he => ?_, hmachine.1⟩
  rw [he] at hending
  cases hending with
  | failed cause ht => exact ht.1

end Invariant

end MiniLisp
