import Mathlib.Logic.Relation
import MiniLisp.Proofs.Blame
import MiniLisp.Proofs.RootedScopes

/-!
# The global scope

Between top-level expressions the global scope is current, whatever has failed and however deep, and
what is bound in it is found from everywhere.

* `Machine.Leads` : machines that follow one another between top-level expressions;
* `Machine.Resolves` : a global name is found in every function, and no expression fails for want of
  it;
* `Machine.AtRest` : what holds between top-level expressions;
* `Session.Ran.atRest` : it holds after every unit, and after any number of its expressions.
-/

namespace MiniLisp

/-! ## Between top-level expressions -/

/-- What can happen to a machine between one top-level expression and the next: the definitions of a
unit are labelled, or an expression is evaluated to a value or an error. -/
inductive Machine.Advances (m : Machine) : Machine → Prop
  | adopt (exprs : List Expr) : Advances m (m.adopt exprs).2
  | done {depth : Nat} {e : Expr} {v : Value} {n : Machine} (h : eval depth e m = .done v n) :
      Advances m n
  | failed {depth : Nat} {e : Expr} {error : RuntimeError} {n : Machine}
      (h : eval depth e m = .failed error n) : Advances m n

/-- Does `n` come after `m`, with any number of top-level expressions between them? -/
def Machine.Leads : Machine → Machine → Prop := Relation.ReflTransGen Machine.Advances

namespace Machine

variable {m n : Machine}

theorem Advances.continues (h : m.Advances n) (hm : m.WellScoped) : m.Continues n := by
  cases h with
  | adopt exprs => exact ⟨.refl _, ⟨hm.size_pos, hm.current, hm.closures⟩, rfl⟩
  | @done depth e v n h =>
    have hrun := hm.upholds depth e
    rw [h] at hrun
    exact hrun.1
  | @failed depth e error n h =>
    have hrun := hm.upholds depth e
    rw [h] at hrun
    exact hrun.1

theorem Leads.continues (h : m.Leads n) (hm : m.WellScoped) : m.Continues n := by
  induction h with
  | refl => exact .refl hm
  | tail _ hstep ih => exact ih.trans (hstep.continues ih.wellScoped)

theorem interpret_leads (depth : Nat) (m : Machine) (xs : List Expr) :
    m.Leads (m.interpret depth xs).machine := by
  induction xs generalizing m with
  | nil => exact .refl
  | cons x xs ih =>
    rw [interpret]
    cases h : eval depth x m with
    | exhausted => exact .refl
    | failed error n => exact .single (.failed h)
    | done v n =>
      have hrest := Relation.ReflTransGen.head (.done h) (ih n)
      dsimp only
      split <;> exact hrest

theorem interpret_take_leads (depth : Nat) (m : Machine) (xs : List Expr) (k : Nat) :
    (m.interpret depth (xs.take k)).machine.Leads (m.interpret depth xs).machine := by
  induction xs generalizing m k with
  | nil =>
    rw [List.take_nil]
    exact .refl
  | cons x xs ih =>
    cases k with
    | zero => exact interpret_leads depth m (x :: xs)
    | succ k =>
      rw [List.take_succ_cons, interpret, interpret]
      cases eval depth x m with
      | exhausted | failed => exact .refl
      | done v n =>
        dsimp only
        split <;> exact ih n k

end Machine

/-- What it is for a name to be found from everywhere on a machine: it is a global name, it is found
in the body of every function, and no expression fails for want of it, however deep. -/
structure Machine.Resolves (m : Machine) (name : String) : Prop where
  bound : name ∈ m.globals.names
  inside : ∀ i n f, (n, .function f) ∈ m.store.bindings i → ∀ args,
    ((m.enter f args).store.lookup name (m.enter f args).current).isSome = true
  found : ∀ depth e error n, eval depth e m = .failed error n →
    error.cause ≠ .undefinedVariable name

/-- What holds of a machine between top-level expressions. The global scope is current, and from the
scope of every function that is bound anywhere a chain without repetitions leads to it; what is set
or defined next is a global binding; and the global names are found from everywhere at any later
time. -/
structure Machine.AtRest (m : Machine) : Prop where
  current : m.current = globalScope
  chain : ∀ i name f, (name, .function f) ∈ m.store.bindings i →
    ∃ path, m.store.Chain f.scope path ∧ path.Nodup ∧ path.getLast? = some globalScope
  set : ∀ depth (token name : Token) args x v n, token.kind = .keyword .set →
    eval depth x m = .done v n →
    ∃ k, eval (depth + 1) (.list (.keyword token args) [.symbol name, x]) m = .done .nil k ∧
      k.globals = n.globals.bind name.lexeme v
  define : ∀ depth label (name : Token) params body, ∃ object k,
    eval (depth + 1) (.define label name params body) m = .done .nil k ∧
      k.globals = m.globals.bind name.lexeme (.function ⟨object, name, params, body, globalScope⟩)
  resolves : ∀ name ∈ m.globals.names, ∀ n, m.Leads n → n.Resolves name

namespace Machine.WellScoped

variable {m : Machine} (hm : m.WellScoped)
include hm

theorem resolves {name : String} (hname : name ∈ m.globals.names) : m.Resolves name where
  bound := hname
  inside i n f hf args := by
    obtain ⟨hgrows, hcurrent⟩ :=
      (m.opened f).grows_defineAll (f.params.map (·.lexeme)) args
    have hopened := (hm.opened (hm.closures i n f hf)).current
    unfold Machine.enter
    rw [hcurrent]
    exact (hopened.mono hgrows).lookup ((m.grows_enter f args).names hname)
  found depth e error n h := by
    have hrun := hm.upholds depth e
    rw [h] at hrun
    exact hrun.2 name hname

theorem globals_define (hcurrent : m.current = globalScope) (name : String) (v : Value) :
    (m.define name v).globals = m.globals.bind name v := by
  unfold globals
  rw [store_define, hcurrent, Store.bindings_define, if_pos ⟨rfl, hm.size_pos⟩]

theorem rest (hcurrent : m.current = globalScope) : m.AtRest where
  current := hcurrent
  chain i name f hf := (hm.closures i name f hf).chain
  set depth token name args x v n htoken h := by
    have hrun := hm.upholds depth x
    rw [h] at hrun
    obtain ⟨hn, -⟩ := hrun
    have hglobals := hn.wellScoped.globals_define (hn.current.trans hcurrent) name.lexeme v
    refine ⟨n.define name.lexeme v, ?_, hglobals⟩
    show (eval depth).applyKeyword token [.symbol name, x] m = _
    unfold Evaluator.applyKeyword
    rw [htoken]
    show (eval depth x m).bind _ = _
    rw [h]
    rfl
  define depth label name params body := by
    refine ⟨m.labels.object, _, rfl, ?_⟩
    rw [← hcurrent]
    exact hm.relabelled.globals_define hcurrent name.lexeme _
  resolves name hname n h := by
    have hn := h.continues hm
    exact hn.wellScoped.resolves (hn.grows.names hname)

end Machine.WellScoped

/-! ## Sessions -/

/-- The machine after the first `k` expressions of a unit. -/
def Session.after (depth : Nat) (s : Session) (unit : String) (k : Nat) : Machine :=
  let (program, m) := s.machine.adopt (Expr.read unit).expressions
  (m.interpret depth (program.take k)).machine

theorem Session.after_leads (depth : Nat) (s : Session) (unit : String) (k : Nat) :
    s.machine.Leads (s.after depth unit k) ∧
      (s.after depth unit k).Leads (s.run depth unit).session.machine :=
  ⟨.head (.adopt _) (Machine.interpret_leads ..), Machine.interpret_take_leads ..⟩

theorem Session.Ran.leads {units : List String} {s : Session} (h : Ran units s) :
    Machine.initial.Leads s.machine := by
  induction h with
  | initial => exact .refl
  | @run _ s _ depth unit ih =>
    obtain ⟨hafter, hrun⟩ := s.after_leads depth unit 0
    exact (ih.trans hafter).trans hrun
  | reset _ ih => exact ih

theorem Machine.Leads.rest {m : Machine} (h : initial.Leads m) : m.AtRest := by
  have hm := h.continues wellScoped_initial
  exact hm.wellScoped.rest hm.current

/-- **Between top-level expressions a session is at rest in the global scope**: after all units that
it has run, and after any number of expressions of the next unit, whatever has failed in them. -/
theorem Session.Ran.atRest {units : List String} {s : Session} (h : Ran units s) :
    s.machine.AtRest ∧ ∀ depth unit k,
      let m := s.after depth unit k
      m.AtRest ∧ s.machine.Leads m ∧ m.Leads (s.run depth unit).session.machine := by
  refine ⟨Machine.Leads.rest h.leads, fun depth unit k => ?_⟩
  obtain ⟨hafter, hrun⟩ := s.after_leads depth unit k
  exact ⟨Machine.Leads.rest (h.leads.trans hafter), hafter, hrun⟩

/-- A unit that fails two calls deep leaves the global scope current. -/
theorem Session.Ran.atRest_failed :
    let s := (Session.initial.run 9 "(define (f x)(+ x x))").session
    let r := s.run 9 "(define (g y)(f y))(g nil)"
    (r.ending = .failed ⟨⟨.mark (.operator .plus), "+", none, 1⟩, .notAddable⟩ ∧
      r.session.machine.globals.names = ["f", "g"]) ∧ r.session.machine.AtRest := by
  intro s r
  have hran : s.Ran ["(define (f x)(+ x x))"] := .run .initial 9 _
  exact ⟨by decide +kernel, (Session.Ran.atRest (hran.run 9 _)).1⟩

end MiniLisp
