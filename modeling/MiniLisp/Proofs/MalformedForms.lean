import MiniLisp.Proofs.Simulation.Forms
import MiniLisp.Proofs.Visits

/-!
# Malformed forms

What is wrong with the operands of a form can show before any of them is evaluated: then the form
fails at once. How many arguments a function takes is known only when it has been evaluated, and the
arguments are evaluated before they are counted.

* `Expr.Malformed` : the forms that fail at once, with their errors;
* `Evaluator.FailsAfter` : how an expression ends that fails once all arguments have values;
* `malformed_fails` : both kinds, with all that they evaluate.
-/

namespace MiniLisp

open EvalM List

/-! ## Before any operand -/

theorem operate_of_length_ne (ev : Evaluator) (op : Token) {args : List Expr}
    (h : args.length ≠ 2) : ev.operate op args = fail op .notTwoOperands := by
  rcases args with _ | ⟨x, _ | ⟨y, _ | ⟨z, rest⟩⟩⟩
  · rfl
  · rfl
  · exact absurd rfl h
  · rfl

theorem applyForm_set_of_not_symbol (ev : Evaluator) (token : Token) {x : Expr} (y : Expr)
    (hx : ∀ name, x ≠ .symbol name) : ev.applyForm .set token [x, y] = fail token .notASymbol := by
  cases x with
  | symbol name => exact absurd rfl (hx name)
  | _ => rfl

namespace Expr

/-- The form does not have the operands that its operator or keyword takes. -/
inductive Malformed : Expr → RuntimeError → Prop
  | operator {e : Expr} {op : Token} {args : List Expr} (he : e.OperatorForm op args)
      (h : args.length ≠ 2) : Malformed e ⟨op, .notTwoOperands⟩
  | keyword {e : Expr} {t : Token} {args : List Expr} {form : Keyword} {n : Nat}
      (he : e.KeywordForm t args) (ht : t.kind = .keyword form) (hn : form.operands? = some n)
      (h : args.length ≠ n) : Malformed e ⟨t, .operandCount form⟩
  | target {e x y : Expr} {t : Token} (he : e.KeywordForm t [x, y]) (ht : t.kind = .keyword .set)
      (hx : ∀ name, x ≠ .symbol name) : Malformed e ⟨t, .notASymbol⟩
  | define {e : Expr} {t : Token} {args : List Expr} (he : e.KeywordForm t args)
      (ht : t.kind = .keyword .define) : Malformed e ⟨t, .strayDefine⟩

variable {e : Expr} {error : RuntimeError}

theorem Malformed.token_eq (h : e.Malformed error) : error.token = e.token := by
  cases h with
  | operator he => cases he <;> rfl
  | keyword he | target he | define he => cases he <;> rfl

theorem Malformed.step_eq (h : e.Malformed error) (ev : Evaluator) :
    ev.step e = fail error.token error.cause := by
  cases h with
  | operator he hlen => rw [he.step_eq, operate_of_length_ne ev _ hlen]
  | keyword he ht hn hlen => rw [he.step_eq ht, applyForm_of_length_ne ev hn _ hlen]
  | target he ht hx => rw [he.step_eq ht, applyForm_set_of_not_symbol ev _ _ hx]
  | define he ht => rw [he.step_eq ht, applyForm_define]

/-- The forms for which the number of operands is fixed. -/
example :
    Keyword.all.filter (·.operands? = some 2) = [.set, .cons, .and, .or] ∧
    Keyword.all.filter (·.operands? = some 1) =
      [.car, .cdr, .not, .isNumber, .isSymbol, .isList, .isNil] := by
  decide

end Expr

/-! ## After all arguments -/

namespace Evaluator

variable {ev : Evaluator}

/-- From `m`, the arguments are evaluated one after the other by these visits. If all have values,
the outcome is the error, on the machine that they leave; otherwise it is that of the first one
without a value, which is the last one that is evaluated. -/
inductive FailsAfter (ev : Evaluator) (error : RuntimeError) (m : Machine) :
    List Expr → List (Expr × Machine) → Outcome Value → Prop
  | all {args : List Expr} {visits : List (Expr × Machine)} {vs : List Value} {k : Machine}
      (h : ev.InTurn m args visits vs k) : FailsAfter ev error m args visits (.failed error k)
  | first {before after : List Expr} {x : Expr} {visits : List (Expr × Machine)}
      {vs : List Value} {k : Machine} (h : ev.InTurn m before visits vs k)
      (hx : ∀ v n, ev x k ≠ .done v n) :
      FailsAfter ev error m (before ++ x :: after) (visits ++ [(x, k)]) (ev x k)

theorem failsAfter {error : RuntimeError} {args : List Expr}
    (f : Evaluator → List Value → EvalM Value)
    (hf : ∀ ev vs, vs.length = args.length → f ev vs = fail error.token error.cause)
    (ev : Evaluator) (m : Machine) :
    ∃ visits, ev.FailsAfter error m args visits ((ev.all args >>= f ev) m) ∧
      ev.Visits (fun ev => ev.all args >>= f ev) m visits := by
  rcases ev.inTurn_cases m args with
    ⟨visits, vs, k, h⟩ | ⟨before, x, after, visits, vs, k, rfl, h, hx⟩
  · have hfail (ev : Evaluator) := hf ev vs h.length_eq
    have houtcome : (ev.all args >>= f ev) m = .failed error k := by
      rw [bind_done h.all_eq, hfail]
      rfl
    have hvisits : ev.Visits (f · vs) k [] := by
      simp only [hfail]
      exact .none _
    refine ⟨visits, houtcome ▸ .all h, ?_⟩
    simpa using h.visits_all hvisits
  · obtain ⟨houtcome, hvisits⟩ := h.stopped hx after f
    exact ⟨_, houtcome ▸ .first h hx, hvisits⟩

theorem call_of_length_ne (ev : Evaluator) (m : Machine) (f : Closure) (t : Token)
    {args : List Expr} (hlen : args.length ≠ f.arity) :
    ∃ visits,
      ev.FailsAfter ⟨t, .wrongArity f.name.lexeme (f.params.map (·.lexeme)) args.length⟩ m args
        visits (ev.call (.function f) t args m) ∧
      ev.Visits (·.call (.function f) t args) m visits := by
  let counted (ev : Evaluator) (vs : List Value) : EvalM Value :=
    if vs.length = f.arity then ev.invoke f vs
    else fail t (.wrongArity f.name.lexeme (f.params.map (·.lexeme)) vs.length)
  refine failsAfter counted (fun ev vs hvs => ?_) ev m
  rw [← hvs] at hlen ⊢
  exact if_neg hlen

end Evaluator

/-- **Malformed forms fail at once, and calls with the wrong number of arguments never run a
body.** A malformed form is blamed on its head and leaves the machine as it is, and no evaluation
inside it matters. A call of a function that takes another number of arguments evaluates the callee
and then the arguments; if all of them have values it fails with a note that says how the function
is declared, on the machine that the last one of them has left. -/
theorem malformed_fails (depth : Nat) (m : Machine) :
    (∀ e error, e.Malformed error →
      error.token = e.token ∧ eval (depth + 1) e m = .failed error m ∧
        ∀ x k, ¬(eval depth).Asks e m x k) ∧
    ∀ e callee t args f n, e.CallForm callee t args →
      eval depth callee m = .done (.function f) n → args.length ≠ f.arity →
      ∃ (error : RuntimeError) (visits : List (Expr × Machine)),
        error.token = t ∧
        error.message = "Expected " ++ toString f.arity ++ " arguments but got " ++
          toString args.length ++ "." ∧
        error.note? = some ("'" ++ f.name.lexeme ++ "' is declared as (" ++
          " ".intercalate (f.name.lexeme :: f.params.map (·.lexeme)) ++ ")") ∧
        (eval depth).FailsAfter error n args visits (eval (depth + 1) e m) ∧
        ∀ x k, (eval depth).Asks e m x k ↔ (x, k) ∈ (callee, m) :: visits := by
  constructor
  · intro e error h
    have hvisits : (eval depth).Visits (·.step e) m [] := by
      simp only [h.step_eq]
      exact .none _
    refine ⟨h.token_eq, ?_, fun x k hasks => nomatch (hvisits.asks_iff x k).1 hasks⟩
    show (eval depth).step e m = _
    rw [h.step_eq]
    rfl
  · intro e callee t args f n he hcallee hlen
    obtain ⟨visits, hfails, hvisits⟩ := (eval depth).call_of_length_ne n f t hlen
    have hstep : eval (depth + 1) e m = (eval depth).call (.function f) t args n := by
      show (eval depth).step e m = _
      rw [he.step_eq, bind_done hcallee]
    have hall : (eval depth).Visits (·.step e) m ((callee, m) :: visits) := by
      simp only [he.step_eq]
      exact (Evaluator.Visits.one callee).bind hcallee hvisits
    have hcount : (f.params.map (·.lexeme)).length = f.arity := List.length_map _
    rw [← hstep] at hfails
    refine ⟨_, visits, rfl, ?_, rfl, hfails, hall.asks_iff⟩
    rw [← hcount]
    rfl

/-- Without operands `set` fails. As an argument of a function without parameters it binds a name,
and then the call fails. -/
theorem malformed_fails_set :
    let word (text : String) : Token := ⟨.symbol, text, none, 1⟩
    let set : Token := ⟨.keyword .set, "set", none, 1⟩
    let x : Expr := .symbol (word "x")
    let yes : Expr := .keyword ⟨.keyword .trueConst, "true", none, 1⟩ []
    let arg : Expr := .list (.keyword set []) [x, yes]
    let f : Closure := ⟨0, word "f", [], x, Machine.globalScope⟩
    let m := Machine.initial.define "f" (.function f)
    eval 3 (.list (.keyword set []) []) m = .failed ⟨set, .operandCount .set⟩ m ∧
    eval 3 (.call (.symbol (word "f")) (word "f") [arg]) m =
      .failed ⟨word "f", .wrongArity "f" [] 1⟩ (m.define "x" (.bool true)) ∧
    ∃ (error : RuntimeError) (visits : List (Expr × Machine)), error.token = word "f" ∧
      (eval 2).FailsAfter error m [arg] visits
        (eval 3 (.call (.symbol (word "f")) (word "f") [arg]) m) := by
  intro word set x yes arg f m
  have hcallee : eval 2 (.symbol (word "f")) m = .done (.function f) m := by
    show EvalM.get (word "f") m = _
    have hlookup : m.store.lookup "f" m.current = some (.function f) := by
      rw [Store.lookup_eq]
      rfl
    rw [EvalM.get, hlookup]
  have harg : eval 2 arg m = .done .nil (m.define "x" (.bool true)) := rfl
  have hcall : eval 3 (.call (.symbol (word "f")) (word "f") [arg]) m =
      .failed ⟨word "f", .wrongArity "f" [] 1⟩ (m.define "x" (.bool true)) := by
    show (eval 2).step _ m = _
    rw [(Expr.CallForm.call _ _ _).step_eq, bind_done hcallee]
    exact bind_done (Evaluator.InTurn.cons harg (.nil _)).all_eq
  obtain ⟨error, visits, htoken, -, -, hfails, -⟩ := (malformed_fails 2 m).2 _ _ _ [arg] f m
    (.call (.symbol (word "f")) (word "f") [arg]) hcallee (by decide)
  have hset := ((malformed_fails 2 m).1 (.list (.keyword set []) []) _
    (.keyword (.list set [] []) rfl rfl (by decide))).2.1
  exact ⟨hset, hcall, error, visits, htoken, hfails⟩

end MiniLisp
