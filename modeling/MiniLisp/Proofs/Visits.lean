import MiniLisp.Proofs.Growth

/-!
# What a form evaluates

A form evaluates some expressions, each on the machine that the one before it has left. A visit is
such an expression with its machine. Which visits there are can be seen from outside: they are the
evaluations that the outcome depends on (`Evaluator.Asks`).

* `Evaluator.Visits` : all that an action evaluates, with one lemma for each way to make actions;
* `Evaluator.Visits.asks_iff` : this is all that an evaluation depends on;
* `Evaluator.InTurn` : expressions that are evaluated one after the other, each to a value;
* `Expr.OperatorForm`, `Expr.KeywordForm`, `Expr.CallForm` : the forms, with a head and operands.
-/

namespace MiniLisp

open EvalM List

/-! ## Actions in a row -/

theorem EvalM.bind_assoc {α β γ : Type} (x : EvalM α) (f : α → EvalM β) (g : β → EvalM γ) :
    x >>= f >>= g = x >>= fun a => f a >>= g := by
  funext m
  show ((x m).bind f).bind g = (x m).bind fun a k => (f a k).bind g
  cases x m <;> rfl

theorem EvalM.done_or_not {α : Type} (x : EvalM α) (m : Machine) :
    (∃ a n, x m = .done a n) ∨ ∀ a n, x m ≠ .done a n := by
  cases x m with
  | done a n => exact .inl ⟨a, n, rfl⟩
  | failed | exhausted => exact .inr fun a n h => nomatch h

theorem EvalM.bind_stopped {α : Type} {x : EvalM α} {f : α → EvalM α} {m : Machine}
    (h : ∀ a n, x m ≠ .done a n) : (x >>= f) m = x m := by
  show (x m).bind f = x m
  cases hx : x m with
  | done a n => exact absurd hx (h a n)
  | failed | exhausted => rfl

namespace Evaluator

variable {ev : Evaluator}

/-! ## Visits -/

/-- The action, whose expressions are evaluated by `ev`, starts on `m` and evaluates these
expressions on these machines. How all others are evaluated does not matter to it, and if one of
these fails at once, it fails. -/
structure Visits (ev : Evaluator) {α : Type} (action : Evaluator → EvalM α) (m : Machine)
    (visits : List (Expr × Machine)) : Prop where
  enough : ∀ ev' : Evaluator, (∀ x k, (x, k) ∈ visits → ev' x k = ev x k) →
    action ev' m = action ev m
  needed : ∀ x k, (x, k) ∈ visits →
    ∀ ev' : Evaluator, (∀ y n, (y, n) ≠ (x, k) → ev' y n = ev y n) →
      ∀ error, ev' x k = .failed error k → action ev' m = .failed error k

namespace Visits

variable {α β : Type} {m n : Machine} {us ws : List (Expr × Machine)}

/-- The outcome of an expression depends on its visits and on no other evaluation. -/
theorem asks_iff {e : Expr} (h : ev.Visits (·.step e) m us) (x : Expr) (k : Machine) :
    ev.Asks e m x k ↔ (x, k) ∈ us := by
  constructor
  · rintro ⟨ev', hother, hne⟩
    by_contra hmem
    refine hne (h.enough ev' fun y n hvisit => hother y n ?_)
    rintro heq
    exact hmem (heq ▸ hvisit)
  · intro hvisit
    exact .of_failed (h.needed x k hvisit)

theorem none (action : EvalM α) : ev.Visits (fun _ => action) m [] :=
  ⟨fun _ _ => rfl, fun _ _ hvisit => nomatch hvisit⟩

theorem one (x : Expr) : ev.Visits (· x) m [(x, m)] where
  enough _ h := h x m List.mem_cons_self
  needed y k hvisit ev' _ error herror := by
    cases List.mem_singleton.1 hvisit
    exact herror

theorem bind {x : Evaluator → EvalM α} {f : Evaluator → α → EvalM β} {a : α}
    (hx : ev.Visits x m us) (hdone : x ev m = .done a n) (hf : ev.Visits (f · a) n ws) :
    ev.Visits (fun ev => x ev >>= f ev) m (us ++ ws) where
  enough ev' h := by
    have hfirst := hx.enough ev' fun y k hvisit => h y k (List.mem_append_left _ hvisit)
    have hsecond := hf.enough ev' fun y k hvisit => h y k (List.mem_append_right _ hvisit)
    rw [bind_done (hfirst.trans hdone), bind_done hdone, hsecond]
  needed y k hvisit ev' hother error herror := by
    by_cases hus : (y, k) ∈ us
    · exact bind_failed (hx.needed y k hus ev' hother error herror)
    · have hfirst := hx.enough ev' fun z l hl => hother z l fun heq => hus (heq ▸ hl)
      rw [bind_done (hfirst.trans hdone)]
      exact hf.needed y k ((List.mem_append.1 hvisit).resolve_left hus) ev' hother error herror

theorem stopped {x : Evaluator → EvalM α} {f : Evaluator → α → EvalM β}
    (hx : ev.Visits x m us) (hstop : ∀ a n, x ev m ≠ .done a n) :
    ev.Visits (fun ev => x ev >>= f ev) m us where
  enough ev' h := by
    have hfirst := hx.enough ev' h
    show (x ev' m).bind (f ev') = (x ev m).bind (f ev)
    rw [hfirst]
    cases hend : x ev m with
    | done a n => exact absurd hend (hstop a n)
    | failed | exhausted => rfl
  needed y k hvisit ev' hother error herror :=
    bind_failed (hx.needed y k hvisit ev' hother error herror)

end Visits

/-! ## Expressions in turn -/

/-- From `m`, the expressions are evaluated one after the other to the values `vs`, by these visits,
and leave `k`. -/
inductive InTurn (ev : Evaluator) :
    Machine → List Expr → List (Expr × Machine) → List Value → Machine → Prop
  | nil (m : Machine) : InTurn ev m [] [] [] m
  | cons {m n k : Machine} {x : Expr} {v : Value} {xs : List Expr} {vs : List Value}
      {visits : List (Expr × Machine)} (hx : ev x m = .done v n) (h : InTurn ev n xs visits vs k) :
      InTurn ev m (x :: xs) ((x, m) :: visits) (v :: vs) k

theorem InTurn.length_eq {m k : Machine} {xs : List Expr} {vs : List Value}
    {visits : List (Expr × Machine)} (h : ev.InTurn m xs visits vs k) : vs.length = xs.length := by
  induction h with
  | nil => rfl
  | cons _ _ ih => exact congrArg (· + 1) ih

/-- Either all expressions give values, or there is a first one that does not. -/
theorem inTurn_cases (ev : Evaluator) (m : Machine) (xs : List Expr) :
    (∃ visits vs k, ev.InTurn m xs visits vs k) ∨
      ∃ before x after visits vs k, xs = before ++ x :: after ∧
        ev.InTurn m before visits vs k ∧ ∀ v n, ev x k ≠ .done v n := by
  induction xs generalizing m with
  | nil => exact .inl ⟨[], [], m, .nil m⟩
  | cons x xs ih =>
    rcases done_or_not (ev x) m with ⟨v, n, hx⟩ | hstop
    · rcases ih n with ⟨visits, vs, k, h⟩ | ⟨before, y, after, visits, vs, k, rfl, h, hy⟩
      · exact .inl ⟨_, _, k, .cons hx h⟩
      · exact .inr ⟨x :: before, y, after, _, _, k, rfl, .cons hx h, hy⟩
    · exact .inr ⟨[], x, xs, [], [], m, rfl, .nil m, hstop⟩

/-- The first expression, then the others, then what is made of their values. -/
theorem all_cons_bind {α : Type} (ev : Evaluator) (x : Expr) (xs : List Expr)
    (f : List Value → EvalM α) :
    ev.all (x :: xs) >>= f = ev x >>= fun v => ev.all xs >>= fun vs => f (v :: vs) := by
  show (ev x >>= fun v => ev.all xs >>= fun vs => pure (v :: vs)) >>= f = _
  rw [bind_assoc]
  congr 1
  funext v
  rw [bind_assoc]
  rfl

section All

variable {m k : Machine} {xs : List Expr} {vs : List Value} {visits : List (Expr × Machine)}

theorem InTurn.all_eq (h : ev.InTurn m xs visits vs k) : ev.all xs m = .done vs k := by
  induction h with
  | nil => rfl
  | cons hx _ ih => exact (bind_done hx).trans (bind_done ih)

theorem InTurn.visits_all {α : Type} (h : ev.InTurn m xs visits vs k)
    {f : Evaluator → List Value → EvalM α} {ws : List (Expr × Machine)}
    (hf : ev.Visits (f · vs) k ws) :
    ev.Visits (fun ev => ev.all xs >>= f ev) m (visits ++ ws) := by
  induction h generalizing f with
  | nil => exact hf
  | cons hx _ ih =>
    simp only [all_cons_bind]
    exact (Visits.one _).bind hx (ih hf)

/-- Nothing is made of them if one of the expressions gives no value. -/
theorem InTurn.stopped (h : ev.InTurn m xs visits vs k) {x : Expr}
    (hx : ∀ v n, ev x k ≠ .done v n) (after : List Expr)
    (f : Evaluator → List Value → EvalM Value) :
    (ev.all (xs ++ x :: after) >>= f ev) m = ev x k ∧
      ev.Visits (fun ev => ev.all (xs ++ x :: after) >>= f ev) m (visits ++ [(x, k)]) := by
  induction h generalizing f with
  | nil m =>
    simp only [List.nil_append, all_cons_bind]
    exact ⟨bind_stopped hx, (Visits.one x).stopped hx⟩
  | cons hy _ ih =>
    simp only [List.cons_append, all_cons_bind]
    obtain ⟨heq, hvisits⟩ := ih hx fun ev vs => f ev (_ :: vs)
    exact ⟨(bind_done hy).trans heq, (Visits.one _).bind hy hvisits⟩

end All

end Evaluator

/-! ## Forms -/

namespace Expr

/-- An operator with its operands: at the head of a list, or alone. -/
inductive OperatorForm : Expr → Token → List Expr → Prop
  | list (op : Token) (xs args : List Expr) : OperatorForm (.list (.operator op xs) args) op args
  | alone (op : Token) (args : List Expr) : OperatorForm (.operator op args) op args

/-- A keyword with its operands: at the head of a list, or alone. -/
inductive KeywordForm : Expr → Token → List Expr → Prop
  | list (t : Token) (xs args : List Expr) : KeywordForm (.list (.keyword t xs) args) t args
  | alone (t : Token) (args : List Expr) : KeywordForm (.keyword t args) t args

/-- A call of what `callee` evaluates to, for which the token is blamed. -/
inductive CallForm : Expr → Expr → Token → List Expr → Prop
  | call (callee : Expr) (t : Token) (args : List Expr) :
      CallForm (.call callee t args) callee t args
  | list (callee : Expr) (t : Token) (xs args : List Expr) :
      CallForm (.list (.call callee t xs) args) (.call callee t xs) t args

variable {e : Expr} {t : Token} {args : List Expr}

theorem OperatorForm.step_eq (h : e.OperatorForm t args) (ev : Evaluator) :
    ev.step e = ev.operate t args := by
  cases h <;> rfl

theorem KeywordForm.step_eq (h : e.KeywordForm t args) {form : Keyword}
    (ht : t.kind = .keyword form) (ev : Evaluator) : ev.step e = ev.applyForm form t args := by
  have hkeyword : ev.step e = ev.applyKeyword t args := by
    cases h <;> rfl
  rw [hkeyword, Evaluator.applyKeyword, ht]

theorem CallForm.step_eq {callee : Expr} (h : e.CallForm callee t args) (ev : Evaluator) :
    ev.step e = ev callee >>= fun c => ev.call c t args := by
  cases h <;> rfl

end Expr

end MiniLisp
