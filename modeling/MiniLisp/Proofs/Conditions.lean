import MiniLisp.Proofs.Visits

/-!
# Conditions

`cond` is a chain of conditions with their results: the first condition that is true selects its
result, and nothing behind it is evaluated. Without such a condition it fails, also if the last one
is true but has no result.

* `Expr.ofClauses` : conditions and results as they stand in a chain;
* `Evaluator.Skips` : clauses whose conditions are not true;
* `Evaluator.Chain` : how a chain ends, and what it evaluates;
* `cond_chain` : every `cond` is such a chain.
-/

namespace MiniLisp

open EvalM List

def Expr.ofClauses (clauses : List (Expr × Expr)) : List Expr :=
  clauses.flatMap fun clause => [clause.1, clause.2]

namespace Evaluator

/-- From `m`, the conditions of the clauses are evaluated one after the other by these visits, none
of them is true, and `k` is left. -/
def Skips (ev : Evaluator) (m : Machine) (clauses : List (Expr × Expr))
    (visits : List (Expr × Machine)) (k : Machine) : Prop :=
  ∃ vs, ev.InTurn m (clauses.map (·.1)) visits vs k ∧ ∀ v ∈ vs, v.isTruthy = false

/-- How a chain ends that starts on `m`, by these visits: all clauses are skipped; or behind them
there is a condition without a result, or one that has no value, or one that is true. -/
inductive Chain (ev : Evaluator) (error : RuntimeError) (m : Machine) :
    List Expr → List (Expr × Machine) → Outcome Value → Prop
  | skipped {clauses : List (Expr × Expr)} {visits : List (Expr × Machine)} {k : Machine}
      (h : ev.Skips m clauses visits k) :
      Chain ev error m (Expr.ofClauses clauses) visits (.failed error k)
  | unpaired {clauses : List (Expr × Expr)} {visits : List (Expr × Machine)} {k n : Machine}
      (h : ev.Skips m clauses visits k) {c : Expr} {v : Value} (hc : ev c k = .done v n) :
      Chain ev error m (Expr.ofClauses clauses ++ [c]) (visits ++ [(c, k)]) (.failed error n)
  | stopped {clauses : List (Expr × Expr)} {visits : List (Expr × Machine)} {k : Machine}
      (h : ev.Skips m clauses visits k) {c : Expr} (hc : ∀ v n, ev c k ≠ .done v n)
      (rest : List Expr) :
      Chain ev error m (Expr.ofClauses clauses ++ c :: rest) (visits ++ [(c, k)]) (ev c k)
  | chosen {clauses : List (Expr × Expr)} {visits : List (Expr × Machine)} {k n : Machine}
      (h : ev.Skips m clauses visits k) {c : Expr} {v : Value} (hc : ev c k = .done v n)
      (hv : v.isTruthy = true) (result : Expr) (rest : List Expr) :
      Chain ev error m (Expr.ofClauses clauses ++ c :: result :: rest)
        (visits ++ [(c, k), (result, n)]) (ev result n)

variable {ev : Evaluator} {error : RuntimeError} {m n : Machine} {c r : Expr} {v : Value}

theorem Skips.nil (ev : Evaluator) (m : Machine) : ev.Skips m [] [] m :=
  ⟨[], .nil m, fun _ hv => nomatch hv⟩

theorem Skips.cons {clauses : List (Expr × Expr)} {visits : List (Expr × Machine)} {k : Machine}
    (hc : ev c m = .done v n) (hv : v.isTruthy = false) (h : ev.Skips n clauses visits k) :
    ev.Skips m ((c, r) :: clauses) ((c, m) :: visits) k := by
  obtain ⟨vs, hturn, hvs⟩ := h
  exact ⟨v :: vs, .cons hc hturn, List.forall_mem_cons.2 ⟨hv, hvs⟩⟩

theorem Chain.cons {args : List Expr} {visits : List (Expr × Machine)} {o : Outcome Value}
    (hc : ev c m = .done v n) (hv : v.isTruthy = false) (h : ev.Chain error n args visits o) :
    ev.Chain error m (c :: r :: args) ((c, m) :: visits) o := by
  cases h with
  | skipped h => exact .skipped (h.cons hc hv)
  | unpaired h hd => exact .unpaired (h.cons hc hv) hd
  | stopped h hd rest => exact .stopped (h.cons hc hv) hd rest
  | chosen h hd htrue result rest => exact .chosen (h.cons hc hv) hd htrue result rest

/-- The chain starts with a clause: its condition decides what comes next. -/
theorem cond_cons (ev : Evaluator) (token : Token) (c r : Expr) (rest : List Expr) :
    ev.cond token (c :: r :: rest) =
      ev c >>= fun v => if v.isTruthy then ev r else ev.cond token rest := rfl

theorem cond_last (ev : Evaluator) (token : Token) (c : Expr) :
    ev.cond token [c] = ev c >>= fun _ => fail token .noTrueCondition := rfl

/-- Any operands are a chain, whose visits are all that is evaluated. -/
theorem chain_cond (ev : Evaluator) (token : Token) (args : List Expr) (m : Machine) :
    ∃ visits, ev.Chain ⟨token, .noTrueCondition⟩ m args visits (ev.cond token args m) ∧
      ev.Visits (·.cond token args) m visits := by
  induction args using Evaluator.cond.induct generalizing m with
  | case1 c r rest ih =>
    simp only [cond_cons]
    rcases done_or_not (ev c) m with ⟨v, n, hc⟩ | hstop
    · rw [bind_done hc]
      cases hv : v.isTruthy with
      | true =>
        refine ⟨_, .chosen (.nil ev m) hc hv r rest, (Visits.one c).bind hc ?_⟩
        simp only [hv, if_true]
        exact .one r
      | false =>
        obtain ⟨visits, hchain, hvisits⟩ := ih n
        refine ⟨_, hchain.cons hc hv, (Visits.one c).bind hc ?_⟩
        simpa only [hv, Bool.false_eq_true, if_false] using hvisits
    · rw [bind_stopped hstop]
      exact ⟨_, .stopped (.nil ev m) hstop _, (Visits.one c).stopped hstop⟩
  | case2 c =>
    simp only [cond_last]
    rcases done_or_not (ev c) m with ⟨v, n, hc⟩ | hstop
    · rw [bind_done hc]
      exact ⟨_, .unpaired (.nil ev m) hc, (Visits.one c).bind hc (.none _)⟩
    · rw [bind_stopped hstop]
      exact ⟨_, .stopped (.nil ev m) hstop _, (Visits.one c).stopped hstop⟩
  | case3 => exact ⟨[], .skipped (.nil ev m), .none _⟩

end Evaluator

/-- **`cond` is a lazy if-chain.** Without operands it fails; with one it evaluates this and then
fails; with more it evaluates the first, and then either the second or the chain of the others.
So it evaluates the conditions up to the first one that is true and has a result, in order, and
this result, and no other operand. -/
theorem cond_chain {token : Token} (htoken : token.kind = .keyword .cond) (depth : Nat)
    (m : Machine) :
    let error : RuntimeError := ⟨token, .noTrueCondition⟩
    error.message = "Lack of true condition" ∧
    (∀ e : Expr, e.KeywordForm token [] → eval (depth + 1) e m = .failed error m) ∧
    (∀ e c : Expr, e.KeywordForm token [c] →
      eval (depth + 1) e m = (eval depth c m).bind fun _ n => .failed error n) ∧
    (∀ (e c r : Expr) (rest : List Expr), e.KeywordForm token (c :: r :: rest) →
      eval (depth + 1) e m = (eval depth c m).bind fun v n =>
        if v.isTruthy then eval depth r n else eval (depth + 1) (.keyword token rest) n) ∧
    ∀ (e : Expr) (args : List Expr), e.KeywordForm token args →
      ∃ visits, (eval depth).Chain error m args visits (eval (depth + 1) e m) ∧
        ∀ x k, (eval depth).Asks e m x k ↔ (x, k) ∈ visits := by
  intro error
  have hstep (e : Expr) (args : List Expr) (he : e.KeywordForm token args) (ev : Evaluator) :
      ev.step e = ev.cond token args := he.step_eq htoken ev
  have heval (e : Expr) (args : List Expr) (he : e.KeywordForm token args) (n : Machine) :
      eval (depth + 1) e n = (eval depth).cond token args n := congrFun (hstep e args he _) n
  refine ⟨rfl, fun e he => heval e [] he m, fun e c he => heval e [c] he m,
    fun e c r rest he => ?_, fun e args he => ?_⟩
  · rw [heval e _ he, Evaluator.cond_cons]
    have hrest := heval (.keyword token rest) rest (.alone token rest)
    show (eval depth c m).bind _ = (eval depth c m).bind _
    congr 1
    funext v n
    rw [hrest]
    split <;> rfl
  · obtain ⟨visits, hchain, hvisits⟩ := (eval depth).chain_cond token args m
    have hall : (eval depth).Visits (·.step e) m visits := by
      simpa only [hstep e args he] using hvisits
    exact ⟨visits, heval e args he m ▸ hchain, hall.asks_iff⟩

/-- A result behind a condition that is not true is not evaluated, and a true condition without a
result does not help. -/
theorem cond_chain_unpaired :
    let token : Token := ⟨.keyword .cond, "cond", none, 1⟩
    let no : Expr := .keyword ⟨.keyword .nilConst, "nil", none, 1⟩ []
    let yes : Expr := .keyword ⟨.keyword .trueConst, "true", none, 1⟩ []
    let stray : Expr := .keyword ⟨.keyword .define, "define", none, 1⟩ []
    let e : Expr := .list (.keyword token []) [no, stray, yes]
    let error : RuntimeError := ⟨token, .noTrueCondition⟩
    token.kind = .keyword .cond ∧
    eval 2 e .initial = .failed error .initial ∧
    ∃ visits, (eval 1).Chain error .initial [no, stray, yes] visits (eval 2 e .initial) := by
  intro token no yes stray e error
  have htoken : token.kind = .keyword .cond := rfl
  obtain ⟨-, -, hlast, hclause, hvisits⟩ := cond_chain htoken 1 .initial
  have houtcome := (hclause e no stray [yes] (.list token [] _)).trans
    (hlast (.keyword token [yes]) yes (.alone token _))
  obtain ⟨visits, hchain, -⟩ := hvisits e _ (.list token [] _)
  exact ⟨htoken, houtcome, visits, hchain⟩

end MiniLisp
