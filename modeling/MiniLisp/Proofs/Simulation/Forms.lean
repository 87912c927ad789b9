import MiniLisp.Proofs.Simulation.Basic

/-!
# Evaluation keeps every simulation

One lemma for each form: if the expressions inside it are evaluated in corresponding ways, so is the
form. Then, by induction on the depth:

* `applyForm_of_length_ne` : a form with the wrong number of operands fails at once;
* `Simulation.eval` : corresponding expressions have corresponding outcomes;
* `Simulation.invoke` : so have the bodies of corresponding functions, on corresponding arguments;
* `Simulation.interpret` : so have programs, with their emitted values and their ending.
-/

namespace MiniLisp

open EvalM List
open RuntimeError (Results)

/-! ## Operand counts -/

theorem applyForm_of_length_ne (ev : Evaluator) {form : Keyword} {n : Nat}
    (hn : form.operands? = some n) (token : Token) {args : List Expr} (h : args.length ≠ n) :
    ev.applyForm form token args = fail token (.operandCount form) := by
  rcases args with _ | ⟨x, _ | ⟨y, _ | ⟨z, rest⟩⟩⟩ <;> cases form <;>
    simp_all [Keyword.operands?] <;> rfl

theorem applyForm_define (ev : Evaluator) (token : Token) (args : List Expr) :
    ev.applyForm .define token args = fail token .strayDefine := by
  rcases args with _ | ⟨x, _ | ⟨y, rest⟩⟩ <;> rfl

namespace Simulation

variable {R : Simulation}

/-! ## The forms -/

/-- What an operator makes of corresponding operands is the same, and corresponds to itself. -/
theorem operator_apply (R : Simulation) (op : Operator) {v v' w w' : Value} (hv : R.value v v')
    (hw : R.value w w') : Results R.value (op.apply v w) (op.apply v' w') := by
  have hsame := R.same hv hw
  have hv := R.value_matches hv
  have hw := R.value_matches hw
  cases op with
  | equal =>
    show Results R.value (.ok (.bool (v.same w))) (.ok (.bool (v'.same w')))
    rw [hsame]
    exact .ok (R.bool _)
  | plus =>
    cases hv <;> cases hw <;>
      first | exact .ok (R.number _) | exact .ok (R.string _) | exact .error _
  | minus => cases hv <;> cases hw <;> first | exact .ok (R.number _) | exact .error _
  | star => cases hv <;> cases hw <;> first | exact .ok (R.number _) | exact .error _
  | slash => cases hv <;> cases hw <;> first | exact .ok (R.number _) | exact .error _
  | less => cases hv <;> cases hw <;> first | exact .ok (R.bool _) | exact .error _
  | greater => cases hv <;> cases hw <;> first | exact .ok (R.bool _) | exact .error _

theorem cons (R : Simulation) {t t' : Token} (ht : R.token t t') {v v' w w' : Value}
    (hv : R.value v v') (hw : R.value w w') :
    R.Action R.value (Evaluator.cons t v w) (Evaluator.cons t' v' w') := by
  refine (Action.ofExcept ht (R.datum ht hv)).bind fun x x' hx => ?_
  have single : R.Action R.value (EvalM.ofExcept t (w.datum t.line) >>= fun y => newList x [y])
      (EvalM.ofExcept t' (w'.datum t'.line) >>= fun y => newList x' [y]) :=
    (Action.ofExcept ht (R.datum ht hw)).bind fun y y' hy => .newList hx (.cons hy .nil)
  cases R.value_matches hw with
  | list hhead htail => exact .newList hx (.cons hhead htail)
  | nil => exact .newList hx .nil
  | bool => exact single
  | number => exact single
  | string => exact single
  | function => exact single

/-- A form of one operand corresponds to itself if it does on every single operand. -/
theorem applyForm_unary {ev ev' : Evaluator} {form : Keyword} (hform : form.operands? = some 1)
    {t t' : Token} (ht : R.token t t')
    (h : ∀ x x', R.expr x x' →
      R.Action R.value (ev.applyForm form t [x]) (ev'.applyForm form t' [x']))
    {xs xs' : List Expr} (hxs : Forall₂ R.expr xs xs') :
    R.Action R.value (ev.applyForm form t xs) (ev'.applyForm form t' xs') := by
  by_cases hlen : xs.length = 1
  · obtain ⟨x, rfl⟩ := List.length_eq_one_iff.1 hlen
    obtain ⟨x', _, hx, hnil, rfl⟩ := forall₂_cons_left_iff.1 hxs
    obtain rfl := forall₂_nil_left_iff.1 hnil
    exact h x x' hx
  · rw [applyForm_of_length_ne ev hform t hlen,
      applyForm_of_length_ne ev' hform t' (hxs.length_eq ▸ hlen)]
    exact .fail ht _

/-- A form of two operands corresponds to itself if it does on every two operands. -/
theorem applyForm_binary {ev ev' : Evaluator} {form : Keyword} (hform : form.operands? = some 2)
    {t t' : Token} (ht : R.token t t')
    (h : ∀ x x' y y', R.expr x x' → R.expr y y' →
      R.Action R.value (ev.applyForm form t [x, y]) (ev'.applyForm form t' [x', y']))
    {xs xs' : List Expr} (hxs : Forall₂ R.expr xs xs') :
    R.Action R.value (ev.applyForm form t xs) (ev'.applyForm form t' xs') := by
  by_cases hlen : xs.length = 2
  · obtain ⟨x, y, rfl⟩ := List.length_eq_two.1 hlen
    obtain ⟨x', _, hx, hrest, rfl⟩ := forall₂_cons_left_iff.1 hxs
    obtain ⟨y', _, hy, hnil, rfl⟩ := forall₂_cons_left_iff.1 hrest
    obtain rfl := forall₂_nil_left_iff.1 hnil
    exact h x x' y y' hx hy
  · rw [applyForm_of_length_ne ev hform t hlen,
      applyForm_of_length_ne ev' hform t' (hxs.length_eq ▸ hlen)]
    exact .fail ht _

section Forms

variable {ev ev' : Evaluator} (hev : R.Evaluators ev ev')
include hev

theorem all {xs xs' : List Expr} (hxs : Forall₂ R.expr xs xs') :
    R.Action (Forall₂ R.value) (ev.all xs) (ev'.all xs') := by
  induction hxs with
  | nil => exact .pure .nil
  | cons hx _ ih =>
    exact (hev hx).bind fun v v' hv => ih.bind fun vs vs' hvs => .pure (.cons hv hvs)

theorem operate {t t' : Token} (ht : R.token t t') {xs xs' : List Expr}
    (hxs : Forall₂ R.expr xs xs') : R.Action R.value (ev.operate t xs) (ev'.operate t' xs') := by
  cases hxs with
  | nil => exact .fail ht _
  | cons hx hxs =>
    cases hxs with
    | nil => exact .fail ht _
    | cons hy hxs =>
      cases hxs with
      | cons => exact .fail ht _
      | nil =>
        refine (hev hx).bind fun v v' hv => (hev hy).bind fun w w' hw => ?_
        rw [(R.token_eq ht).1]
        split
        · exact .ofExcept ht (operator_apply R _ hv hw)
        · exact .fail ht _

theorem cond {t t' : Token} (ht : R.token t t') {xs xs' : List Expr}
    (hxs : Forall₂ R.expr xs xs') : R.Action R.value (ev.cond t xs) (ev'.cond t' xs') := by
  induction xs using Evaluator.cond.induct generalizing xs' with
  | case1 condition result rest ih =>
    obtain ⟨_, _, hx, ⟨_, _, hy, hrest, rfl⟩, rfl⟩ := by
      simpa only [forall₂_cons_left_iff] using hxs
    refine (hev hx).bind fun v v' hv => ?_
    rw [(R.value_matches hv).isTruthy]
    split
    · exact hev hy
    · exact ih hrest
  | case2 condition =>
    obtain ⟨_, _, hx, hnil, rfl⟩ := by simpa only [forall₂_cons_left_iff] using hxs
    obtain rfl := forall₂_nil_left_iff.1 hnil
    exact (hev hx).bind fun _ _ _ => .fail ht _
  | case3 =>
    obtain rfl := forall₂_nil_left_iff.1 hxs
    exact .fail ht _

theorem applyForm (form : Keyword) {t t' : Token}
    (ht : (Kind.keyword form).IsConstant ∨ R.token t t') {xs xs' : List Expr}
    (hxs : Forall₂ R.expr xs xs') :
    R.Action R.value (ev.applyForm form t xs) (ev'.applyForm form t' xs') := by
  by_cases hconst : (Kind.keyword form).IsConstant
  · rcases hconst with h | h | h <;> cases h
    · exact .pure R.nil
    · exact .pure (R.bool true)
    · exact .pure (R.bool false)
  replace ht := ht.resolve_left hconst
  cases form with
  | nilConst | trueConst | falseConst => exact absurd (by simp [Kind.IsConstant]) hconst
  | define =>
    rw [applyForm_define, applyForm_define]
    exact .fail ht _
  | cond => exact cond hev ht hxs
  | car =>
    refine applyForm_unary rfl ht (fun x x' hx => (hev hx).bind fun v v' hv => ?_) hxs
    cases R.value_matches hv with
    | list hhead htail => exact hev hhead
    | nil | bool | number | string | function => exact .pure hv
  | cdr =>
    refine applyForm_unary rfl ht (fun x x' hx => (hev hx).bind fun v v' hv => ?_) hxs
    cases R.value_matches hv with
    | @list l l' hhead htail =>
      obtain ⟨label, head, tail⟩ := l
      obtain ⟨label', head', tail'⟩ := l'
      cases htail with
      | nil => exact .pure R.nil
      | cons hfirst hrest => exact .newList hfirst hrest
    | nil | bool | number | string | function => exact .fail ht _
  | isNumber =>
    refine applyForm_unary rfl ht (fun x x' hx => (hev hx).bind fun v v' hv => ?_) hxs
    cases R.value_matches hv <;> exact .pure (R.bool _)
  | isList =>
    refine applyForm_unary rfl ht (fun x x' hx => (hev hx).bind fun v v' hv => ?_) hxs
    cases R.value_matches hv <;> exact .pure (R.bool _)
  | isSymbol =>
    refine applyForm_unary rfl ht (fun x x' hx => ?_) hxs
    cases R.expr_matches hx <;> exact .pure (R.bool _)
  | isNil =>
    refine applyForm_unary rfl ht (fun x x' hx => (hev hx).bind fun v v' hv => ?_) hxs
    rw [(R.value_matches hv).isNil]
    exact .pure (R.bool _)
  | not =>
    refine applyForm_unary rfl ht (fun x x' hx => (hev hx).bind fun v v' hv => ?_) hxs
    rw [(R.value_matches hv).isTruthy]
    exact .pure (R.bool _)
  | cons =>
    refine applyForm_binary rfl ht (fun x x' y y' hx hy => ?_) hxs
    exact (hev hx).bind fun v v' hv => (hev hy).bind fun w w' hw => cons R ht hv hw
  | and =>
    refine applyForm_binary rfl ht (fun x x' y y' hx hy => ?_) hxs
    refine (hev hx).bind fun v v' hv => (hev hy).bind fun w w' hw => ?_
    rw [(R.value_matches hv).isTruthy, (R.value_matches hw).isTruthy]
    exact .pure (R.bool _)
  | or =>
    refine applyForm_binary rfl ht (fun x x' y y' hx hy => ?_) hxs
    refine (hev hx).bind fun v v' hv => (hev hy).bind fun w w' hw => ?_
    rw [(R.value_matches hv).isTruthy, (R.value_matches hw).isTruthy]
    split
    · exact .pure (R.bool true)
    · exact .pure R.nil
  | set =>
    refine applyForm_binary rfl ht (fun x x' y y' hx hy => ?_) hxs
    cases R.expr_matches hx with
    | @symbol name name' hname =>
      refine (hev hy).bind fun v v' hv => ?_
      rw [(R.token_eq hname).2]
      exact (Action.define _ hv).bind fun _ _ _ => .pure R.nil
    | atom | operator | keyword | list | data | define | call => exact .fail ht _

theorem applyKeyword {t t' : Token} (hk : t'.kind = t.kind)
    (ht : t.kind.IsConstant ∨ R.token t t') {xs xs' : List Expr} (hxs : Forall₂ R.expr xs xs') :
    R.Action R.value (ev.applyKeyword t xs) (ev'.applyKeyword t' xs') := by
  unfold Evaluator.applyKeyword
  rw [hk]
  split
  · rename_i form hform
    exact applyForm hev form (hform ▸ ht) hxs
  · rename_i hform
    refine .fail (ht.resolve_left ?_) _
    rintro (h | h | h) <;> exact hform _ h

theorem invoke {f f' : Closure} (hf : R.value (.function f) (.function f')) {vs vs' : List Value}
    (hvs : Forall₂ R.value vs vs') : R.Action R.value (ev.invoke f vs) (ev'.invoke f' vs') := by
  intro m m' hm
  have hbody : R.expr f.body f'.body := by
    cases R.value_matches hf with
    | function _ _ hbody => exact hbody
  rw [invoke_eq, invoke_eq]
  have h := hev hbody (R.enter hf hvs hm)
  generalize ev f.body (m.enter f vs) = o, ev' f'.body (m'.enter f' vs') = o' at h
  cases h with
  | done hv hn => exact .done hv (R.leave hm hn) ⟨rfl, rfl⟩
  | failed cause ht hn => exact .failed cause ht (R.leave hm hn) ⟨rfl, rfl⟩
  | exhausted => exact .exhausted

theorem call {v v' : Value} (hv : R.value v v') {t t' : Token} (ht : R.token t t')
    {xs xs' : List Expr} (hxs : Forall₂ R.expr xs xs') :
    R.Action R.value (ev.call v t xs) (ev'.call v' t' xs') := by
  refine (all hev hxs).bind fun vs vs' hvs => ?_
  cases R.value_matches hv with
  | nil | bool | number | string | list => exact .fail ht _
  | @function f f' hname hparams hbody =>
    have harity : f'.arity = f.arity := by
      unfold Closure.arity
      simpa only [List.length_map] using congrArg List.length hparams
    show R.Action R.value
      (if vs.length = f.arity then ev.invoke f vs
        else EvalM.fail t (.wrongArity f.name.lexeme (f.params.map (·.lexeme)) vs.length))
      (if vs'.length = f'.arity then ev'.invoke f' vs'
        else EvalM.fail t' (.wrongArity f'.name.lexeme (f'.params.map (·.lexeme)) vs'.length))
    rw [harity, hname, hparams, ← hvs.length_eq]
    split
    · exact invoke hev hv hvs
    · exact .fail ht _

theorem form {x x' : Expr} {xs xs' : List Expr} (htoken : R.token x.token x'.token)
    (hx : R.expr x x') (hxs : Forall₂ R.expr xs xs') :
    R.Action R.value (ev.form x xs) (ev'.form x' xs') := by
  cases R.expr_matches hx with
  | operator ht _ => exact operate hev ht hxs
  | keyword hk ht _ => exact applyKeyword hev hk ht hxs
  | atom => exact .newList hx hxs
  | call _ ht _ => exact (hev hx).bind fun v v' hv => call hev hv ht hxs
  | symbol | list | data | define => exact .fail htoken _

theorem step : R.Evaluators ev.step ev'.step := by
  intro e e' he
  cases R.expr_matches he with
  | atom value =>
    cases value with
    | number n => exact .pure (R.number n)
    | string s => exact .pure (R.string s)
  | data label hx hxs => exact .pure (R.list label hx hxs)
  | symbol ht => exact .get ht
  | operator ht hxs => exact operate hev ht hxs
  | keyword hk ht hxs => exact applyKeyword hev hk ht hxs
  | list ht hx hxs => exact form hev ht hx hxs
  | define label ht hps hx =>
    exact (Action.defineFunction ht hps hx).bind fun _ _ _ => .pure R.nil
  | call hx ht hxs => exact (hev hx).bind fun v v' hv => call hev hv ht hxs

end Forms

/-! ## Runs -/

/-- **Corresponding expressions have corresponding outcomes on corresponding machines.** -/
theorem eval (R : Simulation) (depth : Nat) : R.Evaluators (eval depth) (eval depth) := by
  induction depth with
  | zero => exact fun _ _ _ _ _ _ => .exhausted
  | succ depth ih => exact step ih

/-- Endings of one kind; errors have one cause, and are blamed on corresponding tokens. -/
inductive Endings (R : Simulation) : Ending → Ending → Prop
  | completed : Endings R .completed .completed
  | failed {t t' : Token} (cause : RuntimeError.Cause) (ht : R.token t t') :
      Endings R (.failed ⟨t, cause⟩) (.failed ⟨t', cause⟩)
  | exhausted : Endings R .exhausted .exhausted

/-- Runs that correspond: in their values, how they end, and the machines that are left. -/
structure Runs (R : Simulation) (r r' : MiniLisp.Run) : Prop where
  emitted : Forall₂ R.value r.emitted r'.emitted
  ending : R.Endings r.ending r'.ending
  machine : R.machine r.machine r'.machine

/-- **Corresponding programs have corresponding runs on corresponding machines.** -/
theorem interpret (R : Simulation) (depth : Nat) {xs xs' : List Expr}
    (hxs : Forall₂ R.expr xs xs') {m m' : Machine} (hm : R.machine m m') :
    R.Runs (m.interpret depth xs) (m'.interpret depth xs') := by
  induction hxs generalizing m m' with
  | nil => exact ⟨.nil, .completed, hm⟩
  | @cons x x' xs xs' hx _ ih =>
    have h := R.eval depth hx hm
    unfold Machine.interpret
    generalize MiniLisp.eval depth x m = o, MiniLisp.eval depth x' m' = o' at h
    cases h with
    | failed cause ht hn => exact ⟨.nil, .failed cause ht, hn⟩
    | exhausted => exact ⟨.nil, .exhausted, hm⟩
    | done hv hn =>
      obtain ⟨hemitted, hending, hmachine⟩ := ih hn
      simp only [(R.value_matches hv).isNil]
      split
      · exact ⟨hemitted, hending, hmachine⟩
      · exact ⟨.cons hv hemitted, hending, hmachine⟩

end Simulation

end MiniLisp
