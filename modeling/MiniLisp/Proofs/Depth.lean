import MiniLisp.Proofs.Simulation.Forms

/-!
# Depth

The depth to which evaluation may nest decides only whether it comes to an end. What it comes to is
the same at every depth that suffices, so that an expression evaluates to something or does not.

* `EvalM.Below` : an action that does what the other does, wherever it comes to an end;
* `eval_below` : less depth is below more depth;
* `Machine.Evaluates`, `Machine.EvaluatesAll` : what expressions evaluate to, at some depth;
* `Machine.Evaluates.unique` : they evaluate to one outcome.
-/

namespace MiniLisp

open EvalM

/-! ## Actions that come to an end -/

/-- Does `y` what `x` does, wherever `x` comes to an end? -/
def EvalM.Below {α : Type} (x y : EvalM α) : Prop := ∀ m, x m ≠ .exhausted → y m = x m

/-- Is each expression evaluated so, wherever its evaluation comes to an end? -/
def Evaluator.Below (ev ev' : Evaluator) : Prop := ∀ e, (ev e).Below (ev' e)

theorem EvalM.Below.refl {α : Type} (x : EvalM α) : x.Below x := fun _ _ => rfl

theorem EvalM.Below.bind {α β : Type} {x y : EvalM α} {f g : α → EvalM β} (h : x.Below y)
    (hfg : ∀ a, (f a).Below (g a)) : (x >>= f).Below (y >>= g) := by
  intro m hend
  have hx := h m
  change (x m).bind f ≠ _ at hend
  show (y m).bind g = (x m).bind f
  generalize x m = o at hx hend
  cases o with
  | exhausted => exact absurd rfl hend
  | failed e n => rw [hx nofun]; rfl
  | done a n =>
    rw [hx nofun]
    exact hfg a n hend

namespace Evaluator.Below

variable {ev ev' : Evaluator} (hev : ev.Below ev')
include hev

theorem all (xs : List Expr) : (ev.all xs).Below (ev'.all xs) := by
  induction xs with
  | nil => exact .refl _
  | cons x xs ih => exact (hev x).bind fun v => ih.bind fun vs => .refl _

theorem operate (op : Token) (xs : List Expr) : (ev.operate op xs).Below (ev'.operate op xs) := by
  unfold Evaluator.operate
  split
  · exact (hev _).bind fun v => (hev _).bind fun w => .refl _
  · exact .refl _

theorem cond (token : Token) (xs : List Expr) : (ev.cond token xs).Below (ev'.cond token xs) := by
  induction xs using Evaluator.cond.induct with
  | case1 condition result rest ih =>
    refine (hev condition).bind fun v => ?_
    split
    · exact hev result
    · exact ih
  | case2 condition => exact (hev condition).bind fun v => .refl _
  | case3 => exact .refl _

theorem unary {α : Type} (x : Expr) (f : Value → EvalM α) : (ev x >>= f).Below (ev' x >>= f) :=
  (hev x).bind fun _ => .refl _

theorem binary {α : Type} (x y : Expr) (f : Value → Value → EvalM α) :
    (ev x >>= fun v => ev y >>= f v).Below (ev' x >>= fun v => ev' y >>= f v) :=
  (hev x).bind fun v => hev.unary y (f v)

theorem applyForm (form : Keyword) (token : Token) (xs : List Expr) :
    (ev.applyForm form token xs).Below (ev'.applyForm form token xs) := by
  unfold Evaluator.applyForm
  split
  case h_1 | h_2 | h_3 => exact .refl _
  case h_4 x =>
    refine (hev x).bind fun v => ?_
    cases v with
    | list l => exact hev l.head
    | nil | bool | number | string | function => exact .refl _
  case h_5 x => exact hev.unary x _
  case h_6 x y => exact hev.binary x y _
  case h_7 => exact hev.cond token xs
  case h_8 x => exact hev.unary x _
  case h_9 => exact .refl _
  case h_10 x | h_11 x => exact hev.unary x _
  case h_12 x y | h_13 x y => exact hev.binary x y _
  case h_14 x => exact hev.unary x _
  case h_15 x y =>
    split
    · exact hev.unary y _
    · exact .refl _
  case h_16 | h_17 => exact .refl _

theorem applyKeyword (token : Token) (xs : List Expr) :
    (ev.applyKeyword token xs).Below (ev'.applyKeyword token xs) := by
  unfold Evaluator.applyKeyword
  split
  · exact hev.applyForm _ token xs
  · exact .refl _

theorem invoke (f : Closure) (vs : List Value) : (ev.invoke f vs).Below (ev'.invoke f vs) := by
  intro m hend
  rw [invoke_eq] at hend
  rw [invoke_eq, invoke_eq, hev f.body (m.enter f vs)]
  intro hbody
  rw [hbody] at hend
  exact hend rfl

theorem call (callee : Value) (token : Token) (xs : List Expr) :
    (ev.call callee token xs).Below (ev'.call callee token xs) := by
  refine (hev.all xs).bind fun vs => ?_
  cases callee with
  | nil | bool | number | string | list => exact .refl _
  | function f =>
    dsimp only
    split
    · exact hev.invoke f vs
    · exact .refl _

theorem form (head : Expr) (tail : List Expr) : (ev.form head tail).Below (ev'.form head tail) := by
  cases head with
  | operator op => exact hev.operate op tail
  | keyword token => exact hev.applyKeyword token tail
  | call callee token args => exact (hev _).bind fun v => hev.call v token tail
  | atom | symbol | list | data | define => exact .refl _

theorem step : ev.step.Below ev'.step := by
  intro e
  cases e with
  | atom | data | symbol | define => exact .refl _
  | operator op xs => exact hev.operate op xs
  | keyword token xs => exact hev.applyKeyword token xs
  | list head tail => exact hev.form head tail
  | call callee token xs => exact (hev callee).bind fun v => hev.call v token xs

end Evaluator.Below

/-- **More depth changes nothing**, unless evaluation was stopped for want of it. -/
theorem eval_below {depth depth' : Nat} (h : depth ≤ depth') :
    (eval depth).Below (eval depth') := by
  induction depth generalizing depth' with
  | zero => exact fun _ _ hend => absurd rfl hend
  | succ depth ih =>
    obtain ⟨depth', rfl⟩ : ∃ d, depth' = d + 1 := ⟨depth' - 1, by omega⟩
    exact (ih (Nat.le_of_succ_le_succ h)).step

/-! ## What expressions evaluate to -/

namespace Machine

/-- Does the expression come to the outcome `o`, if it may nest deep enough? -/
def Evaluates (m : Machine) (e : Expr) (o : Outcome Value) : Prop :=
  o ≠ .exhausted ∧ ∃ depth, eval depth e m = o

/-- Do the expressions evaluate to the values, from left to right, and leave the machine `m'`? -/
inductive EvaluatesAll : Machine → List Expr → List Value → Machine → Prop
  | nil (m : Machine) : EvaluatesAll m [] [] m
  | cons {m n m' : Machine} {x : Expr} {v : Value} {xs : List Expr} {vs : List Value}
      (hx : m.Evaluates x (.done v n)) (h : EvaluatesAll n xs vs m') :
      EvaluatesAll m (x :: xs) (v :: vs) m'

namespace Evaluates

variable {m : Machine} {e : Expr} {o : Outcome Value}

theorem done (depth : Nat) {v : Value} {n : Machine} (h : eval depth e m = .done v n) :
    m.Evaluates e (.done v n) := ⟨nofun, depth, h⟩

theorem from_depth (h : m.Evaluates e o) : ∃ d, ∀ depth ≥ d, eval depth e m = o := by
  obtain ⟨hend, d, hd⟩ := h
  refine ⟨d, fun depth hle => ?_⟩
  rw [← hd] at hend ⊢
  exact eval_below hle e m hend

theorem unique {o' : Outcome Value} (h : m.Evaluates e o) (h' : m.Evaluates e o') : o = o' := by
  obtain ⟨d, hd⟩ := h.from_depth
  obtain ⟨d', hd'⟩ := h'.from_depth
  rw [← hd _ (Nat.le_max_left d d'), hd' _ (Nat.le_max_right d d')]

end Evaluates

end Machine

end MiniLisp
