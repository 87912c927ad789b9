import MiniLisp.Proofs.Equality
import MiniLisp.Proofs.ListData
import MiniLisp.Proofs.Simulation.SameCode

/-!
# Lists put together again

A list inside a list is written in the text, or it was made and put there. Both are printed alike
and are taken out alike; but taking out and putting back turns the first into the second, and
equality tells them apart.

* `Machine.Evaluates.labels_le` : evaluation takes back no label;
* `Expr.IsData` : elements that are numbers, strings, and lists of such;
* `Expr.PutBack` : what an element is once it was taken out and put back;
* `Machine.Evaluates.equal` : the form that compares two values;
* `rebuilt_list` : the theorem.
-/

namespace MiniLisp

open EvalM List

/-! ## Labels -/

/-- A machine beside itself, after `b` labels of objects have been given. -/
def SameCode.labelled (b : Nat) : SameCode where
  inside := fun _ => True
  machine m m' := b ≤ m.labels.object ∧ m' = m
  label := by
    rintro m _ ⟨-, rfl⟩
    rfl
  current := by
    rintro m _ ⟨-, rfl⟩
    exact ⟨rfl, trivial⟩
  lookup := by
    rintro m _ name ⟨-, rfl⟩
    refine ⟨rfl, ?_⟩
    intro v _
    cases v <;> trivial
  relabelled := by
    rintro m _ ⟨hb, rfl⟩
    exact ⟨Nat.le_succ_of_le hb, rfl⟩
  define := by
    rintro m _ name v ⟨hb, rfl⟩ _
    exact ⟨hb, rfl⟩
  opened := by
    rintro m _ f ⟨hb, rfl⟩ _
    exact ⟨hb, rfl⟩
  leave := by
    rintro m _ n _ ⟨-, rfl⟩ ⟨hb, rfl⟩
    exact ⟨hb, rfl⟩

theorem Machine.Evaluates.labels_le {m n : Machine} {e : Expr} {v : Value}
    (h : m.Evaluates e (.done v n)) : m.labels.object ≤ n.labels.object := by
  obtain ⟨-, depth, hdepth⟩ := h
  have hm : (SameCode.labelled m.labels.object).machine m m := ⟨Nat.le_refl _, rfl⟩
  have hboth := (SameCode.labelled m.labels.object).simulation.eval depth (rfl : e = e) hm
  rw [hdepth] at hboth
  cases hboth with
  | done _ hn => exact hn.1

/-! ## Elements -/

/-- Is the expression a number other than not-a-number, a string, or a list of such? A list that is
written must start with a number or a string, or else it is no list data. -/
inductive Expr.IsData : Expr → Prop
  | number {n : Binary64} (hn : n ≠ .nan) (t : Token) : IsData (.atom (.number n) t)
  | string (s : String) (t : Token) : IsData (.atom (.string s) t)
  | written {value : Literal} {t : Token} {xs : List Expr} (hhead : IsData (.atom value t))
      (hxs : ∀ x ∈ xs, IsData x) : IsData (.list (.atom value t) xs)
  | made (label : Nat) {x : Expr} {xs : List Expr} (hx : IsData x) (hxs : ∀ x ∈ xs, IsData x) :
      IsData (.data label x xs)

/-- Is the expression a list that is written in a text? -/
def Expr.IsWritten : Expr → Prop
  | .list _ _ => True
  | _ => False

theorem Expr.sameAll_self {xs : List Expr} (h : ∀ x ∈ xs, x.same x = true) :
    sameAll xs xs = true := by
  induction xs with
  | nil => rfl
  | cons x xs ih =>
    obtain ⟨hx, hxs⟩ := List.forall_mem_cons.1 h
    rw [sameAll, hx, ih hxs]
    rfl

theorem Expr.IsData.same_self {e : Expr} (h : e.IsData) : e.same e = true := by
  induction h with
  | number hn t => exact Binary64.eqv_self hn
  | string s t => exact beq_self_eq_true s
  | written _ _ ihhead ihs =>
    rw [Expr.same, ihhead, Expr.sameAll_self ihs]
    rfl
  | made label =>
    rw [Expr.same, beq_self_eq_true]
    rfl

/-- What `e` is once it was taken out of a list and put back: it is printed as it was, and is equal
to what it was unless that is a written list. -/
structure Expr.PutBack (e e' : Expr) : Prop where
  text : e'.text = e.text
  same : e'.same e = true ↔ ¬ e.IsWritten

theorem Expr.IsData.putBack {e : Expr} (h : e.IsData) (m : Machine) :
    ∃ v labels, m.Evaluates e (.done v { m with labels }) ∧
      ∀ line, ∃ e', v.datum line = .ok e' ∧ e.PutBack e' := by
  have hself {e e' : Expr} (htext : e'.text = e.text) (hsame : e'.same e = true)
      (hwritten : ¬ e.IsWritten) : e.PutBack e' :=
    ⟨htext, iff_of_true hsame hwritten⟩
  cases h with
  | @number n hn t =>
    refine ⟨.number n, m.labels, .done 1 rfl, fun line => ⟨_, rfl, hself ?_ ?_ not_false⟩⟩
    · simp only [Expr.text]
    · rw [Expr.same]
      exact Binary64.eqv_self hn
  | string s t =>
    refine ⟨.string s, m.labels, .done 1 rfl, fun line => ⟨_, rfl, hself ?_ ?_ not_false⟩⟩
    · simp only [Expr.text]
    · rw [Expr.same]
      exact beq_self_eq_true s
  | @written value t xs hhead hxs =>
    refine ⟨_, (Labels.freshObject m.labels).2, .done 1 rfl, fun line => ⟨_, rfl, ?_, ?_⟩⟩
    · simp only [Expr.text]
    · have hsame : (Expr.data m.labels.object (.atom value t) xs).same (.list (.atom value t) xs) =
          false := by
        simp [Expr.same]
      exact iff_of_false (hsame ▸ Bool.false_ne_true) (not_not_intro trivial)
  | @made label x xs hx hxs =>
    refine ⟨.list ⟨label, x, xs⟩, m.labels, .done 1 rfl, fun line => ⟨_, rfl, ?_⟩⟩
    exact hself rfl (Expr.IsData.made label hx hxs).same_self not_false

/-! ## Equality -/

theorem Machine.Evaluates.equal {m n k : Machine} {op : Token} {x y : Expr} {v w : Value}
    (hop : op.kind = .mark (.operator .equal)) (hx : m.Evaluates x (.done v n))
    (hy : n.Evaluates y (.done w k)) :
    m.Evaluates (.list (.operator op []) [x, y]) (.done (.bool (v.same w)) k) := by
  obtain ⟨d, hd⟩ := hx.from_depth
  obtain ⟨d', hd'⟩ := hy.from_depth
  refine .done (max d d' + 1) ?_
  show (eval (max d d')).operate op [x, y] m = _
  unfold Evaluator.operate
  dsimp only
  rw [bind_done (hd _ (Nat.le_max_left d d')), bind_done (hd' _ (Nat.le_max_right d d')), hop]
  rfl

theorem Machine.evaluates_symbol {m : Machine} {name : Token} {v : Value}
    (h : m.store.lookup name.lexeme m.current = some v) :
    m.Evaluates (.symbol name) (.done v m) := by
  refine .done 1 ?_
  show EvalM.get name m = _
  rw [EvalM.get, h]

/-- Elements that are equal to themselves, behind a head that was put back. -/
theorem ListValue.same_putBack {l l' : ListValue} (hhead : l.head.PutBack l'.head)
    (htail : l'.tail = l.tail) (hdata : ∀ x ∈ l.tail, x.IsData) (hlabel : l'.label ≠ l.label) :
    l'.text = l.text ∧ ((Value.list l').same (.list l) = true ↔ ¬ l.head.IsWritten) := by
  have hrest : Expr.sameAll l'.tail l.tail = true := by
    rw [htail]
    exact Expr.sameAll_self fun x hx => (hdata x hx).same_self
  constructor
  · rw [ListValue.text, hhead.text, htail, ListValue.text]
  · rw [Value.same, hrest, ← hhead.same]
    simp [hlabel]

/-! ## Taken apart and put together -/

/-- The form `(cons (car name) (cdr name))`. -/
def Expr.rebuilt (kcons kcar kcdr name : Token) : Expr :=
  .applied kcons [.applied kcar [.symbol name], .applied kcdr [.symbol name]]

/-- A list of data that is put together again has a new label, its head is put back, and its other
elements are what they were. -/
theorem Expr.evaluates_rebuilt {m : Machine} {kcons kcar kcdr name : Token}
    (hcons : kcons.kind = .keyword .cons) (hcar : kcar.kind = .keyword .car)
    (hcdr : kcdr.kind = .keyword .cdr) {l : ListValue}
    (hbound : m.store.lookup name.lexeme m.current = some (.list l)) (hhead : l.head.IsData) :
    ∃ l' labels, m.Evaluates (rebuilt kcons kcar kcdr name) (.done (.list l') { m with labels }) ∧
      l.head.PutBack l'.head ∧ l'.tail = l.tail ∧ m.labels.object ≤ l'.label := by
  have hname (labels : Labels) :
      ({ m with labels } : Machine).Evaluates (.symbol name) (.done (.list l) { m with labels }) :=
    Machine.evaluates_symbol hbound
  obtain ⟨v, labels, hv, hdatum⟩ := hhead.putBack m
  obtain ⟨head, hstored, hputBack⟩ := hdatum kcons.line
  have hfirst : m.Evaluates (.applied kcar [.symbol name]) (.done v { m with labels }) :=
    (hname m.labels).car hcar hv
  obtain ⟨c, labels', hsecond, helements⟩ := (hname labels).cdr hcdr
  have hgrown : m.labels.object ≤ labels'.object :=
    Nat.le_trans hfirst.labels_le hsecond.labels_le
  have hmade := Evaluator.cons_eq hstored (.elements helements)
  refine ⟨⟨labels'.object, head, l.tail⟩, (Labels.freshObject labels').2, ?_, hputBack, rfl, hgrown⟩
  exact hfirst.cons hcons hsecond (congrFun hmade _) nofun

/-- **A list that is put together again is printed as it was, and is not always equal to it.** Its
first element is what makes the difference: equality does not hold if that is a list written in the
text, and holds if it is anything else. -/
theorem rebuilt_list {m : Machine} {kcons kcar kcdr op name : Token}
    (hcons : kcons.kind = .keyword .cons) (hcar : kcar.kind = .keyword .car)
    (hcdr : kcdr.kind = .keyword .cdr) (hop : op.kind = .mark (.operator .equal)) {l : ListValue}
    (hbound : m.store.lookup name.lexeme m.current = some (.list l))
    (hdata : ∀ e ∈ l.elements, e.IsData) (hlabel : l.label < m.labels.object) :
    ∃ l' b labels,
      m.Evaluates (.rebuilt kcons kcar kcdr name) (.done (.list l') { m with labels }) ∧
      l'.text = l.text ∧
      m.Evaluates (.list (.operator op []) [.rebuilt kcons kcar kcdr name, .symbol name])
        (.done (.bool b) { m with labels }) ∧
      (b = true ↔ ¬ l.head.IsWritten) := by
  obtain ⟨hhead, htail⟩ := List.forall_mem_cons.1 hdata
  obtain ⟨l', labels, hrebuilt, hputBack, hrest, hnew⟩ :=
    Expr.evaluates_rebuilt hcons hcar hcdr hbound hhead
  have hne : l'.label ≠ l.label := by omega
  obtain ⟨htext, hsame⟩ := ListValue.same_putBack hputBack hrest htail hne
  have hname : ({ m with labels } : Machine).Evaluates (.symbol name)
      (.done (.list l) { m with labels }) := Machine.evaluates_symbol hbound
  exact ⟨l', _, labels, hrebuilt, htext, hrebuilt.equal hop hname, hsame⟩

/-- A list whose first element is a string is equal to itself put together again, though another
element is a list that was written. -/
theorem rebuilt_list_string :
    let word (k : Keyword) : Token := ⟨.keyword k, k.spelling, none, 1⟩
    let name : Token := ⟨.symbol, "l", none, 1⟩
    let op : Token := ⟨.mark (.operator .equal), "=", none, 1⟩
    let text : Expr := .atom (.string "a") ⟨.string, "\"a\"", none, 1⟩
    let l : ListValue := ⟨0, text, [.list text [text]]⟩
    let m := { Machine.initial with labels := ⟨0, 1⟩ }.define "l" (.list l)
    ∃ labels, m.Evaluates (.list (.operator op [])
      [.rebuilt (word .cons) (word .car) (word .cdr) name, .symbol name])
        (.done (.bool true) { m with labels }) := by
  intro word name op text l m
  have htext : text.IsData := .string "a" _
  have hwritten : (Expr.list text [text]).IsData :=
    .written htext (List.forall_mem_singleton.2 htext)
  have hdata : ∀ e ∈ l.elements, e.IsData :=
    List.forall_mem_cons.2 ⟨htext, List.forall_mem_singleton.2 hwritten⟩
  have hbound : m.store.lookup name.lexeme m.current = some (.list l) := by
    rw [Store.lookup]
    rfl
  have hword (k : Keyword) : (word k).kind = .keyword k := rfl
  have hop : op.kind = .mark (.operator .equal) := rfl
  obtain ⟨l', b, labels, -, -, hequal, hb⟩ :=
    rebuilt_list (hword .cons) (hword .car) (hword .cdr) hop hbound hdata Nat.zero_lt_one
  obtain rfl : b = true := hb.2 not_false
  exact ⟨labels, hequal⟩

instance (x : Evaluation) (P : List Value → Prop) [DecidablePred P] :
    Decidable (∃ vs, x = .values vs ∧ P vs) :=
  match x with
  | .values vs => decidable_of_iff (P vs)
      ⟨fun h => ⟨vs, rfl, h⟩, fun ⟨_, hvs, h⟩ => Evaluation.values.inj hvs ▸ h⟩
  | .syntaxErrors _ | .runtimeError _ | .exhausted => isFalse nofun

/-- A list that was written inside another one is not equal to itself once it is put back. -/
theorem rebuilt_list_written :
    ∃ vs, evaluateSource 9 "(set l (cdr (1 (2 3)))) (= (cons (car l) (cdr l)) l)" = .values vs ∧
      vs.map Value.text = ["false"] := by
  decide +kernel

end MiniLisp
