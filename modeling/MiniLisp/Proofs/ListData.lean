import MiniLisp.Proofs.Depth

/-!
# List data

`cons` stores values as expressions, and `car` and `cdr` give them back by evaluating expressions.
What is stored evaluates to its value on every machine and changes nothing, so a list gives back
what was put into it wherever it is taken apart.

* `Expr.StandsFor` : the expression evaluates to the value everywhere;
* `Value.Holds` : a list holds values, each as an expression that stands for it;
* `Machine.Evaluates.cons`, `Machine.Evaluates.car`, `Machine.Evaluates.cdr` : the three forms;
* `Expr.consAll`, `Expr.cdrAll` : many of them, one inside the other;
* `Value.GivesBack` : `car` after some `cdr` gives each of the values, and `cdr` alone ends in nil;
* `list_gives_back` : the theorem.
-/

namespace MiniLisp

open EvalM List

/-! ## Values in lists -/

/-- Can the value be an element of a list? -/
def Value.Storable : Value → Prop
  | .function _ => False
  | _ => True

/-- Does the expression evaluate to the value on every machine, and change nothing? -/
def Expr.StandsFor (e : Expr) (v : Value) : Prop := ∀ m : Machine, m.Evaluates e (.done v m)

namespace Value

/-- Is the value a list of the elements `es`, or nil if there are none? -/
inductive HasElements : Value → List Expr → Prop
  | nil : HasElements .nil []
  | list (l : ListValue) : HasElements (.list l) l.elements

/-- What `w` puts behind the first element of a list: its elements, or itself if it is no list. -/
inductive Behind (line : Nat) (w : Value) : List Expr → Prop
  | elements {es : List Expr} (h : w.HasElements es) : Behind line w es
  | itself {e : Expr} (hlist : ∀ es, ¬ w.HasElements es) (h : w.datum line = .ok e) :
      Behind line w [e]

/-- Is the value a list whose elements stand for the values `vs`, or nil if there are none? -/
def Holds (c : Value) (vs : List Value) : Prop :=
  ∃ es, c.HasElements es ∧ Forall₂ Expr.StandsFor es vs

theorem HasElements.eq_nil {c : Value} (h : c.HasElements []) : c = .nil := by
  generalize hes : ([] : List Expr) = es at h
  cases h with
  | nil => rfl
  | list l => exact absurd hes.symm (List.cons_ne_nil _ _)

theorem standsFor_datum {v : Value} {line : Nat} {e : Expr} (h : v.datum line = .ok e) :
    e.StandsFor v := by
  intro m
  cases v with
  | function f => exact nomatch h
  | bool b => cases b <;> cases h <;> exact .done 1 rfl
  | nil | number | string | list =>
    cases h
    exact .done 1 rfl

theorem Storable.datum {v : Value} (h : v.Storable) (line : Nat) : ∃ e, v.datum line = .ok e := by
  cases v with
  | function => exact h.elim
  | bool b => cases b <;> exact ⟨_, rfl⟩
  | nil | number | string | list => exact ⟨_, rfl⟩

theorem Storable.behind {w : Value} (h : w.Storable) (line : Nat) : ∃ tail, w.Behind line tail := by
  cases w with
  | nil => exact ⟨_, .elements .nil⟩
  | list l => exact ⟨_, .elements (.list l)⟩
  | bool | number | string =>
    obtain ⟨e, he⟩ := h.datum line
    exact ⟨[e], .itself nofun he⟩
  | function => exact h.elim

end Value

theorem Evaluator.cons_eq {t : Token} {v w : Value} {head : Expr} {tail : List Expr}
    (hhead : v.datum t.line = .ok head) (htail : w.Behind t.line tail) :
    cons t v w = newList head tail := by
  rw [cons, hhead]
  cases htail with
  | elements h => cases h <;> rfl
  | @itself e hlist he =>
    have hitself : (EvalM.ofExcept t (w.datum t.line) >>= fun e => newList head [e]) =
        newList head [e] := by
      rw [he]
      rfl
    cases w with
    | nil => exact absurd .nil (hlist [])
    | list l => exact absurd (.list l) (hlist l.elements)
    | bool | number | string | function => exact hitself

/-- A function cannot be put into a list, neither in front nor behind. -/
theorem Evaluator.cons_function {v w : Value} (h : ¬ (v.Storable ∧ w.Storable)) (t : Token) :
    cons t v w = fail t .functionInList := by
  by_cases hv : v.Storable
  · obtain ⟨head, hhead⟩ := hv.datum t.line
    rw [cons, hhead]
    cases w with
    | function => rfl
    | nil | bool | number | string | list => exact absurd ⟨hv, trivial⟩ h
  · cases v with
    | function => rfl
    | nil | bool | number | string | list => exact absurd trivial hv

/-! ## The forms -/

/-- The form with the keyword `t` at its head. -/
def Expr.applied (t : Token) (args : List Expr) : Expr := .list (.keyword t []) args

theorem eval_applied {t : Token} {k : Keyword} (ht : t.kind = .keyword k) (args : List Expr)
    (depth : Nat) : eval (depth + 1) (.applied t args) = (eval depth).applyForm k t args := by
  show (eval depth).applyKeyword t args = _
  unfold Evaluator.applyKeyword
  rw [ht]

namespace Machine.Evaluates

variable {m n k : Machine} {t : Token} {x y : Expr} {v w : Value} {o : Outcome Value}

theorem cons (ht : t.kind = .keyword .cons) (hx : m.Evaluates x (.done v n))
    (hy : n.Evaluates y (.done w k)) (ho : Evaluator.cons t v w k = o) (hend : o ≠ .exhausted) :
    m.Evaluates (.applied t [x, y]) o := by
  obtain ⟨d, hd⟩ := hx.from_depth
  obtain ⟨d', hd'⟩ := hy.from_depth
  refine ⟨hend, max d d' + 1, ?_⟩
  rw [eval_applied ht]
  show (eval _ x >>= fun v => eval _ y >>= Evaluator.cons t v) m = o
  rw [bind_done (hd _ (Nat.le_max_left d d')), bind_done (hd' _ (Nat.le_max_right d d')), ho]

theorem car (ht : t.kind = .keyword .car) {l : ListValue}
    (hx : m.Evaluates x (.done (.list l) n)) (hhead : n.Evaluates l.head o) :
    m.Evaluates (.applied t [x]) o := by
  obtain ⟨d, hd⟩ := hx.from_depth
  obtain ⟨d', hd'⟩ := hhead.from_depth
  refine ⟨hhead.1, max d d' + 1, ?_⟩
  rw [eval_applied ht]
  exact (bind_done (hd _ (Nat.le_max_left d d'))).trans (hd' _ (Nat.le_max_right d d'))

theorem cdr (ht : t.kind = .keyword .cdr) {label : Nat} {head : Expr} {tail : List Expr}
    (hx : m.Evaluates x (.done (.list ⟨label, head, tail⟩) n)) :
    ∃ c labels, m.Evaluates (.applied t [x]) (.done c { n with labels }) ∧ c.HasElements tail := by
  obtain ⟨-, d, hd⟩ := hx
  cases tail with
  | nil =>
    refine ⟨.nil, n.labels, .done (d + 1) ?_, .nil⟩
    rw [eval_applied ht]
    exact bind_done hd
  | cons first rest =>
    refine ⟨.list ⟨n.labels.object, first, rest⟩, (Labels.freshObject n.labels).2,
      .done (d + 1) ?_, .list _⟩
    rw [eval_applied ht]
    exact bind_done hd

end Machine.Evaluates

/-! ## Many forms -/

/-- The values of expressions, put in front of that of `last` one after the other, the first one
last; each has its own keyword. -/
def Expr.consAll (last : Expr) : List (Token × Expr) → Expr
  | [] => last
  | (t, x) :: rest => .applied t [x, consAll last rest]

/-- One form around the other, with a keyword each and `z` in the middle. -/
def Expr.cdrAll (z : Expr) : List Token → Expr
  | [] => z
  | t :: ts => .applied t [cdrAll z ts]

/-- Does `car` after `i` times `cdr` give the `i`-th of the values, and `cdr` alone nil after all of
them? On every machine, for every expression that evaluates to `c`; and no scope is changed. -/
def Value.GivesBack (c : Value) (vs : List Value) : Prop :=
  ∀ (m n : Machine) (z : Expr), m.Evaluates z (.done c n) →
    ∀ ts : List Token, (∀ t ∈ ts, t.kind = .keyword .cdr) →
      (∀ (t : Token) (v : Value), t.kind = .keyword .car → vs[ts.length]? = some v →
        ∃ labels, m.Evaluates (.applied t [.cdrAll z ts]) (.done v { n with labels })) ∧
      (ts.length = vs.length →
        ∃ labels, m.Evaluates (.cdrAll z ts) (.done .nil { n with labels }))

/-- Values that are put in front of nil, one after the other, are held by the list. -/
theorem Machine.EvaluatesAll.consAll {nil : Token} (hnil : nil.kind = .keyword .nilConst)
    {ps : List (Token × Expr)} (hps : ∀ p ∈ ps, p.1.kind = .keyword .cons) {m n : Machine}
    {vs : List Value} (h : m.EvaluatesAll (ps.map Prod.snd) vs n) (hvs : ∀ v ∈ vs, v.Storable) :
    ∃ c labels, m.Evaluates (.consAll (.keyword nil []) ps) (.done c { n with labels }) ∧
      c.Holds vs := by
  -- all elements are evaluated before the first list is made, so only its labels are in the way
  induction ps generalizing m vs with
  | nil =>
    cases h
    refine ⟨.nil, n.labels, .done 1 ?_, [], .nil, .nil⟩
    show Evaluator.applyKeyword _ nil [] n = _
    unfold Evaluator.applyKeyword
    rw [hnil]
    rfl
  | cons p ps ih =>
    obtain ⟨t, x⟩ := p
    obtain ⟨ht, hps⟩ := List.forall_mem_cons.1 hps
    cases h with
    | cons hx h =>
      obtain ⟨hv, hvs⟩ := List.forall_mem_cons.1 hvs
      obtain ⟨c, labels, hc, es, helements, hes⟩ := ih hps h hvs
      obtain ⟨head, hhead⟩ := hv.datum t.line
      have hcons := Evaluator.cons_eq hhead (.elements helements)
      refine ⟨_, _, hx.cons ht hc (congrFun hcons _) nofun, head :: es, .list _, ?_⟩
      exact .cons (Value.standsFor_datum hhead) hes

namespace Value.Holds

variable {c : Value} {m n : Machine} {z : Expr}

theorem car {v : Value} {vs : List Value} (h : c.Holds (v :: vs)) (hz : m.Evaluates z (.done c n))
    {t : Token} (ht : t.kind = .keyword .car) : m.Evaluates (.applied t [z]) (.done v n) := by
  obtain ⟨es, helements, hes⟩ := h
  cases helements with
  | nil => exact nomatch hes
  | list l =>
    obtain ⟨hhead, -⟩ := forall₂_cons.1 hes
    exact hz.car ht (hhead n)

theorem cdr {v : Value} {vs : List Value} (h : c.Holds (v :: vs)) (hz : m.Evaluates z (.done c n))
    {t : Token} (ht : t.kind = .keyword .cdr) :
    ∃ c' labels, m.Evaluates (.applied t [z]) (.done c' { n with labels }) ∧ c'.Holds vs := by
  obtain ⟨es, helements, hes⟩ := h
  cases helements with
  | nil => exact nomatch hes
  | list l =>
    obtain ⟨-, htail⟩ := forall₂_cons.1 hes
    obtain ⟨c', labels, hc', helements'⟩ := hz.cdr ht
    exact ⟨c', labels, hc', l.tail, helements', htail⟩

theorem cdrAll {vs : List Value} (h : c.Holds vs) (hz : m.Evaluates z (.done c n))
    {ts : List Token} (hts : ∀ t ∈ ts, t.kind = .keyword .cdr) (hlength : ts.length ≤ vs.length) :
    ∃ c' labels, m.Evaluates (.cdrAll z ts) (.done c' { n with labels }) ∧
      c'.Holds (vs.drop ts.length) := by
  induction ts with
  | nil => exact ⟨c, n.labels, hz, h⟩
  | cons t ts ih =>
    obtain ⟨ht, hts⟩ := List.forall_mem_cons.1 hts
    obtain ⟨c', labels, hc', hholds⟩ := ih hts (Nat.le_of_succ_le hlength)
    rw [List.drop_eq_getElem_cons hlength] at hholds
    exact hholds.cdr hc' ht

theorem eq_nil (h : c.Holds []) : c = .nil := by
  obtain ⟨es, helements, hes⟩ := h
  obtain rfl := forall₂_nil_right_iff.1 hes
  exact helements.eq_nil

theorem givesBack {vs : List Value} (h : c.Holds vs) : c.GivesBack vs := by
  intro m n z hz ts hts
  constructor
  · intro t v ht hv
    obtain ⟨hlength, rfl⟩ := List.getElem?_eq_some_iff.1 hv
    obtain ⟨c', labels, hc', hholds⟩ := h.cdrAll hz hts (Nat.le_of_lt hlength)
    rw [List.drop_eq_getElem_cons hlength] at hholds
    exact ⟨labels, hholds.car hc' ht⟩
  · intro hlength
    obtain ⟨c', labels, hc', hholds⟩ := h.cdrAll hz hts (Nat.le_of_eq hlength)
    rw [hlength, List.drop_length] at hholds
    exact ⟨labels, hholds.eq_nil ▸ hc'⟩

end Value.Holds

/-- **A list gives back what was put into it**, on every machine and unevaluated: first, values that
were put in front of nil one after the other; then, one value in front of another one; and a
function can be put into no list. -/
theorem list_gives_back :
    (∀ (m n : Machine) (nil : Token) (ps : List (Token × Expr)) (vs : List Value),
      nil.kind = .keyword .nilConst → (∀ p ∈ ps, p.1.kind = .keyword .cons) →
      m.EvaluatesAll (ps.map Prod.snd) vs n → (∀ v ∈ vs, v.Storable) →
      ∃ c labels, m.Evaluates (.consAll (.keyword nil []) ps) (.done c { n with labels }) ∧
        c.GivesBack vs) ∧
    ∀ (m n k : Machine) (t : Token) (x y : Expr) (v w : Value), t.kind = .keyword .cons →
      m.Evaluates x (.done v n) → n.Evaluates y (.done w k) →
      (v.Storable → w.Storable →
        ∃ l labels, m.Evaluates (.applied t [x, y]) (.done (.list l) { k with labels }) ∧
          ∀ (m n : Machine) (z : Expr), m.Evaluates z (.done (.list l) n) →
            (∀ t' : Token, t'.kind = .keyword .car →
              m.Evaluates (.applied t' [z]) (.done v n)) ∧
            ∀ t' : Token, t'.kind = .keyword .cdr →
              ∃ c labels es, m.Evaluates (.applied t' [z]) (.done c { n with labels }) ∧
                c.HasElements es ∧ w.Behind t.line es) ∧
      (¬ (v.Storable ∧ w.Storable) →
        m.Evaluates (.applied t [x, y]) (.failed ⟨t, .functionInList⟩ k)) := by
  constructor
  · intro m n nil ps vs hnil hps h hvs
    obtain ⟨c, labels, hc, hholds⟩ := h.consAll hnil hps hvs
    exact ⟨c, labels, hc, hholds.givesBack⟩
  · intro m n k t x y v w ht hx hy
    constructor
    · intro hv hw
      obtain ⟨head, hhead⟩ := hv.datum t.line
      obtain ⟨tail, htail⟩ := hw.behind t.line
      have hcons := Evaluator.cons_eq hhead htail
      refine ⟨⟨k.labels.object, head, tail⟩, _, hx.cons ht hy (congrFun hcons k) nofun, ?_⟩
      intro m n z hz
      constructor
      · intro t' ht'
        exact hz.car ht' (Value.standsFor_datum hhead n)
      · intro t' ht'
        obtain ⟨c, labels, hc, helements⟩ := hz.cdr ht'
        exact ⟨c, labels, tail, hc, helements, htail⟩
    · intro hfunction
      exact hx.cons ht hy (congrFun (Evaluator.cons_function hfunction t) k) nofun

/-- The list `(+ x)`, where `x` is not bound, is given back and not evaluated; the function `f` is
put into no list. -/
theorem list_gives_back_code :
    let word (k : Keyword) : Token := ⟨.keyword k, k.spelling, none, 1⟩
    let name (s : String) : Token := ⟨.symbol, s, none, 1⟩
    let code : ListValue :=
      ⟨0, .operator ⟨.mark (.operator .plus), "+", none, 1⟩ [], [.symbol (name "x")]⟩
    let data : Expr := .data code.label code.head code.tail
    let yes : Expr := .keyword (word .trueConst) []
    let m := Machine.initial.define "f" (.function ⟨1, name "f", [], yes, 0⟩)
    (∃ c labels, m.Evaluates (.consAll (.keyword (word .nilConst) [])
          [(word .cons, data), (word .cons, yes)]) (.done c { m with labels }) ∧
        c.GivesBack [.list code, .bool true]) ∧
      (∃ labels, m.Evaluates (.applied (word .car) [.applied (word .cons) [data, yes]])
        (.done (.list code) { m with labels })) ∧
      m.Evaluates (.applied (word .cons) [data, .symbol (name "f")])
        (.failed ⟨word .cons, .functionInList⟩ m) := by
  intro word name code data yes m
  obtain ⟨hall, hone⟩ := list_gives_back
  have hdata : m.Evaluates data (.done (.list code) m) := .done 1 rfl
  have hyes : m.Evaluates yes (.done (.bool true) m) := .done 1 rfl
  have hf : m.Evaluates (.symbol (name "f")) (.done (.function ⟨1, name "f", [], yes, 0⟩) m) := by
    refine .done 1 ?_
    show EvalM.get (name "f") m = _
    rw [EvalM.get, Store.lookup]
    rfl
  refine ⟨?_, ?_, ?_⟩
  · refine hall m m (word .nilConst) _ _ rfl ?_ (.cons hdata (.cons hyes (.nil m))) ?_
    · exact List.forall_mem_cons.2 ⟨rfl, List.forall_mem_singleton.2 rfl⟩
    · exact List.forall_mem_cons.2 ⟨trivial, List.forall_mem_singleton.2 trivial⟩
  · obtain ⟨hstored, -⟩ := hone m m m (word .cons) data yes _ _ rfl hdata hyes
    obtain ⟨l, labels, hl, hback⟩ := hstored trivial trivial
    exact ⟨labels, (hback _ _ _ hl).1 (word .car) rfl⟩
  · obtain ⟨-, hrefused⟩ := hone m m m (word .cons) data (.symbol (name "f")) _ _ rfl hdata hf
    exact hrefused fun h => h.2

end MiniLisp
