import MiniLisp.Proofs.EqualText
import MiniLisp.Proofs.Labelling
import MiniLisp.Proofs.ListData

/-!
# Shapes

Code is what the reader makes: operators and keywords without operands, calls that are made of one
token, lists whose head decides nothing, and no list data. Evaluation adds list data, but only as
elements of lists and inside other list data. So an element is code, or list data made of elements.

* `Expr.IsCode`, `Expr.Code` : one node of code, and code throughout;
* `Expr.Element` : an element of a list;
* `Value.Shaped` : a list of elements, or a function whose definition is code;
* `Spells.code`, `Expr.Code.relabel` : what is read and labelled is code;
* `Value.Shaped.datum`, `Evaluator.cons_elements` : what is put into a list is an element;
* `Growth.shapes` : evaluation keeps code, elements and values in shape;
* `Session.shaped` : so they are whenever a session comes upon them.
-/

namespace MiniLisp

open List

/-! ## Code and elements -/

/-- Is the expression itself, leaving aside those inside it, as the reader makes it? The token of a
keyword is that of a constant or has the property `source`. -/
def Expr.IsCode (source : Token → Prop) : Expr → Prop
  | .atom value t => t.literal? = some value
  | .symbol _ | .define _ _ _ _ => True
  | .operator _ operands => operands = []
  | .keyword t args => args = [] ∧ (t.kind.IsConstant ∨ source t)
  | .list head _ => head.HeadsList
  | .data _ _ _ => False
  | .call callee t _ => callee = .symbol t

/-- Code: everywhere inside it is as the reader makes it, and there is no list data. -/
abbrev Expr.Code (source : Token → Prop) : Expr → Prop := Throughout (IsCode source)

/-- An element of a list: code, or list data whose elements are such. -/
inductive Expr.Element (source : Token → Prop) : Expr → Prop
  | code {e : Expr} (h : e.Code source) : Element source e
  | data (label : Nat) {head : Expr} {tail : List Expr}
      (h : ∀ x ∈ head :: tail, Element source x) : Element source (.data label head tail)

/-- The elements of a list are such, and the definition of a function is code. -/
def Value.Shaped (source : Token → Prop) : Value → Prop
  | .list l => ∀ x ∈ l.elements, x.Element source
  | .function f => f.declaration.Code source
  | _ => True

section Shapes

variable {source : Token → Prop}

theorem Expr.Element.children {e : Expr} (h : e.Element source) :
    ∀ x ∈ e.children, x.Element source := by
  cases h with
  | code h => exact fun x hx => .code (h.children x hx)
  | data label h => exact h

theorem Expr.element_data {label : Nat} {head : Expr} {tail : List Expr} :
    (Expr.data label head tail).Element source ↔ ∀ x ∈ head :: tail, x.Element source := by
  constructor
  · exact Element.children
  · exact .data label

theorem Expr.Element.toCode {e : Expr} (h : e.Element source)
    (hdata : ∀ label head tail, e ≠ .data label head tail) : e.Code source := by
  cases h with
  | code h => exact h
  | data => exact absurd rfl (hdata _ _ _)

/-! ## What is put into a list -/

/-- What a value becomes in a list: a constant, a literal, or list data. -/
theorem Value.datum_cases {v : Value} {line : Nat} {e : Expr} (h : v.datum line = .ok e) :
    (∃ t, e = .keyword t [] ∧ t.kind.IsConstant) ∨
      (∃ value t, e = .atom value t ∧ t.literal? = some value) ∨ ∃ l, v = .list l ∧ e = l.expr := by
  cases v with
  | nil =>
    cases h
    exact .inl ⟨_, rfl, .inl rfl⟩
  | bool b =>
    cases b with
    | true =>
      cases h
      exact .inl ⟨_, rfl, .inr (.inl rfl)⟩
    | false =>
      cases h
      exact .inl ⟨_, rfl, .inr (.inr rfl)⟩
  | number | string =>
    cases h
    exact .inr (.inl ⟨_, _, rfl, rfl⟩)
  | list l =>
    cases h
    exact .inr (.inr ⟨l, rfl, rfl⟩)
  | function => exact nomatch h

theorem Value.Shaped.datum {v : Value} (h : v.Shaped source) {line : Nat} {e : Expr}
    (he : v.datum line = .ok e) : e.Element source := by
  rcases Value.datum_cases he with ⟨t, rfl, ht⟩ | ⟨value, t, rfl, ht⟩ | ⟨l, rfl, rfl⟩
  · exact .code (.node ⟨rfl, .inl ht⟩ nofun)
  · exact .code (.node ht nofun)
  · exact .data l.label h

theorem Value.datum_keyword {v : Value} {line : Nat} {t : Token} {args : List Expr}
    (h : v.datum line = .ok (.keyword t args)) : args = [] ∧ t.kind.IsConstant := by
  rcases Value.datum_cases h with ⟨u, he, hu⟩ | ⟨_, _, he, _⟩ | ⟨_, _, he⟩
  · cases he
    exact ⟨rfl, hu⟩
  · exact nomatch he
  · exact nomatch he

/-- The elements of a list that was put together: those of the second value if it is a list, and
otherwise what stands for a value. -/
theorem Evaluator.cons_elements {t : Token} {v w : Value} {m n : Machine} {l : ListValue}
    (h : Evaluator.cons t v w m = .done (.list l) n) (x : Expr) (hx : x ∈ l.elements) :
    (∃ k, w = .list k ∧ x ∈ k.elements) ∨ ∃ u : Value, u.datum t.line = .ok x := by
  by_cases hstorable : v.Storable ∧ w.Storable
  · obtain ⟨head, hhead⟩ := hstorable.1.datum t.line
    obtain ⟨tail, htail⟩ := hstorable.2.behind t.line
    rw [Evaluator.cons_eq hhead htail] at h
    cases h
    rcases mem_cons.1 hx with rfl | hx
    · exact .inr ⟨v, hhead⟩
    · cases htail with
      | elements helements =>
        cases helements with
        | nil => exact nomatch hx
        | list k => exact .inl ⟨k, rfl, hx⟩
      | itself _ he =>
        obtain rfl := mem_singleton.1 hx
        exact .inr ⟨w, he⟩
  · rw [Evaluator.cons_function hstorable t] at h
    exact nomatch h

/-! ## What is read -/

theorem Expr.ofToken_code {t : Token} {e : Expr} (h : ofToken t = .ok e) (ht : source t) :
    e.Code source := by
  rcases ofToken_cases h with ⟨_, _, rfl⟩ | ⟨_, _, rfl⟩ | ⟨_, value, hvalue, rfl⟩ | ⟨_, rfl⟩
  · exact .node ⟨rfl, .inr ht⟩ nofun
  · exact .node rfl (forall_mem_nil _)
  · exact .node hvalue nofun
  · exact .node trivial nofun

/-- **What is read is code.** -/
theorem Spells.code {ts : List Token} {es : List Expr} (h : Spells ts es)
    (hsource : ∀ t ∈ ts, source t) : ∀ e ∈ es, e.Code source := by
  induction h with
  | nil => exact nofun
  | token ht _ ih =>
    obtain ⟨hsourced, hts⟩ := forall_mem_cons.1 hsource
    exact forall_mem_cons.2 ⟨Expr.ofToken_code ht hsourced, ih hts⟩
  | @call _ name _ _ _ _ _ _ _ _ _ _ ihargs ih =>
    simp only [forall_mem_cons, forall_mem_append] at hsource
    obtain ⟨-, -, has, -, hts⟩ := hsource
    have hcallee : (Expr.symbol name).Code source := .node trivial nofun
    refine forall_mem_cons.2 ⟨.node rfl ?_, ih hts⟩
    exact forall_mem_cons.2 ⟨hcallee, ihargs has⟩
  | define _ _ _ _ _ _ ihbody ih =>
    simp only [forall_mem_cons, forall_mem_append] at hsource
    obtain ⟨-, -, -, hbs, -, hts⟩ := hsource
    exact forall_mem_cons.2 ⟨.node trivial (ihbody hbs), ih hts⟩
  | list _ _ hplain _ _ _ ihhead ihtail ih =>
    simp only [forall_mem_cons, forall_mem_append] at hsource
    obtain ⟨-, hhs, htls, -, hts⟩ := hsource
    refine forall_mem_cons.2 ⟨.node hplain ?_, ih hts⟩
    exact forall_mem_cons.2 ⟨ihhead hhs _ mem_cons_self, ihtail htls⟩

theorem Expr.read_code {unit : String} (hsource : ∀ t ∈ (scan unit).tokens, source t) :
    ∀ e ∈ (read unit).expressions, e.Code source := by
  intro e he
  obtain ⟨us, hus, hspells⟩ := parse_spells he
  refine hspells.code (fun t ht => hsource t ?_) e mem_cons_self
  exact (List.takeWhile_prefix _).subset (hus.subset ht)

theorem Expr.HeadsList.relabel {e : Expr} (h : e.HeadsList) (l : Labels) :
    (e.relabel l).1.HeadsList := by
  cases e <;> rw [Expr.relabel]
  case symbol => exact h
  case keyword => exact h
  all_goals trivial

theorem Expr.Code.relabel {e : Expr} (h : e.Code source) (l : Labels) :
    (e.relabel l).1.Code source := by
  induction h generalizing l with
  | @node e h _ ih =>
    cases e with
    | atom | symbol =>
      rw [Expr.relabel]
      exact .node h (forall_mem_nil _)
    | operator op xs =>
      obtain rfl : xs = [] := h
      rw [Expr.relabel, relabelAll]
      exact .node rfl (forall_mem_nil _)
    | keyword t xs =>
      obtain ⟨rfl, ht⟩ := h
      rw [Expr.relabel, relabelAll]
      exact .node ⟨rfl, ht⟩ (forall_mem_nil _)
    | list head tail =>
      have ih : ∀ x ∈ head :: tail, ∀ l, (x.relabel l).1.Code source := ih
      have hall := relabelAll_forall ih l
      rw [relabelAll] at hall
      rw [Expr.relabel]
      exact .node (HeadsList.relabel h l) hall
    | data => exact h.elim
    | define label name params body =>
      rw [Expr.relabel]
      exact .node trivial (forall_mem_singleton.2 (ih body mem_cons_self _))
    | call callee t args =>
      obtain rfl : callee = .symbol t := h
      have ih : ∀ x ∈ .symbol t :: args, ∀ l, (x.relabel l).1.Code source := ih
      have hall := relabelAll_forall ih l
      rw [relabelAll] at hall
      rw [Expr.relabel]
      rw [Expr.relabel] at hall ⊢
      exact .node rfl hall

/-- **A unit is code when it runs**, whatever the machine is. -/
theorem Machine.adopt_code (m : Machine) {unit : String}
    (hsource : ∀ t ∈ (scan unit).tokens, source t) :
    ∀ e ∈ (m.adopt (Expr.read unit).expressions).1, e.Code source :=
  Expr.relabelAll_forall (fun e he => (Expr.read_code hsource e he).relabel) m.labels

end Shapes

/-! ## Evaluation -/

/-- **Evaluation keeps the shapes.** The world never changes. -/
def Growth.shapes (source : Token → Prop) : Growth where
  World := Unit
  le _ _ := True
  expr _ := Expr.Element source
  value _ := Value.Shaped source
  machine _ m := ∀ i name v, (name, v) ∈ m.store.bindings i → v.Shaped source
  cause _ _ := True
  refl _ := trivial
  trans _ _ := trivial
  expr_mono _ he := he
  value_mono _ hv := hv
  cause_anti _ _ := trivial
  children := Expr.Element.children
  scalar {_ v} hv := by
    cases v with
    | list | function => exact hv.elim
    | nil | bool | number | string => trivial
  list := Expr.element_data.symm
  body hf := .code (hf.children _ mem_cons_self)
  datum hv he := hv.datum he
  bound hm hv := hm _ _ _ hv
  unbound _ _ := trivial
  failure _ := trivial
  newList hm hx hxs := ⟨(), trivial, hm, forall_mem_cons.2 ⟨hx, hxs⟩⟩
  newFunction hm h :=
    have hcode := h.toCode nofun
    ⟨(), trivial, hm, .node trivial hcode.children⟩
  define {_ m v} name hm hv := by
    refine ⟨(), trivial, fun i n u hu => ?_⟩
    rcases Store.mem_bindings_define _ _ _ _ hu with ⟨-, heq⟩ | hu
    · cases heq
      exact hv
    · exact hm i n u hu
  opened {_ m f} hm _ := by
    refine ⟨(), trivial, fun i n u hu => ?_⟩
    rw [Machine.store_opened, Store.bindings_push] at hu
    exact hm i n u hu
  leave _ _ hn := hn

namespace Session

/-- Was the token scanned in a unit of these steps? -/
def ScannedIn (steps : List Step) (t : Token) : Prop :=
  ∃ unit ∈ steps.filterMap Step.unit?, t ∈ (scan unit).tokens

theorem shaped_takes {source : Token → Prop} {unit : String}
    (hsource : ∀ t ∈ (scan unit).tokens, source t) : (Growth.shapes source).Takes unit :=
  fun {_ m} hm => ⟨(), trivial, hm, fun e he => .code (m.adopt_code hsource e he)⟩

/-- **Code and data keep their shapes.** Whatever the units of a session are: each of them is code
when it runs; the lists that the session comes upon have elements that are code or list data made
of such elements, and the functions have definitions that are code; and the only keywords that are
ever put into a list are constants. -/
theorem shaped (depth : Nat) (steps : List Step) :
    (∀ unit ∈ steps.filterMap Step.unit?, ∀ m : Machine,
      ∀ e ∈ (m.adopt (Expr.read unit).expressions).1, e.Code (· ∈ (scan unit).tokens)) ∧
    (∀ v, initial.Meets depth steps v → v.Shaped (ScannedIn steps)) ∧
    ∀ t v w m l n, Evaluator.cons t v w m = .done (.list l) n →
      ∀ u args, .keyword u args ∈ l.elements →
        (∃ k, w = .list k ∧ .keyword u args ∈ k.elements) ∨ (args = [] ∧ u.kind.IsConstant) := by
  refine ⟨fun unit _ m => m.adopt_code fun _ ht => ht, fun v hv => ?_, ?_⟩
  · have htakes : ∀ step ∈ steps, ∀ unit ∈ step.unit?,
        (Growth.shapes (ScannedIn steps)).Takes unit := fun step hstep unit hunit =>
      shaped_takes fun t ht => ⟨unit, mem_filterMap.2 ⟨step, hstep, hunit⟩, ht⟩
    have hinitial : (Growth.shapes (ScannedIn steps)).machine () initial.machine := by
      intro i name v hv
      rw [show initial.machine.store.bindings i = [] from Machine.initial_bindings i] at hv
      exact nomatch hv
    obtain ⟨_, -, h⟩ := meets_known _ depth steps htakes hinitial
    exact h v hv
  · intro t v w m l n h u args hu
    rcases Evaluator.cons_elements h _ hu with hold | ⟨v', hv'⟩
    · exact .inl hold
    · exact .inr (Value.datum_keyword hv')

/-- A list with a list and a keyword inside it, put together by a function of an earlier unit. -/
theorem shaped_nested :
    let steps := [.evaluate "(define (f x) (cons x (2 car)))", .stream "(f (cons true nil))"]
    ∃ l, initial.Meets 9 steps (.list l) ∧ l.text = "((true) 2 car)" ∧
      ∀ x ∈ l.elements, x.Element (ScannedIn steps) := by
  intro steps
  let s := (history 9 initial [.evaluate "(define (f x) (cons x (2 car)))"]).session
  let r := s.run 9 "(f (cons true nil))"
  have hfirst : (initial.run 9 "(define (f x) (cons x (2 car)))").ending ≠ .exhausted := by
    decide +kernel
  obtain ⟨v, hv, htext, hlist⟩ : ∃ v ∈ r.emitted, v.text = "((true) 2 car)" ∧
      ((v.datum 1).toOption.any fun e => !e.elements.isEmpty) = true := by
    decide +kernel
  have hmeets : initial.Meets 9 steps v := by
    refine .later ?_ (.of_run rfl (.inl hv))
    rintro _ ⟨⟩
    exact hfirst
  cases v with
  | list l => exact ⟨l, hmeets, htext, (shaped 9 steps).2.1 _ hmeets⟩
  | bool b => cases b <;> exact absurd hlist Bool.false_ne_true
  | nil | number | string | function => exact absurd hlist Bool.false_ne_true

end Session

end MiniLisp
