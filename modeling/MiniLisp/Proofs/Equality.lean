import Mathlib.Data.List.Forall2
import MiniLisp.Value.Equality

/-!
# Equality

Equality stops at two lists that are one list, and at definitions. It is an equivalence all the
same, as far as not-a-number allows, because there is no telling apart two things with one label.

* `Expr.same_iff` : equality looks at the roots of two elements, and then at their elements;
* `Expr.literals`, `Value.literals` : the numbers and strings that occur at any depth;
* `Heap`, `Expr.In`, `Value.In` : what the labels in an element or a value stand for;
* `Expr.SameParts`, `Value.SameParts` : comparison without a look at the labels of lists;
* `Expr.unlabel`, `Value.unlabel` : what copies have in common;
* `Value.same_laws` : the laws of equality.
-/

namespace MiniLisp

open List

/-! ## Numbers -/

namespace Binary64

theorem eqv_self {n : Binary64} (h : n ≠ .nan) : n.eqv n = true := by
  cases n with
  | nan => exact absurd rfl h
  | signed negative rank hrank => cases negative <;> simp [eqv, position?]

theorem eqv_iff {a b : Binary64} :
    a.eqv b = true ↔ ∃ x, a.position? = some x ∧ b.position? = some x := by
  unfold eqv
  cases a.position? with
  | none => simp
  | some x =>
    cases b.position? with
    | none => simp
    | some y =>
      rw [beq_iff_eq]
      exact ⟨fun h => ⟨x, rfl, congrArg some h.symm⟩,
        fun ⟨_, hx, hy⟩ => (Option.some.inj hx).trans (Option.some.inj hy).symm⟩

theorem eqv_symm {a b : Binary64} (h : a.eqv b = true) : b.eqv a = true := by
  obtain ⟨x, ha, hb⟩ := eqv_iff.1 h
  exact eqv_iff.2 ⟨x, hb, ha⟩

theorem eqv_trans {a b c : Binary64} (hab : a.eqv b = true) (hbc : b.eqv c = true) :
    a.eqv c = true := by
  obtain ⟨x, ha, hb⟩ := eqv_iff.1 hab
  obtain ⟨y, hb', hc⟩ := eqv_iff.1 hbc
  obtain rfl : x = y := Option.some.inj (hb.symm.trans hb')
  exact eqv_iff.2 ⟨x, ha, hc⟩

end Binary64

namespace Literal

theorem eqv_self {v : Literal} (h : v ≠ .number .nan) : v.eqv v = true := by
  cases v with
  | number n => exact Binary64.eqv_self fun hn => h (congrArg _ hn)
  | string s => exact beq_self_eq_true s

theorem eqv_symm {a b : Literal} (h : a.eqv b = true) : b.eqv a = true := by
  cases a <;> cases b
  case number.number => exact Binary64.eqv_symm h
  case string.string => exact beq_iff_eq.2 (beq_iff_eq.1 h).symm
  all_goals exact nomatch h

theorem eqv_trans {a b c : Literal} (hab : a.eqv b = true) (hbc : b.eqv c = true) :
    a.eqv c = true := by
  cases a <;> cases b
  case number.number =>
    cases c with
    | number => exact Binary64.eqv_trans hab hbc
    | string => exact nomatch hbc
  case string.string => rwa [beq_iff_eq.1 hab]
  all_goals exact nomatch hab

end Literal

/-! ## Roots and elements -/

theorem forall₂_comp {α : Type} {R S T : α → α → Prop} {xs ys zs : List α} (hxy : Forall₂ R xs ys)
    (hyz : Forall₂ S ys zs) (h : ∀ x ∈ xs, ∀ y ∈ ys, ∀ z ∈ zs, R x y → S y z → T x z) :
    Forall₂ T xs zs := by
  induction hxy generalizing zs with
  | nil =>
    cases hyz
    exact .nil
  | cons hxy _ ih =>
    cases hyz with
    | cons hyz hrest =>
      refine .cons (h _ mem_cons_self _ mem_cons_self _ mem_cons_self hxy hyz) (ih hrest ?_)
      exact fun x hx y hy z hz => h x (mem_cons_of_mem _ hx) y (mem_cons_of_mem _ hy) z
        (mem_cons_of_mem _ hz)

namespace Expr

def elements : Expr → List Expr
  | atom _ _ | symbol _ | define _ _ _ _ => []
  | operator _ xs | keyword _ xs => xs
  | list x xs | data _ x xs | call x _ xs => x :: xs

def children : Expr → List Expr
  | define _ _ _ body => [body]
  | e => e.elements

def sameRoot : Expr → Expr → Bool
  | atom a _, atom b _ => a.eqv b
  | symbol a, symbol b => a.lexeme == b.lexeme
  | operator a _, operator b _ | keyword a _, keyword b _ => a.kind == b.kind
  | list _ _, list _ _ | data _ _ _, data _ _ _ | call _ _ _, call _ _ _ => true
  | define i _ _ _, define j _ _ _ => i == j
  | _, _ => false

def oneList : Expr → Expr → Bool
  | data i _ _, data j _ _ => i == j
  | _, _ => false

theorem sameAll_iff {xs ys : List Expr} :
    sameAll xs ys = true ↔ Forall₂ (fun x y => x.same y = true) xs ys := by
  induction xs generalizing ys with
  | nil => cases ys <;> simp [sameAll]
  | cons x xs ih => cases ys <;> simp [sameAll, ih]

/-- Equality looks at the roots of two elements, and then at their elements; two that are one list
are equal at once. -/
theorem same_iff {a b : Expr} :
    a.same b = true ↔ a.oneList b = true ∨
      (a.sameRoot b = true ∧ Forall₂ (fun x y => x.same y = true) a.elements b.elements) := by
  rw [← sameAll_iff]
  cases a <;> cases b <;> simp [same, oneList, sameRoot, elements, sameAll]

theorem mem_children {e x : Expr} (hx : x ∈ e.elements) : x ∈ e.children := by
  cases e with
  | define => exact nomatch hx
  | atom | symbol | operator | keyword | list | data | call => exact hx

theorem sizeOf_lt_of_mem_elements {e x : Expr} (hx : x ∈ e.elements) : sizeOf x < sizeOf e := by
  cases e <;> simp only [elements, List.mem_cons, List.not_mem_nil] at hx
  case operator | keyword => exact Nat.lt_of_lt_of_le (List.sizeOf_lt_of_mem hx) (by simp)
  all_goals
    rcases hx with rfl | hx
    · simp; omega
    · have := List.sizeOf_lt_of_mem hx
      simp; omega

/-- What holds of an element if it holds of its elements, holds of all. -/
theorem elementsInduction {P : Expr → Prop} (h : ∀ e, (∀ x ∈ e.elements, P x) → P e) (e : Expr) :
    P e :=
  h e fun x hx => have := sizeOf_lt_of_mem_elements hx; elementsInduction h x
termination_by sizeOf e

mutual

/-- The numbers and strings that occur in an element, at any depth. What is inside a definition is
no element. -/
def literals : Expr → List Literal
  | atom value _ => [value]
  | symbol _ | define _ _ _ _ => []
  | operator _ xs | keyword _ xs => literalsAll xs
  | list x xs | data _ x xs | call x _ xs => x.literals ++ literalsAll xs

def literalsAll : List Expr → List Literal
  | [] => []
  | x :: xs => x.literals ++ literalsAll xs

end

theorem literalsAll_eq (xs : List Expr) : literalsAll xs = xs.flatMap literals := by
  induction xs with
  | nil => rfl
  | cons x xs ih => rw [literalsAll, ih, List.flatMap_cons]

theorem mem_literals {e x : Expr} (hx : x ∈ e.elements) {v : Literal} (hv : v ∈ x.literals) :
    v ∈ e.literals := by
  have hall : v ∈ literalsAll e.elements := by
    rw [literalsAll_eq]
    exact List.mem_flatMap.2 ⟨x, hx, hv⟩
  cases e with
  | atom | symbol | define => exact nomatch hx
  | operator | keyword | list | data | call => exact hall

theorem sameRoot_self {a : Expr} (h : .number .nan ∉ a.literals) : a.sameRoot a = true := by
  cases a with
  | atom v t => exact Literal.eqv_self fun hv => h (hv ▸ List.mem_singleton_self v)
  | list | data | call => rfl
  | symbol | operator | keyword | define => exact beq_self_eq_true _

theorem sameRoot_symm {a b : Expr} (h : a.sameRoot b = true) : b.sameRoot a = true := by
  cases a <;> cases b
  case atom.atom => exact Literal.eqv_symm h
  case list.list | data.data | call.call => rfl
  case symbol.symbol | operator.operator | keyword.keyword | define.define =>
    exact beq_iff_eq.2 (beq_iff_eq.1 h).symm
  all_goals exact nomatch h

theorem sameRoot_trans {a b c : Expr} (hab : a.sameRoot b = true) (hbc : b.sameRoot c = true) :
    a.sameRoot c = true := by
  cases a <;> cases b
  case atom.atom =>
    cases c
    case atom => exact Literal.eqv_trans hab hbc
    all_goals exact nomatch hbc
  case list.list | data.data | call.call => cases c <;> exact hbc
  case symbol.symbol | operator.operator | keyword.keyword | define.define =>
    have heq := beq_iff_eq.1 hab
    cases c <;> first | exact beq_iff_eq.2 (heq.trans (beq_iff_eq.1 hbc)) | cases hbc
  all_goals exact nomatch hab

theorem same_symm {a b : Expr} (h : a.same b = true) : b.same a = true := by
  induction a using elementsInduction generalizing b with
  | h a ih =>
    refine same_iff.2 ((same_iff.1 h).imp ?_ ?_)
    · cases a <;> cases b <;> simp only [oneList, beq_iff_eq, reduceCtorEq, imp_self]
      exact Eq.symm
    · rintro ⟨hroot, hall⟩
      refine ⟨sameRoot_symm hroot, ?_⟩
      exact (((forall₂_and_left ..).2 ⟨ih, hall⟩).imp fun x y h => h.1 h.2).flip

end Expr

/-! ## Heaps -/

/-- What labels stand for: those of lists and functions, and those of definitions. -/
structure Heap where
  object? : Nat → Option Value
  definition? : Nat → Option Expr

/-- If the expression has a label, is it what the label stands for? -/
def Heap.Registers (heap : Heap) : Expr → Prop
  | .data label head tail => heap.object? label = some (.list ⟨label, head, tail⟩)
  | .define label name params body =>
    heap.definition? label = some (.define label name params body)
  | _ => True

namespace Expr

/-- An expression has the property, and so have all expressions inside it. -/
inductive Throughout (P : Expr → Prop) : Expr → Prop
  | node {e : Expr} (h : P e) (hall : ∀ x ∈ e.children, Throughout P x) : Throughout P e

/-- All labels in the expression stand for what they stand for in the heap. -/
abbrev In (heap : Heap) : Expr → Prop := Throughout heap.Registers

theorem Throughout.self {P : Expr → Prop} {e : Expr} (h : e.Throughout P) : P e := by
  cases h with
  | node h _ => exact h

theorem Throughout.children {P : Expr → Prop} {e : Expr} (h : e.Throughout P) :
    ∀ x ∈ e.children, x.Throughout P := by
  cases h with
  | node _ hall => exact hall

theorem Throughout.elements {P : Expr → Prop} {e : Expr} (h : e.Throughout P) :
    ∀ x ∈ e.elements, x.Throughout P :=
  fun x hx => h.children x (mem_children hx)

theorem Throughout.imp {P Q : Expr → Prop} (hPQ : ∀ e, P e → Q e) {e : Expr}
    (h : e.Throughout P) : e.Throughout Q := by
  induction h with
  | node h _ ih => exact .node (hPQ _ h) ih

section In

variable {heap : Heap} {a b : Expr} (ha : a.In heap) (hb : b.In heap)
include ha hb

theorem eq_of_oneList (h : a.oneList b = true) : a = b := by
  have ha := ha.self
  have hb := hb.self
  cases a <;> cases b
  case data.data =>
    obtain rfl := beq_iff_eq.1 h
    cases Option.some.inj (ha.symm.trans hb)
    rfl
  all_goals exact nomatch h

theorem same_trans {c : Expr} (hc : c.In heap) (hab : a.same b = true) (hbc : b.same c = true) :
    a.same c = true := by
  induction a using elementsInduction generalizing b c with
  | h a ih =>
    rcases same_iff.1 hab with hone | ⟨hroot, hall⟩
    · exact eq_of_oneList ha hb hone ▸ hbc
    rcases same_iff.1 hbc with hone | ⟨hroot', hall'⟩
    · exact eq_of_oneList hb hc hone ▸ hab
    refine same_iff.2 (.inr ⟨sameRoot_trans hroot hroot', ?_⟩)
    refine forall₂_comp hall hall' fun x hx y hy z hz => ?_
    exact ih x hx (ha.elements x hx) (hb.elements y hy) (hc.elements z hz)

theorem same_define (hdefine : ∃ label name params body, a = define label name params body) :
    a.same b = true ↔ b = a := by
  obtain ⟨label, name, params, body, rfl⟩ := hdefine
  constructor
  · intro h
    have ha := ha.self
    have hb := hb.self
    cases b
    case define =>
      obtain rfl := beq_iff_eq.1 h
      exact Option.some.inj (hb.symm.trans ha)
    all_goals exact nomatch h
  · rintro rfl
    exact beq_self_eq_true label

end In

/-! ## Comparison of parts -/

/-- Elements that are equal part by part, whether or not they are one list. -/
inductive SameParts : Expr → Expr → Prop
  | intro {a b : Expr} (hroot : a.sameRoot b = true)
      (helements : Forall₂ SameParts a.elements b.elements) : SameParts a b

theorem SameParts.same {a b : Expr} (h : a.SameParts b) : a.same b = true := by
  induction a using elementsInduction generalizing b with
  | h a ih =>
    obtain ⟨hroot, helements⟩ := h
    refine same_iff.2 (.inr ⟨hroot, ?_⟩)
    exact ((forall₂_and_left ..).2 ⟨ih, helements⟩).imp fun x y h => h.1 h.2

mutual

def unlabel : Expr → Expr
  | data _ head tail => data 0 head.unlabel (unlabelAll tail)
  | operator op xs => operator op (unlabelAll xs)
  | keyword token xs => keyword token (unlabelAll xs)
  | list head tail => list head.unlabel (unlabelAll tail)
  | call callee token args => call callee.unlabel token (unlabelAll args)
  | e => e

def unlabelAll : List Expr → List Expr
  | [] => []
  | x :: xs => x.unlabel :: unlabelAll xs

end

theorem unlabelAll_eq (xs : List Expr) : unlabelAll xs = xs.map unlabel := by
  induction xs with
  | nil => rfl
  | cons x xs ih => rw [unlabelAll, ih, List.map_cons]

theorem elements_unlabel (e : Expr) : e.unlabel.elements = e.elements.map unlabel := by
  cases e <;> simp [unlabel, elements, unlabelAll_eq]

theorem sameRoot_unlabel (a b : Expr) : a.unlabel.sameRoot b.unlabel = a.sameRoot b := by
  cases a <;> cases b <;> rfl

theorem SameParts.of_unlabel {a b : Expr} (ha : .number .nan ∉ a.literals)
    (h : a.unlabel = b.unlabel) : a.SameParts b := by
  induction a using elementsInduction generalizing b with
  | h a ih =>
    refine ⟨?_, ?_⟩
    · rw [← sameRoot_unlabel, ← h, sameRoot_unlabel]
      exact sameRoot_self ha
    · have hall : Forall₂ (fun x y => x.unlabel = y.unlabel) a.elements b.elements := by
        rw [← forall₂_map_right_iff (R := fun x y => unlabel x = y), ← forall₂_map_left_iff,
          ← elements_unlabel, ← elements_unlabel, h, forall₂_eq_eq_eq]
      have hboth := (forall₂_and_left ..).2 ⟨ih, hall⟩
      have hnan (x : Expr) (hx : x ∈ a.elements) : .number .nan ∉ x.literals :=
        fun hin => ha (mem_literals hx hin)
      exact ((forall₂_and_left ..).2 ⟨hnan, hboth⟩).imp fun x y h => h.2.1 h.1 h.2.2

theorem same_iff_sameParts {heap : Heap} {a b : Expr} (ha : a.In heap) (hb : b.In heap)
    (hnan : .number .nan ∉ a.literals) : a.same b = true ↔ a.SameParts b := by
  refine ⟨fun h => ?_, SameParts.same⟩
  induction a using elementsInduction generalizing b with
  | h a ih =>
    rcases same_iff.1 h with hone | ⟨hroot, hall⟩
    · exact eq_of_oneList ha hb hone ▸ .of_unlabel hnan rfl
    · refine ⟨hroot, forall₂_comp (forall₂_same.2 fun _ _ => rfl) hall ?_⟩
      rintro x hx _ - y hy rfl hxy
      have hnan' : Literal.number .nan ∉ x.literals := fun hin => hnan (mem_literals hx hin)
      exact ih x hx (ha.elements x hx) (hb.elements y hy) hnan' hxy

end Expr

/-! ## Values -/

def ListValue.expr (l : ListValue) : Expr := .data l.label l.head l.tail

namespace Value

/-- All labels in the value stand for what they stand for in the heap. -/
def In (heap : Heap) : Value → Prop
  | list l => l.expr.In heap
  | function f => heap.object? f.label = some (.function f) ∧ f.body.In heap
  | _ => True

/-- The numbers and strings that occur in a value, at any depth. -/
def literals : Value → List Literal
  | number n => [.number n]
  | string s => [.string s]
  | list l => l.expr.literals
  | _ => []

/-- Values that are equal part by part, whether or not they are one list. -/
def SameParts : Value → Value → Prop
  | list l, list k => l.expr.SameParts k.expr
  | a, b => a.same b = true

/-- The value without the labels of lists. A copy of a value has the same definitions in it. -/
def unlabel : Value → Value
  | list l => list ⟨0, l.head.unlabel, Expr.unlabelAll l.tail⟩
  | v => v

theorem same_symm {a b : Value} (h : a.same b = true) : b.same a = true := by
  cases a <;> cases b
  case nil.nil => rfl
  case bool.bool | string.string | function.function => exact beq_iff_eq.2 (beq_iff_eq.1 h).symm
  case number.number => exact Binary64.eqv_symm h
  case list.list l k => exact Expr.same_symm (a := l.expr) (b := k.expr) h
  all_goals exact nomatch h

section In

variable {heap : Heap} {a b : Value} (ha : a.In heap) (hb : b.In heap)
include ha hb

theorem same_trans {c : Value} (hc : c.In heap) (hab : a.same b = true) (hbc : b.same c = true) :
    a.same c = true := by
  cases a <;> cases b
  case nil.nil => exact hbc
  case bool.bool | string.string => rwa [beq_iff_eq.1 hab]
  case number.number =>
    cases c
    case number => exact Binary64.eqv_trans hab hbc
    all_goals exact nomatch hbc
  case list.list l k =>
    cases c
    case list j =>
      exact Expr.same_trans (a := l.expr) (b := k.expr) (c := j.expr) ha hb hc hab hbc
    all_goals exact nomatch hbc
  case function.function f g =>
    cases c
    case function => exact beq_iff_eq.2 ((beq_iff_eq.1 hab).trans (beq_iff_eq.1 hbc))
    all_goals exact nomatch hbc
  all_goals exact nomatch hab

theorem same_function (hfunction : ∃ f, a = .function f) : a.same b = true ↔ b = a := by
  obtain ⟨f, rfl⟩ := hfunction
  constructor
  · intro h
    cases b
    case function g =>
      have hg := hb.1
      rw [← beq_iff_eq.1 h] at hg
      exact Option.some.inj (hg.symm.trans ha.1)
    all_goals exact nomatch h
  · rintro rfl
    exact beq_self_eq_true f.label

theorem same_iff_sameParts (hnan : .number .nan ∉ a.literals) :
    a.same b = true ↔ a.SameParts b := by
  cases a <;> cases b
  case list.list l k => exact Expr.same_iff_sameParts (a := l.expr) (b := k.expr) ha hb hnan
  all_goals rfl

end In

theorem SameParts.of_unlabel {a b : Value} (hnan : .number .nan ∉ a.literals)
    (h : a.unlabel = b.unlabel) : a.SameParts b := by
  cases a <;> cases b
  case list.list l k =>
    refine Expr.SameParts.of_unlabel (a := l.expr) (b := k.expr) hnan ?_
    obtain ⟨-, hhead, htail⟩ := ListValue.mk.inj (Value.list.inj h)
    rw [ListValue.expr, ListValue.expr, Expr.unlabel, Expr.unlabel, hhead, htail]
  case nil.nil => rfl
  case number.number =>
    cases h
    exact Binary64.eqv_self fun hn => hnan (hn ▸ List.mem_singleton_self _)
  case bool.bool | string.string | function.function =>
    cases h
    exact beq_self_eq_true _
  all_goals exact nomatch h

theorem SameParts.same {a b : Value} (h : a.SameParts b) : a.same b = true := by
  cases a <;> cases b
  case list.list l k => exact Expr.SameParts.same (a := l.expr) (b := k.expr) h
  all_goals exact h

/-- **The laws of equality.** It is symmetric and transitive. A value without not-a-number is equal
to itself and to its copies, part by part, and for such a value it makes no difference that two
lists which are one list are equal at once. Functions, and definitions inside lists, are equal only
if they are one. -/
theorem same_laws {heap : Heap} {a b c : Value} (ha : a.In heap) (hb : b.In heap)
    (hc : c.In heap) :
    a.same b = b.same a ∧
      (a.same b = true → b.same c = true → a.same c = true) ∧
      (.number .nan ∉ a.literals →
        a.same a = true ∧
          (∀ d : Value, a.unlabel = d.unlabel → a.same d = true ∧ a.SameParts d) ∧
          (a.same b = true ↔ a.SameParts b)) ∧
      (∀ f, a = .function f → (a.same b = true ↔ b = a)) ∧
      ∀ label name params body (e : Expr), (Expr.define label name params body).In heap →
        e.In heap → ((Expr.define label name params body).same e = true ↔
          e = .define label name params body) := by
  refine ⟨Bool.eq_iff_iff.2 ⟨same_symm, same_symm⟩, same_trans ha hb hc, fun hnan => ?_,
    fun f hf => same_function ha hb ⟨f, hf⟩, ?_⟩
  · have hcopy {d : Value} (hd : a.unlabel = d.unlabel) := SameParts.of_unlabel hnan hd
    exact ⟨(hcopy rfl).same, fun d hd => ⟨(hcopy hd).same, hcopy hd⟩,
      same_iff_sameParts ha hb hnan⟩
  · exact fun label name params body e hd he => Expr.same_define hd he ⟨_, _, _, _, rfl⟩

/-- Lists of a list of a zero and a definition: the second is a copy of the first but for the sign
of the zero, and the third shares its element with the first. -/
theorem same_laws_lists :
    let f : Token := ⟨.symbol, "f", none, 1⟩
    let zero negative : Expr := .atom (.number (.zero negative)) ⟨.number, "0", none, 1⟩
    let definition : Expr := .define 0 f [] (.symbol f)
    let inner label negative : Expr := .data label (zero negative) [definition]
    let a : Value := .list ⟨0, inner 1 false, []⟩
    let b : Value := .list ⟨2, inner 3 true, []⟩
    let c : Value := .list ⟨4, inner 1 false, []⟩
    ∃ heap, (a.In heap ∧ b.In heap ∧ c.In heap) ∧ b.same a = true ∧ a.same c = true ∧
      a.SameParts b := by
  intro f zero definition inner a b c
  let heap : Heap :=
    ⟨fun label => [a, .list ⟨1, zero false, [definition]⟩, b, .list ⟨3, zero true, [definition]⟩,
      c][label]?, fun label => [definition][label]?⟩
  have hzero (negative : Bool) : (zero negative).In heap := .node trivial nofun
  have hdefinition : definition.In heap :=
    .node rfl (forall_mem_singleton.2 (.node trivial nofun))
  have hinner (negative : Bool) (label : Nat)
      (h : heap.object? label = some (.list ⟨label, zero negative, [definition]⟩)) :
      (inner label negative).In heap :=
    .node h (forall_mem_cons.2 ⟨hzero negative, forall_mem_singleton.2 hdefinition⟩)
  have ha : a.In heap := .node rfl (forall_mem_singleton.2 (hinner false 1 rfl))
  have hb : b.In heap := .node rfl (forall_mem_singleton.2 (hinner true 3 rfl))
  have hc : c.In heap := .node rfl (forall_mem_singleton.2 (hinner false 1 rfl))
  have hab : a.same b = true := by decide
  have hbc : b.same c = true := by decide
  obtain ⟨hsymm, htrans, hnan, -⟩ := same_laws ha hb hc
  exact ⟨heap, ⟨ha, hb, hc⟩, hsymm ▸ hab, htrans hab hbc, (hnan (by decide)).2.2.1 hab⟩

end Value

end MiniLisp
