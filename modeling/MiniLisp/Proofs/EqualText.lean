import MiniLisp.Proofs.Alike
import MiniLisp.Proofs.Growth
import MiniLisp.Proofs.Histories
import MiniLisp.Proofs.ReadBack
import MiniLisp.Proofs.Simulation.Invariant

/-!
# Equal values print alike

Equality looks at the kinds of tokens and at labels, and printing at lexemes and contents. In one
session they agree: a label is given once, and operators and keywords have one spelling each. Only
the two zeros are equal and are printed differently.

* `Token.Spelled` : tokens that are written as their kind is;
* `Heap.Knows`, `Heap.Grows` : what is known of code in a heap, which grows as labels are given;
* `Growth.heap` : evaluation keeps what is known, in heaps that grow;
* `Session.Meets` : the values that come up in the runs of a session, `Session.meets_known` what is
  known of them if units can be taken in;
* `Session.meets_heap` : they are in one heap;
* `Session.equal_text` : those that are equal are printed alike.
-/

namespace MiniLisp

open List

/-! ## Spelling -/

/-- How all tokens of a kind are written, if they are all written alike. -/
def Kind.spelling? : Kind → Option String
  | mark m => some (String.ofList [m.char])
  | keyword k => some k.spelling
  | _ => none

def Token.Spelled (t : Token) : Prop := t.kind.spelling? = some t.lexeme

theorem Token.Spelled.lexeme_eq {t u : Token} (ht : t.Spelled) (hu : u.Spelled)
    (h : t.kind = u.kind) : u.lexeme = t.lexeme := by
  unfold Token.Spelled at ht
  rw [h] at ht
  exact Option.some.inj (hu.symm.trans ht)

/-- If the expression is an operator or a keyword, is it written as it should be? -/
def Expr.Spelled : Expr → Prop
  | .operator t _ | .keyword t _ => t.Spelled
  | _ => True

theorem Piece.Gives.spelled {p : Piece} {line : Nat} {t : Token} (h : p.Gives line t)
    (hkind : t.kind.spelling?.isSome = true) : t.Spelled := by
  cases h with
  | number | string => exact nomatch hkind
  | mark m => rfl
  | word text =>
    unfold Token.Spelled
    show (Kind.ofWord (String.ofList text)).spelling? = some (String.ofList text)
    unfold Kind.ofWord
    split
    · rename_i k hk
      have hspelling := List.find?_some hk
      exact congrArg some (beq_iff_eq.1 hspelling)
    · rename_i hnone
      have hsymbol : Kind.ofWord (String.ofList text) = .symbol := by
        unfold Kind.ofWord
        rw [hnone]
      rw [hsymbol] at hkind
      exact nomatch hkind

theorem Expr.ofToken_spelled {t : Token} {e : Expr} (h : ofToken t = .ok e) (ht : t.FromPiece) :
    e.Throughout Expr.Spelled := by
  obtain ⟨p, -, line, hgives⟩ := ht
  rcases ofToken_cases h with ⟨k, hk, rfl⟩ | ⟨op, hop, rfl⟩ | ⟨_, value, _, rfl⟩ | ⟨_, rfl⟩
  · exact .node (hgives.spelled (by rw [hk]; rfl)) nofun
  · exact .node (hgives.spelled (by rw [hop]; rfl)) nofun
  · exact .node trivial nofun
  · exact .node trivial nofun

theorem Spells.spelled {ts : List Token} {es : List Expr} (h : Spells ts es)
    (hts : ∀ t ∈ ts, t.FromPiece) : ∀ e ∈ es, e.Throughout Expr.Spelled := by
  induction h with
  | nil => exact nofun
  | token he _ ih =>
    obtain ⟨ht, hts⟩ := forall_mem_cons.1 hts
    exact forall_mem_cons.2 ⟨Expr.ofToken_spelled he ht, ih hts⟩
  | call _ _ _ _ _ ihargs ih =>
    simp only [forall_mem_cons, forall_mem_append] at hts
    obtain ⟨-, -, has, -, hts⟩ := hts
    have hname : ∀ name, (Expr.symbol name).Throughout Expr.Spelled := fun _ => .node trivial nofun
    refine forall_mem_cons.2 ⟨.node trivial ?_, ih hts⟩
    exact forall_mem_cons.2 ⟨hname _, ihargs has⟩
  | define _ _ _ _ _ _ ihbody ih =>
    simp only [forall_mem_cons, forall_mem_append] at hts
    obtain ⟨-, -, -, hbs, -, hts⟩ := hts
    exact forall_mem_cons.2 ⟨.node trivial (ihbody hbs), ih hts⟩
  | list _ _ _ _ _ _ ihhead ihtail ih =>
    simp only [forall_mem_cons, forall_mem_append] at hts
    obtain ⟨-, hhs, htls, -, hts⟩ := hts
    refine forall_mem_cons.2 ⟨.node trivial ?_, ih hts⟩
    exact forall_mem_cons.2 ⟨ihhead hhs _ mem_cons_self, ihtail htls⟩

theorem Expr.read_spelled (unit : String) :
    ∀ e ∈ (read unit).expressions, e.Throughout Expr.Spelled := by
  intro e he
  obtain ⟨us, hus, hspells⟩ := parse_spells he
  rw [takeWhile_tokens] at hus
  exact hspells.spelled (fun t ht => fromPiece_of_mem (hus.subset ht)) e mem_cons_self

/-! ## Heaps that grow -/

namespace Heap

/-- What is known of an expression: its label stands for it, and its token is written as its kind
is. -/
def Knows (heap : Heap) (e : Expr) : Prop := heap.Registers e ∧ e.Spelled

/-- What labels stand for in `heap`, they stand for in `heap'`. -/
structure Grows (heap heap' : Heap) : Prop where
  objects : ∀ label v, heap.object? label = some v → heap'.object? label = some v
  definitions : ∀ label e, heap.definition? label = some e → heap'.definition? label = some e

/-- Only labels that have been given stand for something. -/
structure Below (heap : Heap) (l : Labels) : Prop where
  objects : ∀ label v, heap.object? label = some v → label < l.object
  definitions : ∀ label e, heap.definition? label = some e → label < l.definition

def withObject (heap : Heap) (label : Nat) (v : Value) : Heap :=
  { heap with object? := fun i => if i = label then some v else heap.object? i }

def withDefinition (heap : Heap) (label : Nat) (e : Expr) : Heap :=
  { heap with definition? := fun i => if i = label then some e else heap.definition? i }

namespace Grows

theorem refl (heap : Heap) : heap.Grows heap := ⟨fun _ _ h => h, fun _ _ h => h⟩

theorem trans {h₁ h₂ h₃ : Heap} (h : h₁.Grows h₂) (h' : h₂.Grows h₃) : h₁.Grows h₃ :=
  ⟨fun i v hv => h'.objects i v (h.objects i v hv),
    fun i e he => h'.definitions i e (h.definitions i e he)⟩

theorem knows {heap heap' : Heap} (h : heap.Grows heap') (e : Expr) (he : heap.Knows e) :
    heap'.Knows e := by
  refine ⟨?_, he.2⟩
  cases e with
  | data => exact h.objects _ _ he.1
  | define => exact h.definitions _ _ he.1
  | atom | symbol | operator | keyword | list | call => trivial

end Grows

namespace Below

variable {heap : Heap} {l : Labels} (h : heap.Below l)
include h

theorem withObject (v : Value) :
    heap.Grows (heap.withObject l.object v) ∧
      (heap.withObject l.object v).Below (Labels.freshObject l).2 := by
  refine ⟨⟨fun i u hu => ?_, fun _ _ he => he⟩, ⟨fun i u hu => ?_, h.definitions⟩⟩
  · exact (if_neg (Nat.ne_of_lt (h.objects i u hu))).trans hu
  · by_cases hi : i = l.object
    · exact hi ▸ Nat.lt_succ_self _
    · exact Nat.lt_succ_of_lt (h.objects i u ((if_neg hi).symm.trans hu))

theorem withDefinition (e : Expr) :
    heap.Grows (heap.withDefinition l.definition e) ∧
      (heap.withDefinition l.definition e).Below (Labels.freshDefinition l).2 := by
  refine ⟨⟨fun _ _ hu => hu, fun i u hu => ?_⟩, ⟨h.objects, fun i u hu => ?_⟩⟩
  · exact (if_neg (Nat.ne_of_lt (h.definitions i u hu))).trans hu
  · by_cases hi : i = l.definition
    · exact hi ▸ Nat.lt_succ_self _
    · exact Nat.lt_succ_of_lt (h.definitions i u ((if_neg hi).symm.trans hu))

end Below

end Heap

def Heap.KnowsValue (heap : Heap) : Value → Prop
  | .list l => l.expr.Throughout heap.Knows
  | .function f => heap.object? f.label = some (.function f) ∧ f.body.Throughout heap.Knows
  | _ => True

/-- What is known of a machine: all values that are bound are known, and the labels that it gives
next stand for nothing yet. -/
structure Heap.KnowsMachine (heap : Heap) (m : Machine) : Prop where
  bound : ∀ i name v, (name, v) ∈ m.store.bindings i → heap.KnowsValue v
  below : heap.Below m.labels

namespace Heap

theorem Grows.knowsValue {heap heap' : Heap} (h : heap.Grows heap') {v : Value}
    (hv : heap.KnowsValue v) : heap'.KnowsValue v := by
  cases v with
  | list l => exact hv.imp h.knows
  | function f => exact ⟨h.objects _ _ hv.1, hv.2.imp h.knows⟩
  | nil | bool | number | string => trivial

theorem KnowsValue.in {heap : Heap} {v : Value} (h : heap.KnowsValue v) : v.In heap := by
  cases v with
  | list l => exact h.imp fun _ he => he.1
  | function f => exact ⟨h.1, h.2.imp fun _ he => he.1⟩
  | nil | bool | number | string => trivial

theorem KnowsValue.datum {heap : Heap} {v : Value} (h : heap.KnowsValue v) {line : Nat} {e : Expr}
    (he : v.datum line = .ok e) : e.Throughout heap.Knows := by
  cases v with
  | bool b =>
    cases b <;>
    · cases he
      exact .node ⟨trivial, rfl⟩ nofun
  | nil =>
    cases he
    exact .node ⟨trivial, rfl⟩ nofun
  | number | string =>
    cases he
    exact .node ⟨trivial, trivial⟩ nofun
  | list l =>
    cases he
    exact h
  | function => exact nomatch he

theorem KnowsMachine.withObject {heap : Heap} {m : Machine} (hm : heap.KnowsMachine m)
    (v : Value) :
    heap.Grows (heap.withObject m.labels.object v) ∧
      (heap.withObject m.labels.object v).KnowsMachine (m.relabelled Labels.freshObject).2 := by
  obtain ⟨hgrows, hbelow⟩ := hm.below.withObject v
  exact ⟨hgrows, fun i name u hu => hgrows.knowsValue (hm.bound i name u hu), hbelow⟩

end Heap

/-- **Evaluation keeps what is known**, in heaps that grow. -/
def Growth.heap : Growth where
  World := Heap
  le := Heap.Grows
  expr heap := Expr.Throughout heap.Knows
  value := Heap.KnowsValue
  machine := Heap.KnowsMachine
  cause _ _ := True
  refl := .refl
  trans := .trans
  expr_mono h he := he.imp h.knows
  value_mono h hv := h.knowsValue hv
  cause_anti _ _ := trivial
  children := Expr.Throughout.children
  scalar {_ v} hv := by
    cases v with
    | list | function => exact hv.elim
    | nil | bool | number | string => trivial
  list := Iff.rfl
  body hf := hf.2
  datum hv he := hv.datum he
  bound hm hv := hm.bound _ _ _ hv
  unbound _ _ := trivial
  failure _ := trivial
  newList {heap m x xs} hm hx hxs := by
    obtain ⟨hgrows, hm'⟩ := hm.withObject (.list ⟨m.labels.object, x, xs⟩)
    refine ⟨_, hgrows, hm', .node ⟨if_pos rfl, trivial⟩ ?_⟩
    exact forall_mem_cons.2 ⟨hx.imp hgrows.knows, fun y hy => (hxs y hy).imp hgrows.knows⟩
  newFunction {heap m label name params x} hm h := by
    obtain ⟨hgrows, hm'⟩ :=
      hm.withObject (.function ⟨m.labels.object, name, params, x, m.current⟩)
    have hbody := h.children x mem_cons_self
    exact ⟨_, hgrows, hm', if_pos rfl, hbody.imp hgrows.knows⟩
  define {heap m v} name hm hv := by
    refine ⟨heap, .refl heap, fun i n u hu => ?_, hm.below⟩
    rcases Store.mem_bindings_define _ _ _ _ hu with ⟨-, heq⟩ | hu
    · cases heq
      exact hv
    · exact hm.bound i n u hu
  opened {heap m f} hm _ := by
    refine ⟨heap, .refl heap, fun i n u hu => ?_, hm.below⟩
    rw [Machine.store_opened, Store.bindings_push] at hu
    exact hm.bound i n u hu
  leave _ _ hn := ⟨hn.bound, hn.below⟩

/-! ## Labelling -/

/-- Can the expression be labelled in every heap, so that it is known in a later one? -/
def Expr.Registrable (e : Expr) : Prop :=
  ∀ (heap : Heap) (l : Labels), heap.Below l → ∃ heap' : Heap, heap.Grows heap' ∧
    heap'.Below (e.relabel l).2 ∧ (e.relabel l).1.Throughout heap'.Knows

theorem Expr.registrable_all (xs : List Expr) (h : ∀ x ∈ xs, x.Registrable) {heap : Heap}
    {l : Labels} (hl : heap.Below l) :
    ∃ heap' : Heap, heap.Grows heap' ∧ heap'.Below (relabelAll xs l).2 ∧
      ∀ y ∈ (relabelAll xs l).1, y.Throughout heap'.Knows := by
  induction xs generalizing heap l with
  | nil =>
    rw [relabelAll]
    exact ⟨heap, .refl heap, hl, nofun⟩
  | cons x xs ih =>
    obtain ⟨hx, hxs⟩ := forall_mem_cons.1 h
    obtain ⟨heap₁, hgrows, hl₁, hknown⟩ := hx heap l hl
    obtain ⟨heap₂, hgrows', hl₂, hall⟩ := ih hxs hl₁
    rw [relabelAll]
    exact ⟨heap₂, hgrows.trans hgrows', hl₂, forall_mem_cons.2 ⟨hknown.imp hgrows'.knows, hall⟩⟩

theorem Expr.Throughout.registrable {e : Expr} (h : e.Throughout Expr.Spelled) :
    e.Registrable := by
  induction h with
  | @node e h _ ih =>
    intro heap l hl
    cases e with
    | atom | symbol =>
      rw [relabel]
      exact ⟨heap, .refl heap, hl, .node ⟨trivial, trivial⟩ nofun⟩
    | operator | keyword =>
      obtain ⟨heap', hgrows, hl', hall⟩ := registrable_all _ ih hl
      rw [relabel]
      exact ⟨heap', hgrows, hl', .node ⟨trivial, h⟩ hall⟩
    | list head tail | call head _ tail =>
      obtain ⟨heap', hgrows, hl', hall⟩ := registrable_all (head :: tail) ih hl
      rw [relabelAll] at hall hl'
      rw [relabel]
      exact ⟨heap', hgrows, hl', .node ⟨trivial, trivial⟩ hall⟩
    -- the contents of a list or a definition are labelled after it, whatever the heap is
    | data label head tail =>
      obtain ⟨hgrows, hbelow⟩ := hl.withObject (.list ⟨l.object,
        (head.relabel (Labels.freshObject l).2).1,
        (relabelAll tail (head.relabel (Labels.freshObject l).2).2).1⟩)
      obtain ⟨heap', hgrows', hl', hall⟩ := registrable_all (head :: tail) ih hbelow
      rw [relabelAll] at hall hl'
      have hregistered := hgrows'.objects l.object _ (if_pos rfl)
      rw [relabel]
      exact ⟨heap', hgrows.trans hgrows', hl', .node ⟨hregistered, trivial⟩ hall⟩
    | define label name params body =>
      obtain ⟨hgrows, hbelow⟩ := hl.withDefinition (.define l.definition name params
        (body.relabel (Labels.freshDefinition l).2).1)
      obtain ⟨heap', hgrows', hl', hbody⟩ := ih body mem_cons_self _ _ hbelow
      have hregistered := hgrows'.definitions l.definition _ (if_pos rfl)
      rw [relabel]
      exact ⟨heap', hgrows.trans hgrows', hl',
        .node ⟨hregistered, trivial⟩ (forall_mem_singleton.2 hbody)⟩

/-- Can the unit be taken in wherever the machine is known? Its expressions are known in a later
world, once they are labelled. -/
def Growth.Takes (G : Growth) (unit : String) : Prop :=
  ∀ {w : G.World} {m : Machine}, G.machine w m → ∃ w', G.le w w' ∧
    G.machine w' (m.adopt (Expr.read unit).expressions).2 ∧
    ∀ e ∈ (m.adopt (Expr.read unit).expressions).1, G.expr w' e

theorem Growth.heap_takes (unit : String) : heap.Takes unit := by
  intro heap m hm
  obtain ⟨heap', hgrows, hbelow, hknown⟩ := Expr.registrable_all (Expr.read unit).expressions
    (fun e he => (Expr.read_spelled unit e he).registrable) hm.below
  exact ⟨heap', hgrows, ⟨fun i name v hv => hgrows.knowsValue (hm.bound i name v hv), hbelow⟩,
    hknown⟩

/-! ## Sessions -/

namespace Session

/-- The runs of a session come upon a value. After a run that was stopped there are no others. -/
inductive Meets (depth : Nat) : Session → List Step → Value → Prop
  | now {s : Session} {step : Step} {steps : List Step} {unit : String} {v : Value}
      (hunit : step.unit? = some unit)
      (h : (s.machine.adopt (Expr.read unit).expressions).2.Meets depth
        (s.machine.adopt (Expr.read unit).expressions).1 v) : Meets depth s (step :: steps) v
  | later {s : Session} {step : Step} {steps : List Step} {v : Value}
      (h : ∀ unit ∈ step.unit?, (s.run depth unit).ending ≠ .exhausted)
      (hv : Meets depth (history depth s [step]).session steps v) : Meets depth s (step :: steps) v

/-- The values that a unit emits, and those that are bound after it, come up in it. -/
theorem Meets.of_run {depth : Nat} {s : Session} {step : Step} {steps : List Step} {unit : String}
    {v : Value} (hunit : step.unit? = some unit)
    (h : v ∈ (s.run depth unit).emitted ∨
      ∃ i name, (name, v) ∈ (s.run depth unit).session.machine.store.bindings i) :
    s.Meets depth (step :: steps) v :=
  .now hunit (.of_interpret _ _ h)

/-- The machine after a step is that which the run of its unit leaves. -/
theorem machine_history (depth : Nat) (s : Session) (step : Step) :
    (history depth s [step]).session.machine =
      match step.unit? with
      | some unit => (s.run depth unit).session.machine
      | none => s.machine := by
  cases step with
  | evaluate unit =>
    show (s.evaluate depth unit).2.machine = _
    rw [evaluate_eq]
    rfl
  | stream unit =>
    show (s.runWith _ depth [] unit).2.2.machine = _
    rw [runWith_eq]
    rfl
  | reset => rfl

section Growth

variable (G : Growth) (depth : Nat)

/-- The run of a unit leads to a later world, in which all values that it meets are known. -/
theorem run_known {unit : String} (hunit : G.Takes unit) {s : Session} {w : G.World}
    (hs : G.machine w s.machine) :
    ∃ w', G.le w w' ∧
      (∀ v, (s.machine.adopt (Expr.read unit).expressions).2.Meets depth
        (s.machine.adopt (Expr.read unit).expressions).1 v → G.value w' v) ∧
      ((s.run depth unit).ending ≠ .exhausted →
        G.machine w' (s.run depth unit).session.machine) := by
  obtain ⟨u, hwu, hadopted, hknown⟩ := hunit hs
  obtain ⟨w', huw', hmeets, hleft⟩ := G.interpret depth hknown hadopted
  exact ⟨w', G.trans hwu huw', hmeets, hleft⟩

/-- The values that the runs of a session come upon are known in one world. -/
theorem meets_known (steps : List Step) (hsteps : ∀ step ∈ steps, ∀ unit ∈ step.unit?, G.Takes unit)
    {s : Session} {w : G.World} (hs : G.machine w s.machine) :
    ∃ w', G.le w w' ∧ ∀ v, s.Meets depth steps v → G.value w' v := by
  induction steps generalizing s w with
  | nil => exact ⟨w, G.refl w, nofun⟩
  | cons step steps ih =>
    obtain ⟨hstep, hsteps⟩ := forall_mem_cons.1 hsteps
    have hmachine := s.machine_history depth step
    cases hunit : step.unit? with
    | none =>
      rw [hunit] at hmachine
      obtain ⟨w', hww', hlater⟩ :=
        ih hsteps (s := (history depth s [step]).session) (by rw [hmachine]; exact hs)
      refine ⟨w', hww', fun v hv => ?_⟩
      cases hv with
      | now h => exact nomatch hunit.symm.trans h
      | later _ hv => exact hlater v hv
    | some unit =>
      rw [hunit] at hmachine
      obtain ⟨u, hwu, hnow, hleft⟩ := run_known G depth (hstep unit hunit) hs
      by_cases hending : (s.run depth unit).ending = .exhausted
      · refine ⟨u, hwu, fun v hv => ?_⟩
        cases hv with
        | now h hv =>
          cases hunit.symm.trans h
          exact hnow v hv
        | later h => exact absurd hending (h unit hunit)
      · obtain ⟨w', huw', hlater⟩ :=
          ih hsteps (s := (history depth s [step]).session) (by rw [hmachine]; exact hleft hending)
        refine ⟨w', G.trans hwu huw', fun v hv => ?_⟩
        cases hv with
        | now h hv =>
          cases hunit.symm.trans h
          exact G.value_mono huw' (hnow v hv)
        | later _ hv => exact hlater v hv

end Growth

theorem knowsMachine_initial :
    (⟨fun _ => none, fun _ => none⟩ : Heap).KnowsMachine initial.machine where
  bound i name v hv := by
    rw [show initial.machine.store.bindings i = [] from Machine.initial_bindings i] at hv
    exact nomatch hv
  below := ⟨nofun, nofun⟩

/-- **The values of a session are in one heap.** -/
theorem meets_heap (depth : Nat) (steps : List Step) :
    ∃ heap : Heap, ∀ v, initial.Meets depth steps v → heap.KnowsValue v ∧ v.In heap := by
  obtain ⟨heap, -, h⟩ := meets_known Growth.heap depth steps
    (fun _ _ unit _ => Growth.heap_takes unit) knowsMachine_initial
  exact ⟨heap, fun v hv => ⟨h v hv, (h v hv).in⟩⟩

end Session

/-! ## Printed forms -/

theorem Binary64.eq_of_eqv {a b : Binary64} (h : a.eqv b = true) (ha : a ≠ .zero true)
    (hb : b ≠ .zero true) : a = b := by
  obtain ⟨x, hx, hy⟩ := eqv_iff.1 h
  cases a with
  | nan => exact nomatch hx
  | signed s r hr =>
    cases b with
    | nan => exact nomatch hy
    | signed t q hq =>
      have hzero {q : Nat} (hq : q ≤ top) (h : q = 0) : signed true q hq = zero true := by
        subst h
        rfl
      have hpositions := hx.trans hy.symm
      cases s <;> cases t <;> simp only [position?, Option.some.injEq] at hpositions
      case false.false | true.true =>
        obtain rfl : r = q := by omega
        rfl
      case true.false => exact absurd (hzero hr (by omega)) ha
      case false.true => exact absurd (hzero hq (by omega)) hb

theorem Literal.eq_of_eqv {a b : Literal} (h : a.eqv b = true) (ha : a ≠ .number (.zero true))
    (hb : b ≠ .number (.zero true)) : a = b := by
  cases a <;> cases b
  case number.number =>
    exact congrArg _ (Binary64.eq_of_eqv h (fun c => ha (c ▸ rfl)) fun c => hb (c ▸ rfl))
  case string.string => exact congrArg _ (beq_iff_eq.1 h)
  all_goals exact nomatch h

/-- Elements that are equal, and in which no negative zero occurs, are printed alike. -/
theorem Expr.text_eq_of_same {heap : Heap} {a b : Expr} (ha : a.Throughout heap.Knows)
    (hb : b.Throughout heap.Knows) (hsame : a.same b = true)
    (hza : .number (.zero true) ∉ a.literals) (hzb : .number (.zero true) ∉ b.literals) :
    b.text = a.text := by
  induction a using elementsInduction generalizing b with
  | h a ih =>
    have hina : a.In heap := ha.imp fun _ h => h.1
    have hinb : b.In heap := hb.imp fun _ h => h.1
    rcases same_iff.1 hsame with hone | ⟨hroot, hall⟩
    · rw [eq_of_oneList hina hinb hone]
    have htexts : Forall₂ (fun x y => y.text = x.text) a.elements b.elements := by
      refine forall₂_comp (forall₂_same.2 fun _ _ => rfl) hall ?_
      rintro x hx _ - y hy rfl hxy
      exact ih x hx (ha.elements x hx) (hb.elements y hy) hxy (fun h => hza (mem_literals hx h))
        fun h => hzb (mem_literals hy h)
    have ha := ha.self.2
    have hb := hb.self.2
    cases a <;> cases b
    case atom.atom =>
      have heq := Literal.eq_of_eqv hroot (fun h => hza (h ▸ mem_singleton_self _)) fun h =>
        hzb (h ▸ mem_singleton_self _)
      rw [text, text, heq]
    case symbol.symbol => exact (beq_iff_eq.1 hroot).symm
    case define.define =>
      rw [(same_define hina hinb ⟨_, _, _, _, rfl⟩).1 hsame]
    case operator.operator | keyword.keyword =>
      have hlexeme := ha.lexeme_eq hb (beq_iff_eq.1 hroot)
      cases htexts with
      | nil => exact hlexeme
      | cons hx hxs => rw [text, text, hlexeme, spacedText_congr (.cons hx hxs)]
    case list.list | data.data | call.call =>
      cases htexts with
      | cons hx hxs => rw [text, text, hx, spacedText_congr hxs]
    all_goals exact absurd hroot Bool.false_ne_true

/-- Values that are equal, and in which no negative zero occurs, are printed alike. -/
theorem Value.text_eq_of_same {heap : Heap} {a b : Value} (ha : heap.KnowsValue a)
    (hb : heap.KnowsValue b) (hsame : a.same b = true)
    (hza : .number (.zero true) ∉ a.literals) (hzb : .number (.zero true) ∉ b.literals) :
    a.text = b.text := by
  cases a <;> cases b
  case nil.nil => rfl
  case bool.bool | string.string => rw [beq_iff_eq.1 hsame]
  case number.number n k =>
    have heq : n = k := Binary64.eq_of_eqv hsame (fun h => hza (h ▸ mem_singleton_self _)) fun h =>
      hzb (h ▸ mem_singleton_self _)
    rw [heq]
  case list.list l k =>
    exact (Expr.text_eq_of_same (a := l.expr) (b := k.expr) ha hb hsame hza hzb).symm
  case function.function => rw [(same_function ha.in hb.in ⟨_, rfl⟩).1 hsame]
  all_goals exact absurd hsame Bool.false_ne_true

/-- **Equal values print alike.** Two values that come up in the runs of one session, and in which
no negative zero occurs at any depth, have one printed form if they are equal. -/
theorem Session.equal_text (depth : Nat) (steps : List Step) {a b : Value}
    (ha : initial.Meets depth steps a) (hb : initial.Meets depth steps b)
    (hsame : a.same b = true) (hza : .number (.zero true) ∉ a.literals)
    (hzb : .number (.zero true) ∉ b.literals) : a.text = b.text := by
  obtain ⟨heap, hheap⟩ := meets_heap depth steps
  exact Value.text_eq_of_same (hheap a ha).1 (hheap b hb).1 hsame hza hzb

/-- A function that makes a list of what is passed to it makes two lists that are equal, in a later
unit than its own. -/
theorem Session.equal_text_lists :
    let steps := [.evaluate "(define (f x) (cons x nil))", .stream "(f 1)(f 1)"]
    ∃ a b, (initial.Meets 9 steps a ∧ initial.Meets 9 steps b ∧ a.same b = true) ∧
      a.text = b.text := by
  intro steps
  let s := (history 9 initial [.evaluate "(define (f x) (cons x nil))"]).session
  let r := s.run 9 "(f 1)(f 1)"
  have hfirst : (initial.run 9 "(define (f x) (cons x nil))").ending ≠ .exhausted := by
    decide +kernel
  have hmeets (v : Value) (hv : v ∈ r.emitted) : initial.Meets 9 steps v := by
    refine .later ?_ (.of_run rfl (.inl hv))
    rintro _ ⟨⟩
    exact hfirst
  obtain ⟨a, ha, b, hb, hsame, hza, hzb⟩ : ∃ a ∈ r.emitted.take 1, ∃ b ∈ r.emitted.drop 1,
      a.same b = true ∧ .number (.zero true) ∉ a.literals ∧ .number (.zero true) ∉ b.literals := by
    decide +kernel
  have ha := hmeets a (mem_of_mem_take ha)
  have hb := hmeets b (mem_of_mem_drop hb)
  exact ⟨a, b, ⟨ha, hb, hsame⟩, equal_text 9 steps ha hb hsame hza hzb⟩

end MiniLisp
