import MiniLisp.Proofs.Simulation.SameCode
import MiniLisp.Proofs.StoreLaws

/-!
# Scoping is lexical

What a scope holds has no influence on an evaluation that cannot reach the scope, and evaluation
does not change it.

* `Store.Reaches` : from one scope to another along enclosing scopes and the scopes of functions;
* `Machine.AgreeOff` : machines that are identical but for the bindings of one scope;
* `Outcome.AlikeOff` : outcomes that are the same and leave such machines;
* `eval_unreachable` : the theorem, for expressions and for calls.

The invariant is a set of scopes that does not hold the hidden one: those that were reachable at the
start, and all that are made since. It does not change while scopes come and go, and it is closed
(`Store.Closed`) under both ways of reaching a scope.
-/

namespace MiniLisp

/-! ## Reachable scopes -/

/-- `s.Reaches i j`: scope `j` is reached from scope `i` by following enclosing scopes and the
scopes of functions bound in scopes already reached. -/
inductive Store.Reaches (s : Store) (i : ScopeId) : ScopeId → Prop
  | refl : Reaches s i i
  | enclosing {j p : ScopeId} (h : Reaches s i j) (hp : s.enclosing? j = some p) : Reaches s i p
  | closure {j : ScopeId} {name : String} {f : Closure} (h : Reaches s i j)
      (hf : (name, .function f) ∈ s.bindings j) : Reaches s i f.scope

/-- A set of scopes that holds every scope reached from it. -/
structure Store.Closed (s : Store) (inside : ScopeId → Prop) : Prop where
  enclosing : ∀ i p, inside i → s.enclosing? i = some p → inside p
  closure : ∀ i name f, inside i → (name, .function f) ∈ s.bindings i → inside f.scope

namespace Store.Closed

variable {s : Store} {inside : ScopeId → Prop}

theorem bound (h : s.Closed inside) {i : ScopeId} (hi : inside i) {name : String} {v : Value}
    (hv : (name, v) ∈ s.bindings i) : v.ClosedIn inside := by
  cases v with
  | function f => exact h.closure i name f hi hv
  | nil | bool | number | string | list => trivial

theorem define (h : s.Closed inside) (i : ScopeId) (name : String) {v : Value}
    (hv : v.ClosedIn inside) : (s.define i name v).Closed inside where
  enclosing j p hj hp := by
    rw [Store.enclosing?_define] at hp
    exact h.enclosing j p hj hp
  closure j n f hj hf := by
    rcases Store.mem_bindings_define _ _ _ _ hf with ⟨-, he⟩ | hf
    · cases he
      exact hv
    · exact h.closure j n f hj hf

theorem push (h : s.Closed inside) {i : ScopeId} (hi : inside i) :
    (s.push (some i)).Closed inside where
  enclosing j p hj hp := by
    rw [Store.enclosing?_push] at hp
    split at hp
    · obtain ⟨hp, -⟩ := Option.filter_eq_some_iff.1 hp
      cases hp
      exact hi
    · exact h.enclosing j p hj hp
  closure j n f hj hf := by
    rw [Store.bindings_push] at hf
    exact h.closure j n f hj hf

end Store.Closed

theorem Store.Reaches.closed {s : Store} {inside : ScopeId → Prop} (hs : s.Closed inside)
    {i j : ScopeId} (h : s.Reaches i j) (hi : inside i) : inside j := by
  induction h with
  | refl => exact hi
  | enclosing _ hp ih => exact hs.enclosing _ _ ih hp
  | closure _ hf ih => exact hs.closure _ _ _ ih hf

/-- The scopes reached from any of `roots`, with all scopes that are yet to be made. -/
def Store.Visible (s : Store) (roots : ScopeId → Prop) (i : ScopeId) : Prop :=
  (∃ r, roots r ∧ s.Reaches r i) ∨ s.size ≤ i

theorem Store.closed_visible (s : Store) (roots : ScopeId → Prop) : s.Closed (s.Visible roots) where
  enclosing i p hi hp := by
    rcases hi with ⟨r, hr, hi⟩ | hi
    · exact .inl ⟨r, hr, hi.enclosing hp⟩
    · rw [s.enclosing?_of_size_le hi] at hp
      cases hp
  closure i name f hi hf := by
    rcases hi with ⟨r, hr, hi⟩ | hi
    · exact .inl ⟨r, hr, hi.closure hf⟩
    · rw [s.bindings_of_size_le hi] at hf
      cases hf

/-! ## Machines that differ in one scope -/

/-- The machines are identical but for the bindings of scope `u`. -/
structure Machine.AgreeOff (u : ScopeId) (m n : Machine) : Prop where
  current : n.current = m.current
  labels : n.labels = m.labels
  size : n.store.size = m.store.size
  enclosing : ∀ i, n.store.enclosing? i = m.store.enclosing? i
  bindings : ∀ i, i ≠ u → n.store.bindings i = m.store.bindings i

/-- The same outcome from `m` and from `n`, up to the bindings of scope `u`, which are those that
`m` and `n` had there. -/
inductive Outcome.AlikeOff (u : ScopeId) (m n : Machine) : Outcome Value → Outcome Value → Prop
  | done (v : Value) {m' n' : Machine} (hagree : m'.AgreeOff u n')
      (hm : m'.store.bindings u = m.store.bindings u)
      (hn : n'.store.bindings u = n.store.bindings u) : AlikeOff u m n (.done v m') (.done v n')
  | failed (e : RuntimeError) {m' n' : Machine} (hagree : m'.AgreeOff u n')
      (hm : m'.store.bindings u = m.store.bindings u)
      (hn : n'.store.bindings u = n.store.bindings u) :
      AlikeOff u m n (.failed e m') (.failed e n')
  | exhausted : AlikeOff u m n .exhausted .exhausted

namespace Machine.AgreeOff

variable {u : ScopeId} {m n : Machine}

theorem define (h : m.AgreeOff u n) (name : String) (v : Value) :
    (m.define name v).AgreeOff u (n.define name v) where
  current := h.current
  labels := h.labels
  size := by simpa using h.size
  enclosing i := by simpa using h.enclosing i
  bindings i hi := by
    rw [store_define, store_define, Store.bindings_define, Store.bindings_define,
      h.bindings i hi, h.size, h.current]

theorem opened (h : m.AgreeOff u n) (f : Closure) : (m.opened f).AgreeOff u (n.opened f) where
  current := h.size
  labels := h.labels
  size := by simpa using h.size
  enclosing i := by
    rw [store_opened, store_opened, Store.enclosing?_push, Store.enclosing?_push, h.size,
      h.enclosing i]
  bindings i hi := by simpa using h.bindings i hi

theorem withCurrent (h : m.AgreeOff u n) (i : ScopeId) :
    Machine.AgreeOff u { m with current := i } { n with current := i } :=
  ⟨rfl, h.labels, h.size, h.enclosing, h.bindings⟩

end Machine.AgreeOff

theorem Outcome.AlikeOff.withCurrent {u : ScopeId} {m n : Machine} {o o' : Outcome Value}
    (h : Outcome.AlikeOff u m n o o') (i : ScopeId) :
    Outcome.AlikeOff u m n (o.mapMachine ({ · with current := i }))
      (o'.mapMachine ({ · with current := i })) := by
  cases h with
  | done v hagree hm hn => exact .done v (hagree.withCurrent i) hm hn
  | failed e hagree hm hn => exact .failed e (hagree.withCurrent i) hm hn
  | exhausted => exact .exhausted

/-! ## The invariant -/

/-- Machines reached from `m₀` and `n₀` by code that stays `inside`, a closed set without `u`. -/
structure Machine.Hides (u : ScopeId) (inside : ScopeId → Prop) (m₀ n₀ m n : Machine) : Prop where
  agree : m.AgreeOff u n
  current : inside m.current
  closed : m.store.Closed inside
  size_le : m₀.store.size ≤ m.store.size
  left : m.store.bindings u = m₀.store.bindings u
  right : n.store.bindings u = n₀.store.bindings u

namespace Machine.Hides

variable {u : ScopeId} {inside : ScopeId → Prop} {m₀ n₀ m n : Machine}

theorem lookup (hu : ¬inside u) (h : Hides u inside m₀ n₀ m n) (name : String) :
    n.store.lookup name n.current = m.store.lookup name m.current ∧
      ∀ v, m.store.lookup name m.current = some v → v.ClosedIn inside := by
  have hne (i : ScopeId) (hi : inside i) : i ≠ u := fun e => hu (e ▸ hi)
  obtain ⟨heq, hbound⟩ := Store.lookup_eq_of_agree name h.closed.enclosing
    (fun i _ => h.agree.enclosing i) (fun i hi => h.agree.bindings i (hne i hi)) h.current
  constructor
  · rw [h.agree.current]
    exact heq
  · intro v hv
    obtain ⟨j, hj, hmem⟩ := hbound v hv
    exact h.closed.bound hj hmem

theorem define (hu : ¬inside u) (h : Hides u inside m₀ n₀ m n) (name : String) {v : Value}
    (hv : v.ClosedIn inside) : Hides u inside m₀ n₀ (m.define name v) (n.define name v) where
  agree := h.agree.define name v
  current := h.current
  closed := h.closed.define _ _ hv
  size_le := by simpa using h.size_le
  left := by
    have hne : u ≠ m.current := fun e => hu (e ▸ h.current)
    rw [store_define, Store.bindings_define_of_ne _ _ _ _ hne]
    exact h.left
  right := by
    have hne : u ≠ n.current := fun e => hu (e ▸ h.agree.current ▸ h.current)
    rw [store_define, Store.bindings_define_of_ne _ _ _ _ hne]
    exact h.right

theorem opened (hnew : ∀ i, m₀.store.size ≤ i → inside i) (h : Hides u inside m₀ n₀ m n)
    {f : Closure} (hf : inside f.scope) : Hides u inside m₀ n₀ (m.opened f) (n.opened f) where
  agree := h.agree.opened f
  current := hnew _ h.size_le
  closed := h.closed.push hf
  size_le := by simpa using Nat.le_succ_of_le h.size_le
  left := by simpa using h.left
  right := by simpa using h.right

end Machine.Hides

/-- Two machines that run the same code, which stays `inside`. -/
def SameCode.hiding {u : ScopeId} {inside : ScopeId → Prop} {m₀ : Machine} (n₀ : Machine)
    (hu : ¬inside u) (hnew : ∀ i, m₀.store.size ≤ i → inside i) : SameCode where
  inside := inside
  machine := Machine.Hides u inside m₀ n₀
  label h := by rw [h.agree.labels]
  current h := ⟨h.agree.current, h.current⟩
  lookup name h := h.lookup hu name
  relabelled {m m'} h := by
    refine ⟨⟨h.agree.current, ?_, h.agree.size, h.agree.enclosing, h.agree.bindings⟩, h.current,
      h.closed, h.size_le, h.left, h.right⟩
    show (Labels.freshObject m'.labels).2 = (Labels.freshObject m.labels).2
    rw [h.agree.labels]
  define name v h hv := h.define hu name hv
  opened f h hf := h.opened hnew hf
  leave {m m' n n'} hm hn := by
    refine ⟨?_, hm.current, hn.closed, hn.size_le, hn.left, hn.right⟩
    rw [hm.agree.current]
    exact hn.agree.withCurrent m.current

section Unreachable

variable {u : ScopeId} {m n : Machine} {roots : ScopeId → Prop}

theorem not_visible (hu : u < m.store.size) (h : ∀ r, roots r → ¬m.store.Reaches r u) :
    ¬m.store.Visible roots u := by
  rintro (⟨r, hr, hreach⟩ | hle)
  · exact h r hr hreach
  · exact Nat.not_le_of_lt hu hle

theorem hides_start (h : m.AgreeOff u n) {r : ScopeId} (hr : roots r) :
    Machine.Hides u (m.store.Visible roots) m n { m with current := r } { n with current := r } :=
  ⟨h.withCurrent r, .inl ⟨r, hr, .refl⟩, m.store.closed_visible roots, Nat.le_refl _, rfl, rfl⟩

theorem alikeOff_eval (hu : u < m.store.size) (h : ∀ r, roots r → ¬m.store.Reaches r u)
    {k k' : Machine} (hk : Machine.Hides u (m.store.Visible roots) m n k k') (depth : Nat)
    (e : Expr) : Outcome.AlikeOff u m n (eval depth e k) (eval depth e k') := by
  have hrun := (SameCode.hiding n (not_visible hu h) fun _ => .inr).simulation.eval depth
    (Eq.refl e) hk
  generalize eval depth e k = o, eval depth e k' = o' at hrun
  cases hrun with
  | done hv hm _ =>
    obtain ⟨rfl, -⟩ := hv
    exact .done _ hm.agree hm.left hm.right
  | failed cause ht hm _ =>
    obtain rfl := ht
    exact .failed _ hm.agree hm.left hm.right
  | exhausted => exact .exhausted

/-- Arguments that come from the roots are bound in the scope of a call, which hides `u` too. -/
theorem hides_enter (hu : u < m.store.size) (h : ∀ r, roots r → ¬m.store.Reaches r u)
    (hagree : m.AgreeOff u n) {f : Closure} (hf : roots f.scope) {args : List Value}
    (hargs : ∀ v ∈ args, v.ClosedIn roots) :
    Machine.Hides u (m.store.Visible roots) m n (m.enter f args) (n.enter f args) := by
  let S := SameCode.hiding n (not_visible hu h) fun _ => .inr
  have visible (r : ScopeId) (hr : roots r) : m.store.Visible roots r := .inl ⟨r, hr, .refl⟩
  have hvalues : List.Forall₂ S.simulation.value args args := by
    refine List.forall₂_same.2 fun v hv => ⟨rfl, ?_⟩
    have hin := hargs v hv
    cases v with
    | function g => exact visible g.scope hin
    | nil | bool | number | string | list => trivial
  -- the scope that was current before the call has no part in it
  show S.machine (Machine.enter { m with current := f.scope } f args)
    (Machine.enter { n with current := f.scope } f args)
  exact S.simulation.enter ⟨rfl, visible _ hf⟩ hvalues (hides_start hagree hf)

end Unreachable

/-- **Scoping is lexical.** Two machines that are identical but for the bindings of a scope `u` give
the same outcome on every expression, if `u` cannot be reached from the current scope; and on every
call, whatever scope is current, if `u` can be reached neither from the function nor from the
arguments. The bindings of `u` stay as they were in each. -/
theorem eval_unreachable (depth : Nat) {u : ScopeId} {m n : Machine} (hu : u < m.store.size)
    (h : m.AgreeOff u n) :
    (∀ e, ¬m.store.Reaches m.current u →
      Outcome.AlikeOff u m n (eval depth e m) (eval depth e n)) ∧
    (∀ f args, ¬m.store.Reaches f.scope u →
      (∀ g, .function g ∈ args → ¬m.store.Reaches g.scope u) →
      Outcome.AlikeOff u m n ((eval depth).invoke f args m) ((eval depth).invoke f args n)) := by
  constructor
  · intro e hreach
    have hroots : ∀ r, r = m.current → ¬m.store.Reaches r u := fun r hr => hr ▸ hreach
    have hstart : Machine.Hides u (m.store.Visible (· = m.current)) m n m
        { n with current := m.current } := hides_start h rfl
    have hn : { n with current := m.current } = n := by rw [← h.current]
    rw [hn] at hstart
    exact alikeOff_eval hu hroots hstart depth e
  · intro f args hf hargs
    have hroots : ∀ r, (r = f.scope ∨ ∃ g, .function g ∈ args ∧ r = g.scope) →
        ¬m.store.Reaches r u := by
      rintro r (rfl | ⟨g, hg, rfl⟩)
      · exact hf
      · exact hargs g hg
    have hclosed : ∀ v ∈ args,
        v.ClosedIn fun r => r = f.scope ∨ ∃ g, .function g ∈ args ∧ r = g.scope := by
      intro v hv
      cases v with
      | function g => exact .inr ⟨g, hv, rfl⟩
      | nil | bool | number | string | list => trivial
    have hstart := hides_enter hu hroots h (.inl rfl) hclosed
    rw [invoke_eq, invoke_eq, h.current]
    exact (alikeOff_eval hu hroots hstart depth f.body).withCurrent _

/-- The global scope binds `x` to true; the current scope, inside it, binds `x` to `v`. -/
def shadowed (v : Value) : Machine :=
  { Machine.initial with
    store := ((Store.empty.push none).define 0 "x" (.bool true)).push (some 0) |>.define 1 "x" v
    current := 1 }

/-- A function of the global scope that reads `x`. -/
def readX : Closure :=
  ⟨0, ⟨.symbol, "f", none, 1⟩, [], .symbol ⟨.symbol, "x", none, 1⟩, 0⟩

theorem shadowed_closed (v : Value) : (shadowed v).store.Closed (· = 0) where
  enclosing i p hi hp := by
    subst hi
    cases hp
  closure i name f hi hf := by
    subst hi
    have hb : (shadowed v).store.bindings 0 = [("x", .bool true)] := rfl
    rw [hb] at hf
    simp at hf

/-- The function sees the `x` of its own scope, whatever the caller has bound. -/
theorem call_ignores_caller :
    ¬(shadowed (.bool false)).store.Reaches readX.scope 1 ∧
      Outcome.AlikeOff 1 (shadowed (.bool false)) (shadowed .nil)
        ((eval 1).invoke readX [] (shadowed (.bool false)))
        ((eval 1).invoke readX [] (shadowed .nil)) := by
  have hreach : ¬(shadowed (.bool false)).store.Reaches readX.scope 1 := fun h =>
    absurd (h.closed (shadowed_closed _) rfl) (by decide)
  have hagree : (shadowed (.bool false)).AgreeOff 1 (shadowed .nil) := by
    refine ⟨rfl, rfl, rfl, ?_, ?_⟩
    · intro i
      simp [shadowed]
    · intro i hi
      simp [shadowed, Store.bindings_define_of_ne _ _ _ _ hi]
  exact ⟨hreach, (eval_unreachable 1 (by decide) hagree).2 readX [] hreach fun g hg => nomatch hg⟩

end MiniLisp
