import Mathlib.Data.List.Nodup
import MiniLisp.Proofs.Simulation.Invariant
import MiniLisp.Proofs.Simulation.SameCode

/-!
# The order of bindings

A scope lists its bindings in the order in which their names were first bound. Evaluation looks
names up and binds them, and neither depends on that order: it sees a scope as a map.

* `Bindings.Reordered` : the same bindings in any order, `reordered_iff` : what look-ups tell;
* `Machine.Reordered` : machines that differ in the order of bindings only;
* `Machine.Reordered.define_comm` : two names that are bound one after the other, either one first;
* `eval_reordered` : the same outcome on machines that differ so, and they do so again afterwards.
-/

namespace MiniLisp

open List

/-! ## One scope -/

namespace Bindings

/-- The same names with the same values, each once, in any order. -/
structure Reordered (b b' : Bindings) : Prop where
  unique : b.names.Nodup
  perm : b.Perm b'

variable {b b' : Bindings}

theorem nodup_of_names (h : b.names.Nodup) : b.Nodup := List.Nodup.of_map _ h

/-- Where a name is bound once, its value is that of any of its bindings. -/
theorem get?_eq_some_iff (h : b.names.Nodup) {name : String} {value : Value} :
    b.get? name = some value ↔ (name, value) ∈ b := by
  constructor
  · exact mem_of_get?
  · intro hmem
    obtain ⟨before, after, rfl⟩ := List.append_of_mem hmem
    rw [names, List.map_append, List.map_cons, List.nodup_middle, List.nodup_cons] at h
    refine List.lookup_eq_some_iff.2 ⟨before, after, rfl, fun entry hentry => bne_iff_ne.2 ?_⟩
    rintro rfl
    exact h.1 (List.mem_append_left _ (List.mem_map.2 ⟨entry, hentry, rfl⟩))

/-- Bindings are the same in another order if and only if no look-up tells them apart. -/
theorem reordered_iff (hb : b.names.Nodup) (hb' : b'.names.Nodup) :
    b.Reordered b' ↔ ∀ name, b'.get? name = b.get? name := by
  constructor
  · intro h name
    refine Option.ext fun value => ?_
    rw [get?_eq_some_iff hb, get?_eq_some_iff hb']
    exact h.perm.mem_iff.symm
  · intro h
    refine ⟨hb, (List.perm_ext_iff_of_nodup (nodup_of_names hb) (nodup_of_names hb')).2 ?_⟩
    rintro ⟨name, value⟩
    rw [← get?_eq_some_iff hb, ← get?_eq_some_iff hb', h]

namespace Reordered

theorem unique_right (h : b.Reordered b') : b'.names.Nodup :=
  (h.perm.map Prod.fst).nodup_iff.1 h.unique

theorem get?_eq (h : b.Reordered b') (name : String) : b'.get? name = b.get? name :=
  (reordered_iff h.unique h.unique_right).1 h name

theorem trans {b'' : Bindings} (h : b.Reordered b') (h' : b'.Reordered b'') : b.Reordered b'' :=
  ⟨h.unique, h.perm.trans h'.perm⟩

theorem bind (h : b.Reordered b') (name : String) (value : Value) :
    (b.bind name value).Reordered (b'.bind name value) := by
  refine (reordered_iff (nodup_bind h.unique name value)
    (nodup_bind h.unique_right name value)).2 fun n => ?_
  rw [get?_bind, get?_bind, h.get?_eq]

end Reordered

theorem reordered_bind_comm (h : b.names.Nodup) {name name' : String} (hne : name ≠ name')
    (value value' : Value) :
    ((b.bind name value).bind name' value').Reordered
      ((b.bind name' value').bind name value) := by
  refine (reordered_iff (nodup_bind (nodup_bind h _ _) _ _)
    (nodup_bind (nodup_bind h _ _) _ _)).2 fun n => ?_
  rw [get?_bind, get?_bind, get?_bind, get?_bind]
  by_cases hn : n = name
  · rw [if_pos hn, if_neg (hn ▸ hne), if_pos hn]
  · rw [if_neg hn, if_neg hn]

end Bindings

/-! ## All scopes -/

/-- Where names have the same values in each scope alone, they have so seen from any scope. -/
theorem Store.lookup_congr {s t : Store} (hlink : ∀ i, t.enclosing? i = s.enclosing? i)
    (hget : ∀ i name, (t.bindings i).get? name = (s.bindings i).get? name) (name : String)
    (i : ScopeId) : t.lookup name i = s.lookup name i := by
  induction i using Nat.strongRecOn with
  | ind i ih =>
    rw [lookup_eq, lookup_eq, hlink, hget]
    cases hp : s.enclosing? i with
    | none => rfl
    | some p => rw [Option.bind_some, Option.bind_some, ih p (enclosing?_lt hp)]

/-- Machines that differ in the order of bindings only: they have the same scopes inside the same
ones, and in each scope the same names have the same values. -/
structure Machine.Reordered (m n : Machine) : Prop where
  current : n.current = m.current
  labels : n.labels = m.labels
  size : n.store.size = m.store.size
  enclosing : ∀ i, n.store.enclosing? i = m.store.enclosing? i
  bindings : ∀ i, (m.store.bindings i).Reordered (n.store.bindings i)

/-- The same result, or the same error, from machines that differ in the order of bindings only. -/
inductive Outcome.Reordered {α : Type} : Outcome α → Outcome α → Prop
  | done (a : α) {m n : Machine} (h : m.Reordered n) : Reordered (.done a m) (.done a n)
  | failed (e : RuntimeError) {m n : Machine} (h : m.Reordered n) :
      Reordered (.failed e m) (.failed e n)
  | exhausted : Reordered .exhausted .exhausted

namespace Machine

variable {m n : Machine}

namespace Reordered

theorem trans {k : Machine} (h : m.Reordered n) (h' : n.Reordered k) : m.Reordered k where
  current := h'.current.trans h.current
  labels := h'.labels.trans h.labels
  size := h'.size.trans h.size
  enclosing i := (h'.enclosing i).trans (h.enclosing i)
  bindings i := (h.bindings i).trans (h'.bindings i)

theorem lookup_eq (h : m.Reordered n) (name : String) :
    n.store.lookup name n.current = m.store.lookup name m.current := by
  rw [h.current]
  exact Store.lookup_congr h.enclosing (fun i name => (h.bindings i).get?_eq name) name _

theorem define (h : m.Reordered n) (name : String) (value : Value) :
    (m.define name value).Reordered (n.define name value) where
  current := h.current
  labels := h.labels
  size := by simpa using h.size
  enclosing i := by simpa using h.enclosing i
  bindings i := by
    rw [store_define, store_define, Store.bindings_define, Store.bindings_define, h.size,
      h.current]
    split
    · exact (h.bindings i).bind name value
    · exact h.bindings i

theorem opened (h : m.Reordered n) (f : Closure) : (m.opened f).Reordered (n.opened f) where
  current := h.size
  labels := h.labels
  size := by simpa using h.size
  enclosing i := by
    rw [store_opened, store_opened, Store.enclosing?_push, Store.enclosing?_push, h.size,
      h.enclosing i]
  bindings i := by simpa using h.bindings i

theorem withCurrent (h : m.Reordered n) (i : ScopeId) :
    Machine.Reordered { m with current := i } { n with current := i } :=
  ⟨rfl, h.labels, h.size, h.enclosing, h.bindings⟩

theorem relabelled {α : Type} (h : m.Reordered n) (f : StateM Labels α) :
    (n.relabelled f).1 = (m.relabelled f).1 ∧ (m.relabelled f).2.Reordered (n.relabelled f).2 := by
  unfold Machine.relabelled
  rw [h.labels]
  exact ⟨rfl, h.current, rfl, h.size, h.enclosing, h.bindings⟩

/-- Which of two names was bound first shows in the order of bindings only. -/
theorem define_comm (h : m.Reordered n) {name name' : String} (hne : name ≠ name')
    (value value' : Value) :
    ((m.define name value).define name' value').Reordered
      ((n.define name' value').define name value) := by
  have hswap : ((m.define name value).define name' value').Reordered
      ((m.define name' value').define name value) := by
    refine ⟨rfl, rfl, by simp, by simp, fun i => ?_⟩
    have hunique := (h.bindings i).unique
    have hcurrent (a : String) (v : Value) : (m.define a v).current = m.current := rfl
    simp only [store_define, Store.bindings_define, Store.size_define, hcurrent]
    by_cases hi : i = m.current ∧ i < m.store.size
    · simp only [if_pos hi]
      exact Bindings.reordered_bind_comm hunique hne value value'
    · simp only [if_neg hi]
      exact ⟨hunique, .refl _⟩
  exact hswap.trans ((h.define name' value').define name value)

end Reordered

end Machine

theorem Machine.reordered_initial : initial.Reordered initial where
  current := rfl
  labels := rfl
  size := rfl
  enclosing _ := rfl
  bindings i := by
    rw [initial_bindings]
    exact ⟨List.nodup_nil, .nil⟩

/-! ## Evaluation -/

/-- Machines that differ in the order of bindings run the same code on the same values. -/
def SameCode.reordered : SameCode where
  inside _ := True
  machine := Machine.Reordered
  label h := by rw [h.labels]
  current h := ⟨h.current, trivial⟩
  lookup name h := ⟨h.lookup_eq name, fun v _ => by cases v <;> trivial⟩
  relabelled h := (h.relabelled _).2
  define name v h _ := h.define name v
  opened f h _ := h.opened f
  leave hm hn := hm.current ▸ hn.withCurrent _

/-- **Evaluation sees a scope as a map.** Machines that differ in the order of bindings only give
the same outcome on every expression, and on every program the same values and the same ending, and
are left differing in this order only. Names that are bound one after the other make no more
difference than this if they are bound the other way round. -/
theorem eval_reordered (depth : Nat) {m n : Machine} (h : m.Reordered n) :
    (∀ e, (eval depth e m).Reordered (eval depth e n)) ∧
    (∀ es, (n.interpret depth es).emitted = (m.interpret depth es).emitted ∧
      (n.interpret depth es).ending = (m.interpret depth es).ending ∧
      (m.interpret depth es).machine.Reordered (n.interpret depth es).machine) ∧
    ∀ name name' value value', name ≠ name' →
      ((m.define name value).define name' value').Reordered
        ((n.define name' value').define name value) := by
  refine ⟨fun e => ?_, fun es => ?_, fun _ _ value value' hne => h.define_comm hne value value'⟩
  · have hrun := SameCode.reordered.simulation.eval depth (Eq.refl e) h
    generalize eval depth e m = o, eval depth e n = o' at hrun
    cases hrun with
    | done hv hm _ =>
      obtain ⟨rfl, -⟩ := hv
      exact .done _ hm
    | failed cause ht hm _ =>
      obtain rfl := ht
      exact .failed _ hm
    | exhausted => exact .exhausted
  · have hes : Forall₂ (· = ·) es es := forall₂_same.2 fun _ _ => rfl
    have hrun := SameCode.reordered.simulation.interpret depth hes h
    have hemitted := hrun.emitted.imp fun _ _ hv => hv.1
    have hending := hrun.ending
    rw [forall₂_eq_eq_eq] at hemitted
    refine ⟨hemitted.symm, ?_, hrun.machine⟩
    generalize (m.interpret depth es).ending = o, (n.interpret depth es).ending = o' at hending
    cases hending with
    | failed cause ht =>
      obtain rfl := ht
      rfl
    | completed | exhausted => rfl

/-- Two definitions in either order: the names are listed differently, and nothing else differs. -/
theorem eval_reordered_definitions :
    let m := (Machine.initial.define "x" (.bool true)).define "y" .nil
    let n := (Machine.initial.define "y" .nil).define "x" (.bool true)
    m.globals.names = ["x", "y"] ∧ n.globals.names = ["y", "x"] ∧ m.Reordered n ∧
      ∀ depth e, (eval depth e m).Reordered (eval depth e n) := by
  intro m n
  have h : m.Reordered n := Machine.reordered_initial.define_comm (by decide) (.bool true) .nil
  exact ⟨rfl, rfl, h, fun depth e => (eval_reordered depth h).1 e⟩

end MiniLisp
