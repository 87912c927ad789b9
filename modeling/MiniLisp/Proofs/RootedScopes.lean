import MiniLisp.Proofs.Growth
import MiniLisp.Proofs.Simulation.Invariant

/-!
# Rooted scopes

From the scopes that evaluation works with, the enclosing scopes lead to the global scope: from the
current one, and from those of all functions that are bound anywhere or on their way.

* `Store.Rooted` : a scope from which the enclosing scopes lead to the global scope;
* `Store.Grows` : scopes keep the scopes around them, and global names stay bound;
* `Machine.WellScoped` : the current scope and the scopes of all bound functions are rooted;
* `Growth.rooted` : everything that evaluation does keeps this, in stores that grow;
* `Machine.WellScoped.upholds` : evaluation keeps this, leaves the current scope current, and does
  not fail for want of a global name.
-/

namespace MiniLisp

open EvalM

/-! ## Rooted scopes -/

/-- From the scope, the enclosing scopes lead to the global scope. -/
inductive Store.Rooted (s : Store) : ScopeId → Prop
  | globalScope : Rooted s Machine.globalScope
  | inside {i p : ScopeId} (h : s.enclosing? i = some p) (hp : Rooted s p) : Rooted s i

/-- `path` leads from scope `i` to the scope around it, and on to one that nothing encloses. -/
inductive Store.Chain (s : Store) : ScopeId → List ScopeId → Prop
  | last {i : ScopeId} (h : s.enclosing? i = none) : Chain s i [i]
  | next {i p : ScopeId} {path : List ScopeId} (h : s.enclosing? i = some p)
      (hp : Chain s p path) : Chain s i (i :: path)

/-- The store `t` has the scopes of `s`, inside the same scopes, and the global names of `s`. -/
structure Store.Grows (s t : Store) : Prop where
  enclosing : ∀ i p, s.enclosing? i = some p → t.enclosing? i = some p
  names : (s.bindings Machine.globalScope).names ⊆ (t.bindings Machine.globalScope).names

namespace Store

theorem enclosing?_globalScope (s : Store) : s.enclosing? Machine.globalScope = none := by
  cases h : s.enclosing? Machine.globalScope with
  | none => rfl
  | some p => exact absurd (enclosing?_lt h) (Nat.not_lt_zero p)

/-- A chain goes to older and older scopes, and so to none of them twice. -/
theorem Chain.older {s : Store} {i : ScopeId} {path : List ScopeId} (h : s.Chain i path) :
    (∀ j ∈ path, j ≤ i) ∧ path.Nodup := by
  induction h with
  | last => exact ⟨by simp, by simp⟩
  | next h _ ih =>
    obtain ⟨hle, hnodup⟩ := ih
    have hlt := enclosing?_lt h
    refine ⟨List.forall_mem_cons.2 ⟨Nat.le_refl _, fun j hj => ?_⟩, List.nodup_cons.2 ⟨?_, hnodup⟩⟩
    · exact Nat.le_trans (hle j hj) (Nat.le_of_lt hlt)
    · exact fun hmem => Nat.not_le_of_lt hlt (hle _ hmem)

namespace Rooted

variable {s : Store} {i : ScopeId}

/-- The chain of a rooted scope is finite and without repetition, and ends in the global scope. -/
theorem chain (h : s.Rooted i) :
    ∃ path, s.Chain i path ∧ path.Nodup ∧ path.getLast? = some Machine.globalScope := by
  have hpath : ∃ path, s.Chain i path ∧ path.getLast? = some Machine.globalScope := by
    induction h with
    | globalScope => exact ⟨_, .last s.enclosing?_globalScope, rfl⟩
    | inside h _ ih =>
      obtain ⟨path, hchain, hlast⟩ := ih
      refine ⟨_, .next h hchain, ?_⟩
      rw [List.getLast?_cons, hlast]
      rfl
  obtain ⟨path, hchain, hlast⟩ := hpath
  exact ⟨path, hchain, hchain.older.2, hlast⟩

theorem lt (h : s.Rooted i) (hsize : 0 < s.size) : i < s.size := by
  cases h with
  | globalScope => exact hsize
  | inside h =>
    by_contra hle
    rw [s.enclosing?_of_size_le (Nat.le_of_not_lt hle)] at h
    exact nomatch h

theorem mono {t : Store} (h : s.Rooted i) (hst : s.Grows t) : t.Rooted i := by
  induction h with
  | globalScope => exact .globalScope
  | inside h _ ih => exact .inside (hst.enclosing _ _ h) ih

theorem lookup (h : s.Rooted i) {name : String}
    (hname : name ∈ (s.bindings Machine.globalScope).names) : (s.lookup name i).isSome = true := by
  induction h with
  | globalScope =>
    rw [Store.lookup]
    cases hget : (s.bindings Machine.globalScope).get? name with
    | some v => rfl
    | none =>
      obtain ⟨⟨n, v⟩, hmem, rfl⟩ := List.mem_map.1 hname
      have hne := List.lookup_eq_none_iff.1 hget _ hmem
      simp at hne
  | @inside i p h _ ih =>
    rw [Store.lookup]
    cases (s.bindings i).get? name with
    | some v => rfl
    | none =>
      dsimp only
      rw [h]
      exact ih

end Rooted

namespace Grows

theorem refl (s : Store) : s.Grows s := ⟨fun _ _ h => h, fun _ h => h⟩

theorem trans {s t u : Store} (hst : s.Grows t) (htu : t.Grows u) : s.Grows u :=
  ⟨fun i p h => htu.enclosing i p (hst.enclosing i p h), fun _ h => htu.names (hst.names h)⟩

end Grows

theorem grows_define (s : Store) (i : ScopeId) (name : String) (value : Value) :
    s.Grows (s.define i name value) where
  enclosing j p h := by rwa [enclosing?_define]
  names := by
    rw [bindings_define]
    split
    · exact (Bindings.names_isPrefix_bind _ _ _).subset
    · exact fun _ h => h

theorem grows_push (s : Store) (e : Option ScopeId) : s.Grows (s.push e) where
  enclosing i p h := by
    have hne : i ≠ s.size := by
      rintro rfl
      rw [s.enclosing?_of_size_le (Nat.le_refl _)] at h
      exact nomatch h
    rwa [enclosing?_push, if_neg hne]
  names := by
    rw [bindings_push]
    exact fun _ h => h

end Store

/-! ## Machines -/

/-- The current scope and the scopes of all functions that are bound anywhere are rooted. -/
structure Machine.WellScoped (m : Machine) : Prop where
  size_pos : 0 < m.store.size
  current : m.store.Rooted m.current
  closures : ∀ i name f, (name, .function f) ∈ m.store.bindings i → m.store.Rooted f.scope

abbrev Store.Holds (s : Store) (v : Value) : Prop := v.ClosedIn s.Rooted

theorem Store.Grows.holds {s t : Store} (h : s.Grows t) {v : Value} (hv : s.Holds v) :
    t.Holds v := by
  cases v with
  | function f => exact Store.Rooted.mono hv h
  | nil | bool | number | string | list => trivial

namespace Machine

variable {m : Machine}

theorem wellScoped_initial : initial.WellScoped where
  size_pos := by decide
  current := .globalScope
  closures i name f h := by
    rw [initial_bindings] at h
    exact nomatch h

theorem WellScoped.define (h : m.WellScoped) (name : String) {v : Value} (hv : m.store.Holds v) :
    (m.define name v).WellScoped where
  size_pos := by simpa using h.size_pos
  current := h.current.mono (Store.grows_define ..)
  closures i n f hf := by
    refine Store.Rooted.mono ?_ (Store.grows_define ..)
    rcases Store.mem_bindings_define _ _ _ _ hf with ⟨-, heq⟩ | hf
    · cases heq
      exact hv
    · exact h.closures i n f hf

theorem WellScoped.opened (h : m.WellScoped) {f : Closure} (hf : m.store.Rooted f.scope) :
    (m.opened f).WellScoped where
  size_pos := by simp
  current := by
    have hlink : (m.store.push (some f.scope)).enclosing? m.store.size = some f.scope := by
      rw [Store.enclosing?_push, if_pos rfl, Option.filter_some, if_pos]
      exact decide_eq_true (hf.lt h.size_pos)
    exact .inside hlink (hf.mono (Store.grows_push ..))
  closures i n g hg := by
    rw [store_opened, Store.bindings_push] at hg
    exact (h.closures i n g hg).mono (Store.grows_push ..)

/-- The parameters of a call are bound in its own scope, whatever the arguments are. -/
theorem grows_defineAll (m : Machine) (names : List String) (vs : List Value) :
    m.store.Grows (m.defineAll names vs).store ∧ (m.defineAll names vs).current = m.current := by
  refine defineAll_induction (P := fun n => m.store.Grows n.store ∧ n.current = m.current) ?_ names
    ⟨.refl _, rfl⟩
  rintro n name v - ⟨hgrows, hcurrent⟩
  exact ⟨hgrows.trans (Store.grows_define ..), hcurrent⟩

theorem grows_enter (m : Machine) (f : Closure) (vs : List Value) :
    m.store.Grows (m.enter f vs).store :=
  (Store.grows_push ..).trans (grows_defineAll (m.opened f) _ vs).1

/-- On `n` all scopes are rooted and the scope of `m` is current, and its store has grown out of
that of `m`. -/
structure Continues (m n : Machine) : Prop where
  grows : m.store.Grows n.store
  wellScoped : n.WellScoped
  current : n.current = m.current

theorem Continues.refl (h : m.WellScoped) : m.Continues m := ⟨.refl _, h, rfl⟩

theorem Continues.trans {n k : Machine} (hmn : m.Continues n) (hnk : n.Continues k) :
    m.Continues k :=
  ⟨hmn.grows.trans hnk.grows, hnk.wellScoped, hnk.current.trans hmn.current⟩

theorem WellScoped.relabelled (h : m.WellScoped) :
    (m.relabelled Labels.freshObject).2.WellScoped :=
  ⟨h.size_pos, h.current, h.closures⟩

/-- After a call the scope that was current before it is current again. -/
theorem WellScoped.leave (h : m.WellScoped) {n : Machine} (hgrows : m.store.Grows n.store)
    (hn : n.WellScoped) : m.Continues { n with current := m.current } :=
  ⟨hgrows, ⟨hn.size_pos, h.current.mono hgrows, hn.closures⟩, rfl⟩

end Machine

/-! ## Evaluation -/

/-- What is known of values and machines is that their scopes are rooted, in each store that grows
out of another. No global name is wanting. -/
def Growth.rooted : Growth where
  World := Store
  le := Store.Grows
  expr _ _ := True
  value := Store.Holds
  machine s m := m.store = s ∧ m.WellScoped
  cause s c := ∀ name ∈ (s.bindings Machine.globalScope).names, c ≠ .undefinedVariable name
  refl := .refl
  trans := .trans
  expr_mono _ _ := trivial
  value_mono h := h.holds
  cause_anti h hc name hname := hc name (h.names hname)
  children _ _ _ := trivial
  scalar {_ v} hv := by
    cases v with
    | function => exact hv.elim
    | nil | bool | number | string | list => trivial
  list := ⟨fun _ => trivial, fun _ => trivial⟩
  body _ := trivial
  datum _ _ := trivial
  bound {_ _ i name v} hm hv := by
    obtain ⟨rfl, hm⟩ := hm
    cases v with
    | function f => exact hm.closures i name f hv
    | nil | bool | number | string | list => trivial
  unbound {_ m name} hm hnone n hn hc := by
    obtain ⟨rfl, hm⟩ := hm
    cases hc
    have hfound := hm.current.lookup hn
    rw [hnone] at hfound
    exact nomatch hfound
  failure hc name _ he := by
    rw [he] at hc
    exact nomatch hc
  newList hm _ _ := ⟨_, .refl _, ⟨hm.1, hm.2.relabelled⟩, trivial⟩
  newFunction {_ m _ _ _ _} hm _ := by
    obtain ⟨rfl, hm⟩ := hm
    exact ⟨_, .refl _, ⟨rfl, hm.relabelled⟩, hm.current⟩
  define name hm hv := by
    obtain ⟨rfl, hm⟩ := hm
    exact ⟨_, Store.grows_define .., rfl, hm.define name hv⟩
  opened hm hf := by
    obtain ⟨rfl, hm⟩ := hm
    exact ⟨_, Store.grows_push .., rfl, hm.opened hf⟩
  leave hm hgrows hn := by
    obtain ⟨rfl, hm⟩ := hm
    obtain ⟨rfl, hn⟩ := hn
    exact ⟨rfl, (hm.leave hgrows hn).wellScoped⟩

/-- What an action leaves that started on `m`: a machine that continues `m`, and a result as `A`
says or an error other than the want of a global name. -/
def Outcome.Upholds {α : Type} (m : Machine) (A : Store → α → Prop) : Outcome α → Prop
  | .done a n => m.Continues n ∧ A n.store a
  | .failed e n => m.Continues n ∧ ∀ name ∈ m.globals.names, e.cause ≠ .undefinedVariable name
  | .exhausted => True

/-- **Evaluation keeps all scopes rooted**, leaves the current scope current, whether it gives a
value or an error, and does not fail for want of a global name. -/
theorem Machine.WellScoped.upholds {m : Machine} (h : m.WellScoped) (depth : Nat) (e : Expr) :
    (eval depth e m).Upholds m Store.Holds := by
  have hm : Growth.rooted.machine m.store m := ⟨rfl, h⟩
  obtain ⟨s, hgrows, hleaves, -⟩ := (Growth.rooted.watched depth).sound (e := e) trivial hm
  cases ho : eval depth e m with
  | exhausted => trivial
  | done v n =>
    rw [ho] at hleaves
    obtain ⟨⟨rfl, hn⟩, hcurrent, hv⟩ := hleaves
    exact ⟨⟨hgrows, hn, hcurrent⟩, hv⟩
  | failed error n =>
    rw [ho] at hleaves
    obtain ⟨⟨rfl, hn⟩, hcurrent, herror⟩ := hleaves
    exact ⟨⟨hgrows, hn, hcurrent⟩, herror⟩

end MiniLisp
