import MiniLisp.Proofs.Simulation.SameCode
import MiniLisp.Proofs.StoreLaws

/-!
# What evaluation leaves alone

Evaluation binds names in the current scope and in scopes that it makes itself, and nowhere else.

* `Machine.Framed` : between two machines only the current scope has gained or changed bindings;
* `Machine.Within` : the same while calls are being made, when a scope made since may be current;
* `Outcome.Leaves` : a property of the machine that is left, by a result or by an error.

What holds inside a call is the invariant `Within`; after it, the scope that was current before is
current again, and `Within` is `Framed`.
-/

namespace MiniLisp

/-- Does the machine that is left, whether by a result or by an error, have a property? -/
def Outcome.Leaves {α : Type} (P : Machine → Prop) : Outcome α → Prop
  | .done _ m => P m
  | .failed _ m => P m
  | .exhausted => True

theorem Outcome.Leaves.imp {α : Type} {P Q : Machine → Prop} {o : Outcome α} (h : o.Leaves P)
    (hpq : ∀ m, P m → Q m) : o.Leaves Q := by
  cases o with
  | done a m => exact hpq m h
  | failed e m => exact hpq m h
  | exhausted => trivial

theorem Outcome.leaves_mapMachine {α : Type} {P : Machine → Prop} {f : Machine → Machine}
    {o : Outcome α} : (o.mapMachine f).Leaves P ↔ o.Leaves fun m => P (f m) := by
  cases o <;> rfl

namespace Machine

/-- Between `m` and `n` no scope of `m` but the current one has changed its bindings and none its
enclosing scope; in the current one all names are kept in their order, and new ones come last. -/
structure Framed (m n : Machine) : Prop where
  current : n.current = m.current
  size_le : m.store.size ≤ n.store.size
  enclosing : ∀ i < m.store.size, n.store.enclosing? i = m.store.enclosing? i
  bindings : ∀ i < m.store.size, i ≠ m.current → n.store.bindings i = m.store.bindings i
  names : (m.store.bindings m.current).names <+: (n.store.bindings m.current).names

/-- Between `m` and `n` not even the current scope has changed its bindings. -/
structure Untouched (m n : Machine) : Prop where
  current : n.current = m.current
  size_le : m.store.size ≤ n.store.size
  enclosing : ∀ i < m.store.size, n.store.enclosing? i = m.store.enclosing? i
  bindings : ∀ i < m.store.size, n.store.bindings i = m.store.bindings i

/-- As `Framed`, but a scope that is not one of `m` may be current. -/
structure Within (m n : Machine) : Prop where
  current : n.current = m.current ∨ m.store.size ≤ n.current
  size_le : m.store.size ≤ n.store.size
  enclosing : ∀ i < m.store.size, n.store.enclosing? i = m.store.enclosing? i
  bindings : ∀ i < m.store.size, i ≠ m.current → n.store.bindings i = m.store.bindings i
  names : (m.store.bindings m.current).names <+: (n.store.bindings m.current).names

theorem Within.refl (m : Machine) : Within m m :=
  ⟨.inl rfl, Nat.le_refl _, fun _ _ => rfl, fun _ _ _ => rfl, List.prefix_refl _⟩

theorem Within.define {m n : Machine} (h : Within m n) (name : String) (value : Value) :
    Within m (n.define name value) where
  current := h.current
  size_le := by simpa using h.size_le
  enclosing i hi := by simpa using h.enclosing i hi
  bindings i hi hne := by
    have hother : i ≠ n.current := by
      rcases h.current with hc | hc
      · exact hc ▸ hne
      · omega
    rw [store_define, Store.bindings_define_of_ne _ _ _ _ hother]
    exact h.bindings i hi hne
  names := by
    refine h.names.trans ?_
    rw [store_define, Store.bindings_define]
    split
    · exact Bindings.names_isPrefix_bind _ _ _
    · exact List.prefix_refl _

theorem Within.opened {m n : Machine} (h : Within m n) (f : Closure) : Within m (n.opened f) where
  current := .inr h.size_le
  size_le := by simpa using Nat.le_succ_of_le h.size_le
  enclosing i hi := by
    have hne : i ≠ n.store.size := Nat.ne_of_lt (Nat.lt_of_lt_of_le hi h.size_le)
    rw [store_opened, Store.enclosing?_push, if_neg hne]
    exact h.enclosing i hi
  bindings i hi hne := by simpa using h.bindings i hi hne
  names := by simpa using h.names

theorem Within.leave {m n k : Machine} (hn : Within m n) (hk : Within m k) :
    Within m { k with current := n.current } :=
  ⟨hn.current, hk.size_le, hk.enclosing, hk.bindings, hk.names⟩

theorem Within.framed {m n : Machine} (h : Within m n) (hcurrent : n.current = m.current) :
    Framed m n :=
  ⟨hcurrent, h.size_le, h.enclosing, h.bindings, h.names⟩

/-- What stays within the machine on which a call opened its scope leaves all older scopes alone. -/
theorem Within.untouched {m n : Machine} {f : Closure} (h : Within (m.opened f) n) :
    Untouched m { n with current := m.current } := by
  have hsize : (m.opened f).store.size = m.store.size + 1 := by simp
  refine ⟨rfl, ?_, ?_, ?_⟩
  · have := h.size_le
    show m.store.size ≤ n.store.size
    omega
  · intro i hi
    have hlink : (m.opened f).store.enclosing? i = m.store.enclosing? i := by
      rw [store_opened, Store.enclosing?_push, if_neg (Nat.ne_of_lt hi)]
    rw [← hlink]
    exact h.enclosing i (by omega)
  · intro i hi
    have hbind : (m.opened f).store.bindings i = m.store.bindings i := by simp
    rw [← hbind]
    exact h.bindings i (by omega) (Nat.ne_of_lt hi)

end Machine

/-- Every machine that evaluation passes through is within the one it started on. -/
def SameCode.within (m : Machine) : SameCode where
  inside _ := True
  machine n n' := n = n' ∧ m.Within n
  label h := h.1 ▸ rfl
  current h := ⟨h.1 ▸ rfl, trivial⟩
  lookup _ h := ⟨h.1 ▸ rfl, fun v _ => by cases v <;> trivial⟩
  relabelled h :=
    ⟨h.1 ▸ rfl, ⟨h.2.current, h.2.size_le, h.2.enclosing, h.2.bindings, h.2.names⟩⟩
  define name v h _ := ⟨h.1 ▸ rfl, h.2.define name v⟩
  opened f h _ := ⟨h.1 ▸ rfl, h.2.opened f⟩
  leave hm hn := ⟨by rw [hm.1, hn.1], hm.2.leave hn.2⟩

theorem eval_within {k m : Machine} (h : k.Within m) (depth : Nat) (e : Expr) :
    (eval depth e m).Leaves fun n => k.Within n ∧ n.current = m.current := by
  have hrun := (SameCode.within k).simulation.eval depth (Eq.refl e) ⟨Eq.refl m, h⟩
  generalize eval depth e m = o at hrun
  cases hrun with
  | done _ hn hcurrent => exact ⟨hn.2, hcurrent.1⟩
  | failed _ _ hn hcurrent => exact ⟨hn.2, hcurrent.1⟩
  | exhausted => trivial

theorem enter_within (m : Machine) (f : Closure) (args : List Value) :
    (m.opened f).Within (m.enter f args) := by
  have hargs : List.Forall₂ (SameCode.within (m.opened f)).simulation.value args args :=
    List.forall₂_same.2 fun v _ => ⟨rfl, by cases v <;> trivial⟩
  exact ((SameCode.within (m.opened f)).simulation.defineAll _ hargs ⟨rfl, .refl _⟩).2

theorem eval_framed (depth : Nat) (e : Expr) (m : Machine) :
    (eval depth e m).Leaves m.Framed :=
  (eval_within (.refl m) depth e).imp fun _ h => h.1.framed h.2

theorem invoke_untouched (depth : Nat) (f : Closure) (args : List Value) (m : Machine) :
    ((eval depth).invoke f args m).Leaves m.Untouched := by
  rw [invoke_eq, Outcome.leaves_mapMachine]
  exact (eval_within (enter_within m f args) depth f.body).imp fun _ h => h.1.untouched

/-- **Frame law.** Evaluation, whether it gives a value or an error, changes bindings in the current
scope only, and there neither removes nor reorders names; the body of a function changes none. -/
theorem eval_frame (depth : Nat) (m : Machine) :
    (∀ e, (eval depth e m).Leaves m.Framed) ∧
      ∀ f args, ((eval depth).invoke f args m).Leaves m.Untouched :=
  ⟨fun e => eval_framed depth e m, fun f args => invoke_untouched depth f args m⟩

end MiniLisp
