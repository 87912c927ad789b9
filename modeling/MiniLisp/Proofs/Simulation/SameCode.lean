import MiniLisp.Proofs.Simulation.Forms

/-!
# One program on two machines

`SameCode` is a relation between machines that run the same code on the same values. It asks what
becomes of the relation under the four ways in which evaluation changes a machine: a fresh label, a
new binding, a call entered, and a call left. `SameCode.simulation` is the simulation it makes.
-/

namespace MiniLisp

open List
open RuntimeError (Results)

/-- A relation between machines that run the same code on the same values, where functions come from
the scopes `inside` only. -/
structure SameCode where
  inside : ScopeId → Prop
  machine : Machine → Machine → Prop
  label : ∀ {m m'}, machine m m' → m'.labels.object = m.labels.object
  current : ∀ {m m'}, machine m m' → m'.current = m.current ∧ inside m.current
  lookup : ∀ {m m'} name, machine m m' →
    m'.store.lookup name m'.current = m.store.lookup name m.current ∧
      ∀ v, m.store.lookup name m.current = some v → v.ClosedIn inside
  relabelled : ∀ {m m'}, machine m m' →
    machine (m.relabelled Labels.freshObject).2 (m'.relabelled Labels.freshObject).2
  define : ∀ {m m'} name v, machine m m' → v.ClosedIn inside →
    machine (m.define name v) (m'.define name v)
  opened : ∀ {m m'} f, machine m m' → inside f.scope → machine (m.opened f) (m'.opened f)
  leave : ∀ {m m' n n'}, machine m m' → machine n n' →
    machine { n with current := m.current } { n' with current := m'.current }

def SameCode.simulation (S : SameCode) : Simulation where
  token := (· = ·)
  expr := (· = ·)
  value v v' := v = v' ∧ v.ClosedIn S.inside
  machine := S.machine
  token_eq h := ⟨congrArg Token.kind h.symm, congrArg Token.lexeme h.symm⟩
  expr_matches h := h ▸ .refl _
  value_matches h := h.1 ▸ .refl _
  nil := ⟨rfl, trivial⟩
  bool _ := ⟨rfl, trivial⟩
  number _ := ⟨rfl, trivial⟩
  string _ := ⟨rfl, trivial⟩
  list label _ _ _ _ hx hxs := by
    rw [forall₂_eq_eq_eq] at hxs
    exact ⟨by rw [hx, hxs], trivial⟩
  datum := by
    rintro t _ v _ rfl ⟨rfl, -⟩
    cases v.datum t.line with
    | ok e => exact .ok rfl
    | error cause => exact .error cause
  same := by
    rintro v _ w _ ⟨rfl, -⟩ ⟨rfl, -⟩
    rfl
  label := S.label
  relabelled := S.relabelled
  lookup {m m'} name hm := by
    obtain ⟨heq, hinside⟩ := S.lookup name hm
    rw [heq]
    generalize m.store.lookup name m.current = found at hinside
    cases found with
    | none => exact .none
    | some v => exact .some ⟨rfl, hinside v rfl⟩
  define name hm hv := hv.1 ▸ S.define name _ hm hv.2
  function label hm ht hps hx := by
    rw [forall₂_eq_eq_eq] at hps
    obtain ⟨hcurrent, hinside⟩ := S.current hm
    exact ⟨by rw [hcurrent, ht, hps, hx], hinside⟩
  opened hm hf := by
    obtain ⟨heq, hinside⟩ := hf
    cases heq
    exact S.opened _ hm hinside
  leave := S.leave

end MiniLisp
