import MiniLisp.Proofs.Alike
import MiniLisp.Proofs.Simulation.Forms
import MiniLisp.Proofs.StoreLaws

/-!
# Lines do not matter

Tokens that differ in their lines only make expressions, values and machines that evaluation cannot
tell apart. Which lines may stand for which is a parameter.

* `Machine.Moved line` : the same machine, with tokens moved (`Token.Moved line`) in all it stores;
* `Simulation.moved line` : evaluation keeps the relation, whatever `line` is.
-/

namespace MiniLisp

open List
open RuntimeError (Results)

/-- Bindings of the same names, in the same order, to values that are alike. -/
def Bindings.Moved (line : Nat → Nat → Prop) (b b' : Bindings) : Prop :=
  Forall₂ (fun entry entry' => entry'.1 = entry.1 ∧
    Value.Alike (Token.Moved line) entry.2 entry'.2) b b'

/-- The names that are bound and the printed forms of their values, in order. -/
def Bindings.texts (b : Bindings) : List (String × String) :=
  b.map fun entry => (entry.1, entry.2.text)

/-- Stores of the same scopes, with bindings that are alike. -/
structure Store.Moved (line : Nat → Nat → Prop) (s s' : Store) : Prop where
  size : s'.size = s.size
  enclosing : ∀ i, s'.enclosing? i = s.enclosing? i
  bindings : ∀ i, (s.bindings i).Moved line (s'.bindings i)

/-- Machines that differ in the lines of the tokens they store. -/
structure Machine.Moved (line : Nat → Nat → Prop) (m m' : Machine) : Prop where
  store : m.store.Moved line m'.store
  current : m'.current = m.current
  labels : m'.labels = m.labels

variable {line : Nat → Nat → Prop}

theorem Expr.Alike.matches_moved {e e' : Expr} (h : Alike (Token.Moved line) e e') :
    Expr.Matches (Token.Moved line) (Alike (Token.Moved line)) e e' := by
  cases h with
  | atom value => exact .atom value _ _
  | symbol ht => exact .symbol ht
  | operator ht hxs => exact .operator ht hxs
  | keyword ht hxs => exact .keyword ht.kind (.inr ht) hxs
  | list hx hxs => exact .list hx.token_token hx hxs
  | data label hx hxs => exact .data label hx hxs
  | define label ht hps hx => exact .define label ht hps hx
  | call hx ht hxs => exact .call hx ht hxs

theorem Value.Alike.matches_moved {v v' : Value} (h : Alike (Token.Moved line) v v') :
    Value.Matches (Expr.Alike (Token.Moved line)) v v' := by
  cases h with
  | nil => exact .nil
  | bool b => exact .bool b
  | number n => exact .number n
  | string s => exact .string s
  | list label hx hxs => exact .list hx hxs
  | function label ht hps hx scope =>
    exact .function ht.lexeme (map_congr_of_forall₂ (fun _ _ h => h.lexeme) hps) hx

/-- The elements that stand for values that are alike, on related lines, are alike. -/
theorem Value.Alike.datum_moved {v v' : Value} (h : Alike (Token.Moved line) v v') {l l' : Nat}
    (hl : line l l') : Results (Expr.Alike (Token.Moved line)) (v.datum l) (v'.datum l') := by
  have moved (k : Kind) (text : String) (value? : Option Literal) :
      Token.Moved line ⟨k, text, value?, l⟩ ⟨k, text, value?, l'⟩ := ⟨rfl, rfl, rfl, hl⟩
  cases h with
  | nil => exact .ok (.keyword (moved _ _ _) .nil)
  | bool b => cases b <;> exact .ok (.keyword (moved _ _ _) .nil)
  | number n => exact .ok (.atom _ (moved _ _ _))
  | string s => exact .ok (.atom _ (moved _ _ _))
  | list label hx hxs => exact .ok (.data label hx hxs)
  | function => exact .error _

/-! ## The store -/

namespace Bindings.Moved

variable {b b' : Bindings}

theorem get? (h : b.Moved line b') (name : String) :
    Option.Rel (Value.Alike (Token.Moved line)) (b.get? name) (b'.get? name) := by
  unfold Bindings.get?
  induction h with
  | nil => exact .none
  | @cons entry entry' b b' hentry _ ih =>
    obtain ⟨n, v⟩ := entry
    obtain ⟨n', v'⟩ := entry'
    obtain ⟨hname, hvalue⟩ := hentry
    obtain rfl : n' = n := hname
    rw [List.lookup_cons, List.lookup_cons]
    split
    · exact .some hvalue
    · exact ih

theorem bind (h : b.Moved line b') (name : String) {v v' : Value}
    (hv : Value.Alike (Token.Moved line) v v') : (b.bind name v).Moved line (b'.bind name v') := by
  induction h with
  | nil => exact .cons ⟨rfl, hv⟩ .nil
  | @cons entry entry' b b' hentry hrest ih =>
    obtain ⟨n, w⟩ := entry
    obtain ⟨n', w'⟩ := entry'
    obtain ⟨hname, hvalue⟩ := hentry
    obtain rfl : n' = n := hname
    unfold Bindings.bind
    split
    · exact .cons ⟨rfl, hv⟩ hrest
    · exact .cons ⟨rfl, hvalue⟩ ih

/-- The same names are bound, and what is bound to them prints alike. -/
theorem texts_eq (h : b.Moved line b') : b'.texts = b.texts := by
  refine map_congr_of_forall₂ (fun entry entry' hentry => ?_) h
  obtain ⟨hname, hvalue⟩ := hentry
  rw [hname, hvalue.text_eq fun _ _ h => h.lexeme]

end Bindings.Moved

namespace Store.Moved

variable {s s' : Store}

theorem lookup (h : s.Moved line s') (name : String) (i : ScopeId) :
    Option.Rel (Value.Alike (Token.Moved line)) (s.lookup name i) (s'.lookup name i) := by
  induction i using Nat.strongRecOn with
  | ind i ih =>
    rw [Store.lookup, Store.lookup.eq_1 s']
    have hget := (h.bindings i).get? name
    generalize (s.bindings i).get? name = v at hget
    generalize (s'.bindings i).get? name = v' at hget
    cases hget with
    | some hv => exact .some hv
    | none =>
      dsimp only
      rw [h.enclosing i]
      cases hp : s.enclosing? i with
      | none => exact .none
      | some p => exact ih p (enclosing?_lt hp)

theorem define (h : s.Moved line s') (i : ScopeId) (name : String) {v v' : Value}
    (hv : Value.Alike (Token.Moved line) v v') :
    (s.define i name v).Moved line (s'.define i name v') where
  size := by simpa using h.size
  enclosing j := by simpa using h.enclosing j
  bindings j := by
    rw [bindings_define, bindings_define, h.size]
    split
    · exact (h.bindings j).bind name hv
    · exact h.bindings j

theorem push (h : s.Moved line s') (e : Option ScopeId) : (s.push e).Moved line (s'.push e) where
  size := by simpa using h.size
  enclosing i := by
    rw [enclosing?_push, enclosing?_push, h.size, h.enclosing i]
  bindings i := by simpa using h.bindings i

end Store.Moved

/-! ## The simulation -/

/-- **Evaluation keeps machines alike, and takes expressions that are alike to values that are.** -/
def Simulation.moved (line : Nat → Nat → Prop) : Simulation where
  token := Token.Moved line
  expr := Expr.Alike (Token.Moved line)
  value := Value.Alike (Token.Moved line)
  machine := Machine.Moved line
  token_eq h := ⟨h.kind, h.lexeme⟩
  expr_matches h := h.matches_moved
  value_matches h := h.matches_moved
  nil := .nil
  bool b := .bool b
  number n := .number n
  string s := .string s
  list label _ _ _ _ hx hxs := .list label hx hxs
  datum ht hv := hv.datum_moved ht.line
  same hv hw := hv.same_eq Token.Moved.kind_lexeme hw
  label h := by rw [h.labels]
  relabelled {m m'} h := by
    refine ⟨h.store, h.current, ?_⟩
    show (Labels.freshObject m'.labels).2 = (Labels.freshObject m.labels).2
    rw [h.labels]
  lookup name h := by
    rw [h.current]
    exact h.store.lookup name _
  define {m m' v v'} name h hv := by
    refine ⟨?_, h.current, h.labels⟩
    rw [Machine.store_define, Machine.store_define, h.current]
    exact h.store.define _ name hv
  function label h ht hps hx := by
    rw [h.current]
    exact .function label ht hps hx _
  opened {m m' f f'} h hf := by
    have hscope : f'.scope = f.scope := by
      cases hf
      rfl
    refine ⟨?_, h.store.size, h.labels⟩
    rw [Machine.store_opened, Machine.store_opened, hscope]
    exact h.store.push _
  leave hm hn := ⟨hn.store, hm.current, hn.labels⟩

theorem Machine.moved_refl (hline : ∀ l, line l l) (m : Machine) : m.Moved line m where
  store := {
    size := rfl
    enclosing := fun _ => rfl
    bindings := fun _ => forall₂_same.2 fun entry _ =>
      ⟨rfl, Value.alike_refl (Token.Moved.refl hline) entry.2⟩ }
  current := rfl
  labels := rfl

end MiniLisp
