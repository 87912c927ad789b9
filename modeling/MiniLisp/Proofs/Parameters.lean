import Mathlib.Data.List.Induction
import MiniLisp.Proofs.ListingOrder

/-!
# Parameters

A call binds the parameters one after the other in a scope of its own. Names that are repeated keep
their first place and get the last of their arguments, and what one of the two lists has more than
the other is left out.

* `Bindings.bindAll` : names bound one after the other, `Bindings.names_bindAll` their order and
  `Bindings.get?_bindAll` their values;
* `LastPair` : the last pair with a name;
* `Store.bindings_defineAll` : names bound one after the other change one scope;
* `Machine.Entered` : the machine on which the body of a function starts;
* `invoke_entered` : the body of a function is evaluated on such a machine.
-/

namespace MiniLisp

/-! ## One scope -/

/-- Is `(name, value)` one of the pairs, and the last one with its name? -/
def LastPair (pairs : List (String × Value)) (name : String) (value : Value) : Prop :=
  ∃ before after, pairs = before ++ (name, value) :: after ∧ name ∉ after.map Prod.fst

namespace Bindings

/-- Binds the name of each pair to its value, one pair after the other. -/
def bindAll (b : Bindings) (pairs : List (String × Value)) : Bindings :=
  pairs.foldl (fun b pair => b.bind pair.1 pair.2) b

theorem bindAll_concat (b : Bindings) (pairs : List (String × Value)) (pair : String × Value) :
    b.bindAll (pairs ++ [pair]) = (b.bindAll pairs).bind pair.1 pair.2 :=
  List.foldl_concat ..

theorem names_bindAll (pairs : List (String × Value)) :
    (bindAll [] pairs).names = (pairs.map Prod.fst).eraseDups := by
  induction pairs using List.reverseRecOn with
  | nil => rfl
  | append_singleton pairs pair ih =>
    rw [bindAll_concat, names_bind, ih, List.map_append, List.map_singleton,
      List.eraseDups_append]
    by_cases hmem : pair.1 ∈ pairs.map Prod.fst
    · rw [if_pos (List.mem_eraseDups.2 hmem)]
      simp [List.removeAll, hmem]
    · rw [if_neg fun h => hmem (List.mem_eraseDups.1 h)]
      simp [List.removeAll, hmem, List.eraseDups_cons]

theorem get?_bindAll (b : Bindings) (pairs : List (String × Value)) (name : String) :
    (b.bindAll pairs).get? name = (pairs.reverse.lookup name).or (b.get? name) := by
  induction pairs using List.reverseRecOn with
  | nil => rfl
  | append_singleton pairs pair ih =>
    rw [bindAll_concat, get?_bind, ih, List.reverse_append, List.reverse_singleton,
      List.singleton_append, List.lookup_cons]
    by_cases hname : name = pair.1
    · rw [if_pos hname, hname, beq_self_eq_true]
      rfl
    · rw [if_neg hname, beq_false_of_ne hname]

theorem nodup_bindAll {b : Bindings} (h : b.names.Nodup) (pairs : List (String × Value)) :
    (b.bindAll pairs).names.Nodup := by
  induction pairs using List.reverseRecOn with
  | nil => exact h
  | append_singleton pairs pair ih =>
    rw [bindAll_concat]
    exact nodup_bind ih pair.1 pair.2

end Bindings

theorem lastPair_iff {pairs : List (String × Value)} {name : String} {value : Value} :
    LastPair pairs name value ↔ pairs.reverse.lookup name = some value := by
  rw [List.lookup_eq_some_iff]
  constructor
  · rintro ⟨before, after, rfl, hafter⟩
    refine ⟨after.reverse, before.reverse, by simp, fun pair hpair => bne_iff_ne.2 ?_⟩
    rintro rfl
    exact hafter (List.mem_map_of_mem (List.mem_reverse.1 hpair))
  · rintro ⟨after, before, hpairs, hafter⟩
    refine ⟨before.reverse, after.reverse, ?_, fun hmem => ?_⟩
    · rw [← List.reverse_reverse pairs, hpairs]
      simp
    · obtain ⟨pair, hpair, rfl⟩ := List.mem_map.1 hmem
      exact bne_iff_ne.1 (hafter pair (List.mem_reverse.1 hpair)) rfl

/-! ## The store -/

namespace Store

variable (s : Store) (i : ScopeId) (names : List String) (values : List Value)

/-- Names that are bound one after the other in a scope change the bindings of this scope only, and
no link. -/
theorem bindings_defineAll (hi : i < s.size) :
    (s.defineAll i names values).size = s.size ∧
      (∀ j, (s.defineAll i names values).enclosing? j = s.enclosing? j) ∧
      (∀ j, j ≠ i → (s.defineAll i names values).bindings j = s.bindings j) ∧
      (s.defineAll i names values).bindings i = (s.bindings i).bindAll (names.zip values) := by
  unfold defineAll
  generalize names.zip values = pairs
  induction pairs using List.reverseRecOn with
  | nil => exact ⟨rfl, fun _ => rfl, fun _ _ => rfl, rfl⟩
  | append_singleton pairs pair ih =>
    obtain ⟨hsize, hlink, hother, hself⟩ := ih
    rw [List.foldl_concat]
    refine ⟨?_, fun j => ?_, fun j hj => ?_, ?_⟩
    · rw [size_define, hsize]
    · rw [enclosing?_define, hlink]
    · rw [bindings_define_of_ne _ _ _ _ hj, hother j hj]
    · rw [bindings_define, if_pos ⟨rfl, hsize ▸ hi⟩, hself, Bindings.bindAll_concat]

end Store

/-! ## Calls -/

/-- The parameters of a function that get one of the arguments. -/
def Closure.given (f : Closure) (args : List Value) : List String :=
  (f.params.map (·.lexeme)).take (min f.params.length args.length)

/-- The machine `n` on which the body of `f` starts, called with these arguments on machine `m`: a
new scope inside the scope of `f` is current, in which the parameters are bound; from there all
other names have the values that they have from the scope of `f`. -/
structure Machine.Entered (m : Machine) (f : Closure) (args : List Value) (n : Machine) : Prop where
  fresh : n.current = m.store.size ∧ n.store.size = m.store.size + 1
  inside : n.store.enclosing? n.current = some f.scope
  others : ∀ i < m.store.size,
    n.store.bindings i = m.store.bindings i ∧ n.store.enclosing? i = m.store.enclosing? i
  names : (n.store.bindings n.current).names = (f.given args).eraseDups
  values : ∀ name value, (name, value) ∈ n.store.bindings n.current ↔
    LastPair ((f.params.map (·.lexeme)).zip args) name value
  given : ∀ name value, LastPair ((f.params.map (·.lexeme)).zip args) name value →
    n.store.lookup name n.current = some value
  outer : ∀ name, name ∉ f.given args →
    n.store.lookup name n.current = m.store.lookup name f.scope ∧
      n.store.lookup name f.scope = m.store.lookup name f.scope

theorem Closure.names_zip (f : Closure) (args : List Value) :
    ((f.params.map (·.lexeme)).zip args).map Prod.fst = f.given args := by
  rw [List.zip_eq_zip_take_min, List.length_map, List.map_fst_zip (by simp)]
  rfl

namespace Machine

variable {m : Machine} {f : Closure} (hf : f.scope < m.store.size) (args : List Value)
include hf

/-- The scope of a call, in which nothing is bound but the parameters. -/
theorem store_enter :
    (m.enter f args).current = m.store.size ∧
      (m.enter f args).store.size = m.store.size + 1 ∧
      (m.enter f args).store.enclosing? m.store.size = some f.scope ∧
      (∀ i < m.store.size, (m.enter f args).store.bindings i = m.store.bindings i ∧
        (m.enter f args).store.enclosing? i = m.store.enclosing? i) ∧
      (m.enter f args).store.bindings m.store.size =
        Bindings.bindAll [] ((f.params.map (·.lexeme)).zip args) := by
  have hnew : m.store.size < (m.opened f).store.size := by simp
  obtain ⟨hsize, hlink, hother, hself⟩ :=
    (m.opened f).store.bindings_defineAll m.store.size (f.params.map (·.lexeme)) args hnew
  have hstore : (m.enter f args).store =
      (m.opened f).store.defineAll m.store.size (f.params.map (·.lexeme)) args := by
    rw [enter, defineAll_eq]
    rfl
  rw [hstore]
  refine ⟨by rw [enter, defineAll_eq]; rfl, hsize.trans (by simp), ?_, fun i hi => ⟨?_, ?_⟩, ?_⟩
  · rw [hlink, store_opened, Store.enclosing?_push, if_pos rfl]
    simp [hf]
  · rw [hother i (Nat.ne_of_lt hi), store_opened, Store.bindings_push]
  · rw [hlink, store_opened, Store.enclosing?_push, if_neg (Nat.ne_of_lt hi)]
  · rw [hself, store_opened, Store.bindings_push, Store.bindings_of_size_le _ (Nat.le_refl _)]

/-- From a scope that was there before, a name has the value that it had. -/
theorem lookup_enter (name : String) :
    (m.enter f args).store.lookup name f.scope = m.store.lookup name f.scope := by
  obtain ⟨-, -, -, holder, -⟩ := m.store_enter hf args
  have hclosed (i p : ScopeId) (hi : i < m.store.size) (hp : m.store.enclosing? i = some p) :
      p < m.store.size := Nat.lt_trans (Store.enclosing?_lt hp) hi
  exact (Store.lookup_eq_of_agree name hclosed (fun i hi => (holder i hi).2)
    (fun i hi => (holder i hi).1) hf).1

/-- **The body of a function starts in a scope of its own.** -/
theorem entered_enter : m.Entered f args (m.enter f args) := by
  obtain ⟨hcurrent, hsize, hinside, holder, hbindings⟩ := m.store_enter hf args
  have hnodup : ((m.enter f args).store.bindings m.store.size).names.Nodup := by
    rw [hbindings]
    exact Bindings.nodup_bindAll (b := []) List.nodup_nil _
  have hnames : ((m.enter f args).store.bindings m.store.size).names =
      (f.given args).eraseDups := by
    rw [hbindings, Bindings.names_bindAll, f.names_zip args]
  have hget (name : String) (value : Value) :
      ((m.enter f args).store.bindings m.store.size).get? name = some value ↔
        LastPair ((f.params.map (·.lexeme)).zip args) name value := by
    rw [hbindings, Bindings.get?_bindAll, lastPair_iff]
    show (_ : Option Value).or none = some value ↔ _
    rw [Option.or_none]
  refine ⟨⟨hcurrent, hsize⟩, hcurrent ▸ hinside, holder, hcurrent ▸ hnames, ?_, ?_, ?_⟩
  · intro name value
    rw [hcurrent, ← Bindings.get?_eq_some_iff hnodup, hget]
  · intro name value hlast
    rw [hcurrent, Store.lookup_eq, (hget name value).2 hlast]
    rfl
  · intro name hname
    have hunbound : ((m.enter f args).store.bindings m.store.size).get? name = none := by
      rw [Bindings.get?_eq_none_iff, hnames, List.mem_eraseDups]
      exact hname
    refine ⟨?_, m.lookup_enter hf args name⟩
    rw [hcurrent, Store.lookup_eq, hunbound, hinside]
    exact m.lookup_enter hf args name

end Machine

/-- **Parameters are bound in a scope of their own.** Called with any arguments, a function has its
body evaluated in a new scope inside its own one, in which the parameters are listed in the order in
which they first occur, each with the argument of its last occurrence; every other name has the
value that it has from the scope of the function. If there are not as many arguments as parameters,
then as many parameters are bound as there are pairs. -/
theorem invoke_entered (ev : Evaluator) {m : Machine} {f : Closure} (args : List Value)
    (hf : f.scope < m.store.size) :
    ∃ n, m.Entered f args n ∧
      ev.invoke f args m = (ev f.body n).mapMachine ({ · with current := m.current }) ∧
      (args.length = f.arity →
        (n.store.bindings n.current).names = (f.params.map (·.lexeme)).eraseDups) := by
  have hentered := Machine.entered_enter hf args
  refine ⟨m.enter f args, hentered, invoke_eq ev f args m, fun hlength => ?_⟩
  have hall : f.given args = f.params.map (·.lexeme) := by
    unfold Closure.given
    rw [hlength, List.take_of_length_le (by simp [Closure.arity])]
  rw [hentered.names, hall]

/-- With the parameters `x y x`, the arguments true, nil and false, and `z` bound outside: the scope
of the call lists `x` before `y`, `x` is false there, and `z` is what it is outside. -/
theorem invoke_entered_repeated :
    let name (s : String) : Token := ⟨.symbol, s, none, 1⟩
    let m := Machine.initial.define "z" (.string "outside")
    let f : Closure := ⟨0, name "f", [name "x", name "y", name "x"], .symbol (name "x"), 0⟩
    let args : List Value := [.bool true, .nil, .bool false]
    f.scope < m.store.size ∧ args.length = f.arity ∧
      ∃ n, (eval 1).invoke f args m =
          (eval 1 f.body n).mapMachine ({ · with current := m.current }) ∧
        (n.store.bindings n.current).names = ["x", "y"] ∧
        n.store.lookup "x" n.current = some (.bool false) ∧
        n.store.lookup "z" n.current = some (.string "outside") := by
  intro name m f args
  have hf : f.scope < m.store.size := by decide
  obtain ⟨n, hn, hinvoke, hnames⟩ := invoke_entered (eval 1) args hf
  refine ⟨hf, rfl, n, hinvoke, hnames rfl, ?_, ?_⟩
  · exact hn.given "x" _ ⟨[("x", .bool true), ("y", .nil)], [], rfl, List.not_mem_nil⟩
  · rw [(hn.outer "z" (by decide)).1, Store.lookup_eq]
    rfl

end MiniLisp
