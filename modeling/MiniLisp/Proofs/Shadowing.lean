import MiniLisp.Proofs.StoreLaws
import MiniLisp.Scope.Environments

/-!
# Shadowing

Environments are made and cloned in any order, and a scope that several of them share is written to
through any one of them. What a binding changes is said by the origins of the environments alone,
that is, by how each of them was made.

* `Environments.Built` : the environments after any sequence of operations, and their origins;
* `Environments.Derived` : the environments that come from one creation by cloning;
* `Environments.Chain` : the scopes seen from an environment, nearest first;
* `Environments.Records` : what the store holds of the origins, kept by every operation;
* `Environments.Records.lookup_chain` : a name has the value that the first scope of the chain
  gives;
* `Environments.shadowing` : what one more binding changes, seen from every environment.
-/

namespace MiniLisp

namespace Environments

/-! ## Origins -/

/-- How an environment was made: with a new scope, with a new scope inside that of another
environment, or as a clone of another one. -/
inductive Origin where
  | create
  | child (outer : Nat)
  | clone (original : Nat)

namespace Origin

def from? : Origin → Option Nat
  | create => none
  | child o | clone o => some o

def opens : Origin → Bool
  | create | child _ => true
  | clone _ => false

end Origin

def add (es : Environments) : Origin → Environments
  | .create => es.create
  | .child o => es.child o
  | .clone o => es.clone o

def count (es : Environments) : Nat := es.scopes.size

/-- The environments after a sequence of operations, with the origins of all of them in order. An
operation starts from an environment that was made before. -/
inductive Built : List Origin → Environments → Prop
  | empty : Built [] empty
  | add {origins : List Origin} {es : Environments} (h : Built origins es) (origin : Origin)
      (hfrom : ∀ o ∈ origin.from?, o < es.count) : Built (origins ++ [origin]) (es.add origin)
  | define {origins : List Origin} {es : Environments} (h : Built origins es) {e : Nat}
      (he : e < es.count) (name : String) (value : Value) :
      Built origins (es.define e name value)

/-- Environment `e` was made together with its scope. -/
def Creation (origins : List Origin) (e : Nat) : Prop :=
  ∃ origin, origins[e]? = some origin ∧ origin.opens = true

/-- Environment `e` is the creation `c`, or comes from it by cloning. -/
inductive Derived (origins : List Origin) (c : Nat) : Nat → Prop
  | creation (h : Creation origins c) : Derived origins c c
  | clone {e o : Nat} (h : origins[e]? = some (.clone o)) (ho : Derived origins c o) :
      Derived origins c e

/-- The scope of environment `e` and the scopes around it, nearest first. A scope is named by the
environment that it was made with. -/
inductive Chain (origins : List Origin) : Nat → List Nat → Prop
  | create {e : Nat} (h : origins[e]? = some .create) : Chain origins e [e]
  | child {e o : Nat} {path : List Nat} (h : origins[e]? = some (.child o))
      (ho : Chain origins o path) : Chain origins e (e :: path)
  | clone {e o : Nat} {path : List Nat} (h : origins[e]? = some (.clone o))
      (ho : Chain origins o path) : Chain origins e path

/-- Seen from environment `t`, a name that the scope of environment `s` binds has its value from
there: this scope is on the chain of `t`, and no nearer one binds the name. -/
def Sees (origins : List Origin) (es : Environments) (name : String) (t s : Nat) : Prop :=
  ∃ near c far, Chain origins t (near ++ c :: far) ∧ Derived origins c s ∧
    ∀ d ∈ near, name ∉ (es.bindings d).names

/-! ## What the store holds of the origins -/

/-- The scopes of environments are as their origins say. -/
structure Records (origins : List Origin) (es : Environments) : Prop where
  count : es.count = origins.length
  earlier : ∀ (e : Nat) (origin : Origin), origins[e]? = some origin → ∀ o ∈ origin.from?, o < e
  known : ∀ e i, es.scope? e = some i → i < es.store.size
  opened : ∀ (e : Nat) (origin : Origin) i, origins[e]? = some origin → origin.opens = true →
    es.scope? e = some i → es.store.enclosing? i = origin.from?.bind es.scope?
  cloned : ∀ e o, origins[e]? = some (.clone o) → es.scope? e = es.scope? o
  apart : ∀ c d, Creation origins c → Creation origins d → es.scope? c = es.scope? d → c = d
  nodup : ∀ i, (es.store.bindings i).names.Nodup

/-- An element of a list with one more is the last one or one of those before. -/
theorem getElem?_concat_cases {α : Type} {l : List α} {a b : α} {i : Nat}
    (h : (l ++ [a])[i]? = some b) : l[i]? = some b ∨ (i = l.length ∧ b = a) := by
  rcases Nat.lt_trichotomy i l.length with hlt | rfl | hgt
  · exact .inl (by rwa [List.getElem?_append_left hlt] at h)
  · rw [List.getElem?_concat_length] at h
    exact .inr ⟨rfl, (Option.some.inj h).symm⟩
  · have hout : (l ++ [a]).length ≤ i := by
      rw [List.length_append]
      exact hgt
    rw [List.getElem?_eq_none hout] at h
    exact nomatch h

section Scope

variable (es : Environments)

theorem scope?_push (s : Store) (i : ScopeId) (e : Nat) :
    (⟨s, es.scopes.push i⟩ : Environments).scope? e =
      if e = es.count then some i else es.scope? e :=
  Array.getElem?_push

theorem exists_scope {e : Nat} (h : e < es.count) : ∃ i, es.scope? e = some i :=
  ⟨_, Array.getElem?_eq_getElem h⟩

theorem lt_count_of_scope {e : Nat} {i : ScopeId} (h : es.scope? e = some i) : e < es.count :=
  (Array.getElem?_eq_some_iff.1 h).1

theorem same_iff_scope (a b : Nat) :
    es.same a b = true ↔ ∃ i, es.scope? a = some i ∧ es.scope? b = some i := by
  unfold same
  cases es.scope? a with
  | none => simp
  | some i =>
    cases es.scope? b with
    | none => simp
    | some j =>
      simp only [beq_iff_eq, Option.some.injEq]
      exact ⟨fun hij => ⟨i, rfl, hij.symm⟩, fun ⟨_, hi, hj⟩ => hi.trans hj.symm⟩

theorem scope?_define (s : Nat) (name : String) (value : Value) (t : Nat) :
    (es.define s name value).scope? t = es.scope? t := by
  unfold define
  split <;> rfl

theorem bindings_of_none {es : Environments} {e : Nat} (h : es.scope? e = none) :
    es.bindings e = [] := by
  unfold bindings
  rw [h]

theorem add_of_opens {origin : Origin} (h : origin.opens = true) :
    es.add origin =
      ⟨es.store.push (origin.from?.bind es.scope?), es.scopes.push es.store.size⟩ := by
  cases origin with
  | create | child => rfl
  | clone => exact nomatch h

variable {es} {e : Nat} {i : ScopeId} (h : es.scope? e = some i)
include h

theorem clone_eq : es.clone e = ⟨es.store, es.scopes.push i⟩ := by
  unfold clone
  rw [h]

theorem define_eq (name : String) (value : Value) :
    es.define e name value = ⟨es.store.define i name value, es.scopes⟩ := by
  unfold define
  rw [h]

theorem lookup_eq (name : String) : es.lookup e name = es.store.lookup name i := by
  unfold lookup
  rw [h]
  rfl

theorem bindings_eq : es.bindings e = es.store.bindings i := by
  unfold bindings
  rw [h]

end Scope

namespace Records

variable {origins : List Origin} {es : Environments} (h : Records origins es)
include h

theorem lt_count {e : Nat} {origin : Origin} (he : origins[e]? = some origin) : e < es.count := by
  rw [h.count]
  exact (List.getElem?_eq_some_iff.1 he).1

/-- One more environment, whose scope is new if its origin makes one, and that of the original if it
is a clone. -/
theorem push {origin : Origin} (hfrom : ∀ o ∈ origin.from?, o < es.count) {s : Store} {i : ScopeId}
    (hi : i < s.size) (hsize : es.store.size ≤ s.size)
    (hlinks : ∀ j < es.store.size, s.enclosing? j = es.store.enclosing? j)
    (hnew : origin.opens = true →
      i = es.store.size ∧ s.enclosing? i = origin.from?.bind es.scope?)
    (hclone : ∀ o, origin = .clone o → es.scope? o = some i)
    (hnodup : ∀ j, (s.bindings j).names.Nodup) :
    Records (origins ++ [origin]) ⟨s, es.scopes.push i⟩ := by
  have hold {e : Nat} (he : e < es.count) :
      (⟨s, es.scopes.push i⟩ : Environments).scope? e = es.scope? e := by
    rw [scope?_push, if_neg (Nat.ne_of_lt he)]
  have hlast : (⟨s, es.scopes.push i⟩ : Environments).scope? origins.length = some i := by
    rw [scope?_push, if_pos h.count.symm]
  have hsources {origin' : Origin} (hfrom' : ∀ o ∈ origin'.from?, o < es.count) :
      origin'.from?.bind (⟨s, es.scopes.push i⟩ : Environments).scope? =
        origin'.from?.bind es.scope? := by
    cases ho : origin'.from? with
    | none => rfl
    | some o => exact hold (hfrom' o ho)
  have hapart {c : Nat} (hopens : origin.opens = true) : es.scope? c ≠ some i := by
    intro hsame
    have hlt := h.known c i hsame
    rw [(hnew hopens).1] at hlt
    exact Nat.lt_irrefl _ hlt
  have hearlier {e o : Nat} {origin' : Origin} (he : origins[e]? = some origin')
      (ho : o ∈ origin'.from?) : o < es.count :=
    Nat.lt_trans (h.earlier e origin' he o ho) (h.lt_count he)
  constructor
  case count =>
    rw [List.length_append, ← h.count]
    exact Array.size_push _
  case earlier =>
    intro e origin' he o ho
    rcases getElem?_concat_cases he with he | ⟨rfl, rfl⟩
    · exact h.earlier e origin' he o ho
    · rw [← h.count]
      exact hfrom o ho
  case known =>
    intro e j he
    rw [scope?_push] at he
    split at he
    · cases he
      exact hi
    · exact Nat.lt_of_lt_of_le (h.known e j he) hsize
  case opened =>
    intro e origin' j he hopens hj
    rcases getElem?_concat_cases he with he | ⟨rfl, rfl⟩
    · rw [hold (h.lt_count he)] at hj
      rw [hlinks j (h.known e j hj), hsources fun o => hearlier he]
      exact h.opened e origin' j he hopens hj
    · obtain rfl := Option.some.inj (hlast.symm.trans hj)
      rw [hsources hfrom]
      exact (hnew hopens).2
  case cloned =>
    intro e o he
    rcases getElem?_concat_cases he with he | ⟨rfl, rfl⟩
    · rw [hold (h.lt_count he), hold (hearlier he rfl)]
      exact h.cloned e o he
    · rw [hlast, hold (hfrom o rfl), hclone o rfl]
  case apart =>
    rintro c d ⟨origin₁, hc, hopens₁⟩ ⟨origin₂, hd, hopens₂⟩ hsame
    rcases getElem?_concat_cases hc with hc₁ | ⟨rfl, rfl⟩ <;>
      rcases getElem?_concat_cases hd with hd₁ | ⟨rfl, rfl⟩
    · rw [hold (h.lt_count hc₁), hold (h.lt_count hd₁)] at hsame
      exact h.apart c d ⟨origin₁, hc₁, hopens₁⟩ ⟨origin₂, hd₁, hopens₂⟩ hsame
    · rw [hlast, hold (h.lt_count hc₁)] at hsame
      exact absurd hsame (hapart hopens₂)
    · rw [hlast, hold (h.lt_count hd₁)] at hsame
      exact absurd hsame.symm (hapart hopens₁)
    · rfl
  case nodup => exact hnodup

theorem add_scope {origin : Origin} (hopens : origin.opens = true)
    (hfrom : ∀ o ∈ origin.from?, o < es.count) :
    Records (origins ++ [origin]) (es.add origin) := by
  rw [es.add_of_opens hopens]
  refine h.push hfrom ?_ ?_ ?_ (fun _ => ⟨rfl, ?_⟩) ?_ ?_
  · simp
  · simp
  · intro j hj
    rw [Store.enclosing?_push, if_neg (Nat.ne_of_lt hj)]
  · rw [Store.enclosing?_push, if_pos rfl]
    cases hj : origin.from?.bind es.scope? with
    | none => rfl
    | some j =>
      obtain ⟨o, -, ho⟩ := Option.bind_eq_some_iff.1 hj
      rw [Option.filter_some, if_pos (decide_eq_true (h.known o j ho))]
  · rintro o rfl
    exact nomatch hopens
  · intro j
    rw [Store.bindings_push]
    exact h.nodup j

theorem add_clone {o : Nat} (ho : o < es.count) :
    Records (origins ++ [.clone o]) (es.clone o) := by
  obtain ⟨i, hi⟩ := es.exists_scope ho
  rw [clone_eq hi]
  refine h.push ?_ (h.known o i hi) (Nat.le_refl _) (fun _ _ => rfl) nofun ?_ h.nodup
  · rintro _ ⟨⟩
    exact ho
  · rintro _ ⟨⟩
    exact hi

theorem define {e : Nat} (he : e < es.count) (name : String) (value : Value) :
    Records origins (es.define e name value) := by
  obtain ⟨i, hi⟩ := es.exists_scope he
  rw [define_eq hi]
  refine ⟨h.count, h.earlier, ?_, ?_, h.cloned, h.apart, ?_⟩
  · rw [Store.size_define]
    exact h.known
  · intro c origin j hc hopens hj
    rw [Store.enclosing?_define]
    exact h.opened c origin j hc hopens hj
  · intro j
    rw [Store.bindings_define]
    split
    · exact Bindings.nodup_bind (h.nodup j) name value
    · exact h.nodup j

end Records

theorem Built.records {origins : List Origin} {es : Environments} (h : Built origins es) :
    Records origins es := by
  induction h with
  | empty =>
    constructor
    case nodup => exact fun i => List.nodup_nil
    case apart => exact fun c d ⟨_, hc, _⟩ => nomatch hc
    case count => rfl
    all_goals intros; contradiction
  | add _ origin hfrom ih =>
    cases origin with
    | create | child => exact ih.add_scope rfl hfrom
    | clone o => exact ih.add_clone (hfrom o rfl)
  | define _ he name value ih => exact ih.define he name value

/-! ## Chains -/

theorem Chain.creation {origins : List Origin} {e : Nat} {path : List Nat}
    (h : Chain origins e path) : ∀ c ∈ path, Creation origins c := by
  induction h with
  | create he => exact List.forall_mem_singleton.2 ⟨_, he, rfl⟩
  | child he _ ih => exact List.forall_mem_cons.2 ⟨⟨_, he, rfl⟩, ih⟩
  | clone _ _ ih => exact ih

theorem Derived.isCreation {origins : List Origin} {c e : Nat} (h : Derived origins c e) :
    Creation origins c := by
  induction h with
  | creation hc => exact hc
  | clone _ _ ih => exact ih

/-- The chain of an environment starts with the creation that it comes from. -/
theorem Chain.derived {origins : List Origin} {e : Nat} {path : List Nat}
    (h : Chain origins e path) : ∃ c far, path = c :: far ∧ Derived origins c e := by
  induction h with
  | create he => exact ⟨_, _, rfl, .creation ⟨_, he, rfl⟩⟩
  | child he _ _ => exact ⟨_, _, rfl, .creation ⟨_, he, rfl⟩⟩
  | clone he _ ih =>
    obtain ⟨c, far, rfl, hc⟩ := ih
    exact ⟨c, far, rfl, .clone he hc⟩

namespace Records

variable {origins : List Origin} {es : Environments} (h : Records origins es)
include h

theorem exists_chain {e : Nat} (he : e < es.count) : ∃ path, Chain origins e path := by
  induction e using Nat.strongRecOn with
  | ind e ih =>
    rw [h.count] at he
    have horigin := List.getElem?_eq_getElem he
    cases hcase : origins[e] with
    | create =>
      rw [hcase] at horigin
      exact ⟨_, .create horigin⟩
    | child o =>
      rw [hcase] at horigin
      have hlt := h.earlier e _ horigin o rfl
      obtain ⟨path, hpath⟩ := ih o hlt (Nat.lt_trans hlt (h.lt_count horigin))
      exact ⟨_, .child horigin hpath⟩
    | clone o =>
      rw [hcase] at horigin
      have hlt := h.earlier e _ horigin o rfl
      obtain ⟨path, hpath⟩ := ih o hlt (Nat.lt_trans hlt (h.lt_count horigin))
      exact ⟨_, .clone horigin hpath⟩

theorem scope?_derived {c e : Nat} (hc : Derived origins c e) : es.scope? e = es.scope? c := by
  induction hc with
  | creation => rfl
  | clone he _ ih => exact (h.cloned _ _ he).trans ih

/-- A name has the value that the first scope of the chain gives it. -/
theorem lookup_chain {e : Nat} {path : List Nat} (hpath : Chain origins e path) (name : String) :
    es.lookup e name = path.findSome? fun c => (es.bindings c).get? name := by
  induction hpath with
  | create he =>
    obtain ⟨i, hi⟩ := es.exists_scope (h.lt_count he)
    have hlink : es.store.enclosing? i = none := h.opened _ _ i he rfl hi
    rw [lookup_eq hi, Store.lookup_eq, hlink, ← bindings_eq hi, List.findSome?_cons]
    cases (es.bindings _).get? name <;> rfl
  | @child e o path he ho ih =>
    obtain ⟨i, hi⟩ := es.exists_scope (h.lt_count he)
    have hlink : es.store.enclosing? i = es.scope? o := h.opened _ _ i he rfl hi
    rw [lookup_eq hi, Store.lookup_eq, hlink, ← bindings_eq hi, List.findSome?_cons, ← ih]
    cases (es.bindings e).get? name <;> rfl
  | @clone e o path he ho ih =>
    unfold lookup at ih ⊢
    rw [h.cloned e o he]
    exact ih

theorem exists_derived {e : Nat} (he : e < es.count) : ∃ c, Derived origins c e := by
  obtain ⟨path, hpath⟩ := h.exists_chain he
  obtain ⟨c, far, -, hc⟩ := hpath.derived
  exact ⟨c, hc⟩

theorem same_iff (a b : Nat) :
    es.same a b = true ↔ ∃ c, Derived origins c a ∧ Derived origins c b := by
  rw [es.same_iff_scope]
  constructor
  · rintro ⟨i, ha, hb⟩
    obtain ⟨c, hc⟩ := h.exists_derived (es.lt_count_of_scope ha)
    obtain ⟨d, hd⟩ := h.exists_derived (es.lt_count_of_scope hb)
    have hscopes : es.scope? c = es.scope? d := by
      rw [← h.scope?_derived hc, ← h.scope?_derived hd, ha, hb]
    obtain rfl := h.apart c d hc.isCreation hd.isCreation hscopes
    exact ⟨c, hc, hd⟩
  · rintro ⟨c, ha, hb⟩
    obtain ⟨origin, horigin, -⟩ := ha.isCreation
    obtain ⟨i, hi⟩ := es.exists_scope (h.lt_count horigin)
    exact ⟨i, (h.scope?_derived ha).trans hi, (h.scope?_derived hb).trans hi⟩

theorem bindings_define {s : Nat} (hs : s < es.count) (name : String) (value : Value) (t : Nat) :
    (es.define s name value).bindings t =
      if es.same t s then (es.bindings t).bind name value else es.bindings t := by
  obtain ⟨i, hi⟩ := es.exists_scope hs
  cases ht : es.scope? t with
  | none =>
    have hafter : (es.define s name value).scope? t = none := (scope?_define ..).trans ht
    have hsame : ¬es.same t s = true := by
      rw [same_iff_scope, ht]
      exact fun ⟨_, hnone, _⟩ => nomatch hnone
    rw [bindings_of_none hafter, bindings_of_none ht, if_neg hsame]
  | some j =>
    have hafter : (es.define s name value).scope? t = some j := (scope?_define ..).trans ht
    have hsame : es.same t s = true ↔ j = i := by
      rw [same_iff_scope, ht, hi]
      exact ⟨fun ⟨_, hj, hi⟩ => (Option.some.inj hj).trans (Option.some.inj hi).symm,
        fun hij => ⟨j, rfl, by rw [hij]⟩⟩
    rw [bindings_eq hafter, bindings_eq ht, define_eq hi, Store.bindings_define]
    by_cases hij : j = i
    · rw [if_pos ⟨hij, h.known t j ht⟩, if_pos (hsame.2 hij)]
    · rw [if_neg fun c => hij c.1, if_neg fun c => hij (hsame.1 c)]

/-- Of the creations only the one that environment `s` comes from has a binding changed. -/
theorem get?_define {s c : Nat} (hc : Derived origins c s) (hs : s < es.count) (name n : String)
    (value : Value) {d : Nat} (hd : Creation origins d) :
    ((es.define s name value).bindings d).get? n =
      if d = c ∧ n = name then some value else (es.bindings d).get? n := by
  have hsame : es.same d s = true ↔ d = c := by
    rw [h.same_iff]
    constructor
    · rintro ⟨b, hbd, hbs⟩
      have hscopes : es.scope? d = es.scope? c := by
        rw [h.scope?_derived hbd, ← h.scope?_derived hbs, h.scope?_derived hc]
      exact h.apart d c hd hc.isCreation hscopes
    · rintro rfl
      exact ⟨d, .creation hd, hc⟩
  rw [h.bindings_define hs]
  by_cases hdc : d = c
  · rw [if_pos (hsame.2 hdc), Bindings.get?_bind]
    simp only [hdc, true_and]
  · rw [if_neg fun c => hdc (hsame.1 c), if_neg fun c => hdc c.1]

end Records

/-- A search finds what is written at `c`, if it finds nothing nearer. -/
theorem findSome?_written {α : Type} {f g : Nat → Option α} {c : Nat} {a : α} (hc : g c = some a)
    {near : List Nat} (hg : ∀ d ∈ near, d ≠ c → g d = f d) (hnear : ∀ d ∈ near, f d = none)
    (far : List Nat) : (near ++ c :: far).findSome? g = some a := by
  induction near with
  | nil => simp [hc]
  | cons d near ih =>
    obtain ⟨hd, hrest⟩ := List.forall_mem_cons.1 hnear
    obtain ⟨hgd, hgrest⟩ := List.forall_mem_cons.1 hg
    by_cases hdc : d = c
    · simp [hdc, hc]
    · simp [hgd hdc, hd, ih hgrest hrest]

/-- Two searches find the same, if they look for the same wherever the first has found nothing
nearer. -/
theorem findSome?_eq {α : Type} {f g : Nat → Option α} {path : List Nat}
    (h : ∀ near d far, path = near ++ d :: far → (∀ b ∈ near, f b = none) → g d = f d) :
    path.findSome? g = path.findSome? f := by
  induction path with
  | nil => rfl
  | cons d path ih =>
    rw [List.findSome?_cons, List.findSome?_cons, h [] d path rfl nofun]
    cases hd : f d with
    | some a => rfl
    | none =>
      refine ih fun near b far hpath hnear => h (d :: near) b far ?_ ?_
      · rw [hpath, List.cons_append]
      · exact List.forall_mem_cons.2 ⟨hd, hnear⟩

namespace Records

variable {origins : List Origin} {es : Environments} (h : Records origins es) {s : Nat}
  (hs : s < es.count) {name : String} (value : Value)
include h hs

/-- The new value is seen where the scope of `s` is the nearest to bind the name. -/
theorem lookup_define {t : Nat} (hsees : Sees origins es name t s) :
    (es.define s name value).lookup t name = some value := by
  obtain ⟨near, c, far, hchain, hc, hnear⟩ := hsees
  have hget (d : Nat) (hd : d ∈ near ++ c :: far) :=
    h.get?_define hc hs name name value (hchain.creation d hd)
  rw [(h.define hs name value).lookup_chain hchain]
  refine findSome?_written ?_ (f := fun d => (es.bindings d).get? name) ?_ ?_ far
  · rw [hget c (by simp), if_pos ⟨rfl, rfl⟩]
  · intro d hd hdc
    rw [hget d (List.mem_append_left _ hd), if_neg fun h => hdc h.1]
  · exact fun d hd => Bindings.get?_eq_none_iff.2 (hnear d hd)

theorem lookup_define_of_not_sees {t : Nat} {n : String}
    (hsees : ¬(n = name ∧ Sees origins es name t s)) :
    (es.define s name value).lookup t n = es.lookup t n := by
  by_cases ht : t < es.count
  · obtain ⟨c, hc⟩ := h.exists_derived hs
    obtain ⟨path, hchain⟩ := h.exists_chain ht
    rw [(h.define hs name value).lookup_chain hchain, h.lookup_chain hchain]
    refine findSome?_eq fun near d far hpath hnear => ?_
    have hd : Creation origins d := hchain.creation d (by simp [hpath])
    rw [h.get?_define hc hs name n value hd]
    refine if_neg ?_
    rintro ⟨rfl, rfl⟩
    refine hsees ⟨rfl, near, d, far, hpath ▸ hchain, hc, fun b hb => ?_⟩
    exact Bindings.get?_eq_none_iff.1 (hnear b hb)
  · unfold lookup
    rw [scope?_define, show es.scope? t = none from Array.getElem?_eq_none (Nat.le_of_not_lt ht)]
    rfl

/-- The scope of `s` lists a new name last, and a name that was bound before in its old place. -/
theorem bindings_define_self :
    ((es.define s name value).bindings s).names.Nodup ∧ (es.define s name value).bindings s =
      if name ∈ (es.bindings s).names then
        (es.bindings s).map fun entry => if entry.1 = name then (name, value) else entry
      else es.bindings s ++ [(name, value)] := by
  obtain ⟨c, hc⟩ := h.exists_derived hs
  have hself : es.same s s = true := (h.same_iff s s).2 ⟨c, hc, hc⟩
  obtain ⟨i, hi⟩ := es.exists_scope hs
  have hnodup : (es.bindings s).names.Nodup := by
    rw [bindings_eq hi]
    exact h.nodup i
  rw [h.bindings_define hs, if_pos hself]
  exact ⟨Bindings.nodup_bind hnodup name value, Bindings.bind_eq hnodup name value⟩

end Records

/-- **Shadowing.** One more binding in the scope of environment `s` is seen from every environment
on whose chain this scope is the nearest to bind the name, and changes nothing else. Its scope lists
a new name last and a name that was bound before in its old place. Clones see the same bindings, and
environments share a scope just if they come from one creation by cloning. -/
theorem shadowing {origins : List Origin} {es : Environments} (h : Built origins es) {s : Nat}
    (hs : s < es.count) (name : String) (value : Value) :
    let after := es.define s name value
    (∀ t, Sees origins es name t s → after.lookup t name = some value) ∧
      (∀ t n, ¬(n = name ∧ Sees origins es name t s) → after.lookup t n = es.lookup t n) ∧
      (∀ t, es.same t s = false → after.bindings t = es.bindings t) ∧
      ((after.bindings s).names.Nodup ∧ after.bindings s =
        if name ∈ (es.bindings s).names then
          (es.bindings s).map fun entry => if entry.1 = name then (name, value) else entry
        else es.bindings s ++ [(name, value)]) ∧
      (∀ e o, origins[e]? = some (.clone o) →
        es.bindings e = es.bindings o ∧ ∀ n, es.lookup e n = es.lookup o n) ∧
      ∀ a b, es.same a b = true ↔ ∃ c, Derived origins c a ∧ Derived origins c b := by
  intro after
  have hrecords := h.records
  refine ⟨fun t => hrecords.lookup_define hs value,
    fun t n => hrecords.lookup_define_of_not_sees hs value, ?_,
    hrecords.bindings_define_self hs value, ?_, hrecords.same_iff⟩
  · intro t ht
    rw [hrecords.bindings_define hs, if_neg (by rw [ht]; exact Bool.false_ne_true)]
  · intro e o he
    unfold bindings lookup
    rw [hrecords.cloned e o he]
    exact ⟨rfl, fun _ => rfl⟩

/-- A clone of an inner environment binds a name that the outer one binds too: the inner one sees
the new value, and the outer scope keeps the old one. -/
theorem shadowing_clone :
    let origins := [.create, .child 0, .clone 1]
    let es := (((empty.create).child 0).clone 1).define 0 "x" .nil
    (Built origins es ∧ 2 < es.count) ∧
      (es.define 2 "x" (.bool true)).lookup 1 "x" = some (.bool true) ∧
      (es.define 2 "x" (.bool true)).bindings 0 = [("x", .nil)] := by
  intro origins es
  have hcreate : Built [.create] empty.create := .add .empty .create nofun
  have hchild : Built [.create, .child 0] (empty.create.child 0) :=
    .add hcreate (.child 0) (by rintro _ ⟨⟩; decide)
  have hclone : Built origins ((empty.create.child 0).clone 1) :=
    .add hchild (.clone 1) (by rintro _ ⟨⟩; decide)
  have hbuilt : Built origins es := .define hclone (by decide) "x" .nil
  have hcount : 2 < es.count := by decide
  obtain ⟨hsees, -, hother, -⟩ := shadowing hbuilt hcount "x" (.bool true)
  refine ⟨⟨hbuilt, hcount⟩, hsees 1 ?_, hother 0 rfl⟩
  exact ⟨[], 1, [0], .child rfl (.create rfl), .clone rfl (.creation ⟨_, rfl, rfl⟩), nofun⟩

end Environments

end MiniLisp
