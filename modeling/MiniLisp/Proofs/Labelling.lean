import MiniLisp.Expr.Label
import MiniLisp.Proofs.Alike
import MiniLisp.Proofs.Grammar

/-!
# Labelling

Two labellings are compared step by step, from labels that correspond to labels that correspond.

* `Labels.Action` : labellings that give corresponding results and leave corresponding labels;
* `Expr.relabelAll_append` : labelling goes from left to right;
* `Expr.relabelAll_forall` : what labelling gives to each expression holds of all of them;
* `Expr.Alike.relabel` : expressions that are alike are labelled alike;
* `Spells.objectless` : labelling what was read takes no label of an object, and depends on none.
-/

namespace MiniLisp

open List

/-- Labellings that take corresponding labels to corresponding results and labels. -/
def Labels.Action {α β : Type} (L : Labels → Labels → Prop) (A : α → β → Prop)
    (f : StateM Labels α) (g : StateM Labels β) : Prop :=
  ∀ l l', L l l' → A (f l).1 (g l').1 ∧ L (f l).2 (g l').2

namespace Labels.Action

variable {L : Labels → Labels → Prop}

theorem pure {α β : Type} {A : α → β → Prop} {a : α} {b : β} (h : A a b) :
    Action L A (Pure.pure a) (Pure.pure b) := fun _ _ hl => ⟨h, hl⟩

theorem bind {α β γ δ : Type} {A : α → β → Prop} {B : γ → δ → Prop} {f : StateM Labels α}
    {g : StateM Labels β} {k : α → StateM Labels γ} {k' : β → StateM Labels δ}
    (hf : Action L A f g) (hk : ∀ a b, A a b → Action L B (k a) (k' b)) :
    Action L B (f >>= k) (g >>= k') := by
  intro l l' hl
  obtain ⟨hresult, hlabels⟩ := hf l l' hl
  exact hk _ _ hresult _ _ hlabels

theorem map {α β γ δ : Type} {A : α → β → Prop} {B : γ → δ → Prop} {f : StateM Labels α}
    {g : StateM Labels β} {k : α → γ} {k' : β → δ} (hf : Action L A f g)
    (hk : ∀ a b, A a b → B (k a) (k' b)) :
    Action L B (do return k (← f)) (do return k' (← g)) :=
  hf.bind fun a b hab => pure (hk a b hab)

end Labels.Action

namespace Expr

open Labels (Action)

theorem relabelAll_append (xs ys : List Expr) (l : Labels) :
    relabelAll (xs ++ ys) l =
      ((relabelAll xs l).1 ++ (relabelAll ys (relabelAll xs l).2).1,
        (relabelAll ys (relabelAll xs l).2).2) := by
  induction xs generalizing l with
  | nil =>
    rw [relabelAll]
    rfl
  | cons x xs ih =>
    rw [List.cons_append, relabelAll, relabelAll]
    show (_ :: (relabelAll (xs ++ ys) (relabel x l).2).1,
      (relabelAll (xs ++ ys) (relabel x l).2).2) = _
    rw [ih]
    rfl

/-- A property that every expression has once it is labelled holds of all that are labelled. -/
theorem relabelAll_forall {P : Expr → Prop} {xs : List Expr} (h : ∀ x ∈ xs, ∀ l, P (relabel x l).1)
    (l : Labels) : ∀ y ∈ (relabelAll xs l).1, P y := by
  induction xs generalizing l with
  | nil =>
    rw [relabelAll]
    exact fun y hy => nomatch hy
  | cons x xs ih =>
    obtain ⟨hx, hxs⟩ := List.forall_mem_cons.1 h
    rw [relabelAll]
    exact List.forall_mem_cons.2 ⟨hx l, ih hxs (relabel x l).2⟩

theorem relabelAll_action {L : Labels → Labels → Prop} {R : Expr → Expr → Prop}
    {xs xs' : List Expr} (h : Forall₂ (fun x x' => Action L R (relabel x) (relabel x')) xs xs') :
    Action L (Forall₂ R) (relabelAll xs) (relabelAll xs') := by
  induction h with
  | nil =>
    rw [relabelAll]
    exact .pure .nil
  | cons hx _ ih =>
    rw [relabelAll, relabelAll]
    exact hx.bind fun x x' hx => ih.map fun xs xs' hxs => .cons hx hxs

theorem freshDefinition_eq :
    Action (· = ·) (· = ·) Labels.freshDefinition Labels.freshDefinition := by
  rintro l _ rfl
  exact ⟨rfl, rfl⟩

theorem freshObject_eq : Action (· = ·) (· = ·) Labels.freshObject Labels.freshObject := by
  rintro l _ rfl
  exact ⟨rfl, rfl⟩

theorem Alike.relabel {token : Token → Token → Prop} {e e' : Expr} (h : Alike token e e') :
    Action (· = ·) (Alike token) e.relabel e'.relabel := by
  refine h.induct (P := fun e e' => Action (· = ·) (Alike token) e.relabel e'.relabel) ?atom
    ?symbol ?operator ?keyword ?list ?data ?define ?call
  case atom =>
    intro value t t' ht
    rw [Expr.relabel, Expr.relabel]
    exact .pure (.atom value ht)
  case symbol =>
    intro t t' ht
    rw [Expr.relabel, Expr.relabel]
    exact .pure (.symbol ht)
  case operator =>
    intro t t' xs xs' ht _ ihs
    rw [Expr.relabel, Expr.relabel]
    exact (relabelAll_action ihs).map fun _ _ hxs => .operator ht hxs
  case keyword =>
    intro t t' xs xs' ht _ ihs
    rw [Expr.relabel, Expr.relabel]
    exact (relabelAll_action ihs).map fun _ _ hxs => .keyword ht hxs
  case list =>
    intro x x' xs xs' ih _ ihs
    rw [Expr.relabel, Expr.relabel]
    exact ih.bind fun _ _ hx => (relabelAll_action ihs).map fun _ _ hxs => .list hx hxs
  case data =>
    intro label x x' xs xs' ih _ ihs
    rw [Expr.relabel, Expr.relabel]
    refine freshObject_eq.bind fun label label' hlabel => ?_
    obtain rfl := hlabel
    exact ih.bind fun _ _ hx => (relabelAll_action ihs).map fun _ _ hxs => .data label hx hxs
  case define =>
    intro label t t' ps ps' x x' ht hps ih
    rw [Expr.relabel, Expr.relabel]
    refine freshDefinition_eq.bind fun label label' hlabel => ?_
    obtain rfl := hlabel
    exact ih.map fun _ _ hx => .define label ht hps hx
  case call =>
    intro x x' t t' xs xs' ih ht _ ihs
    rw [Expr.relabel, Expr.relabel]
    exact ih.bind fun _ _ hx => (relabelAll_action ihs).map fun _ _ hxs => .call hx ht hxs

end Expr

/-! ## What was read -/

/-- Labels that have given the same definitions, and `o` and `o'` objects. -/
def Labels.Apart (o o' : Nat) (l l' : Labels) : Prop :=
  l'.definition = l.definition ∧ l.object = o ∧ l'.object = o'

def Expr.Objectless (o o' : Nat) (e : Expr) : Prop :=
  Labels.Action (Labels.Apart o o') (· = ·) e.relabel e.relabel

namespace Expr

open Labels (Action)

variable {o o' : Nat}

theorem objectless_all {es : List Expr} (h : ∀ e ∈ es, e.Objectless o o') :
    Action (Labels.Apart o o') (· = ·) (relabelAll es) (relabelAll es) := by
  have hall := relabelAll_action (forall₂_same.2 h)
  rwa [forall₂_eq_eq_eq] at hall

theorem freshDefinition_apart : Action (Labels.Apart o o') (· = ·) Labels.freshDefinition
    Labels.freshDefinition := by
  rintro ⟨d, _⟩ ⟨d', _⟩ ⟨hdefinition, hobject⟩
  obtain rfl : d' = d := hdefinition
  exact ⟨rfl, rfl, hobject⟩

end Expr

open MiniLisp.Expr in
/-- Labelling what was read takes no label of an object, and depends on none. -/
theorem Spells.objectless {ts : List Token} {es : List Expr} (h : Spells ts es) (o o' : Nat) :
    ∀ e ∈ es, e.Objectless o o' := by
  induction h with
  | nil => exact fun e he => nomatch he
  | token ht _ ih =>
    refine List.forall_mem_cons.2 ⟨?_, ih⟩
    unfold Objectless
    rcases ofToken_cases ht with ⟨_, _, rfl⟩ | ⟨_, _, rfl⟩ | ⟨_, _, _, rfl⟩ | ⟨_, rfl⟩
    · rw [relabel, relabelAll]
      exact .pure rfl
    · rw [relabel, relabelAll]
      exact .pure rfl
    · rw [relabel]
      exact .pure rfl
    · rw [relabel]
      exact .pure rfl
  | call _ _ _ _ _ ihargs ih =>
    refine List.forall_mem_cons.2 ⟨?_, ih⟩
    unfold Objectless
    rw [relabel, relabel]
    exact (objectless_all ihargs).map fun xs xs' hxs => by rw [hxs]
  | define _ _ _ _ _ _ ihbody ih =>
    refine List.forall_mem_cons.2 ⟨?_, ih⟩
    have hbody := ihbody _ List.mem_cons_self
    unfold Objectless
    rw [relabel]
    refine freshDefinition_apart.bind fun label label' hlabel => ?_
    obtain rfl := hlabel
    exact hbody.map fun x x' hx => by rw [hx]
  | list _ _ _ _ _ _ ihhead ihtail ih =>
    refine List.forall_mem_cons.2 ⟨?_, ih⟩
    have hhead := ihhead _ List.mem_cons_self
    unfold Objectless
    rw [relabel]
    exact hhead.bind fun x x' hx => (objectless_all ihtail).map fun xs xs' hxs => by rw [hx, hxs]

end MiniLisp
