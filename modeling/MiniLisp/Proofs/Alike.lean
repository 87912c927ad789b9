import Mathlib.Data.List.Forall2
import MiniLisp.Value.Equality

/-!
# Expressions that differ in their tokens

`Expr.Alike token` relates expressions of one shape and with the same literals and labels, whose
tokens are related by `token` place by place. How far such expressions can be told apart depends on
what related tokens share.

* `Expr.Alike.induct` : induction with a hypothesis for every element of a list;
* `Expr.Alike.text_eq` : they print alike, if related tokens have one lexeme;
* `Expr.Alike.same_eq` : `Expr.same` does not see the difference, if they also have one kind;
* `Value.Alike` : the same for values, with `text_eq` and `same_eq`;
* `Token.Moved line` : tokens that differ in their lines only, which are related by `line`.
-/

namespace MiniLisp

open List

/-- Expressions of one shape, with the same literals and labels and with related tokens. -/
inductive Expr.Alike (token : Token → Token → Prop) : Expr → Expr → Prop
  | atom (value : Literal) {t t' : Token} (ht : token t t') :
      Alike token (.atom value t) (.atom value t')
  | symbol {t t' : Token} (ht : token t t') : Alike token (.symbol t) (.symbol t')
  | operator {t t' : Token} {xs xs' : List Expr} (ht : token t t')
      (hxs : Forall₂ (Alike token) xs xs') : Alike token (.operator t xs) (.operator t' xs')
  | keyword {t t' : Token} {xs xs' : List Expr} (ht : token t t')
      (hxs : Forall₂ (Alike token) xs xs') : Alike token (.keyword t xs) (.keyword t' xs')
  | list {x x' : Expr} {xs xs' : List Expr} (hx : Alike token x x')
      (hxs : Forall₂ (Alike token) xs xs') : Alike token (.list x xs) (.list x' xs')
  | data (label : Nat) {x x' : Expr} {xs xs' : List Expr} (hx : Alike token x x')
      (hxs : Forall₂ (Alike token) xs xs') : Alike token (.data label x xs) (.data label x' xs')
  | define (label : Nat) {t t' : Token} {ps ps' : List Token} {x x' : Expr} (ht : token t t')
      (hps : Forall₂ token ps ps') (hx : Alike token x x') :
      Alike token (.define label t ps x) (.define label t' ps' x')
  | call {x x' : Expr} {t t' : Token} {xs xs' : List Expr} (hx : Alike token x x')
      (ht : token t t') (hxs : Forall₂ (Alike token) xs xs') :
      Alike token (.call x t xs) (.call x' t' xs')

namespace Expr.Alike

variable {token : Token → Token → Prop}

/-- Induction on expressions that are alike, with a hypothesis for every element of a list. -/
theorem induct {P : Expr → Expr → Prop} {e e' : Expr} (h : Alike token e e')
    (atom : ∀ value t t', token t t' → P (.atom value t) (.atom value t'))
    (symbol : ∀ t t', token t t' → P (.symbol t) (.symbol t'))
    (operator : ∀ t t' xs xs', token t t' → Forall₂ (Alike token) xs xs' → Forall₂ P xs xs' →
      P (.operator t xs) (.operator t' xs'))
    (keyword : ∀ t t' xs xs', token t t' → Forall₂ (Alike token) xs xs' → Forall₂ P xs xs' →
      P (.keyword t xs) (.keyword t' xs'))
    (list : ∀ x x' xs xs', P x x' → Forall₂ (Alike token) xs xs' → Forall₂ P xs xs' →
      P (.list x xs) (.list x' xs'))
    (data : ∀ label x x' xs xs', P x x' → Forall₂ (Alike token) xs xs' → Forall₂ P xs xs' →
      P (.data label x xs) (.data label x' xs'))
    (define : ∀ label t t' ps ps' x x', token t t' → Forall₂ token ps ps' → P x x' →
      P (.define label t ps x) (.define label t' ps' x'))
    (call : ∀ x x' t t' xs xs', P x x' → token t t' → Forall₂ (Alike token) xs xs' →
      Forall₂ P xs xs' → P (.call x t xs) (.call x' t' xs')) :
    P e e' :=
  @Alike.rec token (fun e e' _ => P e e') (fun xs xs' _ => Forall₂ P xs xs')
    (fun value t t' ht => atom value t t' ht) (fun ht => symbol _ _ ht)
    (fun ht hxs ihs => operator _ _ _ _ ht hxs ihs)
    (fun ht hxs ihs => keyword _ _ _ _ ht hxs ihs)
    (fun _ hxs ih ihs => list _ _ _ _ ih hxs ihs)
    (fun label _ _ _ _ _ hxs ih ihs => data label _ _ _ _ ih hxs ihs)
    (fun label _ _ _ _ _ _ ht hps _ ih => define label _ _ _ _ _ _ ht hps ih)
    (fun _ ht hxs ih ihs => call _ _ _ _ _ _ ih ht hxs ihs)
    .nil (fun _ _ ih ihs => .cons ih ihs) e e' h

theorem token_token {e e' : Expr} (h : Alike token e e') : token e.token e'.token := by
  refine h.induct (P := fun e e' => token e.token e'.token) ?atom ?symbol ?operator ?keyword
    ?list ?data ?define ?call
  case atom => exact fun _ _ _ ht => ht
  case symbol => exact fun _ _ ht => ht
  case operator | keyword => exact fun _ _ _ _ ht _ _ => ht
  case list => exact fun _ _ _ _ ih _ _ => ih
  case data => exact fun _ _ _ _ _ ih _ _ => ih
  case define => exact fun _ _ _ _ _ _ _ ht _ _ => ht
  case call => exact fun _ _ _ _ _ _ _ ht _ _ => ht

/-- Expressions that are alike are so for every weaker relation of tokens. -/
theorem mono {token' : Token → Token → Prop} (hle : ∀ t t', token t t' → token' t t')
    {e e' : Expr} (h : Alike token e e') : Alike token' e e' := by
  refine h.induct (P := Alike token') ?atom ?symbol ?operator ?keyword ?list ?data ?define ?call
  case atom => exact fun value _ _ ht => .atom value (hle _ _ ht)
  case symbol => exact fun _ _ ht => .symbol (hle _ _ ht)
  case operator => exact fun _ _ _ _ ht _ ihs => .operator (hle _ _ ht) ihs
  case keyword => exact fun _ _ _ _ ht _ ihs => .keyword (hle _ _ ht) ihs
  case list => exact fun _ _ _ _ ih _ ihs => .list ih ihs
  case data => exact fun label _ _ _ _ ih _ ihs => .data label ih ihs
  case define =>
    exact fun label _ _ _ _ _ _ ht hps ih => .define label (hle _ _ ht) (hps.imp hle) ih
  case call => exact fun _ _ _ _ _ _ ih ht _ ihs => .call ih (hle _ _ ht) ihs

end Expr.Alike

/-! ## Expressions are like themselves -/

mutual

theorem Expr.alike_refl {token : Token → Token → Prop} (htoken : ∀ t, token t t) :
    ∀ e : Expr, Alike token e e
  | .atom value t => .atom value (htoken t)
  | .symbol t => .symbol (htoken t)
  | .operator t xs => .operator (htoken t) (alikeAll_refl htoken xs)
  | .keyword t xs => .keyword (htoken t) (alikeAll_refl htoken xs)
  | .list x xs => .list (alike_refl htoken x) (alikeAll_refl htoken xs)
  | .data label x xs => .data label (alike_refl htoken x) (alikeAll_refl htoken xs)
  | .define label t _ x => .define label (htoken t) (forall₂_same.2 fun p _ => htoken p)
      (alike_refl htoken x)
  | .call x t xs => .call (alike_refl htoken x) (htoken t) (alikeAll_refl htoken xs)

theorem Expr.alikeAll_refl {token : Token → Token → Prop} (htoken : ∀ t, token t t) :
    ∀ xs : List Expr, Forall₂ (Alike token) xs xs
  | [] => .nil
  | x :: xs => .cons (alike_refl htoken x) (alikeAll_refl htoken xs)

end

/-! ## Printed forms -/

theorem Expr.spacedText_congr {xs xs' : List Expr}
    (h : Forall₂ (fun x x' => x'.text = x.text) xs xs') : spacedText xs' = spacedText xs := by
  induction h with
  | nil => rfl
  | cons hx _ ih => rw [spacedText, spacedText, hx, ih]

/-- Lists with related elements have one image, if related elements do. -/
theorem map_congr_of_forall₂ {α β γ : Type} {R : α → β → Prop} {f : α → γ} {g : β → γ}
    (hR : ∀ a b, R a b → g b = f a) {l : List α} {l' : List β} (h : Forall₂ R l l') :
    l'.map g = l.map f := by
  induction h with
  | nil => rfl
  | cons hab _ ih => rw [List.map_cons, List.map_cons, hR _ _ hab, ih]

theorem Expr.Alike.text_eq {token : Token → Token → Prop}
    (htoken : ∀ t t', token t t' → t'.lexeme = t.lexeme) {e e' : Expr} (h : Alike token e e') :
    e'.text = e.text := by
  refine h.induct (P := fun e e' => e'.text = e.text) ?atom ?symbol ?operator ?keyword ?list ?data
    ?define ?call
  case atom => exact fun _ _ _ _ => rfl
  case symbol => exact fun t t' ht => htoken t t' ht
  case operator =>
    intro t t' xs xs' ht hxs ihs
    cases hxs with
    | nil => exact htoken t t' ht
    | cons => rw [text, text, htoken t t' ht, spacedText_congr ihs]
  case keyword =>
    intro t t' xs xs' ht hxs ihs
    cases hxs with
    | nil => exact htoken t t' ht
    | cons => rw [text, text, htoken t t' ht, spacedText_congr ihs]
  case list =>
    intro x x' xs xs' ih _ ihs
    rw [text, text, ih, spacedText_congr ihs]
  case data =>
    intro label x x' xs xs' ih _ ihs
    rw [text, text, ih, spacedText_congr ihs]
  case define =>
    intro label t t' ps ps' x x' ht hps ih
    rw [text, text, htoken t t' ht, paramsText, paramsText, map_congr_of_forall₂ htoken hps, ih]
  case call =>
    intro x x' t t' xs xs' ih _ _ ihs
    rw [text, text, ih, spacedText_congr ihs]

/-! ## Equality -/

/-- Is `e'` equal to all that is alike to what `e` is equal to? -/
def Expr.SameAs (token : Token → Token → Prop) (e e' : Expr) : Prop :=
  ∀ f f', Alike token f f' → e'.same f' = e.same f

theorem Expr.sameAll_congr {token : Token → Token → Prop} {xs xs' : List Expr}
    (hxs : Forall₂ (SameAs token) xs xs') {ys ys' : List Expr}
    (hys : Forall₂ (Alike token) ys ys') : sameAll xs' ys' = sameAll xs ys := by
  induction hxs generalizing ys ys' with
  | nil => cases hys <;> rfl
  | cons hx _ ih =>
    cases hys with
    | nil => rfl
    | cons hy hys => rw [sameAll, sameAll, hx _ _ hy, ih hys]

theorem Expr.Alike.same_eq {token : Token → Token → Prop}
    (htoken : ∀ t t', token t t' → t'.kind = t.kind ∧ t'.lexeme = t.lexeme) {e e' : Expr}
    (h : Alike token e e') : SameAs token e e' := by
  refine h.induct (P := SameAs token) ?atom ?symbol ?operator ?keyword ?list ?data ?define ?call
  case atom =>
    intro value t t' _ f f' hf
    cases hf <;> rfl
  case symbol =>
    intro t t' ht f f' hf
    cases hf with
    | symbol hu => rw [same, same, (htoken _ _ ht).2, (htoken _ _ hu).2]
    | atom | operator | keyword | list | data | define | call => rfl
  case operator =>
    intro t t' xs xs' ht _ ihs f f' hf
    cases hf with
    | operator hu hys =>
      rw [same, same, (htoken _ _ ht).1, (htoken _ _ hu).1, sameAll_congr ihs hys]
    | atom | symbol | keyword | list | data | define | call => rfl
  case keyword =>
    intro t t' xs xs' ht _ ihs f f' hf
    cases hf with
    | keyword hu hys =>
      rw [same, same, (htoken _ _ ht).1, (htoken _ _ hu).1, sameAll_congr ihs hys]
    | atom | symbol | operator | list | data | define | call => rfl
  case list =>
    intro x x' xs xs' ih _ ihs f f' hf
    cases hf with
    | list hy hys => rw [same, same, ih _ _ hy, sameAll_congr ihs hys]
    | atom | symbol | operator | keyword | data | define | call => rfl
  case data =>
    intro label x x' xs xs' ih _ ihs f f' hf
    cases hf with
    | data _ hy hys => rw [same, same, ih _ _ hy, sameAll_congr ihs hys]
    | atom | symbol | operator | keyword | list | define | call => rfl
  case define =>
    intro label t t' ps ps' x x' _ _ _ f f' hf
    cases hf <;> rfl
  case call =>
    intro x x' t t' xs xs' ih _ _ ihs f f' hf
    cases hf with
    | call hy _ hys => rw [same, same, ih _ _ hy, sameAll_congr ihs hys]
    | atom | symbol | operator | keyword | list | data | define => rfl

/-! ## Values -/

/-- Values of one shape, whose expressions are alike, with the same labels and scopes. -/
inductive Value.Alike (token : Token → Token → Prop) : Value → Value → Prop
  | nil : Alike token .nil .nil
  | bool (b : Bool) : Alike token (.bool b) (.bool b)
  | number (n : Binary64) : Alike token (.number n) (.number n)
  | string (s : String) : Alike token (.string s) (.string s)
  | list (label : Nat) {x x' : Expr} {xs xs' : List Expr} (hx : Expr.Alike token x x')
      (hxs : Forall₂ (Expr.Alike token) xs xs') :
      Alike token (.list ⟨label, x, xs⟩) (.list ⟨label, x', xs'⟩)
  | function (label : Nat) {t t' : Token} {ps ps' : List Token} {x x' : Expr} (ht : token t t')
      (hps : Forall₂ token ps ps') (hx : Expr.Alike token x x') (scope : ScopeId) :
      Alike token (.function ⟨label, t, ps, x, scope⟩) (.function ⟨label, t', ps', x', scope⟩)

theorem Value.alike_refl {token : Token → Token → Prop} (htoken : ∀ t, token t t) (v : Value) :
    Alike token v v := by
  cases v with
  | nil => exact .nil
  | bool b => exact .bool b
  | number n => exact .number n
  | string s => exact .string s
  | list l => exact .list l.label (Expr.alike_refl htoken _) (Expr.alikeAll_refl htoken _)
  | function f =>
    have hparams : Forall₂ token f.params f.params := forall₂_same.2 fun p _ => htoken p
    exact .function f.label (htoken _) hparams (Expr.alike_refl htoken _) f.scope

namespace Value.Alike

variable {token : Token → Token → Prop}

theorem text_eq (htoken : ∀ t t', token t t' → t'.lexeme = t.lexeme) {v v' : Value}
    (h : Alike token v v') : v'.text = v.text := by
  cases h with
  | nil | number | string => rfl
  | bool b => cases b <;> rfl
  | list label hx hxs =>
    have hspaced := Expr.spacedText_congr (hxs.imp fun _ _ h => h.text_eq htoken)
    show "(" ++ _ ++ Expr.spacedText _ ++ ")" = "(" ++ _ ++ Expr.spacedText _ ++ ")"
    rw [hx.text_eq htoken, hspaced]
  | function label ht =>
    show "<fn " ++ _ ++ ">" = "<fn " ++ _ ++ ">"
    rw [htoken _ _ ht]

theorem same_eq (htoken : ∀ t t', token t t' → t'.kind = t.kind ∧ t'.lexeme = t.lexeme)
    {v v' w w' : Value} (hv : Alike token v v') (hw : Alike token w w') :
    v'.same w' = v.same w := by
  cases hv with
  | list label hx hxs =>
    cases hw with
    | list label' hy hys =>
      have htail := Expr.sameAll_congr (hxs.imp fun _ _ h => h.same_eq htoken) hys
      show (_ || (_ && _)) = (_ || (_ && _))
      rw [hx.same_eq htoken _ _ hy, htail]
    | nil | bool | number | string | function => rfl
  | nil | bool | number | string | function => cases hw <;> rfl

end Value.Alike

/-! ## Other lines -/

/-- Tokens that differ in their lines only, which are related by `line`. -/
structure Token.Moved (line : Nat → Nat → Prop) (t t' : Token) : Prop where
  kind : t'.kind = t.kind
  lexeme : t'.lexeme = t.lexeme
  literal? : t'.literal? = t.literal?
  line : line t.line t'.line

namespace Token.Moved

variable {line : Nat → Nat → Prop}

theorem kind_lexeme (t t' : Token) (h : Moved line t t') :
    t'.kind = t.kind ∧ t'.lexeme = t.lexeme :=
  ⟨h.kind, h.lexeme⟩

theorem refl (hline : ∀ l, line l l) (t : Token) : Moved line t t := ⟨rfl, rfl, rfl, hline _⟩

end Token.Moved

end MiniLisp
