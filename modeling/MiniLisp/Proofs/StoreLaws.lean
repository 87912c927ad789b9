import MiniLisp.Scope.Store

/-!
# Laws of the store

What a new scope and a new binding change, scope by scope:

* `Bindings.names_bind` : a new name comes last, and a name that is bound again keeps its place;
* `Bindings.get?_bind` : only the name that is bound has a new value;
* `Store.bindings_push`, `Store.enclosing?_push` : a new scope is empty, and no other changes;
* `Store.bindings_define`, `Store.enclosing?_define` : a binding changes one scope, and no link;
* `Store.lookup_eq_of_agree` : a look-up sees only the scope it starts in and those around it.
-/

namespace MiniLisp

namespace Bindings

def names (b : Bindings) : List String := b.map Prod.fst

theorem names_bind (b : Bindings) (name : String) (value : Value) :
    (b.bind name value).names = if name ∈ b.names then b.names else b.names ++ [name] := by
  induction b with
  | nil => simp [bind, names]
  | cons entry rest ih =>
    obtain ⟨n, v⟩ := entry
    unfold bind
    by_cases h : n = name
    · simp [h, names]
    · rw [if_neg h]
      show n :: (bind name value rest).names =
        if name ∈ n :: names rest then n :: names rest else n :: names rest ++ [name]
      rw [ih]
      by_cases hmem : name ∈ names rest
      · rw [if_pos hmem, if_pos (List.mem_cons_of_mem _ hmem)]
      · rw [if_neg hmem, if_neg fun c => (List.mem_cons.1 c).elim (fun e => h e.symm) hmem]
        rfl

theorem names_isPrefix_bind (b : Bindings) (name : String) (value : Value) :
    b.names <+: (b.bind name value).names := by
  rw [names_bind]
  split
  · exact List.prefix_refl _
  · exact List.prefix_append _ _

theorem nodup_bind {b : Bindings} (h : b.names.Nodup) (name : String) (value : Value) :
    (b.bind name value).names.Nodup := by
  rw [names_bind]
  by_cases hname : name ∈ b.names
  · rwa [if_pos hname]
  · rw [if_neg hname]
    simpa [List.nodup_append] using ⟨h, fun a ha e => hname (e ▸ ha)⟩

/-- A binding in full: the name that was bound keeps its place, and a new one comes last. -/
theorem bind_eq {b : Bindings} (h : b.names.Nodup) (name : String) (value : Value) :
    b.bind name value =
      if name ∈ b.names then b.map fun entry => if entry.1 = name then (name, value) else entry
      else b ++ [(name, value)] := by
  induction b with
  | nil => simp [bind, names]
  | cons entry rest ih =>
    obtain ⟨n, v⟩ := entry
    obtain ⟨hn, hrest⟩ : n ∉ names rest ∧ (names rest).Nodup := List.nodup_cons.1 h
    have hnames : names ((n, v) :: rest) = n :: names rest := rfl
    unfold bind
    rw [hnames]
    by_cases hname : n = name
    · subst hname
      have hothers : rest.map (fun entry => if entry.1 = n then (n, value) else entry) = rest := by
        refine (List.map_congr_left fun entry hentry => if_neg fun he => hn ?_).trans
          (List.map_id _)
        exact he ▸ List.mem_map_of_mem hentry
      rw [if_pos rfl, if_pos List.mem_cons_self, List.map_cons, if_pos rfl, hothers]
    · rw [if_neg hname, ih hrest]
      by_cases hmem : name ∈ names rest
      · rw [if_pos hmem, if_pos (List.mem_cons_of_mem _ hmem), List.map_cons, if_neg hname]
      · have hout : name ∉ n :: names rest :=
          fun c => (List.mem_cons.1 c).elim (fun e => hname e.symm) hmem
        rw [if_neg hmem, if_neg hout, List.cons_append]

theorem get?_bind (b : Bindings) (name n : String) (value : Value) :
    (b.bind name value).get? n = if n = name then some value else b.get? n := by
  unfold get?
  induction b with
  | nil => by_cases h : n = name <;> simp [bind, h]
  | cons entry rest ih =>
    obtain ⟨m, v⟩ := entry
    unfold bind
    by_cases hm : m = name
    · subst hm
      rw [if_pos rfl, List.lookup_cons, List.lookup_cons]
      by_cases hn : n = m
      · simp [hn]
      · rw [if_neg hn, beq_false_of_ne hn]
    · rw [if_neg hm, List.lookup_cons, List.lookup_cons, ih]
      by_cases hn : n = m
      · subst hn
        simp [hm]
      · rw [beq_false_of_ne hn]

theorem get?_eq_none_iff {b : Bindings} {name : String} : b.get? name = none ↔ name ∉ b.names := by
  unfold get? names
  simp only [List.lookup_eq_none_iff, List.mem_map, bne_iff_ne, ne_eq, not_exists, not_and]
  exact forall₂_congr fun entry _ => ⟨fun h e => h e.symm, fun h e => h e.symm⟩

theorem mem_bind {b : Bindings} {name : String} {value : Value} {entry : String × Value}
    (h : entry ∈ b.bind name value) : entry = (name, value) ∨ entry ∈ b := by
  induction b with
  | nil => exact .inl (List.mem_singleton.1 h)
  | cons first rest ih =>
    obtain ⟨n, v⟩ := first
    unfold bind at h
    split at h
    · rename_i hn
      rcases List.mem_cons.1 h with rfl | h
      · exact .inl (hn ▸ rfl)
      · exact .inr (List.mem_cons_of_mem _ h)
    · rcases List.mem_cons.1 h with rfl | h
      · exact .inr List.mem_cons_self
      · exact (ih h).imp_right (List.mem_cons_of_mem _)

theorem mem_of_get? {b : Bindings} {name : String} {value : Value} (h : b.get? name = some value) :
    (name, value) ∈ b := by
  obtain ⟨before, after, rfl, -⟩ := List.lookup_eq_some_iff.1 h
  simp

end Bindings

namespace Store

variable (s : Store)

theorem bindings_eq (i : ScopeId) : s.bindings i = (s.scopes[i]?.map (·.bindings)).getD [] := by
  unfold bindings
  cases s.scopes[i]? <;> rfl

theorem bindings_of_size_le {i : ScopeId} (h : s.size ≤ i) : s.bindings i = [] := by
  rw [bindings_eq, Array.getElem?_eq_none h]
  rfl

theorem enclosing?_of_size_le {i : ScopeId} (h : s.size ≤ i) : s.enclosing? i = none := by
  unfold enclosing?
  rw [Array.getElem?_eq_none h]
  rfl

/-! ## A new scope -/

@[simp] theorem size_push (e : Option ScopeId) : (s.push e).size = s.size + 1 :=
  Array.size_push _

@[simp] theorem bindings_push (e : Option ScopeId) (i : ScopeId) :
    (s.push e).bindings i = s.bindings i := by
  by_cases h : i = s.size
  · rw [s.bindings_of_size_le (Nat.le_of_eq h.symm), bindings_eq]
    simp only [push, Array.getElem?_push]
    rw [if_pos (show i = s.scopes.size from h)]
    rfl
  · rw [bindings_eq, bindings_eq]
    simp only [push, Array.getElem?_push]
    rw [if_neg (show ¬i = s.scopes.size from h)]

theorem enclosing?_push (e : Option ScopeId) (i : ScopeId) :
    (s.push e).enclosing? i = if i = s.size then e.filter (· < s.size) else s.enclosing? i := by
  unfold enclosing? push
  simp only [Array.getElem?_push]
  by_cases h : i = s.size
  · rw [if_pos (show i = s.scopes.size from h), if_pos h]
    rfl
  · rw [if_neg (show ¬i = s.scopes.size from h), if_neg h]

/-! ## A new binding -/

variable (i : ScopeId) (name : String) (value : Value)

@[simp] theorem size_define : (s.define i name value).size = s.size :=
  Array.size_modify ..

theorem bindings_define (j : ScopeId) :
    (s.define i name value).bindings j =
      if j = i ∧ j < s.size then (s.bindings j).bind name value else s.bindings j := by
  rw [bindings_eq, bindings_eq]
  simp only [define, Array.getElem?_modify]
  by_cases h : i = j
  · subst h
    by_cases hi : i < s.size
    · have hget : s.scopes[i]? = some s.scopes[i] := Array.getElem?_eq_getElem hi
      rw [if_pos rfl, if_pos ⟨rfl, hi⟩, hget]
      rfl
    · rw [if_pos rfl, if_neg fun c => hi c.2, Array.getElem?_eq_none (Nat.le_of_not_lt hi)]
      rfl
  · rw [if_neg h, if_neg fun c => h c.1.symm]

theorem bindings_define_of_ne {j : ScopeId} (h : j ≠ i) :
    (s.define i name value).bindings j = s.bindings j := by
  rw [bindings_define, if_neg fun c => h c.1]

theorem mem_bindings_define {j : ScopeId} {entry : String × Value}
    (h : entry ∈ (s.define i name value).bindings j) :
    (j = i ∧ entry = (name, value)) ∨ entry ∈ s.bindings j := by
  rw [bindings_define] at h
  split at h
  · rename_i hj
    exact (Bindings.mem_bind h).imp_left fun he => ⟨hj.1, he⟩
  · exact .inr h

@[simp] theorem enclosing?_define (j : ScopeId) :
    (s.define i name value).enclosing? j = s.enclosing? j := by
  unfold enclosing? define
  simp only [Array.getElem?_modify]
  split
  · cases s.scopes[j]? <;> rfl
  · rfl

/-! ## Looking a name up -/

theorem lookup_eq (i : ScopeId) :
    s.lookup name i = ((s.bindings i).get? name).or ((s.enclosing? i).bind (s.lookup name)) := by
  rw [lookup]
  cases (s.bindings i).get? name with
  | some v => rfl
  | none =>
    dsimp only
    cases s.enclosing? i <;> rfl

/-- Let `inside` be a set of scopes with those around them. If two stores agree inside, a name has
the same value in both, seen from inside; that value is bound inside. -/
theorem lookup_eq_of_agree {s t : Store} {inside : ScopeId → Prop}
    (hclosed : ∀ i p, inside i → s.enclosing? i = some p → inside p)
    (hlink : ∀ i, inside i → t.enclosing? i = s.enclosing? i)
    (hbind : ∀ i, inside i → t.bindings i = s.bindings i) {i : ScopeId} (hi : inside i) :
    t.lookup name i = s.lookup name i ∧
      ∀ value, s.lookup name i = some value → ∃ j, inside j ∧ (name, value) ∈ s.bindings j := by
  induction i using Nat.strongRecOn with
  | ind i ih =>
    rw [lookup, lookup.eq_1 s, hbind i hi]
    cases hget : (s.bindings i).get? name with
    | some v =>
      refine ⟨rfl, fun value hv => ⟨i, hi, ?_⟩⟩
      cases hv
      exact Bindings.mem_of_get? hget
    | none =>
      dsimp only
      rw [hlink i hi]
      cases hp : s.enclosing? i with
      | none => exact ⟨rfl, fun value hv => nomatch hv⟩
      | some p => exact ih p (enclosing?_lt hp) (hclosed i p hi hp)

theorem exists_mem_of_lookup {s : Store} {name : String} {i : ScopeId} {value : Value}
    (h : s.lookup name i = some value) : ∃ j, (name, value) ∈ s.bindings j := by
  have hclosed : ∀ i p, True → s.enclosing? i = some p → True := fun _ _ _ _ => trivial
  obtain ⟨-, hbound⟩ := lookup_eq_of_agree (s := s) (t := s) (i := i) name hclosed
    (fun _ _ => rfl) (fun _ _ => rfl) trivial
  obtain ⟨j, -, hmem⟩ := hbound value h
  exact ⟨j, hmem⟩

end Store

end MiniLisp
