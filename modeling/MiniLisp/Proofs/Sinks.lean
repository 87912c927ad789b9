import MiniLisp.Command.Printer
import MiniLisp.Command.Report
import MiniLisp.Proofs.Bytes

/-!
# Printing until a failure

A sink may take part of a line, or fail to flush after a whole one. What a printer has written by
then is a prefix of all the lines, and nothing is tried again.

* `Sink.Fits`, `Sink.upTo` : the bytes that there is room for;
* `Sink.writeAll_eq` : pieces are written as if they were one;
* `Printer.Exact` : what a printer has written after some of the values, how often it has flushed,
  and whether it has failed;
* `Printer.Exact.print` : printing one more value;
* `Printer.printAll_exact` : this is so after each of the values, and a failed printer stays as it
  is.
-/

namespace MiniLisp

namespace Sink

def Fits (room? : Option Nat) (bytes : List UInt8) : Prop := ∀ room ∈ room?, bytes.length ≤ room

instance (room? : Option Nat) (bytes : List UInt8) : Decidable (Fits room? bytes) :=
  inferInstanceAs (Decidable (∀ room ∈ room?, bytes.length ≤ room))

def upTo (room? : Option Nat) (bytes : List UInt8) : List UInt8 := room?.elim bytes bytes.take

theorem Fits.of_append {room? : Option Nat} {before after : List UInt8}
    (h : Fits room? (before ++ after)) : Fits room? before := fun room hroom =>
  Nat.le_trans (by rw [List.length_append]; exact Nat.le_add_right _ _) (h room hroom)

theorem Fits.upTo_eq {room? : Option Nat} {bytes : List UInt8} (h : Fits room? bytes) :
    upTo room? bytes = bytes := by
  cases room? with
  | none => rfl
  | some room => exact List.take_of_length_le (h room rfl)

theorem upTo_append_of_not_fits {room? : Option Nat} {before : List UInt8}
    (h : ¬Fits room? before) (after : List UInt8) :
    upTo room? (before ++ after) = upTo room? before := by
  cases room? with
  | none => exact absurd nofun h
  | some room =>
    have hroom : ¬before.length ≤ room := fun hle => h (by rintro _ ⟨⟩; exact hle)
    exact List.take_append_of_le_length (Nat.le_of_not_le hroom)

theorem writeAll_eq (sink : Sink) (pieces : List (List UInt8)) :
    sink.writeAll pieces = sink.write pieces.flatten := by
  induction pieces generalizing sink with
  | nil =>
    obtain ⟨_ | room, _, _, _⟩ := sink <;> simp [writeAll, write]
  | cons piece pieces ih =>
    rw [writeAll, List.flatten_cons]
    obtain ⟨_ | room, badFlush?, written, flushes⟩ := sink
    · simp [write, ih]
    · by_cases hfits : piece.length ≤ room - written.length
      · have hfree : room - (written.length + piece.length) =
            room - written.length - piece.length := by omega
        have hrest : pieces.flatten.length ≤ room - written.length - piece.length ↔
            piece.length + pieces.flatten.length ≤ room - written.length := by omega
        simp only [write, ih, hfits, decide_true, List.length_append, List.append_assoc,
          List.take_append, List.take_of_length_le hfits, hfree, hrest]
      · have htoo : ¬piece.length + pieces.flatten.length ≤ room - written.length := by omega
        simp only [write, hfits, htoo, decide_false, List.length_append,
          List.take_append_of_le_length (Nat.le_of_not_le hfits)]

theorem write_eq {room? : Option Nat} {before : List UInt8} (h : Fits room? before)
    (badFlush? : Option Nat) (flushes : Nat) (bytes : List UInt8) :
    (⟨room?, badFlush?, before, flushes⟩ : Sink).write bytes =
      (⟨room?, badFlush?, upTo room? (before ++ bytes), flushes⟩,
        decide (Fits room? (before ++ bytes))) := by
  cases room? with
  | none => simp [write, upTo, Fits]
  | some room =>
    have hbefore : before.length ≤ room := h room rfl
    have hfits : bytes.length ≤ room - before.length ↔ Fits (some room) (before ++ bytes) := by
      simp only [Fits, Option.mem_some_iff, forall_eq', List.length_append]
      omega
    simp only [write, upTo, Option.elim_some, List.take_append, List.take_of_length_le hbefore,
      hfits]

end Sink

namespace Printer

open Sink

def line (value : Value) : List UInt8 := (value.text ++ "\n").toUTF8.toList

def lines (vs : List Value) : List UInt8 := vs.flatMap line

/-- How many of `n` values are tried, if none is too long: not those after the flush that fails. -/
def reached (badFlush? : Option Nat) (n : Nat) : Nat := badFlush?.elim n (min n)

/-- What is known of a printer after the first `n` of some values. It has written the first bytes of
the lines before the flush that fails, as many as there is room for, and flushed after each line
that was complete. -/
structure Exact (room? badFlush? : Option Nat) (vs : List Value) (n : Nat) (p : Printer) :
    Prop where
  limits : p.sink.room? = room? ∧ p.sink.badFlush? = badFlush?
  written : p.sink.written = upTo room? (lines (vs.take (reached badFlush? n)))
  flushes : p.sink.flushes =
    (List.range (reached badFlush? n)).countP fun i => Fits room? (lines (vs.take (i + 1)))
  failed : p.failed = true ↔ ¬Fits room? (lines (vs.take n)) ∨ ∃ k ∈ badFlush?, k ≤ n

theorem flatten_pieces (value : Value) : (pieces value).flatten = line value := by
  unfold pieces line
  rw [Text.toList_toUTF8, Text.toList_toUTF8, Text.toList_toUTF8]
  simp [Text.utf8]

theorem lines_eq_valueLines (vs : List Value) : lines vs = (valueLines vs).toUTF8.toList := by
  rw [Text.toList_toUTF8]
  induction vs with
  | nil => rfl
  | cons v vs ih =>
    have hlines : (valueLines (v :: vs)).toList =
        (v.text ++ "\n").toList ++ (valueLines vs).toList := by
      simp [valueLines]
    rw [hlines, Text.utf8, List.flatMap_append, lines, List.flatMap_cons, line, Text.toList_toUTF8]
    exact congrArg (Text.utf8 (v.text ++ "\n").toList ++ ·) ih

theorem lines_take_succ {vs : List Value} {n : Nat} {v : Value} (hv : vs[n]? = some v) :
    lines (vs.take (n + 1)) = lines (vs.take n) ++ line v := by
  rw [List.take_add_one, hv]
  simp [lines]

theorem fits_take {room? : Option Nat} {vs : List Value} {m n : Nat} (hmn : m ≤ n)
    (h : Fits room? (lines (vs.take n))) : Fits room? (lines (vs.take m)) := by
  obtain ⟨rest, hrest⟩ := List.take_prefix_take_left hmn (l := vs)
  rw [← hrest, lines, List.flatMap_append] at h
  exact h.of_append

theorem reached_eq {badFlush? : Option Nat} {n : Nat} (h : ∀ k ∈ badFlush?, n ≤ k) :
    reached badFlush? n = n := by
  cases badFlush? with
  | none => rfl
  | some k => exact Nat.min_eq_left (h k rfl)

namespace Exact

variable {room? badFlush? : Option Nat} {vs : List Value} {n : Nat} {p : Printer}

theorem fresh (room? badFlush? : Option Nat) (hbad : badFlush? ≠ some 0) (vs : List Value) :
    Exact room? badFlush? vs 0 ⟨.fresh room? badFlush?, false⟩ := by
  have hnone : reached badFlush? 0 = 0 := reached_eq fun k _ => Nat.zero_le k
  have hfits : Fits room? (lines (vs.take 0)) := fun room _ => Nat.zero_le room
  refine ⟨⟨rfl, rfl⟩, ?_, ?_, ?_⟩
  · rw [hnone, hfits.upTo_eq]
    rfl
  · rw [hnone]
    rfl
  · refine iff_of_false Bool.false_ne_true ?_
    rintro (hnot | ⟨k, hk, hle⟩)
    · exact hnot hfits
    · obtain rfl := Nat.le_zero.1 hle
      exact hbad hk

variable (h : Exact room? badFlush? vs n p)
include h

/-- A printer that has not failed has written all lines so far, and flushed after each of them. -/
theorem of_not_failed (hp : p.failed = false) :
    p = ⟨⟨room?, badFlush?, lines (vs.take n), n⟩, false⟩ ∧ Fits room? (lines (vs.take n)) ∧
      ∀ k ∈ badFlush?, n < k := by
  have hlive := mt h.failed.2 (by rw [hp]; exact Bool.false_ne_true)
  have hfits : Fits room? (lines (vs.take n)) := Classical.not_not.1 fun c => hlive (.inl c)
  have hbad (k : Nat) (hk : k ∈ badFlush?) : n < k :=
    Nat.lt_of_not_le fun hle => hlive (.inr ⟨k, hk, hle⟩)
  have hreached : reached badFlush? n = n := reached_eq fun k hk => Nat.le_of_lt (hbad k hk)
  have hwritten := h.written
  have hflushes := h.flushes
  rw [hreached, hfits.upTo_eq] at hwritten
  rw [hreached, List.countP_eq_length.2, List.length_range] at hflushes
  · obtain ⟨⟨_, _, _, _⟩, _⟩ := p
    rw [Printer.mk.injEq, Sink.mk.injEq]
    exact ⟨⟨⟨h.limits.1, h.limits.2, hwritten, hflushes⟩, hp⟩, hfits, hbad⟩
  · intro i hi
    exact decide_eq_true (fits_take (List.mem_range.1 hi) hfits)

theorem print_of_failed (hp : p.failed = true) {v : Value} (hv : vs[n]? = some v) :
    Exact room? badFlush? vs (n + 1) p := by
  rcases Classical.em (∃ k ∈ badFlush?, k ≤ n) with ⟨k, rfl, hk⟩ | hlater
  · have hreached : reached (some k) (n + 1) = reached (some k) n := by
      simp only [reached, Option.elim_some]
      omega
    refine ⟨h.limits, ?_, ?_, ?_⟩
    · rw [hreached]
      exact h.written
    · rw [hreached]
      exact h.flushes
    · exact iff_of_true hp (.inr ⟨k, rfl, Nat.le_succ_of_le hk⟩)
  · have hfits : ¬Fits room? (lines (vs.take n)) := (h.failed.1 hp).resolve_right hlater
    have hnext : ¬Fits room? (lines (vs.take (n + 1))) := mt (fits_take (Nat.le_succ n)) hfits
    have hbad (k : Nat) (hk : k ∈ badFlush?) : n < k :=
      Nat.lt_of_not_le fun hle => hlater ⟨k, hk, hle⟩
    have hbefore : reached badFlush? n = n := reached_eq fun k hk => Nat.le_of_lt (hbad k hk)
    have hafter : reached badFlush? (n + 1) = n + 1 := reached_eq hbad
    refine ⟨h.limits, ?_, ?_, ?_⟩
    · rw [hafter, lines_take_succ hv, upTo_append_of_not_fits hfits, h.written, hbefore]
    · rw [hafter, List.range_succ, List.countP_append, h.flushes, hbefore]
      simp [hnext]
    · exact iff_of_true hp (.inl hnext)

theorem print {v : Value} (hv : vs[n]? = some v) :
    Exact room? badFlush? vs (n + 1) (p.print v) := by
  cases hp : p.failed with
  | true =>
    rw [Printer.print, if_pos hp]
    exact h.print_of_failed hp hv
  | false =>
    have hflushes := h.flushes
    obtain ⟨rfl, hfits, hbad⟩ := h.of_not_failed hp
    have hbefore : reached badFlush? n = n := reached_eq fun k hk => Nat.le_of_lt (hbad k hk)
    have hafter : reached badFlush? (n + 1) = n + 1 := reached_eq hbad
    rw [hbefore] at hflushes
    rw [Printer.print, if_neg Bool.false_ne_true, writeAll_eq, flatten_pieces, write_eq hfits,
      ← lines_take_succ hv]
    by_cases hnext : Fits room? (lines (vs.take (n + 1)))
    · simp only [hnext, decide_true, flush]
      refine ⟨⟨rfl, rfl⟩, ?_, ?_, ?_⟩
      · rw [hafter]
      · rw [hafter, List.range_succ, List.countP_append, ← hflushes]
        simp [hnext]
      · have hlast : (∃ k ∈ badFlush?, k ≤ n + 1) ↔ badFlush? = some (n + 1) := by
          constructor
          · rintro ⟨k, hk, hle⟩
            rwa [Nat.le_antisymm hle (hbad k hk)] at hk
          · exact fun hk => ⟨n + 1, hk, Nat.le_refl _⟩
        rw [hlast]
        simp [hnext]
    · simp only [hnext, decide_false]
      refine ⟨⟨rfl, rfl⟩, ?_, ?_, ?_⟩
      · rw [hafter]
      · rw [hafter, List.range_succ, List.countP_append, ← hflushes]
        simp [hnext]
      · exact iff_of_true rfl (.inl hnext)

end Exact

theorem printAll_succ {p q : Printer} {vs : List Value} {n : Nat} {v : Value}
    (hq : (p :: p.printAll vs)[n]? = some q) (hv : vs[n]? = some v) :
    (p :: p.printAll vs)[n + 1]? = some (q.print v) := by
  induction vs generalizing p n with
  | nil => exact nomatch hv
  | cons w vs ih =>
    cases n with
    | zero =>
      cases hq
      cases hv
      rfl
    | succ n => exact ih hq hv

theorem print_of_failed {p : Printer} (h : p.failed = true) (v : Value) : p.print v = p :=
  if_pos h

/-- **Printing until a failure.** Whatever room there is and whichever flush fails, a printer has
written exactly the first bytes of the lines, flushed once after each complete one, and failed with
the line that did not fit or the flush that failed. From then on it writes nothing and does not
flush. The lines are those of a script or of the prompt, for which no output fails. -/
theorem printAll_exact (room? badFlush? : Option Nat) (hbad : badFlush? ≠ some 0)
    (vs : List Value) :
    let start : Printer := ⟨.fresh room? badFlush?, false⟩
    (∀ n ≤ vs.length, ∃ p, (start :: start.printAll vs)[n]? = some p ∧
        Exact room? badFlush? vs n p) ∧
      (∀ m n p, m ≤ n → n ≤ vs.length → (start :: start.printAll vs)[m]? = some p →
        p.failed = true → (start :: start.printAll vs)[n]? = some p) ∧
      lines vs = (valueLines vs).toUTF8.toList := by
  intro start
  refine ⟨?_, ?_, lines_eq_valueLines vs⟩
  · intro n
    induction n with
    | zero => exact fun _ => ⟨start, rfl, .fresh room? badFlush? hbad vs⟩
    | succ n ih =>
      intro hn
      have hv := List.getElem?_eq_getElem hn
      obtain ⟨p, hp, hexact⟩ := ih (Nat.le_of_succ_le hn)
      exact ⟨p.print vs[n], printAll_succ hp hv, hexact.print hv⟩
  · intro m n p hmn
    induction hmn with
    | refl => exact fun _ hp _ => hp
    | @step n _ ih =>
      intro hn hp hfailed
      have hv := List.getElem?_eq_getElem hn
      rw [printAll_succ (ih (Nat.le_of_succ_le hn) hp hfailed) hv, print_of_failed hfailed]

/-- There is room for a line and two bytes of the next, and no more is written. -/
theorem printAll_exact_partial :
    some 3 ≠ some 0 ∧
      let start : Printer := ⟨.fresh (some 7) (some 3), false⟩
      let printers := start :: start.printAll [.bool true, .bool false, .nil]
      ∃ p, printers[2]? = some p ∧ p.sink.written = "true\nfa".toUTF8.toList ∧
        p.sink.flushes = 1 ∧ p.failed = true ∧ printers[3]? = some p := by
  refine ⟨by decide, ?_⟩
  intro start printers
  obtain ⟨hexact, hstays, -⟩ :=
    printAll_exact (some 7) (some 3) (by decide) [.bool true, .bool false, .nil]
  obtain ⟨p, hp, hp'⟩ := hexact 2 (by decide)
  have hone : lines [.bool true] = "true\n".toUTF8.toList := by
    simp only [lines, List.flatMap_cons, List.flatMap_nil, line, Text.toList_toUTF8]
    decide
  have htwo : lines [.bool true, .bool false] = "true\nfalse\n".toUTF8.toList := by
    simp only [lines, List.flatMap_cons, List.flatMap_nil, line, Text.toList_toUTF8]
    decide
  have hfits : Fits (some 7) (lines [.bool true]) := by
    rw [hone, Text.toList_toUTF8]
    decide
  have hnot : ¬Fits (some 7) (lines [.bool true, .bool false]) := by
    rw [htwo, Text.toList_toUTF8]
    decide
  have hfailed : p.failed = true := hp'.failed.2 (.inl hnot)
  refine ⟨p, hp, ?_, ?_, hfailed, hstays 2 3 p (by decide) (by decide) hp hfailed⟩
  · rw [hp'.written]
    show upTo (some 7) (lines [.bool true, .bool false]) = _
    rw [htwo, Text.toList_toUTF8, Text.toList_toUTF8]
    decide
  · rw [hp'.flushes]
    show [0, 1].countP _ = 1
    simp [hfits, hnot]

end Printer

end MiniLisp
