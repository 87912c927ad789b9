import MiniLisp.Command.Folder
import MiniLisp.Text.Lines

/-!
# Bytes of texts

A text comes in as bytes and is cut into lines before it is decoded. The lines are those of the
text, since the byte of a line feed stands for nothing else.

* `Text.utf8` : the bytes of characters;
* `Text.inclusiveLines_utf8` : the lines of the bytes are the bytes of the lines;
* `Entry.decode_utf8` : bytes of characters are decoded to them.
-/

namespace MiniLisp

namespace Text

def utf8 (text : List Char) : List UInt8 := text.flatMap String.utf8EncodeChar

theorem toList_loop_eq (bytes : ByteArray) (i : Nat) (before : List UInt8) :
    ByteArray.toList.loop bytes i before = before.reverse ++ bytes.data.toList.drop i := by
  induction i, before using ByteArray.toList.loop.induct bytes with
  | case1 i before h ih =>
    have hlt : i < bytes.data.toList.length := by simpa using h
    have hget : bytes.get! i = bytes.data.toList[i] := getElem!_pos bytes.data i h
    rw [ByteArray.toList.loop, if_pos h, ih, List.drop_eq_getElem_cons hlt, hget]
    simp
  | case2 i before h =>
    have hle : bytes.data.toList.length ≤ i := by simpa using h
    rw [ByteArray.toList.loop, if_neg h]
    simp [List.drop_eq_nil_of_le hle]

theorem toUTF8_ofList (text : List Char) :
    (String.ofList text).toUTF8 = ⟨(utf8 text).toArray⟩ := by
  show (String.ofList text).toByteArray = _
  rw [String.toByteArray_ofList]
  apply ByteArray.ext
  simp [List.utf8Encode, List.data_toByteArray, utf8]

theorem toList_toUTF8 (text : String) : text.toUTF8.toList = utf8 text.toList := by
  obtain ⟨chars, rfl⟩ : ∃ chars, text = String.ofList chars := ⟨text.toList, by simp⟩
  rw [toUTF8_ofList, ByteArray.toList, toList_loop_eq]
  simp

theorem mem_utf8EncodeChar (c : Char) : 10 ∈ String.utf8EncodeChar c ↔ c = '\n' := by
  have hc : c = '\n' ↔ c.val.toNat = 10 := by
    rw [Char.ext_iff, ← UInt32.toNat_inj]
    rfl
  have hbyte (n : Nat) : 10 = UInt8.ofNat n ↔ n % 256 = 10 := by
    rw [← UInt8.toNat_inj, UInt8.toNat_ofNat]
    exact eq_comm
  rw [hc]
  unfold String.utf8EncodeChar
  dsimp only
  split
  · simp only [List.mem_singleton, hbyte]
    omega
  · split
    · simp only [List.mem_cons, List.not_mem_nil, or_false, hbyte]
      omega
    · split <;> simp only [List.mem_cons, List.not_mem_nil, or_false, hbyte] <;> omega

theorem utf8EncodeChar_ne_nil (c : Char) : String.utf8EncodeChar c ≠ [] := by
  unfold String.utf8EncodeChar
  dsimp only
  split
  · simp
  · split
    · simp
    · split <;> simp

theorem inclusiveLines_append {α : Type} [DecidableEq α] {stop : α} {xs : List α} (ys : List α)
    (hne : xs ≠ []) (hxs : stop ∉ xs) :
    inclusiveLines stop (xs ++ ys) =
      match inclusiveLines stop ys with
      | [] => [xs]
      | line :: more => (xs ++ line) :: more := by
  induction xs with
  | nil => exact absurd rfl hne
  | cons x xs ih =>
    have hx : x ≠ stop := fun h => hxs (by simp [h])
    rw [List.cons_append, inclusiveLines, if_neg hx]
    by_cases hnil : xs = []
    · subst hnil
      rfl
    · rw [ih hnil fun h => hxs (List.mem_cons_of_mem _ h)]
      cases inclusiveLines stop ys <;> rfl

/-- **The lines of the bytes are the bytes of the lines.** -/
theorem inclusiveLines_utf8 (text : List Char) :
    inclusiveLines 10 (utf8 text) = (inclusiveLines '\n' text).map utf8 := by
  induction text with
  | nil => rfl
  | cons c text ih =>
    have hcons : utf8 (c :: text) = String.utf8EncodeChar c ++ utf8 text := by simp [utf8]
    rw [hcons]
    by_cases hc : c = '\n'
    · subst hc
      show inclusiveLines 10 (10 :: utf8 text) = _
      rw [inclusiveLines, if_pos rfl, ih, inclusiveLines, if_pos rfl]
      rfl
    · have hbytes : 10 ∉ String.utf8EncodeChar c := fun h => hc ((mem_utf8EncodeChar c).1 h)
      rw [inclusiveLines_append _ (utf8EncodeChar_ne_nil c) hbytes, ih]
      rw [inclusiveLines, if_neg hc]
      cases inclusiveLines '\n' text with
      | nil => simp [utf8]
      | cons line more => simp [utf8]

end Text

theorem Entry.decode_utf8 (text : List Char) :
    decode ⟨(Text.utf8 text).toArray⟩ = .ok (String.ofList text) := by
  have hvalid : (String.ofList text).toUTF8.IsValidUTF8 := (String.ofList text).isValidUTF8
  rw [← Text.toUTF8_ofList]
  unfold decode String.fromUTF8?
  rw [dif_pos hvalid]
  rfl

end MiniLisp
