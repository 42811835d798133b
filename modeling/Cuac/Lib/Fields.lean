import Cuac.Lib.Decimal

/-!
# Texts that are cut at fixed places

`byteAt` and `field` are `value[index]` and `value.substr(start, count)` where the
places lie inside the text. A text is put together again from its fields and the
bytes between them.

Main results:

* `drop_eq_field_append` — a field, the byte after it and the rest.
* `drop_append_length`, `field_of_drop` — what follows a part that was found, and
  the part itself.
* `drop_eq_append`, `drop_eq_cons` — a text from what stands at its places.
-/

namespace Cuac.Lib

/-- `value[index]`, below the length that was checked. -/
def byteAt (value : Bytes) (index : Nat) : UInt8 := value.getD index 0

/-- The `count` bytes from `start` on. -/
def field (text : Bytes) (start count : Nat) : Bytes := (text.drop start).take count

/-- A field that lies in the text has the length that was asked for. -/
theorem length_field {text : Bytes} {start count : Nat} (h : start + count ≤ text.length) :
    (field text start count).length = count := by
  rw [field, List.length_take, List.length_drop]
  omega

theorem byteAt_eq {text : Bytes} {index : Nat} (h : index < text.length) :
    byteAt text index = text.get ⟨index, h⟩ := by
  simp [byteAt, List.getD, List.getElem?_eq_getElem h]

/-- The text from an index on starts with the byte at the index. -/
theorem drop_eq_byteAt_cons {text : Bytes} {index : Nat} (h : index < text.length) :
    text.drop index = byteAt text index :: text.drop (index + 1) := by
  rw [byteAt_eq h, List.drop_eq_getElem_cons h]
  rfl

/-- A field, the byte after it and the rest. -/
theorem drop_eq_field_append {text : Bytes} {start count : Nat} (h : start + count < text.length) :
    text.drop start =
      field text start count ++ byteAt text (start + count) :: text.drop (start + count + 1) := by
  rw [← drop_eq_byteAt_cons h, field, ← List.drop_drop, List.take_append_drop]

/-- A field is its first byte and the field behind it. -/
theorem field_succ {text : Bytes} {start count : Nat} (h : start < text.length) :
    field text start (count + 1) = byteAt text start :: field text (start + 1) count := by
  rw [field, drop_eq_byteAt_cons h, List.take_succ_cons, field]

/-- A field is made of digits when the byte at each of its indices is one. -/
theorem isDigit_field {text : Bytes} {start count : Nat} (h : start + count ≤ text.length)
    (hdigits : ∀ index, start ≤ index → index < start + count → isDigit (byteAt text index) =
      true) :
    ∀ b ∈ field text start count, isDigit b = true := by
  induction count generalizing start with
  | zero =>
    intro b hb
    simp [field] at hb
  | succ count ih =>
    intro b hb
    rw [field_succ (by omega)] at hb
    rcases List.mem_cons.mp hb with rfl | hb
    · exact hdigits start (by omega) (by omega)
    · exact ih (by omega) (fun index hlow hhigh => hdigits index (by omega) (by omega)) b hb

/-- Behind what was found comes the rest. -/
theorem drop_append_length {text : Bytes} {start : Nat} {found rest : Bytes}
    (h : text.drop start = found ++ rest) : text.drop (start + found.length) = rest := by
  rw [← List.drop_drop, h, List.drop_left]

/-- What stands at an index is the field of its length there. -/
theorem field_of_drop {text : Bytes} {start : Nat} {found rest : Bytes}
    (h : text.drop start = found ++ rest) : field text start found.length = found := by
  rw [field, h, List.take_left]

/-- What is found at an index ends within the text. -/
theorem length_of_drop {text : Bytes} {start : Nat} {found rest : Bytes}
    (h : text.drop start = found ++ rest) (hfound : found ≠ []) :
    start + found.length ≤ text.length := by
  have hlength := congrArg List.length h
  have hpos := List.length_pos_iff.mpr hfound
  rw [List.length_drop, List.length_append] at hlength
  omega

/-- The other way: a text from what stands at its places. -/
theorem drop_eq_append {text found rest : Bytes} {start count : Nat}
    (hfound : field text start count = found) (hrest : text.drop (start + count) = rest) :
    text.drop start = found ++ rest := by
  rw [← hfound, ← hrest, field, ← List.drop_drop, List.take_append_drop]

/-- A text can be read off from an index byte by byte. -/
theorem drop_eq_cons {text rest : Bytes} {start : Nat} {b : UInt8} (h : start < text.length)
    (hbyte : byteAt text start = b) (hrest : text.drop (start + 1) = rest) :
    text.drop start = b :: rest := by
  rw [drop_eq_byteAt_cons h, hbyte, hrest]

/-- A field that reaches the end of the text is all that is left of it. -/
theorem drop_eq_field {text found : Bytes} {start count : Nat} (h : text.length ≤ start + count)
    (hfound : field text start count = found) : text.drop start = found := by
  rw [← hfound, field, List.take_of_length_le]
  rw [List.length_drop]
  omega

/-- The bytes at and behind an index can be counted from there. -/
theorem byteAt_add (text : Bytes) (start index : Nat) :
    byteAt text (start + index) = byteAt (text.drop start) index := by
  simp [byteAt, List.getD]

/-- The fields at and behind an index can be counted from there. -/
theorem field_add (text : Bytes) (start index count : Nat) :
    field text (start + index) count = field (text.drop start) index count := by
  rw [field, field, List.drop_drop]

end Cuac.Lib
