import Cuac.Lib.Fields
import Cuac.Lib.Overflow

/-!
# Positions in a text

A `std::string` that is read by position. `compare` and `substr` throw past the
end; here a position is held to the text, so that a computation that goes past it
stops. `find` may start anywhere.

Main results:

* `comparesEqual_ok`, `substr_ok` — a position inside the text goes on.
* `find_eq_none`, `find_eq_some` — a byte is found at its first place.
-/

namespace Cuac.Lib

open Watched

/-- A position of a text, its end included. -/
def position (text : Bytes) (n : Int) : Watched Nat := do
  let n ← within 0 text.length n
  pure n.toNat

/-- `text.compare(n, start.size(), start) == 0` -/
def comparesEqual (text : Bytes) (n : Int) (start : Bytes) : Watched Bool := do
  let n ← position text n
  pure ((text.drop n).take start.length == start)

/-- `text.substr(n, count)` -/
def substr (text : Bytes) (n count : Int) : Watched Bytes := do
  let n ← position text n
  let count ← position text count
  pure ((text.drop n).take count)

/-- `text.find(b, n)`; `npos` is `none`. -/
def find (text : Bytes) (b : UInt8) (n : Nat) : Option Nat :=
  ((text.drop n).idxOf? b).map (n + ·)

variable {text : Bytes}

theorem position_ok {n : Nat} (h : n ≤ text.length) : position text n = .ok n := by
  rw [position, within, if_pos (by omega), ok_bind, Int.toNat_natCast]
  rfl

theorem comparesEqual_ok {n : Nat} (h : n ≤ text.length) (start : Bytes) :
    comparesEqual text n start = .ok (start.isPrefixOf (text.drop n)) := by
  rw [comparesEqual, position_ok h, ok_bind, pure_eq_ok, Bool.eq_iff_iff, beq_iff_eq,
    List.isPrefixOf_iff_prefix, List.prefix_iff_eq_take]
  exact eq_comm

theorem substr_ok {n count : Nat} (h : n + count ≤ text.length) :
    substr text n count = .ok ((text.drop n).take count) := by
  rw [substr, position_ok (by omega), ok_bind, position_ok (by omega), ok_bind]
  rfl

theorem find_eq_none {b : UInt8} {n : Nat} : find text b n = none ↔ b ∉ text.drop n := by
  rw [find, Option.map_eq_none_iff, List.idxOf?_eq_none_iff]

theorem idxOf?_append_cons {b : UInt8} {front : Bytes} (hfront : b ∉ front) (rest : Bytes) :
    (front ++ b :: rest).idxOf? b = some front.length := by
  induction front with
  | nil => simp [List.idxOf?_cons]
  | cons c front ih =>
    rw [List.mem_cons, not_or] at hfront
    rw [List.cons_append, List.idxOf?_cons, beq_eq_false_iff_ne.mpr (Ne.symm hfront.1),
      ih hfront.2]
    rfl

/-- What is found is what the text has first. -/
theorem find_eq_some {b : UInt8} {n : Nat} {front rest : Bytes}
    (h : text.drop n = front ++ b :: rest) (hfront : b ∉ front) :
    find text b n = some (n + front.length) := by
  rw [find, h, idxOf?_append_cons hfront, Option.map_some]

end Cuac.Lib
