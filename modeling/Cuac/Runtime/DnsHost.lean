import Mathlib.Data.FinEnum
import Cuac.Lib.Grammar
import Cuac.Lib.Overflow

/-!
# Runtime — DNS hosts

`IsSafeDnsHost`: names a request may be sent to, and no numeric address in
whichever of the spellings a resolver takes. The arithmetic of a component is
watched.

Main results:

* `tryParseIpv4Component_eq` — a component is a numeral within its maximum.
* `isIpv4Literal_eq` — an address is one to four numerals.
* `safe_dns_host` — which hosts are safe.
-/

namespace Cuac.Runtime.DnsHost

open Cuac.Lib
open Cuac.Lib.Watched
open Computability

-- ---------------------------------------------------------------------------
-- The source
-- ---------------------------------------------------------------------------

def digitValue (b : UInt8) : Option Nat :=
  if byte '0' ≤ b && b ≤ byte '9' then some (b.toNat - (byte '0').toNat)
  else if byte 'a' ≤ b && b ≤ byte 'f' then some (b.toNat - (byte 'a').toNat + 10)
  else if byte 'A' ≤ b && b ≤ byte 'F' then some (b.toNat - (byte 'A').toNat + 10)
  else none

/-- The loop over the digits of a component. -/
def parseDigits (base maximum : Int) (bounded : Bool) : Bytes → Int → Watched Unit
  | [], _ => .ok ()
  | character :: rest, value => do
    let digit ← ofOption (digitValue character)
    refuseIf (decide ((digit : Int) ≥ base))
    if bounded then do
      let room ← uint64s [maximum - digit, (maximum - digit) / base]
      refuseIf (decide (value > room))
      let value ← uint64s [value * base, value * base + digit]
      parseDigits base maximum bounded rest value
    else parseDigits base maximum bounded rest value

/-- The base and the digits of a component. -/
def componentDigits (component : Bytes) : Nat × Bytes :=
  match component with
  | first :: second :: rest =>
    if first == byte '0' then
      if second == byte 'x' || second == byte 'X' then (16, rest) else (8, second :: rest)
    else (10, component)
  | _ => (10, component)

def tryParseIpv4Component (component : Bytes) (maximum : Int) (bounded : Bool) : Watched Unit :=
  if (componentDigits component).2.isEmpty then .error .refused
  else parseDigits (componentDigits component).1 maximum bounded (componentDigits component).2 0

def finalMaximum (componentCount : Nat) : Int :=
  ([0, 0xFFFFFFFF, 0xFFFFFF, 0xFFFF, 0xFF] : List Int).getD componentCount 0

/-- The loop over the components, from the one at `component` on. -/
def parseComponents (componentCount : Nat) : Nat → List Bytes → Watched Unit
  | _, [] => .ok ()
  | component, text :: rest => do
    let maximum := if component + 1 == componentCount then finalMaximum componentCount else 0xFF
    tryParseIpv4Component text maximum (componentCount != 1)
    parseComponents componentCount (component + 1) rest

def isIpv4Literal (host : Bytes) : Watched Unit :=
  if 4 < (host.splitOn (byte '.')).length then .error .refused
  else parseComponents (host.splitOn (byte '.')).length 0 (host.splitOn (byte '.'))

def isLabelCharacter (b : UInt8) : Bool :=
  (byte 'a' ≤ b && b ≤ byte 'z') || (byte '0' ≤ b && b ≤ byte '9') || b == byte '-'

def isLabel (label : Bytes) : Bool :=
  label.all isLabelCharacter && !(label.length == 0 || 63 < label.length ||
    label.head? == some (byte '-') || label.getLast? == some (byte '-'))

def isSafeDnsHost (host : Bytes) : Watched Bool :=
  if host.isEmpty || 253 < host.length || host.getLast? == some (byte '.') then .ok false
  else
    match isIpv4Literal host with
    | .ok () => .ok false
    | .error .overflow => .error .overflow
    | .error .refused => .ok ((host.splitOn (byte '.')).all isLabel)

-- ---------------------------------------------------------------------------
-- Names and addresses
-- ---------------------------------------------------------------------------

/-- A letter or a digit. -/
def letDig : Language UInt8 :=
  oneOf fun b => (byte 'a' ≤ b && b ≤ byte 'z') || (byte '0' ≤ b && b ≤ byte '9')

/-- A hyphen only between other characters. -/
def label : Language UInt8 :=
  letDig * optional ((letDig + sym (byte '-'))∗ * letDig)

def shortLabel : Language UInt8 := {word ∈ label | word.length ≤ 63}

def dnsName : Language UInt8 := shortLabel * (sym (byte '.') * shortLabel)∗

/-- The number that digits of a base write. -/
def numberIn (base : Nat) (digits : Bytes) : Nat :=
  digits.foldl (fun seen b => seen * base + (digitValue b).getD 0) 0

/-- Some digits, each below the base. -/
def DigitsIn (base : Nat) (digits : Bytes) : Prop :=
  digits ≠ [] ∧ ∀ b ∈ digits, ∃ digit, digitValue b = some digit ∧ digit < base

/-- A component as C writes integers. -/
inductive Numeral : Bytes → Nat → Prop
  | decimal {digits : Bytes} (h : DigitsIn 10 digits)
    (hlead : digits.length = 1 ∨ digits.head? ≠ some (byte '0')) :
    Numeral digits (numberIn 10 digits)
  | octal {digits : Bytes} (h : DigitsIn 8 digits) :
    Numeral (byte '0' :: digits) (numberIn 8 digits)
  | hexadecimal {digits : Bytes} {x : UInt8} (hx : x = byte 'x' ∨ x = byte 'X')
    (h : DigitsIn 16 digits) : Numeral (byte '0' :: x :: digits) (numberIn 16 digits)

/-- One to four numerals with points between them. All but the last are bytes, and the
last fills the bytes that remain; a single one may be of any magnitude. -/
def IsAddress (host : Bytes) : Prop :=
  (∃ number, Numeral host number) ∨
    ∃ (front : List Bytes) (last : Bytes) (number : Nat), host =
    [byte '.'].intercalate (front ++ [last]) ∧
      front ≠ [] ∧ front.length ≤ 3 ∧ (∀ component ∈ front, ∃ number ≤ 255,
      Numeral component number) ∧
      Numeral last number ∧ number < 256 ^ (4 - front.length)

-- ---------------------------------------------------------------------------
-- Components
-- ---------------------------------------------------------------------------

theorem digitValue_lt {b : UInt8} {digit : Nat} (h : digitValue b = some digit) : digit < 16 := by
  have hall : ∀ b : UInt8, ∀ digit ∈ digitValue b, digit < 16 := forall_byte (by decide)
  exact hall b digit h

theorem le_numberFrom (base : Nat) (hbase : 1 ≤ base) (seen : Nat) (digits : Bytes) :
    seen ≤ digits.foldl (fun seen b => seen * base + (digitValue b).getD 0) seen := by
  induction digits generalizing seen with
  | nil => exact Nat.le_refl seen
  | cons b digits ih =>
    have hstep : seen ≤ seen * base + (digitValue b).getD 0 :=
      Nat.le_trans (Nat.le_mul_of_pos_right seen hbase) (Nat.le_add_right _ _)
    exact Nat.le_trans hstep (ih _)

/-- The loop refuses exactly what is no number of the base within the maximum. -/
theorem parseDigits_bounded {base maximum : Nat} (hbase : 1 ≤ base)
    (hlow : 16 ≤ maximum) (hhigh : maximum ≤ 0xFFFFFFFF) {seen : Nat} (hseen : seen ≤ maximum)
    (digits : Bytes) :
    parseDigits base maximum true digits seen =
      if (∀ b ∈ digits, ∃ digit, digitValue b = some digit ∧ digit < base) ∧
          digits.foldl (fun seen b => seen * base + (digitValue b).getD 0) seen ≤ maximum then
        .ok ()
      else .error .refused := by
  induction digits generalizing seen with
  | nil =>
    rw [if_pos ⟨by simp, hseen⟩]
    rfl
  | cons b digits ih =>
    rw [parseDigits, List.foldl_cons]
    match hdigit : digitValue b with
    | none =>
      rw [if_neg]
      · rfl
      · rintro ⟨hall, -⟩
        obtain ⟨digit, heq, -⟩ := hall b List.mem_cons_self
        rw [hdigit] at heq
        cases heq
    | some digit =>
      have hdigitLess := digitValue_lt hdigit
      rw [ofOption, ok_bind, Option.getD_some]
      by_cases hbelow : digit < base
      swap
      · rw [decide_eq_true (by omega)]
        refine (if_neg ?_).symm
        rintro ⟨hall, -⟩
        obtain ⟨other, heq, hless⟩ := hall b List.mem_cons_self
        rw [hdigit] at heq
        obtain rfl := Option.some.inj heq
        exact hbelow hless
      have hfit : seen ≤ (maximum - digit) / base ↔ seen * base + digit ≤ maximum := by
        rw [Nat.le_div_iff_mul_le hbase]
        omega
      have hroom : ((maximum : Int) - digit) / base = ((maximum - digit) / base : Nat) := by
        rw [← Int.ofNat_sub (by omega)]
        rfl
      have hless : (maximum - digit) / base ≤ maximum - digit := Nat.div_le_self _ _
      generalize (maximum - digit) / base = room at *
      rw [decide_eq_false (by omega), refuseIf_false, ok_bind, if_pos rfl, hroom, uint64s_ok (by
        simp only [List.mem_cons, List.not_mem_nil, or_false, forall_eq_or_imp, forall_eq]
        omega), ok_bind]
      simp only [List.getLastD_cons, List.getLastD_nil]
      by_cases hover : seen ≤ room
      swap
      · -- The number is above the maximum already, and reading on does not make it smaller.
        have hgrows := le_numberFrom base hbase (seen * base + digit) digits
        rw [decide_eq_true (by omega)]
        refine (if_neg ?_).symm
        rintro ⟨-, hle⟩
        exact hover (hfit.mpr (Nat.le_trans hgrows hle))
      have hnext := hfit.mp hover
      have hcast : (seen : Int) * base + digit = ((seen * base + digit : Nat) : Int) := by
        push_cast
        rfl
      have hproduct : (seen : Int) * base = ((seen * base : Nat) : Int) := by
        push_cast
        rfl
      rw [decide_eq_false (by omega), refuseIf_false, ok_bind, uint64s_ok (by
        simp only [List.mem_cons, List.not_mem_nil, or_false, forall_eq_or_imp, forall_eq]
        rw [hcast, hproduct]
        omega), ok_bind]
      simp only [List.getLastD_cons, List.getLastD_nil]
      rw [hcast, ih hnext]
      simp only [List.forall_mem_cons, hdigit, Option.some.injEq, exists_eq_left', hbelow, true_and]

/-- Without a bound there is no arithmetic. -/
theorem parseDigits_unbounded {base : Nat} (maximum value : Int) (digits : Bytes) :
    parseDigits base maximum false digits value =
      if ∀ b ∈ digits, ∃ digit, digitValue b = some digit ∧ digit < base then .ok ()
      else .error .refused := by
  induction digits generalizing value with
  | nil =>
    rw [if_pos (by simp)]
    rfl
  | cons b digits ih =>
    rw [parseDigits]
    simp only [List.forall_mem_cons]
    match hdigit : digitValue b with
    | none =>
      rw [if_neg]
      · rfl
      · rintro ⟨⟨digit, heq, -⟩, -⟩
        cases heq
    | some digit =>
      rw [ofOption, ok_bind]
      by_cases hbelow : digit < base
      · rw [decide_eq_false (by omega), refuseIf_false, ok_bind, if_neg (by decide), ih]
        simp only [Option.some.injEq, exists_eq_left', hbelow, true_and]
      · rw [decide_eq_true (by omega)]
        refine (if_neg ?_).symm
        rintro ⟨⟨other, heq, hless⟩, -⟩
        obtain rfl := Option.some.inj heq
        exact hbelow hless

/-- What a component is read as, if it is a numeral. -/
theorem numeral_iff {component : Bytes} {number : Nat} :
    Numeral component number ↔
      DigitsIn (componentDigits component).1 (componentDigits component).2 ∧
        number = numberIn (componentDigits component).1 (componentDigits component).2 := by
  constructor
  · intro h
    cases h with
    | decimal h hlead =>
      have hdigits : componentDigits component = (10, component) := by
        match component, hlead with
        | [], _ => rfl
        | [_], _ => rfl
        | first :: second :: rest, hlead =>
          have hfirst : ¬(first == byte '0') = true := by
            rw [beq_iff_eq]
            rintro rfl
            rcases hlead with hlength | hhead
            · cases hlength
            · exact hhead rfl
          rw [componentDigits, if_neg hfirst]
      rw [hdigits]
      exact ⟨h, rfl⟩
    | @octal digits h =>
      match digits, h with
      | [], h => exact absurd rfl h.1
      | second :: rest, h =>
        have hx : ¬(second == byte 'x' || second == byte 'X') = true := by
          obtain ⟨digit, hdigit, hless⟩ := h.2 second List.mem_cons_self
          intro hx
          rw [Bool.or_eq_true, beq_iff_eq, beq_iff_eq] at hx
          rcases hx with rfl | rfl <;> exact absurd hdigit (by decide +revert)
        rw [componentDigits, if_pos (by rfl), if_neg hx]
        exact ⟨h, rfl⟩
    | @hexadecimal digits x hx h =>
      have hx : (x == byte 'x' || x == byte 'X') = true := by
        rw [Bool.or_eq_true, beq_iff_eq, beq_iff_eq]
        exact hx
      rw [componentDigits, if_pos (by rfl), if_pos hx]
      exact ⟨h, rfl⟩
  -- The leading characters alone decide the radix.
  · rintro ⟨h, rfl⟩
    match component with
    | [] => exact absurd rfl h.1
    | [single] => exact .decimal h (Or.inl rfl)
    | first :: second :: rest =>
      rw [componentDigits] at h ⊢
      split at h
      · rename_i hfirst
        rw [beq_iff_eq] at hfirst
        subst hfirst
        rw [if_pos (by rfl)]
        split at h
        · rename_i hx
          rw [if_pos hx]
          rw [Bool.or_eq_true, beq_iff_eq, beq_iff_eq] at hx
          exact .hexadecimal hx h
        · rename_i hx
          rw [if_neg hx]
          exact .octal h
      · rename_i hfirst
        rw [if_neg hfirst]
        refine .decimal h (Or.inr ?_)
        rw [List.head?_cons, ne_eq, Option.some.injEq]
        simpa using hfirst

theorem componentDigits_base (component : Bytes) : 1 ≤ (componentDigits component).1 := by
  unfold componentDigits
  split
  · split
    · split <;> exact Nat.succ_le_succ (Nat.zero_le _)
    · exact Nat.succ_le_succ (Nat.zero_le _)
  · exact Nat.succ_le_succ (Nat.zero_le _)

/-- A bounded component is a numeral within its maximum. -/
theorem decides_bounded {maximum : Nat} (hlow : 16 ≤ maximum) (hhigh : maximum ≤ 0xFFFFFFFF)
    (component : Bytes) :
    Decides (∃ number ≤ maximum, Numeral component number)
      (tryParseIpv4Component component maximum true) := by
  simp only [numeral_iff]
  rw [tryParseIpv4Component]
  have hbase := componentDigits_base component
  generalize componentDigits component = split at hbase
  obtain ⟨base, digits⟩ := split
  by_cases hempty : digits = []
  · rw [if_pos (List.isEmpty_iff.mpr hempty)]
    refine Or.inr ⟨rfl, ?_⟩
    rintro ⟨number, -, hdigits, -⟩
    exact hdigits.1 hempty
  · rw [if_neg (by rw [List.isEmpty_iff]; exact hempty)]
    have hparsed := @parseDigits_bounded base maximum hbase hlow hhigh 0 (Nat.zero_le _) digits
    by_cases hgood : (∀ b ∈ digits, ∃ digit, digitValue b = some digit ∧ digit < base) ∧
        numberIn base digits ≤ maximum
    · exact Or.inl ⟨hparsed.trans (if_pos hgood), _, hgood.2, ⟨hempty, hgood.1⟩, rfl⟩
    · refine Or.inr ⟨hparsed.trans (if_neg hgood), ?_⟩
      rintro ⟨_, hle, hdigits, rfl⟩
      exact hgood ⟨hdigits.2, hle⟩

theorem decides_unbounded (maximum : Int) (component : Bytes) :
    Decides (∃ number, Numeral component number)
      (tryParseIpv4Component component maximum false) := by
  simp only [numeral_iff]
  rw [tryParseIpv4Component]
  generalize componentDigits component = split
  obtain ⟨base, digits⟩ := split
  by_cases hempty : digits = []
  · rw [if_pos (List.isEmpty_iff.mpr hempty)]
    refine Or.inr ⟨rfl, ?_⟩
    rintro ⟨number, hdigits, -⟩
    exact hdigits.1 hempty
  · rw [if_neg (by rw [List.isEmpty_iff]; exact hempty), parseDigits_unbounded]
    by_cases hgood : ∀ b ∈ digits, ∃ digit, digitValue b = some digit ∧ digit < base
    · rw [if_pos hgood]
      exact Or.inl ⟨rfl, _, ⟨hempty, hgood⟩, rfl⟩
    · rw [if_neg hgood]
      refine Or.inr ⟨rfl, ?_⟩
      rintro ⟨_, hdigits, -⟩
      exact hgood hdigits.2

-- ---------------------------------------------------------------------------
-- Addresses
-- ---------------------------------------------------------------------------

/-- The components before the last one are bytes, and the last one has a maximum of its own. -/
theorem decides_components {count maximum : Nat} (hmany : count ≠ 1)
    (hfinal : finalMaximum count = maximum) (hlow : 16 ≤ maximum) (hhigh : maximum ≤ 0xFFFFFFFF)
    (front : List Bytes) (last : Bytes) {component : Nat}
    (hcount : component + front.length + 1 = count) :
    Decides ((∀ text ∈ front, ∃ number ≤ 255, Numeral text number) ∧
        ∃ number ≤ maximum, Numeral last number)
      (parseComponents count component (front ++ [last])) := by
  have hbounded : (count != 1) = true := by simpa using hmany
  induction front generalizing component with
  | nil =>
    have hlast : (component + 1 == count) = true := by
      rw [List.length_nil] at hcount
      rw [beq_iff_eq]
      omega
    rw [List.nil_append, parseComponents, hbounded]
    rw [if_pos hlast, hfinal]
    have hend : Decides True (parseComponents count (component + 1) []) := Or.inl ⟨rfl, trivial⟩
    refine ((decides_bounded hlow hhigh last).bind fun _ => hend).congr ?_
    simp
  | cons text front ih =>
    rw [List.length_cons] at hcount
    have hmiddle : ¬(component + 1 == count) = true := by
      rw [beq_iff_eq]
      omega
    rw [List.cons_append, parseComponents, hbounded]
    rw [if_neg hmiddle]
    have hrest := @ih (component + 1) (by omega)
    refine ((decides_bounded (by decide : 16 ≤ 255) (by decide) text).bind fun _ => hrest).congr ?_
    rw [List.forall_mem_cons, and_assoc]

/-- An address has no point but those between its numerals. -/
theorem point_not_mem {text : Bytes} {number : Nat} (h : Numeral text number) :
    byte '.' ∉ text := by
  have hdigits {base : Nat} {digits : Bytes} (h : DigitsIn base digits) : byte '.' ∉ digits := by
    intro hmem
    obtain ⟨digit, hdigit, -⟩ := h.2 _ hmem
    exact absurd hdigit (by decide +revert)
  cases h with
  | decimal h => exact hdigits h
  | octal h =>
    rw [List.mem_cons, not_or]
    exact ⟨by decide, hdigits h⟩
  | hexadecimal hx h =>
    rw [List.mem_cons, List.mem_cons, not_or, not_or]
    refine ⟨by decide, ?_, hdigits h⟩
    rcases hx with rfl | rfl <;> decide

theorem isAddress_iff {host : Bytes} :
    IsAddress host ↔ (∃ number, Numeral host number) ∨
      ∃ (front : List Bytes) (last : Bytes) (number : Nat),
        host.splitOn (byte '.') = front ++ [last] ∧ front ≠ [] ∧ front.length ≤ 3 ∧
        (∀ component ∈ front, ∃ number ≤ 255, Numeral component number) ∧
        Numeral last number ∧ number < 256 ^ (4 - front.length) := by
  refine or_congr Iff.rfl ?_
  constructor
  · rintro ⟨front, last, number, rfl, hne, hshort, hfront, hlast, hless⟩
    refine ⟨front, last, number, ?_, hne, hshort, hfront, hlast, hless⟩
    refine List.splitOn_intercalate _ (fun text htext => ?_) (by simp)
    rcases List.mem_append.mp htext with htext | htext
    · obtain ⟨_, -, hnumeral⟩ := hfront text htext
      exact point_not_mem hnumeral
    · rw [List.mem_singleton.mp htext]
      exact point_not_mem hlast
  · rintro ⟨front, last, number, hsplit, hne, hshort, hfront, hlast, hless⟩
    refine ⟨front, last, number, ?_, hne, hshort, hfront, hlast, hless⟩
    rw [← hsplit, List.intercalate_splitOn]

theorem decides_isIpv4Literal (host : Bytes) : Decides (IsAddress host) (isIpv4Literal host) := by
  obtain ⟨front, last, hsplit⟩ : ∃ front last, host.splitOn (byte '.') = front ++ [last] :=
    ⟨_, _, (List.dropLast_append_getLast (List.splitOn_ne_nil (byte '.') host)).symm⟩
  have hlength : (host.splitOn (byte '.')).length = front.length + 1 := by
    rw [hsplit, List.length_append, List.length_singleton]
  have hsplits {front' : List Bytes} {last' : Bytes}
      (h : host.splitOn (byte '.') = front' ++ [last']) : front' = front ∧ last' = last := by
    rw [hsplit] at h
    obtain ⟨rfl, hend⟩ := List.append_inj' h rfl
    exact ⟨rfl, (List.cons.inj hend).1.symm⟩
  have hsingle (h : ∃ number, Numeral host number) : front = [] ∧ last = host := by
    obtain ⟨_, hnumeral⟩ := h
    have hwhole := List.splitOn_eq_singleton (point_not_mem hnumeral)
    obtain ⟨hfront, hlast⟩ := hsplits (show _ = [] ++ [host] from hwhole)
    exact ⟨hfront.symm, hlast.symm⟩
  refine Decides.congr ?_ isAddress_iff.symm
  rw [isIpv4Literal, hlength, hsplit]
  by_cases hlong : 4 < front.length + 1
  · rw [if_pos hlong]
    refine Or.inr ⟨rfl, ?_⟩
    rintro (h | ⟨front', last', number, h, -, hshort, -⟩)
    · rw [(hsingle h).1] at hlong
      exact absurd hlong (by decide)
    · obtain ⟨rfl, -⟩ := List.append_inj' h rfl
      omega
  rw [if_neg hlong]
  -- A single component may be as long as it likes; with several, each but the last is one byte.
  by_cases hnone : front = []
  · subst hnone
    have hhost : host = last := by
      have hjoin := @List.intercalate_splitOn _ host _ _ (byte '.')
      rw [hsplit] at hjoin
      rw [← hjoin]
      simp
    have hend : Decides True (parseComponents 1 1 []) := Or.inl ⟨rfl, trivial⟩
    refine ((decides_unbounded 0xFFFFFFFF last).bind fun _ => hend).congr ?_
    rw [and_true, hhost]
    constructor
    · exact Or.inl
    · rintro (h | ⟨front', last', number, h, hne, -⟩)
      · exact h
      · exact absurd (List.append_inj' h rfl).1.symm hne
  · have hpos := List.length_pos_iff.mpr hnone
    -- The last component fills the bytes that the others leave.
    have hbig : ∃ maximum : Nat, finalMaximum (front.length + 1) = maximum ∧ 16 ≤ maximum ∧
        maximum ≤ 0xFFFFFFFF ∧ ∀ number, number ≤ maximum ↔ number < 256 ^ (4 - front.length) := by
      have hcases : front.length = 1 ∨ front.length = 2 ∨ front.length = 3 := by omega
      rcases hcases with h | h | h
      · rw [h]
        exact ⟨0xFFFFFF, rfl, by decide, by decide, fun number => by omega⟩
      · rw [h]
        exact ⟨0xFFFF, rfl, by decide, by decide, fun number => by omega⟩
      · rw [h]
        exact ⟨0xFF, rfl, by decide, by decide, fun number => by omega⟩
    obtain ⟨maximum, hfinal, hlow, hhigh, hlast⟩ := hbig
    have hcomponents := decides_components (by omega) hfinal hlow hhigh front last
      (by rw [Nat.zero_add])
    refine hcomponents.congr ?_
    constructor
    · rintro ⟨hfront, number, hle, hnumeral⟩
      exact Or.inr ⟨front, last, number, rfl, hnone, by omega, hfront, hnumeral,
        (hlast number).mp hle⟩
    · rintro (h | ⟨front', last', number, h, -, -, hfront, hnumeral, hless⟩)
      · exact absurd (hsingle h).1 hnone
      · obtain ⟨rfl, hend⟩ := List.append_inj' h rfl
        obtain rfl := (List.cons.inj hend).1
        exact ⟨hfront, number, (hlast number).mpr hless, hnumeral⟩

-- ---------------------------------------------------------------------------
-- Labels
-- ---------------------------------------------------------------------------

theorem isLabel_iff {text : Bytes} : isLabel text = true ↔ text ∈ shortLabel := by
  have hinner : letDig + sym (byte '-') = oneOf isLabelCharacter := by
    have hhyphen : sym (byte '-') = oneOf (· == byte '-') := by
      ext word
      exact ⟨fun h => ⟨byte '-', beq_self_eq_true _, h⟩, fun ⟨b, hb, hword⟩ => by
        rw [beq_iff_eq.mp hb] at hword
        exact hword⟩
    rw [letDig, hhyphen, oneOf_add]
    rfl
  have houter : letDig = oneOf fun b => isLabelCharacter b && b != byte '-' := by
    have hsame : (fun b => (byte 'a' ≤ b && b ≤ byte 'z') || (byte '0' ≤ b && b ≤ byte '9')) =
        fun b => isLabelCharacter b && b != byte '-' :=
      funext (forall_byte (by decide))
    rw [letDig, hsame]
  suffices isLabel text = true ↔ text ∈ label ∧ text.length ≤ 63 from this
  rw [label, hinner, houter, isLabel]
  match text with
  | [] =>
    constructor
    · intro h
      cases h
    · rintro ⟨h, -⟩
      exact absurd h nil_mem_oneOf_mul
  | first :: rest =>
    rw [cons_mem_oneOf_mul, mem_optional]
    obtain rfl | ⟨middle, last, rfl⟩ := List.eq_nil_or_concat rest
    · simp [and_comm]
    · rw [List.concat_eq_append, append_singleton_mem_mul_oneOf, mem_kstar_oneOf]
      have hne : middle ++ [last] ≠ [] := by simp
      have hlast : (first :: (middle ++ [last])).getLast? = some last := by
        rw [← List.cons_append, List.getLast?_append]
        rfl
      rw [hlast]
      simp only [List.all_cons, List.all_append, List.all_nil, Bool.and_true, Bool.and_eq_true,
        List.all_eq_true, Bool.not_eq_true', Bool.or_eq_false_iff, List.head?_cons, bne_iff_ne,
        beq_eq_false_iff_ne, ne_eq, Option.some.injEq, decide_eq_false_iff_not, Nat.not_lt,
        List.length_cons, List.length_append, hne, false_or]
      constructor
      · rintro ⟨⟨hfirst, hmiddle, hlast⟩, ⟨⟨⟨-, hshort⟩, hstart⟩, hend⟩⟩
        exact ⟨⟨⟨hfirst, hstart⟩, hmiddle, hlast, hend⟩, hshort⟩
      · rintro ⟨⟨⟨hfirst, hstart⟩, hmiddle, hlast, hend⟩, hshort⟩
        exact ⟨⟨hfirst, hmiddle, hlast⟩, ⟨⟨⟨by omega, hshort⟩, hstart⟩, hend⟩⟩

theorem labels_iff {host : Bytes} :
    (host.splitOn (byte '.')).all isLabel = true ↔ host ∈ dnsName := by
  have hpoint : Avoids (byte '.') shortLabel := by
    intro word hword hmem
    have hlabel := isLabel_iff.mpr hword
    rw [isLabel, Bool.and_eq_true, List.all_eq_true] at hlabel
    exact absurd (hlabel.1 _ hmem) (by decide)
  rw [dnsName, mem_separated hpoint, List.all_eq_true]
  simp only [isLabel_iff]

/-- A host is safe exactly if it is a name of labels and no numeric address; no number
on the way leaves 64 bits. -/
theorem safe_dns_host (host : Bytes) :
    ∃ answer, isSafeDnsHost host = .ok answer ∧
      (answer = true ↔ host.length ≤ 253 ∧ host ∈ dnsName ∧ ¬IsAddress host) := by
  have hlabel (h : host ∈ dnsName) : host ≠ [] ∧ host.getLast? ≠ some (byte '.') := by
    have hall := labels_iff.mpr h
    rw [List.all_eq_true] at hall
    have hempty : [] ∉ host.splitOn (byte '.') := by
      intro hmem
      exact absurd (hall [] hmem) (by decide)
    refine ⟨?_, fun hlast => ?_⟩
    · rintro rfl
      exact hempty (by simp)
    · obtain ⟨front, rfl⟩ := List.getLast?_eq_some_iff.mp hlast
      refine hempty ?_
      rw [List.splitOn_append_cons_self, List.splitOn_nil]
      simp
  unfold isSafeDnsHost
  split
  · rename_i hbad
    refine ⟨false, rfl, ?_⟩
    constructor
    · intro h
      cases h
    · rintro ⟨hlength, hname, -⟩
      obtain ⟨hsome, hlast⟩ := hlabel hname
      simp [hsome, hlast] at hbad
      omega
  · rename_i hgood
    have hlength : host.length ≤ 253 := by
      simp only [Bool.or_eq_true, decide_eq_true_eq, not_or] at hgood
      omega
    rcases decides_isIpv4Literal host with ⟨haddress, h⟩ | ⟨haddress, h⟩
    · rw [haddress]
      refine ⟨false, rfl, ?_⟩
      constructor
      · intro hfalse
        cases hfalse
      · rintro ⟨-, -, hnot⟩
        exact absurd h hnot
    · rw [haddress]
      refine ⟨_, rfl, ?_⟩
      rw [labels_iff]
      constructor
      · exact fun hname => ⟨hlength, hname, h⟩
      · rintro ⟨-, hname, -⟩
        exact hname

end Cuac.Runtime.DnsHost
