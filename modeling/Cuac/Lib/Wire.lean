import Mathlib.Algebra.Group.Nat.Defs
import Mathlib.Data.List.Basic
import Cuac.Lib.Bytes

/-!
# Binary records

Readers that take their input off the front of a byte string, big-endian
integers, and records stamped with a checksum of everything before it.

A reader is specified by what it accepts: `r.run input = some (a, rest)` exactly
where `input` starts with the bytes of `a` and `rest` follows. Both directions
of a codec follow from one such statement: what was written is read back, and
what is read was written.

Main results:

* `Reader.run_uint` — what an integer reader accepts.
* `unstamp_eq_some` — exactly the stamped records open.
* `unstamp_set` — a checksum whose steps lose nothing opens no record of which one
  byte was changed.
-/

namespace Cuac.Lib

-- ---------------------------------------------------------------------------
-- Readers
-- ---------------------------------------------------------------------------

/-- A reader: fails, or returns a value and what it left. -/
abbrev Reader := StateT Bytes Option

namespace Reader

variable {α β : Type}

/-- One byte. -/
def u8 : Reader UInt8
  | [] => none
  | b :: rest => some (b, rest)

/-- The next bytes, if there are that many. -/
def take (count : Nat) : Reader Bytes := fun input =>
  if input.length < count then none else some (input.take count, input.drop count)

/-- Goes on where the test holds. -/
def require (test : Bool) : Reader Unit := fun input =>
  if test then some ((), input) else none

/-- The loop of a big-endian integer: shift, then add a byte. -/
def uintFrom : Nat → Nat → Reader Nat
  | 0, result => pure result
  | width + 1, result => do
    let b ← u8
    uintFrom width ((result <<< 8) ||| b.toNat)

def uint (width : Nat) : Reader Nat := uintFrom width 0

/-- A value that a check let through. -/
def ofOption (value : Option α) : Reader α := fun input =>
  value.map fun a => (a, input)

-- ---------------------------------------------------------------------------
-- What readers accept
-- ---------------------------------------------------------------------------

@[simp] theorem run_u8 {input rest : Bytes} {b : UInt8} :
    u8.run input = some (b, rest) ↔ input = b :: rest := by
  cases input with
  | nil => simp [u8, StateT.run]
  | cons c tail => simp [u8, StateT.run]

@[simp] theorem run_take {count : Nat} {input taken rest : Bytes} :
    (take count).run input = some (taken, rest) ↔
      taken.length = count ∧ input = taken ++ rest := by
  show (if input.length < count then none else some (input.take count, input.drop count)) = _ ↔ _
  split
  · rename_i hshort
    constructor
    · intro h
      cases h
    · rintro ⟨rfl, rfl⟩
      rw [List.length_append] at hshort
      omega
  · rename_i hlong
    rw [Option.some.injEq, Prod.mk.injEq]
    constructor
    · rintro ⟨rfl, rfl⟩
      refine ⟨?_, (List.take_append_drop count input).symm⟩
      rw [List.length_take]
      omega
    · rintro ⟨rfl, rfl⟩
      exact ⟨List.take_left, List.drop_left⟩

@[simp] theorem run_require {test : Bool} {input rest : Bytes} {u : Unit} :
    (require test).run input = some (u, rest) ↔ test = true ∧ input = rest := by
  cases test with
  | false => simp [require, StateT.run]
  | true => simp [require, StateT.run]

@[simp] theorem run_ofOption {value : Option α} {input rest : Bytes} {a : α} :
    (ofOption value).run input = some (a, rest) ↔ value = some a ∧ input = rest := by
  cases value with
  | none => simp [ofOption, StateT.run]
  | some v => simp [ofOption, StateT.run]

@[simp] theorem run_bind {r : Reader α} {f : α → Reader β} {input rest : Bytes} {b : β} :
    (r >>= f).run input = some (b, rest) ↔
      ∃ a mid, r.run input = some (a, mid) ∧ (f a).run mid = some (b, rest) := by
  rw [StateT.run_bind, Option.bind_eq_bind, Option.bind_eq_some_iff]
  constructor
  · rintro ⟨⟨a, mid⟩, hr, hf⟩
    exact ⟨a, mid, hr, hf⟩
  · rintro ⟨a, mid, hr, hf⟩
    exact ⟨(a, mid), hr, hf⟩

@[simp] theorem run_pure {a b : α} {input rest : Bytes} :
    (pure a : Reader α).run input = some (b, rest) ↔ a = b ∧ input = rest := by
  rw [StateT.run_pure]
  show some (a, input) = _ ↔ _
  rw [Option.some.injEq, Prod.mk.injEq]

end Reader

-- ---------------------------------------------------------------------------
-- Big-endian integers
-- ---------------------------------------------------------------------------

/-- The bytes of a number, the highest first. -/
def bigEndian : Nat → Nat → Bytes
  | 0, _ => []
  | width + 1, n => UInt8.ofNat (n >>> (8 * width)) :: bigEndian width n

@[simp] theorem length_bigEndian (width n : Nat) : (bigEndian width n).length = width := by
  induction width with
  | zero => rfl
  | succ width ih => rw [bigEndian, List.length_cons, ih]

/-- Only the low bytes count. -/
theorem bigEndian_add (width high low : Nat) :
    bigEndian width (high * 256 ^ width + low) = bigEndian width low := by
  induction width generalizing high with
  | zero => rfl
  | succ width ih =>
    have hsplit : high * 256 ^ (width + 1) + low = high * 256 * 256 ^ width + low := by
      rw [Nat.pow_succ, Nat.mul_comm (256 ^ width), Nat.mul_assoc]
    have hbyte : UInt8.ofNat ((high * 256 ^ (width + 1) + low) >>> (8 * width)) =
        UInt8.ofNat (low >>> (8 * width)) := by
      have hpow : 2 ^ (8 * width) = 256 ^ width := by rw [Nat.pow_mul]
      have hpos : 0 < 256 ^ width := Nat.pow_pos (by decide)
      rw [Nat.shiftRight_eq_div_pow, Nat.shiftRight_eq_div_pow, hpow, hsplit, Nat.add_comm,
        Nat.add_mul_div_right _ _ hpos]
      refine UInt8.toNat_inj.mp ?_
      rw [UInt8.toNat_ofNat', UInt8.toNat_ofNat']
      omega
    rw [bigEndian, bigEndian, hbyte, hsplit, ih]

/-- A byte before the bytes of a number makes a longer number. -/
theorem bigEndian_succ {width n : Nat} (b : UInt8) (h : n < 256 ^ width) :
    bigEndian (width + 1) (b.toNat * 256 ^ width + n) = b :: bigEndian width n := by
  have hpow : 2 ^ (8 * width) = 256 ^ width := by rw [Nat.pow_mul]
  have hpos : 0 < 256 ^ width := Nat.pow_pos (by decide)
  rw [bigEndian, bigEndian_add, Nat.shiftRight_eq_div_pow, hpow, Nat.add_comm,
    Nat.add_mul_div_right _ _ hpos, Nat.div_eq_of_lt h, Nat.zero_add, UInt8.ofNat_toNat]

theorem Reader.run_uintFrom {width result n : Nat} {input rest : Bytes} :
    (uintFrom width result).run input = some (n, rest) ↔
      ∃ m, m < 256 ^ width ∧ n = result * 256 ^ width + m ∧ input = bigEndian width m ++ rest := by
  induction width generalizing result input with
  | zero =>
    rw [uintFrom, run_pure]
    constructor
    · rintro ⟨rfl, rfl⟩
      exact ⟨0, by simp, by simp, rfl⟩
    · rintro ⟨m, hm, rfl, rfl⟩
      rw [Nat.pow_zero, Nat.lt_one_iff] at hm
      subst hm
      exact ⟨by simp, rfl⟩
  | succ width ih =>
    have hshift : ∀ b : UInt8, (result <<< 8) ||| b.toNat = result * 256 + b.toNat := fun b => by
      rw [← Nat.shiftLeft_add_eq_or_of_lt b.toNat_lt, Nat.shiftLeft_eq]
    rw [uintFrom, run_bind]
    simp only [run_u8, ih, hshift]
    constructor
    · rintro ⟨b, mid, rfl, m, hm, rfl, rfl⟩
      refine ⟨b.toNat * 256 ^ width + m, ?_, ?_, ?_⟩
      · have hb := b.toNat_lt
        calc b.toNat * 256 ^ width + m < b.toNat * 256 ^ width + 256 ^ width := by omega
          _ = (b.toNat + 1) * 256 ^ width := by rw [Nat.add_mul, Nat.one_mul]
          _ ≤ 256 * 256 ^ width := Nat.mul_le_mul_right _ (by omega)
          _ = 256 ^ (width + 1) := by rw [Nat.pow_succ, Nat.mul_comm]
      · rw [Nat.pow_succ, Nat.add_mul, Nat.mul_comm (256 ^ width), Nat.mul_assoc, Nat.add_assoc]
      · rw [bigEndian_succ b hm, List.cons_append]
    · rintro ⟨m, hm, rfl, rfl⟩
      have hpos : 0 < 256 ^ width := Nat.pow_pos (by decide)
      have hdiv : m / 256 ^ width < 256 := by
        rw [Nat.div_lt_iff_lt_mul hpos, Nat.mul_comm, ← Nat.pow_succ]
        exact hm
      have hbyte : (UInt8.ofNat (m / 256 ^ width)).toNat = m / 256 ^ width := by
        rw [UInt8.toNat_ofNat']
        exact Nat.mod_eq_of_lt hdiv
      have hsplit : (UInt8.ofNat (m / 256 ^ width)).toNat * 256 ^ width + m % 256 ^ width = m := by
        rw [hbyte]
        exact Nat.div_add_mod' m (256 ^ width)
      refine ⟨UInt8.ofNat (m / 256 ^ width), bigEndian width (m % 256 ^ width) ++ rest, ?_,
        m % 256 ^ width, Nat.mod_lt _ hpos, ?_, rfl⟩
      · rw [← List.cons_append, ← bigEndian_succ _ (Nat.mod_lt _ hpos), hsplit]
      · rw [Nat.add_mul, Nat.add_assoc, hsplit, Nat.pow_succ, Nat.mul_comm (256 ^ width),
          Nat.mul_assoc]

/-- An integer is read off exactly where its bytes stand in front. -/
@[simp] theorem Reader.run_uint {width n : Nat} {input rest : Bytes} :
    (uint width).run input = some (n, rest) ↔
      n < 256 ^ width ∧ input = bigEndian width n ++ rest := by
  rw [uint, run_uintFrom]
  constructor
  · rintro ⟨m, hm, rfl, rfl⟩
    rw [Nat.zero_mul, Nat.zero_add]
    exact ⟨hm, rfl⟩
  · rintro ⟨hn, rfl⟩
    exact ⟨n, hn, by rw [Nat.zero_mul, Nat.zero_add], rfl⟩

theorem bigEndian_injective {width m n : Nat} (hm : m < 256 ^ width) (hn : n < 256 ^ width)
    (h : bigEndian width m = bigEndian width n) : m = n := by
  have hread : (Reader.uint width).run (bigEndian width m ++ []) = some (m, []) :=
    Reader.run_uint.mpr ⟨hm, rfl⟩
  have hread' : (Reader.uint width).run (bigEndian width m ++ []) = some (n, []) :=
    Reader.run_uint.mpr ⟨hn, by rw [h]⟩
  rw [hread] at hread'
  exact (Prod.mk.inj (Option.some.inj hread')).1

-- ---------------------------------------------------------------------------
-- Stamped records
-- ---------------------------------------------------------------------------

section Stamped

variable {sum : Bytes → UInt64}

/-- A record and its checksum. -/
def stamp (sum : Bytes → UInt64) (body : Bytes) : Bytes :=
  body ++ bigEndian 8 (sum body).toNat

/-- The body of a stamped record: the last eight bytes are its checksum. -/
def unstamp (sum : Bytes → UInt64) (bytes : Bytes) : Option Bytes :=
  match (Reader.uint 8).run (bytes.drop (bytes.length - 8)) with
  | none => none
  | some (stored, _) =>
    if stored = (sum (bytes.take (bytes.length - 8))).toNat then
      some (bytes.take (bytes.length - 8))
    else none

@[simp] theorem length_stamp (body : Bytes) : (stamp sum body).length = body.length + 8 := by
  rw [stamp, List.length_append, length_bigEndian]

/-- Exactly the stamped records open. -/
theorem unstamp_eq_some {bytes body : Bytes} :
    unstamp sum bytes = some body ↔ bytes = stamp sum body := by
  unfold unstamp
  constructor
  · intro h
    split at h
    · cases h
    · rename_i stored rest hread
      split at h
      · rename_i hstored
        obtain rfl := Option.some.inj h
        obtain ⟨-, hdrop⟩ := Reader.run_uint.mp hread
        have hlength := congrArg List.length hdrop
        rw [List.length_append, length_bigEndian, List.length_drop] at hlength
        have hrest : rest = [] := List.eq_nil_of_length_eq_zero (by omega)
        rw [hrest, List.append_nil, hstored] at hdrop
        rw [stamp, ← hdrop, List.take_append_drop]
      · cases h
  · rintro rfl
    have hsize : (stamp sum body).length - 8 = body.length := by
      rw [length_stamp]
      omega
    have hdrop : (stamp sum body).drop body.length = bigEndian 8 (sum body).toNat ++ [] := by
      rw [List.append_nil]
      exact List.drop_left
    have htake : (stamp sum body).take body.length = body := List.take_left
    have hread : (Reader.uint 8).run ((stamp sum body).drop body.length) =
        some ((sum body).toNat, []) :=
      Reader.run_uint.mpr ⟨(sum body).toNat_lt, hdrop⟩
    rw [hsize, hread, htake]
    simp

/-- A step of a checksum that loses nothing of its state or of its byte. -/
structure Lossless {σ : Type} (step : σ → UInt8 → σ) : Prop where
  state : ∀ b s t, step s b = step t b → s = t
  byte : ∀ s b c, step s b = step s c → b = c

theorem Lossless.foldl_state {σ : Type} {step : σ → UInt8 → σ} (h : Lossless step)
    {bytes : Bytes} {s t : σ} (hsame : bytes.foldl step s = bytes.foldl step t) : s = t := by
  induction bytes generalizing s t with
  | nil => exact hsame
  | cons b rest ih => exact h.state b s t (ih hsame)

/-- Such a checksum tells two byte strings apart that differ in one place. -/
theorem Lossless.foldl_byte {σ : Type} {step : σ → UInt8 → σ} (h : Lossless step) {s : σ}
    {pre post : Bytes} {b c : UInt8}
    (hsame : (pre ++ b :: post).foldl step s = (pre ++ c :: post).foldl step s) : b = c := by
  rw [List.foldl_append, List.foldl_append, List.foldl_cons, List.foldl_cons] at hsame
  exact h.byte _ b c (h.foldl_state hsame)

/-- A stamped record with one byte changed does not open. -/
theorem unstamp_set {step : UInt64 → UInt8 → UInt64} {start : UInt64} (h : Lossless step)
    {body pre post : Bytes} {b c : UInt8}
    (hbytes : stamp (fun bytes => bytes.foldl step start) body = pre ++ b :: post) (hne : c ≠ b) :
    unstamp (fun bytes => bytes.foldl step start) (pre ++ c :: post) = none := by
  by_contra hopen
  obtain ⟨other, hother⟩ := Option.ne_none_iff_exists'.mp hopen
  rw [unstamp_eq_some] at hother
  unfold stamp at hbytes hother
  have hlength : body.length = other.length := by
    have h₁ := congrArg List.length hbytes
    have h₂ := congrArg List.length hother
    simp only [List.length_append, List.length_cons, length_bigEndian] at h₁ h₂
    omega
  -- a change in the checksum
  have hstored : ∀ mid, pre = body ++ mid → False := by
    rintro mid rfl
    rw [List.append_assoc] at hbytes hother
    obtain ⟨-, hsum⟩ := List.append_inj hbytes rfl
    obtain ⟨rfl, hsum'⟩ := List.append_inj hother hlength
    have hbyte := hsum.symm.trans hsum'.symm
    exact hne (List.cons.inj (List.append_cancel_left hbyte)).1.symm
  rcases List.append_eq_append_iff.mp hbytes with ⟨mid, hpre, -⟩ | ⟨mid, hbody, hrest⟩
  · exact hstored mid hpre
  · cases mid with
    | nil => exact hstored [] (by rw [hbody, List.append_nil, List.append_nil])
    | cons first rest =>
      -- a change in the body: the stored checksum stays, the recomputed one does not
      rw [List.cons_append] at hrest
      obtain ⟨rfl, rfl⟩ := List.cons.inj hrest
      rw [← List.cons_append, ← List.append_assoc] at hother
      have hsize : (pre ++ c :: rest).length = other.length := by
        rw [← hlength, hbody]
        simp
      obtain ⟨rfl, hsum⟩ := List.append_inj hother hsize
      have hsame := UInt64.toNat_inj.mp
        (bigEndian_injective (UInt64.toNat_lt _) (UInt64.toNat_lt _) hsum)
      rw [hbody] at hsame
      exact hne (h.foldl_byte hsame).symm

end Stamped

end Cuac.Lib
