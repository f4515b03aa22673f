/-
# Formatted output

The functions of `kernel/printk.c`. A format is interpreted character by character; numbers and
pointers are written to a small buffer first, of which as many characters are sent to the console
as the conversion has left in `size`. Both are local variables that start with whatever was on
the stack. Strings are given without the terminating zero.
-/

import HeavenOS.Common
import HeavenOS.Lib.Buffer
import Mathlib.Data.Nat.Digits.Lemmas

namespace HeavenOS.Printk

open Lib

/-- A character of the source. -/
def ascii (c : Char) : BitVec 8 := BitVec.ofNat 8 c.toNat

/-- A string literal of the source. -/
def literal (l : List Char) : List (BitVec 8) := l.map ascii

/-- `PRINTK_BUF_SIZE` -/
def printkBufSize : ℕ := 11

/-- `digits` -/
def digits : List (BitVec 8) :=
  literal ['0', '1', '2', '3', '4', '5', '6', '7', '8', '9', 'a', 'b', 'c', 'd', 'e', 'f']

/-- `errcode_str` -/
def errcodeStr : List (List (BitVec 8)) :=
  [literal ['n', 'o', ' ', 'e', 'r', 'r', 'o', 'r'],
    literal ['n', 'o', 't', ' ', 'i', 'm', 'p', 'l', 'e', 'm', 'e', 'n', 't', 'e', 'd'],
    literal ['o', 'u', 't', ' ', 'o', 'f', ' ', 'm', 'e', 'm', 'o', 'r', 'y'],
    literal ['i', 'n', 'v', 'a', 'l', 'i', 'd', ' ', 'v', 'a', 'l', 'u', 'e']]

/-- An entry of a table at an index of type `int`. -/
def tableEntry {α : Type} (table : List α) (i : ℤ) : Except Fault α :=
  if i < 0 then .error .outOfBounds
  else match table[i.toNat]? with
    | some entry => .ok entry
    | none => .error .outOfBounds

/-! ## Numbers -/

/-- The first loop of `bprintu64`: the digits, the last one first. A `uint64_t` has at most 64. -/
def digitLoop (cap base off : ℕ) : (fuel bytes a : ℕ) → Mem → Except Fault (ℕ × Mem)
  | 0, bytes, a, buf => if a = 0 then .ok (bytes, buf) else .error .unfinished
  | fuel + 1, bytes, a, buf =>
      if a = 0 then .ok (bytes, buf)
      else do
        let c ← tableEntry digits (a % base)
        let buf ← Buffer.store cap buf (off + bytes) c
        digitLoop cap base off fuel (bytes + 1) (a / base) buf

/-- The second loop of `bprintu64`, after its first iterations: the two ends are exchanged. -/
def reverseLoop (cap off bytes : ℕ) (buf : Mem) : ℕ → Except Fault Mem
  | 0 => .ok buf
  | i + 1 => do
      let buf ← reverseLoop cap off bytes buf i
      let buf ← Buffer.xorByte cap buf (off + i) (off + (bytes - i - 1))
      let buf ← Buffer.xorByte cap buf (off + (bytes - i - 1)) (off + i)
      Buffer.xorByte cap buf (off + i) (off + (bytes - i - 1))

/-- `bprintu64(buf + off, a, base)` -/
def bprintu64 (cap : ℕ) (buf : Mem) (off a base : ℕ) : Except Fault (ℕ × Mem) :=
  if a = 0 then do
    let buf ← Buffer.store cap buf off (ascii '0')
    return (1, buf)
  else do
    let (bytes, buf) ← digitLoop cap base off 64 0 a buf
    let buf ← reverseLoop cap off bytes buf (bytes / 2)
    return (bytes, buf)

/-- `bprints64(buf + off, a, base)` -/
def bprints64 (cap : ℕ) (buf : Mem) (off : ℕ) (a : ℤ) (base : ℕ) : Except Fault (ℕ × Mem) :=
  if a < 0 then do
    let buf ← Buffer.store cap buf off (ascii '-')
    let (bytes, buf) ← bprintu64 cap buf (off + 1) (-a).toNat base
    return (1 + bytes, buf)
  else bprintu64 cap buf off a.toNat base

/-- The loop of `bprintstr` from `length` on. -/
def bprintstrLoop (cap off : ℕ) : (length : ℕ) → List (BitVec 8) → Mem → Except Fault (ℕ × Mem)
  | length, [], buf => .ok (length, buf)
  | length, c :: cur, buf => do
      let buf ← Buffer.store cap buf (off + length) c
      bprintstrLoop cap off (length + 1) cur buf

/-- `bprintstr(buf + off, str)` -/
def bprintstr (cap : ℕ) (buf : Mem) (off : ℕ) (str : List (BitVec 8)) : Except Fault (ℕ × Mem) :=
  bprintstrLoop cap off 0 str buf

/-- `bprintptr(buf + off, ptr)` -/
def bprintptr (cap : ℕ) (buf : Mem) (off ptr : ℕ) : Except Fault (ℕ × Mem) :=
  if ptr = 0 then bprintstr cap buf off (literal ['(', 'n', 'i', 'l', ')'])
  else do
    let (bytes, buf) ← bprintstr cap buf off (literal ['0', 'x'])
    let (bytes', buf) ← bprintu64 cap buf (off + bytes) ptr 16
    return (bytes + bytes', buf)

/-! ## The interpreter -/

/-- An argument behind the format. -/
inductive Arg where
  | u32 (value : BitVec 32)
  | s32 (value : BitVec 32)
  | ptr (value : BitVec 64)
  | str (value : List (BitVec 8))
  deriving DecidableEq

/-- The arguments that are left, and the two variables that live on across conversions. -/
structure Locals where
  args : List Arg
  buf : Mem
  size : ℕ

/-- `va_arg(args, uint32_t)` -/
def vaArgU32 : List Arg → Except Fault (BitVec 32 × List Arg)
  | .u32 value :: args => .ok (value, args)
  | _ => .error .badArgument

/-- `va_arg(args, int32_t)` -/
def vaArgS32 : List Arg → Except Fault (BitVec 32 × List Arg)
  | .s32 value :: args => .ok (value, args)
  | _ => .error .badArgument

/-- `va_arg(args, void*)` -/
def vaArgPtr : List Arg → Except Fault (BitVec 64 × List Arg)
  | .ptr value :: args => .ok (value, args)
  | _ => .error .badArgument

/-- `va_arg(args, char*)` -/
def vaArgStr : List Arg → Except Fault (List (BitVec 8) × List Arg)
  | .str value :: args => .ok (value, args)
  | _ => .error .badArgument

/-- The `switch`: what is sent to the console meanwhile, and the variables. -/
def printkSwitch (c : BitVec 8) (l : Locals) : Except Fault (List (BitVec 8) × Locals) :=
  if c = ascii 'u' then do
    let (u32value, args) ← vaArgU32 l.args
    let (size, buf) ← bprintu64 printkBufSize l.buf 0 u32value.toNat 10
    return ([], ⟨args, buf, size⟩)
  else if c = ascii 'x' then do
    let (u32value, args) ← vaArgU32 l.args
    let (size, buf) ← bprintu64 printkBufSize l.buf 0 u32value.toNat 16
    return ([], ⟨args, buf, size⟩)
  else if c = ascii 'd' then do
    let (s32value, args) ← vaArgS32 l.args
    let (size, buf) ← bprints64 printkBufSize l.buf 0 s32value.toInt 10
    return ([], ⟨args, buf, size⟩)
  else if c = ascii 'p' then do
    let (ptrvalue, args) ← vaArgPtr l.args
    let (size, buf) ← bprintptr printkBufSize l.buf 0 ptrvalue.toNat
    return ([], ⟨args, buf, size⟩)
  else if c = ascii 's' then do
    let (str, args) ← vaArgStr l.args
    return (str, { l with args := args, size := 0 })
  else if c = ascii 'i' then do
    let (s32value, args) ← vaArgS32 l.args
    let str ← tableEntry errcodeStr (-s32value.toInt)
    return (str, { l with args := args })
  else
    return ([], { l with size := 0 })

/-- `if (size)` behind the `switch`: what is sent from the buffer. -/
def printkFlush (buf : Mem) (size : ℕ) : Except Fault (List (BitVec 8)) :=
  if size ≠ 0 then Buffer.loadBytes printkBufSize buf (intCount size) else .ok []

/-- The body of the loop for a conversion. -/
def printkConversion (c : BitVec 8) (l : Locals) : Except Fault (List (BitVec 8) × Locals) := do
  let (out, l) ← printkSwitch c l
  let written ← printkFlush l.buf l.size
  return (out ++ written, l)

/-- The loop over the format: the characters that are sent to the console. -/
def printkLoop : (cursor : List (BitVec 8)) → (idle : Bool) → Locals → Except Fault (List (BitVec 8))
  | [], _, _ => .ok []
  | c :: cursor, idle, l =>
      if idle then
        if c ≠ ascii '%' then do
          let rest ← printkLoop cursor true l
          return c :: rest
        else printkLoop cursor false l
      else do
        let (out, l) ← printkConversion c l
        let rest ← printkLoop cursor true l
        return out ++ rest

/-- `vprintk_color`, from what the stack holds for `buf` and `size`: the characters that are sent
to the console. -/
def vprintkColor (consInitialized : Bool) (fmt : List (BitVec 8)) (args : List Arg) (buf : Mem) (size : ℕ) :
    Except Fault (List (BitVec 8)) :=
  match kassert (consInitialized = true) "cons_initialized" with
  | .error text => .error (.panic text)
  | .ok () => printkLoop fmt true ⟨args, buf, size⟩

/-! ## Numerals -/

/-- The character of a digit. -/
def digitChar (d : ℕ) : BitVec 8 := Printk.digits.getD d 0

/-- A number in the given base. -/
def numeral (base a : ℕ) : List (BitVec 8) :=
  if a = 0 then [ascii '0'] else ((Nat.digits base a).map digitChar).reverse

theorem tableEntry_digits {d : ℕ} (hd : d < 16) : tableEntry Printk.digits d = .ok (digitChar d) := by
  interval_cases d <;> rfl

section Numbers

variable {cap base off : ℕ} (hbase : 2 ≤ base) (hbase' : base ≤ 16)

include hbase in
theorem digits_of_pos {a : ℕ} (ha : a ≠ 0) : Nat.digits base a = a % base :: Nat.digits base (a / base) :=
  Nat.digits_def' hbase (Nat.pos_of_ne_zero ha)

include hbase hbase'

theorem digitLoop_succ {fuel bytes a : ℕ} (ha : a ≠ 0) (hroom : off + bytes < cap) (buf : Mem) :
    digitLoop cap base off (fuel + 1) bytes a buf =
      digitLoop cap base off fuel (bytes + 1) (a / base) (buf.storeByte (off + bytes) (digitChar (a % base))) := by
  have hdigit : a % base < 16 := lt_of_lt_of_le (Nat.mod_lt a (by omega)) hbase'
  rw [digitLoop, if_neg ha, ← Int.natCast_mod, tableEntry_digits hdigit, Fault.ok_bind, Buffer.store_of_lt hroom,
    Fault.ok_bind]

/-- The first loop writes the digits, the last one first. -/
theorem digitLoop_spec {fuel bytes a : ℕ} {buf : Mem} (hfuel : (Nat.digits base a).length ≤ fuel)
    (hroom : off + bytes + (Nat.digits base a).length ≤ cap) :
    digitLoop cap base off fuel bytes a buf =
      .ok (bytes + (Nat.digits base a).length, buf.storeBytes (off + bytes) ((Nat.digits base a).map digitChar)) := by
  induction fuel generalizing bytes a buf with
  | zero =>
      have hzero : a = 0 := by
        by_contra ha
        rw [digits_of_pos hbase ha] at hfuel
        simp at hfuel
      simp [digitLoop, hzero]
  | succ fuel ih =>
      by_cases ha : a = 0
      · simp [digitLoop, ha]
      · rw [digits_of_pos hbase ha, List.length_cons] at hfuel hroom
        rw [digitLoop_succ hbase hbase' ha (by omega), ih (by omega) (by omega), digits_of_pos hbase ha,
          List.length_cons, List.map_cons, ← Mem.storeBytes_cons, Nat.add_assoc off, Nat.add_assoc bytes, Nat.add_comm 1]

/-- Too many digits do not fit. -/
theorem digitLoop_overflow {fuel bytes a : ℕ} {buf : Mem} (hfuel : (Nat.digits base a).length ≤ fuel)
    (hstart : off + bytes ≤ cap) (hroom : cap < off + bytes + (Nat.digits base a).length) :
    digitLoop cap base off fuel bytes a buf = .error .outOfBounds := by
  induction fuel generalizing bytes a buf with
  | zero => omega
  | succ fuel ih =>
      have ha : a ≠ 0 := by
        rintro rfl
        simp at hroom
        omega
      rw [digits_of_pos hbase ha, List.length_cons] at hfuel hroom
      by_cases hlast : off + bytes < cap
      · rw [digitLoop_succ hbase hbase' ha hlast]
        exact ih (by omega) (by omega) (by omega)
      · have hdigit : a % base < 16 := lt_of_lt_of_le (Nat.mod_lt a (by omega)) hbase'
        rw [digitLoop, if_neg ha, ← Int.natCast_mod, tableEntry_digits hdigit, Fault.ok_bind,
          Buffer.store_of_ge (by omega), Fault.error_bind]

end Numbers

/-- The second loop exchanges the two ends. -/
theorem reverseLoop_spec {cap off bytes : ℕ} {buf : Mem} (hroom : off + bytes ≤ cap) {n : ℕ} (hn : n ≤ bytes / 2) :
    ∃ buf', reverseLoop cap off bytes buf n = .ok buf' ∧
      ∀ x, buf' x =
        if off ≤ x ∧ x < off + n ∨ off + bytes ≤ x + n ∧ x < off + bytes then buf (2 * off + bytes - 1 - x)
        else buf x := by
  induction n with
  | zero =>
      refine ⟨buf, rfl, fun x => ?_⟩
      rw [if_neg (by omega)]
  | succ n ih =>
      obtain ⟨buf', hloop, hbuf⟩ := ih (by omega)
      refine ⟨buf'.swap (off + n) (off + (bytes - n - 1)), ?_, fun x => ?_⟩
      · rw [reverseLoop, hloop]
        exact Buffer.xorByte_swap (by omega) (by omega) (by omega)
      · unfold Mem.swap
        by_cases hleft : x = off + n
        · rw [if_pos hleft, hbuf, if_neg (by omega), if_pos (by omega)]
          exact congrArg buf (by omega)
        · by_cases hright : x = off + (bytes - n - 1)
          · rw [if_neg hleft, if_pos hright, hbuf, if_neg (by omega), if_pos (by omega)]
            exact congrArg buf (by omega)
          · rw [if_neg hleft, if_neg hright, hbuf]
            exact if_congr (by omega) rfl rfl

/-- Both loops together write the numeral. -/
theorem reverseLoop_storeBytes {cap off : ℕ} {buf : Mem} {l : List (BitVec 8)} (hroom : off + l.length ≤ cap) :
    reverseLoop cap off l.length (buf.storeBytes off l) (l.length / 2) = .ok (buf.storeBytes off l.reverse) := by
  obtain ⟨buf', hloop, hbuf⟩ := @reverseLoop_spec cap off l.length (buf.storeBytes off l) hroom _ (le_refl (l.length / 2))
  rw [hloop]
  congr 1
  funext x
  rw [hbuf, Mem.storeBytes_reverse]
  by_cases hin : off ≤ x ∧ x < off + l.length
  · rw [if_pos hin]
    split_ifs with hmoved
    · rfl
    · exact congrArg _ (by omega)
  · rw [if_neg hin, if_neg (by omega), Mem.storeBytes, if_neg hin]

section Writers

variable {cap base off : ℕ} (hbase : 2 ≤ base) (hbase' : base ≤ 16)

theorem numeral_ne_nil (base a : ℕ) : numeral base a ≠ [] := by
  unfold numeral
  split_ifs with ha
  · exact List.cons_ne_nil _ _
  · rw [Ne, List.reverse_eq_nil_iff, List.map_eq_nil_iff]
    exact Nat.digits_ne_nil_iff_ne_zero.mpr ha

include hbase in
/-- The number of digits. -/
theorem numeral_length_le_iff {a k : ℕ} (hk : 0 < k) : (numeral base a).length ≤ k ↔ a < base ^ k := by
  unfold numeral
  split_ifs with ha
  · subst ha
    exact iff_of_true hk (Nat.pow_pos (by omega))
  · rw [List.length_reverse, List.length_map, Nat.digits_length_le_iff (by omega)]

include hbase hbase'

/-- `bprintu64` writes the numeral and returns its length. -/
theorem bprintu64_spec {a : ℕ} (ha : a < 2 ^ 64) {buf : Mem} (hroom : off + (numeral base a).length ≤ cap) :
    bprintu64 cap buf off a base = .ok ((numeral base a).length, buf.storeBytes off (numeral base a)) := by
  unfold bprintu64 numeral at *
  split_ifs with hzero
  · rw [if_pos hzero, List.length_singleton] at hroom
    rw [Buffer.store_of_lt (by omega), Fault.ok_bind, ← Mem.storeBytes_cons, Mem.storeBytes_nil]
    rfl
  · rw [if_neg hzero, List.length_reverse, List.length_map] at hroom
    have hfuel : (Nat.digits base a).length ≤ 64 :=
      (Nat.digits_length_le_iff (by omega) a).mpr (lt_of_lt_of_le ha (Nat.pow_le_pow_left hbase 64))
    have hrev := @reverseLoop_storeBytes cap off buf ((Nat.digits base a).map digitChar) (by rwa [List.length_map])
    rw [List.length_map] at hrev
    rw [digitLoop_spec hbase hbase' hfuel (by omega), Fault.ok_bind, Nat.zero_add, Nat.add_zero]
    simp only [hrev, Fault.ok_bind, List.length_reverse, List.length_map]
    rfl

/-- It leaves the buffer if the numeral does not fit. -/
theorem bprintu64_overflow {a : ℕ} (ha : a < 2 ^ 64) {buf : Mem} (hstart : off ≤ cap)
    (hroom : cap < off + (numeral base a).length) : bprintu64 cap buf off a base = .error .outOfBounds := by
  unfold bprintu64 numeral at *
  split_ifs with hzero
  · rw [if_pos hzero, List.length_singleton] at hroom
    rw [Buffer.store_of_ge (by omega)]
    rfl
  · rw [if_neg hzero, List.length_reverse, List.length_map] at hroom
    have hfuel : (Nat.digits base a).length ≤ 64 :=
      (Nat.digits_length_le_iff (by omega) a).mpr (lt_of_lt_of_le ha (Nat.pow_le_pow_left hbase 64))
    rw [digitLoop_overflow hbase hbase' hfuel (by omega) (by omega)]
    rfl

end Writers

/-- A signed number in the given base. -/
def signedNumeral (base : ℕ) (a : ℤ) : List (BitVec 8) :=
  if a < 0 then ascii '-' :: numeral base (-a).toNat else numeral base a.toNat

theorem bprints64_spec {cap base off : ℕ} (hbase : 2 ≤ base) (hbase' : base ≤ 16) {a : ℤ} (ha : -2 ^ 63 ≤ a)
    (ha' : a < 2 ^ 63) {buf : Mem} (hroom : off + (signedNumeral base a).length ≤ cap) :
    bprints64 cap buf off a base = .ok ((signedNumeral base a).length, buf.storeBytes off (signedNumeral base a)) := by
  unfold bprints64 signedNumeral at *
  split_ifs with hneg
  · rw [if_pos hneg, List.length_cons] at hroom
    rw [Buffer.store_of_lt (by omega), Fault.ok_bind, bprintu64_spec hbase hbase' (by omega) (by omega), Fault.ok_bind,
      Mem.storeBytes_cons, List.length_cons, Nat.add_comm]
    rfl
  · rw [if_neg hneg] at hroom
    exact bprintu64_spec hbase hbase' (by omega) hroom

theorem bprintstr_spec {cap off : ℕ} {str : List (BitVec 8)} {buf : Mem} (hroom : off + str.length ≤ cap) :
    bprintstr cap buf off str = .ok (str.length, buf.storeBytes off str) := by
  have hloop (length : ℕ) (buf : Mem) (hroom : off + length + str.length ≤ cap) :
      bprintstrLoop cap off length str buf = .ok (length + str.length, buf.storeBytes (off + length) str) := by
    induction str generalizing length buf with
    | nil => simp [bprintstrLoop]
    | cons c str ih =>
        rw [List.length_cons] at *
        rw [bprintstrLoop, Buffer.store_of_lt (by omega), Fault.ok_bind, ih (by omega) _ _ (by omega), ← Nat.add_assoc,
          Mem.storeBytes_cons, Nat.add_right_comm length, Nat.add_assoc]
  simpa [bprintstr] using hloop 0 buf hroom

/-- A pointer. -/
def pointerText (ptr : ℕ) : List (BitVec 8) :=
  if ptr = 0 then literal ['(', 'n', 'i', 'l', ')'] else literal ['0', 'x'] ++ numeral 16 ptr

theorem bprintptr_spec {cap off ptr : ℕ} (hptr : ptr < 2 ^ 64) {buf : Mem}
    (hroom : off + (pointerText ptr).length ≤ cap) :
    bprintptr cap buf off ptr = .ok ((pointerText ptr).length, buf.storeBytes off (pointerText ptr)) := by
  unfold bprintptr pointerText at *
  split_ifs with hnull
  · rw [if_pos hnull] at hroom
    exact bprintstr_spec hroom
  · rw [if_neg hnull, List.length_append] at hroom
    rw [bprintstr_spec (by omega), Fault.ok_bind]
    simp only
    rw [bprintu64_spec (by decide) (by decide) hptr (by omega), Fault.ok_bind, Mem.storeBytes_append, List.length_append]
    rfl

/-- Only pointers of nine digits fit behind the prefix. -/
theorem bprintptr_overflow {ptr : ℕ} (hptr : ptr < 2 ^ 64) (hlarge : 2 ^ 36 ≤ ptr) (buf : Mem) :
    bprintptr printkBufSize buf 0 ptr = .error .outOfBounds := by
  have hlength : 9 < (numeral 16 ptr).length := by
    rw [← Nat.not_le, numeral_length_le_iff (by decide) (by decide)]
    omega
  unfold bprintptr
  rw [if_neg (by omega), bprintstr_spec (by decide), Fault.ok_bind]
  simp only
  rw [bprintu64_overflow (by decide) (by decide) hptr (by decide), Fault.error_bind]
  rw [show (literal ['0', 'x']).length = 2 by decide, printkBufSize]
  omega

end HeavenOS.Printk
