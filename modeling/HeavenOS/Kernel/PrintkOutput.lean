/-
# What `printk` prints

A format with its arguments is a sequence of pieces, and the output should be the text of one
piece after the other. The interpreter sends the characters that a conversion has left in the
buffer, and two things can go wrong: a pointer can be too long for the buffer, and `%i` leaves
`size` as the conversion before it has set it.
-/

import HeavenOS.Kernel.Printk

namespace HeavenOS.Printk

open Lib

/-! ## Pieces -/

/-- A piece of a format: a character outside of conversions, or a conversion with its argument. -/
inductive Piece where
  | char (c : BitVec 8)
  | unsigned (value : BitVec 32)
  | hex (value : BitVec 32)
  | signed (value : BitVec 32)
  | pointer (value : BitVec 64)
  | string (value : List (BitVec 8))
  | errcode (value : BitVec 32)
  | other (c : BitVec 8)
  deriving DecidableEq

/-- The conversion with this character, and the arguments that are left. -/
def parseConversion (c : BitVec 8) (args : List Arg) : Option (Piece × List Arg) :=
  if c = ascii 'u' then match args with
    | .u32 value :: args => some (.unsigned value, args)
    | _ => none
  else if c = ascii 'x' then match args with
    | .u32 value :: args => some (.hex value, args)
    | _ => none
  else if c = ascii 'd' then match args with
    | .s32 value :: args => some (.signed value, args)
    | _ => none
  else if c = ascii 'p' then match args with
    | .ptr value :: args => some (.pointer value, args)
    | _ => none
  else if c = ascii 's' then match args with
    | .str value :: args => some (.string value, args)
    | _ => none
  else if c = ascii 'i' then match args with
    | .s32 value :: args => some (.errcode value, args)
    | _ => none
  else some (.other c, args)

/-- The pieces of a format, from inside of a conversion if `idle` is false; the arguments that
are left, and whether the end is outside of conversions. Nothing if the arguments do not match. -/
def parse : (idle : Bool) → List (BitVec 8) → List Arg → Option (List Piece × List Arg × Bool)
  | idle, [], args => some ([], args, idle)
  | true, c :: fmt, args =>
      if c ≠ ascii '%' then (parse true fmt args).map fun (ps, rest) => (.char c :: ps, rest)
      else parse false fmt args
  | false, c :: fmt, args =>
      match parseConversion c args with
      | some (p, args) => (parse true fmt args).map fun (ps, rest) => (p :: ps, rest)
      | none => none

/-- What a piece stands for. -/
def Piece.text : Piece → List (BitVec 8)
  | char c => [c]
  | unsigned value => numeral 10 value.toNat
  | hex value => numeral 16 value.toNat
  | signed value => signedNumeral 10 value.toInt
  | pointer value => pointerText value.toNat
  | string value => value
  | errcode value => errcodeStr.getD (-value.toInt).toNat []
  | other _ => []

/-- The pieces one after the other. -/
def render (ps : List Piece) : List (BitVec 8) := ps.flatMap Piece.text

/-- The pointer fits into the buffer, and there is a text for the error code. -/
def Piece.Safe : Piece → Prop
  | pointer value => value.toNat < 2 ^ 36
  | errcode value => -3 ≤ value.toInt ∧ value.toInt ≤ 0
  | _ => True

instance : DecidablePred Piece.Safe
  | .pointer value => inferInstanceAs (Decidable (value.toNat < 2 ^ 36))
  | .errcode value => inferInstanceAs (Decidable (-3 ≤ value.toInt ∧ value.toInt ≤ 0))
  | .char _ | .unsigned _ | .hex _ | .signed _ | .string _ | .other _ => isTrue trivial

/-! ## The interpreter, piece by piece -/

/-- The variable `size` behind a piece. -/
def Piece.size (size : ℕ) : Piece → ℕ
  | unsigned value => (unsigned value).text.length
  | hex value => (hex value).text.length
  | signed value => (signed value).text.length
  | pointer value => (pointer value).text.length
  | string _ => 0
  | other _ => 0
  | errcode _ => size
  | char _ => size

/-- The variable `buf` behind a piece. -/
def Piece.buf (buf : Mem) : Piece → Mem
  | unsigned value => buf.storeBytes 0 (unsigned value).text
  | hex value => buf.storeBytes 0 (hex value).text
  | signed value => buf.storeBytes 0 (signed value).text
  | pointer value => buf.storeBytes 0 (pointer value).text
  | _ => buf

/-- What is sent behind the text of a piece. -/
def Piece.stale (buf : Mem) (size : ℕ) : Piece → Except Fault (List (BitVec 8))
  | errcode _ => printkFlush buf size
  | _ => .ok []

/-- The output for the pieces of a format. -/
def printPieces : List Piece → Mem → ℕ → Except Fault (List (BitVec 8))
  | [], _, _ => .ok []
  | p :: ps, buf, size =>
      if p.Safe then do
        let stale ← p.stale buf size
        let rest ← printPieces ps (p.buf buf) (p.size size)
        return p.text ++ stale ++ rest
      else .error .outOfBounds

/-- What has just been written to the buffer is sent. -/
theorem flush_spec {l : List (BitVec 8)} (hl : l.length ≤ printkBufSize) (buf : Mem) :
    printkFlush (buf.storeBytes 0 l) l.length = .ok l := by
  have hcount : intCount l.length = l.length := by
    unfold printkBufSize at hl
    rw [intCount_eq (by omega), if_pos (by omega)]
  unfold printkFlush
  split_ifs with hne
  · rw [hcount, Buffer.loadBytes_of_le hl, Mem.loadBytes_storeBytes]
  · rw [List.length_eq_zero_iff.mp (not_not.mp hne)]

theorem numeral_u32_length (value : BitVec 32) :
    (numeral 10 value.toNat).length ≤ 10 ∧ (numeral 16 value.toNat).length ≤ 8 := by
  have hlt := value.isLt
  rw [numeral_length_le_iff (by decide) (by decide), numeral_length_le_iff (by decide) (by decide)]
  omega

theorem signedNumeral_length (value : BitVec 32) : (signedNumeral 10 value.toInt).length ≤ printkBufSize := by
  have hlo := value.le_toInt
  have hhi := value.toInt_lt
  have hlength {a : ℕ} (ha : a < 10 ^ 10) : (numeral 10 a).length ≤ 10 :=
    (numeral_length_le_iff (by decide) (by decide)).mpr ha
  unfold signedNumeral printkBufSize
  split_ifs
  · exact Nat.succ_le_succ (hlength (by omega))
  · exact (hlength (by omega)).trans (by decide)

theorem pointerText_length {ptr : ℕ} (hptr : ptr < 2 ^ 36) : (pointerText ptr).length ≤ printkBufSize := by
  have hlength : (numeral 16 ptr).length ≤ 9 := (numeral_length_le_iff (by decide) (by decide)).mpr (by omega)
  unfold pointerText printkBufSize
  split_ifs
  · decide
  · rw [List.length_append]
    exact Nat.add_le_add_left hlength 2

/-- A conversion that only writes to the buffer. -/
theorem printkConversion_of_buffered {c : BitVec 8} {l : Locals} {rest : List Arg} {text : List (BitVec 8)}
    (hswitch : printkSwitch c l = .ok ([], ⟨rest, l.buf.storeBytes 0 text, text.length⟩))
    (htext : text.length ≤ printkBufSize) :
    printkConversion c l = .ok (text, ⟨rest, l.buf.storeBytes 0 text, text.length⟩) := by
  rw [printkConversion, hswitch, Fault.ok_bind]
  simp only [flush_spec htext, Fault.ok_bind, List.nil_append]
  rfl

/-- An error code has a text exactly if it is one of the first four. -/
theorem tableEntry_errcodeStr (value : BitVec 32) :
    tableEntry errcodeStr (-value.toInt) =
      if (Piece.errcode value).Safe then .ok (Piece.errcode value).text else .error .outOfBounds := by
  unfold tableEntry
  by_cases hneg : -value.toInt < 0
  · rw [if_pos hneg, if_neg (fun h : (Piece.errcode value).Safe => absurd h.2 (by omega))]
  · rw [if_neg hneg]
    by_cases hlarge : -3 ≤ value.toInt
    · rw [if_pos ⟨hlarge, by omega⟩, Piece.text, List.getD_eq_getElem?_getD]
      have hlt : (-value.toInt).toNat < errcodeStr.length := by
        rw [show errcodeStr.length = 4 by rfl]
        omega
      rw [List.getElem?_eq_getElem hlt]
      rfl
    · rw [if_neg (fun h : (Piece.errcode value).Safe => hlarge h.1), List.getElem?_eq_none]
      rw [show errcodeStr.length = 4 by rfl]
      omega

/-- A conversion does what its piece says. -/
theorem printkConversion_eq {c : BitVec 8} {args rest : List Arg} {p : Piece} (hparse : parseConversion c args = some (p, rest))
    (buf : Mem) (size : ℕ) :
    printkConversion c ⟨args, buf, size⟩ =
      if p.Safe then (p.stale buf size).map fun stale => (p.text ++ stale, ⟨rest, p.buf buf, p.size size⟩)
      else .error .outOfBounds := by
  -- what the buffered conversions, and the others, come down to
  have hbuffered (p : Piece) (hsafe : p.Safe) (hstale : p.stale buf size = .ok []) (hbuf : p.buf buf = buf.storeBytes 0 p.text)
      (hsize : p.size size = p.text.length) (htext : p.text.length ≤ printkBufSize)
      (hswitch : printkSwitch c ⟨args, buf, size⟩ = .ok ([], ⟨rest, buf.storeBytes 0 p.text, p.text.length⟩)) :
      printkConversion c ⟨args, buf, size⟩ =
        if p.Safe then (p.stale buf size).map fun stale => (p.text ++ stale, ⟨rest, p.buf buf, p.size size⟩)
        else .error .outOfBounds := by
    rw [printkConversion_of_buffered hswitch htext, if_pos hsafe, hstale, hbuf, hsize]
    simp [Except.map]
  unfold parseConversion at hparse
  split_ifs at hparse with hu hx hd hp hs hi
  · split at hparse
    · rename_i value args
      obtain ⟨rfl, rfl⟩ := Prod.mk.inj (Option.some.inj hparse)
      have hlength : (numeral 10 value.toNat).length ≤ printkBufSize := (numeral_u32_length value).1.trans (by decide)
      have hcall : bprintu64 printkBufSize buf 0 value.toNat 10 = .ok (_, _) :=
        bprintu64_spec (by decide) (by decide) (value.isLt.trans (by decide)) (by rwa [Nat.zero_add])
      refine hbuffered (.unsigned value) trivial rfl rfl rfl hlength ?_
      rw [printkSwitch, if_pos hu, vaArgU32, Fault.ok_bind]
      simp only [hcall, Fault.ok_bind]
      rfl
    · cases hparse
  · split at hparse
    · rename_i value args
      obtain ⟨rfl, rfl⟩ := Prod.mk.inj (Option.some.inj hparse)
      have hlength : (numeral 16 value.toNat).length ≤ printkBufSize := (numeral_u32_length value).2.trans (by decide)
      have hcall : bprintu64 printkBufSize buf 0 value.toNat 16 = .ok (_, _) :=
        bprintu64_spec (by decide) (by decide) (value.isLt.trans (by decide)) (by rwa [Nat.zero_add])
      refine hbuffered (.hex value) trivial rfl rfl rfl hlength ?_
      rw [printkSwitch, if_neg hu, if_pos hx, vaArgU32, Fault.ok_bind]
      simp only [hcall, Fault.ok_bind]
      rfl
    · cases hparse
  · split at hparse
    · rename_i value args
      obtain ⟨rfl, rfl⟩ := Prod.mk.inj (Option.some.inj hparse)
      have hlength := signedNumeral_length value
      have hlo := value.le_toInt
      have hhi := value.toInt_lt
      have hcall : bprints64 printkBufSize buf 0 value.toInt 10 = .ok (_, _) :=
        bprints64_spec (by decide) (by decide) (by omega) (by omega) (by rwa [Nat.zero_add])
      refine hbuffered (.signed value) trivial rfl rfl rfl hlength ?_
      rw [printkSwitch, if_neg hu, if_neg hx, if_pos hd, vaArgS32, Fault.ok_bind]
      simp only [hcall, Fault.ok_bind]
      rfl
    · cases hparse
  · split at hparse
    · rename_i value args
      obtain ⟨rfl, rfl⟩ := Prod.mk.inj (Option.some.inj hparse)
      by_cases hsafe : (Piece.pointer value).Safe
      · have hlength := pointerText_length hsafe
        have hcall : bprintptr printkBufSize buf 0 value.toNat = .ok (_, _) :=
          bprintptr_spec value.isLt (by rwa [Nat.zero_add])
        refine hbuffered (.pointer value) hsafe rfl rfl rfl hlength ?_
        rw [printkSwitch, if_neg hu, if_neg hx, if_neg hd, if_pos hp, vaArgPtr, Fault.ok_bind]
        simp only [hcall, Fault.ok_bind]
        rfl
      · rw [if_neg hsafe, printkConversion, printkSwitch, if_neg hu, if_neg hx, if_neg hd, if_pos hp, vaArgPtr, Fault.ok_bind]
        simp only [bprintptr_overflow value.isLt (Nat.not_lt.mp hsafe), Fault.error_bind]
    · cases hparse
  · split at hparse
    · rename_i value args
      obtain ⟨rfl, rfl⟩ := Prod.mk.inj (Option.some.inj hparse)
      rw [if_pos (show (Piece.string value).Safe from trivial), printkConversion, printkSwitch, if_neg hu, if_neg hx,
        if_neg hd, if_neg hp, if_pos hs, vaArgStr, Fault.ok_bind]
      rfl
    · cases hparse
  · split at hparse
    · rename_i value args
      obtain ⟨rfl, rfl⟩ := Prod.mk.inj (Option.some.inj hparse)
      rw [printkConversion, printkSwitch, if_neg hu, if_neg hx, if_neg hd, if_neg hp, if_neg hs, if_pos hi, vaArgS32,
        Fault.ok_bind]
      simp only [tableEntry_errcodeStr]
      split_ifs with hsafe
      · cases hflush : printkFlush buf size <;>
          simp [hflush, bind, Except.bind, pure, Except.pure, Except.map, Piece.stale, Piece.buf, Piece.size]
      · rfl
    · cases hparse
  · obtain ⟨rfl, rfl⟩ := Prod.mk.inj (Option.some.inj hparse)
    rw [if_pos (show (Piece.other c).Safe from trivial), printkConversion, printkSwitch, if_neg hu, if_neg hx, if_neg hd,
      if_neg hp, if_neg hs, if_neg hi]
    rfl

/-- The loop over a format prints its pieces. -/
theorem printkLoop_eq {idle last : Bool} {fmt : List (BitVec 8)} {args rest : List Arg} {ps : List Piece}
    (hparse : parse idle fmt args = some (ps, rest, last)) (buf : Mem) (size : ℕ) :
    printkLoop fmt idle ⟨args, buf, size⟩ = printPieces ps buf size := by
  induction fmt generalizing idle args ps buf size with
  | nil =>
      rw [parse] at hparse
      obtain ⟨rfl, -⟩ := Prod.mk.inj (Option.some.inj hparse)
      rfl
  | cons c fmt ih =>
      cases idle with
      | true =>
          rw [parse] at hparse
          rw [printkLoop, if_pos rfl]
          split_ifs at hparse ⊢ with hc
          · obtain ⟨⟨ps', rest', last'⟩, hrest, heq⟩ := Option.map_eq_some_iff.mp hparse
            simp only [Prod.mk.injEq] at heq
            obtain ⟨rfl, rfl, rfl⟩ := heq
            rw [ih hrest, printPieces, if_pos (show (Piece.char c).Safe from trivial)]
            rfl
          · exact ih hparse buf size
      | false =>
          rw [parse] at hparse
          cases hconv : parseConversion c args with
          | none =>
              rw [hconv] at hparse
              cases hparse
          | some next =>
              obtain ⟨p, args'⟩ := next
              rw [hconv] at hparse
              obtain ⟨⟨ps', rest', last'⟩, hrest, heq⟩ := Option.map_eq_some_iff.mp hparse
              simp only [Prod.mk.injEq] at heq
              obtain ⟨rfl, rfl, rfl⟩ := heq
              rw [printkLoop, if_neg Bool.false_ne_true, printkConversion_eq hconv, printPieces]
              split_ifs with hsafe
              · cases p.stale buf size with
                | error e => rfl
                | ok stale =>
                    simp only [Except.map, Fault.ok_bind]
                    rw [ih hrest]
              · rfl

/-- The output of a call whose arguments match the format. -/
theorem vprintkColor_eq {last : Bool} {fmt : List (BitVec 8)} {args rest : List Arg} {ps : List Piece}
    (hparse : parse true fmt args = some (ps, rest, last)) (buf : Mem) (size : ℕ) :
    vprintkColor true fmt args buf size = printPieces ps buf size := by
  rw [vprintkColor, kassert_of_true rfl]
  exact printkLoop_eq hparse buf size

/-! ## Staying inside of the buffers -/

/-- The first conversion is `%i`. -/
def StartsWithErrcode : List Piece → Prop
  | [] => False
  | .char _ :: ps => StartsWithErrcode ps
  | .errcode _ :: _ => True
  | _ :: _ => False

theorem printkFlush_of_le {size : ℕ} (hsize : size ≤ printkBufSize) (buf : Mem) :
    printkFlush buf size = .ok (buf.loadBytes 0 size) := by
  have hcount : intCount size = size := by
    unfold printkBufSize at hsize
    rw [intCount_eq (by omega), if_pos (by omega)]
  unfold printkFlush
  split_ifs with hne
  · rw [hcount, Buffer.loadBytes_of_le hsize]
  · rw [not_not.mp hne]
    rfl

theorem printPieces_cons {p : Piece} {buf : Mem} {size : ℕ} {stale : List (BitVec 8)} (hsafe : p.Safe)
    (hstale : p.stale buf size = .ok stale) (ps : List Piece) :
    printPieces (p :: ps) buf size = (printPieces ps (p.buf buf) (p.size size)).map (p.text ++ stale ++ ·) := by
  rw [printPieces, if_pos hsafe, hstale]
  rfl

theorem printPieces_of_not_safe {p : Piece} (hsafe : ¬p.Safe) (ps : List Piece) (buf : Mem) (size : ℕ) :
    printPieces (p :: ps) buf size = .error .outOfBounds := by
  rw [printPieces, if_neg hsafe]

/-- What a conversion other than `%i` leaves in `size` fits into the buffer. -/
theorem Piece.size_le {p : Piece} (hsafe : p.Safe) {size : ℕ} (hsize : size ≤ printkBufSize) : p.size size ≤ printkBufSize := by
  cases p with
  | unsigned value => exact (numeral_u32_length value).1.trans (by decide)
  | hex value => exact (numeral_u32_length value).2.trans (by decide)
  | signed value => exact signedNumeral_length value
  | pointer value => exact pointerText_length hsafe
  | string | other => exact Nat.zero_le _
  | errcode | char => exact hsize

/-- If the first conversion sets `size`, nothing depends on what it was before. -/
theorem printPieces_start {p : Piece} {ps : List Piece} (hstart : ¬StartsWithErrcode (p :: ps)) (buf : Mem) (size : ℕ) :
    p.stale buf size = .ok [] ∧ (¬StartsWithErrcode ps ∨ p.size size = p.size 0) := by
  cases p with
  | char => exact ⟨rfl, Or.inl hstart⟩
  | errcode => exact absurd trivial hstart
  | unsigned | hex | signed | pointer | string | other => exact ⟨rfl, Or.inr rfl⟩

/-- Safe pieces are printed if `size` starts inside of the buffer, or is not used. -/
theorem printPieces_ok {ps : List Piece} {buf : Mem} {size : ℕ} (hsafe : ∀ p ∈ ps, p.Safe)
    (hsize : size ≤ printkBufSize ∨ ¬StartsWithErrcode ps) : ∃ out, printPieces ps buf size = .ok out := by
  induction ps generalizing buf size with
  | nil => exact ⟨[], rfl⟩
  | cons p ps ih =>
      have hp := hsafe p List.mem_cons_self
      have hrest : ∀ q ∈ ps, q.Safe := fun q hq => hsafe q (List.mem_cons_of_mem _ hq)
      rcases hsize with hsize | hstart
      · obtain ⟨out, hout⟩ := @ih (p.buf buf) (p.size size) hrest (Or.inl (Piece.size_le hp hsize))
        obtain ⟨stale, hstale⟩ : ∃ stale, p.stale buf size = .ok stale := by
          cases p with
          | errcode => exact ⟨_, printkFlush_of_le hsize buf⟩
          | char | unsigned | hex | signed | pointer | string | other => exact ⟨[], rfl⟩
        exact ⟨_, by rw [printPieces_cons hp hstale, hout]; rfl⟩
      · obtain ⟨hstale, hnext⟩ := printPieces_start hstart buf size
        have hnext' : p.size size ≤ printkBufSize ∨ ¬StartsWithErrcode ps := by
          rcases hnext with hnext | hnext
          · exact Or.inr hnext
          · rw [hnext]
            exact Or.inl (Piece.size_le hp (Nat.zero_le _))
        obtain ⟨out, hout⟩ := @ih (p.buf buf) (p.size size) hrest hnext'
        exact ⟨_, by rw [printPieces_cons hp hstale, hout]; rfl⟩

/-- Pieces that are printed are safe. -/
theorem safe_of_printPieces {ps : List Piece} {buf : Mem} {size : ℕ} {out : List (BitVec 8)}
    (h : printPieces ps buf size = .ok out) : ∀ p ∈ ps, p.Safe := by
  induction ps generalizing buf size out with
  | nil => exact fun p hp => absurd hp List.not_mem_nil
  | cons p ps ih =>
      by_cases hp : p.Safe
      · cases hstale : p.stale buf size with
        | error e =>
            rw [printPieces, if_pos hp, hstale] at h
            cases h
        | ok stale =>
            rw [printPieces_cons hp hstale] at h
            cases hrest : printPieces ps (p.buf buf) (p.size size) with
            | error e =>
                rw [hrest] at h
                cases h
            | ok rest => exact List.forall_mem_cons.mpr ⟨hp, ih hrest⟩
      · rw [printPieces_of_not_safe hp] at h
        cases h

/-- If the first conversion is `%i`, too large a `size` leads out of the buffer. -/
theorem printPieces_errcode {ps : List Piece} (hstart : StartsWithErrcode ps) (buf : Mem) :
    printPieces ps buf (printkBufSize + 1) = .error .outOfBounds := by
  induction ps with
  | nil => exact hstart.elim
  | cons p ps ih =>
      cases p with
      | char c =>
          rw [printPieces_cons (p := .char c) trivial rfl]
          exact congrArg (Except.map _) (ih hstart)
      | errcode value =>
          rw [printPieces]
          split_ifs
          · have hflush : printkFlush buf (printkBufSize + 1) = .error .outOfBounds := by
              rw [printkFlush, if_pos (by decide), show intCount (printkBufSize + 1) = 12 by decide]
              exact Buffer.loadBytes_of_gt (by decide)
            rw [Piece.stale, hflush]
            rfl
          · rfl
      | unsigned | hex | signed | pointer | string | other => exact hstart.elim

/-- A call never leaves its buffer or the table of error codes, whatever the stack holds, exactly
if all pointers fit, all error codes have a text, and the first conversion is not `%i`. -/
theorem printk_in_bounds {fmt : List (BitVec 8)} {args rest : List Arg} {ps : List Piece} {last : Bool}
    (hparse : parse true fmt args = some (ps, rest, last)) :
    (∀ buf, ∀ size < 2 ^ 64, ∃ out, vprintkColor true fmt args buf size = .ok out) ↔
      (∀ p ∈ ps, p.Safe) ∧ ¬StartsWithErrcode ps := by
  simp only [vprintkColor_eq hparse]
  constructor
  · intro h
    refine ⟨?_, fun hstart => ?_⟩
    · obtain ⟨out, hout⟩ := h (fun _ => 0) 0 (by decide)
      exact safe_of_printPieces hout
    · obtain ⟨out, hout⟩ := h (fun _ => 0) (printkBufSize + 1) (by decide)
      rw [printPieces_errcode hstart] at hout
      cases hout
  · rintro ⟨hsafe, hstart⟩ buf size -
    exact printPieces_ok hsafe (Or.inr hstart)

/-! ## Printing the pieces -/

/-- Every `%i` comes when `size` is zero; `stale` says whether it may be another number before. -/
def Clean : (stale : Bool) → List Piece → Prop
  | _, [] => True
  | stale, .char _ :: ps => Clean stale ps
  | stale, .errcode _ :: ps => stale = false ∧ Clean stale ps
  | _, .string _ :: ps => Clean false ps
  | _, .other _ :: ps => Clean false ps
  | _, .unsigned _ :: ps => Clean true ps
  | _, .hex _ :: ps => Clean true ps
  | _, .signed _ :: ps => Clean true ps
  | _, .pointer _ :: ps => Clean true ps

theorem Clean.mono {ps : List Piece} (h : Clean true ps) (stale : Bool) : Clean stale ps := by
  induction ps with
  | nil => trivial
  | cons p ps ih =>
      cases p with
      | char => exact ih h
      | errcode => cases h.1
      | unsigned | hex | signed | pointer | string | other => exact h

theorem Clean.append {stale : Bool} {ps ps' : List Piece} (h : Clean stale ps) (h' : Clean true ps') :
    Clean stale (ps ++ ps') := by
  induction ps generalizing stale with
  | nil => exact h'.mono stale
  | cons p ps ih =>
      cases p with
      | errcode => exact ⟨h.1, ih h.2⟩
      | char | unsigned | hex | signed | pointer | string | other => exact ih h

theorem render_cons (p : Piece) (ps : List Piece) : render (p :: ps) = p.text ++ render ps := List.flatMap_cons

theorem render_append (ps ps' : List Piece) : render (ps ++ ps') = render ps ++ render ps' := List.flatMap_append

/-- Clean and safe pieces are printed one after the other. -/
theorem printPieces_render {stale : Bool} {ps : List Piece} (hclean : Clean stale ps) (hsafe : ∀ p ∈ ps, p.Safe) {size : ℕ}
    (hsize : stale = false → size = 0) (buf : Mem) : printPieces ps buf size = .ok (render ps) := by
  induction ps generalizing stale size buf with
  | nil => rfl
  | cons p ps ih =>
      have hp := hsafe p List.mem_cons_self
      have hrest : ∀ q ∈ ps, q.Safe := fun q hq => hsafe q (List.mem_cons_of_mem _ hq)
      have hnext (hstale : p.stale buf size = .ok []) (stale' : Bool) (hclean' : Clean stale' ps)
          (hsize' : stale' = false → p.size size = 0) : printPieces (p :: ps) buf size = .ok (render (p :: ps)) := by
        rw [printPieces_cons hp hstale, ih hclean' hrest hsize', render_cons]
        simp [Except.map]
      cases p with
      | char => exact hnext rfl stale hclean hsize
      | errcode value =>
          have hzero := hsize hclean.1
          refine hnext ?_ stale hclean.2 hsize
          rw [Piece.stale, hzero]
          rfl
      | string | other => exact hnext rfl false hclean fun _ => rfl
      | unsigned | hex | signed | pointer => exact hnext rfl true hclean fun h => absurd h (by decide)

/-- What `u`, `x`, `d` and `p` leave in `size` is not zero. -/
theorem text_ne_nil (value : BitVec 32) (ptr : ℕ) :
    numeral 10 value.toNat ≠ [] ∧ numeral 16 value.toNat ≠ [] ∧ signedNumeral 10 value.toInt ≠ [] ∧ pointerText ptr ≠ [] := by
  refine ⟨numeral_ne_nil _ _, numeral_ne_nil _ _, ?_, ?_⟩
  · unfold signedNumeral
    split_ifs
    · exact List.cons_ne_nil _ _
    · exact numeral_ne_nil _ _
  · unfold pointerText
    split_ifs
    · exact List.cons_ne_nil _ _
    · exact List.cons_ne_nil _ _

/-- The output is never shorter than the pieces, and longer if they are not clean. -/
theorem length_of_printPieces {ps : List Piece} {buf : Mem} {size : ℕ} (hsize : size ≤ printkBufSize) {out : List (BitVec 8)}
    (h : printPieces ps buf size = .ok out) :
    (render ps).length ≤ out.length ∧ (out.length = (render ps).length → Clean (decide (size ≠ 0)) ps) := by
  induction ps generalizing buf size out with
  | nil =>
      obtain rfl := Except.ok.inj h
      exact ⟨le_refl _, fun _ => trivial⟩
  | cons p ps ih =>
      have hp := safe_of_printPieces h p List.mem_cons_self
      have hnext (stale : List (BitVec 8)) (hstale : p.stale buf size = .ok stale) :
          ∃ rest : List (BitVec 8), out.length = p.text.length + stale.length + rest.length ∧ (render ps).length ≤ rest.length ∧
            (rest.length = (render ps).length → Clean (decide (p.size size ≠ 0)) ps) := by
        rw [printPieces_cons hp hstale] at h
        cases hrest : printPieces ps (p.buf buf) (p.size size) with
        | error e =>
            rw [hrest] at h
            cases h
        | ok rest =>
            rw [hrest] at h
            obtain rfl := Except.ok.inj h
            exact ⟨rest, by simp [Nat.add_assoc], ih (Piece.size_le hp hsize) hrest⟩
      rw [render_cons, List.length_append]
      -- the four conversions that write to the buffer
      have hbuffered (hstale : p.stale buf size = .ok []) (hpos : p.size size ≠ 0)
          (hclean : Clean true ps → Clean (decide (size ≠ 0)) (p :: ps)) :
          p.text.length + (render ps).length ≤ out.length ∧
            (out.length = p.text.length + (render ps).length → Clean (decide (size ≠ 0)) (p :: ps)) := by
        obtain ⟨rest, hlength, hle, heq⟩ := hnext [] hstale
        rw [decide_eq_true hpos] at heq
        rw [List.length_nil] at hlength
        exact ⟨by omega, fun h => hclean (heq (by omega))⟩
      cases p with
      | char | string | other =>
          obtain ⟨rest, hlength, hle, heq⟩ := hnext [] rfl
          rw [List.length_nil] at hlength
          exact ⟨by omega, fun h => heq (by omega)⟩
      | errcode value =>
          obtain ⟨rest, hlength, hle, heq⟩ := hnext _ (printkFlush_of_le hsize buf)
          rw [show (buf.loadBytes 0 size).length = size by simp [Mem.loadBytes]] at hlength
          exact ⟨by omega, fun h => ⟨decide_eq_false (by omega), heq (by omega)⟩⟩
      | unsigned value =>
          exact hbuffered rfl (fun h => (text_ne_nil value 0).1 (List.eq_nil_of_length_eq_zero h)) id
      | hex value =>
          exact hbuffered rfl (fun h => (text_ne_nil value 0).2.1 (List.eq_nil_of_length_eq_zero h)) id
      | signed value =>
          exact hbuffered rfl (fun h => (text_ne_nil value 0).2.2.1 (List.eq_nil_of_length_eq_zero h)) id
      | pointer value =>
          exact hbuffered rfl (fun h => (text_ne_nil 0 value.toNat).2.2.2 (List.eq_nil_of_length_eq_zero h)) id

theorem parseConversion_append {c : BitVec 8} {args args' rest : List Arg} {p : Piece}
    (h : parseConversion c args = some (p, rest)) : parseConversion c (args ++ args') = some (p, rest ++ args') := by
  unfold parseConversion at *
  split_ifs at h ⊢
  all_goals first
    | (split at h
       · obtain ⟨rfl, rfl⟩ := Prod.mk.inj (Option.some.inj h)
         rfl
       · cases h)
    | (obtain ⟨rfl, rfl⟩ := Prod.mk.inj (Option.some.inj h)
       rfl)

/-- Formats that end outside of conversions can be put together. -/
theorem parse_append {idle last : Bool} {fmt fmt' : List (BitVec 8)} {args args' rest : List Arg} {ps ps' : List Piece}
    (h : parse idle fmt args = some (ps, [], true)) (h' : parse true fmt' args' = some (ps', rest, last)) :
    parse idle (fmt ++ fmt') (args ++ args') = some (ps ++ ps', rest, last) := by
  induction fmt generalizing idle args ps with
  | nil =>
      rw [parse] at h
      simp only [Option.some.injEq, Prod.mk.injEq] at h
      obtain ⟨rfl, rfl, rfl⟩ := h
      exact h'
  | cons c fmt ih =>
      cases idle with
      | true =>
          rw [parse] at h
          rw [List.cons_append, parse]
          split_ifs at h ⊢ with hc
          · obtain ⟨⟨ps₀, rest₀, last₀⟩, hrest, heq⟩ := Option.map_eq_some_iff.mp h
            simp only [Prod.mk.injEq] at heq
            obtain ⟨rfl, rfl, rfl⟩ := heq
            rw [ih hrest]
            rfl
          · exact ih h
      | false =>
          rw [parse] at h
          cases hconv : parseConversion c args with
          | none =>
              rw [hconv] at h
              cases h
          | some next =>
              obtain ⟨p, args₀⟩ := next
              rw [hconv] at h
              obtain ⟨⟨ps₀, rest₀, last₀⟩, hrest, heq⟩ := Option.map_eq_some_iff.mp h
              simp only [Prod.mk.injEq] at heq
              obtain ⟨rfl, rfl, rfl⟩ := heq
              rw [List.cons_append, parse, parseConversion_append hconv]
              simp only [ih hrest]
              rfl

/-- A call prints its pieces one after the other, whatever the stack holds, exactly if all
pointers fit, all error codes have a text, and every `%i` comes when `size` is zero. Printing two
formats put together is then the same as printing one after the other. -/
theorem printk_concatenates {fmt : List (BitVec 8)} {args rest : List Arg} {ps : List Piece} {last : Bool}
    (hparse : parse true fmt args = some (ps, rest, last)) :
    ((∀ buf, ∀ size < 2 ^ 64, vprintkColor true fmt args buf size = .ok (render ps)) ↔
      (∀ p ∈ ps, p.Safe) ∧ Clean true ps) ∧
    ∀ fmt' args' rest' ps' last', rest = [] → last = true → parse true fmt' args' = some (ps', rest', last') →
      (∀ p ∈ ps ++ ps', p.Safe) → Clean true ps → Clean true ps' → ∀ buf size buf' size' buf'' size'',
        ∃ out out', vprintkColor true fmt args buf size = .ok out ∧ vprintkColor true fmt' args' buf' size' = .ok out' ∧
          vprintkColor true (fmt ++ fmt') (args ++ args') buf'' size'' = .ok (out ++ out') := by
  refine ⟨⟨fun h => ?_, fun ⟨hsafe, hclean⟩ buf size _ => ?_⟩, ?_⟩
  · have hone := h (fun _ => 0) 1 (by decide)
    rw [vprintkColor_eq hparse] at hone
    exact ⟨safe_of_printPieces hone, (length_of_printPieces (by decide) hone).2 rfl⟩
  · rw [vprintkColor_eq hparse]
    exact printPieces_render hclean hsafe (fun h => absurd h (by decide)) buf
  · rintro fmt' args' rest' ps' last' rfl rfl hparse' hsafe hclean hclean' buf size buf' size' buf'' size''
    have hsafe₁ : ∀ p ∈ ps, p.Safe := fun p hp => hsafe p (List.mem_append_left _ hp)
    have hsafe₂ : ∀ p ∈ ps', p.Safe := fun p hp => hsafe p (List.mem_append_right _ hp)
    refine ⟨render ps, render ps', ?_, ?_, ?_⟩
    · rw [vprintkColor_eq hparse]
      exact printPieces_render hclean hsafe₁ (fun h => absurd h (by decide)) buf
    · rw [vprintkColor_eq hparse']
      exact printPieces_render hclean' hsafe₂ (fun h => absurd h (by decide)) buf'
    · rw [vprintkColor_eq (parse_append hparse hparse'), ← render_append]
      exact printPieces_render (hclean.append hclean') hsafe (fun h => absurd h (by decide)) buf''

/-- `"n=%u: %s%i"` -/
def sampleFormat : List (BitVec 8) := literal ['n', '=', '%', 'u', ':', ' ', '%', 's', '%', 'i']

/-- `7`, `"x"` and `-EINVAL`. -/
def sampleArgs : List Arg := [.u32 7, .str (literal ['x']), .s32 (-3)]

theorem printk_in_bounds_sample : ∃ out, vprintkColor true sampleFormat sampleArgs (fun _ => 0) 5 = .ok out := by
  have hparse : parse true sampleFormat sampleArgs =
      some ([.char (ascii 'n'), .char (ascii '='), .unsigned 7, .char (ascii ':'), .char (ascii ' '),
        .string (literal ['x']), .errcode (-3)], [], true) := by decide
  exact (printk_in_bounds hparse).mpr ⟨by decide, fun h => h⟩ _ 5 (by decide)

theorem printk_concatenates_sample :
    vprintkColor true sampleFormat sampleArgs (fun _ => 0) 5 =
      .ok (literal ['n', '=', '7', ':', ' ', 'x'] ++ literal ['i', 'n', 'v', 'a', 'l', 'i', 'd', ' ', 'v', 'a', 'l', 'u', 'e']) := by
  have hparse : parse true sampleFormat sampleArgs =
      some ([.char (ascii 'n'), .char (ascii '='), .unsigned 7, .char (ascii ':'), .char (ascii ' '),
        .string (literal ['x']), .errcode (-3)], [], true) := by decide
  have hprint := (printk_concatenates hparse).1.mpr ⟨by decide, rfl, trivial⟩ (fun _ => 0) 5 (by decide)
  rw [hprint]
  simp [render, Piece.text, numeral, digitChar]
  decide

/-- A pointer into the direct mapping, as the drivers print it, does not fit into the buffer; for
`-ECHILD` there is no text. -/
theorem printk_out_of_bounds :
    vprintkColor true (literal ['%', 'p']) [.ptr 0xffff888000000000] (fun _ => 0) 0 = .error .outOfBounds ∧
      vprintkColor true (literal ['%', 'i']) [.s32 (-4)] (fun _ => 0) 0 = .error .outOfBounds ∧
      vprintkColor true (literal ['%', 'i']) [.s32 0] (fun _ => 0) 12 = .error .outOfBounds := by
  refine ⟨by decide, by decide, by decide⟩

/-- `%u%i` prints the number twice. -/
theorem printk_repeats :
    parse true (literal ['%', 'u', '%', 'i']) [.u32 7, .s32 0] = some ([.unsigned 7, .errcode 0], [], true) ∧
      render [.unsigned 7, .errcode 0] = literal ['7', 'n', 'o', ' ', 'e', 'r', 'r', 'o', 'r'] ∧
      vprintkColor true (literal ['%', 'u', '%', 'i']) [.u32 7, .s32 0] (fun _ => 0) 0 =
        .ok (literal ['7', 'n', 'o', ' ', 'e', 'r', 'r', 'o', 'r', '7']) := by
  refine ⟨by decide, ?_, by decide⟩
  simp [render, Piece.text, numeral, digitChar]
  decide

end HeavenOS.Printk
