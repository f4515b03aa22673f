/-
# Reading what was printed

`bprintu64` and `bprints64` print a number in a base. The text is a numeral of that base, and
reading it gives the number back, so that different numbers are never printed alike.
-/

import HeavenOS.Kernel.Printk

namespace HeavenOS.Printk

open Lib

/-! ## Reading -/

/-- The value of a character as a digit. -/
def digitValue (c : BitVec 8) : Option ℕ :=
  if ascii '0' ≤ c ∧ c ≤ ascii '9' then some (c.toNat - (ascii '0').toNat)
  else if ascii 'a' ≤ c ∧ c ≤ ascii 'f' then some (10 + (c.toNat - (ascii 'a').toNat))
  else none

/-- Reading from left to right, with the value `acc` of what has been read. -/
def readDigits (base : ℕ) : (acc : ℕ) → List (BitVec 8) → Option ℕ
  | acc, [] => some acc
  | acc, c :: l =>
      match digitValue c with
      | none => none
      | some d => if d < base then readDigits base (acc * base + d) l else none

/-- The value of a numeral. -/
def readNumeral (base : ℕ) (l : List (BitVec 8)) : Option ℕ := if l = [] then none else readDigits base 0 l

/-- The text is the numeral of a number: digits of the base, without a leading zero, and read
as a numeral they give the number. -/
structure IsNumeral (base a : ℕ) (l : List (BitVec 8)) : Prop where
  digits : ∀ c ∈ l, ∃ d < base, digitValue c = some d
  leading : l.head? = some (ascii '0') → a = 0
  zero : a = 0 → l = [ascii '0']
  value : readNumeral base l = some a

/-- The writer stores the text where there is room for it, changes nothing else, and returns
the length. -/
def Prints (writer : (cap : ℕ) → (buf : Mem) → (off : ℕ) → Except Fault (ℕ × Mem)) (l : List (BitVec 8)) : Prop :=
  ∀ cap buf off, off + l.length ≤ cap → writer cap buf off = .ok (l.length, buf.storeBytes off l)

/-- A writer prints one text only. -/
theorem Prints.unique {writer : (cap : ℕ) → (buf : Mem) → (off : ℕ) → Except Fault (ℕ × Mem)} {l l' : List (BitVec 8)}
    (h : Prints writer l) (h' : Prints writer l') : l = l' := by
  have hone := h (l.length + l'.length) (fun _ => 0) 0 (by omega)
  have htwo := h' (l.length + l'.length) (fun _ => 0) 0 (by omega)
  obtain ⟨hlength, hbuf⟩ := Prod.mk.inj (Except.ok.inj (hone.symm.trans htwo))
  calc l = (Mem.storeBytes (fun _ => 0) 0 l).loadBytes 0 l.length := (Mem.loadBytes_storeBytes _ _ l).symm
    _ = (Mem.storeBytes (fun _ => 0) 0 l').loadBytes 0 l'.length := by rw [hbuf, hlength]
    _ = l' := Mem.loadBytes_storeBytes _ _ l'

/-! ## Numerals -/

theorem digitValue_digitChar {d : ℕ} (hd : d < 16) : digitValue (digitChar d) = some d := by
  interval_cases d <;> decide

theorem readDigits_append (base acc : ℕ) (l l' : List (BitVec 8)) :
    readDigits base acc (l ++ l') = (readDigits base acc l).bind fun acc => readDigits base acc l' := by
  induction l generalizing acc with
  | nil => rfl
  | cons c l ih =>
      simp only [List.cons_append, readDigits]
      cases digitValue c with
      | none => rfl
      | some d =>
          simp only
          split_ifs
          · exact ih _
          · rfl

section Numerals

variable {base : ℕ} (hbase' : base ≤ 16)

include hbase'

/-- The digits of a number, the last one first, are read as the number. -/
theorem readDigits_reverse {ds : List ℕ} (hds : ∀ d ∈ ds, d < base) (acc : ℕ) :
    readDigits base acc (ds.map digitChar).reverse = some (acc * base ^ ds.length + Nat.ofDigits base ds) := by
  induction ds generalizing acc with
  | nil => simp [readDigits]
  | cons d ds ih =>
      have hd := hds d List.mem_cons_self
      rw [List.map_cons, List.reverse_cons, readDigits_append, ih fun x hx => hds x (List.mem_cons_of_mem _ hx)]
      simp only [Option.bind_some, readDigits, digitValue_digitChar (lt_of_lt_of_le hd hbase'), if_pos hd, Nat.ofDigits_cons,
        List.length_cons]
      congr 1
      ring

variable (hbase : 2 ≤ base)

include hbase

theorem numeral_isNumeral (a : ℕ) : IsNumeral base a (numeral base a) := by
  have hdigit {d : ℕ} (hd : d ∈ Nat.digits base a) : d < base := Nat.digits_lt_base hbase hd
  refine ⟨fun c hc => ?_, fun hhead => ?_, fun ha => if_pos ha, ?_⟩
  · unfold numeral at hc
    split_ifs at hc with ha
    · rw [List.mem_singleton.mp hc]
      exact ⟨0, by omega, rfl⟩
    · obtain ⟨d, hd, rfl⟩ := List.mem_map.mp (List.mem_reverse.mp hc)
      exact ⟨d, hdigit hd, digitValue_digitChar (lt_of_lt_of_le (hdigit hd) hbase')⟩
  · by_contra ha
    have hne : Nat.digits base a ≠ [] := Nat.digits_ne_nil_iff_ne_zero.mpr ha
    rw [numeral, if_neg ha, List.head?_reverse, List.getLast?_map, List.getLast?_eq_some_getLast hne] at hhead
    -- the first character is that of the last digit, which is not zero
    have hlast := Nat.getLast_digit_ne_zero base ha
    have hlt := hdigit (List.getLast_mem hne)
    have hvalue := digitValue_digitChar (lt_of_lt_of_le hlt hbase')
    rw [Option.some.inj hhead] at hvalue
    exact hlast (Option.some.inj hvalue).symm
  · rw [readNumeral, if_neg (numeral_ne_nil base a)]
    unfold numeral
    split_ifs with ha
    · have hzero : digitValue (ascii '0') = some 0 := by decide
      simp [readDigits, hzero, ha, show 0 < base by omega]
    · rw [readDigits_reverse hbase' (fun d hd => hdigit hd), Nat.ofDigits_digits, Nat.zero_mul, Nat.zero_add]

end Numerals

/-! ## Printing -/

/-- `bprintu64` for a number and a base. -/
def printU64 (base a : ℕ) : (cap : ℕ) → (buf : Mem) → (off : ℕ) → Except Fault (ℕ × Mem) :=
  fun cap buf off => bprintu64 cap buf off a base

/-- `bprints64` for a number and a base. -/
def printS64 (base : ℕ) (a : ℤ) : (cap : ℕ) → (buf : Mem) → (off : ℕ) → Except Fault (ℕ × Mem) :=
  fun cap buf off => bprints64 cap buf off a base

/-- Printing in a base is inverse to reading. Unsigned numbers are printed as their numeral,
signed ones as that of the absolute value, behind a minus sign exactly if they are negative,
and different numbers have different texts. -/
structure PrintsInversely (base : ℕ) : Prop where
  unsigned : ∀ a < 2 ^ 64, ∃ l, Prints (printU64 base a) l ∧ IsNumeral base a l
  signed : ∀ a : ℤ, -2 ^ 63 < a → a < 2 ^ 63 → ∃ l, Prints (printU64 base a.natAbs) l ∧
    Prints (printS64 base a) (if a < 0 then ascii '-' :: l else l)
  unsigned_inj : ∀ a < 2 ^ 64, ∀ b < 2 ^ 64, ∀ l, Prints (printU64 base a) l → Prints (printU64 base b) l → a = b
  signed_inj : ∀ a b : ℤ, -2 ^ 63 < a → a < 2 ^ 63 → -2 ^ 63 < b → b < 2 ^ 63 →
    ∀ l, Prints (printS64 base a) l → Prints (printS64 base b) l → a = b

section Printing

variable {base : ℕ} (hbase : 2 ≤ base) (hbase' : base ≤ 16)

include hbase hbase'

theorem printU64_prints {a : ℕ} (ha : a < 2 ^ 64) : Prints (printU64 base a) (numeral base a) :=
  fun _ _ _ hroom => bprintu64_spec hbase hbase' ha hroom

theorem printS64_prints {a : ℤ} (hlo : -2 ^ 63 < a) (hhi : a < 2 ^ 63) :
    Prints (printS64 base a) (if a < 0 then ascii '-' :: numeral base a.natAbs else numeral base a.natAbs) := by
  have htext : signedNumeral base a = if a < 0 then ascii '-' :: numeral base a.natAbs else numeral base a.natAbs := by
    unfold signedNumeral
    split_ifs with hneg
    · rw [show (-a).toNat = a.natAbs by omega]
    · rw [show a.toNat = a.natAbs by omega]
  rw [← htext]
  exact fun _ _ _ hroom => bprints64_spec hbase hbase' (le_of_lt hlo) hhi hroom

/-- A number is what its numeral is read as. -/
theorem numeral_inj {a b : ℕ} (h : numeral base a = numeral base b) : a = b := by
  have hvalue := (numeral_isNumeral hbase' hbase a).value
  rw [h, (numeral_isNumeral hbase' hbase b).value] at hvalue
  exact (Option.some.inj hvalue).symm

/-- A minus sign is not a digit. -/
theorem numeral_ne_minus {a : ℕ} {l : List (BitVec 8)} : numeral base a ≠ ascii '-' :: l := by
  intro heq
  obtain ⟨d, -, hd⟩ := (numeral_isNumeral hbase' hbase a).digits (ascii '-') (by rw [heq]; exact List.mem_cons_self)
  have hminus : digitValue (ascii '-') = none := by decide
  rw [hminus] at hd
  cases hd

/-- In every base up to sixteen printing is inverse to reading. -/
theorem prints_inversely : PrintsInversely base where
  unsigned a ha := ⟨_, printU64_prints hbase hbase' ha, numeral_isNumeral hbase' hbase a⟩
  signed a hlo hhi := ⟨_, printU64_prints hbase hbase' (by omega), printS64_prints hbase hbase' hlo hhi⟩
  unsigned_inj a ha b hb l hl hl' :=
    numeral_inj hbase hbase' (((printU64_prints hbase hbase' ha).unique hl).trans ((printU64_prints hbase hbase' hb).unique hl').symm)
  signed_inj a b halo hahi hblo hbhi l hl hl' := by
    have heq := ((printS64_prints hbase hbase' halo hahi).unique hl).trans
      ((printS64_prints hbase hbase' hblo hbhi).unique hl').symm
    split_ifs at heq with ha hb hb
    · have habs := numeral_inj hbase hbase' (List.cons.inj heq).2
      omega
    · exact absurd heq.symm (numeral_ne_minus hbase hbase')
    · exact absurd heq (numeral_ne_minus hbase hbase')
    · have habs := numeral_inj hbase hbase' heq
      omega

end Printing

theorem prints_inversely_ten : PrintsInversely 10 := prints_inversely (by decide) (by decide)

end HeavenOS.Printk
