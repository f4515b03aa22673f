/-
# Formatted output on the screen

`kernel/printk.c` on top of `kernel/console.c`. The interpreter of `Kernel.Printk` collects what
it sends to the console; here every character is drawn when it is sent, as the source does it. A
call whose output is known draws exactly that output, and nothing outside of the framebuffer is
touched. A sequence of calls leaves on a black screen what a terminal shows of their texts.
-/

import HeavenOS.Kernel.ConsoleRun
import HeavenOS.Kernel.PrintkOutput

namespace HeavenOS

open Lib Printk

/-! ## The framebuffer only -/

/-- Memory outside of the region is as before. -/
def SameOutside (r : Region) (m m' : Mem) : Prop := ∀ a, a < r.lo ∨ r.hi ≤ a → m' a = m a

theorem SameOutside.refl (r : Region) (m : Mem) : SameOutside r m m := fun _ _ => rfl

theorem SameOutside.trans {r : Region} {m m' m'' : Mem} (h : SameOutside r m m') (h' : SameOutside r m' m'') :
    SameOutside r m m'' :=
  fun a ha => (h' a ha).trans (h a ha)

section Stores

variable {r : Region} {fb : Fb} {m m' : Mem}

/-- A loop whose iterations touch only the region. -/
theorem forLoop_sameOutside {body : ℕ → Mem → Except Fault Mem} {n : ℕ} (h : forLoop body m n = .ok m')
    (hbody : ∀ i m m', body i m = .ok m' → SameOutside r m m') : SameOutside r m m' :=
  forLoop_inv h (fun _ => SameOutside r m) (.refl r m) fun i _ m₁ m₂ hm hstep => hm.trans (hbody i m₁ m₂ hstep)

theorem storeColors_sameOutside {addr n : ℕ} {f : ℕ → BitVec 32} (h : storeColors r m addr f n = .ok m') :
    SameOutside r m m' := by
  refine forLoop_sameOutside h fun i m m' hstep a ha => ?_
  unfold storeColor at hstep
  split_ifs at hstep with hin
  obtain rfl := Except.ok.inj hstep
  unfold Region.Has at hin
  exact Mem.store32s_of_outside _ _ (by omega)

theorem fbPutRectFragment_sameOutside {color : BitVec 32} {x y width : ℤ}
    (h : fbPutRectFragment r fb m color x y width = .ok m') : SameOutside r m m' := by
  unfold fbPutRectFragment at h
  split_ifs at h
  · obtain rfl := Except.ok.inj h
    exact .refl r m
  · exact storeColors_sameOutside h

theorem repMovs_sameOutside {size dst src count : ℕ} {df : Bool} (h : repMovs r size df m dst src count = .ok m') :
    SameOutside r m m' := by
  refine forLoop_sameOutside h fun i m m' hstep a ha => ?_
  unfold movs at hstep
  split_ifs at hstep with hin
  obtain rfl := Except.ok.inj hstep
  unfold Region.Has at hin
  exact if_neg (by omega)

theorem memmove_sameOutside {dst src n : ℕ} {df : Bool} (h : memmove r m dst src n = .ok (m', df)) : SameOutside r m m' := by
  unfold memmove at h
  simp only at h
  split_ifs at h
  all_goals
    obtain ⟨m₁, hcopy, hret⟩ := Fault.bind_eq_ok.mp h
    cases hret
    exact repMovs_sameOutside hcopy

theorem fbDrawGlyph_sameOutside {glyph : List ℕ} {x y : ℤ} {fgColor bgColor : BitVec 32}
    (h : fbDrawGlyph r fb m glyph x y fgColor bgColor = .ok m') : SameOutside r m m' := by
  obtain ⟨_, -, hloop⟩ := Fault.bind_eq_ok.mp h
  exact forLoop_sameOutside hloop fun _ _ _ hstep => storeColors_sameOutside hstep

theorem fbScrollUp_sameOutside {height : ℤ} {color : BitVec 32} (h : fbScrollUp r fb m height color = .ok m') :
    SameOutside r m m' := by
  obtain ⟨_, -, hmove⟩ := Fault.bind_eq_ok.mp h
  obtain ⟨⟨m₁, df⟩, hcopy, hloop⟩ := Fault.bind_eq_ok.mp hmove
  exact (memmove_sameOutside hcopy).trans (forLoop_sameOutside hloop fun _ _ _ hstep => fbPutRectFragment_sameOutside hstep)

variable {s s' : Console}

theorem consNewlineAndReturn_sameOutside (h : consNewlineAndReturn r fb s m = .ok (s', m')) :
    SameOutside r m m' ∧ s'.initialized = s.initialized := by
  unfold consNewlineAndReturn at h
  simp only at h
  split_ifs at h
  · obtain ⟨m₁, hscroll, hret⟩ := Fault.bind_eq_ok.mp h
    cases hret
    exact ⟨fbScrollUp_sameOutside hscroll, rfl⟩
  · cases h
    exact ⟨.refl r m, rfl⟩

/-- A character touches the framebuffer only, and the console stays initialized. -/
theorem consPutcharColor_sameOutside {x : Output} (h : consPutcharColor r fb (s, m) x = .ok (s', m')) :
    SameOutside r m m' ∧ s'.initialized = true := by
  obtain ⟨_, hinit, hchar⟩ := Fault.bind_eq_ok.mp h
  have hinit : s.initialized = true := by
    by_contra hnot
    rw [kassert, if_neg hnot] at hinit
    cases hinit
  split_ifs at hchar
  · obtain ⟨hkept, hsame⟩ := consNewlineAndReturn_sameOutside hchar
    exact ⟨hkept, hsame.trans hinit⟩
  · cases hchar
    exact ⟨.refl r m, hinit⟩
  · obtain ⟨m₁, hdraw, hnext⟩ := Fault.bind_eq_ok.mp hchar
    have hglyph : SameOutside r m m₁ := by
      unfold drawChar at hdraw
      split at hdraw
      · cases hdraw
      · exact fbDrawGlyph_sameOutside hdraw
    simp only at hnext
    split_ifs at hnext
    · obtain ⟨hkept, hsame⟩ := consNewlineAndReturn_sameOutside hnext
      exact ⟨hglyph.trans hkept, hsame.trans hinit⟩
    · cases hnext
      exact ⟨hglyph, hinit⟩

end Stores

/-! ## The interpreter on the console -/

/-- `cons_write_color` for an array of `cap` bytes. -/
def consWriteColor (r : Region) (fb : Fb) (s : Console × Mem) (cap : ℕ) (data : Mem) (size : ℤ) (fgColor bgColor : BitVec 32) :
    Except Fault (Console × Mem) := do
  (kassert (s.1.initialized = true) "cons_initialized").mapError .panic
  forLoop (fun i s => do
    let c ← Buffer.load cap data i
    consPutcharColor r fb s ⟨c, fgColor, bgColor⟩) s size.toNat

/-- What a conversion draws: the string of `%s` and `%i` in the `switch`, and the buffer behind
it. -/
def drawConversion (r : Region) (fb : Fb) (fgColor bgColor : BitVec 32) (c : BitVec 8) (str : List (BitVec 8)) (l : Locals)
    (s : Console × Mem) : Except Fault (Console × Mem) :=
  (if c = ascii 's' ∨ c = ascii 'i' then consPrintColor r fb s str fgColor bgColor else .ok s) >>= fun s =>
    if l.size ≠ 0 then consWriteColor r fb s printkBufSize l.buf (BitVec.ofNat 32 l.size).toInt fgColor bgColor
    else .ok s

/-- The loop of `vprintk_color` over the format, on a console. -/
def printkLoopOn (r : Region) (fb : Fb) (fgColor bgColor : BitVec 32) :
    (cursor : List (BitVec 8)) → (idle : Bool) → Locals → Console × Mem → Except Fault (Console × Mem)
  | [], _, _, s => .ok s
  | c :: cursor, idle, l, s =>
      if idle then
        if c ≠ ascii '%' then do
          let s ← consPrintColor r fb s [c] fgColor bgColor
          printkLoopOn r fb fgColor bgColor cursor true l s
        else printkLoopOn r fb fgColor bgColor cursor false l s
      else do
        let (str, l) ← printkSwitch c l
        let s ← drawConversion r fb fgColor bgColor c str l s
        printkLoopOn r fb fgColor bgColor cursor true l s

/-- `vprintk_color` on a console, from what the stack holds for `buf` and `size`. -/
def vprintkColorOn (r : Region) (fb : Fb) (fmt : List (BitVec 8)) (args : List Arg) (fgColor bgColor : BitVec 32) (buf : Mem)
    (size : ℕ) (s : Console × Mem) : Except Fault (Console × Mem) := do
  (kassert (s.1.initialized = true) "cons_initialized").mapError .panic
  printkLoopOn r fb fgColor bgColor fmt true ⟨args, buf, size⟩ s

section Drawn

variable {r : Region} {fb : Fb} {fgColor bgColor : BitVec 32}

theorem consPrintColor_eq {s : Console × Mem} (hinit : s.1.initialized = true) (str : List (BitVec 8)) :
    consPrintColor r fb s str fgColor bgColor = str.foldlM (fun s c => consPutcharColor r fb s ⟨c, fgColor, bgColor⟩) s := by
  rw [consPrintColor, kassert_of_true hinit]
  rfl

/-- Strings touch the framebuffer only. -/
theorem consPrintColor_sameOutside {s s' : Console × Mem} (hinit : s.1.initialized = true) {str : List (BitVec 8)}
    (h : consPrintColor r fb s str fgColor bgColor = .ok s') : SameOutside r s.2 s'.2 ∧ s'.1.initialized = true := by
  rw [consPrintColor_eq hinit] at h
  induction str generalizing s with
  | nil =>
      obtain rfl := Except.ok.inj h
      exact ⟨.refl r s.2, hinit⟩
  | cons c str ih =>
      obtain ⟨s₁, hput, hrest⟩ := Fault.bind_eq_ok.mp h
      obtain ⟨hfirst, hinit'⟩ := consPutcharColor_sameOutside hput
      obtain ⟨hlater, hinit''⟩ := ih hinit' hrest
      exact ⟨hfirst.trans hlater, hinit''⟩

/-- A string is drawn piece by piece. -/
theorem consPrintColor_append {s : Console × Mem} (hinit : s.1.initialized = true) (str str' : List (BitVec 8)) :
    consPrintColor r fb s (str ++ str') fgColor bgColor =
      consPrintColor r fb s str fgColor bgColor >>= fun s => consPrintColor r fb s str' fgColor bgColor := by
  cases hfirst : consPrintColor r fb s str fgColor bgColor with
  | error e =>
      rw [consPrintColor_eq hinit] at hfirst ⊢
      rw [List.foldlM_append, hfirst]
      rfl
  | ok s' =>
      have hinit' := (consPrintColor_sameOutside hinit hfirst).2
      rw [consPrintColor_eq hinit] at hfirst ⊢
      rw [List.foldlM_append, hfirst, Fault.ok_bind, Fault.ok_bind, consPrintColor_eq hinit']

/-- Bytes that can all be read are drawn as a string. -/
theorem consWriteColor_eq {s : Console × Mem} (hinit : s.1.initialized = true) {cap : ℕ} {data : Mem} {size : ℤ}
    {str : List (BitVec 8)} (hload : Buffer.loadBytes cap data size.toNat = .ok str) :
    consWriteColor r fb s cap data size fgColor bgColor = consPrintColor r fb s str fgColor bgColor := by
  rw [consWriteColor, kassert_of_true hinit, consPrintColor_eq hinit]
  change forLoop _ s size.toNat = _
  generalize size.toNat = n at hload
  induction n generalizing str with
  | zero =>
      obtain rfl := Except.ok.inj hload
      rfl
  | succ n ih =>
      obtain ⟨front, hfront, hload⟩ := Fault.bind_eq_ok.mp hload
      obtain ⟨c, hc, hload⟩ := Fault.bind_eq_ok.mp hload
      obtain rfl := Except.ok.inj hload
      rw [forLoop, ih hfront, List.foldlM_append]
      refine congrArg _ (funext fun s => ?_)
      rw [hc, Fault.ok_bind, List.foldlM_cons]
      cases consPutcharColor r fb s ⟨c, fgColor, bgColor⟩ <;> rfl

/-- Bytes that cannot all be read are not drawn. -/
theorem consWriteColor_ok {s s' : Console × Mem} {cap : ℕ} {data : Mem} {size : ℤ}
    (h : consWriteColor r fb s cap data size fgColor bgColor = .ok s') :
    ∃ str, Buffer.loadBytes cap data size.toNat = .ok str := by
  obtain ⟨_, -, hloop⟩ := Fault.bind_eq_ok.mp h
  clear h
  generalize size.toNat = n at hloop ⊢
  induction n generalizing s' with
  | zero => exact ⟨[], rfl⟩
  | succ n ih =>
      obtain ⟨s₁, hfront, hlast⟩ := Fault.bind_eq_ok.mp hloop
      obtain ⟨c, hc, -⟩ := Fault.bind_eq_ok.mp hlast
      obtain ⟨front, hload⟩ := ih hfront
      exact ⟨front ++ [c], by rw [Buffer.loadBytes, hload, Fault.ok_bind, hc]; rfl⟩

/-- What the `switch` sends is drawn only by `%s` and `%i`, but it is nothing otherwise. -/
theorem printkSwitch_str {c : BitVec 8} {l l' : Locals} {str : List (BitVec 8)} (h : printkSwitch c l = .ok (str, l'))
    (hc : ¬(c = ascii 's' ∨ c = ascii 'i')) : str = [] := by
  rw [not_or] at hc
  unfold printkSwitch at h
  split_ifs at h with hu hx hd hp hs hi
  · obtain ⟨_, -, h⟩ := Fault.bind_eq_ok.mp h
    obtain ⟨_, -, h⟩ := Fault.bind_eq_ok.mp h
    exact (Prod.mk.inj (Except.ok.inj h)).1.symm
  · obtain ⟨_, -, h⟩ := Fault.bind_eq_ok.mp h
    obtain ⟨_, -, h⟩ := Fault.bind_eq_ok.mp h
    exact (Prod.mk.inj (Except.ok.inj h)).1.symm
  · obtain ⟨_, -, h⟩ := Fault.bind_eq_ok.mp h
    obtain ⟨_, -, h⟩ := Fault.bind_eq_ok.mp h
    exact (Prod.mk.inj (Except.ok.inj h)).1.symm
  · obtain ⟨_, -, h⟩ := Fault.bind_eq_ok.mp h
    obtain ⟨_, -, h⟩ := Fault.bind_eq_ok.mp h
    exact (Prod.mk.inj (Except.ok.inj h)).1.symm
  · exact absurd hs hc.1
  · exact absurd hi hc.2
  · exact (Prod.mk.inj (Except.ok.inj h)).1.symm

/-- A conversion whose output is known draws it. -/
theorem printkConversion_drawn {c : BitVec 8} {l l' : Locals} {s : Console × Mem} (hinit : s.1.initialized = true)
    {out : List (BitVec 8)} (h : printkConversion c l = .ok (out, l')) :
    ∃ str, printkSwitch c l = .ok (str, l') ∧
      drawConversion r fb fgColor bgColor c str l' s = consPrintColor r fb s out fgColor bgColor := by
  obtain ⟨⟨str, l₁⟩, hswitch, h⟩ := Fault.bind_eq_ok.mp h
  obtain ⟨written, hflush, h⟩ := Fault.bind_eq_ok.mp h
  obtain ⟨rfl, rfl⟩ := Prod.mk.inj (Except.ok.inj h)
  refine ⟨str, hswitch, ?_⟩
  have hstr : (if c = ascii 's' ∨ c = ascii 'i' then consPrintColor r fb s str fgColor bgColor else .ok s) =
      consPrintColor r fb s str fgColor bgColor := by
    split_ifs with hc
    · rfl
    · rw [printkSwitch_str hswitch hc, consPrintColor_eq hinit]
      rfl
  rw [drawConversion, hstr, consPrintColor_append hinit]
  cases hfirst : consPrintColor r fb s str fgColor bgColor with
  | error e => rfl
  | ok s' =>
      have hinit' := (consPrintColor_sameOutside hinit hfirst).2
      rw [Fault.ok_bind, Fault.ok_bind]
      unfold printkFlush at hflush
      split_ifs at hflush ⊢ with hsize
      · exact consWriteColor_eq hinit' hflush
      · obtain rfl := Except.ok.inj hflush
        rw [consPrintColor_eq hinit']
        rfl

/-- A format whose output is known draws it. -/
theorem printkLoopOn_eq {cursor : List (BitVec 8)} {idle : Bool} {l : Locals} {s : Console × Mem}
    (hinit : s.1.initialized = true) {out : List (BitVec 8)} (h : printkLoop cursor idle l = .ok out) :
    printkLoopOn r fb fgColor bgColor cursor idle l s = consPrintColor r fb s out fgColor bgColor := by
  induction cursor generalizing idle l s out with
  | nil =>
      obtain rfl := Except.ok.inj h
      rw [consPrintColor_eq hinit]
      rfl
  | cons c cursor ih =>
      -- what is drawn first leaves a console for the rest
      have hnext {first rest : List (BitVec 8)} {l : Locals} (hrest : printkLoop cursor true l = .ok rest) :
          (consPrintColor r fb s first fgColor bgColor >>= fun s => printkLoopOn r fb fgColor bgColor cursor true l s) =
            consPrintColor r fb s (first ++ rest) fgColor bgColor := by
        rw [consPrintColor_append hinit]
        cases hfirst : consPrintColor r fb s first fgColor bgColor with
        | error e => rfl
        | ok s' => exact ih (consPrintColor_sameOutside hinit hfirst).2 hrest
      cases idle with
      | true =>
          rw [printkLoop, if_pos rfl] at h
          rw [printkLoopOn, if_pos rfl]
          split_ifs at h ⊢ with hc
          · obtain ⟨rest, hrest, hout⟩ := Fault.bind_eq_ok.mp h
            obtain rfl := Except.ok.inj hout
            exact hnext hrest
          · exact ih hinit h
      | false =>
          rw [printkLoop, if_neg (by decide)] at h
          obtain ⟨⟨first, l'⟩, hconv, h⟩ := Fault.bind_eq_ok.mp h
          obtain ⟨rest, hrest, hout⟩ := Fault.bind_eq_ok.mp h
          obtain rfl := Except.ok.inj hout
          obtain ⟨str, hswitch, hdrawn⟩ := @printkConversion_drawn r fb fgColor bgColor c l l' s hinit first hconv
          rw [printkLoopOn, if_neg (by decide), hswitch, Fault.ok_bind, ← hnext hrest, ← hdrawn]

/-- A conversion that was drawn has an output. -/
theorem printkConversion_ok {c : BitVec 8} {l l' : Locals} {s s' : Console × Mem} {str : List (BitVec 8)}
    (hswitch : printkSwitch c l = .ok (str, l')) (hdraw : drawConversion r fb fgColor bgColor c str l' s = .ok s') :
    ∃ out, printkConversion c l = .ok (out, l') := by
  obtain ⟨s₁, -, hbuffer⟩ := Fault.bind_eq_ok.mp hdraw
  have hflush : ∃ written, printkFlush l'.buf l'.size = .ok written := by
    unfold printkFlush
    split_ifs at hbuffer ⊢
    · exact consWriteColor_ok hbuffer
    · exact ⟨[], rfl⟩
  obtain ⟨written, hflush⟩ := hflush
  exact ⟨str ++ written, by rw [printkConversion, hswitch, Fault.ok_bind]; simp only [hflush]; rfl⟩

/-- What was drawn is the output of the format. -/
theorem printkLoopOn_ok {cursor : List (BitVec 8)} {idle : Bool} {l : Locals} {s s' : Console × Mem}
    (h : printkLoopOn r fb fgColor bgColor cursor idle l s = .ok s') : ∃ out, printkLoop cursor idle l = .ok out := by
  induction cursor generalizing idle l s with
  | nil => exact ⟨[], rfl⟩
  | cons c cursor ih =>
      cases idle with
      | true =>
          rw [printkLoopOn, if_pos rfl] at h
          rw [printkLoop, if_pos rfl]
          split_ifs at h ⊢ with hc
          · obtain ⟨s₁, -, h⟩ := Fault.bind_eq_ok.mp h
            obtain ⟨rest, hrest⟩ := ih h
            exact ⟨c :: rest, by rw [hrest]; rfl⟩
          · exact ih h
      | false =>
          rw [printkLoopOn, if_neg (by decide)] at h
          obtain ⟨⟨str, l'⟩, hswitch, h⟩ := Fault.bind_eq_ok.mp h
          obtain ⟨s₁, hdraw, h⟩ := Fault.bind_eq_ok.mp h
          obtain ⟨out, hconv⟩ := printkConversion_ok hswitch hdraw
          obtain ⟨rest, hrest⟩ := ih h
          refine ⟨out ++ rest, ?_⟩
          rw [printkLoop, if_neg (by decide), hconv, Fault.ok_bind]
          simp only [hrest]
          rfl

/-- A call draws its output, and it returns only if it has one. -/
theorem vprintkColorOn_spec {fmt : List (BitVec 8)} {args : List Arg} {buf : Mem} {size : ℕ} {s : Console × Mem}
    (hinit : s.1.initialized = true) :
    (∀ out, vprintkColor true fmt args buf size = .ok out →
      vprintkColorOn r fb fmt args fgColor bgColor buf size s = consPrintColor r fb s out fgColor bgColor) ∧
    ∀ s', vprintkColorOn r fb fmt args fgColor bgColor buf size s = .ok s' → ∃ out, vprintkColor true fmt args buf size = .ok out := by
  have hcall : vprintkColorOn r fb fmt args fgColor bgColor buf size s =
      printkLoopOn r fb fgColor bgColor fmt true ⟨args, buf, size⟩ s := by
    rw [vprintkColorOn, kassert_of_true hinit]
    rfl
  rw [hcall]
  exact ⟨fun out hout => printkLoopOn_eq hinit hout, fun s' hs' => printkLoopOn_ok hs'⟩

end Drawn

/-! ## Calls in a row -/

/-- A call of `printk_color`; `printk` is white on black. -/
structure PrintkCall where
  fmt : List (BitVec 8)
  args : List Arg
  fgColor : BitVec 32
  bgColor : BitVec 32

/-- The call on a console, from what the stack holds for `buf` and `size`. -/
def PrintkCall.run (r : Region) (fb : Fb) (call : PrintkCall) (buf : Mem) (size : ℕ) (s : Console × Mem) :
    Except Fault (Console × Mem) :=
  vprintkColorOn r fb call.fmt call.args call.fgColor call.bgColor buf size s

/-- One call after the other, each with its own stack. -/
def runPrintkCalls (r : Region) (fb : Fb) (calls : List (PrintkCall × Mem × ℕ)) (s : Console × Mem) :
    Except Fault (Console × Mem) :=
  calls.foldlM (fun s call => call.1.run r fb call.2.1 call.2.2 s) s

/-- The pieces of the call are printed as they are meant, and this is their text. -/
def PrintkCall.Renders (call : PrintkCall) (text : List (BitVec 8)) : Prop :=
  ∃ ps rest last, parse true call.fmt call.args = some (ps, rest, last) ∧ (∀ p ∈ ps, p.Safe) ∧ Clean true ps ∧
    render ps = text

/-- There are glyphs for the characters, and none of them is a carriage return. -/
def Plain (text : List (BitVec 8)) : Prop := ∀ c ∈ text, c.toNat < 128 ∧ c ≠ ascii '\r'

theorem Plain.append {text text' : List (BitVec 8)} (h : Plain text) (h' : Plain text') : Plain (text ++ text') :=
  fun c hc => (List.mem_append.mp hc).elim (h c) (h' c)

/-- A character that has a glyph; it is not a carriage return and does not begin a conversion. -/
def plainChar (c : Char) : Bool := c.toNat < 128 && c.toNat != 13 && c.toNat != 37

theorem plainChar_iff {c : Char} : plainChar c = true ↔ c.toNat < 128 ∧ c.toNat ≠ 13 ∧ c.toNat ≠ 37 := by
  simp [plainChar, and_assoc]

/-- A literal is checked on the numbers of its characters. -/
theorem plain_literal {l : List Char} (h : l.all plainChar = true) : Plain (literal l) ∧ ascii '%' ∉ literal l := by
  have hplain {c : Char} (hc : c ∈ l) := plainChar_iff.mp (List.all_eq_true.mp h c hc)
  have htoNat {c : Char} (hc : c ∈ l) : (ascii c).toNat = c.toNat := by
    have := (hplain hc).1
    rw [ascii, BitVec.toNat_ofNat, Nat.mod_eq_of_lt (by omega)]
  constructor
  · intro b hb
    obtain ⟨c, hc, rfl⟩ := List.mem_map.mp hb
    obtain ⟨hlt, hreturn, -⟩ := hplain hc
    refine ⟨by rwa [htoNat hc], fun heq => hreturn ?_⟩
    rw [← htoNat hc, heq]
    rfl
  · intro hb
    obtain ⟨c, hc, heq⟩ := List.mem_map.mp hb
    refine (hplain hc).2.2 ?_
    rw [← htoNat hc, heq]
    rfl

/-- A text in the colours of the call. -/
def PrintkCall.output (call : PrintkCall) (text : List (BitVec 8)) : List Output :=
  text.map fun c => ⟨c, call.fgColor, call.bgColor⟩

/-- The screen shows what a terminal does after these characters, and the cursor is where it has
it. -/
structure OnScreen (fb : Fb) (w h : ℕ) (xs : List Output) (s : Console × Mem) : Prop where
  on : s.1.On w h (Grid.after w h xs).row (Grid.after w h xs).col
  shows : fb.Shows s.2 w h (Grid.after w h xs)

/-- The screen depends on the framebuffer only. -/
theorem OnScreen.congr {fb : Fb} {w h p : ℕ} (hfb : fb.Geometry w h p) {xs : List Output} {cons : Console} {m m' : Mem}
    (hs : OnScreen fb w h xs (cons, m)) (hsame : ∀ a, fb.region.lo ≤ a → a < fb.region.hi → m' a = m a) :
    OnScreen fb w h xs (cons, m') := by
  refine ⟨hs.on, fun px hpx py hpy => ?_⟩
  obtain ⟨hlo, hhi⟩ := hfb.region
  have hrow := hfb.row_le hpy
  rw [← hs.shows px hpx py hpy, Fb.pixel, Fb.pixel, hfb.pitch, Int.toNat_natCast]
  exact Mem.load32_congr fun k hk => hsame _ (by omega) (by omega)

/-- A call that renders a text prints it, whatever the stack holds. -/
theorem PrintkCall.Renders.printed {call : PrintkCall} {text : List (BitVec 8)} (h : call.Renders text) (buf : Mem) (size : ℕ) :
    vprintkColor true call.fmt call.args buf size = .ok text := by
  obtain ⟨ps, rest, last, hparse, hsafe, hclean, rfl⟩ := h
  rw [vprintkColor_eq hparse]
  exact printPieces_render hclean hsafe (fun h => absurd h (by decide)) buf

/-- A call that returned has printed safe pieces only. -/
theorem PrintkCall.safe_of_run {r : Region} {fb : Fb} {call : PrintkCall} {buf : Mem} {size : ℕ} {s s' : Console × Mem}
    (hinit : s.1.initialized = true) (hrun : call.run r fb buf size s = .ok s') {ps : List Piece} {rest : List Arg} {last : Bool}
    (hparse : parse true call.fmt call.args = some (ps, rest, last)) : ∀ p ∈ ps, p.Safe := by
  obtain ⟨out, hout⟩ := (vprintkColorOn_spec hinit).2 s' hrun
  rw [vprintkColor_eq hparse] at hout
  exact safe_of_printPieces hout

section OnScreen

variable {fb : Fb} {w h p : ℕ} (hfb : fb.Geometry w h p) (hw : 8 ≤ w) (hh : 8 ≤ h)

include hfb hw hh

/-- `cons_init` on a black screen. -/
theorem onScreen_start {cons : Console} (hinit : consInit fb .start = .ok cons) {m : Mem} (hblack : fb.Black m w h) :
    OnScreen fb w h [] (cons, m) := by
  refine ⟨consInit_on hfb hw hh hinit, fun px hpx py hpy => ?_⟩
  rw [hblack px hpx py hpy]
  change 0 = Grid.blank.pixel (h / 8) (w / 8) px py
  unfold Grid.pixel
  split_ifs <;> rfl

variable (hsize : h * p < 2 ^ 31)

include hsize

/-- A plain text is drawn behind what is there. -/
theorem OnScreen.print {xs : List Output} {s : Console × Mem} (hs : OnScreen fb w h xs s) {str : List (BitVec 8)}
    (hplain : Plain str) (fgColor bgColor : BitVec 32) :
    ∃ s', consPrintColor fb.region fb s str fgColor bgColor = .ok s' ∧ SameOutside fb.region s.2 s'.2 ∧
      OnScreen fb w h (xs ++ str.map fun c => ⟨c, fgColor, bgColor⟩) s' := by
  rw [consPrintColor_eq hs.on.initialized]
  induction str generalizing xs s with
  | nil => exact ⟨s, rfl, .refl _ _, by rwa [List.map_nil, List.append_nil]⟩
  | cons c str ih =>
      obtain ⟨⟨hchar, hreturn⟩, hplain⟩ := List.forall_mem_cons.mp hplain
      have hrow := hs.on.row_lt
      have hdraw := Nat.mul_le_mul_right p (show 8 * (Grid.after w h xs).row + 7 ≤ h by omega)
      have hscroll := Nat.mul_le_mul_right p (show h - 1 ≤ h by omega)
      have hfit : StepFits fb s.1 c := by
        refine ⟨fun _ _ => ?_, fun _ _ => ?_⟩
        · rw [hs.on.currRow, hfb.pitch]
          exact_mod_cast lt_of_le_of_lt hdraw hsize
        · rw [hfb.height, hfb.pitch, ← Int.natCast_pred_of_pos (show 0 < h by omega)]
          exact_mod_cast lt_of_le_of_lt hscroll hsize
      obtain ⟨s', m', row, col, hcall, hs', hgrid⟩ := consPutcharColor_spec hfb hw hh hfb.region (m := s.2)
        (x := ⟨c, fgColor, bgColor⟩) hs.on hfit hchar
      obtain ⟨hrow', hcol', hshows'⟩ := hgrid (fun hc => absurd hc hreturn) _ rfl rfl hs.shows
      have hafter : Grid.after w h (xs ++ [⟨c, fgColor, bgColor⟩]) =
          (Grid.after w h xs).put (h / 8) (w / 8) ⟨c, fgColor, bgColor⟩ := by
        rw [Grid.after, List.foldl_append]
        rfl
      have hnext : OnScreen fb w h (xs ++ [⟨c, fgColor, bgColor⟩]) (s', m') :=
        ⟨by rw [hafter, hrow', hcol']; exact hs', by rw [hafter]; exact hshows'⟩
      obtain ⟨s'', hrest, hkept, hdone⟩ := ih hnext hplain
      refine ⟨s'', ?_, (consPutcharColor_sameOutside hcall).1.trans hkept, ?_⟩
      · rw [List.foldlM_cons]
        exact (congrArg (· >>= _) hcall).trans hrest
      · rwa [List.map_cons, List.append_cons]

/-- A call draws its text behind what is there. -/
theorem OnScreen.call {xs : List Output} {s : Console × Mem} (hs : OnScreen fb w h xs s) {call : PrintkCall}
    {text : List (BitVec 8)} (hrenders : call.Renders text) (hplain : Plain text) (buf : Mem) (size : ℕ) :
    ∃ s', call.run fb.region fb buf size s = .ok s' ∧ SameOutside fb.region s.2 s'.2 ∧
      OnScreen fb w h (xs ++ call.output text) s' := by
  obtain ⟨s', hprint, hkept, hdone⟩ := hs.print hfb hw hh hsize hplain call.fgColor call.bgColor
  refine ⟨s', ?_, hkept, hdone⟩
  rw [PrintkCall.run, (vprintkColorOn_spec hs.on.initialized).1 text (hrenders.printed buf size), hprint]

/-- Calls that render plain texts draw them one behind the other. -/
theorem OnScreen.runPrintkCalls {calls : List (PrintkCall × Mem × ℕ)} {text : PrintkCall → List (BitVec 8)}
    (hcalls : ∀ call ∈ calls, call.1.Renders (text call.1) ∧ Plain (text call.1)) {xs : List Output} {s : Console × Mem}
    (hs : OnScreen fb w h xs s) :
    ∃ s', runPrintkCalls fb.region fb calls s = .ok s' ∧ SameOutside fb.region s.2 s'.2 ∧
      OnScreen fb w h (xs ++ calls.flatMap fun call => call.1.output (text call.1)) s' := by
  induction calls generalizing xs s with
  | nil => exact ⟨s, rfl, .refl _ _, by rwa [List.flatMap_nil, List.append_nil]⟩
  | cons call calls ih =>
      obtain ⟨⟨hrenders, hplain⟩, hcalls⟩ := List.forall_mem_cons.mp hcalls
      obtain ⟨s₁, hcall, hkept, hs₁⟩ := hs.call hfb hw hh hsize hrenders hplain call.2.1 call.2.2
      obtain ⟨s', hrest, hkept', hs'⟩ := ih hcalls hs₁
      refine ⟨s', ?_, hkept.trans hkept', ?_⟩
      · rw [HeavenOS.runPrintkCalls, List.foldlM_cons]
        exact (congrArg (· >>= _) hcall).trans hrest
      · rwa [List.flatMap_cons, ← List.append_assoc]

/-- In every sequence of calls that render plain texts all of them return, whatever the stack
holds; the screen shows what a terminal does with the texts one behind the other, and memory
outside of the framebuffer is as before. -/
theorem printk_on_screen {cons : Console} (hinit : consInit fb .start = .ok cons) {m : Mem} (hblack : fb.Black m w h)
    (calls : List (PrintkCall × Mem × ℕ)) (text : PrintkCall → List (BitVec 8))
    (hcalls : ∀ call ∈ calls, call.1.Renders (text call.1) ∧ Plain (text call.1)) :
    ∃ s, runPrintkCalls fb.region fb calls (cons, m) = .ok s ∧ SameOutside fb.region m s.2 ∧
      fb.Shows s.2 w h (Grid.after w h (calls.flatMap fun call => call.1.output (text call.1))) := by
  obtain ⟨s, hall, hkept, hdone⟩ := (onScreen_start hfb hw hh hinit hblack).runPrintkCalls hfb hw hh hsize hcalls
  exact ⟨s, hall, hkept, hdone.shows⟩

end OnScreen

/-- `"n=%u: %s%i"` in white on black. -/
def sampleCall : PrintkCall := ⟨sampleFormat, sampleArgs, 0xFFFFFF, 0⟩

/-- `"n=7: xinvalid value"` -/
def sampleText : List (BitVec 8) :=
  literal ['n', '=', '7', ':', ' ', 'x', 'i', 'n', 'v', 'a', 'l', 'i', 'd', ' ', 'v', 'a', 'l', 'u', 'e']

/-- The call on the small screen, which scrolls. -/
theorem printk_on_screen_sample : ∃ s,
    runPrintkCalls smallFb.region smallFb [(sampleCall, fun _ => 0, 5)] (smallConsole, fun _ => 0) = .ok s ∧
      smallFb.Shows s.2 16 16 (Grid.after 16 16 (sampleCall.output sampleText)) := by
  have hrenders : sampleCall.Renders sampleText := by
    refine ⟨[.char (ascii 'n'), .char (ascii '='), .unsigned 7, .char (ascii ':'), .char (ascii ' '),
      .string (literal ['x']), .errcode (-3)], [], true, by decide, by decide, ⟨rfl, trivial⟩, ?_⟩
    simp [render, Piece.text, numeral, digitChar]
    decide
  obtain ⟨s, hrun, -, hshows⟩ := printk_on_screen smallFb_geometry (by decide) (by decide) (by decide)
    (show consInit smallFb .start = .ok smallConsole by rfl) smallFb_black [(sampleCall, fun _ => 0, 5)]
    (fun _ => sampleText) fun call hcall => by
      obtain rfl := List.mem_singleton.mp hcall
      exact ⟨hrenders, (plain_literal rfl).1⟩
  exact ⟨s, hrun, by simpa using hshows⟩

end HeavenOS
