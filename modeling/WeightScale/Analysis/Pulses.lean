import Mathlib.Data.List.Forall2
import WeightScale.Embedded.Run
import WeightScale.Model.Weight

/-!
# Frames out of pulses

A burst is recorded pulse by pulse while its falling edges stay close together, and the
timeout behind it reads the frame off and clears everything. So what a burst decodes to
depends on its own pulses only. A pulse is short when its length in the 32 bits of the timer
is; only the first pulse of a burst can be so long that this makes a difference.
-/

set_option autoImplicit false

namespace WeightScale

open Embedded

/-! ## Bursts -/

/-- A burst of pulses: the length of the first; the others, each with the time between the
last falling edge and its rising edge; and the time without pulses behind them. -/
structure Burst where
  first : ℕ
  rest : List (ℕ × ℕ)
  quiet : ℕ

namespace Burst

open Capture

/-- The lengths of the pulses. -/
def widths (b : Burst) : List ℕ := b.first :: b.rest.map Prod.snd

/-- A burst as the signals on the pin. -/
def signals (b : Burst) : List Signal :=
  [.rise, .wait b.first, .fall] ++
    b.rest.flatMap (fun p => [.wait p.1, .rise, .wait p.2, .fall]) ++ [.wait b.quiet]

/-- Falling edges come less than 30 ms apart, and at least 30 ms without pulses follow. -/
structure Spaced (b : Burst) : Prop where
  rest : ∀ p ∈ b.rest, p.1 + p.2 < timeoutUs
  quiet : timeoutUs ≤ b.quiet

end Burst

/-- A pulse is short by the 32 bits that hold its length. -/
def short (width : ℕ) : Bool := width % 2 ^ 32 < 750

/-- The frame of a burst: its first 32 pulses from bit 31 of `bh` down, the last seven from
bit 31 of `bl` down. -/
structure Decodes (frame : UInt32 × UInt32) (b : Burst) : Prop where
  high : ∀ k < 32, frame.1.toNat.testBit (31 - k) = (b.widths[k]?).any short
  low : ∀ k, 32 ≤ k → k < 39 → frame.2.toNat.testBit (63 - k) = (b.widths[k]?).any short
  unused : ∀ j < 25, frame.2.toNat.testBit j = false

/-- The two bits of the stability are both 1. -/
def IsStable (frame : UInt32 × UInt32) : Prop :=
  frame.1.toNat.testBit 19 = true ∧ frame.1.toNat.testBit 18 = true

/-- The time that passes with some signals. -/
def waited (ss : List Capture.Signal) : ℕ :=
  (ss.map fun
    | .wait us => us
    | _ => 0).sum

namespace Capture

/-! ## Time -/

section time

variable {c : Capture}

/-- While no timeout is due, a microsecond passes and nothing else happens. -/
theorem tick_of_lt (h2 : ∀ e, c.t2 = some e → c.now + 1 < e)
    (h3 : ∀ e, c.t3 = some e → c.now + 1 < e) : c.tick = { c with now := c.now + 1 } := by
  have hne2 : c.t2 ≠ some (c.now + 1) := fun h => lt_irrefl _ (h2 _ h)
  have hne3 : c.t3 ≠ some (c.now + 1) := fun h => lt_irrefl _ (h3 _ h)
  simp only [tick, hne2, hne3, if_false]

/-- Before the next expiry only the clock goes on. -/
theorem wait_of_lt {n : ℕ} (h2 : ∀ e, c.t2 = some e → c.now + n < e)
    (h3 : ∀ e, c.t3 = some e → c.now + n < e) : tick^[n] c = { c with now := c.now + n } := by
  induction n with
  | zero => rfl
  | succ n ih =>
    have hlt2 : ∀ e, c.t2 = some e → c.now + n + 1 < e := fun e he => h2 e he
    have hlt3 : ∀ e, c.t3 = some e → c.now + n + 1 < e := fun e he => h3 e he
    rw [Function.iterate_succ_apply', ih (fun e he => by have := h2 e he; omega)
      fun e he => by have := h3 e he; omega, tick_of_lt hlt2 hlt3]
    rfl

end time

/-! ## One pulse -/

/-- The bit of a pulse. -/
def bitOf (width : ℕ) : UInt32 := if short width then 1 else 0

/-- The bit of a width is the one `fall` computes. -/
theorem bitOf_eq (width : ℕ) : (if UInt32.ofNat width < 750 then 1 else 0 : UInt32) = bitOf width := by
  have h : UInt32.ofNat width < 750 ↔ short width = true := by
    rw [UInt32.lt_iff_toNat_lt, short, decide_eq_true_iff]
    rfl
  simp only [bitOf, h]

/-- Where the bit of a pulse goes. -/
theorem record_bit (c : Capture) (bit : UInt32) :
    (if c.cnt < 32 then { c with bh := c.bh ||| (bit <<< (31 - c.cnt)) }
      else if c.cnt < 64 then { c with bl := c.bl ||| (bit <<< (63 - c.cnt)) }
      else c) =
      { c with
        bh := if c.cnt < 32 then c.bh ||| (bit <<< (31 - c.cnt)) else c.bh
        bl := if c.cnt < 32 then c.bl
          else if c.cnt < 64 then c.bl ||| (bit <<< (63 - c.cnt)) else c.bl } := by
  by_cases h32 : c.cnt < 32
  · simp only [h32, if_true]
  · by_cases h64 : c.cnt < 64
    · simp only [h32, h64, if_false, if_true]
    · simp only [h32, h64, if_false]

/-- What `fall` does with the width measured. -/
theorem fall_eq (c : Capture) {width : ℕ}
    (ht : c.t.stop c.now = ⟨false, c.t.startTime, width⟩) :
    c.fall =
      { c with
        onRise := true
        onFall := false
        t := ⟨false, c.t.startTime, width⟩
        t2 := some (c.now + timeoutUs)
        bh := if c.cnt < 32 then c.bh ||| (bitOf width <<< (31 - c.cnt)) else c.bh
        bl := if c.cnt < 32 then c.bl
          else if c.cnt < 64 then c.bl ||| (bitOf width <<< (63 - c.cnt)) else c.bl
        cnt := c.cnt + 1 } := by
  have hread : (⟨false, c.t.startTime, width⟩ : Timer).readUs c.now = UInt32.ofNat width := rfl
  unfold fall
  dsimp only
  rw [ht, hread, bitOf_eq, record_bit
    { c with onFall := false, t2 := some (c.now + timeoutUs), t := ⟨false, c.t.startTime, width⟩ }]

/-- What a pulse of length `width` does to an armed capture. -/
theorem run_pulse (c : Capture) (width : ℕ) (hrise : c.onRise = true) (hrun : c.t.running = false)
    (h2 : ∀ e, c.t2 = some e → c.now + width < e) (h3 : c.t3 = none) :
    run signal c [.rise, .wait width, .fall] =
      { c with
        now := c.now + width
        onRise := true
        onFall := false
        t := ⟨false, c.now, width⟩
        t2 := some (c.now + width + timeoutUs)
        bh := if c.cnt < 32 then c.bh ||| (bitOf width <<< (31 - c.cnt)) else c.bh
        bl := if c.cnt < 32 then c.bl
          else if c.cnt < 64 then c.bl ||| (bitOf width <<< (63 - c.cnt)) else c.bl
        cnt := c.cnt + 1 } := by
  have hrises : c.signal .rise = c.rise := if_pos hrise
  have hwaits : c.rise.signal (.wait width) = { c.rise with now := c.now + width } := by
    apply wait_of_lt
    · exact fun e he => h2 e he
    · intro e he
      exact absurd (h3.symm.trans he) nofun
  have hfalls : ∀ c : Capture, c.onFall = true → c.signal .fall = c.fall := fun _ h => if_pos h
  have hstart : c.rise.t = ⟨true, c.now, 0⟩ := by
    simp [rise, Timer.reset, Timer.start, hrun]
  have hstop : c.rise.t.stop (c.now + width) = ⟨false, c.rise.t.startTime, width⟩ := by
    simp [hstart, Timer.stop, Timer.slicetime]
  rw [run_cons, run_cons, run_cons, run_nil, hrises, hwaits,
    hfalls { c.rise with now := c.now + width } rfl, fall_eq _ hstop, hstart]
  rfl

/-! ## Recording -/

/-- The bits of a word after one more pulse: the pulse is number `n`, and bit `j` is that of
pulse `i`. -/
theorem any_short_concat (ws : List ℕ) (w i : ℕ) :
    ((ws ++ [w])[i]?).any short = ((ws[i]?).any short || (decide (i = ws.length) && short w)) := by
  rcases Nat.lt_trichotomy i ws.length with h | h | h
  · rw [List.getElem?_append_left h]
    simp [Nat.ne_of_lt h]
  · subst h
    simp
  · rw [List.getElem?_eq_none (by simp; omega), List.getElem?_eq_none (by omega)]
    simp [Nat.ne_of_gt h]

/-- Setting the bit of a width at a place that is free. -/
theorem testBit_or_bitOf (x : UInt32) (w : ℕ) {s : UInt32} {k j : ℕ} (hs : s.toNat = k) (hk : k < 32)
    (hj : j < 32) :
    (x ||| (bitOf w <<< s)).toNat.testBit j =
      (x.toNat.testBit j || (decide (j = k) && short w)) := by
  have hshift : (bitOf w <<< s).toNat.testBit j = (decide (j = k) && short w) := by
    rw [UInt32.toNat_shiftLeft, hs, Nat.mod_eq_of_lt hk, Nat.testBit_mod_two_pow]
    cases hw : short w
    · simp [bitOf, hw]
    · simp [bitOf, hw, hj, Nat.shiftLeft_eq, Nat.testBit_two_pow, eq_comm]
  rw [UInt32.toNat_or, Nat.testBit_or, hshift]

/-- The capture behind the falling edge of the last of the pulses `ws`. -/
structure Recording (ws : List ℕ) (frames : List (UInt32 × UInt32)) (c : Capture) : Prop where
  onRise : c.onRise = true
  onFall : c.onFall = false
  running : c.t.running = false
  t2 : c.t2 = some (c.now + timeoutUs)
  t3 : c.t3 = none
  cnt : c.cnt = UInt32.ofNat ws.length
  bh : ∀ j < 32, c.bh.toNat.testBit j = (ws[31 - j]?).any short
  bl : ∀ j < 32, c.bl.toNat.testBit j = (ws[63 - j]?).any short
  frames : c.frames = frames

/-- The capture between two bursts: armed, or off until `restart` runs. -/
structure Idle (frames : List (UInt32 × UInt32)) (c : Capture) : Prop where
  onFall : c.onFall = false
  running : c.t.running = false
  t2 : c.t2 = none
  bh : c.bh = 0
  bl : c.bl = 0
  cnt : c.cnt = 0
  frames : c.frames = frames
  phase : (c.onRise = true ∧ c.t3 = none) ∨ (c.onRise = false ∧ ∃ e, c.t3 = some e ∧ c.now < e)

/-- The number of a pulse is kept as long as it is below `2 ^ 32`. -/
theorem toNat_cnt {n : ℕ} (h : n < 2 ^ 32) : (UInt32.ofNat n).toNat = n :=
  UInt32.toNat_ofNat_of_lt' h

/-- One more pulse sets its bit in the high word, while that has room. -/
theorem testBit_bh_concat {bh cnt : UInt32} {ws : List ℕ} (w : ℕ) (hcnt : cnt.toNat = ws.length)
    (hbh : ∀ j < 32, bh.toNat.testBit j = (ws[31 - j]?).any short) (j : ℕ) (hj : j < 32) :
    (if cnt < 32 then bh ||| (bitOf w <<< (31 - cnt)) else bh).toNat.testBit j =
      ((ws ++ [w])[31 - j]?).any short := by
  rw [any_short_concat]
  by_cases h32 : cnt < 32
  · have hn := UInt32.lt_iff_toNat_lt.1 h32
    have hs : (31 - cnt).toNat = 31 - ws.length := by
      rw [UInt32.toNat_sub_of_le _ _ (UInt32.le_iff_toNat_le.2 (Nat.le_of_lt_succ hn)), hcnt]
      rfl
    have hlt : ws.length < 32 := hcnt ▸ hn
    have hpos : decide (j = 31 - ws.length) = decide (31 - j = ws.length) := by
      rw [decide_eq_decide]
      omega
    rw [if_pos h32, testBit_or_bitOf bh w hs (by omega) hj, hbh j hj, hpos]
  · have hn : ¬ ws.length < 32 := fun hlt => h32 (UInt32.lt_iff_toNat_lt.2 (hcnt.symm ▸ hlt))
    have hpos : decide (31 - j = ws.length) = false := decide_eq_false (by omega)
    rw [if_neg h32, hbh j hj, hpos, Bool.false_and, Bool.or_false]

/-- One more pulse sets its bit in the low word, once the high word is full. -/
theorem testBit_bl_concat {bl cnt : UInt32} {ws : List ℕ} (w : ℕ) (hcnt : cnt.toNat = ws.length)
    (hbl : ∀ j < 32, bl.toNat.testBit j = (ws[63 - j]?).any short) (j : ℕ) (hj : j < 32) :
    (if cnt < 32 then bl
      else if cnt < 64 then bl ||| (bitOf w <<< (63 - cnt)) else bl).toNat.testBit j =
      ((ws ++ [w])[63 - j]?).any short := by
  rw [any_short_concat]
  by_cases h32 : cnt < 32
  · have hn : ws.length < 32 := hcnt ▸ UInt32.lt_iff_toNat_lt.1 h32
    have hpos : decide (63 - j = ws.length) = false := decide_eq_false (by omega)
    rw [if_pos h32, hbl j hj, hpos, Bool.false_and, Bool.or_false]
  · have hge : ¬ ws.length < 32 := fun hlt => h32 (UInt32.lt_iff_toNat_lt.2 (hcnt.symm ▸ hlt))
    rw [if_neg h32]
    by_cases h64 : cnt < 64
    · have hn := UInt32.lt_iff_toNat_lt.1 h64
      have hs : (63 - cnt).toNat = 63 - ws.length := by
        rw [UInt32.toNat_sub_of_le _ _ (UInt32.le_iff_toNat_le.2 (Nat.le_of_lt_succ hn)), hcnt]
        rfl
      have hlt : ws.length < 64 := hcnt ▸ hn
      have hpos : decide (j = 63 - ws.length) = decide (63 - j = ws.length) := by
        rw [decide_eq_decide]
        omega
      rw [if_pos h64, testBit_or_bitOf bl w hs (by omega) hj, hbl j hj, hpos]
    · have hn : ¬ ws.length < 64 := fun hlt => h64 (UInt32.lt_iff_toNat_lt.2 (hcnt.symm ▸ hlt))
      have hpos : decide (63 - j = ws.length) = false := decide_eq_false (by omega)
      rw [if_neg h64, hbl j hj, hpos, Bool.false_and, Bool.or_false]

variable {c : Capture} {ws : List ℕ} {frames : List (UInt32 × UInt32)}

/-- The first pulse of a burst. -/
theorem Idle.pulse (h : Idle frames c) (hrise : c.onRise = true) (width : ℕ) :
    Recording [width] frames (run signal c [.rise, .wait width, .fall]) := by
  have h3 : c.t3 = none := by
    rcases h.phase with ⟨-, h3⟩ | ⟨hoff, -⟩
    · exact h3
    · exact absurd (hrise.symm.trans hoff) (by decide)
  have hzero : ∀ (i j : ℕ), Nat.testBit (0 : UInt32).toNat j = (([] : List ℕ)[i]?).any short :=
    fun i j => Nat.zero_testBit j
  have hnone : (0 : UInt32).toNat = ([] : List ℕ).length := rfl
  rw [run_pulse c width hrise h.running (fun e he => absurd (h.t2.symm.trans he) nofun) h3, h.bh, h.bl, h.cnt]
  exact
    { onRise := rfl
      onFall := rfl
      running := rfl
      t2 := rfl
      t3 := h3
      cnt := rfl
      bh := testBit_bh_concat width hnone fun j _ => hzero _ j
      bl := testBit_bl_concat width hnone fun j _ => hzero _ j
      frames := h.frames }

/-- Another pulse. -/
theorem Recording.pulse (h : Recording ws frames c) (hlen : ws.length < 2 ^ 32) {low high : ℕ}
    (hgap : low + high < timeoutUs) :
    Recording (ws ++ [high]) frames
      (run signal c [.wait low, .rise, .wait high, .fall]) := by
  have hlow : c.signal (.wait low) = { c with now := c.now + low } := by
    apply wait_of_lt
    · intro e he
      have := Option.some.inj (h.t2.symm.trans he)
      omega
    · intro e he
      exact absurd (h.t3.symm.trans he) nofun
  have hcnt : c.cnt.toNat = ws.length := by rw [h.cnt, toNat_cnt hlen]
  have hpulse := run_pulse { c with now := c.now + low } high h.onRise h.running
    (fun e he => by
      have := Option.some.inj (h.t2.symm.trans he)
      dsimp only
      omega) h.t3
  rw [run_cons, hlow, hpulse]
  exact
    { onRise := rfl
      onFall := rfl
      running := rfl
      t2 := rfl
      t3 := h.t3
      cnt := by
        dsimp only
        rw [h.cnt, List.length_append]
        exact (UInt32.ofNat_add ws.length 1).symm
      bh := testBit_bh_concat high hcnt h.bh
      bl := testBit_bl_concat high hcnt h.bl
      frames := h.frames }

/-- Pulses without a pause between them are recorded in their order. -/
theorem Recording.pulses (h : Recording ws frames c) (ps : List (ℕ × ℕ))
    (hlen : ws.length + ps.length < 2 ^ 32) (hgap : ∀ p ∈ ps, p.1 + p.2 < timeoutUs) :
    Recording (ws ++ ps.map Prod.snd) frames
      (run signal c (ps.flatMap fun p => [.wait p.1, .rise, .wait p.2, .fall])) := by
  induction ps generalizing c ws with
  | nil =>
    rw [List.map_nil, List.append_nil]
    exact h
  | cons p ps ih =>
    rw [List.length_cons] at hlen
    have hnext := h.pulse (by omega) (hgap p List.mem_cons_self)
    rw [List.flatMap_cons, run_append, List.map_cons, ← List.singleton_append, ← List.append_assoc]
    apply ih hnext
    · rw [List.length_append, List.length_singleton]
      omega
    · exact fun q hq => hgap q (List.mem_cons_of_mem p hq)

/-! ## The end of a burst -/

instance (frame : UInt32 × UInt32) : Decidable (IsStable frame) :=
  inferInstanceAs (Decidable (_ ∧ _))

/-- The two stable bits are both set exactly in a stable frame. -/
theorem stableBits_eq_three_iff (bh bl : UInt32) : stableBits bh = 3 ↔ IsStable (bh, bl) := by
  have hbits : (stableBits bh).toNat = bh.toNat / 2 ^ 18 % 4 := by
    rw [stableBits, UInt32.toNat_and, UInt32.toNat_shiftRight]
    show bh.toNat >>> 18 &&& 2 ^ 2 - 1 = _
    rw [Nat.and_two_pow_sub_one_eq_mod, Nat.shiftRight_eq_div_pow]
  rw [← UInt32.toNat_inj, hbits, IsStable]
  dsimp only
  rw [Nat.testBit_eq_decide_div_mod_eq, Nat.testBit_eq_decide_div_mod_eq, decide_eq_true_iff,
    decide_eq_true_iff]
  show _ = 3 ↔ _
  omega

/-- What `eee` leaves behind. -/
theorem eee_eq (bh bl : UInt32) (c : Capture) :
    ∃ io, c.eee bh bl =
      { c with
        onRise := if IsStable (bh, bl) then false else c.onRise
        onFall := if IsStable (bh, bl) then false else c.onFall
        t3 := if IsStable (bh, bl) then some (c.now + restartUs) else c.t3
        frames := c.frames ++ [(bh, bl)]
        io := io } := by
  refine ⟨(c.eee bh bl).io, ?_⟩
  by_cases hst : IsStable (bh, bl)
  · simp only [hst, if_true]
    unfold eee
    simp only [(stableBits_eq_three_iff bh bl).2 hst, if_true]
  · simp only [hst, if_false]
    unfold eee
    simp only [mt (stableBits_eq_three_iff bh bl).1 hst, if_false]

/-- The frame the pulses `ws` make, if they make one. -/
def framesOf (ws : List ℕ) (frame : UInt32 × UInt32) : List (UInt32 × UInt32) :=
  if ws.length = 39 then [frame] else []

/-- The timeout reads the frame off and clears it. -/
theorem timeout_eq (hlen : ws.length < 2 ^ 32) (hcnt : c.cnt = UInt32.ofNat ws.length)
    (h3 : c.t3 = none) :
    ∃ io, c.timeout =
      { c with
        onRise := !decide (ws.length = 39 ∧ IsStable (c.bh, c.bl))
        onFall := false
        t3 := if ws.length = 39 ∧ IsStable (c.bh, c.bl) then some (c.now + restartUs) else none
        bh := 0
        bl := 0
        cnt := 0
        frames := c.frames ++ framesOf ws (c.bh, c.bl)
        io := io } := by
  have h39 : c.cnt = 39 ↔ ws.length = 39 := by
    rw [hcnt, ← UInt32.toNat_inj, toNat_cnt hlen]
    rfl
  by_cases hframe : ws.length = 39
  · obtain ⟨io, heee⟩ := eee_eq c.bh c.bl
      { c with onRise := true, onFall := false, bh := 0, bl := 0, cnt := 0 }
    refine ⟨io, ?_⟩
    unfold timeout
    simp only [h39.2 hframe, if_true]
    refine heee.trans ?_
    by_cases hst : IsStable (c.bh, c.bl)
    · simp [hframe, hst, framesOf]
    · simp [hframe, hst, framesOf, h3]
  · refine ⟨c.io, ?_⟩
    unfold timeout
    simp [mt h39.1 hframe, hframe, framesOf, h3]

/-- Thirty milliseconds without an edge let `t2` expire. -/
theorem Recording.iterate_timeout (h : Recording ws frames c) (hlen : ws.length < 2 ^ 32) :
    tick^[timeoutUs] c = timeout { c with now := c.now + timeoutUs, t2 := none } := by
  have hwait : tick^[29999] c = { c with now := c.now + 29999 } := by
    apply wait_of_lt
    · intro e he
      have := Option.some.inj (h.t2.symm.trans he)
      simp only [timeoutUs] at this
      omega
    · intro e he
      exact absurd (h.t3.symm.trans he) nofun
  obtain ⟨io, htimeout⟩ := timeout_eq (c := { c with now := c.now + timeoutUs, t2 := none }) hlen
    h.cnt h.t3
  have hsucc : tick^[timeoutUs] c = tick (tick^[29999] c) := Function.iterate_succ_apply' _ _ _
  have h2 : c.t2 = some (c.now + 29999 + 1) := h.t2
  rw [hsucc, hwait, tick]
  simp only [h2, if_true]
  show (if (timeout { c with now := c.now + timeoutUs, t2 := none }).t3 =
    some (timeout { c with now := c.now + timeoutUs, t2 := none }).now then _ else _) = _
  apply if_neg
  rw [htimeout]
  dsimp only
  split
  · intro heq
    have := Option.some.inj heq
    simp only [restartUs] at this
    omega
  · exact nofun

/-- Thirty milliseconds behind the last falling edge. -/
theorem Recording.expire (h : Recording ws frames c) (hlen : ws.length < 2 ^ 32) :
    Idle (frames ++ framesOf ws (c.bh, c.bl)) (tick^[timeoutUs] c) ∧
      ((ws.length = 39 ∧ IsStable (c.bh, c.bl)) →
        (tick^[timeoutUs] c).onRise = false ∧
          (tick^[timeoutUs] c).t3 = some ((tick^[timeoutUs] c).now + restartUs)) ∧
      (¬ (ws.length = 39 ∧ IsStable (c.bh, c.bl)) → (tick^[timeoutUs] c).onRise = true) := by
  obtain ⟨io, htimeout⟩ := timeout_eq (c := { c with now := c.now + timeoutUs, t2 := none }) hlen
    h.cnt h.t3
  rw [h.iterate_timeout hlen, htimeout]
  refine ⟨?_, ?_, ?_⟩
  · exact
      { onFall := rfl
        running := h.running
        t2 := rfl
        bh := rfl
        bl := rfl
        cnt := rfl
        frames := by
          dsimp only
          rw [h.frames]
        phase := by
          dsimp only
          by_cases hst : ws.length = 39 ∧ IsStable (c.bh, c.bl)
          · right
            rw [decide_eq_true hst, if_pos hst]
            exact ⟨rfl, _, rfl, Nat.lt_add_of_pos_right (by decide)⟩
          · left
            rw [decide_eq_false hst, if_neg hst]
            exact ⟨rfl, rfl⟩ }
  · intro hst
    dsimp only
    rw [decide_eq_true hst, if_pos hst]
    exact ⟨rfl, rfl⟩
  · intro hst
    dsimp only
    rw [decide_eq_false hst]
    rfl

/-! ## Between bursts -/

/-- An idle capture that listens goes on listening. -/
theorem Idle.wait_armed (h : Idle frames c) (hrise : c.onRise = true) (n : ℕ) :
    Idle frames (tick^[n] c) ∧ (tick^[n] c).onRise = true := by
  have h3 : c.t3 = none := by
    rcases h.phase with ⟨-, h3⟩ | ⟨hoff, -⟩
    · exact h3
    · exact absurd (hrise.symm.trans hoff) (by decide)
  have hwait : tick^[n] c = { c with now := c.now + n } := by
    apply wait_of_lt
    · exact fun e he => absurd (h.t2.symm.trans he) nofun
    · exact fun e he => absurd (h3.symm.trans he) nofun
  rw [hwait]
  exact ⟨{ h with phase := .inl ⟨hrise, h3⟩ }, hrise⟩

/-- An idle capture that does not listen waits for its timeout. -/
theorem Idle.wait_off (h : Idle frames c) {e n : ℕ} (h3 : c.t3 = some e) (hn : c.now + n < e) :
    tick^[n] c = { c with now := c.now + n } := by
  apply wait_of_lt
  · exact fun e' he => absurd (h.t2.symm.trans he) nofun
  · intro e' he
    rw [← Option.some.inj (h3.symm.trans he)]
    exact hn

/-- At its time `restart` arms the capture again. -/
theorem Idle.restarts (h : Idle frames c) {e n : ℕ} (h3 : c.t3 = some e) (hpos : 0 < n)
    (hn : c.now + n = e) : Idle frames (tick^[n] c) ∧ (tick^[n] c).onRise = true := by
  obtain ⟨k, rfl⟩ := Nat.exists_eq_add_one_of_ne_zero (Nat.ne_of_gt hpos)
  have hexpired : c.t3 = some (c.now + k + 1) := by rw [h3, ← hn, Nat.add_assoc]
  have htick : tick^[k + 1] c = { c with now := c.now + k + 1, t3 := none, onRise := true } := by
    have h2 : c.t2 ≠ some (c.now + k + 1) := fun he => absurd (h.t2.symm.trans he) nofun
    rw [Function.iterate_succ_apply', h.wait_off h3 (by omega), tick]
    simp only [h2, hexpired, if_false, if_true]
    rfl
  rw [htick]
  exact ⟨{ h with phase := .inl ⟨rfl, rfl⟩ }, rfl⟩

/-- The time behind a stable frame. -/
theorem Idle.wait_stable (h : Idle frames c) (hoff : c.onRise = false)
    (h3 : c.t3 = some (c.now + restartUs)) (r : ℕ) :
    Idle frames (tick^[r] c) ∧
      (r < restartUs → (tick^[r] c).onRise = false ∧
        (tick^[r] c).t3 = some ((tick^[r] c).now + (restartUs - r))) ∧
      (restartUs ≤ r → (tick^[r] c).onRise = true) := by
  have hpos : 0 < restartUs := by decide
  generalize restartUs = restart at h3 hpos ⊢
  by_cases hlong : r < restart
  · have hlt : c.now + r < c.now + restart := Nat.add_lt_add_left hlong _
    have hleft : c.now + r + (restart - r) = c.now + restart := by omega
    rw [h.wait_off h3 hlt]
    refine ⟨{ h with phase := .inr ⟨hoff, _, h3, hlt⟩ }, fun _ => ⟨hoff, ?_⟩, ?_⟩
    · dsimp only
      rw [h3, hleft]
    · exact fun hge => absurd hlong (Nat.not_lt.2 hge)
  · obtain ⟨m, rfl⟩ := Nat.exists_eq_add_of_le (Nat.le_of_not_lt hlong)
    have harmed := h.restarts h3 hpos rfl
    rw [Nat.add_comm restart m, Function.iterate_add_apply]
    obtain ⟨hi, ho⟩ := harmed.1.wait_armed harmed.2 m
    exact ⟨hi, fun hlt => absurd hlt (by omega), fun _ => ho⟩

/-- While the capture is off, edges are lost and time passes. -/
theorem Idle.run_off (h : Idle frames c) (hoff : c.onRise = false) {e : ℕ} (h3 : c.t3 = some e)
    (ss : List Signal) (hss : c.now + waited ss < e) :
    run signal c ss = { c with now := c.now + waited ss } := by
  induction ss generalizing c with
  | nil => rfl
  | cons s ss ih =>
    rw [run_cons]
    cases s with
    | rise =>
      have hlost : c.signal .rise = c := if_neg (by rw [hoff]; decide)
      have hwaited : waited (.rise :: ss) = waited ss := Nat.zero_add _
      rw [hwaited] at hss ⊢
      rw [hlost]
      exact ih h hoff h3 hss
    | fall =>
      have hlost : c.signal .fall = c := if_neg (by rw [h.onFall]; decide)
      have hwaited : waited (.fall :: ss) = waited ss := Nat.zero_add _
      rw [hwaited] at hss ⊢
      rw [hlost]
      exact ih h hoff h3 hss
    | wait us =>
      have hwaited : waited (.wait us :: ss) = us + waited ss := rfl
      rw [hwaited, ← Nat.add_assoc] at hss
      have hwait : c.signal (.wait us) = { c with now := c.now + us } :=
        h.wait_off h3 (Nat.lt_of_le_of_lt (Nat.le_add_right _ _) hss)
      have hidle : Idle frames { c with now := c.now + us } :=
        { h with phase := .inr ⟨hoff, e, h3, Nat.lt_of_le_of_lt (Nat.le_add_right _ _) hss⟩ }
      rw [hwait, ih hidle hoff h3 hss, hwaited, ← Nat.add_assoc]

/-! ## Whole bursts -/

/-- A capture behind a burst. -/
def burst (c : Capture) (b : Burst) : Capture := run signal c b.signals

/-- The recorded words are the frame of a burst of 39 pulses. -/
theorem Recording.decodes {b : Burst} (h : Recording b.widths frames c)
    (hlen : b.widths.length = 39) : Decodes (c.bh, c.bl) b where
  high := by
    intro k hk
    have hpos : 31 - (31 - k) = k := by omega
    rw [h.bh (31 - k) (by omega), hpos]
  low := by
    intro k hlo hhi
    have hpos : 63 - (63 - k) = k := by omega
    rw [h.bl (63 - k) (by omega), hpos]
  unused := by
    intro j hj
    rw [h.bl j (by omega), List.getElem?_eq_none (by omega)]
    rfl

/-- **One burst.** It adds its frame if it has 39 pulses. Behind a stable frame the capture
is off until five seconds after the timeout, behind anything else it is armed. -/
theorem Idle.burst (h : Idle frames c) (hrise : c.onRise = true) {b : Burst} (hb : b.Spaced)
    (hlen : b.widths.length < 2 ^ 32) :
    ∃ frame, (b.widths.length = 39 → Decodes frame b) ∧
      Idle (frames ++ framesOf b.widths frame) (c.burst b) ∧
      (b.widths.length = 39 → IsStable frame → b.quiet < timeoutUs + restartUs →
        (c.burst b).onRise = false ∧
          (c.burst b).t3 = some ((c.burst b).now + (timeoutUs + restartUs - b.quiet))) ∧
      ((b.widths.length = 39 → IsStable frame → timeoutUs + restartUs ≤ b.quiet) →
        (c.burst b).onRise = true) := by
  have hwidths : [b.first] ++ b.rest.map Prod.snd = b.widths := rfl
  have hrest : [b.first].length + b.rest.length < 2 ^ 32 := by
    rw [← hwidths, List.length_append, List.length_map] at hlen
    exact hlen
  have hrec := (h.pulse hrise b.first).pulses b.rest hrest hb.rest
  have hburst : c.burst b =
      tick^[b.quiet] (run signal (run signal c [.rise, .wait b.first, .fall])
        (b.rest.flatMap fun p => [.wait p.1, .rise, .wait p.2, .fall])) := by
    rw [Capture.burst, Burst.signals, run_append, run_append]
    rfl
  rw [hwidths] at hrec
  rw [hburst]
  generalize run signal (run signal c [.rise, .wait b.first, .fall])
    (b.rest.flatMap fun p => [.wait p.1, .rise, .wait p.2, .fall]) = c₁ at hrec
  obtain ⟨hidle, hoff, hon⟩ := hrec.expire hlen
  obtain ⟨r, hr⟩ := Nat.exists_eq_add_of_le hb.quiet
  have hsplit : tick^[b.quiet] c₁ = tick^[r] (tick^[timeoutUs] c₁) := by
    rw [hr, Nat.add_comm, Function.iterate_add_apply]
  rw [hsplit]
  generalize tick^[timeoutUs] c₁ = c₂ at hidle hoff hon
  refine ⟨(c₁.bh, c₁.bl), hrec.decodes, ?_⟩
  by_cases hst : b.widths.length = 39 ∧ IsStable (c₁.bh, c₁.bl)
  · obtain ⟨hi, hpaused, hresumed⟩ := hidle.wait_stable (hoff hst).1 (hoff hst).2 r
    have hleft : timeoutUs + restartUs - b.quiet = restartUs - r := by omega
    rw [hleft]
    refine ⟨hi, fun _ _ hlt => hpaused (by omega), fun hquiet => hresumed ?_⟩
    have := hquiet hst.1 hst.2
    omega
  · obtain ⟨hi, ho⟩ := hidle.wait_armed (hon hst) r
    exact ⟨hi, fun h39 hs => absurd ⟨h39, hs⟩ hst, fun _ => ho⟩

/-! ## Runs -/

/-- The capture after `weight_init`, when `d` microseconds have passed. -/
def listening (d : ℕ) : Capture := weightInit.signal (.wait d)

/-- A new capture is idle and listens. -/
theorem idle_listening (d : ℕ) : Idle [] (listening d) ∧ (listening d).onRise = true := by
  have hinit : Idle [] weightInit :=
    { onFall := rfl
      running := rfl
      t2 := rfl
      bh := rfl
      bl := rfl
      cnt := rfl
      frames := rfl
      phase := .inl ⟨rfl, rfl⟩ }
  exact hinit.wait_armed rfl d

/-- Behind a stable frame, with `quiet` microseconds gone: until `restart` has run five
seconds after the timeout no pulse is recorded, whatever comes, and then the capture is
armed again. -/
structure Paused (quiet : ℕ) (c : Capture) : Prop where
  resumed : timeoutUs + restartUs ≤ quiet → c.onRise = true
  off : ∀ ss, quiet + waited ss < timeoutUs + restartUs →
    Idle c.frames (run signal c ss) ∧ (run signal c ss).onRise = false
  restart : ∀ ss, quiet + waited ss < timeoutUs + restartUs →
    let rest := timeoutUs + restartUs - (quiet + waited ss)
    Idle c.frames ((run signal c ss).signal (.wait rest)) ∧
      ((run signal c ss).signal (.wait rest)).onRise = true

/-- How long an idle capture has been quiet says whether it listens. -/
theorem Idle.paused (h : Idle frames c) {quiet : ℕ}
    (hoff : quiet < timeoutUs + restartUs →
      c.onRise = false ∧ c.t3 = some (c.now + (timeoutUs + restartUs - quiet)))
    (hon : timeoutUs + restartUs ≤ quiet → c.onRise = true) : Paused quiet c := by
  generalize hend : timeoutUs + restartUs = deadline at hoff hon
  have hrun : ∀ ss, quiet + waited ss < deadline →
      run signal c ss = { c with now := c.now + waited ss } ∧ c.onRise = false ∧
        c.t3 = some (c.now + (deadline - quiet)) := by
    intro ss hss
    obtain ⟨ho, h3⟩ := hoff (by omega)
    exact ⟨h.run_off ho h3 ss (by omega), ho, h3⟩
  have hidle : ∀ ss, quiet + waited ss < deadline →
      Idle c.frames { c with now := c.now + waited ss } := by
    intro ss hss
    obtain ⟨-, ho, h3⟩ := hrun ss hss
    exact { h with frames := rfl, phase := .inr ⟨ho, _, h3, by dsimp only; omega⟩ }
  constructor
  · rw [hend]
    exact hon
  · intro ss hss
    rw [hend] at hss
    rw [(hrun ss hss).1]
    exact ⟨hidle ss hss, (hrun ss hss).2.1⟩
  · intro ss hss
    rw [hend] at hss ⊢
    rw [(hrun ss hss).1]
    exact (hidle ss hss).restarts (hrun ss hss).2.2 (by omega) (by dsimp only; omega)

/-- What holds behind the bursts of a run. -/
theorem run_bursts (d : ℕ) (bs : List Burst)
    (hbs : ∀ b ∈ bs, b.Spaced ∧ b.widths.length < 2 ^ 32)
    (harmed : Along burst (fun c _ => c.onRise = true) (listening d) bs) :
    ∃ frames, Idle frames (run burst (listening d) bs) ∧
      List.Forall₂ Decodes frames (bs.filter fun b => b.widths.length = 39) := by
  induction bs using List.reverseRecOn with
  | nil => exact ⟨[], (idle_listening d).1, List.Forall₂.nil⟩
  | append_singleton bs b ih =>
    rw [along_concat] at harmed
    obtain ⟨frames, hidle, hdecodes⟩ := ih (fun b' hb' => hbs b' (List.mem_append_left _ hb')) harmed.1
    obtain ⟨hspaced, hlen⟩ := hbs b (List.mem_append_right _ (List.mem_singleton_self b))
    obtain ⟨frame, hframe, hnext, -⟩ := hidle.burst harmed.2 hspaced hlen
    refine ⟨_, by rw [run_concat]; exact hnext, ?_⟩
    rw [List.filter_append]
    apply List.rel_append hdecodes
    by_cases h39 : b.widths.length = 39
    · simp only [framesOf, h39, if_true, List.filter_cons, decide_true, List.filter_nil]
      exact List.Forall₂.cons (hframe h39) List.Forall₂.nil
    · simp only [framesOf, h39, if_false, List.filter_cons, decide_false, List.filter_nil,
        Bool.false_eq_true]
      exact List.Forall₂.nil

/-- **Frames out of bursts.** For every sequence of bursts, each starting while the capture
is armed: `eee` is called once for each burst of exactly 39 pulses and for no other, in their
order, with the frame its own pulses make. And behind a stable frame the capture pauses. -/
theorem frames_of_bursts (d : ℕ) (bs : List Burst)
    (hbs : ∀ b ∈ bs, b.Spaced ∧ b.widths.length < 2 ^ 32)
    (harmed : Along burst (fun c _ => c.onRise = true) (listening d) bs) :
    List.Forall₂ Decodes (run burst (listening d) bs).frames
        (bs.filter fun b => b.widths.length = 39) ∧
      ∀ before b frame, bs = before ++ [b] → b.widths.length = 39 →
        (run burst (listening d) bs).frames.getLast? = some frame → IsStable frame →
        Paused b.quiet (run burst (listening d) bs) := by
  constructor
  · obtain ⟨frames, hidle, hdecodes⟩ := run_bursts d bs hbs harmed
    rw [hidle.frames]
    exact hdecodes
  · rintro before b frame rfl h39 hlast hstable
    rw [along_concat] at harmed
    obtain ⟨frames, hidle, -⟩ := run_bursts d before
      (fun b' hb' => hbs b' (List.mem_append_left _ hb')) harmed.1
    obtain ⟨hspaced, hlen⟩ := hbs b (List.mem_append_right _ (List.mem_singleton_self b))
    obtain ⟨frame', -, hnext, hoff, hon⟩ := hidle.burst harmed.2 hspaced hlen
    rw [run_concat] at hlast ⊢
    have hsame : frame' = frame := by
      rw [hnext.frames, framesOf, if_pos h39, List.getLast?_concat] at hlast
      exact Option.some.inj hlast
    rw [hsame] at hoff hon
    exact hnext.paused (hoff h39 hstable) fun hquiet => hon fun _ _ => hquiet

/-- Bursts that leave five seconds behind a frame find the capture armed. -/
theorem Idle.armed_bursts (h : Idle frames c) (hrise : c.onRise = true) {bs : List Burst}
    (hbs : ∀ b ∈ bs, b.Spaced ∧ b.widths.length < 2 ^ 32 ∧
      (b.widths.length = 39 → timeoutUs + restartUs ≤ b.quiet)) :
    Along Capture.burst (fun c _ => c.onRise = true) c bs ∧
      (run Capture.burst c bs).onRise = true := by
  induction bs generalizing frames c with
  | nil => exact ⟨trivial, hrise⟩
  | cons b bs ih =>
    obtain ⟨hspaced, hlen, hquiet⟩ := hbs b List.mem_cons_self
    obtain ⟨frame, -, hnext, -, hon⟩ := h.burst hrise hspaced hlen
    obtain ⟨halong, hlast⟩ := ih hnext (hon fun h39 _ => hquiet h39)
      fun b' hb' => hbs b' (List.mem_cons_of_mem b hb')
    exact ⟨⟨hrise, halong⟩, hlast⟩

/-- Short pulses, one more than `n`. -/
def shortBurst (n : ℕ) : Burst := ⟨400, List.replicate n (1000, 400), 40000⟩

/-- A stable frame: pulses 12 and 13 are short. -/
def stableBurst (quiet : ℕ) : Burst :=
  ⟨1000, (List.range 38).map fun k => (1000, if k = 11 ∨ k = 12 then 400 else 1000), quiet⟩

/-- Two pulses, a stable frame with its pause, forty pulses and a stable frame again. -/
def fourBursts : List Burst :=
  [shortBurst 1, stableBurst 5030000, shortBurst 39] ++ [stableBurst 40000]

/-- Of four bursts the two stable frames are passed on, and behind the second the pause goes on. -/
theorem frames_of_bursts_four :
    List.Forall₂ Decodes (run burst (listening 7) fourBursts).frames
        [stableBurst 5030000, stableBurst 40000] ∧
      Paused 40000 (run burst (listening 7) fourBursts) := by
  have hbs : ∀ b ∈ [shortBurst 1, stableBurst 5030000, shortBurst 39],
      b.Spaced ∧ b.widths.length < 2 ^ 32 ∧
        (b.widths.length = 39 → timeoutUs + restartUs ≤ b.quiet) := by
    rw [List.forall_mem_cons, List.forall_mem_cons, List.forall_mem_singleton]
    refine ⟨⟨⟨by decide, by decide⟩, by decide, by decide⟩,
      ⟨⟨by decide, by decide⟩, by decide, by decide⟩, ⟨by decide, by decide⟩, by decide, by decide⟩
  have hlast : (stableBurst 40000).Spaced ∧ (stableBurst 40000).widths.length < 2 ^ 32 :=
    ⟨⟨by decide, by decide⟩, by decide⟩
  have hfilter : fourBursts.filter (fun b => b.widths.length = 39) =
      [stableBurst 5030000, stableBurst 40000] := rfl
  obtain ⟨halong, harmed⟩ := (idle_listening 7).1.armed_bursts (idle_listening 7).2 hbs
  obtain ⟨hframes, hpaused⟩ := frames_of_bursts 7 fourBursts
    (List.forall_mem_append.2 ⟨fun b hb => ⟨(hbs b hb).1, (hbs b hb).2.1⟩, by simpa using hlast⟩)
    ((along_concat _ _ _ _).2 ⟨halong, harmed⟩)
  rw [hfilter] at hframes
  refine ⟨hframes, ?_⟩
  obtain ⟨_, _, -, hrest, hc⟩ := List.forall₂_cons_right_iff.1 hframes
  obtain ⟨frame, _, hdecodes, hnil, rfl⟩ := List.forall₂_cons_right_iff.1 hrest
  obtain rfl := List.forall₂_nil_right_iff.1 hnil
  have hgetlast : (run burst (listening 7) fourBursts).frames.getLast? = some frame := by
    rw [hc]
    rfl
  exact hpaused _ (stableBurst 40000) frame rfl (by decide) hgetlast
    ⟨hdecodes.high 12 (by decide), hdecodes.high 13 (by decide)⟩

/-- A first pulse of `2 ^ 32` microseconds, more than an hour, is recorded as a short one. -/
theorem long_pulse_recorded_short :
    let b : Burst := ⟨2 ^ 32, List.replicate 38 (1000, 1000), 30000⟩
    (b.Spaced ∧ b.widths.length = 39 ∧ (listening 0).onRise = true) ∧
      ∃ frame, ((listening 0).burst b).frames = [frame] ∧
        frame.1.toNat.testBit 31 = true ∧ ¬ b.first < 750 := by
  intro b
  have hb : b.Spaced := ⟨by decide, by decide⟩
  have h39 : b.widths.length = 39 := by decide
  obtain ⟨frame, hframe, hidle, -⟩ := (idle_listening 0).1.burst (idle_listening 0).2 hb (by decide)
  refine ⟨⟨hb, h39, (idle_listening 0).2⟩, frame, ?_, ?_, by decide⟩
  · rw [hidle.frames, framesOf, if_pos h39]
    rfl
  · have hshort : short b.first = true := by decide
    exact ((hframe h39).high 0 (by decide)).trans hshort

end Capture

end WeightScale
