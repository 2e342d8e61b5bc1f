import WeightScale.Analysis.Actions

/-!
# What the serial port gets

`printf2` hands the text it formatted to `pc.printf` as a format. So the text goes out as it
is only if it holds no conversion character, whichever argument it comes from.
-/

set_option autoImplicit false

namespace WeightScale

open Embedded

namespace Io

/-- **`printf2` prints what it formatted** exactly when no piece of the format, neither a
literal text nor an argument as it is converted, prints a `%` or a NUL. Then exactly the
pieces one behind another are formatted into `buf`, go to the serial port, and are handed to
`printOLED`. -/
theorem printf2_eq_iff (pieces : List Piece) (io : Io) :
    io.printf2 (format pieces) =
        ((io.sprintf .buf (format pieces)).emit (.serial (some (format pieces)))).printOled
          (format pieces) ↔
      ∀ piece ∈ pieces, chr '%' ∉ piece.text ∧ 0 ∉ piece.text := by
  have hpieces : (chr '%' ∉ format pieces ∧ 0 ∉ format pieces) ↔
      ∀ piece ∈ pieces, chr '%' ∉ piece.text ∧ 0 ∉ piece.text := by
    simp only [format, List.mem_flatMap, not_exists, not_and]
    constructor
    · intro h piece hpiece
      exact ⟨h.1 piece hpiece, h.2 piece hpiece⟩
    · intro h
      exact ⟨fun piece hpiece => (h piece hpiece).1, fun piece hpiece => (h piece hpiece).2⟩
  rw [← hpieces]
  generalize format pieces = t
  constructor
  · intro h
    obtain ⟨rows, hlog⟩ := log_printf2 t io
    obtain ⟨rows', hlog'⟩ := log_printOled t ((io.sprintf .buf t).emit (.serial (some t)))
    have hserial : expand (cstr t) = some t := by
      rw [h, hlog', emit, sprintf, emit, List.append_assoc, List.append_assoc] at hlog
      have htail := List.append_cancel_left hlog
      exact (Event.serial.inj (List.cons.inj (List.cons.inj htail).2).1).symm
    -- nothing can have been lost on the way
    have hle := (length_expand hserial).1
    have hcstr : cstr t = t := by
      have hsub : (cstr t).Sublist t := List.takeWhile_sublist _
      exact hsub.eq_of_length_le hle
    rw [hcstr] at hserial
    refine ⟨expand_eq_self_iff.1 hserial, fun hzero => ?_⟩
    rw [← hcstr] at hzero
    exact ne_zero_of_mem_cstr hzero rfl
  · rintro ⟨hpercent, hzero⟩
    have hcstr : cstr t = t := cstr_eq_self fun b hb heq => hzero (heq ▸ hb)
    rw [printf2, hcstr, expand_eq_self hpercent]

/-- A response body that comes with `%%` is printed with one `%`. -/
theorem printf2_percent :
    let t := format [.s (ascii "100%% done"), .literal (ascii "\n")]
    t.length < 300 ∧ Event.serial (some (ascii "100% done\n")) ∈ (({} : Io).printf2 t).log ∧
      Event.serial (some t) ∉ (({} : Io).printf2 t).log := by
  decide +kernel

end Io

end WeightScale
