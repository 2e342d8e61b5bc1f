import WeightScale.Analysis.Actions
import WeightScale.Analysis.OledLog
import WeightScale.Interface.Runs

/-!
# Texts and the arrays they are formatted into

Every text but one has a length that the program bounds itself: literals, numbers, the two
arrays of the password, the addresses of the connection. The exception is the body of an
HTTP response, which `printf2` formats into `buf` whatever its length. So all texts of a run
fit exactly when the bodies it received do.
-/

set_option autoImplicit false

namespace WeightScale

open Embedded

/-- The text fits with its terminator, and the `uint8_t` of `cmd_print_text` counts it. -/
def Fits (dst : TextBuffer) (t : Text) : Prop :=
  t.length + 1 ≤ dst.room ∧
    (dst = .ledCmd → (UInt8.ofNat (t.length + 1)).toNat = t.length + 1)

instance (dst : TextBuffer) (t : Text) : Decidable (Fits dst t) :=
  inferInstanceAs (Decidable (_ ∧ _))

/-- Every text put into an array so far fits. -/
def Io.AllFit (io : Io) : Prop := ∀ dst t, Event.fill dst t ∈ io.log → Fits dst t

/-- What `printf2` can take of a response: 298 chars and the newline behind them. -/
def BodyFits : SendResult → Prop
  | .failed _ => True
  | .ok body => (cstr body).length ≤ 298

/-- All texts fit so far exactly when the bodies received so far do. -/
def Fitting (net : Net) (io : Io) : Prop :=
  io.AllFit ↔ ∀ k < io.requests, BodyFits (net k)

/-- A text with its NUL fits as soon as it is no longer than the room. -/
theorem fits_of_length {dst : TextBuffer} {t : Text} (h : t.length + 1 ≤ dst.room) :
    Fits dst t := by
  refine ⟨h, ?_⟩
  rintro rfl
  simp only [TextBuffer.room] at h
  simp
  omega

namespace Io

/-- All writes fit as soon as the earlier ones and the new ones do. -/
theorem allFit_append {io io' : Io} {events : List Event} (h : io'.log = io.log ++ events) :
    io'.AllFit ↔ io.AllFit ∧ ∀ dst t, Event.fill dst t ∈ events → Fits dst t := by
  constructor
  · intro hfit
    rw [AllFit, h] at hfit
    exact ⟨fun dst t hmem => hfit dst t (List.mem_append_left _ hmem),
      fun dst t hmem => hfit dst t (List.mem_append_right _ hmem)⟩
  · rintro ⟨hio, hevents⟩ dst t hmem
    rw [h] at hmem
    rcases List.mem_append.1 hmem with hmem | hmem
    · exact hio dst t hmem
    · exact hevents dst t hmem

/-- An event that fills no buffer changes nothing about the fit. -/
theorem allFit_emit {e : Event} (io : Io) (he : ∀ dst t, e ≠ .fill dst t) :
    (io.emit e).AllFit ↔ io.AllFit := by
  have hlog : (io.emit e).log = io.log ++ [e] := rfl
  rw [allFit_append hlog]
  refine and_iff_left fun dst t hmem => ?_
  exact absurd (List.mem_singleton.1 hmem).symm (he dst t)

/-- A `sprintf` adds its own write to what has to fit. -/
theorem allFit_sprintf (dst : TextBuffer) (t : Text) (io : Io) :
    (io.sprintf dst t).AllFit ↔ io.AllFit ∧ Fits dst t := by
  have hlog : (io.sprintf dst t).log = io.log ++ [.fill dst t] := rfl
  rw [allFit_append hlog]
  refine and_congr_right fun _ => ?_
  constructor
  · exact fun h => h dst t (List.mem_singleton_self _)
  · intro ht dst' t' hmem
    obtain ⟨rfl, rfl⟩ := Event.fill.inj (List.mem_singleton.1 hmem)
    exact ht

/-- `printf2` fits what it formats into `buf`, and what it hands on is no longer than that. -/
theorem allFit_printf2 (t : Text) (io : Io) :
    (io.printf2 t).AllFit ↔ io.AllFit ∧ t.length ≤ 299 := by
  obtain ⟨rows, hlog⟩ := log_printf2 t io
  rw [allFit_append hlog]
  refine and_congr_right fun _ => ?_
  constructor
  · intro h
    have hroom := (h .buf t List.mem_cons_self).1
    simp only [TextBuffer.room] at hroom
    omega
  · intro ht dst t' hmem
    rcases List.mem_cons.1 hmem with heq | hmem
    · obtain ⟨rfl, rfl⟩ := Event.fill.inj heq
      exact fits_of_length (Nat.succ_le_succ ht)
    · rcases List.mem_cons.1 hmem with heq | hmem
      · cases heq
      · rcases List.mem_append.1 hmem with hmem | hmem
        · obtain ⟨tok, htok, heq⟩ := List.mem_map.1 hmem
          obtain ⟨rfl, rfl⟩ := Event.fill.inj heq
          have hlen := (sublist_of_mem_tokens (List.mem_of_mem_take htok)).length_le
          have hcstr := length_cstr_le t
          exact fits_of_length (Nat.succ_le_succ (by omega))
        · cases List.mem_singleton.1 hmem

end Io

namespace Fitting

variable {net : Net} {io : Io}

/-- A step that makes no request and fills no array. -/
theorem of_eq (h : Fitting net io) {io' : Io} (hreq : io'.requests = io.requests)
    (hfit : io'.AllFit ↔ io.AllFit) : Fitting net io' := by
  rw [Fitting, hfit, hreq]
  exact h

/-- An event that fills no buffer keeps the writes within the condition. -/
theorem emit (h : Fitting net io) {e : Event} (he : ∀ dst t, e ≠ .fill dst t) :
    Fitting net (io.emit e) :=
  h.of_eq rfl (Io.allFit_emit io he)

/-- A recorded call fills no buffer. -/
theorem call (h : Fitting net io) (f : Call) : Fitting net (io.call f) := h.emit (by simp)

/-- A transfer over I2C fills no text buffer. -/
theorem write (h : Fitting net io) (address : Byte) (data : List Byte) :
    Fitting net (io.write address data) := h.emit (by simp)

/-- A text that fits its buffer keeps the writes within the condition. -/
theorem sprintf (h : Fitting net io) (dst : TextBuffer) {t : Text}
    (ht : t.length + 1 ≤ dst.room) : Fitting net (io.sprintf dst t) := by
  refine h.of_eq rfl ?_
  rw [Io.allFit_sprintf]
  exact and_iff_left (fits_of_length ht)

/-- A text of at most 299 chars fits the buffers of `printf2` and of its rows. -/
theorem printf2 (h : Fitting net io) {t : Text} (ht : t.length ≤ 299) :
    Fitting net (io.printf2 t) := by
  refine h.of_eq (Io.requests_printf2 t io) ?_
  rw [Io.allFit_printf2]
  exact and_iff_left ht

/-- **A request** adds one text that the program does not bound: the body that comes back. -/
theorem httpGet (h : Fitting net io) {url : Text} (hurl : url.length ≤ 255) :
    Fitting net (io.httpGet net url) := by
  have hline : (ascii "Request to " ++ url ++ ascii "\r\n").length ≤ 299 :=
    Io.Reached.length_framed hurl (by decide)
  have hsent := ((h.sprintf .urlBuffer (Nat.succ_le_succ hurl)).printf2 hline).printf2
    (t := ascii "\n----- HTTP GET request -----\n") (by decide)
  have hreq : ((((io.sprintf .urlBuffer url).printf2 (ascii "Request to " ++ url ++
      ascii "\r\n")).printf2 (ascii "\n----- HTTP GET request -----\n"))).requests =
      io.requests := by
    rw [Io.requests_printf2, Io.requests_printf2]; rfl
  unfold Io.httpGet
  dsimp only
  generalize ((io.sprintf .urlBuffer url).printf2 (ascii "Request to " ++ url ++
    ascii "\r\n")).printf2 (ascii "\n----- HTTP GET request -----\n") = sent at hsent hreq
  rw [Fitting, hreq] at hsent
  -- the request is made: one more response counts
  have hmade : ∀ e : Event, (∀ dst t, e ≠ .fill dst t) → ∀ n,
      (({ sent.emit e with requests := n } : Io).emit (.http sent.requests .send)).AllFit ↔
        sent.AllFit := by
    intro e he n
    rw [Io.allFit_emit _ (by simp)]
    exact Io.allFit_emit sent he
  cases hnet : net sent.requests with
  | failed error =>
    have herr : (ascii "HttpRequest failed (error code " ++ fmtD error.toInt ++
        ascii ")\n").length ≤ 299 := Io.Reached.length_framed (length_fmtD_le error) (by decide)
    rw [Fitting, Io.allFit_printf2, and_iff_left herr, Io.allFit_emit _ (by simp),
      hmade _ (by simp), hsent, Io.requests_printf2]
    show _ ↔ ∀ k < sent.requests + 1, _
    rw [hreq] at hnet ⊢
    rw [Nat.forall_lt_succ_right, hnet]
    simp [BodyFits]
  | ok body =>
    have hresponse : (ascii "\n----- HTTP GET response -----\n").length ≤ 299 := by decide
    have hbody : (cstr body ++ ascii "\n").length ≤ 299 ↔ BodyFits (net sent.requests) := by
      have hnewline : (ascii "\n").length = 1 := by decide
      rw [hnet, BodyFits, List.length_append, hnewline]
      omega
    rw [Fitting, Io.allFit_emit _ (by simp), Io.allFit_printf2, hbody, Io.allFit_emit _ (by simp),
      Io.allFit_printf2, and_iff_left hresponse, hmade _ (by simp), hsent]
    show _ ↔ ∀ k < (Io.printf2 _ _).requests, _
    rw [Io.requests_printf2]
    show _ ↔ ∀ k < (Io.printf2 _ _).requests, _
    rw [Io.requests_printf2]
    show _ ↔ ∀ k < sent.requests + 1, _
    rw [Nat.forall_lt_succ_right, hreq]

/-- Every action keeps it. -/
theorem of_reached (h : Io.Reached net io) : Fitting net io := by
  induction h with
  | start =>
    exact iff_of_true (fun dst t h => absurd h List.not_mem_nil)
      fun k h => absurd h (Nat.not_lt_zero k)
  | call _ f ih => exact ih.emit (by simp)
  | write _ address data ih => exact ih.emit (by simp)
  | sprintf _ dst ht ih => exact ih.sprintf dst ht
  | printf2 _ ht ih => exact ih.printf2 ht
  | httpGet _ hurl ih => exact ih.httpGet hurl
  | setAlarm _ alarm ih => exact ih.of_eq rfl Iff.rfl

end Fitting

namespace Device

variable (net : Net) (wifi : Wifi) (leadSw : Bool)

/-- In every run every write fits, or is the body the condition speaks of. -/
theorem fitting_system (ss : List SystemStep) : Fitting net (system net wifi leadSw ss).io :=
  Fitting.of_reached (reached_system net wifi leadSw ss)

/-- **Every text of a run fits its array** if and only if every response body the run has
received is at most 298 chars long. -/
theorem allFit_system_iff (ss : List SystemStep) :
    (system net wifi leadSw ss).io.AllFit ↔
      ∀ k < (system net wifi leadSw ss).io.requests, BodyFits (net k) :=
  fitting_system net wifi leadSw ss

/-- The first request of the device is answered by a body of 299 chars, which `printf2`
formats into `buf` with a newline behind it. -/
theorem not_allFit_long_body :
    ¬ (system (fun _ => .ok (List.replicate 299 (chr 'a'))) .down false
      [.iterate (.idle false Input.noWeight)]).io.AllFit := by
  intro h
  have hbody := (fitting_system _ _ _ _).1 h 0 (by decide +kernel)
  have hlong : ¬ (cstr (List.replicate 299 (chr 'a'))).length ≤ 298 := by decide +kernel
  exact hlong hbody

end Device

end WeightScale
