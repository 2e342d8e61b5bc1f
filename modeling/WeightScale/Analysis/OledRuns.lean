import WeightScale.Analysis.OledScreen
import WeightScale.Analysis.Actions

/-!
# The screen over a run

Every list of rows that the device sends to its OLED has eight rows of at most twenty chars
without a line feed, over any run and whatever the lines of the messages. So after any run
each pixel of the screen is a bit of the font, of the char in its column of its row.
-/

set_option autoImplicit false

namespace WeightScale

open Embedded

/-- Rows that take one line of the screen each. -/
structure Drawable (rows : List Text) : Prop where
  length_eq : rows.length = maxPage
  length_le : ∀ row ∈ rows, row.length ≤ 20
  no_newline : ∀ row ∈ rows, chr '\n' ∉ row

/-- No piece holds the delimiter. -/
theorem notMem_of_mem_splitOn {delim : Byte} {t piece : Text} (h : piece ∈ t.splitOn delim) :
    delim ∉ piece := by
  induction t generalizing piece with
  | nil =>
    rw [List.splitOn_nil, List.mem_singleton] at h
    simp [h]
  | cons b t ih =>
    by_cases hb : b = delim
    · rw [hb, splitOn_cons_self] at h
      rcases List.mem_cons.1 h with rfl | h
      · simp
      · exact ih h
    · rw [splitOn_cons_ne hb] at h
      cases hsplit : t.splitOn delim with
      | nil =>
        rw [hsplit] at h
        exact absurd h List.not_mem_nil
      | cons head pieces =>
        rw [hsplit] at h
        rcases List.mem_cons.1 h with rfl | h
        · have hhead : delim ∉ head := ih (by rw [hsplit]; exact List.mem_cons_self)
          rw [List.mem_cons, not_or]
          exact ⟨Ne.symm hb, hhead⟩
        · exact ih (by rw [hsplit]; exact List.mem_cons_of_mem head h)

/-- `strtok` leaves no delimiter in a token. -/
theorem notMem_of_mem_split {t tok : Text} {delim : Byte} (h : tok ∈ split t delim) :
    delim ∉ tok := by
  have htok := List.mem_of_mem_take h
  rw [tokens_eq] at htok
  exact notMem_of_mem_splitOn (List.mem_filter.1 htok).1

namespace OledLog

/-- What each row of `printOLED` holds. -/
def Cut (o : OledLog) : Prop := ∀ row ∈ o.str.toList, (row.str 0).length ≤ 20 ∧ chr '\n' ∉ row.str 0

/-- A token without a newline keeps the rows without newlines. -/
theorem Cut.put {o : OledLog} (h : o.Cut) {tok : Text} (htok : chr '\n' ∉ tok) :
    (o.put tok).Cut := by
  intro row hrow
  rw [OledLog.put, Vector.toList_setIfInBounds] at hrow
  rcases List.mem_or_eq_of_mem_set hrow with hrow | rfl
  · exact h row hrow
  · rw [CharArray.str_store_zero _ (by decide)]
    refine ⟨List.length_take_le _ _, fun hmem => ?_⟩
    exact htok (CharArray.mem_of_mem_str_strcpy (List.mem_of_mem_take hmem))

/-- The empty rows hold no newline. -/
theorem cut_empty : ({} : OledLog).Cut := by
  intro row hrow
  have hzeros : row = CharArray.zeros maxChar :=
    List.eq_of_mem_replicate (n := maxPage) (by simpa using hrow)
  rw [hzeros]
  decide

/-- Rows without newlines can be drawn one to a line. -/
theorem Cut.drawable {o : OledLog} (h : o.Cut) (hj : o.j ≤ maxPage) : Drawable o.rows := by
  have hmem : ∀ row ∈ o.rows, ∃ a ∈ o.str.toList, a.str 0 = row := by
    intro row hrow
    obtain ⟨a, ha, rfl⟩ := List.mem_map.1 hrow
    rcases List.mem_append.1 ha with ha | ha
    · exact ⟨a, List.mem_of_mem_drop ha, rfl⟩
    · exact ⟨a, List.mem_of_mem_take ha, rfl⟩
  refine ⟨by simp [rows]; omega, fun row hrow => ?_, fun row hrow => ?_⟩
  · obtain ⟨a, ha, rfl⟩ := hmem row hrow
    exact (h a ha).1
  · obtain ⟨a, ha, rfl⟩ := hmem row hrow
    exact (h a ha).2

end OledLog

namespace Io

/-- The rows are cut, and so were all rows sent so far. -/
structure RowsCut (io : Io) : Prop where
  cut : io.oled.Cut
  j_le : io.oled.j ≤ maxPage
  sent : ∀ rows, Event.oled rows ∈ io.log → Drawable rows

namespace RowsCut

variable {io : Io}

/-- An event keeps the condition as far as the rows it draws meet it. -/
theorem emit (h : io.RowsCut) {e : Event} (he : ∀ rows, e = .oled rows → Drawable rows) :
    (io.emit e).RowsCut := by
  refine ⟨h.cut, h.j_le, fun rows hmem => ?_⟩
  rcases List.mem_append.1 hmem with hmem | hmem
  · exact h.sent rows hmem
  · exact he rows (List.mem_singleton.1 hmem).symm

/-- Filling a buffer draws no rows. -/
theorem sprintf (h : io.RowsCut) (dst : TextBuffer) (t : Text) : (io.sprintf dst t).RowsCut :=
  h.emit (by simp)

/-- Putting a token into its row draws no rows. -/
theorem putToken (h : io.RowsCut) {tok : Text} (htok : chr '\n' ∉ tok) :
    (io.putToken tok).RowsCut :=
  ⟨h.cut.put htok, Nat.le_of_lt (io.oled.j_put tok), (h.sprintf .oledRow tok).sent⟩

/-- `printOLED` draws rows without newlines, whatever the text. -/
theorem printOled (h : io.RowsCut) (t : Text) : (io.printOled t).RowsCut := by
  have hfold : ∀ (toks : List Text) (io : Io), io.RowsCut → (∀ tok ∈ toks, chr '\n' ∉ tok) →
      (toks.foldl Io.putToken io).RowsCut := by
    intro toks
    induction toks with
    | nil => exact fun io h _ => h
    | cons tok toks ih =>
      intro io h htoks
      exact ih _ (h.putToken (htoks tok List.mem_cons_self))
        fun tok' htok' => htoks tok' (List.mem_cons_of_mem tok htok')
  have hput := hfold (split t (chr '\n')) io h fun tok htok => notMem_of_mem_split htok
  refine hput.emit fun rows hrows => ?_
  rw [← Event.oled.inj hrows]
  exact hput.cut.drawable hput.j_le

/-- `printf2` draws rows without newlines, whatever the text. -/
theorem printf2 (h : io.RowsCut) (t : Text) : (io.printf2 t).RowsCut :=
  ((h.sprintf .buf t).emit (by simp)).printOled (cstr t)

/-- What a request does draws no rows. -/
theorem http (h : io.RowsCut) (request : ℕ) (op : HttpOp) :
    (io.emit (.http request op)).RowsCut := h.emit (by simp)

/-- A GET draws rows without newlines. -/
theorem httpGet (h : io.RowsCut) (net : Net) (url : Text) : (io.httpGet net url).RowsCut := by
  have hsent := ((h.sprintf .urlBuffer url).printf2 (ascii "Request to " ++ url ++
    ascii "\r\n")).printf2 (ascii "\n----- HTTP GET request -----\n")
  unfold Io.httpGet
  dsimp only
  generalize ((io.sprintf .urlBuffer url).printf2 (ascii "Request to " ++ url ++
    ascii "\r\n")).printf2 (ascii "\n----- HTTP GET request -----\n") = sent at hsent
  have hnew : ({ sent.emit (.http sent.requests (.new url)) with
      requests := sent.requests + 1 } : Io).RowsCut :=
    have hmade := hsent.http sent.requests (.new url)
    ⟨hmade.cut, hmade.j_le, hmade.sent⟩
  cases net sent.requests with
  | failed error => exact ((hnew.http _ _).http _ _).printf2 _
  | ok body => exact ((((hnew.http _ _).printf2 _).http _ _).printf2 _).http _ _

/-- Before the first message nothing has been drawn. -/
theorem empty : ({} : Io).RowsCut :=
  ⟨OledLog.cut_empty, Nat.zero_le _, fun _ h => absurd h List.not_mem_nil⟩

/-- Every action keeps the rows cut. -/
theorem of_reached {net : Net} (h : Reached net io) : io.RowsCut := by
  induction h with
  | start => exact empty
  | call _ f ih => exact ih.emit (by simp)
  | write _ address data ih => exact ih.emit (by simp)
  | sprintf _ dst ht ih => exact ih.sprintf dst _
  | printf2 _ ht ih => exact ih.printf2 _
  | httpGet _ hurl ih => exact ih.httpGet _ _
  | setAlarm _ alarm ih => exact ⟨ih.cut, ih.j_le, ih.sent⟩

end RowsCut

end Io

/-! ## The screen -/

namespace Screen

/-- The screen after one event. -/
def see (past : List Byte) (o : Screen) : Event → Screen
  | .oled rows => o.redraw past rows
  | _ => o

/-- The screen after the events of a log. -/
def after (past : List Byte) (log : List Event) : Screen := run (see past) (Oled.new 128 64) log

/-- The places of the font that are read for one event. -/
def readsOf (past : List Byte) (o : Screen) : Event → List ℕ
  | .oled rows =>
    outputs (Oled.writeChar past) Oled.fontReads (o.clearDisplay.setTextCursor 0 0)
      (Terminal.rowsText rows)
  | _ => []

/-- The places of the font that are read for the events of a log. -/
def reads (past : List Byte) (log : List Event) : List ℕ :=
  outputs (see past) (readsOf past) (Oled.new 128 64) log

/-- The rows sent last. -/
def lastRows (log : List Event) : Option (List Text) :=
  log.foldl (fun r e => match e with | .oled rows => some rows | _ => r) none

/-- The display starts in white on black, at size one, with wrapping on. -/
theorem plain_new : (Oled.new 128 64).Plain := ⟨rfl, rfl, rfl, rfl⟩

/-- The height is a whole number of bytes. -/
theorem dvd_height : 8 ∣ (64 : Byte).toNat := by decide

/-- Any log leaves the display printed upon only. -/
theorem printed_after (past : List Byte) (log : List Event) :
    Oled.Printed (Oled.new 128 64) (after past log) := by
  induction log using List.reverseRecOn with
  | nil => exact ⟨_, _, _, rfl⟩
  | append_singleton log e ih =>
    rw [after, run_concat]
    cases e with
    | oled rows =>
      exact ih.trans (Oled.printed_redraw dvd_height past rows (ih.plain plain_new))
    | call | fill | write | serial | http => exact ih

/-- The screen is what the rows sent last were drawn to, over whatever stood there. -/
theorem after_eq_redraw (past : List Byte) {log : List Event} {rows : List Text}
    (h : lastRows log = some rows) :
    Event.oled rows ∈ log ∧ ∃ o : Screen, Oled.Printed (Oled.new 128 64) o ∧
      after past log = o.redraw past rows := by
  induction log using List.reverseRecOn with
  | nil => cases h
  | append_singleton log e ih =>
    rw [lastRows, List.foldl_append] at h
    rw [after, run_concat]
    cases e with
    | oled rows' =>
      cases h
      exact ⟨List.mem_append_right _ (List.mem_singleton_self _), _, printed_after past log, rfl⟩
    | call | fill | write | serial | http =>
      obtain ⟨hmem, ho⟩ := ih h
      exact ⟨List.mem_append_left _ hmem, ho⟩

/-- Eight rows of at most twenty chars, on whatever screen they are drawn. -/
theorem pixel_drawn {past : List Byte} {rows : List Text} (h : Drawable rows) {o : Screen}
    (ho : Oled.Printed (Oled.new 128 64) o) {x y : ℕ} (hx : x < 128) (hy : y < 64) :
    (o.redraw past rows).pixel x y =
      cellPixel past ((rows[y / 8]?).bind (rowCells · (x / 6))) (x % 6) (y % 8) := by
  have hplain := ho.plain plain_new
  obtain ⟨b, cx, cy, rfl⟩ := ho
  have hlen : ∀ row ∈ rows, row.length < 128 / 6 :=
    fun row hrow => Nat.lt_succ_of_le (h.length_le row hrow)
  have hcols : 0 < 128 / 6 := by omega
  have hrows : rows.length < cursorLines := by
    rw [h.length_eq]
    exact (by omega : 8 < 8192)
  exact Oled.pixel_redraw dvd_height past hplain hcols h.no_newline hlen hrows hx hy

/-- Drawing rows stays in the font exactly as long as none of them has the char 255. -/
theorem readsOf_oled (past : List Byte) {rows : List Text} (h : Drawable rows) {o : Screen}
    (ho : Oled.Printed (Oled.new 128 64) o) :
    (∀ k ∈ readsOf past o (.oled rows), k < font.length) ↔ ∀ row ∈ rows, 255 ∉ row := by
  have hplain := ho.plain plain_new
  have hw : o.width = 128 ∧ o.height = 64 := by
    obtain ⟨b, x, y, rfl⟩ := ho
    exact ⟨rfl, rfl⟩
  constructor
  · intro hreads row hrow hmem
    obtain ⟨before, rest, rfl⟩ := List.append_of_mem hrow
    obtain ⟨u, v, rfl⟩ := List.append_of_mem hmem
    have hlen := h.length_eq
    have hlong := h.length_le _ hrow
    have hnl := h.no_newline _ hrow
    rw [List.length_append, List.length_cons] at hlen hlong
    simp only [maxPage] at hlen
    -- the char comes on the line of its row, which the screen has
    have hdrawn := Oled.not_clipped_row dvd_height past (u := u) hplain (by omega)
      (fun r hr => h.no_newline r (List.mem_append_left _ hr))
      (fun r hr => by have := h.length_le r (List.mem_append_left _ hr); omega)
      (fun hu => hnl (List.mem_append_left _ hu)) (by omega)
      (show 8 * before.length < o.height by omega)
    have hread : 255 * 5 + 0 ∈ readsOf past o (.oled (before ++ (u ++ 255 :: v) :: rest)) := by
      refine mem_outputs.mpr ⟨Terminal.rowsText before ++ u, 255,
        v ++ chr '\n' :: Terminal.rowsText rest, by simp [Terminal.rowsText], ?_⟩
      rw [Oled.fontReads, if_neg]
      · exact List.mem_filterMap.mpr ⟨0, by simp, rfl⟩
      · rintro (hc | hc | hc)
        · exact absurd hc (by decide)
        · exact absurd hc (by decide)
        · exact hdrawn hc
    have := hreads _ hread
    rw [length_font] at this
    omega
  · intro hrows k hk
    obtain ⟨pre, c, post, htext, hk⟩ := mem_outputs.mp hk
    have hc : c ≠ 255 := by
      have hmem : c ∈ Terminal.rowsText rows := by
        rw [htext]
        exact List.mem_append_right _ List.mem_cons_self
      obtain ⟨row, hrow, hc⟩ := List.mem_flatMap.mp hmem
      rcases List.mem_append.mp hc with hc | hc
      · rintro rfl
        exact hrows row hrow hc
      · rw [List.mem_singleton.mp hc]
        decide
    rw [Oled.fontReads] at hk
    split at hk
    · exact absurd hk List.not_mem_nil
    · obtain ⟨i, hi, hk⟩ := List.mem_filterMap.mp hk
      rw [columnIndex] at hk
      split at hk
      · cases hk
      obtain rfl := Option.some.inj hk
      have hlt := c.toNat_lt
      have hne : c.toNat ≠ 255 := fun h => hc (UInt8.toNat_inj.mp h)
      have := List.mem_range.mp hi
      rw [length_font]
      omega

/-- The reads of a log are those of the rows in it. -/
theorem reads_lt_iff (past : List Byte) {log : List Event}
    (h : ∀ rows, Event.oled rows ∈ log → Drawable rows) :
    (∀ k ∈ reads past log, k < font.length) ↔
      ∀ rows, Event.oled rows ∈ log → ∀ row ∈ rows, 255 ∉ row := by
  induction log using List.reverseRecOn with
  | nil => simp [reads, outputs]
  | append_singleton log e ih =>
    have ih := ih fun rows hrows => h rows (List.mem_append_left _ hrows)
    rw [reads, outputs_concat]
    simp only [List.mem_append, or_imp, forall_and, List.mem_singleton]
    refine and_congr ih ?_
    cases e with
    | oled rows =>
      have hdraw := h rows (List.mem_append_right _ (List.mem_singleton_self _))
      refine (readsOf_oled past hdraw (printed_after past log)).trans ⟨?_, fun h => h rows rfl⟩
      rintro hrows rows' heq
      rw [Event.oled.inj heq]
      exact hrows
    | call | fill | write | serial | http => simp [readsOf]

end Screen

namespace Io

/-- The ring that the statics hold after messages from the start. -/
theorem shows_messages {ms : List Text}
    (h : ∀ m ∈ ms, m.length < maxChar ∧ ∀ b ∈ m, b ≠ 0) :
    (ms.foldl (fun io m => io.printOled m) ({} : Io)).oled.Shows
      ((ms.flatMap shownLines).foldl Ring.put ⟨Vector.replicate maxPage [], 0, by decide⟩) := by
  induction ms using List.reverseRecOn with
  | nil => exact OledLog.shows_empty
  | append_singleton ms m ih =>
    have hm := h m (by simp)
    rw [List.foldl_append, List.flatMap_append, List.foldl_append, List.flatMap_singleton]
    exact (shows_printOled (ih fun m' hm' => h m' (List.mem_append_left _ hm')) hm.1 hm.2).1

/-- Any messages draw rows without newlines only. -/
theorem rowsCut_messages (ms : List Text) :
    (ms.foldl (fun io m => io.printOled m) ({} : Io)).RowsCut := by
  induction ms using List.reverseRecOn with
  | nil => exact RowsCut.empty
  | append_singleton ms m ih =>
    rw [List.foldl_append]
    exact ih.printOled m

/-- The lines that messages have left on the OLED, oldest first. -/
def newestLines (ms : List Text) : List Text :=
  (List.replicate maxPage [] ++ ms.flatMap shownLines).drop (ms.flatMap shownLines).length

/-- **The screen of messages**: after the last of any messages, the pixel in column `x` and
row `y` is a bit of the font, of the char in column `x / 6` of line `y / 8` of the newest
eight lines. -/
theorem pixel_messages (past : List Byte) {ms : List Text} (hne : ms ≠ [])
    (h : ∀ m ∈ ms, m.length < maxChar ∧ ∀ b ∈ m, b ≠ 0) {x y : ℕ} (hx : x < 128) (hy : y < 64) :
    (Screen.after past (ms.foldl (fun io m => io.printOled m) ({} : Io)).log).pixel x y =
      cellPixel past (((newestLines ms)[y / 8]?).bind (rowCells · (x / 6))) (x % 6) (y % 8) := by
  have hshows := shows_messages h
  have hcut := rowsCut_messages ms
  obtain ⟨ms, m, rfl⟩ := (List.eq_nil_or_concat ms).resolve_left hne
  rw [List.concat_eq_append] at *
  have hrows : (((ms ++ [m]).foldl (fun io m => io.printOled m) ({} : Io))).oled.rows =
      newestLines (ms ++ [m]) := by
    rw [hshows.rows, Ring.toList_foldl_put]
    rfl
  have hlast : Screen.lastRows ((ms ++ [m]).foldl (fun io m => io.printOled m) ({} : Io)).log =
      some (newestLines (ms ++ [m])) := by
    rw [← hrows, List.foldl_append]
    show Screen.lastRows (Io.printOled _ _).log = _
    rw [printOled, emit, Screen.lastRows, List.foldl_append]
    rfl
  obtain ⟨hmem, o, ho, heq⟩ := Screen.after_eq_redraw past hlast
  rw [heq]
  exact Screen.pixel_drawn (hcut.sent _ hmem) ho hx hy

/-- The stem of the `U` on the last line. -/
theorem pixel_messages_unlocked :
    (Screen.after [] ([ascii "LOCKED\n", ascii "UNLOCKED\n"].foldl
      (fun io m => io.printOled m) ({} : Io)).log).pixel 0 58 = true :=
  (pixel_messages [] (by decide) (by decide +kernel) (by decide) (by decide)).trans
    (by decide +kernel)

end Io

namespace Device

variable (net : Net) (wifi : Wifi) (leadSw : Bool)

/-- **The font of a run**: drawing stays in the array `font` over a whole run if and only if
no row that the run sends has the char 255, whose columns the array does not have. -/
theorem reads_system_iff (past : List Byte) (ss : List SystemStep) :
    (∀ k ∈ Screen.reads past (system net wifi leadSw ss).io.log, k < font.length) ↔
      ∀ rows, Event.oled rows ∈ (system net wifi leadSw ss).io.log → ∀ row ∈ rows, 255 ∉ row :=
  Screen.reads_lt_iff past (Io.RowsCut.of_reached (reached_system net wifi leadSw ss)).sent

end Device

end WeightScale
