import Mathlib.Data.List.Induction
import WeightScale.Embedded.Ring
import WeightScale.Model.PrintfWrapper

/-!
# The log on the OLED

`printOLED` cuts a message into lines and writes them into the rows of a ring, eight lines
of a message at most. What it redraws are the last eight lines it has taken, each as far as
a row shows it.
-/

set_option autoImplicit false

namespace WeightScale

open Embedded

/-- The lines of a message that are not empty. -/
def textLines (m : Text) : List Text := (m.splitOn (chr '\n')).filter (· ≠ [])

/-- The first char opens a token of its own only in front of a delimiter. -/
theorem tokens_cons_cons (delim b c : Byte) (cs : Text) :
    tokens delim (b :: c :: cs) =
      if b = delim then tokens delim (c :: cs)
      else
        match tokens delim (c :: cs) with
        | [] => [[b]]
        | tk :: tks => if c = delim then [b] :: tk :: tks else (b :: tk) :: tks := by
  conv => lhs; unfold tokens
  split
  · rfl
  · cases tokens delim (c :: cs) <;> rfl

/-- A delimiter in front adds an empty piece. -/
theorem splitOn_cons_self (delim : Byte) (t : Text) :
    (delim :: t).splitOn delim = [] :: t.splitOn delim := by
  rw [List.splitOn_cons_eq_if_modifyHead, if_pos (by simp)]

/-- Any other char in front belongs to the first piece. -/
theorem splitOn_cons_ne {delim b : Byte} (h : b ≠ delim) (t : Text) :
    (b :: t).splitOn delim = (t.splitOn delim).modifyHead (List.cons b) := by
  rw [List.splitOn_cons_eq_if_modifyHead, if_neg (by simpa using h)]

/-- `strtok` finds the pieces between the delimiters, the empty ones left out. -/
theorem tokens_eq (delim : Byte) (t : Text) :
    tokens delim t = (t.splitOn delim).filter (· ≠ []) := by
  induction t with
  | nil => simp [tokens]
  | cons b bs ih =>
    cases bs with
    | nil => by_cases hb : b = delim <;> simp [tokens, hb, List.splitOn_cons_eq_if_modifyHead]
    | cons c cs =>
      rw [tokens_cons_cons, ih]
      by_cases hb : b = delim
      · rw [hb, splitOn_cons_self]
        simp
      · rw [if_neg hb, splitOn_cons_ne hb]
        by_cases hc : c = delim
        · have hempty : ([] :: cs.splitOn delim).filter (· ≠ []) =
              (cs.splitOn delim).filter (· ≠ []) := by simp
          have hsingle : (([] :: cs.splitOn delim).modifyHead (List.cons b)).filter (· ≠ []) =
              [b] :: (cs.splitOn delim).filter (· ≠ []) := by simp
          rw [hc, splitOn_cons_self, hempty, hsingle]
          cases (cs.splitOn delim).filter (· ≠ []) <;> simp
        · rw [splitOn_cons_ne hc]
          cases hcs : cs.splitOn delim with
          | nil => exact absurd hcs (List.splitOn_ne_nil delim cs)
          | cons tk tks => simp [hc]

/-- A token has only chars of its text, in their order. -/
theorem sublist_of_mem_tokens {delim : Byte} {t tok : Text} (h : tok ∈ tokens delim t) :
    tok.Sublist t := by
  induction t generalizing tok with
  | nil => simp [tokens] at h
  | cons b bs ih =>
    cases bs with
    | nil =>
      by_cases hb : b = delim
      · simp [tokens, hb] at h
      · simp [tokens, hb] at h
        subst h
        exact List.Sublist.refl _
    | cons c cs =>
      rw [tokens_cons_cons] at h
      by_cases hb : b = delim
      · rw [if_pos hb] at h
        exact (ih h).cons b
      · rw [if_neg hb] at h
        cases htok : tokens delim (c :: cs) with
        | nil => simp_all
        | cons tk tks =>
          have htk : tk.Sublist (c :: cs) := ih (by rw [htok]; exact List.mem_cons_self)
          have htks : ∀ t ∈ tks, t.Sublist (c :: cs) :=
            fun t ht => ih (by rw [htok]; exact List.mem_cons_of_mem tk ht)
          rw [htok] at h
          dsimp only at h
          split at h
          · rcases List.mem_cons.1 h with rfl | h
            · simp
            · rcases List.mem_cons.1 h with rfl | h
              · exact htk.cons b
              · exact (htks tok h).cons b
          · rcases List.mem_cons.1 h with rfl | h
            · exact htk.cons_cons b
            · exact (htks tok h).cons b

namespace OledLog

/-- The rows as a ring of texts. -/
def view (o : OledLog) (h : o.j < maxPage) : Ring Text maxPage where
  slots := o.str.map fun row => row.str 0
  next := o.j
  next_lt := h

/-- The rows drawn are the ring read from its index. -/
theorem rows_eq_view (o : OledLog) (h : o.j < maxPage) : o.rows = (o.view h).toList := by
  simp only [rows, Ring.toList, view, Vector.toList_map, List.map_append, List.map_drop,
    List.map_take]

/-- The index stays within the ring. -/
theorem j_put (o : OledLog) (tok : Text) : (o.put tok).j < maxPage := by
  simp only [put, maxPage]
  split <;> omega

/-- A line is written over the oldest row, cut at twenty chars. -/
theorem view_put (o : OledLog) (h : o.j < maxPage) {tok : Text} (hlen : tok.length < maxChar)
    (hnul : ∀ b ∈ tok, b ≠ 0) :
    (o.put tok).view (o.j_put tok) = (o.view h).put (tok.take 20) := by
  have hrow : ∀ row : CharArray maxChar, ((row.strcpy tok).store 20 0).str 0 = tok.take 20 := by
    intro row
    rw [CharArray.str_store_zero _ (by decide), CharArray.str_strcpy _ _ hlen, cstr_eq_self hnul]
  have hslots : (o.put tok).str.map (fun row => row.str 0) =
      (o.str.map fun row => row.str 0).set o.j (tok.take 20) h := by
    apply Vector.toList_inj.1
    rw [Vector.toList_map, Vector.toList_set, Vector.toList_map, put, Vector.toList_setIfInBounds,
      List.map_set, hrow]
  simp only [view, Ring.put, hslots]
  rfl

/-- The rows hold what the ring holds. -/
def Shows (o : OledLog) (r : Ring Text maxPage) : Prop := ∃ h, o.view h = r

/-- A new row takes the place of the oldest one, cut to 20 chars. -/
theorem Shows.put {o : OledLog} {r : Ring Text maxPage} (h : o.Shows r) {tok : Text}
    (hlen : tok.length < maxChar) (hnul : ∀ b ∈ tok, b ≠ 0) :
    (o.put tok).Shows (r.put (tok.take 20)) := by
  obtain ⟨hj, rfl⟩ := h
  exact ⟨o.j_put tok, o.view_put hj hlen hnul⟩

/-- The rows are those of the ring, the oldest first. -/
theorem Shows.rows {o : OledLog} {r : Ring Text maxPage} (h : o.Shows r) : o.rows = r.toList := by
  obtain ⟨hj, rfl⟩ := h
  exact o.rows_eq_view hj

/-- Before the first message the rows are empty. -/
theorem shows_empty :
    ({} : OledLog).Shows ⟨Vector.replicate maxPage [], 0, by decide⟩ := by
  have hzeros : (CharArray.zeros maxChar).str 0 = [] := by decide
  refine ⟨by decide, ?_⟩
  simp [view, hzeros]

end OledLog

/-- The lines of a message that `printOLED` takes, as a row shows them. -/
def shownLines (m : Text) : List Text := ((textLines m).take maxPage).map fun t => t.take 20

namespace Io

/-- The loop over the tokens puts each into its row. -/
theorem oled_foldl_putToken (toks : List Text) (io : Io) :
    (toks.foldl putToken io).oled = toks.foldl OledLog.put io.oled := by
  induction toks generalizing io with
  | nil => rfl
  | cons tok toks ih => exact ih (io.putToken tok)

/-- **One message** puts its lines into the ring and redraws it. -/
theorem shows_printOled {io : Io} {r : Ring Text maxPage} (h : io.oled.Shows r) {m : Text}
    (hlen : m.length < maxChar) (hnul : ∀ b ∈ m, b ≠ 0) :
    (io.printOled m).oled.Shows ((shownLines m).foldl Ring.put r) ∧
      (io.printOled m).log.getLast? =
        some (.oled ((shownLines m).foldl Ring.put r).toList) := by
  have htoks : ∀ tok ∈ WeightScale.split m (chr '\n'),
      tok.length < maxChar ∧ ∀ b ∈ tok, b ≠ 0 := by
    intro tok htok
    have hsub := sublist_of_mem_tokens (List.mem_of_mem_take htok)
    exact ⟨lt_of_le_of_lt hsub.length_le hlen, fun b hb => hnul b (hsub.mem hb)⟩
  have hfold : ∀ (toks : List Text) (o : OledLog) (r : Ring Text maxPage),
      (∀ tok ∈ toks, tok.length < maxChar ∧ ∀ b ∈ tok, b ≠ 0) → o.Shows r →
        (toks.foldl OledLog.put o).Shows ((toks.map fun t => t.take 20).foldl Ring.put r) := by
    intro toks
    induction toks with
    | nil => exact fun o r _ h => h
    | cons tok toks ih =>
      intro o r htoks h
      obtain ⟨hl, hn⟩ := htoks tok List.mem_cons_self
      exact ih _ _ (fun t ht => htoks t (List.mem_cons_of_mem tok ht)) (h.put hl hn)
  have hlines : shownLines m = (WeightScale.split m (chr '\n')).map fun t => t.take 20 := by
    rw [shownLines, textLines, ← tokens_eq, WeightScale.split]
  have hshows : (io.printOled m).oled.Shows ((shownLines m).foldl Ring.put r) := by
    rw [hlines]
    show ((WeightScale.split m (chr '\n')).foldl putToken io).oled.Shows _
    rw [oled_foldl_putToken]
    exact hfold _ _ _ htoks h
  refine ⟨hshows, ?_⟩
  rw [← hshows.rows]
  simp [printOled, emit]

/-- Nine lines in one message: the last is dropped, the first stays. -/
theorem rows_nine_lines :
    let m := ascii "1\n2\n3\n4\n5\n6\n7\n8\n9\n"
    let lines := (textLines m).map fun t => t.take 20
    (m.length < maxChar ∧ ∀ b ∈ m, b ≠ 0) ∧
      (({} : Io).printOled m).log.getLast? ≠
        some (.oled ((List.replicate maxPage [] ++ lines).drop lines.length)) := by
  decide +kernel

/-- **The OLED shows the newest lines** of those it has taken: the last eight, oldest first,
with empty rows in front as long as there are fewer. -/
theorem rows_after_messages (ms : List Text) (m : Text)
    (h : ∀ m' ∈ ms ++ [m], m'.length < maxChar ∧ ∀ b ∈ m', b ≠ 0) :
    ((ms ++ [m]).foldl (fun io m' => io.printOled m') ({} : Io)).log.getLast? =
      some (.oled ((List.replicate maxPage [] ++ (ms ++ [m]).flatMap shownLines).drop
        ((ms ++ [m]).flatMap shownLines).length)) := by
  have hshows : ∀ ms : List Text, (∀ m' ∈ ms, m'.length < maxChar ∧ ∀ b ∈ m', b ≠ 0) →
      (ms.foldl (fun io m' => io.printOled m') ({} : Io)).oled.Shows
        ((ms.flatMap shownLines).foldl Ring.put ⟨Vector.replicate maxPage [], 0, by decide⟩) := by
    intro ms
    induction ms using List.reverseRecOn with
    | nil => exact fun _ => OledLog.shows_empty
    | append_singleton ms m ih =>
      intro h
      have hm := h m (by simp)
      rw [List.foldl_append, List.flatMap_append, List.foldl_append, List.flatMap_singleton]
      exact (shows_printOled (ih fun m' hm' => h m' (List.mem_append_left _ hm')) hm.1 hm.2).1
  have hm := h m (by simp)
  have hlast := (shows_printOled (hshows ms fun m' hm' => h m' (List.mem_append_left _ hm'))
    hm.1 hm.2).2
  rw [← List.foldl_append, ← List.flatMap_singleton (f := shownLines), ← List.flatMap_append,
    Ring.toList_foldl_put] at hlast
  rw [List.foldl_append]
  exact hlast

/-- Ten messages of a line each: the index wraps and the first two lines are gone. -/
theorem rows_after_messages_ten :
    let ms := (List.range 10).map fun n => ascii "line " ++ digits n ++ ascii "\n"
    (ms.foldl (fun io m => io.printOled m) ({} : Io)).log.getLast? =
      some (.oled ((List.range 8).map fun n => ascii "line " ++ digits (n + 2))) := by
  intro ms
  have hlast := rows_after_messages
    ((List.range 9).map fun n => ascii "line " ++ digits n ++ ascii "\n") (ascii "line 9\n")
    (by decide +kernel)
  exact hlast.trans (by decide +kernel)

end Io

end WeightScale
