import WeightScale.Model.EventThread
import WeightScale.Analysis.KeyStep

/-!
# The actions of the program

Whatever the program does to the outside, in `main`, in an iteration of `com_main` or on the
event thread, it does by a few actions, with texts whose length it knows. `Reached` are the
states that these actions lead to. A property of the outside that holds at start and that
every action keeps holds in every run of the program.
-/

set_option autoImplicit false

namespace WeightScale

open Embedded

/-- The chars an array has for a text and its terminator. In `led_cmd` the text comes behind
the command byte. -/
def TextBuffer.room : TextBuffer → ℕ
  | .str => 50
  | .urlBuffer => 256
  | .buf => 300
  | .oledRow => 300
  | .ledCmd => 199

namespace Io

/-! ## The log of a printed text -/

/-- The loop over the tokens fills one row buffer a token and sends no request. -/
theorem log_foldl_putToken (toks : List Text) (io : Io) :
    (toks.foldl putToken io).log = io.log ++ toks.map (Event.fill .oledRow) ∧
      (toks.foldl putToken io).requests = io.requests := by
  induction toks generalizing io with
  | nil => exact ⟨(List.append_nil io.log).symm, rfl⟩
  | cons tok toks ih =>
    obtain ⟨hlog, hreq⟩ := ih (io.putToken tok)
    refine ⟨?_, hreq⟩
    rw [List.foldl_cons, hlog, List.map_cons]
    exact List.append_assoc io.log [Event.fill .oledRow tok] _

/-- What `printOLED` adds to the log: a text for each token, and the rows. -/
theorem log_printOled (t : Text) (io : Io) :
    ∃ rows, (io.printOled t).log =
      io.log ++ ((split t (chr '\n')).map (Event.fill .oledRow) ++ [.oled rows]) := by
  have hlog := (log_foldl_putToken (split t (chr '\n')) io).1
  refine ⟨((split t (chr '\n')).foldl putToken io).oled.rows, ?_⟩
  rw [printOled, emit, hlog, List.append_assoc]

/-- What `printf2` adds to the log. -/
theorem log_printf2 (t : Text) (io : Io) :
    ∃ rows, (io.printf2 t).log =
      io.log ++ (.fill .buf t :: .serial (expand (cstr t)) ::
        ((split (cstr t) (chr '\n')).map (Event.fill .oledRow) ++ [.oled rows])) := by
  obtain ⟨rows, hlog⟩ := log_printOled (cstr t)
    ((io.sprintf .buf t).emit (.serial (expand (cstr t))))
  refine ⟨rows, hlog.trans ?_⟩
  rw [emit, sprintf, emit, List.append_assoc, List.append_assoc]
  rfl

/-- Printing on the console and the display sends no request. -/
theorem requests_printf2 (t : Text) (io : Io) : (io.printf2 t).requests = io.requests :=
  (log_foldl_putToken _ _).2

/-! ## The actions -/

/-- The states of the outside that the program's actions lead to. -/
inductive Reached (net : Net) : Io → Prop where
  | start : Reached net {}
  | call {io : Io} (h : Reached net io) (f : Call) : Reached net (io.call f)
  | write {io : Io} (h : Reached net io) (address : Byte) (data : List Byte) :
      Reached net (io.write address data)
  | sprintf {io : Io} (h : Reached net io) (dst : TextBuffer) {t : Text}
      (ht : t.length + 1 ≤ dst.room) : Reached net (io.sprintf dst t)
  | printf2 {io : Io} (h : Reached net io) {t : Text} (ht : t.length ≤ 299) :
      Reached net (io.printf2 t)
  | httpGet {io : Io} (h : Reached net io) {url : Text} (hurl : url.length ≤ 255) :
      Reached net (io.httpGet net url)
  | setAlarm {io : Io} (h : Reached net io) (alarm : Alarm) :
      Reached net { io with alarm := alarm }

namespace Reached

variable {net : Net} {io : Io}

/-- A text of at most 49 chars fits the buffer of `printStr`. -/
theorem printStr (h : Reached net io) {t : Text} (ht : t.length ≤ 49) :
    Reached net (io.printStr t) := by
  have hstr := h.sprintf .str (Nat.succ_le_succ ht)
  have hled : t.length + 1 ≤ TextBuffer.room .ledCmd := by
    simp only [TextBuffer.room]
    omega
  exact (hstr.sprintf .ledCmd hled).write _ _

/-! ## Literals around a text -/

/-- The texts of the program are a literal, a text of known length, and a literal. -/
theorem length_framed {a b : String} {t : Text} {n m : ℕ} (ht : t.length ≤ n)
    (h : (ascii a).length + n + (ascii b).length ≤ m) :
    (ascii a ++ t ++ ascii b).length ≤ m := by
  simp only [List.length_append]
  omega

/-! ## Commands and requests -/

/-- The servo command fits its buffer. -/
theorem cmdServo (h : Reached net io) (angle speed : Byte) :
    Reached net (io.cmdServo angle speed) := h.write _ _

/-- The lamp command fits its buffer. -/
theorem cmdLamp (h : Reached net io) (lamp : Bool) : Reached net (io.cmdLamp lamp) := h.write _ _

/-- The two commands of the rotating lamp fit their buffers. -/
theorem cmdKaitenLamp (h : Reached net io) (duty : Byte) (lamp : Bool) :
    Reached net (io.cmdKaitenLamp duty lamp) := (h.write _ _).write _ _

/-- A whole line update. -/
theorem showLine (h : Reached net io) (line : Byte) {t : Text} (ht : t.length ≤ 49) :
    Reached net (((io.cmdSetLine line).cmdSetTextColor 0 15 0).printStr t) :=
  (((h.write _ _).write _ _).write _ _).printStr ht

/-- A 32-bit float is printed with one decimal in at most 42 chars. -/
theorem length_decimal (zero : Bool) {width : ℕ} (hw : width ≤ 42) (x : Binary32) :
    (fmtF zero width 1 x).length ≤ 42 := by
  have h := length_fmtF_le zero width 1 x
  simp only [Nat.one_ne_zero, if_false] at h
  omega

/-- A URL with two values of at most 42 chars fits behind any literals of the program. -/
theorem httpGet_two (h : Reached net io) {pre mid a b : Text} (hpre : pre.length ≤ 121)
    (hmid : mid.length ≤ 8) (ha : a.length ≤ 42) (hb : b.length ≤ 42) :
    Reached net (io.httpGet net (pre ++ a ++ mid ++ b)) := by
  apply h.httpGet
  rw [List.length_append, List.length_append, List.length_append]
  omega

/-- The body of a channel update fits its buffer for any two floats. -/
theorem channelUpdate (h : Reached net io) (field1 field2 : Binary32) :
    Reached net (io.channelUpdate net field1 field2) := by
  have hpre : (thingSpeakUrl ++ ascii "?key=" ++ thingSpeakKey ++ ascii "&field1=").length ≤ 121 := by
    decide +kernel
  exact (h.call _).httpGet_two hpre (by decide) (length_decimal true (by decide) field1)
    (length_decimal true (by decide) field2)

/-- The URL of an event, without its values. -/
theorem length_trigger (e : Fin 7) : (base ++ event e ++ key).length = 84 + (event e).length := by
  have hbase : base.length = 31 := by decide +kernel
  have hkey : key.length = 53 := by decide +kernel
  rw [List.length_append, List.length_append, hbase, hkey]
  omega

/-- The names of the seven events have at most 29 chars. -/
theorem length_event_le (e : Fin 7) : (event e).length ≤ 29 := by
  revert e
  decide +kernel

/-- The URL of a trigger up to its first value has at most 121 chars. -/
theorem length_trigger_value1 (e : Fin 7) :
    (base ++ event e ++ key ++ ascii "?value1=").length ≤ 121 := by
  have hvalue : (ascii "?value1=").length = 8 := by decide
  have hevent := length_event_le e
  rw [List.length_append, length_trigger, hvalue]
  omega

/-- The notice of a reached goal fits its buffers for any two weights. -/
theorem notifyDietAchieved (h : Reached net io) (weight target : Binary32) :
    Reached net (io.notifyDietAchieved net weight target) :=
  (h.call _).httpGet_two (length_trigger_value1 0) (by decide)
    (length_decimal false (by decide) target) (length_decimal false (by decide) weight)

/-- The longest URL: with three values of 42 chars it fills the array to the last char. -/
theorem notifyDietNotAchieved (h : Reached net io) (weight target diff : Binary32) :
    Reached net (io.notifyDietNotAchieved net weight target diff) := by
  have h₁ := length_decimal false (by decide : 0 ≤ 42) target
  have h₂ := length_decimal false (by decide : 0 ≤ 42) weight
  have h₃ := length_decimal false (by decide : 0 ≤ 42) diff
  have hevent : (event 1).length = 21 := by decide +kernel
  have hpre : (ascii "?value1=").length = 8 := by decide
  have hmid : (ascii "&value2=").length = 8 := by decide
  have hend : (ascii "&value3=").length = 8 := by decide
  apply (h.call _).httpGet
  rw [List.length_append, List.length_append, List.length_append, List.length_append,
    List.length_append, List.length_append, length_trigger, hevent, hpre, hmid, hend]
  omega

/-- The notice of a new goal fits its buffers for any two targets. -/
theorem notifyChangeTarget (h : Reached net io) (oldTarget newTarget : Int32) :
    Reached net (io.notifyChangeTarget net oldTarget newTarget) := by
  have h₁ := length_fmtD_le oldTarget
  have h₂ := length_fmtD_le newTarget
  exact (h.call _).httpGet_two (length_trigger_value1 4) (by decide) (by omega) (by omega)

/-- The requests without values. -/
theorem notify (h : Reached net io) (f : Call) (e : Fin 7) :
    Reached net ((io.call f).httpGet net (base ++ event e ++ key)) := by
  have hevent := length_event_le e
  apply (h.call f).httpGet
  rw [length_trigger]
  omega

/-! ## The functions of main.cpp -/

/-- What `LOCKED_init` writes fits its buffers. -/
theorem lockedInit (h : Reached net io) : Reached net (io.lockedInit net) := by
  have hpanel := (((h.call .lockedInit).printf2 (t := ascii "LOCKED_init\n")
    (by decide)).cmdKaitenLamp 0 false).cmdServo 150 10
  exact (hpanel.showLine 3 (t := ascii "LOCKED\n") (by decide)).notify _ 5

/-- What `UNLOCKED_init` writes fits its buffers. -/
theorem unlockedInit (h : Reached net io) : Reached net (io.unlockedInit net) := by
  have hpanel := (((h.call .unlockedInit).printf2 (t := ascii "UNLOCKED_init\n")
    (by decide)).cmdServo 70 10).printf2 (t := ascii "Target weight achieved\n") (by decide)
  exact (hpanel.showLine 3 (t := ascii "UNLOCKED\n") (by decide)).notify _ 6

/-- Attaching the timeout writes to no buffer. -/
theorem attach (h : Reached net io) : Reached net io.attach := h.setAlarm _

/-- What `unlock_failed` writes fits its buffers, for any pattern byte. -/
theorem unlockFailed (h : Reached net io) (pattern : Byte) :
    Reached net (io.unlockFailed net pattern) := by
  have halarm := ((h.call (.unlockFailed pattern)).cmdKaitenLamp 50 true).attach
  have hline := ((halarm.write ledAddr [cmdFillRect, 0, 3 * 8, 64, 8, 0, 0, 0]).write ledAddr
    [cmdSetCursor, 0, 3 * 8]).write ledAddr [cmdSetTextColorByte, 0, 15, 0]
  unfold Io.unlockFailed
  apply printf2 _ (by decide)
  split
  · exact ((hline.printf2 (by decide)).printStr (by decide)).notify _ 2
  · split
    · exact (hline.printf2 (by decide)).printStr (by decide)
    · split
      · exact ((hline.printf2 (by decide)).printStr (by decide)).notify _ 3
      · exact hline

/-- What `kaiten_stop` writes fits its buffers. -/
theorem kaitenStop (h : Reached net io) : Reached net io.kaitenStop := by
  have hpanel := ((h.call .kaitenStop).printf2 (t := ascii "kaiten_stop\n")
    (by decide)).cmdKaitenLamp 0 false
  exact hpanel.showLine 3 (t := ascii "LOCKED\n") (by decide)

/-- What the start of the network prints fits its buffers, for any SSID and any address. -/
theorem wifiInit (h : Reached net io) (wifi : Wifi) : Reached net (io.wifiInit wifi) := by
  have hrssi : (fmtD wifi.rssi.toInt).length ≤ 4 := by
    have h₁ := wifi.rssi.toInt_lt
    have h₂ := wifi.rssi.le_toInt
    exact length_fmtD_le_of_natAbs (by decide) (by omega)
  unfold Io.wifiInit
  have hconnecting := h.printf2 (t := ascii "\nConnecting...\n") (by decide)
  dsimp only
  split
  · exact hconnecting.printf2 (by decide)
  · have hok := hconnecting.printf2 (t := ascii "Success\n\n") (by decide)
    have hmac := hok.printf2 (t := ascii "MAC: " ++ wifi.mac ++ ascii "\n")
      (length_framed wifi.mac_length (by decide))
    have hip := hmac.printf2 (t := ascii "IP: " ++ wifi.ip ++ ascii "\n")
      (length_framed wifi.ip_length (by decide))
    have hmask := hip.printf2 (t := ascii "Netmask: " ++ wifi.netmask ++ ascii "\n")
      (length_framed wifi.netmask_length (by decide))
    have hgate := hmask.printf2 (t := ascii "Gateway: " ++ wifi.gateway ++ ascii "\n")
      (length_framed wifi.gateway_length (by decide))
    exact hgate.printf2 (length_framed hrssi (by decide))

/-! ## The blocks of an iteration -/

/-- The reports of one weight sample fit their buffers. -/
theorem reportWeight (h : Reached net io) (weights : Weight) (t : Binary32) :
    Reached net (Device.reportWeight net weights t io) := by
  unfold Device.reportWeight
  split
  · have hupdate := h.channelUpdate weights.weight t
    dsimp only
    split
    · exact hupdate.notifyDietAchieved _ _
    · exact hupdate.notifyDietNotAchieved _ _ _
  · exact h

variable {d : Device}

/-- The weight part of an iteration fits its buffers. -/
theorem weightBlock (h : Reached net d.io) (weights : Weight) :
    Reached net (d.weightBlock net weights).io := by
  have hstable := length_fmtD_byte_le weights.stable
  have hsix := length_fmtF_le false 0 6 weights.weight
  have hzero := length_fmtF_le false 3 0 weights.weight
  simp only [if_true, show ¬ (6 : ℕ) = 0 by decide, if_false] at hsix hzero
  have hline := ((h.write ledAddr [cmdFillRect, 0, 1 * 8, 64, 8, 0, 0, 0]).write ledAddr
    [cmdSetCursor, 0, 1 * 8]).write ledAddr [cmdSetTextColorByte, 0, 15, 0]
  unfold Device.weightBlock
  dsimp only
  split
  · rw [Device.io_onIo]
    split
    · exact (hline.printf2 (length_framed hstable (by decide))).printStr (by decide)
    · apply reportWeight
      have hserial : (ascii "stable: " ++ fmtD weights.stable.toNat ++ ascii ", weight: " ++
          fmtF false 0 6 weights.weight ++ ascii "\n").length ≤ 299 := by
        have hframe : (ascii "stable: ").length = 8 ∧ (ascii ", weight: ").length = 10 ∧
          (ascii "\n").length = 1 := by decide
        simp only [List.length_append, hframe]
        omega
      exact (hline.printf2 hserial).printStr (length_framed (n := 40) (by omega) (by decide))
  · exact h

/-- The door part of an iteration fits its buffers. -/
theorem doorBlock (h : Reached net d.io) (doorOpen : Bool) :
    Reached net (d.doorBlock doorOpen).io := by
  unfold Device.doorBlock
  dsimp only
  split
  · split
    · exact (h.cmdLamp false).printf2 (by decide)
    · exact (h.cmdLamp true).printf2 (by decide)
  · exact h

/-- The password check fits its buffers, accepted or refused. -/
theorem checkPassword (h : Reached net d.io) (weights : Weight) :
    Reached net (d.checkPassword net weights).io := by
  unfold Device.checkPassword
  split
  · exact h.unlockFailed 0
  · split
    · exact h.unlockFailed 1
    · split
      · exact h
      · exact h.unlockFailed 2

/-- The key `*` fits its buffers in each of its three uses. -/
theorem enterKey (h : Reached net d.io) (weights : Weight) :
    Reached net (d.enterKey net weights).io := by
  have harray : ∀ (a : CharArray maxPasswordLength) (n : ℕ), (a.str n).length ≤ 20 :=
    fun a n => a.length_str_le n
  unfold Device.enterKey
  dsimp only
  split
  · apply printf2 h
    have hgoal := length_fmtF_le false 3 1
      (.ofInt (Device.atoi (d.password.guess.str 2)).toInt)
    simp only [Nat.one_ne_zero, if_false] at hgoal
    exact length_framed (n := 42) (by omega) (by decide)
  · split
    · exact h.printf2 (length_framed (harray _ _) (by decide))
    · apply checkPassword
      exact (h.printf2 (length_framed (harray _ _) (by decide))).printf2
        (length_framed (harray _ _) (by decide))

/-- Any key of the keypad fits its buffers. -/
theorem keypadEvent (h : Reached net d.io) (keyData : Keymat) (weights : Weight) :
    Reached net (d.keypadEvent net keyData weights).io := by
  have hpushed := (h.printf2 (t := ascii "Pressed: ") (by decide)).printf2
    (t := keyData.key :: ascii "\n") (Nat.succ_le_succ (by decide : (ascii "\n").length ≤ 298))
  have hshow : ∀ d : Device, Reached net d.io → Reached net d.showGuess.io := by
    intro d hd
    have hguess := d.password.guess.length_str_le 0
    simp only [maxPasswordLength] at hguess
    exact hd.showLine 2 (length_framed hguess (by decide))
  by_cases hp : keyData.state = .push
  · rw [Device.keypadEvent_eq net d weights hp]
    apply hshow
    split
    · exact enterKey hpushed weights
    · split <;> exact hpushed
  · rw [Device.keypadEvent_of_not_push net d weights hp]
    exact h

/-- The key part of an iteration fits its buffers. -/
theorem keyBlock (h : Reached net d.io) (keyData : Keymat) (weights : Weight) :
    Reached net (d.keyBlock net keyData weights).io := by
  unfold Device.keyBlock
  split
  · exact h.keypadEvent keyData weights
  · exact h

/-- The target part of an iteration fits its buffers. -/
theorem targetBlock (h : Reached net d.io) : Reached net (d.targetBlock net).io := by
  have hgoal := length_fmtF_le false 3 0 d.targetWeight
  simp only [if_true] at hgoal
  have hline := h.showLine 0 (t := ascii "GOAL:" ++ fmtF false 3 0 d.targetWeight ++ ascii "kg\n")
    (length_framed (n := 40) (by omega) (by decide))
  unfold Device.targetBlock
  dsimp only
  split
  · rw [Device.io_onIo]
    split
    · exact hline.notifyChangeTarget _ _
    · exact hline
  · exact h

/-- The `init` callback of any state fits its buffers. -/
theorem initFunc (h : Reached net io) (state : LockState) :
    Reached net (StateMachine.callFunc (stateFunction net state).initFunc io) := by
  cases state with
  | init => exact (h.call _).printf2 (by decide)
  | locked => exact h.lockedInit
  | unlocked => exact h.unlockedInit
  | setting => exact (h.call _).printf2 (by decide)

/-- The `end` callback of any state fits its buffers. -/
theorem endFunc (h : Reached net io) (state : LockState) :
    Reached net (StateMachine.callFunc (stateFunction net state).endFunc io) := by
  cases state <;> exact (h.call _).printf2 (by decide)

/-- The `do` callback of any state fits its buffers. -/
theorem doFunc (h : Reached net io) (state : LockState) :
    Reached net (StateMachine.callFunc (stateFunction net state).doFunc io) := by
  cases state <;> exact h

/-- A call of the state machine fits its buffers, whatever is requested of it. -/
theorem stateMain (h : Reached net d.io) : Reached net (d.stateMain net).io := by
  unfold Device.stateMain StateMachine.stateMain StateMachine.stateTrans
  dsimp only
  split
  · exact ((h.endFunc _).initFunc _).doFunc _
  · exact h.doFunc _

/-- One iteration of the main loop fits its buffers on any input. -/
theorem loopBody (h : Reached net d.io) (i : Input) : Reached net (d.loopBody net i).io :=
  ((((h.weightBlock _).doorBlock _).keyBlock _ _).targetBlock).stateMain

/-! ## Runs -/

/-- What is written before the main loop fits its buffers. -/
theorem startUp (net : Net) (wifi : Wifi) (leadSw : Bool) :
    Reached net (Device.startUp wifi leadSw).io := by
  have hwifi := ((start : Reached net {}).printf2 (t := ascii "start\n") (by decide)).wifiInit wifi
  unfold Device.startUp
  dsimp only
  split <;> exact hwifi.showLine 2 (t := ascii "PASS:\n") (by decide)

/-- Every step of the system keeps the buffers within their sizes. -/
theorem systemStep (h : Reached net d.io) (s : SystemStep) :
    Reached net (d.systemStep net s).io := by
  cases s with
  | iterate i => exact h.loopBody i
  | expire =>
    have hexpire : ∀ io : Io, Reached net io → Reached net io.expire := by
      intro io hio
      unfold Io.expire
      split
      · exact hio.setAlarm _
      · exact hio
    exact hexpire d.io h
  | dispatch =>
    have hdispatch : ∀ io : Io, Reached net io → Reached net io.dispatch := by
      intro io hio
      unfold Io.dispatch
      split
      · exact (hio.setAlarm _).kaitenStop
      · exact hio
    exact hdispatch d.io h

end Reached

end Io

/-- In every run all writes so far have stayed within their buffers. -/
theorem Device.reached_system (net : Net) (wifi : Wifi) (leadSw : Bool) (ss : List SystemStep) :
    Io.Reached net (system net wifi leadSw ss).io :=
  run_invariant (P := fun d : Device => Io.Reached net d.io) ss
    (Io.Reached.startUp net wifi leadSw) fun _ s _ h => h.systemStep s

end WeightScale
