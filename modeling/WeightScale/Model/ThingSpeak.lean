import WeightScale.Model.PrintfWrapper

/-!
# `ThingSpeak.cpp`

Eight functions that each build a URL and fetch it. They differ in the URL; what they do
with it is the same text eight times and is `httpGet` here.
-/

set_option autoImplicit false

namespace WeightScale

open Embedded

/-- The connection and its addresses as the ESP32 driver reports them: the driver reads
them into arrays of 16 and 18 chars. -/
structure Wifi where
  connect : Int32
  mac : Text
  ip : Text
  netmask : Text
  gateway : Text
  rssi : Int8
  mac_length : mac.length ≤ 17
  ip_length : ip.length ≤ 15
  netmask_length : netmask.length ≤ 15
  gateway_length : gateway.length ≤ 15

def thingSpeakUrl : Text := ascii "http://api.thingspeak.com/update"
def thingSpeakKey : Text := ascii "DAUNON43Q966D9XS"

def base : Text := ascii "http://maker.ifttt.com/trigger/"
def key : Text := ascii "/with/key/eR7bp41z1wV8xVngdINFIojxchslWUMUyBbArjE564Z"

/-- `event[7]`. -/
def event : Fin 7 → Text
  | 0 => ascii "NotifyDietAchieved"
  | 1 => ascii "NotifyDietNotAchieved"
  | 2 => ascii "NotifyUnlockFailedInvalidPass"
  | 3 => ascii "NotifyUnlockFailedDoDiet"
  | 4 => ascii "NotifyChangeTarget"
  | 5 => ascii "NotifyLocked"
  | 6 => ascii "NotifyUnlocked"

namespace Io

/-- ThingSpeak.cpp:14-30 -/
def wifiInit (wifi : Wifi) (io : Io) : Io :=
  let io := io.printf2 (ascii "\nConnecting...\n")
  if wifi.connect ≠ 0 then io.printf2 (ascii "\nConnection error\n")
  else
    io |>.printf2 (ascii "Success\n\n")
      |>.printf2 (ascii "MAC: " ++ wifi.mac ++ ascii "\n")
      |>.printf2 (ascii "IP: " ++ wifi.ip ++ ascii "\n")
      |>.printf2 (ascii "Netmask: " ++ wifi.netmask ++ ascii "\n")
      |>.printf2 (ascii "Gateway: " ++ wifi.gateway ++ ascii "\n")
      |>.printf2 (ascii "RSSI: " ++ fmtD wifi.rssi.toInt ++ ascii "\n\n")

/-- The body the eight functions share: the request is created, sent, and deleted after
its response has been printed; a request that fails is left as it is.
ThingSpeak.cpp:42-57 -/
def httpGet (net : Net) (url : Text) (io : Io) : Io :=
  let io := io.sprintf .urlBuffer url
  let io := io.printf2 (ascii "Request to " ++ url ++ ascii "\r\n")
  let io := io.printf2 (ascii "\n----- HTTP GET request -----\n")
  let getReq := io.requests
  let io := { io.emit (.http getReq (.new url)) with requests := getReq + 1 }
  let io := io.emit (.http getReq .send)
  match net getReq with
  | .failed error =>
    let io := io.emit (.http getReq .getError)
    io.printf2 (ascii "HttpRequest failed (error code " ++ fmtD error.toInt ++ ascii ")\n")
  | .ok body =>
    let io := io.printf2 (ascii "\n----- HTTP GET response -----\n")
    let io := io.emit (.http getReq .getBody)
    let io := io.printf2 (cstr body ++ ascii "\n")
    io.emit (.http getReq .delete)

/-- ThingSpeak.cpp:32-59 -/
def channelUpdate (net : Net) (field1 field2 : Binary32) (io : Io) : Io :=
  (io.call (.channelUpdate field1 field2)).httpGet net
    (thingSpeakUrl ++ ascii "?key=" ++ thingSpeakKey ++ ascii "&field1=" ++ fmtF true 5 1 field1 ++
      ascii "&field2=" ++ fmtF true 5 1 field2)

/-- ThingSpeak.cpp:68-92 -/
def notifyDietAchieved (net : Net) (weight target : Binary32) (io : Io) : Io :=
  (io.call (.notifyDietAchieved weight target)).httpGet net
    (base ++ event 0 ++ key ++ ascii "?value1=" ++ fmtF false 0 1 target ++
      ascii "&value2=" ++ fmtF false 0 1 weight)

/-- ThingSpeak.cpp:94-118 -/
def notifyDietNotAchieved (net : Net) (weight target diff : Binary32) (io : Io) : Io :=
  (io.call (.notifyDietNotAchieved weight target diff)).httpGet net
    (base ++ event 1 ++ key ++ ascii "?value1=" ++ fmtF false 0 1 target ++
      ascii "&value2=" ++ fmtF false 0 1 weight ++ ascii "&value3=" ++ fmtF false 0 1 diff)

/-- ThingSpeak.cpp:122-146 -/
def notifyUnlockFailedInvalidPass (net : Net) (io : Io) : Io :=
  (io.call .notifyUnlockFailedInvalidPass).httpGet net (base ++ event 2 ++ key)

/-- ThingSpeak.cpp:149-173 -/
def notifyUnlockFailedDoDiet (net : Net) (io : Io) : Io :=
  (io.call .notifyUnlockFailedDoDiet).httpGet net (base ++ event 3 ++ key)

/-- ThingSpeak.cpp:177-201 -/
def notifyChangeTarget (net : Net) (oldTarget newTarget : Int32) (io : Io) : Io :=
  (io.call (.notifyChangeTarget oldTarget newTarget)).httpGet net
    (base ++ event 4 ++ key ++ ascii "?value1=" ++ fmtD oldTarget.toInt ++
      ascii "&value2=" ++ fmtD newTarget.toInt)

/-- ThingSpeak.cpp:203-227 -/
def notifyLocked (net : Net) (io : Io) : Io :=
  (io.call .notifyLocked).httpGet net (base ++ event 5 ++ key)

/-- ThingSpeak.cpp:229-253 -/
def notifyUnlocked (net : Net) (io : Io) : Io :=
  (io.call .notifyUnlocked).httpGet net (base ++ event 6 ++ key)

end Io

end WeightScale
