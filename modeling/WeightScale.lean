import WeightScale.Embedded.CString
import WeightScale.Embedded.Binary
import WeightScale.Embedded.Binary32
import WeightScale.Embedded.Printf
import WeightScale.Embedded.Run
import WeightScale.Embedded.Scan
import WeightScale.Embedded.Bitmap
import WeightScale.Embedded.Terminal
import WeightScale.Embedded.SlotList
import WeightScale.Embedded.TimedQueue
import WeightScale.Model.StateMachine
import WeightScale.Model.Password
import WeightScale.Model.Io
import WeightScale.Model.I2CComm
import WeightScale.Model.PrintfWrapper
import WeightScale.Model.Glcdfont
import WeightScale.Model.Oled
import WeightScale.Model.ThingSpeak
import WeightScale.Model.Weight
import WeightScale.Model.WeightQueue
import WeightScale.Model.Main
import WeightScale.Model.EventThread
import WeightScale.Model.Equeue
import WeightScale.Model.HttpParser
import WeightScale.Model.HttpRequest
import WeightScale.Interface.Panel
import WeightScale.Interface.Iteration
import WeightScale.Interface.Runs
import WeightScale.Interface.Timetable
import WeightScale.Interface.Url
import WeightScale.Analysis.PasswordBuffer
import WeightScale.Analysis.Effects
import WeightScale.Analysis.KeyStep
import WeightScale.Analysis.Iteration
import WeightScale.Analysis.Coherence
import WeightScale.Analysis.Unlocking
import WeightScale.Analysis.Settings
import WeightScale.Analysis.Door
import WeightScale.Analysis.Sensors
import WeightScale.Analysis.Alarm
import WeightScale.Analysis.OledLog
import WeightScale.Analysis.OledPixels
import WeightScale.Analysis.OledScreen
import WeightScale.Analysis.Actions
import WeightScale.Analysis.OledRuns
import WeightScale.Analysis.OledTransfer
import WeightScale.Analysis.Buffers
import WeightScale.Analysis.Serial
import WeightScale.Analysis.HttpObjects
import WeightScale.Analysis.Entry
import WeightScale.Analysis.Reports
import WeightScale.Analysis.AlarmCycle
import WeightScale.Analysis.LifeCycle
import WeightScale.Analysis.Pulses
import WeightScale.Analysis.Threads
import WeightScale.Analysis.BinaryPrinter
import WeightScale.Analysis.KeypadBuffer
import WeightScale.Analysis.Receiver
import WeightScale.Analysis.LateDispatch
import WeightScale.Analysis.StablePause
import WeightScale.Analysis.EqueueSlots
import WeightScale.Analysis.EqueueLayout
import WeightScale.Analysis.EqueueOrder
import WeightScale.Analysis.UrlFields
import WeightScale.Analysis.UrlHost
import WeightScale.Analysis.UrlParts
import WeightScale.Analysis.Requests
import WeightScale.Analysis.SentRequests
import WeightScale.Analysis.UrlFields
import WeightScale.Analysis.UrlHost
import WeightScale.Analysis.UrlParts
import WeightScale.Analysis.Requests
import WeightScale.Analysis.SentRequests
