import Dbus2vdr.Objects.Channels
import Dbus2vdr.Plugin
import Dbus2vdr.Shutdown.Command
import Dbus2vdr.Shutdown.Verdict
import Dbus2vdr.Timer

/-!
# Plugins, timers and the state of VDR

The methods of the remaining objects. All of them answer, with one exception: `SVDRPCommand` has no
message when it does not find the plugin its object is for, `svdrpCommand_answered_iff`.
-/

namespace Dbus2vdr

namespace OsdObjectHelper

/-- `provider` is `cDBusOsdProvider::_provider != NULL`. -/
def createProvider (provider : Bool) : Trace :=
  if provider then sendReply 900 (some (ascii "DBus-OSD-provider already active"))
  else .did .createOsdProvider :: sendReply 250 (some (ascii "DBus-OSD-provider created"))

def deleteProvider (provider : Bool) (devices : Devices) : Trace :=
  if provider then
    .did .deleteOsdProvider ::
      ((devices.primaryDevice.map fun pd => VdrCall.setPrimaryDevice (pd.cardIndex + 1)).toList.map
        .did ++ sendReply 250 (some (ascii "DBus-OSD-provider deleted")))
  else sendReply 900 (some (ascii "DBus-OSD-provider not active"))

theorem createProvider_answered (provider : Bool) : Answered (createProvider provider) := by
  cases provider <;> simp [createProvider]

theorem deleteProvider_answered (provider : Bool) (devices : Devices) :
    Answered (deleteProvider provider devices) := by
  unfold deleteProvider
  split_ifs
  · rw [answered_did_cons, answered_did_append]
    simp
  · simp

end OsdObjectHelper

/-! ### Plugins -/

namespace PluginsHelper

/-- `version` is what a plugin gives for `Version()`. -/
def list (plugins : LoadedPlugins) (version : Bytes → Option Bytes) : Trace :=
  [.reply (.value [.array (plugins.plugins.map fun plugin =>
    .tuple [.string (some plugin.name), .string (some ((version plugin.name).getD []))])])]

def svdrpCommand (plugins : LoadedPlugins) (path : Bytes) (params : Params) : Trace :=
  let (_, replyCode, replyMessage) :=
    plugins.svdrpCommand path ((params.string 0).getD []) ((params.string 1).getD [])
  sendReply replyCode replyMessage

def service (plugins : LoadedPlugins) (path : Bytes) (params : Params) : Trace :=
  let id := (params.string 0).getD []
  let data := (params.string 1).getD []
  let (plugin, reply) := plugins.service path id data
  (plugin.map fun plugin => VdrCall.service plugin.name id data).toList.map .did ++
    [.reply (.value [.boolean reply])]

theorem list_answered (plugins : LoadedPlugins) (version : Bytes → Option Bytes) :
    Answered (list plugins version) := by
  have hplugin : ∀ plugin : Plugin, (Value.tuple [.string (some plugin.name),
      .string (some ((version plugin.name).getD []))]).Complete := by simp
  simp [list, Value.complete_map, hplugin, -Value.complete_array_iff, -Value.complete_tuple_iff]

theorem svdrpCommand_answered_iff (plugins : LoadedPlugins) (path : Bytes) (params : Params) :
    Answered (svdrpCommand plugins path params) ↔ plugins.target path ≠ none := by
  unfold svdrpCommand LoadedPlugins.svdrpCommand
  cases plugins.target path with
  | none => simp
  | some plugin =>
      dsimp only
      split <;> simp

theorem service_answered (plugins : LoadedPlugins) (path : Bytes) (params : Params) :
    Answered (service plugins path params) := by
  unfold service
  dsimp only
  rw [answered_did_append]
  simp

end PluginsHelper

/-! ### Timers -/

namespace TimersHelper

/-- What the methods need besides the list: the id VDR would give to the next timer, its choice of
the next active one, and how it writes timers with their channels' ids. -/
structure Clock where
  text : TimerText
  toTextWithId : Settings → Bytes
  freshId : Int
  nextActiveTimer : List Timer → Option Nat
  now : Int

def rowValue (row : Row) : Value :=
  .tuple [.int row.id, .string (some row.remote), .int row.flags, .string (some row.channel),
    .string (some row.day), .int row.start, .int row.stop, .int row.priority, .int row.lifetime,
    .string (some row.file), .string (some row.aux), .int row.eventId, .boolean row.recording,
    .boolean row.pending, .boolean row.inVpsMargin]

def newMethod (timers : Timers) (clock : Clock) (params : Params) : Trace :=
  let option := (params.string 0).getD []
  let (_, replyCode, replyMessage) := new clock.text timers option clock.freshId
  (if replyCode = 250 then [VdrCall.addTimer option] else []).map .did ++
    sendReply replyCode (some replyMessage)

def deleteMethod (timers : Timers) (params : Params) : Trace :=
  let number := params.int32 0 0
  let calls : List VdrCall :=
    match timers.list.find? fun timer => timer.id = number with
    | some timer =>
        (if timer.settings.recording then [.skipTimer number] else []) ++ [.deleteTimer number]
    | none => []
  let (_, replyCode, replyMessage) := delete timers number
  calls.map .did ++ sendReply replyCode (some replyMessage)

def listMethod (timers : Timers) (clock : Clock) : Trace :=
  [.reply (.value [.array (timers.list.map fun timer =>
    .string (some (stripspace (clock.toTextWithId timer.settings))))])]

def listDetailedMethod (timers : Timers) : Trace :=
  [.reply (.value [.array ((listDetailed timers).map rowValue)])]

def nextMethod (timers : Timers) (clock : Clock) : Trace :=
  let reply := next timers clock.nextActiveTimer clock.now
  [.reply (.value [.int reply.returncode, .int reply.number, .int reply.seconds, .int reply.start,
    .int reply.stop, .string (some reply.title)])]

theorem newMethod_answered (timers : Timers) (clock : Clock) (params : Params) :
    Answered (newMethod timers clock params) := by
  unfold newMethod
  dsimp only
  rw [answered_did_append]
  simp

theorem deleteMethod_answered (timers : Timers) (params : Params) :
    Answered (deleteMethod timers params) := by
  unfold deleteMethod
  dsimp only
  rw [answered_did_append]
  simp

theorem listMethod_answered (timers : Timers) (clock : Clock) :
    Answered (listMethod timers clock) := by simp [listMethod]

theorem listDetailedMethod_answered (timers : Timers) : Answered (listDetailedMethod timers) := by
  have hrow : ∀ row, (rowValue row).Complete := by simp [rowValue]
  simp [listDetailedMethod, Value.complete_map, hrow, -Value.complete_array_iff]

theorem nextMethod_answered (timers : Timers) (clock : Clock) :
    Answered (nextMethod timers clock) := by simp [nextMethod]

end TimersHelper

/-! ### Shutdown -/

structure NextTimer where
  startTime : Int
  channel : Int
  file : Bytes

structure WakeupPlugin where
  name : Bytes
  wakeupTime : Int

structure ShutdownState where
  userInactive : Bool
  cutterActive : Bool
  now : Int
  timer : Option NextTimer
  recording : Bool
  minEventTimeout : Int
  pluginActive : Bool
  plugin : Option WakeupPlugin
  remoteEnabled : Bool
  confirmed : Bool
  hooksDir : Option Bytes
  hooksWrapper : Option Bytes
  wrapperExecutable : Bool
  /-- What the call of the wrapper returns and prints; -1 when there is no pipe. -/
  wrapper : Bytes → Int × Bytes
  nextWakeupTime : Int
  startupTime : Int

namespace ShutdownHelper

def answer (reply : Shutdown.Reply) : Trace :=
  [.reply (.value [.int reply.replyCode, .string (some reply.replyMessage), .int reply.shExitCode,
    .string (some reply.shParameter)])]

def refuse (replyCode : Int) (replyMessage : Bytes) : Trace :=
  answer ⟨replyCode, replyMessage, 0, []⟩

def next (s : ShutdownState) : Int := (s.timer.map (·.startTime)).getD 0

def nextPlugin (s : ShutdownState) : Int := (s.plugin.map (·.wakeupTime)).getD 0

/-- `Delta`, first for the timer and then for the plugin. -/
def delta (s : ShutdownState) : Int := if s.timer.isSome then next s - s.now else 0

def deltaPlugin (s : ShutdownState) : Int := if nextPlugin s ≠ 0 then nextPlugin s - s.now else 0

/-- `Setup.MinEventTimeout * 60`, a product of two `int`s. -/
def minEventSeconds (s : ShutdownState) : Int := longToInt (s.minEventTimeout * 60)

/-- What is handed to the hooks, with the plugin's wake-up time when that comes first. -/
def hookParameters (s : ShutdownState) : Bytes :=
  let pluginFirst := nextPlugin s ≠ 0 ∧ (next s = 0 ∨ nextPlugin s < next s)
  let next := if pluginFirst then nextPlugin s else next s
  let timer := if pluginFirst then none else s.timer
  let delta := if next ≠ 0 then next - s.now else 0
  Shutdown.parameters next delta (timer.map fun t => (t.channel, t.file)) (s.plugin.map (·.name))

def askHooks (s : ShutdownState) (hooksDir hooksWrapper : Bytes) : Trace :=
  let params := strescape (hookParameters s) (ascii "\\\"")
  let call := hooksWrapper ++ ascii " " ++ hooksDir ++ ascii " \"" ++ params ++ ascii "\""
  let cmd := if s.wrapperExecutable then call else ascii "/bin/sh " ++ call
  let (ret, output) := s.wrapper cmd
  .did (.runHooks cmd) :: answer (Shutdown.judge ret output params)

def confirmShutdown (s : ShutdownState) (params : Params) : Trace :=
  if !params.boolean 0 false && !s.userInactive then refuse 901 (ascii "user is active")
  else if s.cutterActive then refuse 902 (ascii "cutter is active")
  else if s.recording ∨ next s ≠ 0 ∧
    delta s ≤ 0 then refuse 903 (ascii "recording is active")
  else if next s ≠ 0 ∧ delta s ≤ minEventSeconds s then
    refuse 904 (ascii "recording is active in the near future")
  else if s.pluginActive then refuse 905 (ascii "some plugin is active")
  else if nextPlugin s ≠ 0 ∧ deltaPlugin s ≤ minEventSeconds s then
    refuse 906 (ascii "plugin " ++ printed (s.plugin.map (·.name)) ++ ascii " wakes up in " ++
      decimal ((deltaPlugin s).tdiv 60) ++ ascii " min")
  else if s.remoteEnabled && !s.confirmed then refuse 550 (ascii "vdr is not ready for shutdown")
  else
    match s.hooksDir.filter (· ≠ []), s.hooksWrapper.filter (· ≠ []) with
    | some hooksDir, some hooksWrapper => askHooks s hooksDir hooksWrapper
    | _, _ => refuse 250 Shutdown.readyMessage

def manualStart (s : ShutdownState) : Trace :=
  let delta := if s.nextWakeupTime ≠ 0 then s.nextWakeupTime - s.startupTime else 0
  [.reply (.value [.boolean (s.nextWakeupTime = 0 ∨ 600 < |longToInt delta|)])]

def nextWakeupTime (s : ShutdownState) : Trace :=
  let (nextWakeupTime, info) :=
    if s.now < next s then (next s, ascii "timer") else ((0 : Int), ([] : Bytes))
  let (nextWakeupTime, info) :=
    if s.now < nextPlugin s ∧ nextPlugin s < nextWakeupTime then
      (nextPlugin s, ascii "plugin:" ++ printed (s.plugin.map (·.name)))
    else (nextWakeupTime, info)
  [.reply (.value [.int nextWakeupTime, .string (some info)])]

def setUserInactive : Trace :=
  .did .setUserInactive :: sendReply 250 (some (ascii "vdr is set to non-interactive mode"))

@[simp]
theorem answer_answered (reply : Shutdown.Reply) : Answered (answer reply) := by simp [answer]

theorem confirmShutdown_answered (s : ShutdownState) (params : Params) :
    Answered (confirmShutdown s params) := by
  unfold confirmShutdown
  split_ifs
  case neg =>
    split
    · simp [askHooks]
    · exact answer_answered _
  all_goals exact answer_answered _

theorem manualStart_answered (s : ShutdownState) : Answered (manualStart s) := by simp [manualStart]

theorem nextWakeupTime_answered (s : ShutdownState) : Answered (nextWakeupTime s) := by
  simp [nextWakeupTime]

theorem setUserInactive_answered : Answered setUserInactive := by simp [setUserInactive]

end ShutdownHelper

/-! ### Status -/

structure ReplayStatus where
  name : Option Bytes
  fileName : Option Bytes
  on : Bool

namespace StatusHelper

def isReplaying (replay : ReplayStatus) : Trace :=
  [.reply (.value [.string (some (replay.name.getD [])), .string (some (replay.fileName.getD [])),
    .boolean replay.on])]

theorem isReplaying_answered (replay : ReplayStatus) : Answered (isReplaying replay) := by
  simp [isReplaying]

end StatusHelper

inductive VdrStatus where
  | unknown
  | start
  | ready
  | stop
  deriving DecidableEq, Repr

namespace VdrHelper

def getStatusName : VdrStatus → Bytes
  | .start => ascii "Start"
  | .ready => ascii "Ready"
  | .stop => ascii "Stop"
  | .unknown => ascii "Unknown"

def status (vdrStatus : VdrStatus) : Trace :=
  [.reply (.value [.string (some (getStatusName vdrStatus))])]

theorem status_answered (vdrStatus : VdrStatus) : Answered (status vdrStatus) := by simp [status]

end VdrHelper

end Dbus2vdr
