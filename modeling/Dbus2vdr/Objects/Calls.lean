import Dbus2vdr.Objects.Epg
import Dbus2vdr.Objects.Recordings
import Dbus2vdr.Objects.Remote
import Dbus2vdr.Objects.Settings
import Dbus2vdr.Objects.System

/-!
# Every call gets its reply

`do_work` looks the method up among those its object has registered and calls the handler, which is
to reply once. A handler fails to when it leaves its message unset, or when it follows a pointer of
VDR that is `NULL`. `answered_iff` finds every such call of every object, for any state of VDR.

A call is one that D-Bus lets through: its method is declared by the object, and the parameters have
the types that are declared.
-/

namespace Dbus2vdr

inductive Method where
  | count | current | getFromTo | list
  | getPrimary | getNullDevice | requestPrimary
  | disableScanner | enableScanner | clearEPG | putEntry | putFile | now | next | at
  | createProvider | deleteProvider
  | svdrpCommand | service
  | get | update | play | changeName
  | listExtraVideoDirectories | addExtraVideoDirectory | clearExtraVideoDirectories
  | deleteExtraVideoDirectory
  | callPlugin | enable | disable | status | hitKey | hitKeys | askUser | switchChannel | getVolume
  | setVolume
  | set | del
  | confirmShutdown | manualStart | nextWakeupTime | setUserInactive
  | currentSkin | listSkins | setSkin | queueMessage
  | isReplaying
  | new | delete | listDetailed
  deriving DecidableEq, Repr

def Method.name : Method → Bytes
  | .count => ascii "Count"
  | .current => ascii "Current"
  | .getFromTo => ascii "GetFromTo"
  | .list => ascii "List"
  | .getPrimary => ascii "GetPrimary"
  | .getNullDevice => ascii "GetNullDevice"
  | .requestPrimary => ascii "RequestPrimary"
  | .disableScanner => ascii "DisableScanner"
  | .enableScanner => ascii "EnableScanner"
  | .clearEPG => ascii "ClearEPG"
  | .putEntry => ascii "PutEntry"
  | .putFile => ascii "PutFile"
  | .now => ascii "Now"
  | .next => ascii "Next"
  | .at => ascii "At"
  | .createProvider => ascii "CreateProvider"
  | .deleteProvider => ascii "DeleteProvider"
  | .svdrpCommand => ascii "SVDRPCommand"
  | .service => ascii "Service"
  | .get => ascii "Get"
  | .update => ascii "Update"
  | .play => ascii "Play"
  | .changeName => ascii "ChangeName"
  | .listExtraVideoDirectories => ascii "ListExtraVideoDirectories"
  | .addExtraVideoDirectory => ascii "AddExtraVideoDirectory"
  | .clearExtraVideoDirectories => ascii "ClearExtraVideoDirectories"
  | .deleteExtraVideoDirectory => ascii "DeleteExtraVideoDirectory"
  | .callPlugin => ascii "CallPlugin"
  | .enable => ascii "Enable"
  | .disable => ascii "Disable"
  | .status => ascii "Status"
  | .hitKey => ascii "HitKey"
  | .hitKeys => ascii "HitKeys"
  | .askUser => ascii "AskUser"
  | .switchChannel => ascii "SwitchChannel"
  | .getVolume => ascii "GetVolume"
  | .setVolume => ascii "SetVolume"
  | .set => ascii "Set"
  | .del => ascii "Del"
  | .confirmShutdown => ascii "ConfirmShutdown"
  | .manualStart => ascii "ManualStart"
  | .nextWakeupTime => ascii "NextWakeupTime"
  | .setUserInactive => ascii "SetUserInactive"
  | .currentSkin => ascii "CurrentSkin"
  | .listSkins => ascii "ListSkins"
  | .setSkin => ascii "SetSkin"
  | .queueMessage => ascii "QueueMessage"
  | .isReplaying => ascii "IsReplaying"
  | .new => ascii "New"
  | .delete => ascii "Delete"
  | .listDetailed => ascii "ListDetailed"

/-- The objects of `AddAllObjects` and of the connection to the network. -/
inductive Object where
  | channels
  | devices
  | epg
  | osd
  | plugin (path : Bytes)
  | pluginManager
  | recordingsConst
  | recordings
  | remote
  | setup
  | shutdown
  | skin
  | status (network : Bool)
  | timersConst
  | timers
  | vdr

structure VdrState where
  channels : Channels
  devices : Devices
  remote : Remote
  epg : Epg
  recordings : Recordings
  /-- Only VDR with the patch has them, and only then are their methods registered. -/
  extraVideoDirectories : Option ExtraVideoDirectories
  plugins : LoadedPlugins
  pluginVersion : Bytes → Option Bytes
  settings : Settings
  skins : Skins
  osdProvider : Bool
  timers : TimersHelper.Timers
  clock : TimersHelper.Clock
  shutdown : ShutdownState
  replay : ReplayStatus
  status : VdrStatus

/-! ### What an object declares -/

structure Declaration where
  interface : Bytes
  method : Method
  args : List ArgType

namespace Object

def path : Object → Bytes
  | .channels => ascii "/Channels"
  | .devices => ascii "/Devices"
  | .epg => ascii "/EPG"
  | .osd => ascii "/OSD"
  | .plugin path => path
  | .pluginManager => ascii "/Plugins"
  | .recordingsConst | .recordings => ascii "/Recordings"
  | .remote => ascii "/Remote"
  | .setup => ascii "/Setup"
  | .shutdown => ascii "/Shutdown"
  | .skin => ascii "/Skin"
  | .status _ => ascii "/Status"
  | .timersConst | .timers => ascii "/Timers"
  | .vdr => ascii "/vdr"

def interface (name : String) : Bytes := ascii "de.tvdr.vdr." ++ ascii name

def declare (name : String) (methods : List (Method × List ArgType)) : List Declaration :=
  methods.map fun (method, args) => { interface := interface name, method, args }

def declared (vdr : VdrState) : Object → List Declaration
  | .channels =>
      declare "channel" [(.count, []), (.current, []), (.getFromTo, [.int32, .int32]),
        (.list, [.string])]
  | .devices =>
      declare "device" [(.getPrimary, []), (.getNullDevice, []), (.requestPrimary, [.int32]),
        (.list, [])]
  | .epg =>
      declare "epg" [(.disableScanner, [.int32]), (.enableScanner, []),
        (.clearEPG, [.string, .int32]), (.putEntry, [.strings]), (.putFile, [.string]),
        (.now, [.string]), (.next, [.string]), (.at, [.string, .uint64])]
  | .osd => declare "osd" [(.createProvider, []), (.deleteProvider, [])]
  | .plugin _ =>
      declare "plugin" [(.svdrpCommand, [.string, .string]), (.service, [.string, .string])]
  | .pluginManager => declare "pluginmanager" [(.list, [])] ++ declare "plugin" [(.list, [])]
  | .recordingsConst =>
      declare "recording" ([(.get, [.variant]), (.list, [])] ++
        if vdr.extraVideoDirectories.isSome then [(.listExtraVideoDirectories, [])] else [])
  | .recordings =>
      declare "recording" ([(.update, []), (.get, [.variant]), (.list, []),
        (.play, [.variant, .variant]), (.changeName, [.variant, .string])] ++
        if vdr.extraVideoDirectories.isSome then
          [(.addExtraVideoDirectory, [.string]), (.clearExtraVideoDirectories, []),
            (.deleteExtraVideoDirectory, [.string]), (.listExtraVideoDirectories, [])]
        else [])
  | .remote =>
      declare "remote" [(.callPlugin, [.string]), (.enable, []), (.disable, []), (.status, []),
        (.hitKey, [.string]), (.hitKeys, [.strings]), (.askUser, [.string, .strings]),
        (.switchChannel, [.string]), (.getVolume, []), (.setVolume, [.variant])]
  | .setup =>
      declare "setup" [(.list, []), (.get, [.string]), (.set, [.string, .variant]),
        (.del, [.string])]
  | .shutdown =>
      declare "shutdown" [(.confirmShutdown, [.boolean]), (.manualStart, []),
        (.nextWakeupTime, []), (.setUserInactive, [])]
  | .skin =>
      declare "skin" [(.currentSkin, []), (.listSkins, []), (.setSkin, [.string]),
        (.queueMessage, [.string])]
  | .status _ => declare "status" [(.isReplaying, [])]
  | .timersConst => declare "timer" [(.list, []), (.listDetailed, []), (.next, [])]
  | .timers =>
      declare "timer" [(.new, [.string]), (.delete, [.int32]), (.list, []), (.listDetailed, []),
        (.next, [])]
  | .vdr => declare "vdr" [(.status, [])]

/-! ### What an object has registered -/

abbrev Handler := Params → Trace

variable (vdr : VdrState)

def recordingsConstMethods : List (Method × Handler) :=
  [(.get, RecordingsHelper.get vdr.recordings),
    (.list, fun _ => RecordingsHelper.list vdr.recordings)] ++
  if vdr.extraVideoDirectories.isSome then
    [(.listExtraVideoDirectories,
      fun _ => RecordingsHelper.listExtraVideoDirectories vdr.extraVideoDirectories)]
  else []

def timersConstMethods : List (Method × Handler) :=
  [(.list, fun _ => TimersHelper.listMethod vdr.timers vdr.clock),
    (.listDetailed, fun _ => TimersHelper.listDetailedMethod vdr.timers),
    (.next, fun _ => TimersHelper.nextMethod vdr.timers vdr.clock)]

def methods : Object → List (Method × Handler)
  | .channels =>
      [(.count, fun _ => ChannelsHelper.count vdr.channels),
        (.current, fun _ => ChannelsHelper.current vdr.channels vdr.remote.currentChannel),
        (.getFromTo, ChannelsHelper.getFromTo vdr.channels),
        (.list, ChannelsHelper.list vdr.channels)]
  | .devices =>
      [(.getPrimary, fun _ => DevicesHelper.getPrimary vdr.devices),
        (.getNullDevice, fun _ => DevicesHelper.getNullDevice vdr.devices),
        (.requestPrimary, DevicesHelper.requestPrimary),
        (.list, fun _ => DevicesHelper.list vdr.devices)]
  | .epg =>
      [(.disableScanner, EpgHelper.disableScanner vdr.epg),
        (.enableScanner, fun _ => EpgHelper.enableScanner),
        (.clearEPG, EpgHelper.clearEPG vdr.epg vdr.channels),
        (.putEntry, EpgHelper.putEntry vdr.epg),
        (.putFile, EpgHelper.putFile vdr.epg),
        (.now, EpgHelper.now vdr.epg vdr.channels),
        (.next, EpgHelper.next vdr.epg vdr.channels),
        (.at, EpgHelper.at vdr.epg vdr.channels)]
  | .osd =>
      [(.createProvider, fun _ => OsdObjectHelper.createProvider vdr.osdProvider),
        (.deleteProvider, fun _ => OsdObjectHelper.deleteProvider vdr.osdProvider vdr.devices)]
  | .plugin path =>
      [(.list, fun _ => PluginsHelper.list vdr.plugins vdr.pluginVersion),
        (.svdrpCommand, PluginsHelper.svdrpCommand vdr.plugins path),
        (.service, PluginsHelper.service vdr.plugins path)]
  | .pluginManager => [(.list, fun _ => PluginsHelper.list vdr.plugins vdr.pluginVersion)]
  | .recordingsConst => recordingsConstMethods vdr
  | .recordings =>
      recordingsConstMethods vdr ++
      [(.update, fun _ => RecordingsHelper.update),
        (.play, RecordingsHelper.play vdr.recordings),
        (.changeName, RecordingsHelper.changeName vdr.recordings)] ++
      if vdr.extraVideoDirectories.isSome then
        [(.addExtraVideoDirectory,
          RecordingsHelper.addExtraVideoDirectory vdr.extraVideoDirectories),
          (.clearExtraVideoDirectories,
            fun _ => RecordingsHelper.clearExtraVideoDirectories vdr.extraVideoDirectories),
          (.deleteExtraVideoDirectory,
            RecordingsHelper.deleteExtraVideoDirectory vdr.extraVideoDirectories)]
      else []
  | .remote =>
      [(.callPlugin, RemoteHelper.callPlugin vdr.remote vdr.plugins),
        (.enable, fun _ => RemoteHelper.enable),
        (.disable, fun _ => RemoteHelper.disable),
        (.status, fun _ => RemoteHelper.status vdr.remote),
        (.hitKey, RemoteHelper.hitKey vdr.remote),
        (.hitKeys, RemoteHelper.hitKeys vdr.remote),
        (.askUser, RemoteHelper.askUser vdr.remote),
        (.switchChannel, RemoteHelper.switchChannel vdr.remote vdr.channels vdr.devices),
        (.getVolume, fun _ => RemoteHelper.getVolume vdr.remote vdr.devices),
        (.setVolume, RemoteHelper.setVolume vdr.remote vdr.devices)]
  | .setup =>
      [(.list, fun _ => SetupHelper.list vdr.settings),
        (.get, SetupHelper.get vdr.settings vdr.plugins),
        (.set, SetupHelper.set vdr.settings vdr.plugins vdr.skins),
        (.del, SetupHelper.del vdr.settings)]
  | .shutdown =>
      [(.confirmShutdown, ShutdownHelper.confirmShutdown vdr.shutdown),
        (.manualStart, fun _ => ShutdownHelper.manualStart vdr.shutdown),
        (.nextWakeupTime, fun _ => ShutdownHelper.nextWakeupTime vdr.shutdown),
        (.setUserInactive, fun _ => ShutdownHelper.setUserInactive)]
  | .skin =>
      [(.currentSkin, fun _ => SkinHelper.currentSkin vdr.skins),
        (.listSkins, fun _ => SkinHelper.listSkins vdr.skins),
        (.setSkin, SkinHelper.setSkin vdr.skins),
        (.queueMessage, SkinHelper.queueMessage)]
  | .status network =>
      if network then [] else [(.isReplaying, fun _ => StatusHelper.isReplaying vdr.replay)]
  | .timersConst => timersConstMethods vdr
  | .timers =>
      timersConstMethods vdr ++
      [(.new, TimersHelper.newMethod vdr.timers vdr.clock),
        (.delete, TimersHelper.deleteMethod vdr.timers)]
  | .vdr => [(.status, fun _ => VdrHelper.status vdr.status)]

end Object

/-- A call that D-Bus lets through to an object. -/
structure Call (vdr : VdrState) (o : Object) where
  interface : Bytes
  method : Method
  params : Params
  declared : ∃ args, ⟨interface, method, args⟩ ∈ o.declared vdr ∧
    List.Forall₂ Variant.HasType params args

def notImplemented {vdr : VdrState} (o : Object) (call : Call vdr o) : Bytes :=
  ascii "method '" ++ call.interface ++ ascii "." ++ call.method.name ++ ascii "' on object '" ++
    o.path ++ ascii "' is not implemented yet"

def doWork (vdr : VdrState) (o : Object) (call : Call vdr o) : Trace :=
  Answer.dispatch (o.methods vdr) (fun _ => [.reply (.error (notImplemented o call))]) call.method
    call.params

/-- The calls that are not answered. -/
inductive Silent (vdr : VdrState) : Object → Method → Params → Prop where
  /-- There is no key in the list. -/
  | hitKeys {params : Params} : params.strings 0 = [] → Silent vdr .remote .hitKeys params
  /-- No plugin that is loaded has the name in the path. -/
  | svdrpCommand {path : Bytes} {params : Params} : vdr.plugins.target path = none →
      Silent vdr (.plugin path) .svdrpCommand params
  | play {params : Params} : RecordingsHelper.Nameless (params.child 0) →
      Silent vdr .recordings .play params
  | changeName {params : Params} : RecordingsHelper.Nameless (params.child 0) →
      (params.string 1).getD [] ≠ [] → Silent vdr .recordings .changeName params
  /-- The number is in a gap of the channels' numbers. -/
  | clearEPG {params : Params} {channel : Bytes} : params.string 0 = some channel →
      EpgHelper.InGap vdr.channels channel → Silent vdr .epg .clearEPG params
  /-- VDR has no primary device. -/
  | switchChannel {params : Params} :
      RemoteHelper.SwitchesDevice vdr.remote vdr.channels ((params.string 0).getD []) →
      vdr.devices.primaryDevice = none → Silent vdr .remote .switchChannel params
  | getVolume {params : Params} : vdr.devices.primaryDevice = none →
      Silent vdr .remote .getVolume params
  | setVolume {params : Params} : vdr.devices.primaryDevice = none →
      Silent vdr .remote .setVolume params
  /-- VDR has no current skin. -/
  | setTheme {params : Params} {name : Bytes} {b : SetupBinding} : params.string 0 = some name →
      SetupHelper.find vdr.settings name = some b →
      SetupHelper.ThemeOfNoSkin vdr.skins name b (params.child 1).content →
      Silent vdr .setup .set params

/-! ### The handlers of an object -/

variable (vdr : VdrState)

/-- What has to be shown of an entry in the table of an object. -/
def Speaks (o : Object) (entry : Method × Object.Handler) : Prop :=
  ∀ params, Answered (entry.2 params) ↔ ¬ Silent vdr o entry.1 params

theorem channels_speaks :
    ∀ entry ∈ Object.methods vdr .channels, Speaks vdr .channels entry := by
  simp only [Object.methods, List.forall_mem_cons, List.not_mem_nil, false_imp_iff, implies_true,
    and_true]
  refine ⟨fun params => ?_, fun params => ?_, fun params => ?_, fun params => ?_⟩
  · exact iff_of_true (ChannelsHelper.count_answered ..) nofun
  · exact iff_of_true (ChannelsHelper.current_answered ..) nofun
  · exact iff_of_true (ChannelsHelper.getFromTo_answered ..) nofun
  · exact iff_of_true (ChannelsHelper.list_answered ..) nofun

theorem devices_speaks : ∀ entry ∈ Object.methods vdr .devices, Speaks vdr .devices entry := by
  simp only [Object.methods, List.forall_mem_cons, List.not_mem_nil, false_imp_iff, implies_true,
    and_true]
  refine ⟨fun params => ?_, fun params => ?_, fun params => ?_, fun params => ?_⟩
  · exact iff_of_true (DevicesHelper.getPrimary_answered ..) nofun
  · exact iff_of_true (DevicesHelper.getNullDevice_answered ..) nofun
  · exact iff_of_true (DevicesHelper.requestPrimary_answered ..) nofun
  · exact iff_of_true (DevicesHelper.list_answered ..) nofun

theorem epg_speaks : ∀ entry ∈ Object.methods vdr .epg, Speaks vdr .epg entry := by
  simp only [Object.methods, List.forall_mem_cons, List.not_mem_nil, false_imp_iff, implies_true,
    and_true]
  refine ⟨fun params => ?_, fun params => ?_, fun params => ?_, fun params => ?_,
    fun params => ?_, fun params => ?_, fun params => ?_, fun params => ?_⟩
  · exact iff_of_true (EpgHelper.disableScanner_answered ..) nofun
  · exact iff_of_true EpgHelper.enableScanner_answered nofun
  · rw [EpgHelper.clearEPG_answered_iff]
    exact not_congr ⟨fun ⟨_, hname, hgap⟩ => .clearEPG hname hgap,
      fun | .clearEPG hname hgap => ⟨_, hname, hgap⟩⟩
  · exact iff_of_true (EpgHelper.putEntry_answered ..) nofun
  · exact iff_of_true (EpgHelper.putFile_answered ..) nofun
  all_goals exact iff_of_true (EpgHelper.getEntries_answered ..) nofun

theorem osd_speaks : ∀ entry ∈ Object.methods vdr .osd, Speaks vdr .osd entry := by
  simp only [Object.methods, List.forall_mem_cons, List.not_mem_nil, false_imp_iff, implies_true,
    and_true]
  refine ⟨fun params => ?_, fun params => ?_⟩
  · exact iff_of_true (OsdObjectHelper.createProvider_answered ..) nofun
  · exact iff_of_true (OsdObjectHelper.deleteProvider_answered ..) nofun

theorem plugin_speaks (path : Bytes) :
    ∀ entry ∈ Object.methods vdr (.plugin path), Speaks vdr (.plugin path) entry := by
  simp only [Object.methods, List.forall_mem_cons, List.not_mem_nil, false_imp_iff, implies_true,
    and_true]
  refine ⟨fun params => ?_, fun params => ?_, fun params => ?_⟩
  · exact iff_of_true (PluginsHelper.list_answered ..) nofun
  · rw [PluginsHelper.svdrpCommand_answered_iff]
    exact not_congr ⟨.svdrpCommand, fun | .svdrpCommand hnone => hnone⟩
  · exact iff_of_true (PluginsHelper.service_answered ..) nofun

theorem pluginManager_speaks :
    ∀ entry ∈ Object.methods vdr .pluginManager, Speaks vdr .pluginManager entry := by
  simp only [Object.methods, List.forall_mem_singleton]
  exact fun params => iff_of_true (PluginsHelper.list_answered ..) nofun

theorem recordingsConst_speaks :
    ∀ entry ∈ Object.methods vdr .recordingsConst, Speaks vdr .recordingsConst entry := by
  intro entry hentry
  simp only [Object.methods, Object.recordingsConstMethods, List.mem_append, List.mem_cons,
    List.not_mem_nil, or_false] at hentry
  rcases hentry with (rfl | rfl) | hextra
  · exact fun params => iff_of_true (RecordingsHelper.get_answered ..) nofun
  · exact fun params => iff_of_true (RecordingsHelper.list_answered ..) nofun
  · split_ifs at hextra
    · rw [List.mem_singleton.mp hextra]
      exact fun params => iff_of_true (RecordingsHelper.listExtraVideoDirectories_answered ..) nofun
    · cases hextra

theorem recordings_speaks :
    ∀ entry ∈ Object.methods vdr .recordings, Speaks vdr .recordings entry := by
  intro entry hentry
  simp only [Object.methods, Object.recordingsConstMethods, List.mem_append, List.mem_cons,
    List.not_mem_nil, or_false] at hentry
  rcases hentry with (((rfl | rfl) | hextra) | (rfl | rfl | rfl)) | hextra
  · exact fun params => iff_of_true (RecordingsHelper.get_answered ..) nofun
  · exact fun params => iff_of_true (RecordingsHelper.list_answered ..) nofun
  · split_ifs at hextra
    · rw [List.mem_singleton.mp hextra]
      exact fun params => iff_of_true (RecordingsHelper.listExtraVideoDirectories_answered ..) nofun
    · cases hextra
  · exact fun params => iff_of_true RecordingsHelper.update_answered nofun
  · intro params
    rw [RecordingsHelper.play_answered_iff]
    exact not_congr ⟨.play, fun | .play hnameless => hnameless⟩
  · intro params
    rw [RecordingsHelper.changeName_answered_iff]
    exact not_congr ⟨fun ⟨hnameless, hnew⟩ => .changeName hnameless hnew,
      fun | .changeName hnameless hnew => ⟨hnameless, hnew⟩⟩
  · split_ifs at hextra
    · simp only [List.mem_cons, List.not_mem_nil, or_false] at hextra
      rcases hextra with rfl | rfl | rfl <;> intro params
      · exact iff_of_true (RecordingsHelper.changeExtraVideoDirectory_answered ..) nofun
      · exact iff_of_true (RecordingsHelper.clearExtraVideoDirectories_answered ..) nofun
      · exact iff_of_true (RecordingsHelper.changeExtraVideoDirectory_answered ..) nofun
    · cases hextra

theorem remote_speaks : ∀ entry ∈ Object.methods vdr .remote, Speaks vdr .remote entry := by
  simp only [Object.methods, List.forall_mem_cons, List.not_mem_nil, false_imp_iff, implies_true,
    and_true]
  refine ⟨fun params => ?_, fun params => ?_, fun params => ?_, fun params => ?_,
    fun params => ?_,
    fun params => ?_, fun params => ?_, fun params => ?_, fun params => ?_, fun params => ?_⟩
  · exact iff_of_true (RemoteHelper.callPlugin_answered ..) nofun
  · exact iff_of_true RemoteHelper.enable_answered nofun
  · exact iff_of_true RemoteHelper.disable_answered nofun
  · exact iff_of_true (RemoteHelper.status_answered ..) nofun
  · exact iff_of_true (RemoteHelper.hitKey_answered ..) nofun
  · rw [RemoteHelper.hitKeys_answered_iff]
    exact not_congr ⟨.hitKeys, fun | .hitKeys hnil => hnil⟩
  · exact iff_of_true (RemoteHelper.askUser_answered ..) nofun
  · rw [RemoteHelper.switchChannel_answered_iff]
    exact not_congr ⟨fun ⟨hswitches, hnone⟩ => .switchChannel hswitches hnone,
      fun | .switchChannel hswitches hnone => ⟨hswitches, hnone⟩⟩
  · rw [RemoteHelper.getVolume_answered_iff]
    exact not_congr ⟨.getVolume, fun | .getVolume hnone => hnone⟩
  · rw [RemoteHelper.setVolume_answered_iff]
    exact not_congr ⟨.setVolume, fun | .setVolume hnone => hnone⟩

theorem setup_speaks : ∀ entry ∈ Object.methods vdr .setup, Speaks vdr .setup entry := by
  simp only [Object.methods, List.forall_mem_cons, List.not_mem_nil, false_imp_iff, implies_true,
    and_true]
  refine ⟨fun params => ?_, fun params => ?_, fun params => ?_, fun params => ?_⟩
  · exact iff_of_true (SetupHelper.list_answered ..) nofun
  · exact iff_of_true (SetupHelper.get_answered ..) nofun
  · rw [SetupHelper.set_answered_iff]
    exact not_congr ⟨fun ⟨_, _, hname, hfind, htheme⟩ => .setTheme hname hfind htheme,
      fun | .setTheme hname hfind htheme => ⟨_, _, hname, hfind, htheme⟩⟩
  · exact iff_of_true (SetupHelper.del_answered ..) nofun

theorem shutdown_speaks :
    ∀ entry ∈ Object.methods vdr .shutdown, Speaks vdr .shutdown entry := by
  simp only [Object.methods, List.forall_mem_cons, List.not_mem_nil, false_imp_iff, implies_true,
    and_true]
  refine ⟨fun params => ?_, fun params => ?_, fun params => ?_, fun params => ?_⟩
  · exact iff_of_true (ShutdownHelper.confirmShutdown_answered ..) nofun
  · exact iff_of_true (ShutdownHelper.manualStart_answered ..) nofun
  · exact iff_of_true (ShutdownHelper.nextWakeupTime_answered ..) nofun
  · exact iff_of_true ShutdownHelper.setUserInactive_answered nofun

theorem skin_speaks : ∀ entry ∈ Object.methods vdr .skin, Speaks vdr .skin entry := by
  simp only [Object.methods, List.forall_mem_cons, List.not_mem_nil, false_imp_iff, implies_true,
    and_true]
  refine ⟨fun params => ?_, fun params => ?_, fun params => ?_, fun params => ?_⟩
  · exact iff_of_true (SkinHelper.currentSkin_answered ..) nofun
  · exact iff_of_true (SkinHelper.listSkins_answered ..) nofun
  · exact iff_of_true (SkinHelper.setSkin_answered ..) nofun
  · exact iff_of_true (SkinHelper.queueMessage_answered ..) nofun

theorem status_speaks (network : Bool) :
    ∀ entry ∈ Object.methods vdr (.status network), Speaks vdr (.status network) entry := by
  cases network with
  | true => nofun
  | false =>
      simp only [Object.methods, Bool.false_eq_true, if_false, List.forall_mem_singleton]
      exact fun params => iff_of_true (StatusHelper.isReplaying_answered ..) nofun

theorem timersConst_speaks :
    ∀ entry ∈ Object.methods vdr .timersConst, Speaks vdr .timersConst entry := by
  simp only [Object.methods, Object.timersConstMethods, List.forall_mem_cons, List.not_mem_nil,
    false_imp_iff, implies_true, and_true]
  refine ⟨fun params => ?_, fun params => ?_, fun params => ?_⟩
  · exact iff_of_true (TimersHelper.listMethod_answered ..) nofun
  · exact iff_of_true (TimersHelper.listDetailedMethod_answered ..) nofun
  · exact iff_of_true (TimersHelper.nextMethod_answered ..) nofun

theorem timers_speaks : ∀ entry ∈ Object.methods vdr .timers, Speaks vdr .timers entry := by
  simp only [Object.methods, Object.timersConstMethods, List.cons_append, List.nil_append,
    List.forall_mem_cons, List.not_mem_nil, false_imp_iff, implies_true, and_true]
  refine ⟨fun params => ?_, fun params => ?_, fun params => ?_, fun params => ?_,
    fun params => ?_⟩
  · exact iff_of_true (TimersHelper.listMethod_answered ..) nofun
  · exact iff_of_true (TimersHelper.listDetailedMethod_answered ..) nofun
  · exact iff_of_true (TimersHelper.nextMethod_answered ..) nofun
  · exact iff_of_true (TimersHelper.newMethod_answered ..) nofun
  · exact iff_of_true (TimersHelper.deleteMethod_answered ..) nofun

theorem vdr_speaks : ∀ entry ∈ Object.methods vdr .vdr, Speaks vdr .vdr entry := by
  simp only [Object.methods, List.forall_mem_singleton]
  exact fun params => iff_of_true (VdrHelper.status_answered ..) nofun

theorem methods_speak (o : Object) : ∀ entry ∈ o.methods vdr, Speaks vdr o entry := by
  cases o with
  | channels => exact channels_speaks vdr
  | devices => exact devices_speaks vdr
  | epg => exact epg_speaks vdr
  | osd => exact osd_speaks vdr
  | plugin path => exact plugin_speaks vdr path
  | pluginManager => exact pluginManager_speaks vdr
  | recordingsConst => exact recordingsConst_speaks vdr
  | recordings => exact recordings_speaks vdr
  | remote => exact remote_speaks vdr
  | setup => exact setup_speaks vdr
  | shutdown => exact shutdown_speaks vdr
  | skin => exact skin_speaks vdr
  | status network => exact status_speaks vdr network
  | timersConst => exact timersConst_speaks vdr
  | timers => exact timers_speaks vdr
  | vdr => exact vdr_speaks vdr

variable {vdr}

theorem Silent.registered {o : Object} {method : Method} {params : Params}
    (hsilent : Silent vdr o method params) : method ∈ (o.methods vdr).map (·.1) := by
  cases hsilent <;> simp [Object.methods]

/-- **One reply for every call**, of strings that all exist: for every call of every object and in
every state of VDR, unless the call is one of those that are silent. -/
theorem answered_iff (o : Object) (call : Call vdr o) :
    Answered (doWork vdr o call) ↔ ¬ Silent vdr o call.method call.params := by
  refine Answer.dispatch_induction
    (Q := fun handler : Object.Handler =>
      Answered (handler call.params) ↔ ¬ Silent vdr o call.method call.params)
    (fun entry hentry hname => ?_) fun hname => ?_
  · rw [← hname]
    exact methods_speak vdr o entry hentry call.params
  · exact iff_of_true (by simp) fun hsilent => hname hsilent.registered

/-- A VDR that has one device and nothing else. -/
def idleVdr : VdrState where
  channels := { list := [], maxNumber := 0, fromString := fun _ => none, toUtf8 := id }
  devices :=
    let device : Device :=
      { cardIndex := 0, deviceNumber := 0, hasDecoder := true, isPrimaryDevice := true
        deviceName := ascii "nulldevice" }
    { primaryDevice := some device, list := [some device], nulldeviceIndex := 0, toUtf8 := id }
  remote :=
    { enabled := true, keyFromString := fun _ => none, callPending := false, menuOpen := false
      currentChannel := 1, switchTo := fun _ => none, switchBy := fun _ => 1
      audio := ⟨100, false⟩, setVolume := fun audio _ _ => audio, toggleMute := id }
  epg :=
    { now := 0, schedulesRead := none, schedulesWrite := none, clrRid := id
      contentToString := fun _ => [], tmpfile := true, fopen := fun _ => none, read :=
        fun _ => false }
  recordings := { list := [], hmsfToIndex := fun _ _ => 0 }
  extraVideoDirectories := none
  plugins := ⟨[], List.nodup_nil⟩
  pluginVersion := fun _ => none
  settings :=
    { bindings := [], setup := {}, load := SetupLine.parse, save := id
      parseLine := SetupLine.parse, setupParse := fun _ _ _ => false }
  skins := { current := none, list := [], setCurrent := fun _ => false }
  osdProvider := false
  timers := {}
  clock :=
    { text := TimersHelper.anyText, toTextWithId := fun _ => [], freshId := 1
      nextActiveTimer := fun _ => none, now := 0 }
  shutdown :=
    { userInactive := true, cutterActive := false, now := 0, timer := none, recording := false
      minEventTimeout := 30, pluginActive := false, plugin := none, remoteEnabled := true
      confirmed := true, hooksDir := none, hooksWrapper := none, wrapperExecutable := false
      wrapper := fun _ => (0, []), nextWakeupTime := 0, startupTime := 0 }
  replay := { name := none, fileName := none, on := false }
  status := .ready

/-- `HitKeys` with an empty array. -/
theorem hitKeys_of_no_keys :
    ¬ ∀ (vdr : VdrState) (o : Object) (call : Call vdr o), Answered (doWork vdr o call) := by
  intro hall
  let call : Call idleVdr .remote :=
    { interface := Object.interface "remote", method := .hitKeys, params := [.strings []]
      declared := ⟨[.strings], by simp [Object.declared, Object.declare],
        .cons (.strings []) .nil⟩ }
  have hanswered := (RemoteHelper.hitKeys_answered_iff idleVdr.remote [.strings []]).mp
    (hall idleVdr .remote call)
  exact hanswered rfl

end Dbus2vdr
