import Dbus2vdr.Plugin
import Dbus2vdr.Objects.Channels

/-!
# Remote control

The methods of `/Remote`. `HitKeys` has no message for an empty list of keys,
`hitKeys_answered_iff`; the methods for the volume and `SwitchChannel` use VDR's primary device
without asking whether there is one, and do not answer when there is none.
-/

namespace Dbus2vdr

structure Audio where
  volume : Int
  mute : Bool

/-- What the methods ask VDR; whether there is a primary device is known to `Devices`. -/
structure Remote where
  enabled : Bool
  /-- `cKey::FromString`, without a value for `kNone`. -/
  keyFromString : Bytes → Option Nat
  /-- `cRemote::CallPlugin` finds another call that is pending. -/
  callPending : Bool
  /-- `cDBusRemote::MainMenuAction != NULL` -/
  menuOpen : Bool
  currentChannel : Int
  /-- The current channel after switching to a channel, without a value when that fails. -/
  switchTo : Channel → Option Int
  /-- The current channel after `cDevice::SwitchChannel(d)`. -/
  switchBy : Int → Int
  audio : Audio
  setVolume : Audio → Int → Bool → Audio
  toggleMute : Audio → Audio

namespace RemoteHelper

def volumeDelta : Int := 5

def callPlugin (remote : Remote) (plugins : LoadedPlugins) (params : Params) : Trace :=
  match params.string 0 with
  | some pluginName =>
      match plugins.getPlugin pluginName with
      | some plugin =>
          if remote.callPending then
            sendReply 550 (some (ascii "plugin " ++ pluginName ++
              ascii " not called, another call is pending"))
          else
            .did (.callPlugin plugin.name) ::
              sendReply 250 (some (ascii "plugin " ++ pluginName ++ ascii " called"))
      | none => sendReply 550 (some (ascii "plugin " ++ pluginName ++ ascii " not found"))
  | none => sendReply 550 (some (ascii "name of plugin to be called is missing"))

def enable : Trace :=
  .did (.setEnabled true) :: sendReply 250 (some (ascii "Remote control enabled"))

def disable : Trace :=
  .did (.setEnabled false) :: sendReply 250 (some (ascii "Remote control disabled"))

def status (remote : Remote) : Trace := [.reply (.value [.boolean remote.enabled])]

def unknownKey (keyName : Bytes) : Bytes := ascii "Unknown key: \"" ++ keyName ++ ascii "\""

def hitKey (remote : Remote) (params : Params) : Trace :=
  let keyName := (params.string 0).getD []
  match remote.keyFromString keyName with
  | none => sendReply 504 (some (unknownKey keyName))
  | some k => .did (.put k) :: sendReply 250 (some (ascii "Key accepted"))

structure Keys where
  replyCode : Int := 500
  replyMessage : Option Bytes := none
  keys : List Nat := []

/-- "just get the keys until first error" -/
def hitKeysLoop (keyFromString : Bytes → Option Nat) : List Bytes → Keys → Keys
  | [], s => s
  | keyName :: keyNames, s =>
      match keyFromString keyName with
      | none => { replyCode := 504, replyMessage := some (unknownKey keyName), keys := [] }
      | some k => hitKeysLoop keyFromString keyNames { s with keys := s.keys ++ [k] }

def hitKeys (remote : Remote) (params : Params) : Trace :=
  let s := hitKeysLoop remote.keyFromString (params.strings 0) {}
  if s.keys = [] then sendReply s.replyCode s.replyMessage
  else
    (s.keys.map VdrCall.put).map .did ++
      sendReply 250 (some (ascii "Key" ++ (if 1 < s.keys.length then ascii "s" else []) ++
        ascii " accepted"))

def askUser (remote : Remote) (params : Params) : Trace :=
  if remote.menuOpen then sendReply 550 (some (ascii "another selection menu is already open"))
  else
    let items := params.strings 1
    if items = [] then sendReply 501 (some (ascii "no items for selection menu given"))
    else if remote.callPending then sendReply 550 (some (ascii "can't display selection menu"))
    else
      .did (.openMenu ((params.string 0).getD []) items) :: .did (.callPlugin (ascii "dbus2vdr")) ::
        sendReply 250 (some (ascii "display selection menu"))

/-- `n` and `d` of `SwitchChannel`. -/
def switchTarget (remote : Remote) (channels : Channels) (option : Bytes) : Int × Int :=
  if isnumber option then
    let o := longToInt (strtol option)
    (if 1 ≤ o ∧ o ≤ channels.maxNumber then o else -1, 0)
  else if option = ascii "-" then
    if 1 < remote.currentChannel then (remote.currentChannel - 1, -1)
      else (remote.currentChannel, 0)
  else if option = ascii "+" then
    if remote.currentChannel < channels.maxNumber then (remote.currentChannel + 1, 1)
    else (remote.currentChannel, 0)
  else
    match channels.getByChannelID (channels.fromString option) with
    | some channel => (channel.number, 0)
    | none => (((channels.getByName option).map (·.number)).getD (-1), 0)

/-- The end of `SwitchChannel`, with what now is the current channel. -/
def switched (channels : Channels) (currentChannel : Int) : Trace :=
  match channels.getByNumber currentChannel with
  | some channel =>
      sendReply 250 (some (decimal channel.number ++ ascii " " ++ channel.name))
  | none =>
      sendReply 550
        (some (ascii "Unable to find channel \"" ++ decimal currentChannel ++ ascii "\""))

def switchChannel (remote : Remote) (channels : Channels) (devices : Devices) (params : Params) :
    Trace :=
  let option := (params.string 0).getD []
  if option = [] then switched channels remote.currentChannel
  else
    let (n, d) := switchTarget remote channels option
    if n < 0 then
      sendReply 501 (some (ascii "Undefined channel \"" ++ option ++ ascii "\""))
    else if d = 0 then
      match channels.getByNumber n with
      | some channel =>
          match devices.primaryDevice with
          | some _ =>
              match remote.switchTo channel with
              | some currentChannel =>
                  .did (.switchTo channel.number) :: switched channels currentChannel
              | none =>
                  .did (.switchTo channel.number) ::
                    sendReply 554 (some (ascii "Error switching to channel \"" ++
                      decimal channel.number ++ ascii "\""))
          | none => [.crash]
      | none => sendReply 550 (some (ascii "Unable to find channel \"" ++ option ++ ascii "\""))
    else .did (.switchBy d) :: switched channels (remote.switchBy d)

/-- `cDevice::PrimaryDevice()->...` -/
def onPrimaryDevice (devices : Devices) (trace : Trace) : Trace :=
  match devices.primaryDevice with
  | some _ => trace
  | none => [.crash]

def getVolume (remote : Remote) (devices : Devices) : Trace :=
  onPrimaryDevice devices
    [.reply (.value [.int remote.audio.volume, .boolean remote.audio.mute])]

/-- The reply of `SetVolume`: whatever came before, the message is about the volume. -/
def volumeReply (audio : Audio) (replyCode : Int) : Trace :=
  [.reply (.value [.int audio.volume, .boolean audio.mute, .int replyCode,
    .string (some (if audio.mute then ascii "Audio is mute"
      else ascii "Audio volume is " ++ decimal audio.volume))])]

def setVolume (remote : Remote) (devices : Devices) (params : Params) : Trace :=
  let set (volume : Int) (absolute : Bool) : Trace :=
    .did (.setVolume volume absolute) ::
      volumeReply (remote.setVolume remote.audio volume absolute) 250
  onPrimaryDevice devices <|
    match (params.child 0).content with
    | .string option =>
        if isnumber option then set (longToInt (strtol option)) true
        else if option = ascii "+" then set volumeDelta false
        else if option = ascii "-" then set (-volumeDelta) false
        else if strcaseeq option (ascii "mute") then
          .did .toggleMute :: volumeReply (remote.toggleMute remote.audio) 250
        else volumeReply remote.audio 501
    | .int32 volume => set volume true
    | _ => set (-1) true

/-! ### Which of them answer -/

theorem callPlugin_answered (remote : Remote) (plugins : LoadedPlugins) (params : Params) :
    Answered (callPlugin remote plugins params) := by
  unfold callPlugin
  split
  · split
    · split <;> simp
    · simp
  · simp

theorem enable_answered : Answered enable := by simp [enable]

theorem disable_answered : Answered disable := by simp [disable]

theorem status_answered (remote : Remote) : Answered (status remote) := by simp [status]

theorem hitKey_answered (remote : Remote) (params : Params) : Answered (hitKey remote params) := by
  unfold hitKey
  dsimp only
  split <;> simp

/-- Keys are only lost to a name that is unknown, and that is in the message then. -/
theorem hitKeysLoop_keys (keyFromString : Bytes → Option Nat) {keyNames : List Bytes} {s : Keys}
    (hkeys : (hitKeysLoop keyFromString keyNames s).keys = []) :
    (keyNames = [] ∧ s.keys = []) ∨
      (hitKeysLoop keyFromString keyNames s).replyMessage ≠ none := by
  induction keyNames generalizing s with
  | nil => exact .inl ⟨rfl, hkeys⟩
  | cons keyName keyNames ih =>
      unfold hitKeysLoop at hkeys ⊢
      cases hkey : keyFromString keyName with
      | none => simp
      | some k =>
          simp only [hkey] at hkeys ⊢
          rcases ih hkeys with ⟨-, happend⟩ | hmessage
          · simp at happend
          · exact .inr hmessage

theorem hitKeys_answered_iff (remote : Remote) (params : Params) :
    Answered (hitKeys remote params) ↔ params.strings 0 ≠ [] := by
  unfold hitKeys
  dsimp only
  by_cases hkeys : (hitKeysLoop remote.keyFromString (params.strings 0) {}).keys = []
  · rw [if_pos hkeys, answered_sendReply]
    rcases hitKeysLoop_keys _ hkeys with ⟨hnil, -⟩ | hmessage
    · simp [hnil, hitKeysLoop]
    · refine iff_of_true hmessage fun hnil => hmessage ?_
      rw [hnil, hitKeysLoop]
  · rw [if_neg hkeys, answered_did_append, answered_sendReply]
    refine iff_of_true (by simp) fun hnil => hkeys ?_
    rw [hnil, hitKeysLoop]

/-! ### All keys or none -/

/-- The keys of the `cRemote::Put` calls. -/
def puts (trace : Trace) : List Nat :=
  trace.filterMap fun
    | .did (.put k) => some k
    | _ => none

@[simp]
theorem puts_sendReply (code : Int) (message : Option Bytes) : puts (sendReply code message) = [] :=
  rfl

@[simp]
theorem puts_append (trace trace' : Trace) : puts (trace ++ trace') = puts trace ++ puts trace' :=
  List.filterMap_append ..

@[simp]
theorem puts_put (keys : List Nat) :
    puts ((keys.map VdrCall.put).map .did) = keys := by
  simp [puts, List.filterMap_map, Function.comp_def]

section HitKeys

variable {keyFromString : Bytes → Option Nat}

theorem hitKeysLoop_known {front : List Bytes} {keys : List Nat}
    (hfront : front.map keyFromString = keys.map some) (rest : List Bytes) (s : Keys) :
    hitKeysLoop keyFromString (front ++ rest) s =
      hitKeysLoop keyFromString rest { s with keys := s.keys ++ keys } := by
  induction front generalizing keys s with
  | nil =>
      obtain rfl : keys = [] := by simpa using hfront.symm
      simp
  | cons keyName front ih =>
      cases keys with
      | nil => cases hfront
      | cons k keys =>
          obtain ⟨hkey, hrest⟩ := List.cons.inj hfront
          rw [List.cons_append, hitKeysLoop, hkey]
          dsimp only
          rw [ih hrest, List.append_assoc]
          rfl

/-- The first one that is not known takes back what has been collected. -/
theorem hitKeysLoop_unknown {front : List Bytes} {keyName : Bytes}
    (hfront : ∀ known ∈ front, keyFromString known ≠ none)
    (hkey : keyFromString keyName = none) (back : List Bytes) (s : Keys) :
    hitKeysLoop keyFromString (front ++ keyName :: back) s =
      { replyCode := 504, replyMessage := some (unknownKey keyName), keys := [] } := by
  induction front generalizing s with
  | nil => rw [List.nil_append, hitKeysLoop, hkey]
  | cons known front ih =>
      obtain ⟨k, hk⟩ := Option.ne_none_iff_exists'.mp (hfront known List.mem_cons_self)
      rw [List.cons_append, hitKeysLoop, hk]
      exact ih (fun n hn => hfront n (List.mem_cons_of_mem known hn)) _

theorem exists_first_unknown {keyNames : List Bytes} (h : none ∈ keyNames.map keyFromString) :
    ∃ front keyName back, keyNames = front ++ keyName :: back ∧
      (∀ known ∈ front, keyFromString known ≠ none) ∧ keyFromString keyName = none := by
  obtain ⟨keyName, hmem, hkey⟩ := List.mem_map.mp h
  have hfound : (keyNames.find? fun n => (keyFromString n).isNone).isSome :=
    List.find?_isSome.mpr ⟨keyName, hmem, by simp [hkey]⟩
  obtain ⟨first, hfirst⟩ := Option.isSome_iff_exists.mp hfound
  obtain ⟨hunknown, front, back, hsplit, hfront⟩ := List.find?_eq_some_iff_append.mp hfirst
  refine ⟨front, first, back, hsplit, fun known hmem hnone => ?_, by simpa using hunknown⟩
  simpa [hnone] using hfront known hmem

end HitKeys

theorem hitKeys_of_known {remote : Remote} {params : Params} {keys : List Nat}
    (hkeys : (params.strings 0).map remote.keyFromString = keys.map some) (hne : keys ≠ []) :
    hitKeys remote params = (keys.map VdrCall.put).map .did ++
      sendReply 250 (some (ascii "Key" ++ (if 1 < keys.length then ascii "s" else []) ++
        ascii " accepted")) := by
  have hloop := hitKeysLoop_known hkeys [] {}
  rw [List.append_nil, hitKeysLoop] at hloop
  simp [hitKeys, hloop, hne]

theorem hitKeys_of_unknown {remote : Remote} {params : Params} {front back : List Bytes}
    {keyName : Bytes} (hnames : params.strings 0 = front ++ keyName :: back)
    (hfront : ∀ known ∈ front, remote.keyFromString known ≠ none)
    (hkey : remote.keyFromString keyName = none) :
    hitKeys remote params = sendReply 504 (some (unknownKey keyName)) := by
  simp only [hitKeys, hnames, hitKeysLoop_unknown hfront hkey back {}, if_true]

/-- **All or nothing.** The keys of the whole list are put, each once and in order, when there are
some and all are known; otherwise none is put, and the reply names the first that is unknown. -/
theorem hitKeys_all_or_none (remote : Remote) (params : Params) :
    (∀ keys, keys ≠ [] → (params.strings 0).map remote.keyFromString = keys.map some →
      puts (hitKeys remote params) = keys ∧
        ∃ message, Answer.replies (hitKeys remote params) =
          [.value [.int 250, .string (some message)]]) ∧
    (params.strings 0 = [] ∨ none ∈ (params.strings 0).map remote.keyFromString →
      puts (hitKeys remote params) = []) ∧
    ∀ front keyName back, params.strings 0 = front ++ keyName :: back →
      (∀ known ∈ front, remote.keyFromString known ≠ none) →
      remote.keyFromString keyName = none →
        hitKeys remote params = sendReply 504 (some (unknownKey keyName)) ∧
          keyName <:+: unknownKey keyName := by
  refine ⟨fun keys hne hkeys => ?_, ?_, fun front keyName back hnames hfront hkey =>
    ⟨hitKeys_of_unknown hnames hfront hkey, ⟨_, _, rfl⟩⟩⟩
  · rw [hitKeys_of_known hkeys hne]
    constructor
    · rw [puts_append, puts_put, puts_sendReply, List.append_nil]
    · rw [Answer.replies_did_append]
      exact ⟨_, rfl⟩
  · rintro (hnil | hunknown)
    · simp [hitKeys, hnil, hitKeysLoop]
    · obtain ⟨front, keyName, back, hnames, hfront, hkey⟩ := exists_first_unknown hunknown
      rw [hitKeys_of_unknown hnames hfront hkey, puts_sendReply]

/-- A remote control with two keys. -/
def twoKeys : Remote where
  enabled := true
  keyFromString := fun name =>
    if name = ascii "Up" then some 0 else if name = ascii "Ok" then some 4 else none
  callPending := false
  menuOpen := false
  currentChannel := 1
  switchTo := fun channel => some channel.number
  switchBy := fun d => 1 + d
  audio := ⟨255, false⟩
  setVolume := fun audio volume _ => { audio with volume }
  toggleMute := fun audio => { audio with mute := !audio.mute }

theorem hitKeys_all_or_none_twoKeys :
    puts (hitKeys twoKeys [.strings [ascii "Up", ascii "Ok"]]) = [0, 4] ∧
      puts (hitKeys twoKeys [.strings [ascii "Up", ascii "Enter"]]) = [] :=
  ⟨((hitKeys_all_or_none twoKeys [.strings [ascii "Up", ascii "Ok"]]).1 [0, 4] (by decide)
    (by decide)).1,
    (hitKeys_all_or_none twoKeys [.strings [ascii "Up", ascii "Enter"]]).2.1 (by decide)⟩

theorem askUser_answered (remote : Remote) (params : Params) :
    Answered (askUser remote params) := by
  unfold askUser
  dsimp only
  split_ifs <;> simp

theorem switched_answered (channels : Channels) (currentChannel : Int) :
    Answered (switched channels currentChannel) := by
  unfold switched
  split <;> simp

/-- A channel that `SwitchChannel` has found and hands to the primary device. -/
def SwitchesDevice (remote : Remote) (channels : Channels) (option : Bytes) : Prop :=
  option ≠ [] ∧ (switchTarget remote channels option).2 = 0 ∧
    0 ≤ (switchTarget remote channels option).1 ∧
    channels.getByNumber (switchTarget remote channels option).1 ≠ none

theorem switchChannel_answered_iff (remote : Remote) (channels : Channels) (devices : Devices)
    (params : Params) :
    Answered (switchChannel remote channels devices params) ↔
      ¬ (SwitchesDevice remote channels ((params.string 0).getD []) ∧
        devices.primaryDevice = none) := by
  unfold switchChannel SwitchesDevice
  dsimp only
  generalize (params.string 0).getD [] = option
  by_cases hoption : option = []
  · simp [hoption, switched_answered]
  · rw [if_neg hoption]
    by_cases hn : (switchTarget remote channels option).1 < 0
    · simp [hn, not_le.mpr hn]
    · rw [if_neg hn]
      by_cases hd : (switchTarget remote channels option).2 = 0
      · rw [if_pos hd]
        cases hchannel : channels.getByNumber (switchTarget remote channels option).1 with
        | none => simp
        | some channel =>
            cases hdevice : devices.primaryDevice with
            | none => simp [hoption, hd, not_lt.mp hn]
            | some device =>
                cases hswitch : remote.switchTo channel <;> simp [hswitch, switched_answered]
      · simp [hd, switched_answered]

theorem onPrimaryDevice_answered_iff {devices : Devices} {trace : Trace} (htrace : Answered trace) :
    Answered (onPrimaryDevice devices trace) ↔ devices.primaryDevice ≠ none := by
  unfold onPrimaryDevice
  cases devices.primaryDevice with
  | none => simp
  | some device => simpa using htrace

theorem getVolume_answered_iff (remote : Remote) (devices : Devices) :
    Answered (getVolume remote devices) ↔ devices.primaryDevice ≠ none :=
  onPrimaryDevice_answered_iff (by simp)

theorem volumeReply_answered (audio : Audio) (replyCode : Int) :
    Answered (volumeReply audio replyCode) := by simp [volumeReply]

theorem setVolume_answered_iff (remote : Remote) (devices : Devices) (params : Params) :
    Answered (setVolume remote devices params) ↔ devices.primaryDevice ≠ none := by
  refine onPrimaryDevice_answered_iff ?_
  split
  · split_ifs <;> simp [volumeReply_answered]
  · simp [volumeReply_answered]
  · simp [volumeReply_answered]

end RemoteHelper

end Dbus2vdr
