import Dbus2vdr.Objects.Epg
import Dbus2vdr.Objects.Remote

/-!
# Channels given by their number

Four methods take an option of digits for the number of a channel, and store it in an `int`. A
number that does not fit becomes another one, which may be the number of a channel, and only
`ClearEPG` takes the channel for granted when the number is not above the highest one:
`meansChannel_iff`.
-/

namespace Dbus2vdr.ChannelNumbers

variable {channels : Channels} {option : Bytes}

/-! ### What is promised -/

/-- `SwitchChannel` for a channel it has found. -/
def switchOn (remote : Remote) (channels : Channels) (devices : Devices) (channel : Channel) :
    Trace :=
  match devices.primaryDevice with
  | some _ =>
      match remote.switchTo channel with
      | some currentChannel =>
          .did (.switchTo channel.number) :: RemoteHelper.switched channels currentChannel
      | none =>
          .did (.switchTo channel.number) ::
            sendReply 554 (some (ascii "Error switching to channel \"" ++ decimal channel.number ++
              ascii "\""))
  | none => [.crash]

/-- `ClearEPG` for a channel it has found. -/
def clearOn (epg : Epg) (option : Bytes) (timeout : Int) (channel : Channel) : Trace :=
  match epg.schedulesWrite with
  | none => sendReply 451 (some (ascii "Can't get EPG data"))
  | some schedules =>
      match schedules.find? fun p => p.channelID = epg.clrRid channel.channelID with
      | some schedule =>
          .did (.cleanupSchedule schedule.channelID) ::
            .did (.setDisableUntil (epg.now + if 0 < timeout then timeout else 10)) ::
            sendReply 250 (some (ascii "EPG data of channel \"" ++ option ++ ascii "\" cleared"))
      | none =>
          sendReply 550 (some (ascii "No EPG data found for channel \"" ++ option ++ ascii "\""))

/-- `Now`, `Next` and `At` for a channel they have found. -/
def entriesOn (epg : Epg) (mode : EpgHelper.Mode) (atTime : Nat) (channel : Channel) : Trace :=
  if mode = .atTime ∧ atTime = 0 then EpgHelper.returnError 501 (ascii "missing time")
  else
    match epg.schedulesRead with
    | none => EpgHelper.returnError 550 (ascii "got no schedules")
    | some schedules =>
        let events := [channel].filterMap fun c =>
          (schedules.find? fun s => s.channelID = c.channelID).bind
            (EpgHelper.scheduleEvent mode atTime)
        [.reply (.value [.int 250, .string (some []),
          .array (events.map (EpgHelper.addEvent epg))])]

/-- The method acts on the channel with the number, or says that there is none. -/
def Meant (channels : Channels) (number : Int) (acts : Channel → Trace) (undefined : List Trace)
    (trace : Trace) : Prop :=
  match channels.getByNumber number with
  | some channel => trace = acts channel
  | none => trace ∈ undefined

structure MeansChannel (remote : Remote) (channels : Channels) (devices : Devices) (epg : Epg)
    (option : Bytes) : Prop where
  switchChannel : ∀ params : Params, params.string 0 = some option →
    Meant channels (digitsValue option) (switchOn remote channels devices)
      [sendReply 501 (some (ascii "Undefined channel \"" ++ option ++ ascii "\"")),
        sendReply 550 (some (ascii "Unable to find channel \"" ++ option ++ ascii "\""))]
      (RemoteHelper.switchChannel remote channels devices params)
  list : ∀ params : Params, params.string 0 = some option →
    Meant channels (digitsValue option)
      (fun channel => ChannelsHelper.listReply channels [channel] 250 [])
      [ChannelsHelper.listReply channels [] 501 (ChannelsHelper.notDefined option)]
      (ChannelsHelper.list channels params)
  clearEPG : ∀ params : Params, params.string 0 = some option →
    Meant channels (digitsValue option) (clearOn epg option (params.int32 1 0))
      [sendReply 501 (some (ascii "Undefined channel \"" ++ option ++ ascii "\""))]
      (EpgHelper.clearEPG epg channels params)
  entries : ∀ (mode : EpgHelper.Mode) (params : Params), params.string 0 = some option →
    Meant channels (digitsValue option) (entriesOn epg mode (params.uint64 1 0))
      [EpgHelper.returnError 501 (ascii "channel \"" ++ option ++ ascii "\" not defined")]
      (EpgHelper.getEntries epg channels mode params)

/-- What is left of a number that is none of an `int` is not the number of a channel, and the number
is not in a gap. -/
structure Denotes (channels : Channels) (option : Bytes) : Prop where
  noGap : ¬ EpgHelper.InGap channels option
  fits : intMax < digitsValue option → channels.getByNumber (atoi option) = none

/-! ### The channels with a number -/

theorem getByNumber_bounds (hnumbered : channels.Numbered) {n : Int} {channel : Channel}
    (hfound : channels.getByNumber n = some channel) : 1 ≤ n ∧ n ≤ channels.maxNumber := by
  have hmem := List.mem_of_find?_eq_some hfound
  have hmatch := List.find?_some hfound
  simp only [Bool.and_eq_true, Bool.not_eq_true', decide_eq_true_eq] at hmatch
  obtain ⟨hseparator, rfl⟩ := hmatch
  exact ⟨hnumbered.positive channel hmem hseparator, hnumbered.bounded channel hmem hseparator⟩

theorem getByNumber_eq_none (hnumbered : channels.Numbered) {n : Int}
    (hout : ¬ (1 ≤ n ∧ n ≤ channels.maxNumber)) : channels.getByNumber n = none := by
  cases hfound : channels.getByNumber n with
  | none => rfl
  | some channel => exact absurd (getByNumber_bounds hnumbered hfound) hout

/-- With the numbers of VDR both numbers mean the same channel. -/
theorem Denotes.same (h : Denotes channels option) (hnumbered : channels.Numbered) :
    channels.getByNumber (atoi option) = channels.getByNumber (digitsValue option) := by
  by_cases hfits : digitsValue option ≤ intMax
  · rw [atoi_of_le hfits]
  · have hout := getByNumber_eq_none hnumbered (n := digitsValue option) fun hbounds =>
      hfits (hbounds.2.trans hnumbered.int)
    rw [h.fits (by omega), hout]

/-! ### The methods with a number -/

section Methods

variable {params : Params}

theorem ne_of_isnumber (hnumber : isnumber option) : option ≠ [] := by
  rintro rfl
  cases hnumber

theorem switchChannel_of_isnumber (hnumber : isnumber option)
    (hparams : params.string 0 = some option) (remote : Remote) (channels : Channels)
    (devices : Devices) :
    RemoteHelper.switchChannel remote channels devices params =
      if 1 ≤ atoi option ∧ atoi option ≤ channels.maxNumber then
        match channels.getByNumber (atoi option) with
        | some channel => switchOn remote channels devices channel
        | none =>
            sendReply 550 (some (ascii "Unable to find channel \"" ++ option ++ ascii "\""))
      else sendReply 501 (some (ascii "Undefined channel \"" ++ option ++ ascii "\"")) := by
  have htarget : RemoteHelper.switchTarget remote channels option =
      (if 1 ≤ atoi option ∧ atoi option ≤ channels.maxNumber then atoi option else -1, 0) :=
    if_pos hnumber
  unfold RemoteHelper.switchChannel
  dsimp only
  rw [hparams, Option.getD_some, if_neg (ne_of_isnumber hnumber), htarget]
  dsimp only
  by_cases hbounds : 1 ≤ atoi option ∧ atoi option ≤ channels.maxNumber
  · have hneg : ¬ atoi option < 0 := by omega
    rw [if_pos hbounds, if_neg hneg, if_pos rfl, if_pos hbounds]
    cases channels.getByNumber (atoi option) with
    | none => rfl
    | some channel => rfl
  · rw [if_neg hbounds, if_pos (by decide), if_neg hbounds]

theorem list_of_isnumber (hnumber : isnumber option) (hparams : params.string 0 = some option)
    (channels : Channels) :
    ChannelsHelper.list channels params =
      match channels.getByNumber (atoi option) with
      | some channel => ChannelsHelper.listReply channels [channel] 250 []
      | none => ChannelsHelper.listReply channels [] 501 (ChannelsHelper.notDefined option) := by
  have hgroups : option ≠ ascii ":groups" := by
    rintro rfl
    exact absurd hnumber (by decide)
  unfold ChannelsHelper.list
  dsimp only
  rw [hparams, Option.getD_some, if_pos ⟨ne_of_isnumber hnumber, by simpa using hgroups⟩,
    if_pos hnumber]
  rfl

theorem clearEPG_of_isnumber (hnumber : isnumber option) (hparams : params.string 0 = some option)
    (epg : Epg) (channels : Channels) :
    EpgHelper.clearEPG epg channels params =
      if 1 ≤ atoi option ∧ atoi option ≤ channels.maxNumber then
        match channels.getByNumber (atoi option) with
        | some channel => clearOn epg option (params.int32 1 0) channel
        | none => [.crash]
      else sendReply 501 (some (ascii "Undefined channel \"" ++ option ++ ascii "\"")) := by
  have htarget : EpgHelper.clearChannel channels option =
      if 1 ≤ atoi option ∧ atoi option ≤ channels.maxNumber then
        match channels.getByNumber (atoi option) with
        | some channel => .id (some channel.channelID)
        | none => .null
      else .id none :=
    if_pos hnumber
  unfold EpgHelper.clearEPG
  dsimp only
  rw [hparams]
  dsimp only
  rw [htarget]
  by_cases hbounds : 1 ≤ atoi option ∧ atoi option ≤ channels.maxNumber
  · rw [if_pos hbounds, if_pos hbounds]
    cases channels.getByNumber (atoi option) with
    | none => rfl
    | some channel => rfl
  · rw [if_neg hbounds, if_neg hbounds]

theorem getEntries_of_isnumber (hnumber : isnumber option) (hparams : params.string 0 = some option)
    (epg : Epg) (channels : Channels) (mode : EpgHelper.Mode) :
    EpgHelper.getEntries epg channels mode params =
      match channels.getByNumber (atoi option) with
      | some channel => entriesOn epg mode (params.uint64 1 0) channel
      | none =>
          EpgHelper.returnError 501 (ascii "channel \"" ++ option ++ ascii "\" not defined") := by
  unfold EpgHelper.getEntries EpgHelper.getChannel atoi
  rw [hparams]
  dsimp only
  rw [if_neg (ne_of_isnumber hnumber), if_pos hnumber, Option.getD_some]
  cases channels.getByNumber (longToInt (strtol option)) with
  | none => rfl
  | some channel => rfl

end Methods

/-! ### Numbers that mean a channel -/

section Means

variable {remote : Remote} {devices : Devices} {epg : Epg}

theorem Denotes.outOfBounds (h : Denotes channels option) (hnumber : isnumber option)
    (hnone : channels.getByNumber (atoi option) = none) :
    ¬ (1 ≤ atoi option ∧ atoi option ≤ channels.maxNumber) :=
  fun hbounds => h.noGap ⟨hnumber, hbounds.1, hbounds.2, hnone⟩

theorem Denotes.inBounds (h : Denotes channels option) (hnumbered : channels.Numbered)
    (hnumber : isnumber option) :
    1 ≤ atoi option ∧ atoi option ≤ channels.maxNumber ↔
      ∃ channel, channels.getByNumber (atoi option) = some channel := by
  constructor
  · intro hbounds
    apply Option.ne_none_iff_exists'.mp
    exact fun hnone => h.outOfBounds hnumber hnone hbounds
  · rintro ⟨channel, hfound⟩
    exact getByNumber_bounds hnumbered hfound

theorem Denotes.meansChannel (h : Denotes channels option) (hnumbered : channels.Numbered)
    (hnumber : isnumber option) : MeansChannel remote channels devices epg option where
  switchChannel params hparams := by
    rw [switchChannel_of_isnumber hnumber hparams, Meant, ← h.same hnumbered]
    cases hfound : channels.getByNumber (atoi option) with
    | some channel => rw [if_pos ((h.inBounds hnumbered hnumber).mpr ⟨channel, hfound⟩)]
    | none =>
        rw [if_neg (h.outOfBounds hnumber hfound)]
        exact List.mem_cons_self
  list params hparams := by
    rw [list_of_isnumber hnumber hparams, Meant, ← h.same hnumbered]
    cases channels.getByNumber (atoi option) with
    | some channel => rfl
    | none => exact List.mem_singleton_self _
  clearEPG params hparams := by
    rw [clearEPG_of_isnumber hnumber hparams, Meant, ← h.same hnumbered]
    cases hfound : channels.getByNumber (atoi option) with
    | some channel => rw [if_pos ((h.inBounds hnumbered hnumber).mpr ⟨channel, hfound⟩)]
    | none =>
        rw [if_neg (h.outOfBounds hnumber hfound)]
        exact List.mem_singleton_self _
  entries mode params hparams := by
    rw [getEntries_of_isnumber hnumber hparams, Meant, ← h.same hnumbered]
    cases channels.getByNumber (atoi option) with
    | some channel => rfl
    | none => exact List.mem_singleton_self _

theorem MeansChannel.denotes (h : MeansChannel remote channels devices epg option)
    (hnumbered : channels.Numbered) (hnumber : isnumber option) : Denotes channels option where
  noGap := by
    rintro ⟨-, hlow, hhigh, hnone⟩
    rw [← atoi] at hlow hhigh hnone
    have hclear := h.clearEPG [.string option] rfl
    rw [clearEPG_of_isnumber hnumber rfl, if_pos ⟨hlow, hhigh⟩, hnone, Meant] at hclear
    cases hmeant : channels.getByNumber (digitsValue option) with
    | none =>
        rw [hmeant] at hclear
        cases List.mem_singleton.mp hclear
    | some channel =>
        have hle := (getByNumber_bounds hnumbered hmeant).2.trans hnumbered.int
        rw [atoi_of_le hle, hmeant] at hnone
        cases hnone
  fits := by
    intro hlarge
    have hout := getByNumber_eq_none hnumbered (n := digitsValue option) fun hbounds => by
      have := hnumbered.int
      omega
    have hlist := h.list [.string option] rfl
    rw [list_of_isnumber hnumber rfl, Meant, hout] at hlist
    cases hfound : channels.getByNumber (atoi option) with
    | none => rfl
    | some channel =>
        rw [hfound] at hlist
        cases List.mem_singleton.mp hlist

/-- The methods mean the channel with the number, unless it is one in a gap or one whose lower 32
bits are the number of a channel. -/
theorem meansChannel_iff (hnumbered : channels.Numbered) (hnumber : isnumber option) :
    MeansChannel remote channels devices epg option ↔ Denotes channels option :=
  ⟨fun h => h.denotes hnumbered hnumber, fun h => h.meansChannel hnumbered hnumber⟩

end Means

/-- Channels 1 and 3. -/
def gap : Channels where
  list := [⟨1, false, ascii "Das Erste", ascii "S-1-1-1", ascii "Das Erste:1\n"⟩,
    ⟨3, false, ascii "Arte", ascii "S-1-1-3", ascii "Arte:3\n"⟩]
  maxNumber := 3
  fromString := fun _ => none
  toUtf8 := id

def noDevices : Devices := ⟨none, [], 0, id⟩

theorem numbered_gap : gap.Numbered := ⟨by decide, by decide, by decide⟩

theorem meansChannel_iff_gap :
    MeansChannel RemoteHelper.twoKeys gap noDevices EpgHelper.readable (ascii "3") := by
  refine (meansChannel_iff numbered_gap (by decide)).mpr ⟨?_, fun hlarge =>
    absurd hlarge (by decide)⟩
  rintro ⟨-, -, -, hnone⟩
  exact absurd hnone (by decide)

theorem not_meansChannel_gap :
    ¬ MeansChannel RemoteHelper.twoKeys gap noDevices EpgHelper.readable (ascii "2") ∧
      EpgHelper.clearEPG EpgHelper.readable gap [.string (ascii "2")] = [.crash] ∧
      ¬ MeansChannel RemoteHelper.twoKeys gap noDevices EpgHelper.readable (ascii "4294967297") ∧
      ChannelsHelper.list gap [.string (ascii "4294967297")] =
        ChannelsHelper.listReply gap
          [⟨1, false, ascii "Das Erste", ascii "S-1-1-1", ascii "Das Erste:1\n"⟩] 250 [] := by
  refine ⟨fun h => ?_, ?_, fun h => ?_, ?_⟩
  · exact (h.denotes numbered_gap (by decide)).noGap ⟨by decide, by decide, by decide, by
      decide⟩
  · have hnumber : isnumber (ascii "2") := by decide
    exact clearEPG_of_isnumber hnumber rfl _ _
  · exact absurd ((h.denotes numbered_gap (by decide)).fits (by decide)) (by decide)
  · have hnumber : isnumber (ascii "4294967297") := by decide
    exact list_of_isnumber hnumber rfl _

end Dbus2vdr.ChannelNumbers
