import Dbus2vdr.Objects.Message

/-!
# Channels and devices

The methods of `/Channels` and `/Devices`, and the lists of VDR they read. `toUtf8` is what
`cDBusHelper::ToUtf8` makes of a text in the character table VDR runs with.
-/

namespace Dbus2vdr

structure Channel where
  number : Int
  groupSep : Bool
  name : Bytes
  channelID : Bytes
  toText : Bytes

structure Channels where
  list : List Channel
  maxNumber : Int
  /-- `tChannelID::FromString`, without a value for the invalid id. -/
  fromString : Bytes → Option Bytes
  toUtf8 : Bytes → Bytes

namespace Channels

def getByNumber (channels : Channels) (number : Int) : Option Channel :=
  channels.list.find? fun c => !c.groupSep && c.number = number

def getByChannelID (channels : Channels) (channelID : Option Bytes) : Option Channel :=
  channels.list.find? fun c => !c.groupSep && some c.channelID = channelID

/-- The first channel with the name. -/
def getByName (channels : Channels) (name : Bytes) : Option Channel :=
  channels.list.find? fun c => !c.groupSep && strcaseeq c.name name

/-- The numbers as VDR gives them: `int`s from 1 on, and `maxNumber` is the greatest. -/
structure Numbered (channels : Channels) : Prop where
  positive : ∀ c ∈ channels.list, c.groupSep = false → 1 ≤ c.number
  bounded : ∀ c ∈ channels.list, c.groupSep = false → c.number ≤ channels.maxNumber
  int : channels.maxNumber ≤ intMax

end Channels

namespace ChannelsHelper

/-- `ToText` without its line end. -/
def channelText (channels : Channels) (channel : Channel) : Bytes :=
  channels.toUtf8 (if channel.toText.getLast? = some 10 then truncateLast channel.toText
    else channel.toText)

def addChannel (channels : Channels) (channel : Channel) : Value :=
  .tuple [.int (if channel.groupSep then 0 else channel.number),
    .string (some (channelText channels channel))]

def count (channels : Channels) : Trace := [.reply (.value [.int channels.list.length])]

def current (channels : Channels) (number : Int) : Trace :=
  [.reply (.value [.int number,
    .string (some (((channels.getByNumber number).map (channelText channels)).getD []))])]

def getFromToLoop (fromIndex : Int) : List Channel → Int → List Channel
  | [], _ => []
  | c :: cs, toIndex =>
      if fromIndex ≤ toIndex then c :: getFromToLoop fromIndex cs (toIndex - 1) else []

def getFromTo (channels : Channels) (params : Params) : Trace :=
  let fromIndex := params.int32 0 (-1)
  let toIndex := max fromIndex (params.int32 1 (-1))
  let first := if fromIndex < 0 then [] else channels.list.drop fromIndex.toNat
  [.reply (.value [.array ((getFromToLoop fromIndex first toIndex).map (addChannel channels))])]

/-- The loop over the names: a channel is added when the next one is found. -/
def listLoop (option : Bytes) : List Channel → Option Channel → List Channel × Option Channel
  | [], next => ([], next)
  | c :: cs, next =>
      if !c.groupSep && strcasestr c.name option then
        let (array, last) := listLoop option cs (some c)
        (next.toList ++ array, last)
      else listLoop option cs next

def notDefined (option : Bytes) : Bytes :=
  ascii "Channel \"" ++ option ++ ascii "\" not defined"

def listReply (channels : Channels) (array : List Channel) (replyCode : Int)
    (replyMessage : Bytes) :
    Trace :=
  [.reply (.value [.array (array.map (addChannel channels)), .int replyCode,
    .string (some replyMessage)])]

def list (channels : Channels) (params : Params) : Trace :=
  let option := (params.string 0).getD []
  let withGroupSeps := params.string 0 = some (ascii ":groups")
  if option ≠ [] ∧ ¬ withGroupSeps then
    if isnumber option then
      match channels.getByNumber (longToInt (strtol option)) with
      | some channel => listReply channels [channel] 250 []
      | none => listReply channels [] 501 (notDefined option)
    else
      let (array, next) :=
        match channels.getByChannelID (channels.fromString option) with
        | some next => ([], some next)
        | none => listLoop option channels.list none
      match next with
      | some next => listReply channels (array ++ [next]) 250 []
      | none => listReply channels array 501 (notDefined option)
  else if 1 ≤ channels.maxNumber then
    listReply channels (channels.list.filter fun c => withGroupSeps || !c.groupSep) 250 []
  else listReply channels [] 550 (ascii "No channels defined")

/-! ### What `List` selects -/

section List

variable {channels : Channels} {params : Params} {option : Bytes}

def Named (option : Bytes) (c : Channel) : Prop :=
  c.groupSep = false ∧ option.map tolower <:+: c.name.map tolower

instance decidableNamed (option : Bytes) : DecidablePred (Named option) := fun c =>
  inferInstanceAs (Decidable (c.groupSep = false ∧ option.map tolower <:+: c.name.map tolower))

/-- No channel is lost between the array and the one that is held back. -/
theorem listLoop_spec (option : Bytes) (cs : List Channel) (next : Option Channel) :
    (listLoop option cs next).1 ++ (listLoop option cs next).2.toList =
      next.toList ++ cs.filter (Named option) := by
  induction cs generalizing next with
  | nil => simp [listLoop]
  | cons c cs ih =>
      have hnamed : (!c.groupSep && strcasestr c.name option) = true ↔ Named option c := by
        rw [Bool.and_eq_true, Bool.not_eq_true', strcasestr_iff]
        rfl
      unfold listLoop
      by_cases hc : Named option c
      · rw [if_pos (hnamed.mpr hc), List.filter_cons_of_pos (by simpa using hc)]
        dsimp only
        rw [List.append_assoc, ih]
        rfl
      · rw [if_neg (mt hnamed.mp hc), List.filter_cons_of_neg (by simpa using hc)]
        exact ih next

theorem listLoop_of_none {cs : List Channel} {next : Option Channel}
    (h : (listLoop option cs next).2 = none) :
    (listLoop option cs next).1 = [] ∧ next = none := by
  induction cs generalizing next with
  | nil => exact ⟨rfl, h⟩
  | cons c cs ih =>
      unfold listLoop at h ⊢
      split_ifs at h ⊢ with hc
      · cases (ih h).2
      · exact ih h

/-- The reply to an option that is looked for, with the channels it has selected. -/
theorem list_search (hparams : params.string 0 = some option) (hne : option ≠ [])
    (hgroups : option ≠ ascii ":groups") (hnumber : ¬ isnumber option)
    (selected : List Channel)
    (hselected : match channels.getByChannelID (channels.fromString option) with
      | some c => selected = [c]
      | none => selected = channels.list.filter (Named option)) :
    list channels params =
      if selected = [] then listReply channels [] 501 (notDefined option)
      else listReply channels selected 250 [] := by
  have hgiven : option ≠ [] ∧ ¬ params.string 0 = some (ascii ":groups") :=
    ⟨hne, by simpa [hparams] using hgroups⟩
  unfold list
  dsimp only
  rw [hparams, Option.getD_some, if_pos (hparams ▸ hgiven), if_neg hnumber]
  cases hid : channels.getByChannelID (channels.fromString option) with
  | some c =>
      rw [hid] at hselected
      rw [hselected]
      rfl
  | none =>
      rw [hid] at hselected
      have hloop := listLoop_spec option channels.list none
      rw [Option.toList_none, List.nil_append, ← hselected] at hloop
      dsimp only
      cases hnext : (listLoop option channels.list none).2 with
      | some next =>
          rw [hnext, Option.toList_some] at hloop
          rw [if_neg (by simp [← hloop]), ← hloop]
      | none =>
          have harray := (listLoop_of_none hnext).1
          rw [hnext, harray, Option.toList_none, List.append_nil] at hloop
          rw [if_pos hloop.symm, harray]

/-- The empty option and `:groups`. -/
theorem list_all (hoption : option = [] ∨ option = ascii ":groups")
    (hparams : params.string 0 = some option) (hdefined : 1 ≤ channels.maxNumber) :
    list channels params =
      listReply channels
        (channels.list.filter fun c => decide (option = ascii ":groups") || !c.groupSep)
        250 [] := by
  unfold list
  dsimp only
  rw [hparams, Option.getD_some, if_neg, if_pos hdefined]
  · simp
  · rintro ⟨hne, hgroups⟩
    exact hoption.elim hne fun h => hgroups (congrArg some h)

/-- The call gets one reply, the array of numbers and texts, a code and a message. -/
def RepliesWith (trace : Trace) (entries : List (Int × Bytes)) (code : Int) (message : Bytes) :
    Prop :=
  trace = [.reply (.value [.array (entries.map fun e => .tuple [.int e.1, .string (some e.2)]),
    .int code, .string (some message)])]

theorem repliesWith_listReply (channels : Channels) (array : List Channel) (code : Int)
    (message : Bytes) :
    RepliesWith (listReply channels array code message)
      (array.map fun c => (if c.groupSep then 0 else c.number, channelText channels c)) code
      message := by
  simp [RepliesWith, listReply, addChannel, Function.comp_def]

/-- Only separators have no number of their own. -/
theorem repliesWith_numbers {array : List Channel} (harray : ∀ c ∈ array, c.groupSep = false)
    (code : Int) (message : Bytes) :
    RepliesWith (listReply channels array code message)
      (array.map fun c => (c.number, channelText channels c)) code message := by
  have hentries : (array.map fun c => (c.number, channelText channels c)) =
      array.map fun c => (if c.groupSep then 0 else c.number, channelText channels c) :=
    List.map_congr_left fun c hc => by simp [harray c hc]
  rw [hentries]
  exact repliesWith_listReply channels array code message

/-- **The channels of `List`.** The channel with the id, or else all with the text in their name, in
order, and 501 with an empty array if there is none; without an option all channels, and all entries
for `:groups`. -/
theorem list_selects (hnumbered : channels.Numbered) (hparams : params.string 0 = some option) :
    (option ≠ [] → option ≠ ascii ":groups" → ¬ isnumber option →
      (∀ c, channels.getByChannelID (channels.fromString option) = some c →
        RepliesWith (list channels params) [(c.number, channelText channels c)] 250 []) ∧
      (channels.getByChannelID (channels.fromString option) = none →
        (channels.list.filter (Named option) = [] →
          RepliesWith (list channels params) [] 501
            (ascii "Channel \"" ++ option ++ ascii "\" not defined")) ∧
        (channels.list.filter (Named option) ≠ [] →
          RepliesWith (list channels params)
            ((channels.list.filter (Named option)).map fun c => (c.number, channelText channels c))
            250 []))) ∧
    ((∃ c ∈ channels.list, c.groupSep = false) →
      (option = [] → RepliesWith (list channels params)
        ((channels.list.filter (·.groupSep = false)).map fun c =>
          (c.number, channelText channels c)) 250 []) ∧
      (option = ascii ":groups" → RepliesWith (list channels params)
        (channels.list.map fun c =>
          (if c.groupSep then 0 else c.number, channelText channels c)) 250 [])) := by
  constructor
  · intro hne hgroups hnumber
    refine ⟨fun c hid => ?_, fun hid => ?_⟩
    · have hreply := list_search hparams hne hgroups hnumber [c] (by rw [hid])
      rw [hreply, if_neg (List.cons_ne_nil c [])]
      have hown := List.find?_some hid
      simp only [Bool.and_eq_true, Bool.not_eq_true'] at hown
      have hnumbered : ∀ c' ∈ [c], c'.groupSep = false := fun c' hc' => by
        rw [List.mem_singleton.mp hc']
        exact hown.1
      exact repliesWith_numbers hnumbered 250 []
    · have hreply := list_search hparams hne hgroups hnumber
        (channels.list.filter (Named option)) (by rw [hid])
      refine ⟨fun hnone => ?_, fun hsome => ?_⟩
      · rw [hreply, if_pos hnone]
        exact repliesWith_listReply channels [] 501 _
      · rw [hreply, if_neg hsome]
        refine repliesWith_numbers (fun c hc => ?_) 250 []
        exact (of_decide_eq_true (List.mem_filter.mp hc).2).1
  · rintro ⟨c, hc, hseparator⟩
    have hdefined : 1 ≤ channels.maxNumber :=
      (hnumbered.positive c hc hseparator).trans (hnumbered.bounded c hc hseparator)
    constructor
    · rintro rfl
      have hplain : (channels.list.filter fun c => decide ([] = ascii ":groups") || !c.groupSep) =
          channels.list.filter (·.groupSep = false) := by
        refine List.filter_congr fun c _ => ?_
        cases c.groupSep <;> decide
      rw [list_all (.inl rfl) hparams hdefined, hplain]
      refine repliesWith_numbers (fun c hc => ?_) 250 []
      exact of_decide_eq_true (List.mem_filter.mp hc).2
    · rintro rfl
      rw [list_all (.inr rfl) hparams hdefined, List.filter_eq_self.mpr fun c _ => by simp]
      exact repliesWith_listReply channels channels.list 250 []

end List

/-- Three channels behind a separator. -/
def three : Channels where
  list := [⟨0, true, ascii "News", [], ascii ":News\n"⟩,
    ⟨1, false, ascii "Das Erste", ascii "S-1-1-1", ascii "Das Erste:1\n"⟩,
    ⟨2, false, ascii "ZDF", ascii "S-1-1-2", ascii "ZDF:2\n"⟩,
    ⟨3, false, ascii "Erste Plus", ascii "S-1-1-3", ascii "Erste Plus:3\n"⟩]
  maxNumber := 3
  fromString := fun s => if s = ascii "S-1-1-2" then some s else none
  toUtf8 := id

theorem numbered_three : three.Numbered := ⟨by decide, by decide, by decide⟩

theorem list_selects_three :
    RepliesWith (list three [.string (ascii "S-1-1-2")]) [(2, ascii "ZDF:2")] 250 [] ∧
      RepliesWith (list three [.string (ascii ":groups")])
        [(0, ascii ":News"), (1, ascii "Das Erste:1"), (2, ascii "ZDF:2"),
          (3, ascii "Erste Plus:3")] 250 [] := by
  have hoption : Params.string [.string (ascii "S-1-1-2")] 0 = some (ascii "S-1-1-2") := rfl
  have hgroups : Params.string [.string (ascii ":groups")] 0 = some (ascii ":groups") := rfl
  have hid := (list_selects numbered_three hoption).1 (by decide) (by decide) (by decide)
  have hall := (list_selects numbered_three hgroups).2
    ⟨⟨2, false, ascii "ZDF", ascii "S-1-1-2", ascii "ZDF:2\n"⟩, by simp [three], rfl⟩
  exact ⟨hid.1 _ rfl, hall.2 rfl⟩

theorem count_answered (channels : Channels) : Answered (count channels) := by simp [count]

theorem current_answered (channels : Channels) (number : Int) :
    Answered (current channels number) := by simp [current]

@[simp]
theorem addChannel_complete (channels : Channels) (channel : Channel) :
    (addChannel channels channel).Complete := by simp [addChannel]

theorem getFromTo_answered (channels : Channels) (params : Params) :
    Answered (getFromTo channels params) := by simp [getFromTo]

theorem listReply_answered (channels : Channels) (array : List Channel) (replyCode : Int)
    (replyMessage : Bytes) : Answered (listReply channels array replyCode replyMessage) := by
  simp [listReply]

theorem list_answered (channels : Channels) (params : Params) :
    Answered (list channels params) := by
  simp only [list]
  split
  · split
    · split <;> exact listReply_answered ..
    · split <;> exact listReply_answered ..
  · split <;> exact listReply_answered ..

end ChannelsHelper

/-! ### Devices -/

structure Device where
  cardIndex : Int
  deviceNumber : Int
  hasDecoder : Bool
  isPrimaryDevice : Bool
  deviceName : Bytes

structure Devices where
  primaryDevice : Option Device
  /-- `GetDevice(i)` for every `i` below `NumDevices`. -/
  list : List (Option Device)
  nulldeviceIndex : Int
  toUtf8 : Bytes → Bytes

namespace DevicesHelper

def addDevice (devices : Devices) : Option Device → List Value
  | some device =>
      [.int device.cardIndex, .int device.deviceNumber, .boolean device.hasDecoder,
        .boolean device.isPrimaryDevice, .string (some (devices.toUtf8 device.deviceName))]
  | none => [.int (-1), .int (-1), .boolean false, .boolean false, .string (some [])]

def getPrimary (devices : Devices) : Trace :=
  [.reply (.value (addDevice devices devices.primaryDevice))]

def getNullDevice (devices : Devices) : Trace := [.reply (.value [.int devices.nulldeviceIndex])]

def requestPrimary (params : Params) : Trace :=
  [.did (.requestPrimaryDevice (params.int32 0 (-1))), .reply (.value [])]

def list (devices : Devices) : Trace :=
  [.reply (.value [.array ((devices.list.filter (·.isSome)).map fun device =>
    .tuple (addDevice devices device))])]

theorem addDevice_complete (devices : Devices) (device : Option Device) :
    ∀ v ∈ addDevice devices device, v.Complete := by
  cases device <;> simp [addDevice]

theorem getPrimary_answered (devices : Devices) : Answered (getPrimary devices) :=
  answered_reply.mpr (addDevice_complete devices devices.primaryDevice)

theorem getNullDevice_answered (devices : Devices) : Answered (getNullDevice devices) := by
  simp [getNullDevice]

theorem requestPrimary_answered (params : Params) : Answered (requestPrimary params) := by
  simp [requestPrimary]

theorem list_answered (devices : Devices) : Answered (list devices) := by
  have hrow : ∀ device, (Value.tuple (addDevice devices device)).Complete := fun device =>
    .tuple (addDevice_complete devices device)
  simp [list, Value.complete_map, hrow, -Value.complete_array_iff, -Value.complete_tuple_iff]

end DevicesHelper

end Dbus2vdr
