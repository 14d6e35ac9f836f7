import Dbus2vdr.Objects.Message

/-!
# Recordings

The methods of `/Recordings`, as they are for VDR from 2.3.1 on. `Play` and `ChangeName` take a
number or a path in a variant. They say so when no recording has that number or path; when the
variant has other content, an empty path, or a number below one, they say nothing:
`play_answered_iff` and `changeName_answered_iff`.
-/

namespace Dbus2vdr

structure Component where
  stream : Int
  type : Int
  language : Bytes
  description : Option Bytes

structure RecordingInfo where
  channelID : Option Bytes
  channelName : Option Bytes
  title : Option Bytes
  shortText : Option Bytes
  description : Option Bytes
  aux : Option Bytes
  framesPerSecond : UInt64
  components : List (Option Component)

structure Recording where
  index : Int
  fileName : Option Bytes
  name : Option Bytes
  /-- Only VDR with the patch that hides the first level of the recordings has it. -/
  fullName : Option Bytes
  title : Option Bytes
  start : Nat
  deleted : Nat
  priority : Int
  lifetime : Int
  hierarchyLevels : Int
  framesPerSecond : UInt64
  numFrames : Int
  lengthInSeconds : Int
  fileSizeMB : Int
  isPesRecording : Bool
  isNew : Bool
  isEdited : Bool
  info : Option RecordingInfo
  /-- `IsInUse()`, zero when it is not. -/
  inUse : Int
  /-- The name after `ChangeName`, without a value when that fails. -/
  changeName : Bytes → Option (Option Bytes)

/-- The list of directories of VDR with the patch for extra video directories. -/
structure ExtraVideoDirectories where
  lock : Bool
  list : List Bytes

structure Recordings where
  list : List Recording
  hmsfToIndex : Bytes → UInt64 → Int

namespace Recordings

def getByName (recs : Recordings) (path : Bytes) : Option Recording :=
  recs.list.find? fun r => r.fileName = some path

def get (recs : Recordings) (index : Int) : Option Recording :=
  if index < 0 then none else recs.list[index.toNat]?

end Recordings

namespace RecordingsHelper

def componentValues (comp : Nat) (component : Component) : List Value :=
  let key (field : String) : Bytes :=
    ascii "Info/Component/" ++ decimal comp ++ ascii "/" ++ ascii field
  [keyValue (key "stream") (.int component.stream), keyValue (key "type") (.int component.type)] ++
  (if component.language = [] then []
    else [keyValue (key "language") (.string (some component.language))]) ++
  (component.description.map fun s => keyValue (key "description") (.string (some s))).toList

def infoValues (info : RecordingInfo) : List Value :=
  optionalString "Info/ChannelID" info.channelID ++
  optionalString "Info/ChannelName" info.channelName ++ optionalString "Info/Title" info.title ++
  optionalString "Info/ShortText" info.shortText ++
  optionalString "Info/Description" info.description ++ optionalString "Info/Aux" info.aux ++
  [keyValue (ascii "Info/FramesPerSecond") (.double info.framesPerSecond)] ++
  (info.components.zipIdx.map fun (component, comp) =>
    (component.map (componentValues comp)).getD []).flatten

/-- `if (tu64 > 0) AddKeyValue(array, key, "t", ...)` -/
def optionalTime (key : String) (time : Nat) : List Value :=
  if 0 < time then [keyValue (ascii key) (.int time)] else []

def recordingValues (recording : Recording) : List Value :=
  optionalString "Path" recording.fileName ++ optionalString "Name" recording.name ++
  optionalString "FullName" recording.fullName ++ optionalString "Title" recording.title ++
  optionalTime "Start" recording.start ++ optionalTime "Deleted" recording.deleted ++
  [keyValue (ascii "Priority") (.int recording.priority),
    keyValue (ascii "Lifetime") (.int recording.lifetime),
    keyValue (ascii "HierarchyLevels") (.int recording.hierarchyLevels),
    keyValue (ascii "FramesPerSecond") (.double recording.framesPerSecond),
    keyValue (ascii "NumFrames") (.int recording.numFrames),
    keyValue (ascii "LengthInSeconds") (.int recording.lengthInSeconds),
    keyValue (ascii "FileSizeMB") (.int recording.fileSizeMB),
    keyValue (ascii "IsPesRecording") (.boolean recording.isPesRecording),
    keyValue (ascii "IsNew") (.boolean recording.isNew),
    keyValue (ascii "IsEdited") (.boolean recording.isEdited)] ++
  (recording.info.map infoValues).getD []

def buildRecording : Option Recording → Value
  | none => .tuple [.int (-1), .array []]
  | some recording => .tuple [.int (recording.index + 1), .array (recordingValues recording)]

def get (recs : Recordings) (params : Params) : Trace :=
  let recording :=
    match (params.child 0).content with
    | .string path => if path = [] then none else recs.getByName path
    | .int32 number =>
        if 0 < number ∧ number ≤ recs.list.length then recs.get (number - 1) else none
    | _ => none
  [.reply (.value [buildRecording recording])]

def list (recs : Recordings) : Trace :=
  [.reply (.value [.array (recs.list.map fun r => buildRecording (some r))])]

def update : Trace :=
  .did .updateRecordings :: sendReply 250 (some (ascii "update of recordings triggered"))

/-- How `Play` and `ChangeName` look for the recording, and the message they have then. -/
def lookup (recs : Recordings) (first : Variant) (replyMessage : Option Bytes) :
    Option Recording × Option Bytes :=
  match first.content with
  | .string path =>
      if path = [] then (none, replyMessage)
      else
        match recs.getByName path with
        | some recording => (some recording, replyMessage)
        | none => (none, some (ascii "recording \"" ++ path ++ ascii "\" not found"))
  | .int32 number =>
      if 0 < number then
        match recs.get (number - 1) with
        | some recording => (some recording, replyMessage)
        | none => (none, some (ascii "recording \"" ++ decimal number ++ ascii "\" not found"))
      else (none, replyMessage)
  | _ => (none, replyMessage)

/-- `position` and `hmsf`; a position below zero means to resume. -/
def playPosition (recs : Recordings) (recording : Recording) (second : Variant) :
    Int × Option Bytes :=
  match second.content with
  | .string hmsf =>
      if hmsf = [] then (-1, none)
      else if strcaseeq hmsf (ascii "begin") then (0, none)
      else (recs.hmsfToIndex hmsf recording.framesPerSecond, some hmsf)
  | .int32 position => (position, none)
  | _ => (-1, none)

def playMessage (recording : Recording) (position : Int) (hmsf : Option Bytes) : Bytes :=
  let file := printed recording.fileName
  match hmsf with
  | some hmsf => ascii "Playing recording \"" ++ file ++ ascii "\" from position " ++ hmsf
  | none =>
      if 0 ≤ position then
        ascii "Playing recording \"" ++ file ++ ascii "\" from position " ++ decimal position
      else ascii "Resume playing recording \"" ++ file ++ ascii "\""

def play (recs : Recordings) (params : Params) : Trace :=
  match lookup recs (params.child 0) none with
  | (some recording, _) =>
      let (position, hmsf) := playPosition recs recording (params.child 1)
      .did (.replay recording.fileName position) ::
        sendReply 250 (some (playMessage recording position hmsf))
  | (none, replyMessage) => sendReply 501 replyMessage

/-- `FullName` where VDR has it. -/
def shownName (recording : Recording) : Option Bytes := recording.fullName.or recording.name

def changeName (recs : Recordings) (params : Params) : Trace :=
  let newName := (params.string 1).getD []
  let missing := if newName = [] then some (ascii "Missing new recording name") else none
  match lookup recs (params.child 0) missing with
  | (some recording, replyMessage) =>
      if newName = [] then sendReply 501 replyMessage
      else if recording.inUse ≠ 0 then
        sendReply 550 (some (ascii "recording is in use, reason " ++ decimal recording.inUse))
      else
        let oldName := printed (shownName recording)
        match recording.changeName newName with
        | some name =>
            .did (.changeName recording.fileName newName) :: .did .updateRecordings ::
              sendReply 250 (some (ascii "Recording \"" ++ oldName ++ ascii "\" moved to \"" ++
                printed name ++ ascii "\""))
        | none =>
            sendReply 554 (some (ascii "Error while moving recording \"" ++ oldName ++
              ascii "\" to \"" ++ newName ++ ascii "\"!"))
  | (none, replyMessage) => sendReply 501 replyMessage

/-! The methods for extra video directories; without the patch they are not registered. -/

def noLock : Bytes := ascii "Unable to lock extra video directory list"

def missingPatch : Bytes := ascii "Missing extra-video-directories patch"

def listExtraVideoDirectories (extra : Option ExtraVideoDirectories) : Trace :=
  let reply (replyCode : Int) (replyMessage : Bytes) (dirs : List Bytes) : Trace :=
    [.reply (.value [.int replyCode, .string (some replyMessage),
      .array (dirs.map fun dir => .string (some dir))])]
  match extra with
  | none => reply 500 missingPatch []
  | some extra =>
      if !extra.lock then reply 550 noLock []
      else if extra.list = [] then reply 550 (ascii "no extra video directories in list") []
      else reply 250 [] extra.list

/-- `AddExtraVideoDirectory` and `DeleteExtraVideoDirectory` differ in what they do with the
directory, and in the first word of the reply. -/
def changeExtraVideoDirectory (extra : Option ExtraVideoDirectories) (change : Bytes → VdrCall)
    (done preposition : Bytes) (params : Params) : Trace :=
  let option := (params.string 0).getD []
  match extra with
  | none => sendReply 500 (some missingPatch)
  | some extra =>
      if option = [] then sendReply 501 (some (ascii "Missing directory name"))
      else if !extra.lock then sendReply 550 (some noLock)
      else
        .did (change option) ::
          sendReply 250 (some (done ++ ascii " '" ++ option ++ ascii "' " ++ preposition ++
            ascii " extra video directory list"))

def addExtraVideoDirectory (extra : Option ExtraVideoDirectories) (params : Params) : Trace :=
  changeExtraVideoDirectory extra .addExtraVideoDirectory (ascii "added") (ascii "to") params

def deleteExtraVideoDirectory (extra : Option ExtraVideoDirectories) (params : Params) : Trace :=
  changeExtraVideoDirectory extra .delExtraVideoDirectory (ascii "removed") (ascii "from") params

def clearExtraVideoDirectories (extra : Option ExtraVideoDirectories) : Trace :=
  match extra with
  | none => sendReply 500 (some missingPatch)
  | some extra =>
      if !extra.lock then sendReply 550 (some noLock)
      else
        .did .clearExtraVideoDirectories ::
          sendReply 250 (some (ascii "cleared extra video directory list"))

/-! ### Which of them answer -/

theorem recordingValues_complete (recording : Recording) :
    ∀ v ∈ recordingValues recording, v.Complete := by
  have htime : ∀ key time, ∀ v ∈ optionalTime key time, v.Complete := by
    intro key time
    unfold optionalTime
    split_ifs <;> simp
  have hcomponent : ∀ comp component, ∀ v ∈ componentValues comp component, v.Complete := by
    intro comp component
    unfold componentValues
    dsimp only
    cases component.description <;> split_ifs <;> simp
  have hinfo : ∀ info, ∀ v ∈ infoValues info, v.Complete := by
    intro info v hv
    simp only [infoValues, List.mem_append] at hv
    rcases hv with ((((((hv | hv) | hv) | hv) | hv) | hv) | hv) | hv
    case inr =>
      obtain ⟨values, hvalues, hmem⟩ := List.mem_flatten.mp hv
      obtain ⟨⟨component, comp⟩, -, rfl⟩ := List.mem_map.mp hvalues
      cases component with
      | none => cases hmem
      | some component => exact hcomponent comp component v hmem
    case inl.inr =>
      rw [List.mem_singleton.mp hv]
      simp
    all_goals exact optionalString_complete v hv
  intro v hv
  simp only [recordingValues, List.mem_append] at hv
  rcases hv with ((((((hv | hv) | hv) | hv) | hv) | hv) | hv) | hv
  case inr =>
    cases hsome : recording.info with
    | none =>
        rw [hsome] at hv
        cases hv
    | some info =>
        rw [hsome] at hv
        exact hinfo info v hv
  case inl.inr =>
    revert v
    simp
  case inl.inl.inr => exact htime _ _ v hv
  case inl.inl.inl.inr => exact htime _ _ v hv
  all_goals exact optionalString_complete v hv

@[simp]
theorem buildRecording_complete (recording : Option Recording) :
    (buildRecording recording).Complete := by
  cases recording with
  | none => simp [buildRecording]
  | some recording => simpa [buildRecording] using recordingValues_complete recording

theorem get_answered (recs : Recordings) (params : Params) : Answered (get recs params) := by
  simp [get]

theorem list_answered (recs : Recordings) : Answered (list recs) := by
  simp [list, Value.complete_map, -Value.complete_array_iff]

theorem update_answered : Answered update := by simp [update]

/-- The content of a variant that means no recording at all. -/
def Nameless (first : Variant) : Prop :=
  match first.content with
  | .string path => path = []
  | .int32 number => number ≤ 0
  | _ => True

theorem lookup_of_nameless {first : Variant} (hnameless : Nameless first) (recs : Recordings)
    (replyMessage : Option Bytes) : lookup recs first replyMessage = (none, replyMessage) := by
  unfold lookup Nameless at *
  split
  · next path hpath =>
      rw [hpath] at hnameless
      exact if_pos hnameless
  · next number hnumber =>
      rw [hnumber] at hnameless
      exact if_neg (not_lt.mpr hnameless)
  · rfl

theorem lookup_of_named {first : Variant} (hnamed : ¬ Nameless first) (recs : Recordings)
    (replyMessage : Option Bytes) :
    (∃ recording, lookup recs first replyMessage = (some recording, replyMessage)) ∨
      ∃ message, lookup recs first replyMessage = (none, some message) := by
  unfold lookup Nameless at *
  split
  · next path hpath =>
      rw [hpath] at hnamed
      rw [if_neg hnamed]
      cases recs.getByName path <;> simp
  · next number hnumber =>
      rw [hnumber] at hnamed
      rw [if_pos (not_le.mp hnamed)]
      cases recs.get (number - 1) <;> simp
  · next hstring hint =>
      exfalso
      revert hnamed
      split <;> simp_all

theorem play_answered_iff (recs : Recordings) (params : Params) :
    Answered (play recs params) ↔ ¬ Nameless (params.child 0) := by
  unfold play
  by_cases hnameless : Nameless (params.child 0)
  · simp [lookup_of_nameless hnameless, hnameless]
  · refine iff_of_true ?_ hnameless
    rcases lookup_of_named hnameless recs none
      with ⟨recording, hlookup⟩ | ⟨message, hlookup⟩
    · simp [hlookup]
    · simp [hlookup]

theorem changeName_answered_iff (recs : Recordings) (params : Params) :
    Answered (changeName recs params) ↔
      ¬ (Nameless (params.child 0) ∧ (params.string 1).getD [] ≠ []) := by
  unfold changeName
  dsimp only
  generalize (params.string 1).getD [] = newName
  by_cases hnameless : Nameless (params.child 0)
  · by_cases hnew : newName = [] <;> simp [lookup_of_nameless hnameless, hnameless, hnew]
  · refine iff_of_true ?_ fun h => hnameless h.1
    rcases lookup_of_named hnameless recs
      (if newName = [] then some (ascii "Missing new recording name") else none) with
      ⟨recording, hlookup⟩ | ⟨message, hlookup⟩
    · rw [hlookup]
      dsimp only
      by_cases hnew : newName = []
      · simp [hnew]
      · rw [if_neg hnew]
        split_ifs
        · simp
        · split <;> simp
    · simp [hlookup]

theorem listExtraVideoDirectories_answered (extra : Option ExtraVideoDirectories) :
    Answered (listExtraVideoDirectories extra) := by
  unfold listExtraVideoDirectories
  dsimp only
  split
  · simp
  · split_ifs <;> simp

theorem changeExtraVideoDirectory_answered (extra : Option ExtraVideoDirectories)
    (change : Bytes → VdrCall) (done preposition : Bytes) (params : Params) :
    Answered (changeExtraVideoDirectory extra change done preposition params) := by
  unfold changeExtraVideoDirectory
  dsimp only
  split
  · simp
  · split_ifs <;> simp

theorem clearExtraVideoDirectories_answered (extra : Option ExtraVideoDirectories) :
    Answered (clearExtraVideoDirectories extra) := by
  unfold clearExtraVideoDirectories
  split
  · simp
  · split_ifs <;> simp

end RecordingsHelper

end Dbus2vdr
