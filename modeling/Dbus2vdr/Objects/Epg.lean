import Dbus2vdr.Objects.Channels

/-!
# The programme guide

The methods of `/EPG`. A channel that is given to `ClearEPG` by its number is taken to exist when
the number is not above the highest one; where the numbers have a gap, it does not, and the method
ends at a `NULL` pointer, `clearEPG_answered_iff`.
-/

namespace Dbus2vdr

structure EpgEntry where
  channelID : Bytes
  eventID : Int
  title : Option Bytes
  shortText : Option Bytes
  description : Option Bytes
  startTime : Int
  endTime : Int
  duration : Int
  vps : Int
  runningStatus : Int
  parentalRating : Int
  hasTimer : Bool
  /-- `Contents(i)` for every `i` below `MaxEventContents`. -/
  contents : List Nat

structure Schedule where
  channelID : Bytes
  presentEvent : Option EpgEntry
  followingEvent : Option EpgEntry
  eventAround : Nat → Option EpgEntry

structure Epg where
  now : Int
  /-- `GetSchedulesRead` and `GetSchedulesWrite`, without a value when there is no lock in time. -/
  schedulesRead : Option (List Schedule)
  schedulesWrite : Option (List Schedule)
  clrRid : Bytes → Bytes
  contentToString : Nat → Bytes
  /-- `tmpfile() != NULL` -/
  tmpfile : Bool
  /-- `fopen(filename, "r")` with what is in the file. -/
  fopen : Bytes → Option Bytes
  /-- `cSchedules::Read` -/
  read : Bytes → Bool

namespace EpgHelper

inductive Mode where
  | present
  | following
  | atTime
  deriving DecidableEq, Repr

def disableScanner (epg : Epg) (params : Params) : Trace :=
  let s := params.int32 0 0
  let eitDisableTime := if 0 < s then s else 3600
  .did (.setDisableUntil (epg.now + eitDisableTime)) ::
    sendReply 250 (some (ascii "EIT scanner disabled for " ++ decimal eitDisableTime ++
      ascii " sseconds"))

def enableScanner : Trace :=
  .did (.setDisableUntil 0) :: sendReply 250 (some (ascii "EIT scanner enabled"))

/-- A pointer to a channel id that is followed without having been tested. -/
inductive ChannelRef where
  | id (channelID : Option Bytes)
  | null

/-- `ChannelID` of `ClearEPG`. -/
def clearChannel (channels : Channels) (channel : Bytes) : ChannelRef :=
  if isnumber channel then
    let o := longToInt (strtol channel)
    if 1 ≤ o ∧ o ≤ channels.maxNumber then
      match channels.getByNumber o with
      | some c => .id (some c.channelID)
      | none => .null
    else .id none
  else
    match channels.fromString channel with
    | some channelID => .id (some channelID)
    | none => .id ((channels.getByName channel).map (·.channelID))

def clearEPG (epg : Epg) (channels : Channels) (params : Params) : Trace :=
  let timeout := params.int32 1 0
  let eitDisableTime := if 0 < timeout then timeout else 10
  match params.string 0 with
  | some channel =>
      match clearChannel channels channel with
      | .null => [.crash]
      | .id none =>
          sendReply 501 (some (ascii "Undefined channel \"" ++ channel ++ ascii "\""))
      | .id (some channelID) =>
          match epg.schedulesWrite with
          | none => sendReply 451 (some (ascii "Can't get EPG data"))
          | some schedules =>
              match schedules.find? fun p => p.channelID = epg.clrRid channelID with
              | some schedule =>
                  .did (.cleanupSchedule schedule.channelID) ::
                    .did (.setDisableUntil (epg.now + eitDisableTime)) ::
                    sendReply 250 (some (ascii "EPG data of channel \"" ++ channel ++
                      ascii "\" cleared"))
              | none =>
                  sendReply 550 (some (ascii "No EPG data found for channel \"" ++ channel ++
                    ascii "\""))
  | none =>
      .did .clearSchedules :: .did (.setDisableUntil (epg.now + eitDisableTime)) ::
        sendReply 250 (some (ascii "EPG data cleared"))

/-- `cPUTEhandler`, with what it has had VDR read. -/
structure PutHandler where
  file : Option Bytes
  status : Int
  message : Bytes
  read : List Bytes := []

def PutHandler.new (epg : Epg) : PutHandler :=
  if epg.tmpfile then
    { file := some [], status := 354
      message := ascii "Enter EPG data, end with \".\" on a line by itself" }
  else { file := none, status := 554, message := ascii "Error while opening temporary file" }

/-- `Process`, and whether it takes more lines. -/
def PutHandler.process (epg : Epg) (handler : PutHandler) (s : Bytes) : PutHandler × Bool :=
  match handler.file with
  | none => (handler, false)
  | some data =>
      if s ≠ ascii "." then ({ handler with file := some (data ++ s ++ ascii "\n") }, true)
      else if epg.read data then
        ({ file := none, status := 250, message := ascii "EPG data processed"
           read := handler.read ++ [data] }, false)
      else
        ({ file := none, status := 451, message := ascii "Error while processing EPG data"
           read := handler.read ++ [data] }, false)

def putLoop (epg : Epg) : List Bytes → PutHandler → PutHandler
  | [], handler => handler
  | line :: lines, handler =>
      let (handler, more) := handler.process epg line
      if more then putLoop epg lines handler else handler

def putEntry (epg : Epg) (params : Params) : Trace :=
  let lines := params.strings 0
  if lines = [] then sendReply 501 (some (ascii "at least one element must be given"))
  else
    let handler := PutHandler.new epg
    let handler :=
      if handler.status = 354 then
        let handler := putLoop epg lines handler
        if handler.status = 354 then (handler.process epg (ascii ".")).1 else handler
      else handler
    (handler.read.map VdrCall.readSchedules).map .did ++
      sendReply handler.status (some handler.message)

def putFile (epg : Epg) (params : Params) : Trace :=
  let filename := (params.string 0).getD []
  if filename = [] then sendReply (-1) (some (ascii "no filename"))
  else
    match epg.fopen filename with
    | some data =>
        sendReply 0 (some (ascii "start reading epg data from " ++ filename)) ++
          [VdrCall.readSchedules data].map .did
    | none => sendReply (-2) (some (ascii "error opening " ++ filename))

def contentValues (epg : Epg) (i : Nat) (content : Nat) : List Value :=
  if content = 0 then []
  else
    [keyValue (ascii "ContentID[" ++ decimal i ++ ascii "]") (.int content),
      keyValue (ascii "Content[" ++ decimal i ++ ascii "]")
        (.string (some (epg.contentToString content)))]

def addEvent (epg : Epg) (event : EpgEntry) : Value :=
  .array <|
    [keyValue (ascii "ChannelID") (.string (some event.channelID)),
      keyValue (ascii "EventID") (.int event.eventID)] ++
    optionalString "Title" event.title ++ optionalString "ShortText" event.shortText ++
    optionalString "Description" event.description ++
    [keyValue (ascii "StartTime") (.int event.startTime),
      keyValue (ascii "EndTime") (.int event.endTime),
      keyValue (ascii "Duration") (.int event.duration),
      keyValue (ascii "Vps") (.int event.vps),
      keyValue (ascii "RunningStatus") (.int event.runningStatus),
      keyValue (ascii "ParentalRating") (.int event.parentalRating),
      keyValue (ascii "HasTimer") (.boolean event.hasTimer)] ++
    (event.contents.zipIdx.map fun (content, i) => contentValues epg i content).flatten

/-- `sGetChannel`: without a value when the channel is not there, and `some none` for all. -/
def getChannel (channels : Channels) (input : Option Bytes) : Option (Option Channel) :=
  match input with
  | none => some none
  | some input =>
      if input = [] then some none
      else
        let channel :=
          if isnumber input then channels.getByNumber (longToInt (strtol input))
          else channels.getByChannelID (channels.fromString input)
        channel.map some

def returnError (replyCode : Int) (replyMessage : Bytes) : Trace :=
  [.reply (.value [.int replyCode, .string (some replyMessage), .array [.array []]])]

def scheduleEvent (mode : Mode) (atTime : Nat) (schedule : Schedule) : Option EpgEntry :=
  match mode with
  | .present => schedule.presentEvent
  | .following => schedule.followingEvent
  | .atTime => schedule.eventAround atTime

def getEntries (epg : Epg) (channels : Channels) (mode : Mode) (params : Params) : Trace :=
  match getChannel channels (params.string 0) with
  | none =>
      returnError 501 (ascii "channel \"" ++ (params.string 0).getD [] ++ ascii "\" not defined")
  | some channel =>
      let atTime := params.uint64 1 0
      if mode = .atTime ∧ atTime = 0 then returnError 501 (ascii "missing time")
      else
        match epg.schedulesRead with
        | none => returnError 550 (ascii "got no schedules")
        | some schedules =>
            let chosen := (channel.map fun c => [c]).getD channels.list
            let events := chosen.filterMap fun c =>
              (schedules.find? fun s => s.channelID = c.channelID).bind
                (scheduleEvent mode atTime)
            [.reply (.value [.int 250, .string (some []), .array (events.map (addEvent epg))])]

def now (epg : Epg) (channels : Channels) (params : Params) : Trace :=
  getEntries epg channels .present params

def next (epg : Epg) (channels : Channels) (params : Params) : Trace :=
  getEntries epg channels .following params

def «at» (epg : Epg) (channels : Channels) (params : Params) : Trace :=
  getEntries epg channels .atTime params

/-! ### The lines of `PutEntry` -/

/-- The lines before the first `.`, each with a line end. -/
def entryData (lines : List Bytes) : Bytes :=
  ((lines.takeWhile (· ≠ ascii ".")).map (· ++ ascii "\n")).flatten

/-- The files of the `cSchedules::Read` calls. -/
def reads (trace : Trace) : List Bytes :=
  trace.filterMap fun
    | .did (.readSchedules data) => some data
    | _ => none

/-- What the handler comes to at a `.` with `data` in its file. -/
def PutHandler.closed (epg : Epg) (handler : PutHandler) (data : Bytes) : PutHandler :=
  if epg.read data then
    { file := none, status := 250, message := ascii "EPG data processed"
      read := handler.read ++ [data] }
  else
    { file := none, status := 451, message := ascii "Error while processing EPG data"
      read := handler.read ++ [data] }

section PutEntry

variable {epg : Epg} {handler : PutHandler} {data : Bytes}

theorem process_dot (hfile : handler.file = some data) :
    handler.process epg (ascii ".") = (handler.closed epg data, false) := by
  rw [PutHandler.process, hfile, PutHandler.closed]
  dsimp only
  rw [if_neg (not_not.mpr rfl)]
  split_ifs <;> rfl

theorem process_line (hfile : handler.file = some data) {line : Bytes}
    (hline : line ≠ ascii ".") :
    handler.process epg line =
      ({ handler with file := some (data ++ line ++ ascii "\n") }, true) := by
  rw [PutHandler.process, hfile]
  exact if_pos hline

/-- The loop over the lines, and the `.` that `PutEntry` adds when there was none. -/
theorem close_putLoop (epg : Epg) (hfile : handler.file = some data)
    (hstatus : handler.status = 354) (lines : List Bytes) :
    (if (putLoop epg lines handler).status = 354 then
      ((putLoop epg lines handler).process epg (ascii ".")).1 else putLoop epg lines handler) =
      handler.closed epg (data ++ entryData lines) := by
  induction lines generalizing handler data with
  | nil =>
      rw [putLoop, if_pos hstatus, process_dot hfile, entryData, List.takeWhile_nil, List.map_nil,
        List.flatten_nil, List.append_nil]
  | cons line lines ih =>
      by_cases hline : line = ascii "."
      · subst hline
        have hdone : (handler.closed epg data).status ≠ 354 := by
          unfold PutHandler.closed
          split_ifs <;> simp
        have hdata : entryData (ascii "." :: lines) = [] := by simp [entryData]
        rw [putLoop, process_dot hfile, hdata, List.append_nil]
        exact if_neg hdone
      · have hdata : entryData (line :: lines) = line ++ ascii "\n" ++ entryData lines := by
          simp [entryData, hline]
        rw [putLoop, process_line hfile hline, hdata, ← List.append_assoc, ← List.append_assoc]
        exact ih rfl hstatus

theorem putEntry_eq (htmpfile : epg.tmpfile = true) (params : Params)
    (hlines : params.strings 0 ≠ []) :
    putEntry epg params =
      .did (.readSchedules (entryData (params.strings 0))) ::
        if epg.read (entryData (params.strings 0))
        then sendReply 250 (some (ascii "EPG data processed"))
        else sendReply 451 (some (ascii "Error while processing EPG data")) := by
  have hnew : (PutHandler.new epg).file = some [] ∧ (PutHandler.new epg).status = 354 ∧
      (PutHandler.new epg).read = [] := by
    rw [PutHandler.new, if_pos htmpfile]
    exact ⟨rfl, rfl, rfl⟩
  have hclosed := close_putLoop epg hnew.1 hnew.2.1 (params.strings 0)
  rw [List.nil_append] at hclosed
  unfold putEntry
  dsimp only
  rw [if_neg hlines, if_pos hnew.2.1, hclosed, PutHandler.closed, hnew.2.2]
  split_ifs <;> rfl

end PutEntry

theorem entryData_append_dot (L M : List Bytes) :
    entryData (L ++ ascii "." :: M) = entryData L := by
  induction L with
  | nil => simp [entryData]
  | cons line L ih =>
      by_cases hline : line = ascii "."
      · simp [entryData, hline]
      · simpa [entryData, hline] using ih

/-- **Read once.** The lines before the first `.` are read once, wherever that is, and the reply is
about that reading. -/
theorem putEntry_reads_once {epg : Epg} {L : List Bytes} (M : List Bytes) (hL : L ≠ [])
    (htmpfile : epg.tmpfile = true) :
    reads (putEntry epg [.strings L]) = [entryData L] ∧
    (∃ message, Answer.replies (putEntry epg [.strings L]) =
      [.value [.int (if epg.read (entryData L) then 250 else 451), .string (some message)]]) ∧
    putEntry epg [.strings (L ++ [ascii "."])] = putEntry epg [.strings L] ∧
    putEntry epg [.strings (L ++ [ascii "."] ++ M)] = putEntry epg [.strings L] := by
  have hentry : ∀ lines, lines ≠ [] → putEntry epg [.strings lines] =
      .did (.readSchedules (entryData lines)) ::
        if epg.read (entryData lines) then sendReply 250 (some (ascii "EPG data processed"))
        else sendReply 451 (some (ascii "Error while processing EPG data")) :=
    fun lines hlines => putEntry_eq htmpfile [.strings lines] hlines
  refine ⟨?_, ?_, ?_, ?_⟩
  · rw [hentry L hL]
    split_ifs <;> rfl
  · rw [hentry L hL]
    split_ifs <;> exact ⟨_, rfl⟩
  · rw [hentry _ (by simp), hentry L hL, entryData_append_dot]
  · rw [List.append_assoc, List.singleton_append, hentry _ (by simp), hentry L hL,
      entryData_append_dot]

/-- Every file can be read. -/
def readable : Epg where
  now := 0
  schedulesRead := none
  schedulesWrite := none
  clrRid := id
  contentToString := fun _ => []
  tmpfile := true
  fopen := fun _ => none
  read := fun _ => true

theorem putEntry_reads_once_readable :
    reads (putEntry readable [.strings [ascii "C S19.2E-1-1-1", ascii ".", ascii "c"]]) =
      [ascii "C S19.2E-1-1-1\n"] :=
  (putEntry_reads_once [] (by decide) rfl).1

/-! ### Which of them answer -/

theorem disableScanner_answered (epg : Epg) (params : Params) :
    Answered (disableScanner epg params) := by simp [disableScanner]

theorem enableScanner_answered : Answered enableScanner := by simp [enableScanner]

/-- A number that VDR could have given to a channel, and has not. -/
def InGap (channels : Channels) (channel : Bytes) : Prop :=
  isnumber channel ∧ 1 ≤ longToInt (strtol channel) ∧
    longToInt (strtol channel) ≤ channels.maxNumber ∧
    channels.getByNumber (longToInt (strtol channel)) = none

theorem clearChannel_eq_null_iff {channels : Channels} {channel : Bytes} :
    clearChannel channels channel = .null ↔ InGap channels channel := by
  unfold clearChannel InGap
  by_cases hnumber : isnumber channel
  · simp only [hnumber, if_true, true_and]
    split_ifs with hbounds
    · cases hfound : channels.getByNumber (longToInt (strtol channel)) <;> simp [hbounds]
    · refine iff_of_false (by simp) ?_
      rintro ⟨hlow, hhigh, -⟩
      exact hbounds ⟨hlow, hhigh⟩
  · simp only [hnumber, Bool.false_eq_true, if_false, false_and, iff_false]
    cases channels.fromString channel <;> simp

theorem clearEPG_answered_iff (epg : Epg) (channels : Channels) (params : Params) :
    Answered (clearEPG epg channels params) ↔
      ¬ ∃ channel, params.string 0 = some channel ∧ InGap channels channel := by
  unfold clearEPG
  dsimp only
  cases params.string 0 with
  | none => simp
  | some channel =>
      simp only [Option.some.injEq, exists_eq_left', ← clearChannel_eq_null_iff]
      cases clearChannel channels channel with
      | null => simp
      | id channelID =>
          refine iff_of_true ?_ (by simp)
          cases channelID with
          | none => simp
          | some channelID =>
              cases epg.schedulesWrite with
              | none => simp
              | some schedules =>
                  dsimp only
                  split <;> simp

theorem putEntry_answered (epg : Epg) (params : Params) : Answered (putEntry epg params) := by
  unfold putEntry
  dsimp only
  by_cases hlines : params.strings 0 = []
  · simp [hlines]
  · rw [if_neg hlines, answered_did_append, answered_sendReply]
    simp

theorem putFile_answered (epg : Epg) (params : Params) : Answered (putFile epg params) := by
  unfold putFile
  dsimp only
  split_ifs
  · simp
  · split
    · rw [answered_append_did]
      simp
    · simp

theorem addEvent_complete (epg : Epg) (event : EpgEntry) : (addEvent epg event).Complete := by
  have hcontents : ∀ i content, ∀ v ∈ contentValues epg i content, v.Complete := by
    intro i content
    unfold contentValues
    split_ifs <;> simp
  refine .array fun v hv => ?_
  simp only [List.mem_append] at hv
  rcases hv with ((((hv | hv) | hv) | hv) | hv) | hv
  · revert v
    simp
  · exact optionalString_complete v hv
  · exact optionalString_complete v hv
  · exact optionalString_complete v hv
  · revert v
    simp
  · obtain ⟨values, hvalues, hmem⟩ := List.mem_flatten.mp hv
    obtain ⟨⟨content, i⟩, -, rfl⟩ := List.mem_map.mp hvalues
    exact hcontents i content v hmem

theorem returnError_answered (replyCode : Int) (replyMessage : Bytes) :
    Answered (returnError replyCode replyMessage) := by simp [returnError]

theorem getEntries_answered (epg : Epg) (channels : Channels) (mode : Mode) (params : Params) :
    Answered (getEntries epg channels mode params) := by
  unfold getEntries
  split
  · exact returnError_answered ..
  · dsimp only
    split_ifs
    · exact returnError_answered ..
    · split
      · exact returnError_answered ..
      · simp [Value.complete_map, addEvent_complete, -Value.complete_array_iff]

end EpgHelper

end Dbus2vdr
