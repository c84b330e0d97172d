import Mathlib.Data.List.Nodup
import Streambox.Lib.Counter
import Streambox.Lib.Run
import Streambox.WifiDisplay.RtspText
import Streambox.WifiDisplay.StreamLink

/-! WifiDisplaySink.cpp: the RTSP client of a session.

        OPTIONS ◀──▶ OPTIONS (M2)
        GET_PARAMETER, SET_PARAMETER ◀──
                         │ wfd_trigger_method: SETUP
        DESCRIBE ──▶ SETUP ──▶ PLAY ──▶ PLAYING

    A request of the sink has a CSeq of its own, under which the handler of its response is kept; it
    comes from a counter of 32 bits, and a negative one is not written into the request. The checks
    print and go on. Neither `kWhatStop` nor a lost connection takes the handlers away, and
    what the network thread has posted before is still delivered. -/

namespace Streambox.WifiDisplay.DisplaySink
open Streambox.Lib
open ParsedMessage
open RtspText

/-- WifiDisplaySink::State. -/
inductive Phase where
  | undefined
  | connecting
  | connected
  | paused
  | playing
  deriving DecidableEq, Repr

/-- HandleRTSPResponseFunc. -/
inductive Handler where
  | onReceiveM2Response
  | onReceiveDescribeResponse
  | onReceiveSetupResponse
  | onReceivePlayResponse
  deriving DecidableEq, Repr

/-- ResponseID. -/
abbrev ResponseID := Nat × Int

/-- What the sink dies of. -/
inductive Fault where
  /-- `mRTPSink` is used and is NULL. -/
  | nullRtpSink
  /-- `getRequestField` reads behind the end of the line. -/
  | outside
  deriving DecidableEq, Repr

/-- What has been given to `sendRequest`, with the CSeq in it if that is not negative. -/
structure Sent where
  sessionID : Nat
  cseq : Int
  text : Bytes
  deriving DecidableEq, Repr

/-- The sink, the sessions of the network that it has not destroyed, and what has happened. -/
structure Sink where
  phase : Phase
  setupURI : Bytes
  rtspHost : Bytes
  sessionID : Nat
  nextCSeq : Int
  responseHandlers : List (ResponseID × Handler)
  /-- The RTP port of `mRTPSink`. -/
  rtpSink : Option Nat
  playbackSessionID : Bytes
  playbackSessionTimeoutSecs : Int
  /-- What `RTPSink::connect` was called with. -/
  connects : List (Bytes × Int × Int)
  live : List Nat
  created : List Nat
  sent : List Sent
  requests : List (ResponseID × Handler)
  handled : List (ResponseID × Handler)
  fault : Option Fault
  deriving DecidableEq, Repr

def start : Sink :=
  ⟨.undefined, [], [], 0, 1, [], none, [], 0, [], [], [], [], [], [], none⟩

/-- What the calls of a handler return: the date, the port that `RTPSink::init` finds, and whether
    `RTPSink::connect` succeeds. -/
structure Env where
  date : Bytes
  rtpPort : Option Nat
  connects : Bool
  deriving DecidableEq, Repr

/-! ### What is sent -/

/-- `AppendCommonResponse`. -/
def commonResponse (date : Bytes) (cseq : Int) : Bytes :=
  ascii "Date: " ++ date ++ crlf ++
    ascii "User-Agent: stagefright/1.1 (Linux;Android 4.1)\r\n" ++
    if 0 ≤ cseq then ascii "CSeq: " ++ decimal cseq.toNat ++ crlf else []

def m2Text (date : Bytes) (cseq : Int) : Bytes :=
  ascii "OPTIONS * RTSP/1.0\r\n" ++ commonResponse date cseq ++
    ascii "Require: org.wfa.wfd1.0\r\n\r\n"

def describeText (date : Bytes) (cseq : Int) (uri : Bytes) : Bytes :=
  ascii "DESCRIBE " ++ cStr uri ++ ascii " RTSP/1.0\r\n" ++ commonResponse date cseq ++
    ascii "Accept: application/sdp\r\n" ++ crlf

def setupText (date : Bytes) (cseq : Int) (uri : Bytes) (rtpPort : Nat) : Bytes :=
  ascii "SETUP " ++ cStr uri ++ ascii " RTSP/1.0\r\n" ++ commonResponse date cseq ++
    ascii "Transport: RTP/AVP/UDP;unicast;client_port=" ++ decimal rtpPort ++ ascii "-" ++
    decimal (rtpPort + 1) ++ crlf ++ crlf

def playText (date : Bytes) (cseq : Int) (uri session : Bytes) : Bytes :=
  ascii "PLAY " ++ cStr uri ++ ascii " RTSP/1.0\r\n" ++ commonResponse date cseq ++
    ascii "Session: " ++ cStr session ++ crlf ++ crlf

def optionsText (date : Bytes) (cseq : Int) : Bytes :=
  ascii "RTSP/1.0 200 OK\r\n" ++ commonResponse date cseq ++
    ascii "Public: org.wfa.wfd1.0, GET_PARAMETER, SET_PARAMETER\r\n" ++ crlf

/-- The body, in a buffer of 1024. -/
def parameters (rtpPort : Nat) : Bytes :=
  List.take 1023 <|
  ascii "wfd_video_formats: 40 00 02 02 0001DEFF 157C7FFF 00000FFF 00 0000 0000 11 none none, " ++
  ascii "01 02 0001DEFF 157C7FFF 00000FFF 00 0000 0000 11 none none\r\n" ++
  ascii "wfd_audio_codecs: AAC 0000000F 00\r\n" ++
  ascii "wfd_client_rtp_ports: RTP/AVP/UDP;unicast " ++ decimal rtpPort ++
  ascii " 0 mode=play\r\n" ++
  ascii "wfd_uibc_capability: input_category_list=GENERIC;" ++
  ascii "generic_cap_list=Keyboard, Mouse, SingleTouch;hidc_cap_list=none;port=none\r\n" ++
  ascii "wfd_standby_resume_capability: supported\r\n"

def getParameterText (date : Bytes) (cseq : Int) (rtpPort : Nat) : Bytes :=
  ascii "RTSP/1.0 200 OK\r\n" ++ commonResponse date cseq ++
    ascii "Content-Type: text/parameters\r\n" ++
    ascii "Content-Length: " ++ decimal (parameters rtpPort).length ++ crlf ++ crlf ++
    parameters rtpPort

def setParameterText (date : Bytes) (cseq : Int) : Bytes :=
  ascii "RTSP/1.0 200 OK\r\n" ++ commonResponse date cseq ++ crlf

def errorText (date : Bytes) (cseq : Int) (errorDetail : Bytes) : Bytes :=
  ascii "RTSP/1.0 " ++ errorDetail ++ crlf ++ commonResponse date cseq ++ crlf

/-! ### ParseURL -/

/-- What stands before an '@' is not of the host. -/
def withoutUser (host : Bytes) : Bytes :=
  if 0x40 ∈ host then (host.dropWhile (· ≠ 0x40)).tail else host

/-- The port is cut off if it can be read. -/
def withoutPort (host : Bytes) : Bytes :=
  match if 0x3a ∈ host then strtoul (host.dropWhile (· ≠ 0x3a)).tail else none with
  | some (x, []) => if x < 65536 then host.takeWhile (· ≠ 0x3a) else host
  | _ => host

/-- `ParseURL`, for the host alone: it is also stored if the port cannot be read. -/
def hostOf (url : Bytes) : Bytes :=
  if ((cStr url).take 7).map tolower = ascii "rtsp://" then
    withoutPort (withoutUser (((cStr url).drop 7).takeWhile (· ≠ 0x2f)))
  else []

/-! ### Requests of the sink -/

/-- `ANetworkSession::sendRequest`, and whether the session was found. -/
def sendRequest (s : Sink) (sessionID : Nat) (cseq : Int) (text : Bytes) : Sink × Bool :=
  if sessionID ∈ s.live then ({ s with sent := s.sent ++ [⟨sessionID, cseq, text⟩] }, true)
  else (s, false)

/-- `KeyedVector::add`. -/
def registerResponseHandler (s : Sink) (id : ResponseID) (handler : Handler) : Sink :=
  { s with responseHandlers := s.responseHandlers.filter (·.1 ≠ id) ++ [(id, handler)] }

/-- What `sendM2`, `sendDescribe`, `sendSetup` and `sendPlay` do with their texts. -/
def sendTracked (s : Sink) (sessionID : Nat) (text : Bytes) (handler : Handler) : Sink :=
  let id : ResponseID := (sessionID, s.nextCSeq)
  let q := sendRequest s sessionID s.nextCSeq text
  if q.2 then
    { registerResponseHandler q.1 id handler with
      nextCSeq := countUp s.nextCSeq
      requests := s.requests ++ [(id, handler)] }
  else q.1

def sendM2 (s : Sink) (env : Env) (sessionID : Nat) : Sink :=
  sendTracked s sessionID (m2Text env.date s.nextCSeq) .onReceiveM2Response

def sendDescribe (s : Sink) (env : Env) (sessionID : Nat) (uri : Bytes) : Sink :=
  sendTracked s sessionID (describeText env.date s.nextCSeq uri) .onReceiveDescribeResponse

/-- The sink has an `RTPSink` when it goes on. -/
def withRtpSink (s : Sink) (env : Env) : Sink := { s with rtpSink := s.rtpSink.or env.rtpPort }

def sendSetup (s : Sink) (env : Env) (sessionID : Nat) (uri : Bytes) : Sink :=
  match (withRtpSink s env).rtpSink with
  | none => s
  | some rtpPort =>
    sendTracked (withRtpSink s env) sessionID (setupText env.date s.nextCSeq uri rtpPort)
      .onReceiveSetupResponse

def sendPlay (s : Sink) (env : Env) (sessionID : Nat) (uri : Bytes) : Sink :=
  sendTracked s sessionID (playText env.date s.nextCSeq uri s.playbackSessionID)
    .onReceivePlayResponse

def streamUrl (s : Sink) : Bytes :=
  ascii "rtsp://" ++ cStr s.rtspHost ++ ascii "/wfd1.0/streamid=0"

/-! ### Responses -/

/-- The two numbers of "%d-%d", zero where there is none. -/
def scanPorts (s : Bytes) : Int × Int :=
  match strtol s with
  | none => (0, 0)
  | some (rtpPort, rest) =>
    match rest with
    | 0x2d :: rest =>
      match strtol rest with
      | some (rtcpPort, _) => (toInt32 rtpPort, toInt32 rtcpPort)
      | none => (toInt32 rtpPort, 0)
    | _ => (toInt32 rtpPort, 0)

/-- `configureTransport`, and whether it succeeds. Ports that make no sense are logged only. -/
def configureTransport (s : Sink) (env : Env) (m : Message) : Sink × Bool :=
  match m.dict.findString (ascii "transport") with
  | none => (s, false)
  | some transport =>
    let sourceHost := (getAttribute transport (ascii "source")).getD s.rtspHost
    let ports := scanPorts ((getAttribute transport (ascii "server_port")).getD [])
    match s.rtpSink with
    | none => ({ s with fault := some .nullRtpSink }, false)
    | some _ =>
      ({ s with connects := s.connects ++ [(cStr sourceHost, ports.1, ports.2)] }, env.connects)

/-- The session without its options. -/
def stripOptions (session : Bytes) : Bytes :=
  if 0x3b ∈ cStr session then session.takeWhile (· ≠ 0x3b) else session

def withPlayback (s : Sink) (session : Bytes) : Sink :=
  { s with
    playbackSessionID := stripOptions session
    playbackSessionTimeoutSecs := (getInt32Attribute session (ascii "timeout")).getD (-1) }

/-- `onReceiveSetupResponse`, behind the check of the code. -/
def onSetupAccepted (s : Sink) (env : Env) (sessionID : Nat) (m : Message) : Sink :=
  match m.dict.findString (ascii "session") with
  | none => { s with playbackSessionID := [] }
  | some session =>
    let q := configureTransport (withPlayback s session) env m
    if q.2 then
      sendPlay { q.1 with phase := .paused } env sessionID
        (if s.setupURI ≠ [] then s.setupURI else streamUrl s)
    else q.1

/-- The handlers: all of them go on with the code 200 only. -/
def handle (s : Sink) (env : Env) (sessionID : Nat) (handler : Handler) (m : Message) : Sink :=
  match getStatusCode m with
  | none => { s with fault := some .outside }
  | some (some 200) =>
    match handler with
    | .onReceiveM2Response => s
    | .onReceiveDescribeResponse => sendSetup s env sessionID s.setupURI
    | .onReceiveSetupResponse => onSetupAccepted s env sessionID m
    | .onReceivePlayResponse => { s with phase := .playing }
  | some _ => s

/-! ### Requests of the source -/

def sendErrorResponse (s : Sink) (env : Env) (sessionID : Nat) (errorDetail : Bytes) (cseq : Int) :
    Sink :=
  (sendRequest s sessionID cseq (errorText env.date cseq errorDetail)).1

def onOptionsRequest (s : Sink) (env : Env) (sessionID : Nat) (cseq : Int) : Sink :=
  sendM2 (sendRequest s sessionID cseq (optionsText env.date cseq)).1 env sessionID

def onGetParameterRequest (s : Sink) (env : Env) (sessionID : Nat) (cseq : Int) : Sink :=
  match (withRtpSink s env).rtpSink with
  | none => s
  | some rtpPort =>
    (sendRequest (withRtpSink s env) sessionID cseq (getParameterText env.date cseq rtpPort)).1

def onSetParameterRequest (s : Sink) (env : Env) (sessionID : Nat) (cseq : Int) (m : Message) :
    Sink :=
  let s := (sendRequest s sessionID cseq (setParameterText env.date cseq)).1
  if strstr m.content (ascii "wfd_trigger_method: SETUP\r\n") then
    sendSetup s env sessionID (streamUrl s)
  else s

def onRequest (s : Sink) (env : Env) (sessionID : Nat) (method : Bytes) (cseq : Int)
    (m : Message) : Sink :=
  match getRequestField m 2 with
  | none => { s with fault := some .outside }
  | some version =>
    if version ≠ ascii "RTSP/1.0" then
      sendErrorResponse s env sessionID (ascii "505 RTSP Version not supported") cseq
    else if method = ascii "OPTIONS" then onOptionsRequest s env sessionID cseq
    else if method = ascii "GET_PARAMETER" then onGetParameterRequest s env sessionID cseq
    else if method = ascii "SET_PARAMETER" then onSetParameterRequest s env sessionID cseq m
    else sendErrorResponse s env sessionID (ascii "405 Method Not Allowed") cseq

/-! ### Messages to the sink -/

def isResponse (method : Bytes) : Bool := (ascii "RTSP/").isPrefixOf (cStr method)

def handlerOf (s : Sink) (id : ResponseID) : Option Handler :=
  (s.responseHandlers.find? (·.1 = id)).map Prod.snd

/-- The handler is taken away before it is called. -/
def taken (s : Sink) (id : ResponseID) (handler : Handler) : Sink :=
  { s with
    responseHandlers := s.responseHandlers.filter (·.1 ≠ id)
    handled := s.handled ++ [(id, handler)] }

def onResponse (s : Sink) (env : Env) (sessionID : Nat) (cseq : Int) (m : Message) : Sink :=
  match handlerOf s (sessionID, cseq) with
  | none => s
  | some handler => handle (taken s (sessionID, cseq) handler) env sessionID handler m

def onReceiveClientData (s : Sink) (env : Env) (sessionID : Nat) (m : Message) : Sink :=
  match getRequestField m 0 with
  | none => { s with fault := some .outside }
  | some method =>
    match m.dict.findInt32 (ascii "cseq") with
    | none => sendErrorResponse s env sessionID (ascii "400 Bad Request") (-1)
    | some cseq =>
      if isResponse method then onResponse s env sessionID cseq m
      else onRequest s env sessionID method cseq m

def destroySession (s : Sink) (sessionID : Nat) : Sink :=
  { s with live := s.live.filter (· ≠ sessionID) }

/-- The client session that has been created, if one has. -/
def connect (s : Sink) (session : Option Nat) : Sink :=
  { s with
    sessionID := session.getD 0
    live := session.toList ++ s.live
    created := session.toList ++ s.created
    phase := .connecting }

/-- `kWhatStop`, and a lost control connection. -/
def leave (s : Sink) : Sink :=
  { destroySession s s.sessionID with sessionID := 0, rtpSink := none }

/-- A message that came out of `ParsedMessage::Parse`. -/
abbrev Received := { m : Message // ∃ data length, parse data = some (m, length) }

/-- What the looper delivers, with what the network has to say to it. -/
inductive Action where
  | startUri (uri : Bytes) (session : Option Nat)
  | startHost (host : Bytes) (session : Option Nat)
  | error (sessionID : Nat)
  | connected (env : Env)
  | data (env : Env) (sessionID : Nat) (m : Received)
  | binaryData
  | stop

/-- Numbers of sessions are not used twice. -/
def step (s : Sink) (a : Action) : Option Sink :=
  if s.fault ≠ none then none
  else
    match a with
    | .startUri uri session =>
      if session.all fun id => id ≠ 0 && id ∉ s.created then
        some (connect { s with setupURI := uri, rtspHost := hostOf uri } session)
      else none
    | .startHost host session =>
      if session.all fun id => id ≠ 0 && id ∉ s.created then
        some (connect { s with rtspHost := host } session)
      else none
    | .error sessionID => some (if sessionID = s.sessionID then leave s else s)
    | .connected env =>
      let s := { s with phase := .connected }
      some (if s.setupURI ≠ [] then sendDescribe s env s.sessionID s.setupURI else s)
    | .data env sessionID m => some (onReceiveClientData s env sessionID m.1)
    | .binaryData =>
      some (if s.rtpSink = none then { s with fault := some .nullRtpSink } else s)
    | .stop => some (leave s)

/-! ### Whole messages -/

/-- There is no CSeq in the message if it is negative. -/
def HasCSeq (cseq : Int) (m : Message) : Prop :=
  m.dict.findString (ascii "cseq") = if 0 ≤ cseq then some (decimal cseq.toNat) else none

/-- A text is this message whatever comes behind it, with the CSeq it was given. -/
def IsMessage (q : Sent) (m : Message) : Prop :=
  (∀ rest, NetworkSession.complete true (q.text ++ rest) = some (.data m, rest)) ∧
    HasCSeq q.cseq m

/-- A text that is one message. -/
def Whole (q : Sent) : Prop := ∃ m, IsMessage q m

def commonHeaders (date : Bytes) (cseq : Int) : List (Bytes × Bytes) :=
  [(ascii "Date", date), (ascii "User-Agent", ascii "stagefright/1.1 (Linux;Android 4.1)")] ++
    if 0 ≤ cseq then [(ascii "CSeq", decimal cseq.toNat)] else []

/-- A header that may come behind them. -/
def IsExtra (key : Bytes) : Prop := IsKey key ∧ (trim key).map tolower ≠ ascii "cseq"

instance (key : Bytes) : Decidable (IsExtra key) := by
  unfold IsExtra
  infer_instance

theorem commonHeaders_ofKeys {date : Bytes} (hdate : OneLine date) (cseq : Int) :
    ∀ h ∈ commonHeaders date cseq, IsKey h.1 ∧ OneLine h.2 := by
  have hkeys : IsKey (ascii "Date") ∧ IsKey (ascii "User-Agent") ∧ IsKey (ascii "CSeq") := by
    decide
  intro h hh
  rcases List.mem_append.mp hh with hh | hh
  · rcases List.mem_pair.mp hh with rfl | rfl
    · exact ⟨hkeys.1, hdate⟩
    · exact ⟨hkeys.2.1, by decide⟩
  · split at hh
    · obtain rfl := List.mem_singleton.mp hh
      exact ⟨hkeys.2.2, oneLine_decimal _⟩
    · cases hh

theorem findString_common (first date : Bytes) (cseq : Int) :
    (dictOf first (commonHeaders date cseq)).findString (ascii "cseq") =
      (if 0 ≤ cseq then some (decimal cseq.toNat) else none) ∧
    (dictOf first (commonHeaders date cseq)).findString contentLengthKey = none := by
  have hplain : ∀ name, name = ascii "cseq" ∨ name = contentLengthKey →
      (dictOf first [(ascii "Date", date), (ascii "User-Agent",
        ascii "stagefright/1.1 (Linux;Android 4.1)")]).findString name = none := by
    intro name hname
    have hother : (trim (ascii "Date")).map tolower ≠ name ∧
        (trim (ascii "User-Agent")).map tolower ≠ name ∧ requestKey ≠ name := by
      rcases hname with rfl | rfl <;> decide
    have huser := findString_dictOf first [(ascii "Date", date)] (ascii "User-Agent")
      (ascii "stagefright/1.1 (Linux;Android 4.1)") name
    have hdate := findString_dictOf first [] (ascii "Date") date name
    rw [if_neg hother.2.1] at huser
    rw [if_neg hother.1, findString_dictOf_nil _ _ hother.2.2] at hdate
    exact huser.trans hdate
  rw [commonHeaders]
  split
  · rw [findString_dictOf, findString_dictOf, if_pos (by decide), if_neg (by decide),
      trim_decimal]
    exact ⟨rfl, hplain _ (.inr rfl)⟩
  · rw [List.append_nil]
    exact ⟨hplain _ (.inl rfl), hplain _ (.inr rfl)⟩

/-- Headers behind the common ones do not hide the CSeq. -/
theorem findString_extra {first date : Bytes} {cseq : Int} {extra : List (Bytes × Bytes)}
    (hextra : ∀ h ∈ extra, IsExtra h.1) :
    (dictOf first (commonHeaders date cseq ++ extra)).findString (ascii "cseq") =
      if 0 ≤ cseq then some (decimal cseq.toNat) else none := by
  induction extra using List.reverseRecOn with
  | nil =>
    rw [List.append_nil]
    exact (findString_common first date cseq).1
  | append_singleton extra h ih =>
    obtain ⟨key, value⟩ := h
    rw [← List.append_assoc, findString_dictOf, if_neg (hextra (key, value) (by simp)).2]
    exact ih fun q hq => hextra q (by simp [hq])

theorem whole_text {first date content : Bytes} {cseq : Int} {extra : List (Bytes × Bytes)}
    (sessionID : Nat) (hfirst : OneLine first) (hhead : first.head? ≠ some 0x24) (hne : first ≠ [])
    (hdate : OneLine date) (hextra : ∀ h ∈ extra, IsExtra h.1 ∧ OneLine h.2)
    (hlength : (dictOf first (commonHeaders date cseq ++ extra)).contentLength = content.length)
    (hidr : content.take 17 ≠ NetworkSession.idrRequest) :
    Whole ⟨sessionID, cseq, text first (commonHeaders date cseq ++ extra) content⟩ := by
  refine ⟨messageOf first (commonHeaders date cseq ++ extra) content, fun rest => ?_,
    findString_extra fun h hh => (hextra h hh).1⟩
  refine complete_text ⟨hfirst, fun h hh => ?_, hlength⟩ hhead hne hidr rest
  rcases List.mem_append.mp hh with hh | hh
  · exact commonHeaders_ofKeys hdate cseq h hh
  · exact ⟨(hextra h hh).1.1, (hextra h hh).2⟩

/-- The same for a message without a content, -/
theorem whole_bare (first : Bytes) {date : Bytes} (cseq : Int) (sessionID : Nat)
    (hfirst : OneLine first) (hhead : first.head? ≠ some 0x24) (hne : first ≠ []) (hdate : OneLine date) :
    Whole ⟨sessionID, cseq, text first (commonHeaders date cseq ++ []) []⟩ := by
  refine whole_text sessionID hfirst hhead hne hdate (by simp) ?_ (by decide)
  rw [List.append_nil, Dict.contentLength, Dict.findInt32, (findString_common first date cseq).2]
  rfl

/-- and with one header more. -/
theorem whole_one (first key value : Bytes) {date : Bytes} (cseq : Int) (sessionID : Nat)
    (hfirst : OneLine first) (hhead : first.head? ≠ some 0x24) (hne : first ≠ [])
    (hdate : OneLine date)
    (hkey : IsExtra key ∧ (trim key).map tolower ≠ contentLengthKey) (hvalue : OneLine value) :
    Whole ⟨sessionID, cseq, text first (commonHeaders date cseq ++ [(key, value)]) []⟩ := by
  refine whole_text sessionID hfirst hhead hne hdate (fun h hh => ?_) ?_ (by decide)
  · obtain rfl := List.mem_singleton.mp hh
    exact ⟨hkey.1, hvalue⟩
  · rw [Dict.contentLength, Dict.findInt32, findString_dictOf, if_neg hkey.2,
      (findString_common first date cseq).2]
    rfl

theorem commonResponse_eq (date : Bytes) (cseq : Int) :
    commonResponse date cseq = headersText (commonHeaders date cseq) := by
  rw [commonResponse, commonHeaders]
  split <;>
    simp only [headersText, headerText, List.append_assoc, List.flatMap_cons, List.flatMap_nil,
      List.append_nil, List.cons_append, List.nil_append] <;> rfl

theorem text_append (first : Bytes) (headers extra : List (Bytes × Bytes)) (content : Bytes) :
    text first (headers ++ extra) content =
      first ++ (crlf ++ (headersText headers ++ (headersText extra ++ (crlf ++ content)))) := by
  simp [text, headersText]

theorem oneLine_cStr {l : Bytes} (h : OneLine l) : OneLine (cStr l) :=
  h.of_infix (List.takeWhile_prefix _).isInfix

/-- The first line of a request for a URI. -/
theorem oneLine_request (method : Bytes) {uri : Bytes} (hmethod : OneLine method)
    (hlast : method.getLast? ≠ some 0x0d) (huri : OneLine uri) :
    OneLine (method ++ cStr uri ++ ascii " RTSP/1.0") :=
  (hmethod.append (oneLine_cStr huri) (.inl hlast)).append (by decide) (.inr (by decide))

section texts
variable (sessionID : Nat) {date : Bytes} (hdate : OneLine date) (cseq : Int)
include hdate

theorem whole_m2 : Whole ⟨sessionID, cseq, m2Text date cseq⟩ := by
  have h := whole_one (ascii "OPTIONS * RTSP/1.0") (ascii "Require")
    (ascii "org.wfa.wfd1.0") cseq sessionID (by decide) (by decide) (by decide) hdate
    (by decide) (by decide)
  rw [text_append] at h
  rw [m2Text, commonResponse_eq]
  simp only [List.append_assoc] at h ⊢
  exact h

theorem whole_describe {uri : Bytes} (huri : OneLine uri) :
    Whole ⟨sessionID, cseq, describeText date cseq uri⟩ := by
  have hfirst := oneLine_request (ascii "DESCRIBE ") (by decide) (by decide) huri
  have h := whole_one _ (ascii "Accept") (ascii "application/sdp") cseq sessionID
    hfirst (by simp [ascii]) (by simp [ascii]) hdate (by decide) (by decide)
  rw [text_append] at h
  rw [describeText, commonResponse_eq]
  simp only [List.append_assoc] at h ⊢
  exact h

theorem whole_setup {uri : Bytes} (huri : OneLine uri) (rtpPort : Nat) :
    Whole ⟨sessionID, cseq, setupText date cseq uri rtpPort⟩ := by
  have hfirst := oneLine_request (ascii "SETUP ") (by decide) (by decide) huri
  have hports : OneLine (ascii "RTP/AVP/UDP;unicast;client_port=" ++ (decimal rtpPort ++
      (ascii "-" ++ decimal (rtpPort + 1)))) :=
    OneLine.append (by decide) ((oneLine_decimal _).append
      (OneLine.append (by decide) (oneLine_decimal _) (.inl (by decide)))
      (.inr (by simp [ascii]))) (.inl (by decide))
  have h := whole_one _ (ascii "Transport") _ cseq sessionID hfirst (by simp [ascii])
    (by simp [ascii]) hdate (by decide) hports
  rw [text_append] at h
  rw [setupText, commonResponse_eq]
  simp only [headersText, headerText, List.flatMap_cons, List.flatMap_nil, List.append_nil,
    List.append_assoc] at h ⊢
  exact h

theorem whole_play {uri session : Bytes} (huri : OneLine uri) (hsession : OneLine session) :
    Whole ⟨sessionID, cseq, playText date cseq uri session⟩ := by
  have hfirst := oneLine_request (ascii "PLAY ") (by decide) (by decide) huri
  have h := whole_one _ (ascii "Session") _ cseq sessionID hfirst (by simp [ascii])
    (by simp [ascii]) hdate (by decide) (oneLine_cStr hsession)
  rw [text_append] at h
  rw [playText, commonResponse_eq]
  simp only [headersText, headerText, List.flatMap_cons, List.flatMap_nil, List.append_nil,
    List.append_assoc] at h ⊢
  exact h

theorem whole_options : Whole ⟨sessionID, cseq, optionsText date cseq⟩ := by
  have h := whole_one (ascii "RTSP/1.0 200 OK") (ascii "Public")
    (ascii "org.wfa.wfd1.0, GET_PARAMETER, SET_PARAMETER") cseq sessionID (by decide)
    (by decide) (by decide) hdate (by decide) (by decide)
  rw [text_append] at h
  rw [optionsText, commonResponse_eq]
  simp only [List.append_assoc] at h ⊢
  exact h

theorem whole_setParameter : Whole ⟨sessionID, cseq, setParameterText date cseq⟩ := by
  have h := whole_bare (ascii "RTSP/1.0 200 OK") cseq sessionID (by decide) (by decide)
    (by decide) hdate
  rw [text_append] at h
  rw [setParameterText, commonResponse_eq]
  simp only [List.append_assoc] at h ⊢
  exact h

theorem whole_error {errorDetail : Bytes} (hdetail : OneLine errorDetail) :
    Whole ⟨sessionID, cseq, errorText date cseq errorDetail⟩ := by
  have hfirst : OneLine (ascii "RTSP/1.0 " ++ errorDetail) :=
    OneLine.append (by decide) hdetail (.inl (by decide))
  have h := whole_bare _ cseq sessionID hfirst (by simp [ascii]) (by simp [ascii]) hdate
  rw [text_append] at h
  rw [errorText, commonResponse_eq]
  simp only [List.append_assoc] at h ⊢
  exact h

/-- The content is as long as the message says. -/
theorem whole_content {content : Bytes} (hlen : content.length ≤ 1023)
    (hidr : content.take 17 ≠ NetworkSession.idrRequest) :
    Whole ⟨sessionID, cseq, ascii "RTSP/1.0 200 OK\r\n" ++ commonResponse date cseq ++
      ascii "Content-Type: text/parameters\r\n" ++ ascii "Content-Length: " ++
      decimal content.length ++ crlf ++ crlf ++ content⟩ := by
  have hkeys : IsExtra (ascii "Content-Type") ∧ IsExtra (ascii "Content-Length") := by decide
  have hlength : (dictOf (ascii "RTSP/1.0 200 OK") (commonHeaders date cseq ++
      ([(ascii "Content-Type", ascii "text/parameters")] ++
        [(ascii "Content-Length", decimal content.length)]))).contentLength = content.length := by
    rw [← List.append_assoc, Dict.contentLength, findInt32_decimal (n := content.length) (by omega)]
    · rfl
    · rw [findString_dictOf, if_pos (by decide), trim_decimal]
  have heq : ∀ value content : Bytes, ascii "RTSP/1.0 200 OK\r\n" ++ commonResponse date cseq ++
      ascii "Content-Type: text/parameters\r\n" ++ ascii "Content-Length: " ++ value ++ crlf ++
        crlf ++ content = text (ascii "RTSP/1.0 200 OK") (commonHeaders date cseq ++
          ([(ascii "Content-Type", ascii "text/parameters")] ++
            [(ascii "Content-Length", value)])) content := by
    intro value content
    rw [text_append, commonResponse_eq]
    simp only [headersText, headerText, List.flatMap_cons, List.flatMap_nil, List.append_nil,
      List.append_assoc, List.cons_append, List.nil_append]
    rfl
  rw [heq]
  refine whole_text sessionID (by decide) (by decide) (by decide) hdate (fun h hh => ?_) hlength
    hidr
  rcases List.mem_pair.mp hh with rfl | rfl
  · exact ⟨hkeys.1, by decide⟩
  · exact ⟨hkeys.2, oneLine_decimal _⟩

omit hdate in
theorem take_parameters (rtpPort : Nat) :
    (parameters rtpPort).take 17 = ascii "wfd_video_formats" := by
  rw [parameters, List.take_take]
  rfl

theorem whole_getParameter (rtpPort : Nat) :
    Whole ⟨sessionID, cseq, getParameterText date cseq rtpPort⟩ := by
  refine whole_content sessionID hdate cseq ?_ ?_
  · rw [parameters, List.length_take]
    exact Nat.min_le_left _ _
  · rw [take_parameters]
    decide

end texts

/-! ### The invariant -/

theorem withoutUser_within (host : Bytes) : withoutUser host <:+: host := by
  rw [withoutUser]
  split
  · exact ((List.tail_suffix _).trans (List.dropWhile_suffix _)).isInfix
  · exact List.infix_refl host

theorem withoutPort_within (host : Bytes) : withoutPort host <:+: host := by
  rw [withoutPort]
  split
  · split
    · exact (List.takeWhile_prefix _).isInfix
    · exact List.infix_refl host
  · exact List.infix_refl host

theorem hostOf_within (url : Bytes) : hostOf url <:+: url := by
  have hhost : ((cStr url).drop 7).takeWhile (· ≠ 0x2f) <:+: url :=
    ((List.takeWhile_prefix _).isInfix.trans (List.drop_suffix _ _).isInfix).trans
      (List.takeWhile_prefix _).isInfix
  rw [hostOf]
  split
  · exact ((withoutPort_within _).trans (withoutUser_within _)).trans hhost
  · exact List.nil_infix

/-- The counter of the CSeqs has not come to its end. -/
def Few (s : Sink) : Prop := s.requests.length < 2147483647

/-- The CSeqs are numbered. While they are few each request is waiting for its response or has had
    it, and PLAY comes behind the response of SETUP. The texts are whole messages if what the sink
    was given is `plain`. -/
structure Sound (plain : Prop) (s : Sink) : Prop where
  uri : plain → OneLine s.setupURI
  host : plain → OneLine s.rtspHost
  playback : plain → OneLine s.playbackSessionID
  texts : plain → ∀ q ∈ s.sent, Whole q
  next : s.nextCSeq = counted 1 s.requests.length
  numbered : Numbered 1 (s.requests.map fun q => q.1.2)
  once : Few s → (s.handled ++ s.responseHandlers).Perm s.requests
  afterSetup : Few s → ∀ q ∈ s.requests, q.2 = .onReceivePlayResponse →
    ∃ c < q.1.2, ((q.1.1, c), Handler.onReceiveSetupResponse) ∈ s.handled
  playing : s.phase = .playing → ∃ q ∈ s.handled, q.2 = .onReceivePlayResponse

variable {plain : Prop}

theorem sound_start : Sound plain start :=
  ⟨fun _ => rfl, fun _ => rfl, fun _ => rfl, by simp [start], by simp [start, counted],
    numbered_nil, fun _ => .nil, by simp [start], by simp [start]⟩

/-- The next CSeq is greater than those of the requests. -/
theorem Sound.below {s : Sink} (h : Sound plain s) (hfew : Few s) {q : ResponseID × Handler}
    (hq : q ∈ s.requests) : q.1.2 < s.nextCSeq := by
  rw [h.next, ← List.length_map (fun q : ResponseID × Handler => q.1.2)]
  refine h.numbered.lt (by decide) ?_ (List.mem_map_of_mem hq)
  rw [List.length_map]
  have : s.requests.length < 2147483647 := hfew
  omega

theorem Sound.single {s : Sink} (h : Sound plain s) (hfew : Few s) :
    (s.requests.map fun q => q.1.2).Nodup := by
  refine h.numbered.nodup ?_
  rw [List.length_map]
  have : s.requests.length < 2147483647 := hfew
  omega

theorem sendRequest_sound {s : Sink} (h : Sound plain s) {sessionID : Nat} {cseq : Int}
    {text : Bytes} (hwhole : plain → Whole ⟨sessionID, cseq, text⟩) :
    Sound plain (sendRequest s sessionID cseq text).1 := by
  rw [sendRequest]
  split
  · refine ⟨h.uri, h.host, h.playback, fun hp q hq => ?_, h.next, h.numbered, h.once,
      h.afterSetup, h.playing⟩
    rcases List.mem_append.mp hq with hq | hq
    · exact h.texts hp q hq
    · obtain rfl := List.mem_singleton.mp hq
      exact hwhole hp
  · exact h

/-- A new CSeq is under no handler. -/
theorem filter_fresh {s : Sink} (h : Sound plain s) (hfew : Few s) (sessionID : Nat) :
    s.responseHandlers.filter (·.1 ≠ (sessionID, s.nextCSeq)) = s.responseHandlers := by
  refine List.filter_eq_self.mpr fun q hq => ?_
  have hlt := h.below hfew ((h.once hfew).subset (List.mem_append_right _ hq))
  rw [decide_eq_true_eq]
  intro heq
  rw [heq] at hlt
  exact absurd hlt (lt_irrefl _)

theorem sendTracked_sound {s : Sink} (h : Sound plain s) {sessionID : Nat} {text : Bytes}
    {handler : Handler} (hwhole : plain → Whole ⟨sessionID, s.nextCSeq, text⟩)
    (hplay : handler = .onReceivePlayResponse →
      ∃ c, ((sessionID, c), Handler.onReceiveSetupResponse) ∈ s.handled) :
    Sound plain (sendTracked s sessionID text handler) := by
  have hsent := sendRequest_sound h hwhole
  rw [sendTracked]
  dsimp only
  split
  case isFalse => exact hsent
  case isTrue hfound =>
    have hlive : sessionID ∈ s.live := by
      by_contra hnot
      simp [sendRequest, hnot] at hfound
    have heq : (sendRequest s sessionID s.nextCSeq text).1 =
        { s with sent := s.sent ++ [⟨sessionID, s.nextCSeq, text⟩] } := by
      rw [sendRequest, if_pos hlive]
    rw [heq] at hsent ⊢
    have hbefore : ∀ q : ResponseID × Handler,
        (s.requests ++ [q]).length < 2147483647 → Few s := by
      intro q hfew
      rw [List.length_append, List.length_singleton] at hfew
      exact Nat.lt_of_succ_lt hfew
    refine ⟨h.uri, h.host, h.playback, hsent.texts, ?_, ?_, fun hfew => ?_, fun hfew q hq hq' => ?_,
      h.playing⟩
    · rw [h.next, countUp_counted, List.length_append, List.length_singleton]
    · rw [List.map_append, List.map_singleton, h.next]
      simpa using h.numbered.concat
    · rw [registerResponseHandler, filter_fresh h (hbefore _ hfew), ← List.append_assoc]
      exact (h.once (hbefore _ hfew)).append_right _
    · have hfew' := hbefore _ hfew
      rcases List.mem_append.mp hq with hq | hq
      · exact h.afterSetup hfew' q hq hq'
      · obtain rfl := List.mem_singleton.mp hq
        obtain ⟨c, hc⟩ := hplay hq'
        exact ⟨c, h.below hfew' ((h.once hfew').subset (List.mem_append_left _ hc)), hc⟩

theorem withRtpSink_sound {s : Sink} (h : Sound plain s) (env : Env) :
    Sound plain (withRtpSink s env) :=
  ⟨h.uri, h.host, h.playback, h.texts, h.next, h.numbered, h.once, h.afterSetup, h.playing⟩

theorem sendM2_sound {s : Sink} (h : Sound plain s) {env : Env} (hdate : plain → OneLine env.date)
    (sessionID : Nat) : Sound plain (sendM2 s env sessionID) :=
  sendTracked_sound h (fun hp => whole_m2 _ (hdate hp) _) (by simp)

theorem sendDescribe_sound {s : Sink} (h : Sound plain s) {env : Env}
    (hdate : plain → OneLine env.date) (sessionID : Nat) {uri : Bytes}
    (huri : plain → OneLine uri) : Sound plain (sendDescribe s env sessionID uri) :=
  sendTracked_sound h (fun hp => whole_describe _ (hdate hp) _ (huri hp)) (by simp)

theorem sendSetup_sound {s : Sink} (h : Sound plain s) {env : Env}
    (hdate : plain → OneLine env.date) (sessionID : Nat) {uri : Bytes}
    (huri : plain → OneLine uri) : Sound plain (sendSetup s env sessionID uri) := by
  rw [sendSetup]
  split
  · exact h
  · exact sendTracked_sound (withRtpSink_sound h env)
      (fun hp => whole_setup _ (hdate hp) _ (huri hp) _) (by simp)

theorem sendPlay_sound {s : Sink} (h : Sound plain s) {env : Env}
    (hdate : plain → OneLine env.date) {sessionID : Nat} {uri : Bytes} (huri : plain → OneLine uri)
    (hsetup : ∃ c, ((sessionID, c), Handler.onReceiveSetupResponse) ∈ s.handled) :
    Sound plain (sendPlay s env sessionID uri) :=
  sendTracked_sound h (fun hp => whole_play _ (hdate hp) _ (huri hp) (h.playback hp)) fun _ => hsetup

theorem oneLine_streamUrl {s : Sink} (h : OneLine s.rtspHost) : OneLine (streamUrl s) :=
  ((show OneLine (ascii "rtsp://") by decide).append (oneLine_cStr h) (.inl (by decide))).append
    (by decide) (.inr (by decide))

/-- The fields that no other part of the invariant speaks of. -/
theorem sound_congr {s s' : Sink} (h : Sound plain s) (huri : s'.setupURI = s.setupURI)
    (hhost : s'.rtspHost = s.rtspHost) (hplayback : s'.playbackSessionID = s.playbackSessionID)
    (hsent : s'.sent = s.sent) (hnext : s'.nextCSeq = s.nextCSeq)
    (hrequests : s'.requests = s.requests) (hhandled : s'.handled = s.handled)
    (hhandlers : s'.responseHandlers = s.responseHandlers)
    (hphase : s'.phase = .playing → s.phase = .playing) : Sound plain s' :=
  ⟨by rw [huri]; exact h.uri, by rw [hhost]; exact h.host, by rw [hplayback]; exact h.playback,
    by rw [hsent]; exact h.texts,
    by rw [hrequests, hnext]; exact h.next, hrequests ▸ h.numbered,
    by rw [Few, hrequests, hhandled, hhandlers]; exact h.once,
    by rw [Few, hrequests, hhandled]; exact h.afterSetup,
    fun hplaying => hhandled ▸ h.playing (hphase hplaying)⟩

theorem configureTransport_sound {s : Sink} (h : Sound plain s) (env : Env) (m : Message) :
    Sound plain (configureTransport s env m).1 ∧
      (configureTransport s env m).1.handled = s.handled := by
  rw [configureTransport]
  split
  · exact ⟨h, rfl⟩
  · dsimp only
    split
    · exact ⟨sound_congr h rfl rfl rfl rfl rfl rfl rfl rfl id, rfl⟩
    · exact ⟨sound_congr h rfl rfl rfl rfl rfl rfl rfl rfl id, rfl⟩

theorem oneLine_stripOptions {session : Bytes} (h : OneLine session) :
    OneLine (stripOptions session) := by
  rw [stripOptions]
  split
  · exact h.of_infix (List.takeWhile_prefix _).isInfix
  · exact h

theorem withPlayback_sound {s : Sink} (h : Sound plain s) {session : Bytes}
    (hsession : plain → OneLine session) : Sound plain (withPlayback s session) :=
  ⟨h.uri, h.host, fun hp => oneLine_stripOptions (hsession hp), h.texts, h.next, h.numbered, h.once,
    h.afterSetup, h.playing⟩

theorem onSetupAccepted_sound {s : Sink} (h : Sound plain s) {env : Env}
    (hdate : plain → OneLine env.date) {sessionID : Nat} {m : Message} (hm : OfLines m.dict)
    (hsetup : ∃ c, ((sessionID, c), Handler.onReceiveSetupResponse) ∈ s.handled) :
    Sound plain (onSetupAccepted s env sessionID m) := by
  rw [onSetupAccepted]
  split
  · exact ⟨h.uri, h.host, fun _ => rfl, h.texts, h.next, h.numbered, h.once, h.afterSetup,
      h.playing⟩
  · next session hfound =>
    obtain ⟨hconfigured, hhandled⟩ :=
      configureTransport_sound (withPlayback_sound h (fun _ => hm.findString hfound)) env m
    dsimp only
    split
    · have hpaused : Sound plain { (configureTransport (withPlayback s session) env m).1 with
          phase := .paused } := sound_congr hconfigured rfl rfl rfl rfl rfl rfl rfl rfl (by simp)
      refine sendPlay_sound hpaused hdate ?_ ?_
      · split
        · exact h.uri
        · exact fun hp => oneLine_streamUrl (h.host hp)
      · obtain ⟨c, hc⟩ := hsetup
        exact ⟨c, by rw [hhandled]; exact hc⟩
    · exact hconfigured

theorem handle_sound {s : Sink} (h : Sound plain s) {env : Env} (hdate : plain → OneLine env.date)
    {sessionID : Nat} {cseq : Int} {handler : Handler} {m : Message} (hm : OfLines m.dict)
    (hhandled : ((sessionID, cseq), handler) ∈ s.handled) :
    Sound plain (handle s env sessionID handler m) := by
  unfold handle
  split
  · exact sound_congr h rfl rfl rfl rfl rfl rfl rfl rfl id
  · cases handler with
    | onReceiveM2Response => exact h
    | onReceiveDescribeResponse => exact sendSetup_sound h hdate _ h.uri
    | onReceiveSetupResponse => exact onSetupAccepted_sound h hdate hm ⟨cseq, hhandled⟩
    | onReceivePlayResponse =>
      exact ⟨h.uri, h.host, h.playback, h.texts, h.next, h.numbered, h.once, h.afterSetup,
        fun _ => ⟨_, hhandled, rfl⟩⟩
  · exact h

/-- Handlers of different responses: one is taken away. -/
theorem perm_filter_id {l : List (ResponseID × Handler)} (h : (l.map Prod.fst).Nodup)
    {q : ResponseID × Handler} (hq : q ∈ l) : l.Perm (q :: l.filter (·.1 ≠ q.1)) := by
  have herase : l.erase q = l.filter (·.1 ≠ q.1) := by
    rw [(List.Nodup.of_map _ h).erase_eq_filter]
    refine List.filter_congr fun p hp => ?_
    by_cases heq : p = q
    · simp [heq]
    · have hid : p.1 ≠ q.1 := fun hid => heq (List.inj_on_of_nodup_map h hp hq hid)
      simp [heq, hid]
  exact herase ▸ List.perm_cons_erase hq

theorem handlers_nodup {s : Sink} (h : Sound plain s) (hfew : Few s) :
    (s.responseHandlers.map Prod.fst).Nodup := by
  have hall := ((h.once hfew).map fun q => q.1.2).nodup_iff.mpr (h.single hfew)
  rw [List.map_append] at hall
  have hcseqs := (List.nodup_append.mp hall).2.1
  rw [show (fun q : ResponseID × Handler => q.1.2) = Prod.snd ∘ Prod.fst from rfl,
    ← List.map_map] at hcseqs
  exact List.Nodup.of_map _ hcseqs

theorem mem_of_handlerOf {s : Sink} {id : ResponseID} {handler : Handler}
    (h : handlerOf s id = some handler) : (id, handler) ∈ s.responseHandlers := by
  obtain ⟨q, hq, rfl⟩ := Option.map_eq_some_iff.mp h
  have hid : q.1 = id := by simpa using List.find?_some hq
  exact hid ▸ List.mem_of_find?_eq_some hq

theorem taken_sound {s : Sink} (h : Sound plain s) {id : ResponseID} {handler : Handler}
    (hmem : (id, handler) ∈ s.responseHandlers) : Sound plain (taken s id handler) := by
  refine ⟨h.uri, h.host, h.playback, h.texts, h.next, h.numbered, fun hfew => ?_,
    fun hfew q hq hplay => ?_, fun hplaying => ?_⟩
  · rw [taken, List.append_assoc]
    exact ((perm_filter_id (handlers_nodup h hfew) hmem).symm.append_left _).trans (h.once hfew)
  · obtain ⟨c, hlt, hc⟩ := h.afterSetup hfew q hq hplay
    exact ⟨c, hlt, List.mem_append_left _ hc⟩
  · obtain ⟨q, hq, hplay⟩ := h.playing hplaying
    exact ⟨q, List.mem_append_left _ hq, hplay⟩

theorem onResponse_sound {s : Sink} (h : Sound plain s) {env : Env}
    (hdate : plain → OneLine env.date) (sessionID : Nat) (cseq : Int) {m : Message}
    (hm : OfLines m.dict) : Sound plain (onResponse s env sessionID cseq m) := by
  rw [onResponse]
  split
  · exact h
  · next handler hfound =>
    exact handle_sound (taken_sound h (mem_of_handlerOf hfound)) hdate hm
      (List.mem_append_right _ (List.mem_singleton_self _))

theorem onRequest_sound {s : Sink} (h : Sound plain s) {env : Env}
    (hdate : plain → OneLine env.date) (sessionID : Nat) (method : Bytes) (cseq : Int)
    (m : Message) : Sound plain (onRequest s env sessionID method cseq m) := by
  rw [onRequest]
  split
  · exact sound_congr h rfl rfl rfl rfl rfl rfl rfl rfl id
  · split
    · exact sendRequest_sound h fun hp => whole_error _ (hdate hp) _ (by decide)
    split
    · exact sendM2_sound (sendRequest_sound h fun hp => whole_options _ (hdate hp) _) hdate _
    split
    · rw [onGetParameterRequest]
      split
      · exact h
      · exact sendRequest_sound (withRtpSink_sound h env) fun hp =>
          whole_getParameter _ (hdate hp) _ _
    split
    · rw [onSetParameterRequest]
      have hsent := sendRequest_sound h fun hp => whole_setParameter sessionID (hdate hp) cseq
      split
      · exact sendSetup_sound hsent hdate _ fun hp => oneLine_streamUrl (hsent.host hp)
      · exact hsent
    · exact sendRequest_sound h fun hp => whole_error _ (hdate hp) _ (by decide)

theorem onReceiveClientData_sound {s : Sink} (h : Sound plain s) {env : Env}
    (hdate : plain → OneLine env.date) (sessionID : Nat) {m : Message} (hm : OfLines m.dict) :
    Sound plain (onReceiveClientData s env sessionID m) := by
  rw [onReceiveClientData]
  split
  · exact sound_congr h rfl rfl rfl rfl rfl rfl rfl rfl id
  · split
    · exact sendRequest_sound h fun hp => whole_error _ (hdate hp) _ (by decide)
    · split
      · exact onResponse_sound h hdate _ _ hm
      · exact onRequest_sound h hdate _ _ _ _

/-- What the application gives has no CR LF in it, and neither has a date. -/
def Plain : Action → Prop
  | .startUri uri _ => OneLine uri
  | .startHost host _ => OneLine host
  | .connected env | .data env _ _ => OneLine env.date
  | _ => True

theorem step_sound {s s' : Sink} {a : Action} (h : Sound plain s) (hplain : plain → Plain a)
    (hstep : step s a = some s') : Sound plain s' := by
  unfold step at hstep
  split at hstep
  · cases hstep
  · cases a with
    | startUri uri session =>
      dsimp only at hstep
      split at hstep
      · cases hstep
        exact ⟨hplain, fun hp => OneLine.of_infix (hplain hp) (hostOf_within uri), h.playback,
          h.texts, h.next, h.numbered, h.once, h.afterSetup, by simp [connect]⟩
      · cases hstep
    | startHost host session =>
      dsimp only at hstep
      split at hstep
      · cases hstep
        exact ⟨h.uri, hplain, h.playback, h.texts, h.next, h.numbered, h.once, h.afterSetup,
          by simp [connect]⟩
      · cases hstep
    | error sessionID =>
      cases hstep
      split
      · exact sound_congr h rfl rfl rfl rfl rfl rfl rfl rfl id
      · exact h
    | connected env =>
      cases hstep
      have hconnected : Sound plain { s with phase := .connected } :=
        sound_congr h rfl rfl rfl rfl rfl rfl rfl rfl (by simp)
      split
      · exact sendDescribe_sound hconnected hplain _ h.uri
      · exact hconnected
    | data env sessionID m =>
      cases hstep
      obtain ⟨m, data, length, hparse⟩ := m
      exact onReceiveClientData_sound h hplain sessionID (ofLines_parse hparse)
    | binaryData =>
      cases hstep
      split
      · exact sound_congr h rfl rfl rfl rfl rfl rfl rfl rfl id
      · exact h
    | stop =>
      cases hstep
      exact sound_congr h rfl rfl rfl rfl rfl rfl rfl rfl id

theorem sound_of_run {as : List Action} {s : Sink} (hrun : run step start as = some s)
    (hplain : plain → ∀ a ∈ as, Plain a) : Sound plain s :=
  have hok : Along step (fun _ a => plain → Plain a) start as :=
    along_of_forall fun a ha hp => hplain hp a ha
  run_invariant (fun _ _ _ h hok hstep => step_sound h hok hstep) hrun hok sound_start

/-! ### A sink that does not fault -/

/-- The first line of a message has the fields that are read of it. -/
def firstLine (m : Message) : Bool :=
  (if isResponse ((getRequestField m 0).getD []) then 1 else 2) ≤ (cStr (requestLine m)).count 0x20

/-- SETUP has been sent on the session that the sink has. -/
def behindSetup (s : Sink) : Bool :=
  s.requests.any fun q => q.2 = .onReceiveSetupResponse ∧ q.1.1 = s.sessionID

/-- Messages come from the session that the sink has, and binary data behind SETUP. -/
def regular (s : Sink) : Action → Bool
  | .data _ sessionID m => sessionID = s.sessionID ∧ firstLine m.1
  | .binaryData => behindSetup s
  | _ => true

/-- When SETUP has been sent on the session of the sink, there is an `RTPSink`. -/
structure Served (s : Sink) : Prop where
  calm : s.fault = none
  asked : ∀ q ∈ s.responseHandlers, q ∈ s.requests
  known : ∀ q ∈ s.requests, q.1.1 ∈ s.created
  live : ∀ id ∈ s.live, id ∈ s.created
  nonzero : 0 ∉ s.created
  setup : ∀ q ∈ s.requests, q.2 = .onReceiveSetupResponse → q.1.1 = s.sessionID →
    s.rtpSink ≠ none

theorem served_start : Served start :=
  ⟨rfl, by simp [start], by simp [start], by simp [start], by simp [start], by simp [start]⟩

theorem Served.behindSetup {s : Sink} (h : Served s) (hsetup : behindSetup s = true) :
    s.rtpSink ≠ none := by
  obtain ⟨q, hq, hsent⟩ := List.any_eq_true.mp hsetup
  obtain ⟨hhandler, hid⟩ := of_decide_eq_true hsent
  exact h.setup q hq hhandler hid

theorem sendRequest_served {s : Sink} (h : Served s) (sessionID : Nat) (cseq : Int) (text : Bytes) :
    Served (sendRequest s sessionID cseq text).1 := by
  rw [sendRequest]
  split
  · exact ⟨h.calm, h.asked, h.known, h.live, h.nonzero, h.setup⟩
  · exact h

theorem sendTracked_served {s : Sink} (h : Served s) (sessionID : Nat) (text : Bytes)
    {handler : Handler} (hsetup : handler = .onReceiveSetupResponse → s.rtpSink ≠ none) :
    Served (sendTracked s sessionID text handler) := by
  by_cases hlive : sessionID ∈ s.live
  · simp only [sendTracked, sendRequest, if_pos hlive, if_true, registerResponseHandler]
    refine ⟨h.calm, fun q hq => ?_, fun q hq => ?_, h.live, h.nonzero, fun q hq hq' hid => ?_⟩
    all_goals rcases List.mem_append.mp hq with hq | hq
    · exact List.mem_append_left _ (h.asked q (List.mem_of_mem_filter hq))
    · exact List.mem_append_right _ hq
    · exact h.known q hq
    · obtain rfl := List.mem_singleton.mp hq
      exact h.live sessionID hlive
    · exact h.setup q hq hq' hid
    · obtain rfl := List.mem_singleton.mp hq
      exact hsetup hq'
  · simpa only [sendTracked, sendRequest, if_neg hlive, Bool.false_eq_true, if_false] using h

theorem sendPlay_served {s : Sink} (h : Served s) (env : Env) (sessionID : Nat) (uri : Bytes) :
    Served (sendPlay s env sessionID uri) :=
  sendTracked_served h _ _ (by simp)

theorem withRtpSink_served {s : Sink} (h : Served s) (env : Env) : Served (withRtpSink s env) := by
  refine ⟨h.calm, h.asked, h.known, h.live, h.nonzero, fun q hq hq' hid => ?_⟩
  obtain ⟨port, hport⟩ := Option.ne_none_iff_exists'.mp (h.setup q hq hq' hid)
  simp [withRtpSink, hport]

theorem sendSetup_served {s : Sink} (h : Served s) (env : Env) (sessionID : Nat) (uri : Bytes) :
    Served (sendSetup s env sessionID uri) := by
  rw [sendSetup]
  split
  · exact h
  · next hport =>
    exact sendTracked_served (withRtpSink_served h env) _ _ fun _ => by rw [hport]; simp

theorem taken_served {s : Sink} (h : Served s) (id : ResponseID) (handler : Handler) :
    Served (taken s id handler) :=
  ⟨h.calm, fun q hq => h.asked q (List.mem_of_mem_filter hq), h.known, h.live, h.nonzero, h.setup⟩

theorem configureTransport_served {s : Sink} (h : Served s) (hport : s.rtpSink ≠ none) (env : Env)
    (m : Message) : Served (configureTransport s env m).1 := by
  rw [configureTransport]
  split
  · exact h
  · dsimp only
    split
    · next hnone => exact absurd hnone hport
    · exact ⟨h.calm, h.asked, h.known, h.live, h.nonzero, h.setup⟩

theorem onSetupAccepted_served {s : Sink} (h : Served s) (hport : s.rtpSink ≠ none) (env : Env)
    (sessionID : Nat) (m : Message) : Served (onSetupAccepted s env sessionID m) := by
  rw [onSetupAccepted]
  split
  · exact ⟨h.calm, h.asked, h.known, h.live, h.nonzero, h.setup⟩
  · next session _ =>
    have hplayback : Served (withPlayback s session) :=
      ⟨h.calm, h.asked, h.known, h.live, h.nonzero, h.setup⟩
    have hconfigured := configureTransport_served hplayback hport env m
    dsimp only
    split
    · refine sendPlay_served ?_ _ _ _
      exact ⟨hconfigured.calm, hconfigured.asked, hconfigured.known, hconfigured.live,
        hconfigured.nonzero, hconfigured.setup⟩
    · exact hconfigured

theorem handle_served {s : Sink} (h : Served s) (env : Env) (sessionID : Nat) {handler : Handler}
    {m : Message} (hcode : getRequestField m 1 ≠ none)
    (hport : handler = .onReceiveSetupResponse → s.rtpSink ≠ none) :
    Served (handle s env sessionID handler m) := by
  unfold handle
  split
  · next hnone => exact absurd (Option.map_eq_none_iff.mp hnone) hcode
  · cases handler with
    | onReceiveM2Response => exact h
    | onReceiveDescribeResponse => exact sendSetup_served h _ _ _
    | onReceiveSetupResponse => exact onSetupAccepted_served h (hport rfl) _ _ _
    | onReceivePlayResponse => exact ⟨h.calm, h.asked, h.known, h.live, h.nonzero, h.setup⟩
  · exact h

theorem onResponse_served {s : Sink} (h : Served s) (env : Env) (cseq : Int) {m : Message}
    (hcode : getRequestField m 1 ≠ none) : Served (onResponse s env s.sessionID cseq m) := by
  rw [onResponse]
  split
  · exact h
  · next handler hfound =>
    exact handle_served (taken_served h _ _) env _ hcode fun hsetup =>
      h.setup _ (h.asked _ (mem_of_handlerOf hfound)) hsetup rfl

theorem onRequest_served {s : Sink} (h : Served s) (env : Env) (sessionID : Nat) (method : Bytes)
    (cseq : Int) {m : Message} (hversion : getRequestField m 2 ≠ none) :
    Served (onRequest s env sessionID method cseq m) := by
  rw [onRequest]
  split
  · next hnone => exact absurd hnone hversion
  · split
    · exact sendRequest_served h _ _ _
    split
    · exact sendTracked_served (sendRequest_served h _ _ _) _ _ (by simp)
    split
    · rw [onGetParameterRequest]
      split
      · exact h
      · exact sendRequest_served (withRtpSink_served h env) _ _ _
    split
    · rw [onSetParameterRequest]
      have hsent := sendRequest_served h sessionID cseq (setParameterText env.date cseq)
      split
      · exact sendSetup_served hsent _ _ _
      · exact hsent
    · exact sendRequest_served h _ _ _

theorem onReceiveClientData_served {s : Sink} (h : Served s) (env : Env) {m : Message}
    (hline : firstLine m = true) : Served (onReceiveClientData s env s.sessionID m) := by
  have hfields : ∀ index ≤ if isResponse ((getRequestField m 0).getD []) then 1 else 2,
      getRequestField m index ≠ none := fun index hindex =>
    getRequestField_ne_none_iff.mpr (le_trans hindex (of_decide_eq_true hline))
  rw [onReceiveClientData]
  split
  · next hnone => exact absurd hnone (hfields 0 (Nat.zero_le _))
  · next method hmethod =>
    rw [hmethod, Option.getD_some] at hfields
    split
    · exact sendRequest_served h _ _ _
    · split
      · next hresponse => exact onResponse_served h env _ (hfields 1 (by rw [if_pos hresponse]))
      · next hrequest => exact onRequest_served h env _ _ _ (hfields 2 (by rw [if_neg hrequest]))

/-- A new session is no session that a handler waits on. -/
theorem connect_served {s : Sink} (h : Served s) {session : Option Nat}
    (hnew : ∀ id ∈ session, id ≠ 0 ∧ id ∉ s.created) : Served (connect s session) := by
  refine ⟨h.calm, h.asked, fun q hq => List.mem_append_right _ (h.known q hq), fun id hid => ?_, ?_,
    fun q hq _ hid => ?_⟩
  · rcases List.mem_append.mp hid with hid | hid
    · exact List.mem_append_left _ hid
    · exact List.mem_append_right _ (h.live id hid)
  · intro hzero
    rcases List.mem_append.mp hzero with hzero | hzero
    · exact (hnew 0 (Option.mem_toList.mp hzero)).1 rfl
    · exact h.nonzero hzero
  · exfalso
    have hknown := h.known q hq
    rw [hid] at hknown
    cases session with
    | none => exact h.nonzero hknown
    | some id => exact (hnew id rfl).2 hknown

theorem leave_served {s : Sink} (h : Served s) : Served (leave s) := by
  refine ⟨h.calm, h.asked, h.known, fun id hid => h.live id (List.mem_of_mem_filter hid), h.nonzero,
    fun q hq _ hid => ?_⟩
  have hknown := h.known q hq
  rw [hid] at hknown
  exact absurd hknown h.nonzero

theorem step_served {s s' : Sink} {a : Action} (h : Served s) (hregular : regular s a = true)
    (hstep : step s a = some s') : Served s' := by
  unfold step at hstep
  rw [if_neg (by rw [h.calm]; simp)] at hstep
  cases a with
  | startUri uri session =>
    dsimp only at hstep
    split at hstep
    · next hnew =>
      cases hstep
      refine connect_served (s := { s with setupURI := uri, rtspHost := hostOf uri })
        ⟨h.calm, h.asked, h.known, h.live, h.nonzero, h.setup⟩ fun id hid => ?_
      simpa using Option.all_eq_true _ _ |>.mp hnew id hid
    · cases hstep
  | startHost host session =>
    dsimp only at hstep
    split at hstep
    · next hnew =>
      cases hstep
      refine connect_served (s := { s with rtspHost := host })
        ⟨h.calm, h.asked, h.known, h.live, h.nonzero, h.setup⟩ fun id hid => ?_
      simpa using Option.all_eq_true _ _ |>.mp hnew id hid
    · cases hstep
  | error sessionID =>
    cases hstep
    split
    · exact leave_served h
    · exact h
  | connected env =>
    cases hstep
    have hconnected : Served { s with phase := .connected } :=
      ⟨h.calm, h.asked, h.known, h.live, h.nonzero, h.setup⟩
    split
    · exact sendTracked_served hconnected _ _ (by simp)
    · exact hconnected
  | data env sessionID m =>
    cases hstep
    obtain ⟨rfl, hline⟩ := of_decide_eq_true hregular
    exact onReceiveClientData_served h env hline
  | binaryData =>
    cases hstep
    rw [if_neg (h.behindSetup hregular)]
    exact h
  | stop =>
    cases hstep
    exact leave_served h

/-! ### Runs -/

def uriOf : Bytes := ascii "rtsp://192.168.1.1/wfd"

/-- A message made of a first line and headers, without a content. -/
def received (first : Bytes) (headers : List (Bytes × Bytes)) (h : Readable first headers []) :
    Received :=
  ⟨messageOf first headers [], text first headers [] ++ [], _, parse_text h []⟩

/-- The response of the source with this CSeq, and with a session. -/
def okHeaders (cseq : Nat) : List (Bytes × Bytes) :=
  [(ascii "CSeq", decimal cseq), (ascii "Session", ascii "7;timeout=30"),
    (ascii "Transport", ascii "RTP/AVP/UDP;server_port=19000-19001")]

theorem readable_ok (cseq : Nat) (h : cseq < 10 := by decide) :
    Readable (ascii "RTSP/1.0 200 OK") (okHeaders cseq) [] := by
  have hall : ∀ c < 10, OneLine (ascii "RTSP/1.0 200 OK") ∧
      (∀ q ∈ okHeaders c, IsKey q.1 ∧ OneLine q.2) ∧
      (dictOf (ascii "RTSP/1.0 200 OK") (okHeaders c)).contentLength = 0 := by
    decide
  exact ⟨(hall cseq h).1, (hall cseq h).2.1, (hall cseq h).2.2⟩

def okResponse (cseq : Nat) (h : cseq < 10 := by decide) : Received :=
  received (ascii "RTSP/1.0 200 OK") (okHeaders cseq) (readable_ok cseq h)

/-- A session up to PLAYING. -/
def playRun : List Action :=
  [.startUri uriOf (some 4), .connected ⟨[], some 15550, true⟩,
    .data ⟨[], some 15550, true⟩ 4 (okResponse 1), .data ⟨[], some 15550, true⟩ 4 (okResponse 2),
    .data ⟨[], some 15550, true⟩ 4 (okResponse 3)]

/-- Whatever the source sends, everything that the sink gives to `sendRequest` is one whole message
    with the CSeq that was meant: no field of a message of the source ends a line of it. -/
theorem sent_whole {as : List Action} {s : Sink} (hrun : run step start as = some s)
    (hplain : ∀ a ∈ as, Plain a) : ∀ q ∈ s.sent, Whole q :=
  (sound_of_run hrun fun _ => hplain).texts trivial

theorem sent_whole_play : ∃ s, run step start playRun = some s ∧ s.sent.length = 3 ∧
    ∀ q ∈ s.sent, Whole q := by
  have hplain : ∀ a ∈ playRun, Plain a := by
    have huri : OneLine uriOf ∧ OneLine [] := by decide
    simp [playRun, Plain, huri]
  have hfacts : (run step start playRun).any (fun s => s.sent.length = 3) = true := by decide
  obtain ⟨s, hrun, hlength⟩ := (Option.any_eq_true _ _).mp hfacts
  exact ⟨s, hrun, of_decide_eq_true hlength, sent_whole hrun hplain⟩

/-- Until the counter comes to its end each request of the sink has a CSeq that no other has, and its
    handler is called once or still waits, whatever responses come and in whatever order. PLAY is
    sent on a session whose SETUP was answered, and the sink is playing only when PLAY was. -/
theorem responses_matched {as : List Action} {s : Sink} (hrun : run step start as = some s)
    (hfew : s.requests.length < 2147483647) :
    (s.handled ++ s.responseHandlers).Perm s.requests ∧
      (s.requests.map fun q => q.1.2).Nodup ∧
      (∀ q ∈ s.requests, q.2 = .onReceivePlayResponse →
        ∃ c < q.1.2, ((q.1.1, c), Handler.onReceiveSetupResponse) ∈ s.handled) ∧
      (s.phase = .playing → ∃ q ∈ s.handled, q.2 = .onReceivePlayResponse) := by
  have h : Sound False s := sound_of_run hrun False.elim
  exact ⟨h.once hfew, h.single hfew, h.afterSetup hfew, h.playing⟩

/-- The response of SETUP twice. -/
theorem responses_matched_again : ∃ s, run step start (playRun ++
      [.data ⟨[], some 15550, true⟩ 4 (okResponse 2)]) = some s ∧
    s.handled.length = 3 ∧ s.phase = .playing ∧
    (s.handled ++ s.responseHandlers).Perm s.requests := by
  have hfacts : (run step start (playRun ++ [.data ⟨[], some 15550, true⟩ 4 (okResponse 2)])).any
      (fun s => s.handled.length = 3 ∧ s.phase = .playing ∧ s.requests.length = 3) = true := by
    decide
  obtain ⟨s, hrun, hs⟩ := (Option.any_eq_true _ _).mp hfacts
  obtain ⟨hlength, hphase, hthree⟩ := of_decide_eq_true hs
  exact ⟨s, hrun, hlength, hphase, (responses_matched hrun (by rw [hthree]; decide)).1⟩

/-- As long as messages come from the session that the sink has, their first lines have the fields
    that are read, and binary data comes behind SETUP, no run uses a missing `mRTPSink` and none
    reads behind a line: whatever is asked and answered, in whatever order, across `stop` and new
    sessions. -/
theorem never_faults {as : List Action} {s : Sink} (hrun : run step start as = some s)
    (hregular : Along step (fun s a => regular s a = true) start as) : s.fault = none :=
  (run_invariant (fun _ _ _ h hok hstep => step_served h hok hstep) hrun hregular
    served_start).calm

theorem never_faults_play : ∃ s, run step start playRun = some s ∧ s.fault = none := by
  have hfacts : (run step start playRun).isSome = true ∧
      alongCheck step regular start playRun = true := by
    decide
  obtain ⟨s, hrun⟩ := Option.isSome_iff_exists.mp hfacts.1
  exact ⟨s, hrun, never_faults hrun (along_of_check hfacts.2)⟩

/-- `stop` when the response of SETUP is already in the looper's queue. -/
example : ((run step start
    [.startUri uriOf (some 4), .connected ⟨[], some 15550, true⟩,
      .data ⟨[], some 15550, true⟩ 4 (okResponse 1), .stop,
      .data ⟨[], some 15550, true⟩ 4 (okResponse 2)]).map fun s => s.fault) =
    some (some .nullRtpSink) := by
  decide

/-! ### At the other end of the connection -/

/-- A stream of messages that were sent is cut into these. -/
theorem frames_sent {sent : List Sent} (h : ∀ q ∈ sent, Whole q) :
    ∃ ms : List Message, List.Forall₂ IsMessage sent ms ∧
      Frames (NetworkSession.complete true) ((sent.map fun q => q.text).flatMap
        (StreamLink.encode true)) (ms.map .data) [] := by
  induction sent with
  | nil => exact ⟨[], .nil, .stop (NetworkSession.complete_nil true)⟩
  | cons q sent ih =>
    obtain ⟨m, hm⟩ := h q List.mem_cons_self
    obtain ⟨ms, hms, hframes⟩ := ih fun p hp => h p (List.mem_cons_of_mem _ hp)
    exact ⟨m :: ms, .cons hm hms, .more (hm.1 _) hframes⟩

/-- A call of `readMore` that ends behind a message does not cut one. -/
theorem uncut_of_frames {b left : Bytes} {ms : List NetworkSession.Notification}
    (h : Frames (NetworkSession.complete true) b ms left) (hleft : left = []) :
    ∀ b', Meets NetworkSession.nextRtsp b b' → ¬ NetworkSession.cut b' = true := by
  induction h with
  | stop hnone =>
    subst hleft
    intro b' hmeets
    cases hmeets with
    | here => decide
    | after hsome _ => cases hsome
  | more hsome _ ih =>
    intro b' hmeets
    obtain ⟨hcut, hnext⟩ := guarded_some hsome
    cases hmeets with
    | here => exact hcut
    | after hsome' hmeets =>
      rw [hnext] at hsome'
      cases hsome'
      exact ih hleft b' hmeets

/-- A session of the sink over TCP: however `send` and `recv` cut the stream of what the sink gave
    to it, the other end is given the messages that these texts are, in their order and each once,
    with the CSeqs that the responses are looked up by, and all of them when nothing is left on the
    way. -/
theorem source_reads {as : List Action} {s : Sink} (hrun : run step start as = some s)
    (hplain : ∀ a ∈ as, Plain a) (id : Nat) {bs : List StreamLink.Action} {l : StreamLink.Link}
    (hlink : run StreamLink.step (StreamLink.start true) bs = some l)
    (huncut : Along StreamLink.step (StreamLink.UncutStep true) (StreamLink.start true) bs)
    (hgiven : l.near.requested =
      (s.sent.filter fun q => q.sessionID = id).map fun q => q.text) :
    ∃ ms : List Message,
      List.Forall₂ IsMessage (s.sent.filter fun q => q.sessionID = id) ms ∧
      StreamLink.dataOf l.far.notices <+: ms.map .data ∧
      (StreamLink.onItsWay l = [] → l.near.outBuffer = [] →
        StreamLink.dataOf l.far.notices = ms.map .data) := by
  have hcarries : StreamLink.Carries true l :=
    run_invariant (fun _ _ _ h hok hstep => StreamLink.step_carries h hok hstep) hlink huncut
      (StreamLink.carries_start true)
  have hwhole : ∀ q ∈ s.sent.filter fun q => q.sessionID = id, Whole q := fun q hq =>
    (sound_of_run hrun fun _ => hplain).texts trivial q (List.mem_of_mem_filter hq)
  obtain ⟨ms, hms, hframes⟩ := frames_sent hwhole
  rw [← hgiven] at hframes
  obtain ⟨hpart, hall⟩ := StreamLink.carried_messages hcarries hframes
  exact ⟨ms, hms, hpart, fun hway hout => (hall hway hout).1⟩

/-- DESCRIBE, sent and read in one piece. -/
def describeRun : List StreamLink.Action :=
  [.request (describeText [] 1 uriOf), .write (.ok 200), .read (.ok (describeText [] 1 uriOf))]

theorem source_reads_describe : ∃ s l, run step start (playRun.take 2) = some s ∧
    run StreamLink.step (StreamLink.start true) describeRun = some l ∧
    ∃ m, IsMessage ⟨4, 1, describeText [] 1 uriOf⟩ m ∧
      StreamLink.dataOf l.far.notices = [.data m] := by
  have hsent : (run step start (playRun.take 2)).any
      (fun s => s.sent = [⟨4, 1, describeText [] 1 uriOf⟩]) = true := by
    decide
  have hread : (run StreamLink.step (StreamLink.start true) describeRun).any
      (fun l => l.near.requested = [describeText [] 1 uriOf] ∧ StreamLink.onItsWay l = [] ∧
        l.near.outBuffer = []) = true := by
    decide +kernel
  obtain ⟨s, hrun, hs⟩ := (Option.any_eq_true _ _).mp hsent
  obtain ⟨l, hlink, hl⟩ := (Option.any_eq_true _ _).mp hread
  have hs := of_decide_eq_true hs
  obtain ⟨hrequested, hway, hout⟩ := of_decide_eq_true hl
  have hplain : ∀ a ∈ playRun.take 2, Plain a := by
    have huri : OneLine uriOf ∧ OneLine [] := by decide
    simp [playRun, Plain, huri]
  have hwhole : Whole ⟨4, 1, describeText [] 1 uriOf⟩ :=
    whole_describe 4 (by decide) 1 (by decide)
  obtain ⟨m, hcomplete, -⟩ := hwhole
  have huncut : Along StreamLink.step (StreamLink.UncutStep true) (StreamLink.start true)
      describeRun := by
    refine ⟨trivial, fun l₁ h₁ => ⟨trivial, fun l₂ h₂ => ⟨fun _ => ?_, fun _ _ => trivial⟩⟩⟩
    cases h₁
    cases h₂
    have hframes : Frames (NetworkSession.complete true) (describeText [] 1 uriOf ++ []) [.data m]
        [] := .more (hcomplete []) (.stop (NetworkSession.complete_nil true))
    rw [List.append_nil] at hframes
    exact uncut_of_frames hframes rfl
  obtain ⟨ms, hms, -, hall⟩ := source_reads hrun hplain 4 hlink huncut (by rw [hrequested, hs]; rfl)
  rw [hs] at hms
  obtain ⟨m, hm⟩ : ∃ m, IsMessage ⟨4, 1, describeText [] 1 uriOf⟩ m ∧ ms = [m] := by
    cases hms with
    | cons hmessage hnil =>
      cases hnil
      exact ⟨_, hmessage, rfl⟩
  exact ⟨s, l, hrun, hlink, m, hm.1, by rw [hall hway hout, hm.2]; rfl⟩

end Streambox.WifiDisplay.DisplaySink
