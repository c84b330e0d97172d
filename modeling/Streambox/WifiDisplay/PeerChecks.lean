import Streambox.WifiDisplay.DisplaySink
import Streambox.WifiDisplay.HandOff
import Streambox.WifiDisplay.Reception
import Streambox.WifiDisplay.RtpParser

/-! wifi-display: what the peer sends and the checks that it comes to.

        RTSP ──▶ WifiDisplaySink: `CHECK_EQ(err, OK)` behind each request that is sent
        RTP  ──▶ RTPSink ──▶ TunnelRenderer ──▶ StreamSource: `CHECK_EQ(size % 188, 0)`
                                                  └──▶ listener ──▶ read

    Nobody looks at a status code or at the size of a payload before the checks do. An empty payload
    passes them, and `read` returns the zero that stands for the end of the stream. -/

namespace Streambox.WifiDisplay.PeerChecks
open Streambox.Lib
open ParsedMessage (Bytes Message)
open RtspText
open DisplaySink (Sink Env Handler)

/-! ### The status of the handlers -/

/-- What `sendM2`, `sendDescribe` and `sendPlay` return, and the end of `sendSetup`. -/
def trackedOk (s : Sink) (sessionID : Nat) (text : Bytes) : Bool :=
  (DisplaySink.sendRequest s sessionID s.nextCSeq text).2

def sendSetupOk (s : Sink) (env : Env) (sessionID : Nat) (uri : Bytes) : Bool :=
  match (DisplaySink.withRtpSink s env).rtpSink with
  | none => false
  | some rtpPort =>
    trackedOk (DisplaySink.withRtpSink s env) sessionID
      (DisplaySink.setupText env.date s.nextCSeq uri rtpPort)

def sendPlayOk (s : Sink) (env : Env) (sessionID : Nat) (uri : Bytes) : Bool :=
  trackedOk s sessionID (DisplaySink.playText env.date s.nextCSeq uri s.playbackSessionID)

/-- `onReceiveSetupResponse`, behind the check of the code. -/
def onSetupAcceptedOk (s : Sink) (env : Env) (sessionID : Nat) (m : Message) : Bool :=
  match m.dict.findString (ascii "session") with
  | none => false
  | some session =>
    let q := DisplaySink.configureTransport (DisplaySink.withPlayback s session) env m
    q.2 && sendPlayOk { q.1 with phase := .paused } env sessionID
      (if s.setupURI ≠ [] then s.setupURI else DisplaySink.streamUrl s)

/-- The handlers of responses. -/
def handleOk (s : Sink) (env : Env) (sessionID : Nat) (handler : Handler) (m : Message) : Bool :=
  match getStatusCode m with
  | some (some 200) =>
    match handler with
    | .onReceiveM2Response => true
    | .onReceiveDescribeResponse => sendSetupOk s env sessionID s.setupURI
    | .onReceiveSetupResponse => onSetupAcceptedOk s env sessionID m
    | .onReceivePlayResponse => true
  | _ => false

/-! ### The checks of the sink

    Each is whether the checks of a function pass. Where the function dies before its check, that
    does not pass. -/

def onResponseChecks (s : Sink) (env : Env) (sessionID : Nat) (cseq : Int) (m : Message) : Bool :=
  match DisplaySink.handlerOf s (sessionID, cseq) with
  | none => true
  | some handler =>
    handleOk (DisplaySink.taken s (sessionID, cseq) handler) env sessionID handler m

def sendErrorResponseChecks (s : Sink) (env : Env) (sessionID : Nat) (errorDetail : Bytes)
    (cseq : Int) : Bool :=
  (DisplaySink.sendRequest s sessionID cseq (DisplaySink.errorText env.date cseq errorDetail)).2

def onOptionsRequestChecks (s : Sink) (env : Env) (sessionID : Nat) (cseq : Int) : Bool :=
  let q := DisplaySink.sendRequest s sessionID cseq (DisplaySink.optionsText env.date cseq)
  q.2 && trackedOk q.1 sessionID (DisplaySink.m2Text env.date q.1.nextCSeq)

/-- Without an `RTPSink` it returns before the check. -/
def onGetParameterRequestChecks (s : Sink) (env : Env) (sessionID : Nat) (cseq : Int) : Bool :=
  match (DisplaySink.withRtpSink s env).rtpSink with
  | none => true
  | some rtpPort =>
    (DisplaySink.sendRequest (DisplaySink.withRtpSink s env) sessionID cseq
      (DisplaySink.getParameterText env.date cseq rtpPort)).2

/-- The content that asks for SETUP. -/
def triggersSetup (m : Message) : Bool :=
  strstr m.content (ascii "wfd_trigger_method: SETUP\r\n")

def onSetParameterRequestChecks (s : Sink) (env : Env) (sessionID : Nat) (cseq : Int)
    (m : Message) : Bool :=
  let q := DisplaySink.sendRequest s sessionID cseq (DisplaySink.setParameterText env.date cseq)
  q.2 && if triggersSetup m then sendSetupOk q.1 env sessionID (DisplaySink.streamUrl q.1) else true

def onRequestChecks (s : Sink) (env : Env) (sessionID : Nat) (method : Bytes) (cseq : Int)
    (m : Message) : Bool :=
  match getRequestField m 2 with
  | none => false
  | some version =>
    if version ≠ ascii "RTSP/1.0" then
      sendErrorResponseChecks s env sessionID (ascii "505 RTSP Version not supported") cseq
    else if method = ascii "OPTIONS" then onOptionsRequestChecks s env sessionID cseq
    else if method = ascii "GET_PARAMETER" then onGetParameterRequestChecks s env sessionID cseq
    else if method = ascii "SET_PARAMETER" then onSetParameterRequestChecks s env sessionID cseq m
    else sendErrorResponseChecks s env sessionID (ascii "405 Method Not Allowed") cseq

/-- A notification of data has a session and a message, so the checks for these pass. -/
def onReceiveClientDataChecks (s : Sink) (env : Env) (sessionID : Nat) (m : Message) : Bool :=
  match getRequestField m 0 with
  | none => false
  | some method =>
    match m.dict.findInt32 (ascii "cseq") with
    | none => sendErrorResponseChecks s env sessionID (ascii "400 Bad Request") (-1)
    | some cseq =>
      if DisplaySink.isResponse method then onResponseChecks s env sessionID cseq m
      else onRequestChecks s env sessionID method cseq m

/-- The checks that a message to the sink comes to, among those of its handlers. -/
def checks (s : Sink) : DisplaySink.Action → Bool
  | .data env sessionID m => onReceiveClientDataChecks s env sessionID m.1
  | _ => true

/-! ### What a message has to be -/

/-- There is an `RTPSink`, or one can be made. -/
def canReceive (s : Sink) (env : Env) : Bool := s.rtpSink.isSome || env.rtpPort.isSome

/-- A response that its handler goes on with. -/
def accepts (s : Sink) (env : Env) (sessionID : Nat) (m : Message) : Handler → Bool
  | .onReceiveM2Response => true
  | .onReceiveDescribeResponse => sessionID ∈ s.live ∧ canReceive s env
  | .onReceiveSetupResponse =>
    sessionID ∈ s.live ∧ s.rtpSink.isSome ∧ env.connects ∧
      (m.dict.findString (ascii "session")).isSome ∧
      (m.dict.findString (ascii "transport")).isSome
  | .onReceivePlayResponse => true

/-- A response is one that nothing waits for, or it has the code 200 and is gone on with. -/
def goodResponse (s : Sink) (env : Env) (sessionID : Nat) (cseq : Int) (m : Message) : Bool :=
  (DisplaySink.handlerOf s (sessionID, cseq)).all fun handler =>
    getStatusCode m = some (some 200) ∧ accepts s env sessionID m handler

/-- A request comes on a session that is there, and SETUP is asked for when it can be sent. Nothing
    is sent for GET_PARAMETER when there can be no `RTPSink`. -/
def goodRequest (s : Sink) (env : Env) (sessionID : Nat) (method : Bytes) (m : Message) : Bool :=
  (getRequestField m 2).any fun version =>
    if version = ascii "RTSP/1.0" ∧ method = ascii "GET_PARAMETER" then
      sessionID ∈ s.live || !canReceive s env
    else
      sessionID ∈ s.live ∧ (version = ascii "RTSP/1.0" → method = ascii "SET_PARAMETER" →
        triggersSetup m = true → canReceive s env = true)

def goodMessage (s : Sink) (env : Env) (sessionID : Nat) (m : Message) : Bool :=
  (getRequestField m 0).any fun method =>
    match m.dict.findInt32 (ascii "cseq") with
    | none => sessionID ∈ s.live
    | some cseq =>
      if DisplaySink.isResponse method then goodResponse s env sessionID cseq m
      else goodRequest s env sessionID method m

section messages
variable (s : Sink) (env : Env) (sessionID : Nat)

theorem sendRequest_ok (cseq : Int) (text : Bytes) :
    (DisplaySink.sendRequest s sessionID cseq text).2 = decide (sessionID ∈ s.live) := by
  rw [DisplaySink.sendRequest]
  split
  · next h => exact (decide_eq_true h).symm
  · next h => exact (decide_eq_false h).symm

theorem trackedOk_eq (text : Bytes) : trackedOk s sessionID text = decide (sessionID ∈ s.live) :=
  sendRequest_ok ..

theorem sendRequest_live (cseq : Int) (text : Bytes) :
    (DisplaySink.sendRequest s sessionID cseq text).1.live = s.live := by
  rw [DisplaySink.sendRequest]
  split <;> rfl

theorem sendRequest_rtpSink (cseq : Int) (text : Bytes) :
    (DisplaySink.sendRequest s sessionID cseq text).1.rtpSink = s.rtpSink := by
  rw [DisplaySink.sendRequest]
  split <;> rfl

theorem sendSetupOk_eq (uri : Bytes) :
    sendSetupOk s env sessionID uri = (decide (sessionID ∈ s.live) && canReceive s env) := by
  have hport : (DisplaySink.withRtpSink s env).rtpSink = s.rtpSink.or env.rtpPort := rfl
  rw [sendSetupOk, canReceive, ← Option.isSome_or, hport]
  cases s.rtpSink.or env.rtpPort with
  | none => simp
  | some rtpPort => simp [trackedOk_eq, DisplaySink.withRtpSink]

/-- The answer to SETUP is gone on with when it has both headers and there is an `RTPSink` that can
    be connected. -/
theorem onSetupAcceptedOk_eq (m : Message) :
    onSetupAcceptedOk s env sessionID m = accepts s env sessionID m .onReceiveSetupResponse := by
  rw [onSetupAcceptedOk]
  cases hsession : m.dict.findString (ascii "session") with
  | none => simp [accepts, hsession]
  | some session =>
    cases htransport : m.dict.findString (ascii "transport") with
    | none => simp [accepts, DisplaySink.configureTransport, htransport]
    | some transport =>
      cases hport : s.rtpSink with
      | none =>
        simp [accepts, DisplaySink.configureTransport, DisplaySink.withPlayback, htransport, hport]
      | some rtpPort =>
        simp [accepts, DisplaySink.configureTransport, DisplaySink.withPlayback, htransport, hport,
          hsession, sendPlayOk, trackedOk_eq, Bool.and_comm]

theorem handleOk_eq (handler : Handler) (m : Message) :
    handleOk s env sessionID handler m =
      decide (getStatusCode m = some (some 200) ∧ accepts s env sessionID m handler = true) := by
  unfold handleOk
  split
  · next hcode =>
    cases handler with
    | onReceiveM2Response => simp [accepts, hcode]
    | onReceiveDescribeResponse => simp [accepts, hcode, sendSetupOk_eq]
    | onReceiveSetupResponse => simp [hcode, onSetupAcceptedOk_eq]
    | onReceivePlayResponse => simp [accepts, hcode]
  · next hother =>
    symm
    exact decide_eq_false fun h => hother h.1

theorem onResponseChecks_eq (cseq : Int) (m : Message) :
    onResponseChecks s env sessionID cseq m = goodResponse s env sessionID cseq m := by
  rw [onResponseChecks, goodResponse]
  cases DisplaySink.handlerOf s (sessionID, cseq) with
  | none => rfl
  | some handler =>
    -- neither the session nor the `RTPSink` is taken away with the handler
    have hsame : accepts (DisplaySink.taken s (sessionID, cseq) handler) env sessionID m handler =
        accepts s env sessionID m handler := by
      cases handler <;> rfl
    simp only [handleOk_eq, hsame, Option.all_some]

theorem sendErrorResponseChecks_eq (errorDetail : Bytes) (cseq : Int) :
    sendErrorResponseChecks s env sessionID errorDetail cseq = decide (sessionID ∈ s.live) :=
  sendRequest_ok ..

theorem onOptionsRequestChecks_eq (cseq : Int) :
    onOptionsRequestChecks s env sessionID cseq = decide (sessionID ∈ s.live) := by
  rw [onOptionsRequestChecks]
  rw [trackedOk_eq, sendRequest_live, sendRequest_ok, Bool.and_self]

theorem onGetParameterRequestChecks_eq (cseq : Int) :
    onGetParameterRequestChecks s env sessionID cseq =
      (decide (sessionID ∈ s.live) || !canReceive s env) := by
  have hport : (DisplaySink.withRtpSink s env).rtpSink = s.rtpSink.or env.rtpPort := rfl
  rw [onGetParameterRequestChecks, canReceive, ← Option.isSome_or, hport]
  cases s.rtpSink.or env.rtpPort with
  | none => simp
  | some rtpPort => simp [sendRequest_ok, DisplaySink.withRtpSink]

theorem onSetParameterRequestChecks_eq (cseq : Int) (m : Message) :
    onSetParameterRequestChecks s env sessionID cseq m =
      decide (sessionID ∈ s.live ∧ (triggersSetup m = true → canReceive s env = true)) := by
  rw [onSetParameterRequestChecks]
  rw [sendSetupOk_eq, sendRequest_live, sendRequest_ok]
  have hreceive : ∀ text, canReceive (DisplaySink.sendRequest s sessionID cseq text).1 env =
      canReceive s env := by
    intro text
    rw [canReceive, canReceive, sendRequest_rtpSink]
  rw [hreceive]
  by_cases htrigger : triggersSetup m = true
  · simp [htrigger]
  · simp [htrigger]

theorem onRequestChecks_eq (method : Bytes) (cseq : Int) (m : Message) :
    onRequestChecks s env sessionID method cseq m = goodRequest s env sessionID method m := by
  have hnames : ascii "GET_PARAMETER" ≠ ascii "OPTIONS" ∧ ascii "SET_PARAMETER" ≠ ascii "OPTIONS" ∧
      ascii "SET_PARAMETER" ≠ ascii "GET_PARAMETER" := by
    decide
  obtain ⟨hget, hset, hset'⟩ := hnames
  rw [onRequestChecks, goodRequest]
  cases getRequestField m 2 with
  | none => rfl
  | some version =>
    rw [Option.any_some]
    dsimp only
    by_cases hversion : version = ascii "RTSP/1.0"
    · rw [if_neg (not_not.mpr hversion)]
      by_cases hmethod : method = ascii "GET_PARAMETER"
      · subst hmethod
        rw [if_neg hget, if_pos rfl, if_pos ⟨hversion, rfl⟩, onGetParameterRequestChecks_eq]
      · rw [if_neg (c := version = _ ∧ _) fun h => hmethod h.2]
        by_cases hmethod' : method = ascii "SET_PARAMETER"
        · subst hmethod'
          rw [if_neg hset, if_neg hset', if_pos rfl, onSetParameterRequestChecks_eq]
          simp [hversion]
        · rw [onOptionsRequestChecks_eq, sendErrorResponseChecks_eq, if_neg hmethod,
            if_neg hmethod', ite_self]
          simp [hmethod']
    · rw [if_pos hversion, if_neg (c := version = _ ∧ _) fun h => hversion h.1,
        sendErrorResponseChecks_eq]
      simp [hversion]

/-- The checks pass on the messages that are as they have to be, and on no others. -/
theorem onReceiveClientDataChecks_eq (m : Message) :
    onReceiveClientDataChecks s env sessionID m = goodMessage s env sessionID m := by
  rw [onReceiveClientDataChecks, goodMessage]
  cases getRequestField m 0 with
  | none => rfl
  | some method =>
    rw [Option.any_some]
    dsimp only
    cases m.dict.findInt32 (ascii "cseq") with
    | none => exact sendErrorResponseChecks_eq ..
    | some cseq =>
      dsimp only
      rw [onResponseChecks_eq, onRequestChecks_eq]

end messages

/-! ### The player -/

open RtpFormat (headerLength paddingLength)
open RtpParser (Datagram parseRTP handOn u16At u32At)
open TunnelRenderer (Packet Renderer)
open StreamSource (Fits numBuffers bufferSize)

/-- The sink, and what belongs to its `RTPSink`: the sources, the buffers that were handed on, the
    messages to the renderer and the renderer, and the player as soon as there is one. The number of
    a packet is the place of its buffer. `failed` says that a check of the sink did not pass. -/
structure Player where
  sink : Sink
  failed : Bool
  rtp : RtpParser.Sink
  buffers : List Bytes
  posted : List Packet
  renderer : Renderer
  totalBytesQueued : Nat
  stream : Option StreamSource.State

/-- Nothing of an `RTPSink` is left when it is cleared. -/
def withoutRtp (p : Player) : Player :=
  { p with
    rtp := .new p.rtp.rtpDumpEnable
    buffers := []
    posted := []
    renderer := TunnelRenderer.initial
    totalBytesQueued := 0
    stream := none }

def start (dumpEnable : Bool) : Player :=
  ⟨DisplaySink.start, false, .new dumpEnable, [], [], TunnelRenderer.initial, 0, none⟩

def Player.bufferOf (p : Player) (packet : Packet) : Bytes := p.buffers.getD packet.number []

/-- The buffers of a new listener. -/
abbrev Blank := { buffers : Nat → Bytes // ∀ i < numBuffers, (buffers i).length = bufferSize }

/-- A message to the sink, a datagram on one of the two sockets, a message to the renderer, a piece
    of `doSomeWork`, a message to it, or a call of `read`. -/
inductive Action where
  | rtsp (a : DisplaySink.Action)
  | rtp (d : Datagram)
  | rtcp (d : Datagram)
  | queueBuffer (blank : Blank)
  | work (now : Int)
  | bufferAvailable (k : Nat)
  | read

def onMessage (p : Player) (a : DisplaySink.Action) : Option Player :=
  (DisplaySink.step p.sink a).map fun sink =>
    let p := { p with sink := sink, failed := p.failed || !checks p.sink a }
    if sink.rtpSink = none then withoutRtp p else p

/-- `parseRTP`, and `queuePacket` if the source hands the buffer on. -/
def onRtp (w : Nat) (p : Player) (d : Datagram) : Player :=
  match parseRTP w p.rtp d with
  | .error _ => p
  | .ok (rtp, handed) =>
    match handed.int32Data with
    | none => { p with rtp := rtp }
    | some extSeqNo =>
      { p with
        rtp := rtp
        buffers := p.buffers ++ [handed.range d]
        posted := p.posted ++ [⟨p.buffers.length, Reception.int32 extSeqNo⟩] }

/-- The renderer gets a message. It makes the player when there are bytes. -/
def onQueueBuffer (p : Player) (blank : Blank) : Option Player :=
  match p.posted with
  | [] => none
  | packet :: rest =>
    let total := p.totalBytesQueued + (p.bufferOf packet).length
    some { p with
      posted := rest
      renderer := TunnelRenderer.queueBuffer p.renderer packet
      totalBytesQueued := total
      stream := p.stream.or (if 0 < total then some (StreamSource.start blank.1) else none) }

/-- `doSomeWork` asks the renderer only at the head of its loop, with an index. -/
def asks (s : StreamSource.State) : Bool := s.phase = .loop ∧ s.indicesAvailable ≠ []

def onWork (p : Player) (now : Int) (s : StreamSource.State) : Option Player :=
  if asks s then
    let q := TunnelRenderer.dequeueBuffer p.renderer now
    (StreamSource.step s (.work (q.2.buffer.map p.bufferOf))).map fun s' =>
      { p with renderer := q.1, stream := some s' }
  else (StreamSource.step s (.work none)).map fun s' => { p with stream := some s' }

/-- What a socket gives at most. -/
def maxDatagram : Nat := 1500

/-- Binary data on the connection is no RTSP message. A datagram comes when there is an `RTPSink`.
    `parseRTCP` has no check and changes nothing. The player reads 188 bytes at a time. -/
def step (w : Nat) (p : Player) : Action → Option Player
  | .rtsp .binaryData => none
  | .rtsp a => onMessage p a
  | .rtp d =>
    if p.sink.rtpSink.isSome ∧ 0 < d.data.length ∧ d.data.length ≤ maxDatagram then
      some (onRtp w p d)
    else none
  | .rtcp d =>
    if p.sink.rtpSink.isSome ∧ 0 < d.data.length ∧ d.data.length ≤ maxDatagram then some p
    else none
  | .queueBuffer blank => onQueueBuffer p blank
  | .work now => p.stream.bind (onWork p now)
  | .bufferAvailable k =>
    p.stream.bind fun s =>
      (StreamSource.step s (.deliver k)).map fun s' => { p with stream := some s' }
  | .read =>
    p.stream.bind fun s =>
      (StreamSource.step s (.read 188)).map fun s' => { p with stream := some s' }

/-! ### What the peer may send -/

/-- The source of the sender hands the packet on. -/
def handsOn (rtp : RtpParser.Sink) (d : Bytes) : Bool :=
  match u32At d 8, u16At d 2 with
  | .ok srcId, .ok seqNo => (handOn (rtp.sources srcId) seqNo).2.isSome
  | _, _ => false

def payloadLength (d : Bytes) : Nat := d.length - paddingLength d - headerLength d

/-- A packet that is not refused has a payload of whole packets of the transport stream, and at
    least one. -/
def goodPacket (rtp : RtpParser.Sink) (d : Bytes) : Bool :=
  RtpFormat.version d = 2 → headerLength d + paddingLength d ≤ d.length → handsOn rtp d = true →
    0 < payloadLength d ∧ payloadLength d % 188 = 0

/-- The handlers of the sink go on with its messages. -/
def answered (p : Player) : Action → Bool
  | .rtsp (.data env sessionID m) => goodMessage p.sink env sessionID m.1
  | _ => true

def good (p : Player) : Action → Bool
  | .rtp d => goodPacket p.rtp d.data
  | a => answered p a

/-- No check failed, and `read` did not return zero. -/
structure Unharmed (p : Player) : Prop where
  sink : p.failed = false
  stream : ∀ s ∈ p.stream, s.aborted = false ∧ (.data [] ∈ s.reads → s.eosIssued = true)

/-! ### The invariant -/

/-- What was handed on fits, and every packet has its buffer. -/
structure Safe (p : Player) : Prop where
  sink : p.failed = false
  fits : ∀ buffer ∈ p.buffers, Fits buffer
  posted : ∀ q ∈ p.posted, q.number < p.buffers.length
  queued : ∀ q ∈ p.renderer.packets, q.number < p.buffers.length
  stream : ∀ s ∈ p.stream, StreamSource.Inv s ∧ .data [] ∉ s.reads

theorem Safe.unharmed {p : Player} (h : Safe p) : Unharmed p :=
  ⟨h.sink, fun s hs => ⟨(h.stream s hs).1.alive, fun hread => absurd hread (h.stream s hs).2⟩⟩

theorem safe_start (dumpEnable : Bool) : Safe (start dumpEnable) :=
  ⟨rfl, by simp [start], by simp [start], by simp [start, TunnelRenderer.initial], by simp [start]⟩

section steps
variable {p p' : Player} {s s' : StreamSource.State}

theorem Safe.bufferOf_fits (h : Safe p) {q : Packet} (hq : q.number < p.buffers.length) :
    Fits (p.bufferOf q) := by
  rw [Player.bufferOf, List.getD_eq_getElem _ _ hq]
  exact h.fits _ (List.getElem_mem hq)

theorem checks_eq (p : Player) (a : DisplaySink.Action) :
    checks p.sink a = answered p (.rtsp a) := by
  cases a with
  | data env sessionID m => exact onReceiveClientDataChecks_eq ..
  | _ => rfl

theorem onMessage_of_step {w : Nat} {a : DisplaySink.Action}
    (h : step w p (.rtsp a) = some p') : onMessage p a = some p' := by
  cases a with
  | binaryData => cases h
  | _ => exact h

theorem onMessage_safe (h : Safe p) {a : DisplaySink.Action} (hgood : good p (.rtsp a) = true)
    (hstep : onMessage p a = some p') : Safe p' := by
  obtain ⟨sink, -, rfl⟩ := Option.map_eq_some_iff.mp hstep
  have hanswered : answered p (.rtsp a) = true := hgood
  have hfailed : (p.failed || !checks p.sink a) = false := by
    rw [h.sink, checks_eq, hanswered]
    rfl
  dsimp only
  split
  · exact ⟨hfailed, by simp [withoutRtp], by simp [withoutRtp],
      by simp [withoutRtp, TunnelRenderer.initial], by simp [withoutRtp]⟩
  · exact ⟨hfailed, h.fits, h.posted, h.queued, h.stream⟩

theorem parseRTP_handsOn {w : Nat} {rtp rtp' : RtpParser.Sink} {d : Datagram}
    {handed : RtpParser.Handed w} (h : parseRTP w rtp d = .ok (rtp', handed)) :
    handsOn rtp d.data = handed.int32Data.isSome := by
  rw [parseRTP] at h
  obtain ⟨range, -, h⟩ := exists_of_bind_eq_ok h
  obtain ⟨srcId, hsrcId, h⟩ := exists_of_bind_eq_ok h
  obtain ⟨rtpTime, -, h⟩ := exists_of_bind_eq_ok h
  obtain ⟨seqNo, hseqNo, h⟩ := exists_of_bind_eq_ok h
  obtain ⟨b1, -, h⟩ := exists_of_bind_eq_ok h
  cases h
  rw [handsOn, hsrcId, hseqNo]

/-- A good packet is handed on as a buffer that fits. -/
theorem goodPacket_fits {w : Nat} (hw : 32 ≤ w) {rtp rtp' : RtpParser.Sink} {d : Datagram}
    {handed : RtpParser.Handed w} (h : parseRTP w rtp d = .ok (rtp', handed))
    (hgood : goodPacket rtp d.data = true) (hsize : d.data.length ≤ maxDatagram)
    (hhanded : handed.int32Data.isSome = true) : Fits (handed.range d) := by
  obtain ⟨⟨hversion, hroom⟩, hoffset, hlength⟩ := (RtpParser.parseRTP_ends hw rtp d).of_eq_ok h
  obtain ⟨hpos, hwhole⟩ := of_decide_eq_true hgood hversion hroom
    ((parseRTP_handsOn h).trans hhanded)
  have hrange : (handed.range d).length = payloadLength d.data := by
    rw [RtpParser.Handed.range, List.length_take, List.length_drop, hoffset, hlength, payloadLength]
    omega
  refine ⟨List.ne_nil_of_length_pos (by omega), by omega, ?_⟩
  rw [maxDatagram] at hsize
  rw [hrange, payloadLength, bufferSize]
  omega

theorem onRtp_safe {w : Nat} (hw : 32 ≤ w) (h : Safe p) {d : Datagram}
    (hgood : goodPacket p.rtp d.data = true) (hsize : d.data.length ≤ maxDatagram) :
    Safe (onRtp w p d) := by
  rw [onRtp]
  split
  · exact h
  · next rtp handed hparse =>
    split
    · exact ⟨h.sink, h.fits, h.posted, h.queued, h.stream⟩
    · next extSeqNo hhanded =>
      have hfits : Fits (handed.range d) :=
        goodPacket_fits hw hparse hgood hsize (by rw [hhanded]; rfl)
      refine ⟨h.sink, fun buffer hbuffer => ?_, fun q hq => ?_, fun q hq => ?_, h.stream⟩
      · rcases List.mem_append.mp hbuffer with hbuffer | hbuffer
        · exact h.fits buffer hbuffer
        · rw [List.mem_singleton.mp hbuffer]
          exact hfits
      · rw [List.length_append, List.length_singleton]
        rcases List.mem_append.mp hq with hq | hq
        · exact Nat.lt_succ_of_lt (h.posted q hq)
        · rw [List.mem_singleton.mp hq]
          exact Nat.lt_succ_self _
      · rw [List.length_append, List.length_singleton]
        exact Nat.lt_succ_of_lt (h.queued q hq)

theorem onQueueBuffer_safe (h : Safe p) {blank : Blank} (hstep : onQueueBuffer p blank = some p') :
    Safe p' := by
  rw [onQueueBuffer] at hstep
  split at hstep
  · cases hstep
  · next packet rest hposted =>
    cases hstep
    have hnumbers : ∀ q ∈ packet :: rest, q.number < p.buffers.length := hposted ▸ h.posted
    refine ⟨h.sink, h.fits, fun q hq => hnumbers q (List.mem_cons_of_mem _ hq), fun q hq => ?_,
      fun s hs => ?_⟩
    · rcases TunnelRenderer.mem_queueBuffer hq with rfl | hq
      · exact hnumbers _ List.mem_cons_self
      · exact h.queued q hq
    · rcases Option.or_eq_some_iff.mp hs with hs | ⟨-, hs⟩
      · exact h.stream s hs
      · -- a new player
        split at hs
        · obtain rfl := Option.some_inj.mp hs
          exact ⟨StreamSource.inv_start blank.2, List.not_mem_nil⟩
        · cases hs

theorem doSomeWork_reads (s : StreamSource.State) (answer : Option Bytes) :
    (StreamSource.doSomeWork s answer).reads = s.reads := by
  rw [StreamSource.doSomeWork.eq_def]
  cases s.phase with
  | loop =>
    dsimp only
    split
    · rfl
    · cases answer <;> rfl
  | dequeued srcBuffer =>
    dsimp only
    split <;> rfl
  | announced srcBuffer =>
    cases s.indicesAvailable with
    | nil => rfl
    | cons index rest =>
      dsimp only
      split <;> rfl
  | idle => rfl
  | claimed index srcBuffer => rfl
  | copied index size => rfl

/-- A data entry has something left, so something is read of it. -/
theorem read_not_zero (hs : StreamSource.Inv s) {size : Nat} (hsize : 0 < size) :
    (StreamSource.read s size).2 ≠ .data [] := by
  rw [StreamSource.read, if_neg (by simp [hs.playing])]
  cases hqueue : s.queue with
  | nil => simp
  | cons e rest =>
    have hmem : e ∈ s.queue := by rw [hqueue]; exact List.mem_cons_self
    cases e with
    | command cmd =>
      cases cmd with
      | eos => exact absurd rfl (hs.valid _ hmem)
      | discontinuity => simp
    | data index entrySize offset =>
      obtain ⟨hpos, hfits⟩ : 0 < entrySize ∧ offset + entrySize ≤ bufferSize := hs.valid _ hmem
      have hlen : (s.buffers index).length = bufferSize :=
        hs.sized index (hs.lt_of_mem (StreamSource.mem_places_of_queue hmem))
      have hbytes : (((s.buffers index).drop offset).take (min entrySize size)).length ≠ 0 := by
        rw [List.length_take, List.length_drop, hlen]
        omega
      have hsome : ((s.buffers index).drop offset).take (min entrySize size) ≠ [] := fun hnil =>
        hbytes (List.length_eq_zero_iff.mpr hnil)
      dsimp only
      rw [StreamSource.readData]
      split
      · simpa using hsome
      · simpa using hsome

/-- `read` is the only one that returns something, and that is not zero. -/
theorem no_zero_read (hs : StreamSource.Inv s) (hreads : .data [] ∉ s.reads)
    {a : StreamSource.Action} (hpermitted : StreamSource.Permitted a)
    (hstep : StreamSource.step s a = some s') : .data [] ∉ s'.reads := by
  rw [StreamSource.step.eq_def, if_neg (by simp [hs.alive])] at hstep
  cases a with
  | work answer =>
    cases hstep
    rwa [doSomeWork_reads]
  | deliver k =>
    simp only at hstep
    split at hstep
    · obtain ⟨value, -, rfl⟩ := Option.map_eq_some_iff.mp hstep
      rw [StreamSource.onBufferAvailable]
      split
      · exact hreads
      · split
        · exact hreads
        · exact hreads
    · cases hstep
  | read size =>
    have hsize : 0 < size := hpermitted
    simp only [if_pos hsize] at hstep
    cases hstep
    intro hread
    rcases List.mem_append.mp hread with hread | hread
    · exact hreads hread
    · exact read_not_zero hs hsize (List.mem_singleton.mp hread).symm
  | issue cmd =>
    cases hstep
    exact hreads

/-- The stream source goes on. -/
theorem Safe.restream (h : Safe p) (hs : s ∈ p.stream) {a : StreamSource.Action}
    (hpermitted : StreamSource.Permitted a) (hstep : StreamSource.step s a = some s') :
    Safe { p with stream := some s' } := by
  obtain ⟨hinv, hreads⟩ := h.stream s hs
  refine ⟨h.sink, h.fits, h.posted, h.queued, fun t ht => ?_⟩
  obtain rfl := Option.some_inj.mp ht
  exact ⟨StreamSource.step_inv hinv hpermitted hstep, no_zero_read hinv hreads hpermitted hstep⟩

theorem onWork_safe (h : Safe p) {now : Int} (hs : s ∈ p.stream)
    (hstep : onWork p now s = some p') : Safe p' := by
  rw [onWork] at hstep
  split at hstep
  · obtain ⟨s', hwork, rfl⟩ := Option.map_eq_some_iff.mp hstep
    have hdequeues := TunnelRenderer.dequeueBuffer_dequeues p.renderer now
    have hqueued := h.queued
    rw [hdequeues.packets] at hqueued
    have hrest : Safe { p with renderer := (TunnelRenderer.dequeueBuffer p.renderer now).1 } :=
      ⟨h.sink, h.fits, h.posted, fun q hq => hqueued q (List.mem_append_right _ hq), h.stream⟩
    refine hrest.restream hs ?_ hwork
    -- what was dequeued was queued
    cases hbuffer : (TunnelRenderer.dequeueBuffer p.renderer now).2.buffer with
    | none => trivial
    | some packet =>
      refine h.bufferOf_fits (hqueued packet ?_)
      simp [hbuffer]
  · obtain ⟨s', hwork, rfl⟩ := Option.map_eq_some_iff.mp hstep
    have hpermitted : StreamSource.Permitted (.work none) := trivial
    exact h.restream hs hpermitted hwork

theorem step_safe {w : Nat} (hw : 32 ≤ w) (h : Safe p) {a : Action} (hgood : good p a = true)
    (hstep : step w p a = some p') : Safe p' := by
  cases a with
  | rtsp a => exact onMessage_safe h hgood (onMessage_of_step hstep)
  | rtp d =>
    simp only [step] at hstep
    split at hstep
    · next hguard =>
      cases hstep
      exact onRtp_safe hw h hgood hguard.2.2
    · cases hstep
  | rtcp d =>
    simp only [step] at hstep
    split at hstep
    · cases hstep
      exact h
    · cases hstep
  | queueBuffer blank => exact onQueueBuffer_safe h hstep
  | work now =>
    obtain ⟨s, hs, hwork⟩ := Option.bind_eq_some_iff.mp hstep
    exact onWork_safe h hs hwork
  | bufferAvailable k =>
    obtain ⟨s, hs, hdeliver⟩ := Option.bind_eq_some_iff.mp hstep
    obtain ⟨s', hs', rfl⟩ := Option.map_eq_some_iff.mp hdeliver
    have hpermitted : StreamSource.Permitted (.deliver k) := trivial
    exact h.restream hs hpermitted hs'
  | read =>
    obtain ⟨s, hs, hread⟩ := Option.bind_eq_some_iff.mp hstep
    obtain ⟨s', hs', rfl⟩ := Option.map_eq_some_iff.mp hread
    have hpermitted : StreamSource.Permitted (.read 188) := (by decide : 0 < 188)
    exact h.restream hs hpermitted hs'

/-- Only a message to the sink can fail a check of it. -/
theorem step_failed {w : Nat} {a : Action} (hstep : step w p a = some p') :
    p'.failed = (p.failed || !answered p a) := by
  cases a with
  | rtsp a =>
    obtain ⟨sink, -, rfl⟩ := Option.map_eq_some_iff.mp (onMessage_of_step hstep)
    rw [checks_eq]
    dsimp only
    split <;> rfl
  | rtp d =>
    simp only [step] at hstep
    split at hstep
    · cases hstep
      have hanswered : answered p (.rtp d) = true := rfl
      rw [onRtp, hanswered, Bool.not_true, Bool.or_false]
      split
      · rfl
      · split <;> rfl
    · cases hstep
  | rtcp d =>
    simp only [step] at hstep
    split at hstep
    · cases hstep
      exact (Bool.or_false _).symm
    · cases hstep
  | queueBuffer blank =>
    simp only [step, onQueueBuffer] at hstep
    split at hstep
    · cases hstep
    · cases hstep
      exact (Bool.or_false _).symm
  | work now =>
    obtain ⟨s, -, hwork⟩ := Option.bind_eq_some_iff.mp hstep
    rw [onWork] at hwork
    split at hwork
    all_goals
      obtain ⟨s', -, rfl⟩ := Option.map_eq_some_iff.mp hwork
      exact (Bool.or_false _).symm
  | bufferAvailable k =>
    obtain ⟨s, -, hdeliver⟩ := Option.bind_eq_some_iff.mp hstep
    obtain ⟨s', -, rfl⟩ := Option.map_eq_some_iff.mp hdeliver
    exact (Bool.or_false _).symm
  | read =>
    obtain ⟨s, -, hread⟩ := Option.bind_eq_some_iff.mp hstep
    obtain ⟨s', -, rfl⟩ := Option.map_eq_some_iff.mp hread
    exact (Bool.or_false _).symm

/-- A check of the sink that has failed is not forgotten. -/
theorem run_failed {w : Nat} {as : List Action} (hrun : run (step w) p as = some p') :
    p'.failed = false ↔
      p.failed = false ∧ Along (step w) (fun p a => answered p a = true) p as := by
  induction as generalizing p with
  | nil =>
    cases hrun
    exact (and_iff_left trivial).symm
  | cons a as ih =>
    obtain ⟨t, ht, hrest⟩ := run_cons.mp hrun
    rw [ih hrest, step_failed ht, along_cons ht, Bool.or_eq_false_iff, Bool.not_eq_false',
      and_assoc]

end steps

/-! ### Runs -/

/-- Up to SETUP. -/
def listening : List Action := (DisplaySink.playRun.take 3).map .rtsp

def blank : Blank := ⟨StreamSource.zeros, fun _ _ => List.length_replicate ..⟩

/-- A packet of the transport stream with a fixed header only. -/
def packet (seqNo : UInt8) (payload : Bytes) (h : payload.length < 1000) : Datagram :=
  ⟨[0x80, 33, 0, seqNo, 0, 0, 0, 0, 1, 2, 3, 4] ++ payload, 0, by simp; omega⟩

def whole (seqNo : UInt8) : Datagram :=
  packet seqNo (List.replicate 188 0x47) (by rw [List.length_replicate]; decide)

/-- One packet, to the end. -/
def wholeRun : List Action :=
  listening ++ [.rtp (whole 1), .queueBuffer blank, .bufferAvailable 0] ++
    List.replicate 7 (.work 0) ++ List.replicate 2 .read

/-- A payload of one byte. -/
def oddRun : List Action :=
  listening ++ [.rtp (packet 1 [0x47] (by decide)), .queueBuffer blank, .bufferAvailable 0] ++
    List.replicate 4 (.work 0)

/-- A packet without a payload behind another one. -/
def emptyRun : List Action :=
  listening ++ [.rtp (whole 1), .queueBuffer blank, .rtp (packet 2 [] (by decide)),
    .queueBuffer blank] ++ List.replicate 2 (.work 0) ++
    [.bufferAvailable 0] ++ List.replicate 7 (.work 0) ++
    [.bufferAvailable 0] ++ List.replicate 7 (.work 0) ++ List.replicate 3 .read

def notFound : DisplaySink.Received :=
  DisplaySink.received (ascii "RTSP/1.0 404 Not Found") [(ascii "CSeq", decimal 1)]
    ⟨by decide, by decide, by decide⟩

/-- DESCRIBE is refused. -/
def refusedRun : List Action :=
  (DisplaySink.playRun.take 2 ++
    [DisplaySink.Action.data ⟨[], some 15550, true⟩ 4 notFound]).map .rtsp

theorem runs_end :
    alongCheck (step 64) good (start false) wholeRun = true ∧
      (run (step 64) (start false) wholeRun).any (fun p => p.stream.any fun s =>
        s.reads = [.discontinuity, .data (List.replicate 188 0x47)]) = true ∧
      (run (step 64) (start false) oddRun).any (fun p => p.stream.any fun s => s.aborted) = true ∧
      (run (step 64) (start false) emptyRun).any (fun p => p.stream.any fun s =>
        .data [] ∈ s.reads ∧ s.eosIssued = false) = true ∧
      (run (step 64) (start false) refusedRun).any (fun p => p.failed) = true := by
  decide +kernel

/-- Whatever the peer sends and however the threads go on: the checks of the sink pass if and only if
    each RTSP message is one that the handlers go on with. If moreover each RTP packet that is
    handed on has a payload of whole packets of the transport stream, and at least one, no check
    fails, and `read` returns zero only behind a command. -/
theorem unharmed_by_peer {w : Nat} (hw : 32 ≤ w) {dumpEnable : Bool} {as : List Action} {p : Player}
    (hrun : run (step w) (start dumpEnable) as = some p) :
    (p.failed = false ↔
      Along (step w) (fun p a => answered p a = true) (start dumpEnable) as) ∧
    (Along (step w) (fun p a => good p a = true) (start dumpEnable) as → Unharmed p) := by
  refine ⟨(run_failed hrun).trans (and_iff_right rfl), fun hgood => ?_⟩
  have hsafe : Safe p := run_invariant (fun _ _ _ h hgood hstep => step_safe hw h hgood hstep) hrun
    hgood (safe_start dumpEnable)
  exact hsafe.unharmed

theorem unharmed_by_peer_packet : ∃ p, run (step 64) (start false) wholeRun = some p ∧
    Unharmed p ∧ ∃ s ∈ p.stream, s.reads = [.discontinuity, .data (List.replicate 188 0x47)] := by
  obtain ⟨hgood, hend, -⟩ := runs_end
  obtain ⟨p, hrun, hp⟩ := (Option.any_eq_true _ _).mp hend
  obtain ⟨s, hs, hreads⟩ := (Option.any_eq_true _ _).mp hp
  have hwidth : 32 ≤ 64 := by decide
  exact ⟨p, hrun, (unharmed_by_peer hwidth hrun).2 (along_of_check hgood), s, hs,
    of_decide_eq_true hreads⟩

/-- A packet with one byte fails the check of the size, one without any ends the stream, and a code
    that is not 200 fails the check of the status. -/
theorem harmed_by_peer :
    (∃ p, run (step 64) (start false) oddRun = some p ∧ ¬ Unharmed p) ∧
      (∃ p, run (step 64) (start false) emptyRun = some p ∧ ¬ Unharmed p) ∧
      ∃ p, run (step 64) (start false) refusedRun = some p ∧ ¬ Unharmed p := by
  obtain ⟨-, -, hodd, hempty, hrefused⟩ := runs_end
  refine ⟨?_, ?_, ?_⟩
  · obtain ⟨p, hrun, hp⟩ := (Option.any_eq_true _ _).mp hodd
    obtain ⟨s, hs, haborted⟩ := (Option.any_eq_true _ _).mp hp
    refine ⟨p, hrun, fun h => ?_⟩
    rw [(h.stream s hs).1] at haborted
    cases haborted
  · obtain ⟨p, hrun, hp⟩ := (Option.any_eq_true _ _).mp hempty
    obtain ⟨s, hs, hend⟩ := (Option.any_eq_true _ _).mp hp
    obtain ⟨hread, hissued⟩ := of_decide_eq_true hend
    refine ⟨p, hrun, fun h => ?_⟩
    rw [(h.stream s hs).2 hread] at hissued
    cases hissued
  · obtain ⟨p, hrun, hfailed⟩ := (Option.any_eq_true _ _).mp hrefused
    refine ⟨p, hrun, fun h => ?_⟩
    rw [h.sink] at hfailed
    cases hfailed

end Streambox.WifiDisplay.PeerChecks
