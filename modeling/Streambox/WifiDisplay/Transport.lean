import Mathlib.Data.List.Forall2
import Streambox.WifiDisplay.NetworkSession

/-! ANetworkSession.cpp, a `Session` on either kind of socket: what the client queues, what the
    socket takes and gives, and what the client is told.

        sendRequest ──▶ mOutBuffer ──────▶ writeMore ──▶ send
                   └──▶ mOutDatagrams ──┘
        notify ◀── readMore ◀── recv

    The checks of this code base print and go on. So a request on a connection that is not made yet
    is queued, but without the prefix that a stream of datagrams needs. And `writeMore` looks at the
    first bytes of a datagram, and writes to some, without asking how long it is. -/

namespace Streambox.WifiDisplay.Transport
open Streambox.Lib
open ParsedMessage (Bytes cStr)
open NetworkSession (Notification next nextRtsp nextDatagram)

/-- Session::State. -/
inductive Phase where
  | connecting
  | connected
  | listeningRtsp
  | listeningTcpDgrams
  | datagram
  deriving DecidableEq, Repr

/-- What the client is told. -/
inductive Notice where
  | clientConnected
  | connected
  | data (notification : Notification)
  | datagram (data : Bytes)
  | error (send : Bool) (err : Int)
  deriving DecidableEq, Repr

/-- What a call on a socket returns, if it is not interrupted. -/
inductive Result (α : Type*) where
  | ok (a : α)
  | err (errno : Nat)
  deriving DecidableEq, Repr

def eAgain : Nat := 11

def eConnReset : Nat := 104

/-- A `Session`, and what has been asked of it, what `send` has taken and what `recv` has given.
    `outside` says that it has used memory behind a datagram. -/
structure Session where
  phase : Phase
  isRtspConnection : Bool
  sawReceiveFailure : Bool
  sawSendFailure : Bool
  outBuffer : Bytes
  outDatagrams : List Bytes
  inBuffer : Bytes
  notices : List Notice
  requested : List Bytes
  sent : Bytes
  sentDatagrams : List Bytes
  received : Bytes
  outside : Bool
  deriving DecidableEq, Repr

def Session.new (phase : Phase) (isRtspConnection : Bool) : Session :=
  ⟨phase, isRtspConnection, false, false, [], [], [],
    if phase = .connected then [.clientConnected] else [], [], [], [], [], false⟩

def wantsToRead (s : Session) : Bool := !s.sawReceiveFailure && s.phase ≠ .connecting

def wantsToWrite (s : Session) : Bool :=
  !s.sawSendFailure &&
    (s.phase = .connecting || (s.phase = .connected && s.outBuffer ≠ []) ||
      (s.phase = .datagram && s.outDatagrams ≠ []))

/-- `notifyError`, with the flag that is set behind it. -/
def fail (s : Session) (send : Bool) (err : Int) : Session :=
  { s with
    notices := s.notices ++ [.error send err]
    sawReceiveFailure := s.sawReceiveFailure || !send
    sawSendFailure := s.sawSendFailure || send }

/-! ### Reading -/

/-- `recvfrom` is called until it fails. No results are left when it would block. -/
def readDatagrams (s : Session) : List (Result Bytes) → Session
  | [] => s
  | .ok [] :: _ => fail s false (-eConnReset)
  | .ok (byte :: data) :: results =>
    readDatagrams { s with notices := s.notices ++ [.datagram (byte :: data)] } results
  | .err errno :: _ => if errno = eAgain then s else fail s false (-errno)

/-- The loop of an RTSP connection behind a failure: it ends with the first message. -/
def lastMessages : Nat → Bytes → List Notification × Bytes
  | 0, b => ([], b)
  | fuel + 1, b =>
    match nextRtsp b with
    | none => ([], b)
    | some (.data message, rest) => ([.data message], rest)
    | some (notification, rest) =>
      (notification :: (lastMessages fuel rest).1, (lastMessages fuel rest).2)

def takeOff (isRtspConnection failed : Bool) (b : Bytes) : List Notification × Bytes :=
  if isRtspConnection && failed then lastMessages b.length b
  else drain (next isRtspConnection) b.length b

/-- What has come in is told, whether the call failed or not. -/
def receive (s : Session) (failed : Bool) (chunk : Bytes) : Session :=
  let q := takeOff s.isRtspConnection failed (s.inBuffer ++ chunk)
  { s with
    inBuffer := q.2
    received := s.received ++ chunk
    notices := s.notices ++ q.1.map .data }

/-- `recv` on a stream. That it would block is a failure here. -/
def readStream (s : Session) : Result Bytes → Session
  | .ok [] => fail (receive s true []) false (-eConnReset)
  | .ok (byte :: chunk) => receive s false (byte :: chunk)
  | .err errno => fail (receive s true []) false (-errno)

def readMore (s : Session) (results : List (Result Bytes)) : Session :=
  if s.phase = .datagram then readDatagrams s results
  else readStream s (results.headD (.err eAgain))

/-! ### Writing -/

/-- The time of a packet of the transport stream is set when it is sent. -/
def restamp (nowUs : Nat) (data : Bytes) : Bytes :=
  if data.getD 0 0 = 0x80 ∧ data.getD 1 0 &&& 0x7f = 33 then
    let rtpTime := nowUs * 9 / 100
    (((data.set 4 (UInt8.ofNat (rtpTime >>> 24))).set 5 (UInt8.ofNat (rtpTime >>> 16))).set 6
      (UInt8.ofNat (rtpTime >>> 8))).set 7 (UInt8.ofNat rtpTime)
  else data

/-- How many of the first bytes that takes, if there are so many. -/
def touched (data : Bytes) : Nat :=
  if data.getD 0 0 ≠ 0x80 then 1 else if data.getD 1 0 &&& 0x7f ≠ 33 then 2 else 8

/-- The front of the queue, as it is given to `send`. -/
def stampFront (s : Session) (nowUs : Nat) (data : Bytes) (queue : List Bytes) : Session :=
  { s with
    outDatagrams := restamp nowUs data :: queue
    outside := s.outside || decide (data.length < touched data) }

/-- `send` is called until it fails or nothing is queued, each time with the time that it is. No
    results are left when it would block. -/
def writeDatagrams (s : Session) : List (Nat × Result Nat) → Session
  | [] => s
  | (nowUs, result) :: results =>
    match s.outDatagrams with
    | [] => s
    | data :: queue =>
      match result with
      | .ok 0 => fail (stampFront s nowUs data queue) true (-eConnReset)
      | .ok (_ + 1) =>
        writeDatagrams
          { stampFront s nowUs data queue with
            outDatagrams := queue, sentDatagrams := s.sentDatagrams ++ [restamp nowUs data] }
          results
      | .err errno =>
        if errno = eAgain then stampFront s nowUs data queue
        else fail (stampFront s nowUs data queue) true (-errno)

/-- The end of a connect, with the error of the socket. The error is told as one of receiving. -/
def connect (s : Session) : Result Nat → Session
  | .ok _ => { s with phase := .connected, notices := s.notices ++ [.connected] }
  | .err errno => { s with notices := s.notices ++ [.error false (-errno)], sawSendFailure := true }

/-- `send` on a stream takes a part of the buffer. -/
def writeStream (s : Session) : Result Nat → Session
  | .ok 0 => fail s true (-eConnReset)
  | .ok (n + 1) =>
    { s with outBuffer := s.outBuffer.drop (n + 1), sent := s.sent ++ s.outBuffer.take (n + 1) }
  | .err errno => fail s true (-errno)

def writeMore (s : Session) (results : List (Nat × Result Nat)) : Session :=
  match s.phase with
  | .datagram => writeDatagrams s results
  | .connecting => connect s ((results.map Prod.snd).headD (.ok 0))
  | _ => writeStream s ((results.map Prod.snd).headD (.err eAgain))

/-- The length that stands before a datagram on a stream. -/
def prefixOf (size : Nat) : Bytes := [UInt8.ofNat (size >>> 8), UInt8.ofNat size]

def frame (data : Bytes) : Bytes := prefixOf data.length ++ data

def sendRequest (s : Session) (data : Bytes) : Session :=
  match s.phase with
  | .datagram =>
    { s with outDatagrams := s.outDatagrams ++ [data], requested := s.requested ++ [data] }
  | .connected =>
    { s with
      outBuffer := s.outBuffer ++ if s.isRtspConnection then data else frame data
      requested := s.requested ++ [data] }
  | _ =>
    { s with outBuffer := s.outBuffer ++ data, requested := s.requested ++ [data] }

/-! ### A session of datagrams -/

inductive Action where
  | request (data : Bytes)
  | write (results : List (Nat × Result Nat))
  | read (results : List (Result Bytes))
  deriving DecidableEq, Repr

/-- The thread calls `writeMore` and `readMore` only on a session that wants it. -/
def step (s : Session) : Action → Option Session
  | .request data => some (sendRequest s data)
  | .write results => if wantsToWrite s then some (writeMore s results) else none
  | .read results => if wantsToRead s then some (readMore s results) else none

/-- The same datagram, with another time if it is one of the transport stream. -/
structure Restamped (data data' : Bytes) : Prop where
  length : data'.length = data.length
  other : ∀ i, i < 4 ∨ 8 ≤ i → data'[i]? = data[i]?
  plain : ¬ (data.getD 0 0 = 0x80 ∧ data.getD 1 0 &&& 0x7f = 33) → data' = data

theorem restamped_refl (data : Bytes) : Restamped data data := ⟨rfl, fun _ _ => rfl, fun _ => rfl⟩

theorem restamp_getElem? (nowUs : Nat) (data : Bytes) {i : Nat} (h : i < 4 ∨ 8 ≤ i) :
    (restamp nowUs data)[i]? = data[i]? := by
  rw [restamp]
  split
  · simp only
    rw [List.getElem?_set_ne (by omega), List.getElem?_set_ne (by omega),
      List.getElem?_set_ne (by omega), List.getElem?_set_ne (by omega)]
  · rfl

theorem restamped_restamp {data data' : Bytes} (h : Restamped data data') (nowUs : Nat) :
    Restamped data (restamp nowUs data') := by
  refine ⟨?_, fun i hi => (restamp_getElem? nowUs data' hi).trans (h.other i hi), fun hplain => ?_⟩
  · rw [restamp]
    split
    · simp [h.length]
    · exact h.length
  · rw [h.plain hplain, restamp, if_neg hplain]

/-- The bytes that say how many are looked at stay as they are. -/
theorem Restamped.touched {data data' : Bytes} (h : Restamped data data') :
    touched data' = touched data := by
  have hsame : ∀ i, i < 4 → data'.getD i 0 = data.getD i 0 := fun i hi => by
    rw [List.getD_eq_getElem?_getD, h.other i (.inl hi), ← List.getD_eq_getElem?_getD]
  rw [Transport.touched, Transport.touched, hsame 0 (by decide), hsame 1 (by decide)]

/-- There is enough of every datagram that was requested. -/
def LongEnough (s : Session) : Prop := ∀ data ∈ s.requested, touched data ≤ data.length

/-- What was requested has been sent or is queued, in this order. -/
structure Ordered (s : Session) : Prop where
  phase : s.phase = .datagram
  order : List.Forall₂ Restamped s.requested (s.sentDatagrams ++ s.outDatagrams)
  inside : LongEnough s → s.outside = false

theorem ordered_fail {s : Session} (h : Ordered s) (send : Bool) (err : Int) :
    Ordered (fail s send err) := ⟨h.phase, h.order, h.inside⟩

/-- The front of the queue gets a new time. -/
theorem ordered_stampFront {s : Session} (h : Ordered s) {data : Bytes} {queue : List Bytes}
    (hqueue : s.outDatagrams = data :: queue) (nowUs : Nat) :
    Ordered (stampFront s nowUs data queue) := by
  obtain ⟨hphase, horder, hinside⟩ := h
  rw [hqueue] at horder
  have hbefore := List.forall₂_take_append _ _ _ horder
  have hbehind := List.forall₂_drop_append _ _ _ horder
  obtain ⟨first, rest, hfront, hrest, heq⟩ := List.forall₂_cons_right_iff.mp hbehind
  refine ⟨hphase, ?_, fun hlong => ?_⟩
  · have hall : List.Forall₂ Restamped (s.requested.take s.sentDatagrams.length ++ first :: rest)
        (s.sentDatagrams ++ restamp nowUs data :: queue) :=
      List.rel_append hbefore (.cons (restamped_restamp hfront nowUs) hrest)
    rwa [← heq, List.take_append_drop] at hall
  · -- it is as long as what was requested, and is looked at as far
    have hmem : first ∈ s.requested :=
      List.mem_of_mem_drop (heq ▸ List.mem_cons_self : first ∈ s.requested.drop _)
    have hfirst := hlong first hmem
    rw [← hfront.touched, ← hfront.length] at hfirst
    simp [stampFront, hinside hlong, hfirst]

theorem writeDatagrams_ordered {s : Session} (h : Ordered s) (results : List (Nat × Result Nat)) :
    Ordered (writeDatagrams s results) := by
  induction results generalizing s with
  | nil => exact h
  | cons result results ih =>
    obtain ⟨nowUs, result⟩ := result
    rw [writeDatagrams]
    split
    · exact h
    · next data queue hqueue =>
      have hstamped := ordered_stampFront h hqueue nowUs
      match result with
      | .ok 0 => exact ordered_fail hstamped _ _
      | .ok (n + 1) =>
        refine ih ⟨hstamped.phase, ?_, hstamped.inside⟩
        simpa [stampFront] using hstamped.order
      | .err errno =>
        dsimp only
        split
        · exact hstamped
        · exact ordered_fail hstamped _ _

theorem readDatagrams_ordered {s : Session} (h : Ordered s) (results : List (Result Bytes)) :
    Ordered (readDatagrams s results) := by
  induction results generalizing s with
  | nil => exact h
  | cons result results ih =>
    match result with
    | .ok [] => exact ordered_fail h _ _
    | .ok (byte :: data) => exact ih ⟨h.phase, h.order, h.inside⟩
    | .err errno =>
      rw [readDatagrams]
      split
      · exact h
      · exact ordered_fail h _ _

theorem step_ordered {s s' : Session} {a : Action} (h : Ordered s) (hstep : step s a = some s') :
    Ordered s' := by
  cases a with
  | request data =>
    cases hstep
    simp only [sendRequest, h.phase]
    refine ⟨rfl, ?_, fun hlong => h.inside fun d hd => hlong d (List.mem_append_left _ hd)⟩
    rw [← List.append_assoc]
    exact List.rel_append h.order (.cons (restamped_refl data) .nil)
  | write results =>
    simp only [step] at hstep
    split at hstep
    · cases hstep
      rw [writeMore]
      simp only [h.phase]
      exact writeDatagrams_ordered h results
    · cases hstep
  | read results =>
    simp only [step] at hstep
    split at hstep
    · cases hstep
      rw [readMore, if_pos h.phase]
      exact readDatagrams_ordered h results
    · cases hstep

/-- On a datagram socket, in every run in which the datagrams have the bytes that are looked at: no
    memory behind one of them is used, and what `send` has taken is the front of what was requested,
    in the same order, none left out and none sent twice; only in packets of the transport stream the
    four bytes of the time are other ones. -/
theorem datagrams_sent_in_order {as : List Action} {s : Session}
    (hrun : run step (.new .datagram false) as = some s) (hlong : LongEnough s) :
    s.outside = false ∧
      List.Forall₂ Restamped (s.requested.take s.sentDatagrams.length) s.sentDatagrams ∧
      s.requested.length = s.sentDatagrams.length + s.outDatagrams.length := by
  have hordered : Ordered s :=
    run_preserves (P := Ordered) (fun _ _ _ h hstep => step_ordered h hstep) hrun
      ⟨rfl, .nil, fun _ => rfl⟩
  exact ⟨hordered.inside hlong, List.forall₂_take_append _ _ _ hordered.order,
    hordered.order.length_eq.trans List.length_append⟩

/-- A packet of the transport stream is queued with the time zero and has to wait once. -/
theorem datagrams_sent_in_order_waiting : ∃ s,
    run step (.new .datagram false) [.request [0x80, 33, 0, 1, 0, 0, 0, 0, 0x47], .request [1],
      .write [(100, .err 11)], .write [(200, .ok 9), (300, .ok 1)]] = some s ∧
    s.sentDatagrams = [[0x80, 33, 0, 1, 0, 0, 0, 18, 0x47], [1]] ∧ s.outside = false ∧
    List.Forall₂ Restamped (s.requested.take 2) s.sentDatagrams := by
  obtain ⟨s, hrun, hsent, hrequested⟩ : ∃ s,
      run step (.new .datagram false) [.request [0x80, 33, 0, 1, 0, 0, 0, 0, 0x47], .request [1],
        .write [(100, .err 11)], .write [(200, .ok 9), (300, .ok 1)]] = some s ∧
      s.sentDatagrams = [[0x80, 33, 0, 1, 0, 0, 0, 18, 0x47], [1]] ∧
      s.requested = [[0x80, 33, 0, 1, 0, 0, 0, 0, 0x47], [1]] := by
    refine ⟨_, rfl, ?_, rfl⟩
    decide
  have hlong : LongEnough s := by
    rw [LongEnough, hrequested]
    decide
  obtain ⟨hinside, horder, -⟩ := datagrams_sent_in_order hrun hlong
  rw [show s.sentDatagrams.length = 2 by rw [hsent]; rfl] at horder
  exact ⟨s, hrun, hsent, hinside, horder⟩

end Streambox.WifiDisplay.Transport
