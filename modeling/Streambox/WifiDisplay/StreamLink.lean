import Streambox.WifiDisplay.Transport

/-! Two sessions at the ends of one TCP connection, ANetworkSession.cpp at both of them.

        sendRequest ─▶ mOutBuffer ─writeMore─▶ (on its way) ─readMore─▶ mInBuffer ─▶ notifications
                       └────────────────── one stream of bytes ─────────────────┘

    `send` takes what it likes off the buffer and `recv` returns what it likes of what is on its way.
    Cut into its messages the stream is the same at both ends. -/

namespace Streambox.WifiDisplay.StreamLink
open Streambox.Lib
open ParsedMessage (Bytes)
open NetworkSession (Notification next nextDatagram complete Uncut u16At)
open Transport

/-- What is on its way is what `send` has taken and `recv` has not given. -/
structure Link where
  near : Session
  far : Session
  deriving DecidableEq, Repr

def onItsWay (s : Link) : Bytes := s.near.sent.drop s.far.received.length

def start (isRtspConnection : Bool) : Link :=
  ⟨.new .connected isRtspConnection, .new .connected isRtspConnection⟩

inductive Action where
  | request (data : Bytes)
  | write (result : Result Nat)
  | read (result : Result Bytes)
  deriving DecidableEq, Repr

/-- The thread calls `writeMore` and `readMore` only on a session that wants it. -/
def step (s : Link) : Action → Option Link
  | .request data => some { s with near := sendRequest s.near data }
  | .write result =>
    if wantsToWrite s.near then some { s with near := writeMore s.near [(0, result)] } else none
  | .read (.ok chunk) =>
    if wantsToRead s.far ∧ chunk <+: onItsWay s ∧ chunk.length ≤ 512 then
      some { s with far := readMore s.far [.ok chunk] }
    else none
  | .read (.err errno) =>
    if wantsToRead s.far then some { s with far := readMore s.far [.err errno] } else none

/-- How a request stands in the stream. -/
def encode (isRtspConnection : Bool) (data : Bytes) : Bytes :=
  if isRtspConnection then data else frame data

/-- What has come in as a message. -/
def dataOf (notices : List Notice) : List Notification :=
  notices.filterMap fun
    | .data notification => some notification
    | _ => none

/-! ### The near end -/

/-- The buffer goes on where `send` has stopped. -/
structure Sends (rtsp : Bool) (s : Session) : Prop where
  phase : s.phase = .connected
  kind : s.isRtspConnection = rtsp
  stream : s.sent ++ s.outBuffer = s.requested.flatMap (encode rtsp)

theorem sends_new (rtsp : Bool) : Sends rtsp (.new .connected rtsp) := ⟨rfl, rfl, rfl⟩

theorem sendRequest_sends {rtsp : Bool} {s : Session} (h : Sends rtsp s) (data : Bytes) :
    Sends rtsp (sendRequest s data) ∧ (sendRequest s data).sent = s.sent := by
  obtain ⟨hphase, hkind, hstream⟩ := h
  have hnext : sendRequest s data =
      { s with
        outBuffer := s.outBuffer ++ encode rtsp data, requested := s.requested ++ [data] } := by
    simp [sendRequest, hphase, hkind, encode]
  rw [hnext]
  refine ⟨⟨hphase, hkind, ?_⟩, rfl⟩
  rw [List.flatMap_append, List.flatMap_singleton, ← hstream, List.append_assoc]

theorem writeStream_sends {rtsp : Bool} {s : Session} (h : Sends rtsp s) (result : Result Nat) :
    Sends rtsp (writeStream s result) ∧ s.sent <+: (writeStream s result).sent := by
  obtain ⟨hphase, hkind, hstream⟩ := h
  match result with
  | .ok 0 => exact ⟨⟨hphase, hkind, hstream⟩, List.prefix_refl _⟩
  | .err errno => exact ⟨⟨hphase, hkind, hstream⟩, List.prefix_refl _⟩
  | .ok (n + 1) =>
    refine ⟨⟨hphase, hkind, ?_⟩, List.prefix_append _ _⟩
    simpa only [writeStream, List.append_assoc, List.take_append_drop] using hstream

theorem writeMore_sends {rtsp : Bool} {s : Session} (h : Sends rtsp s) (result : Result Nat) :
    Sends rtsp (writeMore s [(0, result)]) ∧ s.sent <+: (writeMore s [(0, result)]).sent := by
  have hstream : writeMore s [(0, result)] = writeStream s result := by
    simp [writeMore, h.phase]
  exact hstream ▸ writeStream_sends h result

/-! ### The far end -/

/-- What has come in is cut into messages, up to what is kept for the next call. -/
structure Takes (rtsp : Bool) (s : Session) : Prop where
  phase : s.phase = .connected
  kind : s.isRtspConnection = rtsp
  settled : next rtsp s.inBuffer = none
  frames : Frames (complete rtsp) s.received (dataOf s.notices) s.inBuffer

theorem next_nil (rtsp : Bool) : next rtsp [] = none := by
  cases rtsp <;> rfl

theorem takes_new (rtsp : Bool) : Takes rtsp (.new .connected rtsp) :=
  ⟨rfl, rfl, next_nil rtsp, .stop (NetworkSession.complete_nil rtsp)⟩

theorem dataOf_append (notices : List Notice) (ms : List Notification) :
    dataOf (notices ++ ms.map .data) = dataOf notices ++ ms := by
  rw [dataOf, List.filterMap_append, ← dataOf, List.filterMap_map]
  congr 1
  exact List.filterMap_some

theorem dataOf_error (notices : List Notice) (send : Bool) (err : Int) :
    dataOf (notices ++ [.error send err]) = dataOf notices := by
  rw [dataOf, List.filterMap_append]
  exact List.append_nil _

theorem fail_takes {rtsp : Bool} {s : Session} (h : Takes rtsp s) (send : Bool) (err : Int) :
    Takes rtsp (fail s send err) :=
  ⟨h.phase, h.kind, h.settled, (dataOf_error s.notices send err).symm ▸ h.frames⟩

theorem takeOff_settled {rtsp failed : Bool} {b : Bytes} (h : next rtsp b = none) :
    takeOff rtsp failed b = ([], b) := by
  have hdrain : ∀ fuel, drain (next rtsp) fuel b = ([], b) := by
    intro fuel
    cases fuel with
    | zero => rfl
    | succ fuel => rw [drain, h]
  rw [takeOff]
  split
  case isTrue hfailed =>
    obtain ⟨rfl, -⟩ := Bool.and_eq_true_iff.mp hfailed
    rcases hlen : b.length with _ | fuel
    · rfl
    · have hnone : NetworkSession.nextRtsp b = none := h
      rw [lastMessages, hnone]
  case isFalse => exact hdrain b.length

/-- A call that fails finds nothing new. -/
theorem receive_failed {rtsp : Bool} {s : Session} (h : Takes rtsp s) :
    receive s true [] = s := by
  obtain rfl := h.kind
  have hnone : takeOff s.isRtspConnection true s.inBuffer = ([], s.inBuffer) :=
    takeOff_settled h.settled
  rw [receive, List.append_nil, List.append_nil, hnone]
  simp

theorem receive_takes {rtsp : Bool} {s : Session} (h : Takes rtsp s) {chunk : Bytes}
    (huncut : Uncut rtsp ⟨s.inBuffer, []⟩ chunk) : Takes rtsp (receive s false chunk) := by
  obtain ⟨hphase, hkind, hsettled, hframes⟩ := h
  obtain ⟨ms, hms, hmore⟩ := NetworkSession.readMore_complete huncut
  obtain ⟨ms', hms', hnext⟩ := NetworkSession.readMore_frames rtsp ⟨s.inBuffer, []⟩ chunk
  have hq : takeOff s.isRtspConnection false (s.inBuffer ++ chunk) =
      (ms, (NetworkSession.readMore rtsp ⟨s.inBuffer, []⟩ chunk).inBuffer) := by
    rw [hkind, takeOff, Bool.and_false, if_neg (by decide)]
    exact Prod.ext_iff.mpr ⟨hms, rfl⟩
  refine ⟨hphase, hkind, ?_, ?_⟩
  · rw [receive]
    simp only [hq]
    exact hnext.settled
  · rw [receive]
    simp only [hq]
    rw [dataOf_append]
    exact hframes.append (NetworkSession.stable_complete rtsp) hmore

/-- What a call adds to what has come in. -/
def chunkOf : Result Bytes → Bytes
  | .ok chunk => chunk
  | .err _ => []

theorem readStream_takes {rtsp : Bool} {s : Session} (h : Takes rtsp s) {result : Result Bytes}
    (huncut : Uncut rtsp ⟨s.inBuffer, []⟩ (chunkOf result)) :
    Takes rtsp (readStream s result) ∧
      (readStream s result).received = s.received ++ chunkOf result := by
  match result with
  | .ok [] =>
    rw [readStream, receive_failed h]
    exact ⟨fail_takes h _ _, (List.append_nil _).symm⟩
  | .err errno =>
    rw [readStream, receive_failed h]
    exact ⟨fail_takes h _ _, (List.append_nil _).symm⟩
  | .ok (byte :: chunk) => exact ⟨receive_takes h huncut, rfl⟩

theorem readMore_takes {rtsp : Bool} {s : Session} (h : Takes rtsp s) {result : Result Bytes}
    (huncut : Uncut rtsp ⟨s.inBuffer, []⟩ (chunkOf result)) :
    Takes rtsp (readMore s [result]) ∧
      (readMore s [result]).received = s.received ++ chunkOf result := by
  have hstream : readMore s [result] = readStream s result := by
    simp [readMore, h.phase]
  exact hstream ▸ readStream_takes h huncut

/-! ### The connection -/

/-- Both ends, and what has come in is the front of what has gone out. -/
structure Carries (rtsp : Bool) (s : Link) : Prop where
  near : Sends rtsp s.near
  far : Takes rtsp s.far
  order : s.far.received <+: s.near.sent

/-- No call of `readMore` ends where the message depends on what comes next. -/
def UncutStep (rtsp : Bool) (s : Link) : Action → Prop
  | .read result => Uncut rtsp ⟨s.far.inBuffer, []⟩ (chunkOf result)
  | _ => True

theorem carries_start (rtsp : Bool) : Carries rtsp (start rtsp) :=
  ⟨sends_new rtsp, takes_new rtsp, List.prefix_refl _⟩

theorem append_prefix_of_prefix_drop {l₁ l₂ l : List UInt8} (h : l₁ <+: l)
    (h' : l₂ <+: l.drop l₁.length) : l₁ ++ l₂ <+: l := by
  obtain ⟨rest, rfl⟩ := h
  rw [List.drop_left] at h'
  exact (List.prefix_append_right_inj _).mpr h'

theorem step_carries {rtsp : Bool} {s s' : Link} {a : Action} (h : Carries rtsp s)
    (huncut : UncutStep rtsp s a) (hstep : step s a = some s') : Carries rtsp s' := by
  obtain ⟨hnear, hfar, horder⟩ := h
  match a with
  | .request data =>
    cases hstep
    obtain ⟨hsends, hsent⟩ := sendRequest_sends hnear data
    exact ⟨hsends, hfar, hsent.symm ▸ horder⟩
  | .write result =>
    simp only [step] at hstep
    split at hstep
    · cases hstep
      obtain ⟨hsends, hsent⟩ := writeMore_sends hnear result
      exact ⟨hsends, hfar, horder.trans hsent⟩
    · cases hstep
  | .read (.ok chunk) =>
    simp only [step] at hstep
    split at hstep
    · next hread =>
      cases hstep
      obtain ⟨htakes, hreceived⟩ := readMore_takes hfar huncut
      refine ⟨hnear, htakes, ?_⟩
      rw [hreceived]
      exact append_prefix_of_prefix_drop horder hread.2.1
    · cases hstep
  | .read (.err errno) =>
    simp only [step] at hstep
    split at hstep
    · cases hstep
      obtain ⟨htakes, hreceived⟩ := readMore_takes hfar huncut
      refine ⟨hnear, htakes, ?_⟩
      rw [hreceived, chunkOf, List.append_nil]
      exact horder
    · cases hstep

/-- Of a stream that is the encoding of messages the far end takes them in their order, and all of
    them when nothing is left on the way. -/
theorem carried_messages {rtsp : Bool} {s : Link} (h : Carries rtsp s) {ms : List Notification}
    (hms : Frames (complete rtsp) (s.near.requested.flatMap (encode rtsp)) ms []) :
    dataOf s.far.notices <+: ms ∧
      (onItsWay s = [] → s.near.outBuffer = [] →
        dataOf s.far.notices = ms ∧ s.far.inBuffer = []) := by
  obtain ⟨⟨-, -, hstream⟩, ⟨-, -, -, hframes⟩, horder⟩ := h
  obtain ⟨rest, hrest⟩ := horder
  have hwhole : s.near.requested.flatMap (encode rtsp) =
      s.far.received ++ (rest ++ s.near.outBuffer) := by
    rw [← hstream, ← hrest, List.append_assoc]
  have hshort : Shortens (complete rtsp) := fun b m left hsome =>
    NetworkSession.shortens_next rtsp b m left (NetworkSession.complete_some hsome)
  have hmore := hframes.append (NetworkSession.stable_complete rtsp)
    (frames_drain hshort (Nat.le_refl (s.far.inBuffer ++ (rest ++ s.near.outBuffer)).length))
  rw [← hwhole] at hmore
  obtain ⟨rfl, -⟩ := hmore.unique hms
  refine ⟨List.prefix_append _ _, fun hway hout => ?_⟩
  have hnil : rest = [] := by
    rwa [onItsWay, ← hrest, List.drop_left] at hway
  rw [hnil, hout, List.append_nil, List.append_nil] at hwhole
  rw [hwhole] at hms
  exact hframes.unique hms

/-! ### Datagrams -/

/-- A length of 16 bits is read as it is written. -/
theorem nextDatagram_frame {data : Bytes} (h : data.length ≤ 65535) (rest : Bytes) :
    nextDatagram (frame data ++ rest) = some (.datagram data, rest) := by
  have hsize : u16At (frame data ++ rest) 0 = data.length := by
    simp only [u16At, frame, prefixOf, List.cons_append, List.nil_append, List.getD_cons_zero,
      List.getD_cons_succ, UInt8.toNat_ofNat']
    omega
  have hlen : (frame data ++ rest).length = data.length + rest.length + 2 := by
    simp only [frame, prefixOf, List.length_append, List.length_cons, List.length_nil]
    omega
  rw [nextDatagram, if_neg (by omega), if_neg (by omega), hsize]
  simp [frame, prefixOf]

theorem frames_datagrams {requested : List Bytes} (h : ∀ data ∈ requested, data.length ≤ 65535) :
    Frames nextDatagram (requested.flatMap frame) (requested.map .datagram) [] := by
  induction requested with
  | nil => exact .stop rfl
  | cons data requested ih =>
    rw [List.flatMap_cons, List.map_cons]
    exact .more (nextDatagram_frame (h data (by simp)) _) (ih fun d hd => h d (by simp [hd]))

/-- On a connection that carries datagrams, in every run: however `send` and `recv` cut the stream,
    the far client is given the datagrams that were requested, in their order and each once, and
    all of them when nothing is left on the way. -/
theorem datagrams_in_order {as : List Action} {s : Link}
    (hrun : run step (start false) as = some s)
    (hsize : ∀ data ∈ s.near.requested, data.length ≤ 65535) :
    dataOf s.far.notices <+: s.near.requested.map .datagram ∧
      (onItsWay s = [] → s.near.outBuffer = [] →
        dataOf s.far.notices = s.near.requested.map .datagram ∧ s.far.inBuffer = []) := by
  have hcarries : Carries false s :=
    run_preserves (P := Carries false)
      (fun s a s' h hstep => step_carries h (by cases a <;> simp [UncutStep, Uncut]) hstep) hrun
      (carries_start false)
  exact carried_messages hcarries (frames_datagrams hsize)

/-- Two datagrams, in three pieces. -/
theorem datagrams_in_order_two : ∃ s, run step (start false)
      [.request [1, 2, 3], .write (.ok 3), .request [], .read (.ok [0, 3, 1]), .write (.ok 4),
        .read (.ok [2]), .read (.ok [3, 0, 0])] = some s ∧
    dataOf s.far.notices = [.datagram [1, 2, 3], .datagram []] ∧ s.far.inBuffer = [] := by
  obtain ⟨s, hrun, hrequested, hway, hout⟩ : ∃ s, run step (start false)
      [.request [1, 2, 3], .write (.ok 3), .request [], .read (.ok [0, 3, 1]), .write (.ok 4),
        .read (.ok [2]), .read (.ok [3, 0, 0])] = some s ∧
      s.near.requested = [[1, 2, 3], []] ∧ onItsWay s = [] ∧ s.near.outBuffer = [] := by
    refine ⟨_, rfl, ?_⟩
    decide
  have harrive := (datagrams_in_order hrun (by rw [hrequested]; decide)).2 hway hout
  rw [hrequested] at harrive
  exact ⟨s, hrun, harrive⟩

end Streambox.WifiDisplay.StreamLink
