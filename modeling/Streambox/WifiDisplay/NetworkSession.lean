import Mathlib.Data.List.GetD
import Streambox.Lib.Run
import Streambox.Lib.Framing
import Streambox.WifiDisplay.ParsedMessage

/-! ANetworkSession.cpp, `Session::readMore` on a TCP connection.

    What `recv` returns is appended to `mInBuffer`; then packets are taken off its front: datagrams
    with a length of 16 bits, or, on an RTSP connection, binary packets behind a '$' and messages.

        recv ──▶ mInBuffer ──▶ notification, notification, ..
                     ▲                       │
                     └────── what is left ◀──┘

    A message whose header is not complete may be taken for one that is: the loop over the lines also
    ends where the buffer does. And the two bytes that an old dongle sends behind a request for an IDR
    frame are skipped only if they are there already. -/

namespace Streambox.WifiDisplay.NetworkSession
open Streambox.Lib
open ParsedMessage

/-- What the session posts to its owner. -/
inductive Notification where
  | datagram (data : Bytes)
  | binaryData (channel : UInt8) (data : Bytes)
  | data (message : Message)
  deriving DecidableEq, Repr

structure Session where
  inBuffer : Bytes
  notified : List Notification
  deriving DecidableEq, Repr

theorem Session.eq_iff {s s' : Session} :
    s = s' ↔ s.inBuffer = s'.inBuffer ∧ s.notified = s'.notified := by
  obtain ⟨inBuffer, notified⟩ := s
  obtain ⟨inBuffer', notified'⟩ := s'
  rw [Session.mk.injEq]

/-- `U16_AT`. -/
def u16At (b : Bytes) (i : Nat) : Nat := (b.getD i 0).toNat * 256 + (b.getD (i + 1) 0).toNat

/-- The loop of a connection that carries datagrams. -/
def nextDatagram (b : Bytes) : Option (Notification × Bytes) :=
  if b.length < 2 then none
  else if b.length < u16At b 0 + 2 then none
  else some (.datagram ((b.drop 2).take (u16At b 0)), b.drop (u16At b 0 + 2))

/-- "wfd_idr_request" with its CR LF. -/
def idrRequest : Bytes :=
  [0x77, 0x66, 0x64, 0x5f, 0x69, 0x64, 0x72, 0x5f, 0x72, 0x65, 0x71, 0x75, 0x65, 0x73, 0x74, 0x0d,
    0x0a]

/-- A message of the (old) dongle, whose content length is two less than it should be. -/
def isIdrRequest (message : Message) (length : Nat) : Bool :=
  message.content.take 17 = idrRequest && 19 ≤ length

/-- The length of a message, with the two bytes that it does not count. -/
def messageEnd (b : Bytes) (message : Message) (length : Nat) : Nat :=
  if isIdrRequest message length ∧ (b.drop length).take 2 = [0x0d, 0x0a] then length + 2 else length

/-- The loop of an RTSP connection. -/
def nextRtsp (b : Bytes) : Option (Notification × Bytes) :=
  if b.head? = some 0x24 then
    if b.length < 4 then none
    else if b.length < 4 + u16At b 2 then none
    else some (.binaryData (b.getD 1 0) ((b.drop 4).take (u16At b 2)), b.drop (4 + u16At b 2))
  else
    match parse b with
    | none => none
    | some (message, length) => some (.data message, b.drop (messageEnd b message length))

def next (rtsp : Bool) : Bytes → Option (Notification × Bytes) :=
  if rtsp then nextRtsp else nextDatagram

/-- `readMore`, with what `recv` has returned. -/
def readMore (rtsp : Bool) (s : Session) (chunk : Bytes) : Session :=
  let b := s.inBuffer ++ chunk
  ⟨(drain (next rtsp) b.length b).2, s.notified ++ (drain (next rtsp) b.length b).1⟩

def step (rtsp : Bool) (s : Session) (chunk : Bytes) : Option Session := some (readMore rtsp s chunk)

/-- A session that has received nothing. -/
def start : Session := ⟨[], []⟩

/-! ### Every round takes something off -/

theorem parse_length {b : Bytes} {message : Message} {length : Nat}
    (h : parse b = some (message, length)) : 2 ≤ length ∧ length ≤ b.length := by
  rw [parse] at h
  split at h
  case h_1 => cases h
  case h_2 dict rest blank hheader =>
    have hlen := (header_length hheader).1
    dsimp only at h
    split at h
    case isTrue => cases h
    case isFalse hcontent =>
      cases h
      omega

theorem shortens_next (rtsp : Bool) : Shortens (next rtsp) := by
  intro b m rest h
  cases rtsp with
  | false =>
    rw [next, if_neg (by decide), nextDatagram] at h
    split_ifs at h
    cases h
    rw [List.length_drop]
    omega
  | true =>
    rw [next, if_pos rfl, nextRtsp] at h
    split at h
    case isTrue =>
      split_ifs at h
      cases h
      rw [List.length_drop]
      omega
    case isFalse =>
      cases hparse : parse b with
      | none => simp [hparse] at h
      | some q =>
        obtain ⟨message, length⟩ := q
        simp only [hparse] at h
        have hlen := parse_length hparse
        have hend : length ≤ messageEnd b message length := by
          rw [messageEnd]
          split
          · omega
          · exact Nat.le_refl _
        cases h
        rw [List.length_drop]
        omega

/-- The loop of `readMore` goes on until there is no packet left. -/
theorem readMore_frames (rtsp : Bool) (s : Session) (chunk : Bytes) :
    ∃ ms, (readMore rtsp s chunk).notified = s.notified ++ ms ∧
      Frames (next rtsp) (s.inBuffer ++ chunk) ms (readMore rtsp s chunk).inBuffer :=
  ⟨_, rfl, frames_drain (shortens_next rtsp) (Nat.le_refl _)⟩

/-! ### Cuts -/

/-- The buffer ends behind a line of a header, and its message is taken to be complete. -/
def cutInHeader (b : Bytes) : Bool := (header b).any fun q => !q.2.2

/-- The buffer ends behind a request for an IDR frame, or with the CR behind it. -/
def cutBehindIdr (b : Bytes) (message : Message) (length : Nat) : Bool :=
  isIdrRequest message length && (b.drop length = [] || b.drop length = [0x0d])

/-- The buffers whose first message depends on what `recv` has not yet returned. -/
def cut (b : Bytes) : Bool :=
  b.head? ≠ some 0x24 && (parse b).any fun q => cutInHeader b || cutBehindIdr b q.1 q.2

/-- No buffer that the loop of this call looks at is cut. Datagrams cannot be. -/
def Uncut (rtsp : Bool) (s : Session) (chunk : Bytes) : Prop :=
  rtsp = true → ∀ b, Meets nextRtsp (s.inBuffer ++ chunk) b → ¬ cut b = true

/-- The packets that do not depend on more data. -/
def complete (rtsp : Bool) : Bytes → Option (Notification × Bytes) :=
  if rtsp then guarded nextRtsp cut else nextDatagram

theorem u16At_append {b y : Bytes} {i : Nat} (h : i + 1 < b.length) :
    u16At (b ++ y) i = u16At b i := by
  rw [u16At, u16At, List.getD_append _ _ _ _ (by omega), List.getD_append _ _ _ _ h]

theorem stable_nextDatagram : Stable nextDatagram := by
  intro b m rest h y
  rw [nextDatagram] at h
  split_ifs at h with hshort hlen
  cases h
  have hsize : u16At (b ++ y) 0 = u16At b 0 := u16At_append (by omega)
  have hlength : (b ++ y).length = b.length + y.length := List.length_append
  rw [nextDatagram, if_neg (by omega), hsize, if_neg (by omega),
    List.drop_append_of_le_length (by omega),
    List.take_append_of_le_length (by rw [List.length_drop]; omega),
    List.drop_append_of_le_length (by omega)]

theorem nextRtsp_binary_append {b rest : Bytes} {m : Notification} (hhead : b.head? = some 0x24)
    (h : nextRtsp b = some (m, rest)) (y : Bytes) : nextRtsp (b ++ y) = some (m, rest ++ y) := by
  rw [nextRtsp, if_pos hhead] at h
  split_ifs at h with hshort hlen
  cases h
  have hsize : u16At (b ++ y) 2 = u16At b 2 := u16At_append (by omega)
  have hlength : (b ++ y).length = b.length + y.length := List.length_append
  have hhead' : (b ++ y).head? = some 0x24 := by
    rw [List.head?_append, hhead]
    rfl
  rw [nextRtsp, if_pos hhead', if_neg (by omega), hsize, if_neg (by omega),
    List.getD_append _ _ _ _ (by omega), List.drop_append_of_le_length (by omega),
    List.take_append_of_le_length (by rw [List.length_drop]; omega),
    List.drop_append_of_le_length (by omega)]

/-- A message with an empty line behind its header is found again with more data. -/
theorem parse_append {b : Bytes} {message : Message} {length : Nat}
    (h : parse b = some (message, length)) (hcut : ¬ cutInHeader b = true) (y : Bytes) :
    parse (b ++ y) = some (message, length) ∧ ¬ cutInHeader (b ++ y) = true := by
  rw [parse] at h
  rcases hheader : header b with _ | ⟨dict, rest, blank⟩
  · simp [hheader] at h
  · simp only [hheader] at h
    have hblank : blank = true := by
      rw [cutInHeader, hheader] at hcut
      simpa using hcut
    subst hblank
    have hmore := header_append hheader y
    have hlen := (header_length hheader).1
    split at h
    case isTrue => cases h
    case isFalse hcontent =>
      cases h
      constructor
      · rw [parse, hmore]
        simp only [List.length_append]
        rw [if_neg (by omega), List.take_append_of_le_length (by omega)]
        congr 2
        omega
      · rw [cutInHeader, hmore]
        simp

/-- The two bytes behind the message are known. -/
theorem messageEnd_append {b : Bytes} {message : Message} {length : Nat} (hlen : length ≤ b.length)
    (hcut : ¬ cutBehindIdr b message length = true) (y : Bytes) :
    messageEnd (b ++ y) message length = messageEnd b message length ∧
      ¬ cutBehindIdr (b ++ y) message length = true := by
  rw [messageEnd, messageEnd, cutBehindIdr, List.drop_append_of_le_length hlen]
  rw [cutBehindIdr] at hcut
  cases hidr : isIdrRequest message length with
  | false => simp
  | true =>
    rw [hidr] at hcut
    rcases hrest : b.drop length with _ | ⟨c, _ | ⟨d, rest⟩⟩
    · simp [hrest] at hcut
    · simp only [hrest] at hcut
      have hc : c ≠ 0x0d := by simpa using hcut
      simp [hc]
    · simp

theorem nextRtsp_message {b : Bytes} {message : Message} {length : Nat}
    (hhead : ¬ b.head? = some 0x24) (h : parse b = some (message, length)) :
    nextRtsp b = some (.data message, b.drop (messageEnd b message length)) := by
  rw [nextRtsp, if_neg hhead]
  simp only [h]

theorem head_append {b y : Bytes} {message : Message} {length : Nat}
    (h : parse b = some (message, length)) (hhead : ¬ b.head? = some 0x24) :
    ¬ (b ++ y).head? = some 0x24 := by
  have hlen := parse_length h
  have hne : b ≠ [] := by
    rintro rfl
    simp at hlen
    omega
  rwa [List.head?_append_of_ne_nil _ hne]

theorem stable_complete (rtsp : Bool) : Stable (complete rtsp) := by
  cases rtsp with
  | false => exact stable_nextDatagram
  | true =>
    intro b m rest h y
    obtain ⟨hcut, hnext⟩ := guarded_some h
    by_cases hhead : b.head? = some 0x24
    · have hhead' : (b ++ y).head? = some 0x24 := by
        rw [List.head?_append, hhead]
        rfl
      have hcut' : ¬ cut (b ++ y) = true := by simp [cut, hhead']
      rw [complete, if_pos rfl, guarded_of_not hcut']
      exact nextRtsp_binary_append hhead hnext y
    · rcases hparse : parse b with _ | ⟨message, length⟩
      · rw [nextRtsp, if_neg hhead] at hnext
        simp [hparse] at hnext
      · have hlen := parse_length hparse
        have hhead' := head_append (y := y) hparse hhead
        have hcuts : ¬ cutInHeader b = true ∧ ¬ cutBehindIdr b message length = true := by
          simpa [cut, hhead, hparse] using hcut
        obtain ⟨hparse', hheader'⟩ := parse_append hparse hcuts.1 y
        obtain ⟨hend, hidr'⟩ := messageEnd_append hlen.2 hcuts.2 y
        have hcut' : ¬ cut (b ++ y) = true := by
          simp only [cut, hparse', Option.any_some]
          simp [hheader', hidr']
        rw [nextRtsp_message hhead hparse] at hnext
        rw [complete, if_pos rfl, guarded_of_not hcut', nextRtsp_message hhead' hparse', hend]
        cases hnext
        rw [List.drop_append_of_le_length]
        rw [messageEnd]
        split
        case isTrue h =>
          have := congrArg List.length h.2
          rw [List.length_take, List.length_drop] at this
          simp only [List.length_cons, List.length_nil] at this
          omega
        case isFalse => exact hlen.2

/-! ### A call that is not cut may be split -/

theorem readMore_complete {rtsp : Bool} {s : Session} {chunk : Bytes} (h : Uncut rtsp s chunk) :
    ∃ ms, (readMore rtsp s chunk).notified = s.notified ++ ms ∧
      Frames (complete rtsp) (s.inBuffer ++ chunk) ms (readMore rtsp s chunk).inBuffer := by
  obtain ⟨ms, hnotified, hframes⟩ := readMore_frames rtsp s chunk
  refine ⟨ms, hnotified, ?_⟩
  cases rtsp with
  | false => exact hframes
  | true => exact hframes.guard (h rfl)

theorem complete_some {rtsp : Bool} {b rest : Bytes} {m : Notification}
    (h : complete rtsp b = some (m, rest)) : next rtsp b = some (m, rest) := by
  cases rtsp with
  | false => exact h
  | true => exact (guarded_some h).2

theorem frames_append {rtsp : Bool} {b rest left y : Bytes} {ms ms' : List Notification}
    (h : Frames (complete rtsp) b ms rest) (h' : Frames (next rtsp) (rest ++ y) ms' left) :
    Frames (next rtsp) (b ++ y) (ms ++ ms') left := by
  induction h with
  | stop => exact h'
  | more hsome _ ih =>
    exact .more (complete_some (stable_complete rtsp _ _ _ hsome y)) (ih h')

/-- The run of a stream, in pieces none of which cuts a message, gives the packets of the stream. -/
theorem run_frames {rtsp : Bool} {chunks : List Bytes} {s s' : Session}
    (hrun : run (step rtsp) s chunks = some s') (huncut : Along (step rtsp) (Uncut rtsp) s chunks)
    (hsettled : complete rtsp s.inBuffer = none) :
    ∃ ms, s'.notified = s.notified ++ ms ∧
      Frames (complete rtsp) (s.inBuffer ++ chunks.flatten) ms s'.inBuffer := by
  induction chunks generalizing s with
  | nil =>
    cases hrun
    refine ⟨[], (List.append_nil _).symm, ?_⟩
    rw [List.flatten_nil, List.append_nil]
    exact .stop hsettled
  | cons chunk chunks ih =>
    obtain ⟨t, ht, hrest⟩ := run_cons.mp hrun
    obtain ⟨hfirst, huncut⟩ := (along_cons ht).mp huncut
    cases ht
    obtain ⟨ms, hms, hframes⟩ := readMore_complete hfirst
    obtain ⟨ms', hms', hframes'⟩ := ih hrest huncut hframes.settled
    refine ⟨ms ++ ms', by rw [hms', hms, List.append_assoc], ?_⟩
    rw [List.flatten_cons, ← List.append_assoc]
    exact hframes.append (stable_complete rtsp) hframes'

theorem complete_nil (rtsp : Bool) : complete rtsp [] = none := by
  cases rtsp with
  | false => rfl
  | true => rfl

/-- Two runs that receive the same stream in other pieces post the same notifications and keep the
    same bytes, if no call of them ends behind a line of a header that is not complete, or where it
    has to be known whether two more bytes follow a request for an IDR frame. -/
theorem framing_independent (rtsp : Bool) (chunks chunks' : List Bytes) (s s' : Session)
    (hrun : run (step rtsp) start chunks = some s) (hrun' : run (step rtsp) start chunks' = some s')
    (hstream : chunks.flatten = chunks'.flatten)
    (huncut : Along (step rtsp) (Uncut rtsp) start chunks)
    (huncut' : Along (step rtsp) (Uncut rtsp) start chunks') : s = s' := by
  obtain ⟨ms, hms, hframes⟩ := run_frames hrun huncut (complete_nil rtsp)
  obtain ⟨ms', hms', hframes'⟩ := run_frames hrun' huncut' (complete_nil rtsp)
  rw [← hstream] at hframes'
  obtain ⟨rfl, hleft⟩ := hframes.unique hframes'
  exact Session.eq_iff.mpr ⟨hleft, hms.trans hms'.symm⟩

/-! ### A call that is cut may not -/

/-- The message of an empty line. -/
theorem nextRtsp_crlf :
    nextRtsp [0x0d, 0x0a] = some (.data ⟨[(requestKey, [])], []⟩, []) := by
  decide

/-- A header that ends with the buffer leaves nothing; with an empty line behind it the message is
    the same, but longer. -/
theorem parse_cutInHeader {b : Bytes} {message : Message} {length : Nat}
    (h : parse b = some (message, length)) (hcut : cutInHeader b = true) :
    message.content = [] ∧ length = b.length ∧
      parse (b ++ [0x0d, 0x0a]) = some (message, b.length + 2) := by
  rw [parse] at h
  rcases hheader : header b with _ | ⟨dict, rest, blank⟩
  · simp [hheader] at h
  · simp only [hheader] at h
    have hblank : blank = false := by
      rw [cutInHeader, hheader] at hcut
      simpa using hcut
    subst hblank
    have hmore := header_blank hheader
    obtain rfl := (header_length hheader).2 rfl
    split at h
    case isTrue => cases h
    case isFalse hcontent =>
      rw [List.length_nil] at hcontent
      cases h
      have hzero : (Dict.trimmed dict).contentLength = 0 := by omega
      refine ⟨by simp, by simp [hzero], ?_⟩
      rw [parse, hmore]
      simp [hzero]

theorem messageEnd_plain {b : Bytes} {message : Message} {length : Nat}
    (h : message.content = []) : messageEnd b message length = length := by
  rw [messageEnd, isIdrRequest, h, if_neg]
  simp [idrRequest]

/-- What a cut does: the bytes that should have come with the message are one of their own. -/
theorem cut_splits {b : Bytes} (h : cut b = true) :
    ∃ y m m' rest, nextRtsp b = some (m, rest) ∧ rest ++ y = [0x0d, 0x0a] ∧
      nextRtsp rest = none ∧ ¬ cut rest = true ∧ nextRtsp (b ++ y) = some (m', []) := by
  rw [cut, Bool.and_eq_true] at h
  obtain ⟨hhead, hany⟩ := h
  have hhead : ¬ b.head? = some 0x24 := by simpa using hhead
  rcases hparse : parse b with _ | ⟨message, length⟩
  · simp [hparse] at hany
  · simp only [hparse, Option.any_some, Bool.or_eq_true] at hany
    have hlen := parse_length hparse
    by_cases hheader : cutInHeader b = true
    · obtain ⟨hcontent, rfl, hmore⟩ := parse_cutInHeader hparse hheader
      refine ⟨[0x0d, 0x0a], .data message, .data message, [], ?_, rfl, by decide, by decide, ?_⟩
      · rw [nextRtsp_message hhead hparse, messageEnd_plain hcontent, List.drop_length]
      · rw [nextRtsp_message (head_append hparse hhead) hmore, messageEnd_plain hcontent,
          List.drop_eq_nil_of_le (by simp)]
    · have hidr : cutBehindIdr b message length = true := hany.resolve_left hheader
      rw [cutBehindIdr, Bool.and_eq_true, Bool.or_eq_true, decide_eq_true_eq,
        decide_eq_true_eq] at hidr
      obtain ⟨hrequest, hrest⟩ := hidr
      have hshort : messageEnd b message length = length := by
        rw [messageEnd, if_neg]
        rintro ⟨-, htwo⟩
        rcases hrest with hrest | hrest <;> rw [hrest] at htwo <;> cases htwo
      -- with the missing bytes the two that the message does not count are there
      have hsplit : ∀ y, b.drop length ++ y = [0x0d, 0x0a] →
          nextRtsp (b ++ y) = some (.data message, []) := by
        intro y hy
        obtain ⟨hmore, -⟩ := parse_append hparse hheader y
        have hlong : messageEnd (b ++ y) message length = length + 2 := by
          rw [messageEnd, List.drop_append_of_le_length hlen.2, hy, if_pos ⟨hrequest, rfl⟩]
        have htotal := congrArg List.length hy
        simp only [List.length_append, List.length_drop, List.length_cons,
          List.length_nil] at htotal
        rw [nextRtsp_message (head_append hparse hhead) hmore, hlong,
          List.drop_eq_nil_of_le (by rw [List.length_append]; omega)]
      rcases hrest with hrest | hrest
      · refine ⟨[0x0d, 0x0a], .data message, .data message, [], ?_, rfl, by decide, by decide,
          hsplit _ (by rw [hrest]; rfl)⟩
        rw [nextRtsp_message hhead hparse, hshort, hrest]
      · refine ⟨[0x0a], .data message, .data message, [0x0d], ?_, rfl, by decide, by decide,
          hsplit _ (by rw [hrest]; rfl)⟩
        rw [nextRtsp_message hhead hparse, hshort, hrest]

/-- One packet more, if a cut buffer is met. -/
theorem cut_differs {b b' : Bytes} (hmeets : Meets nextRtsp b b') (hcut : cut b' = true) :
    ∃ y ms ms' rest m, Frames nextRtsp b ms rest ∧ Frames nextRtsp (rest ++ y) [m] [] ∧
      Frames nextRtsp (b ++ y) ms' [] ∧ ms'.length = ms.length := by
  induction hmeets with
  | here b =>
    obtain ⟨y, m, m', rest, hnext, hrest, hnone, -, hmore⟩ := cut_splits hcut
    have hlast : Frames nextRtsp (rest ++ y) [.data ⟨[(requestKey, [])], []⟩] [] := by
      rw [hrest]
      exact .more nextRtsp_crlf (.stop (by decide))
    exact ⟨y, [m], [m'], rest, _, .more hnext (.stop hnone), hlast,
      .more hmore (.stop (by decide)), rfl⟩
  | @after b rest b' m hsome hrest ih =>
    have huncut : ¬ cut b = true := by
      intro hb
      obtain ⟨-, m₁, -, rest₁, hnext, -, hnone, hrestcut, -⟩ := cut_splits hb
      rw [hsome] at hnext
      cases hnext
      rw [hrest.of_none hnone] at hcut
      exact hrestcut hcut
    obtain ⟨y, ms, ms', left, e, hframes, hlast, hmore, hlen⟩ := ih hcut
    have hcomplete : complete true b = some (m, rest) := by
      rw [complete, if_pos rfl, guarded_of_not huncut, hsome]
    have hstable : nextRtsp (b ++ y) = some (m, rest ++ y) :=
      complete_some (stable_complete true _ _ _ hcomplete y)
    exact ⟨y, m :: ms, m :: ms', left, e, .more hsome hframes, hlast, .more hstable hmore,
      congrArg (· + 1) hlen⟩

/-- A call may be split behind its data exactly if it is not cut there. -/
theorem readMore_split_iff (rtsp : Bool) (s : Session) (chunk : Bytes) :
    (∀ y, readMore rtsp (readMore rtsp s chunk) y = readMore rtsp s (chunk ++ y)) ↔
      Uncut rtsp s chunk := by
  constructor
  · rintro hsplit rfl b hmeets hcut
    obtain ⟨y, ms, ms', rest, m, hframes, hlast, hmore, hlen⟩ := cut_differs hmeets hcut
    obtain ⟨ms₁, hms₁, hframes₁⟩ := readMore_frames true s chunk
    obtain ⟨ms₂, hms₂, hframes₂⟩ := readMore_frames true (readMore true s chunk) y
    obtain ⟨ms₃, hms₃, hframes₃⟩ := readMore_frames true s (chunk ++ y)
    obtain ⟨rfl, hrest⟩ := hframes₁.unique hframes
    rw [hrest] at hframes₂
    obtain ⟨rfl, -⟩ := hframes₂.unique hlast
    rw [← List.append_assoc] at hframes₃
    obtain ⟨rfl, -⟩ := hframes₃.unique hmore
    have hlength := congrArg (fun s => s.notified.length) (hsplit y)
    simp only [hms₁, hms₂, hms₃, List.length_append, List.length_cons, List.length_nil] at hlength
    omega
  · intro huncut y
    obtain ⟨ms, hms, hframes⟩ := readMore_complete huncut
    obtain ⟨ms₂, hms₂, hframes₂⟩ := readMore_frames rtsp (readMore rtsp s chunk) y
    obtain ⟨ms₃, hms₃, hframes₃⟩ := readMore_frames rtsp s (chunk ++ y)
    rw [← List.append_assoc] at hframes₃
    obtain ⟨rfl, hleft⟩ := hframes₃.unique (frames_append hframes hframes₂)
    rw [Session.eq_iff]
    exact ⟨hleft.symm, by rw [hms₂, hms, hms₃, List.append_assoc]⟩

/-- "OPTIONS * RTSP/1.0" and its CR LF. -/
def optionsLine : Bytes :=
  [0x4f, 0x50, 0x54, 0x49, 0x4f, 0x4e, 0x53, 0x20, 0x2a, 0x20, 0x52, 0x54, 0x53, 0x50, 0x2f, 0x31,
    0x2e, 0x30, 0x0d, 0x0a]

/-- "CSeq: 1", its CR LF and the empty line. -/
def cseqLine : Bytes := [0x43, 0x53, 0x65, 0x71, 0x3a, 0x20, 0x31, 0x0d, 0x0a, 0x0d, 0x0a]

/-- The request in one piece, and in two with a cut inside the first line. -/
theorem framing_independent_options :
    ∃ s, run (step true) start [optionsLine ++ cseqLine] = some s ∧
      run (step true) start [optionsLine.take 5, optionsLine.drop 5 ++ cseqLine] = some s := by
  have hwhole : nextRtsp (optionsLine ++ cseqLine) = some (.data ⟨[(requestKey,
      optionsLine.take 18), ([0x63, 0x73, 0x65, 0x71], [0x31])], []⟩, []) := by decide +kernel
  have huncut : ∀ b, Meets nextRtsp (optionsLine ++ cseqLine) b → ¬ cut b = true := by
    intro b hmeets
    rcases hmeets.of_some hwhole with rfl | hrest
    · decide +kernel
    · rw [hrest.of_none (by decide +kernel)]
      decide +kernel
  have hpart : ∀ b, Meets nextRtsp (optionsLine.take 5) b → ¬ cut b = true := by
    intro b hmeets
    rw [hmeets.of_none (by decide +kernel)]
    decide +kernel
  have hfirst : step true start (optionsLine.take 5) = some ⟨optionsLine.take 5, []⟩ := by
    decide +kernel
  refine ⟨_, rfl, ?_⟩
  refine congrArg some (framing_independent true
    [optionsLine.take 5, optionsLine.drop 5 ++ cseqLine] [optionsLine ++ cseqLine] _ _ rfl rfl
    (by decide +kernel) ?_ ?_)
  · refine ⟨fun _ => hpart, fun t ht => ⟨fun _ => ?_, fun _ _ => trivial⟩⟩
    rw [hfirst] at ht
    cases ht
    exact huncut
  · exact ⟨fun _ => huncut, fun _ _ => trivial⟩

/-- A cut behind the first line: the request is taken for two. -/
theorem framing_cut_behind_line :
    [optionsLine ++ cseqLine].flatten = [optionsLine, cseqLine].flatten ∧
    (∀ chunk ∈ [optionsLine ++ cseqLine, optionsLine, cseqLine],
      1 ≤ chunk.length ∧ chunk.length ≤ 512) ∧
    (run (step true) start [optionsLine ++ cseqLine]).map (fun s => s.notified.length) = some 1 ∧
    (run (step true) start [optionsLine, cseqLine]).map (fun s => s.notified.length) = some 2 := by
  decide +kernel

end Streambox.WifiDisplay.NetworkSession
