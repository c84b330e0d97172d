import Mathlib.Data.List.Nodup
import Mathlib.Data.List.Perm.Subperm
import Streambox.Lib.Counter
import Streambox.WifiDisplay.Transport

/-! ANetworkSession.cpp, the table of the sessions and the thread that serves them.

    A round of `threadLoop` collects the sockets with the lock held, waits in `select` without it,
    and takes it again to serve what is ready:

        collect ─────▶ select ─────▶ serve
                          │
             createClientOrServer, destroySession, sendRequest, each with a byte into the pipe

    What is ready is known by the number of its socket. So a session that is created while the thread
    waits may be served for one that was destroyed. The sessions have numbers of 32 bits that are
    counted up, and stand in the table in their order. -/

namespace Streambox.WifiDisplay.NetworkThread
open Streambox.Lib
open ParsedMessage (Bytes)
open Transport

structure Entry where
  sessionID : Int
  socket : Nat
  session : Session
  deriving DecidableEq, Repr

/-- A call of `readMore` or `writeMore`, and whether the session wanted it. -/
structure Call where
  sessionID : Int
  send : Bool
  wanted : Bool
  deriving DecidableEq, Repr

/-- Where the thread is in a round. -/
inductive Thread where
  | outside
  /-- In `select`, with the sockets to read and to write. -/
  | selecting (rs ws : List Nat)
  deriving DecidableEq, Repr

/-- `created` counts the sessions that there have been. -/
structure Net where
  sessions : List Entry
  nextSessionID : Int
  created : Nat
  pipe : Nat
  thread : Thread
  calls : List Call
  deriving DecidableEq, Repr

def start : Net := ⟨[], 1, 0, 0, .outside, []⟩

/-- ANetworkSession::Mode. -/
inductive Mode where
  | udpSession
  | tcpDatagramSessionPassive
  | tcpDatagramSessionActive
  | rtspServer
  | rtspClient
  deriving DecidableEq, Repr

def phaseOf : Mode → Phase
  | .rtspClient | .tcpDatagramSessionActive => .connecting
  | .tcpDatagramSessionPassive => .listeningTcpDgrams
  | .rtspServer => .listeningRtsp
  | .udpSession => .datagram

/-- `KeyedVector::add`: in the order of the keys, and in the place of what has the same. -/
def addSession (e : Entry) : List Entry → List Entry
  | [] => [e]
  | f :: es =>
    if f.sessionID < e.sessionID then f :: addSession e es
    else if f.sessionID = e.sessionID then e :: es
    else e :: f :: es

def createClientOrServer (s : Net) (mode : Mode) (socket : Nat) : Net :=
  { s with
    sessions :=
      addSession ⟨s.nextSessionID, socket, .new (phaseOf mode) (mode = .rtspClient)⟩ s.sessions
    nextSessionID := countUp s.nextSessionID
    created := s.created + 1
    pipe := s.pipe + 1 }

/-- The socket is closed with the session. -/
def destroySession (s : Net) (sessionID : Int) : Net :=
  if s.sessions.any (·.sessionID = sessionID) then
    { s with sessions := s.sessions.filter (·.sessionID ≠ sessionID), pipe := s.pipe + 1 }
  else s

def request (sessionID : Int) (data : Bytes) (e : Entry) : Entry :=
  if e.sessionID = sessionID then { e with session := sendRequest e.session data } else e

def sendRequest (s : Net) (sessionID : Int) (data : Bytes) : Net :=
  if s.sessions.any (·.sessionID = sessionID) then
    { s with sessions := s.sessions.map (request sessionID data), pipe := s.pipe + 1 }
  else s

/-- The first part of a round. -/
def collect (s : Net) : Net :=
  { s with
    thread := .selecting ((s.sessions.filter fun e => wantsToRead e.session).map Entry.socket)
      ((s.sessions.filter fun e => wantsToWrite e.session).map Entry.socket) }

/-- What `select` has left in its sets, and what the calls on the sockets will return. -/
structure Ready where
  pipe : Bool
  readable : List Nat
  writable : List Nat
  reads : Int → List (Result Bytes)
  writes : Int → List (Nat × Result Nat)
  accepts : Int → Option Nat

def isServer (s : Session) : Bool := s.phase = .listeningRtsp || s.phase = .listeningTcpDgrams

def isReady (io : Ready) (e : Entry) : Bool := e.socket ∈ io.readable || e.socket ∈ io.writable

/-- The session is read from, unless it takes connections. -/
def afterRead (io : Ready) (e : Entry) : Session :=
  if e.socket ∈ io.readable ∧ ¬ isServer e.session then readMore e.session (io.reads e.sessionID)
  else e.session

def served (io : Ready) (e : Entry) : Entry :=
  { e with
    session :=
      if e.socket ∈ io.writable then writeMore (afterRead io e) (io.writes e.sessionID)
      else afterRead io e }

/-- A connection that is taken: its socket, and whether it is one of RTSP. -/
def accepted (io : Ready) (e : Entry) : Option (Nat × Bool) :=
  if e.socket ∈ io.readable ∧ isServer e.session then
    (io.accepts e.sessionID).map fun socket => (socket, e.session.phase = .listeningRtsp)
  else none

def callsOf (io : Ready) (e : Entry) : List Call :=
  (if e.socket ∈ io.readable ∧ ¬ isServer e.session then
      [⟨e.sessionID, false, wantsToRead e.session⟩] else []) ++
    if e.socket ∈ io.writable then [⟨e.sessionID, true, wantsToWrite (afterRead io e)⟩] else []

structure Pass where
  entries : List Entry
  clients : List (Nat × Bool)
  calls : List Call

/-- The loop over the table, from its end: it stops when it has met as many sessions as there are
    bits in the sets. -/
def serve (io : Ready) : Nat → List Entry → Pass
  | _, [] => ⟨[], [], []⟩
  | 0, es => ⟨es, [], []⟩
  | res + 1, e :: es =>
    let pass := serve io (if isReady io e then res else res + 1) es
    ⟨served io e :: pass.entries, (accepted io e).toList ++ pass.clients,
      callsOf io e ++ pass.calls⟩

/-- `sessionsToAdd`. -/
def sessionsToAdd : Int → List (Nat × Bool) → List Entry
  | _, [] => []
  | sessionID, (socket, rtsp) :: clients =>
    ⟨sessionID, socket, .new .connected rtsp⟩ :: sessionsToAdd (countUp sessionID) clients

/-- The last loop: they are added one by one. -/
def addSessions : List Entry → List Entry → List Entry
  | es, [] => es
  | es, e :: clients => addSessions (addSession e es) clients

def passOf (io : Ready) (s : Net) : Pass :=
  serve io (io.readable.length + io.writable.length) s.sessions.reverse

/-- The second part of a round, behind `select`. -/
def serveReady (io : Ready) (s : Net) : Net :=
  { s with
    sessions :=
      addSessions (passOf io s).entries.reverse (sessionsToAdd s.nextSessionID (passOf io s).clients)
    nextSessionID := countUp^[(passOf io s).clients.length] s.nextSessionID
    created := s.created + (passOf io s).clients.length
    pipe := if io.pipe then s.pipe - 1 else s.pipe
    thread := .outside
    calls := s.calls ++ (passOf io s).calls }

inductive Action where
  | create (mode : Mode) (socket : Nat)
  | destroy (sessionID : Int)
  | request (sessionID : Int) (data : Bytes)
  | collect
  | serve (io : Ready)
  /-- `select` fails. -/
  | interrupted

/-- The sets that `select` leaves are parts of those it was given, and not all empty. A new socket
    has a number that no open socket has. -/
def step (s : Net) : Action → Option Net
  | .create mode socket =>
    if socket ∈ s.sessions.map Entry.socket then none
    else some (createClientOrServer s mode socket)
  | .destroy sessionID => some (destroySession s sessionID)
  | .request sessionID data => some (sendRequest s sessionID data)
  | .collect => if s.thread = .outside then some (collect s) else none
  | .interrupted => if s.thread = .outside then none else some { s with thread := .outside }
  | .serve io =>
    match s.thread with
    | .outside => none
    | .selecting rs ws =>
      let sockets := (passOf io s).clients.map Prod.fst
      if (io.pipe = true ∨ io.readable ≠ [] ∨ io.writable ≠ []) ∧ (io.pipe = true → 0 < s.pipe) ∧
          io.readable.Nodup ∧ io.readable ⊆ rs ∧ io.writable.Nodup ∧ io.writable ⊆ ws ∧
          sockets.Nodup ∧ ∀ socket ∈ sockets, socket ∉ s.sessions.map Entry.socket then
        some (serveReady io s)
      else none

/-! ### The loop over the table -/

theorem served_idle {io : Ready} {e : Entry} (h : ¬ isReady io e = true) :
    served io e = e ∧ accepted io e = none ∧ callsOf io e = [] := by
  obtain ⟨hread, hwrite⟩ : e.socket ∉ io.readable ∧ e.socket ∉ io.writable := by
    simpa [isReady] using h
  refine ⟨?_, ?_, ?_⟩
  · simp [served, afterRead, hread, hwrite]
  · simp [accepted, hread]
  · simp [callsOf, hread, hwrite]

/-- With a count that suffices the loop is one over the whole table. -/
theorem serve_eq {io : Ready} {res : Nat} {es : List Entry}
    (h : es.countP (isReady io) ≤ res) :
    serve io res es = ⟨es.map (served io), es.filterMap (accepted io), es.flatMap (callsOf io)⟩ := by
  induction es generalizing res with
  | nil => cases res <;> rfl
  | cons e es ih =>
    by_cases hready : isReady io e = true
    · rw [List.countP_cons_of_pos hready] at h
      obtain ⟨res, rfl⟩ : ∃ k, res = k + 1 := ⟨res - 1, by omega⟩
      rw [serve, if_pos hready, ih (by omega)]
      cases haccepted : accepted io e <;> simp [haccepted]
    · rw [List.countP_cons_of_neg hready] at h
      obtain ⟨hserved, haccepted, hcalls⟩ := served_idle hready
      cases res with
      | zero =>
        have hrest := ih (Nat.le_of_eq (Nat.le_zero.mp h))
        have hstop : serve io 0 es = ⟨es, [], []⟩ := by cases es <;> rfl
        rw [hstop, Pass.mk.injEq] at hrest
        rw [serve, List.map_cons, hserved, List.filterMap_cons_none haccepted, List.flatMap_cons,
          hcalls, List.nil_append, ← hrest.1, ← hrest.2.1, ← hrest.2.2]
        simp
      | succ res =>
        rw [serve, if_neg hready, ih h]
        simp [hserved, haccepted, hcalls]

theorem countP_mem_le {es : List Entry} {sockets : List Nat}
    (h : (es.map Entry.socket).Nodup) :
    es.countP (fun e => e.socket ∈ sockets) ≤ sockets.length := by
  rw [List.countP_eq_length_filter, ← List.length_map Entry.socket]
  refine (List.subperm_of_subset (h.sublist (List.filter_sublist.map _)) fun n hn => ?_).length_le
  obtain ⟨e, he, rfl⟩ := List.mem_map.mp hn
  simpa using (List.mem_filter.mp he).2

/-- No session has two bits in a set, so the count is not used up before all of them are met. -/
theorem passOf_eq {io : Ready} {s : Net} (h : (s.sessions.map Entry.socket).Nodup) :
    passOf io s = ⟨s.sessions.reverse.map (served io), s.sessions.reverse.filterMap (accepted io),
      s.sessions.reverse.flatMap (callsOf io)⟩ := by
  refine serve_eq ?_
  rw [List.countP_reverse]
  calc s.sessions.countP (isReady io)
      ≤ s.sessions.countP (fun e => e.socket ∈ io.readable) +
          s.sessions.countP (fun e => e.socket ∈ io.writable) := by
        induction s.sessions with
        | nil => simp
        | cons e es ih =>
          simp only [List.countP_cons, isReady, Bool.or_eq_true, decide_eq_true_eq]
          split_ifs <;> simp_all <;> omega
    _ ≤ io.readable.length + io.writable.length :=
        Nat.add_le_add (countP_mem_le h) (countP_mem_le h)

theorem serveReady_eq {io : Ready} {s : Net} (h : (s.sessions.map Entry.socket).Nodup) :
    serveReady io s =
      { s with
        sessions := addSessions (s.sessions.map (served io))
          (sessionsToAdd s.nextSessionID (s.sessions.reverse.filterMap (accepted io)))
        nextSessionID :=
          countUp^[(s.sessions.reverse.filterMap (accepted io)).length] s.nextSessionID
        created := s.created + (s.sessions.reverse.filterMap (accepted io)).length
        pipe := if io.pipe then s.pipe - 1 else s.pipe
        thread := .outside
        calls := s.calls ++ s.sessions.reverse.flatMap (callsOf io) } := by
  rw [serveReady, passOf_eq h]
  simp

/-! ### What a step can do -/

inductive Moves (s : Net) : Net → Prop
  | same : Moves s s
  | created (mode : Mode) (socket : Nat) : socket ∉ s.sessions.map Entry.socket →
      Moves s (createClientOrServer s mode socket)
  | destroyed (sessionID : Int) :
      Moves s { s with
        sessions := s.sessions.filter (·.sessionID ≠ sessionID), pipe := s.pipe + 1 }
  | requested (sessionID : Int) (data : Bytes) :
      Moves s { s with sessions := s.sessions.map (request sessionID data), pipe := s.pipe + 1 }
  | collected : Moves s (collect s)
  | ended : Moves s { s with thread := .outside }
  | served (io : Ready) (rs ws : List Nat) : s.thread = .selecting rs ws → io.readable ⊆ rs →
      io.writable ⊆ ws → ((passOf io s).clients.map Prod.fst).Nodup →
      (∀ socket ∈ (passOf io s).clients.map Prod.fst, socket ∉ s.sessions.map Entry.socket) →
      Moves s (serveReady io s)

theorem step_moves {s s' : Net} {a : Action} (h : step s a = some s') : Moves s s' := by
  cases a with
  | create mode socket =>
    simp only [step] at h
    split at h
    · cases h
    · next hsocket =>
      cases h
      exact .created mode socket hsocket
  | destroy sessionID =>
    cases h
    rw [destroySession]
    split
    · exact .destroyed sessionID
    · exact .same
  | request sessionID data =>
    cases h
    rw [sendRequest]
    split
    · exact .requested sessionID data
    · exact .same
  | collect =>
    simp only [step] at h
    split at h
    · cases h
      exact .collected
    · cases h
  | interrupted =>
    simp only [step] at h
    split at h
    · cases h
    · cases h
      exact .ended
  | serve io =>
    cases hthread : s.thread with
    | outside => simp [step, hthread] at h
    | selecting rs ws =>
      simp only [step, hthread] at h
      split at h
      · next hready =>
        cases h
        obtain ⟨-, -, -, hreadable, -, hwritable, hnodup, hnew⟩ := hready
        exact .served io rs ws hthread hreadable hwritable hnodup hnew
      · cases h

/-! ### The table -/

theorem mem_addSession {e f : Entry} {es : List Entry} (h : f ∈ addSession e es) :
    f = e ∨ f ∈ es := by
  induction es with
  | nil => exact .inl (List.mem_singleton.mp h)
  | cons g es ih =>
    rw [addSession] at h
    split at h
    · rcases List.mem_cons.mp h with rfl | h
      · exact .inr List.mem_cons_self
      · exact (ih h).imp_right (List.mem_cons_of_mem g)
    · split at h
      · exact (List.mem_cons.mp h).imp_right (List.mem_cons_of_mem g)
      · exact List.mem_cons.mp h

theorem mem_addSessions {f : Entry} {es clients : List Entry} (h : f ∈ addSessions es clients) :
    f ∈ es ∨ f ∈ clients := by
  induction clients generalizing es with
  | nil => exact .inl h
  | cons e clients ih =>
    rcases ih h with h | h
    · rcases mem_addSession h with rfl | h
      · exact .inr List.mem_cons_self
      · exact .inl h
    · exact .inr (List.mem_cons_of_mem e h)

/-- The order of the table, and the sockets of it: each stands in it once. -/
structure Arranged (es : List Entry) : Prop where
  ids : es.Pairwise fun e f => e.sessionID < f.sessionID
  sockets : (es.map Entry.socket).Nodup

theorem addSession_arranged {e : Entry} {es : List Entry} (h : Arranged es)
    (hnew : e.socket ∉ es.map Entry.socket) : Arranged (addSession e es) := by
  induction es with
  | nil => exact ⟨List.pairwise_singleton _ _, List.nodup_singleton _⟩
  | cons f es ih =>
    obtain ⟨hids, hsockets⟩ := h
    obtain ⟨hfirst, hids⟩ := List.pairwise_cons.mp hids
    obtain ⟨hsingle, hsockets⟩ := List.nodup_cons.mp hsockets
    obtain ⟨hother, hnew⟩ : e.socket ≠ f.socket ∧ e.socket ∉ es.map Entry.socket := by
      simpa using hnew
    rw [addSession]
    split
    case isTrue hlt =>
      obtain ⟨hids', hsockets'⟩ := ih ⟨hids, hsockets⟩ hnew
      refine ⟨List.pairwise_cons.mpr ⟨fun g hg => ?_, hids'⟩,
        List.nodup_cons.mpr ⟨fun hmem => ?_, hsockets'⟩⟩
      · rcases mem_addSession hg with rfl | hg
        · exact hlt
        · exact hfirst g hg
      · obtain ⟨g, hg, heq⟩ := List.mem_map.mp hmem
        rcases mem_addSession hg with rfl | hg
        · exact hother heq
        · exact hsingle (List.mem_map.mpr ⟨g, hg, heq⟩)
    case isFalse hle =>
      split
      case isTrue heq =>
        exact ⟨List.pairwise_cons.mpr ⟨fun g hg => heq ▸ hfirst g hg, hids⟩,
          List.nodup_cons.mpr ⟨hnew, hsockets⟩⟩
      case isFalse hne =>
        have hlt : e.sessionID < f.sessionID := by omega
        refine ⟨List.pairwise_cons.mpr ⟨fun g hg => ?_, List.pairwise_cons.mpr ⟨hfirst, hids⟩⟩,
          List.nodup_cons.mpr ⟨?_, List.nodup_cons.mpr ⟨hsingle, hsockets⟩⟩⟩
        · rcases List.mem_cons.mp hg with rfl | hg
          · exact hlt
          · exact Int.lt_trans hlt (hfirst g hg)
        · rw [List.map_cons, List.mem_cons, not_or]
          exact ⟨hother, hnew⟩

theorem addSessions_arranged {es clients : List Entry} (h : Arranged es)
    (hclients : (clients.map Entry.socket).Nodup)
    (hnew : ∀ e ∈ clients, e.socket ∉ es.map Entry.socket) :
    Arranged (addSessions es clients) := by
  induction clients generalizing es with
  | nil => exact h
  | cons e clients ih =>
    obtain ⟨hsingle, hclients⟩ := List.nodup_cons.mp hclients
    refine ih (addSession_arranged h (hnew e List.mem_cons_self)) hclients fun f hf hmem => ?_
    obtain ⟨g, hg, heq⟩ := List.mem_map.mp hmem
    rcases mem_addSession hg with rfl | hg
    · exact hsingle (List.mem_map.mpr ⟨f, hf, heq.symm⟩)
    · exact hnew f (List.mem_cons_of_mem e hf) (List.mem_map.mpr ⟨g, hg, heq⟩)

/-- A number that is greater than the others goes behind them. -/
theorem addSession_of_lt {e : Entry} {es : List Entry}
    (h : ∀ f ∈ es, f.sessionID < e.sessionID) : addSession e es = es ++ [e] := by
  induction es with
  | nil => rfl
  | cons f es ih =>
    rw [addSession, if_pos (h f List.mem_cons_self), List.cons_append,
      ih fun g hg => h g (List.mem_cons_of_mem f hg)]

theorem addSessions_of_lt {es clients : List Entry}
    (hids : clients.Pairwise fun e f => e.sessionID < f.sessionID)
    (h : ∀ e ∈ clients, ∀ f ∈ es, f.sessionID < e.sessionID) :
    addSessions es clients = es ++ clients := by
  induction clients generalizing es with
  | nil => simp [addSessions]
  | cons e clients ih =>
    obtain ⟨hfirst, hids⟩ := List.pairwise_cons.mp hids
    rw [addSessions, addSession_of_lt (h e List.mem_cons_self), ih hids, List.append_assoc,
      List.singleton_append]
    intro g hg f hf
    rcases List.mem_append.mp hf with hf | hf
    · exact h g (List.mem_cons_of_mem e hg) f hf
    · obtain rfl := List.mem_singleton.mp hf
      exact hfirst g hg

theorem map_socket_sessionsToAdd (sessionID : Int) (clients : List (Nat × Bool)) :
    (sessionsToAdd sessionID clients).map Entry.socket = clients.map Prod.fst := by
  induction clients generalizing sessionID with
  | nil => rfl
  | cons client clients ih =>
    rw [sessionsToAdd, List.map_cons, ih, List.map_cons]

theorem sessionsToAdd_new (sessionID : Int) (clients : List (Nat × Bool)) :
    ∀ e ∈ sessionsToAdd sessionID clients, ∃ rtsp, e.session = .new .connected rtsp := by
  induction clients generalizing sessionID with
  | nil => simp [sessionsToAdd]
  | cons client clients ih =>
    intro e he
    rcases List.mem_cons.mp he with rfl | he
    · exact ⟨client.2, rfl⟩
    · exact ih _ e he

/-- While the counter has not come to its end the numbers of the clients grow. -/
theorem sessionsToAdd_ids {created : Nat} {clients : List (Nat × Bool)}
    (hfew : created + clients.length < 2147483647) :
    (sessionsToAdd (counted 1 created) clients).Pairwise (fun e f => e.sessionID < f.sessionID) ∧
      ∀ e ∈ sessionsToAdd (counted 1 created) clients,
        1 + created ≤ e.sessionID ∧ e.sessionID < 1 + created + clients.length := by
  induction clients generalizing created with
  | nil => simp [sessionsToAdd]
  | cons client clients ih =>
    rw [List.length_cons] at hfew
    have hrest : created + 1 + clients.length < 2147483647 := by omega
    obtain ⟨hids, hall⟩ := ih hrest
    have hfirst : counted 1 created = 1 + created := counted_of_lt (by decide) (by omega)
    rw [sessionsToAdd, countUp_counted, List.length_cons]
    refine ⟨List.pairwise_cons.mpr ⟨fun e he => ?_, hids⟩, fun e he => ?_⟩
    · have hfrom := (hall e he).1
      dsimp only
      rw [hfirst]
      omega
    · rcases List.mem_cons.mp he with rfl | he
      · dsimp only
        rw [hfirst]
        omega
      · have hbetween := hall e he
        omega

/-- The table is in order. The next number is a new one as long as the counter has not come to its
    end. -/
structure Table (s : Net) : Prop where
  arranged : Arranged s.sessions
  next : s.nextSessionID = counted 1 s.created
  fresh : s.created < 2147483647 → ∀ e ∈ s.sessions, e.sessionID < s.nextSessionID

theorem table_start : Table start :=
  ⟨⟨.nil, .nil⟩, by simp [start, counted], by simp [start]⟩

/-- The number behind the next `k` ones. -/
theorem Table.next_iterate {s : Net} (h : Table s) {k : Nat} (hfew : s.created + k < 2147483647) :
    countUp^[k] s.nextSessionID = 1 + (s.created + k : Nat) := by
  rw [h.next, countUp_iterate, counted_of_lt (by decide) (by omega)]

theorem Table.next_eq {s : Net} (h : Table s) (hfew : s.created < 2147483647) :
    s.nextSessionID = 1 + s.created :=
  h.next_iterate (k := 0) hfew

theorem request_key (sessionID : Int) (data : Bytes) (e : Entry) :
    (request sessionID data e).sessionID = e.sessionID ∧
      (request sessionID data e).socket = e.socket := by
  rw [request]
  split <;> exact ⟨rfl, rfl⟩

/-- Entries that are changed in their sessions only. -/
theorem arranged_map {es : List Entry} (h : Arranged es) {f : Entry → Entry}
    (hkey : ∀ e, (f e).sessionID = e.sessionID ∧ (f e).socket = e.socket) :
    Arranged (es.map f) ∧ (es.map f).map Entry.socket = es.map Entry.socket := by
  have hsame : (es.map f).map Entry.socket = es.map Entry.socket := by
    rw [List.map_map]
    exact List.map_congr_left fun e _ => (hkey e).2
  refine ⟨⟨List.pairwise_map.mpr (h.ids.imp fun {e g} hlt => ?_), hsame ▸ h.sockets⟩, hsame⟩
  rwa [(hkey e).1, (hkey g).1]

theorem moves_table {s s' : Net} (h : Table s) (hmoves : Moves s s') : Table s' := by
  obtain ⟨harranged, hnext, hfresh⟩ := id h
  cases hmoves with
  | same => exact h
  | created mode socket hnew =>
    refine ⟨addSession_arranged harranged hnew, ?_, fun hfew e he => ?_⟩
    · rw [createClientOrServer, hnext, countUp_counted]
    · have hfew' : s.created + 1 < 2147483647 := hfew
      have hbefore := h.next_eq (by omega)
      have hbehind : countUp s.nextSessionID = 1 + (s.created + 1 : Nat) :=
        h.next_iterate (k := 1) hfew'
      simp only [createClientOrServer, hbehind]
      rcases mem_addSession he with rfl | he
      · dsimp only
        omega
      · have hlt := hfresh (by omega) e he
        omega
  | destroyed sessionID =>
    exact ⟨⟨harranged.ids.filter _, harranged.sockets.sublist (List.filter_sublist.map _)⟩, hnext,
      fun hfew e he => hfresh hfew e (List.mem_of_mem_filter he)⟩
  | requested sessionID data =>
    refine ⟨(arranged_map harranged (request_key sessionID data)).1, hnext, fun hfew e he => ?_⟩
    obtain ⟨g, hg, rfl⟩ := List.mem_map.mp he
    rw [(request_key sessionID data g).1]
    exact hfresh hfew g hg
  | collected => exact ⟨harranged, hnext, hfresh⟩
  | ended => exact ⟨harranged, hnext, hfresh⟩
  | served io rs ws hthread hreadable hwritable hnodup hnew =>
    obtain ⟨hserved, hsockets⟩ := arranged_map harranged (f := served io) fun _ => ⟨rfl, rfl⟩
    rw [serveReady_eq harranged.sockets]
    rw [passOf_eq harranged.sockets] at hnodup hnew
    generalize s.sessions.reverse.filterMap (accepted io) = clients at hnodup hnew ⊢
    refine ⟨addSessions_arranged hserved ?_ fun e he => ?_, ?_, fun hfew e he => ?_⟩
    · rwa [map_socket_sessionsToAdd]
    · rw [hsockets]
      refine hnew e.socket ?_
      rw [← map_socket_sessionsToAdd s.nextSessionID]
      exact List.mem_map_of_mem he
    · dsimp only
      rw [hnext, countUp_iterate]
    · have hfew' : s.created + clients.length < 2147483647 := hfew
      have hbefore := h.next_eq (by omega)
      simp only [h.next_iterate hfew']
      rcases mem_addSessions he with he | he
      · obtain ⟨g, hg, rfl⟩ := List.mem_map.mp he
        have hlt : (served io g).sessionID < s.nextSessionID := hfresh (by omega) g hg
        omega
      · rw [hnext] at he
        have hlt := ((sessionsToAdd_ids hfew').2 e he).2
        omega

/-! ### What a session wants -/

theorem readDatagrams_keeps (s : Session) (results : List (Result Bytes)) :
    wantsToWrite (readDatagrams s results) = wantsToWrite s := by
  induction results generalizing s with
  | nil => rfl
  | cons result results ih =>
    match result with
    | .ok [] => simp [readDatagrams, fail, wantsToWrite]
    | .ok (byte :: data) => exact ih _
    | .err errno =>
      rw [readDatagrams]
      split
      · rfl
      · simp [fail, wantsToWrite]

/-- Reading takes nothing off what is to be written. -/
theorem readMore_keeps (s : Session) (results : List (Result Bytes)) :
    wantsToWrite (readMore s results) = wantsToWrite s := by
  rw [readMore]
  split
  · exact readDatagrams_keeps s results
  · rcases results.headD (.err eAgain) with chunk | errno
    · cases chunk with
      | nil => simp [readStream, receive, fail, wantsToWrite]
      | cons byte chunk => rfl
    · simp [readStream, receive, fail, wantsToWrite]

/-- What is wanted before a request is wanted behind it. -/
theorem sendRequest_wants (s : Session) (data : Bytes) :
    wantsToRead (Transport.sendRequest s data) = wantsToRead s ∧
      (wantsToWrite s = true → wantsToWrite (Transport.sendRequest s data) = true) := by
  cases hphase : s.phase <;>
    simp +contextual [Transport.sendRequest, hphase, wantsToRead, wantsToWrite]

/-! ### Errors -/

/-- The errors of one kind that the client has been told of. -/
def errors (send : Bool) (notices : List Notice) : Nat :=
  notices.countP fun
    | .error send' _ => send' = send
    | _ => false

/-- Each direction that is given up has been told once, and nothing else has been told as an error.
    Only a connect that fails gives up sending and is told as an error of receiving. -/
structure Told (s : Session) : Prop where
  receive : errors false s.notices =
    s.sawReceiveFailure.toNat + if s.phase = .connecting then s.sawSendFailure.toNat else 0
  send : errors true s.notices = if s.phase = .connecting then 0 else s.sawSendFailure.toNat

theorem errors_append (send : Bool) (as bs : List Notice) :
    errors send (as ++ bs) = errors send as + errors send bs := List.countP_append

theorem told_new (phase : Phase) (rtsp : Bool) : Told (.new phase rtsp) := by
  cases phase <;> exact ⟨rfl, rfl⟩

theorem sendRequest_told {s : Session} (h : Told s) (data : Bytes) :
    Told (Transport.sendRequest s data) := by
  rw [Transport.sendRequest]
  split <;> exact ⟨h.receive, h.send⟩

theorem receiveFailure_told {s : Session} (h : Told s) (hfirst : s.sawReceiveFailure = false)
    (err : Int) : Told (fail s false err) := by
  obtain ⟨hreceive, hsend⟩ := h
  rw [hfirst] at hreceive
  refine ⟨?_, ?_⟩
  · simp only [fail, errors_append, hreceive, hfirst]
    simp [errors, Nat.add_comm]
  · simp only [fail, errors_append, hsend]
    simp [errors]

theorem sendFailure_told {s : Session} (h : Told s) (hphase : s.phase ≠ .connecting)
    (hfirst : s.sawSendFailure = false) (err : Int) : Told (fail s true err) := by
  obtain ⟨hreceive, hsend⟩ := h
  rw [if_neg hphase] at hreceive hsend
  refine ⟨?_, ?_⟩
  · simp only [fail, errors_append, hreceive]
    simp [errors, hphase]
  · simp only [fail, errors_append, hsend, hfirst, if_neg hphase]
    simp [errors]

/-- What is told besides is no error. -/
theorem Told.more {s : Session} (h : Told s) {notices : List Notice}
    (hdata : ∀ send, errors send notices = 0) (inBuffer received : Bytes) :
    Told { s with
      inBuffer := inBuffer, received := received, notices := s.notices ++ notices } := by
  refine ⟨?_, ?_⟩
  · simp only [errors_append, hdata, Nat.add_zero]
    exact h.receive
  · simp only [errors_append, hdata, Nat.add_zero]
    exact h.send

theorem errors_data (send : Bool) (ms : List NetworkSession.Notification) :
    errors send (ms.map .data) = 0 := by
  simp [errors, List.countP_map]

theorem readDatagrams_told {s : Session} (h : Told s) (hwants : s.sawReceiveFailure = false)
    (results : List (Result Bytes)) : Told (readDatagrams s results) := by
  induction results generalizing s with
  | nil => exact h
  | cons result results ih =>
    match result with
    | .ok [] => exact receiveFailure_told h hwants _
    | .ok (byte :: data) => exact ih (h.more (fun _ => rfl) s.inBuffer s.received) hwants
    | .err errno =>
      rw [readDatagrams]
      split
      · exact h
      · exact receiveFailure_told h hwants _

theorem readMore_told {s : Session} (h : Told s) (hwants : wantsToRead s = true)
    (results : List (Result Bytes)) : Told (readMore s results) := by
  have hfirst : s.sawReceiveFailure = false := by
    rw [wantsToRead, Bool.and_eq_true] at hwants
    simpa using hwants.1
  have hdata : ∀ failed chunk, Told (receive s failed chunk) := fun failed chunk =>
    h.more (fun send => errors_data send _) _ _
  rw [readMore]
  split
  · exact readDatagrams_told h hfirst results
  · rcases results.headD (.err eAgain) with chunk | errno
    · cases chunk with
      | nil => exact receiveFailure_told (hdata true []) hfirst _
      | cons byte chunk => exact hdata false (byte :: chunk)
    · exact receiveFailure_told (hdata true []) hfirst _

theorem writeDatagrams_told {s : Session} (h : Told s) (hphase : s.phase ≠ .connecting)
    (hwants : s.sawSendFailure = false) (results : List (Nat × Result Nat)) :
    Told (writeDatagrams s results) := by
  induction results generalizing s with
  | nil => exact h
  | cons result results ih =>
    obtain ⟨nowUs, result⟩ := result
    rw [writeDatagrams]
    split
    · exact h
    · next data queue hqueue =>
      have hstamped : Told (stampFront s nowUs data queue) := ⟨h.receive, h.send⟩
      rcases result with n | errno
      · cases n with
        | zero => exact sendFailure_told hstamped hphase hwants _
        | succ n => exact ih ⟨h.receive, h.send⟩ hphase hwants
      · dsimp only
        split
        · exact hstamped
        · exact sendFailure_told hstamped hphase hwants _

theorem connect_told {s : Session} (h : Told s) (hphase : s.phase = .connecting)
    (hfirst : s.sawSendFailure = false) (result : Result Nat) : Told (connect s result) := by
  obtain ⟨hreceive, hsend⟩ := h
  rw [if_pos hphase, hfirst] at hreceive
  rw [if_pos hphase] at hsend
  cases result with
  | ok n =>
    refine ⟨?_, ?_⟩
    · simp only [connect, errors_append, hreceive]
      rfl
    · simp only [connect, errors_append, hsend, hfirst]
      rfl
  | err errno =>
    refine ⟨?_, ?_⟩
    · simp only [connect, errors_append, hreceive, hphase]
      rfl
    · simp only [connect, errors_append, hsend, hphase]
      rfl

theorem writeMore_told {s : Session} (h : Told s) (hwants : wantsToWrite s = true)
    (results : List (Nat × Result Nat)) : Told (writeMore s results) := by
  have hfirst : s.sawSendFailure = false := by
    rw [wantsToWrite, Bool.and_eq_true] at hwants
    simpa using hwants.1
  have hstream : ∀ result, s.phase ≠ .connecting → Told (writeStream s result) := by
    intro result hphase
    match result with
    | .ok 0 => exact sendFailure_told h hphase hfirst _
    | .ok (n + 1) => exact ⟨h.receive, h.send⟩
    | .err errno => exact sendFailure_told h hphase hfirst _
  rw [writeMore]
  split
  case h_1 hphase => exact writeDatagrams_told h (by rw [hphase]; decide) hfirst results
  case h_2 hphase => exact connect_told h hphase hfirst _
  case h_3 hphase => exact hstream _ hphase

/-! ### The pipe -/

/-- While the thread waits, what a session wants is in the sets, or there is a byte in the pipe. -/
def Watched (s : Net) : Prop :=
  ∀ rs ws, s.thread = .selecting rs ws → 0 < s.pipe ∨ ∀ e ∈ s.sessions,
    (wantsToRead e.session = true → e.socket ∈ rs) ∧
      (wantsToWrite e.session = true → e.socket ∈ ws)

theorem moves_watched {s s' : Net} (h : Watched s) (hmoves : Moves s s') : Watched s' := by
  intro rs ws hthread
  cases hmoves with
  | same => exact h rs ws hthread
  | created mode socket hnew => exact .inl (Nat.succ_pos _)
  | destroyed sessionID => exact .inl (Nat.succ_pos _)
  | requested sessionID data => exact .inl (Nat.succ_pos _)
  | collected =>
    cases hthread
    refine .inr fun e he => ⟨fun hwants => ?_, fun hwants => ?_⟩
    · exact List.mem_map.mpr ⟨e, List.mem_filter.mpr ⟨he, hwants⟩, rfl⟩
    · exact List.mem_map.mpr ⟨e, List.mem_filter.mpr ⟨he, hwants⟩, rfl⟩
  | ended => cases hthread
  | served io _ _ _ _ _ _ _ => cases hthread

/-! ### The sessions that are served -/

/-- A socket that the thread waits for is not given to a new session. -/
def NotReused (s : Net) : Action → Prop
  | .create _ socket => ∀ rs ws, s.thread = .selecting rs ws → socket ∉ rs ∧ socket ∉ ws
  | _ => True

/-- What is in the sets is wanted, and was in every call so far. -/
structure Kept (s : Net) : Prop where
  told : ∀ e ∈ s.sessions, Told e.session
  selected : ∀ rs ws, s.thread = .selecting rs ws → ∀ e ∈ s.sessions,
    (e.socket ∈ rs → wantsToRead e.session = true) ∧
      (e.socket ∈ ws → wantsToWrite e.session = true)
  wanted : ∀ c ∈ s.calls, c.wanted = true

theorem kept_start : Kept start := ⟨by simp [start], by simp [start], by simp [start]⟩

theorem eq_of_socket {s : Net} (h : Arranged s.sessions) {e f : Entry} (he : e ∈ s.sessions)
    (hf : f ∈ s.sessions) (hsocket : e.socket = f.socket) : e = f :=
  List.inj_on_of_nodup_map h.sockets he hf hsocket

theorem collect_selected {s : Net} (h : Arranged s.sessions) {e : Entry} (he : e ∈ s.sessions)
    (wants : Session → Bool)
    (hsocket : e.socket ∈ (s.sessions.filter fun e => wants e.session).map Entry.socket) :
    wants e.session = true := by
  obtain ⟨f, hf, heq⟩ := List.mem_map.mp hsocket
  obtain ⟨hmem, hwants⟩ := List.mem_filter.mp hf
  exact eq_of_socket h hmem he heq ▸ hwants

/-- Both calls on a session are wanted, the second one also behind the first. -/
theorem served_kept {io : Ready} {e : Entry} (htold : Told e.session)
    (hread : e.socket ∈ io.readable → wantsToRead e.session = true)
    (hwrite : e.socket ∈ io.writable → wantsToWrite e.session = true) :
    Told (served io e).session ∧ ∀ c ∈ callsOf io e, c.wanted = true := by
  have hafter : Told (afterRead io e) ∧
      wantsToWrite (afterRead io e) = wantsToWrite e.session := by
    rw [afterRead]
    split
    · next hready => exact ⟨readMore_told htold (hread hready.1) _, readMore_keeps _ _⟩
    · exact ⟨htold, rfl⟩
  constructor
  · simp only [served]
    split
    · next hready => exact writeMore_told hafter.1 (hafter.2.trans (hwrite hready)) _
    · exact hafter.1
  · intro c hc
    rcases List.mem_append.mp hc with hc | hc
    · split at hc
      · next hready =>
        obtain rfl := List.mem_singleton.mp hc
        exact hread hready.1
      · cases hc
    · split at hc
      · next hready =>
        obtain rfl := List.mem_singleton.mp hc
        exact hafter.2.trans (hwrite hready)
      · cases hc

theorem kept_new {s : Net} (h : Kept s) (mode : Mode) (socket : Nat)
    (hsocket : ∀ rs ws, s.thread = .selecting rs ws → socket ∉ rs ∧ socket ∉ ws) :
    Kept (createClientOrServer s mode socket) := by
  refine ⟨fun f hf => ?_, fun rs ws hthread f hf => ?_, h.wanted⟩
  · rcases mem_addSession hf with rfl | hf
    · exact told_new _ _
    · exact h.told f hf
  · rcases mem_addSession hf with rfl | hf
    · obtain ⟨hrs, hws⟩ := hsocket rs ws hthread
      exact ⟨fun hmem => absurd hmem hrs, fun hmem => absurd hmem hws⟩
    · exact h.selected rs ws hthread f hf

theorem kept_requested {s : Net} (h : Kept s) (sessionID : Int) (data : Bytes) (pipe : Nat) :
    Kept { s with sessions := s.sessions.map (request sessionID data), pipe := pipe } := by
  refine ⟨fun e he => ?_, fun rs ws hthread e he => ?_, h.wanted⟩
  all_goals
    obtain ⟨f, hf, rfl⟩ := List.mem_map.mp he
    rw [request]
  · split
    · exact sendRequest_told (h.told f hf) data
    · exact h.told f hf
  · obtain ⟨hread, hwrite⟩ := h.selected rs ws hthread f hf
    split
    · obtain ⟨hreads, hwrites⟩ := sendRequest_wants f.session data
      exact ⟨fun hmem => hreads ▸ hread hmem, fun hmem => hwrites (hwrite hmem)⟩
    · exact ⟨hread, hwrite⟩

theorem kept_served {s : Net} (htable : Arranged s.sessions) (h : Kept s) {io : Ready}
    {rs ws : List Nat} (hthread : s.thread = .selecting rs ws) (hreadable : io.readable ⊆ rs)
    (hwritable : io.writable ⊆ ws) : Kept (serveReady io s) := by
  have hserved : ∀ e ∈ s.sessions,
      Told (served io e).session ∧ ∀ c ∈ callsOf io e, c.wanted = true := by
    intro e he
    obtain ⟨hread, hwrite⟩ := h.selected rs ws hthread e he
    exact served_kept (h.told e he) (fun hmem => hread (hreadable hmem))
      fun hmem => hwrite (hwritable hmem)
  rw [serveReady_eq htable.sockets]
  refine ⟨fun e he => ?_, by simp, fun c hc => ?_⟩
  · rcases mem_addSessions he with he | he
    · obtain ⟨f, hf, rfl⟩ := List.mem_map.mp he
      exact (hserved f hf).1
    · obtain ⟨rtsp, hnew⟩ := sessionsToAdd_new _ _ e he
      exact hnew ▸ told_new .connected rtsp
  · rcases List.mem_append.mp hc with hc | hc
    · exact h.wanted c hc
    · obtain ⟨f, hf, hcall⟩ := List.mem_flatMap.mp hc
      exact (hserved f (List.mem_reverse.mp hf)).2 c hcall

theorem step_kept {s s' : Net} {a : Action} (htable : Arranged s.sessions) (h : Kept s)
    (hnew : NotReused s a) (hstep : step s a = some s') : Kept s' := by
  cases a with
  | create mode socket =>
    simp only [step] at hstep
    split at hstep
    · cases hstep
    · cases hstep
      exact kept_new h mode socket hnew
  | destroy sessionID =>
    cases hstep
    rw [destroySession]
    split
    · exact ⟨fun e he => h.told e (List.mem_of_mem_filter he),
        fun rs ws hthread e he => h.selected rs ws hthread e (List.mem_of_mem_filter he), h.wanted⟩
    · exact h
  | request sessionID data =>
    cases hstep
    rw [sendRequest]
    split
    · exact kept_requested h sessionID data _
    · exact h
  | collect =>
    simp only [step] at hstep
    split at hstep
    · cases hstep
      refine ⟨h.told, fun rs ws hthread e he => ?_, h.wanted⟩
      cases hthread
      exact ⟨collect_selected htable he wantsToRead, collect_selected htable he wantsToWrite⟩
    · cases hstep
  | interrupted =>
    simp only [step] at hstep
    split at hstep
    · cases hstep
    · cases hstep
      exact ⟨h.told, by simp, h.wanted⟩
  | serve io =>
    cases hthread : s.thread with
    | outside => simp [step, hthread] at hstep
    | selecting rs ws =>
      simp only [step, hthread] at hstep
      split at hstep
      · next hready =>
        cases hstep
        exact kept_served htable h hthread hready.2.2.2.1 hready.2.2.2.2.2.1
      · cases hstep

/-! ### Runs -/

theorem table_of_run {as : List Action} {s : Net} (hrun : run step start as = some s) : Table s :=
  run_preserves (fun _ _ _ h hstep => moves_table h (step_moves hstep)) hrun table_start

/-- As long as no socket for which the thread waits is closed and its number given to a new session,
    every `readMore` and `writeMore` is called on a session that wants it: the checks in them hold,
    and each session is told of one error for each direction that is given up, and of no other. -/
theorem served_as_wanted {as : List Action} {s : Net} (hrun : run step start as = some s)
    (hnew : Along step NotReused start as) :
    (∀ c ∈ s.calls, c.wanted = true) ∧ ∀ e ∈ s.sessions, Told e.session := by
  have hkept : Table s ∧ Kept s :=
    run_invariant (P := fun s => Table s ∧ Kept s)
      (fun s a s' h hok hstep =>
        ⟨moves_table h.1 (step_moves hstep), step_kept h.1.arranged h.2 hok hstep⟩)
      hrun hnew ⟨table_start, kept_start⟩
  exact ⟨hkept.2.wanted, hkept.2.told⟩

/-- Socket 5 is ready, and reading from it fails. -/
def failing : Ready := ⟨true, [5], [], fun _ => [.err 104], fun _ => [], fun _ => none⟩

theorem served_as_wanted_failing : ∃ s,
    run step start [.create .udpSession 5, .collect, .serve failing, .collect] = some s ∧
      s.calls = [⟨1, false, true⟩] ∧ s.thread = .selecting [] [] ∧
      ∀ e ∈ s.sessions, Told e.session := by
  obtain ⟨s, hrun, hcalls, hthread⟩ : ∃ s,
      run step start [.create .udpSession 5, .collect, .serve failing, .collect] = some s ∧
        s.calls = [⟨1, false, true⟩] ∧ s.thread = .selecting [] [] := by
    refine ⟨_, rfl, ?_⟩
    decide
  refine ⟨s, hrun, hcalls, hthread, (served_as_wanted hrun ?_).2⟩
  refine ⟨by simp [NotReused, start], fun t ht => ⟨trivial, fun t ht => ⟨trivial, fun t ht => ?_⟩⟩⟩
  exact ⟨trivial, fun t ht => trivial⟩

/-- With such a number it goes wrong: the new connection is told of an error of receiving before it
    is made, and will never be read from. -/
example : (run step start [.create .udpSession 5, .collect, .destroy 1, .create .rtspClient 5,
      .serve failing]).map (fun s => (s.calls, s.sessions.map fun e =>
        (e.session.phase, e.session.notices, e.session.sawReceiveFailure))) =
    some ([⟨2, false, false⟩], [(.connecting, [.error false (-104)], true)]) := by
  decide

/-- A round serves every session that is ready and still in the table, whatever the count of the
    bits, each once and in its place; behind them come the connections that were taken, each of them,
    in the order of the walk and under new numbers, as long as the counter has not come to its
    end. -/
theorem round_serves_all {as : List Action} {s s' : Net} {io : Ready}
    (hrun : run step start as = some s) (hstep : step s (.serve io) = some s')
    (hfew : s'.created < 2147483647) :
    s'.sessions = s.sessions.map (served io) ++
        sessionsToAdd s.nextSessionID (s.sessions.reverse.filterMap (accepted io)) ∧
      s'.calls = s.calls ++ s.sessions.reverse.flatMap (callsOf io) ∧
      (s'.sessions.Pairwise fun e f => e.sessionID < f.sessionID) ∧
      (s'.sessions.map Entry.socket).Nodup := by
  have htable := table_of_run hrun
  obtain ⟨hids, hsockets⟩ := (moves_table htable (step_moves hstep)).arranged
  have heq : s' = serveReady io s := by
    cases hthread : s.thread with
    | outside => simp [step, hthread] at hstep
    | selecting rs ws =>
      simp only [step, hthread] at hstep
      split at hstep
      · cases hstep
        rfl
      · cases hstep
  rw [serveReady_eq htable.arranged.sockets] at heq
  refine ⟨?_, by rw [heq], hids, hsockets⟩
  have hmany : s'.created = s.created + (s.sessions.reverse.filterMap (accepted io)).length := by
    rw [heq]
  have hadded : s'.sessions = addSessions (s.sessions.map (served io))
      (sessionsToAdd s.nextSessionID (s.sessions.reverse.filterMap (accepted io))) := by
    rw [heq]
  rw [hmany] at hfew
  obtain ⟨hclients, hbetween⟩ := sessionsToAdd_ids hfew
  rw [hadded, htable.next]
  refine addSessions_of_lt hclients fun e he f hf => ?_
  obtain ⟨g, hg, rfl⟩ := List.mem_map.mp hf
  have hold : (served io g).sessionID < s.nextSessionID := htable.fresh (by omega) g hg
  have hnew := (hbetween e he).1
  rw [htable.next_eq (by omega)] at hold
  omega

/-- A server with a client, both ready, and a datagram session that is not. -/
def accepting : Ready :=
  ⟨false, [5], [], fun _ => [], fun _ => [], fun sessionID => if sessionID = 1 then some 8 else none⟩

theorem round_serves_all_accepting : ∃ s s',
    run step start [.create .rtspServer 5, .create .udpSession 6, .collect] = some s ∧
      step s (.serve accepting) = some s' ∧
      s'.sessions.map (fun e => (e.sessionID, e.socket)) = [(1, 5), (2, 6), (3, 8)] ∧
      s'.sessions = s.sessions.map (served accepting) ++
        sessionsToAdd s.nextSessionID (s.sessions.reverse.filterMap (accepted accepting)) := by
  obtain ⟨s, s', hrun, hstep, hsessions, hthree⟩ : ∃ s s',
      run step start [.create .rtspServer 5, .create .udpSession 6, .collect] = some s ∧
        step s (.serve accepting) = some s' ∧
        s'.sessions.map (fun e => (e.sessionID, e.socket)) = [(1, 5), (2, 6), (3, 8)] ∧
        s'.created = 3 :=
    ⟨_, _, rfl, rfl, rfl, rfl⟩
  exact ⟨s, s', hrun, hstep, hsessions, (round_serves_all hrun hstep (by rw [hthree]; decide)).1⟩

/-- In every run, while the thread waits in `select`, a session that wants to read or to write is in
    the sets that it waits for, or a byte in the pipe ends the wait: no request is left lying. -/
theorem none_forgotten {as : List Action} {s : Net} (hrun : run step start as = some s)
    {rs ws : List Nat} (hthread : s.thread = .selecting rs ws) :
    0 < s.pipe ∨ ∀ e ∈ s.sessions, (wantsToRead e.session = true → e.socket ∈ rs) ∧
      (wantsToWrite e.session = true → e.socket ∈ ws) :=
  run_preserves (P := Watched) (fun _ _ _ h hstep => moves_watched h (step_moves hstep)) hrun
    (by simp [Watched, start]) rs ws hthread

theorem none_forgotten_request : ∃ s,
    run step start [.create .udpSession 5, .collect, .request 1 [1]] = some s ∧
      s.thread = .selecting [5] [] ∧ (0 < s.pipe ∨ ∀ e ∈ s.sessions,
        (wantsToRead e.session = true → e.socket ∈ [5]) ∧
          (wantsToWrite e.session = true → e.socket ∈ [])) := by
  obtain ⟨s, hrun, hthread⟩ : ∃ s,
      run step start [.create .udpSession 5, .collect, .request 1 [1]] = some s ∧
        s.thread = .selecting [5] [] := ⟨_, rfl, rfl⟩
  exact ⟨s, hrun, hthread, none_forgotten hrun hthread⟩

end Streambox.WifiDisplay.NetworkThread
