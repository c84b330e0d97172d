import Mathlib.Algebra.Order.Group.Int
import Mathlib.Data.List.Nodup
import Streambox.Lib.Counter
import Streambox.Lib.Run
import Streambox.Lib.DueQueue

/-! foundation, ALooper.cpp and ALooperRoster.cpp: the queue through which the parties of a session
    talk to each other.

    A message is posted to the id of a handler. The looper keeps the posted ones in the order of the
    time they are due, and its thread hands them out one by one or sleeps.

        postMessage ──▶ mEventQueue ──▶ loop ──▶ deliverMessage ──▶ onMessageReceived
                                                    │
                                                    └──▶ dropped: the handler is not registered

    No lock is held between `loop` and `deliverMessage`, nor between the look-up of the handler and
    `onMessageReceived`: a handler may be unregistered there. The ids are numbers of 32 bits that are
    counted up, so that in the end they come again. -/

namespace Streambox.WifiDisplay.Looper
open Streambox.Lib

variable {M : Type*}

/-- ALooper::Event, with the message's target beside the rest of the message. -/
structure Event (M : Type*) where
  whenUs : Int
  target : Int
  message : M
  deriving DecidableEq, Repr

/-- What the looper's thread is at. -/
inductive Thread (M : Type*) where
  | awake
  /-- Called `deliverMessage`. -/
  | delivering (event : Event M)
  /-- Holds a reference to the handler, whose `onMessageReceived` is next. -/
  | calling (handler : Nat) (event : Event M)
  /-- `wait` with an empty queue. -/
  | waiting
  /-- `waitRelative`, until the given time. -/
  | sleeping (untilUs : Int)

/-- The looper, the roster and the handlers, and what has happened so far. A handler is a number;
    `idOf` is its `mID`, zero if it is not registered. -/
structure State (M : Type*) where
  nowUs : Int
  queue : List (Event M)
  thread : Thread M
  handlers : List (Int × Nat)
  nextHandlerID : Int
  idOf : Nat → Int
  gone : List Nat
  posted : List (Event M)
  /-- Taken from the queue, with the time of that. -/
  taken : List (Event M × Int)
  /-- Handed to `onMessageReceived` of a handler. -/
  received : List (Nat × Event M)
  registered : List (Int × Nat)

def start : State M :=
  ⟨0, [], .awake, [], 1, fun _ => 0, [], [], [], [], []⟩

/-- The time a message is due. -/
def dueAt (nowUs delayUs : Int) : Int := if 0 < delayUs then nowUs + delayUs else nowUs

/-- `mHandlers.indexOfKey`, with the value. -/
def handlerOf (s : State M) (id : Int) : Option Nat :=
  (s.handlers.find? fun q => q.1 = id).map Prod.snd

def unlist (s : State M) (id : Int) : State M :=
  { s with handlers := s.handlers.filter fun q => q.1 ≠ id }

/-- `registerHandler`: a handler that has an id is left as it is. `KeyedVector::add` takes the place of
    what has the same key. -/
def registerHandler (s : State M) (handler : Nat) : State M :=
  if s.idOf handler ≠ 0 then s
  else
    { s with
      handlers := (s.handlers.filter fun q => q.1 ≠ s.nextHandlerID) ++ [(s.nextHandlerID, handler)]
      nextHandlerID := countUp s.nextHandlerID
      idOf := fun h => if h = handler then s.nextHandlerID else s.idOf h
      registered := s.registered ++ [(s.nextHandlerID, handler)] }

/-- `unregisterHandler`. A handler that is gone cannot be told. -/
def unregisterHandler (s : State M) (id : Int) : State M :=
  match handlerOf s id with
  | none => s
  | some handler =>
    if handler ∈ s.gone then unlist s id
    else { unlist s id with idOf := fun h => if h = handler then 0 else s.idOf h }

/-- `postMessage`: what is due no later stays in front. Only a new front wakes the thread up. -/
def postMessage (s : State M) (target : Int) (message : M) (delayUs : Int) : State M :=
  match handlerOf s target with
  | none => s
  | some _ =>
    let event : Event M := ⟨dueAt s.nowUs delayUs, target, message⟩
    let atBegin := (s.queue.head?.all fun e => event.whenUs < e.whenUs)
    { s with
      queue := insertDue Event.whenUs event s.queue
      thread := match s.thread with
        | .waiting => if atBegin then .awake else .waiting
        | .sleeping t => if atBegin then .awake else .sleeping t
        | thread => thread
      posted := s.posted ++ [event] }

/-- One call of `loop`, up to `deliverMessage`. -/
def loop (s : State M) : State M :=
  match s.queue with
  | [] => { s with thread := .waiting }
  | event :: queue =>
    if s.nowUs < event.whenUs then { s with thread := .sleeping event.whenUs }
    else
      { s with queue := queue, thread := .delivering event, taken := s.taken ++ [(event, s.nowUs)] }

/-- `deliverMessage`, up to `onMessageReceived`. The target is looked up anew. -/
def deliverMessage (s : State M) (event : Event M) : State M :=
  match handlerOf s event.target with
  | none => { s with thread := .awake }
  | some handler =>
    if handler ∈ s.gone then { unlist s event.target with thread := .awake }
    else { s with thread := .calling handler event }

/-- What may happen next. What a handler does when it receives a message are steps of their own. -/
inductive Action (M : Type*) where
  | pass (us : Nat)
  | register (handler : Nat)
  | unregister (id : Int)
  /-- The last reference to a handler is given up. -/
  | destroy (handler : Nat)
  | post (target : Int) (message : M) (delayUs : Int)
  | loop
  | deliver
  | receive
  /-- A wait ends: it was signalled, its time is over, or for no reason. -/
  | wake

def step (s : State M) : Action M → Option (State M)
  | .pass us => some { s with nowUs := s.nowUs + us }
  | .register handler => if handler ∈ s.gone then none else some (registerHandler s handler)
  | .unregister id => some (unregisterHandler s id)
  | .destroy handler => some { s with gone := handler :: s.gone }
  | .post target message delayUs => some (postMessage s target message delayUs)
  | .loop =>
    match s.thread with
    | .awake => some (loop s)
    | _ => none
  | .deliver =>
    match s.thread with
    | .delivering event => some (deliverMessage s event)
    | _ => none
  | .receive =>
    match s.thread with
    | .calling handler event =>
      some { s with thread := .awake, received := s.received ++ [(handler, event)] }
    | _ => none
  | .wake =>
    match s.thread with
    | .waiting | .sleeping _ => some { s with thread := .awake }
    | _ => none

/-! ### What a step can do -/

/-- Registrations are only taken away. -/
def Fewer (handlers handlers' : List (Int × Nat)) : Prop := ∀ q ∈ handlers', q ∈ handlers

/-- The effects of the steps, with what is known before them. -/
inductive Moves (s : State M) : State M → Prop
  | clock (us : Nat) : Moves s { s with nowUs := s.nowUs + us }
  | registered (handler : Nat) :
      Moves s { s with
        handlers :=
          (s.handlers.filter fun q => q.1 ≠ s.nextHandlerID) ++ [(s.nextHandlerID, handler)]
        nextHandlerID := countUp s.nextHandlerID
        idOf := fun h => if h = handler then s.nextHandlerID else s.idOf h
        registered := s.registered ++ [(s.nextHandlerID, handler)] }
  | roster (handlers : List (Int × Nat)) (idOf : Nat → Int) (gone : List Nat) :
      Fewer s.handlers handlers →
      Moves s { s with handlers := handlers, idOf := idOf, gone := gone }
  | posted (target : Int) (handler : Nat) (message : M) (delayUs : Int) (thread : Thread M) :
      (target, handler) ∈ s.handlers →
      (thread = s.thread ∧ (s.thread = .waiting ∨ (∃ t, s.thread = .sleeping t) →
          ∃ e ∈ s.queue, e.whenUs ≤ dueAt s.nowUs delayUs) ∨
        thread = .awake ∧ (s.thread = .waiting ∨ ∃ t, s.thread = .sleeping t)) →
      Moves s { s with
        queue := insertDue Event.whenUs ⟨dueAt s.nowUs delayUs, target, message⟩ s.queue
        thread := thread
        posted := s.posted ++ [⟨dueAt s.nowUs delayUs, target, message⟩] }
  | idles : s.thread = .awake → s.queue = [] → Moves s { s with thread := .waiting }
  | sleeps (event : Event M) (queue : List (Event M)) : s.thread = .awake →
      s.queue = event :: queue → Moves s { s with thread := .sleeping event.whenUs }
  | takes (event : Event M) (queue : List (Event M)) : s.thread = .awake →
      s.queue = event :: queue → event.whenUs ≤ s.nowUs →
      Moves s { s with
        queue := queue, thread := .delivering event, taken := s.taken ++ [(event, s.nowUs)] }
  | drops (event : Event M) (handlers : List (Int × Nat)) : s.thread = .delivering event →
      Fewer s.handlers handlers → Moves s { s with handlers := handlers, thread := .awake }
  | finds (handler : Nat) (event : Event M) : s.thread = .delivering event →
      (event.target, handler) ∈ s.handlers → Moves s { s with thread := .calling handler event }
  | receives (handler : Nat) (event : Event M) : s.thread = .calling handler event →
      Moves s { s with thread := .awake, received := s.received ++ [(handler, event)] }
  | wakes : s.thread = .waiting ∨ (∃ t, s.thread = .sleeping t) →
      Moves s { s with thread := .awake }

theorem handlerOf_some {s : State M} {id : Int} {handler : Nat} (h : handlerOf s id = some handler) :
    (id, handler) ∈ s.handlers := by
  obtain ⟨q, hq, rfl⟩ := Option.map_eq_some_iff.mp h
  have hid : q.1 = id := by simpa using List.find?_some hq
  exact hid ▸ List.mem_of_find?_eq_some hq

theorem fewer_refl (handlers : List (Int × Nat)) : Fewer handlers handlers := fun _ hq => hq

theorem fewer_filter (handlers : List (Int × Nat)) (p : Int × Nat → Bool) :
    Fewer handlers (handlers.filter p) := fun _ hq => List.mem_of_mem_filter hq

theorem unregisterHandler_moves (s : State M) (id : Int) : Moves s (unregisterHandler s id) := by
  rw [unregisterHandler]
  split
  · exact .roster s.handlers s.idOf s.gone (fewer_refl _)
  · split
    · exact .roster _ s.idOf s.gone (fewer_filter _ _)
    · exact .roster _ _ s.gone (fewer_filter _ _)

theorem postMessage_moves (s : State M) (target : Int) (message : M) (delayUs : Int) :
    Moves s (postMessage s target message delayUs) := by
  rw [postMessage]
  split
  case h_1 => exact .roster s.handlers s.idOf s.gone (fewer_refl _)
  case h_2 handler hfind =>
    refine .posted target handler message delayUs _ (handlerOf_some hfind) ?_
    -- a thread that sleeps on has an event in front that is due no later
    have hfront : ¬ (s.queue.head?.all fun e => decide (dueAt s.nowUs delayUs < e.whenUs)) = true →
        ∃ e ∈ s.queue, e.whenUs ≤ dueAt s.nowUs delayUs := by
      intro hnot
      rcases hqueue : s.queue with _ | ⟨e, queue⟩
      · simp [hqueue] at hnot
      · exact ⟨e, by simp, by simpa [hqueue] using hnot⟩
    cases hthread : s.thread with
    | awake => exact .inl ⟨rfl, by simp⟩
    | delivering event => exact .inl ⟨rfl, by simp⟩
    | calling handler event => exact .inl ⟨rfl, by simp⟩
    | waiting =>
      dsimp only
      split
      · exact .inr ⟨rfl, .inl rfl⟩
      · next hnot => exact .inl ⟨rfl, fun _ => hfront hnot⟩
    | sleeping t =>
      dsimp only
      split
      · exact .inr ⟨rfl, .inr ⟨t, rfl⟩⟩
      · next hnot => exact .inl ⟨rfl, fun _ => hfront hnot⟩

theorem loop_moves {s : State M} (hthread : s.thread = .awake) : Moves s (loop s) := by
  rw [loop]
  split
  case h_1 hqueue => exact .idles hthread hqueue
  case h_2 event queue hqueue =>
    split
    case isTrue => exact .sleeps event queue hthread hqueue
    case isFalse hdue => exact .takes event queue hthread hqueue (Int.not_lt.mp hdue)

theorem deliverMessage_moves {s : State M} {event : Event M}
    (hthread : s.thread = .delivering event) : Moves s (deliverMessage s event) := by
  rw [deliverMessage]
  split
  case h_1 => exact .drops event s.handlers hthread (fewer_refl _)
  case h_2 handler hfind =>
    split
    · exact .drops event _ hthread (fewer_filter _ _)
    · exact .finds handler event hthread (handlerOf_some hfind)

theorem step_moves {s s' : State M} {a : Action M} (h : step s a = some s') : Moves s s' := by
  cases a with
  | pass us =>
    cases h
    exact .clock us
  | register handler =>
    simp only [step] at h
    split at h
    · cases h
    · cases h
      rw [registerHandler]
      split
      · exact .roster s.handlers s.idOf s.gone (fewer_refl _)
      · exact .registered handler
  | unregister id =>
    cases h
    exact unregisterHandler_moves s id
  | destroy handler =>
    cases h
    exact .roster s.handlers s.idOf _ (fewer_refl _)
  | post target message delayUs =>
    cases h
    exact postMessage_moves s target message delayUs
  | loop =>
    cases hthread : s.thread <;> simp only [step, hthread] at h <;> cases h
    exact loop_moves hthread
  | deliver =>
    cases hthread : s.thread <;> simp only [step, hthread] at h <;> cases h
    exact deliverMessage_moves hthread
  | receive =>
    cases hthread : s.thread <;> simp only [step, hthread] at h <;> cases h
    exact .receives _ _ hthread
  | wake =>
    cases hthread : s.thread <;> simp only [step, hthread] at h <;> cases h
    · exact .wakes (.inl hthread)
    · exact .wakes (.inr ⟨_, hthread⟩)

/-! ### The order -/

/-- The event that the thread holds. -/
def inHand (s : State M) : List (Event M) :=
  match s.thread with
  | .delivering event | .calling _ event => [event]
  | _ => []

/-- Taken and queued, they are what was posted, in the order of the due times. -/
structure InOrder (s : State M) : Prop where
  arranged : Arranges Event.whenUs s.posted (s.taken.map Prod.fst ++ s.queue)
  past : ∀ q ∈ s.taken, q.1.whenUs ≤ q.2 ∧ q.2 ≤ s.nowUs
  once : (s.received.map Prod.snd ++ inHand s).Sublist (s.taken.map Prod.fst)

theorem inOrder_start : InOrder (start : State M) :=
  ⟨arranges_nil, by simp [start], by simp [start, inHand]⟩

theorem le_dueAt (nowUs delayUs : Int) : nowUs ≤ dueAt nowUs delayUs := by
  rw [dueAt]
  split <;> omega

theorem moves_inOrder {s s' : State M} (h : InOrder s) (hmoves : Moves s s') : InOrder s' := by
  obtain ⟨harranged, hpast, honce⟩ := h
  cases hmoves with
  | clock us =>
    exact ⟨harranged, fun q hq => ⟨(hpast q hq).1, (hpast q hq).2.trans (by simp)⟩, honce⟩
  | registered handler => exact ⟨harranged, hpast, honce⟩
  | roster handlers idOf gone hfewer => exact ⟨harranged, hpast, honce⟩
  | posted target handler message delayUs thread hmem hthread =>
    refine ⟨harranged.insert_behind fun e he => ?_, hpast, ?_⟩
    · obtain ⟨q, hq, rfl⟩ := List.mem_map.mp he
      exact ((hpast q hq).1.trans (hpast q hq).2).trans (le_dueAt _ _)
    · rcases hthread with ⟨rfl, -⟩ | ⟨rfl, -⟩
      · exact honce
      · exact (List.sublist_append_left _ _).trans (by simpa [inHand] using honce)
  | idles hthread hqueue => exact ⟨harranged, hpast, by simpa [inHand, hthread] using honce⟩
  | sleeps event queue hthread hqueue =>
    exact ⟨harranged, hpast, by simpa [inHand, hthread] using honce⟩
  | takes event queue hthread hqueue hdue =>
    refine ⟨by simpa [hqueue] using harranged, fun q hq => ?_, ?_⟩
    · rcases List.mem_append.mp hq with hq | hq
      · exact hpast q hq
      · obtain rfl := List.mem_singleton.mp hq
        exact ⟨hdue, Int.le_refl _⟩
    · have hsub : (s.received.map Prod.snd).Sublist (s.taken.map Prod.fst) := by
        simpa [inHand, hthread] using honce
      simpa [inHand] using hsub.append_right [event]
  | drops event handlers hthread hfewer =>
    exact ⟨harranged, hpast, (List.sublist_append_left _ [event]).trans
      (by simpa [inHand, hthread] using honce)⟩
  | finds handler event hthread hmem =>
    exact ⟨harranged, hpast, by simpa [inHand, hthread] using honce⟩
  | receives handler event hthread =>
    exact ⟨harranged, hpast, by simpa [inHand, hthread] using honce⟩
  | wakes hthread =>
    refine ⟨harranged, hpast, ?_⟩
    rcases hthread with hthread | ⟨t, hthread⟩ <;> simpa [inHand, hthread] using honce

/-! ### Sleep -/

/-- The thread does not sleep over anything. -/
structure Attentive (s : State M) : Prop where
  waiting : s.thread = .waiting → s.queue = []
  sleeping : ∀ t, s.thread = .sleeping t → ∀ e ∈ s.queue, t ≤ e.whenUs

theorem attentive_of_awake {s : State M} (hwaiting : s.thread ≠ .waiting)
    (hsleeping : ∀ t, s.thread ≠ .sleeping t) : Attentive s :=
  ⟨fun h => absurd h hwaiting, fun t h => absurd h (hsleeping t)⟩

theorem moves_attentive {s s' : State M} (hordered : InOrder s) (h : Attentive s)
    (hmoves : Moves s s') : Attentive s' := by
  cases hmoves with
  | clock us => exact ⟨h.waiting, h.sleeping⟩
  | registered handler => exact ⟨h.waiting, h.sleeping⟩
  | roster handlers idOf gone hfewer => exact ⟨h.waiting, h.sleeping⟩
  | posted target handler message delayUs thread hmem hthread =>
    rcases hthread with ⟨rfl, hfront⟩ | ⟨rfl, -⟩
    · refine ⟨fun hwaiting => ?_, fun t hsleeping e he => ?_⟩
      · obtain ⟨e, he, -⟩ := hfront (.inl hwaiting)
        rw [h.waiting hwaiting] at he
        cases he
      · obtain ⟨front, hmem, hle⟩ := hfront (.inr ⟨t, hsleeping⟩)
        rcases mem_insertDue.mp he with rfl | he
        · exact (h.sleeping t hsleeping front hmem).trans hle
        · exact h.sleeping t hsleeping e he
    · exact attentive_of_awake (by simp) (by simp)
  | idles hthread hqueue => exact ⟨fun _ => hqueue, by simp⟩
  | sleeps event queue hthread hqueue =>
    refine ⟨by simp, fun t ht e he => ?_⟩
    cases ht
    have hsorted := (List.pairwise_append.mp hordered.arranged.sorted).2.1
    simp only [hqueue] at hsorted he
    rcases List.mem_cons.mp he with rfl | he
    · exact Int.le_refl _
    · exact (List.pairwise_cons.mp hsorted).1 e he
  | takes event queue hthread hqueue hdue => exact attentive_of_awake (by simp) (by simp)
  | drops event handlers hthread hfewer => exact attentive_of_awake (by simp) (by simp)
  | finds handler event hthread hmem => exact attentive_of_awake (by simp) (by simp)
  | receives handler event hthread => exact attentive_of_awake (by simp) (by simp)
  | wakes hthread => exact attentive_of_awake (by simp) (by simp)

/-! ### Handlers -/

/-- The ids are numbered, and what is listed, posted or called has been registered. -/
structure Known (s : State M) : Prop where
  next : s.nextHandlerID = counted 1 s.registered.length
  numbered : Numbered 1 (s.registered.map Prod.fst)
  listed : ∀ q ∈ s.handlers, q ∈ s.registered
  targets : ∀ e ∈ s.posted, ∃ handler, (e.target, handler) ∈ s.registered
  called : ∀ handler event, s.thread = .calling handler event →
    (event.target, handler) ∈ s.registered
  received : ∀ q ∈ s.received, (q.2.target, q.1) ∈ s.registered

theorem known_start : Known (start : State M) :=
  ⟨by simp [start, counted], numbered_nil, by simp [start], by simp [start], by simp [start],
    by simp [start]⟩

theorem moves_known {s s' : State M} (h : Known s) (hmoves : Moves s s') : Known s' := by
  obtain ⟨hnext, hnumbered, hlisted, htargets, hcalled, hreceived⟩ := h
  cases hmoves with
  | clock us => exact ⟨hnext, hnumbered, hlisted, htargets, hcalled, hreceived⟩
  | registered handler =>
    refine ⟨?_, ?_, fun q hq => ?_, fun e he => ?_, fun h e hthread => ?_, fun q hq => ?_⟩
    · rw [hnext, countUp_counted, List.length_append, List.length_singleton]
    · rw [List.map_append, List.map_singleton, hnext]
      simpa using hnumbered.concat
    · rcases List.mem_append.mp hq with hq | hq
      · exact List.mem_append_left _ (hlisted q (List.mem_of_mem_filter hq))
      · exact List.mem_append_right _ hq
    · obtain ⟨old, hold⟩ := htargets e he
      exact ⟨old, List.mem_append_left _ hold⟩
    · exact List.mem_append_left _ (hcalled h e hthread)
    · exact List.mem_append_left _ (hreceived q hq)
  | roster handlers idOf gone hfewer =>
    exact ⟨hnext, hnumbered, fun q hq => hlisted q (hfewer q hq), htargets, hcalled, hreceived⟩
  | posted target handler message delayUs thread hmem hthread =>
    refine ⟨hnext, hnumbered, hlisted, fun e he => ?_, fun h e hcalling => ?_, hreceived⟩
    · rcases List.mem_append.mp he with he | he
      · exact htargets e he
      · obtain rfl := List.mem_singleton.mp he
        exact ⟨handler, hlisted _ hmem⟩
    · rcases hthread with ⟨rfl, -⟩ | ⟨rfl, -⟩
      · exact hcalled h e hcalling
      · cases hcalling
  | idles hthread hqueue => exact ⟨hnext, hnumbered, hlisted, htargets, by simp, hreceived⟩
  | sleeps event queue hthread hqueue =>
    exact ⟨hnext, hnumbered, hlisted, htargets, by simp, hreceived⟩
  | takes event queue hthread hqueue hdue =>
    exact ⟨hnext, hnumbered, hlisted, htargets, by simp, hreceived⟩
  | drops event handlers hthread hfewer =>
    exact ⟨hnext, hnumbered, fun q hq => hlisted q (hfewer q hq), htargets, by simp, hreceived⟩
  | finds handler event hthread hmem =>
    refine ⟨hnext, hnumbered, hlisted, htargets, fun h e hcalling => ?_, hreceived⟩
    cases hcalling
    exact hlisted _ hmem
  | receives handler event hthread =>
    refine ⟨hnext, hnumbered, hlisted, htargets, by simp, fun q hq => ?_⟩
    rcases List.mem_append.mp hq with hq | hq
    · exact hreceived q hq
    · obtain rfl := List.mem_singleton.mp hq
      exact hcalled handler event hthread
  | wakes hthread => exact ⟨hnext, hnumbered, hlisted, htargets, by simp, hreceived⟩

/-- With fewer than 2^31 - 1 registrations an id stands for one handler for good. -/
theorem Known.single {s : State M} (h : Known s) (hfew : s.registered.length < 2147483647) :
    (s.registered.map Prod.fst).Nodup :=
  h.numbered.nodup (by rw [List.length_map]; omega)

theorem Known.fresh {s : State M} (h : Known s) (hfew : s.registered.length < 2147483647) :
    s.nextHandlerID ∉ s.registered.map Prod.fst := by
  have hnew := h.numbered.fresh (by rw [List.length_map]; omega)
  rwa [List.length_map, ← h.next] at hnew

theorem moves_registered {s s' : State M} (hmoves : Moves s s') :
    s.registered.length ≤ s'.registered.length := by
  cases hmoves with
  | registered handler => simp
  | _ => exact Nat.le_refl _

/-- All of it. -/
structure Sound (s : State M) : Prop where
  ordered : InOrder s
  attentive : Attentive s
  known : Known s

theorem sound_of_run {as : List (Action M)} {s : State M} (hrun : run step start as = some s) :
    Sound s := by
  refine run_preserves (P := Sound) (fun s a s' h hstep => ?_) hrun
    ⟨inOrder_start, attentive_of_awake (by simp [start]) (by simp [start]), known_start⟩
  have hmoves := step_moves hstep
  exact ⟨moves_inOrder h.ordered hmoves, moves_attentive h.ordered h.attentive hmoves,
    moves_known h.known hmoves⟩

/-! ### Runs -/

/-- In every run the messages taken from the queue and those left in it are the posted ones, none
    lost and none doubled. No message overtakes one that was posted before it and is due no later,
    none is taken before it is due, and a handler gets each at most once. -/
theorem delivery_in_order {as : List (Action M)} {s : State M}
    (hrun : run step start as = some s) :
    (s.taken.map Prod.fst ++ s.queue).Perm s.posted ∧
      (∀ a b, [a, b].Sublist s.posted → a.whenUs ≤ b.whenUs →
        [a, b].Sublist (s.taken.map Prod.fst ++ s.queue)) ∧
      (s.received.map Prod.snd).Sublist (s.taken.map Prod.fst) ∧
      ∀ q ∈ s.taken, q.1.whenUs ≤ q.2 := by
  obtain ⟨harranged, hpast, honce⟩ := (sound_of_run hrun).ordered
  exact ⟨harranged.perm, fun a b hposted hle => harranged.keeps_order hposted hle,
    (List.sublist_append_left _ _).trans honce, fun q hq => (hpast q hq).1⟩

/-- The handler is number 7, and 1 is its id. The second message is due first. -/
def twoMessages : List (Action String) :=
  [.register 7, .post 1 "play" 20, .post 1 "setup" 0, .loop, .deliver, .receive, .loop, .pass 20,
    .wake, .loop, .deliver, .receive]

theorem delivery_in_order_two : ∃ s, run step start twoMessages = some s ∧
    s.received.map (fun q => (q.1, q.2.message)) = [(7, "setup"), (7, "play")] ∧
    (s.taken.map Prod.fst ++ s.queue).Perm s.posted := by
  obtain ⟨s, hrun, hreceived⟩ : ∃ s, run step start twoMessages = some s ∧
      s.received.map (fun q => (q.1, q.2.message)) = [(7, "setup"), (7, "play")] :=
    ⟨_, rfl, rfl⟩
  exact ⟨s, hrun, hreceived, (delivery_in_order hrun).1⟩

/-- In every run the thread waits without a time only while nothing is queued, and otherwise not
    longer than until the first message is due: no post is slept over. -/
theorem no_lost_wakeup {as : List (Action M)} {s : State M}
    (hrun : run step start as = some s) :
    (s.thread = .waiting → s.queue = []) ∧
      ∀ t, s.thread = .sleeping t → ∀ e ∈ s.queue, t ≤ e.whenUs :=
  ⟨(sound_of_run hrun).attentive.waiting, (sound_of_run hrun).attentive.sleeping⟩

/-- The thread sleeps for the message of 20, and one of 5 comes in. -/
theorem no_lost_wakeup_two : ∃ s, run step start
      ([.register 7, .post 1 "play" 20, .loop, .post 1 "setup" 5, .loop] : List (Action String)) =
        some s ∧ s.thread = .sleeping 5 ∧ ∀ e ∈ s.queue, 5 ≤ e.whenUs := by
  obtain ⟨s, hrun, hthread⟩ : ∃ s, run step start
      ([.register 7, .post 1 "play" 20, .loop, .post 1 "setup" 5, .loop] : List (Action String)) =
        some s ∧ s.thread = .sleeping 5 := ⟨_, rfl, rfl⟩
  exact ⟨s, hrun, hthread, (no_lost_wakeup hrun).2 5 hthread⟩

/-! ### After `unregisterHandler` -/

/-- The handler that is being called, with its event. -/
def inCall (s : State M) : List (Nat × Event M) :=
  match s.thread with
  | .calling handler event => [(handler, event)]
  | _ => []

/-- The calls of a handler, to the last that has begun. -/
def callsOf (id : Int) (s : State M) : List (Nat × Event M) :=
  (s.received ++ inCall s).filter fun q => q.2.target = id

/-- The id is used up. -/
structure Retired (id : Int) (s : State M) : Prop where
  used : id ∈ s.registered.map Prod.fst
  unlisted : ∀ q ∈ s.handlers, q.1 ≠ id

theorem moves_retired {id : Int} {s s' : State M} (hknown : Known s) (h : Retired id s)
    (hmoves : Moves s s') (hfew : s'.registered.length < 2147483647) :
    Retired id s' ∧ callsOf id s' = callsOf id s := by
  obtain ⟨hused, hunlisted⟩ := h
  cases hmoves with
  | clock us => exact ⟨⟨hused, hunlisted⟩, rfl⟩
  | registered handler =>
    have hnew := hknown.fresh (by simp at hfew; omega)
    refine ⟨⟨?_, fun q hq => ?_⟩, rfl⟩
    · rw [List.map_append]
      exact List.mem_append_left _ hused
    · rcases List.mem_append.mp hq with hq | hq
      · exact hunlisted q (List.mem_of_mem_filter hq)
      · obtain rfl := List.mem_singleton.mp hq
        rintro rfl
        exact hnew hused
  | roster handlers idOf gone hfewer =>
    exact ⟨⟨hused, fun q hq => hunlisted q (hfewer q hq)⟩, rfl⟩
  | posted target handler message delayUs thread hmem hthread =>
    refine ⟨⟨hused, hunlisted⟩, ?_⟩
    rcases hthread with ⟨rfl, -⟩ | ⟨rfl, hthread | ⟨t, hthread⟩⟩
    · rfl
    · simp [callsOf, inCall, hthread]
    · simp [callsOf, inCall, hthread]
  | idles hthread hqueue => exact ⟨⟨hused, hunlisted⟩, by simp [callsOf, inCall, hthread]⟩
  | sleeps event queue hthread hqueue =>
    exact ⟨⟨hused, hunlisted⟩, by simp [callsOf, inCall, hthread]⟩
  | takes event queue hthread hqueue hdue =>
    exact ⟨⟨hused, hunlisted⟩, by simp [callsOf, inCall, hthread]⟩
  | drops event handlers hthread hfewer =>
    exact ⟨⟨hused, fun q hq => hunlisted q (hfewer q hq)⟩, by simp [callsOf, inCall, hthread]⟩
  | finds handler event hthread hmem =>
    have hother : event.target ≠ id := hunlisted _ hmem
    exact ⟨⟨hused, hunlisted⟩, by simp [callsOf, inCall, hthread, hother]⟩
  | receives handler event hthread =>
    exact ⟨⟨hused, hunlisted⟩, by simp [callsOf, inCall, hthread]⟩
  | wakes hthread =>
    refine ⟨⟨hused, hunlisted⟩, ?_⟩
    rcases hthread with hthread | ⟨t, hthread⟩ <;> simp [callsOf, inCall, hthread]

theorem unregisterHandler_unlisted (s : State M) (id : Int) :
    ∀ q ∈ (unregisterHandler s id).handlers, q.1 ≠ id := by
  rw [unregisterHandler]
  split
  case h_1 hnone =>
    intro q hq
    simpa using List.find?_eq_none.mp (Option.map_eq_none_iff.mp hnone) q hq
  case h_2 handler hsome => split <;> simp [unlist]

/-- What is unregistered stays so: whatever happens afterwards, and whatever is queued for it, the
    id gets no further message, also not a handler that is registered later, unless the ids have
    come round. Only a call that has begun is finished. Before, each message went to the handler that
    had the id. -/
theorem unregistered_for_good {as bs : List (Action M)} {s s' : State M} {id : Int} {handler : Nat}
    (hrun : run step start as = some s) (hregistered : (id, handler) ∈ s.registered)
    (hrest : run step (unregisterHandler s id) bs = some s')
    (hfew : s'.registered.length < 2147483647) :
    callsOf id s' = callsOf id s ∧ ∀ q ∈ s'.received, q.2.target = id → q.1 = handler := by
  have hsound := sound_of_run hrun
  have hunregister := unregisterHandler_moves s id
  have hcalls : callsOf id (unregisterHandler s id) = callsOf id s := by
    rw [unregisterHandler]
    split
    · rfl
    · split <;> rfl
  have hretired : Retired id (unregisterHandler s id) := by
    refine ⟨?_, unregisterHandler_unlisted s id⟩
    have hused := List.mem_map_of_mem (f := Prod.fst) hregistered
    rw [unregisterHandler]
    split
    · exact hused
    · split <;> exact hused
  have hstays := run_preserves
    (P := fun t : State M => Known t ∧ s.registered.length ≤ t.registered.length ∧
      (t.registered.length < 2147483647 →
        Retired id t ∧ callsOf id t = callsOf id (unregisterHandler s id)))
    (fun t a t' h hstep => by
      obtain ⟨hknown, hmore, hcalls⟩ := h
      have hmoves := step_moves hstep
      have hgrows := moves_registered hmoves
      refine ⟨moves_known hknown hmoves, hmore.trans hgrows, fun hfew => ?_⟩
      obtain ⟨hretired, hsame⟩ := hcalls (by omega)
      obtain ⟨hretired', hsame'⟩ := moves_retired hknown hretired hmoves hfew
      exact ⟨hretired', hsame'.trans hsame⟩) hrest
    ⟨moves_known hsound.known hunregister, moves_registered hunregister, fun _ => ⟨hretired, rfl⟩⟩
  obtain ⟨-, hmore, hcalls'⟩ := hstays
  obtain ⟨-, hsame⟩ := hcalls' hfew
  refine ⟨hsame.trans hcalls, fun q hq htarget => ?_⟩
  have hq' : q ∈ callsOf id s := by
    rw [← hcalls, ← hsame, callsOf]
    exact List.mem_filter.mpr ⟨List.mem_append_left _ hq, by simpa using htarget⟩
  have hcall : (id, q.1) ∈ s.registered := by
    obtain ⟨hmem, -⟩ := List.mem_filter.mp hq'
    rcases List.mem_append.mp hmem with hmem | hmem
    · exact htarget ▸ hsound.known.received q hmem
    · rw [inCall] at hmem
      split at hmem
      · next h e hthread =>
        obtain rfl := List.mem_singleton.mp hmem
        exact htarget ▸ hsound.known.called h e hthread
      · cases hmem
  have hsingle := hsound.known.single (hmore.trans_lt hfew)
  exact (Prod.ext_iff.mp (List.inj_on_of_nodup_map hsingle hcall hregistered rfl)).2

/-- Two messages are queued for number 7, which gives up its id. Then it is registered again. -/
theorem unregistered_for_good_twice : ∃ s s', run step start
      ([.register 7, .post 1 "data" 0, .post 1 "data" 0, .loop, .deliver] : List (Action String)) =
        some s ∧
    run step (unregisterHandler s 1)
      ([.register 7, .receive, .loop, .deliver, .post 2 "setup" 0, .loop, .deliver, .receive] :
        List (Action String)) = some s' ∧
    s'.received.map (fun q => q.2.target) = [1, 2] ∧ callsOf 1 s' = callsOf 1 s := by
  obtain ⟨s, s', hrun, hrest, hreceived, hregistered, htwo⟩ : ∃ s s', run step start
        ([.register 7, .post 1 "data" 0, .post 1 "data" 0, .loop, .deliver] :
          List (Action String)) = some s ∧
      run step (unregisterHandler s 1)
        ([.register 7, .receive, .loop, .deliver, .post 2 "setup" 0, .loop, .deliver, .receive] :
          List (Action String)) = some s' ∧
      s'.received.map (fun q => q.2.target) = [1, 2] ∧ (1, 7) ∈ s.registered ∧
      s'.registered.length = 2 :=
    ⟨_, _, rfl, rfl, rfl, by decide, rfl⟩
  exact ⟨s, s', hrun, hrest, hreceived,
    (unregistered_for_good hrun hregistered hrest (by rw [htwo]; decide)).1⟩

end Streambox.WifiDisplay.Looper
