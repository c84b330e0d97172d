import Streambox.Lib.Run
import Streambox.WifiDisplay.TunnelRenderer

/-! wifi-display, TunnelRenderer: when a missing number is given up.

    A call that finds the wrong packet at the head takes the time, the next ones ask for the missing
    packet (once) and wait, and after 50 ms the number is given up. The time is the same variable
    that a call on an empty queue sets, and it is the second call at a gap that asks:

        call        empty    gap       gap                          drop
        mFirstFailedAttemptUs ───────── asks ──────── 50 ms ────────┘
                             └─ the gap is seen here

    A `Watch` follows a renderer through a run: when the gap was first seen, and what was asked for
    since. -/

namespace Streambox.WifiDisplay.LossConcealment
open Streambox.Lib TunnelRenderer

/-! ### Runs -/

/-- A renderer, the time of the first call that has seen the gap at its head, and the requests since
    then. -/
structure Watch where
  renderer : Renderer
  since : Option Nat
  posted : List Int
  deriving DecidableEq, Repr

/-- The calls; `GetNowUs` is not negative. -/
inductive Event where
  | queue (buffer : Packet)
  | dequeue (now : Nat)

/-- The next number is missing, and a packet beyond it is at the head. -/
def gap (r : Renderer) : Bool :=
  ((skipReturned r.lastDequeuedExtSeqNo r.packets).2.head?).any fun p =>
    decide (0 ≤ r.lastDequeuedExtSeqNo ∧ p.extSeqNo ≠ r.lastDequeuedExtSeqNo + 1)

/-- What a call returns ends the gap; else a call that sees one notes its time, if it is the first.
    -/
def Watch.dequeue (w : Watch) (now : Nat) : Watch where
  renderer := (dequeueBuffer w.renderer now).1
  since :=
    if (dequeueBuffer w.renderer now).2.buffer.isSome then none
    else if gap w.renderer then some (w.since.getD now)
    else w.since
  posted :=
    if (dequeueBuffer w.renderer now).2.buffer.isSome then []
    else w.posted ++ (dequeueBuffer w.renderer now).2.lost.toList

def step (w : Watch) : Event → Option Watch
  | .queue buffer => some { w with renderer := queueBuffer w.renderer buffer }
  | .dequeue now => some (w.dequeue now)

def start : Watch := ⟨initial, none, []⟩

/-- A call that gives a number up has waited for 50 ms since the gap was seen, and the number was
    asked for; and no number is asked for twice. -/
structure Concealed (w : Watch) (now : Nat) : Prop where
  waited : ∀ p, (dequeueBuffer w.renderer now).2.buffer = some p → gap w.renderer = true →
    w.since.getD now + 50000 ≤ now
  asked : ∀ p, (dequeueBuffer w.renderer now).2.buffer = some p → gap w.renderer = true →
    (w.renderer.lastDequeuedExtSeqNo + 1) % 65536 ∈ w.posted
  once : (w.posted ++ (dequeueBuffer w.renderer now).2.lost.toList).length ≤ 1

/-- The time of a call at a gap: the call that sees the gap first comes before the time that an
    empty queue has left is 50 ms old, as does the next one, which asks; later ones come that soon,
    or 50 ms after the first. -/
def Timely (w : Watch) (now : Nat) : Prop :=
  gap w.renderer = true →
    if w.renderer.requestedRetransmission then
      (now : Int) < w.renderer.firstFailedAttemptUs + 50000 ∨ w.since.getD now + 50000 ≤ now
    else
      (w.since = none ∧ w.renderer.firstFailedAttemptUs < 0) ∨
        (now : Int) < w.renderer.firstFailedAttemptUs + 50000

def ConcealedAt (w : Watch) : Event → Prop
  | .queue _ => True
  | .dequeue now => Concealed w now

def TimelyAt (w : Watch) : Event → Prop
  | .queue _ => True
  | .dequeue now => Timely w now

/-! ### What a call does -/

/-- The exits of dequeueBuffer, with what has brought them about. -/
inductive Outcome (r : Renderer) (now : Nat) : Renderer × Dequeued → Prop
  | emptyFirst (hgap : gap r = false) (htime : r.firstFailedAttemptUs < 0) (old : List Packet) :
      Outcome r now (⟨[], r.lastDequeuedExtSeqNo, now, false, false⟩, ⟨old, none, none⟩)
  | emptyAgain (hgap : gap r = false) (htime : 0 ≤ r.firstFailedAttemptUs) (old : List Packet) :
      Outcome r now ({ r with packets := [] }, ⟨old, none, none⟩)
  | next (hgap : gap r = false) (p : Packet) (rest old : List Packet) :
      Outcome r now (returnBuffer p rest, ⟨old, none, some p⟩)
  | first (hgap : gap r = true) (htime : r.firstFailedAttemptUs < 0) (ps old : List Packet) :
      Outcome r now ({ r with packets := ps, firstFailedAttemptUs := now }, ⟨old, none, none⟩)
  | waits (hgap : gap r = true) (htime : 0 ≤ r.firstFailedAttemptUs)
      (hsoon : (now : Int) < r.firstFailedAttemptUs + 50000)
      (hasked : r.requestedRetransmission = true) (ps old : List Packet) :
      Outcome r now ({ r with packets := ps }, ⟨old, none, none⟩)
  | asks (hgap : gap r = true) (htime : 0 ≤ r.firstFailedAttemptUs)
      (hsoon : (now : Int) < r.firstFailedAttemptUs + 50000)
      (hasked : r.requestedRetransmission = false) (ps old : List Packet) :
      Outcome r now
        ({ r with packets := ps, requestedRetry := true, requestedRetransmission := true },
          ⟨old, some ((r.lastDequeuedExtSeqNo + 1) % 65536), none⟩)
  | drops (hgap : gap r = true) (htime : 0 ≤ r.firstFailedAttemptUs)
      (hlate : r.firstFailedAttemptUs + 50000 ≤ now) (p : Packet) (rest old : List Packet) :
      Outcome r now (returnBuffer p rest, ⟨old, none, some p⟩)

theorem gap_cons {r : Renderer} {p : Packet} {rest : List Packet}
    (h : (skipReturned r.lastDequeuedExtSeqNo r.packets).2 = p :: rest) :
    gap r = decide (0 ≤ r.lastDequeuedExtSeqNo ∧ p.extSeqNo ≠ r.lastDequeuedExtSeqNo + 1) := by
  rw [gap, h, List.head?_cons, Option.any_some]

theorem dequeueBuffer_outcome (r : Renderer) (now : Nat) :
    Outcome r now (dequeueBuffer r now) := by
  rw [dequeueBuffer]
  cases hleft : (skipReturned r.lastDequeuedExtSeqNo r.packets).2 with
  | nil =>
    have hgap : gap r = false := by rw [gap, hleft]; rfl
    dsimp only
    split
    · next htime => exact .emptyFirst hgap htime _
    · next htime => exact .emptyAgain hgap (by omega) _
  | cons p rest =>
    have hgap := gap_cons hleft
    dsimp only
    split
    · next hnext => exact .next (hgap.trans (decide_eq_false (by omega))) p rest _
    · next hbeyond =>
      have hgap : gap r = true := hgap.trans (decide_eq_true (by omega))
      split
      · next htime => exact .first hgap htime _ _
      · next htime =>
        split
        · next hsoon =>
          split
          · next hasked => exact .waits hgap (by omega) (by omega) hasked _ _
          · next hasked =>
            exact .asks hgap (by omega) (by omega) (Bool.eq_false_iff.mpr hasked) _ _
        · next hlate => exact .drops hgap (by omega) (by omega) p rest _

/-! ### What holds in any run -/

/-- Without a gap nothing was asked for; since one was seen, the flag says whether its number was.
    -/
structure Watched (w : Watch) : Prop where
  idle : w.since = none → w.posted = [] ∧ w.renderer.requestedRetransmission = false
  seen : w.since ≠ none → 0 ≤ w.renderer.firstFailedAttemptUs ∧
    w.posted = if w.renderer.requestedRetransmission then
      [(w.renderer.lastDequeuedExtSeqNo + 1) % 65536] else []

theorem start_watched : Watched start :=
  ⟨fun _ => ⟨rfl, rfl⟩, fun h => absurd rfl h⟩

theorem returned_watched {w : Watch} {now : Nat} {p : Packet} {rest old : List Packet}
    (h : dequeueBuffer w.renderer now = (returnBuffer p rest, ⟨old, none, some p⟩)) :
    Watched (w.dequeue now) := by
  rw [Watch.dequeue, h]
  exact ⟨fun _ => ⟨rfl, rfl⟩, fun hseen => absurd rfl hseen⟩

/-- Nothing is asked for before the flag says so. -/
theorem Watched.posted_nil {w : Watch} (hw : Watched w)
    (h : w.renderer.requestedRetransmission = false) : w.posted = [] := by
  by_cases hsince : w.since = none
  · exact (hw.idle hsince).1
  · have hposted := (hw.seen hsince).2
    rwa [h] at hposted

theorem dequeue_watched {w : Watch} (hw : Watched w) (now : Nat) : Watched (w.dequeue now) := by
  have houtcome := dequeueBuffer_outcome w.renderer now
  generalize hresult : dequeueBuffer w.renderer now = result at houtcome
  cases houtcome with
  | emptyFirst hgap htime old =>
    rw [Watch.dequeue, hresult, hgap]
    refine ⟨fun hidle => ⟨?_, rfl⟩, fun hseen => ?_⟩
    · exact (List.append_nil _).trans (hw.idle hidle).1
    · exact absurd (hw.seen hseen).1 (by omega)
  | emptyAgain hgap htime old =>
    rw [Watch.dequeue, hresult, hgap]
    refine ⟨fun hidle => ?_, fun hseen => ?_⟩
    · exact ⟨(List.append_nil _).trans (hw.idle hidle).1, (hw.idle hidle).2⟩
    · exact ⟨htime, (List.append_nil _).trans (hw.seen hseen).2⟩
  | next hgap p rest old => exact returned_watched hresult
  | first hgap htime ps old =>
    have hnone : w.since = none := by
      by_contra hseen
      exact absurd (hw.seen hseen).1 (by omega)
    obtain ⟨hposted, hasked⟩ := hw.idle hnone
    rw [Watch.dequeue, hresult, hgap]
    refine ⟨fun hidle => absurd hidle (Option.some_ne_none _), fun _ =>
      ⟨Int.natCast_nonneg now, ?_⟩⟩
    have hnil : w.posted ++ [] = [] := (List.append_nil _).trans hposted
    simpa [hasked] using hnil
  | waits hgap htime hsoon hasked ps old =>
    have hseen : w.since ≠ none := by
      intro hnone
      rw [(hw.idle hnone).2] at hasked
      cases hasked
    rw [Watch.dequeue, hresult, hgap]
    refine ⟨fun hidle => absurd hidle (Option.some_ne_none _), fun _ => ⟨htime, ?_⟩⟩
    exact (List.append_nil _).trans (hw.seen hseen).2
  | asks hgap htime hsoon hasked ps old =>
    rw [Watch.dequeue, hresult, hgap, hw.posted_nil hasked]
    exact ⟨fun hidle => absurd hidle (Option.some_ne_none _), fun _ => ⟨htime, rfl⟩⟩
  | drops hgap htime hlate p rest old => exact returned_watched hresult

theorem step_watched {w w' : Watch} {e : Event} (hw : Watched w) (h : step w e = some w') :
    Watched w' := by
  cases e with
  | queue buffer =>
    cases h
    exact ⟨hw.idle, hw.seen⟩
  | dequeue now =>
    cases h
    exact dequeue_watched hw now

/-! ### When a number is given up -/

/-- At most one request, whatever the calls are. -/
theorem once {w : Watch} (hw : Watched w) (now : Nat) :
    (w.posted ++ (dequeueBuffer w.renderer now).2.lost.toList).length ≤ 1 := by
  have hposted : w.posted.length ≤ 1 := by
    by_cases hsince : w.since = none
    · rw [(hw.idle hsince).1]
      exact Nat.zero_le 1
    · rw [(hw.seen hsince).2]
      split
      · exact Nat.le_refl 1
      · exact Nat.zero_le 1
  have houtcome := dequeueBuffer_outcome w.renderer now
  generalize dequeueBuffer w.renderer now = result at houtcome
  cases houtcome with
  | asks hgap htime hsoon hasked ps old =>
    rw [hw.posted_nil hasked]
    exact Nat.le_refl 1
  | _ => simpa using hposted

theorem no_gap_iff {w : Watch} {result : Renderer × Dequeued} {P : Packet → Prop} {Q : Prop}
    (h : gap w.renderer = false) :
    (∀ p, result.2.buffer = some p → gap w.renderer = true → P p) ↔
      (gap w.renderer = true → Q) := by
  rw [h]
  exact iff_of_true (fun _ _ hgap => absurd hgap Bool.false_ne_true)
    fun hgap => absurd hgap Bool.false_ne_true

/-- A call conceals a loss as it should exactly when it is in time. -/
theorem concealed_iff_timely {w : Watch} (hw : Watched w) (now : Nat) :
    Concealed w now ↔ Timely w now := by
  have honce := once hw now
  have houtcome := dequeueBuffer_outcome w.renderer now
  have hconcealed : Concealed w now ↔
      (∀ p, (dequeueBuffer w.renderer now).2.buffer = some p → gap w.renderer = true →
        w.since.getD now + 50000 ≤ now ∧
        (w.renderer.lastDequeuedExtSeqNo + 1) % 65536 ∈ w.posted) := by
    constructor
    · intro h p hp hgap
      exact ⟨h.waited p hp hgap, h.asked p hp hgap⟩
    · intro h
      exact ⟨fun p hp hgap => (h p hp hgap).1, fun p hp hgap => (h p hp hgap).2, honce⟩
  rw [hconcealed, Timely]
  generalize dequeueBuffer w.renderer now = result at houtcome
  cases houtcome with
  | emptyFirst hgap => exact no_gap_iff hgap
  | emptyAgain hgap => exact no_gap_iff hgap
  | next hgap => exact no_gap_iff hgap
  | first hgap htime =>
    have hnone : w.since = none := by
      by_contra hseen
      exact absurd (hw.seen hseen).1 (by omega)
    refine iff_of_true (fun p hp => by cases hp) fun _ => ?_
    rw [(hw.idle hnone).2]
    exact .inl ⟨hnone, htime⟩
  | waits hgap htime hsoon hasked =>
    refine iff_of_true (fun p hp => by cases hp) fun _ => ?_
    rw [hasked]
    exact .inl hsoon
  | asks hgap htime hsoon hasked =>
    refine iff_of_true (fun p hp => by cases hp) fun _ => ?_
    rw [hasked]
    exact .inr hsoon
  | drops hgap htime hlate p =>
    constructor
    · intro h _
      obtain ⟨hwaited, hmem⟩ := h p rfl hgap
      split
      · exact .inr hwaited
      · next hasked =>
        rw [hw.posted_nil (Bool.eq_false_iff.mpr hasked)] at hmem
        exact absurd hmem List.not_mem_nil
    · intro h q _ _
      have hintime := h hgap
      split at hintime
      · next hasked =>
        have hseen : w.since ≠ none := by
          intro hnone
          rw [(hw.idle hnone).2] at hasked
          cases hasked
        have hposted := (hw.seen hseen).2
        rw [if_pos hasked] at hposted
        refine ⟨by omega, ?_⟩
        rw [hposted]
        exact List.mem_singleton.mpr rfl
      · omega

/-- In every run, losses are concealed as they should be exactly when the calls are in time. -/
theorem run_concealed_iff_timely (events : List Event) :
    Along step ConcealedAt start events ↔ Along step TimelyAt start events := by
  have hcall : ∀ w e, Watched w → (ConcealedAt w e ↔ TimelyAt w e) := by
    intro w e hw
    cases e with
    | queue => exact Iff.rfl
    | dequeue now => exact concealed_iff_timely hw now
  exact along_congr (fun _ _ _ => step_watched) hcall start_watched

/-- A packet is returned, and a call finds the queue empty; then 101 is lost. -/
def emptied : List Event :=
  [.queue ⟨100, 100⟩, .dequeue 0, .dequeue 10, .queue ⟨102, 102⟩]

/-- The next call comes a minute later: 101 is given up at once. -/
theorem stale_time_drops :
    ¬ Along step ConcealedAt start (emptied ++ [.dequeue 60000010]) := by
  intro h
  have hlast := Along.at_reached h rfl
  have hwaited := hlast.waited ⟨102, 102⟩ (by decide) (by decide)
  exact absurd hwaited (by decide)

end Streambox.WifiDisplay.LossConcealment
