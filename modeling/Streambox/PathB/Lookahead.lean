import Mathlib.Data.List.Range

/-! A converter with one frame of lookahead, without buffers and slots.

    Frames are numbered as they are captured. At most one frame is in flight; a call either returns
    the frame in flight and puts the one just captured in its place, or primes the converter:
    return a frame at once and put the following one in flight. A call may also drop frames. What
    the converter owes its reader is the order: the frames returned are strictly increasing, and
    without failures none is missing.

        nothing in flight ──prime──▶ n+1 in flight ──ahead──▶ n+2 in flight ──▶ …
              ▲                          │ drop / exit
              └──────────────────────────┘ -/

namespace Streambox.PathB.Lookahead

/-- What the reader of the converter sees. `failed` and `cut` record that a call has lost a frame,
    or has returned without looking ahead; `offline` that the capture has been stopped. -/
structure View where
  frames : Nat
  inFlight : Option Nat
  delivered : List Nat
  failed : Bool
  cut : Bool
  offline : Bool
  deriving DecidableEq, Repr

def View.deliver (v : View) (f : Nat) : View := { v with delivered := v.delivered ++ [f] }

/-- One call; the flag says whether it returns a frame. -/
inductive Move : View → Bool → View → Prop
  | rest (v : View) : Move v false v
  | exit (v : View) : Move v false { v with inFlight := none, cut := true, offline := true }
  | drop (v : View) (hon : v.offline = false) :
      Move v false { v with frames := v.frames + 1, inFlight := none, failed := true }
  | single (v : View) (hon : v.offline = false) (hnone : v.inFlight = none) :
      Move v true ({ v with frames := v.frames + 1, cut := true }.deliver v.frames)
  | primeDrop (v : View) (hon : v.offline = false) (hnone : v.inFlight = none) :
      Move v true ({ v with frames := v.frames + 2, failed := true }.deliver v.frames)
  | prime (v : View) (hon : v.offline = false) (hnone : v.inFlight = none) :
      Move v true
        ({ v with frames := v.frames + 2, inFlight := some (v.frames + 1) }.deliver v.frames)
  | ahead (v : View) (m : Nat) (hon : v.offline = false) (hsome : v.inFlight = some m) :
      Move v true ({ v with frames := v.frames + 1, inFlight := some v.frames }.deliver m)
  | aheadDrop (v : View) (m : Nat) (hon : v.offline = false) (hsome : v.inFlight = some m) :
      Move v true
        ({ v with frames := v.frames + 1, inFlight := none, failed := true }.deliver m)

def start : View := ⟨0, none, [], false, false, false⟩

/-- Every frame returned so far lies before the next one to be returned. -/
structure Ordered (v : View) : Prop where
  increasing : v.delivered.Pairwise (· < ·)
  captured : ∀ f ∈ v.delivered, f < v.frames
  behind : ∀ m, v.inFlight = some m → m < v.frames ∧ ∀ f ∈ v.delivered, f < m

/-- Without failures nothing is missing, and the frame in flight is the next one. -/
structure Complete (v : View) : Prop where
  all : v.delivered = List.range v.delivered.length
  next : ∀ m, v.inFlight = some m → m = v.delivered.length ∧ v.frames = m + 1
  none : v.inFlight = none → v.offline = false → v.frames = v.delivered.length
  online : v.cut = false → v.offline = false
  looking : v.cut = false → v.delivered ≠ [] → v.inFlight.isSome

theorem pairwise_concat {l : List Nat} {f : Nat} (hl : l.Pairwise (· < ·)) (hf : ∀ x ∈ l, x < f) :
    (l ++ [f]).Pairwise (· < ·) := by
  refine List.pairwise_append.mpr ⟨hl, List.pairwise_singleton _ _, fun x hx y hy => ?_⟩
  rw [List.mem_singleton] at hy
  exact hy ▸ hf x hx

theorem lt_of_mem_concat {l : List Nat} {f n : Nat} (hl : ∀ x ∈ l, x < n) (hf : f < n) :
    ∀ x ∈ l ++ [f], x < n := by
  intro x hx
  rcases List.mem_append.mp hx with hx | hx
  · exact hl x hx
  · exact List.mem_singleton.mp hx ▸ hf

/-- Returning the frame just captured keeps the order, if nothing is in flight. -/
theorem Ordered.deliver_new {v : View} (h : Ordered v) {k : Nat} (hk : v.frames < k) (c x : Bool) :
    Ordered ({ v with frames := k, inFlight := none, cut := c, failed := x }.deliver v.frames) where
  increasing := pairwise_concat h.increasing h.captured
  captured := lt_of_mem_concat (fun f hf => (h.captured f hf).trans hk) hk
  behind := nofun

theorem Ordered.step {v w : View} {d : Bool} (h : Ordered v) (hm : Move v d w) : Ordered w := by
  cases hm with
  | rest => exact h
  | exit => exact ⟨h.increasing, h.captured, nofun⟩
  | drop => exact ⟨h.increasing, fun f hf => Nat.lt_succ_of_lt (h.captured f hf), nofun⟩
  | single _ hnone =>
    have := h.deliver_new (k := v.frames + 1) (by omega) true v.failed
    rwa [← hnone] at this
  | primeDrop _ hnone =>
    have := h.deliver_new (k := v.frames + 2) (by omega) v.cut true
    rwa [← hnone] at this
  | prime =>
    have hnew := h.deliver_new (k := v.frames + 1) (by omega) v.cut v.failed
    refine ⟨hnew.increasing, fun f hf => Nat.lt_succ_of_lt (hnew.captured f hf), ?_⟩
    rintro m ⟨⟩
    exact ⟨Nat.lt_succ_self _, hnew.captured⟩
  | ahead m _ hsome =>
    obtain ⟨hlt, hbehind⟩ := h.behind m hsome
    have hall := lt_of_mem_concat h.captured hlt
    refine ⟨pairwise_concat h.increasing hbehind, fun f hf => Nat.lt_succ_of_lt (hall f hf), ?_⟩
    rintro _ ⟨⟩
    exact ⟨Nat.lt_succ_self _, hall⟩
  | aheadDrop m _ hsome =>
    obtain ⟨hlt, hbehind⟩ := h.behind m hsome
    have hall := lt_of_mem_concat h.captured hlt
    exact ⟨pairwise_concat h.increasing hbehind, fun f hf => Nat.lt_succ_of_lt (hall f hf), nofun⟩

/-- The next number extends an initial segment. -/
theorem range_concat {l : List Nat} {f : Nat} (hl : l = List.range l.length) (hf : f = l.length) :
    l ++ [f] = List.range (l ++ [f]).length := by
  rw [List.length_append, List.length_singleton, List.range_succ, ← hl, hf]

theorem Complete.step {v w : View} {d : Bool} (h : v.failed = false → Complete v)
    (hm : Move v d w) : w.failed = false → Complete w := by
  intro hw
  cases hm with
  | rest => exact h hw
  | exit => exact ⟨(h hw).all, nofun, fun _ => nofun, nofun, nofun⟩
  | drop => cases hw
  | single hon hnone =>
    have hc := h hw
    have hn := hc.none hnone hon
    refine ⟨range_concat hc.all hn, fun m hm => ?_, fun _ _ => ?_, nofun, nofun⟩
    · exact absurd (hnone.symm.trans hm) nofun
    · simp only [View.deliver, List.length_append, List.length_singleton, hn]
  | primeDrop => cases hw
  | prime hon hnone =>
    have hc := h hw
    have hn := hc.none hnone hon
    refine ⟨range_concat hc.all hn, ?_, nofun, fun _ => hon, fun _ _ => rfl⟩
    rintro m ⟨⟩
    simp only [View.deliver, List.length_append, List.length_singleton, hn, and_self]
  | ahead m hon hsome =>
    have hc := h hw
    obtain ⟨hm, hf⟩ := hc.next m hsome
    refine ⟨range_concat hc.all hm, ?_, nofun, fun _ => hon, fun _ _ => rfl⟩
    rintro _ ⟨⟩
    simp only [View.deliver, List.length_append, List.length_singleton, hf, hm, and_self]
  | aheadDrop => cases hw

theorem Move.length {v w : View} {d : Bool} (hm : Move v d w) :
    w.delivered.length = v.delivered.length + d.toNat := by
  cases hm <;> simp [View.deliver]

theorem ordered_start : Ordered start := ⟨.nil, nofun, nofun⟩

theorem complete_start : Complete start := ⟨rfl, nofun, fun _ _ => rfl, fun _ => rfl, nofun⟩

end Streambox.PathB.Lookahead
