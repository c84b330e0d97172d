import Streambox.Lib.Run
import Mathlib.Data.List.Basic
import Mathlib.Logic.Function.Basic
import Mathlib.Tactic.SplitIfs

/-! wifi-display, TunnelRenderer.cpp and wifi-player, WifiPlayerStreamSourceListener.cpp: the
    packets on their way from the renderer to the player.

    A fixed set of buffers circulates. `doSomeWork` copies each packet that it dequeues into a
    buffer that is available and queues it; `read` takes the bytes out, piece by piece, and sends the
    index of an empty buffer back as a message.

        message in flight ──▶ mIndicesAvailable ──▶ mQueue entry ──▶ message in flight
                 (onBufferAvailable)        (doSomeWork)         (read)

    The two sides run on two threads, so a call of `doSomeWork` is cut wherever the other side may
    come in between. -/

namespace Streambox.WifiDisplay.StreamSource
open Streambox.Lib

abbrev Bytes := List UInt8

/-- `kNumBuffers` and `kBufferSize`. -/
def numBuffers : Nat := 8
def bufferSize : Nat := 188 * 10

/-- `IStreamListener::Command`. -/
inductive Command where
  | eos
  | discontinuity
  deriving DecidableEq, Repr

/-- `QueueEntry`. -/
inductive Entry where
  | data (index size offset : Nat)
  | command (cmd : Command)
  deriving DecidableEq, Repr

/-- Where `doSomeWork` stands: `mLock` is free only when it is idle. -/
inductive Phase where
  | idle
  | loop
  | dequeued (srcBuffer : Bytes)
  | announced (srcBuffer : Bytes)
  | claimed (index : Nat) (srcBuffer : Bytes)
  | copied (index size : Nat)
  deriving DecidableEq, Repr

/-- What `read` returns; no bytes are the value zero. -/
inductive ReadResult where
  | wouldBlock
  | discontinuity
  | data (bytes : Bytes)
  deriving DecidableEq, Repr

/-- StreamSource and its listener. `inFlight` holds the `bufferidx` of the messages that are posted
    and not yet delivered; `aborted` says that a CHECK failed. The last three fields record what
    happened: the packets dequeued, the results of `read`, and whether an EOS command was issued. -/
structure State where
  inFlight : List Int
  indicesAvailable : List Nat
  numDequeued : Nat
  phase : Phase
  buffers : Nat → Bytes
  queue : List Entry
  eos : Bool
  aborted : Bool
  packets : List Bytes
  reads : List ReadResult
  eosIssued : Bool

/-- The value that `setInt32` keeps of an index. -/
def toInt32 (index : Nat) : Int := (index : Int).bmod 4294967296

/-- The `size_t` that `onBufferAvailable` gets for a value. -/
def toSizeT (value : Int) : Nat := (value % 18446744073709551616).toNat

def abort (s : State) : State := { s with aborted := true }

/-! ### The listener -/

def sendBufferAvailable (s : State) (index : Nat) : State :=
  { s with inFlight := s.inFlight ++ [toInt32 index] }

def queueBuffer (s : State) (index size : Nat) : State :=
  { s with queue := s.queue ++ [.data index size 0] }

def issueCommand (s : State) (cmd : Command) : State :=
  { s with
    queue := s.queue ++ [.command cmd]
    eosIssued := s.eosIssued || cmd = .eos }

/-- The end of `read`, for an entry with data. -/
def readData (s : State) (index entrySize offset size : Nat) (rest : List Entry) :
    State × ReadResult :=
  let copy := min entrySize size
  let bytes := ((s.buffers index).drop offset).take copy
  if entrySize - copy = 0 then
    ({ sendBufferAvailable s index with queue := rest }, .data bytes)
  else
    ({ s with queue := .data index (entrySize - copy) (offset + copy) :: rest }, .data bytes)

def read (s : State) (size : Nat) : State × ReadResult :=
  if s.eos then (s, .data []) else
  match s.queue with
  | [] => (sendBufferAvailable s 0x80000001, .wouldBlock)
  | .command .eos :: rest => ({ s with queue := rest, eos := true }, .data [])
  | .command .discontinuity :: rest => ({ s with queue := rest }, .discontinuity)
  | .data index entrySize offset :: rest => readData s index entrySize offset size rest

/-- The messages that `start` sends. -/
def start (buffers : Nat → Bytes) : State where
  inFlight := (List.range numBuffers).map toInt32
  indicesAvailable := []
  numDequeued := 0
  phase := .idle
  buffers := buffers
  queue := []
  eos := false
  aborted := false
  packets := []
  reads := []
  eosIssued := false

/-! ### The source -/

/-- `onBufferAvailable`, without the call of `doSomeWork` at its end. -/
def onBufferAvailable (s : State) (index : Nat) : State :=
  if index ≥ 0x80000000 then s
  else if index < numBuffers then { s with indicesAvailable := s.indicesAvailable ++ [index] }
  else abort s

/-- `memcpy` to the front of a buffer. -/
def memcpy (buffers : Nat → Bytes) (index : Nat) (src : Bytes) : Nat → Bytes :=
  Function.update buffers index (src ++ (buffers index).drop src.length)

/-- The next piece of `doSomeWork`. `dequeueBuffer` is what the renderer returns if it is asked. -/
def doSomeWork (s : State) (dequeueBuffer : Option Bytes) : State :=
  match s.phase with
  | .idle => { s with phase := .loop }
  | .loop =>
    if s.indicesAvailable = [] then { s with phase := .idle } else
    match dequeueBuffer with
    | none => { s with phase := .idle }
    | some srcBuffer =>
      { s with
        phase := .dequeued srcBuffer
        numDequeued := s.numDequeued + 1
        packets := s.packets ++ [srcBuffer] }
  | .dequeued srcBuffer =>
    if s.numDequeued = 1 then
      { issueCommand s .discontinuity with phase := .announced srcBuffer }
    else { s with phase := .announced srcBuffer }
  | .announced srcBuffer =>
    match s.indicesAvailable with
    | [] => abort s
    | index :: rest =>
      -- the two CHECKs
      if srcBuffer.length ≤ bufferSize ∧ srcBuffer.length % 188 = 0 then
        { s with phase := .claimed index srcBuffer, indicesAvailable := rest }
      else abort s
  | .claimed index srcBuffer =>
    { s with
      phase := .copied index srcBuffer.length
      buffers := memcpy s.buffers index srcBuffer }
  | .copied index size => { queueBuffer s index size with phase := .loop }

/-! ### Both threads -/

/-- What happens next: a piece of `doSomeWork`, the delivery of a message, a call of `read`, or a
    command from elsewhere. -/
inductive Action where
  | work (dequeueBuffer : Option Bytes)
  | deliver (k : Nat)
  | read (size : Nat)
  | issue (cmd : Command)
  deriving DecidableEq, Repr

/-- A step of the player, unless it has aborted. Messages are delivered between the calls of
    `doSomeWork`, which take the same lock. -/
def step (s : State) (a : Action) : Option State :=
  if s.aborted then none else
  match a with
  | .work dequeueBuffer => some (doSomeWork s dequeueBuffer)
  | .deliver k =>
    if s.phase = .idle then
      s.inFlight[k]?.map fun value =>
        onBufferAvailable { s with inFlight := s.inFlight.eraseIdx k } (toSizeT value)
    else none
  | .read size =>
    if 0 < size then some { (read s size).1 with reads := s.reads ++ [(read s size).2] }
    else some (abort s)
  | .issue cmd => some (issueCommand s cmd)

end Streambox.WifiDisplay.StreamSource
