import Mathlib.Data.List.Induction
import Streambox.Vfmcap.Capture

/-! streamboxsrc: its properties, and the output format that Path A is started with.

    `output-format=auto` is resolved when the element starts, from the colour depth that the HDMI
    receiver reports. The result is written to the field that the property is kept in.

        set auto     start, 8 bit        stop     start, 10 bit
        auto ─────▶  nv12, opens NV12 ──▶ nv12 ─▶ nv12, opens NV12

    So a start with `auto` is the last one that sees it, until it is set again. -/

namespace Streambox.Element.OutputFormat

/-! ### Properties -/

inductive SourceMode where
  | vfmcap
  | vdin1
  deriving DecidableEq, Repr

inductive OutputFmt where
  | auto
  | nv12
  | p010
  deriving DecidableEq, Repr

/-- The fields behind the properties; `targetFps` are the bits of a `gfloat`. -/
structure Props where
  sourceMode : SourceMode
  device : Option String
  numBuffers : Nat
  pathaOutPoolSize : Nat
  outputFmt : OutputFmt
  targetWidth : Nat
  targetHeight : Nat
  targetFps : UInt32
  colorMode : Nat
  vdin1Input : Nat
  deriving DecidableEq, Repr

/-- `gst_streambox_src_init`. -/
def init : Props where
  sourceMode := .vfmcap
  device := none
  numBuffers := 6
  pathaOutPoolSize := 12
  outputFmt := .auto
  targetWidth := 0
  targetHeight := 0
  targetFps := 0
  colorMode := 0
  vdin1Input := 6

/-- A property with a value. -/
inductive Setting where
  | source (mode : SourceMode)
  | device (path : Option String)
  | numBuffers (n : Nat)
  | pathaPoolSize (n : Nat)
  | outputFormat (fmt : OutputFmt)
  | targetWidth (n : Nat)
  | targetHeight (n : Nat)
  | targetFps (bits : UInt32)
  | colorMode (n : Nat)
  | vdin1Input (n : Nat)
  deriving DecidableEq, Repr

/-- `gst_streambox_src_set_property`. -/
def setProperty (p : Props) : Setting → Props
  | .source mode => { p with sourceMode := mode }
  | .device path => { p with device := path }
  | .numBuffers n => { p with numBuffers := n }
  | .pathaPoolSize n => { p with pathaOutPoolSize := n }
  | .outputFormat fmt => { p with outputFmt := fmt }
  | .targetWidth n => { p with targetWidth := n }
  | .targetHeight n => { p with targetHeight := n }
  | .targetFps bits => { p with targetFps := bits }
  | .colorMode n => { p with colorMode := n }
  | .vdin1Input n => { p with vdin1Input := n }

/-- The output format as `gst_streambox_src_get_property` returns it. -/
def getOutputFormat (p : Props) : OutputFmt := p.outputFmt

/-! ### Starting Path A -/

/-- What `/sys/class/hdmirx/hdmirx0/info` holds: nothing if it cannot be opened, else for each line
    the number that `Color Depth: %u` finds in it. -/
abbrev HdmiInfo := Option (List (Option Nat))

def colorDepth : HdmiInfo → Nat
  | none => 8
  | some lines => (lines.findSome? id).getD 8

/-- What `auto` stands for. -/
def detect (info : HdmiInfo) : OutputFmt := if colorDepth info > 8 then .p010 else .nv12

/-- `vfmcap_config_t` as `start_path_a` fills it. -/
structure CapConfig where
  outputFormat : Vfmcap.OutputFmt
  targetWidth : Nat
  targetHeight : Nat
  targetFps : UInt32
  colorMode : Nat
  deriving DecidableEq, Repr

def capConfig (p : Props) (resolvedFmt : OutputFmt) : CapConfig where
  outputFormat := if resolvedFmt = .p010 then .p010 else .nv12
  targetWidth := p.targetWidth
  targetHeight := p.targetHeight
  targetFps := p.targetFps
  colorMode := p.colorMode

/-- `start_path_a` up to `vfmcap_open`: the properties, and what the context is opened with. What
    follows leaves the properties alone. -/
def startPathA (p : Props) (info : HdmiInfo) : Props × CapConfig :=
  if p.outputFmt = .auto then
    ({ p with outputFmt := detect info }, capConfig p (detect info))
  else (p, capConfig p p.outputFmt)

/-! ### Histories -/

inductive Op where
  | set (s : Setting)
  | start (info : HdmiInfo)
  | stop
  deriving DecidableEq, Repr

def step (p : Props) : Op → Props
  | .set s => setProperty p s
  | .start info => (startPathA p info).1
  | .stop => p

def props (ops : List Op) : Props := ops.foldl step init

/-- The output format that the user set last. -/
def setBy (fmt : OutputFmt) : Op → OutputFmt
  | .set (.outputFormat f) => f
  | _ => fmt

def lastSet (ops : List Op) : OutputFmt := ops.foldl setBy .auto

/-- The format a start is asked for: the one set, or the one for the depth of the moment. -/
def wanted (fmt : OutputFmt) (info : HdmiInfo) : Vfmcap.OutputFmt :=
  if (if fmt = .auto then detect info else fmt) = .p010 then .p010 else .nv12

/-- Along the history the property reads as it was set, and every start opens the format asked
    for. -/
def ResolvedAnew (ops : List Op) : Prop :=
  (∀ pre, pre <+: ops → getOutputFormat (props pre) = lastSet pre) ∧
    ∀ pre info, pre ++ [.start info] <+: ops →
      (startPathA (props pre) info).2.outputFormat = wanted (lastSet pre) info

section histories
variable {ops : List Op}

theorem props_concat (ops : List Op) (op : Op) : props (ops ++ [op]) = step (props ops) op := by
  rw [props, List.foldl_append]
  rfl

theorem lastSet_concat (ops : List Op) (op : Op) :
    lastSet (ops ++ [op]) = setBy (lastSet ops) op := by
  rw [lastSet, List.foldl_append]
  rfl

theorem detect_ne_auto (info : HdmiInfo) : detect info ≠ .auto := by
  rw [detect]
  split <;> simp

/-- One step with a field that reads as it was set: it still does, unless `auto` is resolved. -/
theorem step_reads (op : Op) (h : getOutputFormat (props ops) = lastSet ops) :
    getOutputFormat (props (ops ++ [op])) = lastSet (ops ++ [op]) ↔
      ∀ info, op = .start info → lastSet ops ≠ .auto := by
  rw [props_concat, lastSet_concat]
  cases op with
  | set s => cases s <;> simp [step, setProperty, getOutputFormat, setBy] <;> exact h
  | stop => simpa [step, setBy] using h
  | start info =>
    rw [getOutputFormat] at h
    by_cases hauto : lastSet ops = .auto
    · simp [step, startPathA, getOutputFormat, setBy, h, hauto, detect_ne_auto]
    · simp [step, startPathA, getOutputFormat, setBy, h, hauto]

/-- While no start resolves `auto`, the property reads as it was set. -/
theorem reads_of_no_auto (h : ∀ pre info, pre ++ [.start info] <+: ops → lastSet pre ≠ .auto) :
    getOutputFormat (props ops) = lastSet ops := by
  induction ops using List.reverseRecOn with
  | nil => rfl
  | append_singleton ops op ih =>
    have hops : ops <+: ops ++ [op] := List.prefix_append ..
    refine (step_reads op (ih fun pre info hpre => h pre info (hpre.trans hops))).mpr ?_
    rintro info rfl
    exact h ops info (List.prefix_refl _)

/-- A start opens what it is asked for if the field reads as it was set. -/
theorem opens_wanted (info : HdmiInfo) (h : getOutputFormat (props ops) = lastSet ops) :
    (startPathA (props ops) info).2.outputFormat = wanted (lastSet ops) info := by
  rw [getOutputFormat] at h
  rw [startPathA, wanted, h]
  split <;> rfl

end histories

/-- Every start opens the format that was set last, or the one for the colour depth of the moment,
    and the property reads as it was set, exactly if no start finds `auto` set last. -/
theorem resolved_anew_iff (ops : List Op) : ResolvedAnew ops ↔
    ∀ pre info, pre ++ [.start info] <+: ops → lastSet pre ≠ .auto := by
  constructor
  · rintro ⟨hreads, -⟩ pre info hpre
    have hbefore := hreads pre ((List.prefix_append ..).trans hpre)
    exact (step_reads (.start info) hbefore).mp (hreads _ hpre) info rfl
  · intro h
    have hreads : ∀ pre, pre <+: ops → getOutputFormat (props pre) = lastSet pre :=
      fun pre hpre => reads_of_no_auto fun pre' info hpre' => h pre' info (hpre'.trans hpre)
    refine ⟨hreads, fun pre info hpre => opens_wanted info ?_⟩
    exact hreads pre ((List.prefix_append ..).trans hpre)

/-- The source has eight bits at the first start and ten at the second. -/
def deeperSource : List Op := [.start (some [none, some 8]), .stop, .start (some [some 10])]

/-- The second start opens NV12 where P010 is asked for, and `auto` reads as NV12 after the first.
    -/
theorem not_resolved_anew_deeperSource :
    (startPathA (props [.start (some [none, some 8]), .stop]) (some [some 10])).2.outputFormat =
      .nv12 ∧
    wanted (lastSet [.start (some [none, some 8]), .stop]) (some [some 10]) = .p010 ∧
    getOutputFormat (props [.start (some [none, some 8])]) = .nv12 ∧
    lastSet [.start (some [none, some 8])] = .auto ∧ ¬ ResolvedAnew deeperSource := by
  refine ⟨rfl, rfl, rfl, rfl, fun h => ?_⟩
  have hreads := h.1 [.start (some [none, some 8])] ⟨_, rfl⟩
  cases hreads

end Streambox.Element.OutputFormat
