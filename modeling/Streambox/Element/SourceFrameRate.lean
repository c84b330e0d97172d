import Mathlib.Data.Nat.Digits.Lemmas
import Mathlib.Data.Rat.Cast.Order
import Mathlib.Tactic.FieldSimp
import Mathlib.Tactic.Positivity
import Mathlib.Tactic.Ring

/-! streamboxsrc: the frame rate of the source, as the HDMI receiver's info file gives it.

    The file is read in pieces of at most 255 bytes; the first piece that scans as
    `Frame Rate: %u` decides. Its value `r`, in hundredths of a hertz, becomes a fraction by one of
    three rules.

        r % 100 = 0                   r / 100              over 1
        5994, 2997, 11988, 23976      (r + 6) / 100 * 1000 over 1001
        everything else               (r + 50) / 100       over 1

    The sums are of 32 bits. With no value, or with 0, the element falls back to 60/1. -/

namespace Streambox.Element.SourceFrameRate

abbrev Bytes := List UInt8

/-! ### Reading lines -/

/-- The bytes one `fgets` stores with room for `n` of them, and what it leaves in the file. -/
def fgets : Nat → Bytes → Bytes × Bytes
  | 0, file => ([], file)
  | _ + 1, [] => ([], [])
  | n + 1, b :: file =>
    if b = 10 then ([b], file) else (b :: (fgets n file).1, (fgets n file).2)

/-- `sizeof(line) - 1`: `fgets` keeps the last byte of the buffer for the terminator. -/
def lineRoom : Nat := 255

/-- What `isspace` accepts in the C locale. -/
def isspace (b : UInt8) : Bool := (9 ≤ b && b ≤ 13) || b == 32

def isdigit (b : UInt8) : Bool := 48 ≤ b && b ≤ 57

/-- The string that a stored line is, up to its first terminator. -/
def cString (line : Bytes) : Bytes := line.takeWhile (· != 0)

/-- The ordinary characters of a `sscanf` format, with the rest of the input. -/
def matchText : Bytes → Bytes → Option Bytes
  | [], s => some s
  | _ :: _, [] => none
  | c :: cs, b :: s => if b = c then matchText cs s else none

def digitsValue (ds : Bytes) : Nat := ds.foldl (fun v d => 10 * v + (d.toNat - 48)) 0

/-- `strtoul` on a sign and digits; `ulongMax` is the largest `unsigned long`. -/
def strtoul (ulongMax : Nat) (minus : Bool) (ds : Bytes) : Nat :=
  if ulongMax < digitsValue ds then ulongMax
  else if minus then (ulongMax + 1 - digitsValue ds) % (ulongMax + 1)
  else digitsValue ds

/-- An optional sign before the digits. -/
def scanSign : Bytes → Bool × Bytes
  | [] => (false, [])
  | b :: s => if b = 45 then (true, s) else if b = 43 then (false, s) else (false, b :: s)

/-- The conversion `%u`. -/
def scanUnsigned (ulongMax : Nat) (s : Bytes) : Option UInt32 :=
  let signed := scanSign (s.dropWhile isspace)
  let ds := signed.2.takeWhile isdigit
  if ds = [] then none else some (UInt32.ofNat (strtoul ulongMax signed.1 ds))

/-- `sscanf(line, "Frame Rate: %u", &val)`; a space of the format skips any white space. -/
def scanFrameRate (ulongMax : Nat) (line : Bytes) : Option UInt32 :=
  (matchText [70, 114, 97, 109, 101] (cString line)).bind fun s =>
    (matchText [82, 97, 116, 101, 58] (s.dropWhile isspace)).bind fun s =>
      scanUnsigned ulongMax (s.dropWhile isspace)

/-- The loop over the lines, for at most `fuel` of them. -/
def scanLoop (ulongMax : Nat) : Nat → Bytes → Option UInt32
  | 0, _ => none
  | fuel + 1, file =>
    if file = [] then none
    else (scanFrameRate ulongMax (fgets lineRoom file).1).or
      (scanLoop ulongMax fuel (fgets lineRoom file).2)

/-- The raw value of a file: the first one that a line of it scans to. -/
def rawRate (ulongMax : Nat) (file : Bytes) : Option UInt32 := scanLoop ulongMax file.length file

/-! ### The fraction -/

structure Fps where
  fpsN : UInt32
  fpsD : UInt32
  deriving DecidableEq, Repr

/-- The fraction for a raw value other than 0. -/
def toFraction (frameRate : UInt32) : Fps :=
  if frameRate % 100 = 0 then ⟨frameRate / 100, 1⟩
  else if frameRate = 5994 ∨ frameRate = 2997 ∨ frameRate = 11988 ∨ frameRate = 23976 then
    ⟨(frameRate + 6) / 100 * 1000, 1001⟩
  else ⟨(frameRate + 50) / 100, 1⟩

/-- `hdmirx_get_source_framerate`; `none` is `FALSE`, and a `none` file could not be opened. -/
def hdmirxGetSourceFramerate (ulongMax : Nat) (file : Option Bytes) : Option Fps :=
  file.bind fun f =>
    let frameRate := (rawRate ulongMax f).getD 0
    if 0 < frameRate then some (toFraction frameRate) else none

/-- The element's rate after `start_path_a`. -/
def startFps (ulongMax : Nat) (file : Option Bytes) : Fps :=
  (hdmirxGetSourceFramerate ulongMax file).getD ⟨60, 1⟩

/-- The divisor that `create_path_a` gives `gst_util_uint64_scale_int`, a `gint`. -/
def durationDivisor (fps : Fps) : Int32 := fps.fpsN.toInt32

/-! ### What the loop reads -/

theorem fgets_split (n : Nat) (file : Bytes) : (fgets n file).1 ++ (fgets n file).2 = file := by
  induction n generalizing file with
  | zero => rfl
  | succ n ih =>
    cases file with
    | nil => rfl
    | cons b file =>
      rw [fgets]
      split
      · rfl
      · simpa using ih file

theorem fgets_rest_lt (n : Nat) (file : Bytes) (hne : file ≠ []) :
    (fgets (n + 1) file).2.length < file.length := by
  cases file with
  | nil => exact absurd rfl hne
  | cons b file =>
    rw [fgets]
    split
    · simp
    · have hlen := congrArg List.length (fgets_split n file)
      simp only [List.length_append, List.length_cons] at hlen ⊢
      omega

/-- More turns than the file has bytes change nothing: the loop of the source ends. -/
theorem scanLoop_fuel (ulongMax fuel : Nat) (file : Bytes) (h : file.length ≤ fuel) :
    scanLoop ulongMax fuel file = rawRate ulongMax file := by
  -- Both fuels are above the length, so the induction is over any two such fuels.
  suffices hany : ∀ a b : Nat, ∀ f : Bytes, f.length ≤ a → f.length ≤ b →
      scanLoop ulongMax a f = scanLoop ulongMax b f from
    hany fuel file.length file h le_rfl
  intro a
  induction a with
  | zero =>
    intro b f ha hb
    have hnil : f = [] := List.length_eq_zero_iff.mp (Nat.le_zero.mp ha)
    cases b with
    | zero => rfl
    | succ b => simp [scanLoop, hnil]
  | succ a ih =>
    intro b f ha hb
    by_cases hnil : f = []
    · cases b with
      | zero => simp [scanLoop, hnil]
      | succ b => simp [scanLoop, hnil]
    · have hlt : (fgets lineRoom f).2.length < f.length := fgets_rest_lt 254 f hnil
      have hpos : 0 < f.length := List.length_pos_iff.mpr hnil
      cases b with
      | zero => omega
      | succ b =>
        simp only [scanLoop, hnil, if_false]
        rw [ih b _ (by omega) (by omega)]

/-! ### The fraction against the raw value -/

/-- A fraction of positive terms within half a hertz of `r` hundredths. -/
def Close (r : UInt32) (fps : Fps) : Prop :=
  0 < fps.fpsN ∧ 0 < fps.fpsD ∧
    |(fps.fpsN.toNat : ℚ) / fps.fpsD.toNat - (r.toNat : ℚ) / 100| ≤ 1 / 2

/-- The raw values that the three rules serve: 0 is no rate at all, and every other one rounds to
    a rate above 0 without leaving 32 bits and is not one of the two that round to a rate below. -/
def Convertible (r : UInt32) : Prop :=
  r = 0 ∨ (50 ≤ r.toNat ∧ r.toNat + 50 < 4294967296 ∧ r ≠ 11988 ∧ r ≠ 23976)

instance (r : UInt32) : Decidable (Convertible r) := by unfold Convertible; infer_instance

/-- The distance without fractions. -/
theorem close_iff_int (r n d : Nat) (hd : 0 < d) :
    |(n : ℚ) / d - (r : ℚ) / 100| ≤ 1 / 2 ↔ |100 * (n : ℤ) - r * d| ≤ 50 * d := by
  have hdq : (0 : ℚ) < d := by exact_mod_cast hd
  have hsub : (n : ℚ) / d - (r : ℚ) / 100 = (100 * n - r * d) / (100 * d) := by
    field_simp
  have hcast : ((|100 * (n : ℤ) - r * d| : ℤ) : ℚ) = |100 * (n : ℚ) - r * d| := by push_cast; rfl
  rw [hsub, abs_div, abs_of_pos (by positivity : (0 : ℚ) < 100 * d),
    div_le_iff₀ (by positivity : (0 : ℚ) < 100 * d), ← hcast]
  have hhalf : (1 / 2 * (100 * (d : ℚ))) = ((50 * d : ℤ) : ℚ) := by push_cast; ring
  rw [hhalf, Int.cast_le]

theorem toNat_pos_iff (r : UInt32) : 0 < r ↔ 0 < r.toNat := by
  rw [UInt32.lt_iff_toNat_lt]
  rfl

/-- The three rules with the values as numbers. -/
theorem toFraction_toNat (r : UInt32) :
    ((toFraction r).fpsN.toNat, (toFraction r).fpsD.toNat) =
      if r.toNat % 100 = 0 then (r.toNat / 100, 1)
      else if r.toNat = 5994 ∨ r.toNat = 2997 ∨ r.toNat = 11988 ∨ r.toNat = 23976 then
        ((r.toNat + 6) / 100 * 1000, 1001)
      else ((r.toNat + 50) % 4294967296 / 100, 1) := by
  have hmod : r % 100 = 0 ↔ r.toNat % 100 = 0 := by
    rw [← UInt32.toNat_inj, UInt32.toNat_mod]
    rfl
  have heq : ∀ k : UInt32, r = k ↔ r.toNat = k.toNat := fun k => UInt32.toNat_inj.symm
  simp only [toFraction, hmod, heq]
  split
  · simp [UInt32.toNat_div]
  · simp only [show (5994 : UInt32).toNat = 5994 from rfl,
      show (2997 : UInt32).toNat = 2997 from rfl, show (11988 : UInt32).toNat = 11988 from rfl,
      show (23976 : UInt32).toNat = 23976 from rfl]
    split
    next h =>
      have hsmall : r.toNat ≤ 23976 := by omega
      simp [UInt32.toNat_div, UInt32.toNat_mul, UInt32.toNat_add]
      omega
    · simp [UInt32.toNat_div, UInt32.toNat_add]

/-- A fraction made of a raw value other than 0 is close to it for the convertible ones only. -/
theorem close_toFraction_iff (r : UInt32) (h0 : r ≠ 0) :
    Close r (toFraction r) ↔ Convertible r := by
  have hr0 : r.toNat ≠ 0 := by
    intro h
    exact h0 (UInt32.toNat_inj.mp h)
  have hlt : r.toNat < 4294967296 := r.toNat_lt
  have hne1 : r ≠ 11988 ↔ r.toNat ≠ 11988 := by
    rw [Ne, ← UInt32.toNat_inj]
    rfl
  have hne2 : r ≠ 23976 ↔ r.toNat ≠ 23976 := by
    rw [Ne, ← UInt32.toNat_inj]
    rfl
  have hfr := toFraction_toNat r
  rw [Close, toNat_pos_iff, toNat_pos_iff, Convertible, hne1, hne2]
  simp only [h0, false_or]
  split at hfr
  next hm =>
    obtain ⟨hn, hd⟩ := Prod.mk.inj hfr
    rw [hn, hd, close_iff_int _ _ _ Nat.one_pos, abs_le]
    omega
  next hm =>
    split at hfr
    next hs =>
      obtain ⟨hn, hd⟩ := Prod.mk.inj hfr
      rw [hn, hd, close_iff_int _ _ _ (by decide), abs_le]
      omega
    next hs =>
      obtain ⟨hn, hd⟩ := Prod.mk.inj hfr
      rw [hn, hd, close_iff_int _ _ _ Nat.one_pos, abs_le]
      omega

/-! ### Every file -/

/-- What a file's rate has to be: a returned fraction is close to the raw value, and the duration
    of a buffer is not divided by 0. -/
def Sensible (ulongMax : Nat) (file : Option Bytes) : Prop :=
  (∀ fps, hdmirxGetSourceFramerate ulongMax file = some fps →
    ∃ r, file.bind (rawRate ulongMax) = some r ∧ Close r fps) ∧
  durationDivisor (startFps ulongMax file) ≠ 0

theorem durationDivisor_ne_zero (fps : Fps) (h : 0 < fps.fpsN) : durationDivisor fps ≠ 0 := by
  intro hz
  have hn : fps.fpsN = 0 := congrArg Int32.toUInt32 hz
  rw [hn] at h
  exact absurd h (by decide)

theorem framerate_of_raw (ulongMax : Nat) (file : Option Bytes) (r : UInt32)
    (h : file.bind (rawRate ulongMax) = some r) (h0 : r ≠ 0) :
    hdmirxGetSourceFramerate ulongMax file = some (toFraction r) := by
  cases file with
  | none => simp at h
  | some f =>
    have hraw : rawRate ulongMax f = some r := h
    have hpos : 0 < r := UInt32.pos_iff_ne_zero.mpr h0
    simp [hdmirxGetSourceFramerate, hraw, hpos]

theorem framerate_eq_some (ulongMax : Nat) (file : Option Bytes) (fps : Fps)
    (h : hdmirxGetSourceFramerate ulongMax file = some fps) :
    ∃ r, file.bind (rawRate ulongMax) = some r ∧ r ≠ 0 ∧ fps = toFraction r := by
  cases file with
  | none => simp [hdmirxGetSourceFramerate] at h
  | some f =>
    simp only [hdmirxGetSourceFramerate, Option.bind_some] at h
    split at h
    next hpos =>
      cases hraw : rawRate ulongMax f with
      | none =>
        rw [hraw] at hpos
        exact absurd hpos (by decide)
      | some r =>
        rw [hraw] at h hpos
        refine ⟨r, hraw, UInt32.pos_iff_ne_zero.mp hpos, ?_⟩
        exact (Option.some.inj h).symm
    next => cases h

/-- A file is read to a close fraction, and to a divisor that is not 0, exactly when the raw value
    that its lines give, if they give one, is convertible. -/
theorem sensible_iff_convertible (ulongMax : Nat) (file : Option Bytes) :
    Sensible ulongMax file ↔ ∀ r, file.bind (rawRate ulongMax) = some r → Convertible r := by
  constructor
  · intro hs r hr
    by_cases h0 : r = 0
    · exact .inl h0
    · obtain ⟨r', hr', hclose⟩ := hs.1 _ (framerate_of_raw ulongMax file r hr h0)
      have hsame : r' = r := Option.some.inj (hr'.symm.trans hr)
      rw [hsame] at hclose
      exact (close_toFraction_iff r h0).mp hclose
  · intro hc
    have hclose : ∀ fps, hdmirxGetSourceFramerate ulongMax file = some fps →
        ∃ r, file.bind (rawRate ulongMax) = some r ∧ Close r fps := by
      intro fps hfps
      obtain ⟨r, hr, h0, rfl⟩ := framerate_eq_some ulongMax file fps hfps
      exact ⟨r, hr, (close_toFraction_iff r h0).mpr (hc r hr)⟩
    refine ⟨hclose, durationDivisor_ne_zero _ ?_⟩
    cases hfps : hdmirxGetSourceFramerate ulongMax file with
    | none => simp [startFps, hfps]
    | some fps =>
      obtain ⟨r, -, hpos, -⟩ := hclose fps hfps
      simpa [startFps, hfps] using hpos

/-! ### Every raw value is one a file can give -/

/-- The line of the info file for a value written in decimal. -/
def infoLine (digits : Bytes) : Bytes :=
  [70, 114, 97, 109, 101, 32, 82, 97, 116, 101, 58, 32] ++ digits ++ [10]

def decimal (n : Nat) : Bytes := (Nat.digits 10 n).reverse.map fun d => UInt8.ofNat (48 + d)

theorem fgets_line (n : Nat) (line rest : Bytes) (hline : ∀ b ∈ line, b ≠ 10)
    (hroom : line.length < n) : fgets n (line ++ 10 :: rest) = (line ++ [10], rest) := by
  induction line generalizing n with
  | nil =>
    cases n with
    | zero => simp at hroom
    | succ n => simp [fgets]
  | cons b line ih =>
    cases n with
    | zero => simp at hroom
    | succ n =>
      have hb : b ≠ 10 := hline b List.mem_cons_self
      have htail := ih n (fun c hc => hline c (List.mem_cons_of_mem b hc)) (by simpa using hroom)
      simp [fgets, hb, htail]

theorem isdigit_digit (d : Nat) (hd : d < 10) : isdigit (UInt8.ofNat (48 + d)) = true := by
  revert d
  decide

theorem digit_toNat (d : Nat) (hd : d < 10) : (UInt8.ofNat (48 + d)).toNat - 48 = d := by
  rw [UInt8.toNat_ofNat_of_lt' (by simp only [UInt8.size]; omega)]
  omega

theorem digitsValue_decimal (n : Nat) : digitsValue (decimal n) = n := by
  have hfold : ∀ ds : List Nat, (∀ d ∈ ds, d < 10) →
      digitsValue (ds.reverse.map fun d => UInt8.ofNat (48 + d)) = Nat.ofDigits 10 ds := by
    intro ds hds
    induction ds with
    | nil => rfl
    | cons d ds ih =>
      have htail := ih fun e he => hds e (List.mem_cons_of_mem d he)
      rw [digitsValue] at htail ⊢
      rw [List.reverse_cons, List.map_append, List.foldl_append, htail, Nat.ofDigits_cons]
      simp only [List.map_cons, List.map_nil, List.foldl_cons, List.foldl_nil]
      rw [digit_toNat d (hds d List.mem_cons_self)]
      omega
  rw [decimal, hfold _ fun d hd => Nat.digits_lt_base (by decide) hd, Nat.ofDigits_digits]

theorem isdigit_decimal (n : Nat) : ∀ b ∈ decimal n, isdigit b = true := by
  intro b hb
  simp only [decimal, List.mem_map, List.mem_reverse] at hb
  obtain ⟨d, hd, rfl⟩ := hb
  exact isdigit_digit d (Nat.digits_lt_base (by decide) hd)

/-- A digit is neither white space, nor a sign, nor the end of a line or of a string. -/
theorem isdigit_plain (b : UInt8) (h : isdigit b = true) :
    isspace b = false ∧ b ≠ 45 ∧ b ≠ 43 ∧ b ≠ 10 ∧ b ≠ 0 := by
  simp only [isdigit, Bool.and_eq_true, decide_eq_true_eq, UInt8.le_iff_toNat_le] at h
  have hne : ∀ k : UInt8, k.toNat < 48 → b ≠ k := by
    intro k hk hbk
    rw [hbk] at h
    exact absurd h.1 (Nat.not_le.mpr hk)
  refine ⟨?_, hne 45 (by decide), hne 43 (by decide), hne 10 (by decide), hne 0 (by decide)⟩
  have h13 : ¬ b ≤ 13 := by
    rw [UInt8.le_iff_toNat_le]
    exact Nat.not_le.mpr (Nat.lt_of_lt_of_le (by decide) h.1)
  simp [isspace, h13, hne 32 (by decide)]

theorem dropWhile_digits (ds : Bytes) (hne : ds ≠ []) (hds : ∀ b ∈ ds, isdigit b = true) :
    (ds ++ [10]).dropWhile isspace = ds ++ [10] := by
  cases ds with
  | nil => exact absurd rfl hne
  | cons b ds => simp [(isdigit_plain b (hds b List.mem_cons_self)).1]

theorem scanUnsigned_digits (ulongMax : Nat) (ds : Bytes) (hne : ds ≠ [])
    (hds : ∀ b ∈ ds, isdigit b = true) :
    scanUnsigned ulongMax (ds ++ [10]) = some (UInt32.ofNat (strtoul ulongMax false ds)) := by
  have hsign : scanSign (ds ++ [10]) = (false, ds ++ [10]) := by
    cases ds with
    | nil => exact absurd rfl hne
    | cons b ds =>
      obtain ⟨-, hminus, hplus, -⟩ := isdigit_plain b (hds b List.mem_cons_self)
      simp [scanSign, hminus, hplus]
  have htake : (ds ++ [10]).takeWhile isdigit = ds := by
    rw [List.takeWhile_append_of_pos hds]
    simp [isdigit]
  simp [scanUnsigned, dropWhile_digits ds hne hds, hsign, htake, hne]

theorem scanFrameRate_infoLine (ulongMax : Nat) (ds : Bytes) (hne : ds ≠ [])
    (hds : ∀ b ∈ ds, isdigit b = true) :
    scanFrameRate ulongMax (infoLine ds) =
      some (UInt32.ofNat (strtoul ulongMax false ds)) := by
  have hstr : cString (infoLine ds) = infoLine ds := by
    have hall : ∀ b ∈ ds, (b != 0) = true := by
      intro b hb
      simpa using (isdigit_plain b (hds b hb)).2.2.2.2
    simp [cString, infoLine, List.takeWhile_append_of_pos hall]
  rw [scanFrameRate, hstr, ← scanUnsigned_digits ulongMax ds hne hds]
  simp [infoLine, matchText, isspace, dropWhile_digits ds hne hds]

/-- The line that prints `r` is read back as `r`, where an `unsigned long` has 32 bits or more. -/
theorem rawRate_infoLine (ulongMax : Nat) (hmax : 4294967295 ≤ ulongMax) (r : UInt32)
    (h0 : r ≠ 0) : rawRate ulongMax (infoLine (decimal r.toNat)) = some r := by
  have hlt : r.toNat < 4294967296 := r.toNat_lt
  have hne : decimal r.toNat ≠ [] := by
    intro hnil
    have hval := digitsValue_decimal r.toNat
    rw [hnil] at hval
    exact h0 (UInt32.toNat_inj.mp hval.symm)
  have hlen : (decimal r.toNat).length ≤ 10 := by
    rw [decimal, List.length_map, List.length_reverse, Nat.digits_length_le_iff (by decide)]
    omega
  have hline : fgets lineRoom (infoLine (decimal r.toNat)) = (infoLine (decimal r.toNat), []) := by
    refine fgets_line lineRoom _ [] ?_ (by simp [lineRoom]; omega)
    intro b hb
    rcases List.mem_append.mp hb with hword | hdigit
    · rintro rfl
      exact absurd hword (by decide)
    · exact (isdigit_plain b (isdigit_decimal _ b hdigit)).2.2.2.1
  have hnil : infoLine (decimal r.toNat) ≠ [] := by simp [infoLine]
  have hval : strtoul ulongMax false (decimal r.toNat) = r.toNat := by
    simp only [strtoul, digitsValue_decimal]
    rw [if_neg (by omega)]
    rfl
  rw [← scanLoop_fuel ulongMax ((infoLine (decimal r.toNat)).length + 1) _ (Nat.le_succ _),
    scanLoop, if_neg hnil, hline, scanFrameRate_infoLine ulongMax _ hne (isdigit_decimal _), hval]
  simp

/-- Two such lines. `11988` is 120/1.001 Hz and comes out as 119/1.001 Hz, more than half a hertz
    below; `30` comes out as 0/1 and the duration of a buffer is a division by 0. -/
theorem framerate_off_or_zero :
    hdmirxGetSourceFramerate 18446744073709551615 (some (infoLine (decimal 11988))) =
      some ⟨119000, 1001⟩ ∧
    ¬ Sensible 18446744073709551615 (some (infoLine (decimal 11988))) ∧
    hdmirxGetSourceFramerate 18446744073709551615 (some (infoLine (decimal 30))) = some ⟨0, 1⟩ ∧
    durationDivisor (startFps 18446744073709551615 (some (infoLine (decimal 30)))) = 0 := by
  have hraw : (some (infoLine (decimal 11988))).bind (rawRate 18446744073709551615) =
      some 11988 := rawRate_infoLine _ (by decide) 11988 (by decide)
  have hslow : (some (infoLine (decimal 30))).bind (rawRate 18446744073709551615) =
      some 30 := rawRate_infoLine _ (by decide) 30 (by decide)
  have hzero := framerate_of_raw _ _ 30 hslow (by decide)
  refine ⟨framerate_of_raw _ _ 11988 hraw (by decide), ?_, hzero, ?_⟩
  · intro hs
    obtain ⟨r, hr, hclose⟩ := hs.1 _ (framerate_of_raw _ _ 11988 hraw (by decide))
    rw [hraw] at hr
    cases hr
    exact absurd ((close_toFraction_iff 11988 (by decide)).mp hclose) (by decide)
  · rw [startFps, hzero]
    rfl

end Streambox.Element.SourceFrameRate
