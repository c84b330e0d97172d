import Mathlib.Data.List.Basic

/-! ParsedMessage.cpp: an RTSP request or response, as it is found at the front of a buffer.

        request line CRLF  { key ":" value CRLF  { blank continuation CRLF } }  CRLF  content

    The loop over the lines runs while there is data, so it ends with the empty line or with the end
    of the buffer, whichever comes first. -/

namespace Streambox.WifiDisplay.ParsedMessage

abbrev Bytes := List UInt8

/-! ### Strings -/

/-- `isspace` of the C locale. -/
def isSpace (byte : UInt8) : Bool := byte = 0x20 || (0x09 ≤ byte && byte ≤ 0x0d)

def isDigit (byte : UInt8) : Bool := 0x30 ≤ byte && byte ≤ 0x39

def tolower (byte : UInt8) : UInt8 := if 0x41 ≤ byte && byte ≤ 0x5a then byte + 0x20 else byte

/-- `AString::trim`. -/
def trim (s : Bytes) : Bytes := ((s.dropWhile isSpace).reverse.dropWhile isSpace).reverse

/-- `c_str()`, for the functions that stop at a zero. -/
def cStr (s : Bytes) : Bytes := s.takeWhile (· ≠ 0)

/-- A line up to its colon, and behind it. -/
def splitColon (line : Bytes) : Option (Bytes × Bytes) :=
  if 0x3a ∈ cStr line then
    some (line.takeWhile (· ≠ 0x3a), (line.dropWhile (· ≠ 0x3a)).tail)
  else none

/-- What `strtol` and `strtoul` read: whether there is a minus, the digits, and what is behind them;
    nothing if there is no digit. -/
def scanNumber (s : Bytes) : Option (Bool × Nat × Bytes) :=
  let s := (cStr s).dropWhile isSpace
  let negative := s.head? = some 0x2d
  let s := if negative ∨ s.head? = some 0x2b then s.tail else s
  let digits := s.takeWhile isDigit
  if digits = [] then none
  else
    some (negative, digits.foldl (fun n d => 10 * n + (d.toNat - 0x30)) 0, s.dropWhile isDigit)

/-- `strtol` with a long of 64 bits: the value and what is not read. -/
def strtol (s : Bytes) : Option (Int × Bytes) :=
  (scanNumber s).map fun q =>
    (max (-9223372036854775808) (min 9223372036854775807 (if q.1 then -(q.2.1 : Int) else q.2.1)),
      q.2.2)

/-- `strtoul`: a minus counts down from 2^64, if the number is not too great. -/
def strtoul (s : Bytes) : Option (Nat × Bytes) :=
  (scanNumber s).map fun q =>
    (if 18446744073709551615 < q.2.1 then 18446744073709551615
      else if q.1 then (18446744073709551616 - q.2.1) % 18446744073709551616
      else q.2.1,
      q.2.2)

/-- A long stored in an `int32_t`. -/
def toInt32 (x : Int) : Int := x.bmod 4294967296

/-! ### The dictionary -/

/-- `KeyedVector<AString, AString>`, in the order of its keys. -/
abbrev Dict := List (Bytes × Bytes)

/-- `KeyedVector::add`: a value of the same key is replaced. -/
def Dict.add (key value : Bytes) : Dict → Dict
  | [] => [(key, value)]
  | (k, v) :: rest =>
    if k = key then (key, value) :: rest
    else if key < k then (key, value) :: (k, v) :: rest
    else (k, v) :: Dict.add key value rest

/-- A continuation line goes to the value of the header before it. -/
def Dict.extend (key line : Bytes) (dict : Dict) : Dict :=
  dict.map fun q => if q.1 = key then (q.1, q.2 ++ line) else q

/-- The values without the blanks around them. -/
def Dict.trimmed (dict : Dict) : Dict := dict.map fun q => (q.1, trim q.2)

/-- The key of the request line. -/
def requestKey : Bytes := [0x5f]

/-- "content-length". -/
def contentLengthKey : Bytes :=
  [0x63, 0x6f, 0x6e, 0x74, 0x65, 0x6e, 0x74, 0x2d, 0x6c, 0x65, 0x6e, 0x67, 0x74, 0x68]

/-- `findString`, for a name in lower case. -/
def Dict.findString (dict : Dict) (name : Bytes) : Option Bytes :=
  (dict.find? fun q => q.1 = name).map Prod.snd

/-- `findInt32`. -/
def Dict.findInt32 (dict : Dict) (name : Bytes) : Option Int :=
  match (dict.findString name).bind strtol with
  | some (value, []) => some (toInt32 value)
  | _ => none

/-- No "content-length", a negative one and none that can be read are zero. -/
def Dict.contentLength (dict : Dict) : Nat := ((dict.findInt32 contentLengthKey).getD 0).toNat

/-! ### Lines -/

/-- A line up to its CR LF, and the data behind it. -/
def splitLine : Bytes → Option (Bytes × Bytes)
  | [] => none
  | byte :: rest =>
    if byte = 0x0d ∧ rest.head? = some 0x0a then some ([], rest.tail)
    else (splitLine rest).map fun q => (byte :: q.1, q.2)

/-- What a line behind the first does to the dictionary and to `lastDictIndex`. -/
def headerLine (dict : Dict) (last : Option Bytes) (line : Bytes) : Dict × Option Bytes :=
  if line.head? = some 0x20 ∨ line.head? = some 0x09 then
    match last with
    | some key => (dict.extend key line, last)
    | none => (dict, none)
  else
    match splitColon line with
    | some (key, value) => (dict.add ((trim key).map tolower) value, some ((trim key).map tolower))
    | none => (dict, last)

/-- The loop over the lines behind the first: the dictionary, the data behind the header, and
    whether the loop ended with an empty line. -/
def headerLines : Nat → Dict → Option Bytes → Bytes → Option (Dict × Bytes × Bool)
  | _, dict, _, [] => some (dict, [], false)
  | 0, _, _, _ :: _ => none
  | fuel + 1, dict, last, byte :: data =>
    match splitLine (byte :: data) with
    | none => none
    | some ([], rest) => some (dict, rest, true)
    | some (c :: line, rest) =>
      headerLines fuel (headerLine dict last (c :: line)).1 (headerLine dict last (c :: line)).2 rest

/-- The whole header. -/
def header (data : Bytes) : Option (Dict × Bytes × Bool) :=
  (splitLine data).bind fun q => headerLines q.2.length [(requestKey, q.1)] none q.2

structure Message where
  dict : Dict
  content : Bytes
  deriving DecidableEq, Repr

/-- `ParsedMessage::Parse`: the message and its length. -/
def parse (data : Bytes) : Option (Message × Nat) :=
  match header data with
  | none => none
  | some (dict, rest, _) =>
    let dict := Dict.trimmed dict
    if rest.length < dict.contentLength then none
    else some (⟨dict, rest.take dict.contentLength⟩,
      data.length - rest.length + dict.contentLength)

/-! ### More data behind a header -/

theorem splitLine_append {data line rest : Bytes} (h : splitLine data = some (line, rest))
    (y : Bytes) : splitLine (data ++ y) = some (line, rest ++ y) := by
  induction data generalizing line with
  | nil => cases h
  | cons byte data ih =>
    rw [splitLine] at h
    split at h
    case isTrue hcrlf =>
      cases h
      cases data with
      | nil => exact absurd hcrlf.2 (by simp)
      | cons c data =>
        have hcrlf' : byte = 0x0d ∧ (c :: data ++ y).head? = some 0x0a := hcrlf
        rw [List.cons_append, splitLine, if_pos hcrlf']
        rfl
    case isFalse hcrlf =>
      obtain ⟨q, hq, hline⟩ := Option.map_eq_some_iff.mp h
      cases hline
      cases data with
      | nil => cases hq
      | cons c data =>
        have hmore := ih hq
        have hcrlf' : ¬ (byte = 0x0d ∧ (c :: data ++ y).head? = some 0x0a) := hcrlf
        rw [List.cons_append, splitLine, if_neg hcrlf', hmore]
        rfl

theorem splitLine_length {data line rest : Bytes} (h : splitLine data = some (line, rest)) :
    data.length = line.length + 2 + rest.length := by
  induction data generalizing line with
  | nil => cases h
  | cons byte data ih =>
    rw [splitLine] at h
    split at h
    case isTrue hcrlf =>
      cases h
      cases data with
      | nil => exact absurd hcrlf.2 (by simp)
      | cons c data =>
        simp only [List.length_cons, List.tail_cons, List.length_nil]
        omega
    case isFalse hcrlf =>
      obtain ⟨q, hq, hline⟩ := Option.map_eq_some_iff.mp h
      cases hline
      have := ih hq
      simp only [List.length_cons]
      omega

/-- A header that ends with an empty line is the same with more data behind it. -/
theorem headerLines_append {fuel fuel' : Nat} {dict dict' : Dict} {last : Option Bytes}
    {data rest : Bytes} (h : headerLines fuel dict last data = some (dict', rest, true))
    (hfuel : fuel ≤ fuel') (y : Bytes) :
    headerLines fuel' dict last (data ++ y) = some (dict', rest ++ y, true) := by
  induction fuel generalizing fuel' dict last data with
  | zero =>
    cases data with
    | nil => cases h
    | cons _ _ => cases h
  | succ fuel ih =>
    cases data with
    | nil => cases h
    | cons byte data =>
      obtain ⟨fuel', rfl⟩ : ∃ k, fuel' = k + 1 := ⟨fuel' - 1, by omega⟩
      rw [headerLines] at h
      rw [List.cons_append, headerLines, ← List.cons_append]
      rcases hline : splitLine (byte :: data) with _ | ⟨_ | ⟨c, line⟩, rest'⟩
      · simp [hline] at h
      · simp only [hline] at h
        rw [splitLine_append hline]
        cases h
        rfl
      · simp only [hline] at h
        rw [splitLine_append hline]
        exact ih h (by omega)

/-- A header that ends with the buffer is complete with an empty line behind it. -/
theorem headerLines_blank {fuel fuel' : Nat} {dict dict' : Dict} {last : Option Bytes}
    {data rest : Bytes} (h : headerLines fuel dict last data = some (dict', rest, false))
    (hfuel : fuel < fuel') :
    headerLines fuel' dict last (data ++ [0x0d, 0x0a]) = some (dict', [], true) := by
  induction fuel generalizing fuel' dict last data with
  | zero =>
    obtain ⟨fuel', rfl⟩ : ∃ k, fuel' = k + 1 := ⟨fuel' - 1, by omega⟩
    cases data with
    | nil =>
      cases h
      rfl
    | cons _ _ => cases h
  | succ fuel ih =>
    obtain ⟨fuel', rfl⟩ : ∃ k, fuel' = k + 1 := ⟨fuel' - 1, by omega⟩
    cases data with
    | nil =>
      cases h
      rfl
    | cons byte data =>
      rw [headerLines] at h
      rw [List.cons_append, headerLines, ← List.cons_append]
      rcases hline : splitLine (byte :: data) with _ | ⟨_ | ⟨c, line⟩, rest'⟩
      · simp [hline] at h
      · simp [hline] at h
      · simp only [hline] at h
        rw [splitLine_append hline]
        exact ih h (by omega)

theorem headerLines_length {fuel : Nat} {dict dict' : Dict} {last : Option Bytes}
    {data rest : Bytes} {blank : Bool}
    (h : headerLines fuel dict last data = some (dict', rest, blank)) :
    rest.length ≤ data.length ∧ (blank = false → rest = []) := by
  induction fuel generalizing dict last data with
  | zero =>
    cases data with
    | nil =>
      cases h
      exact ⟨Nat.le_refl _, fun _ => rfl⟩
    | cons _ _ => cases h
  | succ fuel ih =>
    cases data with
    | nil =>
      cases h
      exact ⟨Nat.le_refl _, fun _ => rfl⟩
    | cons byte data =>
      rw [headerLines] at h
      rcases hline : splitLine (byte :: data) with _ | ⟨_ | ⟨c, line⟩, rest'⟩
      · simp [hline] at h
      · simp only [hline] at h
        have hlen := splitLine_length hline
        cases h
        exact ⟨by omega, fun hblank => absurd hblank (by simp)⟩
      · simp only [hline] at h
        have hlen := splitLine_length hline
        obtain ⟨hle, hend⟩ := ih h
        exact ⟨by omega, hend⟩

theorem header_append {data rest : Bytes} {dict : Dict} (h : header data = some (dict, rest, true))
    (y : Bytes) : header (data ++ y) = some (dict, rest ++ y, true) := by
  rw [header] at h ⊢
  obtain ⟨q, hq, hlines⟩ := Option.bind_eq_some_iff.mp h
  rw [splitLine_append hq, Option.bind_some]
  exact headerLines_append hlines (by rw [List.length_append]; omega) y

theorem header_blank {data rest : Bytes} {dict : Dict} (h : header data = some (dict, rest, false)) :
    header (data ++ [0x0d, 0x0a]) = some (dict, [], true) := by
  rw [header] at h ⊢
  obtain ⟨q, hq, hlines⟩ := Option.bind_eq_some_iff.mp h
  rw [splitLine_append hq, Option.bind_some]
  exact headerLines_blank hlines (by simp)

/-- The header has at least the end of its first line. -/
theorem header_length {data rest : Bytes} {dict : Dict} {blank : Bool}
    (h : header data = some (dict, rest, blank)) :
    rest.length + 2 ≤ data.length ∧ (blank = false → rest = []) := by
  rw [header] at h
  obtain ⟨q, hq, hlines⟩ := Option.bind_eq_some_iff.mp h
  have hlen := splitLine_length hq
  obtain ⟨hle, hend⟩ := headerLines_length hlines
  exact ⟨by omega, hend⟩

end Streambox.WifiDisplay.ParsedMessage
