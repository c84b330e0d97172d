import Mathlib.Data.List.TakeWhile
import Mathlib.Data.Nat.Digits.Lemmas
import Streambox.WifiDisplay.NetworkSession

/-! The texts of RTSP, ParsedMessage.cpp: the accessors of a message that has been parsed, and what
    a message has to look like to be parsed as it was written.

        first line CRLF { key ": " value CRLF } CRLF content
              │             │      │              │
              ▼             ▼      ▼              ▼
             "_"      lower case  trimmed   as long as "content-length" says

    `getRequestField` goes on behind the end of the line when the line has too few blanks. -/

namespace Streambox.WifiDisplay.RtspText
open Streambox.Lib
open ParsedMessage
open NetworkSession (Notification complete nextRtsp messageEnd isIdrRequest idrRequest cut
  cutInHeader cutBehindIdr)

/-- The bytes of a text of the source. -/
def ascii (s : String) : Bytes := s.toList.map fun c => UInt8.ofNat c.toNat

def crlf : Bytes := [0x0d, 0x0a]

/-- "%d" of a number that is not negative. -/
def decimal (n : Nat) : Bytes :=
  if n = 0 then [0x30] else (Nat.digits 10 n).reverse.map fun d => UInt8.ofNat (0x30 + d)

/-! ### Accessors -/

/-- The place of the first blank at or behind `offset`, else the end. -/
def spacePos (line : Bytes) (offset : Nat) : Nat :=
  if 0x20 ∈ cStr (line.drop offset) then offset + (line.drop offset).idxOf 0x20 else line.length

/-- The field that is `index` fields behind `offset`. Nothing if it is looked for behind the end of
    the string. -/
def fieldFrom (line : Bytes) : Nat → Nat → Option Bytes
  | 0, offset =>
    if line.length < offset then none
    else some ((line.drop offset).take (spacePos line offset - offset))
  | index + 1, offset =>
    if line.length < offset then none else fieldFrom line index (spacePos line offset + 1)

def requestLine (m : Message) : Bytes := (m.dict.findString requestKey).getD []

/-- `getRequestField`. -/
def getRequestField (m : Message) (index : Nat) : Option Bytes := fieldFrom (requestLine m) index 0

/-- `getStatusCode`: outside of the string, no code, or a code of three digits. -/
def getStatusCode (m : Message) : Option (Option Int) :=
  (getRequestField m 1).map fun field =>
    match strtol field with
    | some (code, []) =>
      if toInt32 code < 100 ∨ 999 < toInt32 code then none else some (toInt32 code)
    | _ => none

/-- What stands behind "key=", if an attribute begins with that. -/
def attributeOf (key part : Bytes) : Option Bytes :=
  let part := part.dropWhile isSpace
  if key ++ [0x3d] <+: part then some (part.drop (key.length + 1)) else none

/-- `GetAttribute`: the attributes stand between semicolons. -/
def getAttribute (s key : Bytes) : Option Bytes :=
  ((cStr s).splitOn 0x3b).findSome? (attributeOf key)

/-- `GetInt32Attribute`. -/
def getInt32Attribute (s key : Bytes) : Option Int :=
  match (getAttribute s key).bind strtol with
  | some (value, []) => some (toInt32 value)
  | _ => none

/-- `strstr`, whether there is a match. -/
def strstr (s pattern : Bytes) : Bool := (cStr s).tails.any fun t => pattern.isPrefixOf t

/-! ### Fields -/

/-- Behind the first blank there is one blank less. -/
theorem count_behind {l : Bytes} (h : 0x20 ∈ cStr l) :
    (cStr l).count 0x20 = (cStr (l.drop (l.idxOf 0x20 + 1))).count 0x20 + 1 ∧
      l.idxOf 0x20 < l.length := by
  induction l with
  | nil => cases h
  | cons b l ih =>
    by_cases hzero : b = 0
    · simp [cStr, hzero] at h
    · have hcons : cStr (b :: l) = b :: cStr l := List.takeWhile_cons_of_pos (by simpa using hzero)
      rw [hcons] at h ⊢
      by_cases hblank : b = 0x20
      · simp [hblank]
      · have hmem : 0x20 ∈ cStr l := by
          rcases List.mem_cons.mp h with heq | hmem
          · exact absurd heq.symm hblank
          · exact hmem
        obtain ⟨hcount, hlt⟩ := ih hmem
        rw [List.idxOf_cons_ne _ (by simpa using hblank), List.drop_succ_cons,
          List.count_cons_of_ne (by simpa using hblank), List.length_cons]
        exact ⟨hcount, Nat.succ_lt_succ hlt⟩

theorem fieldFrom_ne_none_iff {line : Bytes} {index offset : Nat} (h : offset ≤ line.length) :
    fieldFrom line index offset ≠ none ↔ index ≤ (cStr (line.drop offset)).count 0x20 := by
  induction index generalizing offset with
  | zero => simp [fieldFrom, Nat.not_lt.mpr h]
  | succ index ih =>
    rw [fieldFrom, if_neg (Nat.not_lt.mpr h), spacePos]
    split
    case isTrue hblank =>
      obtain ⟨hcount, hlt⟩ := count_behind hblank
      rw [List.length_drop] at hlt
      rw [ih (by omega), hcount, List.drop_drop, Nat.add_assoc]
      omega
    case isFalse hblank =>
      have hnone : fieldFrom line index (line.length + 1) = none := by
        cases index <;> simp [fieldFrom]
      rw [hnone, List.count_eq_zero_of_not_mem hblank]
      simp

/-- A field is there if the line has as many blanks. -/
theorem getRequestField_ne_none_iff {m : Message} {index : Nat} :
    getRequestField m index ≠ none ↔ index ≤ (cStr (requestLine m)).count 0x20 :=
  fieldFrom_ne_none_iff (Nat.zero_le _)

/-! ### One line -/

/-- There is no CR LF in it. -/
def OneLine (l : Bytes) : Prop := splitLine l = none

instance (l : Bytes) : Decidable (OneLine l) := inferInstanceAs (Decidable (splitLine l = none))

theorem oneLine_cons {byte : UInt8} {l : Bytes} :
    OneLine (byte :: l) ↔ ¬ (byte = 0x0d ∧ l.head? = some 0x0a) ∧ OneLine l := by
  rw [OneLine, splitLine]
  split
  case isTrue h => simp [h]
  case isFalse h => simp [h, OneLine]

theorem oneLine_iff {l : Bytes} : OneLine l ↔ ¬ crlf <:+: l := by
  induction l with
  | nil => simp [OneLine, splitLine, crlf]
  | cons byte l ih =>
    have hhead : crlf <+: byte :: l ↔ byte = 0x0d ∧ l.head? = some 0x0a := by
      rw [crlf, List.cons_prefix_cons, eq_comm]
      cases l with
      | nil => simp
      | cons c l => simp [List.cons_prefix_cons, eq_comm (a := (10 : UInt8))]
    rw [oneLine_cons, ih, List.infix_cons_iff, not_or, hhead]

theorem OneLine.of_infix {l l' : Bytes} (h : OneLine l) (hwithin : l' <:+: l) : OneLine l' :=
  oneLine_iff.mpr fun h' => oneLine_iff.mp h (h'.trans hwithin)

/-- Two lines are one if the CR LF does not come about between them. -/
theorem OneLine.append {l l' : Bytes} (h : OneLine l) (h' : OneLine l')
    (hbetween : l.getLast? ≠ some 0x0d ∨ l'.head? ≠ some 0x0a) : OneLine (l ++ l') := by
  induction l with
  | nil => exact h'
  | cons byte l ih =>
    obtain ⟨hhead, htail⟩ := oneLine_cons.mp h
    cases l with
    | nil =>
      refine oneLine_cons.mpr ⟨?_, h'⟩
      rintro ⟨rfl, hnext⟩
      exact hbetween.elim (fun hlast => hlast rfl) fun hfirst => hfirst hnext
    | cons c l =>
      exact oneLine_cons.mpr ⟨hhead, ih htail (by simpa using hbetween)⟩

theorem splitLine_crlf {l : Bytes} (h : OneLine l) (rest : Bytes) :
    splitLine (l ++ (crlf ++ rest)) = some (l, rest) := by
  induction l with
  | nil => rfl
  | cons byte l ih =>
    obtain ⟨hhead, htail⟩ := oneLine_cons.mp h
    have hhead' : ¬ (byte = 0x0d ∧ (l ++ (crlf ++ rest)).head? = some 0x0a) := by
      cases l with
      | nil => simp [crlf]
      | cons c l => exact hhead
    rw [List.cons_append, splitLine, if_neg hhead', ih htail]
    rfl

/-- What a line is cut off is one line. -/
theorem oneLine_splitLine {data line rest : Bytes} (h : splitLine data = some (line, rest)) :
    OneLine line := by
  induction data generalizing line with
  | nil => cases h
  | cons byte data ih =>
    rw [splitLine] at h
    split at h
    case isTrue => cases h; rfl
    case isFalse hhead =>
      obtain ⟨q, hq, hline⟩ := Option.map_eq_some_iff.mp h
      cases hline
      refine oneLine_cons.mpr ⟨fun hcrlf => hhead ⟨hcrlf.1, ?_⟩, ih hq⟩
      cases data with
      | nil => cases hq
      | cons c data =>
        rw [splitLine] at hq
        split at hq
        case isTrue =>
          cases hq
          exact absurd hcrlf.2 (by simp)
        case isFalse =>
          obtain ⟨q', -, hline'⟩ := Option.map_eq_some_iff.mp hq
          cases hline'
          exact hcrlf.2

theorem trim_within (l : Bytes) : trim l <:+: l := by
  have hsuffix : l.dropWhile isSpace <:+: l := (List.dropWhile_suffix _).isInfix
  refine List.IsInfix.trans ?_ hsuffix
  rw [trim, ← List.reverse_infix, List.reverse_reverse]
  exact (List.dropWhile_suffix _).isInfix

theorem oneLine_trim {l : Bytes} (h : OneLine l) : OneLine (trim l) := h.of_infix (trim_within l)

/-! ### Numbers -/

theorem isDigit_decimal (n : Nat) : ∀ b ∈ decimal n, isDigit b = true := by
  rw [decimal]
  split
  · intro b hb
    obtain rfl := List.mem_singleton.mp hb
    decide
  · intro b hb
    obtain ⟨d, hd, rfl⟩ := List.mem_map.mp hb
    have hlt : d < 10 := Nat.digits_lt_base (by decide) (List.mem_reverse.mp hd)
    interval_cases d <;> decide

theorem decimal_ne_nil (n : Nat) : decimal n ≠ [] := by
  rw [decimal]
  split
  · simp
  · next h => simpa [Nat.digits_eq_nil_iff_eq_zero] using h

theorem isDigit_plain {b : UInt8} (h : isDigit b = true) :
    isSpace b = false ∧ b ≠ 0 ∧ b ≠ 0x0d ∧ b ≠ 0x0a ∧ b ≠ 0x2d ∧ b ≠ 0x2b := by
  simp only [isDigit, Bool.and_eq_true, decide_eq_true_eq, UInt8.le_iff_toNat_le] at h
  simp only [isSpace, Bool.or_eq_false_iff, Bool.and_eq_false_iff, decide_eq_false_iff_not,
    UInt8.le_iff_toNat_le, ne_eq, ← UInt8.toNat_inj]
  simp only [UInt8.reduceToNat] at h ⊢
  omega

theorem value_decimal (n : Nat) :
    (decimal n).foldl (fun v d => 10 * v + (d.toNat - 0x30)) 0 = n := by
  have hfold : ∀ ds : List Nat, (∀ d ∈ ds, d < 10) →
      (ds.reverse.map fun d => UInt8.ofNat (0x30 + d)).foldl
        (fun v d => 10 * v + (d.toNat - 0x30)) 0 = Nat.ofDigits 10 ds := by
    intro ds hds
    induction ds with
    | nil => rfl
    | cons d ds ih =>
      have hd : (UInt8.ofNat (0x30 + d)).toNat = 0x30 + d := by
        have := hds d (by simp)
        rw [UInt8.toNat_ofNat_of_lt' (by simp only [UInt8.size]; omega)]
      rw [List.reverse_cons, List.map_append, List.foldl_append, ih fun e he => hds e (by simp [he]),
        Nat.ofDigits_cons]
      simp only [List.map_cons, List.map_nil, List.foldl_cons, List.foldl_nil, hd]
      omega
  rw [decimal]
  split
  case isTrue h => simp [h]
  case isFalse =>
    rw [hfold _ fun d hd => Nat.digits_lt_base (by decide) hd, Nat.ofDigits_digits]

/-- A number is read as it is written. -/
theorem strtol_decimal {n : Nat} (h : n ≤ 9223372036854775807) :
    strtol (decimal n) = some ((n : Int), []) := by
  have hdigit := isDigit_decimal n
  have hcstr : cStr (decimal n) = decimal n :=
    List.takeWhile_eq_self_iff.mpr fun b hb => by simpa using (isDigit_plain (hdigit b hb)).2.1
  have htake : (decimal n).takeWhile isDigit = decimal n := List.takeWhile_eq_self_iff.mpr hdigit
  have hdrop : (decimal n).dropWhile isDigit = [] := List.dropWhile_eq_nil_iff.mpr hdigit
  have hvalue := value_decimal n
  rcases hd : decimal n with _ | ⟨b, l⟩
  · exact absurd hd (decimal_ne_nil n)
  · rw [hd] at hdigit hcstr htake hdrop hvalue
    obtain ⟨hspace, -, -, -, hminus, hplus⟩ := isDigit_plain (hdigit b (by simp))
    have hscan : scanNumber (b :: l) = some (false, n, []) := by
      rw [scanNumber, hcstr, List.dropWhile_cons_of_neg (by simp [hspace])]
      simp [hminus, hplus, htake, hvalue, hdrop]
    rw [strtol, hscan]
    simp only [Option.map_some, Bool.false_eq_true, if_false]
    congr 2
    omega

theorem trim_eq_self {l : Bytes} (h : ∀ b ∈ l, isSpace b = false) : trim l = l := by
  have hdrop : ∀ l' : Bytes, (∀ b ∈ l', isSpace b = false) → l'.dropWhile isSpace = l' := by
    intro l' h'
    cases l' with
    | nil => rfl
    | cons b l' => exact List.dropWhile_cons_of_neg (by simp [h' b (by simp)])
  rw [trim, hdrop l h, hdrop l.reverse fun b hb => h b (List.mem_reverse.mp hb),
    List.reverse_reverse]

theorem trim_cons_space {b : UInt8} (h : isSpace b = true) (l : Bytes) : trim (b :: l) = trim l := by
  rw [trim, List.dropWhile_cons_of_pos h, ← trim]

theorem trim_decimal (n : Nat) : trim (decimal n) = decimal n :=
  trim_eq_self fun b hb => (isDigit_plain (isDigit_decimal n b hb)).1

theorem oneLine_of_forall {l : Bytes} (h : ∀ b ∈ l, b ≠ 0x0d) : OneLine l := by
  induction l with
  | nil => rfl
  | cons b l ih =>
    exact oneLine_cons.mpr ⟨fun hcrlf => h b (by simp) hcrlf.1, ih fun c hc => h c (by simp [hc])⟩

theorem oneLine_decimal (n : Nat) : OneLine (decimal n) :=
  oneLine_of_forall fun b hb => (isDigit_plain (isDigit_decimal n b hb)).2.2.1

/-! ### Headers -/

/-- A name that a header can have. -/
def IsKey (key : Bytes) : Prop :=
  key.head? ≠ none ∧ key.head? ≠ some 0x20 ∧ key.head? ≠ some 0x09 ∧
    ∀ b ∈ key, b ≠ 0x3a ∧ b ≠ 0 ∧ b ≠ 0x0d

instance (key : Bytes) : Decidable (IsKey key) :=
  have : Decidable (∀ b ∈ key, b ≠ 0x3a ∧ b ≠ 0 ∧ b ≠ 0x0d) := List.decidableBAll _ _
  inferInstanceAs (Decidable (key.head? ≠ none ∧ key.head? ≠ some 0x20 ∧ key.head? ≠ some 0x09 ∧
    ∀ b ∈ key, b ≠ 0x3a ∧ b ≠ 0 ∧ b ≠ 0x0d))

def headerText (key value : Bytes) : Bytes := key ++ [0x3a, 0x20] ++ value

theorem oneLine_headerText {key value : Bytes} (hkey : IsKey key) (hvalue : OneLine value) :
    OneLine (headerText key value) := by
  have hfront : OneLine (key ++ [0x3a, 0x20]) := by
    refine oneLine_of_forall fun b hb => ?_
    rcases List.mem_append.mp hb with hb | hb
    · exact (hkey.2.2.2 b hb).2.2
    · rcases List.mem_pair.mp hb with rfl | rfl <;> decide
  refine hfront.append hvalue (.inl ?_)
  simp

theorem splitColon_headerText {key : Bytes} (hkey : IsKey key) (value : Bytes) :
    splitColon (headerText key value) = some (key, 0x20 :: value) := by
  have hall : ∀ b ∈ key, b ≠ 0x3a := fun b hb => (hkey.2.2.2 b hb).1
  have hcstr : 0x3a ∈ cStr (headerText key value) := by
    rw [headerText, cStr, List.append_assoc, List.takeWhile_append_of_pos
      fun b hb => by simpa using (hkey.2.2.2 b hb).2.1]
    simp
  rw [splitColon, if_pos hcstr, headerText, List.append_assoc,
    List.takeWhile_append_of_pos fun b hb => by simpa using hall b hb,
    List.dropWhile_append_of_pos fun b hb => by simpa using hall b hb]
  simp

/-- What a line does to the dictionary. -/
def addHeader (dict : Dict) (h : Bytes × Bytes) : Dict :=
  dict.add ((trim h.1).map tolower) (0x20 :: h.2)

theorem headerLine_headerText {key : Bytes} (hkey : IsKey key) (value : Bytes) (dict : Dict)
    (last : Option Bytes) :
    headerLine dict last (headerText key value) =
      (addHeader dict (key, value), some ((trim key).map tolower)) := by
  have hsplit := splitColon_headerText hkey value
  obtain ⟨hne, hblank, htab, -⟩ := hkey
  have hhead : (headerText key value).head? = key.head? := by
    cases key with
    | nil => exact absurd rfl hne
    | cons b key => rfl
  simp only [headerLine, hhead, hblank, htab, or_self, if_false, hsplit]
  rfl

/-- The lines of the headers, each with its end. -/
def headersText (headers : List (Bytes × Bytes)) : Bytes :=
  headers.flatMap fun h => headerText h.1 h.2 ++ crlf

theorem headerLines_headersText {headers : List (Bytes × Bytes)}
    (hheaders : ∀ h ∈ headers, IsKey h.1 ∧ OneLine h.2) {fuel : Nat} (hfuel : headers.length < fuel)
    (dict : Dict) (last : Option Bytes) (rest : Bytes) :
    headerLines fuel dict last (headersText headers ++ (crlf ++ rest)) =
      some (headers.foldl addHeader dict, rest, true) := by
  induction headers generalizing fuel dict last with
  | nil =>
    obtain ⟨fuel, rfl⟩ : ∃ k, fuel = k + 1 := ⟨fuel - 1, by omega⟩
    rfl
  | cons h headers ih =>
    obtain ⟨fuel, rfl⟩ : ∃ k, fuel = k + 1 := ⟨fuel - 1, by omega⟩
    obtain ⟨hkey, hvalue⟩ := hheaders h (by simp)
    have hline := splitLine_crlf (oneLine_headerText hkey hvalue)
      (headersText headers ++ (crlf ++ rest))
    have htext : headersText (h :: headers) ++ (crlf ++ rest) =
        headerText h.1 h.2 ++ (crlf ++ (headersText headers ++ (crlf ++ rest))) := by
      simp [headersText]
    obtain ⟨c, line, hc⟩ : ∃ c line, headerText h.1 h.2 = c :: line := by
      cases hfirst : h.1 with
      | nil => exact absurd (by rw [hfirst]; rfl) hkey.1
      | cons b key => exact ⟨b, _, rfl⟩
    have hadd := headerLine_headerText hkey h.2 dict last
    rw [htext]
    rw [hc] at hline hadd ⊢
    rw [List.cons_append, headerLines, ← List.cons_append, hline]
    simp only [hadd]
    exact ih (fun q hq => hheaders q (by simp [hq])) (by simpa using hfuel) _ _

/-! ### Messages -/

/-- A message as text. -/
def text (first : Bytes) (headers : List (Bytes × Bytes)) (content : Bytes) : Bytes :=
  first ++ (crlf ++ (headersText headers ++ (crlf ++ content)))

def dictOf (first : Bytes) (headers : List (Bytes × Bytes)) : Dict :=
  Dict.trimmed (headers.foldl addHeader [(requestKey, first)])

def messageOf (first : Bytes) (headers : List (Bytes × Bytes)) (content : Bytes) : Message :=
  ⟨dictOf first headers, content⟩

/-- What a text must be like to be read as it was written. -/
structure Readable (first : Bytes) (headers : List (Bytes × Bytes)) (content : Bytes) : Prop where
  oneLine : OneLine first
  ofKeys : ∀ h ∈ headers, IsKey h.1 ∧ OneLine h.2
  length : (dictOf first headers).contentLength = content.length

theorem length_headersText (headers : List (Bytes × Bytes)) :
    headers.length ≤ (headersText headers).length := by
  induction headers with
  | nil => simp
  | cons h headers ih =>
    have htwo : crlf.length = 2 := rfl
    simp only [headersText, List.flatMap_cons, List.length_append, List.length_cons] at ih ⊢
    omega

/-- The header of a text is the one that was written, whatever comes behind the message. -/
theorem header_text {first : Bytes} {headers : List (Bytes × Bytes)} {content : Bytes}
    (h : Readable first headers content) (rest : Bytes) :
    header (text first headers content ++ rest) =
      some (headers.foldl addHeader [(requestKey, first)], content ++ rest, true) := by
  have htext : text first headers content ++ rest =
      first ++ (crlf ++ (headersText headers ++ (crlf ++ (content ++ rest)))) := by
    simp [text]
  rw [header, htext, splitLine_crlf h.oneLine, Option.bind_some]
  refine headerLines_headersText h.ofKeys ?_ _ _ _
  have := length_headersText headers
  simp only [crlf, List.length_append, List.length_cons]
  omega

theorem parse_text {first : Bytes} {headers : List (Bytes × Bytes)} {content : Bytes}
    (h : Readable first headers content) (rest : Bytes) :
    parse (text first headers content ++ rest) =
      some (messageOf first headers content, (text first headers content).length) := by
  have hlen := h.length
  rw [dictOf] at hlen
  rw [parse, header_text h rest]
  simp only [hlen, List.length_append]
  rw [if_neg (by omega), List.take_left' rfl]
  simp only [messageOf, dictOf, Option.some.injEq, Prod.mk.injEq, true_and]
  simp only [text, List.length_append]
  omega

/-- A text is taken off the front of a stream as the one message that it is, whatever comes behind
    it: if it does not begin like a binary packet and is no request for an IDR frame. -/
theorem complete_text {first : Bytes} {headers : List (Bytes × Bytes)} {content : Bytes}
    (h : Readable first headers content) (hfirst : first.head? ≠ some 0x24) (hne : first ≠ [])
    (hidr : content.take 17 ≠ idrRequest) (rest : Bytes) :
    complete true (text first headers content ++ rest) =
      some (.data (messageOf first headers content), rest) := by
  have hparse := parse_text h rest
  have hhead : ¬ (text first headers content ++ rest).head? = some 0x24 := by
    cases first with
    | nil => exact absurd rfl hne
    | cons b first => exact hfirst
  have hnotIdr : isIdrRequest (messageOf first headers content)
      (text first headers content).length = false := by
    simp [isIdrRequest, messageOf, hidr]
  have hcut : ¬ cut (text first headers content ++ rest) = true := by
    have hwhole : cutInHeader (text first headers content ++ rest) = false := by
      simp [cutInHeader, header_text h rest]
    simp [cut, hparse, hwhole, cutBehindIdr, hnotIdr]
  rw [complete, if_pos rfl, guarded_of_not hcut, NetworkSession.nextRtsp_message hhead hparse,
    messageEnd, if_neg (by simp [hnotIdr]), List.drop_left]

/-! ### What is found in a message -/

theorem findString_add (dict : Dict) (key value name : Bytes) :
    Dict.findString (dict.add key value) name =
      if key = name then some value else Dict.findString dict name := by
  induction dict with
  | nil =>
    by_cases h : key = name <;> simp [Dict.add, Dict.findString, h]
  | cons q dict ih =>
    obtain ⟨k, v⟩ := q
    rw [Dict.add]
    by_cases hk : k = key
    · subst hk
      by_cases h : k = name <;> simp [Dict.findString, h]
    · rw [if_neg hk]
      split
      · by_cases h : key = name <;> simp [Dict.findString, h]
      · by_cases hkn : k = name
        · have h : ¬ key = name := fun h => hk (hkn.trans h.symm)
          simp [Dict.findString, hkn, h]
        · have hrest : ∀ d : Dict, Dict.findString ((k, v) :: d) name = Dict.findString d name := by
            intro d
            simp [Dict.findString, hkn]
          rw [hrest, hrest, ih]

theorem findString_trimmed (dict : Dict) (name : Bytes) :
    Dict.findString dict.trimmed name = (Dict.findString dict name).map trim := by
  induction dict with
  | nil => rfl
  | cons q dict ih =>
    by_cases h : q.1 = name
    · simp [Dict.findString, Dict.trimmed, h]
    · simpa [Dict.findString, Dict.trimmed, h] using ih

/-- The last header of a name is the one that is found. -/
theorem findString_dictOf (first : Bytes) (headers : List (Bytes × Bytes))
    (key value name : Bytes) : Dict.findString (dictOf first (headers ++ [(key, value)])) name =
      if (trim key).map tolower = name then some (trim value)
      else Dict.findString (dictOf first headers) name := by
  rw [dictOf, dictOf, List.foldl_append, List.foldl_cons, List.foldl_nil, addHeader,
    findString_trimmed, findString_add, findString_trimmed]
  split
  · simp [trim_cons_space (b := 0x20) (by decide)]
  · rfl

theorem findString_dictOf_nil (first name : Bytes) (h : requestKey ≠ name) :
    Dict.findString (dictOf first []) name = none := by
  rw [dictOf, List.foldl_nil, findString_trimmed]
  simp [Dict.findString, h]

theorem toInt32_of_lt {n : Nat} (h : n < 2147483648) : toInt32 n = n := by
  rw [toInt32]
  exact Int.bmod_eq_of_le (by omega) (by omega)

theorem findInt32_decimal {dict : Dict} {name : Bytes} {n : Nat} (h : n < 2147483648)
    (hname : dict.findString name = some (decimal n)) : dict.findInt32 name = some (n : Int) := by
  have hread : (dict.findString name).bind strtol = some ((n : Int), []) := by
    rw [hname]
    exact strtol_decimal (by omega)
  rw [Dict.findInt32, hread]
  exact congrArg some (toInt32_of_lt h)

/-! ### Values are lines -/

/-- No value of the dictionary has a CR LF in it. -/
def OfLines (dict : Dict) : Prop := ∀ q ∈ dict, OneLine q.2

theorem ofLines_add {dict : Dict} (h : OfLines dict) {value : Bytes} (hvalue : OneLine value)
    (key : Bytes) : OfLines (dict.add key value) := by
  induction dict with
  | nil =>
    intro q hq
    obtain rfl := List.mem_singleton.mp hq
    exact hvalue
  | cons p dict ih =>
    have hrest : OfLines dict := fun q hq => h q (List.mem_cons_of_mem _ hq)
    intro q hq
    rw [Dict.add] at hq
    split at hq
    · rcases List.mem_cons.mp hq with rfl | hq
      · exact hvalue
      · exact hrest q hq
    · split at hq
      · rcases List.mem_cons.mp hq with rfl | hq
        · exact hvalue
        · exact h q hq
      · rcases List.mem_cons.mp hq with rfl | hq
        · exact h _ (List.mem_cons_self ..)
        · exact ih hrest q hq

theorem ofLines_extend {dict : Dict} (h : OfLines dict) {line : Bytes} (hline : OneLine line)
    (hhead : line.head? ≠ some 0x0a) (key : Bytes) : OfLines (dict.extend key line) := by
  intro q hq
  obtain ⟨p, hp, rfl⟩ := List.mem_map.mp hq
  split
  · exact (h p hp).append hline (.inr hhead)
  · exact h p hp

theorem ofLines_headerLine {dict : Dict} (h : OfLines dict) {line : Bytes} (hline : OneLine line)
    (last : Option Bytes) : OfLines (headerLine dict last line).1 := by
  simp only [headerLine]
  split
  · next hblank =>
    have hhead : line.head? ≠ some 0x0a := by
      rcases hblank with hblank | hblank <;> rw [hblank] <;> decide
    split
    · exact ofLines_extend h hline hhead _
    · exact h
  · split
    · next key value hsplit =>
      refine ofLines_add h ?_ _
      rw [splitColon] at hsplit
      split at hsplit
      · cases hsplit
        exact hline.of_infix
          ((List.tail_suffix _).trans (List.dropWhile_suffix _)).isInfix
      · cases hsplit
    · exact h

theorem ofLines_headerLines {fuel : Nat} {dict dict' : Dict} {last : Option Bytes}
    {data rest : Bytes} {blank : Bool} (h : OfLines dict)
    (hlines : headerLines fuel dict last data = some (dict', rest, blank)) : OfLines dict' := by
  induction fuel generalizing dict last data with
  | zero =>
    cases data with
    | nil =>
      cases hlines
      exact h
    | cons _ _ => cases hlines
  | succ fuel ih =>
    cases data with
    | nil =>
      cases hlines
      exact h
    | cons byte data =>
      rw [headerLines] at hlines
      rcases hline : splitLine (byte :: data) with _ | ⟨_ | ⟨c, line⟩, rest'⟩
      · simp [hline] at hlines
      · simp only [hline] at hlines
        cases hlines
        exact h
      · simp only [hline] at hlines
        exact ih (ofLines_headerLine h (oneLine_splitLine hline) last) hlines

/-- Whatever comes in, no value of a parsed message has a CR LF in it. -/
theorem ofLines_parse {data : Bytes} {m : Message} {length : Nat}
    (h : parse data = some (m, length)) : OfLines m.dict := by
  rw [parse] at h
  split at h
  · cases h
  · next dict rest blank hheader =>
    rw [header] at hheader
    obtain ⟨q, hq, hlines⟩ := Option.bind_eq_some_iff.mp hheader
    have hfirst : OfLines [(requestKey, q.1)] := by
      intro p hp
      obtain rfl := List.mem_singleton.mp hp
      exact oneLine_splitLine hq
    have hdict := ofLines_headerLines hfirst hlines
    dsimp only at h
    split at h
    · cases h
    · cases h
      intro p hp
      obtain ⟨p', hp', rfl⟩ := List.mem_map.mp hp
      exact oneLine_trim (hdict p' hp')

theorem OfLines.findString {dict : Dict} (h : OfLines dict) {name value : Bytes}
    (hname : dict.findString name = some value) : OneLine value := by
  obtain ⟨q, hq, rfl⟩ := Option.map_eq_some_iff.mp hname
  exact h q (List.mem_of_find?_eq_some hq)

end Streambox.WifiDisplay.RtspText
