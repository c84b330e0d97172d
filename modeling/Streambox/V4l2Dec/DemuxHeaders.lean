import Streambox.V4l2Dec.DemuxPackets

/-! demux.c: the codec header of a stream, from its extradata.

    A configuration record holds parameter sets behind lengths of two bytes; the header that goes to
    the decoder has them behind start codes.

        avcC   01 .. size-1 nSPS  len sps ..  nPPS  len pps ..
        hvcC   (21 bytes) size-1 nArrays  type n  len nal ..  type n  len nal ..

    The output has 4096 bytes. `h264_header_parse` compares a set's length with what is left of the
    record, but not the place of a length or a count, and writes one start code for all the sets of
    a group; `h265_header_parse` compares nothing. Neither looks at the size of the output. -/

namespace Streambox.V4l2Dec.DemuxHeaders
open Streambox.Lib Streambox.V4l2Dec.DemuxPackets

/-- How a parse stops before its end: it reads or writes outside its memory, or it goes to
    `err_exit`. -/
inductive Stop where
  | outside
  | errExit
  deriving DecidableEq, Repr

/-- What a parser returns: 0 with the output, or an error with the number of outputs that were
    allocated and freed. -/
inductive Outcome where
  | done (out : Bytes) (nalSize : Nat) (raw : Bool)
  | failed (ret : Int) (allocated freed : Nat)
  deriving DecidableEq, Repr

/-- `*p++`, with the bytes behind it. -/
def takeByte : Bytes → Except Stop (UInt8 × Bytes)
  | [] => .error .outside
  | b :: rest => .ok (b, rest)

/-- `WORD_BE(p)` and `p += 2`. -/
def takeWord : Bytes → Except Stop (Nat × Bytes)
  | [] => .error .outside
  | [_] => .error .outside
  | b :: c :: rest => .ok (bigEndian [b, c], rest)

/-- `malloc(4096)`. -/
def outSize : Nat := 4096

/-- `memcpy` behind what is in the output. -/
def append (out bytes : Bytes) : Except Stop Bytes :=
  if out.length + bytes.length ≤ outSize then .ok (out ++ bytes) else .error .outside

/-- The start code in front of parameter sets. -/
def insertCode (nalSize : Nat) (out : Bytes) : Except Stop Bytes :=
  if nalSize = 3 then append out [0, 0, 1]
  else if nalSize = 4 then append out [0, 0, 0, 1]
  else .error .errExit

/-- The end of a parse that has allocated its output; `none` is one that left its memory. -/
def settle : Except Stop Outcome → Option Outcome
  | .ok r => some r
  | .error .errExit => some (.failed (-2) 1 1)
  | .error .outside => none

/-! ### avcC -/

/-- The loop over the sets of a group, with what is behind them and the output. -/
def copySets : Nat → Bytes → Bytes → Except Stop (Bytes × Bytes)
  | 0, rest, out => .ok (rest, out)
  | cnt + 1, rest, out =>
    (takeWord rest).bind fun w =>
      if w.2.length < w.1 then .error .errExit
      else (append out (w.2.take w.1)).bind fun out => copySets cnt (w.2.drop w.1) out

/-- A group of sets behind one start code. -/
def copyGroup (nalSize cnt : Nat) (rest out : Bytes) : Except Stop (Bytes × Bytes) :=
  (if cnt ≠ 0 then insertCode nalSize out else .ok out).bind fun out => copySets cnt rest out

/-- The record behind the number of its SPS. -/
def avcSets (nalSize cnt : Nat) (rest : Bytes) : Except Stop Outcome :=
  (copyGroup nalSize cnt rest []).bind fun sps =>
    (takeByte sps.1).bind fun pps =>
      (copyGroup nalSize pps.1.toNat pps.2 sps.2).bind fun r => .ok (.done r.2 nalSize false)

/-- Extradata that is no record goes to the output as it is. -/
def rawHeader (nalSize : Nat) (data : Bytes) : Except Stop Outcome :=
  (append [] data).bind fun out => .ok (.done out nalSize true)

/-- `h264_header_parse`. The bytes that are looked at directly are among the first seven. -/
def h264HeaderParse (data : Bytes) : Option Outcome :=
  if data = [] then some (.failed (-1) 0 0)
  else if data.length < 7 then some (.failed (-1) 0 0)
  else if data.getD 0 0 ≠ 1 then
    if data.getD 0 0 = 0 ∧ data.getD 1 0 = 0 ∧ data.getD 2 0 = 1 then settle (rawHeader 3 data)
    else if data.getD 0 0 = 0 ∧ data.getD 1 0 = 0 ∧ data.getD 3 0 = 0 ∧ data.getD 4 0 = 1 then
      settle (rawHeader 4 data)
    else some (.failed (-1) 0 0)
  else
    settle (avcSets ((data.getD 4 0 &&& 3).toNat + 1) (data.getD 5 0 &&& 31).toNat (data.drop 6))

/-! ### hvcC -/

/-- VPS, SPS or PPS. -/
def isParameterSet (b : UInt8) : Bool :=
  (b &&& 0x3f) == 32 || (b &&& 0x3f) == 33 || (b &&& 0x3f) == 34

/-- The loop over the units of an array; only parameter sets are copied. -/
def copyNals (nalSize : Nat) (sets : Bool) : Nat → Bytes → Bytes → Except Stop (Bytes × Bytes)
  | 0, rest, out => .ok (rest, out)
  | cnt + 1, rest, out =>
    (takeWord rest).bind fun w =>
      (if sets then
        (insertCode nalSize out).bind fun out =>
          if w.2.length < w.1 then .error .outside else append out (w.2.take w.1)
      else .ok out).bind fun out => copyNals nalSize sets cnt (w.2.drop w.1) out

/-- The loop over the arrays. -/
def copyArrays (nalSize : Nat) : Nat → Bytes → Bytes → Except Stop (Bytes × Bytes)
  | 0, rest, out => .ok (rest, out)
  | numArrays + 1, rest, out =>
    (takeByte rest).bind fun type =>
      (takeWord type.2).bind fun num =>
        (copyNals nalSize (isParameterSet type.1) num.1 num.2 out).bind fun r =>
          copyArrays nalSize numArrays r.1 r.2

/-- The record from its byte 21 on. -/
def hvcArrays (rest : Bytes) : Except Stop Outcome :=
  (takeByte rest).bind fun size =>
    (takeByte size.2).bind fun num =>
      (copyArrays ((size.1 &&& 3).toNat + 1) num.1.toNat num.2 []).bind fun r =>
        .ok (.done r.2 ((size.1 &&& 3).toNat + 1) false)

/-- `h265_header_parse`. -/
def h265HeaderParse (data : Bytes) : Option Outcome :=
  if data = [] then some (.failed (-1) 0 0)
  else if data.length < 7 then some (.failed (-1) 0 0)
  else if (data.getD 0 0 = 0 ∧ data.getD 1 0 = 0 ∧ data.getD 2 0 = 1) ∨
      (data.getD 0 0 = 0 ∧ data.getD 1 0 = 0 ∧ data.getD 2 0 = 0 ∧ data.getD 3 0 = 1) then
    some (.done [] 4 true)
  else settle (hvcArrays (data.drop 21))

/-! ### What is asked of a parser -/

/-- Sets in Annex-B form. -/
def annexB (L : Nat) (sets : List Bytes) : Bytes := sets.flatMap fun s => startCode L ++ s

/-- An Annex-B header starts with a start code of three or four bytes. -/
def StartsWithCode (data : Bytes) : Prop := [0, 0, 1] <+: data ∨ [0, 0, 0, 1] <+: data

instance (data : Bytes) : Decidable (StartsWithCode data) :=
  inferInstanceAs (Decidable ([0, 0, 1] <+: data ∨ [0, 0, 0, 1] <+: data))

/-- The sets of a record that has an Annex-B form in the output. -/
def Fits (L : Nat) (sets : List Bytes) : Prop :=
  (L = 3 ∨ L = 4) ∧ (annexB L sets).length ≤ outSize

/-- The outcome of a parse of `data`, where `Record L sets` says that the data is a configuration
    record: no memory is left, a record that fits gives its sets in Annex-B form, a start code gives
    a raw stream, and everything else an error with as many outputs freed as were allocated. -/
def Handled (outcome : Option Outcome) (Record : Nat → List Bytes → Prop) (data : Bytes) : Prop :=
  ∃ r, outcome = some r ∧
    (∀ L sets, Record L sets → Fits L sets → r = .done (annexB L sets) L false) ∧
    (StartsWithCode data → ∃ out L, r = .done out L true) ∧
    ((¬ ∃ L sets, Record L sets ∧ Fits L sets) → ¬ StartsWithCode data →
      ∃ ret k, ret ≠ 0 ∧ r = .failed ret k k)

/-- `data` is an `AVCDecoderConfigurationRecord`, perhaps with more behind it. -/
def AvcRecord (data : Bytes) (L : Nat) (sets : List Bytes) : Prop :=
  ∃ (b1 b2 b3 b4 b5 n : UInt8) (spsBytes ppsBytes ext : Bytes) (sps pps : List Bytes),
    data = 1 :: b1 :: b2 :: b3 :: b4 :: b5 :: (spsBytes ++ n :: (ppsBytes ++ ext)) ∧
    L = (b4 &&& 3).toNat + 1 ∧
    Framed 2 spsBytes sps ∧ sps.length = (b5 &&& 31).toNat ∧
    Framed 2 ppsBytes pps ∧ pps.length = n.toNat ∧
    sets = sps ++ pps

/-- Arrays of units, each behind its type and the number of its units. -/
inductive Arrays : Bytes → List (UInt8 × List Bytes) → Prop
  | nil : Arrays [] []
  | array (type : UInt8) (num bytes rest : Bytes) (us : List Bytes)
      (arrays : List (UInt8 × List Bytes)) :
      num.length = 2 → bigEndian num = us.length → Framed 2 bytes us → Arrays rest arrays →
      Arrays (type :: (num ++ (bytes ++ rest))) ((type, us) :: arrays)

/-- The parameter sets of an array. -/
def setsOf (array : UInt8 × List Bytes) : List Bytes :=
  if isParameterSet array.1 then array.2 else []

/-- `data` is an `HEVCDecoderConfigurationRecord`, perhaps with more behind it. -/
def HvcRecord (data : Bytes) (L : Nat) (sets : List Bytes) : Prop :=
  ∃ (general : Bytes) (size num : UInt8) (bytes ext : Bytes)
    (arrays : List (UInt8 × List Bytes)),
    data = 1 :: (general ++ size :: num :: (bytes ++ ext)) ∧ general.length = 20 ∧
    L = (size &&& 3).toNat + 1 ∧
    Arrays bytes arrays ∧ arrays.length = num.toNat ∧ sets = arrays.flatMap setsOf

/-! ### Sets behind their lengths -/

/-- How far a number of sets goes: all are there, with what is behind them; or those before a set
    that is longer than what is left; or a length is not there. -/
inductive Walk where
  | done (sets : List Bytes) (rest : Bytes)
  | overrun (sets : List Bytes)
  | short
  deriving DecidableEq, Repr

def Walk.push (s : Bytes) : Walk → Walk
  | .done sets rest => .done (s :: sets) rest
  | .overrun sets => .overrun (s :: sets)
  | .short => .short

def walkSets : Nat → Bytes → Walk
  | 0, rest => .done [] rest
  | _ + 1, [] => .short
  | _ + 1, [_] => .short
  | cnt + 1, b :: c :: rest =>
    if rest.length < bigEndian [b, c] then .overrun []
    else (walkSets cnt (rest.drop (bigEndian [b, c]))).push (rest.take (bigEndian [b, c]))

/-- What is left and in the output when sets have been walked behind `out`. -/
def Walk.copied (out : Bytes) : Walk → Except Stop (Bytes × Bytes)
  | .done sets rest =>
    if (out ++ sets.flatten).length ≤ outSize then .ok (rest, out ++ sets.flatten)
    else .error .outside
  | .overrun sets =>
    if (out ++ sets.flatten).length ≤ outSize then .error .errExit else .error .outside
  | .short => .error .outside

@[simp]
theorem ok_bind {α β : Type} (a : α) (f : α → Except Stop β) : (Except.ok a).bind f = f a := rfl

@[simp]
theorem error_bind {α β : Type} (e : Stop) (f : α → Except Stop β) :
    (Except.error e).bind f = .error e := rfl

theorem Walk.copied_push (out s : Bytes) (w : Walk) :
    (w.push s).copied out = w.copied (out ++ s) := by
  cases w <;> simp [Walk.push, Walk.copied]

/-- Where the output is full already, nothing more is copied. -/
theorem Walk.copied_full {out : Bytes} (h : outSize < out.length) (w : Walk) :
    w.copied out = .error .outside := by
  cases w with
  | done sets rest => simp [Walk.copied]; omega
  | overrun sets => simp [Walk.copied]; omega
  | short => rfl

theorem copySets_eq (cnt : Nat) (rest out : Bytes) (h : out.length ≤ outSize) :
    copySets cnt rest out = (walkSets cnt rest).copied out := by
  induction cnt generalizing rest out with
  | zero => simp [copySets, walkSets, Walk.copied, h]
  | succ cnt ih =>
    cases rest with
    | nil => rfl
    | cons b rest =>
      cases rest with
      | nil => rfl
      | cons c rest =>
        simp only [copySets, walkSets, takeWord, ok_bind]
        split
        next hover => simp [Walk.copied, h]
        next hover =>
          rw [Walk.copied_push, append]
          split
          next hroom =>
            rw [ok_bind, ih _ _ (by simpa using hroom)]
          next hroom =>
            rw [Walk.copied_full (by simp only [List.length_append]; omega)]
            rfl

theorem Walk.push_eq_done {s rest : Bytes} {w : Walk} {sets : List Bytes}
    (h : w.push s = .done sets rest) : ∃ sets', w = .done sets' rest ∧ sets = s :: sets' := by
  cases w with
  | done sets' rest' =>
    simp only [Walk.push, Walk.done.injEq] at h
    exact ⟨sets', by rw [h.2], h.1.symm⟩
  | overrun sets' => cases h
  | short => cases h

theorem walkSets_done (prev : Int) {cnt : Nat} {bytes rest : Bytes} {sets : List Bytes}
    (h : walkSets cnt bytes = .done sets rest) :
    ∃ front, bytes = front ++ rest ∧ Cut 2 ownLength prev front sets ∧ sets.length = cnt := by
  induction cnt generalizing prev bytes sets with
  | zero =>
    simp only [walkSets, Walk.done.injEq] at h
    obtain ⟨rfl, rfl⟩ := h
    exact ⟨[], rfl, .nil prev, rfl⟩
  | succ cnt ih =>
    cases bytes with
    | nil => cases h
    | cons b bytes =>
      cases bytes with
      | nil => cases h
      | cons c bytes =>
        simp only [walkSets] at h
        split at h
        next => cases h
        next hroom =>
          obtain ⟨sets', hwalk, rfl⟩ := Walk.push_eq_done h
          have htake : (bytes.take (bigEndian [b, c])).length = bigEndian [b, c] :=
            List.length_take_of_le (by omega)
          obtain ⟨front, hdrop, hcut, hlen⟩ :=
            ih ((bytes.take (bigEndian [b, c])).length : Int) hwalk
          refine ⟨[b, c] ++ (bytes.take (bigEndian [b, c]) ++ front), ?_, ?_, ?_⟩
          · simp only [List.cons_append, List.nil_append, List.append_assoc, ← hdrop,
              List.take_append_drop]
          · exact .unit prev [b, c] _ front sets' rfl (ownLength_eq_iff.mpr htake.symm)
              (by simp) hcut
          · rw [List.length_cons, hlen]

theorem walkSets_of_cut {prev : Int} {front : Bytes} {sets : List Bytes}
    (h : Cut 2 ownLength prev front sets) (rest : Bytes) :
    walkSets sets.length (front ++ rest) = .done sets rest := by
  induction h with
  | nil => rfl
  | unit prev field u tail us hfield hlen hne hcut ih =>
    obtain ⟨b, c, rfl⟩ := List.length_eq_two.mp hfield
    have hown : bigEndian [b, c] = u.length := ownLength_eq_iff.mp hlen
    have hroom : ¬ (u ++ (tail ++ rest)).length < bigEndian [b, c] := by
      simp only [List.length_append]
      omega
    simp only [List.length_cons, List.cons_append, List.nil_append, List.append_assoc, walkSets,
      hroom, if_false]
    rw [hown, List.drop_left, List.take_left, ih]
    rfl

/-- The sets are all there exactly if the bytes begin with that many units behind their lengths. -/
theorem walkSets_done_iff (cnt : Nat) (bytes rest : Bytes) (sets : List Bytes) :
    walkSets cnt bytes = .done sets rest ↔
      ∃ front, bytes = front ++ rest ∧ Framed 2 front sets ∧ sets.length = cnt := by
  constructor
  · intro h
    obtain ⟨front, hbytes, hcut, hlen⟩ := walkSets_done 0 h
    exact ⟨front, hbytes, hcut, hlen⟩
  · rintro ⟨front, rfl, hcut, rfl⟩
    exact walkSets_of_cut hcut rest

/-! ### avcC, every byte string -/

/-- The start code of a group, which an empty one does not have. -/
def groupCode (L cnt : Nat) : Bytes := if cnt ≠ 0 then startCode L else []

/-- What is written for a group. -/
def group (L cnt : Nat) (sets : List Bytes) : Bytes := groupCode L cnt ++ sets.flatten

/-- The PPS of a record with lengths of three or four bytes, behind `sps`: every length that is
    looked at is there, unless a set that is too long comes first, and all that is copied has room;
    and if none is missing no group has two sets. -/
def PpsServed (L cnt : Nat) (sps : List Bytes) (num : Nat) (tail : Bytes) : Prop :=
  match walkSets num tail with
  | .short => False
  | .overrun pps => (group L cnt sps ++ group L num pps).length ≤ outSize
  | .done pps _ =>
    (group L cnt sps ++ group L num pps).length ≤ outSize ∧ sps.length ≤ 1 ∧ pps.length ≤ 1

/-- A record, from the number of its SPS on, that is parsed as it should be. With lengths of one or
    two bytes there has to be a set. -/
def AvcServed (L cnt : Nat) (rest : Bytes) : Prop :=
  if L = 3 ∨ L = 4 then
    match walkSets cnt rest with
    | .short => False
    | .overrun sps => (group L cnt sps).length ≤ outSize
    | .done sps after => ∃ n tail, after = n :: tail ∧ PpsServed L cnt sps n.toNat tail
  else cnt ≠ 0 ∨ rest.headD 0 ≠ 0

theorem copyGroup_eq {L : Nat} (hL : L = 3 ∨ L = 4) (cnt : Nat) (rest out : Bytes)
    (h : out.length ≤ outSize) :
    copyGroup L cnt rest out = (walkSets cnt rest).copied (out ++ groupCode L cnt) := by
  rw [copyGroup, groupCode]
  split
  next hcnt =>
    have hcode : insertCode L out = append out (startCode L) := by
      rcases hL with rfl | rfl <;> rfl
    rw [hcode, append]
    split
    next hroom => rw [ok_bind, copySets_eq _ _ _ (by simpa using hroom)]
    next hroom =>
      rw [Walk.copied_full (by simp only [List.length_append]; omega)]
      rfl
  next => rw [ok_bind, copySets_eq _ _ _ h, List.append_nil]

/-- One start code for each set, against one for the group: they are the same number only for one
    set at most. -/
theorem length_annexB (L : Nat) (sets : List Bytes) :
    (annexB L sets).length = (startCode L).length * sets.length + sets.flatten.length := by
  induction sets with
  | nil => rfl
  | cons s sets ih =>
    rw [annexB, List.flatMap_cons, List.length_append, List.length_append, ← annexB, ih]
    simp only [List.length_cons, List.flatten_cons, List.length_append, Nat.mul_succ]
    omega

theorem group_eq_annexB (L : Nat) {sets : List Bytes} (h : sets.length ≤ 1) :
    group L sets.length sets = annexB L sets := by
  cases sets with
  | nil => rfl
  | cons s sets =>
    have hnil : sets = [] := List.length_eq_zero_iff.mp (by simpa using h)
    simp [hnil, group, groupCode, annexB]

theorem startCode_pos (L : Nat) : 0 < (startCode L).length := by
  rw [startCode]
  split <;> decide

theorem length_group (L : Nat) (sets : List Bytes) :
    (group L sets.length sets).length =
      (startCode L).length * min 1 sets.length + sets.flatten.length := by
  rw [group, groupCode]
  cases sets with
  | nil => rfl
  | cons s sets => simp

theorem groups_eq_annexB_iff (L : Nat) (sps pps : List Bytes) :
    group L sps.length sps ++ group L pps.length pps = annexB L (sps ++ pps) ↔
      sps.length ≤ 1 ∧ pps.length ≤ 1 := by
  constructor
  · intro h
    have hlen := congrArg List.length h
    rw [List.length_append, length_group, length_group, length_annexB, List.length_append,
      List.flatten_append, List.length_append, Nat.mul_add] at hlen
    have hpos := startCode_pos L
    have hsps := Nat.mul_le_mul_left (startCode L).length (Nat.min_le_right 1 sps.length)
    have hpps := Nat.mul_le_mul_left (startCode L).length (Nat.min_le_right 1 pps.length)
    have hsps' : min 1 sps.length = sps.length := Nat.eq_of_mul_eq_mul_left hpos (by omega)
    have hpps' : min 1 pps.length = pps.length := Nat.eq_of_mul_eq_mul_left hpos (by omega)
    omega
  · rintro ⟨hsps, hpps⟩
    rw [group_eq_annexB L hsps, group_eq_annexB L hpps, annexB, annexB, annexB,
      List.flatMap_append]

/-- An outcome that is an error with nothing left allocated. -/
def Fails (outcome : Option Outcome) : Prop :=
  ∃ ret k, ret ≠ 0 ∧ outcome = some (.failed ret k k)

theorem handled_iff_fails {outcome : Option Outcome} {Record : Nat → List Bytes → Prop}
    {data : Bytes} (hrecord : ¬ ∃ L sets, Record L sets ∧ Fits L sets)
    (hcode : ¬ StartsWithCode data) : Handled outcome Record data ↔ Fails outcome := by
  constructor
  · rintro ⟨r, rfl, -, -, hfails⟩
    obtain ⟨ret, k, hret, rfl⟩ := hfails hrecord hcode
    exact ⟨ret, k, hret, rfl⟩
  · rintro ⟨ret, k, hret, rfl⟩
    refine ⟨_, rfl, ?_, fun h => absurd h hcode, fun _ _ => ⟨ret, k, hret, rfl⟩⟩
    intro L sets hr hf
    exact absurd ⟨L, sets, hr, hf⟩ hrecord

theorem not_handled_none {Record : Nat → List Bytes → Prop} {data : Bytes} :
    ¬ Handled none Record data := by
  rintro ⟨r, h, -⟩
  cases h

theorem not_fails_none : ¬ Fails none := by
  rintro ⟨ret, k, -, h⟩
  cases h

theorem fails_errExit : Fails (settle (.error .errExit)) := ⟨-2, 1, by decide, rfl⟩

theorem not_fails_done (out : Bytes) (L : Nat) (raw : Bool) :
    ¬ Fails (some (.done out L raw)) := by
  rintro ⟨ret, k, -, h⟩
  cases h

section avc
variable {b1 b2 b3 b4 b5 : UInt8} {rest : Bytes}

theorem not_startsWithCode_one (tail : Bytes) : ¬ StartsWithCode (1 :: tail) := by
  rintro (h | h)
  · have := List.cons_prefix_cons.mp h
    exact absurd this.1 (by decide)
  · have := List.cons_prefix_cons.mp h
    exact absurd this.1 (by decide)

/-- A record through the walks over its two groups. -/
theorem avcRecord_iff {L : Nat} {sets : List Bytes} :
    AvcRecord (1 :: b1 :: b2 :: b3 :: b4 :: b5 :: rest) L sets ↔
      L = (b4 &&& 3).toNat + 1 ∧
      ∃ sps n tail pps ext, walkSets (b5 &&& 31).toNat rest = .done sps (n :: tail) ∧
        walkSets n.toNat tail = .done pps ext ∧ sets = sps ++ pps := by
  constructor
  · rintro ⟨_, _, _, _, _, n, spsBytes, ppsBytes, ext, sps, pps, hdata, hL, hsps, hspsLen, hpps,
      hppsLen, hsets⟩
    simp only [List.cons.injEq, true_and] at hdata
    obtain ⟨rfl, rfl, rfl, rfl, rfl, rfl⟩ := hdata
    refine ⟨hL, sps, n, ppsBytes ++ ext, pps, ext, ?_, ?_, hsets⟩
    · exact (walkSets_done_iff _ _ _ _).mpr ⟨spsBytes, rfl, hsps, hspsLen⟩
    · exact (walkSets_done_iff _ _ _ _).mpr ⟨ppsBytes, rfl, hpps, hppsLen⟩
  · rintro ⟨hL, sps, n, tail, pps, ext, hwalk, hwalk', hsets⟩
    obtain ⟨spsBytes, rfl, hsps, hspsLen⟩ := (walkSets_done_iff _ _ _ _).mp hwalk
    obtain ⟨ppsBytes, rfl, hpps, hppsLen⟩ := (walkSets_done_iff _ _ _ _).mp hwalk'
    exact ⟨b1, b2, b3, b4, b5, n, spsBytes, ppsBytes, ext, sps, pps, rfl, hL, hsps, hspsLen, hpps,
      hppsLen, hsets⟩

/-- With lengths of one or two bytes the parse fails at the first set, and there has to be one. -/
theorem fails_avcSets_iff {L : Nat} (hL : ¬ (L = 3 ∨ L = 4)) (cnt : Nat) (hne : rest ≠ []) :
    Fails (settle (avcSets L cnt rest)) ↔ cnt ≠ 0 ∨ rest.headD 0 ≠ 0 := by
  have hcode : ∀ out, insertCode L out = .error .errExit := by
    intro out
    simp only [not_or] at hL
    simp [insertCode, hL.1, hL.2]
  cases rest with
  | nil => exact absurd rfl hne
  | cons b tail =>
    by_cases hcnt : cnt = 0
    · by_cases hb : b = 0
      · have hdone : avcSets L 0 (b :: tail) = .ok (.done [] L false) := by
          simp [avcSets, copyGroup, copySets, takeByte, hb]
        rw [hcnt, hdone]
        exact iff_of_false (not_fails_done [] L false) (by simp [hb])
      · have hpos : b.toNat ≠ 0 := fun h => hb (UInt8.toNat_inj.mp h)
        have herr : avcSets L 0 (b :: tail) = .error .errExit := by
          simp [avcSets, copyGroup, copySets, takeByte, hpos, hcode]
        rw [hcnt, herr]
        exact iff_of_true fails_errExit (by simp [hb])
    · have herr : avcSets L cnt (b :: tail) = .error .errExit := by
        simp [avcSets, copyGroup, hcnt, hcode]
      rw [herr]
      exact iff_of_true fails_errExit (by simp [hcnt])

/-- The parse behind the SPS, where there is room for them. -/
theorem avcSets_of_sps {L cnt : Nat} (hL : L = 3 ∨ L = 4) {sps : List Bytes} {n : UInt8}
    {tail : Bytes} (hwalk : walkSets cnt rest = .done sps (n :: tail))
    (hroom : (group L cnt sps).length ≤ outSize) :
    avcSets L cnt rest =
      ((walkSets n.toNat tail).copied (group L cnt sps ++ groupCode L n.toNat)).bind fun r =>
        .ok (.done r.2 L false) := by
  rw [avcSets, copyGroup_eq hL cnt rest [] (Nat.zero_le _), hwalk, Walk.copied, List.nil_append,
    ← group, if_pos hroom, ok_bind, takeByte, ok_bind, copyGroup_eq hL _ _ _ hroom]

/-- The parse where it stops in the SPS. -/
theorem avcSets_of_stop {L cnt : Nat} (hL : L = 3 ∨ L = 4) {e : Stop}
    (h : (walkSets cnt rest).copied (groupCode L cnt) = .error e) :
    avcSets L cnt rest = .error e := by
  rw [avcSets, copyGroup_eq hL cnt rest [] (Nat.zero_le _), List.nil_append, h, error_bind]

/-- A complete record that has room: the sets are what they should be if no group has two. -/
theorem handled_complete_iff {Record : Nat → List Bytes → Prop} {data : Bytes} {L : Nat}
    {sps pps : List Bytes} (hcode : ¬ StartsWithCode data) (hL : L = 3 ∨ L = 4)
    (hrecord : ∀ L' sets, Record L' sets ↔ L' = L ∧ sets = sps ++ pps)
    (hroom : (group L sps.length sps ++ group L pps.length pps).length ≤ outSize) :
    Handled (some (.done (group L sps.length sps ++ group L pps.length pps) L false)) Record data ↔
      sps.length ≤ 1 ∧ pps.length ≤ 1 := by
  constructor
  · rintro ⟨r, hr, hsets, -, hfails⟩
    cases hr
    by_cases hfits : Fits L (sps ++ pps)
    · have hdone := hsets L (sps ++ pps) ((hrecord _ _).mpr ⟨rfl, rfl⟩) hfits
      exact (groups_eq_annexB_iff L sps pps).mp (Outcome.done.inj hdone).1
    · have hnone : ¬ ∃ L' sets, Record L' sets ∧ Fits L' sets := by
        rintro ⟨L', sets, hrec, hf⟩
        obtain ⟨rfl, rfl⟩ := (hrecord _ _).mp hrec
        exact hfits hf
      obtain ⟨ret, k, -, hfailed⟩ := hfails hnone hcode
      cases hfailed
  · intro hone
    rw [(groups_eq_annexB_iff L sps pps).mpr hone] at hroom ⊢
    refine ⟨_, rfl, ?_, fun h => absurd h hcode, ?_⟩
    · intro L' sets hrec _
      obtain ⟨rfl, rfl⟩ := (hrecord _ _).mp hrec
      rfl
    · intro hnone
      exact absurd ⟨L, sps ++ pps, (hrecord _ _).mpr ⟨rfl, rfl⟩, hL, hroom⟩ hnone

/-- A record whose SPS have been copied. -/
theorem handled_pps_iff {Record : Nat → List Bytes → Prop} {data : Bytes} {L num : Nat}
    {sps : List Bytes} {tail : Bytes} (hL : L = 3 ∨ L = 4) (hcode : ¬ StartsWithCode data)
    (hrecord : ∀ L' sets, Record L' sets ↔ L' = L ∧
      ∃ pps ext, walkSets num tail = .done pps ext ∧ sets = sps ++ pps) :
    Handled (settle (((walkSets num tail).copied
        (group L sps.length sps ++ groupCode L num)).bind fun r => .ok (.done r.2 L false)))
        Record data ↔ PpsServed L sps.length sps num tail := by
  have hno : (∀ pps ext, walkSets num tail ≠ .done pps ext) →
      ¬ ∃ L' sets, Record L' sets ∧ Fits L' sets := by
    rintro hwalk ⟨L', sets, hr, -⟩
    obtain ⟨-, pps, ext, hdone, -⟩ := (hrecord _ _).mp hr
    exact hwalk pps ext hdone
  rw [PpsServed]
  cases hwalk : walkSets num tail with
  | short => exact iff_of_false not_handled_none id
  | overrun pps =>
    rw [handled_iff_fails (hno (by simp [hwalk])) hcode, Walk.copied, List.append_assoc, ← group]
    split
    next hroom => exact iff_of_true fails_errExit hroom
    next hroom => exact iff_of_false not_fails_none hroom
  | done pps ext =>
    obtain ⟨-, -, -, hnum⟩ := (walkSets_done_iff _ _ _ _).mp hwalk
    rw [Walk.copied, List.append_assoc, ← group]
    split
    next hroom =>
      rw [← hnum] at hroom ⊢
      have hcomplete : ∀ L' sets, Record L' sets ↔ L' = L ∧ sets = sps ++ pps := by
        intro L' sets
        rw [hrecord, hwalk]
        simp
      exact (handled_complete_iff hcode hL hcomplete hroom).trans (and_iff_right hroom).symm
    next hroom => exact iff_of_false not_handled_none fun h => hroom h.1

theorem PpsServed.room {L cnt num : Nat} {sps : List Bytes} {tail : Bytes}
    (h : PpsServed L cnt sps num tail) : (group L cnt sps).length ≤ outSize := by
  rw [PpsServed] at h
  cases hwalk : walkSets num tail with
  | short =>
    rw [hwalk] at h
    exact absurd h id
  | overrun pps =>
    rw [hwalk] at h
    simp only [List.length_append] at h
    omega
  | done pps ext =>
    rw [hwalk] at h
    simp only [List.length_append] at h
    omega

/-- A record with lengths of three or four bytes. -/
theorem handled_avcSets_iff {Record : Nat → List Bytes → Prop} {data : Bytes} {L cnt : Nat}
    (hL : L = 3 ∨ L = 4) (hcode : ¬ StartsWithCode data)
    (hrecord : ∀ L' sets, Record L' sets ↔ L' = L ∧
      ∃ sps n tail pps ext, walkSets cnt rest = .done sps (n :: tail) ∧
        walkSets n.toNat tail = .done pps ext ∧ sets = sps ++ pps) :
    Handled (settle (avcSets L cnt rest)) Record data ↔ AvcServed L cnt rest := by
  -- where the sets do not end in a walk of both groups the data is no record
  have hno : (∀ sps n tail pps ext, walkSets cnt rest = .done sps (n :: tail) →
      walkSets n.toNat tail ≠ .done pps ext) →
      (Handled (settle (avcSets L cnt rest)) Record data ↔
        Fails (settle (avcSets L cnt rest))) := by
    intro hwalks
    refine handled_iff_fails ?_ hcode
    rintro ⟨L', sets, hr, -⟩
    obtain ⟨-, sps, n, tail, pps, ext, hsps, hpps, -⟩ := (hrecord L' sets).mp hr
    exact hwalks sps n tail pps ext hsps hpps
  rw [AvcServed, if_pos hL]
  cases hwalk : walkSets cnt rest with
  | short =>
    have hstop : (walkSets cnt rest).copied (groupCode L cnt) = .error .outside := by
      rw [hwalk, Walk.copied]
    rw [hno (by simp [hwalk]), avcSets_of_stop hL hstop]
    exact iff_of_false not_fails_none id
  | overrun sps =>
    rw [hno (by simp [hwalk])]
    by_cases hroom : (group L cnt sps).length ≤ outSize
    · have hstop : (walkSets cnt rest).copied (groupCode L cnt) = .error .errExit := by
        rw [hwalk, Walk.copied, ← group, if_pos hroom]
      rw [avcSets_of_stop hL hstop]
      exact iff_of_true fails_errExit hroom
    · have hstop : (walkSets cnt rest).copied (groupCode L cnt) = .error .outside := by
        rw [hwalk, Walk.copied, ← group, if_neg hroom]
      rw [avcSets_of_stop hL hstop]
      exact iff_of_false not_fails_none hroom
  | done sps after =>
    obtain ⟨-, -, -, hcnt⟩ := (walkSets_done_iff _ _ _ _).mp hwalk
    by_cases hroom : (group L cnt sps).length ≤ outSize
    · cases after with
      | nil =>
        have hout : avcSets L cnt rest = .error .outside := by
          rw [avcSets, copyGroup_eq hL cnt rest [] (Nat.zero_le _), List.nil_append, hwalk,
            Walk.copied, ← group, if_pos hroom, ok_bind, takeByte, error_bind]
        rw [hout]
        refine iff_of_false not_handled_none ?_
        rintro ⟨n, tail, h, -⟩
        cases h
      | cons n tail =>
        have hpps : ∀ L' sets, Record L' sets ↔ L' = L ∧
            ∃ pps ext, walkSets n.toNat tail = .done pps ext ∧ sets = sps ++ pps := by
          intro L' sets
          rw [hrecord, hwalk]
          simp
        rw [avcSets_of_sps hL hwalk hroom, ← hcnt, handled_pps_iff hL hcode hpps]
        simp
    · have hstop : (walkSets cnt rest).copied (groupCode L cnt) = .error .outside := by
        rw [hwalk, Walk.copied, ← group, if_neg hroom]
      rw [avcSets_of_stop hL hstop]
      refine iff_of_false not_handled_none ?_
      rintro ⟨n, tail, -, hserved⟩
      exact hroom hserved.room

end avc

/-- The byte strings that `h264_header_parse` handles as it should. One that is too short must not
    begin with a start code. A record is parsed as above. Otherwise a start code of three bytes has
    to leave room for the whole, one of four is never seen, and what is taken for one is none. -/
def Served264 (data : Bytes) : Prop :=
  if data.length < 7 then ¬ StartsWithCode data
  else if data.getD 0 0 = 1 then
    AvcServed ((data.getD 4 0 &&& 3).toNat + 1) (data.getD 5 0 &&& 31).toNat (data.drop 6)
  else if [0, 0, 1] <+: data then data.length ≤ outSize
  else ¬ [0, 0, 0, 1] <+: data ∧
    ¬ (data.getD 0 0 = 0 ∧ data.getD 1 0 = 0 ∧ data.getD 3 0 = 0 ∧ data.getD 4 0 = 1)

section outcomes
variable {Record : Nat → List Bytes → Prop} {data : Bytes}
  (hnone : ¬ ∃ L sets, Record L sets ∧ Fits L sets)

include hnone

theorem handled_failed_iff :
    Handled (some (.failed (-1) 0 0)) Record data ↔ ¬ StartsWithCode data := by
  constructor
  · rintro ⟨r, hr, -, hraw, -⟩ hcode
    obtain ⟨out, L, hdone⟩ := hraw hcode
    cases hr
    cases hdone
  · intro hcode
    exact (handled_iff_fails hnone hcode).mpr ⟨-1, 0, by decide, rfl⟩

theorem handled_raw_iff (out : Bytes) (L : Nat) :
    Handled (some (.done out L true)) Record data ↔ StartsWithCode data := by
  constructor
  · rintro ⟨r, hr, -, -, hfails⟩
    by_contra hcode
    obtain ⟨ret, k, -, hfailed⟩ := hfails hnone hcode
    cases hr
    cases hfailed
  · intro hcode
    refine ⟨_, rfl, ?_, fun _ => ⟨out, L, rfl⟩, fun _ h => absurd hcode h⟩
    intro L' sets hr hf
    exact absurd ⟨L', sets, hr, hf⟩ hnone

end outcomes

theorem AvcRecord.length_ge {data : Bytes} {L : Nat} {sets : List Bytes}
    (h : AvcRecord data L sets) : 7 ≤ data.length ∧ data.getD 0 0 = 1 := by
  obtain ⟨b1, b2, b3, b4, b5, n, spsBytes, ppsBytes, ext, sps, pps, rfl, -⟩ := h
  refine ⟨?_, rfl⟩
  simp only [List.length_cons, List.length_append]
  omega

/-- A string of seven bytes or more, with the first six by name. -/
theorem exists_seven {data : Bytes} (h : ¬ data.length < 7) :
    ∃ b0 b1 b2 b3 b4 b5 rest, data = b0 :: b1 :: b2 :: b3 :: b4 :: b5 :: rest ∧ rest ≠ [] := by
  obtain ⟨b0, d0, rfl⟩ := List.exists_cons_of_length_pos (by omega : 0 < data.length)
  simp only [List.length_cons] at h
  obtain ⟨b1, d1, rfl⟩ := List.exists_cons_of_length_pos (by omega : 0 < d0.length)
  simp only [List.length_cons] at h
  obtain ⟨b2, d2, rfl⟩ := List.exists_cons_of_length_pos (by omega : 0 < d1.length)
  simp only [List.length_cons] at h
  obtain ⟨b3, d3, rfl⟩ := List.exists_cons_of_length_pos (by omega : 0 < d2.length)
  simp only [List.length_cons] at h
  obtain ⟨b4, d4, rfl⟩ := List.exists_cons_of_length_pos (by omega : 0 < d3.length)
  simp only [List.length_cons] at h
  obtain ⟨b5, rest, rfl⟩ := List.exists_cons_of_length_pos (by omega : 0 < d4.length)
  simp only [List.length_cons] at h
  exact ⟨b0, b1, b2, b3, b4, b5, rest, rfl, List.length_pos_iff.mp (by omega)⟩

theorem prefix_three_iff {data : Bytes} (h : ¬ data.length < 7) :
    [0, 0, 1] <+: data ↔ data.getD 0 0 = 0 ∧ data.getD 1 0 = 0 ∧ data.getD 2 0 = 1 := by
  obtain ⟨b0, b1, b2, b3, b4, b5, rest, rfl, -⟩ := exists_seven h
  simp [List.cons_prefix_cons, eq_comm]

theorem prefix_four_iff {data : Bytes} (h : ¬ data.length < 7) :
    [0, 0, 0, 1] <+: data ↔
      data.getD 0 0 = 0 ∧ data.getD 1 0 = 0 ∧ data.getD 2 0 = 0 ∧ data.getD 3 0 = 1 := by
  obtain ⟨b0, b1, b2, b3, b4, b5, rest, rfl, -⟩ := exists_seven h
  simp [List.cons_prefix_cons, eq_comm]

theorem settle_rawHeader (L : Nat) (data : Bytes) :
    settle (rawHeader L data) =
      if data.length ≤ outSize then some (.done data L true) else none := by
  rw [rawHeader, append, List.length_nil, Nat.zero_add]
  split <;> rfl

theorem handled_h264_iff (data : Bytes) :
    Handled (h264HeaderParse data) (AvcRecord data) data ↔ Served264 data := by
  rw [Served264]
  split
  next hshort =>
    have hnone : ¬ ∃ L sets, AvcRecord data L sets ∧ Fits L sets := by
      rintro ⟨L, sets, hr, -⟩
      have := hr.length_ge.1
      omega
    have hparse : h264HeaderParse data = some (.failed (-1) 0 0) := by
      simp [h264HeaderParse, hshort]
    rw [hparse]
    exact handled_failed_iff hnone
  next hlong =>
    have hne : data ≠ [] := by
      rintro rfl
      simp at hlong
    split
    next hone =>
      obtain ⟨b0, b1, b2, b3, b4, b5, rest, rfl, hrest⟩ := exists_seven hlong
      obtain rfl : b0 = 1 := hone
      have hcode := not_startsWithCode_one (b1 :: b2 :: b3 :: b4 :: b5 :: rest)
      have hparse : h264HeaderParse (1 :: b1 :: b2 :: b3 :: b4 :: b5 :: rest) =
          settle (avcSets ((b4 &&& 3).toNat + 1) (b5 &&& 31).toNat rest) := by
        rw [h264HeaderParse, if_neg hne, if_neg hlong, if_neg (by simp)]
        rfl
      rw [hparse]
      by_cases hL : (b4 &&& 3).toNat + 1 = 3 ∨ (b4 &&& 3).toNat + 1 = 4
      · exact handled_avcSets_iff hL hcode fun L' sets => avcRecord_iff
      · have hnone : ¬ ∃ L sets,
            AvcRecord (1 :: b1 :: b2 :: b3 :: b4 :: b5 :: rest) L sets ∧ Fits L sets := by
          rintro ⟨L, sets, hr, hf, -⟩
          exact hL ((avcRecord_iff.mp hr).1 ▸ hf)
        rw [handled_iff_fails hnone hcode, fails_avcSets_iff hL _ hrest]
        exact (iff_of_eq (if_neg hL)).symm
    next hone =>
      have hnone : ¬ ∃ L sets, AvcRecord data L sets ∧ Fits L sets := by
        rintro ⟨L, sets, hr, -⟩
        exact hone hr.length_ge.2
      have hparse : h264HeaderParse data =
          if [0, 0, 1] <+: data then settle (rawHeader 3 data)
          else if data.getD 0 0 = 0 ∧ data.getD 1 0 = 0 ∧ data.getD 3 0 = 0 ∧ data.getD 4 0 = 1 then
            settle (rawHeader 4 data)
          else some (.failed (-1) 0 0) := by
        simp only [prefix_three_iff hlong]
        rw [h264HeaderParse, if_neg hne, if_neg hlong, if_pos hone]
      rw [hparse]
      split
      next hthree =>
        rw [settle_rawHeader]
        split
        next hroom => exact iff_of_true ((handled_raw_iff hnone _ _).mpr (.inl hthree)) hroom
        next hroom => exact iff_of_false not_handled_none hroom
      next hthree =>
        split
        next hmisread =>
          -- the byte that makes a start code of four is not looked at
          have hcode : ¬ StartsWithCode data := by
            rintro (h | h)
            · exact hthree h
            · have h3 := ((prefix_four_iff hlong).mp h).2.2.2
              rw [hmisread.2.2.1] at h3
              cases h3
          rw [settle_rawHeader]
          split
          next => exact iff_of_false (mt (handled_raw_iff hnone _ _).mp hcode) fun h => h.2 hmisread
          next => exact iff_of_false not_handled_none fun h => h.2 hmisread
        next hmisread =>
          rw [handled_failed_iff hnone, StartsWithCode, not_or]
          exact ⟨fun h => ⟨h.2, hmisread⟩, fun h => ⟨hthree, h.1⟩⟩

/-! ### hvcC, every byte string -/

/-- Whether the arrays have a parameter set whose length is there, with nothing cut off before. -/
def meetsSet : Nat → Bytes → Bool
  | 0, _ => false
  | _ + 1, [] => false
  | _ + 1, [_] => false
  | _ + 1, [_, _] => false
  | k + 1, type :: b :: c :: rest =>
    if isParameterSet type && bigEndian [b, c] != 0 then 2 ≤ rest.length
    else
      match walkSets (bigEndian [b, c]) rest with
      | .done _ rest => meetsSet k rest
      | .overrun _ => false
      | .short => false

/-- The byte strings that `h265_header_parse` handles as it should: too short without a start code,
    a start code, a record that fits, or one with lengths of one or two bytes in which a parameter
    set is met. -/
def Served265 (data : Bytes) : Prop :=
  if data.length < 7 then ¬ StartsWithCode data
  else StartsWithCode data ∨ (∃ L sets, HvcRecord data L sets ∧ Fits L sets) ∨
    ∃ size num rest, data.drop 21 = size :: num :: rest ∧
      ¬ ((size &&& 3).toNat + 1 = 3 ∨ (size &&& 3).toNat + 1 = 4) ∧
      meetsSet num.toNat rest = true

/-- Units that are not copied: all are there, or a byte outside is read, or the last one ends
    outside and nothing behind it is looked at. -/
theorem copyNals_skip (L cnt : Nat) (rest out : Bytes) :
    (∀ us after, walkSets cnt rest = .done us after →
      copyNals L false cnt rest out = .ok (after, out)) ∧
    ((∀ us after, walkSets cnt rest ≠ .done us after) →
      copyNals L false cnt rest out = .error .outside ∨
        copyNals L false cnt rest out = .ok ([], out)) := by
  induction cnt generalizing rest with
  | zero =>
    refine ⟨?_, fun h => absurd rfl (h [] rest)⟩
    intro us after h
    rw [(Walk.done.inj h).2]
    rfl
  | succ cnt ih =>
    cases rest with
    | nil => exact ⟨fun us after h => (by cases h), fun _ => .inl rfl⟩
    | cons b rest =>
      cases rest with
      | nil => exact ⟨fun us after h => (by cases h), fun _ => .inl rfl⟩
      | cons c rest =>
        have hstep : copyNals L false (cnt + 1) (b :: c :: rest) out =
            copyNals L false cnt (rest.drop (bigEndian [b, c])) out := rfl
        obtain ⟨hdone, hother⟩ := ih (rest.drop (bigEndian [b, c]))
        rw [hstep, walkSets]
        split
        next hover =>
          refine ⟨fun us after h => (by cases h), fun _ => ?_⟩
          rw [List.drop_eq_nil_of_le (by omega)]
          cases cnt with
          | zero => exact .inr rfl
          | succ cnt => exact .inl rfl
        next hover =>
          constructor
          · intro us after h
            obtain ⟨us', hwalk, -⟩ := Walk.push_eq_done h
            exact hdone us' after hwalk
          · intro h
            refine hother fun us after hwalk => ?_
            exact h (rest.take (bigEndian [b, c]) :: us) after (by rw [hwalk]; rfl)

/-- Without lengths of three or four bytes the parse ends at the first parameter set. -/
theorem copyArrays_errExit_iff {L : Nat} (hL : ¬ (L = 3 ∨ L = 4)) (num : Nat) (rest out : Bytes) :
    copyArrays L num rest out = .error .errExit ↔ meetsSet num rest = true := by
  have hcode : ∀ out, insertCode L out = .error .errExit := by
    intro out
    simp only [not_or] at hL
    simp [insertCode, hL.1, hL.2]
  have hnil : ∀ k, copyArrays L k [] out ≠ .error .errExit := by
    intro k h
    cases k with
    | zero => cases h
    | succ k => cases h
  induction num generalizing rest with
  | zero => exact iff_of_false (fun h => by cases h) (by simp [meetsSet])
  | succ num ih =>
    rcases rest with _ | ⟨type, _ | ⟨b, _ | ⟨c, rest⟩⟩⟩
    · exact iff_of_false (hnil _) (by simp [meetsSet])
    · exact iff_of_false (fun h => by cases h) (by simp [meetsSet])
    · exact iff_of_false (fun h => by cases h) (by simp [meetsSet])
    · have hstep : copyArrays L (num + 1) (type :: b :: c :: rest) out =
          (copyNals L (isParameterSet type) (bigEndian [b, c]) rest out).bind fun r =>
            copyArrays L num r.1 r.2 := rfl
      rw [hstep, meetsSet]
      by_cases hset : isParameterSet type = true ∧ bigEndian [b, c] ≠ 0
      · obtain ⟨k, hk⟩ := Nat.exists_eq_succ_of_ne_zero hset.2
        simp only [hset.1, hk, Bool.true_and, bne_iff_ne, ne_eq, Nat.succ_ne_zero,
          not_false_eq_true, if_true, decide_eq_true_eq]
        rcases rest with _ | ⟨d, _ | ⟨e, rest⟩⟩
        · exact iff_of_false (fun h => by cases h) (by simp)
        · exact iff_of_false (fun h => by cases h) (by simp)
        · refine iff_of_true ?_ (by simp)
          simp [copyNals, takeWord, hcode]
      · -- an array of other units, or an empty one, is walked through
        have hskip : copyNals L (isParameterSet type) (bigEndian [b, c]) rest out =
            copyNals L false (bigEndian [b, c]) rest out := by
          cases htype : isParameterSet type with
          | false => rfl
          | true =>
            have hzero : bigEndian [b, c] = 0 := by
              by_contra hne
              exact hset ⟨htype, hne⟩
            rw [hzero]
            rfl
        have hif : (isParameterSet type && bigEndian [b, c] != 0) = false := by
          simpa using fun htype => by_contra fun hne => hset ⟨htype, hne⟩
        rw [hskip, hif]
        obtain ⟨hdone, hother⟩ := copyNals_skip L (bigEndian [b, c]) rest out
        cases hwalk : walkSets (bigEndian [b, c]) rest with
        | done us after =>
          rw [hdone us after hwalk]
          exact ih after
        | overrun us =>
          rcases hother (by simp [hwalk]) with h | h
          · rw [h]
            exact iff_of_false (fun h => by cases h) (by simp)
          · rw [h]
            exact iff_of_false (hnil num) (by simp)
        | short =>
          rcases hother (by simp [hwalk]) with h | h
          · rw [h]
            exact iff_of_false (fun h => by cases h) (by simp)
          · rw [h]
            exact iff_of_false (hnil num) (by simp)

theorem insertCode_eq {L : Nat} (hL : L = 3 ∨ L = 4) (out : Bytes) :
    insertCode L out = append out (startCode L) := by
  rcases hL with rfl | rfl <;> rfl

theorem append_ne_errExit (out bytes : Bytes) : append out bytes ≠ .error .errExit := by
  rw [append]
  split <;> exact fun h => by cases h

theorem bind_ne_errExit {α β : Type} {x : Except Stop α} {f : α → Except Stop β}
    (hx : x ≠ .error .errExit) (hf : ∀ a, f a ≠ .error .errExit) : x.bind f ≠ .error .errExit := by
  cases x with
  | ok a => exact hf a
  | error e =>
    intro h
    rw [error_bind] at h
    cases h
    exact hx rfl

theorem takeByte_ne_errExit (rest : Bytes) : takeByte rest ≠ .error .errExit := by
  cases rest <;> exact fun h => by cases h

theorem takeWord_ne_errExit (rest : Bytes) : takeWord rest ≠ .error .errExit := by
  rcases rest with _ | ⟨b, _ | ⟨c, rest⟩⟩ <;> exact fun h => by cases h

/-- With lengths of three or four bytes the parse never goes to `err_exit`. -/
theorem copyNals_ne_errExit {L : Nat} (hL : L = 3 ∨ L = 4) (sets : Bool) (cnt : Nat)
    (rest out : Bytes) : copyNals L sets cnt rest out ≠ .error .errExit := by
  induction cnt generalizing rest out with
  | zero => exact fun h => by cases h
  | succ cnt ih =>
    refine bind_ne_errExit (takeWord_ne_errExit rest) fun w => ?_
    refine bind_ne_errExit ?_ fun out => ih _ out
    split
    · rw [insertCode_eq hL]
      refine bind_ne_errExit (append_ne_errExit _ _) fun out => ?_
      split
      · exact fun h => by cases h
      · exact append_ne_errExit _ _
    · exact fun h => by cases h

theorem copyArrays_ne_errExit {L : Nat} (hL : L = 3 ∨ L = 4) (num : Nat) (rest out : Bytes) :
    copyArrays L num rest out ≠ .error .errExit := by
  induction num generalizing rest out with
  | zero => exact fun h => by cases h
  | succ num ih =>
    refine bind_ne_errExit (takeByte_ne_errExit rest) fun type => ?_
    refine bind_ne_errExit (takeWord_ne_errExit _) fun cnt => ?_
    exact bind_ne_errExit (copyNals_ne_errExit hL _ _ _ _) fun r => ih r.1 r.2

/-- Parameter sets that have room are copied, each behind a start code. -/
theorem copyNals_sets {L : Nat} (hL : L = 3 ∨ L = 4) {prev : Int} {bytes : Bytes}
    {us : List Bytes} (h : Cut 2 ownLength prev bytes us) (rest out : Bytes)
    (hroom : (out ++ annexB L us).length ≤ outSize) :
    copyNals L true us.length (bytes ++ rest) out = .ok (rest, out ++ annexB L us) := by
  induction h generalizing out with
  | nil => simp [copyNals, annexB]
  | unit prev field u tail us hfield hlen hne hcut ih =>
    obtain ⟨b, c, rfl⟩ := List.length_eq_two.mp hfield
    have hown : bigEndian [b, c] = u.length := ownLength_eq_iff.mp hlen
    have hannex : out ++ annexB L (u :: us) = out ++ startCode L ++ u ++ annexB L us := by
      simp [annexB]
    rw [hannex] at hroom ⊢
    have hsize := hroom
    simp only [List.length_append] at hsize
    have hcode : append out (startCode L) = .ok (out ++ startCode L) := if_pos (by omega)
    have hbody : append (out ++ startCode L) u = .ok (out ++ startCode L ++ u) :=
      if_pos (by rw [List.length_append]; omega)
    have hthere : ¬ (u ++ (tail ++ rest)).length < u.length := by simp
    have hstep : copyNals L true (u :: us).length ([b, c] ++ (u ++ tail) ++ rest) out =
        copyNals L true us.length (tail ++ rest) (out ++ startCode L ++ u) := by
      rw [List.append_assoc, List.append_assoc]
      simp only [List.length_cons, List.cons_append, List.nil_append, copyNals, takeWord, ok_bind,
        if_true, insertCode_eq hL, hcode, hown, hthere, if_false, List.take_left, List.drop_left,
        hbody]
    rw [hstep, ih _ hroom]

theorem copyArrays_sets {L : Nat} (hL : L = 3 ∨ L = 4) {bytes : Bytes}
    {arrays : List (UInt8 × List Bytes)} (h : Arrays bytes arrays) (rest out : Bytes)
    (hroom : (out ++ annexB L (arrays.flatMap setsOf)).length ≤ outSize) :
    copyArrays L arrays.length (bytes ++ rest) out =
      .ok (rest, out ++ annexB L (arrays.flatMap setsOf)) := by
  induction h generalizing out with
  | nil => simp [copyArrays, annexB]
  | array type num bytes tail us arrays hnum hlen hus harrays ih =>
    obtain ⟨b, c, rfl⟩ := List.length_eq_two.mp hnum
    have hannex : out ++ annexB L (((type, us) :: arrays).flatMap setsOf) =
        out ++ annexB L (setsOf (type, us)) ++ annexB L (arrays.flatMap setsOf) := by
      simp [annexB, List.flatMap_cons, List.flatMap_append]
    rw [hannex] at hroom ⊢
    have hunits : copyNals L (isParameterSet type) us.length (bytes ++ (tail ++ rest)) out =
        .ok (tail ++ rest, out ++ annexB L (setsOf (type, us))) := by
      cases htype : isParameterSet type with
      | true =>
        have hsets : setsOf (type, us) = us := by simp [setsOf, htype]
        rw [hsets] at hroom ⊢
        refine copyNals_sets hL hus _ _ ?_
        rw [List.length_append] at hroom
        omega
      | false =>
        have hsets : setsOf (type, us) = [] := by simp [setsOf, htype]
        rw [hsets, annexB, List.flatMap_nil, List.append_nil]
        exact (copyNals_skip L us.length _ out).1 us _ (walkSets_of_cut hus _)
    have hstep : copyArrays L ((type, us) :: arrays).length
        (type :: ([b, c] ++ (bytes ++ tail)) ++ rest) out =
        (copyNals L (isParameterSet type) us.length (bytes ++ (tail ++ rest)) out).bind fun r =>
          copyArrays L arrays.length r.1 r.2 := by
      simp only [List.length_cons, List.cons_append, List.nil_append, List.append_assoc, copyArrays,
        takeByte, takeWord, ok_bind, hlen]
    rw [hstep, hunits, ok_bind, ih _ hroom]

theorem fails_settle_iff (x : Except Stop (Bytes × Bytes)) (L : Nat) :
    Fails (settle (x.bind fun r => .ok (.done r.2 L false))) ↔ x = .error .errExit := by
  cases x with
  | ok r => exact iff_of_false (not_fails_done r.2 L false) fun h => by cases h
  | error e =>
    cases e with
    | outside => exact iff_of_false not_fails_none fun h => by cases h
    | errExit => exact iff_of_true fails_errExit rfl

/-- The error of `h265_header_parse` behind its first checks. -/
theorem fails_hvcArrays_iff (rest : Bytes) :
    Fails (settle (hvcArrays rest)) ↔
      ∃ size num tail, rest = size :: num :: tail ∧
        ¬ ((size &&& 3).toNat + 1 = 3 ∨ (size &&& 3).toNat + 1 = 4) ∧
        meetsSet num.toNat tail = true := by
  rcases rest with _ | ⟨size, _ | ⟨num, tail⟩⟩
  · exact iff_of_false not_fails_none (by simp)
  · exact iff_of_false not_fails_none (by simp)
  · simp only [List.cons.injEq, hvcArrays, takeByte, ok_bind]
    rw [fails_settle_iff]
    by_cases hL : (size &&& 3).toNat + 1 = 3 ∨ (size &&& 3).toNat + 1 = 4
    · refine iff_of_false (copyArrays_ne_errExit hL _ _ _) ?_
      rintro ⟨size', num', tail', ⟨rfl, rfl, rfl⟩, hL', -⟩
      exact hL' hL
    · rw [copyArrays_errExit_iff hL]
      constructor
      · intro hmeets
        exact ⟨size, num, tail, ⟨rfl, rfl, rfl⟩, hL, hmeets⟩
      · rintro ⟨size', num', tail', ⟨rfl, rfl, rfl⟩, -, hmeets⟩
        exact hmeets

/-- A record that fits is parsed to its sets. -/
theorem settle_record {data : Bytes} {L : Nat} {sets : List Bytes} (hr : HvcRecord data L sets)
    (hf : Fits L sets) :
    settle (hvcArrays (data.drop 21)) = some (.done (annexB L sets) L false) := by
  obtain ⟨general, size, num, bytes, ext, arrays, rfl, hgeneral, rfl, harrays, hnum, rfl⟩ := hr
  have hdrop : (1 :: (general ++ size :: num :: (bytes ++ ext))).drop 21 =
      size :: num :: (bytes ++ ext) := by
    rw [List.drop_succ_cons, ← hgeneral, List.drop_left]
  have hcopy := copyArrays_sets hf.1 harrays ext [] hf.2
  rw [List.nil_append, hnum] at hcopy
  rw [hdrop]
  simp only [hvcArrays, takeByte, ok_bind, hcopy]
  rfl

theorem handled_h265_iff (data : Bytes) :
    Handled (h265HeaderParse data) (HvcRecord data) data ↔ Served265 data := by
  have hexclusive : ∀ {L sets}, HvcRecord data L sets →
      23 ≤ data.length ∧ ¬ StartsWithCode data := by
    rintro L sets ⟨general, size, num, bytes, ext, arrays, rfl, hgeneral, -⟩
    refine ⟨?_, not_startsWithCode_one _⟩
    simp only [List.length_cons, List.length_append]
    omega
  rw [Served265]
  split
  next hshort =>
    have hnone : ¬ ∃ L sets, HvcRecord data L sets ∧ Fits L sets := by
      rintro ⟨L, sets, hr, -⟩
      have := (hexclusive hr).1
      omega
    have hparse : h265HeaderParse data = some (.failed (-1) 0 0) := by
      simp [h265HeaderParse, hshort]
    rw [hparse]
    exact handled_failed_iff hnone
  next hlong =>
    have hne : data ≠ [] := by
      rintro rfl
      simp at hlong
    have hparse : h265HeaderParse data =
        if StartsWithCode data then some (.done [] 4 true)
        else settle (hvcArrays (data.drop 21)) := by
      simp only [StartsWithCode, prefix_three_iff hlong, prefix_four_iff hlong]
      rw [h265HeaderParse, if_neg hne, if_neg hlong]
    rw [hparse]
    split
    next hcode =>
      have hnone : ¬ ∃ L sets, HvcRecord data L sets ∧ Fits L sets := by
        rintro ⟨L, sets, hr, -⟩
        exact (hexclusive hr).2 hcode
      exact iff_of_true ((handled_raw_iff hnone _ _).mpr hcode) (.inl hcode)
    next hcode =>
      by_cases hrecord : ∃ L sets, HvcRecord data L sets ∧ Fits L sets
      · refine iff_of_true ?_ (.inr (.inl hrecord))
        obtain ⟨L₀, sets₀, hr₀, hf₀⟩ := hrecord
        refine ⟨_, settle_record hr₀ hf₀, ?_, fun h => absurd h hcode, ?_⟩
        · intro L sets hr hf
          have := (settle_record hr₀ hf₀).symm.trans (settle_record hr hf)
          exact Option.some.inj this
        · intro hnone
          exact absurd ⟨L₀, sets₀, hr₀, hf₀⟩ hnone
      · rw [handled_iff_fails hrecord hcode, fails_hvcArrays_iff]
        simp [hcode, hrecord]

/-- Both parsers, for every byte string: the outcome is what it should be exactly for the strings
    that the parser serves. -/
theorem header_parse_handled_iff (data : Bytes) :
    (Handled (h264HeaderParse data) (AvcRecord data) data ↔ Served264 data) ∧
    (Handled (h265HeaderParse data) (HvcRecord data) data ↔ Served265 data) :=
  ⟨handled_h264_iff data, handled_h265_iff data⟩

/-- A record with two SPS of one byte and a PPS, lengths of four bytes. -/
def twoSps : Bytes := [1, 66, 0, 30, 0xff, 0xe2, 0, 1, 0x67, 0, 1, 0x68, 1, 0, 1, 0x69]

/-- The second SPS has no start code of its own. And an hvcC header that is cut off behind its
    eighth byte is read at its bytes 21 and 22. -/
theorem second_sps_not_separated :
    AvcRecord twoSps 4 [[0x67], [0x68], [0x69]] ∧
    h264HeaderParse twoSps =
      some (.done [0, 0, 0, 1, 0x67, 0x68, 0, 0, 0, 1, 0x69] 4 false) ∧
    ¬ Handled (h264HeaderParse twoSps) (AvcRecord twoSps) twoSps ∧
    h265HeaderParse [1, 1, 96, 0, 0, 0, 176, 0] = none ∧
    ¬ Handled (h265HeaderParse [1, 1, 96, 0, 0, 0, 176, 0])
      (HvcRecord [1, 1, 96, 0, 0, 0, 176, 0]) [1, 1, 96, 0, 0, 0, 176, 0] := by
  have hrecord : AvcRecord twoSps 4 [[0x67], [0x68], [0x69]] := by
    refine ⟨66, 0, 30, 0xff, 0xe2, 1, [0, 1, 0x67, 0, 1, 0x68], [0, 1, 0x69], [], [[0x67], [0x68]],
      [[0x69]], rfl, rfl, ?_, rfl, ?_, rfl, rfl⟩
    · refine .unit 0 [0, 1] [0x67] [0, 1, 0x68] [[0x68]] rfl rfl (by simp) ?_
      exact .unit 1 [0, 1] [0x68] [] [] rfl rfl (by simp) (.nil 1)
    · exact .unit 0 [0, 1] [0x69] [] [] rfl rfl (by simp) (.nil 1)
  have hparse : h264HeaderParse twoSps =
      some (.done [0, 0, 0, 1, 0x67, 0x68, 0, 0, 0, 1, 0x69] 4 false) := by decide +kernel
  have hcut : h265HeaderParse [1, 1, 96, 0, 0, 0, 176, 0] = none := by decide +kernel
  refine ⟨hrecord, hparse, ?_, hcut, ?_⟩
  · rintro ⟨r, hr, hsets, -⟩
    have hdone := hsets 4 _ hrecord ⟨.inr rfl, by decide⟩
    rw [hparse, hdone] at hr
    exact absurd hr (by decide +kernel)
  · rw [hcut]
    exact not_handled_none

end Streambox.V4l2Dec.DemuxHeaders
