import Streambox.Lib.Custody
import Streambox.Vulkan.PoolSetup

/-! libvfmcap, vfmcap_vulkan.c: who owns which file descriptor.

    The module gets descriptors from the DMA-buf heap and from `dup`, and gets rid of them by closing
    them or by giving them to Vulkan, which owns a descriptor from the successful `vkAllocateMemory`
    on and may close it at any time. The kernel does not give out a number that the module has in
    hand; a number it does give out is not Vulkan's any more.

    Between two calls the descriptors in hand should be the DMA-bufs of the pool entries, each in one
    entry, since destroying the entry is what closes them. -/

namespace Streambox.Vulkan.PoolSetup
open Streambox.Lib Streambox.Lib.Custody DmabufCache ImageCache

/-- What an operation does to the descriptors in hand. -/
def actOf : Op → Option (Act Int)
  | .opened fd => some (.take fd)
  | .closed fd => some (.drop fd)
  | .imported fd _ => some (.drop fd)
  | .created _ => none
  | .destroyed _ => none

def acts (ops : List Op) : List (Act Int) := ops.filterMap actOf

@[simp] theorem acts_append (ops ops' : List Op) : acts (ops ++ ops') = acts ops ++ acts ops' :=
  List.filterMap_append

/-- The descriptors Vulkan owns, with the objects they were imported for. -/
def vulkans (ops : List Op) : List (Int × Nat) :=
  ops.foldl (fun given op =>
    match op with
    | .opened fd => given.filter (·.1 ≠ fd)
    | .imported fd obj => (fd, obj) :: given
    | .destroyed obj => given.filter (·.2 ≠ obj)
    | .closed _ => given
    | .created _ => given) []

/-- The descriptor an entry is responsible for. -/
def entryHeld (e : PoolEntry) : List Int := [e.dmabufFd].filter (· ≥ 0)

def poolHeld (pool : OutputPool) : List Int := pool.entries.flatMap entryHeld

/-- The descriptors the pools are responsible for. -/
def heldBy (pools : PoolField → OutputPool) : List Int :=
  PoolField.all.flatMap fun p => poolHeld (pools p)

def held (s : Ctx) : List Int := heldBy s.pools

/-- The descriptors are in order: whatever was closed or imported was in hand, what was closed was
    not Vulkan's, and what is in hand now is the DMA-buf of exactly one pool entry. -/
structure Kept (s : Ctx) : Prop where
  lawful : Lawful ∅ (acts s.device.ops)
  notVulkans : ∀ before fd, before ++ [Op.closed fd] <+: s.device.ops →
    ∀ obj, (fd, obj) ∉ vulkans before
  inPools : ∀ fd, fd ∈ hand ∅ (acts s.device.ops) ↔ fd ∈ held s
  once : (held s).Nodup
  inTheEnd : (∀ p, (s.pools p).entries = []) → hand ∅ (acts s.device.ops) = ∅

/-- The kernel gives out no number that the module has in hand. -/
def KernelFair (s : Ctx) : Prop := Fair ∅ (acts s.device.ops)

instance (s : Ctx) : Decidable (KernelFair s) := inferInstanceAs (Decidable (Fair ∅ _))

/-! ### Descriptors of Vulkan -/

theorem vulkans_concat (ops : List Op) (op : Op) : vulkans (ops ++ [op]) =
    match op with
    | .opened fd => (vulkans ops).filter (·.1 ≠ fd)
    | .imported fd obj => (fd, obj) :: vulkans ops
    | .destroyed obj => (vulkans ops).filter (·.2 ≠ obj)
    | .closed _ => vulkans ops
    | .created _ => vulkans ops := by
  simp only [vulkans, List.foldl_append, List.foldl_cons, List.foldl_nil]

/-- What is in hand is not Vulkan's. -/
theorem not_vulkans_of_hand (ops : List Op) {fd : Int} (h : fd ∈ hand ∅ (acts ops)) (obj : Nat) :
    (fd, obj) ∉ vulkans ops := by
  induction ops using List.reverseRecOn with
  | nil => exact List.not_mem_nil
  | append_singleton ops op ih =>
    rw [acts_append, hand_append] at h
    rw [vulkans_concat]
    cases op with
    | opened fd' =>
      intro hmem
      obtain ⟨hmem, hne⟩ := List.mem_filter.mp hmem
      rcases Finset.mem_insert.mp h with rfl | h
      · simp at hne
      · exact ih h hmem
    | imported fd' obj' =>
      obtain ⟨hne, h⟩ := Finset.mem_erase.mp h
      intro hmem
      rcases List.mem_cons.mp hmem with heq | hmem
      · exact hne (Prod.mk.inj heq).1
      · exact ih h hmem
    | destroyed obj' => exact fun hmem => ih h (List.mem_filter.mp hmem).1
    | closed fd' => exact ih (Finset.mem_erase.mp h).2
    | created obj' => exact ih h

theorem notVulkans_of_lawful {ops before : List Op} {fd : Int} (h : Lawful ∅ (acts ops))
    (hpre : before ++ [Op.closed fd] <+: ops) (obj : Nat) : (fd, obj) ∉ vulkans before := by
  obtain ⟨rest, rfl⟩ := hpre
  rw [acts_append, lawful_append, acts_append, lawful_append] at h
  exact not_vulkans_of_hand before h.1.2.1 obj

/-! ### What the parts do with descriptors -/

/-- From `d` to `d'` the descriptors `before` become `after`. -/
def Moves (d d' : Device) (before after : List Int) : Prop :=
  ∃ ops, d'.ops = d.ops ++ ops ∧ Turns (acts ops) before after

theorem Moves.refl (d : Device) (l : List Int) : Moves d d l l := ⟨[], by simp, .nil⟩

theorem Moves.trans {d d' d'' : Device} {l m n : List Int} (h : Moves d d' l m)
    (h' : Moves d' d'' m n) : Moves d d'' l n := by
  obtain ⟨ops, hops, hturns⟩ := h
  obtain ⟨ops', hops', hturns'⟩ := h'
  refine ⟨ops ++ ops', by rw [hops', hops, List.append_assoc], ?_⟩
  rw [acts_append]
  exact hturns.append hturns'

theorem Moves.frame {d d' : Device} {l m : List Int} (rest : List Int) (h : Moves d d' l m) :
    Moves d d' (l ++ rest) (m ++ rest) := by
  obtain ⟨ops, hops, hturns⟩ := h
  exact ⟨ops, hops, hturns.frame⟩

theorem Moves.perm {d d' : Device} {l m l' m' : List Int} (h : Moves d d' l m) (hl : l'.Perm l)
    (hm : m.Perm m') : Moves d d' l' m' := by
  obtain ⟨ops, hops, hturns⟩ := h
  exact ⟨ops, hops, hturns.perm hl hm⟩

theorem moves_log {d : Device} {ops : List Op} {l m : List Int} (h : Turns (acts ops) l m) :
    Moves d (Device.log d ops) l m := ⟨ops, rfl, h⟩

/-- Opened and gone again. -/
theorem turns_spent (d : Int) : Turns [.take d, .drop d] [] [] :=
  .take_then (.drop_then (.refl _) .nil)

/-- A pair of which the first is kept. -/
theorem turns_kept (d v : Int) : Turns [.take d, .take v, .drop v] [] [d] :=
  .take_then (.take_then (.drop_then (.refl _) .nil))

/-- A pair of which nothing is kept. -/
theorem turns_pair (d v : Int) : Turns [.take d, .take v, .drop d, .drop v] [] [] :=
  .take_then (.take_then (.drop_then (.swap ..) (.drop_then (.refl _) .nil)))

theorem turns_pair' (d v : Int) : Turns [.take d, .take v, .drop v, .drop d] [] [] :=
  .take_then (.take_then (.drop_then (.refl _) (.drop_then (.refl _) .nil)))

/-! ### Entries of pools -/

/-- The DMA-buf and its duplicate can be had. -/
def pairOpens (env : EntryEnv) : Bool := env.heap.isSome && env.dup.isSome

/-- The entry cannot be made, and the descriptors are not put right: a contiguous one forgets the
    duplicate if `vkAllocateMemory` fails, the others close it though Vulkan has it if anything
    fails after that. -/
def botches : PoolKind → EntryEnv → Bool
  | .internal, _ => false
  | .contiguous, env => pairOpens env && env.importEnd == .notAllocated
  | .copyout, env => env.internal && pairOpens env && env.importEnd == .notBound
  | .separate, env => pairOpens env && env.importEnd == .notBound
  | .afbc, env => pairOpens env && env.importEnd == .notBound
  | .afbcNv12, env => pairOpens env && env.importEnd == .notBound

/-- Only the DMA-buf will be closed when the entry is destroyed. -/
def Sole (e : PoolEntry) : Prop := e.dmabufFd2 < 0 ∧ e.vulkanFd < 0

instance (e : PoolEntry) : Decidable (Sole e) := inferInstanceAs (Decidable (_ ∧ _))

/-- What making an entry does: it is made, with its DMA-buf in hand, or nothing is left in hand. -/
def Makes (kind : PoolKind) (obj : Nat) (env : EntryEnv) : Prop :=
  match kind.maker obj env with
  | (ops, some e) => Turns (acts ops) [] (entryHeld e)
  | (ops, none) => botches kind env = false → Turns (acts ops) [] []

theorem entryHeld_nat (d : Nat) (fd2 fd3 : Int) (objs : List Nat) (b : Bool) :
    entryHeld ⟨d, fd2, fd3, objs, b⟩ = [(d : Int)] := by
  simp [entryHeld]

theorem maker_makes (kind : PoolKind) (obj : Nat) (env : EntryEnv) : Makes kind obj env := by
  obtain ⟨internal, heap, dup, importEnd⟩ := env
  have hkept : ∀ (d v : Nat) (fd2 fd3 : Int) (objs : List Nat) (b : Bool),
      Turns [.take (d : Int), .take (v : Int), .drop (v : Int)] []
        (entryHeld ⟨d, fd2, fd3, objs, b⟩) := by
    intro d v fd2 fd3 objs b
    rw [entryHeld_nat]
    exact turns_kept d v
  cases kind with
  | internal => cases internal <;> first | exact .nil | exact fun _ => .nil
  | copyout =>
    cases internal with
    | false => exact fun _ => .nil
    | true =>
      rcases heap with _ | d
      · exact fun _ => .nil
      rcases dup with _ | v
      · exact fun _ => turns_spent d
      cases importEnd with
      | notCreated => exact fun _ => turns_pair' d v
      | noMemoryType => exact fun _ => turns_pair' d v
      | notAllocated => exact fun _ => turns_pair' d v
      | notBound => exact fun h => Bool.noConfusion h
      | done => exact hkept d v 0 v _ _
  | contiguous =>
    rcases heap with _ | d
    · cases importEnd <;> exact fun _ => .nil
    rcases dup with _ | v
    · cases importEnd <;> first | exact fun _ => .nil | exact fun _ => turns_spent d
    cases importEnd with
    | notCreated => exact fun _ => .nil
    | noMemoryType => exact fun _ => turns_pair d v
    | notAllocated => exact fun h => Bool.noConfusion h
    | notBound => exact fun _ => turns_pair' d v
    | done => exact hkept d v (-1) (-1) _ _
  | separate =>
    rcases heap with _ | d
    · cases importEnd <;> exact fun _ => .nil
    rcases dup with _ | v
    · cases importEnd <;> first | exact fun _ => .nil | exact fun _ => turns_spent d
    cases importEnd with
    | notCreated => exact fun _ => .nil
    | noMemoryType => exact fun _ => turns_pair d v
    | notAllocated => exact fun _ => turns_pair d v
    | notBound => exact fun h => Bool.noConfusion h
    | done => exact hkept d v 0 v _ _
  | afbc =>
    rcases heap with _ | d
    · cases importEnd <;> exact fun _ => .nil
    rcases dup with _ | v
    · cases importEnd <;> first | exact fun _ => .nil | exact fun _ => turns_spent d
    cases importEnd with
    | notCreated => exact fun _ => .nil
    | noMemoryType => exact fun _ => turns_pair' d v
    | notAllocated => exact fun _ => turns_pair' d v
    | notBound => exact fun h => Bool.noConfusion h
    | done => exact hkept d v (-1) v _ _
  | afbcNv12 =>
    rcases heap with _ | d
    · cases importEnd <;> exact fun _ => .nil
    rcases dup with _ | v
    · cases importEnd <;> first | exact fun _ => .nil | exact fun _ => turns_spent d
    cases importEnd with
    | notCreated => exact fun _ => .nil
    | noMemoryType => exact fun _ => turns_pair' d v
    | notAllocated => exact fun _ => turns_pair' d v
    | notBound => exact fun h => Bool.noConfusion h
    | done => exact hkept d v (-1) v _ _

/-- Entries of contiguous pools are the ones that can be destroyed. -/
theorem contiguous_sole {d d' : Device} {env : EntryEnv} {e : PoolEntry}
    (h : makeEntry contiguousEntry d env = (d', some e)) : Sole e := by
  have he : (contiguousEntry d.objects env).2 = some e := congrArg Prod.snd h
  obtain ⟨internal, heap, dup, importEnd⟩ := env
  cases heap <;> cases dup <;> cases importEnd <;> cases he
  exact ⟨Int.negSucc_lt_zero 0, Int.negSucc_lt_zero 0⟩

theorem makeEntry_some (kind : PoolKind) {d d' : Device} {env : EntryEnv} {e : PoolEntry}
    (h : makeEntry kind.maker d env = (d', some e)) : Moves d d' [] (entryHeld e) := by
  obtain ⟨rfl, he⟩ := Prod.mk.inj h
  have hmakes := maker_makes kind d.objects env
  rw [Makes, show kind.maker d.objects env = (_, some e) from Prod.ext rfl he] at hmakes
  exact ⟨_, rfl, hmakes⟩

theorem makeEntry_none (kind : PoolKind) {d d' : Device} {env : EntryEnv}
    (h : makeEntry kind.maker d env = (d', none)) (hclean : botches kind env = false) :
    Moves d d' [] [] := by
  obtain ⟨rfl, he⟩ := Prod.mk.inj h
  have hmakes := maker_makes kind d.objects env
  rw [Makes, show kind.maker d.objects env = (_, none) from Prod.ext rfl he] at hmakes
  exact ⟨_, rfl, hmakes hclean⟩

/-- The answers for the entries of a pool lead to no stray close and no lost descriptor. Entries of
    a contiguous pool may be destroyed when a later one fails; those of other pools may not. -/
def CleanEntries (kind : PoolKind) : List EntryEnv → Prop
  | [] => True
  | env :: rest =>
    if kind.makes env then
      if kind = .contiguous then CleanEntries kind rest else ∀ env' ∈ rest, kind.makes env' = true
    else botches kind env = false

theorem cleanEntries_of_makes {kind : PoolKind} : ∀ {envs : List EntryEnv},
    (∀ env ∈ envs, kind.makes env = true) → CleanEntries kind envs
  | [], _ => trivial
  | env :: rest, h => by
    have hrest : ∀ env' ∈ rest, kind.makes env' = true := fun env' henv' =>
      h env' (List.mem_cons_of_mem _ henv')
    rw [CleanEntries, if_pos (h env (List.mem_cons_self ..))]
    split_ifs
    · exact cleanEntries_of_makes hrest
    · exact hrest

/-- Making entries that can all be made. -/
theorem makeEntries_all {kind : PoolKind} : ∀ {envs : List EntryEnv} {d : Device},
    (∀ env ∈ envs, kind.makes env = true) → ∃ d' es,
      makeEntries kind.maker d envs = (d', es, true) ∧ Moves d d' [] (es.flatMap entryHeld)
  | [], d, _ => ⟨d, [], rfl, .refl d []⟩
  | env :: rest, d, h => by
    rcases hmake : makeEntry kind.maker d env with ⟨d₁, _ | e⟩
    · have := (makeEntry_isSome kind hmake).trans (h env (List.mem_cons_self ..))
      cases this
    · obtain ⟨d', es, hrest, hmoves⟩ := makeEntries_all (d := d₁)
        fun env' henv' => h env' (List.mem_cons_of_mem _ henv')
      refine ⟨d', e :: es, ?_, (makeEntry_some kind hmake).trans ?_⟩
      · rw [makeEntries, hmake]
        simp only [hrest]
      · exact (hmoves.frame (entryHeld e)).perm (.refl _) List.perm_append_comm

/-- Making entries of a contiguous pool, as far as possible. -/
theorem makeEntries_contiguous : ∀ {envs : List EntryEnv} {d d' : Device} {es : List PoolEntry}
    {ok : Bool}, CleanEntries .contiguous envs →
      makeEntries contiguousEntry d envs = (d', es, ok) →
      Moves d d' [] (es.flatMap entryHeld) ∧ ∀ e ∈ es, Sole e
  | [], d, d', es, ok, _, h => by
    cases h
    exact ⟨.refl d [], fun e he => absurd he List.not_mem_nil⟩
  | env :: rest, d, d', es, ok, hclean, h => by
    unfold makeEntries at h
    rcases hmake : makeEntry contiguousEntry d env with ⟨d₁, _ | e⟩
    · rw [hmake] at h
      cases h
      rw [CleanEntries, ← makeEntry_isSome .contiguous hmake] at hclean
      exact ⟨makeEntry_none .contiguous hmake hclean,
        fun e he => absurd he List.not_mem_nil⟩
    · rw [hmake] at h
      cases h
      rw [CleanEntries, ← makeEntry_isSome .contiguous hmake] at hclean
      obtain ⟨hmoves, hsole⟩ := makeEntries_contiguous (d := d₁) hclean rfl
      constructor
      · refine (makeEntry_some .contiguous hmake).trans ?_
        exact (hmoves.frame (entryHeld e)).perm (.refl _) List.perm_append_comm
      · intro e' he'
        rcases List.mem_cons.mp he' with rfl | he'
        · exact contiguous_sole hmake
        · exact hsole e' he'

theorem acts_destroyed (objs : List Nat) : acts (objs.map .destroyed) = [] := by
  induction objs with
  | nil => rfl
  | cons obj objs ih => exact ih

/-- Destroying an entry that has nothing else closes its DMA-buf. -/
theorem sole_turns {e : PoolEntry} (h : Sole e) : Turns (acts e.destroyOps) (entryHeld e) [] := by
  obtain ⟨h2, h3⟩ := h
  have hfilter : [e.dmabufFd, e.dmabufFd2, e.vulkanFd].filter (· ≥ 0) = entryHeld e := by
    simp [entryHeld, List.filter_cons, Int.not_le.mpr h2, Int.not_le.mpr h3]
  rw [PoolEntry.destroyOps, hfilter, acts_append, acts_destroyed, List.nil_append]
  by_cases hpos : e.dmabufFd ≥ 0
  · have : entryHeld e = [e.dmabufFd] := by simp [entryHeld, hpos]
    rw [this]
    exact .drop
  · have : entryHeld e = [] := by simpa [entryHeld] using hpos
    rw [this]
    exact .nil

theorem soles_turn : ∀ {es : List PoolEntry}, (∀ e ∈ es, Sole e) →
    Turns (acts (es.flatMap PoolEntry.destroyOps)) (es.flatMap entryHeld) []
  | [], _ => .nil
  | e :: es, h => by
    rw [List.flatMap_cons, acts_append]
    have hrest := soles_turn fun e' he' => h e' (List.mem_cons_of_mem _ he')
    exact (sole_turns (h e (List.mem_cons_self ..))).frame.append hrest

theorem createPool_moves {kind : PoolKind} {width height capacity : Nat} {format : VkFormat}
    {a : PoolAnswers} {d : Device}
    (h : a.calloc = true → ¬ (kind = .copyout ∧ copyoutBpp format = none) →
      CleanEntries kind ((List.range capacity).map a.entry)) :
    Moves d (createPool kind width height format capacity a d).1 []
      (poolHeld (createPool kind width height format capacity a d).2.1) := by
  unfold createPool
  by_cases hcalloc : a.calloc = true
  · rw [if_pos hcalloc]
    by_cases hfmt : kind = .copyout ∧ copyoutBpp format = none
    · rw [if_pos hfmt]
      exact .refl d []
    · rw [if_neg hfmt]
      have hclean := h hcalloc hfmt
      generalize (List.range capacity).map a.entry = envs at hclean
      by_cases hkind : kind = .contiguous
      · subst hkind
        rcases hmade : makeEntries contiguousEntry d envs with ⟨d', es, _ | _⟩
        · obtain ⟨hmoves, hsole⟩ := makeEntries_contiguous hclean hmade
          simp only [PoolKind.maker, hmade]
          exact hmoves.trans (moves_log (soles_turn hsole))
        · simp only [PoolKind.maker, hmade]
          exact (makeEntries_contiguous hclean hmade).1
      · cases envs with
        | nil => exact .refl d []
        | cons env rest =>
          rw [CleanEntries, if_neg hkind] at hclean
          by_cases hmakes : kind.makes env = true
          · rw [if_pos hmakes] at hclean
            have hall : ∀ env' ∈ env :: rest, kind.makes env' = true := by
              intro env' henv'
              rcases List.mem_cons.mp henv' with rfl | henv'
              · exact hmakes
              · exact hclean env' henv'
            obtain ⟨d', es, hmade, hmoves⟩ := makeEntries_all (d := d) hall
            simp only [hmade]
            exact hmoves
          · rw [if_neg hmakes] at hclean
            rcases hmake : makeEntry kind.maker d env with ⟨d₁, _ | e⟩
            · simp only [makeEntries, hmake]
              exact (makeEntry_none kind hmake hclean).trans (moves_log .nil)
            · exact absurd (makeEntry_isSome kind hmake).symm hmakes
  · rw [if_neg hcalloc]
    exact .refl d []

/-! ### Caches -/

/-- The descriptor is duplicated, and then lost because there is no memory type for it. -/
def leaks (env : LookupEnv) : Bool := env.dup.isSome && env.importEnd == .noMemoryType

theorem import_turns {env : LookupEnv} (h : leaks env = false) {fdDup : Nat}
    (hdup : env.dup = some fdDup) (obj : Nat) :
    Turns (acts (.opened fdDup :: importDmabuf fdDup obj env.importEnd)) [] [] := by
  have hend : env.importEnd ≠ .noMemoryType := by
    intro hend
    rw [leaks, hdup, hend] at h
    cases h
  cases he : env.importEnd with
  | noMemoryType => exact absurd he hend
  | notCreated => exact turns_spent fdDup
  | notAllocated => exact turns_spent fdDup
  | notBound => exact turns_spent fdDup
  | done => exact turns_spent fdDup

section Caches
variable {κ : Type}

theorem importInto_moves {frameCount : Nat} {s : Cached κ} {i : Fin dmabufCacheSize} {fd : Int}
    {k : κ} {env : LookupEnv} (h : leaks env = false) :
    Moves s.toDevice (importInto frameCount s i fd k env).1.toDevice [] [] := by
  unfold importInto
  cases hdup : env.dup with
  | none => exact .refl _ []
  | some fdDup =>
    dsimp only
    split_ifs
    · exact ⟨_, rfl, import_turns h hdup _⟩
    · exact ⟨_, rfl, import_turns h hdup _⟩

/-- Destroying an entry closes nothing, or there is nothing to destroy. -/
theorem entryDestroy_moves {closesDup : Bool} {s : Cached κ} {i : Fin dmabufCacheSize}
    (h : closesDup = true → (s.slots i).valid = false) :
    Moves s.toDevice (entryDestroy closesDup s i).toDevice [] [] := by
  unfold entryDestroy
  by_cases hvalid : (s.slots i).valid = true
  · rw [if_pos hvalid]
    cases closesDup with
    | false => exact ⟨_, rfl, .nil⟩
    | true =>
      rw [h rfl] at hvalid
      cases hvalid
  · rw [if_neg hvalid]
    exact .refl _ []

variable [DecidableEq κ]

/-- The entry a lookup destroys, if it destroys one. -/
def evicted (c : Cache κ) (fd : Int) (k : κ) (inode : Nat) : Option (Fin dmabufCacheSize) :=
  match c.find fd k with
  | some i => if (c.slots i).stale inode then some i else none
  | none => if c.count < dmabufCacheSize then none else c.oldest

/-- The lookup finds what it looks for. -/
def hits (c : Cache κ) (fd : Int) (k : κ) (inode : Nat) : Bool :=
  match c.find fd k with
  | some i => !(c.slots i).stale inode
  | none => false

theorem cacheGet_moves {closesDup : Bool} {frameCount : Nat} {s t : Cached κ} {fd : Int} {k : κ}
    {env : LookupEnv} {r : Option Nat}
    (hkeep : closesDup = true → ∀ i, evicted s.toCache fd k env.inode = some i →
      (s.slots i).valid = false)
    (hleak : hits s.toCache fd k env.inode = false → leaks env = false)
    (hget : cacheGet closesDup frameCount s fd k env = some (t, r)) :
    Moves s.toDevice t.toDevice [] [] := by
  unfold cacheGet at hget
  unfold evicted at hkeep
  unfold hits at hleak
  cases hfind : s.find fd k with
  | some i =>
    simp only [hfind] at hget hkeep hleak
    by_cases hstale : (s.slots i).stale env.inode = true
    · rw [if_pos hstale] at hget hkeep
      obtain ⟨rfl, -⟩ := Prod.mk.inj (Option.some_inj.mp hget)
      rw [hstale] at hleak
      exact (entryDestroy_moves fun hc => hkeep hc i rfl).trans (importInto_moves (hleak rfl))
    · rw [if_neg hstale] at hget
      obtain ⟨rfl, -⟩ := Prod.mk.inj (Option.some_inj.mp hget)
      exact .refl _ []
  | none =>
    simp only [hfind] at hget hkeep hleak
    by_cases hcount : s.count < dmabufCacheSize
    · rw [dif_pos hcount] at hget
      obtain ⟨rfl, -⟩ := Prod.mk.inj (Option.some_inj.mp hget)
      exact importInto_moves (hleak trivial)
    · rw [dif_neg hcount] at hget
      rw [if_neg hcount] at hkeep
      obtain ⟨i, hi, hr⟩ := Option.map_eq_some_iff.mp hget
      obtain ⟨rfl, -⟩ := Prod.mk.inj hr
      exact (entryDestroy_moves fun hc => hkeep hc i hi).trans (importInto_moves (hleak trivial))

end Caches

theorem foldl_destroy_moves {κ : Type} : ∀ (is : List (Fin dmabufCacheSize)) (s : Cached κ),
    Moves s.toDevice (is.foldl (entryDestroy false) s).toDevice [] []
  | [], _ => .refl _ []
  | _ :: is, _ =>
    (entryDestroy_moves fun h => absurd h Bool.false_ne_true).trans (foldl_destroy_moves is _)

theorem foldl_destroy_invalid {κ : Type} : ∀ (is : List (Fin dmabufCacheSize)) (s : Cached κ),
    (∀ i ∈ is, (s.slots i).valid = false) → is.foldl (entryDestroy true) s = s
  | [], _, _ => rfl
  | i :: is, s, h => by
    have hi : entryDestroy true s i = s := by
      rw [entryDestroy, h i (List.mem_cons_self ..)]
      rfl
    rw [List.foldl_cons, hi]
    exact foldl_destroy_invalid is s fun j hj => h j (List.mem_cons_of_mem _ hj)

/-- Emptying the input cache closes nothing. -/
theorem emptyCache_moves {κ : Type} (c : Cache κ) (d : Device) :
    Moves d (emptyCache false c d).toDevice [] [] :=
  foldl_destroy_moves ((List.finRange dmabufCacheSize).filter (·.val < c.count)) ⟨c, d⟩

/-- Emptying a cache without valid entries does nothing. -/
theorem emptyCache_invalid {κ : Type} {c : Cache κ} {d : Device}
    (h : ∀ i, i.val < c.count → (c.slots i).valid = false) :
    (emptyCache true c d).toDevice = d := by
  have hfold := foldl_destroy_invalid ((List.finRange dmabufCacheSize).filter (·.val < c.count))
    ⟨c, d⟩ fun i hi => h i (of_decide_eq_true (List.mem_filter.mp hi).2)
  exact congrArg Cached.toDevice hfold

theorem dropOutput_moves (e : CacheEntry Nat) (d : Device) : Moves d (dropOutput e d).2 [] [] := by
  unfold dropOutput
  split_ifs
  · exact ⟨_, rfl, .nil⟩
  · exact .refl d []

theorem outputCacheGet_moves {e : CacheEntry Nat} {d : Device} {fd : Int} {size : Nat}
    {env : LookupEnv} (h : outputHits e fd size env.inode = false → leaks env = false) :
    Moves d (outputCacheGet e d fd size env).2 [] [] := by
  unfold outputCacheGet
  by_cases hhit : outputHits e fd size env.inode = true
  · rw [if_pos hhit]
    exact .refl d []
  · have hleak := h (Bool.not_eq_true _ ▸ hhit)
    rw [if_neg hhit]
    have hdrop := dropOutput_moves e d
    generalize dropOutput e d = r at hdrop ⊢
    obtain ⟨e', d'⟩ := r
    dsimp only at hdrop ⊢
    cases hdup : env.dup with
    | none => exact hdrop
    | some fdDup =>
      dsimp only
      split_ifs
      · exact hdrop.trans ⟨_, rfl, import_turns hleak hdup _⟩
      · exact hdrop.trans ⟨_, rfl, import_turns hleak hdup _⟩

/-! ### Calls -/

/-- A call that the descriptors survive: it destroys no entry of the image cache, since that closes
    the duplicate Vulkan owns, and no entry of a pool that is not contiguous, since that closes
    descriptor 0 or one of Vulkan's, also not because another entry of the pool fails; it does not
    fail in a way that loses a descriptor or closes one of Vulkan's; and the context is not freed or
    cleared while its pools are responsible for one. -/
def Clean (s : Ctx) : Prim → Prop
  | .imageCacheGet fd k env =>
    (∀ i, evicted s.imageCache fd k env.inode = some i → (s.imageCache.slots i).valid = false) ∧
      (hits s.imageCache fd k env.inode = false → leaks env = false)
  | .inputCacheGet fd size env => hits s.inputCache fd size env.inode = false → leaks env = false
  | .outputCacheGet fd size env =>
    outputHits s.cachedOutput fd size env.inode = false → leaks env = false
  | .emptyCaches => ∀ i, i.val < s.imageCache.count → (s.imageCache.slots i).valid = false
  | .createPool _ kind _ _ format capacity a =>
    a.calloc = true → ¬ (kind = .copyout ∧ copyoutBpp format = none) →
      CleanEntries kind ((List.range capacity).map a.entry)
  | .destroyPool p => ∀ e ∈ (s.pools p).entries, Sole e
  | .forget => held s = []
  | _ => True

theorem heldBy_update (pools : PoolField → OutputPool) (p : PoolField) (pool : OutputPool) :
    (heldBy (Function.update pools p pool)).Perm
      (poolHeld pool ++ (PoolField.all.erase p).flatMap fun q => poolHeld (pools q)) := by
  have hmem : p ∈ PoolField.all := by cases p <;> decide
  have hnodup : PoolField.all.Nodup := by decide
  refine ((List.perm_cons_erase hmem).flatMap_right _).trans ?_
  rw [List.flatMap_cons, Function.update_self]
  refine .append_left _ (.of_eq ?_)
  refine List.flatMap_congr fun q hq => ?_
  rw [Function.update_of_ne ((hnodup.mem_erase_iff.mp hq).1)]

/-- Replacing a pool, when the descriptors it was responsible for become those of the new one. -/
theorem update_moves {s : Ctx} {d : Device} {p : PoolField} {pool : OutputPool}
    (h : Moves s.device d (poolHeld (s.pools p)) (poolHeld pool)) :
    Moves s.device d (held s) (heldBy (Function.update s.pools p pool)) := by
  refine (h.frame _).perm ?_ (heldBy_update s.pools p pool).symm
  have hself := heldBy_update s.pools p (s.pools p)
  rwa [Function.update_eq_self] at hself

theorem step_moves {s t : Ctx} {c : Prim} (hclean : Clean s c) (hstep : step s c = some t) :
    Moves s.device t.device (held s) (held t) := by
  cases c with
  | imageCacheGet fd k env =>
    obtain ⟨⟨c, r⟩, hget, rfl⟩ := Option.map_eq_some_iff.mp hstep
    exact (cacheGet_moves (fun _ => hclean.1) hclean.2 hget).frame (held s)
  | inputCacheGet fd size env =>
    obtain ⟨⟨c, r⟩, hget, rfl⟩ := Option.map_eq_some_iff.mp hstep
    have hleak : hits s.inputCache fd size env.inode = false → leaks env = false := hclean
    exact (cacheGet_moves (fun h => absurd h Bool.false_ne_true) hleak hget).frame (held s)
  | outputCacheGet fd size env =>
    cases hstep
    exact (outputCacheGet_moves hclean).frame (held s)
  | convertWait pendingInFd waitForFences =>
    cases hstep
    refine Moves.frame (held s) (l := []) (m := []) ?_
    cases pendingEntry s.inputCache pendingInFd with
    | none => exact .refl _ []
    | some i => exact entryDestroy_moves fun h => absurd h Bool.false_ne_true
  | emptyCaches =>
    cases hstep
    refine Moves.frame (held s) (l := []) (m := []) ?_
    have himages := emptyCache_invalid (d := (emptyCache false s.inputCache s.device).toDevice) hclean
    dsimp only
    rw [himages]
    exact emptyCache_moves s.inputCache s.device
  | dropCachedOutput =>
    cases hstep
    exact (dropOutput_moves s.cachedOutput s.device).frame (held s)
  | zeroPool p =>
    simp only [step] at hstep
    split_ifs at hstep with hempty
    cases hstep
    refine update_moves ?_
    rw [poolHeld, hempty]
    exact .refl _ []
  | createPool p kind width height format capacity a =>
    simp only [step] at hstep
    split_ifs at hstep with hempty
    cases hstep
    refine update_moves ?_
    rw [poolHeld, hempty]
    exact createPool_moves hclean
  | destroyPool p =>
    cases hstep
    exact update_moves (moves_log (soles_turn hclean))
  | dropPredecode =>
    cases hstep
    exact .refl _ _
  | createPredecodeY width height ok =>
    cases hstep
    exact .refl _ _
  | createPredecodeUv width height ok =>
    cases hstep
    exact .refl _ _
  | resize width height =>
    cases hstep
    exact .refl _ _
  | setInitialized =>
    cases hstep
    exact .refl _ _
  | forget =>
    cases hstep
    have hnone : held s = [] := hclean
    rw [hnone]
    exact .refl _ _

/-- The descriptors are accounted for by the pools. -/
def AccountedFor (s : Ctx) : Prop := KernelFair s → Accounted (acts s.device.ops) (held s)

theorem step_accountedFor (s : Ctx) (c : Prim) (t : Ctx) (h : AccountedFor s) (hclean : Clean s c)
    (hstep : step s c = some t) : AccountedFor t := by
  intro hfair
  obtain ⟨ops, hops, hturns⟩ := step_moves hclean hstep
  rw [KernelFair, hops, acts_append] at hfair
  have hs := h (fair_append.mp hfair).1
  have ht := hturns (acts s.device.ops) [] hfair (by rwa [List.append_nil])
  rwa [List.append_nil, ← acts_append, ← hops] at ht

theorem kept_of_accounted {s : Ctx} (h : Accounted (acts s.device.ops) (held s)) : Kept s where
  lawful := h.lawful
  notVulkans _ _ hpre obj := notVulkans_of_lawful h.lawful hpre obj
  inPools := h.hand
  once := h.nodup
  inTheEnd hempty := by
    have hheld : held s = [] := by
      refine List.flatMap_eq_nil_iff.mpr fun p _ => ?_
      rw [poolHeld, hempty p]
      rfl
    rw [hheld] at h
    exact h.hand_eq_empty

/-- The calls that are made of others. -/
inductive Call
  | prim (c : Prim)
  | init (a : SetupArgs) (vulkan lut : Bool)
  | reconfigPools (a : SetupArgs)
  | cleanup

/-- What a call comes down to in a context. -/
def Call.prims (s : Ctx) : Call → List Prim
  | .prim c => [c]
  | .init a vulkan lut => (vfmcapVkInit a vulkan lut).1
  | .reconfigPools a => if s.initialized then (vfmcapVkReconfigPools a).1 else []
  | .cleanup => vfmcapVkCleanup s.initialized

def callStep (s : Ctx) (c : Call) : Option Ctx := run step s (c.prims s)

/-- Every part of the call is clean where it is made. -/
def CleanCall (s : Ctx) (c : Call) : Prop := Along step Clean s (c.prims s)

/-- The context after some calls. -/
def runCalls (width height : Nat) (calls : List Call) : Option Ctx :=
  run callStep (Ctx.fresh width height) calls

theorem callStep_accountedFor (s : Ctx) (c : Call) (t : Ctx) (h : AccountedFor s)
    (hclean : CleanCall s c) (hstep : callStep s c = some t) : AccountedFor t :=
  run_invariant step_accountedFor hstep hclean h

/-- If the kernel is fair and every call is clean where it is made, the descriptors are in order. -/
theorem descriptors_kept {width height : Nat} {calls : List Call} {s : Ctx}
    (hrun : runCalls width height calls = some s) (hfair : KernelFair s)
    (hclean : Along callStep CleanCall (Ctx.fresh width height) calls) : Kept s := by
  have hfresh : AccountedFor (Ctx.fresh width height) := fun _ =>
    ⟨trivial, List.nodup_nil, fun _ => Iff.rfl⟩
  exact kept_of_accounted (run_invariant callStep_accountedFor hrun hclean hfresh hfair)

/-- A contiguous pool, made and destroyed. -/
def contiguousCalls : List Call :=
  [.prim (.createPool .nv12Y .contiguous 1920 1080 .r8Unorm outputPoolCapacity (numbered 10)),
    .prim (.destroyPool .nv12Y)]

theorem descriptors_kept_contiguous : ∃ s, runCalls 1920 1080 contiguousCalls = some s ∧ Kept s := by
  have hfair : (runCalls 1920 1080 contiguousCalls).map
      (fun s => decide (KernelFair s)) = some true := by decide +kernel
  obtain ⟨s, hrun, hs⟩ := Option.map_eq_some_iff.mp hfair
  have hclean : Along callStep CleanCall (Ctx.fresh 1920 1080) contiguousCalls := by
    refine (along_cons rfl).mpr ⟨⟨fun _ _ => cleanEntries_of_makes (by decide), fun _ _ => trivial⟩, ?_⟩
    refine (along_cons rfl).mpr ⟨⟨?_, fun _ _ => trivial⟩, trivial⟩
    change ∀ e ∈ (createPool .contiguous 1920 1080 .r8Unorm outputPoolCapacity (numbered 10)
      (Ctx.fresh 1920 1080).device).2.1.entries, Sole e
    decide
  exact ⟨s, hrun, descriptors_kept hrun (of_decide_eq_true hs) hclean⟩

/-- A converter with an image for each plane, set up and cleaned up. -/
def separateCalls : List Call := [.init (nv12Setup .twoDmabuf) true true, .cleanup]

theorem separate_unlawful : (runCalls 1920 1080 separateCalls).map (fun s =>
    decide (KernelFair s) && !decide (Lawful ∅ (acts s.device.ops))) = some true := by
  decide +kernel

/-- Destroying the pools of a converter with two DMA-bufs per frame closes descriptor 0. -/
theorem stray_closes : ¬ ∀ (width height : Nat) (calls : List Call) (s : Ctx),
    runCalls width height calls = some s → KernelFair s → Kept s := by
  intro h
  obtain ⟨s, hrun, hs⟩ := Option.map_eq_some_iff.mp separate_unlawful
  rw [Bool.and_eq_true, decide_eq_true_eq, Bool.not_eq_true', decide_eq_false_iff_not] at hs
  exact hs.2 (h 1920 1080 separateCalls s hrun hs.1).lawful

/-- An intermediate image that cannot be made: the context is freed, and the DMA-buf of its first entry
    stays open. -/
example : (runCalls 1920 1080
      [.init { nv12Setup .singleDmabuf with predecodeY := false } true true]).map (fun s =>
        (decide (KernelFair s), decide (10 ∈ hand ∅ (acts s.device.ops)), held s)) =
      some (true, true, []) := by
  decide +kernel

end Streambox.Vulkan.PoolSetup
