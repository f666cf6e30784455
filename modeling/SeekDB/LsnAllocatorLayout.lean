/-
How the allocator lays groups out in the log.

The abstract layout is the list of groups handed out so far, newest first: the
interval of each group, its log id and the intervals of its entries.  Every
granted allocation extends it, and along every run the layout covers the log
from the start LSN to the allocator's end LSN, respects blocks and 2MB segments
and leaves room at the block's tail.
-/
import SeekDB.LsnAllocator
import SeekDB.Tiling

namespace SeekDB

open LSNAllocator AllocGrant List

/-- A group the allocator has handed out.  Entries are newest first. -/
structure GroupExtent where
  logId : Int
  start : Nat
  stop : Nat
  entries : List Extent
  isPadding : Bool
  deriving Repr, DecidableEq

def GroupExtent.extent (group : GroupExtent) : Extent := ⟨group.start, group.stop⟩

/-- Where the log ends after a grant for `size` bytes. -/
def AllocGrant.stop (grant : AllocGrant) (size : Nat) : Nat :=
  grant.lsn + grant.paddingLen + (if grant.isNewGroupLog then logGroupEntryHeaderSize else 0) + size

/-- The bytes of the entry itself, header included. -/
def AllocGrant.entry (grant : AllocGrant) (size : Nat) : Extent :=
  ⟨grant.stop size - size, grant.stop size⟩

/-- The group opened by a grant. -/
def AllocGrant.newGroup (grant : AllocGrant) (size : Nat) : GroupExtent where
  logId := grant.logId + grant.needGenPaddingEntry.toNat
  start := grant.lsn + grant.paddingLen
  stop := grant.stop size
  entries := [grant.entry size]
  isPadding := false

/-- The padding generated in front of it. -/
def AllocGrant.paddingGroup (grant : AllocGrant) : GroupExtent where
  logId := grant.logId
  start := grant.lsn
  stop := grant.lsn + grant.paddingLen
  entries := []
  isPadding := true

def GroupExtent.push (group : GroupExtent) (entry : Extent) : GroupExtent :=
  { group with stop := entry.stop, entries := entry :: group.entries }

/-- The layout after one more grant. -/
def recordGrant (groups : List GroupExtent) (grant : AllocGrant) (size : Nat) :
    List GroupExtent :=
  if grant.isNewGroupLog then
    if grant.needGenPaddingEntry then
      grant.newGroup size :: grant.paddingGroup :: groups
    else grant.newGroup size :: groups
  else
    match groups with
    | [] => []
    | group :: older => group.push (grant.entry size) :: older

def recordEvent (groups : List GroupExtent) : AllocatorEvent → List GroupExtent
  | .allocLsnScn args _ (.granted grant) => recordGrant groups grant args.size.toNat
  | _ => groups

/-- The groups of a run, newest first. -/
def layout (events : List AllocatorEvent) : List GroupExtent :=
  events.foldl recordEvent []

def recordExtent (extents : List Extent) : AllocatorEvent → List Extent
  | .allocLsnScn args _ (.granted grant) =>
    ⟨grant.lsn, grant.stop args.size.toNat⟩ :: extents
  | _ => extents

/-- What the allocations of a run took from the log, newest first: from the
returned LSN over padding, group header and entry. -/
def grantedExtents (events : List AllocatorEvent) : List Extent :=
  events.foldl recordExtent []

@[simp]
theorem layout_snoc (events : List AllocatorEvent) (event : AllocatorEvent) :
    layout (events ++ [event]) = recordEvent (layout events) event := by
  simp [layout]

@[simp]
theorem grantedExtents_snoc (events : List AllocatorEvent) (event : AllocatorEvent) :
    grantedExtents (events ++ [event]) = recordExtent (grantedExtents events) event := by
  simp [grantedExtents]

/-- The interval is not empty and no block boundary lies inside. -/
def InOneBlock (start stop : Nat) : Prop :=
  start < stop ∧ lsn2Block start = lsn2Block (stop - 1)

/-- No 2MB boundary of its block lies inside. -/
def InOneSegment (start stop : Nat) : Prop :=
  InOneBlock start stop ∧ lsn2Offset start / logCutTrigger = lsn2Offset (stop - 1) / logCutTrigger

/-- The end of the log is a block's start or leaves room for a padding. -/
def TailRoom (lsn : Nat) : Prop :=
  lsn2Offset lsn = 0 ∨ lsn2Offset lsn + clogFileTailPaddingTrigger ≤ palfBlockSize

/-- What holds of every group in the layout. -/
structure GroupExtent.Sound (group : GroupExtent) : Prop where
  in_block : InOneBlock group.start group.stop
  entries_tile : group.isPadding = false →
    Tiles (group.start + logGroupEntryHeaderSize) group.entries group.stop
  entries_nonempty : group.isPadding = false → group.entries ≠ []
  padding : group.isPadding = true → group.entries = [] ∧ palfBlockSize ∣ group.stop ∧
      group.start + clogFileTailPaddingTrigger ≤ group.stop ∧
      group.stop < group.start + maxLogBufferSize
  in_segment : 2 ≤ group.entries.length → InOneSegment group.start group.stop

/-- The newest group as long as it may still grow: the log ends inside the 2MB
segment in which the group starts. -/
structure GroupExtent.Open (group : GroupExtent) (endLsn : Nat) : Prop where
  not_padding : group.isPadding = false
  same_block : lsn2Block group.start = lsn2Block endLsn
  same_segment : lsn2Offset group.start / logCutTrigger = lsn2Offset endLsn / logCutTrigger
  inside : 0 < lsn2Offset endLsn % logCutTrigger

/-- The invariant of the layout. -/
structure LayoutInv (startLsn : Nat) (groups : List GroupExtent) (endLsn : Nat) (isNeedCut : Bool) :
    Prop where
  tiles : Tiles startLsn (groups.map GroupExtent.extent) endLsn
  sound : ∀ group ∈ groups, group.Sound
  tail_room : TailRoom endLsn
  open_group : isNeedCut = false → ∃ group older, groups = group :: older ∧ group.Open endLsn

/-! Intervals given by a block and two offsets. -/

variable {block : Nat}

theorem inOneBlock_of_offsets {low high : Nat} (hlt : low < high) (hhigh : high ≤ palfBlockSize) :
    InOneBlock (block * palfBlockSize + low) (block * palfBlockSize + high) := by
  refine ⟨by omega, ?_⟩
  have hlast : block * palfBlockSize + high - 1 = block * palfBlockSize + (high - 1) := by omega
  rw [hlast, lsn2Block_of_offset (by omega), lsn2Block_of_offset (by omega)]

theorem inOneSegment_of_offsets {low high : Nat} (hlt : low < high) (hhigh : high ≤ palfBlockSize)
    (hseg : low / logCutTrigger = (high - 1) / logCutTrigger) :
    InOneSegment (block * palfBlockSize + low) (block * palfBlockSize + high) := by
  refine ⟨inOneBlock_of_offsets hlt hhigh, ?_⟩
  have hlast : block * palfBlockSize + high - 1 = block * palfBlockSize + (high - 1) := by omega
  rw [hlast, lsn2Offset_of_offset (by omega), lsn2Offset_of_offset (by omega)]
  exact hseg

variable {offset : Nat}

theorem tailRoom_of_offset (h : offset + clogFileTailPaddingTrigger ≤ palfBlockSize) :
    TailRoom (block * palfBlockSize + offset) := by
  have hpos : 0 < clogFileTailPaddingTrigger := by decide
  right
  rw [lsn2Offset_of_offset (by omega)]
  exact h

theorem tailRoom_of_block (block : Nat) : TailRoom (block * palfBlockSize + 0) :=
  .inl (lsn2Offset_of_offset (by decide))

variable {size : Nat}

theorem newGroupLogSize_lt (hsize : size ≤ logEntryHeaderSize + maxLogBodySize) :
    newGroupLogSize size + clogFileTailPaddingTrigger < maxLogBufferSize := by
  unfold newGroupLogSize
  have hconst : logEntryHeaderSize + maxLogBodySize + logGroupEntryHeaderSize +
      clogFileTailPaddingTrigger < maxLogBufferSize := by decide
  omega

variable {grant : AllocGrant}

/-- A new group that starts at `offset` of `block` and ends inside the block. -/
theorem AllocGrant.newGroup_sound (hnew : grant.isNewGroupLog = true)
    (hstart : grant.lsn + grant.paddingLen = block * palfBlockSize + offset) (hsize : 0 < size)
    (hfit : offset + newGroupLogSize size ≤ palfBlockSize) :
    (grant.newGroup size).Sound := by
  have hstop : grant.stop size = block * palfBlockSize + (offset + newGroupLogSize size) := by
    simp only [AllocGrant.stop, hnew, if_true, newGroupLogSize]
    omega
  constructor
  · change InOneBlock (grant.lsn + grant.paddingLen) (grant.stop size)
    rw [hstart, hstop]
    refine inOneBlock_of_offsets ?_ hfit
    unfold newGroupLogSize
    omega
  · intro _
    simp only [AllocGrant.newGroup, AllocGrant.entry, Tiles, true_and, hstart,
      hstop, newGroupLogSize]
    omega
  · intro _
    simp [AllocGrant.newGroup]
  · simp [AllocGrant.newGroup]
  · simp [AllocGrant.newGroup]

theorem AllocGrant.newGroup_open
    (hstart : grant.lsn + grant.paddingLen = block * palfBlockSize + offset)
    (hfit : offset + newGroupLogSize size < palfBlockSize)
    (hcut : cutOffset offset + newGroupLogSize size < logCutTrigger) :
    (grant.newGroup size).Open
      (block * palfBlockSize + (offset + newGroupLogSize size)) := by
  have hpos : 0 < newGroupLogSize size := by
    unfold newGroupLogSize logGroupEntryHeaderSize
    omega
  rw [cutOffset_eq_mod] at hcut
  constructor
  · rfl
  · change lsn2Block (grant.lsn + grant.paddingLen) = _
    rw [hstart, lsn2Block_of_offset (by omega), lsn2Block_of_offset hfit]
  · change lsn2Offset (grant.lsn + grant.paddingLen) / _ = _
    rw [hstart, lsn2Offset_of_offset (by omega), lsn2Offset_of_offset hfit]
    unfold logCutTrigger at *
    omega
  · rw [lsn2Offset_of_offset hfit]
    unfold logCutTrigger at *
    omega

theorem AllocGrant.paddingGroup_sound
    (hlsn : grant.lsn = block * palfBlockSize + offset)
    (hpadding : grant.paddingLen = palfBlockSize - offset) (hroom : TailRoom grant.lsn)
    (hoffset : offset < palfBlockSize) (hsize : size ≤ logEntryHeaderSize + maxLogBodySize)
    (hfull : palfBlockSize < offset + newGroupLogSize size + clogFileTailPaddingTrigger) :
    grant.paddingGroup.Sound := by
  have hstop : grant.lsn + grant.paddingLen = block * palfBlockSize + palfBlockSize := by omega
  have hroom' : offset + clogFileTailPaddingTrigger ≤ palfBlockSize := by
    unfold TailRoom at hroom
    rw [hlsn, lsn2Offset_of_offset hoffset] at hroom
    rcases hroom with hzero | hroom
    · rw [hzero]
      decide
    · exact hroom
  constructor
  · change InOneBlock grant.lsn (grant.lsn + grant.paddingLen)
    rw [hstop, hlsn]
    exact inOneBlock_of_offsets hoffset le_rfl
  · simp [paddingGroup]
  · simp [paddingGroup]
  · intro _
    refine ⟨rfl, ?_, ?_, ?_⟩
    · change palfBlockSize ∣ grant.lsn + grant.paddingLen
      rw [hstop, ← Nat.succ_mul]
      exact Nat.dvd_mul_left _ _
    · simp only [paddingGroup]
      omega
    · have hlimit := newGroupLogSize_lt hsize
      simp only [paddingGroup]
      omega
  · simp [paddingGroup]

theorem GroupExtent.push_sound {group : GroupExtent} (hsound : group.Sound)
    (hopen : group.Open (block * palfBlockSize + offset))
    (hstop : group.stop = block * palfBlockSize + offset) (hoffset : offset < palfBlockSize)
    (hsize : 0 < size) (hfit : offset + size ≤ palfBlockSize)
    (hjoin : cutOffset offset + size ≤ logCutTrigger) :
    (group.push ⟨block * palfBlockSize + offset,
      block * palfBlockSize + (offset + size)⟩).Sound := by
  have hblock : lsn2Block group.start = block := by
    rw [hopen.same_block, lsn2Block_of_offset hoffset]
  have hstart : group.start = block * palfBlockSize + lsn2Offset group.start := by
    conv_lhs => rw [lsn_eq_block_add_offset group.start, hblock]
  have hlt := hsound.in_block.1
  have hseg := hopen.same_segment
  rw [lsn2Offset_of_offset hoffset] at hseg
  rw [cutOffset_eq_mod] at hjoin
  have hsegment : InOneSegment group.start
      (block * palfBlockSize + (offset + size)) := by
    rw [hstart]
    refine inOneSegment_of_offsets (by omega) hfit ?_
    unfold logCutTrigger at *
    omega
  constructor
  · exact hsegment.1
  · intro _
    refine Tiles.push ?_ (by simp only; omega)
    rw [← hstop]
    exact hsound.entries_tile hopen.not_padding
  · intro _
    simp [GroupExtent.push]
  · intro hpadding
    have hnot := hopen.not_padding
    change group.isPadding = true at hpadding
    simp [hnot] at hpadding
  · intro _
    exact hsegment

theorem GroupExtent.push_open {group : GroupExtent} {entry : Extent}
    (hopen : group.Open (block * palfBlockSize + offset)) (hfit : offset + size < palfBlockSize)
    (hsize : 0 < size) (hcut : cutOffset offset + size < logCutTrigger) :
    (group.push entry).Open (block * palfBlockSize + (offset + size)) := by
  have hoffset : offset < palfBlockSize := by omega
  rw [cutOffset_eq_mod] at hcut
  constructor
  · exact hopen.not_padding
  · have hblock := hopen.same_block
    rw [lsn2Block_of_offset hoffset] at hblock
    rw [lsn2Block_of_offset hfit]
    exact hblock
  · have hseg := hopen.same_segment
    rw [lsn2Offset_of_offset hoffset] at hseg
    rw [lsn2Offset_of_offset hfit]
    change lsn2Offset group.start / logCutTrigger = _
    unfold logCutTrigger at *
    omega
  · rw [lsn2Offset_of_offset hfit]
    unfold logCutTrigger at *
    omega

section

variable {startLsn : Nat} {groups : List GroupExtent} {base : LSNAllocator}
  {baseScn size : Nat} {placement : Placement}

theorem grant_stop_eq (baseScn : Nat)
    (hplaced : PlacedAs base.isNeedCut (lsn2Offset base.lsn) size placement) :
    (base.grant baseScn placement).stop size =
      (lsn2Block base.lsn + placement.blockSwitch.toNat) * palfBlockSize +
        placement.nextBlockOffset := by
  have hlsn := lsn_eq_block_add_offset base.lsn
  have hoffset := lsn2Offset_lt base.lsn
  cases hplaced <;>
    simp only [AllocGrant.stop, LSNAllocator.grant, placeNewGroup, placeAppend,
      placePadded, newGroupLogSize, Bool.toNat_true, Bool.toNat_false, if_true,
      Bool.false_eq_true, if_false, Nat.add_mul] at * <;>
    omega

theorem nextBlockOffset_lt (hplaced : PlacedAs base.isNeedCut (lsn2Offset base.lsn) size placement)
    (hlimit : size ≤ logEntryHeaderSize + maxLogBodySize) :
    placement.nextBlockOffset < palfBlockSize := by
  have htrigger : 0 < clogFileTailPaddingTrigger := by decide
  have hbuffer : maxLogBufferSize < palfBlockSize := by decide
  have hgroup := newGroupLogSize_lt hlimit
  cases hplaced <;> simp only [placeNewGroup, placeAppend, placePadded] <;> omega

theorem nextMeta_lsnVal (hplaced : PlacedAs base.isNeedCut (lsn2Offset base.lsn) size placement)
    (hlimit : size ≤ logEntryHeaderSize + maxLogBodySize) (hblock : LsnInRange base.lsn) :
    (base.nextMeta baseScn placement).lsnVal.toNat = (base.grant baseScn placement).stop size := by
  have hoffset := nextBlockOffset_lt hplaced hlimit
  have hswitch : placement.blockSwitch.toNat ≤ 1 := Bool.toNat_le _
  obtain ⟨hlast, -⟩ := hblock.add_block_lt
  have hle : (lsn2Block base.lsn + placement.blockSwitch.toNat) * palfBlockSize ≤
      (lsn2Block base.lsn + 1) * palfBlockSize :=
    Nat.mul_le_mul_right _ (by omega)
  have hsucc : (lsn2Block base.lsn + 2) * palfBlockSize =
      (lsn2Block base.lsn + 1) * palfBlockSize + palfBlockSize := by
    rw [Nat.add_mul, Nat.add_mul, Nat.two_mul]
    omega
  rw [grant_stop_eq baseScn hplaced]
  simp only [nextMeta, BitVec.toNat_ofNat]
  exact Nat.mod_eq_of_lt (by change _ < uint64Modulus; omega)

section

variable (hinv : LayoutInv startLsn groups base.lsn base.isNeedCut)

include hinv

theorem LayoutInv.granted_newGroup (hnew : placement.isNewGroupLog = true)
    (hpad : placement.needGenPaddingEntry = false) (hlen : placement.paddingLen = 0)
    (hsize : 0 < size) (hfit : lsn2Offset base.lsn + newGroupLogSize size ≤ palfBlockSize)
    (hroom : TailRoom ((base.grant baseScn placement).stop size))
    (hcut : placement.isNextNeedCut = false →
      lsn2Offset base.lsn + newGroupLogSize size < palfBlockSize ∧
        cutOffset (lsn2Offset base.lsn) + newGroupLogSize size < logCutTrigger) :
    LayoutInv startLsn (recordGrant groups (base.grant baseScn placement) size)
      ((base.grant baseScn placement).stop size) placement.isNextNeedCut := by
  have hlsn := lsn_eq_block_add_offset base.lsn
  generalize hgrant : base.grant baseScn placement = grant at *
  have hnew' : grant.isNewGroupLog = true := by rw [← hgrant]; exact hnew
  have hpad' : grant.needGenPaddingEntry = false := by rw [← hgrant]; exact hpad
  have hstart : grant.lsn + grant.paddingLen =
      lsn2Block base.lsn * palfBlockSize + lsn2Offset base.lsn := by
    rw [← hgrant]
    change base.lsn + placement.paddingLen = _
    rw [hlen]
    exact hlsn
  have hrecord : recordGrant groups grant size = grant.newGroup size :: groups := by
    simp [recordGrant, hnew', hpad']
  have hsound := newGroup_sound hnew' hstart hsize hfit
  rw [hrecord]
  constructor
  · refine Tiles.push (e := (grant.newGroup size).extent) ?_ hsound.in_block.1
    change Tiles startLsn _ (grant.lsn + grant.paddingLen)
    rw [hstart, ← hlsn]
    exact hinv.tiles
  · intro group hmem
    rcases mem_cons.mp hmem with rfl | hmem
    · exact hsound
    · exact hinv.sound group hmem
  · exact hroom
  intro hnext
  refine ⟨_, _, rfl, ?_⟩
  obtain ⟨hfit', hcut'⟩ := hcut hnext
  have hopen := newGroup_open hstart hfit' hcut'
  have hstop : grant.stop size = lsn2Block base.lsn * palfBlockSize +
      (lsn2Offset base.lsn + newGroupLogSize size) := by
    simp only [AllocGrant.stop, hnew', if_true, newGroupLogSize]
    omega
  rw [hstop]
  exact hopen

theorem LayoutInv.granted_append (hcut : base.isNeedCut = false)
    (hnew : placement.isNewGroupLog = false) (hlen : placement.paddingLen = 0)
    (hsize : 0 < size) (hfit : lsn2Offset base.lsn + size ≤ palfBlockSize)
    (hjoin : 0 < lsn2Offset base.lsn → 0 < cutOffset (lsn2Offset base.lsn) ∧
        cutOffset (lsn2Offset base.lsn) + size ≤ logCutTrigger)
    (hroom : TailRoom ((base.grant baseScn placement).stop size))
    (hnext : placement.isNextNeedCut = false → lsn2Offset base.lsn + size < palfBlockSize ∧
        cutOffset (lsn2Offset base.lsn) + size < logCutTrigger) :
    LayoutInv startLsn (recordGrant groups (base.grant baseScn placement) size)
      ((base.grant baseScn placement).stop size) placement.isNextNeedCut := by
  have hlsn := lsn_eq_block_add_offset base.lsn
  have hoffset := lsn2Offset_lt base.lsn
  obtain ⟨group, older, hgroups, hopen⟩ := hinv.open_group hcut
  subst hgroups
  have htiles := hinv.tiles
  obtain ⟨hstop, hlt, holder⟩ := htiles
  -- the log ends inside a segment, so the source's test on the offset applies
  have hpos : 0 < lsn2Offset base.lsn := by
    have hinside := hopen.inside
    rcases Nat.eq_zero_or_pos (lsn2Offset base.lsn) with hzero | hpos
    · rw [hzero] at hinside
      exact absurd hinside (by decide)
    · exact hpos
  have hend : (base.grant baseScn placement).stop size =
      lsn2Block base.lsn * palfBlockSize + (lsn2Offset base.lsn + size) := by
    simp only [AllocGrant.stop, LSNAllocator.grant, hnew, hlen, Bool.false_eq_true, if_false]
    omega
  have hentry : (base.grant baseScn placement).entry size =
      ⟨lsn2Block base.lsn * palfBlockSize + lsn2Offset base.lsn,
        lsn2Block base.lsn * palfBlockSize + (lsn2Offset base.lsn + size)⟩ := by
    simp only [AllocGrant.entry, hend, Extent.mk.injEq, and_true]
    omega
  have hrecord : recordGrant (group :: older) (base.grant baseScn placement) size =
      group.push ((base.grant baseScn placement).entry size) :: older := by
    simp [recordGrant, LSNAllocator.grant, hnew]
  rw [hlsn] at hopen hstop
  have hsound := GroupExtent.push_sound (hinv.sound group mem_cons_self)
    hopen hstop hoffset hsize hfit (hjoin hpos).2
  rw [hrecord, hentry, hend]
  constructor
  · exact Tiles.push (e := ⟨group.start, _⟩) holder hsound.in_block.1
  · intro other hmem
    rcases mem_cons.mp hmem with rfl | hmem
    · exact hsound
    · exact hinv.sound other (mem_cons_of_mem group hmem)
  · rw [← hend]
    exact hroom
  · intro hopenNext
    obtain ⟨hfit', hcut'⟩ := hnext hopenNext
    exact ⟨_, _, rfl, GroupExtent.push_open hopen hfit' hsize hcut'⟩

theorem LayoutInv.granted_padded (hsize : 0 < size)
    (hlimit : size ≤ logEntryHeaderSize + maxLogBodySize)
    (hfull : palfBlockSize < lsn2Offset base.lsn + newGroupLogSize size +
      clogFileTailPaddingTrigger) :
    LayoutInv startLsn
      (recordGrant groups (base.grant baseScn (placePadded (lsn2Offset base.lsn) size)) size)
      ((base.grant baseScn (placePadded (lsn2Offset base.lsn) size)).stop size)
      (placePadded (lsn2Offset base.lsn) size).isNextNeedCut := by
  have hlsn := lsn_eq_block_add_offset base.lsn
  have hoffset := lsn2Offset_lt base.lsn
  have hgroup := newGroupLogSize_lt hlimit
  have hbuffer : maxLogBufferSize < palfBlockSize := by decide
  generalize hgrant : base.grant baseScn (placePadded (lsn2Offset base.lsn) size) = grant at *
  have hnew : grant.isNewGroupLog = true := by rw [← hgrant]; rfl
  have hpad : grant.needGenPaddingEntry = true := by rw [← hgrant]; rfl
  have hlen : grant.paddingLen = palfBlockSize - lsn2Offset base.lsn := by
    rw [← hgrant]; rfl
  have hbegin : grant.lsn = base.lsn := by rw [← hgrant]; rfl
  have hstart : grant.lsn + grant.paddingLen = (lsn2Block base.lsn + 1) * palfBlockSize + 0 := by
    rw [hbegin, hlen, Nat.add_mul]
    omega
  have hstop : grant.stop size =
      (lsn2Block base.lsn + 1) * palfBlockSize + (0 + newGroupLogSize size) := by
    simp only [AllocGrant.stop, hnew, if_true, newGroupLogSize]
    omega
  have hrecord : recordGrant groups grant size =
      grant.newGroup size :: grant.paddingGroup :: groups := by
    simp [recordGrant, hnew, hpad]
  have hsound := newGroup_sound hnew hstart hsize (by omega)
  have hpadding : grant.paddingGroup.Sound := by
    refine paddingGroup_sound (hbegin.trans hlsn) hlen ?_ hoffset
      hlimit hfull
    rw [hbegin]
    exact hinv.tail_room
  rw [hrecord]
  constructor
  · refine Tiles.push (e := (grant.newGroup size).extent) ?_ hsound.in_block.1
    refine Tiles.push (e := grant.paddingGroup.extent) ?_ hpadding.in_block.1
    change Tiles startLsn _ grant.lsn
    rw [hbegin]
    exact hinv.tiles
  · intro group hmem
    rcases mem_cons.mp hmem with rfl | hmem
    · exact hsound
    rcases mem_cons.mp hmem with rfl | hmem
    · exact hpadding
    · exact hinv.sound group hmem
  · rw [hstop]
    exact tailRoom_of_offset (by omega)
  · intro hnext
    refine ⟨_, _, rfl, ?_⟩
    rw [hstop]
    refine newGroup_open hstart (by omega) ?_
    have hcut : newGroupLogSize size < logCutTrigger := by
      simpa [placePadded] using hnext
    rw [cutOffset_eq_mod]
    simpa using hcut

theorem LayoutInv.granted (hplaced : PlacedAs base.isNeedCut (lsn2Offset base.lsn) size placement)
    (hsize : 0 < size) (hlimit : size ≤ logEntryHeaderSize + maxLogBodySize) :
    LayoutInv startLsn (recordGrant groups (base.grant baseScn placement) size)
      ((base.grant baseScn placement).stop size) placement.isNextNeedCut := by
  have hstop := grant_stop_eq baseScn hplaced
  have htrigger : 0 < clogFileTailPaddingTrigger := by decide
  cases hplaced with
  | newGroup hopen hfit =>
    refine hinv.granted_newGroup rfl rfl rfl hsize (by omega) ?_ ?_
    · rw [hstop]
      exact tailRoom_of_offset hfit
    · intro hcut
      refine ⟨by omega, ?_⟩
      simpa [placeNewGroup] using hcut
  | append hcut hjoin hfit =>
    refine hinv.granted_append hcut rfl rfl hsize (by omega) hjoin ?_ ?_
    · rw [hstop]
      exact tailRoom_of_offset hfit
    · intro hnext
      refine ⟨by omega, ?_⟩
      simpa [placeAppend] using hnext
  | newGroupToEnd =>
    refine hinv.granted_newGroup rfl rfl rfl hsize (by omega) ?_ (by simp)
    rw [hstop]
    exact tailRoom_of_block (lsn2Block base.lsn + 1)
  | appendToEnd hcut hjoin =>
    refine hinv.granted_append hcut rfl rfl hsize (by omega) hjoin ?_ (by simp)
    rw [hstop]
    exact tailRoom_of_block (lsn2Block base.lsn + 1)
  | padded hfull =>
    exact hinv.granted_padded hsize hlimit hfull

end

end

/-! Runs. -/

/-- A size `submit_log` can ask for. -/
def SizeAdmitted (_ : LSNAllocator) (args : AllocArgs) : Prop :=
  args.size ≤ logEntryHeaderSize + maxLogBodySize

/-- Moreover the log still ends in a block that `is_valid_block_id` accepts, so
that the next LSN fits into 64 bits. -/
def BlockAdmitted (allocator : LSNAllocator) (args : AllocArgs) : Prop :=
  SizeAdmitted allocator args ∧ LsnInRange allocator.lsn

/-- The layout a run has produced when the log started at `startLsn`. -/
structure LayoutSound (startLsn : Nat) (events : List AllocatorEvent) (final : LSNAllocator) :
    Prop where
  grants_tile : Tiles startLsn (grantedExtents events) final.lsn
  groups_tile : Tiles startLsn ((layout events).map GroupExtent.extent) final.lsn
  group_in_block : ∀ group ∈ layout events, InOneBlock group.start group.stop
  entry_in_block : ∀ group ∈ layout events, ∀ entry ∈ group.entries,
    InOneBlock entry.start entry.stop
  padding : ∀ group ∈ layout events, group.isPadding = true → palfBlockSize ∣ group.stop ∧
      group.start + clogFileTailPaddingTrigger ≤ group.stop ∧
      group.stop < group.start + maxLogBufferSize
  tail_room : TailRoom final.lsn
  group_in_segment : ∀ group ∈ layout events, 2 ≤ group.entries.length →
    InOneSegment group.start group.stop
  never_unexpected : ∀ args updates,
    .allocLsnScn args updates (.refused .errUnexpected) ∉ events

/-- What is carried along a run. -/
structure LayoutRunInv (startLsn : Nat) (events : List AllocatorEvent) (allocator : LSNAllocator) :
    Prop where
  grants_tile : Tiles startLsn (grantedExtents events) allocator.lsn
  layout_inv : LayoutInv startLsn (layout events) allocator.lsn
    allocator.isNeedCut
  never_unexpected : ∀ args updates,
    .allocLsnScn args updates (.refused .errUnexpected) ∉ events

variable {events : List AllocatorEvent} {allocator next : LSNAllocator} {startLsn : Nat}

section

variable (hinv : LayoutRunInv startLsn events allocator)

include hinv

/-- An event that hands nothing out, on an allocator that keeps its end LSN and
may only have been cut. -/
theorem LayoutRunInv.idle {event : AllocatorEvent} (hlsn : next.lsn = allocator.lsn)
    (hcut : next.isNeedCut = false → allocator.isNeedCut = false)
    (hlayout : recordEvent (layout events) event = layout events)
    (hextents : recordExtent (grantedExtents events) event = grantedExtents events)
    (hevent : ∀ args updates, event ≠ .allocLsnScn args updates (.refused .errUnexpected)) :
    LayoutRunInv startLsn (events ++ [event]) next := by
  constructor
  · rw [grantedExtents_snoc, hextents, hlsn]
    exact hinv.grants_tile
  · rw [layout_snoc, hlayout, hlsn]
    have hold := hinv.layout_inv
    exact { hold with open_group := fun hnext => hold.open_group (hcut hnext) }
  · intro args updates hmem
    rcases mem_append.mp hmem with hold | hnew
    · exact hinv.never_unexpected args updates hold
    · exact hevent args updates (mem_singleton.mp hnew).symm

theorem LayoutRunInv.refused {args : AllocArgs} {updates : Nat} {ret : ObRet}
    (hlsn : next.lsn = allocator.lsn)
    (hcut : next.isNeedCut = allocator.isNeedCut) (hret : ret ≠ .errUnexpected) :
    LayoutRunInv startLsn (events ++ [.allocLsnScn args updates (.refused ret)])
      next := by
  refine hinv.idle hlsn (by rw [hcut]; exact id) rfl rfl ?_
  intro other count heq
  injection heq with _ _ hresult
  injection hresult with hcode
  exact hret hcode

theorem LayoutRunInv.place_ne_none (size : Nat) :
    place allocator.isNeedCut (lsn2Offset allocator.lsn) size ≠ none := by
  intro hnone
  obtain ⟨hcut, hpos, hzero⟩ := (place_eq_none_iff _ _ _).mp hnone
  obtain ⟨group, older, hgroups, hopen⟩ := hinv.layout_inv.open_group hcut
  have hinside := hopen.inside
  rw [cutOffset_eq_mod] at hzero
  omega

theorem LayoutRunInv.allocOnce {base : LSNAllocator} {args : AllocArgs}
    {updates : Nat} {result : AllocResult}
    (hadmits : BlockAdmitted allocator args) (hvalid : allocArgsInvalid args = false)
    (hbase : Rebased allocator args.baseScn base updates)
    (hcall : base.allocOnce args = (result, next)) :
    LayoutRunInv startLsn (events ++ [.allocLsnScn args updates result])
      next := by
  have hlsn := hbase.lsn_eq
  have hcut := hbase.isNeedCut_eq
  rcases allocOnce_cases hcall with
    ⟨hnone, -⟩ | ⟨placement, hplace, hrest⟩
  · rw [hlsn, hcut] at hnone
    exact absurd hnone (hinv.place_ne_none _)
  have hplaced := placedAs_of_place hplace
  rcases hrest with ⟨-, rfl, rfl⟩ | ⟨-, -, rfl, rfl⟩
  · exact hinv.refused hlsn hcut (by decide)
  have hsize : 0 < args.size.toNat := by
    simp only [allocArgsInvalid, Bool.or_eq_false_iff, decide_eq_false_iff_not] at hvalid
    omega
  have hlimit : args.size.toNat ≤ logEntryHeaderSize + maxLogBodySize := by
    have hsizeAdmitted := hadmits.1
    unfold SizeAdmitted at hsizeAdmitted
    omega
  have hblock : LsnInRange base.lsn := by
    rw [hlsn]
    exact hadmits.2
  have hold : LayoutInv startLsn (layout events) base.lsn base.isNeedCut := by
    rw [hlsn, hcut]
    exact hinv.layout_inv
  have hnext : ({ base with
      lsnTsMeta := base.nextMeta args.baseScn placement } : LSNAllocator).lsn =
      (base.grant args.baseScn placement).stop args.size.toNat :=
    nextMeta_lsnVal hplaced hlimit hblock
  constructor
  · rw [grantedExtents_snoc, hnext]
    refine Tiles.push (e := ⟨base.lsn, _⟩) ?_ ?_
    · rw [hlsn]
      exact hinv.grants_tile
    · change base.lsn < base.lsn + _ + _ + _
      omega
  · rw [layout_snoc, hnext]
    exact hold.granted hplaced hsize hlimit
  · intro other count hmem
    rcases mem_append.mp hmem with hmem | hmem
    · exact hinv.never_unexpected other count hmem
    · simp at hmem

theorem LayoutRunInv.step {event : AllocatorEvent}
    (hstep : AllocatorStep BlockAdmitted allocator event next) :
    LayoutRunInv startLsn (events ++ [event]) next := by
  cases hstep with
  | allocLsnScn hadmits hcall =>
    rcases allocLsnScn_cases hcall with
      ⟨-, -, rfl, rfl⟩ | ⟨-, -, rfl, rfl⟩ | ⟨-, hvalid, base, hbase, honce⟩
    · exact hinv.refused rfl rfl (by decide)
    · exact hinv.refused rfl rfl (by decide)
    · exact hinv.allocOnce hadmits hvalid hbase honce
  | tryFreeze =>
    refine hinv.idle ?_ ?_ rfl rfl (by simp)
    · unfold LSNAllocator.tryFreeze
      split <;> rfl
    · unfold LSNAllocator.tryFreeze
      split <;> simp [cut, LSNAllocator.isNeedCut]
  | tryFreezeByTime =>
    refine hinv.idle ?_ ?_ rfl rfl (by simp)
    · unfold LSNAllocator.tryFreezeByTime
      split
      · rfl
      · split <;> rfl
    · unfold LSNAllocator.tryFreezeByTime
      split
      · exact id
      · split <;> simp_all [cut, LSNAllocator.isNeedCut]
  | incUpdateScnBase =>
    refine hinv.idle ?_ ?_ rfl rfl (by simp)
    · unfold LSNAllocator.incUpdateScnBase
      repeat' split
      all_goals rfl
    · unfold LSNAllocator.incUpdateScnBase
      repeat' split
      all_goals simp [LSNAllocator.isNeedCut]

end

theorem LayoutRunInv.start {logId : Int} {scn startLsn : Nat}
    (hstart : Started logId scn startLsn allocator) (hroom : TailRoom startLsn) :
    LayoutRunInv startLsn [] allocator := by
  obtain ⟨hlt, -, rfl⟩ := hstart.eq
  have hlsn : (BitVec.ofNat 64 startLsn).toNat = startLsn := by
    exact Nat.mod_eq_of_lt hlt
  constructor
  · exact hlsn.symm
  · refine ⟨hlsn.symm, by simp [layout], ?_, by simp [LSNAllocator.isNeedCut]⟩
    change TailRoom (BitVec.ofNat 64 startLsn).toNat
    rw [hlsn]
    exact hroom
  · simp

theorem LayoutRunInv.sound (hinv : LayoutRunInv startLsn events allocator) :
    LayoutSound startLsn events allocator := by
  have hsound := hinv.layout_inv.sound
  constructor
  · exact hinv.grants_tile
  · exact hinv.layout_inv.tiles
  · exact fun group hmem => (hsound group hmem).in_block
  · intro group hmem entry hentry
    have hgroup := hsound group hmem
    have hpadding : group.isPadding = false := by
      cases hp : group.isPadding with
      | false => rfl
      | true => simp [(hgroup.padding hp).1] at hentry
    obtain ⟨hlow, hlt, hhigh⟩ :=
      (hgroup.entries_tile hpadding).bounds_of_mem hentry
    obtain ⟨-, hblock⟩ := hgroup.in_block
    refine ⟨hlt, ?_⟩
    unfold lsn2Block palfBlockSize at *
    omega
  · exact fun group hmem hp => ((hsound group hmem).padding hp).2
  · exact hinv.layout_inv.tail_room
  · exact fun group hmem htwo => (hsound group hmem).in_segment htwo
  · exact hinv.never_unexpected

/-- The layout is sound after every run of allocations, freezes and SCN updates
whose allocations start in a valid block. -/
theorem allocator_run_layout {logId : Int} {scn startLsn : Nat} {allocator final : LSNAllocator}
    {events : List AllocatorEvent} (hstart : Started logId scn startLsn allocator)
    (hroom : TailRoom startLsn)
    (hrun : Execution (AllocatorStep BlockAdmitted) allocator events final) :
    LayoutSound startLsn events final :=
  (hrun.history_invariant (P := LayoutRunInv startLsn) (LayoutRunInv.start hstart hroom)
    (fun _ _ _ _ hinv hstep => hinv.step hstep)).sound

/-- Two entries of one group at the start of the log, then a freeze and a new
group. -/
theorem allocator_run_layout_two_groups : ∃ allocator final events,
      Started 0 1 0 allocator ∧ TailRoom 0 ∧
      Execution (AllocatorStep BlockAdmitted) allocator events final ∧
      (layout events).length = 2 ∧ LayoutSound 0 events final := by
  let allocator := (reset.init 0 1 0).2
  let args : AllocArgs := ⟨5, 100, 10, 1000⟩
  let first : LSNAllocator := ⟨⟨false, 1, 4, 148⟩, 0, 1, true⟩
  let second : LSNAllocator := ⟨⟨false, 1, 5, 248⟩, 0, 1, true⟩
  let third : LSNAllocator := ⟨⟨false, 2, 6, 396⟩, 0, 1, true⟩
  have hstart : Started 0 1 0 allocator := ⟨by decide, by decide⟩
  have hsize : args.size ≤ logEntryHeaderSize + maxLogBodySize := by decide
  have hfirst : AllocatorStep BlockAdmitted allocator
      (.allocLsnScn args 0 (.granted ⟨0, 1, 5, true, false, 0⟩)) first :=
    .allocLsnScn ⟨hsize, by decide⟩ (by decide)
  have hsecond : AllocatorStep BlockAdmitted first
      (.allocLsnScn args 0 (.granted ⟨148, 1, 6, false, false, 0⟩)) second :=
    .allocLsnScn ⟨hsize, by decide⟩ (by decide)
  have hthird : AllocatorStep BlockAdmitted second.tryFreeze.2
      (.allocLsnScn args 0 (.granted ⟨248, 2, 7, true, false, 0⟩)) third :=
    .allocLsnScn ⟨hsize, by decide⟩ (by decide)
  have hrun := ((((Execution.refl.snoc hfirst).snoc hsecond).snoc (.tryFreeze second)).snoc hthird)
  exact ⟨allocator, third, _, hstart, .inl rfl, hrun, by decide,
    allocator_run_layout hstart (.inl rfl) hrun⟩

/-- Behind the last valid block the end LSN wraps around, and a new group is
handed out over the start of the log. -/
theorem allocator_run_layout_wraps : ∃ startLsn allocator final events,
      Started 0 1 startLsn allocator ∧ TailRoom startLsn ∧
      Execution (AllocatorStep SizeAdmitted) allocator events final ∧
      ¬ LayoutSound startLsn events final := by
  let allocator := (reset.init 0 1 18446744073709551614).2
  let args : AllocArgs := ⟨1, 100, 10, 1000⟩
  let final : LSNAllocator := ⟨⟨true, 1, 1, 146⟩, 0, 1, true⟩
  have hstep : AllocatorStep SizeAdmitted allocator
      (.allocLsnScn args 0 (.granted ⟨18446744073709551614, 1, 2, true, false, 0⟩))
      final :=
    .allocLsnScn (by unfold SizeAdmitted; decide) (by decide)
  refine ⟨18446744073709551614, allocator, final, _, ⟨by decide, by decide⟩,
    .inr (by decide), .snoc .refl hstep, ?_⟩
  intro hsound
  have hle := hsound.grants_tile.low_le_high
  exact absurd hle (by decide)

end SeekDB
