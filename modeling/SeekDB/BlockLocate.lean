/-
`PalfHandleImpl::get_block_id_by_scn_`: the block whose logs start at or before an
SCN, by binary search over the SCNs in the block headers.
-/
import SeekDB.PalfDefine

namespace SeekDB

def logInvalidBlockId : Nat := logMaxBlockId + 1

inductive LocateError
  | outOfLowerBound
  | outOfUpperBound
  | entryNotExist
  | other (ret : ObRet)
  deriving DecidableEq

/-- What the search asks of the log engine and of the handle. -/
structure BlockStore where
  getBlockIdRange : Except LocateError (Nat × Nat)
  getBlockMinScn : Nat → Except LocateError Nat
  endLsn : Nat
  endScn : Nat

/-- `last_locate_block_` and `last_locate_scn_`. -/
structure LastLocate where
  block : Nat
  scn : Nat

variable (store : BlockStore) (last : LastLocate) (scn : Nat)

/-- The bounds of the search, and its result where the bounds are crossed. -/
def getBinarySearchRange : Except LocateError (Nat × Nat × Nat) :=
  match store.getBlockIdRange with
  | .error ret =>
    .error (if ret = .entryNotExist ∧ scn ≤ store.endScn then .outOfLowerBound else ret)
  | .ok (minBlockId, maxBlockId) =>
    let maxBlockId := min (lsn2Block store.endLsn) maxBlockId
    if isValidBlockId last.block = true ∧ minBlockId ≤ last.block ∧ last.block ≤ maxBlockId then
      if scn < last.scn then .ok (minBlockId, last.block, logInvalidBlockId)
      else if last.scn < scn then .ok (last.block, maxBlockId, logInvalidBlockId)
      else .ok (1, 0, last.block)
    else .ok (minBlockId, maxBlockId, logInvalidBlockId)

def searchLoop : Nat → Nat → Nat → Nat → Option (Except LocateError Nat)
  | 0, _, _, _ => none
  | fuel + 1, minBlockId, maxBlockId, result =>
    if maxBlockId < minBlockId then some (.ok result)
    else
      let mid := minBlockId + (maxBlockId - minBlockId) / 2
      match store.getBlockMinScn mid with
      | .error .outOfLowerBound =>
        -- the block may have been recycled
        match getBinarySearchRange store last scn with
        | .error ret => some (.error ret)
        | .ok (minBlockId, maxBlockId, result) => searchLoop fuel minBlockId maxBlockId result
      | .error .outOfUpperBound => some (.error .entryNotExist)
      | .error ret => some (.error ret)
      | .ok midScn =>
        if midScn < scn then
          if maxBlockId = mid then some (.ok mid)
          else if maxBlockId = mid + 1 then
            match store.getBlockMinScn maxBlockId with
            | .error _ => some (.ok mid)
            | .ok nextMinScn => some (.ok (if scn < nextMinScn then mid else maxBlockId))
          else searchLoop fuel mid maxBlockId result
        else if scn < midScn then
          if mid = 0 ∨ mid - 1 < minBlockId then some (.error .outOfLowerBound)
          else searchLoop fuel minBlockId (mid - 1) result
        else some (.ok mid)

def getBlockIdByScn (fuel : Nat) : Option (Except LocateError Nat) :=
  match getBinarySearchRange store last scn with
  | .error ret => some (.error ret)
  | .ok (minBlockId, maxBlockId, result) =>
    searchLoop store last scn fuel minBlockId maxBlockId result

def incUpdateLastLocateBlockScn (blockId : Nat) : LastLocate :=
  if last.block < blockId then ⟨blockId, scn⟩ else last

/-- What a handle remembers: nothing at first, then what it updates with the results of
searches, which are block ids. -/
inductive LastLocate.Reachable : LastLocate → Prop
  | init (scn : Nat) : Reachable ⟨logInvalidBlockId, scn⟩
  | update {last : LastLocate} {blockId : Nat} (scn : Nat) (hid : blockId ≤ logInvalidBlockId) :
      Reachable last → Reachable (incUpdateLastLocateBlockScn last scn blockId)

/-- Blocks `first` to `final` with increasing SCNs, of which the last may be empty. -/
structure OrderedBlocks (first final : Nat) (minScn : Nat → Nat) : Prop where
  range : store.getBlockIdRange = .ok (first, final)
  le : first ≤ final
  readable : ∀ b, first ≤ b → b < final → store.getBlockMinScn b = .ok (minScn b)
  at_end : store.getBlockMinScn final = .ok (minScn final) ∨
    store.getBlockMinScn final = .error .outOfUpperBound
  increasing : ∀ a b, first ≤ a → a < b → b ≤ final → minScn a < minScn b

def Readable (minScn : Nat → Nat) (b : Nat) : Prop := store.getBlockMinScn b = .ok (minScn b)

/-- The greatest readable block up to `top` that does not start after `scn`, or an
error if already the first one does. -/
def Located (first top : Nat) (minScn : Nat → Nat) (result : Except LocateError Nat) : Prop :=
  (result = .error .outOfLowerBound ↔ scn < minScn first) ∧
    (minScn first ≤ scn → ∃ b, result = .ok b ∧ IsGreatest
      {b | first ≤ b ∧ b ≤ top ∧ Readable store minScn b ∧ minScn b ≤ scn} b)

variable {store last scn} {first final top lo hi fuel result : Nat} {minScn : Nat → Nat}

theorem Located.found {b : Nat} (hfirst : first ≤ b) (htop : b ≤ top)
    (hreadable : Readable store minScn b) (hle : minScn b ≤ scn) (hmin : minScn first ≤ minScn b)
    (hgreatest : ∀ c, b < c → c ≤ top → Readable store minScn c → scn < minScn c) :
    Located store scn first top minScn (.ok b) := by
  refine ⟨⟨(by cases ·), fun h => absurd h (by omega)⟩, fun _ => ⟨b, rfl,
    ⟨hfirst, htop, hreadable, hle⟩, fun c hc => ?_⟩⟩
  by_contra hlt
  have habove := hgreatest c (by omega) hc.2.1 hc.2.2.1
  have hbelow := hc.2.2.2
  omega

theorem OrderedBlocks.minScn_mono (h : OrderedBlocks store first final minScn) {a b : Nat}
    (ha : first ≤ a) (hab : a ≤ b) (hb : b ≤ final) : minScn a ≤ minScn b := by
  rcases Nat.eq_or_lt_of_le hab with rfl | hlt
  · exact le_refl _
  · exact (h.increasing a b ha hlt hb).le

/-- The bounds close in on the block: `lo` is readable and not too late, and every
readable block above `hi` is too late. -/
theorem OrderedBlocks.searchLoop_located (h : OrderedBlocks store first final minScn)
    (htop : top ≤ final) (hle : lo ≤ hi) (hfuel : hi - lo < fuel) (hfirst : first ≤ lo)
    (hhi : hi ≤ top) (hreadable : Readable store minScn lo) (hlow : lo = first ∨ minScn lo ≤ scn)
    (habove : ∀ c, hi < c → c ≤ top → Readable store minScn c → scn < minScn c) :
    ∃ found, searchLoop store last scn fuel lo hi result = some found ∧
      Located store scn first top minScn found := by
  induction fuel generalizing lo hi with
  | zero => omega
  | succ fuel ih =>
    obtain ⟨mid, hmid⟩ : ∃ mid, mid = lo + (hi - lo) / 2 := ⟨_, rfl⟩
    have hmidReadable : Readable store minScn mid := by
      rcases Nat.eq_or_lt_of_le hle with rfl | hlt
      · rwa [show mid = lo by omega]
      · exact h.readable mid (by omega) (by omega)
    have hmin := h.minScn_mono le_rfl (show first ≤ mid by omega) (by omega)
    simp only [searchLoop, if_neg (Nat.not_lt.mpr hle), ← hmid]
    rw [hmidReadable]
    dsimp only
    split_ifs with hbefore hwhole hpair hafter hlowest
    · exact ⟨_, rfl, .found (by omega) (by omega) hmidReadable hbefore.le hmin (hwhole ▸ habove)⟩
    · -- two blocks are left
      have hfound (hlate : Readable store minScn hi → scn < minScn hi) :
          Located store scn first top minScn (.ok mid) := by
        refine .found (by omega) (by omega) hmidReadable hbefore.le hmin fun c hc hct hcr => ?_
        rcases Nat.eq_or_lt_of_le (show hi ≤ c by omega) with rfl | hlt
        · exact hlate hcr
        · exact habove c hlt hct hcr
      cases hnext : store.getBlockMinScn hi with
      | error =>
        refine ⟨_, rfl, hfound fun hread => ?_⟩
        rw [Readable, hnext] at hread
        cases hread
      | ok nextMinScn =>
        have hread : Readable store minScn hi := by
          rcases Nat.eq_or_lt_of_le (hhi.trans htop) with rfl | hlt
          · exact h.at_end.resolve_right (by rw [hnext]; simp)
          · exact h.readable hi (by omega) hlt
        obtain rfl : minScn hi = nextMinScn := Except.ok.inj (hread.symm.trans hnext)
        dsimp only
        split_ifs with hlater
        · exact ⟨_, rfl, hfound fun _ => hlater⟩
        · exact ⟨_, rfl, .found (by omega) (by omega) hread (by omega)
            (h.minScn_mono le_rfl (by omega) (by omega)) habove⟩
    · exact ih (by omega) (by omega) (by omega) hhi hmidReadable (.inr hbefore.le) habove
    · have hlo : mid = lo := by omega
      obtain rfl | hlow := hlow
      · refine ⟨_, rfl, ⟨fun _ => hlo ▸ hafter, fun _ => rfl⟩, fun hge => ?_⟩
        rw [← hlo] at hge
        omega
      · rw [← hlo] at hlow
        omega
    · refine ih (by omega) (by omega) hfirst (by omega) hreadable hlow fun c hc hct _ => ?_
      have hmono := h.minScn_mono (show first ≤ mid by omega) (show mid ≤ c by omega) (by omega)
      omega
    · refine ⟨_, rfl, .found (by omega) (by omega) hmidReadable (by omega) hmin ?_⟩
      intro c hc hct _
      have hmono := h.increasing mid c (by omega) hc (by omega)
      omega

/-- The invalid id is the greatest one, so that no update takes effect. -/
theorem LastLocate.Reachable.block_eq (h : last.Reachable) : last.block = logInvalidBlockId := by
  induction h with
  | init => rfl
  | update scn hid _ ih => rw [incUpdateLastLocateBlockScn, if_neg (by omega), ih]

theorem getBlockIdByScn_located (hlast : last.Reachable)
    (h : OrderedBlocks store first final minScn) (hreadable : Readable store minScn first)
    (hcommitted : first ≤ lsn2Block store.endLsn) (hfuel : final - first < fuel) (scn : Nat) :
    ∃ found, getBlockIdByScn store last scn fuel = some found ∧
      Located store scn first (min (lsn2Block store.endLsn) final) minScn found := by
  have hinvalid : isValidBlockId last.block = false := by
    rw [hlast.block_eq]
    decide
  have hrange : getBinarySearchRange store last scn =
      .ok (first, min (lsn2Block store.endLsn) final, logInvalidBlockId) := by
    simp [getBinarySearchRange, h.range, hinvalid]
  have hle := h.le
  rw [getBlockIdByScn, hrange]
  exact h.searchLoop_located (by omega) (by omega) (by omega) le_rfl le_rfl hreadable (.inl rfl)
    fun c hlt hle _ => absurd hlt (by omega)

/-- Blocks 5, 6 and 7, of which the last is empty. -/
def threeBlocks (endLsn : Nat) : BlockStore where
  getBlockIdRange := .ok (5, 7)
  getBlockMinScn b := if b = 5 then .ok 50 else if b = 6 then .ok 60 else .error .outOfUpperBound
  endLsn := endLsn
  endScn := 70

theorem threeBlocks_ordered (endLsn : Nat) : OrderedBlocks (threeBlocks endLsn) 5 7 (10 * ·) where
  range := rfl
  le := by decide
  readable b hle hlt := by
    obtain rfl | rfl : b = 5 ∨ b = 6 := by omega
    · rfl
    · rfl
  at_end := .inr rfl
  increasing a b _ hlt _ := by
    omega

theorem getBlockIdByScn_located_second : ∃ found,
    getBlockIdByScn (threeBlocks (7 * palfBlockSize)) ⟨logInvalidBlockId, 0⟩ 65 3 = some found ∧
      Located (threeBlocks (7 * palfBlockSize)) 65 5 (min (lsn2Block (7 * palfBlockSize)) 7)
        (10 * ·) found :=
  getBlockIdByScn_located (.init 0) (threeBlocks_ordered _) rfl (by decide) (by decide) 65

/-- A log that has just been created. -/
def freshLog : BlockStore where
  getBlockIdRange := .ok (0, 0)
  getBlockMinScn _ := .error .outOfUpperBound
  endLsn := 0
  endScn := 0

/-- With the committed end below the first block the search succeeds without a block, and with
a single empty block it finds no entry. -/
theorem getBlockIdByScn_uncommitted :
    (threeBlocks 0).getBlockMinScn 5 = .ok 50 ∧
      getBlockIdByScn (threeBlocks 0) ⟨logInvalidBlockId, 0⟩ 1 3 = some (.ok logInvalidBlockId) ∧
      OrderedBlocks freshLog 0 0 id ∧
      getBlockIdByScn freshLog ⟨logInvalidBlockId, 0⟩ 1 1 = some (.error .entryNotExist) := by
  refine ⟨rfl, rfl, ?_, rfl⟩
  exact ⟨rfl, le_rfl, fun b _ hlt => absurd hlt (Nat.not_lt_zero b), .inr rfl,
    fun a b _ hlt hle => absurd hlt (by omega)⟩

end SeekDB
