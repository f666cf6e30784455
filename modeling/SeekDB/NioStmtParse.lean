/-
The parser of COM_STMT_EXECUTE against the grammar, for whole requests.

A request that carries its type table can be sent again without it: the values
are then found two bytes per parameter earlier.
-/
import SeekDB.NioStmtGrammar

namespace SeekDB.Nio

open List ByteCodec ByteSlice

variable {info : ExecuteParamMeta} {encoding : List UInt8} {index : Nat}
  {tail bitmap longData table body : List UInt8} {paramCount pos next : Nat}
  {cached metas : List ExecuteParamMeta} {params : List ExecuteParam} {newFlag : UInt8}

theorem parseTypes_eq_ok : parseTypes tail paramCount cached newFlag pos = .ok (metas, next) ↔
      (newFlag = 1 ∧ ∃ table, Slice tail pos table ∧ table.length = paramCount * 2 ∧
        metas = tableMetas table ∧ next = pos + table.length) ∨
      (newFlag ≠ 1 ∧ cached.length = paramCount ∧ (∀ info ∈ cached, info.reserved = 0) ∧
        metas = cached ∧ next = pos) := by
  unfold parseTypes
  by_cases hflag : newFlag = 1
  · rw [if_pos hflag, bind_eq_ok]
    constructor
    · rintro ⟨⟨table, behind⟩, hread, hret⟩
      obtain ⟨hslice, hlen, rfl⟩ := readFixed_eq_ok.mp hread
      cases hret
      exact .inl ⟨hflag, table, hslice, hlen, rfl, by rw [hlen]⟩
    · rintro (⟨-, table, hslice, hlen, rfl, rfl⟩ | ⟨hne, -⟩)
      · exact ⟨(table, _), readFixed_slice hslice hlen, by rw [hlen]; rfl⟩
      · exact absurd hflag hne
  rw [if_neg hflag]
  simp only [any_eq_true, bne_iff_ne, ne_eq]
  constructor
  · intro h
    split at h
    · simp at h
    rename_i hvalid
    push Not at hvalid
    cases h
    exact .inr ⟨hflag, hvalid.1, fun info hmem => hvalid.2 info hmem, rfl, rfl⟩
  · rintro (⟨heq, -⟩ | ⟨-, hlen, hreserved, rfl, rfl⟩)
    · exact absurd heq hflag
    · rw [if_neg]
      rintro (hne | ⟨info, hmem, hne⟩)
      · exact hne hlen
      · exact hne (hreserved info hmem)

theorem EncodedParams.reserved (h : EncodedParams bitmap longData index pos metas body params) :
    ∀ info ∈ metas, info.reserved = 0 := by
  induction h with
  | nil => simp
  | cons hreserved _ _ ih =>
    rw [forall_mem_cons]
    exact ⟨hreserved, ih⟩

theorem longData_valid : (!longData.isEmpty &&
      (longData.length != paramCount || longData.any (fun value => 1 < value))) = false ↔
    longData = [] ∨ longData.length = paramCount ∧ ∀ value ∈ longData, value = 0 ∨ value = 1 := by
  have hsmall : ∀ value : UInt8, ¬ 1 < value ↔ value = 0 ∨ value = 1 := by
    intro value
    rw [UInt8.lt_iff_toNat_lt, ← UInt8.toNat_inj, ← UInt8.toNat_inj]
    simp
    omega
  cases longData with
  | nil => simp
  | cons => simp [← hsmall]

theorem slices_iff (hbitmap : bitmap.length = pos) : tail = bitmap ++ newFlag :: table ++ body ↔
      tail.take pos = bitmap ∧ tail[pos]? = some newFlag ∧ Slice tail (pos + 1) table ∧
        Slice tail (pos + 1 + table.length) body ∧
        pos + 1 + table.length + body.length = tail.length := by
  subst hbitmap
  constructor
  · rintro rfl
    have hwhole : Slice (bitmap ++ newFlag :: table ++ body) 0
        (bitmap ++ ([newFlag] ++ (table ++ body))) := ⟨Nat.zero_le _, [], by simp⟩
    obtain ⟨-, hwhole⟩ := slice_append.mp hwhole
    obtain ⟨-, hwhole⟩ := slice_append.mp hwhole
    obtain ⟨htable, hbody⟩ := slice_append.mp hwhole
    rw [Nat.zero_add, length_singleton] at htable hbody
    refine ⟨by simp, by simp, htable, hbody, ?_⟩
    simp
    omega
  · rintro ⟨hbitmap, hflag, htable, hbody, hlen⟩
    have hfront : Slice tail 0 bitmap := by
      refine ⟨Nat.zero_le _, tail.drop bitmap.length, ?_⟩
      nth_rewrite 1 [← hbitmap]
      rw [take_append_drop, drop_zero]
    have hwhole : Slice tail 0 (bitmap ++ ([newFlag] ++ (table ++ body))) := by
      refine slice_append.mpr ⟨hfront, slice_append.mpr ⟨?_, slice_append.mpr ⟨?_, ?_⟩⟩⟩
      · rw [Nat.zero_add]
        exact slice_singleton.mpr hflag
      · rw [Nat.zero_add]
        exact htable
      · rw [Nat.zero_add]
        exact hbody
    have heq := hwhole.eq_drop (by simp; omega)
    rw [drop_zero] at heq
    rw [heq]
    simp

/-- What `parse` has checked when it gets to the values. -/
theorem parse_eq_ok_of_pos (hcount : paramCount ≠ 0) :
    parse tail paramCount cached longData = .ok (params, newFlag) ↔
      ∃ metas pos, tail[(paramCount + 7) / 8]? = some newFlag ∧
        parseTypes tail paramCount cached newFlag ((paramCount + 7) / 8 + 1) = .ok (metas, pos) ∧
        (∀ info ∈ metas, isObExtension info.mysqlType = false) ∧
        (longData = [] ∨ longData.length = paramCount ∧ ∀ value ∈ longData, value = 0 ∨ value = 1) ∧
        parseValues tail (tail.take ((paramCount + 7) / 8)) longData 0 pos metas =
          .ok (params, tail.length) := by
  unfold parse
  rw [if_neg hcount]
  dsimp only
  cases hflag : tail[(paramCount + 7) / 8]? with
  | none => simp
  | some flag =>
    dsimp only
    rw [bind_eq_ok]
    constructor
    · rintro ⟨⟨metas, pos⟩, htypes, h⟩
      dsimp only at h
      split at h
      · simp at h
      rename_i hsupported
      split at h
      · simp at h
      rename_i hlong
      obtain ⟨⟨values, behind⟩, hvalues, h⟩ := bind_eq_ok.mp h
      dsimp only at h
      split at h
      · simp at h
      rename_i hend
      cases h
      obtain rfl : behind = tail.length := not_not.mp hend
      refine ⟨metas, pos, rfl, htypes, by simpa using hsupported,
        longData_valid.mp (Bool.not_eq_true _ ▸ hlong), hvalues⟩
    · rintro ⟨metas, pos, hsome, htypes, hsupported, hlong, hvalues⟩
      cases hsome
      refine ⟨(metas, pos), htypes, ?_⟩
      dsimp only
      rw [if_neg (by simpa using hsupported), if_neg]
      · rw [hvalues]
        simp [bind, Except.bind, pure, Except.pure]
      · rw [longData_valid.mpr hlong]
        exact Bool.false_ne_true

theorem parse_sound (h : parse tail paramCount cached longData = .ok (params, newFlag)) :
    EncodedRequest tail paramCount cached longData params newFlag := by
  unfold EncodedRequest
  split_ifs with hcount
  · unfold parse at h
    rw [if_pos hcount] at h
    split at h
    · simp at h
    rename_i hempty
    cases h
    simpa [and_assoc] using hempty
  obtain ⟨metas, pos, hflag, htypes, hsupported, hlong, hvalues⟩ :=
    (parse_eq_ok_of_pos hcount).mp h
  obtain ⟨hlt, -⟩ := List.getElem?_eq_some_iff.mp hflag
  have hbitmap : (tail.take ((paramCount + 7) / 8)).length = (paramCount + 7) / 8 := by
    rw [length_take]
    omega
  rcases parseTypes_eq_ok.mp htypes with
    ⟨hone, table, htable, hlen, rfl, rfl⟩ | ⟨hne, hcached, -, rfl, rfl⟩
  · obtain ⟨body, hparams, hbody, hend⟩ := parseValues_sound htable.length_le hvalues
    refine ⟨_, table, body, tableMetas table,
      (slices_iff hbitmap).mpr ⟨rfl, hflag, htable, hbody, hend.symm⟩, hbitmap,
      .inl ⟨hone, hlen, rfl⟩, hsupported, hlong, ?_⟩
    rw [hbitmap]
    exact hparams
  obtain ⟨body, hparams, hbody, hend⟩ := parseValues_sound hlt hvalues
  refine ⟨_, [], body, metas,
    (slices_iff hbitmap).mpr ⟨rfl, hflag, slice_nil.mpr hlt, hbody, hend.symm⟩, hbitmap,
    .inr ⟨hne, rfl, rfl, hcached⟩, hsupported, hlong, ?_⟩
  rw [hbitmap]
  exact hparams

theorem EncodedTail.parse_eq (hcount : paramCount ≠ 0)
    (h : EncodedTail tail paramCount cached longData params newFlag bitmap table body metas) :
    parse tail paramCount cached longData = .ok (params, newFlag) := by
  obtain ⟨htake, hflag, htable, hbody, hend⟩ := (slices_iff h.bitmap_length).mp h.tail_eq
  have hvalues := h.values
  rw [h.bitmap_length] at hvalues
  refine (parse_eq_ok_of_pos hcount).mpr ⟨metas, (paramCount + 7) / 8 + 1 + table.length,
    hflag, ?_, h.supported, h.long_data, ?_⟩
  · rcases h.types with ⟨hone, hlen, hmetas⟩ | ⟨hne, rfl, hmetas, hlen⟩
    · exact parseTypes_eq_ok.mpr (.inl ⟨hone, table, htable, hlen, hmetas, rfl⟩)
    · exact parseTypes_eq_ok.mpr
        (.inr ⟨hne, hlen, hmetas ▸ h.values.reserved, hmetas, rfl⟩)
  · rw [htake, ← hend]
    exact parseValues_complete hvalues hbody

theorem parse_complete (h : EncodedRequest tail paramCount cached longData params newFlag) :
    parse tail paramCount cached longData = .ok (params, newFlag) := by
  unfold EncodedRequest at h
  split at h
  · rename_i hcount
    obtain ⟨rfl, rfl, rfl, rfl, rfl⟩ := h
    subst hcount
    rfl
  · rename_i hcount
    obtain ⟨bitmap, table, body, metas, htail⟩ := h
    exact htail.parse_eq hcount

/-! Sending the values again. -/

/-- A descriptor whose bytes stand `distance` further on. -/
def ExecuteParam.shift (distance : Nat) (param : ExecuteParam) : ExecuteParam :=
  if param.kind = .bytes then { param with valueOff := param.valueOff + distance } else param

theorem exists_bytes_of_kind
    {value : BinaryValue} (h : (value.describe info pos encoding).kind = .bytes) :
    ∃ data, value = .bytes data := by
  have hdate : dateKind info.mysqlType ≠ .bytes := by
    unfold dateKind
    split
    · decide
    · split <;> decide
  cases value with
  | integer =>
    simp only [BinaryValue.describe] at h
    split at h <;> cases h
  | float | double | year => cases h
  | time value => cases value <;> cases h
  | date value =>
    cases value with
    | none => exact absurd h hdate
    | some date => obtain ⟨year, month, day, _ | clock⟩ := date <;> exact absurd h hdate
  | bytes data => exact ⟨data, rfl⟩

theorem describe_shift (info : ExecuteParamMeta) (pos distance : Nat)
    (value : BinaryValue) (encoding : List UInt8) :
    value.describe info (pos + distance) encoding =
      (value.describe info pos encoding).shift distance := by
  unfold ExecuteParam.shift
  split_ifs with hkind
  · obtain ⟨data, rfl⟩ := exists_bytes_of_kind hkind
    simp only [BinaryValue.describe, Nat.add_right_comm]
  cases value with
  | bytes => exact absurd rfl hkind
  | integer | float | double | year => rfl
  | time value | date value => cases value <;> rfl

theorem EncodedParam.unshift {distance : Nat} {isNull hasLongData : Bool} {param : ExecuteParam}
    (h : EncodedParam info (pos + distance) isNull hasLongData encoding param) :
    ∃ earlier, EncodedParam info pos isNull hasLongData encoding earlier ∧
      param = earlier.shift distance := by
  cases h with
  | longData isNull htype => exact ⟨_, .longData isNull htype, rfl⟩
  | null => exact ⟨_, .null, rfl⟩
  | @value value _ htype hencodes hfits =>
    refine ⟨_, .value htype hencodes ?_, describe_shift info pos distance value encoding⟩
    cases value with
    | bytes =>
      obtain ⟨hoff, hlen⟩ := hfits
      exact ⟨by omega, hlen⟩
    | integer | float | double | year | time | date => trivial

theorem EncodedParams.unshift {distance : Nat}
    (h : EncodedParams bitmap longData index (pos + distance) metas body params) :
    ∃ earlier, EncodedParams bitmap longData index pos metas body earlier ∧
      params = earlier.map (ExecuteParam.shift distance) := by
  generalize hstart : pos + distance = start at h
  induction h generalizing pos with
  | nil index => exact ⟨[], .nil index pos, rfl⟩
  | @cons _ start _ _ encoding _ _ _ hreserved hparam _ ih =>
    subst hstart
    obtain ⟨first, hfirst, rfl⟩ := hparam.unshift
    obtain ⟨later, hlater, rfl⟩ := ih (Nat.add_right_comm pos encoding.length distance)
    exact ⟨first :: later, .cons hreserved hfirst hlater, rfl⟩

theorem length_tableMetas (h : table.length = paramCount * 2) :
    (tableMetas table).length = paramCount := by
  induction paramCount generalizing table with
  | zero =>
    obtain rfl := length_eq_zero_iff.mp (by omega : table.length = 0)
    rfl
  | succ count ih =>
    match table, h with
    | [_], h =>
      rw [length_singleton] at h
      omega
    | mysqlType :: typeFlags :: rest, h =>
      simp only [length_cons] at h
      simp only [tableMetas, length_cons, ih (by omega : rest.length = count * 2)]

theorem EncodedParam.inBounds {isNull hasLongData : Bool} {param : ExecuteParam}
    (h : EncodedParam info pos isNull hasLongData encoding param) (hkind : param.kind = .bytes) :
    param.valueOff + param.valueLen = pos + encoding.length := by
  cases h with
  | longData | null => cases hkind
  | value htype hencodes =>
    obtain ⟨data, rfl⟩ := exists_bytes_of_kind hkind
    cases hencodes with
    | bytes =>
      simp only [BinaryValue.describe, length_append]
      omega

theorem EncodedParams.inBounds (h : EncodedParams bitmap longData index pos metas body params) :
    ∀ param ∈ params, param.kind = .bytes →
      param.valueOff + param.valueLen ≤ pos + body.length := by
  induction h with
  | nil => simp
  | cons _ hparam _ ih =>
    rw [forall_mem_cons, length_append]
    refine ⟨fun hkind => ?_, fun later hlater hkind => ?_⟩
    · have heq := hparam.inBounds hkind
      omega
    · have hle := ih later hlater hkind
      omega

theorem EncodedRequest.inBounds
    (h : EncodedRequest tail paramCount cached longData params newFlag) :
    ∀ param ∈ params, param.kind = .bytes → param.valueOff + param.valueLen ≤ tail.length := by
  unfold EncodedRequest at h
  split at h
  · obtain ⟨-, -, -, rfl, -⟩ := h
    simp
  obtain ⟨bitmap, table, body, metas, htail⟩ := h
  obtain ⟨-, -, -, -, hend⟩ := (slices_iff htail.bitmap_length).mp htail.tail_eq
  rw [← hend, ← htail.bitmap_length]
  exact htail.values.inBounds

theorem parse_resend (h : parse tail paramCount cached longData = .ok (params, 1)) :
    ∃ bitmap table body earlier, tail = bitmap ++ 1 :: table ++ body ∧
      bitmap.length = (paramCount + 7) / 8 ∧ table.length = paramCount * 2 ∧
      parse (bitmap ++ 0 :: body) paramCount (tableMetas table) longData = .ok (earlier, 0) ∧
      params = earlier.map (ExecuteParam.shift (paramCount * 2)) := by
  have hrequest := parse_sound h
  unfold EncodedRequest at hrequest
  split at hrequest
  · exact absurd hrequest.2.2.2.2 (by decide)
  rename_i hcount
  obtain ⟨bitmap, table, body, metas, htail⟩ := hrequest
  rcases htail.types with ⟨-, hlen, rfl⟩ | ⟨hne, -⟩
  swap
  · exact absurd rfl hne
  obtain ⟨earlier, hearlier, hparams⟩ := htail.values.unshift
  rw [hlen] at hparams
  have hagain : EncodedTail (bitmap ++ 0 :: body) paramCount (tableMetas table) longData
      earlier 0 bitmap [] body (tableMetas table) :=
    ⟨by simp, htail.bitmap_length, .inr ⟨by decide, rfl, rfl, length_tableMetas hlen⟩,
      htail.supported, htail.long_data, hearlier⟩
  exact ⟨bitmap, table, body, earlier, htail.tail_eq, htail.bitmap_length, hlen,
    hagain.parse_eq hcount, hparams⟩

/-- The parser accepts exactly the requests of the grammar, with their
descriptors; and what was sent with its types can be sent again without them. -/
theorem parse_exact (tail : List UInt8) (paramCount : Nat) (cached : List ExecuteParamMeta)
    (longData : List UInt8) (params : List ExecuteParam) (newFlag : UInt8) :
    (parse tail paramCount cached longData = .ok (params, newFlag) ↔
      EncodedRequest tail paramCount cached longData params newFlag) ∧
    (parse tail paramCount cached longData = .ok (params, newFlag) →
      ∀ param ∈ params, param.kind = .bytes → param.valueOff + param.valueLen ≤ tail.length) ∧
    (parse tail paramCount cached longData = .ok (params, 1) →
      ∃ bitmap table body earlier, tail = bitmap ++ 1 :: table ++ body ∧
        bitmap.length = (paramCount + 7) / 8 ∧ table.length = paramCount * 2 ∧
        parse (bitmap ++ 0 :: body) paramCount (tableMetas table) longData = .ok (earlier, 0) ∧
        params = earlier.map (ExecuteParam.shift (paramCount * 2))) :=
  ⟨⟨parse_sound, parse_complete⟩, fun h => (parse_sound h).inBounds, parse_resend⟩

/-- The string "hi" as the only parameter. -/
def stringRequest : List UInt8 := [0, 1, 253, 0, 2, 104, 105]

def stringParam : ExecuteParam :=
  { descriptor ⟨253, 0, 0⟩ with kind := .bytes, valueOff := 5, valueLen := 2 }

theorem parse_exact_string : EncodedRequest stringRequest 1 [] [] [stringParam] 1 ∧
      ∃ bitmap table body earlier, stringRequest = bitmap ++ 1 :: table ++ body ∧
        bitmap.length = 1 ∧ table.length = 2 ∧
        parse (bitmap ++ 0 :: body) 1 (tableMetas table) [] = .ok (earlier, 0) ∧
        [stringParam] = earlier.map (ExecuteParam.shift 2) :=
  have hparse : parse stringRequest 1 [] [] = .ok ([stringParam], 1) := by decide +kernel
  have hexact := parse_exact stringRequest 1 [] [] [stringParam] 1
  ⟨hexact.1.mp hparse, hexact.2.2 hparse⟩

/-- Where the layout alone does not decide: a request without parameters has no
flag at all, and long data must be of a type that allows it. -/
theorem parse_layout_not_enough :
    parse [0] 0 [] [] = .error .malformed ∧ parse [] 0 [] [] = .ok ([], 0) ∧
      parse [0, 1, 1, 0] 1 [] [1] = .error .malformed := by
  refine ⟨?_, ?_, ?_⟩ <;> decide +kernel

end SeekDB.Nio
