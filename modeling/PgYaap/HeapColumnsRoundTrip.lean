import PgYaap.HeapColumns

/-! # Which values come out of the output as they are stored

Integers, dates and doubles do. A `char(1)` does when its character has one byte, a string
when it is stored in place and is not too long, and a numeric when its column has at most
four decimals, is zero, or is a number of hundredths in a column of two decimals. -/
namespace PgYaap
namespace HeapColumns

open ColumnSlots HashJoinProbe StoredNumeric

/-- **What comes out as it is stored.** -/
def ComesOutExactly (attr : Attribute) : StoredValue → Prop
  | .numeric n =>
    let scale := getNumericScaleFromTypmod attr.atttypmod
    (0 ≤ scale ∧ scale ≤ 4 ∧ n.dscale ≤ scale) ∨ n.value = 0 ∨
      (scale.bmod (2 ^ 8) = 2 ∧ FitsInt64 (n.value * 100) ∧ (n.value * 100).den = 1)
  | .bpchar (.inline bytes) =>
    if attr.atttypmod - varhdrsz = 1 then bytes.length = 1 else bytes.length ≤ 65536
  | .bpchar (.toasted inPlace bytes) =>
    varhdrsz ≤ attr.atttypmod ∧ inPlace.length ≤ 65536 ∧
      ∃ blanks, bytes = pnstrdup inPlace ++ List.replicate blanks 32
  | .varchar (.inline bytes) => bytes.length ≤ 65536
  | .text (.inline bytes) => bytes.length ≤ 65536
  | .varchar (.toasted _ _) => False
  | .text (.toasted _ _) => False
  | _ => True

/-! ## Strings -/

theorem length_pnstrdup_le (bytes : List UInt8) : (pnstrdup bytes).length ≤ bytes.length :=
  (List.takeWhile_prefix _).length_le

theorem pnstrdup_eq {bytes : List UInt8} (h : ∀ b ∈ bytes, b ≠ 0) : pnstrdup bytes = bytes :=
  List.takeWhile_eq_self_iff.2 fun b hb => decide_eq_true (h b hb)

theorem splitChars_append (n : Nat) (bytes : List UInt8) :
    (splitChars n bytes).1 ++ (splitChars n bytes).2 = bytes := by
  induction bytes generalizing n with
  | nil => rfl
  | cons b bytes ih =>
    rw [splitChars]
    by_cases hcontinues : b &&& 0xC0 = 0x80
    · rw [if_pos hcontinues]
      exact congrArg (b :: ·) (ih n)
    · rw [if_neg hcontinues]
      by_cases hzero : n = 0
      · rw [if_pos hzero]
        rfl
      · rw [if_neg hzero]
        exact congrArg (b :: ·) (ih (n - 1))

theorem length_le_of_truncateChars {n : Nat} {bytes bytes' : List UInt8} {what : String}
    (h : truncateChars n bytes what = .ok bytes') : bytes'.length ≤ bytes.length := by
  rw [truncateChars] at h
  by_cases hlength : charLength bytes ≤ n
  · obtain rfl := Except.ok.inj ((if_pos hlength).symm.trans h)
    exact le_rfl
  · have hcut := (if_neg hlength).symm.trans h
    by_cases hblanks : (splitChars n bytes).2.all (· = 32) = true
    · obtain rfl := Except.ok.inj ((if_pos hblanks).symm.trans hcut)
      have hsplit := congrArg List.length (splitChars_append n bytes)
      rw [List.length_append] at hsplit
      omega
    · exact absurd ((if_neg hblanks).symm.trans hcut) nofun

theorem length_le_of_varcharin {typmod : Int} {bytes bytes' : List UInt8}
    (h : varcharin typmod bytes = .ok bytes') : bytes'.length ≤ bytes.length := by
  rw [varcharin] at h
  by_cases htypmod : typmod < varhdrsz
  · obtain rfl := Except.ok.inj ((if_pos htypmod).symm.trans h)
    exact le_rfl
  · exact length_le_of_truncateChars ((if_neg htypmod).symm.trans h)

theorem varcharin_eq {typmod : Int} {bytes : List UInt8}
    (h : varhdrsz ≤ typmod → (charLength bytes : Int) ≤ typmod - varhdrsz) :
    varcharin typmod bytes = .ok bytes := by
  rw [varcharin]
  by_cases htypmod : typmod < varhdrsz
  · exact if_pos htypmod
  · have hlength := h (not_lt.1 htypmod)
    rw [if_neg htypmod, truncateChars, if_pos (by omega)]

theorem bpcharin_eq {typmod : Int} {bytes : List UInt8}
    (h : varhdrsz ≤ typmod → (charLength bytes : Int) = typmod - varhdrsz) :
    bpcharin typmod bytes = .ok bytes := by
  rw [bpcharin]
  by_cases htypmod : typmod < varhdrsz
  · exact if_pos htypmod
  · have hlength := h (not_lt.1 htypmod)
    have hpad : (typmod - varhdrsz).toNat - charLength bytes = 0 := by omega
    rw [if_neg htypmod, truncateChars, if_pos (by omega), Except.map, hpad, List.replicate_zero,
      List.append_nil]

theorem charLength_append (bytes bytes' : List UInt8) :
    charLength (bytes ++ bytes') = charLength bytes + charLength bytes' :=
  List.countP_append

theorem charLength_blanks (n : Nat) : charLength (List.replicate n 32) = n := by
  rw [charLength, List.countP_replicate, if_pos (by decide)]

theorem charLength_splitChars (n : Nat) (bytes : List UInt8) :
    charLength (splitChars n bytes).1 = min n (charLength bytes) := by
  induction bytes generalizing n with
  | nil => exact (Nat.min_zero n).symm
  | cons b bytes ih =>
    rw [splitChars]
    by_cases hcontinues : b &&& 0xC0 = 0x80
    · have hskip : ∀ bytes, charLength (b :: bytes) = charLength bytes := fun bytes =>
        List.countP_cons_of_neg (by simpa using hcontinues)
      rw [if_pos hcontinues, hskip, ← ih n]
      exact hskip _
    · have hcount : ∀ bytes, charLength (b :: bytes) = charLength bytes + 1 := fun bytes =>
        List.countP_cons_of_pos (by simpa using hcontinues)
      rw [if_neg hcontinues, hcount]
      by_cases hzero : n = 0
      · rw [if_pos hzero, hzero, Nat.zero_min]
        rfl
      · rw [if_neg hzero]
        have hrest := ih (n - 1)
        have hfirst := hcount (splitChars (n - 1) bytes).1
        change charLength (b :: (splitChars (n - 1) bytes).1) = _
        omega

/-- What `bpcharin` makes of fewer bytes than a value has: the value when blanks are missing. -/
theorem bpcharin_eq_iff_of_shorter {typmod : Int} {bytes value : List UInt8}
    (hshorter : bytes.length < value.length)
    (h : varhdrsz ≤ typmod → (charLength value : Int) = typmod - varhdrsz) :
    bpcharin typmod bytes = .ok value ↔
      varhdrsz ≤ typmod ∧ ∃ blanks, value = bytes ++ List.replicate blanks 32 := by
  rw [bpcharin]
  by_cases htypmod : typmod < varhdrsz
  · rw [if_pos htypmod]
    refine iff_of_false (fun heq => ?_) fun hle => not_lt.2 hle.1 htypmod
    obtain rfl := Except.ok.inj heq
    exact lt_irrefl _ hshorter
  · have hlength := h (not_lt.1 htypmod)
    rw [if_neg htypmod, and_iff_right (not_lt.1 htypmod)]
    constructor
    · intro heq
      cases htruncate : truncateChars (typmod - varhdrsz).toNat bytes
          "value too long for type character(%zu)" with
      | error e =>
        rw [htruncate] at heq
        exact absurd heq nofun
      | ok cut =>
        rw [htruncate] at heq
        have hvalue : value = cut ++ List.replicate _ 32 := (Except.ok.inj heq).symm
        rw [truncateChars] at htruncate
        by_cases hfits : charLength bytes ≤ (typmod - varhdrsz).toNat
        · obtain rfl := Except.ok.inj ((if_pos hfits).symm.trans htruncate)
          exact ⟨_, hvalue⟩
        · -- what is cut has the characters already, so nothing is padded
          have hcut := (if_neg hfits).symm.trans htruncate
          by_cases hblanks : (splitChars (typmod - varhdrsz).toNat bytes).2.all (· = 32) = true
          · obtain rfl := Except.ok.inj ((if_pos hblanks).symm.trans hcut)
            have hchars := charLength_splitChars (typmod - varhdrsz).toNat bytes
            have hsplit := congrArg List.length
              (splitChars_append (typmod - varhdrsz).toNat bytes)
            have hvalue' := congrArg List.length hvalue
            rw [List.length_append] at hsplit
            rw [List.length_append, List.length_replicate] at hvalue'
            omega
          · exact absurd ((if_neg hblanks).symm.trans hcut) nofun
    · rintro ⟨blanks, rfl⟩
      rw [charLength_append, charLength_blanks] at hlength
      have hpad : (typmod - varhdrsz).toNat - charLength bytes = blanks := by omega
      rw [truncateChars, if_pos (by omega), Except.map, hpad]

/-! ## One value -/

/-- The column of a scan for an attribute. -/
def columnOf (attr : Attribute) (chunkSlot : Nat) (srcAttno : Int) (kind : ColumnDecodeKind) :
    ColumnSchema :=
  ⟨attr.atttypid, attr.atttypmod, attr.attlen, attr.attbyval, chunkSlot, srcAttno, kind⟩

/-- A value is read off the heap tuple and leaves the encoder as it is stored. -/
def ComesOut (attr : Attribute) (col : ColumnSchema) (v : StoredValue) : Prop :=
  ∃ d, deformColumn attr v = .ok d ∧
    (encodeValue col (columnNumericScale col) d).map (wrapBpchar attr.atttypid col) = .ok v.value

section OneValue

variable {attr : Attribute} {chunkSlot : Nat} {srcAttno : Int} {kind : ColumnDecodeKind}

theorem columnNumericScale_columnOf
    (hkind : kind = .int64NumericScaled) :
    columnNumericScale (columnOf attr chunkSlot srcAttno kind) =
      (getNumericScaleFromTypmod attr.atttypmod).bmod (2 ^ 8) := by
  subst hkind
  rw [columnNumericScale, if_pos (by rfl)]
  change (if varhdrsz ≤ attr.atttypmod then
    (extractNumericTypmodScale attr.atttypmod).bmod (2 ^ 8) else 2) = _
  by_cases htypmod : varhdrsz ≤ attr.atttypmod
  · rw [if_pos htypmod, extractNumericTypmodScale, if_neg (not_lt.2 htypmod)]
  · rw [if_neg htypmod, getNumericScaleFromTypmod,
      if_pos (show attr.atttypmod < 4 from not_le.1 htypmod)]
    rfl

theorem comesOut_numeric_iff {n : NumericDatum} (htype : attr.atttypid = numericOid)
    (hwf : n.WellFormed)
    (hfits : FitsInt64 (n.value * 10 ^ getNumericScaleFromTypmod attr.atttypmod))
    (hkind : seqScanDecodeKind attr = some kind) :
    ComesOut attr (columnOf attr chunkSlot srcAttno kind) (.numeric n) ↔
      ComesOutExactly attr (.numeric n) := by
  obtain rfl : kind = .int64NumericScaled := by
    rw [seqScanDecodeKind, htype] at hkind
    exact (Option.some.inj hkind).symm
  have hdeform : deformColumn attr (.numeric n) =
      (deformNumeric attr.atttypmod n).map fun scaled => .int64 (Int64.ofInt scaled) := by
    rw [deformColumn, hkind]
    rfl
  -- what an integer in range becomes
  have hencode : ∀ scaled : Int, FitsInt64 scaled →
      (encodeValue (columnOf attr chunkSlot srcAttno .int64NumericScaled)
        (columnNumericScale (columnOf attr chunkSlot srcAttno .int64NumericScaled))
        (.int64 (Int64.ofInt scaled))).map
          (wrapBpchar attr.atttypid (columnOf attr chunkSlot srcAttno .int64NumericScaled)) =
        .ok (.numeric ((scaled : ℚ) /
          10 ^ (getNumericScaleFromTypmod attr.atttypmod).bmod (2 ^ 8))) := by
    intro scaled hrange
    have hint : (Int64.ofInt scaled).toInt = scaled := by
      obtain ⟨hlo, hhi⟩ := hrange
      have hlo' : -2 ^ 63 ≤ scaled := by exact_mod_cast hlo
      have hhi' : scaled ≤ 2 ^ 63 - 1 := by exact_mod_cast hhi
      exact Int64.toInt_ofInt_of_le hlo' (by omega)
    rw [columnNumericScale_columnOf rfl]
    change Except.ok (SqlValue.numeric (((Int64.ofInt scaled).toInt : ℚ) / 10 ^ _)) = _
    rw [hint]
  rw [ComesOut, hdeform, ComesOutExactly]
  by_cases hdigits : 0 ≤ getNumericScaleFromTypmod attr.atttypmod ∧
      getNumericScaleFromTypmod attr.atttypmod ≤ 4 ∧
      n.dscale ≤ getNumericScaleFromTypmod attr.atttypmod
  · refine iff_of_true ?_ (Or.inl hdigits)
    obtain ⟨hpos, hle, hdscale⟩ := hdigits
    obtain ⟨scale, hscale⟩ := Int.eq_ofNat_of_zero_le hpos
    rw [hscale] at hle hdscale hfits
    obtain ⟨scaled, hfast, hvalue⟩ :=
      @NumericDatum.WellFormed.tryFastNumericToScaledInt64_eq n hwf scale (by omega) (by omega)
        (by exact_mod_cast hfits)
    have hrange : FitsInt64 scaled := by
      rw [hvalue]
      exact_mod_cast hfits
    refine ⟨.int64 (Int64.ofInt scaled), ?_, ?_⟩
    · rw [deformNumeric, hscale, hfast]
      rfl
    · have hsame : (scale : Int).bmod (2 ^ 8) = scale := by
        apply Int.bmod_eq_of_le <;> omega
      rw [hencode scaled hrange, hscale, hsame, hvalue, zpow_natCast,
        mul_div_cancel_right₀ _ (pow_ne_zero scale (by norm_num : (10 : ℚ) ≠ 0))]
      rfl
  · have hfast := tryFastNumericToScaledInt64_eq_none hdigits
    have hslow : deformNumeric attr.atttypmod n = numericInt8 (n.value * 100) := by
      rw [deformNumeric, hfast]
      exact if_neg (by rw [hwf.finite]; exact Bool.false_ne_true)
    rw [hslow, numericInt8, or_iff_right hdigits]
    by_cases hrange : FitsInt64 (roundHalfAwayFromZero (n.value * 100))
    · have hiff := roundHalfAwayFromZero_eq_mul_zpow_iff (x := n.value)
        (e := (getNumericScaleFromTypmod attr.atttypmod).bmod (2 ^ 8))
      have hhundred : (n.value * 100).den = 1 → FitsInt64 (n.value * 100) := by
        intro hden
        have hint : ((n.value * 100).num : ℚ) = n.value * 100 := (Rat.den_eq_one_iff _).1 hden
        rwa [← hint, roundHalfAwayFromZero_intCast, hint] at hrange
      rw [if_pos hrange, and_iff_right_of_imp hhundred, ← hiff]
      constructor
      · rintro ⟨d, hd, hout⟩
        obtain rfl := Except.ok.inj hd
        rw [hencode _ hrange] at hout
        have hvalue := SqlValue.numeric.inj (Except.ok.inj hout)
        rw [div_eq_iff (zpow_ne_zero _ (by norm_num : (10 : ℚ) ≠ 0))] at hvalue
        exact hvalue
      · intro hvalue
        refine ⟨_, rfl, ?_⟩
        rw [hencode _ hrange, hvalue,
          mul_div_cancel_right₀ _ (zpow_ne_zero _ (by norm_num : (10 : ℚ) ≠ 0))]
        rfl
    · rw [if_neg hrange]
      refine iff_of_false ?_ ?_
      · rintro ⟨d, hd, -⟩
        exact absurd hd nofun
      · rintro (hzero | ⟨-, hfits', hden⟩)
        · refine hrange ?_
          rw [hzero, zero_mul]
          exact ⟨by norm_num [roundHalfAwayFromZero], by norm_num [roundHalfAwayFromZero]⟩
        · have hint : ((n.value * 100).num : ℚ) = n.value * 100 := (Rat.den_eq_one_iff _).1 hden
          rw [← hint, roundHalfAwayFromZero_intCast, hint] at hrange
          exact hrange hfits'

/-- A string column: the string is read, carried and encoded. -/
theorem comesOut_string_iff {v : StoredValue} {bytes : List UInt8}
    {encode : List UInt8 → Except String SqlValue}
    (hdeform : deformColumn attr v = storeStringBytes bytes)
    (hencode : ∀ bytes, (encodeValue (columnOf attr chunkSlot srcAttno kind)
      (columnNumericScale (columnOf attr chunkSlot srcAttno kind)) (.stringRef bytes)).map
        (wrapBpchar attr.atttypid (columnOf attr chunkSlot srcAttno kind)) = encode bytes) :
    ComesOut attr (columnOf attr chunkSlot srcAttno kind) v ↔
      bytes.length ≤ 65536 ∧ encode bytes = .ok v.value := by
  rw [ComesOut, hdeform, storeStringBytes]
  by_cases hlong : 65536 < bytes.length
  · rw [if_pos hlong]
    exact iff_of_false (fun ⟨_, hd, _⟩ => absurd hd nofun) fun h => not_lt.2 h.1 hlong
  · rw [if_neg hlong, and_iff_right (not_lt.1 hlong)]
    constructor
    · rintro ⟨d, hd, hout⟩
      obtain rfl := Except.ok.inj hd
      rwa [hencode] at hout
    · intro hout
      refine ⟨_, rfl, ?_⟩
      rwa [hencode]

theorem map_eq_ok_iff {x : Except String (List UInt8)} {f : List UInt8 → SqlValue}
    (hf : Function.Injective f) {bytes : List UInt8} :
    x.map f = .ok (f bytes) ↔ x = .ok bytes := by
  cases x with
  | error e => exact iff_of_false nofun nofun
  | ok out =>
    constructor
    · exact fun h => congrArg Except.ok (hf (Except.ok.inj h))
    · exact fun h => congrArg (Except.map f) h

theorem comesOut_bpchar_iff {v : Varlena} (htype : attr.atttypid = bpcharOid)
    (hwf : v.WellFormed) (hstring : IsString v.bytes)
    (hlength : varhdrsz ≤ attr.atttypmod →
      (charLength v.bytes : Int) = attr.atttypmod - varhdrsz)
    (hkind : seqScanDecodeKind attr = some kind) :
    ComesOut attr (columnOf attr chunkSlot srcAttno kind) (.bpchar v) ↔
      ComesOutExactly attr (.bpchar v) := by
  have hkind' := hkind
  rw [seqScanDecodeKind, if_pos htype, Option.some.injEq] at hkind'
  by_cases hone : attr.atttypmod - varhdrsz = 1
  · -- one character, of which the first byte is kept
    have huse : useInt32CharDecodeForColumn attr.atttypid attr.atttypmod = true := by
      rw [useInt32CharDecodeForColumn, htype, if_neg (by decide), if_neg (by decide),
        if_neg (by omega)]
      exact decide_eq_true hone
    rw [if_pos huse] at hkind'
    subst hkind'
    have hchars : charLength v.bytes = 1 := by
      have hchars := hlength (by omega)
      omega
    have hbytes := hstring.length_le
    cases v with
    | toasted inPlace bytes =>
      obtain ⟨hfour, hlt⟩ := hwf
      rw [hchars] at hbytes
      exact absurd (hfour.trans_lt hlt) (not_lt.2 hbytes)
    | inline bytes =>
      have hdeform : deformColumn attr (.bpchar (.inline bytes)) =
          .ok (.int32 (Int32.ofNat (bytes.headD 0).toNat)) := by
        rw [deformColumn, hkind, Option.bind_some, mapColumnToDeformKind, if_pos htype]
        rfl
      have hbyte : (Int32.ofNat (bytes.headD 0).toNat).toUInt32.toUInt8 = bytes.headD 0 := by
        apply UInt8.toNat_inj.1
        simp
      have hencode : (encodeValue (columnOf attr chunkSlot srcAttno .int32Char)
          (columnNumericScale (columnOf attr chunkSlot srcAttno .int32Char))
          (.int32 (Int32.ofNat (bytes.headD 0).toNat))).map
            (wrapBpchar attr.atttypid (columnOf attr chunkSlot srcAttno .int32Char)) =
          .ok (.bpchar [bytes.headD 0]) := by
        change Except.ok (if attr.atttypid = bpcharOid ∧ _ then SqlValue.bpchar [_] else _) = _
        rw [if_pos ⟨htype, rfl⟩, hbyte]
      rw [ComesOut, hdeform, ComesOutExactly, if_pos hone]
      constructor
      · rintro ⟨d, hd, hout⟩
        obtain rfl := Except.ok.inj hd
        rw [hencode] at hout
        have hsame : [bytes.headD 0] = bytes := SqlValue.bpchar.inj (Except.ok.inj hout)
        rw [← hsame]
        rfl
      · intro hlen
        obtain ⟨b, rfl⟩ := List.length_eq_one_iff.1 hlen
        exact ⟨_, rfl, hencode⟩
  · have huse : useInt32CharDecodeForColumn attr.atttypid attr.atttypmod = false := by
      rw [useInt32CharDecodeForColumn, htype, if_neg (by decide), if_neg (by decide)]
      by_cases htypmod : attr.atttypmod < varhdrsz
      · exact if_pos htypmod
      · rw [if_neg htypmod]
        exact decide_eq_false hone
    rw [huse, if_neg Bool.false_ne_true] at hkind'
    subst hkind'
    have hdeform : deformColumn attr (.bpchar v) = storeStringBytes v.vardataAny := by
      rw [deformColumn, hkind]
      rfl
    have hencode : ∀ bytes, (encodeValue (columnOf attr chunkSlot srcAttno .stringRef)
        (columnNumericScale (columnOf attr chunkSlot srcAttno .stringRef)) (.stringRef bytes)).map
          (wrapBpchar attr.atttypid (columnOf attr chunkSlot srcAttno .stringRef)) =
        (bpcharin attr.atttypmod (pnstrdup bytes)).map .bpchar := by
      intro bytes
      change (encodeStringDatum (columnOf attr chunkSlot srcAttno .stringRef) bytes).map _ = _
      have htext : (columnOf attr chunkSlot srcAttno .stringRef).typeOid = bpcharOid := htype
      rw [encodeStringDatum, htext, if_neg (by decide), if_neg (by decide), if_pos rfl]
      change ((bpcharin attr.atttypmod (pnstrdup bytes)).map SqlValue.bpchar).map _ = _
      cases bpcharin attr.atttypmod (pnstrdup bytes) with
      | error e => rfl
      | ok out => rfl
    have hiff : ComesOut attr (columnOf attr chunkSlot srcAttno .stringRef) (.bpchar v) ↔
        v.vardataAny.length ≤ 65536 ∧
          bpcharin attr.atttypmod (pnstrdup v.vardataAny) = .ok v.bytes := by
      rw [comesOut_string_iff hdeform hencode]
      refine and_congr_right fun _ => ?_
      exact map_eq_ok_iff fun _ _ h => SqlValue.bpchar.inj h
    rw [hiff]
    cases v with
    | inline bytes =>
      rw [ComesOutExactly, if_neg hone]
      refine and_iff_left ?_
      rw [Varlena.vardataAny, pnstrdup_eq (show ∀ b ∈ bytes, b ≠ 0 from hstring.nonzero)]
      exact bpcharin_eq hlength
    | toasted inPlace bytes =>
      rw [ComesOutExactly, and_left_comm]
      refine and_congr_right fun _ => ?_
      exact bpcharin_eq_iff_of_shorter ((length_pnstrdup_le inPlace).trans_lt hwf.2) hlength

theorem comesOut_varchar_iff {v : Varlena} (htype : attr.atttypid = varcharOid)
    (hwf : v.WellFormed) (hstring : IsString v.bytes)
    (hlength : varhdrsz ≤ attr.atttypmod →
      (charLength v.bytes : Int) ≤ attr.atttypmod - varhdrsz)
    (hkind : seqScanDecodeKind attr = some kind) :
    ComesOut attr (columnOf attr chunkSlot srcAttno kind) (.varchar v) ↔
      ComesOutExactly attr (.varchar v) := by
  obtain rfl : kind = .stringRef := by
    rw [seqScanDecodeKind, htype] at hkind
    exact (Option.some.inj hkind).symm
  have hdeform : deformColumn attr (.varchar v) = storeStringBytes v.vardataAny := by
    rw [deformColumn, hkind]
    rfl
  have hencode : ∀ bytes, (encodeValue (columnOf attr chunkSlot srcAttno .stringRef)
      (columnNumericScale (columnOf attr chunkSlot srcAttno .stringRef)) (.stringRef bytes)).map
        (wrapBpchar attr.atttypid (columnOf attr chunkSlot srcAttno .stringRef)) =
      (varcharin attr.atttypmod (pnstrdup bytes)).map .varchar := by
    intro bytes
    change (encodeStringDatum (columnOf attr chunkSlot srcAttno .stringRef) bytes).map _ = _
    have htext : (columnOf attr chunkSlot srcAttno .stringRef).typeOid = varcharOid := htype
    rw [encodeStringDatum, htext, if_neg (by decide), if_pos rfl]
    change ((varcharin attr.atttypmod (pnstrdup bytes)).map SqlValue.varchar).map _ = _
    cases varcharin attr.atttypmod (pnstrdup bytes) with
    | error e => rfl
    | ok out => rfl
  rw [comesOut_string_iff hdeform hencode]
  change _ ∧ (varcharin attr.atttypmod (pnstrdup v.vardataAny)).map SqlValue.varchar =
    .ok (SqlValue.varchar v.bytes) ↔ _
  rw [map_eq_ok_iff fun _ _ h => SqlValue.varchar.inj h]
  cases v with
  | inline bytes =>
    refine and_iff_left ?_
    rw [Varlena.vardataAny, pnstrdup_eq (show ∀ b ∈ bytes, b ≠ 0 from hstring.nonzero)]
    exact varcharin_eq hlength
  | toasted inPlace bytes =>
    refine iff_of_false (fun h => ?_) id
    have hle := (length_le_of_varcharin h.2).trans (length_pnstrdup_le inPlace)
    exact not_lt.2 hle hwf.2

theorem comesOut_text_iff {v : Varlena} (htype : attr.atttypid = textOid)
    (hwf : v.WellFormed) (hkind : seqScanDecodeKind attr = some kind) :
    ComesOut attr (columnOf attr chunkSlot srcAttno kind) (.text v) ↔
      ComesOutExactly attr (.text v) := by
  obtain rfl : kind = .stringRef := by
    rw [seqScanDecodeKind, htype] at hkind
    exact (Option.some.inj hkind).symm
  have hdeform : deformColumn attr (.text v) = storeStringBytes v.vardataAny := by
    rw [deformColumn, hkind]
    rfl
  have hencode : ∀ bytes, (encodeValue (columnOf attr chunkSlot srcAttno .stringRef)
      (columnNumericScale (columnOf attr chunkSlot srcAttno .stringRef)) (.stringRef bytes)).map
        (wrapBpchar attr.atttypid (columnOf attr chunkSlot srcAttno .stringRef)) =
      .ok (.text bytes) := by
    intro bytes
    change (encodeStringDatum (columnOf attr chunkSlot srcAttno .stringRef) bytes).map _ = _
    have htext : (columnOf attr chunkSlot srcAttno .stringRef).typeOid = textOid := htype
    rw [encodeStringDatum, htext, if_pos rfl]
    rfl
  rw [comesOut_string_iff hdeform hencode]
  cases v with
  | inline bytes => exact and_iff_left rfl
  | toasted inPlace bytes =>
    refine iff_of_false (fun h => ?_) id
    have hsame : inPlace = bytes := SqlValue.text.inj (Except.ok.inj h.2)
    exact absurd hwf.2 (by rw [hsame]; exact lt_irrefl _)

/-- **One value comes out as it is stored** exactly when it is one of these. -/
theorem comesOut_iff {v : StoredValue} (hv : OfColumn attr v)
    (hkind : seqScanDecodeKind attr = some kind) :
    ComesOut attr (columnOf attr chunkSlot srcAttno kind) v ↔ ComesOutExactly attr v := by
  cases hv with
  | int4 v htype =>
    obtain rfl : kind = .int32Int4 := by
      rw [seqScanDecodeKind, htype] at hkind
      exact (Option.some.inj hkind).symm
    refine iff_of_true ⟨.int32 v, ?_, rfl⟩ trivial
    rw [deformColumn, hkind]
    rfl
  | int8 v htype =>
    obtain rfl : kind = .int64Int8 := by
      rw [seqScanDecodeKind, htype] at hkind
      exact (Option.some.inj hkind).symm
    refine iff_of_true ⟨.int64 v, ?_, ?_⟩ trivial
    · rw [deformColumn, hkind]
      rfl
    · have htype' : (columnOf attr chunkSlot srcAttno .int64Int8).typeOid = int8Oid := htype
      change (Except.ok (if _ = boolOid then _ else _)).map _ = _
      rw [htype', if_neg (by decide), if_neg (by decide)]
      rfl
  | date v htype =>
    obtain rfl : kind = .int32Date := by
      rw [seqScanDecodeKind, htype] at hkind
      exact (Option.some.inj hkind).symm
    refine iff_of_true ⟨.int32 v, ?_, rfl⟩ trivial
    rw [deformColumn, hkind]
    rfl
  | char v next next' next'' htype =>
    obtain rfl : kind = .int32Char := by
      rw [seqScanDecodeKind, htype] at hkind
      exact (Option.some.inj hkind).symm
    have hbyte : (UInt32.ofNat (ByteMemory.decode [v, next, next', next''])).toInt32.toUInt32.toUInt8 =
        v := by
      apply UInt8.toNat_inj.1
      have hlow : ByteMemory.decode [v, next, next', next''] % 256 = v.toNat := by
        have hlt := v.toNat_lt
        rw [ByteMemory.decode]
        omega
      simp
      omega
    refine iff_of_true ⟨.int32 (UInt32.ofNat (ByteMemory.decode [v, next, next', next''])).toInt32,
      ?_, ?_⟩ trivial
    · rw [deformColumn, hkind, Option.bind_some, mapColumnToDeformKind, htype]
      rfl
    · change Except.ok (if attr.atttypid = bpcharOid ∧ _ then SqlValue.bpchar [_] else _) = _
      have hnot : attr.atttypid ≠ bpcharOid := by
        rw [htype]
        decide
      rw [if_neg fun h => hnot h.1, hbyte]
      rfl
  | float8 bits htype =>
    obtain rfl : kind = .doubleFloat8 := by
      rw [seqScanDecodeKind, htype] at hkind
      exact (Option.some.inj hkind).symm
    refine iff_of_true ⟨.double bits, ?_, rfl⟩ trivial
    rw [deformColumn, hkind]
    rfl
  | numeric n htype hwf hfits => exact comesOut_numeric_iff htype hwf hfits hkind
  | bpchar v htype hwf hstring hlength =>
    exact comesOut_bpchar_iff htype hwf hstring hlength hkind
  | varchar v htype hwf hstring hlength =>
    exact comesOut_varchar_iff htype hwf hstring hlength hkind
  | text v htype hwf => exact comesOut_text_iff htype hwf hkind

end OneValue

end HeapColumns
end PgYaap
