import Mathlib
import PgYaap.HashJoinBuildMerge

/-! # Ranges of a merged build table

A worker copies its part of the heap and its rows into ranges of its own, and
moves the heap offsets of its long strings by the start of its part. Every column
of a copied row then has the bytes it had, or the moved reference, so the row
decodes to the values it had; and nothing outside the two ranges changes. -/
namespace PgYaap
namespace HashJoinBuild
open HashJoinProbe TupleDataCollection

/-! ## Blocks of memory -/

section Blocks
variable {m m' : ByteMemory} {start start' n : Nat}

/-- Equal blocks are equal at every place. -/
theorem eq_of_read_eq (h : m'.read start' n = m.read start n) :
    ∀ i < n, m' (start' + i) = m (start + i) := by
  induction n generalizing start start' with
  | zero =>
    intro i hi
    cases hi
  | succ n ih =>
    rw [ByteMemory.read, ByteMemory.read, List.cons.injEq] at h
    intro i hi
    cases i with
    | zero => exact h.1
    | succ i =>
      have hrest := ih h.2 i (Nat.lt_of_succ_lt_succ hi)
      rw [Nat.add_right_comm start', Nat.add_right_comm start] at hrest
      exact hrest

/-- A copied block has the bytes of its source. -/
theorem write_read_add {i : Nat} (h : i < n) :
    m.write start (m'.read start' n) (start + i) = m' (start' + i) :=
  eq_of_read_eq (ByteMemory.read_write_of_length ByteMemory.length_read) i h

/-- A change of the memory between two addresses. -/
structure Rewrites (t t' : TupleDataCollection) (lo hi : Nat) : Prop where
  shape : t' = { t with rows := t'.rows }
  same : ∀ a, a < lo ∨ hi ≤ a → t'.rows a = t.rows a

variable {t t' t'' : TupleDataCollection} {lo mid hi : Nat}

theorem Rewrites.trans (h : Rewrites t t' lo mid) (h' : Rewrites t' t'' mid hi) (hlo : lo ≤ mid)
    (hhi : mid ≤ hi) : Rewrites t t'' lo hi where
  shape := h'.shape.trans (by rw [h.shape])
  same := by
    intro a ha
    rw [h'.same a (by omega), h.same a (by omega)]

theorem Rewrites.mono {lo' hi' : Nat} (h : Rewrites t t' lo hi) (hlo : lo' ≤ lo) (hhi : hi ≤ hi') :
    Rewrites t t' lo' hi' :=
  ⟨h.shape, fun a ha => h.same a (by omega)⟩

theorem Rewrites.getRow (h : Rewrites t t' lo hi) (r : Nat) : t'.getRow r = t.getRow r := by
  rw [h.shape]
  rfl

theorem Rewrites.heap (h : Rewrites t t' lo hi) : t'.heap = t.heap := by
  rw [h.shape]
  rfl

end Blocks

/-! ## Columns -/

section Columns
variable {src dst : TupleDataCollection} {srcRow dstRow heapOffset : Nat} {col : TdcPlacedColumn}

/-- The bytes of a column in the merged table. -/
def movedBytes (src : TupleDataCollection) (srcRow heapOffset : Nat) (col : TdcPlacedColumn) :
    List UInt8 :=
  let ref := src.stringRef srcRow col
  if col.kind ≠ .stringRef ∨ ref.len = 0 ∨ ref.isInline = true then
    src.rows.read (src.getRow srcRow + col.offset) col.kind.width
  else { ref with offset := (ref.offset + heapOffset) % 2 ^ 32 : VecStringRef }.bytes

theorem length_prefixBytes (t : TupleDataCollection) (rowIdx : Nat) (col : TdcPlacedColumn) :
    (t.stringRef rowIdx col).prefixBytes.length = 8 := by
  rw [TupleDataCollection.stringRef, VecStringRef.ofBytes, List.length_drop,
    ByteMemory.length_read]

/-- **One column of a copied row.** -/
theorem relocateColumn_spec
    (hcopied : dst.rows.read (dst.getRow dstRow + col.offset) col.kind.width =
      src.rows.read (src.getRow srcRow + col.offset) col.kind.width) :
    Rewrites dst (relocateColumn src srcRow dstRow heapOffset dst col)
      (dst.getRow dstRow + col.offset) (dst.getRow dstRow + col.stop) ∧
    (relocateColumn src srcRow dstRow heapOffset dst col).rows.read
      (dst.getRow dstRow + col.offset) col.kind.width = movedBytes src srcRow heapOffset col := by
  unfold relocateColumn movedBytes
  by_cases hkind : col.kind ≠ .stringRef
  · rw [if_pos hkind, if_pos (Or.inl hkind)]
    exact ⟨⟨rfl, fun _ _ => rfl⟩, hcopied⟩
  · rw [if_neg hkind]
    dsimp only
    by_cases hplain : (src.stringRef srcRow col).len = 0 ∨
        (src.stringRef srcRow col).isInline = true
    · rw [if_pos hplain, if_pos (Or.inr hplain)]
      exact ⟨⟨rfl, fun _ _ => rfl⟩, hcopied⟩
    · rw [if_neg hplain, if_neg (not_or.2 ⟨hkind, hplain⟩)]
      have hwidth : col.kind.width = 16 := by rw [not_not.1 hkind]; rfl
      have hlen : ({ src.stringRef srcRow col with
          offset := ((src.stringRef srcRow col).offset + heapOffset) % 2 ^ 32 :
          VecStringRef }).bytes.length = col.kind.width := by
        rw [hwidth]
        exact VecStringRef.length_bytes (length_prefixBytes src srcRow col)
      refine ⟨⟨rfl, fun a ha => ?_⟩, ByteMemory.read_write_of_length hlen⟩
      rw [TdcPlacedColumn.stop, ← hlen, ← Nat.add_assoc] at ha
      rcases ha with ha | ha
      · exact ByteMemory.write_of_lt ha
      · exact ByteMemory.write_of_ge ha

/-- The columns of a copied row. The induction is on the columns in the order of their offsets:
those behind the present one still have the bytes of the source. -/
theorem relocateColumns_spec {cols : List TdcPlacedColumn} {start stop : Nat}
    (hplaced : Placed start cols stop)
    (hcopied : ∀ a, start ≤ a → a < stop →
      dst.rows (dst.getRow dstRow + a) = src.rows (src.getRow srcRow + a)) :
    Rewrites dst (cols.foldl (relocateColumn src srcRow dstRow heapOffset) dst)
      (dst.getRow dstRow + start) (dst.getRow dstRow + stop) ∧
    ∀ col ∈ cols, (cols.foldl (relocateColumn src srcRow dstRow heapOffset) dst).rows.read
      (dst.getRow dstRow + col.offset) col.kind.width = movedBytes src srcRow heapOffset col := by
  induction cols generalizing dst start with
  | nil => exact ⟨⟨rfl, fun _ _ => rfl⟩, fun _ hcol => by cases hcol⟩
  | cons c cols ih =>
    obtain ⟨hstart, hrest⟩ := hplaced
    have hstop := hrest.le
    have hin : c.offset ≤ c.stop := Nat.le_add_right _ _
    have hbytes : dst.rows.read (dst.getRow dstRow + c.offset) c.kind.width =
        src.rows.read (src.getRow srcRow + c.offset) c.kind.width := by
      refine ByteMemory.read_eq_read fun i hi => ?_
      rw [Nat.add_assoc, Nat.add_assoc]
      refine hcopied _ (by omega) ?_
      rw [TdcPlacedColumn.stop] at hstop
      omega
    obtain ⟨hfirst, hread⟩ := @relocateColumn_spec src dst srcRow dstRow heapOffset c hbytes
    have hrow := hfirst.getRow dstRow
    obtain ⟨hothers, hreads⟩ := @ih (relocateColumn src srcRow dstRow heapOffset dst c) c.stop
      hrest (by
        intro a ha hb
        rw [hrow, hfirst.same _ (Or.inr (by omega))]
        exact hcopied a (by omega) hb)
    rw [hrow] at hothers hreads
    rw [List.foldl_cons]
    refine ⟨(hfirst.mono (by omega) (Nat.le_refl _)).trans hothers (by omega) (by omega), ?_⟩
    intro col hcol
    rcases List.mem_cons.1 hcol with rfl | hcol
    · rw [← hread]
      refine ByteMemory.read_congr fun a ha hb => hothers.same a (Or.inl ?_)
      rw [TdcPlacedColumn.stop]
      omega
    · exact hreads col hcol

end Columns

/-! ## Rows -/

section Rows
variable {layout : TupleDataLayout} {src dst dst' : TupleDataCollection}
  {srcRow dstRow rowOffset heapOffset lo hi : Nat} {values : List Datum} {rows : List (List Datum)}

/-- The columns of a row have the bytes of the source, with the references moved. -/
def Moved (layout : TupleDataLayout) (src : TupleDataCollection) (srcRow : Nat)
    (dst : TupleDataCollection) (dstRow heapOffset : Nat) : Prop :=
  ∀ col ∈ layout.columns, dst.rows.read (dst.getRow dstRow + col.offset) col.kind.width =
    movedBytes src srcRow heapOffset col

/-- A row outside a rewritten part stays. -/
theorem Moved.frame (h : Moved layout src srcRow dst dstRow heapOffset)
    (hrest : Rewrites dst dst' lo hi)
    (happart : dst.getRow dstRow + layout.rowWidth ≤ lo ∨ hi ≤ dst.getRow dstRow) :
    Moved layout src srcRow dst' dstRow heapOffset := by
  intro col hcol
  have hin := (layout.placed.mem hcol).2
  rw [TdcPlacedColumn.stop] at hin
  rw [← h col hcol, hrest.getRow]
  refine ByteMemory.read_congr fun a ha hb => hrest.same a ?_
  rcases happart with happart | happart
  · exact Or.inl (by omega)
  · exact Or.inr (by omega)

/-- **A moved column decodes to the value it had**, with its string in the part of the heap that
the source was copied to. -/
theorem columnAt_of_moved {col : TdcPlacedColumn} {v : Datum}
    (h : ColumnAt src srcRow col v 0 src.heapUsed)
    (hmoved : dst.rows.read (dst.getRow dstRow + col.offset) col.kind.width =
      movedBytes src srcRow heapOffset col)
    (hheap : ∀ a < src.heapUsed, dst.rows (dst.heap + heapOffset + a) = src.rows (src.heap + a))
    (hfit : heapOffset + src.heapUsed < 2 ^ 32) :
    ColumnAt dst dstRow col v heapOffset (heapOffset + src.heapUsed) := by
  have hvalue := h.value
  unfold movedBytes at hmoved
  dsimp only at hmoved
  cases hkind : col.kind with
  | int32 | int64 | double =>
    rw [if_pos (Or.inl (by rw [hkind]; decide)), hkind] at hmoved
    refine ⟨?_, fun hstring => by rw [hkind] at hstring; cases hstring⟩
    rw [← hvalue]
    unfold decodeColumn
    rw [hkind]
    rw [TdcColumnKind.width] at hmoved
    dsimp only
    rw [hmoved]
  | stringRef =>
    have hwithin := h.within hkind
    have hwidth : col.kind.width = 16 := by rw [hkind]; rfl
    suffices hdata : (dst.stringRef dstRow col).data dst.rows dst.heap =
        (src.stringRef srcRow col).data src.rows src.heap ∧
        (dst.stringRef dstRow col).Within heapOffset (heapOffset + src.heapUsed) by
      refine ⟨?_, fun _ => hdata.2⟩
      rw [← hvalue]
      unfold decodeColumn
      rw [hkind]
      exact congrArg Datum.stringRef hdata.1
    rw [hwidth] at hmoved
    by_cases hplain : (src.stringRef srcRow col).len = 0 ∨
        (src.stringRef srcRow col).isInline = true
    · -- the string is in the reference, which is copied as it is
      rw [if_pos (Or.inr hplain)] at hmoved
      have href : dst.stringRef dstRow col = src.stringRef srcRow col :=
        congrArg VecStringRef.ofBytes hmoved
      rw [href]
      refine ⟨?_, hplain.imp_right Or.inl⟩
      unfold VecStringRef.data
      by_cases hlen : (src.stringRef srcRow col).len = 0
      · rw [if_pos hlen, if_pos hlen]
      · rw [if_neg hlen, if_neg hlen, if_pos (hplain.resolve_left hlen),
          if_pos (hplain.resolve_left hlen)]
    · rw [if_neg (not_or.2 ⟨not_not.2 hkind, hplain⟩)] at hmoved
      obtain ⟨hlen, hinline⟩ := not_or.1 hplain
      obtain ⟨-, hend⟩ := (hwithin.resolve_left hlen).resolve_left hinline
      rw [Nat.mod_eq_of_lt (by omega)] at hmoved
      have href : dst.stringRef dstRow col =
          { src.stringRef srcRow col with
            offset := (src.stringRef srcRow col).offset + heapOffset : VecStringRef } := by
        rw [TupleDataCollection.stringRef, hmoved]
        exact VecStringRef.ofBytes_bytes (by show (src.stringRef srcRow col).len < _; omega)
          (by show (src.stringRef srcRow col).offset + heapOffset < _; omega)
      generalize src.stringRef srcRow col = ref at href hlen hinline hend hplain
      rw [href]
      have houter : ¬ ({ ref with offset := ref.offset + heapOffset : VecStringRef }).isInline =
          true := by
        unfold VecStringRef.isInline
        simp only [Bool.and_eq_true, decide_eq_true_eq, not_and]
        rintro - hinto
        rw [VecStringRef.inlineOffset, uint32Max] at hinto
        omega
      constructor
      · unfold VecStringRef.data
        rw [if_neg hlen, if_neg hlen, if_neg houter, if_neg hinline]
        refine ByteMemory.read_eq_read fun i hi => ?_
        have hlt : i < ref.len := hi
        show dst.rows (dst.heap + (ref.offset + heapOffset) + i) = src.rows (src.heap + ref.offset + i)
        rw [Nat.add_assoc src.heap, ← hheap (ref.offset + i) (by omega), Nat.add_comm ref.offset,
          Nat.add_assoc, Nat.add_assoc, Nat.add_assoc]
      · exact Or.inr (Or.inr ⟨Nat.le_add_left _ _, by show ref.offset + heapOffset + ref.len ≤ _; omega⟩)

theorem rowAt_of_moved (h : RowAt layout src srcRow values 0 src.heapUsed)
    (hmoved : Moved layout src srcRow dst dstRow heapOffset)
    (hheap : ∀ a < src.heapUsed, dst.rows (dst.heap + heapOffset + a) = src.rows (src.heap + a))
    (hfit : heapOffset + src.heapUsed < 2 ^ 32) :
    RowAt layout dst dstRow values heapOffset (heapOffset + src.heapUsed) := by
  have hall : List.Forall₂ (fun c w => c ∈ layout.columns ∧ ColumnAt src srcRow c w 0 src.heapUsed)
      layout.columns values := (List.forall₂_and_left _ _).mpr ⟨fun _ hc => hc, h⟩
  exact hall.imp fun c w hw => columnAt_of_moved hw.2 (hmoved c hw.1) hheap hfit

theorem getRow_succ (t : TupleDataCollection) (r : Nat) :
    t.getRow (r + 1) = t.getRow r + t.rowWidth := by
  rw [TupleDataCollection.getRow, Nat.succ_mul]
  rfl

/-- One row of `CopyStringAwareRowsIntoGlobal`. -/
theorem copyStringAwareRow_spec (hwidth : dst.rowWidth = layout.rowWidth) (rowIdx : Nat) :
    Rewrites dst (copyStringAwareRow layout src rowOffset heapOffset dst rowIdx)
      (dst.getRow (rowOffset + rowIdx)) (dst.getRow (rowOffset + rowIdx + 1)) ∧
    Moved layout src rowIdx (copyStringAwareRow layout src rowOffset heapOffset dst rowIdx)
      (rowOffset + rowIdx) heapOffset := by
  have hend := getRow_succ dst (rowOffset + rowIdx)
  rw [hwidth] at hend
  have hfirst : Rewrites dst { dst with
      rows := dst.rows.write (dst.getRow (rowOffset + rowIdx))
        (src.rows.read (src.getRow rowIdx) layout.rowWidth) }
      (dst.getRow (rowOffset + rowIdx)) (dst.getRow (rowOffset + rowIdx + 1)) := by
    refine ⟨rfl, fun a ha => ?_⟩
    rcases ha with ha | ha
    · exact ByteMemory.write_of_lt ha
    · exact ByteMemory.write_of_ge (by rw [ByteMemory.length_read, ← hend]; exact ha)
  obtain ⟨hcolumns, hmoved⟩ := @relocateColumns_spec src { dst with
      rows := dst.rows.write (dst.getRow (rowOffset + rowIdx))
        (src.rows.read (src.getRow rowIdx) layout.rowWidth) } rowIdx (rowOffset + rowIdx) heapOffset
    layout.columns 0 layout.rowWidth layout.placed (fun a _ ha => write_read_add ha)
  have hall : Rewrites { dst with
      rows := dst.rows.write (dst.getRow (rowOffset + rowIdx))
        (src.rows.read (src.getRow rowIdx) layout.rowWidth) }
      (copyStringAwareRow layout src rowOffset heapOffset dst rowIdx)
      (dst.getRow (rowOffset + rowIdx)) (dst.getRow (rowOffset + rowIdx + 1)) := by
    refine hcolumns.mono (Nat.le_refl _) ?_
    rw [hend]
    exact Nat.le_refl _
  refine ⟨⟨hall.shape, fun a ha => (hall.same a ha).trans (hfirst.same a ha)⟩, fun col hcol => ?_⟩
  rw [hall.getRow]
  exact hmoved col hcol

/-- **`CopyStringAwareRowsIntoGlobal`**: the rows lie one after the other. -/
theorem copyStringAwareRows_spec (hwidth : dst.rowWidth = layout.rowWidth) (n : Nat) :
    Rewrites dst (copyStringAwareRowsIntoGlobal layout src dst rowOffset n heapOffset)
      (dst.getRow rowOffset) (dst.getRow (rowOffset + n)) ∧
    ∀ i < n, Moved layout src i
      (copyStringAwareRowsIntoGlobal layout src dst rowOffset n heapOffset)
      (rowOffset + i) heapOffset := by
  unfold copyStringAwareRowsIntoGlobal
  induction n with
  | zero => exact ⟨⟨rfl, fun _ _ => rfl⟩, fun _ hi => by cases hi⟩
  | succ n ih =>
    obtain ⟨hbefore, hrows⟩ := ih
    rw [List.range_succ, List.foldl_append, List.foldl_cons, List.foldl_nil]
    generalize (List.range n).foldl (copyStringAwareRow layout src rowOffset heapOffset) dst = mid
      at hbefore hrows
    have hmid : mid.rowWidth = layout.rowWidth := by
      rw [hbefore.shape]
      exact hwidth
    obtain ⟨hrow, hmoved⟩ := @copyStringAwareRow_spec layout src mid rowOffset heapOffset hmid n
    have hat := hrow
    rw [hbefore.getRow, hbefore.getRow] at hrow
    refine ⟨hbefore.trans hrow ?_ ?_, fun i hi => ?_⟩
    · exact Nat.mul_le_mul_right _ (Nat.le_add_right _ _)
    · exact Nat.mul_le_mul_right _ (Nat.le_succ _)
    · rcases Nat.lt_succ_iff_lt_or_eq.1 hi with hlt | rfl
      · refine (hrows i hlt).frame hat (Or.inl ?_)
        rw [← hmid]
        exact getRow_le (by omega)
      · exact hmoved

/-- Rows of fixed width are copied in one block. -/
theorem copyFixedRows_spec (hfixed : layout.hasStringRef = false)
    (hsrc : src.rowWidth = layout.rowWidth) (hwidth : dst.rowWidth = layout.rowWidth) (n : Nat) :
    Rewrites dst { dst with
      rows := dst.rows.write (dst.getRow rowOffset)
        (src.rows.read (src.getRow 0) (n * layout.rowWidth)) }
      (dst.getRow rowOffset) (dst.getRow (rowOffset + n)) ∧
    ∀ i < n, Moved layout src i { dst with
      rows := dst.rows.write (dst.getRow rowOffset)
        (src.rows.read (src.getRow 0) (n * layout.rowWidth)) } (rowOffset + i) heapOffset := by
  have hrowAt : ∀ k, dst.getRow (rowOffset + k) = dst.getRow rowOffset + k * layout.rowWidth := by
    intro k
    rw [TupleDataCollection.getRow, Nat.add_mul, hwidth, TupleDataCollection.getRow, hwidth]
  have hsrcAt : ∀ k, src.getRow k = src.getRow 0 + k * layout.rowWidth := by
    intro k
    rw [TupleDataCollection.getRow, TupleDataCollection.getRow, Nat.zero_mul, Nat.zero_add, hsrc]
  constructor
  · refine ⟨rfl, fun a ha => ?_⟩
    rcases ha with ha | ha
    · exact ByteMemory.write_of_lt ha
    · exact ByteMemory.write_of_ge (by rw [ByteMemory.length_read, ← hrowAt]; exact ha)
  · intro i hi col hcol
    have hkind : col.kind ≠ .stringRef := by
      intro hstring
      have hany : layout.hasStringRef = true :=
        List.any_eq_true.2 ⟨col, hcol, decide_eq_true hstring⟩
      rw [hfixed] at hany
      cases hany
    have hin := (layout.placed.mem hcol).2
    rw [TdcPlacedColumn.stop] at hin
    have hrows : (i + 1) * layout.rowWidth ≤ n * layout.rowWidth := Nat.mul_le_mul_right _ hi
    rw [Nat.succ_mul] at hrows
    unfold movedBytes
    dsimp only
    rw [if_pos (Or.inl hkind)]
    refine ByteMemory.read_eq_read fun j hj => ?_
    show (dst.rows.write (dst.getRow rowOffset)
      (src.rows.read (src.getRow 0) (n * layout.rowWidth)))
        (dst.getRow (rowOffset + i) + col.offset + j) = _
    rw [hrowAt, hsrcAt i, Nat.add_assoc, Nat.add_assoc, Nat.add_assoc, Nat.add_assoc]
    exact write_read_add (by omega)

/-- **A local table has been copied** into two ranges of a merged one. -/
structure CopiedInto (layout : TupleDataLayout) (src : TupleDataCollection)
    (rows : List (List Datum)) (dst dst' : TupleDataCollection) (rowOffset heapOffset : Nat) :
    Prop where
  shape : dst' = { dst with rows := dst'.rows }
  same : ∀ a, a < dst.getRow rowOffset ∨ dst.getRow (rowOffset + src.rowCount) ≤ a →
    a < dst.heap + heapOffset ∨ dst.heap + heapOffset + src.heapUsed ≤ a → dst'.rows a = dst.rows a
  row : ∀ r values, rows[r]? = some values →
    RowAt layout dst' (rowOffset + r) values heapOffset (heapOffset + src.heapUsed)

/-- The heap of the source. -/
theorem copyHeap_spec :
    Rewrites dst (copyHeap src dst heapOffset) (dst.heap + heapOffset)
      (dst.heap + heapOffset + src.heapUsed) ∧
    ∀ a < src.heapUsed,
      (copyHeap src dst heapOffset).rows (dst.heap + heapOffset + a) = src.rows (src.heap + a) := by
  unfold copyHeap
  by_cases hused : 0 < src.heapUsed
  · rw [if_pos hused]
    refine ⟨⟨rfl, fun a ha => ?_⟩, fun a ha => write_read_add ha⟩
    rcases ha with ha | ha
    · exact ByteMemory.write_of_lt ha
    · exact ByteMemory.write_of_ge (by rw [ByteMemory.length_read]; exact ha)
  · rw [if_neg hused]
    exact ⟨⟨rfl, fun _ _ => rfl⟩, fun a ha => by omega⟩

/-- **`CopyLocalTdcIntoGlobal`.** -/
theorem copyLocalTdcIntoGlobal_copied (hsrc : Holds layout src rows)
    (hwidth : dst.rowWidth = layout.rowWidth) (hrows : rowOffset + src.rowCount ≤ dst.rowCapacity)
    (hheap : heapOffset + src.heapUsed ≤ dst.heapCapacity) (hlt : dst.heapCapacity < 2 ^ 32) :
    CopiedInto layout src rows dst
      (copyLocalTdcIntoGlobal layout src dst rowOffset heapOffset) rowOffset heapOffset := by
  obtain ⟨hpart, hbytes⟩ := @copyHeap_spec src dst heapOffset
  have hbelow : dst.getRow (rowOffset + src.rowCount) ≤ dst.heap := Nat.mul_le_mul_right _ hrows
  have hmid : (copyHeap src dst heapOffset).rowWidth = layout.rowWidth := by
    rw [hpart.shape]
    exact hwidth
  suffices hloop : ∃ dst', copyLocalTdcIntoGlobal layout src dst rowOffset heapOffset = dst' ∧
      Rewrites (copyHeap src dst heapOffset) dst' (dst.getRow rowOffset)
        (dst.getRow (rowOffset + src.rowCount)) ∧
      ∀ i < src.rowCount, Moved layout src i dst' (rowOffset + i) heapOffset by
    obtain ⟨dst', rfl, hrest, hmoved⟩ := hloop
    refine ⟨hrest.shape.trans (by rw [hpart.shape]), fun a ha hb => ?_, fun r values hr => ?_⟩
    · exact (hrest.same a ha).trans (hpart.same a hb)
    · have hlen : r < src.rowCount := by
        rw [hsrc.rowCount]
        exact (List.getElem?_eq_some_iff.1 hr).1
      refine rowAt_of_moved (hsrc.row r values hr) (hmoved r hlen) (fun a ha => ?_) (by omega)
      rw [hrest.heap, hpart.heap, hrest.same _ (Or.inr (by omega))]
      exact hbytes a ha
  unfold copyLocalTdcIntoGlobal
  dsimp only
  by_cases hzero : src.rowCount = 0
  · rw [if_pos hzero, hzero]
    exact ⟨_, rfl, ⟨rfl, fun _ _ => rfl⟩, fun i hi => by cases hi⟩
  · rw [if_neg hzero]
    by_cases hstring : layout.hasStringRef = true
    · rw [if_pos hstring]
      have hspec := @copyStringAwareRows_spec layout src (copyHeap src dst heapOffset) rowOffset
        heapOffset hmid src.rowCount
      rw [← hpart.getRow, ← hpart.getRow]
      exact ⟨_, rfl, hspec⟩
    · rw [if_neg hstring]
      have hspec := @copyFixedRows_spec layout src (copyHeap src dst heapOffset) rowOffset
        heapOffset (Bool.not_eq_true _ ▸ hstring) hsrc.rowWidth hmid src.rowCount
      rw [← hpart.getRow, ← hpart.getRow]
      exact ⟨_, rfl, hspec⟩

end Rows
end HashJoinBuild
end PgYaap
