import Mathlib
import PgYaap.CrossProduct
import PgYaap.HashJoinBuildMerge
import PgYaap.InterleavedRows

/-! # The cross product, proved

What the workers append to the shared store is an interleaving of their rows. A
worker whose store had to grow appends no more to the shared one, so the row that
did not fit is missing there for good. Hence the shared store ends up with all
rows exactly when they all fit without growing. The probe side makes every pair
of whatever the store holds. -/
namespace PgYaap
namespace CrossProduct
open HashJoinProbe HashJoinBuild TupleDataCollection

/-! ## Local stores -/

section Local
variable {desc : CrossProductDesc} {layout : TupleDataLayout}
  {t t' old new src dst dst' : TupleDataCollection} {rows : List (List Datum)}

theorem copyBuildRow_ok {srcRow dstRow : Nat}
    (h : copyBuildRow layout src srcRow dst dstRow = .ok dst') :
    TupleDataCollection.copyBuildRow layout src srcRow dst dstRow = .ok dst' := by
  unfold copyBuildRow at h
  cases hcopy : TupleDataCollection.copyBuildRow layout src srcRow dst dstRow with
  | error e =>
    rw [hcopy] at h
    cases h
  | ok d =>
    rw [hcopy] at h
    exact h

/-- The rows are copied as in the hash join, up to the texts of the errors. -/
theorem growCopyRow_ok {rowIdx : Nat} (h : growCopyRow layout old new rowIdx = .ok t) :
    HashJoinBuild.growCopyRow layout old new rowIdx = .ok t := by
  unfold growCopyRow at h
  unfold HashJoinBuild.growCopyRow
  cases happ : new.appendRow with
  | none =>
    rw [happ] at h
    cases h
  | some x =>
    rw [happ] at h
    exact copyBuildRow_ok h

theorem foldlM_ok_of_ok {α β ε : Type} {f g : β → α → Except ε β}
    (hfg : ∀ b a b', f b a = .ok b' → g b a = .ok b') {l : List α} {b b' : β}
    (h : l.foldlM f b = .ok b') : l.foldlM g b = .ok b' := by
  induction l generalizing b with
  | nil => exact h
  | cons a l ih =>
    rw [List.foldlM_cons] at h ⊢
    obtain ⟨mid, hmid, hrest⟩ := bind_eq_ok h
    rw [hfg b a mid hmid]
    exact ih hrest

/-- **`GrowTdcCopyRows`** keeps the rows. -/
theorem growTdcCopyRows_holds {minimum : Nat} (hold : Holds layout old rows)
    (h : growTdcCopyRows layout old minimum = .ok t) : Holds layout t rows := by
  unfold growTdcCopyRows at h
  obtain ⟨heapCapacity, hheap, h⟩ := bind_eq_ok h
  obtain ⟨new, hnew, h⟩ := bind_eq_ok h
  have hlt : heapCapacity < 2 ^ 32 := by
    split at hheap
    · exact growHeapCapacity_lt hheap
    · rw [← Except.ok.inj hheap]
      decide
  have hcopied := growCopyRows_holds (allocate_holds hlt hnew).1 _
    (foldlM_ok_of_ok (fun _ _ _ => growCopyRow_ok) h)
  rw [← hold.storedRows]
  exact hcopied

theorem sinkRow_holds {chunk : DataChunk} {rowIdx : Nat} (hold : Holds desc.rightLayout t rows)
    (h : sinkRow desc chunk t rowIdx = .ok t') :
    Holds desc.rightLayout t'
      (rows ++ [scatterGroupColumns desc.rightLayout.descs chunk rowIdx]) := by
  unfold sinkRow at h
  obtain ⟨mid, hgrow, h⟩ := bind_eq_ok h
  have hmid : Holds desc.rightLayout mid rows := by
    split at hgrow
    · exact growTdcCopyRows_holds hold hgrow
    · rw [← Except.ok.inj hgrow]
      exact hold
  split at h
  · cases h
  · rename_i happ
    exact hmid.append_scatter happ h

/-- The rows of a chunk under the layout of the build side. -/
def chunkRows (desc : CrossProductDesc) (chunk : DataChunk) : List (List Datum) :=
  (List.range chunk.count).map (scatterGroupColumns desc.rightLayout.descs chunk)

theorem sinkChunk_holds {chunk : DataChunk} (hold : Holds desc.rightLayout t rows)
    (h : sinkChunk desc t chunk = .ok t') :
    Holds desc.rightLayout t' (rows ++ chunkRows desc chunk) := by
  unfold sinkChunk at h
  unfold chunkRows
  generalize chunk.count = k at h ⊢
  induction k generalizing t' with
  | zero =>
    rw [← Except.ok.inj h, List.range_zero, List.map_nil, List.append_nil]
    exact hold
  | succ k ih =>
    obtain ⟨mid, hmid, hrow⟩ := foldlM_range_succ h
    rw [List.range_succ, List.map_append, ← List.append_assoc]
    exact sinkRow_holds (ih hmid) hrow

theorem sinkChunks_rows {chunks : List DataChunk} (hold : Holds desc.rightLayout t rows)
    (h : chunks.foldlM (sinkChunk desc) t = .ok t') :
    Holds desc.rightLayout t' (rows ++ chunks.flatMap (chunkRows desc)) := by
  induction chunks generalizing t rows with
  | nil =>
    rw [← Except.ok.inj h, List.flatMap_nil, List.append_nil]
    exact hold
  | cons chunk chunks ih =>
    rw [List.foldlM_cons] at h
    obtain ⟨mid, hmid, h⟩ := bind_eq_ok h
    rw [List.flatMap_cons, ← List.append_assoc]
    exact ih (sinkChunk_holds hold hmid) h

theorem defaultHeapCapacity_lt (layout : TupleDataLayout) (n : Nat) :
    defaultHeapCapacity layout n < 2 ^ 32 :=
  Nat.lt_of_le_of_lt (Nat.min_le_right _ _) (by decide)

/-- **A worker's store** holds the rows of its chunks. -/
theorem sinkChunks_holds {chunks : List DataChunk} (h : sinkChunks desc chunks = .ok t) :
    Holds desc.rightLayout t (chunks.flatMap (chunkRows desc)) := by
  unfold sinkChunks at h
  obtain ⟨new, hnew, h⟩ := bind_eq_ok h
  exact sinkChunks_rows (allocate_holds (defaultHeapCapacity_lt _ _) hnew).1 h

end Local

/-! ## The combine event -/

section Combine
variable {desc : CrossProductDesc} {rows : List (List (List Datum))} {s s' : CombineState}
  {order : List (Nat × Nat)} {locals : List TupleDataCollection} {src : TupleDataCollection}
  {w : Nat}

/-- **The combine invariant**: what the shared store holds, and what it misses. -/
structure CombineInv (desc : CrossProductDesc) (rows : List (List (List Datum)))
    (s : CombineState) (order : List (Nat × Nat)) : Prop where
  interleaving : Interleaving rows order
  holds : Holds desc.rightLayout s.buildRows (namedRows rows order)
  heapUsed : s.buildRows.heapUsed = ((namedRows rows order).map rowHeapBytes).sum
  rowCapacity : s.buildRows.rowCapacity = globalRowCapacity desc
  heapCapacity : s.buildRows.heapCapacity = globalHeapCapacity desc
  heap_lt : globalHeapCapacity desc < uint32Max
  batch : ∀ w, s.mutex = some w → ∀ r, rows[w]? = some r → s.batchEnd w ≤ r.length
  before : ∀ x ∈ order, x.2 < s.rowIdx x.1
  appended : ∀ w, s.view w = none → ∀ i < s.rowIdx w, (w, i) ∈ order
  lost : ∀ w, s.view w ≠ none → ∃ i, (w, i) ∈ positions rows ∧ (w, i) ∉ order
  finished : ∀ w r, rows[w]? = some r → s.finished w = true → r.length ≤ s.rowIdx w

theorem inv_initial (h : IsInitial desc s) : CombineInv desc rows s [] := by
  obtain ⟨halloc, hmutex, hview, hidx, hfinished⟩ := h
  obtain ⟨hholds, hrow, hheap, hused⟩ := allocate_holds (defaultHeapCapacity_lt _ _) halloc
  exact {
    interleaving := .nil rows
    holds := hholds
    heapUsed := hused
    rowCapacity := hrow
    heapCapacity := hheap
    heap_lt := heapCapacity_of_allocate halloc
    batch := fun w hw => by rw [hmutex] at hw; cases hw
    before := fun x hx => by cases hx
    appended := fun w _ i hi => by rw [hidx] at hi; cases hi
    lost := fun w hw => absurd (hview w) hw
    finished := fun w r _ hw => by rw [hfinished] at hw; cases hw }

/-- The next row of a worker that holds the lock. -/
theorem CombineInv.next_row (h : CombineInv desc rows s order) {r : List (List Datum)}
    (hr : rows[w]? = some r) (hmutex : s.mutex = some w) (hlt : s.rowIdx w < s.batchEnd w) :
    (w, s.rowIdx w) ∉ order ∧ ∃ row, r[s.rowIdx w]? = some row ∧
      rowAt rows (w, s.rowIdx w) = some row := by
  have hle := h.batch w hmutex r hr
  have hlen : s.rowIdx w < r.length := by omega
  refine ⟨fun hmem => Nat.lt_irrefl _ (h.before _ hmem), r[s.rowIdx w], ?_, ?_⟩
  · exact List.getElem?_eq_getElem hlen
  · show (rows[w]?).bind (·[s.rowIdx w]?) = _
    rw [hr]
    exact List.getElem?_eq_getElem hlen

/-- A row that does not fit is lost for the shared store. -/
theorem CombineInv.grow (h : CombineInv desc rows s order) {r : List (List Datum)}
    (hr : rows[w]? = some r) (hmutex : s.mutex = some w) (hlt : s.rowIdx w < s.batchEnd w)
    (new : TupleDataCollection) :
    CombineInv desc rows { s with view := Function.update s.view w (some new) } order := by
  refine { h with appended := ?_, lost := ?_ }
  · intro w' hview
    have hne : w' ≠ w := by
      rintro rfl
      simp at hview
    exact h.appended w' (by simpa [hne] using hview)
  · intro w' hview
    by_cases heq : w' = w
    · subst heq
      obtain ⟨hmiss, row, _, hat⟩ := h.next_row hr hmutex hlt
      exact ⟨s.rowIdx w', mem_positions.mpr (by rw [hat]; rfl), hmiss⟩
    · exact h.lost w' (by simpa [heq] using hview)

/-- A worker with a store of its own leaves the shared one alone. -/
theorem CombineInv.append_own (h : CombineInv desc rows s order)
    (hview : s.view w ≠ none) (t : TupleDataCollection) :
    CombineInv desc rows { s with
      view := Function.update s.view w (some t)
      rowIdx := Function.update s.rowIdx w (s.rowIdx w + 1) } order := by
  have hmono (w' : Nat) : s.rowIdx w' ≤ Function.update s.rowIdx w (s.rowIdx w + 1) w' := by
    by_cases heq : w' = w
    · subst heq; simp
    · simp [heq]
  refine { h with before := ?_, appended := ?_, lost := ?_, finished := ?_ }
  · intro x hx
    exact Nat.lt_of_lt_of_le (h.before x hx) (hmono x.1)
  · intro w' hview'
    have hne : w' ≠ w := by
      rintro rfl
      simp at hview'
    intro i hi
    exact h.appended w' (by simpa [hne] using hview') i (by simpa [hne] using hi)
  · intro w' hview'
    by_cases heq : w' = w
    · subst heq
      exact h.lost w' hview
    · exact h.lost w' (by simpa [heq] using hview')
  · intro w' r hr hfin
    exact Nat.le_trans (h.finished w' r hr hfin) (hmono w')

/-- A row goes to the shared store. -/
theorem CombineInv.append_shared (h : CombineInv desc rows s order) {r : List (List Datum)}
    (hr : rows[w]? = some r) (hsrc : Holds desc.rightLayout src r) (hmutex : s.mutex = some w)
    (hlt : s.rowIdx w < s.batchEnd w) (hown : s.view w = none) {t t' : TupleDataCollection}
    {dstRow : Nat} (happ : s.buildRows.appendRow = some (t, dstRow))
    (hcopy : TupleDataCollection.copyBuildRow desc.rightLayout src (s.rowIdx w) t dstRow =
      .ok t') :
    CombineInv desc rows { s with
      buildRows := t'
      rowIdx := Function.update s.rowIdx w (s.rowIdx w + 1) } (order ++ [(w, s.rowIdx w)]) := by
  obtain ⟨hmiss, row, hrow, hat⟩ := h.next_row hr hmutex hlt
  obtain ⟨hmore, hnamed⟩ := h.interleaving.append hmiss hat
  have hvalue : src.decodeRow desc.rightLayout (s.rowIdx w) = row := (hsrc.row _ _ hrow).decodeRow
  have hholds := h.holds.append_copy happ hcopy
  rw [hvalue] at hholds
  obtain ⟨bytes, heq⟩ := copyBuildRow_eq hcopy
  rw [hvalue] at heq
  have ht : t = { s.buildRows with rowCount := s.buildRows.rowCount + 1 } := by
    unfold appendRow at happ
    split at happ
    · cases happ
    · rw [Option.some.injEq, Prod.mk.injEq] at happ
      exact happ.1.symm
  subst ht
  have hmono (w' : Nat) : s.rowIdx w' ≤ Function.update s.rowIdx w (s.rowIdx w + 1) w' := by
    by_cases hw : w' = w
    · subst hw; simp
    · simp [hw]
  exact {
    interleaving := hmore
    holds := by rw [hnamed]; exact hholds
    heapUsed := by
      rw [hnamed, List.map_append, List.sum_append, ← h.heapUsed, heq]
      simp
    rowCapacity := by rw [heq]; exact h.rowCapacity
    heapCapacity := by rw [heq]; exact h.heapCapacity
    heap_lt := h.heap_lt
    batch := h.batch
    before := by
      intro x hx
      rcases List.mem_append.mp hx with hx | hx
      · exact Nat.lt_of_lt_of_le (h.before x hx) (hmono x.1)
      · obtain rfl := List.mem_singleton.mp hx
        simp
    appended := by
      intro w' hview i (hi : i < Function.update s.rowIdx w (s.rowIdx w + 1) w')
      by_cases hw : w' = w
      · subst hw
        rw [Function.update_self] at hi
        rcases Nat.lt_succ_iff_lt_or_eq.mp hi with hi | rfl
        · exact List.mem_append_left _ (h.appended w' hview i hi)
        · exact List.mem_append_right _ List.mem_cons_self
      · rw [Function.update_of_ne hw] at hi
        exact List.mem_append_left _ (h.appended w' hview i hi)
    lost := by
      intro w' hview
      obtain ⟨i, hpos, hnot⟩ := h.lost w' hview
      refine ⟨i, hpos, ?_⟩
      intro hmem
      rcases List.mem_append.mp hmem with hmem | hmem
      · exact hnot hmem
      · cases List.mem_singleton.mp hmem
        exact hview hown
    finished := by
      intro w' r' hr' hfin
      exact Nat.le_trans (h.finished w' r' hr' hfin) (hmono w') }

/-- **One step of a worker.** -/
theorem CombineInv.step (h : CombineInv desc rows s order) {r : List (List Datum)}
    (hr : rows[w]? = some r) (hsrc : Holds desc.rightLayout src r)
    (hstep : combine desc src w s = some (.ok s')) : ∃ order', CombineInv desc rows s' order' := by
  unfold combine at hstep
  cases hmutex : s.mutex with
  | some holder =>
    rw [hmutex] at hstep
    dsimp only at hstep
    by_cases hholder : holder = w
    · subst hholder
      rw [if_neg (not_not.mpr rfl)] at hstep
      by_cases hlt : s.rowIdx holder < s.batchEnd holder
      · rw [if_pos hlt, Option.some.injEq] at hstep
        unfold combineRow at hstep
        dsimp only at hstep
        split at hstep
        · obtain ⟨new, _, hstep⟩ := bind_eq_ok hstep
          rw [← Except.ok.inj hstep]
          exact ⟨order, h.grow hr hmutex hlt new⟩
        · split at hstep
          · cases hstep
          · rename_i t dstRow happ
            obtain ⟨t', hcopy, hstep⟩ := bind_eq_ok hstep
            rw [← Except.ok.inj hstep]
            cases hview : s.view holder with
            | none =>
              have htable : s.table holder = s.buildRows := by
                rw [CombineState.table, hview, Option.getD_none]
              rw [htable] at happ
              refine ⟨order ++ [(holder, s.rowIdx holder)], ?_⟩
              have hnext := h.append_shared hr hsrc hmutex hlt hview happ (copyBuildRow_ok hcopy)
              simpa [CombineState.setTable, hview] using hnext
            | some v =>
              refine ⟨order, ?_⟩
              have hnext := h.append_own (by rw [hview]; simp : s.view holder ≠ none) t'
              simpa [CombineState.setTable, hview] using hnext
      · rw [if_neg hlt, Option.some.injEq] at hstep
        rw [← Except.ok.inj hstep]
        exact ⟨order, { h with batch := fun w hw => by cases hw }⟩
    · rw [if_pos hholder] at hstep
      cases hstep
  | none =>
    rw [hmutex] at hstep
    dsimp only at hstep
    by_cases hlt : s.rowIdx w < src.rowCount
    · rw [if_pos hlt, Option.some.injEq] at hstep
      rw [← Except.ok.inj hstep]
      refine ⟨order, { h with batch := ?_ }⟩
      intro w' hw' r' hr'
      cases hw'
      rw [hr] at hr'
      obtain rfl := Option.some.inj hr'
      show Function.update s.batchEnd w _ w ≤ _
      rw [Function.update_self, hsrc.rowCount]
      exact Nat.min_le_right _ _
    · rw [if_neg hlt, Option.some.injEq] at hstep
      rw [← Except.ok.inj hstep]
      refine ⟨order, { h with batch := (fun _ hw => nomatch hw), finished := ?_ }⟩
      intro w' r' hr' hfin
      by_cases hw : w' = w
      · subst hw
        rw [hr] at hr'
        obtain rfl := Option.some.inj hr'
        rw [hsrc.rowCount] at hlt
        exact Nat.le_of_not_lt hlt
      · exact h.finished w' r' hr' (by simpa [hw] using hfin)

theorem inv_of_reachable (hlocals : List.Forall₂ (Holds desc.rightLayout) locals rows)
    (hreach : (system desc locals).Reachable s) : ∃ order, CombineInv desc rows s order := by
  refine hreach.invariant (I := fun s => ∃ order, CombineInv desc rows s order) ?_ ?_
  · intro s h
    exact ⟨[], inv_initial h⟩
  · rintro s w s' ⟨order, h⟩ ⟨src, hsrc, _, hstep⟩
    obtain ⟨r, hr, hholds⟩ := forall₂_getElem? hlocals hsrc
    exact h.step hr hholds hstep

/-- All rows together fit, whatever their order. -/
def RowsFit (desc : CrossProductDesc) (rows : List (List (List Datum))) : Prop :=
  rows.flatten.length ≤ globalRowCapacity desc ∧
    (rows.flatten.map rowHeapBytes).sum ≤ globalHeapCapacity desc

/-- Where all rows fit, the next row fits the shared store. -/
theorem CombineInv.fits (h : CombineInv desc rows s order) (hfit : RowsFit desc rows)
    {r : List (List Datum)} (hr : rows[w]? = some r) (hsrc : Holds desc.rightLayout src r)
    (hmutex : s.mutex = some w) (hlt : s.rowIdx w < s.batchEnd w) :
    s.buildRows.rowCount < s.buildRows.rowCapacity ∧
      s.buildRows.heapUsed + rowHeapBytes (src.decodeRow desc.rightLayout (s.rowIdx w)) ≤
        s.buildRows.heapCapacity ∧
      tdcNeedsGrowForStoredRow desc.rightLayout s.buildRows src (s.rowIdx w) = false := by
  obtain ⟨hmiss, row, hrow, hat⟩ := h.next_row hr hmutex hlt
  obtain ⟨hmore, hnamed⟩ := h.interleaving.append hmiss hat
  have hvalue : src.decodeRow desc.rightLayout (s.rowIdx w) = row := (hsrc.row _ _ hrow).decodeRow
  have hlength := hmore.length_le
  have hsum := hmore.sum_le rowHeapBytes
  rw [hnamed, List.length_append, List.length_singleton, ← h.holds.rowCount] at hlength
  rw [hnamed, List.map_append, List.sum_append, ← h.heapUsed, List.map_singleton,
    List.sum_singleton] at hsum
  have hcount : s.buildRows.rowCount < s.buildRows.rowCapacity := by
    rw [h.rowCapacity]
    exact Nat.lt_of_lt_of_le hlength hfit.1
  have hheap : s.buildRows.heapUsed + rowHeapBytes row ≤ s.buildRows.heapCapacity := by
    rw [h.heapCapacity]
    exact Nat.le_trans hsum hfit.2
  refine ⟨hcount, by rw [hvalue]; exact hheap, ?_⟩
  have hlimit := h.heap_lt
  have hcapacity := h.heapCapacity
  unfold tdcNeedsGrowForStoredRow
  rw [requiredHeapBytesForRow_eq, hvalue, Nat.min_eq_left (by omega)]
  simpa using hasSpaceForAppend_iff.mpr ⟨hcount, Or.inr hheap⟩

/-- Where all rows fit, nobody leaves the shared store. -/
theorem views_of_fit (hlocals : List.Forall₂ (Holds desc.rightLayout) locals rows)
    (hfit : RowsFit desc rows) (hreach : (system desc locals).Reachable s) (w : Nat) :
    s.view w = none := by
  induction hreach generalizing w with
  | initial h => exact h.2.2.1 w
  | @step s v s' hreach hs ih =>
    obtain ⟨src, hsrc, _, hstep⟩ := hs
    obtain ⟨r, hr, hholds⟩ := forall₂_getElem? hlocals hsrc
    obtain ⟨order, h⟩ := inv_of_reachable hlocals hreach
    unfold combine at hstep
    split at hstep
    · rename_i holder hmutex
      split at hstep
      · cases hstep
      rename_i hholder
      obtain rfl : holder = v := not_not.mp hholder
      split at hstep
      · rename_i hlt
        obtain ⟨_, _, hspace⟩ := h.fits hfit hr hholds hmutex hlt
        have htable : s.table holder = s.buildRows := by
          rw [CombineState.table, ih, Option.getD_none]
        rw [Option.some.injEq, combineRow, htable] at hstep
        dsimp only at hstep
        rw [hspace, if_neg (by decide)] at hstep
        split at hstep
        · cases hstep
        · obtain ⟨t, _, hstep⟩ := bind_eq_ok hstep
          rw [← Except.ok.inj hstep]
          simp [CombineState.setTable, ih]
      · rw [Option.some.injEq] at hstep
        rw [← Except.ok.inj hstep]
        exact ih w
    · split at hstep
      · rw [Option.some.injEq] at hstep
        rw [← Except.ok.inj hstep]
        exact ih w
      · rw [Option.some.injEq] at hstep
        rw [← Except.ok.inj hstep]
        exact ih w

/-- **Where all rows fit, no step ends in an error.** -/
theorem combine_ne_error (hlocals : List.Forall₂ (Holds desc.rightLayout) locals rows)
    (hfit : RowsFit desc rows) (hreach : (system desc locals).Reachable s)
    (hsrc : locals[w]? = some src) (e : String) : combine desc src w s ≠ some (.error e) := by
  obtain ⟨r, hr, hholds⟩ := forall₂_getElem? hlocals hsrc
  obtain ⟨order, h⟩ := inv_of_reachable hlocals hreach
  have hview := views_of_fit hlocals hfit hreach w
  have htable : s.table w = s.buildRows := by rw [CombineState.table, hview, Option.getD_none]
  unfold combine
  split
  · rename_i holder hmutex
    split
    · exact fun h => by cases h
    rename_i hholder
    obtain rfl : holder = w := not_not.mp hholder
    split
    · rename_i hlt
      obtain ⟨hcount, hheap, hspace⟩ := h.fits hfit hr hholds hmutex hlt
      have happ : s.buildRows.appendRow =
          some ({ s.buildRows with rowCount := s.buildRows.rowCount + 1 }, s.buildRows.rowCount) :=
        if_neg (by omega)
      have hroom : TupleDataCollection.heapUsed
          { s.buildRows with rowCount := s.buildRows.rowCount + 1 } +
            rowHeapBytes (src.decodeRow desc.rightLayout (s.rowIdx holder)) ≤
          s.buildRows.heapCapacity := hheap
      obtain ⟨t', hcopy⟩ := copyBuildRow_of_fits hroom
      unfold combineRow copyBuildRow
      rw [htable]
      dsimp only
      rw [hspace, if_neg (by decide), happ]
      dsimp only
      rw [hcopy]
      exact fun h => by cases h
    · exact fun h => by cases h
  · split
    · exact fun h => by cases h
    · exact fun h => by cases h

/-- **The shared store is complete exactly when all rows fit.** -/
theorem complete_iff_fit (hlocals : List.Forall₂ (Holds desc.rightLayout) locals rows)
    (hreach : (system desc locals).Reachable s) (hdone : Completed locals s) :
    (s.buildRows.storedRows desc.rightLayout).Perm rows.flatten ↔ RowsFit desc rows := by
  obtain ⟨order, h⟩ := inv_of_reachable hlocals hreach
  rw [h.holds.storedRows]
  constructor
  · intro hperm
    refine ⟨?_, ?_⟩
    · rw [← hperm.length_eq, ← h.holds.rowCount, ← h.rowCapacity]
      exact h.holds.count_le
    · rw [← (hperm.map rowHeapBytes).sum_eq, ← h.heapUsed, ← h.heapCapacity]
      exact h.holds.heap_le
  · intro hfit
    refine h.interleaving.perm_flatten ?_
    rintro ⟨w, i⟩ hx
    obtain ⟨row, hrow⟩ := Option.isSome_iff_exists.mp (mem_positions.mp hx)
    obtain ⟨r, hr, hi⟩ := Option.bind_eq_some_iff.mp hrow
    have hlt : i < r.length := (List.getElem?_eq_some_iff.mp hi).1
    have hw : w < locals.length := by
      rw [hlocals.length_eq]
      exact (List.getElem?_eq_some_iff.mp hr).1
    have hidx := h.finished w r hr (hdone w hw)
    exact h.appended w (views_of_fit hlocals hfit hreach w) i (by omega)

end Combine

/-! ## The probe side -/

section Probe
variable {count n : Nat}

/-- The pairs of the probe rows from `p` on. -/
def pairsOfRows (count n p : Nat) : List (Nat × Nat) :=
  (List.range' p (count - p)).flatMap fun q => (List.range n).map fun b => (q, b)

/-- The pairs from a position of the cursor on. -/
def pairsFrom (count n p b : Nat) : List (Nat × Nat) :=
  if p < count then
    (List.range' b (n - b)).map (fun b => (p, b)) ++ pairsOfRows count n (p + 1)
  else []

theorem pairsOfRows_eq (count n p : Nat) : pairsOfRows count n p = pairsFrom count n p 0 := by
  unfold pairsOfRows pairsFrom
  split
  · rename_i hlt
    obtain ⟨k, hk⟩ : ∃ k, count - p = k + 1 := ⟨count - p - 1, by omega⟩
    have hk' : count - (p + 1) = k := by omega
    rw [hk, List.range'_succ, List.flatMap_cons, Nat.sub_zero, ← List.range_eq_range',
      pairsOfRows, hk']
  · rename_i hge
    rw [show count - p = 0 by omega]
    rfl

theorem batchLoop_eq (n p room b : Nat) (batch : List (Nat × Nat)) :
    batchLoop n p room b batch =
      (batch ++ (List.range' b (min room (n - b))).map (fun b => (p, b)),
        b + min room (n - b)) := by
  induction room generalizing b batch with
  | zero => simp [batchLoop]
  | succ room ih =>
    rw [batchLoop]
    split
    · rename_i hlt
      have hmin : min (room + 1) (n - b) = min room (n - (b + 1)) + 1 := by omega
      rw [ih, hmin, List.range'_succ, List.map_cons, List.append_assoc, Nat.add_assoc,
        Nat.add_comm 1]
      rfl
    · rename_i hge
      rw [show n - b = 0 by omega, Nat.min_zero]
      simp

variable (count) in
/-- **The probe loop** goes on through the pairs until the output chunk is full. -/
theorem probeLoop_spec (p b : Nat) (out : List (Nat × Nat)) (hb : b ≤ n)
    (hout : out.length ≤ chunkSize) :
    ∃ p' b' out', Arrives (fun fuel => probeLoop count n fuel p b out) (p', b', out') ∧ b' ≤ n ∧
      out' ++ pairsFrom count n p' b' = out ++ pairsFrom count n p b ∧
      (p' < count → out'.length = chunkSize) := by
  induction hk : count - p generalizing p b out with
  | zero =>
    refine ⟨p, b, out, Arrives.of_succ ?_, hb, rfl, fun hp => by omega⟩
    have hstop : ¬ (p < count ∧ out.length < chunkSize) := by omega
    simp only [probeLoop, if_neg hstop]
    exact Arrives.pure _
  | succ k ih =>
    have hp : p < count := by omega
    by_cases hroom : out.length < chunkSize
    · have hgo : p < count ∧ out.length < chunkSize := ⟨hp, hroom⟩
      by_cases hend : n ≤ b + min (chunkSize - out.length) (n - b)
      · -- the probe row is done
        have hbatch : min (chunkSize - out.length) (n - b) = n - b := by omega
        obtain ⟨p', b', out', hrun, hb', hpairs, hfull⟩ := ih (p + 1) 0
          (out ++ (List.range' b (n - b)).map fun b => (p, b)) (Nat.zero_le _) (by
            rw [List.length_append, List.length_map, List.length_range']
            omega) (by omega)
        refine ⟨p', b', out', Arrives.of_succ ?_, hb', ?_, hfull⟩
        · simp only [probeLoop, if_pos hgo, batchLoop_eq, List.nil_append, hbatch,
            if_pos (show n ≤ b + (n - b) by omega)]
          exact hrun
        · rw [hpairs, List.append_assoc, ← pairsOfRows_eq]
          unfold pairsFrom
          rw [if_pos hp]
      · -- the output chunk is full, and the loop ends with its next test
        have hbatch : min (chunkSize - out.length) (n - b) = chunkSize - out.length := by omega
        have hlength : (out ++ (List.range' b (chunkSize - out.length)).map
            fun b => (p, b)).length = chunkSize := by
          rw [List.length_append, List.length_map, List.length_range']
          omega
        refine ⟨p, b + (chunkSize - out.length),
          out ++ (List.range' b (chunkSize - out.length)).map fun b => (p, b),
          Arrives.of_succ (Arrives.of_succ ?_), by omega, ?_, fun _ => hlength⟩
        · have hstop : ¬ (p < count ∧ (out ++ (List.range' b (chunkSize - out.length)).map
              fun b => (p, b)).length < chunkSize) := by omega
          rw [hbatch] at hend
          simp only [probeLoop, if_pos hgo, batchLoop_eq, List.nil_append, hbatch, if_neg hend,
            if_neg hstop]
          exact Arrives.pure _
        · rw [List.append_assoc]
          congr 1
          obtain ⟨m, hm⟩ : ∃ m, n - b = (chunkSize - out.length) + m :=
            ⟨n - b - (chunkSize - out.length), by omega⟩
          unfold pairsFrom
          rw [if_pos hp, if_pos hp, ← List.append_assoc, ← List.map_append, hm,
            ← List.range'_append_1, show n - (b + (chunkSize - out.length)) = m by omega]
    · refine ⟨p, b, out, Arrives.of_succ ?_, hb, rfl, fun _ => by omega⟩
      have hstop : ¬ (p < count ∧ out.length < chunkSize) := by omega
      simp only [probeLoop, if_neg hstop]
      exact Arrives.pure _

/-- What a computation answers, another computes from it. -/
theorem arrives_map {α β : Type} {f : Nat → Option α} {r : α} (h : Arrives f r) (g : α → β) :
    Arrives (fun fuel => (f fuel).map g) (g r) := by
  obtain ⟨N, hN⟩ := h
  refine ⟨N, fun k hk => ?_⟩
  show (f k).map g = _
  rw [hN k hk]
  rfl

variable (count) in
/-- One call of `Execute` with pairs still to come: either the last ones, or a full
output chunk and a cursor at the rest. -/
theorem execute_spec (p b : Nat) (hb : b ≤ n) :
    ∃ c out, Arrives (fun fuel => execute count n fuel ⟨false, p, b⟩) (c, out) ∧
      (c = ⟨!out.isEmpty, 0, 0⟩ ∧ out = pairsFrom count n p b ∨
        ∃ p' b', c = ⟨false, p', b'⟩ ∧ b' ≤ n ∧ out.length = chunkSize ∧
          out ++ pairsFrom count n p' b' = pairsFrom count n p b) := by
  obtain ⟨p', b', out, hrun, hb', hpairs, hfull⟩ :=
    probeLoop_spec count p b [] hb (Nat.zero_le _)
  have hexecute := arrives_map hrun fun x =>
    if count ≤ x.1 then ((⟨!x.2.2.isEmpty, 0, 0⟩ : Cursor), x.2.2)
    else (⟨false, x.1, x.2.1⟩, x.2.2)
  by_cases hdone : count ≤ p'
  · simp only [if_pos hdone] at hexecute
    refine ⟨_, _, hexecute, Or.inl ⟨rfl, ?_⟩⟩
    rw [pairsFrom, if_neg (by omega), List.append_nil, List.nil_append] at hpairs
    exact hpairs
  · simp only [if_neg hdone] at hexecute
    exact ⟨_, _, hexecute, Or.inr ⟨p', b', rfl, hb', hfull (by omega), hpairs⟩⟩

theorem execute_drained (p b : Nat) :
    Arrives (fun fuel => execute count n fuel ⟨true, p, b⟩) (⟨false, p, b⟩, []) :=
  Arrives.pure _

variable (count) in
/-- **The calls with one input chunk** make every pair once, in order, and leave a
fresh cursor. -/
theorem resume_spec (p b : Nat) (hb : b ≤ n) :
    Arrives (fun fuel => resume count n fuel ⟨false, p, b⟩)
      (.fresh, pairsFrom count n p b) := by
  induction hk : (pairsFrom count n p b).length using Nat.strong_induction_on
    generalizing p b with
  | _ k ih =>
    obtain ⟨c, out, hrun, hcase⟩ := execute_spec count p b hb
    refine Arrives.of_succ (Arrives.bind hrun ?_)
    dsimp only
    rcases hcase with ⟨rfl, rfl⟩ | ⟨p', b', rfl, hb', hfull, hpairs⟩
    · cases hempty : (pairsFrom count n p b).isEmpty with
      | true =>
        rw [List.isEmpty_iff.mp hempty]
        exact Arrives.pure _
      | false =>
        have hlast : Arrives (fun fuel => resume count n fuel ⟨true, 0, 0⟩) (.fresh, []) :=
          Arrives.of_succ (Arrives.bind (execute_drained 0 0) (Arrives.pure _))
        have hmap := arrives_map hlast fun x => (x.1, pairsFrom count n p b ++ x.2)
        simpa using hmap
    · have hnonempty : out.isEmpty = false := by
        cases out with
        | nil => cases hfull
        | cons x xs => rfl
      have hlt : (pairsFrom count n p' b').length < k := by
        rw [← hk, ← hpairs, List.length_append, hfull]
        unfold chunkSize
        omega
      have hmap := arrives_map (ih _ hlt p' b' hb' rfl) fun x => (x.1, out ++ x.2)
      rw [hnonempty]
      rw [hpairs] at hmap
      exact hmap

/-- The pairs of a chunk, for a fresh cursor. -/
theorem pairsFrom_zero (count n : Nat) :
    pairsFrom count n 0 0 =
      (List.range count).flatMap fun p => (List.range n).map fun b => (p, b) := by
  rw [← pairsOfRows_eq, pairsOfRows, Nat.sub_zero, ← List.range_eq_range']

variable {desc : CrossProductDesc} {buildRows : TupleDataCollection}

/-- **The probe side of a task** emits every probe row with every stored build row. -/
theorem probeChunks_spec (chunks : List DataChunk) :
    Arrives (fun fuel => probeChunks desc buildRows fuel chunks .fresh)
      (crossRows desc chunks (buildRows.storedRows desc.rightLayout)) := by
  induction chunks with
  | nil => exact Arrives.pure _
  | cons chunk chunks ih =>
    have hresume := resume_spec chunk.count 0 0 (Nat.zero_le buildRows.rowCount)
    refine Arrives.bind hresume ?_
    have hrows : (pairsFrom chunk.count buildRows.rowCount 0 0).map (pairRow desc buildRows chunk) =
        (List.range chunk.count).flatMap fun rowIdx =>
          (buildRows.storedRows desc.rightLayout).map (outputRow desc chunk rowIdx) := by
      rw [pairsFrom_zero, List.map_flatMap]
      refine List.flatMap_congr fun rowIdx _ => ?_
      rw [TupleDataCollection.storedRows, List.map_map, List.map_map]
      rfl
    show Arrives (fun fuel => (probeChunks desc buildRows fuel chunks .fresh).map fun rest =>
      (pairsFrom chunk.count buildRows.rowCount 0 0).map (pairRow desc buildRows chunk) ++ rest) _
    rw [hrows]
    exact arrives_map ih _

theorem crossRows_perm {rows rows' : List (List Datum)} (h : rows.Perm rows')
    (chunks : List DataChunk) : (crossRows desc chunks rows).Perm (crossRows desc chunks rows') := by
  refine List.Perm.flatMap_left _ fun chunk _ => ?_
  exact List.Perm.flatMap_left _ fun rowIdx _ => h.map _

theorem crossRows_flatten (tasks : List (List DataChunk)) (rows : List (List Datum)) :
    (tasks.map fun chunks => crossRows desc chunks rows).flatten =
      crossRows desc tasks.flatten rows := by
  induction tasks with
  | nil => rfl
  | cons chunks tasks ih =>
    rw [List.map_cons, List.flatten_cons, ih, List.flatten_cons]
    unfold crossRows
    rw [List.flatMap_append]

/-- Whatever the tasks, a store with the sunk rows gives every pair once. -/
theorem emitsEveryPair_of_perm {buildChunks : List (List DataChunk)}
    (h : (buildRows.storedRows desc.rightLayout).Perm (sunkRows desc buildChunks)) :
    EmitsEveryPair desc buildChunks buildRows := by
  intro tasks
  refine ⟨tasks.map fun chunks => crossRows desc chunks (buildRows.storedRows desc.rightLayout),
    ?_, ?_⟩
  · rw [List.forall₂_map_right_iff]
    exact List.forall₂_same.mpr fun chunks _ => probeChunks_spec chunks
  · rw [crossRows_flatten]
    exact crossRows_perm h _

end Probe

section Result
variable {desc : CrossProductDesc} {buildChunks : List (List DataChunk)}
  {locals : List TupleDataCollection} {s : CombineState}

theorem sunkRows_eq (buildChunks : List (List DataChunk)) :
    sunkRows desc buildChunks =
      (buildChunks.map fun chunks => chunks.flatMap (chunkRows desc)).flatten := by
  unfold sunkRows
  induction buildChunks with
  | nil => rfl
  | cons chunks rest ih =>
    rw [List.flatten_cons, List.flatMap_append, ih]
    rfl

theorem finalize_ok {rows : List (List (List Datum))}
    (hlocals : List.Forall₂ (Holds desc.rightLayout) locals rows)
    (hreach : (system desc locals).Reachable s) : finalize desc s = .ok s.buildRows := by
  obtain ⟨order, h⟩ := inv_of_reachable hlocals hreach
  have hcount := h.holds.count_le
  have hmax : globalRowCapacity desc = desc.maxRows := Nat.max_eq_right desc.le_maxRows
  rw [h.rowCapacity, hmax] at hcount
  exact if_neg (by omega)

theorem locals_hold
    (hsunk : List.Forall₂ (fun chunks t => sinkChunks desc chunks = .ok t) buildChunks locals) :
    List.Forall₂ (Holds desc.rightLayout) locals
      (buildChunks.map fun chunks => chunks.flatMap (chunkRows desc)) := by
  rw [List.forall₂_map_right_iff]
  exact (hsunk.imp fun _ _ h => sinkChunks_holds h).flip

/-- Finalize never ends in an error: a complete store is one that all rows fit. -/
theorem fits_of_completeOrError
    (hsunk : List.Forall₂ (fun chunks t => sinkChunks desc chunks = .ok t) buildChunks locals)
    (hreach : (system desc locals).Reachable s) (hdone : Completed locals s)
    (h : CompleteOrError desc buildChunks s) : Fits desc buildChunks := by
  have hlocals := locals_hold hsunk
  have hiff := complete_iff_fit hlocals hreach hdone
  unfold RowsFit at hiff
  rw [← sunkRows_eq] at hiff
  unfold CompleteOrError at h
  rw [finalize_ok hlocals hreach] at h
  rcases h with ⟨e, he⟩ | ⟨t, ht, hperm, _⟩
  · cases he
  · obtain rfl := Except.ok.inj ht
    exact hiff.mp hperm

theorem completeOrError_of_fits
    (hsunk : List.Forall₂ (fun chunks t => sinkChunks desc chunks = .ok t) buildChunks locals)
    (hreach : (system desc locals).Reachable s) (hdone : Completed locals s)
    (h : Fits desc buildChunks) : CompleteOrError desc buildChunks s := by
  have hlocals := locals_hold hsunk
  have hiff := complete_iff_fit hlocals hreach hdone
  unfold RowsFit at hiff
  rw [← sunkRows_eq] at hiff
  have hperm := hiff.mpr h
  exact Or.inr ⟨_, finalize_ok hlocals hreach, hperm, emitsEveryPair_of_perm hperm⟩

/-- **The cross product is right exactly when the build rows fit**, for any chunks
the workers sank, and any completed combine event. -/
theorem completeOrError_iff_fits
    (hsunk : List.Forall₂ (fun chunks t => sinkChunks desc chunks = .ok t) buildChunks locals)
    (hreach : (system desc locals).Reachable s) (hdone : Completed locals s) :
    CompleteOrError desc buildChunks s ↔ Fits desc buildChunks :=
  ⟨fits_of_completeOrError hsunk hreach hdone, completeOrError_of_fits hsunk hreach hdone⟩

/-- A build side with one string column, and at most 1024 rows. -/
def stringCross : CrossProductDesc where
  rightLayout := ⟨[⟨⟨.stringRef, 0⟩, 0, 25, 0⟩], 16, ⟨Nat.le_refl 0, Nat.le_refl 16⟩⟩
  outputColumns := []
  maxRows := 1024
  localStateSlotCount := 1
  le_maxRows := Nat.le_refl 1024
  maxRows_lt := by decide

/-- A chunk with one string. -/
def stringChunk (bytes : List UInt8) : DataChunk where
  count := 1
  int32 := ⟨fun _ _ => 0, fun _ _ => 0, fun _ => ⟨false, 0⟩⟩
  int64 := ⟨fun _ _ => 0, fun _ _ => 0, fun _ => ⟨false, 0⟩⟩
  double := ⟨fun _ _ => 0, fun _ _ => 0, fun _ => ⟨false, 0⟩⟩
  string := ⟨fun _ _ => bytes, fun _ _ => 0, fun _ => ⟨false, 0⟩⟩
  nulls := fun _ _ => 0

/-- A store of strings with nothing in it. -/
def emptyStore (rowCapacity heapCapacity : Nat) : TupleDataCollection :=
  ⟨16, rowCapacity, 0, heapCapacity, 0, fun _ => 0⟩

/-- The combine event before its first step. -/
def start : CombineState :=
  ⟨emptyStore 1024 98304, none, fun _ => none, fun _ => 0, fun _ => 0, fun _ => false⟩

theorem start_initial : IsInitial stringCross start :=
  ⟨rfl, rfl, fun _ => rfl, fun _ => rfl, fun _ => rfl⟩

/-- What the only worker does next. -/
theorem reachable_next {src : TupleDataCollection} {s s' : CombineState}
    (hreach : (system stringCross [src]).Reachable s) (hfinished : s.finished 0 = false)
    (hstep : combine stringCross src 0 s = some (.ok s')) :
    (system stringCross [src]).Reachable s' :=
  .step hreach ⟨src, rfl, hfinished, hstep⟩

theorem completed_of_finished {src : TupleDataCollection} {s : CombineState}
    (h : s.finished 0 = true) : Completed [src] s := by
  intro w hw
  obtain rfl := Nat.lt_one_iff.mp hw
  exact h

/-- The store of a worker that sinks a string of one byte. -/
def shortStore : TupleDataCollection :=
  match sinkChunks stringCross [stringChunk [97]] with
  | .ok t => t
  | .error _ => emptyStore 1024 98304

/-- One worker sinks a string of one byte, which fits. -/
theorem completeOrError_short : ∃ s, (system stringCross [shortStore]).Reachable s ∧
    Completed [shortStore] s ∧ CompleteOrError stringCross [[stringChunk [97]]] s := by
  have hstart : (system stringCross [shortStore]).Reachable start := .initial start_initial
  have hacquired := reachable_next hstart rfl rfl
  have happended := reachable_next hacquired rfl rfl
  have hreleased := reachable_next happended rfl rfl
  have hfinished := reachable_next hreleased rfl rfl
  refine ⟨_, hfinished, completed_of_finished rfl, ?_⟩
  exact (completeOrError_iff_fits (.cons rfl .nil) hfinished (completed_of_finished rfl)).mpr
    ⟨by decide, by decide⟩

section LongString

/-- The only worker has the lock for its only row, with these pointers and positions. -/
def holding (view : Nat → Option TupleDataCollection) (rowIdx : Nat → Nat) : CombineState where
  buildRows := emptyStore 1024 98304
  mutex := some 0
  view := view
  rowIdx := rowIdx
  batchEnd := Function.update (fun _ => 0) 0 1
  finished := fun _ => false

variable {bytes : List UInt8}

/-- The local store grows for a string that is longer than its heap. -/
theorem sinkChunks_long (h : bytes.length = 98305) :
    ∃ t, sinkChunks stringCross [stringChunk bytes] = .ok t := by
  have halloc : allocateLocal stringCross = .ok (emptyStore 1024 98304) := rfl
  have hneeds : tdcNeedsGrowForChunkRow stringCross.rightLayout (emptyStore 1024 98304)
      (stringChunk bytes) 0 = true := by
    show (!(emptyStore 1024 98304).hasSpaceForAppend
      (min (heapBytesNeededForStringLength bytes.length + 0) uint32Max)) = true
    rw [h]
    rfl
  have hgrow : growTdcCopyRows stringCross.rightLayout (emptyStore 1024 98304) 1025 =
      .ok (emptyStore 2048 1146880) := rfl
  have happ : (emptyStore 2048 1146880).appendRow =
      some ({ emptyStore 2048 1146880 with rowCount := 1 }, 0) := rfl
  have hroom : TupleDataCollection.heapUsed { emptyStore 2048 1146880 with rowCount := 1 } +
      heapBytesNeededForStringLength bytes.length ≤ 1146880 := by
    rw [h]
    decide
  obtain ⟨t, ref, hstore⟩ := storeStringBytes_of_fits hroom
  have hscatter : ∃ t', scatterGroupOnly stringCross.rightLayout
      { emptyStore 2048 1146880 with rowCount := 1 } 0 (stringChunk bytes) 0 = .ok t' := by
    refine ⟨t.writeColumn 0 ⟨⟨.stringRef, 0⟩, 0, 25, 0⟩ ref.bytes, ?_⟩
    show (scatterGroupColumn _ _ _ _ _ >>= pure) = _
    have hget : (stringChunk bytes).getString 0 0 = bytes := rfl
    unfold scatterGroupColumn
    dsimp only
    rw [hget, hstore]
    rfl
  obtain ⟨t', ht'⟩ := hscatter
  have hrow : sinkRow stringCross (stringChunk bytes) (emptyStore 1024 98304) 0 = .ok t' := by
    unfold sinkRow
    rw [if_pos hneeds]
    show (growTdcCopyRows stringCross.rightLayout (emptyStore 1024 98304) 1025 >>= _) = _
    rw [hgrow]
    exact ht'
  refine ⟨t', ?_⟩
  unfold sinkChunks
  rw [halloc]
  show ((sinkRow stringCross (stringChunk bytes) (emptyStore 1024 98304) 0 >>= pure) >>= pure) = _
  rw [hrow]
  rfl

/-- The shared store does not grow for it. -/
theorem exists_incomplete (h : bytes.length = 98305) :
    ∃ t s, sinkChunks stringCross [stringChunk bytes] = .ok t ∧
      (system stringCross [t]).Reachable s ∧ Completed [t] s ∧
      ¬ CompleteOrError stringCross [[stringChunk bytes]] s := by
  obtain ⟨t, ht⟩ := sinkChunks_long h
  have hholds : Holds stringCross.rightLayout t [[.stringRef bytes]] := sinkChunks_holds ht
  have hcount : t.rowCount = 1 := hholds.rowCount
  have hdecode : t.decodeRow stringCross.rightLayout 0 = [.stringRef bytes] :=
    (hholds.row 0 _ rfl).decodeRow
  have hbytes : rowHeapBytes (t.decodeRow stringCross.rightLayout 0) = 98305 := by
    rw [hdecode, rowHeapBytes, List.map_singleton, List.sum_singleton, valueHeapBytes, h]
    rfl
  have hrequired : requiredHeapBytesForRow stringCross.rightLayout t 0 = 98305 := by
    rw [requiredHeapBytesForRow_eq, hbytes]
    rfl
  have hstart : (system stringCross [t]).Reachable start := .initial start_initial
  have hacquire : combine stringCross t 0 start = some (.ok (holding start.view start.rowIdx)) := by
    unfold combine
    rw [hcount]
    rfl
  have hacquired := reachable_next hstart rfl hacquire
  let grown := Function.update start.view 0 (some (emptyStore 2048 1146880))
  have hneeds : tdcNeedsGrowForStoredRow stringCross.rightLayout (emptyStore 1024 98304) t 0 =
      true := by
    unfold tdcNeedsGrowForStoredRow
    rw [hrequired]
    rfl
  have hgrow : combineRow stringCross t 0 (holding start.view start.rowIdx) =
      .ok (holding grown start.rowIdx) := if_pos hneeds
  have hgrown := reachable_next hacquired rfl (congrArg some hgrow)
  have hspace : tdcNeedsGrowForStoredRow stringCross.rightLayout (emptyStore 2048 1146880) t 0 =
      false := by
    unfold tdcNeedsGrowForStoredRow
    rw [hrequired]
    rfl
  have hroom : TupleDataCollection.heapUsed { emptyStore 2048 1146880 with rowCount := 1 } +
      rowHeapBytes (t.decodeRow stringCross.rightLayout 0) ≤ 1146880 := by
    rw [hbytes]
    decide
  obtain ⟨own, hcopy⟩ := copyBuildRow_of_fits hroom
  let done := holding (Function.update grown 0 (some own)) (Function.update start.rowIdx 0 1)
  have happend : combineRow stringCross t 0 (holding grown start.rowIdx) = .ok done := by
    have hcopied : copyBuildRow stringCross.rightLayout t 0
        { emptyStore 2048 1146880 with rowCount := 1 } 0 = .ok own := by
      unfold copyBuildRow
      rw [hcopy]
      rfl
    unfold combineRow
    show (if tdcNeedsGrowForStoredRow stringCross.rightLayout (emptyStore 2048 1146880) t 0 = true
      then _ else copyBuildRow stringCross.rightLayout t 0
        { emptyStore 2048 1146880 with rowCount := 1 } 0 >>= _) = _
    rw [hspace, if_neg (by decide), hcopied]
    rfl
  have happended := reachable_next hgrown rfl (congrArg some happend)
  have hrelease : combine stringCross t 0 done = some (.ok { done with mutex := none }) := rfl
  have hreleased := reachable_next happended rfl hrelease
  have hfinish : combine stringCross t 0 { done with mutex := none } = some (.ok { done with
      mutex := none
      finished := Function.update done.finished 0 true }) := by
    unfold combine
    rw [hcount]
    rfl
  have hfinished := reachable_next hreleased rfl hfinish
  refine ⟨t, _, ht, hfinished, completed_of_finished rfl, fun hcomplete => ?_⟩
  have hfits := fits_of_completeOrError (.cons ht .nil) hfinished (completed_of_finished rfl)
    hcomplete
  have hsum : (List.map rowHeapBytes [[Datum.stringRef bytes]]).sum ≤ 98304 := hfits.2
  rw [List.map_singleton, List.sum_singleton, ← hdecode, hbytes] at hsum
  omega

end LongString

/-- **The claim fails**: a string of 98305 bytes is lost. -/
theorem not_completeOrError : ¬ ∀ (desc : CrossProductDesc) (buildChunks : List (List DataChunk))
    (locals : List TupleDataCollection) (s : CombineState),
    List.Forall₂ (fun chunks t => sinkChunks desc chunks = .ok t) buildChunks locals →
    (system desc locals).Reachable s → Completed locals s →
    CompleteOrError desc buildChunks s := by
  intro h
  obtain ⟨t, s, hsunk, hreach, hdone, hnot⟩ :=
    exists_incomplete (List.length_replicate : (List.replicate 98305 (0 : UInt8)).length = _)
  exact hnot (h _ _ _ _ (.cons hsunk .nil) hreach hdone)

end Result

end CrossProduct
end PgYaap
