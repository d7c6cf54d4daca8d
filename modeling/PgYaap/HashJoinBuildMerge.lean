import Mathlib
import PgYaap.HashJoinBuildTables

/-! # The merged build tables

Sinking and appending keep the rows: a table that grows still decodes to the same
rows, and a row that is appended decodes to the values it had. Where the payload
rows use the key table, the branch of `Combine` for string keys appends every row
to it twice. -/
namespace PgYaap
namespace HashJoinBuild
open HashJoinProbe TupleDataCollection

/-! ## Growing -/

section Grow
variable {layout : TupleDataLayout} {old new t t' : TupleDataCollection} {rows : List (List Datum)}

theorem bind_eq_ok {α β ε : Type} {x : Except ε α} {f : α → Except ε β} {b : β}
    (h : (x >>= f) = .ok b) : ∃ a, x = .ok a ∧ f a = .ok b := by
  cases x with
  | error e => cases h
  | ok a => exact ⟨a, rfl, h⟩

theorem appendRow_rowCount {r : Nat} (h : t.appendRow = some (t', r)) :
    t'.rowCount = t.rowCount + 1 := by
  unfold appendRow at h
  split at h
  · cases h
  · rw [Option.some.injEq, Prod.mk.injEq] at h
    rw [← h.1]

theorem copyBuildColumn_rowCount {src : TupleDataCollection} {srcRow dstRow : Nat}
    {col : TdcPlacedColumn} (h : copyBuildColumn src srcRow dstRow t col = .ok t') :
    t'.rowCount = t.rowCount := by
  unfold copyBuildColumn at h
  split at h
  · rw [← Except.ok.inj h]
    rfl
  · split at h
    · cases h
    · rename_i mid ref hstore
      rw [← Except.ok.inj h]
      change mid.rowCount = t.rowCount
      unfold storeStringBytes at hstore
      dsimp only at hstore
      split at hstore
      · rw [Option.some.injEq, Prod.mk.injEq] at hstore
        rw [← hstore.1]
      · split at hstore
        · rw [Option.some.injEq, Prod.mk.injEq] at hstore
          rw [← hstore.1]
        · split at hstore
          · cases hstore
          · rw [Option.some.injEq, Prod.mk.injEq] at hstore
            rw [← hstore.1]

/-- What every turn of a loop keeps, the loop keeps. -/
theorem foldlM_keeps {α β ε γ : Type} {f : β → α → Except ε β} {g : β → γ}
    (hf : ∀ b a b', f b a = .ok b' → g b' = g b) {l : List α} {b b' : β}
    (h : l.foldlM f b = .ok b') : g b' = g b := by
  induction l generalizing b with
  | nil => rw [← Except.ok.inj h]
  | cons a l ih =>
    rw [List.foldlM_cons] at h
    obtain ⟨mid, hmid, hrest⟩ := bind_eq_ok h
    rw [ih hrest, hf b a mid hmid]

theorem copyBuildRow_rowCount {src : TupleDataCollection} {srcRow dstRow : Nat}
    (h : copyBuildRow layout src srcRow t dstRow = .ok t') : t'.rowCount = t.rowCount :=
  foldlM_keeps (fun _ _ _ hstep => copyBuildColumn_rowCount hstep) h

/-- The last turn of a loop over a range. -/
theorem foldlM_range_succ {β ε : Type} {f : β → Nat → Except ε β} {k : Nat} {b b' : β}
    (h : (List.range (k + 1)).foldlM f b = .ok b') :
    ∃ mid, (List.range k).foldlM f b = .ok mid ∧ f mid k = .ok b' := by
  rw [List.range_succ, List.foldlM_append] at h
  obtain ⟨mid, hmid, hlast⟩ := bind_eq_ok h
  rw [List.foldlM_cons] at hlast
  obtain ⟨last, hturn, hpure⟩ := bind_eq_ok hlast
  rw [← Except.ok.inj hpure]
  exact ⟨mid, hmid, hturn⟩

/-- The loop of `GrowJoinTdc` counts its rows. -/
theorem growCopyRows_rowCount (k : Nat)
    (h : (List.range k).foldlM (growCopyRow layout old) new = .ok t) :
    t.rowCount = new.rowCount + k := by
  induction k generalizing t with
  | zero => rw [← Except.ok.inj h]; rfl
  | succ k ih =>
    obtain ⟨mid, hmid, hstep⟩ := foldlM_range_succ h
    unfold growCopyRow at hstep
    split at hstep
    · cases hstep
    · rename_i mid' dst happ
      rw [copyBuildRow_rowCount hstep, appendRow_rowCount happ, ih hmid, Nat.add_assoc]

/-- The loop of `GrowJoinTdc` copies the rows. -/
theorem growCopyRows_holds (hnew : Holds layout new []) (k : Nat)
    (h : (List.range k).foldlM (growCopyRow layout old) new = .ok t) :
    Holds layout t ((List.range k).map (old.decodeRow layout)) := by
  induction k generalizing t with
  | zero =>
    rw [← Except.ok.inj h]
    exact hnew
  | succ k ih =>
    obtain ⟨mid, hmid, hstep⟩ := foldlM_range_succ h
    unfold growCopyRow at hstep
    split at hstep
    · cases hstep
    · rename_i mid' dst happ
      rw [List.range_succ, List.map_append]
      exact (ih hmid).append_copy happ hstep

theorem growHeapCapacity_lt {newRowCapacity required heapCapacity : Nat}
    (h : growHeapCapacity layout old newRowCapacity required = .ok heapCapacity) :
    heapCapacity < 2 ^ 32 := by
  have hmax : uint32Max < 2 ^ 32 := by decide
  unfold growHeapCapacity at h
  split at h
  · obtain ⟨u, _, hpure⟩ := bind_eq_ok h
    rw [← Except.ok.inj hpure, defaultHeapCapacity]
    exact Nat.lt_of_le_of_lt (Nat.min_le_right _ _) hmax
  · dsimp only at h
    split at h
    · cases h
    · split at h
      · cases h
      · rw [← Except.ok.inj h]
        exact Nat.lt_of_le_of_lt (Nat.min_le_right _ _) hmax

/-- **`GrowJoinTdc`** keeps the rows. -/
theorem growJoinTdc_holds {required : Nat} (hold : Holds layout old rows)
    (h : growJoinTdc layout old required = .ok t) : Holds layout t rows := by
  unfold growJoinTdc at h
  obtain ⟨newCapacity, _, h⟩ := bind_eq_ok h
  obtain ⟨heapCapacity, hheap, h⟩ := bind_eq_ok h
  obtain ⟨new, hnew, h⟩ := bind_eq_ok h
  have hcopied := growCopyRows_holds (allocate_holds (growHeapCapacity_lt hheap) hnew).1 _ h
  rw [← hold.storedRows]
  exact hcopied

theorem growJoinTdc_rowCount {required : Nat} (h : growJoinTdc layout old required = .ok t) :
    t.rowCount = old.rowCount := by
  unfold growJoinTdc at h
  obtain ⟨newCapacity, _, h⟩ := bind_eq_ok h
  obtain ⟨heapCapacity, _, h⟩ := bind_eq_ok h
  obtain ⟨new, hnew, h⟩ := bind_eq_ok h
  have hzero : new.rowCount = 0 := by
    unfold allocate at hnew
    obtain ⟨u, _, hpure⟩ := bind_eq_ok hnew
    rw [← Except.ok.inj hpure]
  rw [growCopyRows_rowCount _ h, hzero, Nat.zero_add]

theorem growUnless_holds {hasSpace : Bool} {required : Nat} (hold : Holds layout old rows)
    (h : growUnless hasSpace layout old required = .ok t) : Holds layout t rows := by
  unfold growUnless at h
  split at h
  · rw [← Except.ok.inj h]
    exact hold
  · exact growJoinTdc_holds hold h

theorem growUnless_rowCount {hasSpace : Bool} {required : Nat}
    (h : growUnless hasSpace layout old required = .ok t) : t.rowCount = old.rowCount := by
  unfold growUnless at h
  split at h
  · rw [← Except.ok.inj h]
  · exact growJoinTdc_rowCount h

end Grow

/-! ## Sinking -/

/-- The two tables hold rows under their layouts; a payload that uses the keys has
no table. -/
structure TablesHold (desc : HashJoinBuildDesc) (t : BuildTables) (keys rows : List (List Datum)) :
    Prop where
  keys : Holds desc.buildKeyLayout t.buildKeys keys
  rows : desc.buildRowsUseKeys = false → Holds desc.buildLayout t.ownRows rows

section Sink
variable {desc : HashJoinBuildDesc} {chunk : DataChunk} {rowIdx : Nat} {t t' : BuildTables}
  {keys rows : List (List Datum)}

theorem ensureJoinLocalCapacity_holds (h : TablesHold desc t keys rows) (fuel : Nat)
    (hok : ensureJoinLocalCapacity desc chunk rowIdx fuel t = some (.ok t')) :
    TablesHold desc t' keys rows := by
  induction fuel generalizing t with
  | zero => cases hok
  | succ fuel ih =>
    rw [ensureJoinLocalCapacity] at hok
    split at hok
    · split at hok
      · cases hok
      · rename_i mid hgrow
        refine ih ?_ hok
        unfold growLocal at hgrow
        obtain ⟨k, hk, hgrow⟩ := bind_eq_ok hgrow
        obtain ⟨r, hr, hgrow⟩ := bind_eq_ok hgrow
        obtain rfl := Except.ok.inj hgrow
        exact ⟨growUnless_holds h.keys hk, fun huse => growUnless_holds (h.rows huse) hr⟩
    · rw [Option.some.injEq, Except.ok.injEq] at hok
      rw [← hok]
      exact h

/-- **`SinkChunk`, one row**: the tables hold one more row, with the values the chunk
has in the columns of the layouts. -/
theorem sinkRow_holds (h : TablesHold desc t keys rows) {fuel : Nat}
    (hok : sinkRow desc chunk rowIdx fuel t = some (.ok t')) :
    TablesHold desc t' (keys ++ [scatterGroupColumns desc.buildKeyLayout.descs chunk rowIdx])
      (rows ++ [scatterGroupColumns desc.buildLayout.descs chunk rowIdx]) := by
  unfold sinkRow at hok
  obtain ⟨r, hensure, hbind⟩ := Option.map_eq_some_iff.mp hok
  obtain ⟨mid, rfl, happend⟩ := bind_eq_ok hbind
  have hmid := ensureJoinLocalCapacity_holds h fuel hensure
  unfold appendChunkRow at happend
  split at happend
  · cases happend
  · rename_i k keyRow hkey
    split at happend
    · rename_i huse
      obtain ⟨k', hk', happend⟩ := bind_eq_ok happend
      obtain rfl := Except.ok.inj happend
      exact ⟨hmid.keys.append_scatter hkey hk', fun hnot => by rw [huse] at hnot; cases hnot⟩
    · rename_i huse
      split at happend
      · cases happend
      · rename_i r row hrow
        obtain ⟨k', hk', happend⟩ := bind_eq_ok happend
        obtain ⟨r', hr', happend⟩ := bind_eq_ok happend
        obtain rfl := Except.ok.inj happend
        exact ⟨hmid.keys.append_scatter hkey hk', fun hnot =>
          (hmid.rows hnot).append_scatter hrow hr'⟩

end Sink
end HashJoinBuild
end PgYaap
