import Mathlib

/-! # Joins by nested loops

The joins of two lists under an arbitrary match relation, row by row of the left
side, and when two ways to find the matches of the rows give the same join as a
multiset. -/

universe u v

inductive JoinMode
  | inner
  | semi
  | anti
  | left
deriving DecidableEq

namespace JoinMode

/-- Whether a mode pairs a left row with its matches, or only asks for one. -/
def pairs : JoinMode → Bool
  | .inner | .left => true
  | .semi | .anti => false

end JoinMode

namespace RelationalJoin
variable {α : Type u} {β : Type v}

/-- What a left row with the given matches contributes. -/
def joinRow (mode : JoinMode) (a : α) (found : List β) : List (α × Option β) :=
  match mode with
  | .inner => found.map fun b => (a, some b)
  | .left => if found.isEmpty then [(a, none)] else found.map fun b => (a, some b)
  | .semi => if found.isEmpty then [] else [(a, none)]
  | .anti => if found.isEmpty then [(a, none)] else []

/-- The join of `l` and `r` under a match relation. -/
def join (mode : JoinMode) (p : α → β → Bool) (l : List α) (r : List β) : List (α × Option β) :=
  l.flatMap fun a => joinRow mode a (r.filter (p a))

/-- What of the matches of a row the join depends on. -/
def SameMatches (mode : JoinMode) (found found' : List β) : Prop :=
  if mode.pairs then found.Perm found' else found = [] ↔ found' = []

theorem fst_of_mem_joinRow {mode : JoinMode} {a : α} {found : List β} {x : α × Option β}
    (h : x ∈ joinRow mode a found) : x.1 = a := by
  have hmap : ∀ (l : List β), x ∈ l.map (fun b => (a, some b)) → x.1 = a := by
    intro l hl
    obtain ⟨b, _, rfl⟩ := List.mem_map.mp hl
    rfl
  cases mode with
  | inner => exact hmap found h
  | left =>
    unfold joinRow at h
    dsimp only at h
    split at h
    · rw [List.mem_singleton.mp h]
    · exact hmap found h
  | semi =>
    unfold joinRow at h
    dsimp only at h
    split at h
    · cases h
    · rw [List.mem_singleton.mp h]
  | anti =>
    unfold joinRow at h
    dsimp only at h
    split at h
    · rw [List.mem_singleton.mp h]
    · cases h

/-- The rows of a pairing mode determine the matches. -/
theorem map_some_perm_iff {a : α} {found found' : List β} :
    (found.map fun b => (a, some b)).Perm (found'.map fun b => (a, some b)) ↔ found.Perm found' := by
  constructor
  · intro h
    have hproj := h.filterMap Prod.snd
    simpa [List.filterMap_map, Function.comp_def] using hproj
  · intro h
    exact h.map _

theorem joinRow_perm_iff {mode : JoinMode} {a : α} {found found' : List β} :
    (joinRow mode a found).Perm (joinRow mode a found') ↔ SameMatches mode found found' := by
  cases mode with
  | inner => exact map_some_perm_iff
  | left =>
    show List.Perm (if found.isEmpty then _ else _) (if found'.isEmpty then _ else _) ↔ found.Perm found'
    cases found with
    | nil =>
      cases found' with
      | nil => simp
      | cons b l =>
        simp only [List.isEmpty_nil, if_true, List.isEmpty_cons, Bool.false_eq_true, if_false,
          List.nil_perm, reduceCtorEq, iff_false]
        intro h
        have hmem := h.mem_iff.mp (List.mem_singleton_self (a, none))
        obtain ⟨_, _, hb⟩ := List.mem_map.mp hmem
        cases hb
    | cons b l =>
      cases found' with
      | nil =>
        simp only [List.isEmpty_nil, if_true, List.isEmpty_cons, Bool.false_eq_true, if_false,
          List.perm_nil, reduceCtorEq, iff_false]
        intro h
        have hmem := h.mem_iff.mpr (List.mem_singleton_self (a, none))
        obtain ⟨_, _, hb⟩ := List.mem_map.mp hmem
        cases hb
      | cons b' l' =>
        simp only [List.isEmpty_cons, Bool.false_eq_true, if_false]
        exact map_some_perm_iff
  | semi =>
    show List.Perm (if found.isEmpty then _ else _) (if found'.isEmpty then _ else _) ↔
      (found = [] ↔ found' = [])
    cases found <;> cases found' <;> simp
  | anti =>
    show List.Perm (if found.isEmpty then _ else _) (if found'.isEmpty then _ else _) ↔
      (found = [] ↔ found' = [])
    cases found <;> cases found' <;> simp

/-- Rows tagged by distinct keys: the parts of a concatenation can be told apart. -/
theorem flatMap_perm_iff {γ : Type v} {l : List α} (hl : l.Nodup) {f g : α → List (α × γ)}
    (hf : ∀ a, ∀ x ∈ f a, x.1 = a) (hg : ∀ a, ∀ x ∈ g a, x.1 = a) :
    (l.flatMap f).Perm (l.flatMap g) ↔ ∀ a ∈ l, (f a).Perm (g a) := by
  classical
  constructor
  · intro h a ha
    have hpart : ∀ (k : α → List (α × γ)), (∀ a, ∀ x ∈ k a, x.1 = a) →
        (l.flatMap k).filter (fun x => x.1 = a) = k a := by
      intro k hk
      clear h
      induction l with
      | nil => cases ha
      | cons b l ih =>
        rw [List.flatMap_cons, List.filter_append]
        obtain ⟨hb, hl'⟩ := List.nodup_cons.mp hl
        by_cases hba : b = a
        · subst hba
          have hself : (k b).filter (fun x => x.1 = b) = k b :=
            List.filter_eq_self.mpr fun x hx => by simpa using hk b x hx
          have hrest : (l.flatMap k).filter (fun x => x.1 = b) = [] := by
            refine List.filter_eq_nil_iff.mpr fun x hx => ?_
            obtain ⟨c, hc, hxc⟩ := List.mem_flatMap.mp hx
            simp only [decide_eq_true_eq]
            rintro rfl
            rw [hk c x hxc] at hb
            exact hb hc
          rw [hself, hrest, List.append_nil]
        · have hnone : (k b).filter (fun x => x.1 = a) = [] := by
            refine List.filter_eq_nil_iff.mpr fun x hx => ?_
            simp only [decide_eq_true_eq]
            rw [hk b x hx]
            exact hba
          have hal : a ∈ l := (List.mem_cons.mp ha).resolve_left fun h => hba h.symm
          rw [hnone, List.nil_append]
          exact ih hl' hal
    have hfilter := h.filter (fun x => x.1 = a)
    rwa [hpart f hf, hpart g hg] at hfilter
  · intro h
    exact List.Perm.flatMap_left l h

/-- **When two ways of matching give the same join**: exactly when they agree, row
by row, on what the mode depends on. -/
theorem join_perm_iff {mode : JoinMode} {l : List α} (hl : l.Nodup) {m m' : α → List β} :
    (l.flatMap fun a => joinRow mode a (m a)).Perm (l.flatMap fun a => joinRow mode a (m' a)) ↔
      ∀ a ∈ l, SameMatches mode (m a) (m' a) := by
  rw [flatMap_perm_iff hl (fun a x => fst_of_mem_joinRow) fun a x => fst_of_mem_joinRow]
  constructor
  · intro h a ha
    exact joinRow_perm_iff.mp (h a ha)
  · intro h a ha
    exact joinRow_perm_iff.mpr (h a ha)

end RelationalJoin
