import Mathlib

/-! # Resumable operators over chunks

An operator reads one input chunk and answers in pieces: a reading either fills
an output chunk and keeps a cursor to resume from, or exhausts the input and
starts afresh. What it makes of an input chunk is then a list of output chunks,
and a list of operators turns a chunk into rows by composing those lists. -/

universe u v

/-- Parts of a concatenation that are each contained in their counterparts. -/
theorem List.append_eq_append_iff_of_sublist {α : Type} {s s' t t' : List α} (h : s.Sublist t)
    (h' : s'.Sublist t') : s ++ s' = t ++ t' ↔ s = t ∧ s' = t' := by
  constructor
  · intro heq
    have hlen := congrArg List.length heq
    rw [List.length_append, List.length_append] at hlen
    have hle := h.length_le
    have hle' := h'.length_le
    exact ⟨h.eq_of_length (by omega), h'.eq_of_length (by omega)⟩
  · rintro ⟨rfl, rfl⟩
    rfl

theorem List.flatMap_eq_iff_of_sublist {α β : Type} {f g : α → List β} {l : List α}
    (h : ∀ a ∈ l, (f a).Sublist (g a)) : l.flatMap f = l.flatMap g ↔ ∀ a ∈ l, f a = g a := by
  induction l with
  | nil => simp
  | cons a l ih =>
    have htail : ∀ b ∈ l, (f b).Sublist (g b) := fun b hb => h b (List.mem_cons_of_mem _ hb)
    rw [List.flatMap_cons, List.flatMap_cons, List.append_eq_append_iff_of_sublist
      (h a List.mem_cons_self) (List.Sublist.flatMap_right _ htail), ih htail, List.forall_mem_cons]

/-- What one reading of the input answers: a full output chunk and the cursor to
resume from, or the last rows for this input. -/
inductive Reading (σ : Type u) (Row : Type v)
  | full (rows : List Row) (cursor : σ)
  | exhausted (rows : List Row)
deriving DecidableEq

/-- A resumable operator. A reading that stops early has produced rows and has
come closer to the end of its input; an empty input is exhausted at once. -/
structure StreamingOperator (σ : Type u) (Row : Type v) where
  init : σ
  read : σ → List Row → Reading σ Row
  remaining : σ → List Row → Nat
  read_nil : ∀ c, read c [] = .exhausted []
  full_rows : ∀ {c X rows c'}, read c X = .full rows c' → rows ≠ []
  full_remaining : ∀ {c X rows c'}, read c X = .full rows c' → remaining c' X < remaining c X

namespace StreamingOperator
variable {σ : Type u} {Row : Type v} (op : StreamingOperator σ Row)

/-- The output chunks of at most `fuel` readings of `X` from a cursor. -/
def outputsFrom : Nat → σ → List Row → List (List Row)
  | 0, _, _ => []
  | fuel + 1, c, X =>
    match op.read c X with
    | .full rows c' => rows :: outputsFrom fuel c' X
    | .exhausted rows => if rows.isEmpty then [] else [rows]

/-- The full output of an operator for an input chunk, chunk by chunk. -/
def outputs (X : List Row) : List (List Row) := op.outputsFrom (op.remaining op.init X + 1) op.init X

theorem outputsFrom_full {fuel : Nat} {c c' : σ} {X rows : List Row}
    (h : op.read c X = .full rows c') :
    op.outputsFrom (fuel + 1) c X = rows :: op.outputsFrom fuel c' X := by
  rw [outputsFrom, h]

theorem outputsFrom_exhausted {fuel : Nat} {c : σ} {X rows : List Row}
    (h : op.read c X = .exhausted rows) :
    op.outputsFrom (fuel + 1) c X = if rows.isEmpty then [] else [rows] := by
  rw [outputsFrom, h]

/-- The rows a list of operators makes of a chunk. -/
def composed : List (StreamingOperator σ Row) → List Row → List Row
  | [], X => X
  | op :: rest, X => (op.outputs X).flatMap (composed rest)

end StreamingOperator

/-- A fuelled computation arrives at `r`: with enough fuel it answers `r`. -/
def Arrives {α : Type u} (f : Nat → Option α) (r : α) : Prop := ∃ N, ∀ n, N ≤ n → f n = some r

namespace Arrives
variable {α : Type u} {β : Type v} {f : Nat → Option α} {r r' : α}

theorem unique (h : Arrives f r) (h' : Arrives f r') : r = r' := by
  obtain ⟨N, hN⟩ := h
  obtain ⟨N', hN'⟩ := h'
  have h1 := hN (max N N') (le_max_left _ _)
  have h2 := hN' (max N N') (le_max_right _ _)
  exact Option.some.inj (h1.symm.trans h2)

theorem pure (a : α) : Arrives (fun _ => some a) a := ⟨0, fun _ _ => rfl⟩

/-- What arrives one unit of fuel later arrives. -/
theorem of_succ (h : Arrives (fun n => f (n + 1)) r) : Arrives f r := by
  obtain ⟨N, hN⟩ := h
  refine ⟨N + 1, fun n hn => ?_⟩
  obtain ⟨k, rfl⟩ := Nat.exists_eq_add_of_le' (show 1 ≤ n by omega)
  exact hN k (by omega)

/-- Two computations on the same fuel, one after the other. -/
theorem bind {g : Nat → α → Option β} {b : β} (h : Arrives f r) (hg : Arrives (fun n => g n r) b) :
    Arrives (fun n => (f n).bind (g n)) b := by
  obtain ⟨N, hN⟩ := h
  obtain ⟨M, hM⟩ := hg
  refine ⟨max N M, fun n hn => ?_⟩
  change (f n).bind (g n) = some b
  rw [hN n (le_trans (le_max_left _ _) hn), Option.bind_some]
  exact hM n (le_trans (le_max_right _ _) hn)

end Arrives
