import Mathlib

/-! # Chains of links

A chain starts at a head link and follows a next function until it reaches the
null link. Chains are determined by their head, so a chain that ends visits no
node twice; prepending a fresh node is a store to its own next link. -/

universe u

/-- `LinkedChain null next head l`: following `next` from `head` visits exactly the
nodes of `l`, in order, and then arrives at `null`. -/
inductive LinkedChain {α : Type u} (null : α) (next : α → α) : α → List α → Prop
  | nil : LinkedChain null next null []
  | cons {a l} (hne : a ≠ null) (hl : LinkedChain null next (next a) l) :
      LinkedChain null next a (a :: l)

namespace LinkedChain
variable {α : Type u} {null : α} {next next' : α → α} {head : α} {l l' : List α}

theorem eq_nil (h : LinkedChain null next null l) : l = [] := by
  cases h with
  | nil => rfl
  | cons hne _ => exact absurd rfl hne

theorem head_eq {a : α} (h : LinkedChain null next head (a :: l)) : head = a := by
  cases h; rfl

theorem tail {a : α} (h : LinkedChain null next head (a :: l)) : LinkedChain null next (next a) l := by
  cases h with
  | cons _ hl => exact hl

/-- A head has one chain. -/
theorem unique (h : LinkedChain null next head l) (h' : LinkedChain null next head l') : l = l' := by
  induction h generalizing l' with
  | nil => exact h'.eq_nil.symm
  | cons hne _ ih =>
    cases h' with
    | nil => exact absurd rfl hne
    | cons _ hl' => rw [ih hl']

/-- From every node of a chain the rest of the chain is a chain. -/
theorem suffix (h : LinkedChain null next head l) {a : α} (ha : a ∈ l) :
    ∃ r, LinkedChain null next a (a :: r) ∧ r.length < l.length := by
  induction h with
  | nil => cases ha
  | @cons b l hne hl ih =>
    rcases List.mem_cons.mp ha with rfl | ha
    · exact ⟨l, .cons hne hl, by simp⟩
    · obtain ⟨r, hr, hlt⟩ := ih ha
      exact ⟨r, hr, by rw [List.length_cons]; omega⟩

/-- **A chain that ends has no cycle.** -/
theorem nodup (h : LinkedChain null next head l) : l.Nodup := by
  induction h with
  | nil => exact List.nodup_nil
  | @cons a l hne hl ih =>
    refine List.nodup_cons.mpr ⟨fun ha => ?_, ih⟩
    -- a second visit would start a shorter chain at the same link
    obtain ⟨r, hr, hlt⟩ := hl.suffix ha
    have hsame : a :: l = a :: r := unique (.cons hne hl) hr
    have hlen := congrArg List.length hsame
    simp only [List.length_cons] at hlen
    omega

/-- A chain only depends on the links of its own nodes. -/
theorem congr (h : LinkedChain null next head l) (heq : ∀ a ∈ l, next' a = next a) :
    LinkedChain null next' head l := by
  induction h with
  | nil => exact .nil
  | @cons a l hne _ ih =>
    refine .cons hne ?_
    rw [heq a List.mem_cons_self]
    exact ih fun b hb => heq b (List.mem_cons_of_mem _ hb)

variable [DecidableEq α]

/-- Storing the old head as the next link of a fresh node and entering at that
node extends the chain by it. -/
theorem push (h : LinkedChain null next head l) {a : α} (hne : a ≠ null) (ha : a ∉ l) :
    LinkedChain null (Function.update next a head) a (a :: l) := by
  refine .cons hne ?_
  rw [Function.update_self]
  refine h.congr fun b hb => Function.update_of_ne ?_ _ _
  rintro rfl
  exact ha hb

/-- Storing the link of a node outside a chain leaves the chain alone. -/
theorem update (h : LinkedChain null next head l) {a v : α} (ha : a ∉ l) :
    LinkedChain null (Function.update next a v) head l := by
  refine h.congr fun b hb => Function.update_of_ne ?_ _ _
  rintro rfl
  exact ha hb

end LinkedChain
