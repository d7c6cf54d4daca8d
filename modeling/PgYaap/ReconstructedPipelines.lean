import PgYaap.PipelineCopies

/-! # Pipelines of the workers

The leader writes the operators of a pipeline into an array of descriptors, in the order of their
places. A worker reads the same operators in the same places, however much is written to shared
memory in between, and depends on the same pipelines. -/
namespace PgYaap
namespace PipelineDescriptors

/-! ## Writing -/

/-- The array of descriptors that comes after `before` is written for `addresses`; `rest`
descriptors are still to come. -/
structure Writing (operators : Nat → Operator) (before : List (List OpDescriptor))
    (pipelines : List (List PipelineDescriptor)) (s : Leader) (addresses : List Nat) (rest : Nat) :
    Prop where
  ops : ∃ written, s.dsa.ops = before ++ [written ++ List.replicate rest .zero] ∧
    List.Forall₂ (fun d a => Describes s.dsa d (operators a).params) written addresses
  pipelines : s.dsa.pipelines = pipelines
  params : ∀ a, (s.operators a).params = (operators a).params

theorem modify_at {α : Type} (before after : List α) (a : α) (f : α → α) :
    (before ++ a :: after).modify before.length f = before ++ f a :: after := by
  induction before with
  | nil => rfl
  | cons b bs ih => rw [List.cons_append, List.length_cons, List.modify_succ_cons, ih]; rfl

/-- A descriptor of the last array is written. -/
theorem updateDescriptor_last {dsa : Dsa} {before : List (List OpDescriptor)}
    {written after : List OpDescriptor} {d₀ : OpDescriptor}
    (h : dsa.ops = before ++ [written ++ d₀ :: after]) (f : OpDescriptor → OpDescriptor) :
    (dsa.updateDescriptor ⟨before.length + 1, written.length⟩ f).ops =
      before ++ [written ++ f d₀ :: after] := by
  rw [Dsa.updateDescriptor, h]
  show List.modify (before ++ [written ++ d₀ :: after]) before.length _ = _
  rw [modify_at]
  show before ++ [List.modify (written ++ d₀ :: after) written.length f] = _
  rw [modify_at]

section Writing

variable {operators : Nat → Operator} {before : List (List OpDescriptor)}
  {pipelines : List (List PipelineDescriptor)} {s : Leader} {addresses : List Nat} {rest : Nat}

theorem params_emitAt (slot : Slot) (address : Nat) (s : Leader) (a : Nat) :
    ((emitAt slot address s).operators a).params = (s.operators a).params := by
  simp only [emitAt]
  split
  · by_cases ha : a = address
    · rw [ha, Function.update_self]
      rfl
    · rw [Function.update_of_ne ha]
  · rfl

/-- **One more operator is written.** -/
theorem Writing.emitAt (h : Writing operators before pipelines s addresses (rest + 1))
    (address : Nat) :
    Writing operators before pipelines
      (PipelineDescriptors.emitAt ⟨before.length + 1, addresses.length⟩ address s)
      (addresses ++ [address]) rest := by
  obtain ⟨written, hops, hwritten⟩ := h.ops
  obtain ⟨hgrown, hdescribes⟩ := emit_spec (s.operators address).params s.dsa
  refine ⟨⟨written ++ [(emit (s.operators address).params s.dsa).1], ?_, ?_⟩,
    hgrown.pipelines.trans h.pipelines, fun a => (params_emitAt _ _ _ a).trans (h.params a)⟩
  · have hnext : (emit (s.operators address).params s.dsa).2.ops =
        before ++ [written ++ .zero :: List.replicate rest .zero] := hgrown.ops.trans hops
    rw [← hwritten.length_eq, List.append_assoc, List.singleton_append]
    exact updateDescriptor_last hnext _
  · -- what was written before is read as before
    refine List.rel_append (hwritten.imp fun d a hd => hd.later hgrown.arrays) (.cons ?_ .nil)
    rw [← h.params address]
    exact hdescribes

theorem emitRole_ok {role : String} {supported : PhysicalOperator → Bool} {slot : Slot}
    {address : Nat} {s : Leader} (h : supported (s.operators address).params = true) :
    emitRole role supported slot address s = .ok (emitAt slot address s) := if_pos h

theorem Writing.emitMids {mids : List Nat}
    (h : Writing operators before pipelines s addresses (mids.length + rest))
    (hmids : ∀ a ∈ mids, isMid (operators a).params = true) :
    ∃ s', emitMids (before.length + 1) addresses.length mids s = .ok s' ∧
      Writing operators before pipelines s' (addresses ++ mids) rest := by
  induction mids generalizing s addresses with
  | nil => exact ⟨s, rfl, by simpa using h⟩
  | cons mid mids ih =>
    have hmid : isMid (s.operators mid).params = true := by
      rw [h.params]
      exact hmids mid List.mem_cons_self
    rw [List.length_cons, Nat.add_right_comm] at h
    obtain ⟨s', hs', hwriting⟩ := ih (h.emitAt mid) fun a ha =>
      hmids a (List.mem_cons_of_mem _ ha)
    rw [List.length_append] at hs'
    refine ⟨s', ?_, ?_⟩
    · rw [PipelineDescriptors.emitMids, emitRole_ok hmid]
      exact hs'
    · rwa [List.append_assoc] at hwriting

end Writing

/-- Every operator of the pipeline can stand where it stands. -/
def Supported (operators : Nat → Operator) (p : Pipeline) : Prop :=
  isSource (operators p.source).params = true ∧
    (∀ a ∈ p.ops, isMid (operators a).params = true) ∧ isSink (operators p.sink).params = true

/-- The descriptor of a pipeline whose operators have their descriptors at `ops`. -/
def descriptorOf (p : Pipeline) (ops : DsaPointer) : PipelineDescriptor :=
  { pipelineId := p.id
    opCount := 2 + p.ops.length
    dependencyMask := dependencyMask p.dependsOn
    ops
    globalSourceState := invalidDsaPointer
    globalSinkState := invalidDsaPointer
    taskSlotNext := 0 }

/-- **A pipeline is written**: its descriptor to the place of its id, its operators to an array of
their own. -/
theorem serializePipeline_spec {s₀ : Leader} {p : Pipeline} {root : DsaPointer}
    {pds : List PipelineDescriptor} (hsupported : Supported s₀.operators p)
    (hroot : deref s₀.dsa.pipelines root = some pds) (hid : p.id.toNat < pds.length) :
    ∃ s, serializePipeline root p s₀ = .ok s ∧
      Writing s₀.operators s₀.dsa.ops (s₀.dsa.pipelines.set (root - 1)
        (pds.set p.id.toNat (descriptorOf p (s₀.dsa.ops.length + 1)))) s p.operators 0 := by
  obtain ⟨hsource, hmids, hsink⟩ := hsupported
  obtain ⟨pipelines, hpipelines⟩ : ∃ pipelines, pipelines = s₀.dsa.pipelines.set (root - 1)
    (pds.set p.id.toNat (descriptorOf p (s₀.dsa.ops.length + 1))) := ⟨_, rfl⟩
  obtain ⟨s₁, hs₁⟩ : ∃ s₁ : Leader, s₁ = { s₀ with dsa :=
      { s₀.dsa with
        ops := s₀.dsa.ops ++ [List.replicate (2 + p.ops.length) .zero]
        pipelines } } := ⟨_, rfl⟩
  have hwrite : writePipeline (s₀.dsa.allocateOps (2 + p.ops.length)).2 root p.id.toNat
      (descriptorOf p (s₀.dsa.ops.length + 1)) = .ok s₁.dsa := by
    have hderef : deref (s₀.dsa.allocateOps (2 + p.ops.length)).2.pipelines root = some pds := hroot
    rw [writePipeline, hderef, hs₁, hpipelines]
    exact if_pos hid
  have hstart : Writing s₀.operators s₀.dsa.ops pipelines s₁ [] (p.ops.length + 1 + 1) := by
    subst hs₁
    refine ⟨⟨[], ?_, .nil⟩, rfl, fun _ => rfl⟩
    rw [List.nil_append, Nat.add_comm 2]
  have hfirst := hstart.emitAt p.source
  obtain ⟨s₂, hs₂, hmiddle⟩ := hfirst.emitMids hmids
  have hlast := hmiddle.emitAt p.sink
  have hsource' : isSource (s₁.operators p.source).params = true := by
    rw [hstart.params]
    exact hsource
  have hsink' : isSink (s₂.operators p.sink).params = true := by
    rw [hmiddle.params]
    exact hsink
  refine ⟨_, ?_, by rwa [List.nil_append, List.singleton_append, List.cons_append, hpipelines]
    at hlast⟩
  have hstate : ({ s₀ with dsa := s₁.dsa } : Leader) = s₁ := by rw [hs₁]
  rw [descriptorOf] at hwrite
  rw [serializePipeline]
  simp only [bind, Except.bind]
  rw [show (s₀.dsa.allocateOps (2 + p.ops.length)).1 = s₀.dsa.ops.length + 1 from rfl, hwrite]
  simp only [hstate, emitRole_ok hsource']
  have hs₂' : PipelineDescriptors.emitMids (s₀.dsa.ops.length + 1) 1 p.ops
      (emitAt ⟨s₀.dsa.ops.length + 1, 0⟩ p.source s₁) = .ok s₂ := hs₂
  rw [hs₂']
  simp only [emitRole_ok hsink', List.length_cons, Nat.add_comm 1]

/-! ## Reading -/

theorem getLsbD_dependencyMask (deps : List UInt16) {i : Nat} (hi : i < 64) :
    (dependencyMask deps).getLsbD i = true ↔ ∃ d ∈ deps, d.toNat = i := by
  have hfold : ∀ mask : BitVec 64,
      (deps.foldl (fun mask dep => mask ||| (1#64 <<< dep.toNat)) mask).getLsbD i = true ↔
        mask.getLsbD i = true ∨ ∃ d ∈ deps, d.toNat = i := by
    induction deps with
    | nil => simp
    | cons d ds ih =>
      intro mask
      have hbit : (1#64 <<< d.toNat).getLsbD i = true ↔ d.toNat = i := by
        rw [← BitVec.twoPow_eq, BitVec.getLsbD_twoPow, Bool.and_eq_true, decide_eq_true_eq,
          decide_eq_true_eq]
        exact and_iff_right_of_imp fun h => h ▸ hi
      rw [List.foldl_cons, ih, BitVec.getLsbD_or, Bool.or_eq_true, hbit, List.exists_mem_cons_iff,
        or_assoc]
  rw [dependencyMask, hfold, BitVec.getLsbD_zero]
  exact or_iff_right Bool.false_ne_true

/-- **The mask holds every dependency** whose id is below 64, and no other. -/
theorem mem_dependenciesOf {deps : List UInt16} {d : UInt16} :
    d ∈ dependenciesOf (dependencyMask deps) ↔ d ∈ deps ∧ d.toNat < 64 := by
  have hbit : ∀ i < 64,
      (dependencyMask deps &&& (1#64 <<< i) ≠ 0#64 ↔ ∃ d ∈ deps, d.toNat = i) := by
    intro i hi
    have htwo : BitVec.twoPow 64 i ≠ 0#64 := fun hzero => by
      simpa [hi] using congrArg (BitVec.getLsbD · i) hzero
    rw [← BitVec.twoPow_eq, BitVec.and_twoPow, ← getLsbD_dependencyMask deps hi]
    split <;> simp_all
  simp only [dependenciesOf, List.mem_map, List.mem_filter, List.mem_range, decide_eq_true_eq]
  constructor
  · rintro ⟨i, ⟨hlt, hset⟩, rfl⟩
    obtain ⟨d, hd, rfl⟩ := (hbit i hlt).1 hset
    rw [UInt16.ofNat_toNat]
    exact ⟨hd, hlt⟩
  · rintro ⟨hd, hlt⟩
    exact ⟨d.toNat, ⟨hlt, (hbit d.toNat hlt).2 ⟨d, hd, rfl⟩⟩, UInt16.ofNat_toNat⟩

/-- Descriptors are read as copies of what they describe. -/
theorem exists_copies {operators : Nat → Operator} {dsa later : Dsa} {ds : List OpDescriptor}
    {addresses : List Nat} (harrays : dsa.arrays <+: later.arrays)
    (h : List.Forall₂ (fun d a => Describes dsa d (operators a).params) ds addresses) :
    ∃ copies, List.Forall₂ (fun a copy => CopyOf (operators a).params copy) addresses copies ∧
      ∀ k : Nat, ds[k]?.bind (reconstructParams later) = copies[k]? := by
  induction h with
  | nil => exact ⟨[], .nil, fun _ => rfl⟩
  | cons hd _ ih =>
    obtain ⟨copies, hcopies, hread⟩ := ih
    obtain ⟨copy, hcopy, hof⟩ := hd later harrays
    refine ⟨copy :: copies, .cons hof hcopies, fun k => ?_⟩
    cases k with
    | zero => exact hcopy
    | succ k => exact hread k

/-- The loop over the operators between. -/
theorem exists_mapM_places {f : Nat → Option Operator} {copies : List PhysicalOperator}
    (h : ∀ k, (f k).map Operator.params = copies[k]?) {m start : Nat}
    (hm : start + m ≤ copies.length) :
    ∃ ops, (List.range' start m).mapM f = some ops ∧
      ops.map Operator.params = (copies.drop start).take m := by
  induction m generalizing start with
  | zero => exact ⟨[], rfl, by rw [List.take_zero]; rfl⟩
  | succ m ih =>
    have hlt : start < copies.length := by omega
    obtain ⟨op, hop, hparams⟩ :=
      Option.map_eq_some_iff.1 ((h start).trans (List.getElem?_eq_getElem hlt))
    obtain ⟨ops, hops, hall⟩ := ih (show start + 1 + m ≤ _ by omega)
    refine ⟨op :: ops, ?_, ?_⟩
    · rw [List.range'_succ, List.mapM_cons, hop, hops]
      rfl
    · rw [List.drop_eq_getElem_cons hlt, List.take_succ_cons, List.map_cons, hparams, hall]

/-- The operators of a worker's pipeline in the order of their descriptors. -/
def WorkerPipeline.operators (p : WorkerPipeline) : List Operator :=
  p.source :: (p.ops ++ [p.sink])

theorem reconstructPipeline_of_reads {later : Dsa} {p : Pipeline} {ops : DsaPointer}
    {copies : List PhysicalOperator}
    (hplace : ∀ k, (reconstructOp later ⟨ops, k⟩).map Operator.params = copies[k]?)
    (hlength : copies.length = p.ops.length + 2) :
    ∃ copy, reconstructPipeline later (descriptorOf p ops) = some copy ∧ copy.id = p.id ∧
      copy.operators.map Operator.params = copies ∧
      copy.dependsOn = dependenciesOf (dependencyMask p.dependsOn) := by
  obtain ⟨first, tail, rfl⟩ := List.exists_cons_of_length_eq_add_one hlength
  obtain ⟨mids, last, rfl⟩ :=
    (List.eq_nil_or_concat' tail).resolve_left (by rintro rfl; simp at hlength)
  rw [List.length_cons, List.length_append, List.length_singleton, Nat.add_right_cancel_iff,
    Nat.add_right_cancel_iff] at hlength
  obtain ⟨source, hsource, rfl⟩ := Option.map_eq_some_iff.1 (hplace 0)
  obtain ⟨sink, hsink, rfl⟩ := Option.map_eq_some_iff.1 ((hplace (p.ops.length + 1)).trans
    (by rw [List.getElem?_cons_succ, ← hlength, List.getElem?_concat_length]))
  obtain ⟨ops', hmapM, hmids⟩ := exists_mapM_places hplace
    (show 1 + p.ops.length ≤ _ by simp; omega)
  rw [List.drop_one, List.tail_cons, List.take_left' hlength] at hmids
  subst hmids
  refine ⟨⟨p.id, source, ops', sink, _⟩, ?_, rfl, by simp [WorkerPipeline.operators], rfl⟩
  have hcount : 2 + p.ops.length - 2 = p.ops.length := by omega
  have hlast : 2 + p.ops.length - 1 = p.ops.length + 1 := by omega
  simp only [reconstructPipeline, descriptorOf, hcount, hlast, hsource, hmapM, hsink]
  rfl

/-- **The worker's pipeline is the leader's**, but for where vectors lie. -/
structure SamePipeline (operators : Nat → Operator) (p : Pipeline) (copy : WorkerPipeline) :
    Prop where
  id : copy.id = p.id
  operators : copy.operators.map (fun op => op.params.withoutPlaces) =
    p.operators.map fun a => (operators a).params.withoutPlaces
  dependsOn : ∀ d, d ∈ copy.dependsOn ↔ d ∈ p.dependsOn

theorem copies_exact_iff {operators : Nat → Operator} {addresses : List Nat}
    {copies : List PhysicalOperator}
    (h : List.Forall₂ (fun a copy => CopyOf (operators a).params copy) addresses copies) :
    copies.map PhysicalOperator.withoutPlaces =
        addresses.map (fun a => (operators a).params.withoutPlaces) ↔
      ∀ a ∈ addresses, CountsFit (operators a).params := by
  induction h with
  | nil => simp
  | cons hof _ ih =>
    rw [List.map_cons, List.map_cons, List.cons.injEq, hof.exact_iff, ih, List.forall_mem_cons]

/-- A scan, an aggregate and the output, and memory for two pipelines. -/
def groupingLeader : Leader where
  dsa := ⟨[], [], [[.zero, .zero]]⟩
  operators
    | 0 => ⟨.output ⟨0, 0, 0, 0, 7, 0, 0⟩, none, []⟩
    | 1 => ⟨.hashAggregate ⟨0, [0, 2], [], 0, 256, 0⟩, none, []⟩
    | _ => ⟨.seqScan ⟨16384, 0, 0, 0, 0, 0, 0, 0, 0, 0, 0, 0, 0⟩, none, []⟩

end PipelineDescriptors
end PgYaap
