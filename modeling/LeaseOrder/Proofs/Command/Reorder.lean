/-
Ordering an ordered file again.

The second run reads back the very records that the first one wrote, finds them in order, and
so prints them to the same text.  What the first run had to read, in whatever form, and what it
left out, plays no part any more.
-/
import LeaseOrder.Proofs.Command.Run
import LeaseOrder.Proofs.Order.Idempotent

namespace LeaseOrder.Command

open Files

variable {w w₁ : World} {source : Batch.Source} {out message : String} {s : ParentsFirst}
  {format : Format} {settings : OrderSettings} {entropy : UInt64}

/-- The bytes are in the file, and every run that orders the file writes them. -/
structure Reorders (order : Format → OrderSettings → UInt64 → Batch.Source → Option String →
    StateM World Outcome) (s : ParentsFirst) (w : World) (out : String) (bytes : Text.Bytes) :
    Prop where
  openRead : w.tree.openRead (.ofString out) = .ok (.file bytes)
  again : ∀ (format : Format) (settings : OrderSettings) (entropy : UInt64) (out' : String),
    settings.orderer = .ok (.parentsFirst s) → Batch.Writable w (.ofString out') →
    ∃ message w',
      (order format settings entropy (.ofString out) (some out')).run w = (.ok message, w') ∧
        w'.tree.openRead (.ofString out') = .ok (.file bytes)

/-- What the first run has written the second run reads, and writes wherever it is told to. -/
theorem reorders_batch {α : Type} [Record α] [Record.Lawful α]
    (hs : settings.orderer = .ok (.parentsFirst s))
    (h : (orderBatch α format settings entropy source (some out) : StateM World _).run w =
      (.ok message, w₁)) :
    Batch.Writable w₁ (.ofString out) ∧ ∃ bytes, Reorders (orderBatch α) s w₁ out bytes := by
  obtain ⟨batch, ordered, hread, horder, hwrite⟩ := write_of_orderBatch hs h
  obtain ⟨-, hwritable⟩ := Batch.writable_of_write hwrite
  have hvalid : ∀ x ∈ ordered, Record.Lawful.Valid x := fun x hx =>
    Batch.valid_of_records hread x (ParentsFirst.mem_of_prioritize horder x hx)
  refine ⟨hwritable, _, Batch.openRead_of_write hwrite, ?_⟩
  intro format settings entropy out' hs hout'
  obtain ⟨w₂, hwrite'⟩ := hout'.exists_write ordered
  have hagain := ParentsFirst.prioritize_of_prioritize horder
  exact ⟨_, w₂, run_orderBatch_written hs (Batch.records_of_write hvalid hwrite) hagain hwrite',
    Batch.openRead_of_write hwrite'⟩

theorem reorders_kind {kind : Kind} (hs : settings.orderer = .ok (.parentsFirst s))
    (h : (orderKind kind format settings entropy source (some out) : StateM World _).run w =
      (.ok message, w₁)) :
    Batch.Writable w₁ (.ofString out) ∧ ∃ bytes, Reorders (orderKind kind) s w₁ out bytes := by
  cases kind with
  | lease => exact reorders_batch hs h
  | shard => exact reorders_batch hs h

/-- **An ordered file is a fixed point of the command that orders it.**  Once a batch has been
    ordered parents first into a file, the file can be ordered over and over, into any file that
    can be written, itself included, and every time the same bytes are written. -/
theorem reorder_fixed_point {e : Environment} {inv : Invocation} {input : String} {kind : Kind}
    {maxDepth : Option Int64} (hasks : AsksOrder e inv w format input kind maxDepth (some out))
    (hrun : (run e inv : StateM World Outcome).run w = (.ok message, w₁)) :
    Batch.Writable w₁ (.ofString out) ∧
      ∃ bytes, w₁.tree.openRead (.ofString out) = .ok (.file bytes) ∧
        ∀ (e' : Environment) (inv' : Invocation) (format' : Format) (out' : String),
          AsksOrder e' inv' w₁ format' out kind maxDepth (some out') →
          Batch.Writable w₁ (.ofString out') →
          ∃ message' w₂, (run e' inv' : StateM World Outcome).run w₁ = (.ok message', w₂) ∧
            w₂.tree.openRead (.ofString out') = .ok (.file bytes) := by
  obtain ⟨settings, hsettings, hfirst⟩ := hasks.exists_run
  rw [hfirst] at hrun
  cases hs : ParentsFirst.ofMaxDepth maxDepth with
  | error f =>
    rw [hs] at hsettings
    rw [run_orderKind_refused hsettings] at hrun
    cases hrun
  | ok s =>
    rw [hs] at hsettings
    obtain ⟨hwritable, bytes, hreorders⟩ := reorders_kind hsettings hrun
    refine ⟨hwritable, bytes, hreorders.openRead, ?_⟩
    intro e' inv' format' out' hasks' hout'
    obtain ⟨settings', hsettings', hsecond⟩ := hasks'.exists_run
    rw [hs] at hsettings'
    rw [hsecond]
    exact hreorders.again format' settings' e'.entropy out' hsettings' hout'

/-! ### A child in front of its parent -/

/-- A lease that lists its parent twice, then the parent, both as arrays. -/
def childFirst : World :=
  ⟨⟨[], []⟩, Text.encode "[\"b\",null,0,\"LATEST\",null,0,[\"a\",\"a\"]]\n\n[\"a\"]\n"⟩

theorem valid_parentId : ShardId.Valid "a" := ShardId.valid_of_all (by decide)

theorem valid_childId : ShardId.Valid "b" := ShardId.valid_of_all (by decide)

/-- The parent's lease. -/
def parentLease : Lease := .new ⟨"a", valid_parentId⟩

/-- The child's lease. -/
def childLease : Lease :=
  ((Lease.new ⟨"b", valid_childId⟩).withParents [parentLease.key]).withCheckpoint .latest

theorem records_childFirst :
    Batch.records Lease childFirst .input = .ok [childLease, parentLease] := by
  have hparse : (Batch.parse childFirst.input : Except _ (List Lease)).toOption =
      some [childLease, parentLease] := by decide +kernel
  show (Batch.parse childFirst.input).mapError _ = _
  cases h : (Batch.parse childFirst.input : Except _ (List Lease)) with
  | error e =>
    rw [h] at hparse
    cases hparse
  | ok batch =>
    rw [h] at hparse
    rw [Option.some.inj hparse]
    rfl

theorem law_childFirst :
    Ancestry.DepthLaw ([childLease, parentLease].map Prioritizable.item) generation := by
  decide +kernel

theorem prioritize_childFirst :
    (ParentsFirst.prioritize ⟨2⟩ [childLease, parentLease]).result =
      .ok [parentLease, childLease] := by
  have hjudged : ParentsFirst.judgeAll ⟨2⟩ [childLease, parentLease]
      (.layout ([childLease, parentLease].map Prioritizable.item) generation) =
        [(childLease, .kept 2), (parentLease, .kept 1)] := by decide +kernel
  rw [ParentsFirst.prioritize_of_law law_childFirst, ParentsFirst.handout, hjudged]
  simp [ParentsFirst.rank, List.mergeSort, List.MergeSort.Internal.splitInTwo]

/-- A command line that orders leases up to the second generation into a file. -/
def orderLeases (input out : String) : Invocation :=
  ⟨none, false, none, .order input .lease ⟨none, some 2, none⟩ (some out)⟩

/-- An environment without a configuration. -/
def bareEnvironment : Environment := ⟨none, none, none, 0⟩

theorem asksOrder_orderLeases (input out : String) (w : World) :
    AsksOrder bareEnvironment (orderLeases input out) w .text input .lease (some 2) (some out) :=
  ⟨.default, ⟨none, some 2, none⟩, rfl, rfl, rfl, rfl, rfl⟩

theorem reorder_fixed_point_childFirst :
    ∃ message w₁, (run bareEnvironment (orderLeases "-" "leases.jsonl") : StateM World _).run
        childFirst = (.ok message, w₁) ∧
      ∃ bytes, w₁.tree.openRead (.ofString "leases.jsonl") = .ok (.file bytes) ∧
        bytes = Text.encode (Batch.print [parentLease, childLease]) ∧
        ∃ message' w₂, (run bareEnvironment (orderLeases "leases.jsonl" "leases.jsonl") :
            StateM World _).run w₁ = (.ok message', w₂) ∧
          w₂.tree.openRead (.ofString "leases.jsonl") = .ok (.file bytes) := by
  have hasks := asksOrder_orderLeases "-" "leases.jsonl" childFirst
  obtain ⟨settings, hsettings, hrun⟩ := hasks.exists_run
  have hwritable : Batch.Writable childFirst (.ofString "leases.jsonl") :=
    Batch.writable_of_ready Batch.ready_emptyDirectory
  obtain ⟨w₁, hwrite⟩ := hwritable.exists_write [parentLease, childLease]
  have hopen := Batch.openRead_of_write hwrite
  have hfirst := hrun.trans
    (run_orderBatch_written hsettings records_childFirst prioritize_childFirst hwrite)
  obtain ⟨hagain, bytes, hbytes, hreorder⟩ := reorder_fixed_point hasks hfirst
  obtain rfl : Text.encode (Batch.print [parentLease, childLease]) = bytes := by
    rw [hopen] at hbytes
    simpa using hbytes
  exact ⟨_, w₁, hfirst, _, hopen, rfl, hreorder _ _ _ _ (asksOrder_orderLeases _ _ w₁) hagain⟩

end LeaseOrder.Command
