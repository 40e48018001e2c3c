/-
The order of a batch and its depths tell one story.

Both commands read the same batch and settle the same depths, so one fails where the other
does.  The rows of the depths are the first records of the batch, and what is handed out are the
offers made of these records, by ascending depth.  An offer is made of a record exactly where its
row is open and not too deep.  So what is handed out can be read off the rows.
-/
import LeaseOrder.Proofs.Command.Reorder
import LeaseOrder.Proofs.Order.Firsts

namespace LeaseOrder

open Ancestry Prioritizable Files

namespace ParentsFirst

variable {α : Type} [Prioritizable α] {s : ParentsFirst} {batch : List α} {depth : String → Nat}

/-- A record is offered if it is open and not too deep. -/
theorem offer_eq (x : α) :
    s.offer depth x =
      if (item x).completed = false ∧ depth (item x).id ≤ s.maxDepth.toNat
      then some (depth (item x).id, x) else none := by
  unfold offer judge
  by_cases hc : (item x).completed = true
  · simp [hc]
  by_cases hdeep : s.maxDepth.toNat < depth (item x).id
  · have hle : ¬ depth (item x).id ≤ s.maxDepth.toNat := by omega
    simp [hc, hdeep, hle]
  · have hle : depth (item x).id ≤ s.maxDepth.toNat := by omega
    simp [hc, hdeep, hle]

theorem prioritize_of_error {e : OrderError}
    (h : (resolve (batch.map item)).result = .error e) : (s.prioritize batch).result = .error e := by
  rw [prioritize, Logged.map, prioritizeRanked_of_error h]
  rfl

end ParentsFirst

namespace Command

section Rows

variable {α : Type} [Record α] {s : ParentsFirst} {batch : List α} {depth : String → Nat}

/-! ### Rows -/

/-- The row of a record. -/
def rowOf (depth : String → Nat) (x : α) : DepthRow :=
  ⟨(item x).id, depth (item x).id, (item x).completed⟩

/-- There is a row for each first record. -/
theorem depthRows_layout :
    depthRows batch (.layout (batch.map item) depth) = (firstRecords batch).map (rowOf depth) := by
  rw [depthRows, zip_layout, List.filterMap_map, firstRecords, List.map_filterMap]
  refine List.filterMap_congr fun p _ => ?_
  by_cases h : isFresh (batch.map item) p.2 (item p.1).id = true
  · simp [h, rowOf]
  · simp [h]

/-- Of one depth, the offers are the rows that are open and not too deep. -/
theorem map_rowOf_offers (xs : List α) (d : Nat) :
    ((xs.filterMap (s.offer depth)).filter (·.1 = d)).map (fun p => rowOf depth p.2) =
      (xs.map (rowOf depth)).filter fun r =>
        r.depth = d ∧ r.completed = false ∧ r.depth ≤ s.maxDepth.toNat := by
  induction xs with
  | nil => rfl
  | cons x xs ih =>
    by_cases hopen : (item x).completed = false ∧ depth (item x).id ≤ s.maxDepth.toNat
    · have hoffer : s.offer depth x = some (depth (item x).id, x) := by
        rw [ParentsFirst.offer_eq, if_pos hopen]
      rw [List.filterMap_cons_some hoffer, List.map_cons]
      by_cases hd : depth (item x).id = d
      · rw [List.filter_cons_of_pos (by simpa using hd), List.map_cons, ih,
          List.filter_cons_of_pos (by simpa [rowOf, hd] using hopen)]
      · rw [List.filter_cons_of_neg (by simpa using hd), ih,
          List.filter_cons_of_neg (by simp [rowOf, hd])]
    · have hoffer : s.offer depth x = none := by
        rw [ParentsFirst.offer_eq, if_neg hopen]
      have hrow : ¬ ((rowOf depth x).depth = d ∧ (rowOf depth x).completed = false ∧
          (rowOf depth x).depth ≤ s.maxDepth.toNat) := fun h => hopen h.2
      rw [List.filterMap_cons_none hoffer, List.map_cons, ih,
        List.filter_cons_of_neg (by simpa using hrow)]

/-! ### One account of a batch -/

/-- The records that are handed out up to a depth, told from the rows of the batch. -/
structure Account (bound : Nat) (batch chosen : List α) (rows : List DepthRow) : Prop where
  /-- The rows have every ID of the batch once, in the order in which the IDs occur. -/
  ids : rows.map DepthRow.shardId = (batch.map fun x => (item x).id).eraseDups
  /-- A row tells of the first record with its ID. -/
  first : ∀ r ∈ rows, ∃ x, first? (batch.map item) r.shardId = some x ∧ r.completed = x.completed
  depth_eq_zero_iff : ∀ r ∈ rows, r.depth = 0 ↔ r.completed = true
  /-- So a bound that exceeds the length of the batch bounds nothing. -/
  depth_le : ∀ r ∈ rows, r.depth ≤ batch.length
  /-- The records handed out are first records. -/
  chosen_first : ∀ x ∈ chosen, x ∈ batch ∧ first? (batch.map item) (item x).id = some (item x)
  /-- They are those of the rows that are open and not too deep, by ascending depth, and within
      one depth in the order of the rows. -/
  taken : ∃ taken : List DepthRow,
    chosen.map (fun x => (item x).id) = taken.map DepthRow.shardId ∧
      taken.Pairwise (fun a b => a.depth ≤ b.depth) ∧
      ∀ d, taken.filter (·.depth = d) =
        rows.filter fun r => r.depth = d ∧ r.completed = false ∧ r.depth ≤ bound

theorem account_of_law (law : DepthLaw (batch.map item) depth) :
    Account s.maxDepth.toNat batch ((s.handout batch depth).map Prod.snd)
      (depthRows batch (.layout (batch.map item) depth)) := by
  have hrow : ∀ r ∈ (firstRecords batch).map (rowOf depth), ∃ x : α,
      first? (batch.map item) (item x).id = some (item x) ∧ r = rowOf depth x := by
    intro r hr
    obtain ⟨x, hx, rfl⟩ := List.mem_map.mp hr
    exact ⟨x, first?_of_mem_firstRecords hx, rfl⟩
  rw [depthRows_layout]
  refine ⟨?_, ?_, ?_, ?_, ?_, ?_⟩
  · rw [List.map_map]
    exact map_id_firstRecords batch
  · intro r hr
    obtain ⟨x, hx, rfl⟩ := hrow r hr
    exact ⟨item x, hx, rfl⟩
  · intro r hr
    obtain ⟨x, hx, rfl⟩ := hrow r hr
    show depth (item x).id = 0 ↔ (item x).completed = true
    cases hc : (item x).completed with
    | true => simp [law.completed_eq hx hc]
    | false =>
      have hpos := law.pos_of_isOpen ⟨item x, hx, hc⟩
      exact iff_of_false (Nat.ne_of_gt hpos) Bool.false_ne_true
  · intro r hr
    obtain ⟨x, hx, rfl⟩ := hrow r hr
    have hle := law.le_length (Option.isSome_of_eq_some hx)
    rwa [List.length_map] at hle
  · intro x hx
    obtain ⟨⟨d, y⟩, hmem, rfl⟩ := List.mem_map.mp hx
    obtain ⟨⟨i, hget, hfirst⟩, -⟩ := ParentsFirst.mem_handout.mp hmem
    exact ⟨List.mem_of_getElem? hget, hfirst.first?⟩
  · -- The depth that a record is handed out with is the one in its row.
    have hdepth : ∀ p ∈ s.handout batch depth, (rowOf depth p.2).depth = p.1 := by
      intro p hp
      exact (ParentsFirst.mem_handout.mp (show (p.1, p.2) ∈ _ from hp)).2.2.1
    refine ⟨(s.handout batch depth).map fun p => rowOf depth p.2, ?_, ?_, ?_⟩
    · rw [List.map_map, List.map_map]
      rfl
    · rw [List.pairwise_map]
      refine ParentsFirst.pairwise_handout.imp_of_mem fun {a b} ha hb hle => ?_
      rw [hdepth a ha, hdepth b hb]
      exact hle
    · intro d
      have hlevel : (s.handout batch depth).filter (fun p => (rowOf depth p.2).depth = d) =
          (s.handout batch depth).filter (·.1 = d) := by
        refine List.filter_congr fun p hp => ?_
        rw [hdepth p hp]
      rw [List.filter_map, ← map_rowOf_offers, ← ParentsFirst.filter_mergeSort,
        ← ParentsFirst.handout_eq_firsts, ← hlevel]
      rfl

end Rows

/-! ### Three commands on one batch -/

/-- What it comes to when the same batch is ordered onto the output, ordered into a file and shown
    with its depths, each time in the same world. -/
inductive OneStory (α : Type) [Record α] (bound : Nat) (w : World) (source : Batch.Source)
    (out : String) : (printed written shown : Outcome × World) → Prop where
  /-- The batch cannot be read, for one reason. -/
  | unread {e : Batch.StoreError} (hread : Batch.records α w source = .error e) :
    OneStory α bound w source out (.error (.store e), w) (.error (.store e), w)
      (.error (.store e), w)
  /-- One shard is named as its own ancestor, which it is. -/
  | cycle {batch : List α} {id : String} (hread : Batch.records α w source = .ok batch)
      (hcycle : Relation.TransGen (Awaits (batch.map item)) id id) :
    OneStory α bound w source out (.error (.order source (.circularDependency id)), w)
      (.error (.order source (.circularDependency id)), w)
      (.error (.depths source (.circularDependency id)), w)
  /-- The array that is printed and the lines of the file hold the same records. -/
  | told {batch chosen : List α} {rows : List DepthRow} {message : String} {w' : World}
      (hread : Batch.records α w source = .ok batch)
      (hprinted : Json.decodeText (.list Record.decoder)
        (Json.Value.array (chosen.map Record.encode)).text = .ok chosen)
      (hlines : w'.tree.openRead (.ofString out) = .ok (.file (Text.encode (Batch.print chosen))))
      (hwritten : Batch.records α w' (.ofString out) = .ok chosen)
      (haccount : Account bound batch chosen rows) :
    OneStory α bound w source out (.ok (jsonLine (.array (chosen.map Record.encode))), w)
      (.ok message, w') (.ok (jsonLine (.array (rows.map DepthRow.encode))), w)

/-- One story for a kind of records. -/
def Kind.OneStory (kind : Kind) (bound : Nat) (w : World) (source : Batch.Source) (out : String)
    (printed written shown : Outcome × World) : Prop :=
  match kind with
  | .lease => Command.OneStory Lease bound w source out printed written shown
  | .shard => Command.OneStory ShardInfo bound w source out printed written shown

/-- The records of an array are read back from its text. -/
theorem decodeText_array {α : Type} [Record α] [Record.Lawful α] {xs : List α}
    (hvalid : ∀ x ∈ xs, Record.Lawful.Valid x) :
    Json.decodeText (.list Record.decoder) (Json.Value.array (xs.map Record.encode)).text =
      .ok xs := by
  have hplain : Json.Plain (.array (xs.map Record.encode)) := by
    refine Json.Plain.array fun v hv => ?_
    obtain ⟨x, -, rfl⟩ := List.mem_map.mp hv
    exact Record.Lawful.plain_encode x
  have hdrafts := Json.Decoder.list_drafts fun x hx =>
    Record.Lawful.decoder_encode .text (hvalid x hx)
  rw [Json.decodeText, Json.Reading.ofString_text hplain, Json.Value.draft,
    Json.Value.drafts_map, hdrafts]
  rfl

section

variable {α : Type} [Record α] [Record.Lawful α] {w : World} {source : Batch.Source} {out : String}
  {s : ParentsFirst}

theorem oneStory_batch {format : Format} {settings settings' : OrderSettings}
    {entropy entropy' : UInt64} (hs : settings.orderer = .ok (.parentsFirst s))
    (hs' : settings'.orderer = .ok (.parentsFirst s)) (hout : Batch.Writable w (.ofString out)) :
    OneStory α s.maxDepth.toNat w source out
      ((orderBatch α .json settings entropy source none : StateM World _).run w)
      ((orderBatch α format settings' entropy' source (some out) : StateM World _).run w)
      ((depthsOfBatch α .json source : StateM World _).run w) := by
  cases hread : Batch.records α w source with
  | error e =>
    rw [run_orderBatch_unread hs hread, run_orderBatch_unread hs' hread,
      run_depthsOfBatch_unread hread]
    exact .unread hread
  | ok batch =>
    cases hresolve : (resolve (batch.map item)).result with
    | error e =>
      obtain ⟨id, rfl, hcycle⟩ := resolve_error hresolve
      have horder := s.prioritize_of_error hresolve
      rw [run_orderBatch_cycle hs hread horder, run_orderBatch_cycle hs' hread horder,
        run_depthsOfBatch_cycle hread hresolve]
      exact .cycle hread hcycle
    | ok depths =>
      obtain ⟨depth, law, rfl⟩ := resolve_ok hresolve
      have horder := ParentsFirst.prioritize_of_law (s := s) law
      obtain ⟨w', hwrite⟩ := hout.exists_write ((s.handout batch depth).map Prod.snd)
      have hvalid : ∀ x ∈ (s.handout batch depth).map Prod.snd, Record.Lawful.Valid x := fun x hx =>
        Batch.valid_of_records hread x (ParentsFirst.mem_of_mem_handout hx)
      rw [run_orderBatch_printed hs hread horder, run_orderBatch_written hs' hread horder hwrite,
        run_depthsOfBatch_resolved hread hresolve]
      exact .told hread (decodeText_array hvalid) (Batch.openRead_of_write hwrite)
        (Batch.records_of_write hvalid hwrite) (account_of_law law)

end

/-- **The two orders and the depths of a batch tell one story.**  They fail alike, or else the
    array that is printed, the lines of the file and the rows of the depths agree. -/
theorem order_and_depths_agree {w : World} {input out : String} {kind : Kind}
    {maxDepth : Option Int64} {format : Format} {e₁ e₂ e₃ : Environment}
    {print write depths : Invocation}
    (hprint : AsksOrder e₁ print w .json input kind maxDepth none)
    (hwrite : AsksOrder e₂ write w format input kind maxDepth (some out))
    (hdepths : AsksDepths e₃ depths w .json input kind) (hvalid : ∀ n ∈ maxDepth, 0 < n)
    (hout : Batch.Writable w (.ofString out)) :
    kind.OneStory (ParentsFirst.bound maxDepth) w (.ofString input) out
      ((run e₁ print : StateM World Outcome).run w) ((run e₂ write : StateM World Outcome).run w)
      ((run e₃ depths : StateM World Outcome).run w) := by
  obtain ⟨s, hs⟩ := ParentsFirst.exists_ofMaxDepth hvalid
  obtain ⟨settings, hsettings, hrun⟩ := hprint.exists_run
  obtain ⟨settings', hsettings', hrun'⟩ := hwrite.exists_run
  rw [hs] at hsettings hsettings'
  rw [hrun, hrun', hdepths.run_eq, ← ParentsFirst.maxDepth_eq_bound hs]
  cases kind with
  | lease => exact oneStory_batch hsettings hsettings' hout
  | shard => exact oneStory_batch hsettings hsettings' hout

/-- A child that is printed after its parent. -/
theorem order_and_depths_agree_childFirst :
    ∃ print depths : Invocation,
      Kind.lease.OneStory 2 childFirst .input "leases.jsonl"
        ((run bareEnvironment print : StateM World Outcome).run childFirst)
        ((run bareEnvironment (orderLeases "-" "leases.jsonl") : StateM World Outcome).run
          childFirst)
        ((run bareEnvironment depths : StateM World Outcome).run childFirst) ∧
      (run bareEnvironment print : StateM World Outcome).run childFirst =
        (.ok (jsonLine (.array ([parentLease, childLease].map Record.encode))), childFirst) := by
  let print : Invocation :=
    ⟨some .json, false, none, .order "-" .lease ⟨none, some 2, none⟩ none⟩
  let depths : Invocation := ⟨some .json, false, none, .depths "-" .lease⟩
  have hprint : AsksOrder bareEnvironment print childFirst .json "-" .lease (some 2) none :=
    ⟨.default, ⟨none, some 2, none⟩, rfl, rfl, rfl, rfl, rfl⟩
  have hdepths : AsksDepths bareEnvironment depths childFirst .json "-" .lease :=
    ⟨.default, rfl, rfl, rfl⟩
  have hvalid : ∀ n ∈ (some 2 : Option Int64), 0 < n := by
    intro n hn
    obtain rfl : 2 = n := Option.some.inj hn
    decide
  have hout : Batch.Writable childFirst (.ofString "leases.jsonl") :=
    Batch.writable_of_ready Batch.ready_emptyDirectory
  obtain ⟨settings, hsettings, hrun⟩ := hprint.exists_run
  exact ⟨print, depths,
    order_and_depths_agree hprint (asksOrder_orderLeases _ _ _) hdepths hvalid hout,
    hrun.trans (run_orderBatch_printed hsettings records_childFirst prioritize_childFirst)⟩

end Command

end LeaseOrder
