/-
A batch that was written is read back.

Whatever creating the directory has done to the tree, the file that is renamed holds the text of
the batch, so the destination does, and what is read from it are the records, if they are valid.
Where the directory is there and neither name is that of a directory, writing does not fail.
-/
import LeaseOrder.Proofs.Batch.Read
import LeaseOrder.Proofs.Batch.Write

namespace LeaseOrder.Batch

open Files

variable {w w' : World} {p : Path} {α : Type} [Record α] {batch : List α}

/-- Once the directory is there, writing is replacing a file. -/
theorem run_write (h : Ready w.tree p) (batch : List α) :
    (write (.file p) batch : StateM World _).run w =
      (replaceFile recordLine p batch : StateM World _).run w := by
  unfold write writeWith
  dsimp only
  split
  · rfl
  rename_i dir hdir
  rw [World.run_bind_of (World.run_createDirs (h.directory dir hdir))]

/-- Nothing of the batch is lost when it is written and read. -/
structure Survives (batch : List α) : Prop where
  /-- The lines of the text are the texts of the records, one line each. -/
  lines : lines (Text.decode (Text.encode (print batch))) =
    batch.map fun x => (Record.text x).toList.map some
  parse : parse (Text.encode (print batch)) = .ok batch
  input : ∀ t : Tree, (read .input : StateM World (Except StoreError (List α))).run
    ⟨t, Text.encode (print batch)⟩ = (.ok batch, ⟨t, Text.encode (print batch)⟩)
  /-- What has been written is what is in the file, and what is read from it. -/
  file : ∀ (p : Path) (w w' : World),
    (write (.file p) batch : StateM World _).run w = (.ok (), w') →
      w'.tree.openRead p = .ok (.file (Text.encode (print batch))) ∧
      (read (.file p) : StateM World (Except StoreError (List α))).run w' = (.ok batch, w')
  /-- No record keeps a batch from being written. -/
  writes : ∀ (p : Path) (w : World), Ready w.tree p →
    ∃ w', (write (.file p) batch : StateM World _).run w = (.ok (), w')

theorem exists_write (h : Ready w.tree p) (batch : List α) :
    ∃ w', (write (.file p) batch : StateM World _).run w = (.ok (), w') := by
  rw [run_write h]
  exact exists_replaceFile h fun x _ => ⟨Record.text x, rfl⟩

/-- What was written is in the file. -/
theorem openRead_of_write_file (h : (write (.file p) batch : StateM World _).run w = (.ok (), w')) :
    w'.tree.openRead p = .ok (.file (Text.encode (print batch))) := by
  rw [← linesOf_recordLine]
  exact openRead_of_writeWith (Faulty.yields_none_iff.mpr h)

theorem survives [Record.Lawful α] (h : ∀ x ∈ batch, Record.Lawful.Valid x) : Survives batch where
  lines := lines_print batch
  parse := parse_print h
  input t := by
    show ((Batch.parse (Text.encode (print batch))).mapError _, _) = _
    rw [parse_print h]
    rfl
  file p w w' hwrite := by
    have hopen := openRead_of_write_file hwrite
    refine ⟨hopen, ?_⟩
    rw [run_read hopen, parse_print h]
    rfl
  writes p w hready := exists_write hready batch

/-- **Batches of lease rows and batches of shards come back as they were written**, if their
    checkpoints are valid. -/
theorem batches_survive :
    (∀ leases : List Lease, (∀ l ∈ leases, l.Valid) → Survives leases) ∧
      ∀ shards : List ShardInfo, (∀ x ∈ shards, x.Valid) → Survives shards :=
  ⟨fun _ => survives, fun _ => survives⟩

theorem valid_oddId : ShardId.Valid "s" := ShardId.valid_of_all (by decide)

/-- A lease whose owner has a quote and a line end in the name, at a position with zeros in front. -/
def oddLease : Lease where
  key := ⟨"s", valid_oddId⟩
  owner := some "\"\n\u00e9"
  counter := 18446744073709551615
  checkpoint := .sequence ⟨"007"⟩ 5
  pendingCheckpoint := some .latest
  ownerSwitches := 0
  parents := ∅

theorem valid_oddLease : oddLease.Valid where
  checkpoint := SequenceNumber.isNumeral_iff.mp (by decide)
  pendingCheckpoint c hc := by
    obtain rfl := Option.some.inj hc
    trivial

/-- A batch of two such leases comes back, and so does a shard at the same position. -/
theorem batches_survive_odd :
    Survives [oddLease, oddLease] ∧
      Survives [(ShardInfo.new oddLease.key).withCheckpoint oddLease.checkpoint] := by
  obtain ⟨hleases, hshards⟩ := batches_survive
  refine ⟨hleases _ fun l hl => ?_, hshards _ fun x hx => ?_⟩
  · obtain rfl : l = oddLease := by simpa using hl
    exact valid_oddLease
  · obtain rfl := List.mem_singleton.mp hx
    exact ⟨valid_oddLease.checkpoint⟩

end LeaseOrder.Batch
