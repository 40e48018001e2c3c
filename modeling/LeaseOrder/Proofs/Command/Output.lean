/-
What the order command leaves of the file that it is to write.

Whatever it fails for, and whatever the system refuses on the way, the command has not touched
what the destination held: up to the last step it reads, creates directories and fills a temporary
file, and a rename that fails does nothing.  If it fails before the write it has changed nothing at
all.  When it succeeds the destination holds the lines of the ordered records and nothing else, and
the temporary file is gone.

The directories are there to stay, though.  A destination that climbs out of a directory that was
missing leads somewhere once that directory has been created.
-/
import LeaseOrder.Proofs.Batch.Frame
import LeaseOrder.Proofs.Command.Reorder

namespace LeaseOrder.Command

open Files

variable {faults : Faults} {w w' : World} {e : Environment} {inv : Invocation}
  {input dest message : String} {kind : Kind} {overrides : Overrides} {format : Format}
  {settings : OrderSettings} {entropy : UInt64} {source : Batch.Source} {f : RunError}

/-- The records that were read, in the order that was asked for, have been written. -/
def Wrote (α : Type) [Record α] (settings : OrderSettings) (entropy : UInt64)
    (source : Batch.Source) (dest : String) (w w' : World) : Prop :=
  ∃ (o : Orderer) (batch ordered : List α), settings.orderer = .ok o ∧
    Batch.records α w source = .ok batch ∧ o.order entropy batch = .ok ordered ∧
    Batch.Replaced w' (.ofString dest) ordered

/-- The records of a kind have been written. -/
def WroteKind (kind : Kind) (settings : OrderSettings) (entropy : UInt64) (source : Batch.Source)
    (dest : String) (w w' : World) : Prop :=
  match kind with
  | .lease => Wrote Lease settings entropy source dest w w'
  | .shard => Wrote ShardInfo settings entropy source dest w w'

/-- The destination has been spared, and everything else too if the write had not begun. -/
structure Withheld (f : RunError) (dest : String) (w w' : World) : Prop where
  spared : Batch.Spared w.tree w'.tree (.ofString dest)
  idle : f.isWriteError = false → w' = w

theorem Withheld.refl (f : RunError) (dest : String) (w : World) : Withheld f dest w w :=
  ⟨.refl _ _, fun _ => rfl⟩

section

variable {α : Type} [Record α]

theorem withheld_of_orderBatch (hwf : w.tree.WellFormed)
    (h : (orderBatch α format settings entropy source (some dest) : Faulty faults _).Yields w
      (.error f) w') : Withheld f dest w w' := by
  cases orders_of_yields h with
  | stopped => exact .refl _ _ _
  | unwritten hwrite =>
    exact ⟨Batch.spared_of_write hwf hwrite, fun he => Batch.eq_of_write he hwrite⟩

theorem wrote_of_orderBatch [Record.Lawful α]
    (h : (orderBatch α format settings entropy source (some dest) : Faulty faults _).Yields w
      (.ok message) w') : Wrote α settings entropy source dest w w' := by
  cases orders_of_yields h with
  | written hs hread horder hwrite =>
    exact ⟨_, _, _, hs, hread, horder, Batch.replaced_of_write hwrite⟩

end

theorem withheld_of_orderKind (hwf : w.tree.WellFormed)
    (h : (orderKind kind format settings entropy source (some dest) : Faulty faults _).Yields w
      (.error f) w') : Withheld f dest w w' := by
  cases kind with
  | lease => exact withheld_of_orderBatch hwf h
  | shard => exact withheld_of_orderBatch hwf h

theorem wrote_of_orderKind
    (h : (orderKind kind format settings entropy source (some dest) : Faulty faults _).Yields w
      (.ok message) w') : WroteKind kind settings entropy source dest w w' := by
  cases kind with
  | lease => exact wrote_of_orderBatch h
  | shard => exact wrote_of_orderBatch h

/-- **The order command replaces its output as a whole, or spares it.**  Whatever the settings, the
    input, what the system refuses and the reason for a failure, the destination then holds what
    it held; after a success it has one line for each ordered record, and there is no temporary
    file. -/
theorem order_replaces_or_spares (haction : inv.action = .order input kind overrides (some dest))
    (hwf : w.tree.WellFormed) :
    (∀ f w', (run e inv : Faulty faults Outcome).Yields w (.error f) w' → Withheld f dest w w') ∧
    ∀ message w', (run e inv : Faulty faults Outcome).Yields w (.ok message) w' →
      ∃ config : Config, (Config.load e inv.config : Faulty faults _).Yields w (.ok config) w ∧
        WroteKind kind (overrides.apply config.ordering) e.entropy (.ofString input) dest w w' := by
  refine ⟨?_, ?_⟩
  · intro f w' h
    rcases yields_of_run h with ⟨_, -, rfl⟩ | ⟨config, -, horder⟩
    · exact .refl _ _ _
    · rw [perform_order haction] at horder
      exact withheld_of_orderKind hwf horder
  · intro message w' h
    rcases yields_of_run h with ⟨_, hfailed, -⟩ | ⟨config, hload, horder⟩
    · cases hfailed
    · rw [perform_order haction] at horder
      exact ⟨config, hload, wrote_of_orderKind horder⟩

/-! ### A child and its parent -/

theorem wellFormed_childFirst : childFirst.tree.WellFormed :=
  Tree.wellFormed_of_flat (by decide)

/-- What these leases are ordered by. -/
def twoGenerations : OrderSettings :=
  Overrides.apply ⟨none, some 2, none⟩ Config.default.ordering

theorem run_orderLeases (faults : Faults) (input out : String) (s : faults.State) :
    (run bareEnvironment (orderLeases input out) : Faulty faults Outcome).run s =
      (orderBatch Lease .text twoGenerations 0 (.ofString input) (some out) :
        Faulty faults Outcome).run s := by
  have hload : (Config.load bareEnvironment (orderLeases input out).config :
      Faulty faults (Except LoadError Config)).run s = (.ok .default, s) := rfl
  unfold run
  rw [Faulty.run_bind_of hload]
  dsimp only
  rw [perform_order rfl]
  rfl

/-- A failed write of the two leases is what the command fails for. -/
theorem run_orderLeases_unwritten {out : String} {g : Batch.StoreError} {s s₁ s' : faults.State}
    (hinput : (FileSystem.readInput : Faulty faults Contents).run s =
      (⟨childFirst.input, none⟩, s₁))
    (hwrite : (Batch.write (.ofString out) [parentLease, childLease] : Faulty faults _).run s₁ =
      (.error g, s')) :
    (run bareEnvironment (orderLeases "-" out) : Faulty faults Outcome).run s =
      (.error (.store g), s') := by
  have hread : (Batch.read .input : Faulty faults (Except Batch.StoreError (List Lease))).run s =
      (.ok [childLease, parentLease], s₁) := by
    unfold Batch.read
    dsimp only
    rw [Faulty.run_bind_of hinput]
    exact congrArg (·, s₁) records_childFirst
  rw [run_orderLeases]
  exact run_orderBatch_unwritten rfl hread prioritize_childFirst hwrite

/-- What a failing disk has taken of the parent's lease. -/
def leftPart : World :=
  { childFirst with
    tree := ⟨[(["leases.jsonl.tmp".toList], .file (Text.encode "\x7b\"l"))], []⟩ }

theorem run_write_failingDisk :
    (Batch.write (.ofString "leases.jsonl") [parentLease, childLease] :
      Faulty Batch.failingDisk _).run (childFirst, 2) =
      (.error (.cannotWriteRecord (.other "Input/output error (os error 5)")),
        (leftPart, 0)) := by
  decide +kernel

theorem run_write_directory :
    (Batch.write (.ofString ".") [parentLease, childLease] : Faulty .none _).run childFirst =
      (.error (.cannotCreateTemporary (.ofString ".") .isDirectory), childFirst) := by
  decide +kernel

/-- A child and its parent are written to a file, but neither to a directory nor to a disk that
    fails once the temporary file has been created. -/
theorem order_replaces_or_spares_childFirst :
    (∃ (message : String) (w' : World) (config : Config),
      (run bareEnvironment (orderLeases "-" "leases.jsonl") : Faulty .none Outcome).run
          childFirst = (.ok message, w') ∧
      WroteKind .lease (Overrides.apply ⟨none, some 2, none⟩ config.ordering) 0 (.ofString "-")
        "leases.jsonl" childFirst w') ∧
    (∃ f, (run bareEnvironment (orderLeases "-" ".") : Faulty .none Outcome).run childFirst =
        (.error f, childFirst) ∧ Withheld f "." childFirst childFirst) ∧
    ∃ f, (run bareEnvironment (orderLeases "-" "leases.jsonl") :
        Faulty Batch.failingDisk Outcome).run (childFirst, 3) = (.error f, (leftPart, 0)) ∧
      Withheld f "leases.jsonl" childFirst leftPart := by
  have haction : ∀ out, (orderLeases "-" out).action =
      .order "-" .lease ⟨none, some 2, none⟩ (some out) := fun _ => rfl
  refine ⟨?_, ?_, ?_⟩
  · have hwritable : Batch.Writable childFirst (.ofString "leases.jsonl") :=
      Batch.writable_of_ready Batch.ready_emptyDirectory
    obtain ⟨w', hwrite⟩ := hwritable.exists_write [parentLease, childLease]
    have hok := (run_orderLeases .none "-" "leases.jsonl" childFirst).trans
      (run_orderBatch_written rfl records_childFirst prioritize_childFirst hwrite)
    obtain ⟨-, hwrote⟩ :=
      order_replaces_or_spares (e := bareEnvironment) (haction _) wellFormed_childFirst
    obtain ⟨config, -, hwrote⟩ := hwrote _ _ (Faulty.yields_none_iff.mpr hok)
    exact ⟨_, w', config, hok, hwrote⟩
  · have hfailed := run_orderLeases_unwritten rfl run_write_directory
    obtain ⟨hwithheld, -⟩ :=
      order_replaces_or_spares (e := bareEnvironment) (haction _) wellFormed_childFirst
    exact ⟨_, hfailed, hwithheld _ _ (Faulty.yields_none_iff.mpr hfailed)⟩
  · have hfailed := run_orderLeases_unwritten (s := (childFirst, 3)) rfl run_write_failingDisk
    obtain ⟨hwithheld, -⟩ :=
      order_replaces_or_spares (e := bareEnvironment) (haction _) wellFormed_childFirst
    exact ⟨_, hfailed, hwithheld _ _ ⟨_, _, rfl, hfailed, rfl⟩⟩

/-! ### A destination that climbs -/

/-- A file, and a directory that has the name of the temporary file for it. -/
def occupied : World :=
  { childFirst with
    tree := ⟨[(["y".toList], .file (Text.encode "keep")), (["y.jsonl.tmp".toList], .directory)],
      []⟩ }

/-- With a directory more. -/
def withDirectory : World :=
  { occupied with tree := ⟨occupied.tree.entries ++ [(["x".toList], .directory)], []⟩ }

theorem run_createDirs_climbing :
    (createDirs (.ofString "x/..") : Faulty .none _).run occupied = (.ok (), withDirectory) := by
  have hmake : (FileSystem.makeDir (.ofString "x/..") : Faulty .none _).run occupied =
      (.error .notFound, occupied) := by decide +kernel
  have hparent : (Path.ofString "x/..").parent? = some (.ofString "x") := by decide
  have habove : (createDirs (.ofString "x") : Faulty .none _).run occupied =
      (.ok (), withDirectory) := by
    have hmake : (FileSystem.makeDir (.ofString "x") : Faulty .none _).run occupied =
        (.ok (), withDirectory) := by decide +kernel
    unfold createDirs
    rw [if_neg (by decide), Faulty.run_bind_of hmake]
    rfl
  have hensure : (ensureDir (.ofString "x/..") : Faulty .none _).run withDirectory =
      (.ok (), withDirectory) := by decide +kernel
  unfold createDirs
  rw [if_neg (by decide), Faulty.run_bind_of hmake]
  dsimp only
  split
  case h_1 hnone =>
    rw [hparent] at hnone
    cases hnone
  case h_2 q hq =>
    obtain rfl := Option.some.inj (hparent.symm.trans hq)
    rw [Faulty.run_bind_of habove]
    exact hensure

theorem wellFormed_occupied : occupied.tree.WellFormed :=
  Tree.wellFormed_of_flat (by decide)

/-- A write that is blocked in the new directory has failed, and the directory is there. -/
theorem exists_error_of_climbing {out : String} {x : Files.Entry}
    (hsource : Batch.Source.ofString out = .file (.ofString out))
    (hdir : Batch.directory? (.ofString out) = some (.ofString "x/.."))
    (hblocked : withDirectory.tree.find (Batch.temporary (.ofString out)) = .ok .directory ∨
      withDirectory.tree.find (.ofString out) = .ok .directory)
    (hx : withDirectory.tree.find (.ofString out) = .ok x) :
    ∃ f w', (run bareEnvironment (orderLeases "-" out) : Faulty .none Outcome).run occupied =
        (.error f, w') ∧ w'.tree.find (.ofString out) = .ok x := by
  rcases hreplace : (Batch.replaceFile Batch.recordLine (.ofString out) [parentLease, childLease] :
    Faulty .none _).run withDirectory with ⟨result, w'⟩
  have hyields := Faulty.yields_none_iff.mpr hreplace
  obtain ⟨g, rfl⟩ := Batch.exists_error_of_directory hblocked hyields
  have hwrite : (Batch.write (.ofString out) [parentLease, childLease] : Faulty .none _).run
      occupied = (.error g, w') := by
    rw [hsource]
    unfold Batch.write Batch.writeWith
    simp only [hdir]
    rw [Faulty.run_bind_of run_createDirs_climbing]
    exact hreplace
  exact ⟨_, w', run_orderLeases_unwritten rfl hwrite,
    (Batch.staged_of_replaceFile hyields).find_iff.mpr hx⟩

/-- A destination that leads to nothing leads somewhere once the command has failed, which has
    created a directory on the way: to that directory, or to a file beside it. -/
theorem order_leaves_climbing_directory :
    occupied.tree.WellFormed ∧
      (occupied.tree.find (.ofString "x/../x") = .error .notFound ∧
        ∃ f w', (run bareEnvironment (orderLeases "-" "x/../x") : Faulty .none Outcome).run
            occupied = (.error f, w') ∧
          w'.tree.find (.ofString "x/../x") = .ok .directory) ∧
      occupied.tree.find (.ofString "x/../y") = .error .notFound ∧
        ∃ f w', (run bareEnvironment (orderLeases "-" "x/../y") : Faulty .none Outcome).run
            occupied = (.error f, w') ∧
          w'.tree.find (.ofString "x/../y") = .ok (.file (Text.encode "keep")) := by
  refine ⟨wellFormed_occupied, ⟨by decide, ?_⟩, by decide, ?_⟩
  · exact exists_error_of_climbing (by decide) (by decide) (.inr (by decide)) (by decide)
  · exact exists_error_of_climbing (by decide) (by decide) (.inl (by decide)) (by decide)

end LeaseOrder.Command
