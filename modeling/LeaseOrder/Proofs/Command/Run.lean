/-
What the commands do in a file system in memory, step by step.

Reading leaves the files as they are, so a command that fails before it writes, or that only
prints, leaves them as well, whatever is refused.  Which step a command comes to depends on what
has been read and on how it is ordered, and in the reliable system there is one equation for each
of them.
-/
import LeaseOrder.Command.Run
import LeaseOrder.Proofs.Batch.Writable

namespace LeaseOrder

open Files

namespace Batch

variable {α : Type} [Record α] {w w' : World}

/-- What has been written is read. -/
theorem records_of_write [Record.Lawful α] {dest : String} {batch : List α}
    (hvalid : ∀ x ∈ batch, Record.Lawful.Valid x)
    (h : (write (.ofString dest) batch : StateM World _).run w = (.ok (), w')) :
    records α w' (.ofString dest) = .ok batch := by
  have hfile := eq_file_of_write h
  rw [hfile] at h ⊢
  exact congrArg Prod.fst ((survives hvalid).file _ _ _ h).2

end Batch

/-! ### Configurations -/

namespace Config

variable {faults : Faults} {w w' : World}

/-- What was read in whole or in part, the world is the same. -/
theorem eq_of_ofFile {p : Path} {result : Except LoadError Config}
    (h : (ofFile p : Faulty faults _).Yields w result w') : w = w' := by
  unfold ofFile at h
  obtain ⟨opened, w₁, hopen, h⟩ := h.bind
  obtain ⟨rfl, -⟩ := Faulty.answer_cases hopen
  cases opened with
  | error e =>
    obtain ⟨-, rfl⟩ := h.pure
    rfl
  | ok file =>
    obtain ⟨got, w₂, hread, h⟩ := h.bind
    obtain ⟨rfl, -⟩ := Faulty.readContents_cases hread
    split at h
    · obtain ⟨-, rfl⟩ := h.pure
      rfl
    · obtain ⟨-, rfl⟩ := h.pure
      rfl

/-- **Loading a configuration changes nothing.** -/
theorem eq_of_load {e : Environment} {named : Option String} {result : Except LoadError Config}
    (h : (load e named : Faulty faults _).Yields w result w') : w = w' := by
  unfold load at h
  split at h
  · exact eq_of_ofFile h
  split at h
  · exact h.pure.2
  obtain ⟨found, w₁, hfound, h⟩ := h.bind
  obtain ⟨rfl, -⟩ := Faulty.answer_cases (show (Faulty.inspect _ _).Yields _ _ _ from hfound)
  cases found with
  | true => exact eq_of_ofFile h
  | false => exact h.pure.2

end Config

namespace Command

/-! ### Ordering a batch -/

section

variable {α : Type} [Record α] {w : World} {format : Format} {settings : OrderSettings}
  {entropy : UInt64} {source : Batch.Source} {output : Option String} {o : Orderer}
  {batch ordered : List α}

theorem run_orderBatch_refused {e : OrderError} (hs : settings.orderer = .error e) :
    (orderBatch α format settings entropy source output : StateM World _).run w =
      (.error (.settings e), w) := by
  unfold orderBatch
  simp only [hs]
  rfl

theorem run_orderBatch_unread {e : Batch.StoreError}
    (hs : settings.orderer = .ok o) (hread : Batch.records α w source = .error e) :
    (orderBatch α format settings entropy source output : StateM World _).run w =
      (.error (.store e), w) := by
  unfold orderBatch
  simp only [hs]
  rw [World.run_bind_of Batch.run_read_eq, hread]
  rfl

theorem run_orderBatch_cycle {e : OrderError} (hs : settings.orderer = .ok o)
    (hread : Batch.records α w source = .ok batch)
    (horder : o.order entropy batch = .error e) :
    (orderBatch α format settings entropy source output : StateM World _).run w =
      (.error (.order source e), w) := by
  unfold orderBatch
  simp only [hs]
  rw [World.run_bind_of Batch.run_read_eq, hread]
  simp only [horder]
  rfl

/-- What has been read and ordered is written or shown, whatever is refused on the way. -/
theorem run_orderBatch_of_read {faults : Faults} {s s' : faults.State}
    (hs : settings.orderer = .ok o)
    (hread : (Batch.read source : Faulty faults (Except Batch.StoreError (List α))).run s =
      (.ok batch, s'))
    (horder : o.order entropy batch = .ok ordered) :
    (orderBatch α format settings entropy source output : Faulty faults _).run s =
      (deliver format output batch.length ordered : Faulty faults _).run s' := by
  unfold orderBatch
  simp only [hs]
  rw [Faulty.run_bind_of hread]
  simp only [horder]

theorem run_orderBatch_ordered (hs : settings.orderer = .ok o)
    (hread : Batch.records α w source = .ok batch)
    (horder : o.order entropy batch = .ok ordered) :
    (orderBatch α format settings entropy source output : StateM World _).run w =
      (deliver format output batch.length ordered : StateM World _).run w := by
  have hrun : (Batch.read source : Faulty .none (Except Batch.StoreError (List α))).run w =
      (.ok batch, w) := by
    rw [← hread]
    exact Batch.run_read_eq
  exact run_orderBatch_of_read hs hrun horder

theorem run_orderBatch_printed (hs : settings.orderer = .ok o)
    (hread : Batch.records α w source = .ok batch)
    (horder : o.order entropy batch = .ok ordered) :
    (orderBatch α format settings entropy source none : StateM World _).run w =
      (.ok (showOrder format batch.length ordered), w) := by
  rw [run_orderBatch_ordered hs hread horder]
  rfl

/-- What is written is not printed; what is printed tells how much was written. -/
theorem run_orderBatch_written {dest : String} {w' : World}
    (hs : settings.orderer = .ok o) (hread : Batch.records α w source = .ok batch)
    (horder : o.order entropy batch = .ok ordered)
    (hwrite : (Batch.write (.ofString dest) ordered : StateM World _).run w = (.ok (), w')) :
    (orderBatch α format settings entropy source (some dest) : StateM World _).run w =
      (.ok (success format ("Wrote " ++ Text.decimal ordered.length ++ " of " ++
        Text.decimal batch.length ++ " records to " ++ dest)), w') := by
  rw [run_orderBatch_ordered hs hread horder]
  unfold deliver
  dsimp only
  rw [World.run_bind_of hwrite]
  rfl

/-- What could be ordered may still not be written. -/
theorem run_orderBatch_unwritten {faults : Faults} {s s₁ s' : faults.State} {dest : String}
    {e : Batch.StoreError} (hs : settings.orderer = .ok o)
    (hread : (Batch.read source : Faulty faults (Except Batch.StoreError (List α))).run s =
      (.ok batch, s₁))
    (horder : o.order entropy batch = .ok ordered)
    (hwrite : (Batch.write (.ofString dest) ordered : Faulty faults _).run s₁ = (.error e, s')) :
    (orderBatch α format settings entropy source (some dest) : Faulty faults _).run s =
      (.error (.store e), s') := by
  rw [run_orderBatch_of_read hs hread horder]
  unfold deliver
  dsimp only
  rw [Faulty.run_bind_of hwrite]
  rfl

end

section

variable {α : Type} [Record α] {faults : Faults} {w w' : World} {format : Format}
  {settings : OrderSettings} {entropy : UInt64} {source : Batch.Source} {dest : String}
  {out : Outcome}

/-- The error comes from writing a batch to a file. -/
def RunError.isWriteError : RunError → Bool
  | .store e => e.isWriteError
  | _ => false

/-- What comes of ordering a batch into a file, whatever is refused. -/
inductive Orders (α : Type) [Record α] (faults : Faults) (settings : OrderSettings)
    (entropy : UInt64) (source : Batch.Source) (dest : String) (w : World) :
    Outcome → World → Prop
  | stopped {f : RunError} (h : f.isWriteError = false) :
      Orders α faults settings entropy source dest w (.error f) w
  | unwritten {ordered : List α} {e : Batch.StoreError} {w' : World}
      (hwrite : (Batch.write (.ofString dest) ordered : Faulty faults _).Yields w (.error e) w') :
      Orders α faults settings entropy source dest w (.error (.store e)) w'
  | written {o : Orderer} {batch ordered : List α} {message : String} {w' : World}
      (hs : settings.orderer = .ok o) (hread : Batch.records α w source = .ok batch)
      (horder : o.order entropy batch = .ok ordered)
      (hwrite : (Batch.write (.ofString dest) ordered : Faulty faults _).Yields w (.ok ()) w') :
      Orders α faults settings entropy source dest w (.ok message) w'

theorem orders_of_yields
    (h : (orderBatch α format settings entropy source (some dest) : Faulty faults _).Yields w out
      w') : Orders α faults settings entropy source dest w out w' := by
  unfold orderBatch at h
  cases hs : settings.orderer with
  | error e =>
    simp only [hs] at h
    obtain ⟨rfl, rfl⟩ := h.pure
    exact .stopped rfl
  | ok o =>
    simp only [hs] at h
    obtain ⟨result, w₁, hread, h⟩ := h.bind
    obtain ⟨hreads, rfl⟩ := Batch.reads_of_yields hread
    cases result with
    | error e =>
      obtain ⟨rfl, rfl⟩ := h.pure
      exact .stopped hreads.not_isWriteError
    | ok batch =>
      dsimp only at h
      cases horder : o.order entropy batch with
      | error e =>
        simp only [horder] at h
        obtain ⟨rfl, rfl⟩ := h.pure
        exact .stopped rfl
      | ok ordered =>
        simp only [horder, deliver] at h
        obtain ⟨written, w₂, hwrite, h⟩ := h.bind
        cases written with
        | error e =>
          obtain ⟨rfl, rfl⟩ := h.pure
          exact .unwritten hwrite
        | ok u =>
          obtain ⟨rfl, rfl⟩ := h.pure
          exact .written hs hreads.records_eq horder hwrite

/-- A batch that was written somewhere has been read and ordered before. -/
theorem write_of_orderBatch {message : String} {o : Orderer} (hs : settings.orderer = .ok o)
    (h : (orderBatch α format settings entropy source (some dest) : StateM World _).run w =
      (.ok message, w')) :
    ∃ batch ordered : List α, Batch.records α w source = .ok batch ∧
      o.order entropy batch = .ok ordered ∧
      (Batch.write (.ofString dest) ordered : StateM World _).run w = (.ok (), w') := by
  cases orders_of_yields (Faulty.yields_none_iff.mpr h) with
  | written hs' hread horder hwrite =>
    obtain rfl := Except.ok.inj (hs.symm.trans hs')
    exact ⟨_, _, hread, horder, Faulty.yields_none_iff.mp hwrite⟩

end

/-! ### The depths of a batch -/

section

variable {α : Type} [Record α] {w : World} {format : Format} {source : Batch.Source}
  {batch : List α}

theorem run_depthsOfBatch_unread {e : Batch.StoreError}
    (hread : Batch.records α w source = .error e) :
    (depthsOfBatch α format source : StateM World _).run w = (.error (.store e), w) := by
  unfold depthsOfBatch
  rw [World.run_bind_of Batch.run_read_eq, hread]
  rfl

theorem run_depthsOfBatch_cycle {e : OrderError} (hread : Batch.records α w source = .ok batch)
    (hresolve : (resolve (batch.map Prioritizable.item)).result = .error e) :
    (depthsOfBatch α format source : StateM World _).run w = (.error (.depths source e), w) := by
  unfold depthsOfBatch
  rw [World.run_bind_of Batch.run_read_eq, hread]
  simp only [hresolve]
  rfl

theorem run_depthsOfBatch_resolved {depths : Depths} (hread : Batch.records α w source = .ok batch)
    (hresolve : (resolve (batch.map Prioritizable.item)).result = .ok depths) :
    (depthsOfBatch α format source : StateM World _).run w =
      (.ok (showDepths format depths.max (depthRows batch depths)), w) := by
  unfold depthsOfBatch
  rw [World.run_bind_of Batch.run_read_eq, hread]
  simp only [hresolve]
  rfl

end

/-! ### Command lines -/

section

variable {m : Type → Type} [Monad m] [FileSystem m]

/-- The order command for a kind of records. -/
def orderKind (kind : Kind) (format : Format) (settings : OrderSettings) (entropy : UInt64)
    (source : Batch.Source) (output : Option String) : m Outcome :=
  match kind with
  | .lease => orderBatch Lease format settings entropy source output
  | .shard => orderBatch ShardInfo format settings entropy source output

/-- The depths command for a kind of records. -/
def depthsKind (kind : Kind) (format : Format) (source : Batch.Source) : m Outcome :=
  match kind with
  | .lease => depthsOfBatch Lease format source
  | .shard => depthsOfBatch ShardInfo format source

theorem perform_order {config : Config} {entropy : UInt64} {inv : Invocation} {input : String}
    {kind : Kind} {overrides : Overrides} {output : Option String}
    (haction : inv.action = .order input kind overrides output) :
    (perform config entropy inv : m Outcome) =
      orderKind kind (inv.format.getD config.defaultFormat) (overrides.apply config.ordering)
        entropy (.ofString input) output := by
  rw [perform, haction]
  cases kind <;> rfl

end

/-- The command line asks for a batch to be ordered parents first, up to a depth, by its options
    or by the configuration that it finds. -/
structure AsksOrder (e : Environment) (inv : Invocation) (w : World) (format : Format)
    (input : String) (kind : Kind) (maxDepth : Option Int64) (output : Option String) : Prop where
  exists_config : ∃ (config : Config) (overrides : Overrides),
    ((Config.load e inv.config : StateM World (Except LoadError Config)).run w).1 = .ok config ∧
      inv.format.getD config.defaultFormat = format ∧
      inv.action = .order input kind overrides output ∧
      (overrides.apply config.ordering).strategy = .parentsFirst ∧
      (overrides.apply config.ordering).maxDepth = maxDepth

/-- The command line asks for the depths of a batch. -/
structure AsksDepths (e : Environment) (inv : Invocation) (w : World) (format : Format)
    (input : String) (kind : Kind) : Prop where
  exists_config : ∃ config : Config,
    ((Config.load e inv.config : StateM World (Except LoadError Config)).run w).1 = .ok config ∧
      inv.format.getD config.defaultFormat = format ∧ inv.action = .depths input kind

section

variable {e : Environment} {inv : Invocation} {w : World} {format : Format} {input : String}
  {kind : Kind} {maxDepth : Option Int64} {output : Option String}

theorem run_orderKind_refused {settings : OrderSettings} {entropy : UInt64}
    {source : Batch.Source} {f : OrderError} (hs : settings.orderer = .error f) :
    (orderKind kind format settings entropy source output : StateM World _).run w =
      (.error (.settings f), w) := by
  cases kind with
  | lease => exact run_orderBatch_refused hs
  | shard => exact run_orderBatch_refused hs

/-- Without a configuration nothing is done, and with one the command is carried out under it. -/
theorem yields_of_run {faults : Faults} {w' : World} {out : Outcome}
    (h : (run e inv : Faulty faults Outcome).Yields w out w') :
    (∃ f, out = .error (.config f) ∧ w = w') ∨
      ∃ config, (Config.load e inv.config : Faulty faults _).Yields w (.ok config) w ∧
        (perform config e.entropy inv : Faulty faults Outcome).Yields w out w' := by
  unfold run at h
  obtain ⟨loaded, w₁, hload, h⟩ := h.bind
  obtain rfl := Config.eq_of_load hload
  cases loaded with
  | error f =>
    obtain ⟨rfl, rfl⟩ := h.pure
    exact .inl ⟨f, rfl, rfl⟩
  | ok config => exact .inr ⟨config, hload, h⟩

theorem run_eq_perform {config : Config}
    (h : ((Config.load e inv.config : StateM World (Except LoadError Config)).run w).1 =
      .ok config) :
    (run e inv : StateM World Outcome).run w =
      (perform config e.entropy inv : StateM World Outcome).run w := by
  rcases hload : (Config.load e inv.config : StateM World (Except LoadError Config)).run w with
    ⟨loaded, w₁⟩
  rw [hload] at h
  obtain rfl : loaded = .ok config := h
  obtain rfl := Config.eq_of_load (Faulty.yields_none_iff.mpr hload)
  unfold run
  rw [World.run_bind_of hload]

theorem AsksOrder.exists_run (h : AsksOrder e inv w format input kind maxDepth output) :
    ∃ settings : OrderSettings,
      settings.orderer = (ParentsFirst.ofMaxDepth maxDepth).map .parentsFirst ∧
        (run e inv : StateM World Outcome).run w =
          (orderKind kind format settings e.entropy (.ofString input) output :
            StateM World _).run w := by
  obtain ⟨config, overrides, hload, hformat, haction, hstrategy, hdepth⟩ := h.exists_config
  refine ⟨overrides.apply config.ordering, ?_, ?_⟩
  · rw [OrderSettings.orderer, hstrategy, hdepth]
  · rw [run_eq_perform hload, perform_order haction, hformat]

theorem AsksDepths.run_eq (h : AsksDepths e inv w format input kind) :
    (run e inv : StateM World Outcome).run w =
      (depthsKind kind format (.ofString input) : StateM World _).run w := by
  obtain ⟨config, hload, hformat, haction⟩ := h.exists_config
  rw [run_eq_perform hload, perform, haction, hformat]
  cases kind <;> rfl

end

end Command

end LeaseOrder
