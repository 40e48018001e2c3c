/-
What the log of an order accounts for.

A record is a repeat, or it is the first one with its ID and then completed, too deep, or handed
out.  Which of these it is comes out in two places: the repeats while the batch is loaded, the
others while it is sifted.  The log has a line for each repeat and for each record that lies too
deep, and its last line counts the others, so `Accounts` asks for the four numbers to add up to the
batch.  They do since `verdict` puts each record in one class, and both places go by it.

Between the warnings and the rest, the log tells of each shard that has settled; `Proofs.Depth.Log`
is about these lines.
-/
import Mathlib.Data.List.Permutation
import LeaseOrder.Proofs.Depth.Log
import LeaseOrder.Proofs.Order.Firsts

namespace LeaseOrder

open Ancestry Prioritizable

variable {α : Type} [Prioritizable α]

/-! ### Records with a property -/

omit [Prioritizable α] in
/-- The records of a batch that have a property, with their positions, in batch order. -/
structure Lists (batch : List α) (P : Nat → α → Prop) (found : List (α × Nat)) : Prop where
  mem_iff : ∀ x i, (x, i) ∈ found ↔ batch[i]? = some x ∧ P i x
  ascending : (found.map Prod.snd).Pairwise (· < ·)

omit [Prioritizable α] in
theorem lists_filter {batch : List α} {P : Nat → α → Prop} {test : α × Nat → Bool}
    (h : ∀ i x, batch[i]? = some x → (test (x, i) = true ↔ P i x)) :
    Lists batch P (batch.zipIdx.filter test) where
  mem_iff := by
    intro x i
    rw [List.mem_filter, List.mem_zipIdx_iff_getElem?]
    exact and_congr_right fun hx => h i x hx
  ascending := by
    have hall : (batch.zipIdx.map Prod.snd).Pairwise (· < ·) := by
      rw [List.zipIdx_map_snd]
      exact List.pairwise_lt_range'
    exact hall.sublist (List.filter_sublist.map _)

/-- The ID of a record occurs before its position. -/
def Repeats (batch : List α) (i : Nat) (x : α) : Prop :=
  ∃ j < i, ∃ y, batch[j]? = some y ∧ (item y).id = (item x).id

theorem repeats_iff {batch : List α} {i : Nat} {x : α} (hx : batch[i]? = some x) :
    Repeats batch i x ↔ isFresh (batch.map item) i (item x).id = false := by
  have hget : (batch.map item)[i]? = some (item x) := by
    rw [List.getElem?_map, hx, Option.map_some]
  rw [← Bool.not_eq_true, ← not_iff_not, not_not]
  refine ⟨?_, ?_⟩
  · intro h
    refine (firstAt_iff.mp ⟨hget, fun j y hj hy hid => h ?_⟩).2
    rw [List.getElem?_map, Option.map_eq_some_iff] at hy
    obtain ⟨z, hz, rfl⟩ := hy
    exact ⟨j, hj, z, hz, hid⟩
  · intro h hrepeats
    obtain ⟨j, hj, y, hy, hid⟩ := hrepeats
    have hyget : (batch.map item)[j]? = some (item y) := by
      rw [List.getElem?_map, hy, Option.map_some]
    exact (firstAt_iff.mpr ⟨hget, h⟩).fresh j (item y) hj hyget hid

/-! ### The events of loading a batch -/

/-- The records that repeat an ID, with their positions. -/
def repeated (batch : List α) : List (α × Nat) :=
  batch.zipIdx.filter fun p => !isFresh (batch.map item) p.2 (item p.1).id

/-- The warning of a repeat. -/
def warning (p : α × Nat) : Event :=
  .duplicate (item p.1).id p.2

theorem lists_repeated (batch : List α) : Lists batch (Repeats batch) (repeated batch) :=
  lists_filter fun i x hx => by rw [repeats_iff hx, Bool.not_eq_true']

theorem warnings_ofBatch (batch : List α) :
    (Graph.ofBatch (batch.map item)).warnings = (repeated batch).map warning := by
  rw [Graph.warnings, Graph.repeats, Graph.entries_ofBatch, List.zipIdx_map, List.map_map,
    List.filter_map, List.map_map]
  rfl

/-- The event of a shard that has settled. -/
def settlement (p : String × Nat) : Event :=
  .resolved p.1 p.2

/-- The shards that have settled, with their depths. -/
def settlements (batch : List α) : List (String × Nat) :=
  resolutions (resolve (batch.map item)).events

theorem events_resolve (batch : List α) : (resolve (batch.map item)).events =
    (repeated batch).map warning ++ (settlements batch).map settlement := by
  rw [settlements, resolutions_resolve, ← warnings_ofBatch]
  rfl

theorem topological_settlements (batch : List α) :
    Topological (batch.map item) (settlements batch) := by
  obtain ⟨v, hlogs, hsettled, -⟩ := Walk.ofGraph_logs (batch.map item)
  rw [settlements, resolutions_resolve, hsettled]
  exact hlogs.topological

/-- All open shards settle where nothing fails. -/
theorem mem_settlements {batch : List α} {depths : Depths}
    (h : (resolve (batch.map item)).result = .ok depths) (id : String) :
    id ∈ (settlements batch).map Prod.fst ↔ IsOpen (batch.map item) id := by
  obtain ⟨v, hlogs, hsettled, hall⟩ := Walk.ofGraph_logs (batch.map item)
  rw [settlements, resolutions_resolve, hsettled, hlogs.mem_map_fst]
  refine and_iff_left_of_imp fun hopen => ?_
  obtain ⟨x, hx, -⟩ := hopen
  refine hall ?_ id (by rw [hx]; rfl)
  unfold resolve Graph.resolve at h
  cases hwalk : (Walk.ofGraph (.ofBatch (batch.map item))).2 with
  | none => rfl
  | some named => simp [hwalk] at h

namespace ParentsFirst

/-! ### The verdict on a record -/

namespace Verdict

/-- An earlier record has the same ID. -/
def isRepeated : Verdict → Bool
  | .repeated => true
  | _ => false

/-- Nothing is left to assign. -/
def isCompleted : Verdict → Bool
  | .completed => true
  | _ => false

/-- The shard lies deeper than the bound. -/
def isTooDeep : Verdict → Bool
  | .tooDeep _ => true
  | _ => false

/-- The shard is handed out. -/
def isKept : Verdict → Bool
  | .kept _ => true
  | _ => false

/-- A verdict is of one kind. -/
theorem one_kind (v : Verdict) :
    (if v.isKept then 1 else 0) + (if v.isCompleted then 1 else 0) +
      (if v.isTooDeep then 1 else 0) + (if v.isRepeated then 1 else 0) = 1 := by
  cases v <;> rfl

end Verdict

omit [Prioritizable α] in
/-- The numbers of the four kinds add up. -/
theorem countP_verdicts (judged : List (α × Verdict)) :
    judged.countP (fun p => p.2.isKept) + judged.countP (fun p => p.2.isCompleted) +
      judged.countP (fun p => p.2.isTooDeep) + judged.countP (fun p => p.2.isRepeated) =
        judged.length := by
  induction judged with
  | nil => rfl
  | cons p rest ih =>
    have hone := p.2.one_kind
    simp only [List.countP_cons, List.length_cons]
    omega

section

variable (s : ParentsFirst) (batch : List α) (depth : String → Nat)

/-- The verdict on the record at a position of a batch with these depths. -/
def verdict (i : Nat) (x : α) : Verdict :=
  s.judge (item x)
    (if isFresh (batch.map item) i (item x).id then some (depth (item x).id) else none)

/-- The records with some kind of verdict, with their positions. -/
def sifted (test : Verdict → Bool) : List (α × Nat) :=
  batch.zipIdx.filter fun p => test (s.verdict batch depth p.2 p.1)

theorem judgeAll_layout : s.judgeAll batch (.layout (batch.map item) depth) =
    batch.zipIdx.map fun p => (p.1, s.verdict batch depth p.2 p.1) := by
  rw [judgeAll, zip_layout, List.map_map]
  rfl

theorem length_sifted (test : Verdict → Bool) : (s.sifted batch depth test).length =
    (s.judgeAll batch (.layout (batch.map item) depth)).countP fun p => test p.2 := by
  rw [judgeAll_layout, List.countP_map, List.countP_eq_length_filter]
  rfl

/-- The four kinds of records, each with its verdict. -/
inductive Judged (i : Nat) (x : α) : Verdict → Prop
  | repeated (hrepeats : Repeats batch i x) : Judged i x .repeated
  | completed (hfirst : ¬ Repeats batch i x) (hc : (item x).completed = true) :
      Judged i x .completed
  | tooDeep (hfirst : ¬ Repeats batch i x) (hopen : (item x).completed = false)
      (hdeep : s.maxDepth.toNat < depth (item x).id) : Judged i x (.tooDeep (depth (item x).id))
  | kept (hfirst : ¬ Repeats batch i x) (hopen : (item x).completed = false)
      (hwithin : depth (item x).id ≤ s.maxDepth.toNat) : Judged i x (.kept (depth (item x).id))

variable {s batch depth} {i : Nat} {x : α}

theorem judged_verdict (hx : batch[i]? = some x) :
    Judged s batch depth i x (s.verdict batch depth i x) := by
  have hrepeats := repeats_iff hx
  unfold verdict
  cases hfresh : isFresh (batch.map item) i (item x).id with
  | false => exact .repeated (hrepeats.mpr hfresh)
  | true =>
    have hfirst : ¬ Repeats batch i x := by simp [hrepeats, hfresh]
    rw [if_pos rfl, judge]
    by_cases hc : (item x).completed = true
    · rw [if_pos hc]
      exact .completed hfirst hc
    · rw [if_neg hc]
      have hopen : (item x).completed = false := by simpa using hc
      by_cases hdeep : s.maxDepth.toNat < depth (item x).id
      · rw [if_pos hdeep]
        exact .tooDeep hfirst hopen hdeep
      · rw [if_neg hdeep]
        exact .kept hfirst hopen (Nat.le_of_not_lt hdeep)

/-- A record has a kind by its verdict, and a verdict by its kind. -/
theorem exists_judged (s : ParentsFirst) (depth : String → Nat) (hx : batch[i]? = some x) :
    ∃ v, s.verdict batch depth i x = v ∧ Judged s batch depth i x v :=
  ⟨_, rfl, judged_verdict hx⟩

/-- The repeats among the verdicts are those of which loading the batch warns. -/
@[simp] theorem sifted_isRepeated : s.sifted batch depth Verdict.isRepeated = repeated batch := by
  refine List.filter_congr fun p hp => ?_
  obtain ⟨x, i⟩ := p
  have hx : batch[i]? = some x := List.mem_zipIdx_iff_getElem?.mp hp
  obtain ⟨v, hv, hkind⟩ := exists_judged s depth hx
  rw [hv, Bool.eq_iff_iff, Bool.not_eq_true', ← repeats_iff hx]
  cases hkind with
  | repeated hrepeats => simp [Verdict.isRepeated, hrepeats]
  | completed hfirst _ => simp [Verdict.isRepeated, hfirst]
  | tooDeep hfirst _ _ => simp [Verdict.isRepeated, hfirst]
  | kept hfirst _ _ => simp [Verdict.isRepeated, hfirst]

theorem lists_completed (s : ParentsFirst) (batch : List α) (depth : String → Nat) : Lists batch
    (fun i x => ¬ Repeats batch i x ∧ (item x).completed = true)
    (s.sifted batch depth Verdict.isCompleted) := by
  refine lists_filter fun i x hx => ?_
  obtain ⟨v, hv, hkind⟩ := exists_judged s depth hx
  rw [hv]
  cases hkind with
  | repeated hrepeats => simp [Verdict.isCompleted, hrepeats]
  | completed hfirst hc => simp [Verdict.isCompleted, hfirst, hc]
  | tooDeep _ hopen _ => simp [Verdict.isCompleted, hopen]
  | kept _ hopen _ => simp [Verdict.isCompleted, hopen]

theorem lists_tooDeep (s : ParentsFirst) (batch : List α) (depth : String → Nat) : Lists batch
    (fun i x => ¬ Repeats batch i x ∧ (item x).completed = false ∧
      s.maxDepth.toNat < depth (item x).id)
    (s.sifted batch depth Verdict.isTooDeep) := by
  refine lists_filter fun i x hx => ?_
  obtain ⟨v, hv, hkind⟩ := exists_judged s depth hx
  rw [hv]
  cases hkind with
  | repeated hrepeats => simp [Verdict.isTooDeep, hrepeats]
  | completed _ hc => simp [Verdict.isTooDeep, hc]
  | tooDeep hfirst hopen hdeep => simp [Verdict.isTooDeep, hfirst, hopen, hdeep]
  | kept _ _ hwithin => simp [Verdict.isTooDeep, Nat.not_lt.mpr hwithin]

/-! ### The events of sifting a batch -/

/-- The event of a record that lies too deep. -/
def exclusion (s : ParentsFirst) (depth : String → Nat) (p : α × Nat) : Event :=
  .excluded (item p.1).id (depth (item p.1).id) s.maxDepth

/-- The events of the records that lie too deep. -/
def exclusions (s : ParentsFirst) (judged : List (α × Verdict)) : List Event :=
  judged.filterMap fun p => match p.2 with
    | .tooDeep d => some (.excluded (item p.1).id d s.maxDepth)
    | _ => none

theorem report_eq (judged : List (α × Verdict)) :
    s.report judged = s.exclusions judged ++
      [.prioritized judged.length (rank judged).length
        (judged.countP fun p => p.2 = .completed) (s.exclusions judged).length s.maxDepth] := rfl

theorem exclusions_layout :
    s.exclusions (s.judgeAll batch (.layout (batch.map item) depth)) =
      (s.sifted batch depth Verdict.isTooDeep).map (s.exclusion depth) := by
  rw [exclusions, judgeAll_layout, List.filterMap_map, sifted, ← List.filterMap_eq_map,
    List.filterMap_filter]
  refine List.filterMap_congr fun p hp => ?_
  obtain ⟨x, i⟩ := p
  obtain ⟨v, hv, hkind⟩ :=
    exists_judged s depth (List.mem_zipIdx_iff_getElem?.mp hp)
  simp only [Function.comp_apply, hv]
  cases hkind <;> rfl

/-- Sorting by depth loses none of the records that are kept. -/
theorem length_handout : (s.handout batch depth).length =
    (s.sifted batch depth Verdict.isKept).length := by
  rw [handout, rank_eq, List.length_mergeSort, kept, List.length_filterMap_eq_countP,
    length_sifted]
  refine List.countP_congr fun p _ => ?_
  obtain ⟨x, v⟩ := p
  cases v <;> simp [Verdict.isKept]

theorem report_layout : s.report (s.judgeAll batch (.layout (batch.map item) depth)) =
    (s.sifted batch depth Verdict.isTooDeep).map (s.exclusion depth) ++
      [.prioritized batch.length (s.handout batch depth).length
        (s.sifted batch depth Verdict.isCompleted).length
        (s.sifted batch depth Verdict.isTooDeep).length s.maxDepth] := by
  have hcompleted : (s.judgeAll batch (.layout (batch.map item) depth)).countP
      (fun p => p.2 = .completed) = (s.sifted batch depth Verdict.isCompleted).length := by
    rw [length_sifted]
    refine List.countP_congr fun p _ => ?_
    obtain ⟨x, v⟩ := p
    cases v <;> simp [Verdict.isCompleted]
  have hlength : (s.judgeAll batch (.layout (batch.map item) depth)).length = batch.length := by
    rw [judgeAll_layout, List.length_map, List.length_zipIdx]
  rw [report_eq, exclusions_layout, hcompleted, hlength, List.length_map]
  rfl

/-- **The four kinds make up the batch.** -/
theorem length_kinds : (s.handout batch depth).length +
    (s.sifted batch depth Verdict.isCompleted).length +
    (s.sifted batch depth Verdict.isTooDeep).length + (repeated batch).length = batch.length := by
  have hcount := countP_verdicts (s.judgeAll batch (.layout (batch.map item) depth))
  rw [← length_sifted, ← length_sifted, ← length_sifted, ← length_sifted, sifted_isRepeated,
    ← length_handout, judgeAll_layout, List.length_map, List.length_zipIdx] at hcount
  exact hcount

/-! ### Whole logs -/

/-- A log that accounts for a batch with these depths, of which so many records are handed out: a
    warning for each repeat, then whatever comes between, then an event for each open shard deeper
    than the bound, and last the count of all. -/
structure Accounts (s : ParentsFirst) (batch : List α) (depth : String → Nat) (handed : Nat)
    (between events : List Event) : Prop where
  exists_lists : ∃ repeats completed tooDeep : List (α × Nat),
    Lists batch (Repeats batch) repeats ∧
      Lists batch (fun i x => ¬ Repeats batch i x ∧ (item x).completed = true) completed ∧
      Lists batch (fun i x => ¬ Repeats batch i x ∧ (item x).completed = false ∧
        s.maxDepth.toNat < depth (item x).id) tooDeep ∧
      events = repeats.map warning ++ between ++
        tooDeep.map (s.exclusion depth) ++
        [.prioritized batch.length handed completed.length tooDeep.length s.maxDepth] ∧
      handed + completed.length + tooDeep.length + repeats.length = batch.length

theorem events_of_law (law : DepthLaw (batch.map item) depth) :
    (s.prioritize batch).events =
      (repeated batch).map warning ++ (settlements batch).map settlement ++
        s.report (s.judgeAll batch (.layout (batch.map item) depth)) := by
  rw [prioritize, Logged.map, prioritizeRanked, ← events_resolve]
  simp only [resolve_of_law law]

theorem accounts_of_law (law : DepthLaw (batch.map item) depth) :
    s.Accounts batch depth (s.handout batch depth).length ((settlements batch).map settlement)
      (s.prioritize batch).events where
  exists_lists := by
    refine ⟨_, _, _, lists_repeated batch, lists_completed s batch depth,
      lists_tooDeep s batch depth, ?_, length_kinds⟩
    rw [events_of_law law, report_layout, ← List.append_assoc]

theorem prioritize_eq_of_error {e : OrderError}
    (h : (resolve (batch.map item)).result = .error e) : s.prioritize batch =
      ⟨(repeated batch).map warning ++ (settlements batch).map settlement, .error e⟩ := by
  rw [prioritize, Logged.map, prioritizeRanked, ← events_resolve]
  simp only [h]
  rfl

/-- **The log accounts for every record.**  An order that succeeds warns of each position whose ID
    occurs before it, tells of each open first record deeper than the bound at its depth, and
    counts in the end what it hands out, the first records that are completed, and those that lie
    too deep; with the repeats these are all of the batch.  In between it tells of the open shards
    as they settle.  An order that fails gives the same warnings, tells of the shards that have
    settled by then, and ends there. -/
theorem prioritize_log (s : ParentsFirst) (batch : List α) :
    (∃ depth settled ordered, DepthLaw (batch.map item) depth ∧
        (resolve (batch.map item)).result = .ok (.layout (batch.map item) depth) ∧
        Topological (batch.map item) settled ∧
        (∀ id, id ∈ settled.map Prod.fst ↔ IsOpen (batch.map item) id) ∧
        (s.prioritize batch).result = .ok ordered ∧
        s.Accounts batch depth ordered.length (settled.map settlement)
          (s.prioritize batch).events) ∨
      ∃ e repeats settled, (s.prioritize batch).result = .error e ∧
        Lists batch (Repeats batch) repeats ∧ Topological (batch.map item) settled ∧
        (s.prioritize batch).events = repeats.map warning ++ settled.map settlement := by
  have htop := topological_settlements batch
  rcases resolve_spec (batch.map item) with ⟨depth, law, hok⟩ | ⟨id, -, herr⟩
  · refine Or.inl ⟨depth, settlements batch, _, law, hok, htop, mem_settlements hok,
      prioritize_of_law law, ?_⟩
    rw [List.length_map]
    exact accounts_of_law law
  · have hfailed := prioritize_eq_of_error (s := s) herr
    exact Or.inr ⟨_, repeated batch, settlements batch, by rw [hfailed], lists_repeated batch, htop,
      by rw [hfailed]⟩

/-- A shard without parents. -/
def loneShard : Item := ⟨"a", [], false⟩

/-- The log of one shard has a line between: without it, it would not be the whole log. -/
theorem log_of_loneShard :
    (unbounded.prioritize [loneShard]).result = .ok [loneShard] ∧
      (unbounded.prioritize [loneShard]).events =
        [.resolved "a" 1, .prioritized 1 1 0 0 unbounded.maxDepth] ∧
      ∀ depth, ¬ unbounded.Accounts [loneShard] depth 1 []
        (unbounded.prioritize [loneShard]).events := by
  have hevents : (unbounded.prioritize [loneShard]).events =
      [.resolved "a" 1, .prioritized 1 1 0 0 unbounded.maxDepth] := by cbv
  refine ⟨by cbv, hevents, fun depth haccounts => ?_⟩
  obtain ⟨repeats, completed, tooDeep, -, -, -, hsplit, -⟩ := haccounts
  have hmem : Event.resolved "a" 1 ∈ (unbounded.prioritize [loneShard]).events := by
    rw [hevents]
    exact List.mem_cons_self
  rw [hsplit] at hmem
  simp [warning, exclusion] at hmem

end

end ParentsFirst

end LeaseOrder
