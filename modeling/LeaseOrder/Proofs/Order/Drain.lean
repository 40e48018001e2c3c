/-
Working a batch off.

A worker orders a batch, takes any shard of depth one, processes it to its end, and
orders the batch again.  `Drain.Run` holds of the batches that come about this way.  A
shard that is processed to its end eases the batch: what was not its own ancestor
before is not its own ancestor after.  So ordering never fails, and an open shard at
depth one can be taken until none is open.
-/
import LeaseOrder.Proofs.Order.ParentsFirst
import LeaseOrder.Shard.Info
import LeaseOrder.Shard.Lease

namespace LeaseOrder

open Ancestry

/-- Records that can be processed to their end, which changes nothing else about them. -/
class Finishable (α : Type) extends Prioritizable α where
  finish : α → α
  item_finish : ∀ x, item (finish x) = { item x with completed := true }

open Prioritizable Finishable

instance : Finishable Lease where
  toPrioritizable := inferInstance
  finish l := l.withCheckpoint .shardEnd
  item_finish _ := rfl

instance : Finishable ShardInfo where
  toPrioritizable := inferInstance
  finish s := s.withCheckpoint .shardEnd
  item_finish _ := rfl

/-! ### One shard less -/

/-- The item with this ID is completed. -/
def Item.close (id : String) (x : Item) : Item :=
  if x.id = id then { x with completed := true } else x

@[simp] theorem Item.id_close (id : String) (x : Item) : (x.close id).id = x.id := by
  unfold close
  split <;> rfl

/-- Completing an item eases the batch. -/
theorem eases_close (batch : List Item) (id : String) :
    Eases (batch.map (Item.close id)) batch := by
  intro q x hx hopen
  rw [first?_map (Item.id_close id), Option.map_eq_some_iff] at hx
  obtain ⟨y, hy, rfl⟩ := hx
  refine ⟨y, hy, ?_, ?_⟩
  · unfold Item.close at hopen
    by_cases hid : y.id = id
    · simp [hid] at hopen
    · rwa [if_neg hid] at hopen
  · unfold Item.close
    split <;> exact fun p hp => hp

namespace Drain

variable {α : Type} [Finishable α]

/-- The batch with the shard with this ID processed to its end. -/
def retire (id : String) (batch : List α) : List α :=
  batch.map fun x => if (item x).id = id then finish x else x

@[simp] theorem items_retire (id : String) (batch : List α) :
    (retire id batch).map item = (batch.map item).map (Item.close id) := by
  rw [retire, List.map_map, List.map_map]
  refine List.map_congr_left fun x _ => ?_
  show item (if (item x).id = id then finish x else x) = (item x).close id
  unfold Item.close
  by_cases hid : (item x).id = id
  · rw [if_pos hid, if_pos hid, item_finish]
  · rw [if_neg hid, if_neg hid]

/-- The IDs of a batch, in order. -/
def ids (batch : List α) : List String :=
  (batch.map item).map Item.id

@[simp] theorem ids_retire (id : String) (batch : List α) : ids (retire id batch) = ids batch := by
  simp [ids, Function.comp_def]

/-- The number of open records of a batch. -/
def unfinished (batch : List α) : Nat :=
  batch.countP fun x => !(item x).completed

/-- Retiring an open shard leaves one open shard less. -/
theorem unfinished_retire {x : α} :
    ∀ (batch : List α), (ids batch).Nodup → x ∈ batch → (item x).completed = false →
      unfinished (retire (item x).id batch) + 1 = unfinished batch := by
  intro batch
  induction batch with
  | nil => intro _ hx; simp at hx
  | cons y rest ih =>
      intro hnodup hx hopen
      obtain ⟨hfresh, hnodup⟩ := List.nodup_cons.mp hnodup
      unfold unfinished retire at ih ⊢
      rw [List.map_cons, List.countP_cons, List.countP_cons]
      rcases List.mem_cons.mp hx with rfl | hx
      · -- The other records have other IDs, so they stay as they are.
        have hsame : ∀ y ∈ rest, (if (item y).id = (item x).id then finish y else y) = y := by
          intro y hy
          refine if_neg fun hid => hfresh ?_
          rw [← hid]
          exact List.mem_map_of_mem (List.mem_map_of_mem hy)
        have hrest : (rest.map fun y => if (item y).id = (item x).id then finish y else y) =
            rest := by
          rw [List.map_congr_left hsame, List.map_id']
        rw [hrest, if_pos rfl, item_finish]
        simp [hopen]
      · have hne : (item y).id ≠ (item x).id := by
          intro hid
          refine hfresh ?_
          rw [hid]
          exact List.mem_map_of_mem (List.mem_map_of_mem hx)
        rw [if_neg hne, ← ih hnodup hx hopen]
        omega

/-! ### One round -/

/-- A batch that can be ordered, with one record for each ID. -/
structure Fit (batch : List α) : Prop where
  nodup : (ids batch).Nodup
  lawful : ∃ depth, DepthLaw (batch.map item) depth

theorem Fit.retire {batch : List α} (h : Fit batch) (id : String) : Fit (retire id batch) := by
  obtain ⟨hnodup, depth, law⟩ := h
  refine ⟨?_, ?_⟩
  · simpa using hnodup
  · rw [items_retire]
    exact exists_law_of_eases (eases_close _ id) law

variable {s : ParentsFirst} {batch : List α} {depth : String → Nat}

theorem first?_item (hnodup : (ids batch).Nodup) {x : α} (hx : x ∈ batch) :
    first? (batch.map item) (item x).id = some (item x) :=
  first?_of_nodup hnodup (List.mem_map_of_mem hx)

/-- **A shard at depth one has no open parent.** -/
theorem parent_completed (hnodup : (ids batch).Nodup) (law : DepthLaw (batch.map item) depth)
    {x : α} (hx : (1, x) ∈ s.handout batch depth) {y : α} (hy : y ∈ batch)
    (hparent : (item y).id ∈ (item x).parents) : (item y).completed = true := by
  obtain ⟨⟨i, -, hfirst⟩, hopen, hdepth, -⟩ := ParentsFirst.mem_handout.mp hx
  by_contra hc
  have hawaits : Awaits (batch.map item) (item x).id (item y).id :=
    ⟨item x, hfirst.first?, hopen, hparent, item y, first?_item hnodup hy, by simpa using hc⟩
  have hlt := law.lt_of_awaits hawaits
  have hpos := law.pos_of_isOpen hawaits.parent_isOpen
  omega

/-- **Some shard at depth one comes first as long as any shard is open.** -/
theorem handout_eq_cons (hs : 0 < s.maxDepth.toNat) (law : DepthLaw (batch.map item) depth)
    {id : String} (hopen : IsOpen (batch.map item) id) :
    ∃ y rest, s.handout batch depth = (1, y) :: rest := by
  obtain ⟨x, hmem⟩ := ParentsFirst.exists_mem_handout_one hs law hopen
  have hsorted : (s.handout batch depth).Pairwise fun a b => a.1 ≤ b.1 :=
    ParentsFirst.pairwise_handout
  have hpositive : ∀ p ∈ s.handout batch depth, 0 < p.1 := fun p hp =>
    ParentsFirst.pos_of_mem_handout law hp
  cases hranked : s.handout batch depth with
  | nil =>
      rw [hranked] at hmem
      simp at hmem
  | cons head rest =>
      obtain ⟨d, z⟩ := head
      rw [hranked] at hsorted hmem hpositive
      have hle : d ≤ 1 := ParentsFirst.head_depth_le hsorted hmem
      have hge : 0 < d := hpositive (d, z) List.mem_cons_self
      obtain rfl : d = 1 := by omega
      exact ⟨z, rest, rfl⟩

/-- Nothing is left to be finished where no shard is open. -/
theorem unfinished_eq_zero_iff (hnodup : (ids batch).Nodup) :
    unfinished batch = 0 ↔ ∀ id, ¬ IsOpen (batch.map item) id := by
  have hopen : unfinished batch = 0 ↔ ∀ x ∈ batch, (item x).completed = true := by
    simp [unfinished]
  rw [hopen]
  refine ⟨?_, ?_⟩
  · intro hall id hid
    obtain ⟨y, hy, hc⟩ := hid
    obtain ⟨x, hx, rfl⟩ := List.mem_map.mp (List.mem_of_find?_eq_some hy)
    rw [hall x hx] at hc
    cases hc
  · intro hnone x hx
    by_contra hc
    exact hnone _ ⟨item x, first?_item hnodup hx, by simpa using hc⟩

/-! ### Whole runs -/

/-- The batches that come about by taking shards of depth one, with the shards taken,
    latest first. -/
inductive Run (s : ParentsFirst) (b : List α) : List α → List α → Prop
  | start : Run s b [] b
  | pick {picks b' : List α} {ranked : List (Nat × α)} {x : α} (h : Run s b picks b')
      (hranked : (s.prioritizeRanked b').result = .ok ranked) (hx : (1, x) ∈ ranked) :
      Run s b (x :: picks) (retire (item x).id b')

variable {b b' picks : List α}

theorem Run.fit (h : Run s b picks b') (hb : Fit b) : Fit b' := by
  induction h with
  | start => exact hb
  | pick _ _ _ ih => exact ih.retire _

/-- Every shard that is taken was open. -/
theorem Run.length_add_unfinished (h : Run s b picks b') (hb : Fit b) :
    picks.length + unfinished b' = unfinished b := by
  induction h with
  | start => exact Nat.zero_add _
  | @pick picks b' ranked x h hranked hx ih =>
      obtain ⟨depth, law, rfl⟩ := ParentsFirst.prioritizeRanked_ok hranked
      obtain ⟨⟨i, hi, -⟩, hopen, -⟩ := ParentsFirst.mem_handout.mp hx
      have hone := unfinished_retire b' (h.fit hb).nodup (List.mem_of_getElem? hi) hopen
      rw [List.length_cons]
      omega

/-- **A batch can be worked off.**  However the shards of depth one are taken, ordering
    never fails, a shard of depth one comes first until no shard is open, a shard that can
    be taken has no open parent, and nothing is left after as many shards as were open. -/
theorem run_safe_and_complete {m : Option Int64} (hs : ParentsFirst.ofMaxDepth m = .ok s)
    (hnodup : (b.map fun x => (item x).id).Nodup) {r : List α}
    (hr : (s.prioritize b).result = .ok r) (h : Run s b picks b') :
    ∃ ranked, (s.prioritizeRanked b').result = .ok ranked ∧
      (s.prioritize b').result = .ok (ranked.map Prod.snd) ∧
      ((∃ x ∈ b', (item x).completed = false) → ∃ y rest, ranked = (1, y) :: rest) ∧
      (∀ x, (1, x) ∈ ranked → ∀ p ∈ (item x).parents, ∀ y ∈ b', (item y).id = p →
        (item y).completed = true) ∧
      picks.length + unfinished b' = unfinished b ∧
      (ranked = [] ↔ picks.length = unfinished b) := by
  obtain ⟨start, lawb, -⟩ := ParentsFirst.prioritize_ok hr
  have hb : Fit b := ⟨by rw [ids, List.map_map]; exact hnodup, start, lawb⟩
  have hpos := ParentsFirst.maxDepth_pos hs
  obtain ⟨hnodup', depth, law⟩ := h.fit hb
  have hcount := h.length_add_unfinished hb
  refine ⟨s.handout b' depth, ParentsFirst.prioritizeRanked_of_law law,
    ParentsFirst.prioritize_of_law law, ?_, ?_, hcount, ?_⟩
  · intro hopen
    obtain ⟨x, hx, hc⟩ := hopen
    exact handout_eq_cons hpos law ⟨item x, first?_item hnodup' hx, hc⟩
  · intro x hx p hp y hy hid
    exact parent_completed hnodup' law hx hy (by rw [hid]; exact hp)
  · rw [ParentsFirst.handout_eq_nil_iff hpos law, ← unfinished_eq_zero_iff hnodup']
    omega

/-- The lease on a shard without parents. -/
def parentLease : Lease :=
  .new ⟨"a", by decide, by decide, List.forall_mem_singleton.mpr (by decide)⟩

/-- The lease on its child. -/
def childLease : Lease :=
  (Lease.new ⟨"b", by decide, by decide, List.forall_mem_singleton.mpr (by decide)⟩).withParents
    [parentLease.key]

/-- The depths of the two shards. -/
def familyDepth (id : String) : Nat :=
  if id = "b" then 2 else 1

theorem run_safe_and_complete_family :
    Run ⟨1⟩ [childLease, parentLease] [parentLease]
        [childLease, parentLease.withCheckpoint .shardEnd] ∧
      ∃ y rest, (ParentsFirst.prioritizeRanked ⟨1⟩
        [childLease, parentLease.withCheckpoint .shardEnd]).result = .ok ((1, y) :: rest) := by
  have law : DepthLaw ([childLease, parentLease].map item) familyDepth := by decide
  have hpick : ParentsFirst.handout ⟨1⟩ [childLease, parentLease] familyDepth =
      [(1, parentLease)] := by
    have hjudged : ParentsFirst.judgeAll ⟨1⟩ [childLease, parentLease]
        (.layout ([childLease, parentLease].map item) familyDepth) =
          [(childLease, .tooDeep 2), (parentLease, .kept 1)] := by decide
    rw [ParentsFirst.handout, hjudged]
    simp [ParentsFirst.rank]
  have hranked := ParentsFirst.prioritizeRanked_of_law (s := ⟨1⟩) law
  have hrun : Run ⟨1⟩ [childLease, parentLease] [parentLease]
      [childLease, parentLease.withCheckpoint .shardEnd] :=
    .pick .start hranked (by rw [hpick]; exact List.mem_singleton_self _)
  have hok := ParentsFirst.prioritize_of_law (s := ⟨1⟩) law
  have hbound : ParentsFirst.ofMaxDepth (some 1) = .ok ⟨1⟩ := by decide
  obtain ⟨ranked, hresult, -, hprogress, -⟩ :=
    run_safe_and_complete hbound (by decide) hok hrun
  obtain ⟨y, rest, rfl⟩ := hprogress ⟨childLease, by simp, by decide⟩
  exact ⟨hrun, y, rest, hresult⟩

end Drain

end LeaseOrder
