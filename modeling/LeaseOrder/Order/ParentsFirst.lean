/-
The parents-first order.

Every shard comes after its unfinished parents.  Completed shards are left out, since
nothing of them is left to assign, and so are shards with too many unfinished
generations above them.  Shards of one depth keep their order in the batch.
-/
import LeaseOrder.Depth.Resolve

namespace LeaseOrder

/-- The parents-first order with the greatest depth that it hands out. -/
structure ParentsFirst where
  maxDepth : UInt64
deriving DecidableEq, Repr

namespace ParentsFirst

/-- The order up to a depth, which has to be positive. -/
def upTo (maxDepth : Int64) : Except OrderError ParentsFirst :=
  if maxDepth ≤ 0 then .error (.invalidMaxDepth maxDepth) else .ok ⟨maxDepth.toUInt64⟩

/-- The order without a bound: no batch is as deep as the greatest word. -/
def unbounded : ParentsFirst := ⟨18446744073709551615⟩

/-- The order has no bound. -/
def isUnbounded (s : ParentsFirst) : Bool :=
  s.maxDepth == unbounded.maxDepth

/-- The order up to a depth, or without a bound where none is given. -/
def ofMaxDepth : Option Int64 → Except OrderError ParentsFirst
  | some n => upTo n
  | none => .ok unbounded

/-- What becomes of one record of a batch. -/
inductive Verdict where
  /-- An earlier record has the same ID. -/
  | repeated
  /-- Nothing of the shard is left to assign. -/
  | completed
  /-- The shard lies deeper than the bound. -/
  | tooDeep (depth : Nat)
  /-- The shard is handed out. -/
  | kept (depth : Nat)
deriving DecidableEq, Repr

/-- The verdict on a record with the depth that was settled for its position. -/
def judge (s : ParentsFirst) (x : Item) : Option Nat → Verdict
  | none => .repeated
  | some d => if x.completed then .completed else if s.maxDepth.toNat < d then .tooDeep d else .kept d

variable {α : Type} [Prioritizable α]

/-- Each record of a batch with its verdict. -/
def judgeAll (s : ParentsFirst) (batch : List α) (depths : Depths) : List (α × Verdict) :=
  (batch.zip depths.byPosition).map fun p => (p.1, s.judge (Prioritizable.item p.1) p.2)

/-- The kept records with their depths, in ascending order of depth. -/
def rank (judged : List (α × Verdict)) : List (Nat × α) :=
  (judged.filterMap fun p => match p.2 with
    | .kept d => some (d, p.1)
    | _ => none).mergeSort fun a b => a.1 ≤ b.1

/-- The events of sifting a batch: the shards that lie too deep, then the count of all. -/
def report (s : ParentsFirst) (judged : List (α × Verdict)) : List Event :=
  let tooDeep := judged.filterMap fun p => match p.2 with
    | .tooDeep d => some (Event.excluded (Prioritizable.item p.1).id d s.maxDepth)
    | _ => none
  tooDeep ++ [.prioritized judged.length (rank judged).length
    (judged.countP fun p => p.2 = .completed) tooDeep.length s.maxDepth]

/-- The records that are handed out, with their depths. -/
def prioritizeRanked (s : ParentsFirst) (batch : List α) : Logged (List (Nat × α)) :=
  let resolution := resolve (batch.map Prioritizable.item)
  match resolution.result with
  | .error e => ⟨resolution.events, .error e⟩
  | .ok depths =>
    let judged := s.judgeAll batch depths
    ⟨resolution.events ++ s.report judged, .ok (rank judged)⟩

/-- The records that are handed out. -/
def prioritize (s : ParentsFirst) (batch : List α) : Logged (List α) :=
  (s.prioritizeRanked batch).map (List.map Prod.snd)

end ParentsFirst

end LeaseOrder
