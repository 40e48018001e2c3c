/-
Who waits for whom in a batch, and how long.

An ID stands for its first occurrence.  A shard is open while that occurrence is not
completed, and an open shard awaits the open shards among its parents.  `DepthLaw` is
the equation that depths satisfy: 0 for a completed shard, one more than the deepest
parent in the batch for an open one.  Nothing here mentions the walk that computes
depths.

Three things follow from the law alone, since a depth falls with every step from a
shard to one that it awaits.

  * A batch that has lawful depths has no shard that awaits itself.
  * Two lawful assignments agree on the shards of the batch.
  * The depth of an open shard is the length of the longest chain that starts at it.
-/
import Mathlib.Data.List.Chain
import Mathlib.Data.List.MinMax
import Mathlib.Data.List.Nodup
import Mathlib.Data.List.Perm.Subperm
import Mathlib.Logic.Relation
import Mathlib.Order.Bounds.Basic
import Mathlib.Order.Nat
import LeaseOrder.Order.Basic

namespace LeaseOrder.Ancestry

/-- The item that stands for an ID: its first occurrence in the batch. -/
def first? (batch : List Item) (id : String) : Option Item :=
  batch.find? (·.id == id)

/-- The item at a position of the batch is the first one with its ID. -/
structure FirstAt (batch : List Item) (i : Nat) (x : Item) : Prop where
  get : batch[i]? = some x
  fresh : ∀ (j : Nat) (y : Item), j < i → batch[j]? = some y → y.id ≠ x.id

/-- No item of the batch before a position has this ID. -/
def isFresh (batch : List Item) (i : Nat) (id : String) : Bool :=
  (first? (batch.take i) id).isNone

/-- The shard with this ID is in the batch and not completed. -/
def IsOpen (batch : List Item) (id : String) : Prop :=
  ∃ x, first? batch id = some x ∧ x.completed = false

/-- An open shard lists another open shard as a parent. -/
def Awaits (batch : List Item) (child parent : String) : Prop :=
  ∃ x, first? batch child = some x ∧ x.completed = false ∧ parent ∈ x.parents ∧
    IsOpen batch parent

/-- Open shards, each of which awaits the next one. -/
structure Chain (batch : List Item) (ids : List String) : Prop where
  isOpen : ∀ id ∈ ids, IsOpen batch id
  linked : ids.IsChain (Awaits batch)

/-- The greatest depth among the parents of an item that are in the batch, 0 without any. -/
def deepest (batch : List Item) (depth : String → Nat) (x : Item) : Nat :=
  ((x.parents.filter fun p => (first? batch p).isSome).map depth).foldr max 0

/-- A completed shard has depth 0, an open one is one deeper than its deepest parent. -/
def DepthLaw (batch : List Item) (depth : String → Nat) : Prop :=
  ∀ id x, first? batch id = some x →
    depth id = if x.completed then 0 else 1 + deepest batch depth x

variable {batch : List Item}

/-! ### First occurrences -/

theorem first?_eq_some_iff {id : String} {x : Item} :
    first? batch id = some x ↔ x.id = id ∧ ∃ i, FirstAt batch i x := by
  simp only [first?, List.find?_eq_some_iff_getElem, beq_iff_eq]
  refine and_congr_right fun hid => exists_congr fun i => ?_
  refine ⟨?_, ?_⟩
  · intro h
    obtain ⟨hi, hx, hbefore⟩ := h
    refine ⟨by rw [List.getElem?_eq_getElem hi, hx], ?_⟩
    intro j y hj hy
    obtain ⟨hjlt, rfl⟩ := List.getElem?_eq_some_iff.mp hy
    simpa [hid] using hbefore j hj
  · intro h
    obtain ⟨hget, hfresh⟩ := h
    obtain ⟨hi, hx⟩ := List.getElem?_eq_some_iff.mp hget
    refine ⟨hi, hx, ?_⟩
    intro j hj
    have hjlt : j < batch.length := Nat.lt_trans hj hi
    simpa [hid] using hfresh j batch[j] hj (List.getElem?_eq_getElem hjlt)

theorem id_of_first? {id : String} {x : Item} (h : first? batch id = some x) : x.id = id :=
  (first?_eq_some_iff.mp h).1

theorem FirstAt.first? {i : Nat} {x : Item} (h : FirstAt batch i x) :
    first? batch x.id = some x :=
  first?_eq_some_iff.mpr ⟨rfl, i, h⟩

/-- An ID has one first occurrence. -/
theorem FirstAt.position_eq {i j : Nat} {x y : Item} (hx : FirstAt batch i x)
    (hy : FirstAt batch j y) (hid : x.id = y.id) : i = j := by
  rcases Nat.lt_trichotomy i j with hlt | heq | hgt
  · exact absurd hid (hy.fresh i x hlt hx.get)
  · exact heq
  · exact absurd hid.symm (hx.fresh j y hgt hy.get)

/-- Being the first one with an ID hangs on the IDs only. -/
theorem FirstAt.of_ids_eq {other : List Item} (hids : batch.map Item.id = other.map Item.id)
    {i : Nat} {x y : Item} (h : FirstAt batch i x) (hy : other[i]? = some y) :
    FirstAt other i y := by
  have hat : ∀ {j : Nat} {z : Item}, other[j]? = some z →
      ∃ w, batch[j]? = some w ∧ w.id = z.id := by
    intro j z hz
    have hid : (batch.map Item.id)[j]? = some z.id := by rw [hids, List.getElem?_map, hz]; rfl
    rwa [List.getElem?_map, Option.map_eq_some_iff] at hid
  refine ⟨hy, fun j z hj hz => ?_⟩
  obtain ⟨w, hw, hwz⟩ := hat hz
  obtain ⟨x', hx', hxy⟩ := hat hy
  obtain rfl := Option.some.inj (h.get.symm.trans hx')
  rw [← hwz, ← hxy]
  exact h.fresh j w hj hw

theorem firstAt_iff {i : Nat} {x : Item} :
    FirstAt batch i x ↔ batch[i]? = some x ∧ isFresh batch i x.id = true := by
  have hfresh : isFresh batch i x.id = true ↔
      ∀ (j : Nat) (y : Item), j < i → batch[j]? = some y → y.id ≠ x.id := by
    simp only [isFresh, first?, Option.isNone_iff_eq_none, List.find?_eq_none, beq_iff_eq]
    refine ⟨?_, ?_⟩
    · intro h j y hj hy
      exact h y (List.mem_of_getElem? (by rw [List.getElem?_take_of_lt hj]; exact hy))
    · intro h y hy
      obtain ⟨j, hj⟩ := List.mem_iff_getElem?.mp hy
      have hlt : j < i := by
        by_contra hc
        rw [List.getElem?_take_eq_none (Nat.le_of_not_lt hc)] at hj
        simp at hj
      exact h j y hlt (by rwa [List.getElem?_take_of_lt hlt] at hj)
  rw [hfresh]
  exact ⟨fun h => ⟨h.get, h.fresh⟩, fun h => ⟨h.1, h.2⟩⟩

theorem isSome_first? {id : String} :
    (first? batch id).isSome = true ↔ ∃ x ∈ batch, x.id = id := by
  simp [first?]

/-- Rewriting the items of a batch in place, each under its own ID. -/
theorem first?_map {f : Item → Item} (hf : ∀ x, (f x).id = x.id) (id : String) :
    first? (batch.map f) id = (first? batch id).map f := by
  rw [first?, List.find?_map]
  congr 2
  funext x
  rw [Function.comp_apply, hf]

/-- Where no ID occurs twice, every item is the first one with its ID. -/
theorem first?_of_nodup (hnodup : (batch.map Item.id).Nodup) {x : Item} (hx : x ∈ batch) :
    first? batch x.id = some x := by
  obtain ⟨y, hy⟩ := Option.isSome_iff_exists.mp (isSome_first?.mpr ⟨x, hx, rfl⟩)
  obtain ⟨hid, i, hfirst⟩ := first?_eq_some_iff.mp hy
  rw [hy, List.inj_on_of_nodup_map hnodup (List.mem_of_getElem? hfirst.get) hx hid]

/-! ### Open shards -/

theorem Awaits.parent_isOpen {c p : String} (h : Awaits batch c p) : IsOpen batch p := by
  obtain ⟨-, -, -, -, hp⟩ := h
  exact hp

/-- The IDs of the open shards, in batch order. -/
def openIds (batch : List Item) : List String :=
  (batch.zipIdx.filter fun p => isFresh batch p.2 p.1.id && !p.1.completed).map fun p => p.1.id

@[simp] theorem mem_openIds {id : String} : id ∈ openIds batch ↔ IsOpen batch id := by
  simp only [openIds, IsOpen, List.mem_map, List.mem_filter, List.mem_zipIdx_iff_getElem?,
    Prod.exists, Bool.and_eq_true, Bool.not_eq_true', first?_eq_some_iff, firstAt_iff]
  refine ⟨?_, ?_⟩
  · intro h
    obtain ⟨x, i, ⟨hget, hfresh, hopen⟩, hid⟩ := h
    exact ⟨x, ⟨hid, i, hget, hfresh⟩, hopen⟩
  · intro h
    obtain ⟨x, ⟨hid, i, hget, hfresh⟩, hopen⟩ := h
    exact ⟨x, i, ⟨hget, hfresh, hopen⟩, hid⟩

theorem openIds_eq_nil_iff {batch : List Item} : openIds batch = [] ↔ ∀ id, ¬ IsOpen batch id := by
  simp [List.eq_nil_iff_forall_not_mem]

theorem length_openIds_le (batch : List Item) : (openIds batch).length ≤ batch.length := by
  rw [openIds, List.length_map]
  refine Nat.le_trans (List.length_filter_le _ _) ?_
  rw [List.length_zipIdx]

/-- What is open in a batch is open in another one too, and has all its parents there. -/
def Eases (batch other : List Item) : Prop :=
  ∀ id x, first? batch id = some x → x.completed = false →
    ∃ y, first? other id = some y ∧ y.completed = false ∧ x.parents ⊆ y.parents

theorem Awaits.of_eases {other : List Item} (hease : Eases batch other) {c p : String}
    (h : Awaits batch c p) : Awaits other c p := by
  obtain ⟨x, hx, hopen, hp, z, hz, hzopen⟩ := h
  obtain ⟨y, hy, hyopen, hsub⟩ := hease c x hx hopen
  obtain ⟨w, hw, hwopen, -⟩ := hease p z hz hzopen
  exact ⟨y, hy, hyopen, hsub hp, w, hw, hwopen⟩

theorem Chain.of_eases {other : List Item} (hease : Eases batch other) {ids : List String}
    (h : Chain batch ids) : Chain other ids where
  isOpen := by
    intro id hid
    obtain ⟨x, hx, hopen⟩ := h.isOpen id hid
    obtain ⟨y, hy, hyopen, -⟩ := hease id x hx hopen
    exact ⟨y, hy, hyopen⟩
  linked := h.linked.imp fun _ _ hawaits => hawaits.of_eases hease

/-! ### The deepest parent -/

variable {depth : String → Nat}

theorem le_deepest {x : Item} {p : String} (hp : p ∈ x.parents)
    (hin : (first? batch p).isSome = true) : depth p ≤ deepest batch depth x :=
  List.le_max_of_le' 0 (List.mem_map_of_mem (List.mem_filter.mpr ⟨hp, hin⟩)) (Nat.le_refl _)

theorem deepest_le {x : Item} {n : Nat}
    (h : ∀ p ∈ x.parents, (first? batch p).isSome = true → depth p ≤ n) :
    deepest batch depth x ≤ n := by
  unfold deepest
  refine List.max_le_of_forall_le (List.map depth _) n fun d hd => ?_
  obtain ⟨p, hp, rfl⟩ := List.mem_map.mp hd
  obtain ⟨hmem, hin⟩ := List.mem_filter.mp hp
  exact h p hmem hin

/-- The greatest depth belongs to a parent, unless it is 0. -/
theorem exists_deepest {x : Item} (h : deepest batch depth x ≠ 0) :
    ∃ p ∈ x.parents, (first? batch p).isSome = true ∧ depth p = deepest batch depth x := by
  by_contra hnone
  -- Every parent then stays below the maximum, which a positive maximum cannot bear.
  have hle : deepest batch depth x ≤ deepest batch depth x - 1 := by
    refine deepest_le fun p hp hin => ?_
    have hne : depth p ≠ deepest batch depth x := fun heq => hnone ⟨p, hp, hin, heq⟩
    have hmax : depth p ≤ deepest batch depth x := le_deepest hp hin
    omega
  omega

/-! ### What the law says -/

/-- The law has to be checked for the items of the batch only. -/
theorem depthLaw_iff_forall_mem :
    DepthLaw batch depth ↔ ∀ x ∈ batch, first? batch x.id = some x →
      depth x.id = if x.completed then 0 else 1 + deepest batch depth x := by
  refine ⟨?_, ?_⟩
  · intro law x _ hx
    exact law x.id x hx
  · intro h id x hx
    obtain ⟨rfl, i, hfirst⟩ := first?_eq_some_iff.mp hx
    exact h x (List.mem_of_getElem? hfirst.get) hx

instance : Decidable (DepthLaw batch depth) :=
  decidable_of_iff _ depthLaw_iff_forall_mem.symm

namespace DepthLaw

theorem completed_eq (law : DepthLaw batch depth) {id : String} {x : Item}
    (hx : first? batch id = some x) (hc : x.completed = true) : depth id = 0 := by
  rw [law id x hx, if_pos hc]

theorem open_eq (law : DepthLaw batch depth) {id : String} {x : Item}
    (hx : first? batch id = some x) (hopen : x.completed = false) :
    depth id = 1 + deepest batch depth x := by
  rw [law id x hx, if_neg (by simp [hopen])]

theorem pos_of_isOpen (law : DepthLaw batch depth) {id : String} (h : IsOpen batch id) :
    0 < depth id := by
  obtain ⟨x, hx, hopen⟩ := h
  rw [law.open_eq hx hopen]
  omega

/-- Depths fall from a shard to the ones that it awaits. -/
theorem lt_of_awaits (law : DepthLaw batch depth) {c p : String} (h : Awaits batch c p) :
    depth p < depth c := by
  obtain ⟨x, hx, hopen, hp, y, hy, -⟩ := h
  have hle : depth p ≤ deepest batch depth x := le_deepest hp (by rw [hy]; rfl)
  rw [law.open_eq hx hopen]
  omega

theorem lt_of_transGen (law : DepthLaw batch depth) {c p : String}
    (h : Relation.TransGen (Awaits batch) c p) : depth p < depth c := by
  induction h with
  | single h => exact law.lt_of_awaits h
  | tail _ h ih => exact Nat.lt_trans (law.lt_of_awaits h) ih

/-- **Lawful depths leave no room for a shard that awaits itself.** -/
theorem not_transGen_self (law : DepthLaw batch depth) (id : String) :
    ¬ Relation.TransGen (Awaits batch) id id :=
  fun h => Nat.lt_irrefl _ (law.lt_of_transGen h)

/-- An open shard at depth two or more awaits one that is exactly one less deep. -/
theorem exists_awaits (law : DepthLaw batch depth) {id : String} (h : IsOpen batch id) {n : Nat}
    (hn : depth id = n + 2) : ∃ p, Awaits batch id p ∧ depth p = n + 1 := by
  obtain ⟨x, hx, hopen⟩ := h
  have hdeep : deepest batch depth x = n + 1 := by
    have := law.open_eq hx hopen
    omega
  have hne : deepest batch depth x ≠ 0 := by omega
  obtain ⟨p, hp, hin, hpd⟩ := exists_deepest hne
  obtain ⟨y, hy⟩ := Option.isSome_iff_exists.mp hin
  -- The parent is open: a completed one has depth 0.
  have hpopen : y.completed = false := by
    by_contra hc
    have := law.completed_eq hy (by simpa using hc)
    omega
  exact ⟨p, ⟨x, hx, hopen, hp, y, hy, hpopen⟩, hpd.trans hdeep⟩

/-- Every depth from one up to the depth of an open shard is that of some open shard. -/
theorem exists_depth_eq (law : DepthLaw batch depth) {k : Nat} (hk : 0 < k) :
    ∀ (n : Nat) (id : String), IsOpen batch id → depth id = k + n →
      ∃ q, IsOpen batch q ∧ depth q = k := by
  intro n
  induction n with
  | zero =>
      intro id h hn
      exact ⟨id, h, hn⟩
  | succ n ih =>
      intro id h hn
      obtain ⟨p, hawaits, hp⟩ := law.exists_awaits h (show depth id = (k + n - 1) + 2 by omega)
      exact ih p hawaits.parent_isOpen (by omega)

/-- **Two lawful assignments agree on every shard of the batch.** -/
theorem unique {other : String → Nat} (law : DepthLaw batch depth)
    (law' : DepthLaw batch other) :
    ∀ (n : Nat) (id : String), depth id = n → (first? batch id).isSome = true →
      other id = depth id := by
  intro n
  induction n using Nat.strong_induction_on with
  | _ n ih =>
      intro id hn hin
      obtain ⟨x, hx⟩ := Option.isSome_iff_exists.mp hin
      cases hc : x.completed with
      | true => rw [law.completed_eq hx hc, law'.completed_eq hx hc]
      | false =>
          -- Every parent in the batch is less deep, so the two assignments agree on it.
          have hparents : ∀ p ∈ x.parents, (first? batch p).isSome = true →
              other p = depth p := by
            intro p hp hpin
            have hle : depth p ≤ deepest batch depth x := le_deepest hp hpin
            have hd := law.open_eq hx hc
            exact ih (depth p) (by omega) p rfl hpin
          have hdeep : deepest batch other x = deepest batch depth x := by
            unfold deepest
            congr 1
            refine List.map_congr_left fun p hp => ?_
            obtain ⟨hmem, hpin⟩ := List.mem_filter.mp hp
            exact hparents p hmem hpin
          rw [law.open_eq hx hc, law'.open_eq hx hc, hdeep]

/-- **The depths of a batch are those of any part of it that has the open parents of its
    shards.**  A parent that is missing from such a part is completed, so it counts for
    nothing in the batch either. -/
theorem of_closed {part : List Item} (law : DepthLaw batch depth)
    (hpart : ∀ id x, first? part id = some x → first? batch id = some x)
    (hclosed : ∀ id x, first? part id = some x → x.completed = false →
      ∀ p ∈ x.parents, IsOpen batch p → (first? part p).isSome = true) :
    DepthLaw part depth := by
  intro id x hx
  have hbatch := hpart id x hx
  cases hc : x.completed with
  | true => rw [law.completed_eq hbatch hc, if_pos rfl]
  | false =>
      have hle : deepest batch depth x ≤ deepest part depth x := by
        refine deepest_le fun p hp hin => ?_
        obtain ⟨y, hy⟩ := Option.isSome_iff_exists.mp hin
        cases hyc : y.completed with
        | true =>
            rw [law.completed_eq hy hyc]
            exact Nat.zero_le _
        | false => exact le_deepest hp (hclosed id x hx hc p hp ⟨y, hy, hyc⟩)
      have hge : deepest part depth x ≤ deepest batch depth x := by
        refine deepest_le fun p hp hin => ?_
        obtain ⟨y, hy⟩ := Option.isSome_iff_exists.mp hin
        exact le_deepest hp (by rw [hpart p y hy]; rfl)
      rw [law.open_eq hbatch hc, if_neg (by simp), Nat.le_antisymm hle hge]

/-! ### The longest chain -/

theorem chain_length_le (law : DepthLaw batch depth) :
    ∀ (ids : List String) (id : String), Chain batch (id :: ids) →
      (id :: ids).length ≤ depth id := by
  intro ids
  induction ids with
  | nil =>
      intro id h
      exact law.pos_of_isOpen (h.isOpen id (by simp))
  | cons p rest ih =>
      intro id h
      obtain ⟨hawaits, hrest⟩ := List.isChain_cons_cons.mp h.linked
      have hle := ih p ⟨fun q hq => h.isOpen q (by simp [hq]), hrest⟩
      have hlt := law.lt_of_awaits hawaits
      simp only [List.length_cons] at hle ⊢
      omega

theorem exists_chain (law : DepthLaw batch depth) :
    ∀ (n : Nat) (id : String), IsOpen batch id → depth id = n + 1 →
      ∃ ids, Chain batch (id :: ids) ∧ (id :: ids).length = n + 1 := by
  intro n
  induction n with
  | zero =>
      intro id h _
      exact ⟨[], ⟨by simpa using h, .singleton id⟩, rfl⟩
  | succ n ih =>
      intro id h hn
      obtain ⟨p, hawaits, hp⟩ := law.exists_awaits h hn
      obtain ⟨ids, hchain, hlen⟩ := ih p hawaits.parent_isOpen hp
      refine ⟨p :: ids, ⟨?_, .cons_cons hawaits hchain.linked⟩, by simp [← hlen]⟩
      intro q hq
      rcases List.mem_cons.mp hq with rfl | hq
      · exact h
      · exact hchain.isOpen q hq

/-- **The depth of an open shard is the length of the longest chain that starts at it.** -/
theorem isGreatest_chain_length (law : DepthLaw batch depth) {id : String}
    (h : IsOpen batch id) :
    IsGreatest {n | ∃ ids, Chain batch (id :: ids) ∧ (id :: ids).length = n} (depth id) := by
  refine ⟨?_, ?_⟩
  · have hpos := law.pos_of_isOpen h
    obtain ⟨ids, hchain, hlen⟩ := law.exists_chain (depth id - 1) id h (by omega)
    exact ⟨ids, hchain, by omega⟩
  · intro n h
    obtain ⟨ids, hchain, rfl⟩ := h
    exact law.chain_length_le ids id hchain

/-- The shards of a chain are all different, since their depths fall. -/
theorem nodup_of_chain (law : DepthLaw batch depth) {ids : List String} (h : Chain batch ids) :
    ids.Nodup := by
  have hfalls : ids.IsChain fun a b => depth b < depth a :=
    h.linked.imp fun _ _ hawaits => law.lt_of_awaits hawaits
  have htrans : IsTrans String fun a b => depth b < depth a :=
    ⟨fun _ _ _ hab hbc => Nat.lt_trans hbc hab⟩
  refine hfalls.pairwise.imp ?_
  rintro a b hlt rfl
  exact Nat.lt_irrefl _ hlt

/-- **No shard is deeper than there are open shards in the batch.** -/
theorem le_length_openIds (law : DepthLaw batch depth) {id : String}
    (hin : (first? batch id).isSome = true) : depth id ≤ (openIds batch).length := by
  obtain ⟨x, hx⟩ := Option.isSome_iff_exists.mp hin
  cases hc : x.completed with
  | true =>
      rw [law.completed_eq hx hc]
      exact Nat.zero_le _
  | false =>
      obtain ⟨⟨ids, hchain, hlen⟩, -⟩ := law.isGreatest_chain_length ⟨x, hx, hc⟩
      have hsub : id :: ids ⊆ openIds batch := fun q hq => mem_openIds.mpr (hchain.isOpen q hq)
      have hle := (List.Nodup.subperm (law.nodup_of_chain hchain) hsub).length_le
      rwa [hlen] at hle

/-- No shard is deeper than its batch is long. -/
theorem le_length (law : DepthLaw batch depth) {id : String}
    (hin : (first? batch id).isSome = true) : depth id ≤ batch.length :=
  Nat.le_trans (law.le_length_openIds hin) (length_openIds_le batch)

/-- **A shard is no deeper in a batch that is eased.** -/
theorem le_of_eases {other : List Item} {depth' : String → Nat} (law : DepthLaw batch depth)
    (law' : DepthLaw other depth') (hease : Eases batch other) {id : String}
    (hin : (first? batch id).isSome = true) : depth id ≤ depth' id := by
  obtain ⟨x, hx⟩ := Option.isSome_iff_exists.mp hin
  cases hc : x.completed with
  | true =>
      rw [law.completed_eq hx hc]
      exact Nat.zero_le _
  | false =>
      obtain ⟨ids, hchain, hlength⟩ := (law.isGreatest_chain_length ⟨x, hx, hc⟩).1
      rw [← hlength]
      exact law'.chain_length_le ids id (hchain.of_eases hease)

end DepthLaw

end LeaseOrder.Ancestry
