/-
How often the loop of the walk goes round.

Every round uses something up.  It reads a link, which is an entry in the parent list of an open
shard whose ID is in the batch, or it settles an open shard.  A frame reads its links one after
the other, so the marks and the frames of a state tell what has been used so far: `Past` is what
lies behind the frames.  A round adds what it uses to that and nothing else, and entering a
shard adds nothing, for a new frame has all its links to read.

So no two rounds use the same thing, and there are no more rounds than there are links and open
shards, whatever the cycles and the number of paths in the batch.  Where the walk does not fail,
everything lies behind in the end, so there are just as many.
-/
import LeaseOrder.Proofs.Depth.Guarded

namespace LeaseOrder

open Ancestry

/-! ### What there is to use -/

/-- An entry in the parent list of an open shard whose ID is in the batch. -/
structure Link where
  child : String
  /-- The number of such entries before it in the list. -/
  place : Nat
  parent : String
deriving DecidableEq, Repr

/-- The first occurrences that are not completed, in batch order. -/
def openItems (batch : List Item) : List Item :=
  (openIds batch).filterMap (first? batch)

/-- The links of a batch, an entry that is repeated as often as it is listed. -/
def links (batch : List Item) : List Link :=
  (openItems batch).flatMap fun x =>
    (x.parents.filter fun p => (first? batch p).isSome).zipIdx.map fun p => ⟨x.id, p.2, p.1⟩

/-- What a round of the loop uses up. -/
inductive Use where
  /-- The link that it reads. -/
  | link (l : Link)
  /-- The shard that it settles. -/
  | settle (id : String)
deriving DecidableEq, Repr

/-- The shard whose frame the round works on. -/
def Use.shard : Use → String
  | .link l => l.child
  | .settle id => id

/-- The number of parents that the frame has still to read when the round begins. -/
def Use.unread : Use → Nat
  | .link l => l.place + 1
  | .settle _ => 0

/-- What there is to use up. -/
def uses (batch : List Item) : List Use :=
  (links batch).map .link ++ (openIds batch).map .settle

/-- What the round that begins in this state uses up. -/
def Walk.use? (w : Walk) : Option Use :=
  match w.stack with
  | [] => none
  | ⟨x, [], _⟩ :: _ => some (.settle x.id)
  | ⟨x, p :: ps, _⟩ :: _ => some (.link ⟨x.id, ps.length, p⟩)

/-- Distinct open shards, each of them a parent of the one below it. -/
structure Stacked (batch : List Item) (xs : List Item) : Prop where
  isOpen : ∀ x ∈ xs, first? batch x.id = some x ∧ x.completed = false
  nodup : (xs.map Item.id).Nodup
  linked : xs.IsChain fun above below => above.id ∈ below.parents

/-- A walk that uses nothing twice. -/
structure Frugal (batch : List Item) (s : Guarded) : Prop where
  /-- Every round reads a link of the batch or settles an open shard of it. -/
  used : ∀ w ∈ s.rounds, ∃ u ∈ uses batch, w.use? = some u
  /-- No link is read twice, and no shard settles twice. -/
  used_once : (s.rounds.map Walk.use?).Nodup
  /-- No shard is given a frame twice. -/
  opened_once : s.opened.Nodup
  /-- At any time the stack holds distinct open shards, each a parent of the one below it. -/
  stacked : ∀ w ∈ s.walk :: s.rounds, Stacked batch (w.stack.map Frame.item)

variable {batch : List Item}

theorem mem_openItems {x : Item} :
    x ∈ openItems batch ↔ first? batch x.id = some x ∧ x.completed = false := by
  rw [openItems, List.mem_filterMap]
  refine ⟨?_, ?_⟩
  · intro h
    obtain ⟨id, hid, hx⟩ := h
    obtain rfl := id_of_first? hx
    obtain ⟨y, hy, hopen⟩ := mem_openIds.mp hid
    obtain rfl := Option.some.inj (hx.symm.trans hy)
    exact ⟨hx, hopen⟩
  · intro h
    exact ⟨x.id, mem_openIds.mpr ⟨x, h⟩, h.1⟩

theorem mem_links {l : Link} :
    l ∈ links batch ↔ ∃ x, first? batch l.child = some x ∧ x.completed = false ∧
      (x.parents.filter fun p => (first? batch p).isSome)[l.place]? = some l.parent := by
  simp only [links, List.mem_flatMap, mem_openItems, List.mem_map, Prod.exists,
    List.mem_zipIdx_iff_getElem?]
  refine ⟨?_, ?_⟩
  · intro h
    obtain ⟨x, ⟨hx, hopen⟩, p, k, hget, rfl⟩ := h
    exact ⟨x, hx, hopen, hget⟩
  · intro h
    obtain ⟨x, hx, hopen, hget⟩ := h
    have hid := id_of_first? hx
    exact ⟨x, ⟨by rw [hid]; exact hx, hopen⟩, l.parent, l.place, hget, by rw [hid]⟩

@[simp] theorem link_mem_uses {l : Link} : .link l ∈ uses batch ↔ l ∈ links batch := by
  simp [uses]

@[simp] theorem settle_mem_uses {id : String} : .settle id ∈ uses batch ↔ IsOpen batch id := by
  simp [uses]

/-- What is used belongs to an open shard, and is one of its links or comes after them. -/
theorem exists_of_mem_uses {u : Use} (hu : u ∈ uses batch) :
    ∃ x, first? batch u.shard = some x ∧ x.completed = false ∧
      u.unread ≤ ((Graph.ofBatch batch).parents x).length := by
  cases u with
  | link l =>
      obtain ⟨x, hx, hopen, hget⟩ := mem_links.mp (link_mem_uses.mp hu)
      refine ⟨x, hx, hopen, ?_⟩
      rw [Graph.parents_ofBatch, List.length_reverse]
      exact (List.getElem?_eq_some_iff.mp hget).1
  | settle id =>
      obtain ⟨x, hx, hopen⟩ := settle_mem_uses.mp hu
      exact ⟨x, hx, hopen, Nat.zero_le _⟩

/-- The shard and what is still to read at the time say what is used. -/
theorem eq_of_mem_uses {u v : Use} (hu : u ∈ uses batch) (hv : v ∈ uses batch)
    (hshard : u.shard = v.shard) (hunread : u.unread = v.unread) : u = v := by
  cases u with
  | settle id =>
      cases v with
      | settle id' => exact congrArg Use.settle hshard
      | link l' => exact absurd hunread.symm (Nat.succ_ne_zero _)
  | link l =>
      cases v with
      | settle id' => exact absurd hunread (Nat.succ_ne_zero _)
      | link l' =>
          obtain ⟨child, place, parent⟩ := l
          obtain ⟨child', place', parent'⟩ := l'
          obtain rfl : child = child' := hshard
          obtain rfl : place = place' := Nat.succ.inj hunread
          obtain ⟨x, hx, -, hget⟩ := mem_links.mp (link_mem_uses.mp hu)
          obtain ⟨x', hx', -, hget'⟩ := mem_links.mp (link_mem_uses.mp hv)
          obtain rfl := Option.some.inj (hx.symm.trans hx')
          obtain rfl : parent = parent' := Option.some.inj (hget.symm.trans hget')
          rfl

theorem nodup_openIds (batch : List Item) : (openIds batch).Nodup := by
  have htable : ((depthTable batch fun _ => 0).map Prod.fst).Nodup := nodup_depthTable
  rw [depthTable, List.map_map] at htable
  refine htable.sublist ?_
  rw [openIds, ← List.filter_filter]
  exact (List.filter_sublist.filter _).map _

@[simp] theorem map_id_openItems (batch : List Item) :
    (openItems batch).map Item.id = openIds batch := by
  rw [openItems, List.map_filterMap]
  calc (openIds batch).filterMap (fun id => (first? batch id).map Item.id)
      = (openIds batch).filterMap some := List.filterMap_congr fun id hid => by
        obtain ⟨x, hx, -⟩ := mem_openIds.mp hid
        rw [hx, Option.map_some, id_of_first? hx]
    _ = openIds batch := List.filterMap_some

theorem nodup_links (batch : List Item) : (links batch).Nodup := by
  refine List.nodup_flatMap.mpr ⟨fun x _ => ?_, ?_⟩
  · have hplaces : ((x.parents.filter fun p => (first? batch p).isSome).zipIdx.map
        Prod.snd).Nodup := by
      rw [List.zipIdx_map_snd]
      exact List.nodup_range' _
    refine hplaces.of_map.map fun p q heq => ?_
    obtain ⟨-, hplace, hparent⟩ := Link.mk.inj heq
    exact Prod.ext hparent hplace
  · have hids := nodup_openIds batch
    rw [← map_id_openItems] at hids
    refine (List.pairwise_map.mp hids).imp fun hne l hx hy => ?_
    obtain ⟨p, -, rfl⟩ := List.mem_map.mp hx
    obtain ⟨q, -, heq⟩ := List.mem_map.mp hy
    exact hne (Link.mk.inj heq).1.symm

/-- There is nothing twice among what there is to use up. -/
theorem nodup_uses (batch : List Item) : (uses batch).Nodup := by
  refine List.Nodup.append ?_ ?_ fun u hl hs => ?_
  · exact (nodup_links batch).map fun _ _ h => Use.link.inj h
  · exact (nodup_openIds batch).map fun _ _ h => Use.settle.inj h
  · obtain ⟨l, -, rfl⟩ := List.mem_map.mp hl
    obtain ⟨id, -, heq⟩ := List.mem_map.mp hs
    cases heq

theorem Frugal.subset {s : Guarded} (h : Frugal batch s) :
    s.rounds.map Walk.use? ⊆ (uses batch).map some := by
  intro o ho
  obtain ⟨w, hw, rfl⟩ := List.mem_map.mp ho
  obtain ⟨u, hu, huse⟩ := h.used w hw
  rw [huse]
  exact List.mem_map_of_mem hu

/-- There are no more rounds than links and open shards together. -/
theorem Frugal.length_le {s : Guarded} (h : Frugal batch s) :
    s.rounds.length ≤ (links batch).length + (openIds batch).length := by
  have hle := (h.used_once.subperm h.subset).length_le
  rwa [List.length_map, List.length_map, uses, List.length_append, List.length_map,
    List.length_map] at hle

namespace Walk

variable {w w' : Walk} {u : Use}

/-! ### The stack -/

theorem stacked_of_waits {marks : Std.HashMap String Mark} :
    ∀ {fs : List Frame} {f : Frame}, Waits (.ofBatch batch) marks f.item.id fs →
      ((f :: fs).map Frame.item).IsChain fun above below => above.id ∈ below.parents := by
  intro fs
  induction fs with
  | nil => intro f _; exact .singleton _
  | cons below fs ih =>
      intro f h
      obtain ⟨⟨read, hsplit, -⟩, hrest⟩ := h
      have hmem : f.item.id ∈ (Graph.ofBatch batch).parents below.item := by
        rw [hsplit]
        simp
      exact .cons_cons (Graph.mem_parents.mp hmem).1 (ih hrest)

theorem Sound.stacked (h : Sound batch w) : Stacked batch (w.stack.map Frame.item) where
  isOpen := h.frames
  nodup := h.nodup
  linked := by
    have hreads := h.reads
    rcases hstack : w.stack with _ | ⟨f, fs⟩
    · exact .nil
    · rw [hstack] at hreads
      exact stacked_of_waits hreads.2

theorem stack_of_next {g : Graph} (hstep : step g w = .next w') : w.stack ≠ [] := by
  intro hnil
  obtain ⟨marks, stack, settled⟩ := w
  obtain rfl : stack = [] := hnil
  cases hstep

/-! ### What is used up -/

/-- A round works on the topmost frame. -/
theorem top_of_use? (h : w.use? = some u) :
    ∃ f fs, w.stack = f :: fs ∧ f.item.id = u.shard ∧ f.unread.length = u.unread := by
  unfold use? at h
  split at h
  · cases h
  · rename_i x _ fs hstack
    obtain rfl := Option.some.inj h
    exact ⟨_, fs, hstack, rfl, rfl⟩
  · rename_i x p ps _ fs hstack
    obtain rfl := Option.some.inj h
    exact ⟨_, fs, hstack, rfl, rfl⟩

/-- A round uses up something of the batch. -/
theorem Sound.exists_use (h : Sound batch w) (hopen : w.stack ≠ []) :
    ∃ u ∈ uses batch, w.use? = some u := by
  have hframes := h.frames
  have hreads := h.reads
  match hstack : w.stack with
  | [] => exact absurd hstack hopen
  | ⟨x, [], deepest⟩ :: fs =>
      rw [hstack] at hframes
      refine ⟨.settle x.id, settle_mem_uses.mpr ⟨x, hframes x (by simp)⟩, ?_⟩
      rw [use?, hstack]
  | ⟨x, p :: ps, deepest⟩ :: fs =>
      rw [hstack] at hframes hreads
      obtain ⟨hx, hxopen⟩ := hframes x (by simp)
      obtain ⟨⟨read, hsplit, -⟩, -⟩ := hreads
      -- The frame reads the list from its end, so what it has yet to read is a front part.
      rw [Graph.parents_ofBatch, List.reverse_eq_iff] at hsplit
      have hget : (x.parents.filter fun p => (first? batch p).isSome)[ps.length]? = some p := by
        rw [hsplit]
        simp
      refine ⟨.link ⟨x.id, ps.length, p⟩, link_mem_uses.mpr (mem_links.mpr ?_), ?_⟩
      · exact ⟨x, hx, hxopen, hget⟩
      · rw [use?, hstack]

/-- Going by the topmost frame, one can say what the round uses. -/
theorem Sound.use?_eq (h : Sound batch w) {f : Frame} {fs : List Frame} (hstack : w.stack = f :: fs)
    (hu : u ∈ uses batch) (hshard : f.item.id = u.shard) (hunread : f.unread.length = u.unread) :
    w.use? = some u := by
  obtain ⟨v, hv, huse⟩ := h.exists_use (by simp [hstack])
  obtain ⟨f', fs', hstack', hshard', hunread'⟩ := top_of_use? huse
  obtain ⟨rfl, rfl⟩ := List.cons.inj (hstack.symm.trans hstack')
  rw [huse, eq_of_mem_uses hv hu (hshard'.symm.trans hshard) (hunread'.symm.trans hunread)]

/-- The topmost shard has been entered, and no other frame is that of this shard. -/
theorem Sound.top (h : Sound batch w) {f : Frame} {fs : List Frame} (hstack : w.stack = f :: fs) :
    w.marks.contains f.item.id = true ∧ ∀ below ∈ fs, below.item.id ≠ f.item.id := by
  refine ⟨?_, fun below hbelow hid => ?_⟩
  · have hmark := (h.inProgress f.item.id).mpr ⟨f.item, by simp [hstack], rfl⟩
    rw [Std.HashMap.contains_eq_isSome_getElem?, hmark]
    rfl
  · have hnodup := h.nodup
    rw [hstack, List.map_cons, List.map_cons, List.nodup_cons, ← hid] at hnodup
    exact hnodup.1 (List.mem_map_of_mem (List.mem_map_of_mem hbelow))

/-! ### What lies behind -/

/-- The walk has used something up: the shard has been entered, and if it still has a frame, then
    the frame has fewer parents to read than it had. -/
structure Past (w : Walk) (u : Use) : Prop where
  entered : w.marks.contains u.shard = true
  read : ∀ f ∈ w.stack, f.item.id = u.shard → f.unread.length < u.unread

theorem mark_ne_none {marks : Std.HashMap String Mark} {id : String}
    (h : marks.contains id = true) : marks[id]? ≠ none := by
  rw [Std.HashMap.contains_eq_isSome_getElem?] at h
  exact Option.isSome_iff_ne_none.mp h

/-- What has been used up is not used again. -/
theorem Past.use?_ne (h : Past w u) : w.use? ≠ some u := by
  intro huse
  obtain ⟨f, fs, hstack, hid, hunread⟩ := top_of_use? huse
  have hlt := h.read f (by simp [hstack]) hid
  exact Nat.lt_irrefl _ (hunread ▸ hlt)

/-- Entering a shard uses nothing up. -/
theorem past_enter_iff {x : Item} (hx : first? batch x.id = some x)
    (hmark : w.marks[x.id]? = none) (hu : u ∈ uses batch) :
    Past (w.enter (.ofBatch batch) x) u ↔ Past w u := by
  refine ⟨fun h => ?_, fun h => ?_⟩
  · have hne : x.id ≠ u.shard := by
      intro hid
      obtain ⟨y, hy, hopen, hle⟩ := exists_of_mem_uses hu
      rw [← hid] at hy
      obtain rfl := Option.some.inj (hx.symm.trans hy)
      -- The shard is open, so it has a frame with all its links to read.
      have hlt := h.read ⟨x, (Graph.ofBatch batch).parents x, 0⟩ (by simp [enter, hopen]) hid
      exact absurd hle (Nat.not_le.mpr hlt)
    refine ⟨(contains_enter.mp h.entered).resolve_left hne, fun f hf => h.read f ?_⟩
    unfold enter
    split
    · exact hf
    · exact List.mem_cons_of_mem _ hf
  · refine ⟨contains_enter.mpr (Or.inr h.entered), fun f hf hid => ?_⟩
    have hne : x.id ≠ u.shard := fun heq => mark_ne_none h.entered (heq ▸ hmark)
    unfold enter at hf
    split at hf
    · exact h.read f hf hid
    · rcases List.mem_cons.mp hf with rfl | hf
      · exact absurd hid hne
      · exact h.read f hf hid

variable {marks : Std.HashMap String Mark} {x : Item} {deepest : Nat} {fs : List Frame}
  {settled : List (String × Nat)}

/-- Reading a parent uses up one link. -/
theorem past_read_iff {p : String} {ps : List String} {deepest' : Nat}
    (h : Sound batch ⟨marks, ⟨x, p :: ps, deepest⟩ :: fs, settled⟩) (hu : u ∈ uses batch) :
    Past ⟨marks, ⟨x, ps, deepest'⟩ :: fs, settled⟩ u ↔
      Past ⟨marks, ⟨x, p :: ps, deepest⟩ :: fs, settled⟩ u ∨
        use? ⟨marks, ⟨x, p :: ps, deepest⟩ :: fs, settled⟩ = some u := by
  obtain ⟨hentered, hbelow⟩ := h.top rfl
  refine ⟨fun hpast => or_iff_not_imp_right.mpr fun hnot => ?_, ?_⟩
  · refine ⟨hpast.entered, fun f hf hid => ?_⟩
    rcases List.mem_cons.mp hf with rfl | hf
    · have hlt : ps.length < u.unread := hpast.read _ List.mem_cons_self hid
      exact Nat.lt_of_le_of_ne hlt fun heq => hnot (h.use?_eq rfl hu hid heq)
    · exact hpast.read f (List.mem_cons_of_mem _ hf) hid
  · intro hor
    rcases hor with hpast | huse
    · refine ⟨hpast.entered, fun f hf hid => ?_⟩
      rcases List.mem_cons.mp hf with rfl | hf
      · exact Nat.lt_of_succ_lt (hpast.read _ List.mem_cons_self hid)
      · exact hpast.read f (List.mem_cons_of_mem _ hf) hid
    · obtain rfl := Option.some.inj huse
      refine ⟨hentered, fun f hf hid => ?_⟩
      rcases List.mem_cons.mp hf with rfl | hf
      · exact Nat.lt_succ_self _
      · exact absurd hid (hbelow f hf)

/-- A report changes neither the shards on the stack nor what they have to read. -/
theorem forall_mem_report (P : Item → List String → Prop) {d : Nat} :
    (∀ f ∈ report d fs, P f.item f.unread) ↔ ∀ f ∈ fs, P f.item f.unread := by
  cases fs with
  | nil => rfl
  | cons f fs => simp only [report, List.forall_mem_cons]

/-- Settling a shard uses it up. -/
theorem past_settle_iff (h : Sound batch ⟨marks, ⟨x, [], deepest⟩ :: fs, settled⟩) {d : Nat}
    {settled' : List (String × Nat)} (hu : u ∈ uses batch) :
    Past ⟨marks.insert x.id (.resolved d), report d fs, settled'⟩ u ↔
      Past ⟨marks, ⟨x, [], deepest⟩ :: fs, settled⟩ u ∨
        use? ⟨marks, ⟨x, [], deepest⟩ :: fs, settled⟩ = some u := by
  obtain ⟨hentered, hbelow⟩ := h.top rfl
  have hread : (∀ f ∈ report d fs, f.item.id = u.shard → f.unread.length < u.unread) ↔
      ∀ f ∈ fs, f.item.id = u.shard → f.unread.length < u.unread :=
    forall_mem_report fun y ps => y.id = u.shard → ps.length < u.unread
  refine ⟨fun hpast => or_iff_not_imp_right.mpr fun hnot => ⟨?_, fun f hf hid => ?_⟩, ?_⟩
  · have hc := hpast.entered
    rw [Std.HashMap.contains_insert, Bool.or_eq_true, beq_iff_eq] at hc
    exact hc.elim (fun hid => hid ▸ hentered) fun hin => hin
  · rcases List.mem_cons.mp hf with rfl | hf
    · exact Nat.pos_of_ne_zero fun hzero => hnot (h.use?_eq rfl hu hid hzero.symm)
    · exact hread.mp hpast.read f hf hid
  · intro hor
    rcases hor with hpast | huse
    · refine ⟨?_, hread.mpr fun f hf => hpast.read f (List.mem_cons_of_mem _ hf)⟩
      rw [Std.HashMap.contains_insert, hpast.entered, Bool.or_true]
    · obtain rfl := Option.some.inj huse
      refine ⟨Std.HashMap.contains_insert_self, hread.mpr fun f hf hid => ?_⟩
      exact absurd hid (hbelow f hf)

/-- **A turn leaves behind what it uses up, and nothing else.** -/
theorem Sound.past_step_iff (h : Sound batch w)
    (hstep : Walk.step (.ofBatch batch) w = .next w') (hu : u ∈ uses batch) :
    Past w' u ↔ Past w u ∨ w.use? = some u := by
  cases advance_of_step hstep with
  | settle => exact past_settle_iff h hu
  | hear _ => exact past_read_iff h hu
  | @meet marks x y p ps deepest fs settled hmark hy =>
      rw [Graph.table_ofBatch] at hy
      obtain rfl := id_of_first? hy
      exact (past_enter_iff hy hmark hu).trans (past_read_iff h hu)
  | skip _ _ => exact past_read_iff h hu

/-- A walk that does not fail has entered every shard of the batch. -/
theorem contains_of_ofGraph {id : String} (h : ofGraph (.ofBatch batch) = (w, none))
    (hid : (first? batch id).isSome = true) : w.marks.contains id = true := by
  obtain ⟨v, -, -, hend⟩ :=
    visit_reached (g := .ofBatch batch) _ (fun x hx => hx) Reached.start rfl
  obtain ⟨x, hx⟩ := Option.isSome_iff_exists.mp hid
  obtain rfl := id_of_first? hx
  rcases hend with ⟨hvisit, -, hall⟩ | ⟨v', named, hvisit, -⟩
  · obtain rfl : v = w := (Prod.mk.inj (hvisit.symm.trans h)).1
    exact hall x (Graph.mem_firsts.mpr hx)
  · cases hvisit.symm.trans h

end Walk

/-! ### The invariant -/

/-- What the record of a guarded walk says of the state that it has come to. -/
structure Tally (batch : List Item) (s : Guarded) : Prop extends Frugal batch s where
  /-- What the rounds have used up is what lies behind. -/
  past : ∀ u ∈ uses batch, some u ∈ s.rounds.map Walk.use? ↔ s.walk.Past u
  /-- The open shards that have been entered were given a frame. -/
  entered : ∀ id, id ∈ s.opened ↔ IsOpen batch id ∧ s.walk.marks.contains id = true

namespace Guarded

variable {s s' : Guarded}

theorem tally_start : Tally batch start where
  used := by simp [start]
  used_once := by simp [start]
  opened_once := by simp [start]
  stacked := by
    intro w hw
    obtain rfl : w = Walk.start := by simpa [start] using hw
    exact Walk.sound_start.stacked
  past := by
    intro u _
    refine ⟨fun h => by simp [start] at h, fun h => ?_⟩
    have hc := h.entered
    simp [start, Walk.start] at hc
  entered := by simp [start, Walk.start]

/-- Another round goes on record, whatever comes of it. -/
theorem frugal_cons (h : Tally batch s) (hsound : s.walk.Sound batch) (hopen : s.walk.stack ≠ [])
    {w : Walk} {opened : List String} (hopened : opened.Nodup)
    (hstacked : Stacked batch (w.stack.map Frame.item)) :
    Frugal batch ⟨w, s.walk :: s.rounds, opened⟩ where
  used := by
    intro v hv
    rcases List.mem_cons.mp hv with rfl | hv
    · exact hsound.exists_use hopen
    · exact h.used v hv
  used_once := by
    refine List.nodup_cons.mpr ⟨fun hmem => ?_, h.used_once⟩
    obtain ⟨u, hu, huse⟩ := hsound.exists_use hopen
    rw [huse] at hmem
    exact ((h.past u hu).mp hmem).use?_ne huse
  opened_once := hopened
  stacked := by
    intro v hv
    rcases List.mem_cons.mp hv with rfl | hv
    · exact hstacked
    · exact h.stacked v hv

/-- A shard that is given a frame is new to the walk, so it has not been given one before. -/
theorem opened_next (h : Tally batch s) (hgrows : Grows (.ofBatch batch) s s') :
    s'.opened.Nodup ∧
      ∀ id, id ∈ s'.opened ↔ IsOpen batch id ∧ s'.walk.marks.contains id = true := by
  cases hgrows with
  | same hmarks hopened =>
      rw [hopened]
      refine ⟨h.opened_once, fun id => ?_⟩
      rw [hmarks]
      exact h.entered id
  | enters x hx hmark hmarks hopened =>
      rw [Graph.table_ofBatch] at hx
      have hisOpen : IsOpen batch x.id ↔ x.completed = false := by
        refine ⟨fun hopen => ?_, fun hc => ⟨x, hx, hc⟩⟩
        obtain ⟨y, hy, hyopen⟩ := hopen
        rwa [Option.some.inj (hx.symm.trans hy)]
      have hnew : x.id ∉ s.opened := fun hmem =>
        Walk.mark_ne_none ((h.entered x.id).mp hmem).2 hmark
      rw [hopened]
      cases hc : x.completed with
      | true =>
          refine ⟨h.opened_once, fun id => ?_⟩
          rw [if_pos rfl, h.entered, hmarks]
          refine and_congr_right fun hid => (or_iff_right fun heq => ?_).symm
          rw [← heq, hisOpen, hc] at hid
          cases hid
      | false =>
          refine ⟨List.nodup_cons.mpr ⟨hnew, h.opened_once⟩, fun id => ?_⟩
          rw [if_neg (by simp), List.mem_cons, h.entered, hmarks, and_or_left]
          refine or_congr_left ⟨fun heq => ?_, fun hboth => hboth.2.symm⟩
          rw [heq]
          exact ⟨hisOpen.mpr hc, rfl⟩

theorem tally_enter (h : Tally batch s) {x : Item} (hx : first? batch x.id = some x)
    (henter : enter (.ofBatch batch) s x = .ok s') (hentered : s'.walk.Sound batch) :
    Tally batch s' := by
  have hgrows := grows_of_enter (by simpa using hx) henter
  obtain ⟨hnodup, hopened⟩ := opened_next h hgrows
  obtain ⟨hnone, rfl⟩ := enter_eq_ok.mp henter
  refine ⟨⟨h.used, h.used_once, hnodup, ?_⟩, ?_, hopened⟩
  · intro w hw
    rcases List.mem_cons.mp hw with rfl | hw
    · exact hentered.stacked
    · exact h.stacked w (List.mem_cons_of_mem _ hw)
  · intro u hu
    exact (h.past u hu).trans (Walk.past_enter_iff hx hnone hu).symm

/-- **Every round keeps the tally.** -/
theorem tally_round (h : Tally batch s) (hsound : s.walk.Sound batch)
    (hround : round (.ofBatch batch) s = .next s') : Tally batch s' := by
  obtain ⟨hstep, hrounds, hgrows⟩ := step_of_round hround
  obtain ⟨hnodup, hopened⟩ := opened_next h hgrows
  obtain ⟨w, rounds, opened⟩ := s'
  obtain rfl : rounds = s.walk :: s.rounds := hrounds
  have hopen : s.walk.stack ≠ [] := Walk.stack_of_next hstep
  refine ⟨frugal_cons h hsound hopen hnodup (hsound.step hstep).stacked, ?_, hopened⟩
  intro u hu
  rw [List.map_cons, List.mem_cons, h.past u hu, hsound.past_step_iff hstep hu, or_comm, eq_comm]

theorem Reached.tally (h : Reached (.ofBatch batch) s) : Tally batch s := by
  induction h with
  | start => exact tally_start
  | enter hreached hidle hx henter ih =>
      exact tally_enter ih (Graph.mem_firsts.mp hx) henter
        (hreached.enter hidle hx henter).walk.sound
  | round hreached hround ih => exact tally_round ih hreached.walk.sound hround

/-- Where every shard has been entered and none is on the stack, everything has been used. -/
theorem perm_of_idle (h : Tally batch s) (hidle : s.walk.stack = [])
    (hall : ∀ id, (first? batch id).isSome = true → s.walk.marks.contains id = true) :
    (s.rounds.map Walk.use?).Perm ((uses batch).map some) ∧ s.opened.Perm (openIds batch) := by
  refine ⟨?_, ?_⟩
  · have huses := (nodup_uses batch).map (Option.some_injective _)
    refine (List.perm_ext_iff_of_nodup h.used_once huses).mpr fun o =>
      ⟨fun ho => h.subset ho, fun ho => ?_⟩
    obtain ⟨u, hu, rfl⟩ := List.mem_map.mp ho
    obtain ⟨x, hx, -⟩ := exists_of_mem_uses hu
    exact (h.past u hu).mpr ⟨hall u.shard (by rw [hx]; rfl), by simp [hidle]⟩
  · refine (List.perm_ext_iff_of_nodup h.opened_once (nodup_openIds batch)).mpr fun id => ?_
    rw [h.entered, mem_openIds]
    refine and_iff_left_of_imp fun hopen => ?_
    obtain ⟨x, hx, -⟩ := hopen
    exact hall id (by rw [hx]; rfl)

/-- **The whole walk uses nothing twice.** -/
theorem ofGraph_frugal (batch : List Item) : Frugal batch (ofGraph (.ofBatch batch)).1 := by
  obtain ⟨v, hv, hends⟩ := ofGraph_ends batch
  generalize ofGraph (.ofBatch batch) = r, Walk.ofGraph (.ofBatch batch) = r' at hends ⊢
  cases hends with
  | idle _ => exact hv.tally.toFrugal
  | cycle w id hstep =>
      -- The round that meets the cycle counts too; it takes no shard off the stack.
      obtain ⟨x, ps, deepest, fs, hstack, rfl⟩ := Walk.eq_of_cycle hstep
      have hstacked := hv.walk.sound.stacked
      rw [hstack] at hstacked
      exact frugal_cons hv.tally hv.walk.sound (by simp [hstack]) hv.tally.opened_once hstacked

/-- **The whole walk uses everything once, or a cycle stops it.** -/
theorem ofGraph_outcome (batch : List Item) :
    ((ofGraph (.ofBatch batch)).2 = none ∧
        ((ofGraph (.ofBatch batch)).1.rounds.map Walk.use?).Perm ((uses batch).map some) ∧
        (ofGraph (.ofBatch batch)).1.opened.Perm (openIds batch)) ∨
      ∃ id, (ofGraph (.ofBatch batch)).2 = some (.order (.circularDependency id)) := by
  obtain ⟨v, hv, hends⟩ := ofGraph_ends batch
  generalize ofGraph (.ofBatch batch) = r at hends ⊢
  generalize hwalk : Walk.ofGraph (.ofBatch batch) = r' at hends
  cases hends with
  | idle hidle =>
      exact Or.inl ⟨rfl, perm_of_idle hv.tally hidle fun _ => Walk.contains_of_ofGraph hwalk⟩
  | cycle w id _ => exact Or.inr ⟨id, rfl⟩

end Guarded

/-- **The depths of a batch come out of a walk that ends in time and never finds a shard in a
    state in which it cannot be.**  With every mark checked as it is changed, the outcome is the
    same.  The loop goes round at most once for each link and each open shard of the batch, all
    starting points taken together: it uses nothing twice, gives no shard a frame twice, and
    keeps distinct open shards on the stack, each a parent of the one below it.  Then there
    are depths, and every link has been read and every open shard given a frame and settled
    just once, or a cycle has stopped the walk. -/
theorem resolve_rounds (batch : List Item) :
    resolveGuarded batch = ((resolve batch).events, (resolve batch).result.mapError .order) ∧
      (uses batch).Nodup ∧
      (Guarded.ofGraph (.ofBatch batch)).1.rounds.length ≤
        (links batch).length + (openIds batch).length ∧
      Frugal batch (Guarded.ofGraph (.ofBatch batch)).1 ∧
      ((∃ depths, (resolveGuarded batch).2 = .ok depths ∧
          ((Guarded.ofGraph (.ofBatch batch)).1.rounds.map Walk.use?).Perm
            ((uses batch).map some) ∧
          (Guarded.ofGraph (.ofBatch batch)).1.opened.Perm (openIds batch)) ∨
        ∃ id, (resolveGuarded batch).2 = .error (.order (.circularDependency id))) := by
  have hfrugal := Guarded.ofGraph_frugal batch
  refine ⟨resolveGuarded_eq batch, nodup_uses batch, hfrugal.length_le, hfrugal, ?_⟩
  rcases Guarded.ofGraph_outcome batch with ⟨hnone, hused, hopened⟩ | ⟨id, hcycle⟩
  · have hok : ∃ depths, (resolveGuarded batch).2 = .ok depths := by
      simp only [resolveGuarded, hnone]
      exact ⟨_, rfl⟩
    obtain ⟨depths, hok⟩ := hok
    exact Or.inl ⟨depths, hok, hused, hopened⟩
  · refine Or.inr ⟨id, ?_⟩
    simp only [resolveGuarded, hcycle]

end LeaseOrder
