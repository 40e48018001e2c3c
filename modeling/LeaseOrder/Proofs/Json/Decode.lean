/-
What has been read of a record.

A field is looked up where it is put, and no other field is put there.  So what a record holds
for a field is what stands in the draft for it, under its name in an object or at its place in
an array, and the record holds nothing where nothing stands.  The fields of an object may come
in any order; a field that comes twice is refused, so there is one to look at.
-/
import Mathlib.Data.List.Nodup
import LeaseOrder.Json.Decode
import LeaseOrder.Proofs.Outcome

namespace LeaseOrder.Json

/-- What stands in a draft for a field: under its name in an object, at its place in an array. -/
def Draft.field? (d : Draft) (name : String) (place : Nat) : Option Draft :=
  match d with
  | .object fields _ => (fields.find? fun f => f.1 == .text name).map Prod.snd
  | .array items _ => items[place]?
  | _ => none

/-- What is kept in a place stays when the field is read. -/
def Field.Keeps {ρ β : Type} (f : Field ρ) (other : ρ → Option β) : Prop :=
  ∀ {o : Origin} {d : Draft} {g : ρ → ρ}, f.read o d = .ok g → ∀ r, other (g r) = other r

/-- One of these fields has a name and a place, and the others are not kept where it is. -/
structure HasField {ρ α : Type} (fs : List (Field ρ)) (name : String) (place : Nat)
    (get : ρ → Option α) (put : α → ρ → ρ) (dec : Decoder α) : Prop where
  listed : fs[place]? = some (.of name get put dec)
  nodup : (fs.map Field.name).Nodup
  get_put : ∀ a r, get (put a r) = some a
  get_other : ∀ f ∈ fs, f.name ≠ name → f.Keeps get

section

variable {ρ α : Type} {fs : List (Field ρ)} {name : String} {place : Nat} {get : ρ → Option α}
  {put : α → ρ → ρ} {dec : Decoder α} {o : Origin} {d : Draft} {r r' : ρ}

theorem Field.read_of {g : ρ → ρ} (h : (Field.of name get put dec).read o d = .ok g) :
    ∃ a, dec o d = .ok a ∧ g = put a :=
  ok_of_map h

@[simp] theorem Field.of_name : (Field.of name get put dec).name = name :=
  rfl

/-- A field keeps what is in a place to which it puts nothing. -/
@[simp] theorem Field.keeps_of {β : Type} {other : ρ → Option β}
    (hput : ∀ a r, other (put a r) = other r) : (Field.of name get put dec).Keeps other := by
  intro o d g h r
  obtain ⟨a, -, rfl⟩ := Field.read_of h
  exact hput a r

theorem HasField.mem (h : HasField fs name place get put dec) :
    Field.of name get put dec ∈ fs :=
  List.mem_of_getElem? h.listed

theorem HasField.eq_of_name (h : HasField fs name place get put dec) {f : Field ρ} (hf : f ∈ fs)
    (hname : f.name = name) : f = .of name get put dec :=
  List.inj_on_of_nodup_map h.nodup hf h.mem hname

theorem HasField.tail {f : Field ρ} (h : HasField (f :: fs) name (place + 1) get put dec) :
    HasField fs name place get put dec where
  listed := by simpa using h.listed
  nodup := (List.nodup_cons.mp h.nodup).2
  get_put := h.get_put
  get_other f hf hne := h.get_other f (List.mem_cons_of_mem _ hf) hne

/-- The fields behind the first one have other names. -/
theorem HasField.ne_of_mem_tail {f f' : Field ρ} (h : HasField (f :: fs) name place get put dec)
    (hf' : f' ∈ fs) : f'.name ≠ f.name := by
  intro hname
  refine (List.nodup_cons.mp h.nodup).1 ?_
  rw [← hname]
  exact List.mem_map_of_mem hf'

end

namespace Shape

variable {ρ α : Type} {s : Shape ρ} {fs : List (Field ρ)} {name : String} {place : Nat}
  {get : ρ → Option α} {put : α → ρ → ρ} {dec : Decoder α} {o : Origin} {d : Draft} {r r' : ρ}

/-! ### Objects -/

/-- After the fields of an object, the record holds what it held before, or else what the first
    of them with the name is read as. -/
theorem readFields_get (h : HasField s.fields name place get put dec)
    {fields : List (Unescaped × Draft)} (hr : s.readFields o r fields = .ok r') :
    (get r').map Except.ok = ((get r).map Except.ok).or
      (((fields.find? fun f => f.1 == .text name).map Prod.snd).map (dec o)) := by
  induction fields generalizing r with
  | nil =>
    obtain rfl := Except.ok.inj hr
    simp
  | cons field rest ih =>
    obtain ⟨k, d⟩ := field
    cases k with
    | unpaired => cases hr
    | text key =>
      unfold readFields at hr
      split at hr
      · rename_i f hf
        have hmem : f ∈ s.fields := List.mem_of_find?_eq_some hf
        have hfname : f.name = key := by simpa using List.find?_some hf
        split at hr
        · cases hr
        rename_i hset
        obtain ⟨g, hg, hr⟩ := ok_of_bind hr
        rw [ih hr]
        by_cases hkey : key = name
        · -- The field itself: it has not been set, so what is read now is what stays.
          subst hkey
          obtain rfl := h.eq_of_name hmem hfname
          obtain ⟨a, ha, rfl⟩ := Field.read_of hg
          have hnone : get r = none := by simpa [Field.of] using hset
          rw [h.get_put, hnone]
          simp [ha]
        · rw [h.get_other f hmem (by rwa [hfname]) hg r]
          simp [hkey]
      · rename_i hf
        have hkey : key ≠ name := by
          rintro rfl
          exact List.find?_eq_none.mp hf _ h.mem (beq_self_eq_true key)
        split at hr
        · rw [ih hr]
          simp [hkey]
        · cases hr

/-! ### Arrays -/

theorem readItems_other {items extra : List Draft}
    (hother : ∀ f ∈ fs, f.Keeps get)
    (hr : readItems o r fs items = .ok (r', extra)) : get r' = get r := by
  induction fs generalizing r items with
  | nil =>
    obtain ⟨rfl, -⟩ := Prod.mk.inj (Except.ok.inj hr)
    rfl
  | cons f fs ih =>
    cases items with
    | nil =>
      obtain ⟨rfl, -⟩ := Prod.mk.inj (Except.ok.inj hr)
      rfl
    | cons d items =>
      obtain ⟨g, hg, hr⟩ := ok_of_bind hr
      rw [ih (fun f hf => hother f (List.mem_cons_of_mem _ hf)) hr,
        hother f List.mem_cons_self hg]

/-- After the items of an array, the record holds what the item at the place is read as. -/
theorem readItems_get {items extra : List Draft} (h : HasField fs name place get put dec)
    (hnone : get r = none) (hr : readItems o r fs items = .ok (r', extra)) :
    (get r').map Except.ok = items[place]?.map (dec o) := by
  induction fs generalizing r items place with
  | nil => exact absurd h.mem List.not_mem_nil
  | cons f fs ih =>
    cases items with
    | nil =>
      obtain ⟨rfl, -⟩ := Prod.mk.inj (Except.ok.inj hr)
      simp [hnone]
    | cons d items =>
      obtain ⟨g, hg, hr⟩ := ok_of_bind hr
      cases place with
      | zero =>
        obtain rfl : f = .of name get put dec := by simpa using h.listed
        obtain ⟨a, ha, rfl⟩ := Field.read_of hg
        have hrest : get r' = get (put a r) := readItems_other
          (fun f' hf' => h.get_other f' (List.mem_cons_of_mem _ hf') (h.ne_of_mem_tail hf')) hr
        rw [hrest, h.get_put]
        simp [ha]
      | succ place =>
        have hne : f.name ≠ name := (h.ne_of_mem_tail h.tail.mem).symm
        have hkept : get (g r) = none := (h.get_other f List.mem_cons_self hne hg r).trans hnone
        rw [ih h.tail hkept hr]
        simp

/-! ### Records -/

/-- **A record holds for a field what stands in the draft for it, and nothing where nothing
    stands.** -/
theorem decode_get (h : HasField s.fields name place get put dec) (hnone : get s.unread = none)
    (hr : s.decode o d = .ok r) : (get r).map Except.ok = (d.field? name place).map (dec o) := by
  cases d with
  | object fields closed =>
    obtain ⟨r₁, hfields, hr⟩ := ok_of_bind hr
    obtain rfl : r₁ = r := by
      cases closed with
      | true => exact Except.ok.inj hr
      | false => cases hr
    rw [readFields_get h hfields, hnone]
    rfl
  | array items closed =>
    obtain ⟨⟨r₁, extra⟩, hitems, hr⟩ := ok_of_bind hr
    obtain rfl : r₁ = r := by
      dsimp only at hr
      split at hr
      · cases hr
      cases o with
      | text =>
        dsimp only at hr
        split at hr
        · exact Except.ok.inj hr
        · cases hr
      | value =>
        dsimp only at hr
        split at hr
        · exact Except.ok.inj hr
        · cases hr
    exact readItems_get h hnone hitems
  | broken => cases hr
  | null => cases hr
  | bool b => cases hr
  | number n => cases hr
  | string t => cases hr

end Shape

end LeaseOrder.Json
