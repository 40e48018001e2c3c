/-
What is read of bytes that need not be text.

Bytes are read from the front: a character where they begin with the bytes of one, and nothing
for a byte where they do not.  The bytes of a character behind its first one are none that stand
for a character by themselves.  So a byte that does, such as a line feed, is never taken along by
what is in front of it, and what is read behind it does not depend on what is in front.
-/
import Mathlib.Tactic.SplitIfs
import LeaseOrder.Proofs.ByteOrder
import LeaseOrder.Proofs.Text

namespace LeaseOrder.Text

variable {bs rest : Bytes} {c : Char} {b : UInt8} {cs ds : List (Option Char)}

/-- Bytes begin with a character if its bytes are in front. -/
theorem firstChar?_eq_some_iff :
    firstChar? bs = some c ↔ ∃ rest, bs = String.utf8EncodeChar c ++ rest := by
  refine ⟨?_, ?_⟩
  · intro h
    obtain ⟨l, hl⟩ := ByteArray.exists_of_utf8DecodeChar?_eq_some h
    have hfour : bs.take 4 = String.utf8EncodeChar c ++ l.data.toList := by
      have hlist := congrArg (fun a => a.data.toList) hl
      simpa using hlist
    refine ⟨l.data.toList ++ bs.drop 4, ?_⟩
    rw [← List.append_assoc, ← hfour, List.take_append_drop]
  · rintro ⟨rest, rfl⟩
    exact firstChar?_append c rest

/-- The bytes of a character behind its first one stand for no character by themselves. -/
theorem le_of_mem_tail (h : b ∈ (String.utf8EncodeChar c).tail) : 0x80 ≤ b := by
  have hrest : ∀ n : Nat, 0x80 ≤ UInt8.ofNat (n % 64 + 128) := by
    intro n
    rw [UInt8.le_iff_toNat_le, toNat_ofNat_of_lt (by omega)]
    exact Nat.le_add_left 128 (n % 64)
  unfold String.utf8EncodeChar at h
  dsimp only at h
  split_ifs at h <;> simp only [List.tail_cons, List.mem_cons, List.not_mem_nil, or_false] at h
  · exact h ▸ hrest _
  · rcases h with rfl | rfl <;> exact hrest _
  · rcases h with rfl | rfl | rfl <;> exact hrest _

/-- Bytes as they are read from the front. -/
inductive Reads : Bytes → List (Option Char) → Prop
  | nil : Reads [] []
  | char {c : Char} {bs : Bytes} {cs : List (Option Char)} (h : Reads bs cs) :
      Reads (String.utf8EncodeChar c ++ bs) (some c :: cs)
  | stray {b : UInt8} {bs : Bytes} {cs : List (Option Char)}
      (hb : ∀ c rest, b :: bs ≠ String.utf8EncodeChar c ++ rest) (h : Reads bs cs) :
      Reads (b :: bs) (none :: cs)

theorem reads_decode (bs : Bytes) : Reads bs (decode bs) := by
  induction bs using decode.induct with
  | case1 =>
    rw [decode]
    exact .nil
  | case2 b rest c hc ih =>
    obtain ⟨bytes, hbytes⟩ := firstChar?_eq_some_iff.mp hc
    have hdrop : rest.drop (c.utf8Size - 1) = bytes := by
      have hsize : c.utf8Size - 1 + 1 = c.utf8Size := Nat.sub_add_cancel c.utf8Size_pos
      rw [← List.drop_succ_cons (a := b), hsize, hbytes, ← String.length_utf8EncodeChar,
        List.drop_left]
    rw [hbytes, decode_append]
    exact .char (hdrop ▸ ih)
  | case3 b rest hnone ih =>
    rw [decode, hnone]
    refine .stray ?_ ih
    intro c rest' heq
    simp [heq] at hnone

theorem Reads.eq_decode (h : Reads bs cs) : decode bs = cs := by
  induction h with
  | nil => rw [decode]
  | char _ ih => simp [ih]
  | @stray b bs cs hb _ ih =>
    have hnone : firstChar? (b :: bs) = none := by
      cases hfirst : firstChar? (b :: bs) with
      | none => rfl
      | some c =>
        obtain ⟨rest, hrest⟩ := firstChar?_eq_some_iff.mp hfirst
        exact absurd hrest (hb c rest)
    rw [decode, hnone]
    simp only [ih]

theorem Reads.append (h : Reads bs cs) (hb : b < 0x80) (hrest : Reads (b :: rest) ds) :
    Reads (bs ++ b :: rest) (cs ++ ds) := by
  induction h with
  | nil => exact hrest
  | char _ ih =>
    rw [List.append_assoc]
    exact .char ih
  | @stray a bs cs ha _ ih =>
    refine .stray ?_ ih
    intro c more heq
    obtain ⟨a', tail, htail⟩ := List.exists_cons_of_ne_nil (utf8EncodeChar_ne_nil c)
    rw [htail] at heq
    obtain ⟨rfl, hrun⟩ := List.cons.inj heq
    -- Either the character ends before the byte, or the byte is inside it.
    rcases List.append_eq_append_iff.mp hrun with ⟨inside, rfl, hmore⟩ | ⟨behind, rfl, hmore⟩
    · cases inside with
      | nil => exact ha c [] (by rw [htail, List.append_nil, List.append_nil])
      | cons x inside =>
        obtain ⟨rfl, -⟩ := List.cons.inj hmore
        have hmem : b ∈ (String.utf8EncodeChar c).tail := by simp [htail]
        exact absurd (le_of_mem_tail hmem) (UInt8.not_le.mpr hb)
    · exact ha c behind (by rw [htail, List.cons_append])

/-- What a character of one byte separates is read apart. -/
theorem decode_append_byte (hc : String.utf8EncodeChar c = [b]) (hb : b < 0x80) (bs rest : Bytes) :
    decode (bs ++ b :: rest) = decode bs ++ some c :: decode rest := by
  have hchar : Reads (b :: rest) (some c :: decode rest) := by
    have hreads := (reads_decode rest).char (c := c)
    rwa [hc, List.singleton_append] at hreads
  exact ((reads_decode bs).append hb hchar).eq_decode

/-- The bytes of a character that is read are there. -/
theorem mem_of_mem_decode (h : some c ∈ decode bs) : ∀ b ∈ String.utf8EncodeChar c, b ∈ bs := by
  have hreads := reads_decode bs
  generalize decode bs = cs at h hreads
  intro b hb
  induction hreads with
  | nil => cases h
  | @char c' bs cs _ ih =>
    rcases List.mem_cons.mp h with heq | h
    · obtain rfl := Option.some.inj heq
      exact List.mem_append_left _ hb
    · exact List.mem_append_right _ (ih h)
  | stray _ _ ih =>
    rcases List.mem_cons.mp h with heq | h
    · cases heq
    · exact List.mem_cons_of_mem _ (ih h)

/-- Bytes that end with a character when they are read end with its bytes. -/
theorem suffix_of_getLast?_decode (h : (decode bs).getLast? = some (some c)) :
    String.utf8EncodeChar c <:+ bs := by
  have hreads := reads_decode bs
  generalize decode bs = cs at h hreads
  induction hreads with
  | nil => cases h
  | @char c' bs cs hrest ih =>
    rw [List.getLast?_cons] at h
    cases hlast : cs.getLast? with
    | none =>
      obtain rfl := List.getLast?_eq_none_iff.mp hlast
      cases hrest
      obtain rfl : c' = c := by simpa using h
      simp
    | some x =>
      rw [hlast] at h ih
      exact (ih (by simpa using h)).trans (List.suffix_append _ _)
  | @stray a bs cs _ hrest ih =>
    rw [List.getLast?_cons] at h
    cases hlast : cs.getLast? with
    | none =>
      rw [hlast] at h
      cases h
    | some x =>
      rw [hlast] at h ih
      exact (ih (by simpa using h)).trans (List.suffix_cons _ _)

theorem eq_map_some_of_assemble? {s : String} (h : assemble? cs = some s) :
    cs = s.toList.map some := by
  obtain ⟨chars, hchars, rfl⟩ := Option.map_eq_some_iff.mp h
  rw [String.toList_ofList]
  clear h
  induction cs generalizing chars with
  | nil =>
    obtain rfl : chars = [] := by simpa using hchars.symm
    rfl
  | cons x cs ih =>
    rw [List.mapM_cons] at hchars
    obtain ⟨c, hc, hmore⟩ := Option.bind_eq_some_iff.mp hchars
    obtain ⟨rest, hrest, hcons⟩ := Option.bind_eq_some_iff.mp hmore
    obtain rfl : x = some c := hc
    obtain rfl : c :: rest = chars := Option.some.inj hcons
    rw [List.map_cons, ← ih rest hrest]

/-- Only the bytes of a text are read as nothing but characters. -/
theorem assemble?_decode_iff {s : String} : assemble? (decode bs) = some s ↔ bs = encode s := by
  refine ⟨?_, ?_⟩
  · intro h
    have hreads := reads_decode bs
    rw [eq_map_some_of_assemble? h] at hreads
    clear h
    rw [encode]
    generalize s.toList = chars at hreads
    induction chars generalizing bs with
    | nil =>
      cases hreads
      rfl
    | cons c chars ih =>
      cases hreads with
      | char hrest => rw [List.flatMap_cons, ← ih hrest]
  · rintro rfl
    simp

end LeaseOrder.Text
