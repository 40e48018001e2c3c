/-
A configuration is read back from its text.

The text is written line by line and read line by line, each setting as the entry of its key.
What is read back is validated and what is written is not, so a bound that is not positive gets
into the text and not out of it.  The text has signed words only: this keeps out the seeds that
have no text, and a configuration that comes out of a text always has one.
-/
import LeaseOrder.Config.Print
import LeaseOrder.Config.Read
import LeaseOrder.Proofs.Outcome
import LeaseOrder.Proofs.Toml.Document
import LeaseOrder.Proofs.Toml.Line

namespace LeaseOrder

open Toml

/-! ### Settings as nodes -/

theorem Toml.Node.read_of_map {α : Type} {s : Node.Settings} {key : String} {place : Nat}
    {read : Node → Option α} {x : Option α} {f : α → Node}
    (hget : s.get? key place = x.map f) (hread : ∀ a ∈ x, read (f a) = some a) :
    s.read key place read = some x := by
  rw [Node.Settings.read, hget]
  cases x with
  | none => rfl
  | some a => simp [hread a rfl]

theorem Toml.Node.exists_of_read {α : Type} {s : Node.Settings} {key : String} {place : Nat}
    {read : Node → Option α} {a : α} (h : s.read key place read = some (some a)) :
    ∃ n, read n = some a := by
  rw [Node.Settings.read] at h
  split at h
  case h_1 => simp at h
  case h_2 n _ => exact ⟨n, by simpa using h⟩

@[simp] theorem Strategy.variant?_name (s : Strategy) :
    Node.variant? known (.string s.name) = some s := by
  cases s <;> decide

@[simp] theorem Format.variant?_name (f : Format) :
    Node.variant? known (.string f.name) = some f := by
  cases f <;> decide

@[simp] theorem Toml.integer?_toInt (n : Int64) :
    integer? (n.toInt < 0) n.toInt.natAbs = some (.integer n) := by
  have hlo := n.le_toInt
  have hhi := n.toInt_lt
  by_cases hneg : n.toInt < 0
  · rw [integer?, if_pos (by simpa using hneg), if_pos (by rw [Text.signedBound]; omega),
      show -(n.toInt.natAbs : Int) = n.toInt by omega, Int64.ofInt_toInt]
  · rw [integer?, if_neg (by simpa using hneg), if_pos (by rw [Text.signedBound]; omega),
      show (n.toInt.natAbs : Int) = n.toInt by omega, Int64.ofInt_toInt]

/-- The lower half of the unsigned words are signed words. -/
theorem toInt_ofNat_of_lt {n : UInt64} (h : n.toNat < Text.signedBound) :
    (Int64.ofInt n.toNat).toInt = n.toNat := by
  rw [Text.signedBound] at h
  exact Int64.toInt_ofInt_of_le (by omega) (by omega)

theorem Toml.Node.unsigned?_ofNat {n : UInt64} (h : n.toNat < Text.signedBound) :
    unsigned? (.integer (.ofInt n.toNat)) = some n := by
  have hnonneg : 0 ≤ Int64.ofInt n.toNat := by
    rw [Int64.le_iff_toInt_le, toInt_ofNat_of_lt h]
    exact Int.natCast_nonneg _
  rw [unsigned?, if_pos hnonneg, Int64.ofInt_eq_ofNat, Int64.toUInt64_ofNat', UInt64.ofNat_toNat]

theorem Toml.Node.lt_of_unsigned? {node : Node} {n : UInt64} (h : node.unsigned? = some n) :
    n.toNat < Text.signedBound := by
  unfold unsigned? at h
  split at h
  case h_1 i =>
    split at h
    case isTrue hnonneg =>
      obtain rfl := Option.some.inj h
      have hint : 0 ≤ i.toInt := Int64.le_iff_toInt_le.mp hnonneg
      have hword : i.toInt = _ := BitVec.toInt_eq_toNat_cond i.toBitVec
      have hlt := i.toBitVec.isLt
      rw [← Int64.toNat_toBitVec, Text.signedBound]
      split at hword <;> omega
    case isFalse => cases h
  case h_2 => cases h

/-! ### The text, line by line -/

namespace Config

/-- A setting with the text of its value. -/
structure Setting where
  key : String
  text : String
  value : Node

/-- The settings of the order that are set. -/
def orderSettings (o : OrderSettings) : List Setting :=
  ⟨"strategy", nameText o.strategy.name, .string o.strategy.name⟩ ::
    ((o.maxDepth.map fun n => ⟨"max_depth", Text.decimalInt n.toInt, .integer n⟩).toList ++
      (o.seed.map fun n =>
        ⟨"seed", Text.decimalInt (n.toNat : Int), .integer (.ofInt n.toNat)⟩).toList)

/-- The line of a setting, and what it is read as. -/
def Setting.line (s : Setting) : List Char × Line :=
  ((keyLine s.key s.text).toList, .entry (.bare (s.key, s.value)))

/-- The key is bare, and the text is the text of the value. -/
structure Setting.WellFormed (s : Setting) : Prop where
  bare : IsBare s.key.toList
  denotes : Denotes s.text.toList s.value

theorem Setting.WellFormed.isLine {s : Setting} (h : s.WellFormed) :
    IsLine s.line.1 s.line.2 := by
  have hline := isLine_entry h.bare h.denotes
  rw [String.ofList_toList] at hline
  have hchars : s.line.1 = s.key.toList ++ ' ' :: '=' :: ' ' :: (s.text.toList ++ ['\n']) := by
    simp [Setting.line, keyLine]
  rw [hchars]
  exact hline

theorem denotes_nameText {s : String} (hs : s.toList ≠ []) (hbasic : ∀ c ∈ s.toList, isBasic c) :
    Denotes (nameText s).toList (.string s) := by
  have hchars : (nameText s).toList = '"' :: s.toList ++ ['"'] := by simp [nameText]
  rw [hchars]
  exact denotes_string hs hbasic

/-- No key of a configuration needs quotes. -/
theorem isBare_of_mem {key : String}
    (h : key ∈ ["default_format", "ordering", "strategy", "max_depth", "seed"]) :
    IsBare key.toList := by
  simp only [List.mem_cons, List.not_mem_nil, or_false] at h
  rcases h with rfl | rfl | rfl | rfl | rfl <;>
    exact ⟨by decide, List.all_eq_true.mp (by decide)⟩

theorem wellFormed_format (f : Format) :
    Setting.WellFormed ⟨"default_format", nameText f.name, .string f.name⟩ where
  bare := isBare_of_mem (by simp)
  denotes := by
    cases f
    · exact denotes_nameText (by decide) (List.all_eq_true.mp (by decide))
    · exact denotes_nameText (by decide) (List.all_eq_true.mp (by decide))

theorem wellFormed_orderSettings {o : OrderSettings}
    (hseed : ∀ n ∈ o.seed, n.toNat < Text.signedBound) :
    ∀ s ∈ orderSettings o, s.WellFormed := by
  intro s hs
  simp only [orderSettings, List.mem_cons, List.mem_append, Option.mem_toList,
    Option.map_eq_some_iff] at hs
  rcases hs with rfl | ⟨n, -, rfl⟩ | ⟨n, hn, rfl⟩
  · refine ⟨isBare_of_mem (by simp), ?_⟩
    cases o.strategy
    · exact denotes_nameText (by decide) (List.all_eq_true.mp (by decide))
    · exact denotes_nameText (by decide) (List.all_eq_true.mp (by decide))
  · exact ⟨isBare_of_mem (by simp), denotes_integer (integer?_toInt n)⟩
  · have hword := integer?_toInt (.ofInt n.toNat)
    rw [toInt_ofNat_of_lt (hseed n hn)] at hword
    exact ⟨isBare_of_mem (by simp), denotes_integer hword⟩

/-- The lines of a configuration, and what they are read as. -/
def written (c : Config) : List (List Char × Line) :=
  Setting.line ⟨"default_format", nameText c.defaultFormat.name, .string c.defaultFormat.name⟩ ::
    (['\n'], .blank) :: ("[ordering]\n".toList, .table [] "ordering") ::
      (orderSettings c.ordering).map Setting.line

theorem toList_print (c : Config) : c.print.toList = c.written.flatMap Prod.fst := by
  obtain ⟨format, strategy, maxDepth, seed⟩ := c
  have hnumber : ∀ (key : String) (n : Option Int),
      (numberLine key n).toList =
        (n.map fun i => (keyLine key (Text.decimalInt i)).toList).getD [] := by
    intro key n
    cases n <;> rfl
  cases maxDepth <;> cases seed <;>
    simp [print, written, orderSettings, Setting.line, hnumber]

/-! ### Reading the text -/

/-- The fields of the table of the order. -/
def orderFields (o : OrderSettings) : Fields :=
  (orderSettings o).map fun s => (s.key, s.value)

variable {c : Config}

theorem isLine_written (hseed : ∀ n ∈ c.ordering.seed, n.toNat < Text.signedBound) :
    ∀ w ∈ c.written, IsLine w.1 w.2 := by
  intro w hw
  simp only [written, List.mem_cons, List.mem_map] at hw
  rcases hw with rfl | rfl | rfl | ⟨s, hs, rfl⟩
  · exact (wellFormed_format c.defaultFormat).isLine
  · exact isLine_blank
  · have hkey : IsBare "ordering".toList := isBare_of_mem (by simp)
    exact isLine_table hkey
  · exact (wellFormed_orderSettings hseed s hs).isLine

theorem ofString?_print (hseed : ∀ n ∈ c.ordering.seed, n.toNat < Text.signedBound) :
    Document.ofString? c.print =
      some ⟨[.bare ("default_format", .string c.defaultFormat.name)],
        [.table [] "ordering" ((orderFields c.ordering).map .bare)]⟩ := by
  have hmark : c.print.toList.head? ≠ some '\ufeff' := by
    rw [toList_print, written, List.flatMap_cons, Setting.line, keyLine]
    simp
  have hentries : ((orderSettings c.ordering).map Setting.line).map Prod.snd =
      ((orderFields c.ordering).map .bare).map .entry := by
    simp [orderFields, Setting.line]
  rw [ofString?_of_lines (toList_print c) (isLine_written hseed) hmark, written, List.map_cons,
    List.map_cons, List.map_cons, hentries, Setting.line, group, group, group, group_entries]

theorem nodup_orderFields (o : OrderSettings) : ((orderFields o).map Prod.fst).Nodup := by
  obtain ⟨strategy, maxDepth, seed⟩ := o
  cases maxDepth <;> cases seed <;> simp [orderFields, orderSettings]

theorem ofNode?_orderFields {o : OrderSettings}
    (hseed : ∀ n ∈ o.seed, n.toNat < Text.signedBound) :
    OrderSettings.ofNode? (.table .defined (orderFields o)) = some o := by
  obtain ⟨strategy, maxDepth, seed⟩ := o
  let s : Node.Settings := .table (orderFields ⟨strategy, maxDepth, seed⟩)
  have hstrategy : s.read "strategy" 0 (Node.variant? Strategy.known) = some (some strategy) :=
    Node.read_of_map (x := some strategy) rfl fun a _ => Strategy.variant?_name a
  have hmaxDepth : s.read "max_depth" 1 Node.signed? = some maxDepth := by
    refine Node.read_of_map (x := maxDepth) (f := .integer) ?_ fun _ _ => rfl
    cases maxDepth <;> cases seed <;> rfl
  have hread : s.read "seed" 2 Node.unsigned? = some seed := by
    refine Node.read_of_map (x := seed) (f := fun n => .integer (.ofInt n.toNat)) ?_ fun n hn =>
      Node.unsigned?_ofNat (hseed n hn)
    cases maxDepth <;> cases seed <;> rfl
  simp only [OrderSettings.ofNode?, Node.settings?, Option.bind_eq_bind, Option.bind_some]
  rw [hstrategy, hmaxDepth, hread]
  rfl

/-- The text is read as the configuration it was written from. -/
theorem read?_print (hseed : ∀ n ∈ c.ordering.seed, n.toNat < Text.signedBound) :
    read? c.print = some c := by
  obtain ⟨format, ordering⟩ := c
  let fields : Fields :=
    [("default_format", .string format.name), ("ordering", .table .defined (orderFields ordering))]
  let s : Node.Settings := .table fields
  have hformat : s.read "default_format" 0 (Node.variant? Format.known) = some (some format) :=
    Node.read_of_map (x := some format) rfl fun a _ => Format.variant?_name a
  have hordering : s.read "ordering" 1 OrderSettings.ofNode? = some (some ordering) :=
    Node.read_of_map (x := some ordering) (f := fun o => .table .defined (orderFields o)) rfl
      fun a ha => by
        obtain rfl := Option.some.inj ha
        exact ofNode?_orderFields hseed
  have hfields : Document.fields? ⟨[("default_format", .string format.name)].map .bare,
      [.table [] "ordering" ((orderFields ordering).map .bare)]⟩ = some fields :=
    fields?_of_table (by simp) (by simp) (nodup_orderFields ordering)
  simp only [read?, ofString?_print hseed, Option.bind_eq_bind, Option.bind_some]
  rw [List.map_singleton] at hfields
  rw [hfields, Option.bind_some, ofFields?, hformat]
  simp only [Option.bind_eq_bind, Option.bind_some]
  rw [hordering]
  rfl

/-! ### The round trip -/

theorem isPrintable_iff :
    c.isPrintable ↔ ∀ n ∈ c.ordering.seed, n.toNat < Text.signedBound := by
  simp [isPrintable, Option.all_eq_true]

/-- What is read from a text has a text. -/
theorem isPrintable_of_read? {s : String} (h : read? s = some c) : c.isPrintable := by
  rw [isPrintable_iff]
  intro n hn
  obtain ⟨document, -, h⟩ := Option.bind_eq_some_iff.mp h
  obtain ⟨fields, -, h⟩ := Option.bind_eq_some_iff.mp h
  obtain ⟨format, -, h⟩ := Option.bind_eq_some_iff.mp h
  obtain ⟨ordering, hordering, h⟩ := Option.bind_eq_some_iff.mp h
  obtain rfl := Option.some.inj h
  cases ordering with
  | none => cases hn
  | some o =>
    obtain ⟨node, h⟩ := Node.exists_of_read hordering
    obtain ⟨settings, -, h⟩ := Option.bind_eq_some_iff.mp h
    obtain ⟨strategy, -, h⟩ := Option.bind_eq_some_iff.mp h
    obtain ⟨maxDepth, -, h⟩ := Option.bind_eq_some_iff.mp h
    obtain ⟨seed, hseed, h⟩ := Option.bind_eq_some_iff.mp h
    obtain rfl := Option.some.inj h
    obtain rfl : seed = some n := hn
    obtain ⟨word, hword⟩ := Node.exists_of_read hseed
    exact Node.lt_of_unsigned? hword

theorem parse_of_read? {s : String} (h : read? s = some c) :
    parse s = c.ordering.validate.map fun _ => c := by
  rw [parse, h]

theorem read?_of_parse {s : String} (h : parse s = .ok c) :
    read? s = some c ∧ c.ordering.validate = .ok () := by
  rw [parse] at h
  split at h
  case h_1 => cases h
  case h_2 hread =>
    obtain ⟨u, hvalid, rfl⟩ := ok_of_map h
    exact ⟨hread, hvalid⟩

theorem read?_of_text {s : String} (h : c.text = .ok s) : read? s = some c := by
  rw [text] at h
  split at h
  case isTrue hprintable =>
    obtain rfl := Except.ok.inj h
    exact read?_print (isPrintable_iff.mp hprintable)
  case isFalse => cases h

/-- No text is there for a seed beyond the signed words, and for nothing else. -/
theorem exists_unprintable_iff : (∃ e, c.text = .error e) ↔
    ∃ n, c.ordering.seed = some n ∧ 2 ^ 63 - 1 < n.toNat := by
  have hunprintable : (∃ e, c.text = .error e) ↔ ¬ c.isPrintable := by
    rw [text]
    split
    case isTrue h => simp [h]
    case isFalse h => simp [h]
  rw [hunprintable, isPrintable_iff]
  push Not
  refine exists_congr fun n => and_congr_right fun _ => ?_
  rw [Text.signedBound]
  omega

theorem validate_of_pos {o : OrderSettings} (h : ∀ n, o.maxDepth = some n → 0 < n) :
    o.validate = .ok () := by
  rw [OrderSettings.validate]
  split
  case h_1 n hn => rw [if_neg (Int64.not_le.mpr (h n hn))]
  case h_2 => rfl

theorem validate_of_nonpos {o : OrderSettings} {n : Int64} (h : o.maxDepth = some n)
    (hn : n ≤ 0) : o.validate = .error (.notPositive n) := by
  rw [OrderSettings.validate, h]
  simp only [if_pos hn]

/-- **A configuration survives its text form.**  It has a text unless its seed is beyond the signed
    words, and the text is read as the same configuration, or refused for the bound that is not
    positive.  Whatever the layout of a text that is read, its configuration has a text that is
    read as the same again. -/
theorem text_survives :
    (∀ c : Config, (∃ e, c.text = .error e) ↔
      ∃ n, c.ordering.seed = some n ∧ 2 ^ 63 - 1 < n.toNat) ∧
    (∀ (c : Config) (s : String), c.text = .ok s →
      ((∀ n, c.ordering.maxDepth = some n → 0 < n) → parse s = .ok c) ∧
      ∀ n, c.ordering.maxDepth = some n → n ≤ 0 → parse s = .error (.notPositive n)) ∧
    ∀ (s : String) (c : Config), parse s = .ok c →
      ∃ printed, c.text = .ok printed ∧ parse printed = .ok c := by
  refine ⟨fun c => exists_unprintable_iff, ?_, ?_⟩
  · intro c s h
    rw [parse_of_read? (read?_of_text h)]
    refine ⟨?_, ?_⟩
    · intro hpos
      rw [validate_of_pos hpos]
      rfl
    · intro n hn hle
      rw [validate_of_nonpos hn hle]
      rfl
  · intro s c h
    obtain ⟨hread, hvalid⟩ := read?_of_parse h
    have htext : c.text = .ok c.print := if_pos (isPrintable_of_read? hread)
    refine ⟨c.print, htext, ?_⟩
    rw [parse_of_read? (read?_of_text htext), hvalid]
    rfl

/-- A text with more in it than a configuration, the text of what it configures, the least seed
    without a text, and a bound that is written and then refused. -/
theorem text_survives_layouts :
    parse "# Depth.\nextra = [1]\nordering.max_depth = 3\n" =
        .ok ⟨.text, ⟨.parentsFirst, some 3, none⟩⟩ ∧
      parse ("default_format = \"text\"\n\n[ordering]\n" ++
          "strategy = \"parents_first\"\nmax_depth = 3\n") =
        .ok ⟨.text, ⟨.parentsFirst, some 3, none⟩⟩ ∧
      (∃ e, text ⟨.json, ⟨.shuffle, none, some 9223372036854775808⟩⟩ = .error e) ∧
      parse ("default_format = \"json\"\n\n[ordering]\n" ++
          "strategy = \"shuffle\"\nmax_depth = -3\n") =
        .error (.notPositive (-3)) := by
  obtain ⟨hfails, hreads, hagain⟩ := text_survives
  have hparse : parse "# Depth.\nextra = [1]\nordering.max_depth = 3\n" =
      .ok ⟨.text, ⟨.parentsFirst, some 3, none⟩⟩ := by decide +kernel
  have hprinted : text ⟨.text, ⟨.parentsFirst, some 3, none⟩⟩ =
      .ok ("default_format = \"text\"\n\n[ordering]\n" ++
        "strategy = \"parents_first\"\nmax_depth = 3\n") := by
    decide +kernel
  have hnegative : text ⟨.json, ⟨.shuffle, some (-3), none⟩⟩ =
      .ok ("default_format = \"json\"\n\n[ordering]\n" ++
        "strategy = \"shuffle\"\nmax_depth = -3\n") := by
    decide +kernel
  obtain ⟨printed, htext, hagain⟩ := hagain _ _ hparse
  obtain rfl := Except.ok.inj (hprinted.symm.trans htext)
  exact ⟨hparse, hagain, (hfails _).mpr ⟨_, rfl, by decide⟩,
    (hreads _ _ hnegative).2 (-3) rfl (by decide)⟩

end Config

end LeaseOrder
