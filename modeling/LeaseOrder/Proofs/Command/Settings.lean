/-
From the settings of a file and of a command line to an order.

A bound on the depth is looked at twice.  `OrderSettings.validate` looks at the one of the file,
whatever the strategy; `OrderSettings.orderer` looks at the one that an order is made with, after
`Overrides.apply` has laid the settings of the command line over those of the file, and nothing
validates these again.  `Selects` and `Refused` say what the second look lets through and what it
refuses, in terms of the settings.  Both looks refuse the same bounds, so one that only the second
look refuses came with the command line.
-/
import LeaseOrder.Proofs.Command.Run
import LeaseOrder.Proofs.Config.Print
import LeaseOrder.Proofs.Order.ParentsFirst

namespace LeaseOrder

open Files

/-! ### One over the other -/

/-- Settings laid over others: each one that is given stands in its own field, and a field for
    which none is given is as it was. -/
structure Overlays (a : Overrides) (o effective : OrderSettings) : Prop where
  strategy : (∀ s, a.strategy = some s → effective.strategy = s) ∧
    (a.strategy = none → effective.strategy = o.strategy)
  maxDepth : (∀ n, a.maxDepth = some n → effective.maxDepth = some n) ∧
    (a.maxDepth = none → effective.maxDepth = o.maxDepth)
  seed : (∀ n, a.seed = some n → effective.seed = some n) ∧
    (a.seed = none → effective.seed = o.seed)

variable {a : Overrides} {o effective : OrderSettings}

theorem overlays_apply (a : Overrides) (o : OrderSettings) : Overlays a o (a.apply o) := by
  obtain ⟨strategy, maxDepth, seed⟩ := a
  refine ⟨?_, ?_, ?_⟩
  · cases strategy <;> simp [Overrides.apply]
  · cases maxDepth <;> simp [Overrides.apply]
  · cases seed <;> simp [Overrides.apply]

/-- There is one way to lay settings over others. -/
theorem overlays_iff : Overlays a o effective ↔ effective = a.apply o := by
  refine ⟨?_, ?_⟩
  · intro h
    obtain ⟨strategy, maxDepth, seed⟩ := a
    obtain ⟨effectiveStrategy, effectiveDepth, effectiveSeed⟩ := effective
    obtain ⟨hstrategy, hdepth, hseed⟩ := h
    simp only [Overrides.apply, OrderSettings.mk.injEq]
    refine ⟨?_, ?_, ?_⟩
    · cases strategy with
      | none => exact hstrategy.2 rfl
      | some s => exact hstrategy.1 s rfl
    · cases maxDepth with
      | none => exact hdepth.2 rfl
      | some n => exact hdepth.1 n rfl
    · cases seed with
      | none => exact hseed.2 rfl
      | some n => exact hseed.1 n rfl
  · intro h
    rw [h]
    exact overlays_apply a o

/-- What is laid over settings twice is laid over them once. -/
@[simp] theorem apply_apply (a : Overrides) (o : OrderSettings) :
    a.apply (a.apply o) = a.apply o := by
  obtain ⟨strategy, maxDepth, seed⟩ := a
  have hstrategy : strategy.getD (strategy.getD o.strategy) = strategy.getD o.strategy := by
    cases strategy <;> rfl
  have hdepth : (maxDepth <|> (maxDepth <|> o.maxDepth)) = (maxDepth <|> o.maxDepth) := by
    cases maxDepth <;> rfl
  have hseed : (seed <|> (seed <|> o.seed)) = (seed <|> o.seed) := by
    cases seed <;> rfl
  simp only [Overrides.apply, hstrategy, hdepth, hseed]

namespace OrderSettings

/-! ### The order that is made -/

/-- The order that settings describe: parents first up to their bound as it stands, or without a
    bound where they have none; or a shuffle with their seed. -/
inductive Selects (o : OrderSettings) : Orderer → Prop
  | unbounded {s : ParentsFirst} (hstrategy : o.strategy = .parentsFirst)
      (hdepth : o.maxDepth = none) (hbound : s.maxDepth.toNat = 2 ^ 64 - 1) :
      Selects o (.parentsFirst s)
  | upTo {s : ParentsFirst} {n : Int64} (hstrategy : o.strategy = .parentsFirst)
      (hdepth : o.maxDepth = some n) (hpos : 0 < n) (hbound : (s.maxDepth.toNat : Int) = n.toInt) :
      Selects o (.parentsFirst s)
  | shuffle {s : Shuffle} (hstrategy : o.strategy = .shuffle) (hseed : s.seed = o.seed) :
      Selects o (.shuffle s)

/-- The one reason for which settings describe no order: a bound that is not positive, on an order
    that has a bound. -/
inductive Refused (o : OrderSettings) : OrderError → Prop
  | notPositive {n : Int64} (hstrategy : o.strategy = .parentsFirst)
      (hdepth : o.maxDepth = some n) (hle : n ≤ 0) : Refused o (.invalidMaxDepth n)

theorem refused_iff {e : OrderError} : o.Refused e ↔ o.strategy = .parentsFirst ∧
    ∃ n, o.maxDepth = some n ∧ n ≤ 0 ∧ e = .invalidMaxDepth n := by
  refine ⟨?_, ?_⟩
  · intro h
    obtain ⟨hstrategy, hdepth, hle⟩ := h
    exact ⟨hstrategy, _, hdepth, hle, rfl⟩
  · intro h
    obtain ⟨hstrategy, n, hdepth, hle, rfl⟩ := h
    exact .notPositive hstrategy hdepth hle

theorem orderer_of_refused {e : OrderError} (h : o.Refused e) : o.orderer = .error e := by
  obtain ⟨hstrategy, hdepth, hle⟩ := h
  rw [orderer, hstrategy, hdepth]
  simp only [ParentsFirst.ofMaxDepth, ParentsFirst.upTo, if_pos hle]
  rfl

/-- Orders with one bound are one order. -/
theorem eq_of_toNat_eq {s t : ParentsFirst} (h : s.maxDepth.toNat = t.maxDepth.toNat) : s = t := by
  obtain ⟨m⟩ := s
  obtain ⟨n⟩ := t
  exact congrArg ParentsFirst.mk (UInt64.toNat_inj.mp h)

/-- A positive bound is the bound of the order that is made. -/
theorem toNat_of_ofMaxDepth {s : ParentsFirst} {n : Int64} (hpos : 0 < n)
    (h : ParentsFirst.ofMaxDepth (some n) = .ok s) : (s.maxDepth.toNat : Int) = n.toInt := by
  have hbound : s.maxDepth.toNat = n.toInt.toNat := ParentsFirst.maxDepth_eq_bound h
  have hint : 0 < n.toInt := Int64.lt_iff_toInt_lt.mp hpos
  omega

theorem orderer_of_selects {ord : Orderer} (h : o.Selects ord) : o.orderer = .ok ord := by
  cases h with
  | @unbounded s hstrategy hdepth hbound =>
    have hsame : s = .unbounded := eq_of_toNat_eq hbound
    rw [orderer, hstrategy, hdepth, hsame]
    rfl
  | @upTo s n hstrategy hdepth hpos hbound =>
    obtain ⟨made, hmade⟩ := ParentsFirst.exists_ofMaxDepth (m := some n) fun k hk => by
      obtain rfl := Option.some.inj hk
      exact hpos
    have hsame : made = s := by
      have hmadeBound := toNat_of_ofMaxDepth hpos hmade
      exact eq_of_toNat_eq (by omega)
    rw [orderer, hstrategy, hdepth, hmade, hsame]
    rfl
  | @shuffle s hstrategy hseed =>
    obtain ⟨seed⟩ := s
    rw [orderer, hstrategy, ← hseed]

theorem selects_or_refused (o : OrderSettings) :
    (∃ ord, o.Selects ord) ∨ ∃ e, o.Refused e := by
  cases hstrategy : o.strategy with
  | shuffle => exact .inl ⟨_, .shuffle (s := ⟨o.seed⟩) hstrategy rfl⟩
  | parentsFirst =>
    cases hdepth : o.maxDepth with
    | none => exact .inl ⟨_, .unbounded (s := .unbounded) hstrategy hdepth rfl⟩
    | some n =>
      by_cases hn : n ≤ 0
      · exact .inr ⟨_, .notPositive hstrategy hdepth hn⟩
      · have hpos : 0 < n := Int64.not_le.mp hn
        obtain ⟨s, hs⟩ := ParentsFirst.exists_ofMaxDepth (m := some n) fun k hk => by
          obtain rfl := Option.some.inj hk
          exact hpos
        exact .inl ⟨_, .upTo hstrategy hdepth hpos (toNat_of_ofMaxDepth hpos hs)⟩

/-- **Settings make the order that they describe.** -/
theorem orderer_eq_ok_iff (o : OrderSettings) (ord : Orderer) :
    o.orderer = .ok ord ↔ o.Selects ord :=
  eq_ok_iff_of_told (fun _ => orderer_of_selects) (fun _ => orderer_of_refused)
    (selects_or_refused o) ord

/-- **Settings make no order where their bound is refused**, and the refusal names it. -/
theorem orderer_eq_error_iff (o : OrderSettings) (e : OrderError) :
    o.orderer = .error e ↔ o.Refused e :=
  eq_error_iff_of_told (fun _ => orderer_of_selects) (fun _ => orderer_of_refused)
    (selects_or_refused o) e

/-- No bound that is given is as good as none. -/
theorem isUnbounded_iff_of_selects {s : ParentsFirst} (h : o.Selects (.parentsFirst s)) :
    s.isUnbounded = true ↔ o.maxDepth = none := by
  have hunbounded : s.isUnbounded = true ↔ s.maxDepth.toNat = 2 ^ 64 - 1 := by
    rw [ParentsFirst.isUnbounded, beq_iff_eq, ← UInt64.toNat_inj]
    rfl
  rw [hunbounded]
  cases h with
  | unbounded _ hdepth hbound => simp [hdepth, hbound]
  | @upTo _ n _ hdepth _ hbound =>
    have hlt := n.toInt_lt
    simp only [hdepth, reduceCtorEq, iff_false]
    omega

/-! ### The settings of a file -/

theorem validate_eq_error_iff (o : OrderSettings) (e : ConfigError) :
    o.validate = .error e ↔ ∃ n, o.maxDepth = some n ∧ n ≤ 0 ∧ e = .notPositive n := by
  refine ⟨?_, ?_⟩
  · intro h
    by_cases hpos : ∀ n, o.maxDepth = some n → 0 < n
    · rw [Config.validate_of_pos hpos] at h
      cases h
    · push Not at hpos
      obtain ⟨n, hn, hle⟩ := hpos
      have hle : n ≤ 0 := Int64.not_lt.mp hle
      rw [Config.validate_of_nonpos hn hle] at h
      exact ⟨n, hn, hle, (Except.error.inj h).symm⟩
  · intro h
    obtain ⟨n, hn, hle, rfl⟩ := h
    exact Config.validate_of_nonpos hn hle

/-- What the first look lets through the second one lets through. -/
theorem not_refused_of_validate (h : o.validate = .ok ()) {e : OrderError} : ¬ o.Refused e := by
  intro hrefused
  obtain ⟨-, hdepth, hle⟩ := hrefused
  rw [Config.validate_of_nonpos hdepth hle] at h
  cases h

/-- Over settings that are valid, the bound that is refused is one that was laid over them. -/
theorem refused_apply_iff (h : o.validate = .ok ()) {e : OrderError} :
    (a.apply o).Refused e ↔ (a.apply o).strategy = .parentsFirst ∧
      ∃ n, a.maxDepth = some n ∧ n ≤ 0 ∧ e = .invalidMaxDepth n := by
  have hover := (overlays_apply a o).maxDepth
  refine ⟨?_, ?_⟩
  · intro hrefused
    obtain ⟨hstrategy, hdepth, hle⟩ := hrefused
    refine ⟨hstrategy, ?_⟩
    cases hgiven : a.maxDepth with
    | some n =>
      rw [hover.1 n hgiven, Option.some.injEq] at hdepth
      subst hdepth
      exact ⟨n, rfl, hle, rfl⟩
    | none =>
      rw [hover.2 hgiven] at hdepth
      rw [Config.validate_of_nonpos hdepth hle] at h
      cases h
  · intro hgiven
    obtain ⟨hstrategy, n, hn, hle, rfl⟩ := hgiven
    exact .notPositive hstrategy (hover.1 n hn) hle

end OrderSettings

/-! ### Whole runs -/

theorem Config.validate_of_ofContents {p : Path} {contents : Text.Bytes} {c : Config}
    (h : ofContents p contents = .ok c) : c.ordering.validate = .ok () := by
  unfold ofContents at h
  split at h
  case h_1 => cases h
  case h_2 text _ => exact (read?_of_parse (ok_of_mapError h)).2

theorem Config.validate_of_ofFile {p : Path} {w : World} {c : Config}
    (h : ((ofFile p : StateM World (Except LoadError Config)).run w).1 = .ok c) :
    c.ordering.validate = .ok () := by
  unfold ofFile at h
  rw [World.run_bind_of World.run_openRead] at h
  cases hopen : w.tree.openRead p with
  | error e =>
    rw [hopen] at h
    cases h
  | ok file =>
    cases file with
    | directory =>
      rw [hopen] at h
      cases h
    | file contents =>
      rw [hopen] at h
      exact validate_of_ofContents h

/-- **A configuration that is loaded is valid**, wherever it comes from. -/
theorem Config.validate_of_load {e : Environment} {named : Option String} {w : World} {c : Config}
    (h : ((load e named : StateM World (Except LoadError Config)).run w).1 = .ok c) :
    c.ordering.validate = .ok () := by
  unfold load at h
  split at h
  case h_1 p _ => exact validate_of_ofFile h
  case h_2 =>
    split at h
    case h_1 =>
      obtain rfl : .default = c := Except.ok.inj h
      rfl
    case h_2 p _ =>
      change ((if (w.tree.find p).toBool then ofFile p else return .ok .default :
        StateM World (Except LoadError Config)).run w).1 = .ok c at h
      by_cases hfound : (w.tree.find p).toBool
      · rw [if_pos hfound] at h
        exact validate_of_ofFile h
      · rw [if_neg hfound] at h
        obtain rfl : .default = c := Except.ok.inj h
        rfl

namespace Command

section

variable {e : Environment} {inv : Invocation} {w : World} {format : Format} {input : String}
  {kind : Kind} {output : Option String} {settings : OrderSettings} {entropy : UInt64}
  {source : Batch.Source} {f : OrderError}

/-- Handing out what has been ordered blames no settings. -/
theorem deliver_ne_settings {α : Type} [Record α] {total : Nat} {ordered : List α} :
    ((deliver format output total ordered : StateM World Outcome).run w).1 ≠
      .error (.settings f) := by
  intro h
  unfold deliver at h
  cases output with
  | none => cases h
  | some dest =>
    dsimp only at h
    rcases hwrite : (Batch.write (.ofString dest) ordered : StateM World _).run w with
      ⟨written, w₁⟩
    rw [World.run_bind_of hwrite] at h
    cases written with
    | error _ => cases h
    | ok _ => cases h

/-- Settings are blamed where they make no order, and nowhere else. -/
theorem orderer_of_orderBatch {α : Type} [Record α]
    (h : ((orderBatch α format settings entropy source output : StateM World Outcome).run w).1 =
      .error (.settings f)) : settings.orderer = .error f := by
  cases hs : settings.orderer with
  | error e =>
    rw [run_orderBatch_refused hs] at h
    cases h
    rfl
  | ok o =>
    cases hread : Batch.records α w source with
    | error e =>
      rw [run_orderBatch_unread hs hread] at h
      cases h
    | ok batch =>
      cases horder : o.order entropy batch with
      | error e =>
        rw [run_orderBatch_cycle hs hread horder] at h
        cases h
      | ok ordered =>
        rw [run_orderBatch_ordered hs hread horder] at h
        exact absurd h deliver_ne_settings

/-- An order command blames its settings exactly where these are refused. -/
theorem run_settings_iff {config : Config}
    (hload : ((Config.load e inv.config : StateM World (Except LoadError Config)).run w).1 =
      .ok config) (haction : inv.action = .order input kind a output) :
    ((run e inv : StateM World Outcome).run w).1 = .error (.settings f) ↔
      (a.apply config.ordering).Refused f := by
  rw [run_eq_perform hload, perform_order haction, ← OrderSettings.orderer_eq_error_iff]
  refine ⟨?_, ?_⟩
  · intro h
    cases kind with
    | lease => exact orderer_of_orderBatch h
    | shard => exact orderer_of_orderBatch h
  · intro h
    rw [run_orderKind_refused h]

end

/-- **The two looks at a bound and the settings in between agree.**  Settings laid over others
    change the fields for which something is given, once and for all.  An order fails to be made
    exactly where its strategy has a bound that is not positive, and settings are invalid exactly
    where there is such a bound, whatever the strategy; both name it.  So valid settings make an
    order, and settings that were valid before others were laid over them fail with the bound of
    those others.  The order that is made has the bound of the settings, and no positive bound
    means none; or it has their seed.  An order command that loads the settings blames them in the
    one case that is left. -/
theorem settings_agree (o : OrderSettings) (a : Overrides) :
    (∀ effective, Overlays a o effective ↔ effective = a.apply o) ∧
      a.apply (a.apply o) = a.apply o ∧
      (∀ e, (a.apply o).orderer = .error e ↔ (a.apply o).strategy = .parentsFirst ∧
        ∃ n, (a.apply o).maxDepth = some n ∧ n ≤ 0 ∧ e = .invalidMaxDepth n) ∧
      (∀ e, (a.apply o).validate = .error e ↔
        ∃ n, (a.apply o).maxDepth = some n ∧ n ≤ 0 ∧ e = .notPositive n) ∧
      ((a.apply o).validate = .ok () → ∃ ord, (a.apply o).orderer = .ok ord) ∧
      (o.validate = .ok () → ∀ e, (a.apply o).orderer = .error e →
        ∃ n, a.maxDepth = some n ∧ n ≤ 0 ∧ e = .invalidMaxDepth n) ∧
      (∀ ord, (a.apply o).orderer = .ok ord ↔ (a.apply o).Selects ord) ∧
      (∀ s, (a.apply o).orderer = .ok (.parentsFirst s) →
        (s.isUnbounded = true ↔ (a.apply o).maxDepth = none)) ∧
      ∀ (env : Environment) (inv : Invocation) (w : World) (format : Format) (input : String)
        (kind : Kind) (output : Option String),
        ((Config.load env inv.config : StateM World (Except LoadError Config)).run w).1 =
          .ok ⟨format, o⟩ → inv.action = .order input kind a output →
          ∀ f, ((run env inv : StateM World Outcome).run w).1 = .error (.settings f) ↔
            (a.apply o).strategy = .parentsFirst ∧
              ∃ n, a.maxDepth = some n ∧ n ≤ 0 ∧ f = .invalidMaxDepth n := by
  refine ⟨fun _ => overlays_iff, apply_apply a o, fun e => ?_,
    OrderSettings.validate_eq_error_iff _, fun hvalid => ?_, fun hvalid e he => ?_,
    OrderSettings.orderer_eq_ok_iff _, fun s hs => ?_, ?_⟩
  · rw [OrderSettings.orderer_eq_error_iff, OrderSettings.refused_iff]
  · rcases (a.apply o).selects_or_refused with ⟨ord, hord⟩ | ⟨e, he⟩
    · exact ⟨ord, OrderSettings.orderer_of_selects hord⟩
    · exact absurd he (OrderSettings.not_refused_of_validate hvalid)
  · rw [OrderSettings.orderer_eq_error_iff, OrderSettings.refused_apply_iff hvalid] at he
    exact he.2
  · exact OrderSettings.isUnbounded_iff_of_selects ((OrderSettings.orderer_eq_ok_iff _ _).mp hs)
  · intro env inv w format input kind output hload haction f
    rw [run_settings_iff hload haction,
      OrderSettings.refused_apply_iff (Config.validate_of_load hload)]

/-- A shuffle may be configured with a bound; on the command line it is given up for an order that
    refuses the bound given there.  The greatest bound that can be given is a bound. -/
theorem settings_agree_overridden :
    (⟨.shuffle, some 3, some 7⟩ : OrderSettings).validate = .ok () ∧
      (Overrides.apply ⟨some .parentsFirst, some (-4), none⟩
        ⟨.shuffle, some 3, some 7⟩).orderer = .error (.invalidMaxDepth (-4)) ∧
      (∃ s, (Overrides.apply ⟨some .parentsFirst, some 9223372036854775807, none⟩
        ⟨.shuffle, some (-3), some 7⟩).orderer = .ok (.parentsFirst s) ∧
          s.isUnbounded = false) ∧
      ∃ n, some (-4) = some n ∧ n ≤ 0 ∧
        OrderError.invalidMaxDepth (-4) = .invalidMaxDepth n := by
  have hvalid : (⟨.shuffle, some 3, some 7⟩ : OrderSettings).validate = .ok () := by decide
  have herr : (Overrides.apply ⟨some .parentsFirst, some (-4), none⟩
      ⟨.shuffle, some 3, some 7⟩).orderer = .error (.invalidMaxDepth (-4)) := by decide
  obtain ⟨-, -, -, -, -, hnames, -⟩ :=
    settings_agree ⟨.shuffle, some 3, some 7⟩ ⟨some .parentsFirst, some (-4), none⟩
  obtain ⟨-, -, -, -, -, -, -, hunbounded, -⟩ :=
    settings_agree ⟨.shuffle, some (-3), some 7⟩
      ⟨some .parentsFirst, some 9223372036854775807, none⟩
  refine ⟨hvalid, herr, ⟨⟨9223372036854775807⟩, by decide, ?_⟩, hnames hvalid _ herr⟩
  rw [Bool.eq_false_iff, ne_eq, hunbounded _ (by decide)]
  simp [Overrides.apply]

end Command

end LeaseOrder
