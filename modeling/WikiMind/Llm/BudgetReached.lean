import Mathlib.Algebra.Order.BigOperators.Group.List
import Mathlib.Tactic.Linarith
import WikiMind.Llm.BudgetCheck

/-!
# Budget events and the entries of their month

Whether the user's entries of the month in which a budget event is emitted reach the share it
tells of. A cached sum (`engine/llm_router.py:314–329`) expires by the clock's seconds, the
flags by the calendar, and a check keeps the month it has read first.
-/

namespace WikiMind.Llm.BudgetCheck

open WikiMind.Base

/-- For every event, the entries of its month reach its share of the budget. -/
def Reached (settings : Settings) (s : State) : Prop :=
  ∀ ev ∈ s.events, ev.kind.share settings * ev.budget ≤ s.monthSpend ev.userId ev.month

instance (settings : Settings) (s : State) : Decidable (Reached settings s) :=
  inferInstanceAs (Decidable (∀ ev ∈ s.events, _))

/-- A step within its month: no entry has a negative cost, and a check that emits an event
began in the current month and goes by no sum cached for another one. -/
def InItsMonth (settings : Settings) (s : State) : Event → Prop
  | .log entry => 0 ≤ entry.costUsd
  | .advance r answers => ∀ q ∈ s.checks.get? r, emits settings s q answers = true →
      (s.began q).monthKey = s.clock.monthKey ∧
        (q.phase.readsCache = true →
          ∀ entry ∈ s.cached q.data, entry.month = s.clock.monthKey)
  | _ => True

instance (settings : Settings) (s : State) : ∀ e, Decidable (InItsMonth settings s e)
  | .log entry => inferInstanceAs (Decidable (0 ≤ entry.costUsd))
  | .advance r _ => inferInstanceAs (Decidable (∀ q ∈ s.checks.get? r, _ → _))
  | .tick .. | .setBudget _ | .redis _ | .create .. => inferInstanceAs (Decidable True)

/-- If a month is the current one, its entries reach a sum. -/
def State.Covers (s : State) (userId : String) (month : MonthKey) (spend : Rat) : Prop :=
  month ≤ s.clock.monthKey ∧ (month = s.clock.monthKey → spend ≤ s.monthSpend userId month)

/-- What a phase holds of a sum is covered. -/
def State.Holds (s : State) (userId : String) : Phase → Prop
  | .warning start _ spend budget | .warned start _ spend budget =>
    s.Covers userId start.monthKey spend ∧ 0 < budget
  | _ => True

/-- The invariant. -/
structure State.Sound (settings : Settings) (s : State) : Prop where
  distinct : s.checks.Distinct
  costs : ∀ e ∈ s.entries, 0 ≤ e.costUsd
  written : ∀ e ∈ s.entries, e.createdAt ≤ s.clock
  began : ∀ q ∈ s.checks, s.began q ≤ s.clock
  held : ∀ q ∈ s.checks, s.Holds q.data q.phase
  cached : ∀ userId, ∀ entry ∈ s.cached userId, s.Covers userId entry.month entry.spend
  reached : Reached settings s

section
variable {settings : Settings} {s t : State} {q : Party String Phase} {userId : String}

/-- The entries since the start of the current month are entries of that month. -/
theorem spendSince_le (hcosts : ∀ e ∈ s.entries, 0 ≤ e.costUsd)
    (hwritten : ∀ e ∈ s.entries, e.createdAt ≤ s.clock) {start : Moment}
    (hmonth : start.monthKey = s.clock.monthKey) :
    s.spendSince userId start.startOfMonth ≤ s.monthSpend userId start.monthKey := by
  have hwithin : s.entries.filter (fun e ↦ start.startOfMonth ≤ e.createdAt ∧ e.userId = userId) =
      (s.entries.filter fun e ↦ e.createdAt.monthKey = start.monthKey ∧ e.userId = userId).filter
        (fun e ↦ start.startOfMonth ≤ e.createdAt ∧ e.userId = userId) := by
    rw [List.filter_filter]
    refine List.filter_congr fun e he ↦ ?_
    rw [← Bool.decide_and, decide_eq_decide]
    refine ⟨fun h ↦ ⟨h, ?_, h.2⟩, And.left⟩
    have hlow : start.startOfMonth.monthKey ≤ e.createdAt.monthKey := monthKey_mono h.1
    have hhigh : e.createdAt.monthKey ≤ s.clock.monthKey := monthKey_mono (hwritten e he)
    rw [← hmonth] at hhigh
    exact le_antisymm hhigh hlow
  unfold State.spendSince State.monthSpend
  rw [hwithin]
  refine (List.filter_sublist.map _).sum_le_sum ?_
  intro cost hcost
  obtain ⟨e, he, rfl⟩ := List.mem_map.mp hcost
  exact hcosts e (List.mem_of_mem_filter he)

/-- A sum that is covered stays so while the clock goes on. -/
theorem State.Covers.tick {clock : Moment} {time : Nat} (hclock : s.clock ≤ clock)
    {month : MonthKey} {spend : Rat} (h : s.Covers userId month spend) :
    State.Covers { s with clock, time } userId month spend := by
  have hmonths : s.clock.monthKey ≤ clock.monthKey := monthKey_mono hclock
  refine ⟨h.1.trans hmonths, fun hmonth ↦ h.2 ?_⟩
  exact le_antisymm h.1 (hmonths.trans hmonth.ge)

/-- An entry more does not lessen the sum of a month. -/
theorem monthSpend_log (s : State) {entry : CostEntry} (hcost : 0 ≤ entry.costUsd)
    (userId : String) (month : MonthKey) :
    s.monthSpend userId month ≤
      State.monthSpend { s with entries := entry :: s.entries } userId month := by
  unfold State.monthSpend
  by_cases hentry : entry.createdAt.monthKey = month ∧ entry.userId = userId
  · simp only [List.filter_cons, hentry, decide_true, and_self, if_true, List.map_cons,
      List.sum_cons]
    linarith
  · simp [hentry]

/-- What holds of the parties, the cache and the events when the sums can only have grown. -/
theorem State.Sound.of_covers (hs : s.Sound settings) {s' : State}
    (hchecks : s'.checks = s.checks) (hcached : s'.cached = s.cached)
    (hevents : s'.events = s.events) (hclock : s.clock ≤ s'.clock)
    (hcosts : ∀ e ∈ s'.entries, 0 ≤ e.costUsd) (hwritten : ∀ e ∈ s'.entries, e.createdAt ≤ s'.clock)
    (hcovers : ∀ userId month spend, s.Covers userId month spend → s'.Covers userId month spend)
    (hgrown : ∀ userId month, s.monthSpend userId month ≤ s'.monthSpend userId month) :
    s'.Sound settings where
  distinct := hchecks ▸ hs.distinct
  costs := hcosts
  written := hwritten
  began q hq := by
    have hbegan := hs.began q (hchecks ▸ hq)
    unfold State.began at hbegan ⊢
    cases hphase : q.phase <;> simp only [hphase] at hbegan ⊢ <;>
      first | exact le_refl _ | exact hbegan.trans hclock
  held q hq := by
    have hheld := hs.held q (hchecks ▸ hq)
    unfold State.Holds at hheld ⊢
    cases hphase : q.phase <;> simp only [hphase] at hheld ⊢ <;>
      exact ⟨hcovers _ _ _ hheld.1, hheld.2⟩
  cached userId entry hentry := hcovers _ _ _ (hs.cached userId entry (hcached ▸ hentry))
  reached ev hev := (hs.reached ev (hevents ▸ hev)).trans (hgrown _ _)

/-- The sum a check goes by is reached by the entries of the current month, if it began in this
month and takes no sum of another one from the cache. -/
theorem State.Sound.spend_le (hs : s.Sound settings) (hq : q ∈ s.checks)
    (hmonth : (s.began q).monthKey = s.clock.monthKey)
    (hcache : q.phase.readsCache = true →
      ∀ entry ∈ s.cached q.data, entry.month = s.clock.monthKey)
    {spend budget : Rat} (huses : s.Uses q spend budget) :
    spend ≤ s.monthSpend q.data s.clock.monthKey ∧ 0 < budget := by
  have hheld := hs.held q hq
  have hcached : (∃ entry, s.cached q.data = some entry ∧ spend = entry.spend) →
      q.phase.readsCache = true → spend ≤ s.monthSpend q.data s.clock.monthKey := by
    rintro ⟨entry, hentry, rfl⟩ hreads
    have hsame := hcache hreads entry hentry
    rw [← hsame]
    exact (hs.cached q.data entry hentry).2 hsame
  unfold State.Uses at huses
  unfold State.began at hmonth
  unfold State.Holds at hheld
  cases hphase : q.phase with
  | created =>
    rw [hphase] at huses
    exact ⟨hcached huses.1 (by rw [hphase]; rfl), huses.2.2⟩
  | readWarning start =>
    rw [hphase] at huses
    exact ⟨hcached huses.1 (by rw [hphase]; rfl), huses.2.2⟩
  | readExceeded start warningSent =>
    rw [hphase] at huses
    exact ⟨hcached huses.1 (by rw [hphase]; rfl), huses.2.2⟩
  | querying start warningSent exceededSent now =>
    rw [hphase] at huses hmonth
    obtain ⟨rfl, -, hbudget⟩ := huses
    refine ⟨?_, hbudget⟩
    rw [← hmonth]
    exact spendSince_le hs.costs hs.written hmonth
  | warning start exceededSent spend' budget' =>
    rw [hphase] at huses hmonth hheld
    obtain ⟨rfl, rfl⟩ := huses
    exact ⟨hmonth ▸ hheld.1.2 hmonth, hheld.2⟩
  | warned start exceededSent spend' budget' =>
    rw [hphase] at huses hmonth hheld
    obtain ⟨rfl, rfl⟩ := huses
    exact ⟨hmonth ▸ hheld.1.2 hmonth, hheld.2⟩
  | exceeding start =>
    rw [hphase] at huses
    exact huses.elim
  | exceeded start =>
    rw [hphase] at huses
    exact huses.elim
  | done =>
    rw [hphase] at huses
    exact huses.elim

/-- Flags are not part of the invariant. -/
theorem State.Sound.of_flags (hs : s.Sound settings) (flag : Kind → String → Option MonthKey)
    (redis : Option (List (Kind × String × MonthKey))) :
    State.Sound settings { s with flag, redis } :=
  ⟨hs.distinct, hs.costs, hs.written, hs.began, hs.held, hs.cached, hs.reached⟩

theorem State.Sound.redisSet (hs : s.Sound settings) (answers : Bool) (kind : Kind)
    (month : MonthKey) : (s.redisSet answers kind userId month).Sound settings := by
  unfold State.redisSet
  split
  · exact hs.of_flags s.flag _
  · exact hs

/-- A covered sum may be cached. -/
theorem State.Sound.cacheSpend (hs : s.Sound settings) {entry : CachedSpend}
    (hentry : s.Covers userId entry.month entry.spend) :
    (s.cacheSpend userId entry).Sound settings :=
  { hs with
    cached := by
      intro user entry' hentry'
      simp only [State.cacheSpend] at hentry'
      split at hentry'
      next huser =>
        cases hentry'
        exact huser ▸ hentry
      next huser => exact hs.cached user entry' hentry' }

/-- What a step of a check writes before it ends or emits keeps the invariant. -/
theorem State.Sound.prepare (hs : s.Sound settings) (hq : q ∈ s.checks) (answers : Bool) :
    (prepare settings s q answers).Sound settings := by
  have hbegan := hs.began q hq
  unfold BudgetCheck.prepare
  unfold State.began at hbegan
  cases hphase : q.phase with
  | created => exact hs.of_flags _ s.redis
  | readWarning start => exact hs
  | readExceeded start warningSent => exact hs
  | querying start warningSent exceededSent now =>
    rw [hphase] at hbegan
    refine hs.cacheSpend ⟨monthKey_mono hbegan, fun hmonth ↦ ?_⟩
    exact spendSince_le hs.costs hs.written hmonth
  | warning start exceededSent spend budget => exact hs.of_flags _ s.redis
  | warned start exceededSent spend budget => exact hs.redisSet answers .warning _
  | exceeding start => exact hs.of_flags _ s.redis
  | exceeded start => exact hs.redisSet answers .exceeded _
  | done => exact hs

/-- A check rests. -/
theorem State.Sound.goto (hs : s.Sound settings) (hq : q ∈ s.checks) {phase : Phase}
    (hbegan : s.began { q with phase } ≤ s.clock) (hheld : s.Holds q.data phase) :
    (s.goto q phase).Sound settings where
  distinct := Parties.distinct_goto hs.distinct
  costs := hs.costs
  written := hs.written
  began := (Parties.forall_goto hs.distinct hq).mpr ⟨hbegan, fun q' hq' _ ↦ hs.began q' hq'⟩
  held := (Parties.forall_goto hs.distinct hq).mpr ⟨hheld, fun q' hq' _ ↦ hs.held q' hq'⟩
  cached := hs.cached
  reached := hs.reached

/-- An event whose share is reached is emitted. -/
theorem State.Sound.emit (hs : s.Sound settings) (hq : q ∈ s.checks) {kind : Kind}
    {budget : Rat} {phase : Phase} (hbegan : s.began { q with phase } ≤ s.clock)
    (hheld : s.Holds q.data phase)
    (hreach : kind.share settings * budget ≤ s.monthSpend q.data s.clock.monthKey) :
    (s.emit q kind budget phase).Sound settings :=
  { hs.goto hq hbegan hheld with
    reached := List.forall_mem_cons.mpr ⟨hreach, hs.reached⟩ }

private theorem share_mul_le {kind : Kind} {spend budget : Rat} (hbudget : 0 < budget)
    (hreach : kind.share settings * 100 ≤ spend / budget * 100) :
    kind.share settings * budget ≤ spend := by
  have hshare : kind.share settings ≤ spend / budget := by linarith
  exact (le_div_iff₀ hbudget).mp hshare

private theorem monthSpend_congr {s' : State} (hentries : s'.entries = s.entries)
    (month : MonthKey) :
    s'.monthSpend userId month = s.monthSpend userId month := by
  unfold State.monthSpend
  rw [hentries]

private theorem covers_congr {s' : State} (hclock : s'.clock = s.clock)
    (hentries : s'.entries = s.entries)
    {month : MonthKey} {spend : Rat} :
    s'.Covers userId month spend ↔ s.Covers userId month spend := by
  unfold State.Covers
  rw [hclock, monthSpend_congr hentries]

/-- A check that goes on resting has begun no later, and holds what it held. -/
theorem State.Sound.rests (hs : s.Sound settings) (hq : q ∈ s.checks) {phase : Phase}
    (hrests : RestsAfter q.phase (s.began q) phase) :
    s.began { q with phase } ≤ s.clock ∧ s.Holds q.data phase := by
  have hbegan := hs.began q hq
  have hheld := hs.held q hq
  cases phase with
  | done => exact ⟨le_refl _, trivial⟩
  | readWarning start => exact ⟨hrests.trans_le hbegan, trivial⟩
  | readExceeded start warningSent => exact ⟨hrests.trans_le hbegan, trivial⟩
  | querying start warningSent exceededSent now => exact ⟨hrests.trans_le hbegan, trivial⟩
  | exceeded start => exact ⟨hrests.trans_le hbegan, trivial⟩
  | warned start exceededSent spend budget =>
    have hbefore : q.phase = .warning start exceededSent spend budget := hrests
    unfold State.began at hbegan
    unfold State.Holds at hheld
    rw [hbefore] at hbegan hheld
    exact ⟨hbegan, hheld⟩
  | created => exact hrests.elim
  | warning start exceededSent spend budget => exact hrests.elim
  | exceeding start => exact hrests.elim

/-- A step of a check that is in its month keeps the invariant. -/
theorem State.Sound.advance (hs : s.Sound settings) (hq : q ∈ s.checks) {answers : Bool}
    (hguard : emits settings s q answers = true →
      (s.began q).monthKey = s.clock.monthKey ∧
        (q.phase.readsCache = true → ∀ entry ∈ s.cached q.data, entry.month = s.clock.monthKey))
    (hstep : advance settings s q answers = some t) : t.Sound settings := by
  have hprepared := hs.prepare hq answers
  obtain ⟨hclock, hchecks, hevents, hentries⟩ := prepare_frame settings s q answers
  have houtcome := outcome_advance (fun _ ↦ True) (fun _ _ ↦ trivial) (fun _ _ ↦ trivial) hstep
  have hemits : t.events ≠ s.events → emits settings s q answers = true := by
    intro hne
    simp [emits, hstep, hne]
  generalize BudgetCheck.prepare settings s q answers = s' at *
  have hq' : q ∈ s'.checks := hchecks ▸ hq
  have hbegan (phase : Phase) (h : s.began { q with phase } ≤ s.clock) :
      s'.began { q with phase } ≤ s'.clock := by
    unfold State.began at h ⊢
    rw [hclock]
    exact h
  have hnow : (s.began q).monthKey = s.clock.monthKey → ∀ spend,
      spend ≤ s.monthSpend q.data s.clock.monthKey →
      s'.Covers q.data (s.began q).monthKey spend := by
    intro hmonth spend hspend
    refine (covers_congr hclock hentries).mpr ⟨hmonth.le, fun _ ↦ ?_⟩
    exact hmonth ▸ hspend
  have hreached (kind : Kind) (budget spend : Rat) (hbudget : 0 < budget)
      (hspend : spend ≤ s.monthSpend q.data s.clock.monthKey)
      (hreach : kind.share settings * 100 ≤ spend / budget * 100) :
      kind.share settings * budget ≤ s'.monthSpend q.data s'.clock.monthKey := by
    rw [hclock, monthSpend_congr hentries]
    exact (share_mul_le hbudget hreach).trans hspend
  cases houtcome with
  | rest phase hrests =>
    obtain ⟨hbefore, hheld⟩ := hs.rests hq hrests
    refine hprepared.goto hq' (hbegan phase hbefore) ?_
    unfold State.Holds at hheld ⊢
    cases phase <;> first | trivial | exact ⟨(covers_congr hclock hentries).mpr hheld.1, hheld.2⟩
  | warn exceededSent spend budget huses hreach =>
    obtain ⟨hmonth, hcache⟩ := hguard (hemits (hevents ▸ List.cons_ne_self _ _))
    obtain ⟨hspend, hbudget⟩ := hs.spend_le hq hmonth hcache huses
    exact hprepared.emit hq' (hbegan _ (hs.began q hq)) ⟨hnow hmonth spend hspend, hbudget⟩
      (hreached .warning budget spend hbudget hspend hreach)
  | exceed spend budget huses hreach =>
    obtain ⟨hmonth, hcache⟩ := hguard (hemits (hevents ▸ List.cons_ne_self _ _))
    obtain ⟨hspend, hbudget⟩ := hs.spend_le hq hmonth hcache huses
    refine hprepared.emit hq' (hbegan _ (hs.began q hq)) trivial
      (hreached .exceeded budget spend hbudget hspend ?_)
    rw [Kind.share, one_mul]
    exact hreach

theorem sound_start (settings : Settings) (clock : Moment) (time : Nat) (budget : Rat)
    (redis : Option (List (Kind × String × MonthKey))) :
    (State.start clock time budget redis).Sound settings where
  distinct := Parties.distinct_nil
  costs := by simp [State.start]
  written := by simp [State.start]
  began := by simp [State.start]
  held := by simp [State.start]
  cached := by simp [State.start]
  reached := by simp [Reached, State.start]

/-- Every event in its month keeps the invariant. -/
theorem sound_step (settings : Settings) (s : State) (e : Event) (t : State)
    (hs : s.Sound settings) (hguard : InItsMonth settings s e)
    (hstep : step settings s e = some t) : t.Sound settings := by
  cases e with
  | tick clock time =>
    obtain ⟨⟨hclock, htime⟩, ht⟩ := Option.ite_none_right_eq_some.mp hstep
    cases ht
    refine hs.of_covers rfl rfl rfl hclock hs.costs (fun e he ↦ (hs.written e he).trans hclock) ?_
      fun _ _ ↦ le_refl _
    exact fun _ _ _ hcovers ↦ hcovers.tick hclock
  | log entry =>
    obtain ⟨hwritten, ht⟩ := Option.ite_none_right_eq_some.mp hstep
    cases ht
    have hgrown := monthSpend_log s hguard
    refine hs.of_covers rfl rfl rfl (le_refl _) ?_ ?_ ?_ hgrown
    · exact List.forall_mem_cons.mpr ⟨hguard, hs.costs⟩
    · exact List.forall_mem_cons.mpr ⟨hwritten, hs.written⟩
    · exact fun userId month _ hcovers ↦
        ⟨hcovers.1, fun hmonth ↦ (hcovers.2 hmonth).trans (hgrown userId month)⟩
  | setBudget budget =>
    cases hstep
    exact ⟨hs.distinct, hs.costs, hs.written, hs.began, hs.held, hs.cached, hs.reached⟩
  | redis flags =>
    cases hstep
    exact hs.of_flags s.flag _
  | create r userId =>
    obtain ⟨checks, henter, rfl⟩ := Option.map_eq_some_iff.mp hstep
    have hdistinct := Parties.distinct_enter hs.distinct henter
    obtain ⟨-, rfl⟩ := Parties.enter_eq_some.mp henter
    exact { hs with
      distinct := hdistinct
      began := List.forall_mem_cons.mpr ⟨le_refl _, hs.began⟩
      held := List.forall_mem_cons.mpr ⟨trivial, hs.held⟩ }
  | advance r answers =>
    obtain ⟨q, hq, hid, hadvance⟩ := Parties.exists_of_bind hs.distinct hstep
    exact hs.advance hq (hguard q ((Parties.get?_eq_some hs.distinct).mpr ⟨hq, hid⟩)) hadvance

end

/-- **Reached budgets.** In every run in which no negative cost is written and each check that
emits an event does so in the month it began in, by no sum cached for another month, the
entries of its month reach the share of every event. -/
theorem reached_of_inItsMonth (settings : Settings) (clock : Moment) (time : Nat) (budget : Rat)
    (redis : Option (List (Kind × String × MonthKey))) (es : List Event)
    (h : (router settings).Guarded (InItsMonth settings) (.start clock time budget redis) es) :
    (router settings).Always (Reached settings) (.start clock time budget redis) es :=
  ((router settings).always_of_guarded (sound_step settings)
    (sound_start settings clock time budget redis) h).mono _ fun _ hs ↦ hs.reached

/-- Ten seconds before the end of January 2026. -/
def lateJanuary : Moment := toLex (toLex (2026, 1), (31 * 86400 - 10) * 1000000)

/-- Ten seconds later than that, and five. -/
def earlyFebruary : Moment := toLex (toLex (2026, 2), 5 * 1000000)

def defaults : Settings := ⟨4 / 5, 60⟩

/-- A check that goes as far as its first event, without Redis. -/
def check (r : Nat) : List Event := [.create r "alice", .advance r true, .advance r true]

theorem reached_in_january :
    (router defaults).Always (Reached defaults) (.start lateJanuary 1769903990000000 50 none)
      (.log ⟨"alice", 45, lateJanuary⟩ :: check 1) :=
  reached_of_inItsMonth defaults lateJanuary 1769903990000000 50 none _ (by decide +kernel)

/-- The January sum is still cached when February begins. -/
theorem february_by_january : ¬ ∀ (settings : Settings) (clock : Moment) (time : Nat)
    (budget : Rat) (redis : Option (List (Kind × String × MonthKey))) (es : List Event),
    (router settings).Always (Reached settings) (.start clock time budget redis) es := by
  intro h
  have hrun := h defaults lateJanuary 1769903990000000 50 none
    (.log ⟨"alice", 45, lateJanuary⟩ :: check 1 ++ .tick earlyFebruary 1769904005000000 :: check 2)
  revert hrun
  decide +kernel

end WikiMind.Llm.BudgetCheck
