import WikiMind.Llm.BudgetCheck

/-!
# One budget event a month

Whether a user gets one warning and one event of an exceeded budget in a calendar month. A
check reads the flags before it sums up the entries and sets them after the event is delivered
(`engine/llm_router.py:310–311`, `:344`, `:349`); another one may read them between.
-/

namespace WikiMind.Llm.BudgetCheck

open WikiMind.Base

/-- The event a check awaits the delivery of, with the month whose flag it sets afterwards. -/
def Phase.delivering : Phase → Option (Kind × MonthKey)
  | .warning start _ _ _ => some (.warning, start.monthKey)
  | .exceeding start => some (.exceeded, start.monthKey)
  | _ => none

def BudgetEvent.key (ev : BudgetEvent) : Kind × String × MonthKey := (ev.kind, ev.userId, ev.month)

/-- No user has two events of a kind in a month. -/
def AtMostOnce (s : State) : Prop := (s.events.map BudgetEvent.key).Nodup

instance (s : State) : Decidable (AtMostOnce s) :=
  inferInstanceAs (Decidable (s.events.map BudgetEvent.key).Nodup)

/-- A check is under way: it has read the time and does something yet. -/
def Phase.active : Phase → Bool
  | .created | .done => false
  | _ => true

/-- The checks of a user follow one another, none begins while another one is under way, and the
month does not end while a check is. -/
def Apart (s : State) : Event → Prop
  | .advance r _ => ∀ q ∈ s.checks.get? r, q.phase = .created → s.checks.Alone Phase.active id q
  | .tick clock _ => clock.monthKey = s.clock.monthKey ∨ ∀ q ∈ s.checks, q.phase.active = false
  | _ => True

instance (s : State) : ∀ e, Decidable (Apart s e)
  | .advance r _ => inferInstanceAs (Decidable (∀ q ∈ s.checks.get? r, _ → _))
  | .tick .. => inferInstanceAs (Decidable (_ ∨ _))
  | .log _ | .setBudget _ | .redis _ | .create .. => inferInstanceAs (Decidable True)

/-- A sign of an event of the current month: its flag, or a check that delivers it. -/
def State.Marked (s : State) (ev : BudgetEvent) : Prop :=
  s.flag ev.kind ev.userId = some s.clock.monthKey ∨
    ∃ q ∈ s.checks, q.data = ev.userId ∧ q.phase.delivering = some (ev.kind, s.clock.monthKey)

/-- The invariant. -/
structure State.Once (s : State) : Prop where
  distinct : s.checks.Distinct
  alone : s.checks.AtMostOne Phase.active id
  current : ∀ q ∈ s.checks, q.phase.active = true → (s.began q).monthKey = s.clock.monthKey
  unsent : ∀ q ∈ s.checks, ∀ kind, q.phase.mayEmit kind = true →
    s.flag kind q.data ≠ some s.clock.monthKey
  once : AtMostOnce s
  past : ∀ ev ∈ s.events, ev.month ≤ s.clock.monthKey
  marked : ∀ ev ∈ s.events, ev.month = s.clock.monthKey → s.Marked ev

section
variable {settings : Settings} {s t : State} {q : Party String Phase} {answers : Bool}

private theorem active_of_delivering {phase : Phase} {p : Kind × MonthKey}
    (h : phase.delivering = some p) : phase.active = true := by
  cases phase with
  | warning | exceeding => rfl
  | _ => cases h

private theorem active_of_mayEmit {phase : Phase} {kind : Kind} (h : phase.mayEmit kind = true) :
    phase.active = true := by
  cases phase with
  | created | done => cases kind <;> cases h
  | _ => rfl

/-- A check that is under way began when its event says. -/
theorem began_of_delivering {kind : Kind} {month : MonthKey}
    (h : q.phase.delivering = some (kind, month)) : month = (s.began q).monthKey := by
  unfold State.began
  cases hphase : q.phase with
  | warning | exceeding =>
    rw [hphase] at h
    cases h
    rfl
  | _ =>
    rw [hphase] at h
    cases h

/-- A check that takes a step began in the current month. -/
theorem State.Once.began (hs : s.Once) (hq : q ∈ s.checks) (hdone : q.phase ≠ .done) :
    (s.began q).monthKey = s.clock.monthKey := by
  by_cases hactive : q.phase.active = true
  · exact hs.current q hq hactive
  · unfold State.began
    cases hphase : q.phase with
    | created => rfl
    | done => exact absurd hphase hdone
    | _ =>
      rw [hphase] at hactive
      exact absurd rfl hactive

/-- The flags of other users stay while a check prepares the end of its step. -/
theorem flag_prepare_other {kind : Kind} {userId : String} (h : userId ≠ q.data) :
    (prepare settings s q answers).flag kind userId = s.flag kind userId := by
  have hredis (kind' : Kind) (month : MonthKey) :
      (s.redisSet answers kind' q.data month).flag kind userId = s.flag kind userId := by
    unfold State.redisSet
    split <;> rfl
  unfold prepare
  cases q.phase with
  | created => simp [State.resetFlags, h]
  | warning | exceeding => simp [State.setFlag, h]
  | warned | exceeded => exact hredis ..
  | _ => rfl

/-- A flag that is set for the current month is not lost in a step of a check of that month. -/
theorem flag_prepare (hwrites : ∀ p ∈ q.phase.delivering, p.2 = s.clock.monthKey)
    {kind : Kind} {userId : String} (h : s.flag kind userId = some s.clock.monthKey) :
    (prepare settings s q answers).flag kind userId = some s.clock.monthKey := by
  have hset (kind' : Kind) (start : Moment)
      (hdelivers : q.phase.delivering = some (kind', start.monthKey)) :
      (s.setFlag kind' q.data start.monthKey).flag kind userId = some s.clock.monthKey := by
    simp only [State.setFlag]
    split
    next hsame => exact congrArg some (hwrites _ hdelivers)
    next hother => exact h
  have hredis (kind' : Kind) (month : MonthKey) :
      (s.redisSet answers kind' q.data month).flag kind userId = some s.clock.monthKey := by
    unfold State.redisSet
    split <;> exact h
  unfold prepare
  cases hphase : q.phase with
  | created => simp [State.resetFlags, h]
  | warning start exceededSent spend budget => exact hset .warning start (by rw [hphase]; rfl)
  | exceeding start => exact hset .exceeded start (by rw [hphase]; rfl)
  | warned start exceededSent spend budget => exact hredis ..
  | exceeded start => exact hredis ..
  | _ => exact h

/-- A check that has delivered an event sets its flag in the same step. -/
theorem flag_prepare_of_delivering {kind : Kind} {month : MonthKey}
    (h : q.phase.delivering = some (kind, month)) :
    (prepare settings s q answers).flag kind q.data = some month := by
  unfold prepare
  cases hphase : q.phase with
  | warning start exceededSent spend budget =>
    rw [hphase] at h
    cases h
    simp [State.setFlag]
  | exceeding start =>
    rw [hphase] at h
    cases h
    simp [State.setFlag]
  | _ =>
    rw [hphase] at h
    cases h

/-- The kinds a check takes for unsent stay unset while it prepares the end of its step. -/
theorem flag_prepare_of_mayEmit {kind : Kind} (h : q.phase.mayEmit kind = true) :
    (prepare settings s q answers).flag kind q.data = s.flag kind q.data := by
  have hredis (kind' : Kind) (month : MonthKey) :
      (s.redisSet answers kind' q.data month).flag kind q.data = s.flag kind q.data := by
    unfold State.redisSet
    split <;> rfl
  unfold prepare
  cases hphase : q.phase with
  | created =>
    rw [hphase] at h
    cases kind <;> cases h
  | warning start exceededSent spend budget =>
    rw [hphase] at h
    cases kind with
    | warning => cases h
    | exceeded => simp [State.setFlag]
  | exceeding start =>
    rw [hphase] at h
    cases kind <;> cases h
  | warned | exceeded => exact hredis ..
  | _ => rfl

/-- The signs of the events of the current month outlast a step of a check, whatever phase the
check goes on to. -/
theorem marked_goto (settings : Settings) (answers : Bool) (hdistinct : s.checks.Distinct)
    (hq : q ∈ s.checks) (hwrites : ∀ p ∈ q.phase.delivering, p.2 = s.clock.monthKey)
    (phase : Phase) {ev : BudgetEvent} (h : s.Marked ev) :
    ((prepare settings s q answers).goto q phase).Marked ev := by
  obtain ⟨hclock, hchecks, -, -⟩ := prepare_frame settings s q answers
  unfold State.Marked State.goto
  dsimp only
  rw [hclock, hchecks]
  rcases h with hflag | ⟨q', hq', huser, hdelivers⟩
  · exact .inl (flag_prepare hwrites hflag)
  · by_cases hid : q'.id = q.id
    · have hself : q' = q := Rows.eq_of_nodup hdistinct hq hq' hid
      rw [hself] at huser hdelivers
      rw [← huser]
      exact .inl (flag_prepare_of_delivering hdelivers)
    · refine .inr ⟨q', Rows.mem_modify.mpr (.inr ⟨hq', ?_⟩), huser, hdelivers⟩
      simpa using hid

/-- The phase a check goes on to, of the month it began in, and with what it takes for unsent. -/
structure Follows (settings : Settings) (s : State) (q : Party String Phase) (answers : Bool)
    (phase : Phase) : Prop where
  began : phase.active = true → s.began { q with phase } = s.began q
  unsent : ∀ kind, phase.mayEmit kind = true →
    (prepare settings s q answers).flag kind q.data ≠ some s.clock.monthKey

/-- A check rests. -/
theorem State.Once.goto (hs : s.Once) (hq : q ∈ s.checks) (hdone : q.phase ≠ .done)
    (halone : s.checks.Alone Phase.active id q) {phase : Phase}
    (hphase : Follows settings s q answers phase) :
    ((prepare settings s q answers).goto q phase).Once := by
  obtain ⟨hclock, hchecks, hevents, -⟩ := prepare_frame settings s q answers
  have hwrites : ∀ p ∈ q.phase.delivering, p.2 = s.clock.monthKey := by
    rintro ⟨kind, month⟩ hdelivers
    exact (began_of_delivering hdelivers).trans (hs.began hq hdone)
  constructor
  · show ((prepare settings s q answers).checks.goto q.id phase).Distinct
    rw [hchecks]
    exact Parties.distinct_goto hs.distinct
  · show ((prepare settings s q answers).checks.goto q.id phase).AtMostOne Phase.active id
    rw [hchecks]
    by_cases hactive : phase.active = true
    · exact (Parties.atMostOne_goto_inside_iff hs.distinct hs.alone hq hactive).mpr halone
    · exact Parties.atMostOne_goto_outside hs.distinct hs.alone hq (by simpa using hactive)
  · show ∀ q' ∈ (prepare settings s q answers).checks.goto q.id phase, q'.phase.active = true →
      (((prepare settings s q answers).goto q phase).began q').monthKey =
        (prepare settings s q answers).clock.monthKey
    have hbegan (q' : Party String Phase) :
        ((prepare settings s q answers).goto q phase).began q' = s.began q' := by
      unfold State.began State.goto
      dsimp only
      rw [hclock]
    rw [hchecks, hclock, Parties.forall_goto hs.distinct hq]
    refine ⟨fun hactive ↦ ?_, fun q' hq' _ hactive ↦ ?_⟩
    · rw [hbegan, hphase.began hactive]
      exact hs.began hq hdone
    · rw [hbegan]
      exact hs.current q' hq' hactive
  · show ∀ q' ∈ (prepare settings s q answers).checks.goto q.id phase, ∀ kind,
      q'.phase.mayEmit kind = true → (prepare settings s q answers).flag kind q'.data ≠
        some (prepare settings s q answers).clock.monthKey
    rw [hchecks, hclock, Parties.forall_goto hs.distinct hq]
    refine ⟨hphase.unsent, fun q' hq' hne kind hkind ↦ ?_⟩
    -- another check under way is of another user
    have hother : q'.data ≠ q.data := by
      intro hsame
      have hidle := halone q' hq' hne hsame
      rw [active_of_mayEmit hkind] at hidle
      cases hidle
    rw [flag_prepare_other hother]
    exact hs.unsent q' hq' kind hkind
  · show ((prepare settings s q answers).events.map BudgetEvent.key).Nodup
    rw [hevents]
    exact hs.once
  · show ∀ ev ∈ (prepare settings s q answers).events,
      ev.month ≤ (prepare settings s q answers).clock.monthKey
    rw [hevents, hclock]
    exact hs.past
  · intro ev hev hmonth
    have hold : ev ∈ s.events := hevents ▸ hev
    have hnow : ev.month = s.clock.monthKey := hclock ▸ hmonth
    exact marked_goto settings answers hs.distinct hq hwrites phase (hs.marked ev hold hnow)

/-- An event of the current month has no equal while its flag is not set and no other check of
the user is under way. -/
theorem State.Once.fresh (hs : s.Once) (hq : q ∈ s.checks) (hdone : q.phase ≠ .done)
    (halone : s.checks.Alone Phase.active id q) {kind : Kind}
    (hunsent : (prepare settings s q answers).flag kind q.data ≠ some s.clock.monthKey) :
    (kind, q.data, s.clock.monthKey) ∉ s.events.map BudgetEvent.key := by
  intro hmem
  obtain ⟨ev, hev, hkey⟩ := List.mem_map.mp hmem
  unfold BudgetEvent.key at hkey
  simp only [Prod.mk.injEq] at hkey
  obtain ⟨rfl, huser, hmonth⟩ := hkey
  rcases hs.marked ev hev hmonth with hset | ⟨q', hq', hsame, hdelivers⟩
  · refine hunsent (flag_prepare ?_ (huser ▸ hset))
    rintro ⟨kind, month⟩ hdelivers
    exact (began_of_delivering hdelivers).trans (hs.began hq hdone)
  · by_cases hid : q'.id = q.id
    · rw [Rows.eq_of_nodup hs.distinct hq hq' hid] at hdelivers
      exact hunsent (flag_prepare_of_delivering hdelivers)
    · have hidle := halone q' hq' hid (hsame.trans huser)
      rw [active_of_delivering hdelivers] at hidle
      cases hidle

/-- A check emits an event. -/
theorem State.Once.emit (hs : s.Once) (hq : q ∈ s.checks) (hdone : q.phase ≠ .done)
    (halone : s.checks.Alone Phase.active id q) {kind : Kind} {phase : Phase}
    (hphase : Follows settings s q answers phase)
    (hunsent : (prepare settings s q answers).flag kind q.data ≠ some s.clock.monthKey)
    (hdelivers : phase.delivering = some (kind, (s.began q).monthKey)) (budget : Rat) :
    ((prepare settings s q answers).emit q kind budget phase).Once := by
  obtain ⟨hclock, hchecks, hevents, -⟩ := prepare_frame settings s q answers
  have hrests : ((prepare settings s q answers).goto q phase).Once :=
    hs.goto hq hdone halone hphase
  have hmem : { q with phase } ∈ (prepare settings s q answers).checks.goto q.id phase := by
    rw [hchecks]
    exact Rows.mem_modify.mpr (.inl ⟨q, hq, by simp, rfl⟩)
  exact { hrests with
    once := by
      show ((kind, q.data, (prepare settings s q answers).clock.monthKey) ::
        (prepare settings s q answers).events.map BudgetEvent.key).Nodup
      rw [hclock, hevents]
      exact List.nodup_cons.mpr ⟨hs.fresh hq hdone halone hunsent, hs.once⟩
    past := List.forall_mem_cons.mpr ⟨le_refl _, hrests.past⟩
    marked := by
      refine List.forall_mem_cons.mpr ⟨fun _ ↦ ?_, hrests.marked⟩
      refine .inr ⟨{ q with phase }, hmem, rfl, ?_⟩
      show phase.delivering = some (kind, (prepare settings s q answers).clock.monthKey)
      rw [hclock, ← hs.began hq hdone]
      exact hdelivers }

/-- A phase in which a check rests is of the month it began in. -/
theorem began_of_rests {phase : Phase} (hrests : RestsAfter q.phase (s.began q) phase)
    (hactive : phase.active = true) : s.began { q with phase } = s.began q := by
  cases phase with
  | done => cases hactive
  | readWarning | readExceeded | querying | exceeded => exact hrests
  | warned start exceededSent spend budget =>
    have hbefore : q.phase = .warning start exceededSent spend budget := hrests
    unfold State.began
    rw [hbefore]
  | created | warning | exceeding => exact hrests.elim

/-- A step of a check that no other of its user runs beside keeps the invariant. -/
theorem State.Once.advance (hs : s.Once) (hq : q ∈ s.checks)
    (halone : s.checks.Alone Phase.active id q)
    (hstep : advance settings s q answers = some t) : t.Once := by
  have hdone : q.phase ≠ .done := by
    intro hphase
    unfold BudgetCheck.advance at hstep
    rw [hphase] at hstep
    cases hstep
  have hmonth := hs.began hq hdone
  have houtcome := outcome_advance
    (fun kind ↦ (prepare settings s q answers).flag kind q.data ≠ some s.clock.monthKey)
    (fun kind hkind ↦ by
      rw [flag_prepare_of_mayEmit hkind]
      exact hs.unsent q hq kind hkind)
    (fun kind hread ↦ hmonth ▸ hread) hstep
  cases houtcome with
  | rest phase hrests hlater => exact hs.goto hq hdone halone ⟨began_of_rests hrests, hlater⟩
  | warn exceededSent spend budget huses hreach hunsent hlater =>
    have hfollows : Follows settings s q answers
        (.warning (s.began q) exceededSent spend budget) := by
      refine ⟨fun _ ↦ rfl, fun kind hkind ↦ ?_⟩
      cases kind with
      | warning => cases hkind
      | exceeded => exact hlater (by simpa [Phase.mayEmit] using hkind)
    exact hs.emit hq hdone halone hfollows hunsent rfl budget
  | exceed spend budget huses hreach hunsent =>
    have hfollows : Follows settings s q answers (.exceeding (s.began q)) :=
      ⟨fun _ ↦ rfl, fun kind hkind ↦ by cases kind <;> cases hkind⟩
    exact hs.emit hq hdone halone hfollows hunsent rfl budget

private theorem once_start (clock : Moment) (time : Nat) (budget : Rat)
    (redis : Option (List (Kind × String × MonthKey))) :
    (State.start clock time budget redis).Once where
  distinct := Parties.distinct_nil
  alone := Parties.atMostOne_nil _ _
  current := by simp [State.start]
  unsent := by simp [State.start]
  once := List.nodup_nil
  past := by simp [State.start]
  marked := by simp [State.start]

/-- Time goes on within the month, or while no check is under way. -/
theorem State.Once.tick (hs : s.Once) {clock : Moment} (time : Nat) (hclock : s.clock ≤ clock)
    (hapart : clock.monthKey = s.clock.monthKey ∨ ∀ q ∈ s.checks, q.phase.active = false) :
    { s with clock, time }.Once := by
  have hmonths : s.clock.monthKey ≤ clock.monthKey := monthKey_mono hclock
  have hactive (q : Party String Phase) (hq : q ∈ s.checks) (h : q.phase.active = true) :
      clock.monthKey = s.clock.monthKey := by
    rcases hapart with hsame | hidle
    · exact hsame
    · rw [hidle q hq] at h
      cases h
  refine ⟨hs.distinct, hs.alone, fun q hq h ↦ ?_, fun q hq kind hkind ↦ ?_, hs.once,
    fun ev hev ↦ (hs.past ev hev).trans hmonths, fun ev hev hmonth ↦ ?_⟩
  · have hbegan : State.began { s with clock, time } q = s.began q := by
      unfold State.began
      cases hphase : q.phase with
      | created | done =>
        rw [hphase] at h
        cases h
      | _ => rfl
    rw [hbegan]
    exact (hs.current q hq h).trans (hactive q hq h).symm
  · show s.flag kind q.data ≠ some clock.monthKey
    rw [hactive q hq (active_of_mayEmit hkind)]
    exact hs.unsent q hq kind hkind
  · -- an event of the new month is one of the old month too, as the clock went no further
    have hnow : ev.month = clock.monthKey := hmonth
    have hsame : s.clock.monthKey = clock.monthKey :=
      le_antisymm hmonths (hnow ▸ hs.past ev hev)
    have hold := hs.marked ev hev (hnow.trans hsame.symm)
    unfold State.Marked at hold ⊢
    rw [hsame] at hold
    exact hold

/-- Every event keeps the invariant, while the checks of a user are apart. -/
theorem once_step (settings : Settings) (s : State) (e : Event) (t : State)
    (hs : s.Once) (hapart : Apart s e) (hstep : step settings s e = some t) : t.Once := by
  cases e with
  | tick clock time =>
    obtain ⟨⟨hclock, -⟩, ht⟩ := Option.ite_none_right_eq_some.mp hstep
    cases ht
    exact hs.tick time hclock hapart
  | log entry =>
    obtain ⟨-, ht⟩ := Option.ite_none_right_eq_some.mp hstep
    cases ht
    exact { hs with }
  | setBudget budget =>
    cases hstep
    exact { hs with }
  | redis flags =>
    cases hstep
    exact { hs with }
  | create r userId =>
    obtain ⟨checks, henter, rfl⟩ := Option.map_eq_some_iff.mp hstep
    have hdistinct := Parties.distinct_enter hs.distinct henter
    have halone := Parties.atMostOne_enter hs.alone rfl henter
    obtain ⟨-, rfl⟩ := Parties.enter_eq_some.mp henter
    refine ⟨hdistinct, halone, List.forall_mem_cons.mpr ⟨nofun, hs.current⟩,
      List.forall_mem_cons.mpr ⟨nofun, hs.unsent⟩, hs.once, hs.past, fun ev hev hmonth ↦ ?_⟩
    refine (hs.marked ev hev hmonth).imp_right ?_
    rintro ⟨q, hq, hdelivers⟩
    exact ⟨q, List.mem_cons_of_mem _ hq, hdelivers⟩
  | advance r answers =>
    obtain ⟨q, hq, hid, hadvance⟩ := Parties.exists_of_bind hs.distinct hstep
    refine hs.advance hq ?_ hadvance
    by_cases hactive : q.phase.active = true
    · exact hs.alone.alone hq hactive
    · refine hapart q ((Parties.get?_eq_some hs.distinct).mpr ⟨hq, hid⟩) ?_
      unfold BudgetCheck.advance at hadvance
      cases hphase : q.phase with
      | created => rfl
      | done =>
        rw [hphase] at hadvance
        cases hadvance
      | _ =>
        rw [hphase] at hactive
        exact absurd rfl hactive

end

/-- The first of March 2026, with the defaults of `config.py:116`. -/
def march : Moment := toLex (toLex (2026, 3), 0)

/-- Two completions of a user over the budget, and the steps of their checks. -/
def spent : List Event := [.log ⟨"alice", 60, march⟩, .create 1 "alice", .create 2 "alice"]

def steps (r : Nat) (n : Nat) : List Event := List.replicate n (.advance r true)

end WikiMind.Llm.BudgetCheck
