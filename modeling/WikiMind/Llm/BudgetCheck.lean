import Mathlib.Algebra.Order.Field.Rat
import Mathlib.Data.Prod.Lex
import WikiMind.Base.Parties
import WikiMind.Base.Run

/-!
# The budget checks of a router

`LLMRouter._check_budget` (`engine/llm_router.py:299–349`) runs as a task of its own after every
completion (`:525`). It reads two flags, in memory and in Redis, sums the month's cost entries
or takes a cached sum, emits an event and sets the flag. The system has one step for each
stretch of it between two awaits, for any number of checks of any users in any order, with
entries written and the clock going on between them.
-/

namespace WikiMind.Llm.BudgetCheck

open WikiMind.Base

/-- `(year, month)`. -/
abbrev MonthKey := ℕ ×ₗ ℕ

/-- A naive UTC time: its month, and the microsecond of that month. -/
abbrev Moment := MonthKey ×ₗ ℕ

def Moment.monthKey (t : Moment) : MonthKey := (ofLex t).1

/-- `replace(day=1, hour=0, minute=0, second=0)`, which keeps the microseconds of the second:
`engine/llm_router.py:320`. -/
def Moment.startOfMonth (t : Moment) : Moment := toLex (t.monthKey, (ofLex t).2 % 1000000)

/-- `models/tables/jobs.py:30`, as far as a check reads it. -/
structure CostEntry where
  userId : String
  costUsd : Rat
  createdAt : Moment
  deriving DecidableEq

inductive Kind where
  | warning | exceeded
  deriving DecidableEq, Repr

/-- The settings of `config.py:116`. -/
structure Settings where
  budgetWarningPct : Rat
  budgetCheckCacheSeconds : Nat

/-- An event, with the month in which it is emitted. -/
structure BudgetEvent where
  kind : Kind
  userId : String
  month : MonthKey
  budget : Rat
  deriving DecidableEq

/-- A cached sum and its expiry. For the statements only it has the month of the check that
took it. -/
structure CachedSpend where
  spend : Rat
  expiresAt : Nat
  month : MonthKey
  deriving DecidableEq

/-- Where a check stands, by what it awaits: not started, Redis about a flag, the sum of the
entries, the delivery of an event, or Redis to store the flag. `start` is the time it read
first. -/
inductive Phase where
  | created
  | readWarning (start : Moment)
  | readExceeded (start : Moment) (warningSent : Bool)
  | querying (start : Moment) (warningSent exceededSent : Bool) (now : Nat)
  | warning (start : Moment) (exceededSent : Bool) (spend budget : Rat)
  | warned (start : Moment) (exceededSent : Bool) (spend budget : Rat)
  | exceeding (start : Moment)
  | exceeded (start : Moment)
  | done
  deriving DecidableEq

/-- The router with what its checks read: the clock, as a date and in microseconds, the cost
log, the budget in force, the flags in memory and in Redis (`none` where it is not configured),
the cached sums, the checks and the events so far. -/
structure State where
  clock : Moment
  time : Nat
  entries : List CostEntry
  budget : Rat
  flag : Kind → String → Option MonthKey
  redis : Option (List (Kind × String × MonthKey))
  cached : String → Option CachedSpend
  checks : Parties String Phase
  events : List BudgetEvent

/-- The sum of a user's entries from a time on: `engine/llm_router.py:322–327`. -/
def State.spendSince (s : State) (userId : String) (start : Moment) : Rat :=
  ((s.entries.filter fun e ↦ start ≤ e.createdAt ∧ e.userId = userId).map (·.costUsd)).sum

/-- The sum of a user's entries of a month. -/
def State.monthSpend (s : State) (userId : String) (month : MonthKey) : Rat :=
  ((s.entries.filter fun e ↦ e.createdAt.monthKey = month ∧ e.userId = userId).map
    (·.costUsd)).sum

namespace State
variable (s : State) (q : Party String Phase)

def goto (phase : Phase) : State := { s with checks := s.checks.goto q.id phase }

/-- Start the delivery of an event and await its end. -/
def emit (kind : Kind) (budget : Rat) (phase : Phase) : State :=
  { s.goto q phase with events := ⟨kind, q.data, s.clock.monthKey, budget⟩ :: s.events }

/-- Forget the user's flags of other months: `engine/llm_router.py:305–308`. -/
def resetFlags (userId : String) (month : MonthKey) : State :=
  { s with
    flag := fun kind user ↦
      if user = userId ∧ s.flag kind user ≠ some month then none else s.flag kind user }

/-- The flag in memory: `engine/llm_router.py:286`. -/
def setFlag (kind : Kind) (userId : String) (month : MonthKey) : State :=
  { s with
    flag := fun kind' user ↦
      if kind' = kind ∧ user = userId then some month else s.flag kind' user }

/-- The flag in Redis; an error counts as no flag: `engine/llm_router.py:274–278`. -/
def redisHas (answers : Bool) (kind : Kind) (userId : String) (month : MonthKey) : Bool :=
  answers && (s.redis.getD []).contains (kind, userId, month)

/-- Store the flag in Redis; an error is swallowed: `engine/llm_router.py:293–297`. -/
def redisSet (answers : Bool) (kind : Kind) (userId : String) (month : MonthKey) : State :=
  if answers then { s with redis := s.redis.map ((kind, userId, month) :: ·) } else s

def cacheSpend (userId : String) (entry : CachedSpend) : State :=
  { s with cached := fun user ↦ if user = userId then some entry else s.cached user }

end State

section Check
variable (settings : Settings) (s : State) (q : Party String Phase)

/-- `engine/llm_router.py:346–349`. -/
def checkExceeded (start : Moment) (exceededSent : Bool) (spend budget : Rat) : State :=
  if 100 ≤ spend / budget * 100 ∧ exceededSent = false then
    s.emit q .exceeded budget (.exceeding start)
  else s.goto q .done

/-- `engine/llm_router.py:331–344`. -/
def evaluate (start : Moment) (warningSent exceededSent : Bool) (spend : Rat) : State :=
  if s.budget ≤ 0 then s.goto q .done
  else if settings.budgetWarningPct * 100 ≤ spend / s.budget * 100 ∧ warningSent = false then
    s.emit q .warning s.budget (.warning start exceededSent spend s.budget)
  else checkExceeded s q start exceededSent spend s.budget

/-- `engine/llm_router.py:313–327`. -/
def checkSpend (start : Moment) (warningSent exceededSent : Bool) : State :=
  if warningSent ∧ exceededSent then s.goto q .done
  else
    match s.cached q.data with
    | some entry =>
      if s.time < entry.expiresAt then
        evaluate settings s q start warningSent exceededSent entry.spend
      else s.goto q (.querying start warningSent exceededSent s.time)
    | none => s.goto q (.querying start warningSent exceededSent s.time)

/-- `engine/llm_router.py:311`. -/
def readExceeded (start : Moment) (warningSent : Bool) : State :=
  if s.flag .exceeded q.data = some start.monthKey then
    checkSpend settings s q start warningSent true
  else if s.redis = none then checkSpend settings s q start warningSent false
  else s.goto q (.readExceeded start warningSent)

/-- `engine/llm_router.py:301–310`. -/
def begin : State :=
  let s' := s.resetFlags q.data s.clock.monthKey
  if s'.flag .warning q.data = some s.clock.monthKey then readExceeded settings s' q s.clock true
  else if s'.redis = none then readExceeded settings s' q s.clock false
  else s'.goto q (.readWarning s.clock)

/-- The sum arrives and is cached: `engine/llm_router.py:325–329`. -/
def finishQuery (start : Moment) (warningSent exceededSent : Bool) (now : Nat) : State :=
  let spend := s.spendSince q.data start.startOfMonth
  let expiresAt := now + settings.budgetCheckCacheSeconds * 1000000
  evaluate settings (s.cacheSpend q.data ⟨spend, expiresAt, start.monthKey⟩) q start warningSent
    exceededSent spend

/-- The warning is delivered: `engine/llm_router.py:344`, `:286–291`. -/
def finishWarning (start : Moment) (exceededSent : Bool) (spend budget : Rat) : State :=
  let s' := s.setFlag .warning q.data start.monthKey
  if s'.redis = none then checkExceeded s' q start exceededSent spend budget
  else s'.goto q (.warned start exceededSent spend budget)

/-- The other event is delivered: `engine/llm_router.py:349`, `:286–291`. -/
def finishExceeded (start : Moment) : State :=
  let s' := s.setFlag .exceeded q.data start.monthKey
  if s'.redis = none then s'.goto q .done else s'.goto q (.exceeded start)

/-- A check goes on to its next await; `answers` says whether Redis does. -/
def advance (answers : Bool) : Option State :=
  match q.phase with
  | .created => some (begin settings s q)
  | .readWarning start =>
    some (readExceeded settings s q start
      (s.redisHas answers .warning q.data start.monthKey))
  | .readExceeded start warningSent =>
    some (checkSpend settings s q start warningSent
      (s.redisHas answers .exceeded q.data start.monthKey))
  | .querying start warningSent exceededSent now =>
    some (finishQuery settings s q start warningSent exceededSent now)
  | .warning start exceededSent spend budget =>
    some (finishWarning s q start exceededSent spend budget)
  | .warned start exceededSent spend budget =>
    some (checkExceeded (s.redisSet answers .warning q.data start.monthKey) q start exceededSent
      spend budget)
  | .exceeding start => some (finishExceeded s q start)
  | .exceeded start =>
    some ((s.redisSet answers .exceeded q.data start.monthKey).goto q .done)
  | .done => none

end Check

/-- A step of a check emits an event. -/
def emits (settings : Settings) (s : State) (q : Party String Phase) (answers : Bool) : Bool :=
  match advance settings s q answers with
  | some t => t.events ≠ s.events
  | none => false

/-- What happens: the clock goes on, a cost entry is committed, another budget comes into force,
Redis changes through expiry or another replica, a completion starts a check, or a check goes
on. -/
inductive Event where
  | tick (clock : Moment) (time : Nat)
  | log (entry : CostEntry)
  | setBudget (budget : Rat)
  | redis (flags : List (Kind × String × MonthKey))
  | create (r : Nat) (userId : String)
  | advance (r : Nat) (answers : Bool)

/-- One event. The clock does not go back, and an entry is not from the future. -/
def step (settings : Settings) (s : State) : Event → Option State
  | .tick clock time =>
    if s.clock ≤ clock ∧ s.time ≤ time then some { s with clock, time } else none
  | .log entry =>
    if entry.createdAt ≤ s.clock then some { s with entries := entry :: s.entries } else none
  | .setBudget budget => some { s with budget }
  | .redis flags => some { s with redis := s.redis.map fun _ ↦ flags }
  | .create r userId => (s.checks.enter r userId .created).map fun checks ↦ { s with checks }
  | .advance r answers => (s.checks.get? r).bind fun q ↦ advance settings s q answers

/-- The checks of one router process. -/
def router (settings : Settings) : Machine State Event := ⟨step settings⟩

/-- A router process before its first check. -/
def State.start (clock : Moment) (time : Nat) (budget : Rat)
    (redis : Option (List (Kind × String × MonthKey))) : State where
  clock := clock
  time := time
  entries := []
  budget := budget
  flag := fun _ _ ↦ none
  redis := redis
  cached := fun _ ↦ none
  checks := []
  events := []

theorem monthKey_mono {a b : Moment} (h : a ≤ b) : a.monthKey ≤ b.monthKey :=
  Prod.Lex.monotone_fst _ _ h

/-! ### What a step of a check can do -/

/-- The share of the budget an event tells of. -/
def Kind.share (settings : Settings) : Kind → Rat
  | .warning => settings.budgetWarningPct
  | .exceeded => 1

/-- The time a check began: it is read in its first step. -/
def State.began (s : State) (q : Party String Phase) : Moment :=
  match q.phase with
  | .created | .done => s.clock
  | .readWarning start | .readExceeded start _ | .querying start _ _ _ | .warning start _ _ _
  | .warned start _ _ _ | .exceeding start | .exceeded start => start

/-- A check takes its sum from the cache, if it takes one in this step. -/
def Phase.readsCache : Phase → Bool
  | .created | .readWarning _ | .readExceeded .. => true
  | _ => false

/-- The sum and the budget a check goes by, if it goes by any in this step. -/
def State.Uses (s : State) (q : Party String Phase) (spend budget : Rat) : Prop :=
  match q.phase with
  | .created | .readWarning _ | .readExceeded .. =>
    (∃ entry, s.cached q.data = some entry ∧ spend = entry.spend) ∧ budget = s.budget ∧ 0 < budget
  | .querying start _ _ _ =>
    spend = s.spendSince q.data start.startOfMonth ∧ budget = s.budget ∧ 0 < budget
  | .warning _ _ spend' budget' | .warned _ _ spend' budget' => spend = spend' ∧ budget = budget'
  | .exceeding _ | .exceeded _ | .done => False

/-- The state in which a step ends or emits: what it writes before that. -/
def prepare (settings : Settings) (s : State) (q : Party String Phase) (answers : Bool) : State :=
  match q.phase with
  | .created => s.resetFlags q.data s.clock.monthKey
  | .querying start _ _ now =>
    s.cacheSpend q.data ⟨s.spendSince q.data start.startOfMonth,
      now + settings.budgetCheckCacheSeconds * 1000000, start.monthKey⟩
  | .warning start _ _ _ => s.setFlag .warning q.data start.monthKey
  | .warned start _ _ _ => s.redisSet answers .warning q.data start.monthKey
  | .exceeding start => s.setFlag .exceeded q.data start.monthKey
  | .exceeded start => s.redisSet answers .exceeded q.data start.monthKey
  | .readWarning _ | .readExceeded .. | .done => s

/-- What a check reads stays while it prepares the end of its step. -/
theorem prepare_frame (settings : Settings) (s : State) (q : Party String Phase)
    (answers : Bool) :
    (prepare settings s q answers).clock = s.clock ∧
      (prepare settings s q answers).checks = s.checks ∧
      (prepare settings s q answers).events = s.events ∧
      (prepare settings s q answers).entries = s.entries := by
  have hredis : ∀ kind month, (s.redisSet answers kind q.data month).clock = s.clock ∧
      (s.redisSet answers kind q.data month).checks = s.checks ∧
      (s.redisSet answers kind q.data month).events = s.events ∧
      (s.redisSet answers kind q.data month).entries = s.entries := by
    intro kind month
    unfold State.redisSet
    split <;> exact ⟨rfl, rfl, rfl, rfl⟩
  unfold prepare
  cases q.phase with
  | warned start exceededSent spend budget => exact hredis ..
  | exceeded start => exact hredis ..
  | _ => exact ⟨rfl, rfl, rfl, rfl⟩

/-- A phase in which a check awaits something other than the delivery of an event. -/
def RestsAfter (before : Phase) (start : Moment) : Phase → Prop
  | .done => True
  | .readWarning start' | .readExceeded start' _ | .querying start' _ _ _ | .exceeded start' =>
    start' = start
  | .warned start' exceededSent spend budget => before = .warning start' exceededSent spend budget
  | .created | .warning .. | .exceeding _ => False

/-- The kinds of the events a check may yet emit, by the flags it has read. -/
def Phase.mayEmit : Phase → Kind → Bool
  | .readWarning _, .warning | .readExceeded .., .exceeded => true
  | .readExceeded _ warningSent, .warning | .querying _ warningSent _ _, .warning => !warningSent
  | .querying _ _ exceededSent _, .exceeded | .warning _ exceededSent _ _, .exceeded
  | .warned _ exceededSent _ _, .exceeded => !exceededSent
  | _, _ => false

/-- How a step ends. `Unsent` is what a check knows of a kind whose flag it did not find set. -/
inductive Outcome (settings : Settings) (s : State) (q : Party String Phase) (start : Moment)
    (Uses : Rat → Rat → Prop) (Unsent : Kind → Prop) : State → Prop
  | rest (phase : Phase) (hrests : RestsAfter q.phase start phase)
    (hlater : ∀ kind, phase.mayEmit kind = true → Unsent kind) :
    Outcome settings s q start Uses Unsent (s.goto q phase)
  | warn (exceededSent : Bool) (spend budget : Rat) (huses : Uses spend budget)
    (hreach : settings.budgetWarningPct * 100 ≤ spend / budget * 100) (hunsent : Unsent .warning)
    (hlater : exceededSent = false → Unsent .exceeded) :
    Outcome settings s q start Uses Unsent
      (s.emit q .warning budget (.warning start exceededSent spend budget))
  | exceed (spend budget : Rat) (huses : Uses spend budget) (hreach : 100 ≤ spend / budget * 100)
    (hunsent : Unsent .exceeded) :
    Outcome settings s q start Uses Unsent (s.emit q .exceeded budget (.exceeding start))

section
variable {settings : Settings} {s : State} {q : Party String Phase} {start : Moment}
  {Uses : Rat → Rat → Prop} {Unsent : Kind → Prop} {warningSent exceededSent : Bool}
  {spend budget : Rat}

private theorem outcome_checkExceeded (huses : Uses spend budget)
    (hexceeded : exceededSent = false → Unsent .exceeded) :
    Outcome settings s q start Uses Unsent
      (checkExceeded s q start exceededSent spend budget) := by
  unfold checkExceeded
  split
  next h => exact .exceed spend budget huses h.1 (hexceeded h.2)
  next h => exact .rest .done trivial nofun

private theorem outcome_evaluate (huses : 0 < s.budget → Uses spend s.budget)
    (hwarning : warningSent = false → Unsent .warning)
    (hexceeded : exceededSent = false → Unsent .exceeded) :
    Outcome settings s q start Uses Unsent
      (evaluate settings s q start warningSent exceededSent spend) := by
  unfold evaluate
  split
  next h => exact .rest .done trivial nofun
  next hbudget =>
    have huses' := huses (not_le.mp hbudget)
    split
    next h => exact .warn exceededSent spend s.budget huses' h.1 (hwarning h.2) hexceeded
    next h => exact outcome_checkExceeded huses' hexceeded

private theorem outcome_checkSpend (huses : ∀ entry, s.cached q.data = some entry → 0 < s.budget →
      Uses entry.spend s.budget)
    (hwarning : warningSent = false → Unsent .warning)
    (hexceeded : exceededSent = false → Unsent .exceeded) :
    Outcome settings s q start Uses Unsent
      (checkSpend settings s q start warningSent exceededSent) := by
  have hquery : Outcome settings s q start Uses Unsent
      (s.goto q (.querying start warningSent exceededSent s.time)) := by
    refine .rest _ rfl fun kind hkind ↦ ?_
    cases kind with
    | warning => exact hwarning (by simpa [Phase.mayEmit] using hkind)
    | exceeded => exact hexceeded (by simpa [Phase.mayEmit] using hkind)
  unfold checkSpend
  split
  next h => exact .rest .done trivial nofun
  next h =>
    cases hcached : s.cached q.data with
    | none => exact hquery
    | some entry =>
      dsimp only
      split
      next hlive => exact outcome_evaluate (huses entry hcached) hwarning hexceeded
      next hold => exact hquery

private theorem outcome_readExceeded (huses : ∀ entry, s.cached q.data = some entry → 0 < s.budget →
      Uses entry.spend s.budget)
    (hwarning : warningSent = false → Unsent .warning)
    (hexceeded : s.flag .exceeded q.data ≠ some start.monthKey → Unsent .exceeded) :
    Outcome settings s q start Uses Unsent (readExceeded settings s q start warningSent) := by
  unfold readExceeded
  split
  next h => exact outcome_checkSpend huses hwarning nofun
  next h =>
    split
    next hredis => exact outcome_checkSpend huses hwarning fun _ ↦ hexceeded h
    next hredis =>
      refine .rest (.readExceeded start warningSent) rfl fun kind hkind ↦ ?_
      cases kind with
      | warning => exact hwarning (by simpa [Phase.mayEmit] using hkind)
      | exceeded => exact hexceeded h

/-- Every step of a check writes what `prepare` says, and then rests or emits one event. What it
emits, then or later, is of a kind whose flag it did not find set, in this step or before. -/
theorem outcome_advance {answers : Bool} {t : State} (Unsent : Kind → Prop)
    (hbefore : ∀ kind, q.phase.mayEmit kind = true → Unsent kind)
    (hread : ∀ kind, (prepare settings s q answers).flag kind q.data ≠
      some (s.began q).monthKey → Unsent kind)
    (h : advance settings s q answers = some t) :
    Outcome settings (prepare settings s q answers) q (s.began q) (s.Uses q) Unsent t := by
  unfold advance at h
  unfold State.Uses
  unfold prepare State.began at hread ⊢
  cases hphase : q.phase with
  | created =>
    rw [hphase] at h hread
    cases h
    dsimp only at hread ⊢
    unfold begin
    dsimp only
    have huses : ∀ entry, s.cached q.data = some entry → 0 < s.budget →
        (∃ entry', s.cached q.data = some entry' ∧ entry.spend = entry'.spend) ∧
          s.budget = s.budget ∧ 0 < s.budget :=
      fun entry hcached hbudget ↦ ⟨⟨entry, hcached, rfl⟩, rfl, hbudget⟩
    split
    next hset => exact outcome_readExceeded huses nofun (hread .exceeded)
    next hset =>
      split
      next hredis =>
        exact outcome_readExceeded huses (fun _ ↦ hread .warning hset) (hread .exceeded)
      next hredis =>
        refine .rest (.readWarning s.clock) rfl fun kind hkind ↦ ?_
        cases kind with
        | warning => exact hread .warning hset
        | exceeded => cases hkind
  | readWarning start =>
    rw [hphase] at h hbefore hread
    cases h
    exact outcome_readExceeded
      (fun entry hcached hbudget ↦ ⟨⟨entry, hcached, rfl⟩, rfl, hbudget⟩)
      (fun _ ↦ hbefore .warning rfl) (hread .exceeded)
  | readExceeded start warningSent =>
    rw [hphase] at h hbefore
    cases h
    exact outcome_checkSpend (fun entry hcached hbudget ↦ ⟨⟨entry, hcached, rfl⟩, rfl, hbudget⟩)
      (fun hsent ↦ hbefore .warning (by rw [hsent]; rfl)) (fun _ ↦ hbefore .exceeded rfl)
  | querying start warningSent exceededSent now =>
    rw [hphase] at h hbefore
    cases h
    exact outcome_evaluate (fun hbudget ↦ ⟨rfl, rfl, hbudget⟩)
      (fun hsent ↦ hbefore .warning (by rw [hsent]; rfl))
      (fun hsent ↦ hbefore .exceeded (by rw [hsent]; rfl))
  | warning start exceededSent spend budget =>
    rw [hphase] at h hbefore
    cases h
    dsimp only
    have hexceeded : exceededSent = false → Unsent .exceeded :=
      fun hsent ↦ hbefore .exceeded (by rw [hsent]; rfl)
    unfold finishWarning
    dsimp only
    split
    next hredis => exact outcome_checkExceeded ⟨rfl, rfl⟩ hexceeded
    next hredis =>
      refine .rest (.warned start exceededSent spend budget) hphase fun kind hkind ↦ ?_
      cases kind with
      | warning => cases hkind
      | exceeded => exact hbefore .exceeded hkind
  | warned start exceededSent spend budget =>
    rw [hphase] at h hbefore
    cases h
    exact outcome_checkExceeded ⟨rfl, rfl⟩ fun hsent ↦ hbefore .exceeded (by rw [hsent]; rfl)
  | exceeding start =>
    rw [hphase] at h
    cases h
    dsimp only
    unfold finishExceeded
    dsimp only
    split
    next hredis => exact .rest .done trivial nofun
    next hredis => exact .rest (.exceeded start) rfl nofun
  | exceeded start =>
    rw [hphase] at h
    cases h
    exact .rest .done trivial nofun
  | done =>
    rw [hphase] at h
    cases h

end

end WikiMind.Llm.BudgetCheck
