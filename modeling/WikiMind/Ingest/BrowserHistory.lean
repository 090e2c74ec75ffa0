import Mathlib.Data.List.Dedup
import Mathlib.Data.List.Sort
import WikiMind.Base.LocalTime
import WikiMind.Base.Run
import WikiMind.Base.Text
import WikiMind.Ingest.Captures

/-!
# Polls of the browser history

A poll copies the history of a browser, reads the visits since its watermark and captures
their URLs (`ingest/adapters/browser_history.py:237`, `services/ambient.py:189–267`). The
watermark is the time at which the poll ends, a naive datetime in UTC. The system has the
visits, the passing of time, and for each poll a step that reads and captures and one that
writes the watermark. Clocks count microseconds since 1970.
-/

namespace WikiMind.Ingest.BrowserHistory

open WikiMind.Base WikiMind.Ingest.Captures

inductive Browser where
  | chrome | firefox
  deriving DecidableEq, Repr

/-- What a browser adds to the time of a visit: Chrome counts from 1601
(`browser_history.py:134`), Firefox from 1970. -/
def Browser.epoch : Browser → Int
  | .chrome => 11644473600 * 1000000
  | .firefox => 0

/-- A visit as the history stores it. The title of a URL, one for each, is only displayed. -/
structure Row where
  url : String
  visitTime : Int
  deriving DecidableEq, Repr

/-- How the database answers `SELECT DISTINCT`: with one of the rows of each URL. Which one
is not said, since the time it is ordered by is not selected. -/
structure Plan where
  distinct : List Row → List Row
  subset : ∀ rows, ∀ row ∈ distinct rows, row ∈ rows
  covers : ∀ rows, ∀ row ∈ rows, ∃ row' ∈ distinct rows, row'.url = row.url
  nodup : ∀ rows, ((distinct rows).map Row.url).Nodup

/-- `LIMIT`: a negative number is none. -/
def takeLimit {α : Type} (limit : Int) (rows : List α) : List α :=
  if limit < 0 then rows else rows.take limit.toNat

/-- `_read_chrome_history` and `_read_firefox_history`: `browser_history.py:112, 157`. -/
def readHistory (plan : Plan) (browser : Browser) (rows : List Row) (sinceTimestamp : Int)
    (maxEntries : Int) : List String :=
  let since := sinceTimestamp * 1000000 + browser.epoch
  (takeLimit maxEntries ((plan.distinct (rows.filter (since < ·.visitTime))).insertionSort
    fun a b ↦ b.visitTime ≤ a.visitTime)).map Row.url

/-- The settings of the adapter, with `capture.browser_history_max_entries_per_poll`. -/
structure Config where
  browser : Browser
  urlPatterns : String
  excludePatterns : String
  maxEntries : Int

/-- Patterns separated by commas: `browser_history.py:278–281`. -/
def patternsOf (raw : String) : List String :=
  (((raw.toList.splitOn ',').map strip).filter (· ≠ [])).map String.ofList

section
variable (search : String → String → Bool)

/-- `_matches_patterns`: `browser_history.py:198`. -/
def matchesPatterns (url : String) (patterns : List String) : Bool :=
  if patterns = [] then true else patterns.any (search · url)

/-- A URL passes the include and the exclude patterns: `browser_history.py:289–292`. -/
def Config.passes (config : Config) (url : String) : Bool :=
  matchesPatterns search url (patternsOf config.urlPatterns) &&
    !(patternsOf config.excludePatterns ≠ [] &&
      matchesPatterns search url (patternsOf config.excludePatterns))

end

/-- A visit of a URL. -/
structure Visit where
  url : String
  time : Int
  deriving DecidableEq, Repr

/-- The history of a browser, what is captured, and the watermark, with where the first and
the last poll so far have read up to. -/
structure State where
  clock : Int
  history : List Visit
  captures : List CaptureSource
  nextCapture : Nat
  lastPolledAt : Option Int
  polling : Bool
  first : Option Nat
  seen : Nat

/-- The steps of the system. A history that cannot be found or read gives the rows read
before it failed. -/
inductive Label where
  | visit (url : String)
  | wait (duration : Nat)
  | poll (failsAfter : Option Nat)
  | finish
  deriving DecidableEq, Repr

/-- What surrounds the adapter: the zone of the process, `re.search` with patterns that
compile, SHA-256, the database of the browser, and a user with the settings. -/
structure Env where
  zone : Zone
  search : String → String → Bool
  sha256 : String → String
  plan : Plan
  config : Config
  userId : String

section
variable (env : Env)

/-- The history as the browser stores it. -/
def Env.rows (history : List Visit) : List Row :=
  history.map fun v ↦ ⟨v.url, v.time + env.config.browser.epoch⟩

/-- The watermark as a timestamp: `browser_history.py:259–261`. -/
def Env.sinceTs (lastPolledAt : Option Int) : Int :=
  match lastPolledAt with
  | none => 0
  | some t => env.zone.timestamp t

/-- `poll`: the URLs read that pass the patterns and are not captured. -/
def Env.poll (s : State) (failsAfter : Option Nat) : List String :=
  let entries := readHistory env.plan env.config.browser (env.rows s.history)
    (env.sinceTs s.lastPolledAt) env.config.maxEntries
  let entries := match failsAfter with
    | none => entries
    | some n => entries.take n
  entries.filter fun url ↦ env.config.passes env.search url &&
    (findCapture s.captures env.userId (env.sha256 url)).isNone

/-- One item of `_save_captured_items`: `services/ambient.py:288–313`. -/
def Env.saveItem (s : State) (url : String) : State :=
  if (findCapture s.captures env.userId (env.sha256 url)).isSome then s
  else
    { s with
      captures := s.captures ++
        [⟨s.nextCapture, env.userId, url, env.sha256 url, .captured, some url, none⟩]
      nextCapture := s.nextCapture + 1 }

/-- One step; `none` when it is not enabled. -/
def step (s : State) : Label → Option State
  | .visit url => some { s with history := s.history ++ [⟨url, s.clock⟩] }
  | .wait duration => some { s with clock := s.clock + duration }
  | .poll failsAfter =>
    if s.polling then none
    else
      some { (env.poll s failsAfter).foldl env.saveItem s with
        polling := true
        first := some (s.first.getD s.history.length)
        seen := s.history.length }
  | .finish =>
    if s.polling then some { s with polling := false, lastPolledAt := some s.clock } else none

/-- The system of a browser and the polls of its history. -/
def polls : Machine State Label := ⟨step env⟩

/-- Before the first poll, with the history and the captures of earlier times. -/
def State.start (clock : Int) (history : List Visit) (captures : List CaptureSource)
    (nextCapture : Nat) : State :=
  ⟨clock, history, captures, nextCapture, none, false, none, 0⟩

/-- A URL is among the captures of the user. -/
def Env.Captured (s : State) (url : String) : Prop :=
  ∃ c ∈ s.captures, c.userId = env.userId ∧ c.rawPayload = url

instance (s : State) (url : String) : Decidable (env.Captured s url) :=
  inferInstanceAs (Decidable (∃ c ∈ s.captures, _))

/-- Every URL visited between the first and the last poll that passes the patterns is
captured. -/
def Env.Complete (s : State) : Prop :=
  ∀ n ∈ s.first, ∀ v ∈ (s.history.take s.seen).drop n,
    env.config.passes env.search v.url = true → env.Captured s v.url

instance (s : State) : Decidable (env.Complete s) :=
  inferInstanceAs (Decidable (∀ n ∈ s.first, _))

/-- The URLs visited since a timestamp. -/
def urlsSince (history : List Visit) (sinceTimestamp : Int) : List String :=
  ((history.filter (sinceTimestamp * 1000000 < ·.time)).map Visit.url).dedup

/-- No captured content and no other URL has the hash of this one. -/
def Env.Unmistaken (s : State) (url : String) : Prop :=
  (∀ c ∈ s.captures, c.userId = env.userId → c.contentHash = env.sha256 url →
    c.rawPayload = url) ∧
  ∀ v ∈ s.history, env.sha256 v.url = env.sha256 url → v.url = url

instance (s : State) (url : String) : Decidable (env.Unmistaken s url) :=
  inferInstanceAs (Decidable (_ ∧ _))

/-- A visit is later than the watermark as the zone reads it, and the history can be read
with no more URLs since then than a poll takes. -/
def Env.InReach (s : State) (failsAfter : Option Nat) (v : Visit) : Prop :=
  env.sinceTs s.lastPolledAt * 1000000 < v.time ∧ failsAfter = none ∧
    (env.config.maxEntries < 0 ∨
      (urlsSince s.history (env.sinceTs s.lastPolledAt)).length ≤ env.config.maxEntries)

instance (s : State) (failsAfter : Option Nat) (v : Visit) :
    Decidable (env.InReach s failsAfter v) :=
  inferInstanceAs (Decidable (_ ∧ _ ∧ _))

/-- After the first poll, a poll reaches every visit since the one before it that passes the
patterns and is not captured. -/
def Env.PollsInTime (s : State) : Label → Prop
  | .poll failsAfter => s.first.isSome = true → ∀ v ∈ s.history.drop s.seen,
      env.config.passes env.search v.url = true → ¬ env.Captured s v.url →
        env.InReach s failsAfter v ∧ env.Unmistaken s v.url
  | _ => True

instance (s : State) : ∀ l, Decidable (env.PollsInTime s l)
  | .poll failsAfter => inferInstanceAs (Decidable (s.first.isSome = true →
      ∀ v ∈ s.history.drop s.seen, env.config.passes env.search v.url = true →
        ¬ env.Captured s v.url → env.InReach s failsAfter v ∧ env.Unmistaken s v.url))
  | .visit _ | .wait _ | .finish => .isTrue trivial

end

section
variable {env : Env} {s : State} {url : String}

private theorem takeLimit_eq_self {α : Type} {limit : Int} {rows : List α}
    (h : limit < 0 ∨ rows.length ≤ limit) : takeLimit limit rows = rows := by
  unfold takeLimit
  split
  · rfl
  · exact List.take_of_length_le (by omega)

/-- Whichever rows the database keeps, there is one for each URL. -/
theorem Plan.length_distinct_le (plan : Plan) (rows : List Row) :
    (plan.distinct rows).length ≤ (rows.map Row.url).dedup.length := by
  rw [← List.length_map (f := Row.url)]
  refine (List.subperm_of_subset (plan.nodup rows) fun url hurl ↦ ?_).length_le
  obtain ⟨row, hrow, rfl⟩ := List.mem_map.mp hurl
  exact List.mem_dedup.mpr (List.mem_map_of_mem (plan.subset rows row hrow))

/-- A limit that is not exceeded leaves every URL after the timestamp. -/
theorem mem_readHistory {plan : Plan} {browser : Browser} {rows : List Row}
    {sinceTimestamp maxEntries : Int} {row : Row} (hrow : row ∈ rows)
    (hsince : sinceTimestamp * 1000000 + browser.epoch < row.visitTime)
    (hlimit : maxEntries < 0 ∨ (((rows.filter fun row ↦
      sinceTimestamp * 1000000 + browser.epoch < row.visitTime).map Row.url).dedup.length : Int) ≤
        maxEntries) :
    row.url ∈ readHistory plan browser rows sinceTimestamp maxEntries := by
  unfold readHistory
  dsimp only
  have hrow' : row ∈ rows.filter fun row ↦
      decide (sinceTimestamp * 1000000 + browser.epoch < row.visitTime) := by
    simpa using ⟨hrow, hsince⟩
  obtain ⟨row', hmem, hurl⟩ := plan.covers _ row hrow'
  have hle := plan.length_distinct_le (rows.filter fun row ↦
    decide (sinceTimestamp * 1000000 + browser.epoch < row.visitTime))
  rw [takeLimit_eq_self (by rw [List.length_insertionSort]; omega), ← hurl]
  exact List.mem_map_of_mem ((List.mem_insertionSort _).mpr hmem)

/-- The rows of the browser after the timestamp are the visits after it. -/
theorem urls_rows_filter (history : List Visit) (sinceTimestamp : Int) :
    ((env.rows history).filter fun row ↦
      sinceTimestamp * 1000000 + env.config.browser.epoch < row.visitTime).map Row.url =
      (history.filter (sinceTimestamp * 1000000 < ·.time)).map Visit.url := by
  unfold Env.rows
  rw [List.filter_map, List.map_map]
  congr 1
  apply List.filter_congr
  intro v _
  simp

/-- A visit in reach is read. -/
theorem mem_poll {v : Visit} (hv : v ∈ s.history) (hpasses : env.config.passes env.search v.url)
    (hnew : findCapture s.captures env.userId (env.sha256 v.url) = none)
    {failsAfter : Option Nat} (hreach : env.InReach s failsAfter v) :
    v.url ∈ env.poll s failsAfter := by
  obtain ⟨hsince, rfl, hlimit⟩ := hreach
  unfold Env.poll
  refine List.mem_filter.mpr ⟨?_, by simp [hpasses, hnew]⟩
  have hrow : (⟨v.url, v.time + env.config.browser.epoch⟩ : Row) ∈ env.rows s.history :=
    List.mem_map_of_mem hv
  refine mem_readHistory hrow ?_ ?_
  · dsimp only
    omega
  · rw [urls_rows_filter]
    exact hlimit

private theorem findCapture_spec {captures : List CaptureSource} {userId contentHash : String}
    {c : CaptureSource} (h : findCapture captures userId contentHash = some c) :
    c ∈ captures ∧ c.userId = userId ∧ c.contentHash = contentHash :=
  ⟨List.mem_of_find?_eq_some h, by simpa using List.find?_some h⟩

/-- What saving items does: the captures stay, those that come are of the items, and each
item has one with its hash. -/
theorem foldl_saveItem (env : Env) (items : List String) (s : State) :
    (∀ c ∈ s.captures, c ∈ (items.foldl env.saveItem s).captures) ∧
      (∀ c ∈ (items.foldl env.saveItem s).captures, c ∈ s.captures ∨ c.rawPayload ∈ items ∧
        c.contentHash = env.sha256 c.rawPayload) ∧
      (∀ url ∈ items, ∃ c ∈ (items.foldl env.saveItem s).captures, c.userId = env.userId ∧
        c.contentHash = env.sha256 url) ∧
      (items.foldl env.saveItem s).history = s.history := by
  induction items generalizing s with
  | nil => simp
  | cons item items ih =>
    obtain ⟨hkept, hnew, hsaved, hhistory⟩ := ih (env.saveItem s item)
    have hself : ∃ c ∈ (env.saveItem s item).captures, c.userId = env.userId ∧
        c.contentHash = env.sha256 item := by
      unfold Env.saveItem
      split
      next hfound =>
        obtain ⟨c, hc⟩ := Option.isSome_iff_exists.mp hfound
        obtain ⟨hmem, huser, hhash⟩ := findCapture_spec hc
        exact ⟨c, hmem, huser, hhash⟩
      · exact ⟨_, List.mem_append_right _ (List.mem_singleton_self _), rfl, rfl⟩
    have hone : (∀ c ∈ s.captures, c ∈ (env.saveItem s item).captures) ∧
        (∀ c ∈ (env.saveItem s item).captures, c ∈ s.captures ∨ c.rawPayload = item ∧
          c.contentHash = env.sha256 item) ∧ (env.saveItem s item).history = s.history := by
      unfold Env.saveItem
      split
      · exact ⟨fun _ h ↦ h, fun _ h ↦ .inl h, rfl⟩
      · refine ⟨fun c h ↦ List.mem_append_left _ h, fun c h ↦ ?_, rfl⟩
        refine (List.mem_append.mp h).imp_right fun hlast ↦ ?_
        rw [List.mem_singleton.mp hlast]
        exact ⟨rfl, rfl⟩
    obtain ⟨hkept₁, hnew₁, hhistory₁⟩ := hone
    refine ⟨fun c hc ↦ hkept c (hkept₁ c hc), fun c hc ↦ ?_, fun url hurl ↦ ?_,
      hhistory.trans hhistory₁⟩
    · rcases hnew c hc with hold | ⟨hmem, hhash⟩
      · rcases hnew₁ c hold with hold | ⟨hitem, hhash⟩
        · exact .inl hold
        · exact .inr ⟨hitem ▸ List.mem_cons_self .., hitem.symm ▸ hhash⟩
      · exact .inr ⟨List.mem_cons_of_mem _ hmem, hhash⟩
    · rcases List.mem_cons.mp hurl with rfl | hrest
      · obtain ⟨c, hc, hitem⟩ := hself
        exact ⟨c, hkept c hc, hitem⟩
      · exact hsaved url hrest

/-- Only URLs of the history are read. -/
theorem mem_history_of_mem_poll {failsAfter : Option Nat} (h : url ∈ env.poll s failsAfter) :
    ∃ v ∈ s.history, v.url = url := by
  have hread : url ∈ readHistory env.plan env.config.browser (env.rows s.history)
      (env.sinceTs s.lastPolledAt) env.config.maxEntries := by
    have hentries := (List.mem_filter.mp h).1
    cases failsAfter with
    | none => exact hentries
    | some n => exact List.mem_of_mem_take hentries
  obtain ⟨row, hrow, rfl⟩ := List.mem_map.mp hread
  have hsorted : row ∈ (env.plan.distinct ((env.rows s.history).filter fun row ↦
      decide (env.sinceTs s.lastPolledAt * 1000000 + env.config.browser.epoch <
        row.visitTime))).insertionSort fun a b ↦ b.visitTime ≤ a.visitTime := by
    unfold takeLimit at hrow
    split at hrow
    · exact hrow
    · exact List.mem_of_mem_take hrow
  have hmem := env.plan.subset _ row ((List.mem_insertionSort _).mp hsorted)
  obtain ⟨v, hv, rfl⟩ := List.mem_map.mp (List.mem_of_mem_filter hmem)
  exact ⟨v, hv, rfl⟩

/-- A poll that reaches a visit has its URL captured. -/
theorem captured_of_poll {v : Visit} (hv : v ∈ s.history)
    (hpasses : env.config.passes env.search v.url) {failsAfter : Option Nat}
    (hreach : env.InReach s failsAfter v) (hhash : env.Unmistaken s v.url) :
    env.Captured ((env.poll s failsAfter).foldl env.saveItem s) v.url := by
  obtain ⟨hkept, hnew, hsaved, _⟩ := foldl_saveItem env (env.poll s failsAfter) s
  cases hfound : findCapture s.captures env.userId (env.sha256 v.url) with
  | some c =>
    obtain ⟨hmem, huser, hc⟩ := findCapture_spec hfound
    exact ⟨c, hkept c hmem, huser, hhash.1 c hmem huser hc⟩
  | none =>
    obtain ⟨c, hc, huser, hchash⟩ := hsaved v.url (mem_poll hv hpasses hfound hreach)
    refine ⟨c, hc, huser, ?_⟩
    rcases hnew c hc with hold | ⟨hitem, hself⟩
    · exact hhash.1 c hold huser hchash
    · obtain ⟨w, hw, hurl⟩ := mem_history_of_mem_poll hitem
      rw [← hurl]
      refine hhash.2 w hw ?_
      rw [hurl, ← hself, hchash]

private theorem Env.Captured.foldl_saveItem (h : env.Captured s url) (items : List String) :
    env.Captured (items.foldl env.saveItem s) url := by
  obtain ⟨c, hc, huser, hpayload⟩ := h
  exact ⟨c, (BrowserHistory.foldl_saveItem env items s).1 c hc, huser, hpayload⟩

/-- The invariant: what lies between the first and the last poll is captured. -/
structure Env.Kept (env : Env) (s : State) : Prop where
  seen : s.seen ≤ s.history.length
  complete : env.Complete s

/-- A poll that reaches what came since the one before keeps the captures complete. -/
theorem Env.Kept.poll (hs : env.Kept s) {failsAfter : Option Nat}
    (hguard : env.PollsInTime s (.poll failsAfter)) :
    env.Kept { (env.poll s failsAfter).foldl env.saveItem s with
      polling := true
      first := some (s.first.getD s.history.length)
      seen := s.history.length } := by
  have hhistory := (BrowserHistory.foldl_saveItem env (env.poll s failsAfter) s).2.2.2
  refine ⟨by rw [hhistory], ?_⟩
  rintro n ⟨⟩ v hv hpasses
  dsimp only at hv
  rw [hhistory, List.take_length] at hv
  cases hfirst : s.first with
  | none =>
    rw [hfirst, Option.getD_none, List.drop_length] at hv
    cases hv
  | some n =>
    rw [hfirst, Option.getD_some] at hv
    by_cases hcaptured : env.Captured s v.url
    · exact hcaptured.foldl_saveItem _
    · rw [← List.take_append_drop s.seen s.history, List.drop_append] at hv
      rcases List.mem_append.mp hv with hold | hnew
      · exact absurd (hs.complete n hfirst v hold hpasses) hcaptured
      · have hnew := List.mem_of_mem_drop hnew
        obtain ⟨hreach, hhash⟩ := hguard (by rw [hfirst]; rfl) v hnew hpasses hcaptured
        exact captured_of_poll (List.mem_of_mem_drop hnew) hpasses hreach hhash

/-- What a step keeps. -/
theorem kept_step {t : State} {l : Label} (hs : env.Kept s) (hguard : env.PollsInTime s l)
    (h : step env s l = some t) : env.Kept t := by
  cases l with
  | visit url =>
    cases h
    refine ⟨hs.seen.trans (by simp), fun n hn v hv ↦ ?_⟩
    dsimp only at hv
    rw [List.take_append_of_le_length hs.seen] at hv
    exact hs.complete n hn v hv
  | wait duration =>
    cases h
    exact ⟨hs.seen, hs.complete⟩
  | poll failsAfter =>
    obtain ⟨_, hnext⟩ := Option.ite_none_left_eq_some.mp h
    cases hnext
    exact hs.poll hguard
  | finish =>
    obtain ⟨_, hnext⟩ := Option.ite_none_right_eq_some.mp h
    cases hnext
    exact ⟨hs.seen, hs.complete⟩

end

/-- As long as every poll reaches what was visited since the one before it, no visit between
the first poll and the last is lost. -/
theorem complete_of_pollsInTime (env : Env) (clock : Int) (history : List Visit)
    (captures : List CaptureSource) (nextCapture : Nat) (ls : List Label)
    (h : (polls env).Guarded env.PollsInTime (.start clock history captures nextCapture) ls) :
    (polls env).Always env.Complete (.start clock history captures nextCapture) ls := by
  have hstart : env.Kept (.start clock history captures nextCapture) :=
    ⟨Nat.zero_le _, fun n hn ↦ by cases hn⟩
  have hkept := (polls env).always_of_guarded (G := env.PollsInTime)
    (fun _ _ _ hs hguard hstep ↦ kept_step hs hguard hstep) hstart h
  exact hkept.mono _ fun _ hs ↦ hs.complete

/-- In a zone whose clocks are never behind UTC the watermark is read as no later than it is:
a poll reaches every visit after it, if it can read the history and takes enough URLs. -/
theorem pollsInTime_of_zone {env : Env} {s : State} (hzone : ∀ u, 0 ≤ env.zone.offset u)
    {watermark : Int} (hpolled : s.lastPolledAt = some watermark) (hwatermark : 0 ≤ watermark)
    (hlater : ∀ v ∈ s.history.drop s.seen, watermark < v.time)
    (hlimit : ((urlsSince s.history (env.sinceTs s.lastPolledAt)).length : Int) ≤
      env.config.maxEntries) (hhash : ∀ v ∈ s.history.drop s.seen, env.Unmistaken s v.url) :
    env.PollsInTime s (.poll none) := by
  intro _ v hv _ _
  refine ⟨⟨?_, rfl, .inr hlimit⟩, hhash v hv⟩
  have hsince : env.sinceTs s.lastPolledAt * 1000000 ≤ watermark := by
    rw [hpolled]
    exact env.zone.timestamp_le hzone hwatermark
  exact hsince.trans_lt (hlater v hv)

/-- A database that keeps the first row of each URL. -/
def keepFirst : List Row → List Row
  | [] => []
  | row :: rows => row :: (keepFirst rows).filter (·.url ≠ row.url)

private theorem mem_of_mem_keepFirst {rows : List Row} {row : Row} (h : row ∈ keepFirst rows) :
    row ∈ rows := by
  induction rows with
  | nil => cases h
  | cons first rows ih =>
    rcases List.mem_cons.mp h with rfl | hrest
    · exact List.mem_cons_self ..
    · exact List.mem_cons_of_mem _ (ih (List.mem_of_mem_filter hrest))

private theorem exists_keepFirst {rows : List Row} {row : Row} (h : row ∈ rows) :
    ∃ row' ∈ keepFirst rows, row'.url = row.url := by
  induction rows with
  | nil => cases h
  | cons first rows ih =>
    by_cases hurl : first.url = row.url
    · exact ⟨first, List.mem_cons_self .., hurl⟩
    · rcases List.mem_cons.mp h with rfl | hrest
      · exact absurd rfl hurl
      · obtain ⟨row', hmem, hrow'⟩ := ih hrest
        refine ⟨row', List.mem_cons_of_mem _ (List.mem_filter.mpr ⟨hmem, ?_⟩), hrow'⟩
        simpa [hrow'] using Ne.symm hurl

private theorem nodup_keepFirst (rows : List Row) : ((keepFirst rows).map Row.url).Nodup := by
  induction rows with
  | nil => exact List.nodup_nil
  | cons first rows ih =>
    refine List.nodup_cons.mpr ⟨?_, ih.sublist (List.filter_sublist.map _)⟩
    intro h
    obtain ⟨row, hrow, hurl⟩ := List.mem_map.mp h
    simpa [hurl] using (List.mem_filter.mp hrow).2

def Plan.first : Plan where
  distinct := keepFirst
  subset _ _ := mem_of_mem_keepFirst
  covers _ _ := exists_keepFirst
  nodup := nodup_keepFirst

/-- A process in a zone that reads Chrome for a user without patterns, so many URLs a poll. -/
def chromeIn (zone : Zone) (maxEntries : Int) : Env where
  zone
  search pattern url := occursIn pattern.toList url.toList
  sha256 := id
  plan := .first
  config := ⟨.chrome, "", "", maxEntries⟩
  userId := "u"

/-- An hour. -/
def hour : Nat := 3600 * 1000000

/-- A poll from its start to its end. -/
def poll : List Label := [.poll none, .finish]

/-- Two visits in Berlin winter time, an hour after the poll before them. -/
theorem complete_in_berlin :
    (polls (chromeIn (.fixed 3600) 100)).Always (chromeIn (.fixed 3600) 100).Complete
      (.start 1700000000000000 [] [] 0)
      (poll ++ [.wait hour, .visit "https://a.org", .wait hour] ++ poll ++
        [.wait hour, .visit "https://b.org", .wait hour] ++ poll) :=
  complete_of_pollsInTime _ _ _ _ _ _ (by decide +kernel)

/-- In New York winter time a poll leaves out the five hours after the one before it; in
London one that takes a single URL leaves out the earlier of two; and a visit during a poll
is before its watermark. -/
theorem visits_lost :
    ¬ (polls (chromeIn (.fixed (-18000)) 100)).Always (chromeIn (.fixed (-18000)) 100).Complete
        (.start 1700000000000000 [] [] 0)
        (poll ++ [.wait hour, .visit "https://a.org", .wait hour] ++ poll) ∧
      ¬ (polls (chromeIn (.fixed 0) 1)).Always (chromeIn (.fixed 0) 1).Complete
        (.start 1700000000000000 [] [] 0)
        (poll ++ [.wait hour, .visit "https://a.org", .wait 1, .visit "https://b.org"] ++ poll) ∧
      ¬ (polls (chromeIn (.fixed 0) 100)).Always (chromeIn (.fixed 0) 100).Complete
        (.start 1700000000000000 [] [] 0)
        (poll ++ [.wait hour, .poll none, .wait 1, .visit "https://a.org", .wait 1000000,
          .finish, .wait hour] ++ poll) := by
  refine ⟨?_, ?_, ?_⟩
  all_goals decide +kernel

end WikiMind.Ingest.BrowserHistory
