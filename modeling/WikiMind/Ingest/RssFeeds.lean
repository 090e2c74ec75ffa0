import WikiMind.Base.Stateful
import WikiMind.Base.Text

/-!
# Polls of RSS feeds

A user's enabled feeds are polled one after the other (`services/rss.py:205`). A poll fetches the
feed, reads its entries and captures those that are new (`ingest/adapters/rss.py:122`), and
records its time, with a message where the fetch has failed. Which documents the XML library
reads is a parameter, with the network.
-/

namespace WikiMind.Ingest.RssFeeds

open WikiMind.Base

/-! ### Feeds and entries -/

/-- An element of an XML document, with its text before the first child. -/
inductive Element where
  | mk (tag : String) (attrib : List (String × List Char)) (text : Option (List Char))
    (children : List Element)

namespace Element

def tag : Element → String
  | mk tag .. => tag

def attrib : Element → List (String × List Char)
  | mk _ attrib .. => attrib

def text : Element → Option (List Char)
  | mk _ _ text _ => text

def children : Element → List Element
  | mk _ _ _ children => children

mutual

/-- An element and all below it, in the order of the document. -/
def subtree : Element → List Element
  | mk tag attrib text children => mk tag attrib text children :: subtrees children

def subtrees : List Element → List Element
  | [] => []
  | e :: es => e.subtree ++ subtrees es

end

/-- `root.iter(tag)`. -/
def iter (root : Element) (tag : String) : List Element :=
  root.subtree.filter fun e ↦ e.tag = tag

/-- `elem.find(tag)`: the first child of the name. -/
def find (e : Element) (tag : String) : Option Element :=
  e.children.find? fun child ↦ child.tag = tag

end Element

/-- What a poll reads of an entry. -/
structure Entry where
  guid : List Char
  title : List Char
  link : List Char
  summary : List Char
  deriving DecidableEq

/-- `a or b`. -/
def orElse (a b : List Char) : List Char := if a = [] then b else a

/-- `_text`: `ingest/adapters/rss.py:69`. -/
def textOf : Option Element → List Char
  | none => []
  | some elem => strip (elem.text.getD [])

/-- `_parse_rss_item`: `ingest/adapters/rss.py:76`. -/
def parseRssItem (item : Element) : Option Entry :=
  let guid := textOf (item.find "guid")
  let link := textOf (item.find "link")
  let title := textOf (item.find "title")
  let description := textOf (item.find "description")
  if guid = [] ∧ link = [] then none else some ⟨orElse guid link, title, link, description⟩

/-- A name in the namespace of Atom: `ingest/adapters/rss.py:36`. -/
def atomNs (name : String) : String := "\x7bhttp://www.w3.org/2005/Atom\x7d" ++ name

/-- `_parse_atom_entry`: `ingest/adapters/rss.py:94`. -/
def parseAtomEntry (entry : Element) : Option Entry :=
  let entryId := textOf (entry.find (atomNs "id"))
  let title := textOf (entry.find (atomNs "title"))
  let link := match entry.find (atomNs "link") with
    | some linkElem => (linkElem.attrib.lookup "href").getD []
    | none => []
  let summary := orElse (textOf (entry.find (atomNs "summary")))
    (textOf (entry.find (atomNs "content")))
  if entryId = [] ∧ link = [] then none else some ⟨orElse entryId link, title, link, summary⟩

/-- Why the XML library refuses a document: it is malformed, or it has a construct that
`defusedxml` forbids, as a declaration of an entity (`DefusedXmlException`, a `ValueError`). -/
inductive XmlError where
  | parseError | forbidden
  deriving DecidableEq, Repr

/-- `_parse_feed_entries`: `ingest/adapters/rss.py:39`. -/
def parseFeedEntries (fromstring : List Char → Except XmlError Element) (xmlText : List Char) :
    Except XmlError (List Entry) :=
  match fromstring xmlText with
  | .error .parseError => .ok []
  | .error .forbidden => .error .forbidden
  | .ok root =>
    let entries := (root.iter "item").filterMap parseRssItem
    if entries = [] then .ok ((root.iter (atomNs "entry")).filterMap parseAtomEntry)
    else .ok entries

/-! ### The network -/

/-- The exceptions of a fetch, with their texts. `httpx.InvalidURL` is no `HTTPError`. -/
inductive FetchError where
  | httpError (message : String)
  | osError (message : String)
  | valueError (message : String)
  | invalidUrl (message : String)
  deriving DecidableEq, Repr

/-- The text of an exception that the adapter catches: `ingest/adapters/rss.py:150`. -/
def FetchError.caught : FetchError → Option String
  | .httpError message | .osError message | .valueError message => some message
  | .invalidUrl _ => none

/-- An IP address. -/
structure IpAddress where
  text : String
  isGlobal : Bool
  isMulticast : Bool

/-- The exceptions of `socket.getaddrinfo`. -/
inductive ResolveError where
  | gaierror (message : String)
  | other (e : FetchError)

/-- What a server answers: the message of `raise_for_status`, if the status is one of an error,
and the decoded text. -/
structure Response where
  statusError : Option String
  text : List Char

/-- What surrounds the adapter. An address may stand for one of the earlier version of IP. -/
structure Env where
  hostname : String → Except FetchError String
  repr : String → String
  getaddrinfo : String → Except ResolveError (List (IpAddress × Option IpAddress))
  get : String → Except FetchError Response
  fromstring : List Char → Except XmlError Element
  sha256 : List Char → String
  maxEntries : Int
  now : String → Int

/-- `validate_url_host`: `ingest/utils.py:35`. -/
def Env.validateUrlHost (env : Env) (url : String) : Except FetchError Unit := do
  let hostname ← env.hostname url
  if hostname = "" then throw (.valueError ("URL has no hostname: " ++ url))
  match env.getaddrinfo hostname with
  | .error (.gaierror message) =>
    throw (.valueError ("Cannot resolve hostname " ++ env.repr hostname ++ ": " ++ message))
  | .error (.other e) => throw e
  | .ok addrInfos =>
    match (addrInfos.map fun addr ↦ addr.2.getD addr.1).find? fun ip ↦
        !ip.isGlobal || ip.isMulticast with
    | some ip => throw (.valueError
        ("URL host " ++ env.repr hostname ++ " resolves to blocked address " ++ ip.text))
    | none => return ()

/-- The text of a feed: `ingest/adapters/rss.py:141–149`. -/
def Env.fetch (env : Env) (feedUrl : String) : Except FetchError (List Char) := do
  env.validateUrlHost feedUrl
  let response ← env.get feedUrl
  match response.statusError with
  | some message => throw (.httpError message)
  | none => return response.text

/-! ### Polls -/

/-- A feed a user has subscribed to: `models/tables/capture.py:55`. -/
structure RssFeed where
  id : String
  userId : String
  feedUrl : String
  enabled : Bool
  lastPolledAt : Option Int
  lastEntryId : Option (List Char)
  errorMessage : Option String
  deriving DecidableEq

/-- The feeds, by their primary key. -/
structure Feeds where
  rows : List RssFeed
  nodup : (rows.map RssFeed.id).Nodup

/-- `models/enums.py`: the kind and the status a poll writes are constant. -/
structure Capture where
  userId : String
  title : List Char
  rawPayload : List Char
  contentHash : String
  sourceUrl : List Char
  externalId : List Char
  deriving DecidableEq

/-- The tables, with the feeds whose polls have begun and the rows of feeds that polls have
written. -/
structure State where
  feeds : List RssFeed
  captures : List Capture
  begun : List String
  saved : List RssFeed

/-- The exceptions that leave a poll. -/
inductive PollError where
  | fetch (e : FetchError)
  | xml (e : XmlError)
  deriving DecidableEq, Repr

section Polls

variable (env : Env)

/-- `xs[:n]`. -/
def sliceTo {α : Type} (n : Int) (xs : List α) : List α :=
  if 0 ≤ n then xs.take n.toNat else xs.take (xs.length - n.natAbs)

/-- One entry of a feed: `ingest/adapters/rss.py:172–205`. -/
def captureEntry (feed : RssFeed) (newCount : Nat) (entry : Entry) :
    Stateful State PollError Nat := do
  if entry.guid = [] then
    return newCount
  let contentHash := env.sha256 entry.guid
  if (← get).captures.any fun c ↦ c.userId = feed.userId && c.contentHash = contentHash then
    return newCount
  let content := orElse entry.summary entry.title
  if content = [] then
    return newCount
  modify fun s ↦ { s with
    captures := s.captures ++
      [⟨feed.userId, entry.title, content, contentHash, entry.link, entry.guid⟩] }
  return newCount + 1

/-- Write the row of a feed and commit. -/
def save (row : RssFeed) : Stateful State PollError Unit :=
  modify fun s ↦ { s with
    feeds := Rows.modify (fun r ↦ r.id = row.id) (fun _ ↦ row) s.feeds
    saved := s.saved ++ [row] }

/-- `RssAdapter.poll_feed`: `ingest/adapters/rss.py:122`. -/
def pollFeed (feed : RssFeed) : Stateful State PollError Nat := do
  modify fun s ↦ { s with begun := s.begun ++ [feed.id] }
  match env.fetch feed.feedUrl with
  | .error e =>
    match e.caught with
    | some message =>
      save { feed with errorMessage := some message, lastPolledAt := some (env.now feed.id) }
      return 0
    | none => throw (.fetch e)
  | .ok xmlText =>
    match parseFeedEntries env.fromstring xmlText with
    | .error e => throw (.xml e)
    | .ok [] =>
      save { feed with lastPolledAt := some (env.now feed.id), errorMessage := none }
      return 0
    | .ok (first :: rest) =>
      let newCount ← (sliceTo env.maxEntries (first :: rest)).foldlM (captureEntry env feed) 0
      save { feed with
        lastPolledAt := some (env.now feed.id), errorMessage := none
        lastEntryId := some first.guid }
      return newCount

/-- The feeds a user polls. -/
def enabledFeeds (userId : String) (feeds : List RssFeed) : List RssFeed :=
  feeds.filter fun feed ↦ feed.userId = userId && feed.enabled

/-- `RssService.poll_all_feeds`: `services/rss.py:205`. -/
def pollAllFeeds (userId : String) : Stateful State PollError Nat := do
  (enabledFeeds userId (← get).feeds).foldlM
    (fun totalNew feed ↦ do return totalNew + (← pollFeed env feed)) 0

end Polls

/-! ### What is required of a poll of all feeds -/

section Requirement

variable (env : Env)

/-- The feed is fetched and is XML. -/
def Env.Reads (feed : RssFeed) : Prop :=
  ∃ xmlText root, env.fetch feed.feedUrl = .ok xmlText ∧ env.fromstring xmlText = .ok root

/-- Every enabled feed is polled, and those that cannot be read have that recorded, with the time
of the poll. -/
structure PollsAll (userId : String) (feeds : Feeds) (t : State) : Prop where
  polled : ∀ feed ∈ enabledFeeds userId feeds.rows, feed.id ∈ t.begun
  recorded : ∀ feed ∈ enabledFeeds userId feeds.rows, ¬ env.Reads feed →
    ∃ row ∈ t.feeds, row ∈ t.saved ∧ row.id = feed.id ∧ row.errorMessage ≠ none ∧
      row.lastPolledAt = some (env.now feed.id)

/-- The adapter catches what the fetch raises, or the XML library reads what is fetched. -/
def Env.Handles (feed : RssFeed) : Prop :=
  match env.fetch feed.feedUrl with
  | .error e => e.caught ≠ none
  | .ok xmlText => ∃ root, env.fromstring xmlText = .ok root

/-- The row a poll writes, if none of its steps raises. -/
def Env.polledRow (feed : RssFeed) : Except PollError RssFeed :=
  match env.fetch feed.feedUrl with
  | .error e =>
    match e.caught with
    | some message =>
      .ok { feed with errorMessage := some message, lastPolledAt := some (env.now feed.id) }
    | none => .error (.fetch e)
  | .ok xmlText =>
    match parseFeedEntries env.fromstring xmlText with
    | .error e => .error (.xml e)
    | .ok entries => .ok { feed with
        lastPolledAt := some (env.now feed.id), errorMessage := none
        lastEntryId := (entries.head?.map Entry.guid).or feed.lastEntryId }

/-- The rows written before a poll raises. -/
def Env.savedRows : List RssFeed → List RssFeed
  | [] => []
  | feed :: feeds =>
    match env.polledRow feed with
    | .ok row => row :: savedRows feeds
    | .error _ => []

/-- The feeds whose polls begin before one raises. -/
def Env.begun : List RssFeed → List String
  | [] => []
  | feed :: feeds =>
    feed.id :: match env.polledRow feed with
      | .ok _ => begun feeds
      | .error _ => []

/-- Rows written over those with their keys. -/
def writeRows (rows feeds : List RssFeed) : List RssFeed :=
  rows.foldl (fun feeds row ↦ Rows.modify (fun r ↦ r.id = row.id) (fun _ ↦ row) feeds) feeds

end Requirement

section Facts

variable {env : Env}

/-- A poll of a row keeps its key, and records an error exactly if the fetch fails. -/
theorem polledRow_eq_ok {feed row : RssFeed} (h : env.polledRow feed = .ok row) :
    row.id = feed.id ∧ row.lastPolledAt = some (env.now feed.id) ∧
      (row.errorMessage ≠ none ↔ ∃ e, env.fetch feed.feedUrl = .error e) := by
  unfold Env.polledRow at h
  split at h
  · next e he =>
    split at h
    · cases h
      exact ⟨rfl, rfl, by simp [he]⟩
    · cases h
  · next xmlText hfetch =>
    split at h
    · cases h
    · cases h
      exact ⟨rfl, rfl, by simp [hfetch]⟩

/-- What the adapter handles has a row, which records an error if the feed is not read. -/
theorem polledRow_of_handles {feed : RssFeed} (h : env.Handles feed) :
    ∃ row, env.polledRow feed = .ok row ∧ (¬ env.Reads feed → row.errorMessage ≠ none) := by
  unfold Env.Handles at h
  unfold Env.polledRow
  split at h
  · next e he =>
    obtain ⟨message, hmessage⟩ := Option.ne_none_iff_exists'.mp h
    rw [hmessage]
    exact ⟨_, rfl, fun _ ↦ Option.some_ne_none _⟩
  · next xmlText hfetch =>
    obtain ⟨root, hroot⟩ := h
    obtain ⟨entries, hentries⟩ :
        ∃ entries, parseFeedEntries env.fromstring xmlText = .ok entries := by
      unfold parseFeedEntries
      rw [hroot]
      dsimp only
      split
      · exact ⟨_, rfl⟩
      · exact ⟨_, rfl⟩
    rw [hentries]
    exact ⟨_, rfl, fun hnot ↦ absurd ⟨xmlText, root, hfetch, hroot⟩ hnot⟩

private theorem not_reads_of_not_handles {feed : RssFeed} (h : ¬ env.Handles feed) :
    ¬ env.Reads feed := by
  rintro ⟨xmlText, root, hfetch, hroot⟩
  apply h
  unfold Env.Handles
  rw [hfetch]
  exact ⟨root, hroot⟩

/-- A row with an error is one of a feed whose fetch fails in a way the adapter catches. -/
theorem handles_of_errorMessage {feed row : RssFeed} (h : env.polledRow feed = .ok row)
    (herror : row.errorMessage ≠ none) : env.Handles feed := by
  obtain ⟨e, he⟩ := (polledRow_eq_ok h).2.2.mp herror
  unfold Env.Handles
  unfold Env.polledRow at h
  rw [he] at h ⊢
  dsimp only at h ⊢
  split at h
  · next message hmessage => simp [hmessage]
  · cases h

private theorem exec_captureEntry (feed : RssFeed) (newCount : Nat) (entry : Entry) (s : State) :
    ∃ n captures, Stateful.exec (captureEntry env feed newCount entry) s =
      (.ok n, { s with captures := captures }) := by
  unfold captureEntry
  split
  · exact ⟨_, _, rfl⟩
  · rw [Stateful.exec_bind, Stateful.exec_get]
    dsimp only
    split
    · exact ⟨_, _, rfl⟩
    · split
      · exact ⟨_, _, rfl⟩
      · exact ⟨_, _, rfl⟩

private theorem exec_captureEntries (feed : RssFeed) (newCount : Nat) (entries : List Entry)
    (s : State) :
    ∃ n captures, Stateful.exec (entries.foldlM (captureEntry env feed) newCount) s =
      (.ok n, { s with captures := captures }) := by
  induction entries generalizing newCount s with
  | nil => exact ⟨_, _, rfl⟩
  | cons entry entries ih =>
    obtain ⟨n, captures, hentry⟩ := exec_captureEntry feed newCount entry s
    obtain ⟨m, captures', hentries⟩ := ih n { s with captures := captures }
    rw [List.foldlM_cons, Stateful.exec_bind, hentry]
    exact ⟨m, captures', hentries⟩

/-- A poll begins, and writes its row or raises. -/
theorem exec_pollFeed (feed : RssFeed) (s : State) :
    match env.polledRow feed with
    | .ok row => ∃ n captures, Stateful.exec (pollFeed env feed) s = (.ok n,
        { feeds := Rows.modify (fun r ↦ r.id = row.id) (fun _ ↦ row) s.feeds
          captures := captures, begun := s.begun ++ [feed.id], saved := s.saved ++ [row] })
    | .error e => Stateful.exec (pollFeed env feed) s =
        (.error e, { s with begun := s.begun ++ [feed.id] }) := by
  unfold Env.polledRow pollFeed
  rw [Stateful.exec_bind, Stateful.exec_modify]
  dsimp only
  cases env.fetch feed.feedUrl with
  | error e =>
    cases hcaught : e.caught with
    | some message =>
      dsimp only
      rw [hcaught]
      exact ⟨_, _, rfl⟩
    | none =>
      dsimp only
      rw [hcaught]
      rfl
  | ok xmlText =>
    cases hentries : parseFeedEntries env.fromstring xmlText with
    | error e =>
      dsimp only
      rw [hentries]
      rfl
    | ok entries =>
      dsimp only
      rw [hentries]
      cases entries with
      | nil => exact ⟨_, _, rfl⟩
      | cons first rest =>
        dsimp only
        have hloop : ∃ n captures, Stateful.exec ((sliceTo env.maxEntries (first :: rest)).foldlM
            (captureEntry env feed) 0) { s with begun := s.begun ++ [feed.id] } =
              (.ok n, { s with captures := captures, begun := s.begun ++ [feed.id] }) :=
          exec_captureEntries feed 0 _ _
        obtain ⟨n, captures, hloop⟩ := hloop
        rw [Stateful.exec_bind, hloop]
        exact ⟨n, captures, rfl⟩

/-- The polls of feeds: which begin, which rows are written and what the table is then. -/
theorem exec_pollFeeds (feeds : List RssFeed) (totalNew : Nat) (s : State) :
    ∃ outcome captures, Stateful.exec (feeds.foldlM
        (fun totalNew feed ↦ do return totalNew + (← pollFeed env feed)) totalNew) s =
      (outcome,
        { feeds := writeRows (env.savedRows feeds) s.feeds, captures := captures
          begun := s.begun ++ env.begun feeds, saved := s.saved ++ env.savedRows feeds }) := by
  induction feeds generalizing totalNew s with
  | nil =>
    refine ⟨.ok totalNew, s.captures, ?_⟩
    simp [Env.savedRows, Env.begun, writeRows]
  | cons feed feeds ih =>
    have hpoll := @exec_pollFeed env feed s
    rw [List.foldlM_cons, Stateful.exec_bind, Stateful.exec_bind]
    cases hrow : env.polledRow feed with
    | error e =>
      rw [hrow] at hpoll
      dsimp only at hpoll
      rw [hpoll]
      refine ⟨.error e, s.captures, ?_⟩
      simp [Env.savedRows, Env.begun, hrow, writeRows]
    | ok row =>
      rw [hrow] at hpoll
      obtain ⟨n, captures, hpoll⟩ := hpoll
      obtain ⟨outcome, captures', hrest⟩ := ih (totalNew + n)
        { feeds := Rows.modify (fun r ↦ r.id = row.id) (fun _ ↦ row) s.feeds
          captures := captures, begun := s.begun ++ [feed.id], saved := s.saved ++ [row] }
      rw [hpoll]
      dsimp only
      rw [Stateful.exec_pure]
      dsimp only
      rw [hrest]
      refine ⟨outcome, captures', ?_⟩
      simp [Env.savedRows, Env.begun, hrow, writeRows]

/-- Where all feeds are handled each has its row. -/
theorem mem_savedRows_of_handles {feeds : List RssFeed} (h : ∀ feed ∈ feeds, env.Handles feed) :
    env.begun feeds = feeds.map RssFeed.id ∧
      (env.savedRows feeds).map RssFeed.id = feeds.map RssFeed.id ∧
      ∀ feed ∈ feeds, ∃ row ∈ env.savedRows feeds, env.polledRow feed = .ok row := by
  induction feeds with
  | nil => exact ⟨rfl, rfl, List.forall_mem_nil _⟩
  | cons feed feeds ih =>
    rw [List.forall_mem_cons] at h
    obtain ⟨row, hrow, -⟩ := polledRow_of_handles h.1
    obtain ⟨hbegun, hids, hrows⟩ := ih h.2
    have hsaved : env.savedRows (feed :: feeds) = row :: env.savedRows feeds := by
      rw [Env.savedRows, hrow]
    refine ⟨?_, ?_, ?_⟩
    · rw [Env.begun, hrow, List.map_cons, ← hbegun]
    · rw [hsaved, List.map_cons, List.map_cons, (polledRow_eq_ok hrow).1, hids]
    · rw [hsaved, List.forall_mem_cons]
      refine ⟨⟨row, List.mem_cons_self, hrow⟩, fun feed' hfeed' ↦ ?_⟩
      obtain ⟨row', hmem, hrow'⟩ := hrows feed' hfeed'
      exact ⟨row', List.mem_cons_of_mem _ hmem, hrow'⟩

private theorem exists_of_mem_savedRows {feeds : List RssFeed} {row : RssFeed}
    (h : row ∈ env.savedRows feeds) : ∃ feed ∈ feeds, env.polledRow feed = .ok row := by
  induction feeds with
  | nil => cases h
  | cons feed feeds ih =>
    rw [Env.savedRows] at h
    split at h
    · next row' hrow =>
      rcases List.mem_cons.mp h with rfl | h
      · exact ⟨feed, List.mem_cons_self, hrow⟩
      · obtain ⟨feed', hfeed', hrow'⟩ := ih h
        exact ⟨feed', List.mem_cons_of_mem _ hfeed', hrow'⟩
    · cases h

/-- A row that is written stays, if no other is written with its key. -/
theorem mem_writeRows {rows feeds : List RssFeed} {row : RssFeed}
    (hnodup : (rows.map RssFeed.id).Nodup) (hrow : row ∈ rows)
    (hkey : row.id ∈ feeds.map RssFeed.id) : row ∈ writeRows rows feeds := by
  have hkeep : ∀ (rows feeds : List RssFeed), row ∈ feeds → row.id ∉ rows.map RssFeed.id →
      row ∈ writeRows rows feeds := by
    intro rows
    induction rows with
    | nil => exact fun _ h _ ↦ h
    | cons other rows ih =>
      intro feeds hmem hother
      rw [List.map_cons, List.mem_cons, not_or] at hother
      refine ih _ ?_ hother.2
      rw [Rows.mem_modify]
      exact .inr ⟨hmem, by simpa using hother.1⟩
  induction rows generalizing feeds with
  | nil => cases hrow
  | cons other rows ih =>
    rw [List.map_cons, List.nodup_cons] at hnodup
    rcases List.mem_cons.mp hrow with rfl | hrow
    · refine hkeep rows _ ?_ hnodup.1
      obtain ⟨old, hold, hid⟩ := List.mem_map.mp hkey
      rw [Rows.mem_modify]
      exact .inl ⟨old, hold, by simpa using hid, rfl⟩
    · refine ih hnodup.2 hrow ?_
      rw [Rows.map_modify]
      · exact hkey
      · intro r _ hr
        simpa using Eq.symm (of_decide_eq_true hr)

/-- Polling all feeds of a user does what is required exactly when the adapter catches what the
fetches of them raise, and the XML library reads what is fetched. -/
theorem pollsAll_iff (env : Env) (userId : String) (feeds : Feeds) (captures : List Capture) :
    PollsAll env userId feeds
        (Stateful.exec (pollAllFeeds env userId) ⟨feeds.rows, captures, [], []⟩).2 ↔
      ∀ feed ∈ enabledFeeds userId feeds.rows, env.Handles feed := by
  have hsub : (enabledFeeds userId feeds.rows).Sublist feeds.rows := List.filter_sublist
  have hnodup : ((enabledFeeds userId feeds.rows).map RssFeed.id).Nodup :=
    (hsub.map RssFeed.id).nodup feeds.nodup
  obtain ⟨outcome, captures', hexec⟩ := @exec_pollFeeds env
    (enabledFeeds userId feeds.rows) 0 ⟨feeds.rows, captures, [], []⟩
  have hstart : Stateful.exec (pollAllFeeds env userId) ⟨feeds.rows, captures, [], []⟩ =
      Stateful.exec ((enabledFeeds userId feeds.rows).foldlM
        (fun totalNew feed ↦ do return totalNew + (← pollFeed env feed)) 0)
        ⟨feeds.rows, captures, [], []⟩ := rfl
  rw [hstart, hexec]
  constructor
  · rintro ⟨-, hrecorded⟩ feed hfeed
    by_contra hnot
    obtain ⟨row, -, hsaved, hid, herror, -⟩ :=
      hrecorded feed hfeed (not_reads_of_not_handles hnot)
    rw [List.nil_append] at hsaved
    obtain ⟨feed', hfeed', hrow⟩ := exists_of_mem_savedRows hsaved
    have hsame : feed' = feed := Rows.eq_of_nodup hnodup hfeed hfeed'
      ((polledRow_eq_ok hrow).1.symm.trans hid)
    rw [hsame] at hrow
    exact hnot (handles_of_errorMessage hrow herror)
  · intro h
    obtain ⟨hbegun, hids, hrows⟩ := mem_savedRows_of_handles h
    refine ⟨fun feed hfeed ↦ ?_, fun feed hfeed hreads ↦ ?_⟩
    · rw [List.nil_append, hbegun]
      exact List.mem_map_of_mem hfeed
    · obtain ⟨row, hmem, hrow⟩ := hrows feed hfeed
      obtain ⟨row', hrow', herror⟩ := polledRow_of_handles (h feed hfeed)
      cases hrow.symm.trans hrow'
      obtain ⟨hid, htime, -⟩ := polledRow_eq_ok hrow
      refine ⟨row, mem_writeRows (hids ▸ hnodup) hmem ?_, by rwa [List.nil_append], hid,
        herror hreads, htime⟩
      rw [hid]
      exact List.mem_map_of_mem (hsub.subset hfeed)

end Facts

/-! ### A feed that declares an entity -/

/-- A feed of a user, enabled and never polled. -/
def newFeed (id feedUrl : String) : RssFeed := ⟨id, "u", feedUrl, true, none, none, none⟩

/-- Two servers. What the first one sends declares an entity, which the XML library refuses; a
document type without declarations it reads. -/
def entityEnv : Env where
  hostname _ := .ok "host"
  repr hostname := "'" ++ hostname ++ "'"
  getaddrinfo _ := .ok [(⟨"93.184.216.34", true, false⟩, none)]
  get url := .ok ⟨none, if url = "http://a/"
    then "<!DOCTYPE rss [<!ENTITY a \"b\">]><rss/>".toList else "<rss/>".toList⟩
  fromstring xmlText :=
    if xmlText = "<rss/>".toList ∨ xmlText = "<!DOCTYPE rss []><rss/>".toList then
      .ok (.mk "rss" [] none [])
    else if occursIn "<!ENTITY".toList xmlText then .error .forbidden
    else .error .parseError
  sha256 := String.ofList
  maxEntries := 50
  now _ := 0

private theorem nodup_twoFeeds : ([newFeed "a" "http://a/", newFeed "b" "http://b/"].map
    RssFeed.id).Nodup := by decide

def twoFeeds : Feeds := ⟨[newFeed "a" "http://a/", newFeed "b" "http://b/"], nodup_twoFeeds⟩

/-- The poll raises at the first feed; the second is not polled. -/
theorem not_pollsAll_entity :
    (Stateful.exec (pollAllFeeds entityEnv "u") ⟨twoFeeds.rows, [], [], []⟩).1 =
        .error (.xml .forbidden) ∧
      ¬ PollsAll entityEnv "u" twoFeeds
        (Stateful.exec (pollAllFeeds entityEnv "u") ⟨twoFeeds.rows, [], [], []⟩).2 := by
  refine ⟨rfl, fun h ↦ ?_⟩
  have hpolled := h.polled (newFeed "b" "http://b/") (by decide)
  have hbegun : (Stateful.exec (pollAllFeeds entityEnv "u") ⟨twoFeeds.rows, [], [], []⟩).2.begun =
      ["a"] := rfl
  rw [hbegun] at hpolled
  exact absurd hpolled (by decide)

end WikiMind.Ingest.RssFeeds
