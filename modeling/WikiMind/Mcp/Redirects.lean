import WikiMind.Base.Url
import WikiMind.Mcp.OAuth

/-!
# The redirect back to the client

Where `authorize_decide` (`api/routes/mcp_oauth.py:280`) sends the user. The URL is put together
from the redirect URI and the state of the request as they came, and the framework's redirect
response then quotes it; `q` says which characters that leaves. `Faithful` is what the client
relies on.
-/

namespace WikiMind.Mcp.OAuth

open WikiMind.Base WikiMind.Base.Url

/-- The URL with a parameter, and with the state unless that is empty: `mcp_oauth.py:305–308`
and `:340–343`. -/
def redirectUrl (request : PendingRequest) (name value : String) : String :=
  let sep := if '?' ∈ request.redirectUri.toList then "&" else "?"
  let url := request.redirectUri ++ sep ++ name ++ "=" ++ value
  match request.state.filter (· ≠ "") with
  | some state => url ++ "&state=" ++ state
  | none => url

/-- The response of `authorize_decide`: `mcp_oauth.py:280–345`. -/
def decideResponse (s : State) (requestId decision : String) (userId : Option String)
    (code : String) : Except Exc String :=
  match s.pending.find? (·.requestId = requestId) with
  | none => .error (.httpException 400 "Authorization request not found or expired")
  | some request =>
    if isExpired s.now request then
      .error (.httpException 400 "Authorization request expired")
    else if decision ≠ "approve" then .ok (redirectUrl request "error" "access_denied")
    else
      match userId.filter (· ≠ "") with
      | none => .error (.httpException 401 "Authentication required")
      | some _ => .ok (redirectUrl request "code" code)

/-- The parameter that tells the client of the decision. -/
def answer (decision code : String) : String × String :=
  if decision = "approve" then ("code", code) else ("error", "access_denied")

/-- A text of URL-safe base 64, as `secrets.token_urlsafe` makes it. -/
def UrlSafe (text : String) : Prop :=
  text.toList.all (fun c ↦ c.isAlphanum || c = '-' || c = '_') = true

/-- The parameter for the state of the request. -/
def stateParameter (request : PendingRequest) : List (List UInt8 × List UInt8) :=
  request.state.toList.map fun state ↦ (encode "state".toList, encode state.toList)

/-- The location has scheme, host and path of the redirect URI, and its query has the parameters
of the redirect URI, the answer and the state, and no others. -/
structure Faithful (q : Quoting) (request : PendingRequest) (answer : String × String)
    (location : List Char) : Prop where
  hierarchy : hierarchy location = q.quote (hierarchy request.redirectUri.toList)
  parameters : (parameters (query location)).Perm
    (parameters (query request.redirectUri.toList) ++
      (encode answer.1.toList, encode answer.2.toList) :: stateParameter request)

/-- The redirect URI has no fragment, and the state, where there is one, is not empty and has no
character that a query reads as another. -/
structure PendingRequest.Verbatim (request : PendingRequest) : Prop where
  redirectUri : '#' ∉ request.redirectUri.toList
  state : ∀ state, request.state = some state → state ≠ "" ∧ '#' ∉ state.toList ∧
    '&' ∉ state.toList ∧ Url.Verbatim state.toList

section
variable (request : PendingRequest)

/-- What is added to the redirect URI. -/
def added (name value : String) : List Char :=
  name.toList ++ '=' :: value.toList ++
    match request.state.filter (· ≠ "") with
    | some state => '&' :: ("state".toList ++ '=' :: state.toList)
    | none => []

private theorem toList_redirectUrl (name value : String) :
    (redirectUrl request name value).toList =
      extend request.redirectUri.toList (added request name value) := by
  unfold redirectUrl added extend
  by_cases hquery : '?' ∈ request.redirectUri.toList
  · cases hstate : request.state.filter (· ≠ "") with
    | none => simp [hquery]
    | some state => simp [hquery]
  · cases hstate : request.state.filter (· ≠ "") with
    | none => simp [hquery]
    | some state => simp [hquery]

/-- A text that a query holds as it is. -/
structure Plain (text : List Char) : Prop where
  hash : '#' ∉ text
  and : '&' ∉ text
  equals : '=' ∉ text
  verbatim : Url.Verbatim text

/-- The parameters added to a URL, up to the first `#` of the state. -/
theorem parameters_added {name value : String} (hname : Plain name.toList)
    (hvalue : Plain value.toList) :
    parameters (beforeFragment (added request name value)) =
      (encode name.toList, encode value.toList) ::
        match request.state.filter (· ≠ "") with
        | some state => parameters ("state".toList ++ '=' :: beforeFragment state.toList)
        | none => [] := by
  have hpiece : '#' ∉ name.toList ++ '=' :: value.toList := by
    simp [hname.hash, hvalue.hash]
  have hfirst : parameters (name.toList ++ '=' :: value.toList) =
      [(encode name.toList, encode value.toList)] := by
    rw [parameters_of_not_mem hname.equals hname.and hvalue.and,
      (decode_eq_encode_iff _).mpr hname.verbatim, (decode_eq_encode_iff _).mpr hvalue.verbatim]
  unfold added
  cases request.state.filter (· ≠ "") with
  | none =>
    simp only [List.append_nil]
    rw [beforeFragment_of_not_mem hpiece, hfirst]
  | some state =>
    simp only
    have hstate : beforeFragment ('&' :: ("state".toList ++ '=' :: state.toList)) =
        '&' :: ("state".toList ++ '=' :: beforeFragment state.toList) :=
      beforeFragment_append (s := "&state=".toList) (by decide) state.toList
    rw [beforeFragment_append hpiece, hstate, parameters_append, hfirst, List.singleton_append]

/-- The parameters added are the answer and the state exactly when the state, where there is one,
is not empty and is read as it is. -/
theorem parameters_added_perm_iff {name value : String} (hname : Plain name.toList)
    (hvalue : Plain value.toList) :
    (parameters (beforeFragment (added request name value))).Perm
        ((encode name.toList, encode value.toList) :: stateParameter request) ↔
      ∀ state, request.state = some state → state ≠ "" ∧ '#' ∉ state.toList ∧
        '&' ∉ state.toList ∧ Url.Verbatim state.toList := by
  rw [parameters_added request hname hvalue, List.perm_cons, stateParameter]
  cases hstate : request.state with
  | none => simp
  | some state =>
    simp only [Option.toList_some, List.map_singleton, List.perm_singleton, Option.some.injEq,
      forall_eq']
    by_cases hempty : state = ""
    · simp [hempty, Option.filter]
    · have hfront : beforeFragment state.toList <+: state.toList := List.takeWhile_prefix _
      have hname' : decode "state".toList = encode "state".toList := by decide
      have hwhole : beforeFragment state.toList = state.toList ↔ '#' ∉ state.toList := by
        constructor
        · intro h
          rw [← h]
          exact fun hmem ↦ by simpa using List.mem_takeWhile_imp hmem
        · exact beforeFragment_of_not_mem
      rw [Option.filter_some_pos (by simpa using hempty), ← hname']
      simp only
      rw [parameters_eq_singleton_iff (by decide) (by decide) hfront, hwhole,
        and_iff_right hempty]

variable (q : Quoting)

/-- The redirect is faithful exactly when the request is verbatim. -/
theorem faithful_redirectUrl_iff {name value : String} (hname : Plain name.toList)
    (hvalue : Plain value.toList) :
    Faithful q request (name, value) (q.quote (redirectUrl request name value).toList) ↔
      request.Verbatim := by
  rw [toList_redirectUrl]
  by_cases hfragment : '#' ∈ request.redirectUri.toList
  · refine iff_of_false (fun h ↦ ?_) fun h ↦ h.redirectUri hfragment
    have hlength := h.parameters.length_eq
    rw [q.query_quote, q.parameters_quote, (extend_of_fragment hfragment _).2] at hlength
    simp at hlength
  · obtain ⟨hhierarchy, hparameters⟩ :=
      extend_of_not_mem hfragment (added request name value)
    have hiff := parameters_added_perm_iff request hname hvalue
    constructor
    · intro h
      have hperm := h.parameters
      rw [q.query_quote, q.parameters_quote, hparameters, List.perm_append_left_iff] at hperm
      exact ⟨hfragment, hiff.mp hperm⟩
    · intro h
      constructor
      · rw [q.hierarchy_quote, hhierarchy]
      · rw [q.query_quote, q.parameters_quote, hparameters, List.perm_append_left_iff]
        exact hiff.mpr h.state

end

/-- A text in which no character has a meaning for a query is plain. -/
theorem plain_of_all {text : List Char} (h : text.all (· ∉ ['#', '&', '=', '+', '%']) = true) :
    Plain text := by
  have hnone : ∀ d ∈ ['#', '&', '=', '+', '%'], d ∉ text := fun d hd hmem ↦
    of_decide_eq_true (List.all_eq_true.mp h d hmem) hd
  exact
    { hash := hnone _ (by decide)
      and := hnone _ (by decide)
      equals := hnone _ (by decide)
      verbatim := verbatim_of_not_mem (hnone _ (by decide)) (hnone _ (by decide)) }

theorem UrlSafe.plain {text : String} (h : UrlSafe text) : Plain text.toList := by
  apply plain_of_all
  rw [List.all_eq_true]
  intro c hc
  have hsafe := List.all_eq_true.mp h c hc
  rw [decide_eq_true_eq]
  intro hmem
  simp only [List.mem_cons, List.not_mem_nil, or_false] at hmem
  rcases hmem with rfl | rfl | rfl | rfl | rfl <;> exact absurd hsafe (by decide)

private theorem plain_answer {decision code : String} (hcode : UrlSafe code) :
    Plain (answer decision code).1.toList ∧ Plain (answer decision code).2.toList := by
  unfold answer
  split
  · have hname : Plain "code".toList := plain_of_all (by decide)
    exact ⟨hname, hcode.plain⟩
  · have hname : Plain "error".toList := plain_of_all (by decide)
    have hvalue : Plain "access_denied".toList := plain_of_all (by decide)
    exact ⟨hname, hvalue⟩

/-- Whatever the user decides, the redirect is faithful to the pending request exactly when
the request is verbatim. -/
theorem decide_faithful_iff (q : Quoting) (s : State) (requestId decision : String)
    (userId : Option String) {code : String} (hcode : UrlSafe code) {request : PendingRequest}
    (hpending : s.pending.find? (·.requestId = requestId) = some request) {url : String}
    (hresponse : decideResponse s requestId decision userId code = .ok url) :
    Faithful q request (answer decision code) (q.quote url.toList) ↔ request.Verbatim := by
  have hurl : url = redirectUrl request (answer decision code).1 (answer decision code).2 := by
    unfold decideResponse at hresponse
    rw [hpending] at hresponse
    simp only at hresponse
    unfold answer
    split at hresponse
    · cases hresponse
    · split at hresponse
      next hdeny =>
        rw [if_neg hdeny]
        exact (Except.ok.inj hresponse).symm
      next happrove =>
        rw [if_pos (not_not.mp happrove)]
        split at hresponse
        · cases hresponse
        · exact (Except.ok.inj hresponse).symm
  obtain ⟨hname, hvalue⟩ := @plain_answer decision code hcode
  rw [hurl]
  exact faithful_redirectUrl_iff request q hname hvalue

/-- A pending request whose state has a parameter of its own. -/
def requestWithParameter : PendingRequest :=
  ⟨"r1", "client", "https://client.example/cb?x=1", "challenge", some "a&code=forged", 0⟩

def oneRequest (request : PendingRequest) : State := { State.empty with pending := [request] }

/-- The client reads another state, and a second code. -/
theorem decide_not_faithful :
    ∃ url, decideResponse (oneRequest requestWithParameter) "r1" "approve" (some "u") "c0de" =
        .ok url ∧
      parameters (query (Quoting.strict.quote url.toList)) =
        [(encode ['x'], encode ['1']), (encode "code".toList, encode "c0de".toList),
          (encode "state".toList, encode ['a']),
          (encode "code".toList, encode "forged".toList)] ∧
      ¬ Faithful Quoting.strict requestWithParameter ("code", "c0de")
        (Quoting.strict.quote url.toList) := by
  refine ⟨_, rfl, by decide, fun h ↦ ?_⟩
  have hlength := h.parameters.length_eq
  exact absurd hlength (by decide)

/-- A pending request whose state has characters that are quoted. -/
def requestWithQuoted : PendingRequest :=
  ⟨"r1", "client", "https://client.example/cb", "challenge", some "xyz=é 1", 0⟩

private theorem requestWithQuoted_verbatim : requestWithQuoted.Verbatim := by
  refine ⟨by decide, fun state hstate ↦ ?_⟩
  cases hstate
  exact ⟨by decide, by decide, by decide, verbatim_of_not_mem (by decide) (by decide)⟩

theorem decide_faithful_quoted :
    Faithful Quoting.strict requestWithQuoted (answer "deny" "c0de") (Quoting.strict.quote
      "https://client.example/cb?error=access_denied&state=xyz=é 1".toList) := by
  have hcode : UrlSafe "c0de" := by
    unfold UrlSafe
    decide
  exact (decide_faithful_iff Quoting.strict (oneRequest requestWithQuoted) "r1" "deny" none
    hcode rfl rfl).mpr requestWithQuoted_verbatim

end WikiMind.Mcp.OAuth
