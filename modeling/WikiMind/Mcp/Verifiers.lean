import WikiMind.Mcp.OAuth

/-!
# The verifiers of MCP tokens

Personal access tokens and OAuth tokens have one prefix and two tables. The MCP server
verifies a token by `verify_token` (`mcp/auth.py:35`), which looks a prefixed token up among
the personal ones; `validate_mcp_token` (`mcp/auth.py:101`) looks in both tables, and
`validate_oauth_token` (`api/routes/mcp_oauth.py:487`) among the OAuth tokens. The verifier
of JWTs is a parameter.
-/

namespace WikiMind.Mcp.OAuth

open WikiMind.Base

/-- `models/tables/auth.py:11`. -/
structure MCPAccessToken where
  id : Nat
  userId : String
  name : String
  tokenHash : String
  lastUsedAt : Option Int
  expiresAt : Option Int
  revoked : Bool
  deriving DecidableEq, Repr

/-- The tables the verifiers read, and the time. -/
structure Tables where
  now : Int
  pats : List MCPAccessToken
  oauthTokens : List OAuthAccessToken

/-- What FastMCP gets of a verified token. -/
structure AccessToken where
  token : String
  clientId : String
  scopes : List String
  deriving DecidableEq, Repr

/-- The personal token is no longer valid: `mcp/auth.py:57, 127`. -/
def MCPAccessToken.isExpired (now : Int) (t : MCPAccessToken) : Bool :=
  t.expiresAt.any (· < now)

/-- The row is marked as used now. -/
def Tables.touch (s : Tables) (row : MCPAccessToken) : Tables :=
  { s with
    pats := Rows.modify (·.id = row.id) (fun t ↦ { t with lastUsedAt := some s.now }) s.pats }

section
variable (sha256 : String → String) (verifyJwt : String → Except Exc AccessToken)

/-- `_verify_pat`: `mcp/auth.py:41`. -/
def verifyPat (s : Tables) (token : String) : Except Exc AccessToken × Tables :=
  match Rows.oneOrNone (·.tokenHash = sha256 token) s.pats with
  | .error e => (.error e, s)
  | .ok none => (.error .valueError, s)
  | .ok (some row) =>
    if row.revoked then (.error .valueError, s)
    else if row.isExpired s.now then (.error .valueError, s)
    else (.ok ⟨token, row.userId, []⟩, s.touch row)

/-- `verify_token`: `mcp/auth.py:35`. -/
def verifyToken (s : Tables) (token : String) : Except Exc AccessToken × Tables :=
  if "wmk_".toList <+: token.toList then verifyPat sha256 s token else (verifyJwt token, s)

/-- `validate_mcp_token`: `mcp/auth.py:101`. A failure of the second query is caught. -/
def validateMcpToken (s : Tables) (token : String) : Except Exc (Option String) × Tables :=
  match Rows.oneOrNone (fun t ↦ t.tokenHash = sha256 token ∧ t.revoked = false) s.pats with
  | .error e => (.error e, s)
  | .ok (some pat) =>
    if pat.isExpired s.now then (.ok none, s) else (.ok (some pat.userId), s.touch pat)
  | .ok none =>
    match Rows.oneOrNone (fun t ↦ t.tokenHash = sha256 token ∧ t.revoked = false)
        s.oauthTokens with
    | .ok (some oauth) =>
      (.ok (if oauth.expiresAt < s.now then none else some oauth.userId), s)
    | _ => (.ok none, s)

/-- `validate_oauth_token`: `api/routes/mcp_oauth.py:487`. -/
def validateOAuthToken (s : Tables) (token : String) : Except Exc (Option String) :=
  (Rows.oneOrNone (·.tokenHash = sha256 token) s.oauthTokens).map fun accessToken ↦
    accessToken.bind fun t ↦
      if t.revoked then none else if t.expiresAt < s.now then none else some t.userId

/-- The users for whom the verifiers accept a token. A verifier that raises accepts for
nobody. -/
def acceptedBy (s : Tables) (token : String) : List (Option String) :=
  [(verifyToken sha256 verifyJwt s token).1.toOption.map AccessToken.clientId,
    (validateMcpToken sha256 s token).1.toOption.join,
    (validateOAuthToken sha256 s token).toOption.join]

/-- The row is that of the token, which the token endpoint issued. -/
def IsIssued (s : Tables) (token : String) (row : OAuthAccessToken) : Prop :=
  "wmk_".toList <+: token.toList ∧ row ∈ s.oauthTokens ∧ row.tokenHash = sha256 token

/-- Neither revoked nor expired. -/
def OAuthAccessToken.IsLive (now : Int) (t : OAuthAccessToken) : Prop :=
  t.revoked = false ∧ now ≤ t.expiresAt

def MCPAccessToken.IsLive (now : Int) (t : MCPAccessToken) : Prop :=
  t.revoked = false ∧ t.isExpired now = false

/-- A live issued token is accepted by all verifiers for its user, any other by none. -/
def VerifiersAgree (s : Tables) (token : String) : Prop :=
  ∀ row, IsIssued sha256 s token row →
    (row.IsLive s.now → ∀ user ∈ acceptedBy sha256 verifyJwt s token, user = some row.userId) ∧
      (¬ row.IsLive s.now → ∀ user ∈ acceptedBy sha256 verifyJwt s token, user = none)

/-- A live issued token has the only OAuth row of its hash, and the only personal token of
that hash is one of its user and live; a token that is not live shares its hash with no
live personal token that is the only one not revoked. -/
def HasTwin (s : Tables) (token : String) : Prop :=
  ∀ row, IsIssued sha256 s token row →
    (row.IsLive s.now → s.oauthTokens.filter (·.tokenHash = sha256 token) = [row] ∧
      ∃ pat, s.pats.filter (·.tokenHash = sha256 token) = [pat] ∧ pat.IsLive s.now ∧
        pat.userId = row.userId) ∧
    (¬ row.IsLive s.now → ∀ pat,
      s.pats.filter (fun t ↦ t.tokenHash = sha256 token ∧ t.revoked = false) = [pat] →
        pat.isExpired s.now = true)

end

section
variable {sha256 : String → String} {verifyJwt : String → Except Exc AccessToken} {s : Tables}
  {token user : String}

/-- A prefixed token is accepted for the user of the only personal token of its hash. -/
theorem verifyToken_accepts_iff (hmatch : "wmk_".toList <+: token.toList) :
    (verifyToken sha256 verifyJwt s token).1.toOption.map AccessToken.clientId = some user ↔
      ∃ pat, s.pats.filter (·.tokenHash = sha256 token) = [pat] ∧ pat.IsLive s.now ∧
        pat.userId = user := by
  rw [verifyToken, if_pos hmatch, verifyPat]
  simp only [← Rows.oneOrNone_eq_some]
  cases Rows.oneOrNone (fun t : MCPAccessToken ↦ t.tokenHash = sha256 token) s.pats with
  | error e => simp [Except.toOption]
  | ok result =>
    cases result with
    | none => simp [Except.toOption]
    | some pat =>
      simp only [Except.ok.injEq, Option.some.injEq, exists_eq_left', MCPAccessToken.IsLive]
      by_cases hrevoked : pat.revoked = true
      · simp [hrevoked, Except.toOption]
      · by_cases hexpired : pat.isExpired s.now = true
        · simp [hrevoked, hexpired, Except.toOption]
        · simp [hrevoked, hexpired, Except.toOption]

/-- An OAuth token is accepted for the user of the only row of its hash. -/
theorem validateOAuthToken_accepts_iff :
    (validateOAuthToken sha256 s token).toOption.join = some user ↔
      ∃ row, s.oauthTokens.filter (·.tokenHash = sha256 token) = [row] ∧ row.IsLive s.now ∧
        row.userId = user := by
  unfold validateOAuthToken
  simp only [← Rows.oneOrNone_eq_some]
  cases Rows.oneOrNone (fun t : OAuthAccessToken ↦ t.tokenHash = sha256 token) s.oauthTokens with
  | error e => simp [Except.toOption, Except.map]
  | ok result =>
    cases result with
    | none => simp [Except.toOption, Except.map]
    | some row =>
      simp only [Except.ok.injEq, Option.some.injEq, exists_eq_left', OAuthAccessToken.IsLive]
      by_cases hrevoked : row.revoked = true
      · simp [hrevoked, Except.toOption, Except.map]
      · by_cases hexpired : row.expiresAt < s.now
        · have hle : ¬ s.now ≤ row.expiresAt := by omega
          simp [hrevoked, hexpired, hle, Except.toOption, Except.map]
        · have hle : s.now ≤ row.expiresAt := by omega
          simp [hrevoked, hexpired, hle, Except.toOption, Except.map]

/-- The third verifier asks the personal tokens that are not revoked first, and the OAuth
tokens only if there is none of them. -/
theorem validateMcpToken_accepts_iff :
    (validateMcpToken sha256 s token).1.toOption.join = some user ↔
      (∃ pat, s.pats.filter (fun t ↦ t.tokenHash = sha256 token ∧ t.revoked = false) = [pat] ∧
        pat.isExpired s.now = false ∧ pat.userId = user) ∨
      (s.pats.filter (fun t ↦ t.tokenHash = sha256 token ∧ t.revoked = false) = [] ∧
        ∃ row, s.oauthTokens.filter
            (fun t ↦ t.tokenHash = sha256 token ∧ t.revoked = false) = [row] ∧
          s.now ≤ row.expiresAt ∧ row.userId = user) := by
  unfold validateMcpToken
  simp only [← Rows.oneOrNone_eq_some, ← Rows.oneOrNone_eq_none]
  cases Rows.oneOrNone
      (fun t : MCPAccessToken ↦ t.tokenHash = sha256 token ∧ t.revoked = false) s.pats with
  | error e => simp [Except.toOption]
  | ok result =>
    cases result with
    | some pat => cases hexpired : pat.isExpired s.now <;> simp [hexpired, Except.toOption]
    | none =>
      cases Rows.oneOrNone
          (fun t : OAuthAccessToken ↦ t.tokenHash = sha256 token ∧ t.revoked = false)
          s.oauthTokens with
      | error e => simp [Except.toOption]
      | ok result =>
        cases result with
        | none => simp [Except.toOption]
        | some row =>
          by_cases hexpired : row.expiresAt < s.now
          · have hle : ¬ s.now ≤ row.expiresAt := by omega
            simp [hexpired, hle, Except.toOption]
          · have hle : s.now ≤ row.expiresAt := by omega
            simp [hexpired, hle, Except.toOption]

/-- The only personal token of a hash that is live is the only one not revoked. -/
theorem filter_not_revoked {α : Type} (tokenHash : α → String) (revoked : α → Bool)
    {rows : List α} {r : α} (h : rows.filter (tokenHash · = sha256 token) = [r])
    (hrevoked : revoked r = false) :
    rows.filter (fun t ↦ tokenHash t = sha256 token ∧ revoked t = false) = [r] := by
  have hand : rows.filter (fun t ↦ tokenHash t = sha256 token ∧ revoked t = false) =
      (rows.filter (tokenHash · = sha256 token)).filter (revoked · = false) := by
    rw [List.filter_filter]
    apply List.filter_congr
    simp [and_comm]
  rw [hand, h]
  simp [hrevoked]

private theorem forall_acceptedBy {P : Option String → Prop} :
    (∀ user ∈ acceptedBy sha256 verifyJwt s token, P user) ↔
      P ((verifyToken sha256 verifyJwt s token).1.toOption.map AccessToken.clientId) ∧
      P (validateMcpToken sha256 s token).1.toOption.join ∧
      P (validateOAuthToken sha256 s token).toOption.join := by
  simp [acceptedBy]

/-- The verifiers agree on a token precisely where a live OAuth token has a personal twin. -/
theorem verifiersAgree_iff_hasTwin (sha256 : String → String)
    (verifyJwt : String → Except Exc AccessToken) (s : Tables) (token : String) :
    VerifiersAgree sha256 verifyJwt s token ↔ HasTwin sha256 s token := by
  constructor
  · intro h row hrow
    obtain ⟨hlive, hdead⟩ := h row hrow
    have hmem : row ∈ s.oauthTokens.filter (·.tokenHash = sha256 token) :=
      List.mem_filter.mpr ⟨hrow.2.1, by simpa using hrow.2.2⟩
    constructor
    · intro hl
      obtain ⟨hserver, _, hoauth⟩ := forall_acceptedBy.mp (hlive hl)
      have hpat := (verifyToken_accepts_iff hrow.1).mp hserver
      obtain ⟨row', hfilter, _⟩ := validateOAuthToken_accepts_iff.mp hoauth
      rw [hfilter, List.mem_singleton] at hmem
      rw [hmem]
      exact ⟨hfilter, hmem ▸ hpat⟩
    · intro hd pat hfilter
      by_contra hexpired
      have haccepts := validateMcpToken_accepts_iff.mpr
        (.inl ⟨pat, hfilter, by simpa using hexpired, rfl⟩)
      rw [(forall_acceptedBy.mp (hdead hd)).2.1] at haccepts
      cases haccepts
  · intro h row hrow
    obtain ⟨hlive, hdead⟩ := h row hrow
    constructor
    · intro hl
      obtain ⟨hoauth, pat, hpats, hpat, huser⟩ := hlive hl
      have hpats' := filter_not_revoked _ MCPAccessToken.revoked hpats hpat.1
      refine forall_acceptedBy.mpr ⟨?_, ?_, ?_⟩
      · exact (verifyToken_accepts_iff hrow.1).mpr ⟨pat, hpats, hpat, huser⟩
      · exact validateMcpToken_accepts_iff.mpr (.inl ⟨pat, hpats', hpat.2, huser⟩)
      · exact validateOAuthToken_accepts_iff.mpr ⟨row, hoauth, hl, rfl⟩
    · intro hd
      simp only [forall_acceptedBy, Option.eq_none_iff_forall_ne_some]
      refine ⟨fun user haccepts ↦ ?_, fun user haccepts ↦ ?_, fun user haccepts ↦ ?_⟩
      · obtain ⟨pat, hpats, hpat, _⟩ := (verifyToken_accepts_iff hrow.1).mp haccepts
        have hpats' := filter_not_revoked _ MCPAccessToken.revoked hpats hpat.1
        have hexpired := hpat.2
        rw [hdead hd pat hpats'] at hexpired
        cases hexpired
      · rcases validateMcpToken_accepts_iff.mp haccepts with
          ⟨pat, hpats, hexpired, _⟩ | ⟨_, row', hoauth, hexpires, _⟩
        · rw [hdead hd pat hpats] at hexpired
          cases hexpired
        · -- the other row of the hash is live and has to be the only one
          have hmem : row' ∈ s.oauthTokens.filter
              (fun t ↦ t.tokenHash = sha256 token ∧ t.revoked = false) := by
            rw [hoauth]
            exact List.mem_singleton_self row'
          obtain ⟨hin, hhash⟩ := List.mem_filter.mp hmem
          simp only [decide_eq_true_eq] at hhash
          have honly := ((h row' ⟨hrow.1, hin, hhash.1⟩).1 ⟨hhash.2, hexpires⟩).1
          have hrowMem : row ∈ s.oauthTokens.filter (·.tokenHash = sha256 token) :=
            List.mem_filter.mpr ⟨hrow.2.1, by simpa using hrow.2.2⟩
          rw [honly, List.mem_singleton] at hrowMem
          exact hd (hrowMem ▸ ⟨hhash.2, hexpires⟩)
      · obtain ⟨row', hfilter, hl, _⟩ := validateOAuthToken_accepts_iff.mp haccepts
        have hrowMem : row ∈ s.oauthTokens.filter (·.tokenHash = sha256 token) :=
          List.mem_filter.mpr ⟨hrow.2.1, by simpa using hrow.2.2⟩
        rw [hfilter, List.mem_singleton] at hrowMem
        exact hd (hrowMem ▸ hl)

/-- A token fresh from the token endpoint: the MCP server does not accept it. -/
theorem not_verifiersAgree :
    ¬ VerifiersAgree id (fun _ ↦ .error .valueError)
      ⟨0, [], [⟨"wmk_t", "u", "client", 0, accessTokenTtl, false⟩]⟩ "wmk_t" := by
  intro h
  have hlive := (h _ ⟨by decide, List.mem_singleton_self _, rfl⟩).1 ⟨rfl, by decide⟩
  have hserver := hlive none (by decide)
  cases hserver

end

end WikiMind.Mcp.OAuth
