import WikiMind.Base.Parties
import WikiMind.Base.Run

/-!
# The OAuth authorization server

`api/routes/mcp_oauth.py`. A client asks for authorization, the user decides, and the client
exchanges the code for a token. An exchange reads and checks the code row in one step and
commits in another, so that exchanges run side by side; the other requests are one step
each. Times are in microseconds. `s256` is the challenge of a verifier, which has none if it
is not ASCII, and `sha256` the hash of a token.
-/

namespace WikiMind.Mcp.OAuth

open WikiMind.Base

/-- A pending authorization request: `mcp_oauth.py:221–227`. -/
structure PendingRequest where
  requestId : String
  clientId : String
  redirectUri : String
  codeChallenge : String
  state : Option String
  createdAt : Int
  deriving DecidableEq, Repr

/-- `models/tables/auth.py:32`. -/
structure OAuthAuthorizationCode where
  id : Nat
  code : String
  userId : String
  clientId : String
  redirectUri : String
  codeChallenge : String
  state : Option String
  createdAt : Int
  expiresAt : Int
  used : Bool
  deriving DecidableEq, Repr

/-- `models/tables/auth.py:52`. -/
structure OAuthAccessToken where
  tokenHash : String
  userId : String
  clientId : String
  createdAt : Int
  expiresAt : Int
  revoked : Bool
  deriving DecidableEq, Repr

/-- The form of a token request. -/
structure TokenForm where
  grantType : String
  code : String
  redirectUri : String
  codeVerifier : String
  clientId : String
  deriving DecidableEq, Repr

/-- Where a token request stands: before it reads the code, about to commit a token for the
code row it read; and how it ended: with a token, with an error of the protocol, by an
exception, or rolled back. -/
inductive Phase where
  | received
  | validated (codeId : Nat) (token : OAuthAccessToken)
  | issued
  | refused (error : String)
  | raised | rolledBack
  deriving DecidableEq, Repr

/-- The request has read a code it may use and has not ended. -/
def Phase.isValidated : Phase → Bool
  | .validated .. => true
  | _ => false

/-- A request the user approved, with the code row made for it. -/
structure Approval where
  request : PendingRequest
  userId : String
  approvedAt : Int
  codeId : Nat
  deriving DecidableEq, Repr

/-- A token as it was issued, with the form it was asked for with and the code row. -/
structure Issued where
  form : TokenForm
  codeId : Nat
  token : OAuthAccessToken
  deriving DecidableEq, Repr

/-- The clock, the pending requests, the tables and the token requests. What the user approved
and which tokens were issued is kept beside them for the statements. -/
structure State where
  now : Int
  pending : List PendingRequest
  codes : List OAuthAuthorizationCode
  tokens : List OAuthAccessToken
  exchanges : Parties TokenForm Phase
  approvals : List Approval
  issued : List Issued

def State.empty : State := ⟨0, [], [], [], [], [], []⟩

/-- `AUTH_CODE_TTL_SECONDS` and `ACCESS_TOKEN_TTL_SECONDS`: `mcp_oauth.py:40–43`. -/
def authCodeTtl : Int := 300 * 1000000

def accessTokenTtl : Int := 3600 * 1000000

/-- The parameters of an authorization request. -/
structure AuthorizeParams where
  responseType : Option String
  clientId : Option String
  redirectUri : Option String
  codeChallenge : Option String
  codeChallengeMethod : Option String
  state : Option String
  deriving DecidableEq, Repr

/-- The checks of `authorize`: `mcp_oauth.py:206–216`. -/
def validateAuthorize (p : AuthorizeParams) : Except Exc (String × String × String) := do
  let given (value : Option String) (detail : String) : Except Exc String :=
    match value.filter (· ≠ "") with
    | some text => .ok text
    | none => .error (.httpException 400 detail)
  if p.responseType ≠ some "code" then
    throw (.httpException 400 "response_type must be 'code'")
  let clientId ← given p.clientId "client_id is required"
  let redirectUri ← given p.redirectUri "redirect_uri is required"
  let codeChallenge ← given p.codeChallenge "code_challenge is required (PKCE)"
  if p.codeChallengeMethod ≠ some "S256" then
    throw (.httpException 400 "code_challenge_method must be 'S256'")
  return (clientId, redirectUri, codeChallenge)

/-- `authorize`: `mcp_oauth.py:188`. -/
def authorize (s : State) (requestId : String) (p : AuthorizeParams) : State :=
  match validateAuthorize p with
  | .error _ => s
  | .ok (clientId, redirectUri, codeChallenge) =>
    { s with
      pending := s.pending.filter (·.requestId ≠ requestId) ++
        [⟨requestId, clientId, redirectUri, codeChallenge, p.state, s.now⟩] }

/-- The request is too old. -/
def isExpired (now : Int) (request : PendingRequest) : Bool := authCodeTtl < now - request.createdAt

/-- What `authorize_resume` removes: `mcp_oauth.py:258–266`. -/
def authorizeResume (s : State) (rid : String) : State :=
  { s with
    pending := s.pending.filter fun request ↦
      ¬ (request.requestId = rid ∧ isExpired s.now request) }

/-- `authorize_decide`: `mcp_oauth.py:280`. The user is the one of the session, if any. -/
def authorizeDecide (s : State) (requestId decision : String) (userId : Option String)
    (code : String) : State :=
  match s.pending.find? (·.requestId = requestId) with
  | none => s
  | some request =>
    let popped := { s with pending := s.pending.filter (·.requestId ≠ requestId) }
    if isExpired s.now request ∨ decision ≠ "approve" then popped
    else
      match userId.filter (· ≠ "") with
      | none => popped
      | some userId =>
        { popped with
          codes := s.codes ++ [{
            id := s.codes.length
            code := code
            userId := userId
            clientId := request.clientId
            redirectUri := request.redirectUri
            codeChallenge := request.codeChallenge
            state := request.state
            createdAt := s.now
            expiresAt := s.now + authCodeTtl
            used := false }]
          approvals := s.approvals ++ [⟨request, userId, s.now, s.codes.length⟩] }

section Exchange
variable (s256 : String → Option String) (sha256 : String → String)

/-- `_validate_auth_code`: `mcp_oauth.py:353`. A verifier that is not ASCII raises. -/
def validateAuthCode (now : Int) (authCode : Option OAuthAuthorizationCode)
    (clientId redirectUri codeVerifier : String) : Except Exc (Option String) :=
  match authCode with
  | none => .ok (some "Invalid authorization code")
  | some authCode =>
    if authCode.expiresAt < now then .ok (some "Authorization code expired")
    else if authCode.used then .ok (some "Authorization code already used")
    else if authCode.clientId ≠ clientId then .ok (some "client_id mismatch")
    else if authCode.redirectUri ≠ redirectUri then .ok (some "redirect_uri mismatch")
    else
      match s256 codeVerifier with
      | none => .error .valueError
      | some verifierHash =>
        if verifierHash ≠ authCode.codeChallenge then .ok (some "PKCE verification failed")
        else .ok none

/-- The token for a code: `mcp_oauth.py:420–432`. -/
def newToken (now : Int) (authCode : OAuthAuthorizationCode) (clientId rawToken : String) :
    OAuthAccessToken where
  tokenHash := sha256 rawToken
  userId := authCode.userId
  clientId := clientId
  createdAt := now
  expiresAt := now + accessTokenTtl
  revoked := false

/-- `token_exchange` up to its commit: `mcp_oauth.py:400–433`. -/
def readCode (s : State) (form : TokenForm) (rawToken : String) : Phase :=
  if form.grantType ≠ "authorization_code" then .refused "unsupported_grant_type"
  else
    match Rows.oneOrNone (·.code = form.code) s.codes with
    | .error _ => .raised
    | .ok authCode =>
      match validateAuthCode s256 s.now authCode form.clientId form.redirectUri
          form.codeVerifier, authCode with
      | .ok none, some authCode =>
        .validated authCode.id (newToken sha256 s.now authCode form.clientId rawToken)
      | .ok (some _), _ => .refused "invalid_grant"
      | _, _ => .raised

end Exchange

/-- The commit of an exchange: the code is used, the token is there. -/
def commit (s : State) (q : Party TokenForm Phase) (codeId : Nat) (token : OAuthAccessToken) :
    State :=
  { s with
    codes := Rows.modify (·.id = codeId) (fun c ↦ { c with used := true }) s.codes
    tokens := s.tokens ++ [token]
    exchanges := s.exchanges.goto q.id .issued
    issued := s.issued ++ [⟨q.data, codeId, token⟩] }

/-- `revoke_token`: `mcp_oauth.py:460`. Several rows of a hash raise. -/
def revokeToken (sha256 : String → String) (s : State) (token : String) : State :=
  match Rows.oneOrNone (·.tokenHash = sha256 token) s.tokens with
  | .ok (some _) =>
    { s with
      tokens := Rows.modify (·.tokenHash = sha256 token) (fun t ↦ { t with revoked := true })
        s.tokens }
  | _ => s

/-- The steps of the system. The names of requests, codes and tokens are chosen by it. -/
inductive Label where
  | authorize (requestId : String) (p : AuthorizeParams)
  | resume (rid : String)
  | decide (requestId decision : String) (userId : Option String) (code : String)
  | exchange (r : Nat) (form : TokenForm)
  | read (r : Nat) (rawToken : String)
  | commit (r : Nat)
  | rollBack (r : Nat)
  | revoke (token : String)
  | clock (now : Int)
  deriving DecidableEq, Repr

/-- One step; `none` when it is not enabled. -/
def step (s256 : String → Option String) (sha256 : String → String) (s : State) :
    Label → Option State
  | .authorize requestId p => some (authorize s requestId p)
  | .resume rid => some (authorizeResume s rid)
  | .decide requestId decision userId code =>
    some (authorizeDecide s requestId decision userId code)
  | .exchange r form =>
    (s.exchanges.enter r form .received).map fun exchanges ↦ { s with exchanges }
  | .read r rawToken =>
    (s.exchanges.get? r).bind fun q ↦
      if q.phase ≠ .received then none
      else
        some { s with
          exchanges := s.exchanges.goto r (readCode s256 sha256 s q.data rawToken) }
  | .commit r =>
    (s.exchanges.get? r).bind fun q ↦
      match q.phase with
      | .validated codeId token => some (commit s q codeId token)
      | _ => none
  | .rollBack r =>
    (s.exchanges.get? r).bind fun q ↦
      if q.phase.isValidated = false then none
      else some { s with exchanges := s.exchanges.goto r .rolledBack }
  | .revoke token => some (revokeToken sha256 s token)
  | .clock now => some { s with now }

/-- The authorization server. -/
def server (s256 : String → Option String) (sha256 : String → String) : Machine State Label :=
  ⟨step s256 sha256⟩

end WikiMind.Mcp.OAuth
