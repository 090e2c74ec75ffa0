import WikiMind.Mcp.OAuth

/-!
# What an authorization code grants

Every token goes back to a request that the user approved: the code row was made for it,
and the exchange that read the row passed the checks. A code is single use by its `used`
flag, which an exchange sets when it commits; two exchanges that read the row before one of
them commits both get a token.
-/

namespace WikiMind.Mcp.OAuth

open WikiMind.Base

/-- The code row is the one made for the approval. -/
structure Approval.Made (a : Approval) (c : OAuthAuthorizationCode) : Prop where
  codeId : a.codeId = c.id
  userId : a.userId = c.userId
  clientId : a.request.clientId = c.clientId
  redirectUri : a.request.redirectUri = c.redirectUri
  codeChallenge : a.request.codeChallenge = c.codeChallenge
  expiresAt : c.expiresAt = a.approvedAt + authCodeTtl

/-- The approval entitles the form to the token: same client, same redirect URI, a verifier
of its challenge, and a token made before its code expired. -/
structure Approval.Entitles (s256 : String → Option String) (a : Approval) (form : TokenForm)
    (token : OAuthAccessToken) : Prop where
  clientId : a.request.clientId = form.clientId
  redirectUri : a.request.redirectUri = form.redirectUri
  verifier : s256 form.codeVerifier = some a.request.codeChallenge
  notExpired : token.createdAt ≤ a.approvedAt + authCodeTtl
  userId : token.userId = a.userId
  tokenClient : token.clientId = form.clientId

/-- The presented code is that of a row, and the approval it was made for entitles the form
to the token. -/
def Grants (s256 : String → Option String) (s : State) (form : TokenForm) (codeId : Nat)
    (token : OAuthAccessToken) : Prop :=
  (∃ c ∈ s.codes, c.id = codeId ∧ c.code = form.code) ∧
    ∃ a ∈ s.approvals, a.codeId = codeId ∧ a.Entitles s256 form token

/-- Every token issued was granted by an approval. -/
def State.Granted (s256 : String → Option String) (s : State) : Prop :=
  ∀ i ∈ s.issued, Grants s256 s i.form i.codeId i.token

/-- No code has two tokens. -/
def State.SingleUse (s : State) : Prop := (s.issued.map fun i ↦ i.form.code).Nodup

/-- An exchange that finds its code valid reads it while no other exchange of the code has
read it as valid and not ended. -/
def ReadsAlone (s256 : String → Option String) (sha256 : String → String) (s : State) :
    Label → Prop
  | .read r rawToken => ∀ q ∈ s.exchanges.get? r, q.phase = .received →
      (readCode s256 sha256 s q.data rawToken).isValidated = true →
      s.exchanges.Alone Phase.isValidated TokenForm.code q
  | _ => True

/-- What every run keeps: numbers of parties and rows are unique, every row was made for an
approval, and every exchange that goes on to commit is granted its token. -/
structure State.Sound (s256 : String → Option String) (s : State) : Prop where
  distinct : s.exchanges.Distinct
  nodup : (s.codes.map OAuthAuthorizationCode.id).Nodup
  ids : ∀ c ∈ s.codes, c.id < s.codes.length
  made : ∀ c ∈ s.codes, ∃ a ∈ s.approvals, a.Made c
  validated : ∀ q ∈ s.exchanges, ∀ codeId token, q.phase = .validated codeId token →
    Grants s256 s q.data codeId token
  granted : s.Granted s256

/-- A later state keeps the approvals, and the code rows but for their flags. -/
structure State.Keeps (s t : State) : Prop where
  codes : ∀ c ∈ s.codes, ∃ c' ∈ t.codes, c'.id = c.id ∧ c'.code = c.code
  approvals : ∀ a ∈ s.approvals, a ∈ t.approvals

section
variable {s256 : String → Option String} {sha256 : String → String} {s t : State}
  {q : Party TokenForm Phase}

theorem Grants.mono {form : TokenForm} {codeId : Nat} {token : OAuthAccessToken}
    (h : Grants s256 s form codeId token) (hst : s.Keeps t) :
    Grants s256 t form codeId token := by
  obtain ⟨⟨c, hc, hid, hcode⟩, a, ha, hrest⟩ := h
  obtain ⟨c', hc', hid', hcode'⟩ := hst.codes c hc
  exact ⟨⟨c', hc', hid'.trans hid, hcode'.trans hcode⟩, a, hst.approvals a ha, hrest⟩

/-- A step that leaves rows, exchanges, approvals and issued tokens as they are. -/
theorem State.Sound.of_same (hs : s.Sound s256) (hcodes : t.codes = s.codes)
    (hexchanges : t.exchanges = s.exchanges) (happrovals : t.approvals = s.approvals)
    (hissued : t.issued = s.issued) : t.Sound s256 := by
  have hkeeps : s.Keeps t := by
    constructor
    · rw [hcodes]
      exact fun c hc ↦ ⟨c, hc, rfl, rfl⟩
    · rw [happrovals]
      exact fun a ha ↦ ha
  constructor
  · rw [hexchanges]
    exact hs.distinct
  · rw [hcodes]
    exact hs.nodup
  · rw [hcodes]
    exact hs.ids
  · rw [hcodes, happrovals]
    exact hs.made
  · rw [hexchanges]
    exact fun q hq codeId token h ↦ (hs.validated q hq codeId token h).mono hkeeps
  · intro i hi
    rw [hissued] at hi
    exact (hs.granted i hi).mono hkeeps

/-- A code passes the checks if it is neither expired nor used, and is of the client, the
redirect URI and the verifier presented with it. -/
theorem validateAuthCode_eq_ok_none {now : Int} {c : OAuthAuthorizationCode}
    {clientId redirectUri codeVerifier : String}
    (h : validateAuthCode s256 now (some c) clientId redirectUri codeVerifier = .ok none) :
    now ≤ c.expiresAt ∧ c.used = false ∧ c.clientId = clientId ∧ c.redirectUri = redirectUri ∧
      s256 codeVerifier = some c.codeChallenge := by
  simp only [validateAuthCode] at h
  split_ifs at h with hexpired hused hclient hredirect
  · simp at h
  · simp at h
  · simp at h
  · simp at h
  · cases hverifier : s256 codeVerifier with
    | none => simp [hverifier] at h
    | some verifierHash =>
      simp only [hverifier] at h
      split_ifs at h with hchallenge
      · simp at h
      · exact ⟨by omega, by simpa using hused, by simpa using hclient, by simpa using hredirect,
          by simpa using hchallenge⟩

/-- A code that is read as valid is that of the row found, which passes the checks. -/
theorem exists_of_readCode {form : TokenForm} {rawToken : String} {codeId : Nat}
    {token : OAuthAccessToken}
    (h : readCode s256 sha256 s form rawToken = .validated codeId token) :
    ∃ c, Rows.oneOrNone (fun c : OAuthAuthorizationCode ↦ c.code = form.code) s.codes =
        .ok (some c) ∧
      c.id = codeId ∧ token = newToken sha256 s.now c form.clientId rawToken ∧
      validateAuthCode s256 s.now (some c) form.clientId form.redirectUri form.codeVerifier =
        .ok none := by
  unfold readCode at h
  split at h
  next => cases h
  next =>
    split at h
    next => cases h
    next authCode hfound =>
      split at h
      next c hvalid =>
        cases h
        exact ⟨c, hfound, rfl, rfl, hvalid⟩
      next => cases h
      next => cases h

private theorem State.Sound.grants_of_readCode (hs : s.Sound s256) {form : TokenForm}
    {rawToken : String} {codeId : Nat} {token : OAuthAccessToken}
    (h : readCode s256 sha256 s form rawToken = .validated codeId token) :
    Grants s256 s form codeId token := by
  obtain ⟨c, hfound, rfl, rfl, hvalid⟩ := exists_of_readCode h
  obtain ⟨hexpires, _, hclient, hredirect, hverifier⟩ := validateAuthCode_eq_ok_none hvalid
  have hmem := Rows.mem_of_oneOrNone hfound
  have hcode : c.code = form.code := by simpa using Rows.prop_of_oneOrNone hfound
  obtain ⟨a, ha, hmade⟩ := hs.made c hmem
  refine ⟨⟨c, hmem, rfl, hcode⟩, a, ha, hmade.codeId, ?_⟩
  constructor
  · rw [hmade.clientId, hclient]
  · rw [hmade.redirectUri, hredirect]
  · rw [hmade.codeChallenge, hverifier]
  · rw [← hmade.expiresAt]
    exact hexpires
  · exact hmade.userId.symm
  · rfl

/-- The rows after a commit are the same but for a flag. -/
theorem keeps_commit (s : State) (q : Party TokenForm Phase) (codeId : Nat)
    (token : OAuthAccessToken) : s.Keeps (commit s q codeId token) where
  codes c hc := by
    refine ⟨_, List.mem_map_of_mem hc, ?_⟩
    split <;> exact ⟨rfl, rfl⟩
  approvals _ ha := ha

theorem State.Sound.commit {codeId : Nat} {token : OAuthAccessToken} (hs : s.Sound s256)
    (hq : q ∈ s.exchanges) (hphase : q.phase = .validated codeId token) :
    (OAuth.commit s q codeId token).Sound s256 := by
  have hkeeps := keeps_commit s q codeId token
  have hids : (OAuth.commit s q codeId token).codes.map OAuthAuthorizationCode.id =
      s.codes.map OAuthAuthorizationCode.id := Rows.map_modify fun _ _ _ ↦ rfl
  have hflag {P : OAuthAuthorizationCode → Prop} (hP : ∀ c, P c → P { c with used := true })
      (h : ∀ c ∈ s.codes, P c) : ∀ c ∈ (OAuth.commit s q codeId token).codes, P c := by
    simp only [OAuth.commit, Rows.forall_modify]
    exact ⟨fun c hc _ ↦ hP c (h c hc), fun c hc _ ↦ h c hc⟩
  constructor
  · exact Parties.distinct_goto hs.distinct
  · rw [hids]
    exact hs.nodup
  · have hlength : (OAuth.commit s q codeId token).codes.length = s.codes.length := by
      simp [OAuth.commit, Rows.modify]
    rw [hlength]
    exact hflag (fun _ h ↦ h) hs.ids
  · apply hflag _ hs.made
    rintro c ⟨a, ha, hmade⟩
    exact ⟨a, ha, ⟨hmade.1, hmade.2, hmade.3, hmade.4, hmade.5, hmade.6⟩⟩
  · simp only [OAuth.commit]
    rw [Parties.forall_goto hs.distinct hq]
    constructor
    · intro codeId token h
      cases h
    · exact fun q' hq' _ codeId token h ↦ (hs.validated q' hq' codeId token h).mono hkeeps
  · intro i hi
    rcases List.mem_append.mp hi with hold | hnew
    · exact (hs.granted i hold).mono hkeeps
    · rw [List.mem_singleton.mp hnew]
      exact (hs.validated q hq codeId token hphase).mono hkeeps

/-- A party that does not go on to commit keeps the invariant; one that does is granted its
token. -/
theorem State.Sound.goto {phase : Phase} (hs : s.Sound s256) (hq : q ∈ s.exchanges)
    (hphase : ∀ codeId token, phase = .validated codeId token → Grants s256 s q.data codeId token) :
    State.Sound s256 { s with exchanges := s.exchanges.goto q.id phase } where
  distinct := Parties.distinct_goto hs.distinct
  nodup := hs.nodup
  ids := hs.ids
  made := hs.made
  validated := by
    rw [Parties.forall_goto hs.distinct hq]
    exact ⟨hphase, fun q' hq' _ codeId token h ↦ hs.validated q' hq' codeId token h⟩
  granted := hs.granted

theorem State.Sound.authorizeDecide (hs : s.Sound s256) (requestId decision : String)
    (userId : Option String) (code : String) :
    (authorizeDecide s requestId decision userId code).Sound s256 := by
  unfold OAuth.authorizeDecide
  split
  next => exact hs
  next request _ =>
    split
    next => exact hs.of_same rfl rfl rfl rfl
    next =>
      split
      next => exact hs.of_same rfl rfl rfl rfl
      next userId _ =>
        constructor
        · exact hs.distinct
        · refine Rows.nodup_map_concat.mpr ⟨hs.nodup, fun c hc ↦ Nat.ne_of_lt (hs.ids c hc)⟩
        · simp only [List.length_append, List.length_singleton]
          refine List.forall_mem_append.mpr ⟨fun c hc ↦ Nat.lt_succ_of_lt (hs.ids c hc), ?_⟩
          simp
        · refine List.forall_mem_append.mpr ⟨fun c hc ↦ ?_, ?_⟩
          · obtain ⟨a, ha, hmade⟩ := hs.made c hc
            exact ⟨a, List.mem_append_left _ ha, hmade⟩
          · intro c hc
            rw [List.mem_singleton.mp hc]
            exact ⟨_, List.mem_append_right _ (List.mem_singleton_self _),
              ⟨rfl, rfl, rfl, rfl, rfl, rfl⟩⟩
        · intro q hq codeId token h
          refine (hs.validated q hq codeId token h).mono ⟨fun c hc ↦ ?_, fun a ha ↦ ?_⟩
          · exact ⟨c, List.mem_append_left _ hc, rfl, rfl⟩
          · exact List.mem_append_left _ ha
        · intro i hi
          refine (hs.granted i hi).mono ⟨fun c hc ↦ ?_, fun a ha ↦ ?_⟩
          · exact ⟨c, List.mem_append_left _ hc, rfl, rfl⟩
          · exact List.mem_append_left _ ha

theorem State.Sound.revokeToken (hs : s.Sound s256) (token : String) :
    (revokeToken sha256 s token).Sound s256 := by
  unfold OAuth.revokeToken
  split
  · exact hs.of_same rfl rfl rfl rfl
  · exact hs

theorem sound_step {l : Label} (hs : s.Sound s256) (h : step s256 sha256 s l = some t) :
    t.Sound s256 := by
  cases l with
  | authorize requestId p =>
    cases h
    unfold OAuth.authorize
    split
    · exact hs
    · exact hs.of_same rfl rfl rfl rfl
  | resume rid =>
    cases h
    exact hs.of_same rfl rfl rfl rfl
  | decide requestId decision userId code =>
    cases h
    exact hs.authorizeDecide ..
  | exchange r form =>
    obtain ⟨exchanges, henter, rfl⟩ := Option.map_eq_some_iff.mp h
    have hdistinct := Parties.distinct_enter hs.distinct henter
    obtain ⟨_, rfl⟩ := Parties.enter_eq_some.mp henter
    refine { hs with distinct := hdistinct, validated := ?_ }
    intro q hq codeId token hphase
    rcases List.mem_cons.mp hq with rfl | hold
    · cases hphase
    · exact hs.validated q hold codeId token hphase
  | read r rawToken =>
    obtain ⟨q, hq, rfl, hnext⟩ := Parties.exists_of_bind hs.distinct h
    obtain ⟨_, hnext⟩ := Option.ite_none_left_eq_some.mp hnext
    cases hnext
    exact hs.goto hq fun _ _ h ↦ hs.grants_of_readCode h
  | commit r =>
    obtain ⟨q, hq, rfl, hnext⟩ := Parties.exists_of_bind hs.distinct h
    split at hnext
    next codeId token hphase =>
      cases hnext
      exact hs.commit hq hphase
    next => cases hnext
  | rollBack r =>
    obtain ⟨q, hq, rfl, hnext⟩ := Parties.exists_of_bind hs.distinct h
    obtain ⟨_, hnext⟩ := Option.ite_none_left_eq_some.mp hnext
    cases hnext
    exact hs.goto hq fun _ _ h ↦ by cases h
  | revoke token =>
    cases h
    exact hs.revokeToken token
  | clock now =>
    cases h
    exact hs.of_same rfl rfl rfl rfl

theorem sound_empty : State.empty.Sound s256 where
  distinct := Parties.distinct_nil
  nodup := List.nodup_nil
  ids c hc := by cases hc
  made c hc := by cases hc
  validated q hq := by cases hq
  granted i hi := by cases hi

/-- The row that an exchange finds for a code, with its flag. -/
def HasRow (s : State) (code : String) (used : Bool) (c : OAuthAuthorizationCode) : Prop :=
  s.codes.find? (·.code = code) = some c ∧ c.used = used

/-- What guarded runs keep: the code of an issued token is used, no two exchanges of a code
are about to commit, and the code of one that is about to is not used. -/
structure State.Single (s : State) : Prop where
  singleUse : s.SingleUse
  issued : ∀ i ∈ s.issued, ∃ c, HasRow s i.form.code true c
  one : s.exchanges.AtMostOne Phase.isValidated TokenForm.code
  validated : ∀ q ∈ s.exchanges, ∀ codeId token, q.phase = .validated codeId token →
    ∃ c, HasRow s q.data.code false c ∧ c.id = codeId

theorem State.Single.of_same (hs : s.Single) (hcodes : t.codes = s.codes)
    (hexchanges : t.exchanges = s.exchanges) (hissued : t.issued = s.issued) : t.Single := by
  obtain ⟨hsingle, hused, hone, hvalidated⟩ := hs
  constructor
  · rwa [State.SingleUse, hissued]
  · simpa only [HasRow, hcodes, hissued] using hused
  · rwa [hexchanges]
  · simpa only [HasRow, hcodes, hexchanges] using hvalidated

/-- A row at the end of the table does not come before the ones there are. -/
theorem HasRow.append {code : String} {used : Bool} {c : OAuthAuthorizationCode}
    (h : HasRow s code used c) {new : List OAuthAuthorizationCode}
    (ht : t.codes = s.codes ++ new) : HasRow t code used c := by
  refine ⟨?_, h.2⟩
  rw [ht, List.find?_append, h.1, Option.some_or]

theorem State.Single.authorizeDecide (hs : s.Single) (requestId decision : String)
    (userId : Option String) (code : String) :
    (authorizeDecide s requestId decision userId code).Single := by
  unfold OAuth.authorizeDecide
  split
  next => exact hs
  next request _ =>
    split
    next => exact hs.of_same rfl rfl rfl
    next =>
      split
      next => exact hs.of_same rfl rfl rfl
      next userId _ =>
        constructor
        · exact hs.singleUse
        · intro i hi
          obtain ⟨c, hc⟩ := hs.issued i hi
          exact ⟨c, hc.append rfl⟩
        · exact hs.one
        · intro q hq codeId token h
          obtain ⟨c, hc, hid⟩ := hs.validated q hq codeId token h
          exact ⟨c, hc.append rfl, hid⟩

/-- An exchange goes on without a code to commit. -/
theorem State.Single.goto {phase : Phase} (hs : s.Single) (hdistinct : s.exchanges.Distinct)
    (hq : q ∈ s.exchanges) (hphase : phase.isValidated = false) :
    State.Single { s with exchanges := s.exchanges.goto q.id phase } where
  singleUse := hs.singleUse
  issued := hs.issued
  one := Parties.atMostOne_goto_outside hdistinct hs.one hq hphase
  validated := by
    rw [Parties.forall_goto hdistinct hq]
    constructor
    · rintro codeId token rfl
      cases hphase
    · exact fun q' hq' _ ↦ hs.validated q' hq'

/-- An exchange reads its code alone. -/
theorem State.Single.read (hs : s.Single) (hdistinct : s.exchanges.Distinct)
    (hq : q ∈ s.exchanges) {rawToken : String}
    (halone : (readCode s256 sha256 s q.data rawToken).isValidated = true →
      s.exchanges.Alone Phase.isValidated TokenForm.code q) :
    State.Single { s with
      exchanges := s.exchanges.goto q.id (readCode s256 sha256 s q.data rawToken) } := by
  cases hphase : (readCode s256 sha256 s q.data rawToken).isValidated with
  | false => exact hs.goto hdistinct hq hphase
  | true =>
    constructor
    · exact hs.singleUse
    · exact hs.issued
    · exact (Parties.atMostOne_goto_inside_iff hdistinct hs.one hq hphase).mpr (halone hphase)
    · rw [Parties.forall_goto hdistinct hq]
      refine ⟨fun codeId token hread ↦ ?_, fun q' hq' _ ↦ hs.validated q' hq'⟩
      obtain ⟨c, hfound, hid, _, hvalid⟩ := exists_of_readCode hread
      refine ⟨c, ⟨?_, (validateAuthCode_eq_ok_none hvalid).2.1⟩, hid⟩
      rw [← List.head?_filter, Rows.oneOrNone_eq_some.mp hfound]
      rfl

/-- A commit sets the flag of its row, and of no other. -/
theorem HasRow.commit {code : String} {used : Bool} {c : OAuthAuthorizationCode}
    (h : HasRow s code used c) (codeId : Nat) (token : OAuthAccessToken) :
    (c.id = codeId → ∃ c', HasRow (OAuth.commit s q codeId token) code true c') ∧
      (c.id ≠ codeId → HasRow (OAuth.commit s q codeId token) code used c) := by
  obtain ⟨hfind, hused⟩ := h
  have hmap : (OAuth.commit s q codeId token).codes.find? (·.code = code) =
      (s.codes.find? (·.code = code)).map fun c ↦
        if c.id = codeId then { c with used := true } else c := by
    simp only [OAuth.commit, Rows.modify, List.find?_map, decide_eq_true_eq]
    congr 2
    funext c
    simp only [Function.comp_apply]
    split <;> rfl
  rw [hfind, Option.map_some] at hmap
  constructor
  · intro hid
    rw [if_pos hid] at hmap
    exact ⟨_, hmap, rfl⟩
  · intro hid
    rw [if_neg hid] at hmap
    exact ⟨hmap, hused⟩

theorem State.Single.commit {codeId : Nat} {token : OAuthAccessToken} (hs : s.Single)
    (hsound : s.Sound s256) (hq : q ∈ s.exchanges)
    (hphase : q.phase = .validated codeId token) : (OAuth.commit s q codeId token).Single := by
  obtain ⟨row, hrow, hid⟩ := hs.validated q hq codeId token hphase
  have hqin : q.phase.isValidated = true := by rw [hphase]; rfl
  have hfresh : ∀ i ∈ s.issued, i.form.code ≠ q.data.code := by
    intro i hi hcode
    obtain ⟨c, hfind, hused⟩ := hs.issued i hi
    rw [hcode, hrow.1, Option.some.injEq] at hfind
    rw [← hfind, hrow.2] at hused
    cases hused
  constructor
  · exact Rows.nodup_map_concat.mpr ⟨hs.singleUse, hfresh⟩
  · intro i hi
    rcases List.mem_append.mp hi with hold | hnew
    · obtain ⟨c, hc⟩ := hs.issued i hold
      by_cases hcid : c.id = codeId
      · exact (hc.commit codeId token).1 hcid
      · exact ⟨c, (hc.commit codeId token).2 hcid⟩
    · rw [List.mem_singleton.mp hnew]
      exact (hrow.commit codeId token).1 hid
  · exact Parties.atMostOne_goto_outside hsound.distinct hs.one hq rfl
  · simp only [OAuth.commit]
    rw [Parties.forall_goto hsound.distinct hq]
    constructor
    · intro codeId token h
      cases h
    · intro q' hq' hne codeId' token' hphase'
      obtain ⟨row', hrow', hid'⟩ := hs.validated q' hq' codeId' token' hphase'
      have hin' : q'.phase.isValidated = true := by rw [hphase']; rfl
      refine ⟨row', (hrow'.commit codeId token).2 fun hsame ↦ ?_, hid'⟩
      -- one row for both exchanges would make their codes one
      have hmem := List.mem_of_find?_eq_some hrow.1
      have hmem' := List.mem_of_find?_eq_some hrow'.1
      have heq := Rows.eq_of_nodup hsound.nodup hmem hmem' (hsame.trans hid.symm)
      have hcode : row.code = q.data.code := by simpa using List.find?_some hrow.1
      have hcode' : row'.code = q'.data.code := by simpa using List.find?_some hrow'.1
      rw [heq, hcode] at hcode'
      exact hne (hs.one q' hq' q hq hin' hqin hcode'.symm)

private theorem single_step {l : Label} (hsound : s.Sound s256) (hs : s.Single)
    (hl : ReadsAlone s256 sha256 s l) (h : step s256 sha256 s l = some t) : t.Single := by
  cases l with
  | authorize requestId p =>
    cases h
    unfold OAuth.authorize
    split
    · exact hs
    · exact hs.of_same rfl rfl rfl
  | resume rid =>
    cases h
    exact hs.of_same rfl rfl rfl
  | decide requestId decision userId code =>
    cases h
    exact hs.authorizeDecide ..
  | exchange r form =>
    obtain ⟨exchanges, henter, rfl⟩ := Option.map_eq_some_iff.mp h
    have hone := Parties.atMostOne_enter hs.one rfl henter
    obtain ⟨_, rfl⟩ := Parties.enter_eq_some.mp henter
    refine { hs with one := hone, validated := ?_ }
    intro q hq codeId token hphase
    rcases List.mem_cons.mp hq with rfl | hold
    · cases hphase
    · exact hs.validated q hold codeId token hphase
  | read r rawToken =>
    obtain ⟨q, hq, rfl, hnext⟩ := Parties.exists_of_bind hsound.distinct h
    obtain ⟨hphase, hnext⟩ := Option.ite_none_left_eq_some.mp hnext
    cases hnext
    have hget := (Parties.get?_eq_some hsound.distinct).mpr ⟨hq, rfl⟩
    exact hs.read hsound.distinct hq (hl q hget (not_not.mp hphase))
  | commit r =>
    obtain ⟨q, hq, rfl, hnext⟩ := Parties.exists_of_bind hsound.distinct h
    split at hnext
    next codeId token hphase =>
      cases hnext
      exact hs.commit hsound hq hphase
    next => cases hnext
  | rollBack r =>
    obtain ⟨q, hq, rfl, hnext⟩ := Parties.exists_of_bind hsound.distinct h
    obtain ⟨_, hnext⟩ := Option.ite_none_left_eq_some.mp hnext
    cases hnext
    exact hs.goto hsound.distinct hq rfl
  | revoke token =>
    cases h
    unfold OAuth.revokeToken
    split
    · exact hs.of_same rfl rfl rfl
    · exact hs
  | clock now =>
    cases h
    exact hs.of_same rfl rfl rfl

private theorem single_empty : State.empty.Single where
  singleUse := List.nodup_nil
  issued i hi := by cases hi
  one := Parties.atMostOne_nil _ _
  validated q hq := by cases hq

/-- In every run of the server, every token was granted by an approval. -/
theorem always_granted (s256 : String → Option String) (sha256 : String → String)
    (ls : List Label) : (server s256 sha256).Always (State.Granted s256) .empty ls :=
  ((server s256 sha256).always_of_invariant (fun _ _ _ hs h ↦ sound_step hs h) ls
    sound_empty).mono _ fun _ hs ↦ hs.granted

/-- In every run every token was granted by an approval; and as long as every exchange reads
a valid code alone, no code has two tokens. -/
theorem always_granted_and_singleUse (s256 : String → Option String) (sha256 : String → String)
    (ls : List Label) :
    (server s256 sha256).Always (State.Granted s256) .empty ls ∧
      ((server s256 sha256).Guarded (ReadsAlone s256 sha256) .empty ls →
        (server s256 sha256).Always State.SingleUse .empty ls) := by
  refine ⟨always_granted s256 sha256 ls, fun h ↦ ?_⟩
  have hinv := (server s256 sha256).always_of_guarded
    (I := fun s ↦ s.Sound s256 ∧ s.Single) (G := ReadsAlone s256 sha256)
    (fun s l t hs hl ht ↦ ⟨sound_step hs.1 ht, single_step hs.1 hs.2 hl ht⟩)
    ⟨sound_empty, single_empty⟩ h
  exact hinv.mono _ fun s hs ↦ hs.2.singleUse

end

section Samples

instance (s : State) : Decidable s.SingleUse := inferInstanceAs (Decidable (List.Nodup _))

instance (s256 : String → Option String) (sha256 : String → String) (s : State) :
    ∀ l, Decidable (ReadsAlone s256 sha256 s l)
  | .read r rawToken =>
    inferInstanceAs (Decidable (∀ q ∈ s.exchanges.get? r, q.phase = .received →
      (readCode s256 sha256 s q.data rawToken).isValidated = true →
      s.exchanges.Alone Phase.isValidated TokenForm.code q))
  | .authorize .. | .resume _ | .decide .. | .exchange .. | .commit _ | .rollBack _ | .revoke _
  | .clock _ => .isTrue trivial

private def params : AuthorizeParams :=
  ⟨some "code", some "client", some "https://client", some "challenge", some "S256", none⟩

private def form : TokenForm :=
  ⟨"authorization_code", "c", "https://client", "challenge", "client"⟩

/-- A code that a user approved, and two requests that present it. -/
private def twoRequests : List Label :=
  [.authorize "q" params, .decide "q" "approve" (some "u") "c", .exchange 0 form,
    .exchange 1 form]

theorem always_granted_and_singleUse_in_turn :
    (server some id).Always (State.Granted some) .empty
        (twoRequests ++ [.read 0 "t", .commit 0, .read 1 "t'"]) ∧
      (server some id).Always State.SingleUse .empty
        (twoRequests ++ [.read 0 "t", .commit 0, .read 1 "t'"]) := by
  obtain ⟨hgranted, hsingle⟩ := always_granted_and_singleUse some id
    (twoRequests ++ [.read 0 "t", .commit 0, .read 1 "t'"])
  exact ⟨hgranted, hsingle (by decide +kernel)⟩

/-- Both requests read the code before one of them commits, and both get a token. -/
theorem not_always_singleUse :
    ¬ (server some id).Always State.SingleUse .empty
      (twoRequests ++ [.read 0 "t", .read 1 "t'", .commit 0, .commit 1]) := by
  decide +kernel

end Samples

end WikiMind.Mcp.OAuth
