import WikiMind.Accounts.MagicLink
import WikiMind.Base.Hex
import WikiMind.Base.Rows

/-!
# OAuth states

`api/routes/auth.py:57–110`. The state of a login is the base 64 of a provider, a timestamp and
the hexadecimal HMAC of both, with colons between them. It is signed with the secret of the
magic link tokens, by the HMAC with SHA-384. Texts are compared by `compare_digest`, which
raises on characters that are not ASCII.
-/

namespace WikiMind.Accounts.OAuthState

open WikiMind.Base WikiMind.Accounts.MagicLink

/-- `hexdigest`, of the bytes of a digest. -/
def hexdigest (bytes : List UInt8) : List Char :=
  bytes.flatMap fun b ↦ [Hex.hexDigit (b.toNat / 16), Hex.hexDigit (b.toNat % 16)]

/-- `hmac.compare_digest` of texts. -/
def compareDigest (a b : List Char) : Except Exc Bool :=
  if (a ++ b).any (127 < ·.toNat) then .error .typeError else .ok (a = b)

section Source
variable (hmac : List UInt8 → List UInt8 → List UInt8) (numerals : Numerals) (secret : String)

/-- The hexadecimal signature of a provider and a timestamp. -/
def stateSignature (provider timestamp : List Char) : List Char :=
  hexdigest (signature hmac secret provider timestamp)

/-- `_generate_oauth_state`: `api/routes/auth.py:57`. -/
def generateOauthState (now : Nat) (provider : String) : String :=
  let timestamp := Nat.toDigits 10 (wholeSeconds now)
  let raw := provider.toList ++ ':' :: (timestamp ++
    ':' :: stateSignature hmac secret provider.toList timestamp)
  String.ofList (Base64.encode (encode raw))

/-- `_consume_oauth_state`: `api/routes/auth.py:70`. -/
def consumeOauthState (ttl : Int) (now : Nat) (state : String) : Except Exc (Option String) :=
  match (Base64.decode state.toList).bind decodeUtf8 with
  | none => .ok none
  | some raw =>
    match rsplit raw with
    | none => .ok none
    | some (provider, timestamp, sig) =>
      match numerals.int timestamp with
      | none => .ok none
      | some ts => do
        if !(← compareDigest sig (stateSignature hmac secret provider timestamp)) then return none
        if (ttl + ts) * 1000000 < now then return none
        return some (String.ofList provider)

end Source

/-! ### Hexadecimal digests -/

private theorem mem_hexdigest {c : Char} {bytes : List UInt8} (h : c ∈ hexdigest bytes) :
    ∃ n < 16, c = Hex.hexDigit n := by
  obtain ⟨b, -, hc⟩ := List.mem_flatMap.mp h
  have hb : b.toNat < 256 := b.toNat_lt_size
  simp only [List.mem_cons, List.not_mem_nil, or_false] at hc
  rcases hc with rfl | rfl
  · exact ⟨b.toNat / 16, by omega, rfl⟩
  · exact ⟨b.toNat % 16, by omega, rfl⟩

/-- A hexadecimal digit is a character of base 64 and no colon. -/
theorem hexDigit_cases : ∀ n < 16, (Hex.hexDigit n).toNat ≤ 127 ∧
    Hex.hexDigit n ≠ ':' ∧ Hex.hexDigit n ≠ '=' ∧
    (Base64.value (Hex.hexDigit n)).isSome = true := by
  decide

private theorem colon_not_mem_hexdigest (bytes : List UInt8) : ':' ∉ hexdigest bytes := by
  intro h
  obtain ⟨n, hn, hc⟩ := mem_hexdigest h
  exact (hexDigit_cases n hn).2.1 hc.symm

private theorem length_hexdigest (bytes : List UInt8) :
    (hexdigest bytes).length = 2 * bytes.length := by
  unfold hexdigest
  induction bytes with
  | nil => rfl
  | cons b bytes ih =>
    rw [List.flatMap_cons, List.length_append, ih]
    simp only [List.length_cons, List.length_nil]
    omega

/-- A hexadecimal digest read as base 64 has one and a half times its bytes. -/
theorem length_decode_hexdigest {bytes sig : List UInt8}
    (h : Base64.decode (hexdigest bytes) = some sig) : 2 * sig.length = 3 * bytes.length := by
  have hlength := Base64.length_decodeFrom (by omega) (fun c hc ↦ ?_) h
  · rw [length_hexdigest] at hlength
    omega
  · obtain ⟨n, hn, rfl⟩ := mem_hexdigest hc
    exact (hexDigit_cases n hn).2.2

private theorem compareDigest_hexdigest (bytes : List UInt8) :
    compareDigest (hexdigest bytes) (hexdigest bytes) = .ok true := by
  have hascii : ¬ (hexdigest bytes ++ hexdigest bytes).any (127 < ·.toNat) = true := by
    intro hany
    obtain ⟨c, hc, hlarge⟩ := List.any_eq_true.mp hany
    rw [List.mem_append, or_self] at hc
    obtain ⟨n, hn, rfl⟩ := mem_hexdigest hc
    have hsmall := (hexDigit_cases n hn).1
    simp only [decide_eq_true_eq] at hlarge
    omega
  unfold compareDigest
  rw [if_neg hascii]
  simp

private theorem eq_of_compareDigest {a b : List Char} (h : compareDigest a b = .ok true) :
    a = b := by
  unfold compareDigest at h
  split at h
  · cases h
  · simpa using h

section
variable (hmac : List UInt8 → List UInt8 → List UInt8) (numerals : Numerals) (secret : String)

/-- A state is accepted exactly for the provider it carries, if it carries the signature of that
and its timestamp, and its time to live has not passed. -/
theorem consumeOauthState_eq_some {ttl : Int} {now : Nat} {state provider : String} :
    consumeOauthState hmac numerals secret ttl now state = .ok (some provider) ↔
      ∃ timestamp ts,
        ((Base64.decode state.toList).bind decodeUtf8).bind rsplit = some (provider.toList,
          timestamp, stateSignature hmac secret provider.toList timestamp) ∧
        numerals.int timestamp = some ts ∧ (now : Int) ≤ (ttl + ts) * 1000000 := by
  unfold consumeOauthState
  cases hdecoded : (Base64.decode state.toList).bind decodeUtf8 with
  | none => simp
  | some raw =>
    cases hsplit : rsplit raw with
    | none => simp [hsplit]
    | some parts =>
      obtain ⟨carriedProvider, timestamp, sig⟩ := parts
      cases hint : numerals.int timestamp with
      | none =>
        simp only [Option.bind_some, hsplit, hint, Option.some.injEq, Prod.mk.injEq,
          Except.ok.injEq, reduceCtorEq, false_iff]
        rintro ⟨timestamp', ts, ⟨-, rfl, -⟩, hsome, -⟩
        rw [hint] at hsome
        cases hsome
      | some ts =>
        simp only [Option.bind_some, hsplit, hint, Option.some.injEq, Prod.mk.injEq]
        constructor
        · intro h
          obtain ⟨same, hsame, h⟩ := bind_eq_ok.mp h
          cases same with
          | false => cases h
          | true =>
            simp only [Bool.not_true, Bool.false_eq_true, if_false] at h
            by_cases hlate : (ttl + ts) * 1000000 < (now : Int)
            · rw [if_pos hlate] at h
              cases h
            · rw [if_neg hlate] at h
              cases h
              rw [String.toList_ofList]
              exact ⟨timestamp, ts, ⟨rfl, rfl, eq_of_compareDigest hsame⟩, hint, by omega⟩
        · rintro ⟨timestamp', ts', ⟨rfl, rfl, rfl⟩, hint', hcurrent⟩
          rw [hint, Option.some.injEq] at hint'
          subst hint'
          rw [stateSignature, compareDigest_hexdigest]
          simp only [bind, Except.bind, Bool.not_true, Bool.false_eq_true, if_false,
            if_neg (not_lt.mpr hcurrent)]
          rw [String.ofList_toList]
          rfl

/-- A new state gives its provider back until its time to live has passed, and nothing from
then on. Whatever state is accepted carries the signature of the provider it gives and of a
timestamp whose time to live has not passed. -/
theorem oauth_states (ttl : Int) :
    (∀ (created now : Nat) (provider : String),
      consumeOauthState hmac numerals secret ttl now
          (generateOauthState hmac secret created provider) =
        .ok (if (ttl + wholeSeconds created) * 1000000 < now then none else some provider)) ∧
    ∀ (now : Nat) (state provider : String),
      consumeOauthState hmac numerals secret ttl now state = .ok (some provider) ↔
        ∃ timestamp ts,
          ((Base64.decode state.toList).bind decodeUtf8).bind rsplit = some (provider.toList,
            timestamp, stateSignature hmac secret provider.toList timestamp) ∧
          numerals.int timestamp = some ts ∧ (now : Int) ≤ (ttl + ts) * 1000000 := by
  refine ⟨fun created now provider ↦ ?_, fun now state provider ↦
    consumeOauthState_eq_some hmac numerals secret⟩
  have htimestamp : ':' ∉ Nat.toDigits 10 (wholeSeconds created) :=
    fun h ↦ (digit_of_mem_toDigits h).2.2 (by decide)
  have hsig : ':' ∉ stateSignature hmac secret provider.toList
      (Nat.toDigits 10 (wholeSeconds created)) := colon_not_mem_hexdigest _
  unfold consumeOauthState generateOauthState
  simp only [String.toList_ofList, Base64.decode_encode, Option.bind_some, decodeUtf8_encode]
  rw [rsplit_append htimestamp hsig]
  simp only [int_toDigits, stateSignature, compareDigest_hexdigest, bind, Except.bind,
    Bool.not_true, Bool.false_eq_true, if_false, String.ofList_toList]
  split
  · rfl
  · rfl

end

/-- The secret signs states and magic link tokens, but no text is both: with digests of the
lengths of SHA-256 and SHA-384 no text is accepted as a magic link token and as a state. -/
theorem not_token_and_state {hmac256 hmac384 : List UInt8 → List UInt8 → List UInt8}
    (h256 : ∀ key message, (hmac256 key message).length = 32)
    (h384 : ∀ key message, (hmac384 key message).length = 48) (numerals : Numerals)
    (secret : String) (tokenTtl stateTtl : Int) (tokenNow stateNow : Nat)
    (text email provider : String) :
    ¬ (verifyMagicLinkToken hmac256 numerals secret tokenTtl tokenNow text = .ok email ∧
      consumeOauthState hmac384 numerals secret stateTtl stateNow text = .ok (some provider)) := by
  rintro ⟨htoken, hstate⟩
  obtain ⟨timestamp, createdAt, hcarried, -, -⟩ :=
    (verifyMagicLinkToken_eq_ok hmac256 numerals secret).mp htoken
  obtain ⟨timestamp', ts, hraw, -, -⟩ :=
    (consumeOauthState_eq_some hmac384 numerals secret).mp hstate
  obtain ⟨decoded, hdecoded, hsplit⟩ := Option.bind_eq_some_iff.mp hraw
  unfold MagicLink.carried at hcarried
  simp only [hdecoded, hsplit, Option.bind_eq_bind, Option.bind_some, Option.pure_def]
    at hcarried
  obtain ⟨sig, hsig, hparts⟩ := Option.bind_eq_some_iff.mp hcarried
  simp only [Option.some.injEq, Prod.mk.injEq] at hparts
  obtain ⟨-, -, rfl⟩ := hparts
  have hlength := length_decode_hexdigest hsig
  unfold signature at hlength
  rw [h256, h384] at hlength
  omega

/-- A state of a login is no magic link token. -/
theorem google_not_token_and_state :
    let hmac256 : List UInt8 → List UInt8 → List UInt8 := fun _ _ ↦ List.replicate 32 0
    let hmac384 : List UInt8 → List UInt8 → List UInt8 := fun _ _ ↦ List.replicate 48 0
    let text := generateOauthState hmac384 "key" 0 "google"
    ¬ (verifyMagicLinkToken hmac256 asciiNumerals "key" 600 0 text = .ok "google" ∧
      consumeOauthState hmac384 asciiNumerals "key" 600 0 text = .ok (some "google")) :=
  not_token_and_state (fun _ _ ↦ rfl) (fun _ _ ↦ rfl) asciiNumerals "key" 600 600 0 0 _ "google"
    "google"

end WikiMind.Accounts.OAuthState
