import Mathlib.Data.List.TakeWhile
import WikiMind.Base.Base64
import WikiMind.Base.Text
import WikiMind.Base.Utf8

/-!
# Magic link tokens

`services/user.py:249–327`. A token is the base 64 of an email, a timestamp and the base 64 of
their HMAC, with colons between them; nothing of it is stored. `hmac` is the HMAC with SHA-256
of a key and a message. Times are in microseconds, timestamps in whole seconds.
-/

namespace WikiMind.Accounts.MagicLink

open WikiMind.Base

/-- What `int` knows as decimal digits: those of ASCII, and others of Unicode. -/
structure Numerals where
  decimal : Char → Option Nat
  decimal_ascii : ∀ c, c.isDigit = true → decimal c = some (c.toNat - 48)

/-- The digits of a number, which may stand in groups with a `_` between them. -/
def Numerals.nat (numerals : Numerals) (s : List Char) : Option Nat :=
  let groups := s.splitOn '_'
  if groups.all (· ≠ []) then
    (groups.flatten.mapM numerals.decimal).map fun digits ↦ digits.foldl (fun n d ↦ 10 * n + d) 0
  else none

/-- `int` of a text. -/
def Numerals.int (numerals : Numerals) (s : List Char) : Option Int :=
  match strip s with
  | '-' :: rest => (numerals.nat rest).map fun n ↦ -(n : Int)
  | '+' :: rest => (numerals.nat rest).map fun n ↦ (n : Int)
  | rest => (numerals.nat rest).map fun n ↦ (n : Int)

/-- The texts before and behind the last colon. -/
def cutLast (s : List Char) : Option (List Char × List Char) :=
  match s.reverse.dropWhile (· ≠ ':') with
  | [] => none
  | _ :: front => some (front.reverse, (s.reverse.takeWhile (· ≠ ':')).reverse)

/-- `rsplit(":", 2)`, where it gives three parts. -/
def rsplit (s : List Char) : Option (List Char × List Char × List Char) := do
  let (front, third) ← cutLast s
  let (first, second) ← cutLast front
  return (first, second, third)

/-- `int(time.time())`. -/
def wholeSeconds (now : Nat) : Nat := now / 1000000

section Source
variable (hmac : List UInt8 → List UInt8 → List UInt8) (numerals : Numerals) (secret : String)

/-- The bytes that are signed. -/
def payload (email timestamp : List Char) : List UInt8 := encode (email ++ ':' :: timestamp)

def signature (email timestamp : List Char) : List UInt8 :=
  hmac (encode secret.toList) (payload email timestamp)

/-- `create_magic_link_token`: `services/user.py:249`. -/
def createMagicLinkToken (now : Nat) (email : String) : String :=
  let timestamp := Nat.toDigits 10 (wholeSeconds now)
  let tokenBytes := encode
    (email.toList ++ ':' :: (timestamp ++
      ':' :: Base64.encode (signature hmac secret email.toList timestamp)))
  String.ofList (Base64.encode tokenBytes)

/-- `verify_magic_link_token`: `services/user.py:272`. The error is the text of the exception. -/
def verifyMagicLinkToken (ttl : Int) (now : Nat) (token : String) : Except String String :=
  match (Base64.decode token.toList).bind decodeUtf8 with
  | none => .error "Invalid token encoding"
  | some decoded =>
    match rsplit decoded with
    | none => .error "Malformed token"
    | some (email, timestamp, encodedSig) =>
      match Base64.decode encodedSig with
      | none => .error "Invalid signature encoding"
      | some actualSig =>
        if signature hmac secret email timestamp ≠ actualSig then .error "Invalid token signature"
        else
          match numerals.int timestamp with
          | none => .error "Invalid timestamp"
          | some createdAt =>
            if ttl < wholeSeconds now - createdAt then .error "Token has expired"
            else .ok (String.ofList email)

end Source

/-- The email, the timestamp and the signature that a token carries. -/
def carried (token : String) : Option (List Char × List Char × List UInt8) := do
  let (email, timestamp, encodedSig) ←
    rsplit (← (Base64.decode token.toList).bind decodeUtf8)
  return (email, timestamp, ← Base64.decode encodedSig)

/-! ### Cutting at colons -/

/-- A text is cut at a colon that no other follows. -/
theorem cutLast_append {b : List Char} (hb : ':' ∉ b) (a : List Char) :
    cutLast (a ++ ':' :: b) = some (a, b) := by
  have hnone : ∀ c ∈ b.reverse, decide (c ≠ ':') = true := by
    intro c hc
    rw [decide_eq_true_eq]
    rintro rfl
    exact hb (List.mem_reverse.mp hc)
  have hreverse : (a ++ ':' :: b).reverse = b.reverse ++ ':' :: a.reverse := by simp
  unfold cutLast
  rw [hreverse, List.dropWhile_append_of_pos hnone, List.takeWhile_append_of_pos hnone]
  simp

/-- Where a text is cut there is a colon, and none behind it. -/
theorem cutLast_eq_some {s a b : List Char} (h : cutLast s = some (a, b)) :
    s = a ++ ':' :: b ∧ ':' ∉ b := by
  unfold cutLast at h
  have hwhole := List.takeWhile_append_dropWhile (p := fun c ↦ decide (c ≠ ':')) (l := s.reverse)
  cases hrest : s.reverse.dropWhile (· ≠ ':') with
  | nil =>
    rw [hrest] at h
    cases h
  | cons c front =>
    have hc : c = ':' := by
      have hne : s.reverse.dropWhile (· ≠ ':') ≠ [] := by
        rw [hrest]
        exact List.cons_ne_nil c front
      have hstop := List.head_dropWhile_not (fun c ↦ decide (c ≠ ':')) hne
      simpa only [hrest, List.head_cons, decide_eq_false_iff_not, not_not] using hstop
    rw [hrest] at h hwhole
    simp only [Option.some.injEq, Prod.mk.injEq] at h
    obtain ⟨rfl, rfl⟩ := h
    constructor
    · have hreverse := congrArg List.reverse hwhole
      rw [List.reverse_reverse, List.reverse_append, List.reverse_cons, hc, List.append_assoc]
        at hreverse
      exact hreverse.symm
    · intro hmem
      simpa using List.mem_takeWhile_imp (List.mem_reverse.mp hmem)

theorem rsplit_append {email timestamp sig : List Char} (htimestamp : ':' ∉ timestamp)
    (hsig : ':' ∉ sig) :
    rsplit (email ++ ':' :: (timestamp ++ ':' :: sig)) = some (email, timestamp, sig) := by
  have hassoc : email ++ ':' :: (timestamp ++ ':' :: sig) =
      (email ++ ':' :: timestamp) ++ ':' :: sig := by simp
  unfold rsplit
  rw [hassoc, cutLast_append hsig]
  simp only [Option.pure_def, Option.bind_eq_bind, Option.bind_some]
  rw [cutLast_append htimestamp]
  rfl

/-- The second part of a split text has no colon. -/
theorem not_mem_of_rsplit {s email timestamp sig : List Char}
    (h : rsplit s = some (email, timestamp, sig)) : ':' ∉ timestamp := by
  unfold rsplit at h
  simp only [Option.pure_def, Option.bind_eq_bind] at h
  obtain ⟨⟨front, third⟩, hfront, h⟩ := Option.bind_eq_some_iff.mp h
  obtain ⟨⟨first, second⟩, hfirst, h⟩ := Option.bind_eq_some_iff.mp h
  simp only [Option.some.injEq, Prod.mk.injEq] at h
  obtain ⟨rfl, rfl, rfl⟩ := h
  exact (cutLast_eq_some hfirst).2

/-- The payload determines the email and the timestamp. -/
theorem payload_injective {email email' timestamp timestamp' : List Char}
    (h : payload email timestamp = payload email' timestamp') (htimestamp : ':' ∉ timestamp)
    (htimestamp' : ':' ∉ timestamp') : email = email' ∧ timestamp = timestamp' := by
  have hcut := congrArg cutLast (encode_injective h)
  rw [cutLast_append htimestamp, cutLast_append htimestamp', Option.some.injEq,
    Prod.mk.injEq] at hcut
  exact hcut

/-! ### Timestamps -/

/-- The digits of a number are no white space, sign, separator or colon. -/
theorem digit_of_mem_toDigits {c : Char} {n : Nat} (h : c ∈ Nat.toDigits 10 n) :
    c.isDigit = true ∧ isSpace c = false ∧ c ∉ ['-', '+', '_', ':'] := by
  have hdigit := Nat.isDigit_of_mem_toDigits (by decide) (by decide) h
  refine ⟨hdigit, ?_, ?_⟩
  · have hrange : 48 ≤ c.toNat ∧ c.toNat ≤ 57 := by
      simp only [Char.isDigit, Bool.and_eq_true, decide_eq_true_eq, ge_iff_le,
        UInt32.le_iff_toNat_le] at hdigit
      exact hdigit
    simp only [isSpace, Bool.or_eq_false_iff, Bool.and_eq_false_iff, decide_eq_false_iff_not]
    omega
  · intro hmem
    simp only [List.mem_cons, List.not_mem_nil, or_false] at hmem
    rcases hmem with rfl | rfl | rfl | rfl <;> exact absurd hdigit (by decide)

private theorem strip_toDigits (n : Nat) : strip (Nat.toDigits 10 n) = Nat.toDigits 10 n := by
  have hnone : ∀ c ∈ Nat.toDigits 10 n, isSpace c = false :=
    fun c hc ↦ (digit_of_mem_toDigits hc).2.1
  have hfront : (Nat.toDigits 10 n).dropWhile isSpace = Nat.toDigits 10 n := by
    rw [List.dropWhile_eq_self_iff]
    intro hlength
    simp [hnone _ (List.getElem_mem hlength)]
  rw [strip, hfront, List.rdropWhile_eq_self_iff]
  intro hne
  simp [hnone _ (List.getLast_mem hne)]

private theorem mapM_eq_some {α β : Type} {f : α → Option β} {g : α → β} {xs : List α}
    (h : ∀ x ∈ xs, f x = some (g x)) : xs.mapM f = some (xs.map g) := by
  induction xs with
  | nil => rfl
  | cons x xs ih =>
    rw [List.mapM_cons, h x (List.mem_cons_self ..),
      ih fun y hy ↦ h y (List.mem_cons_of_mem x hy)]
    rfl

/-- A number is read back from its digits. -/
theorem int_toDigits (numerals : Numerals) (n : Nat) :
    numerals.int (Nat.toDigits 10 n) = some (n : Int) := by
  have hnat : numerals.nat (Nat.toDigits 10 n) = some n := by
    have hgroup : (Nat.toDigits 10 n).splitOn '_' = [Nat.toDigits 10 n] :=
      List.splitOn_eq_singleton fun h ↦ (digit_of_mem_toDigits h).2.2 (by decide)
    have hdigits : (Nat.toDigits 10 n).mapM numerals.decimal =
        some ((Nat.toDigits 10 n).map fun c ↦ c.toNat - 48) :=
      mapM_eq_some fun c hc ↦ numerals.decimal_ascii c (digit_of_mem_toDigits hc).1
    have hvalue : ((Nat.toDigits 10 n).map fun c ↦ c.toNat - 48).foldl (fun n d ↦ 10 * n + d) 0 =
        n := by
      rw [List.foldl_map]
      exact Nat.ofDigitChars_ten_toDigits
    unfold Numerals.nat
    rw [hgroup]
    simp [Nat.toDigits_ne_nil, hdigits, hvalue]
  unfold Numerals.int
  rw [strip_toDigits]
  split
  next rest hrest =>
    exact absurd ((digit_of_mem_toDigits (n := n) (c := '-') (by rw [hrest]; simp)).2.2) (by decide)
  next rest hrest =>
    exact absurd ((digit_of_mem_toDigits (n := n) (c := '+') (by rw [hrest]; simp)).2.2) (by decide)
  next => rw [hnat]; rfl

section
variable (hmac : List UInt8 → List UInt8 → List UInt8) (numerals : Numerals) (secret : String)

/-- The number of whole seconds in a token is at most so many seconds ago. -/
def IsCurrent (ttl : Int) (now : Nat) (createdAt : Int) : Prop :=
  wholeSeconds now - createdAt ≤ ttl

/-- What a new token carries. -/
theorem carried_createMagicLinkToken (now : Nat) (email : String) :
    carried (createMagicLinkToken hmac secret now email) =
      some (email.toList, Nat.toDigits 10 (wholeSeconds now),
        signature hmac secret email.toList (Nat.toDigits 10 (wholeSeconds now))) := by
  have htimestamp : ':' ∉ Nat.toDigits 10 (wholeSeconds now) :=
    fun h ↦ (digit_of_mem_toDigits h).2.2 (by decide)
  unfold carried createMagicLinkToken
  simp only [String.toList_ofList, Base64.decode_encode, Option.bind_some, decodeUtf8_encode,
    Option.bind_eq_bind, Option.pure_def]
  rw [rsplit_append htimestamp (Base64.colon_not_mem_encode _)]
  simp only [Option.bind_some, Base64.decode_encode]

/-- A token is accepted exactly for the email it carries, if it carries the signature of that
and its timestamp, and the timestamp is current. -/
theorem verifyMagicLinkToken_eq_ok {ttl : Int} {now : Nat} {token email : String} :
    verifyMagicLinkToken hmac numerals secret ttl now token = .ok email ↔
      ∃ timestamp createdAt,
        carried token = some (email.toList, timestamp,
          signature hmac secret email.toList timestamp) ∧
        numerals.int timestamp = some createdAt ∧ IsCurrent ttl now createdAt := by
  unfold verifyMagicLinkToken carried IsCurrent
  cases hdecoded : (Base64.decode token.toList).bind decodeUtf8 with
  | none => simp
  | some decoded =>
    cases hsplit : rsplit decoded with
    | none => simp [hsplit]
    | some parts =>
      obtain ⟨carriedEmail, carriedTimestamp, encodedSig⟩ := parts
      cases hsig : Base64.decode encodedSig with
      | none => simp [hsplit, hsig]
      | some actualSig =>
        simp only [Option.bind_eq_bind, Option.bind_some, hsplit, hsig, Option.pure_def,
          Option.some.injEq, Prod.mk.injEq]
        constructor
        · intro h
          split at h
          · cases h
          next hsame =>
            split at h
            · cases h
            next createdAt hint =>
              split at h
              · cases h
              next hcurrent =>
                cases h
                rw [String.toList_ofList]
                exact ⟨carriedTimestamp, createdAt, ⟨rfl, rfl, (not_not.mp hsame).symm⟩, hint,
                  not_lt.mp hcurrent⟩
        · rintro ⟨timestamp, createdAt, ⟨rfl, rfl, rfl⟩, hint, hcurrent⟩
          rw [if_neg (not_not.mpr rfl), hint]
          simp only
          rw [if_neg (not_lt.mpr hcurrent), String.ofList_toList]

/-- A new token is accepted for its email as long as its timestamp is current, and is expired
from then on. -/
theorem verify_create (ttl : Int) (created now : Nat) (email : String) :
    verifyMagicLinkToken hmac numerals secret ttl now
        (createMagicLinkToken hmac secret created email) =
      if ttl < wholeSeconds now - (wholeSeconds created : Int) then .error "Token has expired"
      else .ok email := by
  have htimestamp : ':' ∉ Nat.toDigits 10 (wholeSeconds created) :=
    fun h ↦ (digit_of_mem_toDigits h).2.2 (by decide)
  unfold verifyMagicLinkToken createMagicLinkToken
  simp only [String.toList_ofList, Base64.decode_encode, Option.bind_some, decodeUtf8_encode]
  rw [rsplit_append htimestamp (Base64.colon_not_mem_encode _)]
  simp only [Base64.decode_encode, int_toDigits, ne_eq, not_true, if_false, String.ofList_toList]

/-- The signature a token carries was made with the secret: for one of the tokens created, given
by their emails and times, or for another message, none of which has a colon. -/
def Unforged (created : List (String × Nat)) (others : List (List UInt8)) (token : String) :
    Prop :=
  ∀ email timestamp sig, carried token = some (email, timestamp, sig) →
    (∃ c ∈ created, sig = signature hmac secret c.1.toList (Nat.toDigits 10 (wholeSeconds c.2))) ∨
      ∃ message ∈ others, sig = hmac (encode secret.toList) message

private theorem colon_mem_payload (email timestamp : List Char) : 58 ∈ payload email timestamp := by
  unfold payload
  rw [encode_append, encode_cons, List.mem_append, List.mem_append]
  right
  left
  decide

/-- A token that is accepted and not forged was made for its email and timestamp. -/
theorem exists_created_of_ok {ttl : Int} {now : Nat} {token email : String}
    (hok : verifyMagicLinkToken hmac numerals secret ttl now token = .ok email)
    (hinjective : Function.Injective (hmac (encode secret.toList)))
    {created : List (String × Nat)} {others : List (List UInt8)}
    (hothers : ∀ message ∈ others, 58 ∉ message)
    (hunforged : Unforged hmac secret created others token) :
    ∃ c ∈ created, c.1 = email ∧ IsCurrent ttl now (wholeSeconds c.2) := by
  obtain ⟨timestamp, createdAt, hcarried, hint, hcurrent⟩ :=
    (verifyMagicLinkToken_eq_ok hmac numerals secret).mp hok
  obtain ⟨c, hc, hsig⟩ | ⟨message, hmessage, hsig⟩ := hunforged _ _ _ hcarried
  · have hcolon : ':' ∉ timestamp := by
      unfold carried at hcarried
      simp only [Option.bind_eq_bind, Option.pure_def] at hcarried
      obtain ⟨decoded, -, hcarried⟩ := Option.bind_eq_some_iff.mp hcarried
      obtain ⟨⟨e, t, es⟩, hsplit, hcarried⟩ := Option.bind_eq_some_iff.mp hcarried
      obtain ⟨actualSig, -, hcarried⟩ := Option.bind_eq_some_iff.mp hcarried
      simp only [Option.some.injEq, Prod.mk.injEq] at hcarried
      rw [← hcarried.2.1]
      exact not_mem_of_rsplit hsplit
    obtain ⟨hemail, rfl⟩ := payload_injective (hinjective hsig) hcolon
      fun h ↦ (digit_of_mem_toDigits h).2.2 (by decide)
    rw [int_toDigits, Option.some.injEq] at hint
    refine ⟨c, hc, String.toList_inj.mp hemail.symm, ?_⟩
    rw [hint]
    exact hcurrent
  · have hpayload := hinjective hsig
    refine absurd (colon_mem_payload email.toList timestamp) ?_
    rw [hpayload]
    exact hothers message hmessage

private theorem isCurrent_of_le {ttl : Int} {created now : Nat}
    (h : (now : Int) - created ≤ ttl * 1000000) : IsCurrent ttl now (wholeSeconds created) := by
  unfold IsCurrent wholeSeconds
  omega

/-- A token gives its email back until the time to live has passed, and is expired when more
whole seconds than that lie between the timestamps. Whatever token is accepted carries the
signature of the email it gives and of the timestamp that is current; so if signatures are
those of one message each and it is not forged, it was made for that email. -/
theorem magic_link_tokens (ttl : Int) :
    (∀ (created now : Nat) (email : String),
      ((now : Int) - created ≤ ttl * 1000000 →
        verifyMagicLinkToken hmac numerals secret ttl now
          (createMagicLinkToken hmac secret created email) = .ok email) ∧
      (ttl < wholeSeconds now - (wholeSeconds created : Int) →
        verifyMagicLinkToken hmac numerals secret ttl now
          (createMagicLinkToken hmac secret created email) = .error "Token has expired")) ∧
    ∀ (now : Nat) (token email : String),
      verifyMagicLinkToken hmac numerals secret ttl now token = .ok email →
      (∃ timestamp createdAt,
        carried token = some (email.toList, timestamp,
          hmac (encode secret.toList) (encode (email.toList ++ ':' :: timestamp))) ∧
        numerals.int timestamp = some createdAt ∧ IsCurrent ttl now createdAt) ∧
      ∀ created others, Function.Injective (hmac (encode secret.toList)) →
        (∀ message ∈ others, 58 ∉ message) → Unforged hmac secret created others token →
        ∃ c ∈ created, c.1 = email ∧ IsCurrent ttl now (wholeSeconds c.2) := by
  refine ⟨fun created now email ↦ ⟨fun hcurrent ↦ ?_, fun hexpired ↦ ?_⟩, fun now token email hok ↦
    ⟨(verifyMagicLinkToken_eq_ok hmac numerals secret).mp hok, ?_⟩⟩
  · rw [verify_create, if_neg (not_lt.mpr (isCurrent_of_le hcurrent))]
  · rw [verify_create, if_pos hexpired]
  · intro created others hinjective hothers hunforged
    exact exists_created_of_ok hmac numerals secret hok hinjective hothers hunforged

end

private theorem decimal_ascii_self (c : Char) (h : c.isDigit = true) :
    (if c.isDigit then some (c.toNat - 48) else none) = some (c.toNat - 48) := if_pos h

/-- The digits of ASCII. -/
def asciiNumerals : Numerals :=
  ⟨fun c ↦ if c.isDigit then some (c.toNat - 48) else none, decimal_ascii_self⟩

/-- A token made at 0.9 s is accepted at 600.95 s, though its ten minutes have passed. -/
theorem accepted_after_ttl :
    let token := createMagicLinkToken (· ++ ·) "key" 900000 "a@b.example"
    verifyMagicLinkToken (· ++ ·) asciiNumerals "key" 600 600950000 token = .ok "a@b.example" ∧
      600 * 1000000 < (600950000 : Int) - 900000 := by
  refine ⟨?_, by decide⟩
  rw [verify_create]
  rfl

end WikiMind.Accounts.MagicLink
