import Mathlib.Data.List.Basic

set_option autoImplicit false

/-! # The second factor

`MfaService` on the row of one user: the setup and the confirmation of an authenticator, its codes, and the
recovery codes. -/

namespace Rubrica.Mfa

/-! ## State -/

/-- A row of `mfa_recovery_codes`. -/
structure RecoveryCode where
  id : Nat
  codeHash : String
  consumedAt : Option Int
  deletedAt : Option Int
  deriving DecidableEq, Repr

/-- The columns of a user that the service reads, with the recovery codes and the recorded events of the user. A
    ciphertext is not empty. -/
structure SecondFactor where
  passwordHash : String
  isActive : Bool
  emailVerified : Bool
  mfaEnabled : Bool
  mfaSecretCiphertext : Option String
  mfaPendingSecretCiphertext : Option String
  mfaLastUsedStep : Option Int
  recoveryCodes : List RecoveryCode
  securityEvents : List String
  deriving DecidableEq, Repr

/-- What the libraries compute. -/
structure MfaHost where
  /-- `decrypt_secret`. -/
  decryptSecret : String → String
  /-- `pyotp.TOTP(secret).generate_otp`, of a time step. -/
  generateOtp : String → Int → String
  /-- `unicodedata.normalize("NFKC", text)`. -/
  nfkc : String → String
  upper : String → String
  verifyPassword : String → String → Bool

/-- A code as it is presented. The library reads the clock to verify it, and the service once more after that. -/
structure Presented where
  code : String
  verifiedAt : Int
  stampedAt : Int
  deriving DecidableEq, Repr

/-- Eight new recovery codes: identifiers and hashes. -/
structure RecoverySet where
  codes : List (Nat × String)
  eight : codes.length = 8

/-! ## Operations -/

/-- `TOTP.timecode`, of a time in seconds. -/
def timecode (t : Int) : Int :=
  t / 30

section Operations

variable (h : MfaHost) (s : SecondFactor)

/-- `pyotp.TOTP(secret).verify(code, valid_window=1)`. -/
def verifyTotp (secret code : String) (t : Int) : Bool :=
  [timecode t - 1, timecode t, timecode t + 1].any fun step => h.nfkc code = h.nfkc (h.generateOtp secret step)

/-- `code.replace("-", "").replace(" ", "").upper()`. -/
def normalizeCode (code : String) : String :=
  h.upper (String.ofList (code.toList.filter fun c => c ≠ '-' && c ≠ ' '))

/-- `code.replace(" ", "")`. -/
def confirmCode (code : String) : String :=
  String.ofList (code.toList.filter fun c => c ≠ ' ')

/-- The recovery code can still be used. -/
def RecoveryCode.isValid (r : RecoveryCode) : Bool :=
  r.consumedAt.isNone && r.deletedAt.isNone

/-- The loop over the recovery codes: the first one that the text matches is consumed. -/
def consumeRecovery (normalized : String) (now : Int) : List RecoveryCode → Option (List RecoveryCode)
  | [] => none
  | recovery :: rest =>
    if recovery.isValid && h.verifyPassword normalized recovery.codeHash then
      some ({ recovery with consumedAt := some now } :: rest)
    else (consumeRecovery normalized now rest).map (recovery :: ·)

/-- The part of `verify_user_code` about recovery codes. -/
def verifyRecovery (normalized : String) (now : Int) : Bool × SecondFactor :=
  match consumeRecovery h normalized now s.recoveryCodes with
  | some codes => (true, { s with recoveryCodes := codes })
  | none => (false, s)

/-- The secret that the user's authenticator has, and its code is one of now. -/
def matchesSecret (ciphertext : Option String) (code : String) (t : Int) : Bool :=
  ciphertext.any fun c => verifyTotp h (h.decryptSecret c) code t

/-- `verify_user_code`. -/
def verifyUserCode (p : Presented) : Bool × SecondFactor :=
  let normalized := normalizeCode h p.code
  if matchesSecret h s.mfaSecretCiphertext normalized p.verifiedAt then
    let step := timecode p.stampedAt
    if s.mfaLastUsedStep.any fun last => step ≤ last then (false, s)
    else (true, { s with mfaLastUsedStep := some step })
  else verifyRecovery h s normalized p.stampedAt

def SecondFactor.record (action : String) : SecondFactor :=
  { s with securityEvents := s.securityEvents ++ [action] }

/-- The old recovery codes are deleted, and new ones take their place. -/
def SecondFactor.replaceRecovery (fresh : RecoverySet) : SecondFactor :=
  { s with recoveryCodes := fresh.codes.map fun x => ⟨x.1, x.2, none, none⟩ }

/-- `setup`, with the ciphertext of a secret that was drawn. -/
def setup (ciphertext : String) : SecondFactor :=
  SecondFactor.record { s with mfaPendingSecretCiphertext := some ciphertext } "mfa.setup_started"

/-- `confirm`; an error is the message of `MfaError`. -/
def confirm (p : Presented) (fresh : RecoverySet) : Except String SecondFactor :=
  match s.mfaPendingSecretCiphertext with
  | none => .error "MFA setup has not been started"
  | some ciphertext =>
    if ¬verifyTotp h (h.decryptSecret ciphertext) (confirmCode p.code) p.verifiedAt then
      .error "MFA code is invalid"
    else
      let user : SecondFactor := {
        s with
        mfaSecretCiphertext := some ciphertext
        mfaPendingSecretCiphertext := none
        mfaEnabled := true
        mfaLastUsedStep := some (timecode p.stampedAt) }
      .ok ((user.replaceRecovery fresh).record "mfa.enabled")

/-- `regenerate_recovery_codes`. -/
def regenerateRecoveryCodes (password : String) (p : Presented) (fresh : RecoverySet) :
    Except String SecondFactor :=
  if ¬h.verifyPassword password s.passwordHash then .error "Password is invalid"
  else if ¬s.mfaEnabled ∨ ¬(verifyUserCode h s p).1 then .error "MFA code is invalid"
  else .ok (((verifyUserCode h s p).2.replaceRecovery fresh).record "mfa.recovery_codes_regenerated")

/-- `disable`. -/
def disable : Except String SecondFactor :=
  .error "MFA is required for every account"

/-- The transaction of `complete_mfa_challenge`: whether the code is accepted. -/
def completeChallenge (p : Presented) : Bool × SecondFactor :=
  if ¬s.isActive ∨ ¬s.emailVerified ∨ ¬s.mfaEnabled then (false, s)
  else if ¬(verifyUserCode h s p).1 then (false, (verifyUserCode h s p).2.record "mfa.challenge_failed")
  else (true, (verifyUserCode h s p).2.record "mfa.challenge_succeeded")

end Operations

/-! ## Codes of the authenticator -/

section Totp

variable {h : MfaHost} {secret : String}

/-- The text is the code of a time step. -/
def IsCode (h : MfaHost) (secret : String) (step : Int) (text : String) : Prop :=
  h.nfkc text = h.nfkc (h.generateOtp secret step)

/-- The texts that are accepted, in a sequence of calls of `verify_user_code`. -/
def acceptedTexts (h : MfaHost) : SecondFactor → List Presented → List String
  | _, [] => []
  | s, p :: rest =>
    if (verifyUserCode h s p).1 then normalizeCode h p.code :: acceptedTexts h (verifyUserCode h s p).2 rest
    else acceptedTexts h (verifyUserCode h s p).2 rest

/-- The first valid code that is presented in a step of the clock. -/
def firstIn (h : MfaHost) (secret : String) (k : Int) (calls : List Presented) : Option String :=
  (calls.find? fun p => timecode p.stampedAt = k && verifyTotp h secret (normalizeCode h p.code) p.verifiedAt).map
    fun p => normalizeCode h p.code

/-- The code of a time step is the first valid one that is presented in a step of the clock. -/
def ComesFirst (h : MfaHost) (secret : String) (calls : List Presented) (step k : Int) : Prop :=
  ∃ text ∈ firstIn h secret k calls, IsCode h secret step text

/-- The step of the clock is later than the stored one. -/
def SecondFactor.Precedes (s : SecondFactor) (k : Int) : Prop :=
  ∀ last ∈ s.mfaLastUsedStep, last < k

/-- In the steps of the clock after the stored one, no code comes first in two of them, and one that was confirmed
    in none. -/
structure InOneStep (h : MfaHost) (secret : String) (s : SecondFactor) (confirmed : List String)
    (calls : List Presented) : Prop where
  once : ∀ step k k', s.Precedes k → k < k' → ComesFirst h secret calls step k → ¬ComesFirst h secret calls step k'
  fresh : ∀ step k, s.Precedes k → ∀ text ∈ confirmed, IsCode h secret step text → ¬ComesFirst h secret calls step k

/-- No code of a time step is in the list twice. -/
def OnlyOnce (h : MfaHost) (secret : String) (texts : List String) : Prop :=
  texts.Pairwise fun x y => ∀ step, ¬(IsCode h secret step x ∧ IsCode h secret step y)

/-- How a sequence of calls begins: with a secret that is active, or right after it was confirmed with a code. -/
inductive Begins (h : MfaHost) (secret : String) : SecondFactor → List String → Prop where
  | active {s : SecondFactor} {ciphertext : String} (stored : s.mfaSecretCiphertext = some ciphertext)
      (decrypts : h.decryptSecret ciphertext = secret) : Begins h secret s []
  | confirmed {s0 s : SecondFactor} {p : Presented} {fresh : RecoverySet} {ciphertext : String}
      (confirms : confirm h s0 p fresh = .ok s) (stored : s.mfaSecretCiphertext = some ciphertext)
      (decrypts : h.decryptSecret ciphertext = secret) : Begins h secret s [confirmCode p.code]

/-- No recovery code of the user has the text of a code of the authenticator. -/
def Apart (h : MfaHost) (secret : String) (codes : List RecoveryCode) : Prop :=
  ∀ r ∈ codes, ∀ step text, IsCode h secret step text → h.verifyPassword text r.codeHash = false

theorem consumeRecovery_hashes {normalized : String} {now : Int} {codes codes' : List RecoveryCode}
    (hc : consumeRecovery h normalized now codes = some codes') :
    codes'.map RecoveryCode.codeHash = codes.map RecoveryCode.codeHash ∧
      ∃ r ∈ codes, h.verifyPassword normalized r.codeHash = true := by
  induction codes generalizing codes' with
  | nil => exact absurd hc (by simp [consumeRecovery])
  | cons recovery rest ih =>
      rw [consumeRecovery] at hc
      split at hc
      · next hmatch =>
        obtain rfl := Option.some.inj hc
        exact ⟨rfl, recovery, List.mem_cons_self, (Bool.and_eq_true_iff.1 hmatch).2⟩
      · obtain ⟨rest', hrest, rfl⟩ := Option.map_eq_some_iff.1 hc
        obtain ⟨hhashes, r, hr, hmatch⟩ := ih hrest
        exact ⟨by rw [List.map_cons, List.map_cons, hhashes], r, List.mem_cons_of_mem _ hr, hmatch⟩

theorem Apart.of_hashes {codes codes' : List RecoveryCode} (ha : Apart h secret codes)
    (hsame : codes'.map RecoveryCode.codeHash = codes.map RecoveryCode.codeHash) : Apart h secret codes' := by
  intro r hr step text htext
  obtain ⟨r', hr', heq⟩ := List.mem_map.1 (hsame ▸ List.mem_map_of_mem (f := RecoveryCode.codeHash) hr)
  rw [← heq]
  exact ha r' hr' step text htext

/-- What a call comes to: a code is accepted, it is refused for its step, or it is no code of the authenticator. -/
inductive Verified (h : MfaHost) (secret : String) (s s' : SecondFactor) (p : Presented) : Bool → Prop where
  | accepted (valid : verifyTotp h secret (normalizeCode h p.code) p.verifiedAt = true)
      (later : s.Precedes (timecode p.stampedAt)) (stored : s'.mfaLastUsedStep = some (timecode p.stampedAt)) :
      Verified h secret s s' p true
  | refused (valid : verifyTotp h secret (normalizeCode h p.code) p.verifiedAt = true)
      (early : ¬s.Precedes (timecode p.stampedAt)) (stored : s'.mfaLastUsedStep = s.mfaLastUsedStep) :
      Verified h secret s s' p false
  | other {b : Bool} (invalid : verifyTotp h secret (normalizeCode h p.code) p.verifiedAt = false)
      (stored : s'.mfaLastUsedStep = s.mfaLastUsedStep)
      (foreign : b = true → ∀ step, ¬IsCode h secret step (normalizeCode h p.code)) : Verified h secret s s' p b

theorem verified {s : SecondFactor} {ciphertext : String} {p : Presented}
    (hstored : s.mfaSecretCiphertext = some ciphertext) (hsecret : h.decryptSecret ciphertext = secret)
    (hapart : Apart h secret s.recoveryCodes) :
    (verifyUserCode h s p).2.mfaSecretCiphertext = some ciphertext ∧
      Apart h secret (verifyUserCode h s p).2.recoveryCodes ∧
        Verified h secret s (verifyUserCode h s p).2 p (verifyUserCode h s p).1 := by
  have hmatches : matchesSecret h s.mfaSecretCiphertext (normalizeCode h p.code) p.verifiedAt =
      verifyTotp h secret (normalizeCode h p.code) p.verifiedAt := by
    rw [hstored, matchesSecret, Option.any_some, hsecret]
  simp only [verifyUserCode, hmatches]
  split
  · next hvalid =>
    split
    · next hearly =>
      obtain ⟨last, hlast, hle⟩ := (Option.any_eq_true _ _).1 hearly
      refine ⟨hstored, hapart, .refused hvalid (fun hlater => ?_) rfl⟩
      have hlt := hlater last hlast
      have hle := of_decide_eq_true hle
      omega
    · next hlater =>
      refine ⟨hstored, hapart, .accepted hvalid (fun last hlast => ?_) rfl⟩
      by_contra hnot
      exact hlater ((Option.any_eq_true _ _).2 ⟨last, hlast, decide_eq_true (by omega)⟩)
  · next hinvalid =>
    have hinvalid := Bool.eq_false_iff.2 hinvalid
    unfold verifyRecovery
    split
    · next codes hcodes =>
      obtain ⟨hhashes, r, hr, hmatch⟩ := consumeRecovery_hashes hcodes
      refine ⟨hstored, hapart.of_hashes hhashes, .other hinvalid rfl fun _ step hcode => ?_⟩
      rw [hapart r hr step _ hcode] at hmatch
      exact absurd hmatch (by simp)
    · exact ⟨hstored, hapart, .other hinvalid rfl fun hfalse => absurd hfalse (by simp)⟩

/-! ### What comes first in a step -/

section First

variable {p : Presented} {rest calls : List Presented} {k : Int} {text : String}

theorem firstIn_nil : firstIn h secret k [] = none := rfl

theorem firstIn_cons_self (hvalid : verifyTotp h secret (normalizeCode h p.code) p.verifiedAt = true) :
    firstIn h secret (timecode p.stampedAt) (p :: rest) = some (normalizeCode h p.code) := by
  rw [firstIn, List.find?_cons_of_pos (by simp [hvalid]), Option.map_some]

theorem firstIn_cons_of_ne (hk : k ≠ timecode p.stampedAt) :
    firstIn h secret k (p :: rest) = firstIn h secret k rest := by
  rw [firstIn, List.find?_cons_of_neg (by simp [hk.symm]), firstIn]

theorem firstIn_cons_of_invalid (hinvalid : verifyTotp h secret (normalizeCode h p.code) p.verifiedAt = false) :
    firstIn h secret k (p :: rest) = firstIn h secret k rest := by
  rw [firstIn, List.find?_cons_of_neg (by simp [hinvalid]), firstIn]

/-- Later calls come in later steps of the clock. -/
theorem le_of_firstIn (horder : ∀ q ∈ rest, p.stampedAt ≤ q.stampedAt) (htext : text ∈ firstIn h secret k rest) :
    timecode p.stampedAt ≤ k := by
  obtain ⟨q, hq, -⟩ := Option.map_eq_some_iff.1 htext
  have hle := horder q (List.mem_of_find?_eq_some hq)
  have hfound := List.find?_some hq
  simp only [Bool.and_eq_true, decide_eq_true_eq] at hfound
  rw [← hfound.1]
  exact Int.ediv_le_ediv (by omega) hle

theorem precedes_of_stored {s : SecondFactor} (hstored : s.mfaLastUsedStep = some k) (k' : Int) :
    s.Precedes k' ↔ k < k' := by
  simp [SecondFactor.Precedes, hstored]

theorem precedes_of_same {s s' : SecondFactor} (hstored : s'.mfaLastUsedStep = s.mfaLastUsedStep) (k : Int) :
    s'.Precedes k ↔ s.Precedes k := by
  rw [SecondFactor.Precedes, hstored, SecondFactor.Precedes]

theorem SecondFactor.Precedes.mono {s : SecondFactor} {k' : Int} (h : s.Precedes k) (hlt : k < k') :
    s.Precedes k' := by
  intro last hlast
  have hlast := h last hlast
  omega

/-- After a step that is refused come only later ones. -/
theorem ne_of_precedes {s : SecondFactor} {k' : Int} (hearly : ¬s.Precedes k) (hlater : s.Precedes k') : k' ≠ k := by
  rintro rfl
  exact hearly hlater

end First

/-- The codes that are accepted are the first ones in the steps after the stored one; what else is accepted is no
    code. -/
theorem forall_acceptedTexts {s : SecondFactor} {ciphertext : String} {calls : List Presented}
    (hstored : s.mfaSecretCiphertext = some ciphertext) (hsecret : h.decryptSecret ciphertext = secret)
    (hapart : Apart h secret s.recoveryCodes) (horder : calls.Pairwise fun p q => p.stampedAt ≤ q.stampedAt)
    {q : String → Prop} (hq : ∀ text, (∀ step, ¬IsCode h secret step text) → q text) :
    (∀ text ∈ acceptedTexts h s calls, q text) ↔
      ∀ k, s.Precedes k → ∀ text ∈ firstIn h secret k calls, q text := by
  induction calls generalizing s with
  | nil => simp [acceptedTexts, firstIn_nil]
  | cons p rest ih =>
      obtain ⟨hstored', hapart', hcall⟩ := verified (p := p) hstored hsecret hapart
      obtain ⟨hfirst, horder⟩ := List.pairwise_cons.1 horder
      have ih := ih hstored' hapart' horder
      rw [acceptedTexts]
      generalize (verifyUserCode h s p).1 = b at hcall
      cases hcall with
      | accepted hvalid hlater hlast =>
          rw [if_pos rfl, List.forall_mem_cons, ih]
          constructor
          · rintro ⟨hnow, hrest⟩ k - text htext
            by_cases hk : k = timecode p.stampedAt
            · rw [hk, firstIn_cons_self hvalid] at htext
              exact Option.some.inj htext ▸ hnow
            · rw [firstIn_cons_of_ne hk] at htext
              have hle := le_of_firstIn hfirst htext
              exact hrest k ((precedes_of_stored hlast k).2 (by omega)) text htext
          · refine fun hall => ⟨hall _ hlater _ (firstIn_cons_self hvalid), fun k hk text htext => ?_⟩
            have hlt := (precedes_of_stored hlast k).1 hk
            refine hall k (hlater.mono hlt) text ?_
            rwa [firstIn_cons_of_ne (by omega)]
      | refused hvalid hearly hlast =>
          rw [if_neg Bool.false_ne_true, ih]
          refine forall_congr' fun k => ?_
          rw [precedes_of_same hlast]
          exact forall_congr' fun hk => by rw [firstIn_cons_of_ne (ne_of_precedes hearly hk)]
      | other hinvalid hlast hforeign =>
          simp only [firstIn_cons_of_invalid hinvalid, ← precedes_of_same hlast]
          split
          · next hacc =>
            rw [List.forall_mem_cons, ih]
            exact and_iff_right (hq _ (hforeign hacc))
          · exact ih

/-- No code is accepted twice where none comes first in two steps after the stored one. -/
theorem onlyOnce_acceptedTexts {s : SecondFactor} {ciphertext : String} {calls : List Presented}
    (hstored : s.mfaSecretCiphertext = some ciphertext) (hsecret : h.decryptSecret ciphertext = secret)
    (hapart : Apart h secret s.recoveryCodes) (horder : calls.Pairwise fun p q => p.stampedAt ≤ q.stampedAt) :
    OnlyOnce h secret (acceptedTexts h s calls) ↔ ∀ k, s.Precedes k → ∀ k', k < k' →
      ∀ x ∈ firstIn h secret k calls, ∀ y ∈ firstIn h secret k' calls,
        ∀ step, ¬(IsCode h secret step x ∧ IsCode h secret step y) := by
  induction calls generalizing s with
  | nil => simp [acceptedTexts, firstIn_nil, OnlyOnce]
  | cons p rest ih =>
      obtain ⟨hstored', hapart', hcall⟩ := verified (p := p) hstored hsecret hapart
      obtain ⟨hfirst, horder⟩ := List.pairwise_cons.1 horder
      have ih := ih hstored' hapart' horder
      have hfollow := forall_acceptedTexts hstored' hsecret hapart' horder
        (q := fun y => ∀ step, ¬(IsCode h secret step (normalizeCode h p.code) ∧ IsCode h secret step y))
        fun y hy step hboth => hy step hboth.2
      rw [acceptedTexts]
      generalize (verifyUserCode h s p).1 = b at hcall
      cases hcall with
      | accepted hvalid hlater hlast =>
          rw [if_pos rfl, OnlyOnce, List.pairwise_cons, ← OnlyOnce, hfollow, ih]
          simp only [precedes_of_stored hlast]
          constructor
          · rintro ⟨hnow, hrest⟩ k - k' hlt x hx y hy
            by_cases hk : k = timecode p.stampedAt
            · rw [hk, firstIn_cons_self hvalid] at hx
              rw [firstIn_cons_of_ne (by omega)] at hy
              exact Option.some.inj hx ▸ hnow k' (by omega) y hy
            · rw [firstIn_cons_of_ne hk] at hx
              have hle := le_of_firstIn hfirst hx
              rw [firstIn_cons_of_ne (by omega)] at hy
              exact hrest k (by omega) k' hlt x hx y hy
          · refine fun hall => ⟨fun k' hlt y hy => ?_, fun k hk k' hlt x hx y hy => ?_⟩
            · refine hall _ hlater k' hlt _ (firstIn_cons_self hvalid) y ?_
              rwa [firstIn_cons_of_ne (by omega)]
            · refine hall k (hlater.mono hk) k' hlt x ?_ y ?_
              · rwa [firstIn_cons_of_ne (by omega)]
              · rwa [firstIn_cons_of_ne (by omega)]
      | refused hvalid hearly hlast =>
          rw [if_neg Bool.false_ne_true, ih]
          refine forall_congr' fun k => ?_
          rw [precedes_of_same hlast]
          refine forall_congr' fun hk => forall₂_congr fun k' hlt => ?_
          rw [firstIn_cons_of_ne (ne_of_precedes hearly hk),
            firstIn_cons_of_ne (ne_of_precedes hearly (hk.mono hlt))]
      | other hinvalid hlast hforeign =>
          simp only [firstIn_cons_of_invalid hinvalid, ← precedes_of_same hlast]
          split
          · next hacc =>
            rw [OnlyOnce, List.pairwise_cons, ← OnlyOnce, ih]
            exact and_iff_right fun y _ step hboth => hforeign hacc step hboth.1
          · exact ih

/-- **A code works once** in a sequence of calls exactly where, after the stored step, no code comes first in two
    steps of the clock, and the one that the secret was confirmed with in none. -/
theorem totp_once_iff {s : SecondFactor} {confirmed : List String} (hbegins : Begins h secret s confirmed)
    (hapart : Apart h secret s.recoveryCodes) {calls : List Presented}
    (horder : calls.Pairwise fun p q => p.stampedAt ≤ q.stampedAt) :
    OnlyOnce h secret (confirmed ++ acceptedTexts h s calls) ↔ InOneStep h secret s confirmed calls := by
  have hcalls : (∀ k, s.Precedes k → ∀ k', k < k' → ∀ x ∈ firstIn h secret k calls,
      ∀ y ∈ firstIn h secret k' calls, ∀ step, ¬(IsCode h secret step x ∧ IsCode h secret step y)) ↔
        ∀ step k k', s.Precedes k → k < k' → ComesFirst h secret calls step k → ¬ComesFirst h secret calls step k' :=
    ⟨fun hall step k k' hk hlt ⟨x, hx, hstep⟩ ⟨y, hy, hstep'⟩ => hall k hk k' hlt x hx y hy step ⟨hstep, hstep'⟩,
      fun hall k hk k' hlt x hx y hy step hboth => hall step k k' hk hlt ⟨x, hx, hboth.1⟩ ⟨y, hy, hboth.2⟩⟩
  cases hbegins with
  | active stored decrypts =>
      rw [List.nil_append, onlyOnce_acceptedTexts stored decrypts hapart horder, hcalls]
      exact ⟨fun honce => ⟨honce, fun _ _ _ _ hmem => absurd hmem List.not_mem_nil⟩, fun hone => hone.once⟩
  | @confirmed s0 _ p fresh ciphertext confirms stored decrypts =>
      rw [List.singleton_append, OnlyOnce, List.pairwise_cons, ← OnlyOnce,
        onlyOnce_acceptedTexts stored decrypts hapart horder, hcalls,
        forall_acceptedTexts stored decrypts hapart horder fun text htext step hboth => htext step hboth.2]
      constructor
      · rintro ⟨hfresh, honce⟩
        refine ⟨honce, fun step k hk text hmem hcode => ?_⟩
        rintro ⟨y, hy, hstep⟩
        obtain rfl := List.mem_singleton.1 hmem
        exact hfresh k hk y hy step ⟨hcode, hstep⟩
      · rintro ⟨honce, hfresh⟩
        refine ⟨fun k hk y hy step hboth => ?_, honce⟩
        exact hfresh step k hk _ (List.mem_singleton_self _) hboth.1 ⟨y, hy, hboth.2⟩

end Totp

/-- A time step in strokes. -/
def strokes : Int → List Char
  | .ofNat n => List.replicate n '+'
  | .negSucc n => List.replicate (n + 1) '-'

theorem strokes_injective {m n : Int} (h : strokes m = strokes n) : m = n := by
  have hlength := congrArg List.length h
  have hplus := congrArg (List.count '+') h
  cases m <;> cases n <;> simp [strokes, List.count_replicate] at hlength hplus ⊢ <;> omega

/-- An authenticator whose codes show their time step. -/
def sampleMfaHost : MfaHost where
  decryptSecret c := c
  generateOtp secret step := String.ofList (secret.toList ++ strokes step)
  nfkc text := text
  upper text := text
  verifyPassword password hash := "hash:" ++ password == hash

def sampleFactor (recoveryCodes : List RecoveryCode) : SecondFactor where
  passwordHash := "hash:password"
  isActive := true
  emailVerified := true
  mfaEnabled := true
  mfaSecretCiphertext := some "S"
  mfaPendingSecretCiphertext := none
  mfaLastUsedStep := none
  recoveryCodes := recoveryCodes
  securityEvents := []

/-- Codes of steps 2, 3 and 4, each a step early, and the first of them once more. -/
def sampleCalls : List Presented :=
  [⟨"S++", 30, 30⟩, ⟨"S+++", 60, 60⟩, ⟨"S++", 61, 61⟩, ⟨"S++++", 90, 90⟩]

/-- What comes first in a step of the clock is the code of the next one. -/
theorem clock_of_firstIn {k : Int} {text : String} (h : text ∈ firstIn sampleMfaHost "S" k sampleCalls) :
    k = text.length - 2 := by
  by_cases h1 : k = 1
  · subst h1
    obtain rfl : "S++" = text := Option.some.inj h
    rfl
  by_cases h2 : k = 2
  · subst h2
    obtain rfl : "S+++" = text := Option.some.inj h
    rfl
  by_cases h3 : k = 3
  · subst h3
    obtain rfl : "S++++" = text := Option.some.inj h
    rfl
  · rw [sampleCalls, firstIn_cons_of_ne h1, firstIn_cons_of_ne h2, firstIn_cons_of_ne h2, firstIn_cons_of_ne h3] at h
    exact absurd h (by simp [firstIn_nil])

theorem inOneStep_sampleCalls : InOneStep sampleMfaHost "S" (sampleFactor []) [] sampleCalls := by
  refine ⟨?_, fun _ _ _ _ hmem => absurd hmem List.not_mem_nil⟩
  rintro step k k' - hlt ⟨x, hx, hstep⟩ ⟨y, hy, hstep'⟩
  obtain rfl : x = y := hstep.trans hstep'.symm
  exact absurd ((clock_of_firstIn hx).trans (clock_of_firstIn hy).symm) (by omega)

/-- Three of four calls are accepted, and no code twice. -/
theorem totp_once_sample :
    acceptedTexts sampleMfaHost (sampleFactor []) sampleCalls = ["S++", "S+++", "S++++"] ∧
      OnlyOnce sampleMfaHost "S" ([] ++ acceptedTexts sampleMfaHost (sampleFactor []) sampleCalls) :=
  ⟨by decide +kernel, (totp_once_iff (.active rfl rfl) (fun _ hr => absurd hr List.not_mem_nil) (by decide)).2
    inOneStep_sampleCalls⟩

/-- The code of step 2 is accepted in steps 1, 2 and 3. -/
theorem not_totp_once :
    ¬∀ (h : MfaHost) (secret : String) (s : SecondFactor) (confirmed : List String) (calls : List Presented),
      (∀ m n, h.nfkc (h.generateOtp secret m) = h.nfkc (h.generateOtp secret n) → m = n) →
        Begins h secret s confirmed → Apart h secret s.recoveryCodes →
          (calls.Pairwise fun p q => p.stampedAt ≤ q.verifiedAt) → (∀ p ∈ calls, p.verifiedAt ≤ p.stampedAt) →
            OnlyOnce h secret (confirmed ++ acceptedTexts h s calls) := by
  intro h
  have hdistinct : ∀ m n, sampleMfaHost.nfkc (sampleMfaHost.generateOtp "S" m) =
      sampleMfaHost.nfkc (sampleMfaHost.generateOtp "S" n) → m = n := by
    intro m n hmn
    exact strokes_injective (List.append_cancel_left (String.ofList_inj.1 hmn))
  have honce := h sampleMfaHost "S" (sampleFactor []) [] [⟨"S++", 30, 30⟩, ⟨"S++", 60, 60⟩, ⟨"S++", 90, 90⟩]
    hdistinct (.active rfl rfl) (fun _ hr => absurd hr List.not_mem_nil) (by decide) (by decide)
  have haccepted : acceptedTexts sampleMfaHost (sampleFactor [])
      [⟨"S++", 30, 30⟩, ⟨"S++", 60, 60⟩, ⟨"S++", 90, 90⟩] = ["S++", "S++", "S++"] := by decide +kernel
  rw [haccepted, List.nil_append, OnlyOnce, List.pairwise_cons] at honce
  have hcode : IsCode sampleMfaHost "S" 2 "S++" := by
    show "S++" = String.ofList ("S".toList ++ strokes 2)
    decide +kernel
  exact honce.1 "S++" List.mem_cons_self 2 ⟨hcode, hcode⟩

/-! ## Replacing the second factor -/

/-- The requests of a signed-in user about the second factor, and the challenge of a login. -/
inductive MfaOperation where
  | setup (ciphertext : String)
  | confirm (p : Presented) (fresh : RecoverySet)
  | regenerate (password : String) (p : Presented) (fresh : RecoverySet)
  | challenge (p : Presented)
  | disable

section Replacing

variable (h : MfaHost)

/-- The row after an operation; one that raises leaves it as it is. -/
def perform (s : SecondFactor) : MfaOperation → SecondFactor
  | .setup ciphertext => Mfa.setup s ciphertext
  | .confirm p fresh => (Mfa.confirm h s p fresh).toOption.getD s
  | .regenerate password p fresh => (regenerateRecoveryCodes h s password p fresh).toOption.getD s
  | .challenge p => (completeChallenge h s p).2
  | .disable => Mfa.disable.toOption.getD s

/-- The operations of a run, each with the row it finds. -/
def mfaRun : SecondFactor → List MfaOperation → List (SecondFactor × MfaOperation)
  | _, [] => []
  | s, op :: rest => (s, op) :: mfaRun (perform h s op) rest

def SecondFactor.validCodes (s : SecondFactor) : List RecoveryCode :=
  s.recoveryCodes.filter RecoveryCode.isValid

/-- The active secret or the valid recovery codes are not what they were. -/
def Replaces (s s' : SecondFactor) : Prop :=
  s'.mfaSecretCiphertext ≠ s.mfaSecretCiphertext ∨ s'.validCodes ≠ s.validCodes

/-- The operation verifies the user's password, or a code of the second factor that is active. -/
def Reauthenticates (s : SecondFactor) : MfaOperation → Prop
  | .regenerate password _ _ => h.verifyPassword password s.passwordHash = true
  | .challenge p => (verifyUserCode h s p).1 = true
  | _ => False

/-- What replaces the second factor of a user who has one authenticates the user again. -/
def Guarded (s : SecondFactor) (op : MfaOperation) : Prop :=
  s.mfaEnabled = true → Replaces s (perform h s op) → Reauthenticates h s op

/-- A setup is pending, and the code is one of the secret that was set up. -/
def Confirms (s : SecondFactor) (p : Presented) : Prop :=
  matchesSecret h s.mfaPendingSecretCiphertext (confirmCode p.code) p.verifiedAt = true

/-- The identifiers of new recovery codes are drawn. -/
def DrawsNew (s : SecondFactor) : MfaOperation → Prop
  | .confirm _ fresh => ∀ x ∈ fresh.codes, ∀ r ∈ s.recoveryCodes, r.id ≠ x.1
  | _ => True

variable {h} {s : SecondFactor}

theorem not_replaces_self : ¬Replaces s s := by
  rintro (hsecret | hcodes)
  · exact hsecret rfl
  · exact hcodes rfl

/-- Where a code is not accepted, nothing changes. -/
theorem verifyUserCode_eq_of_not {p : Presented} (hv : (verifyUserCode h s p).1 ≠ true) :
    (verifyUserCode h s p).2 = s := by
  simp only [verifyUserCode] at hv ⊢
  split at hv
  · next hvalid =>
    rw [if_pos hvalid]
    split at hv
    · next hlate => rw [if_pos hlate]
    · exact absurd rfl hv
  · next hinvalid =>
    rw [if_neg hinvalid]
    unfold verifyRecovery at hv ⊢
    split at hv
    · exact absurd rfl hv
    · rfl

theorem confirm_eq_error {p : Presented} (fresh : RecoverySet) (hc : ¬Confirms h s p) :
    ∃ message, confirm h s p fresh = .error message := by
  unfold Confirms matchesSecret at hc
  unfold confirm
  cases hp : s.mfaPendingSecretCiphertext with
  | none => exact ⟨_, rfl⟩
  | some ciphertext =>
      rw [hp, Option.any_some] at hc
      exact ⟨_, if_pos hc⟩

theorem confirm_eq_ok {p : Presented} {fresh : RecoverySet} (hc : Confirms h s p) :
    ∃ s', confirm h s p fresh = .ok s' ∧
      s'.recoveryCodes = fresh.codes.map fun x => ⟨x.1, x.2, none, none⟩ := by
  unfold Confirms matchesSecret at hc
  unfold confirm
  cases hp : s.mfaPendingSecretCiphertext with
  | none =>
      rw [hp] at hc
      exact absurd hc (by simp)
  | some ciphertext =>
      rw [hp, Option.any_some] at hc
      exact ⟨_, if_neg (not_not.2 hc), rfl⟩

/-- New recovery codes are others than the ones before. -/
theorem replaces_of_fresh {s' : SecondFactor} {fresh : RecoverySet}
    (hcodes : s'.recoveryCodes = fresh.codes.map fun x => ⟨x.1, x.2, none, none⟩)
    (hnew : ∀ x ∈ fresh.codes, ∀ r ∈ s.recoveryCodes, r.id ≠ x.1) : Replaces s s' := by
  refine Or.inr fun hsame => ?_
  cases hfresh : fresh.codes with
  | nil => exact absurd fresh.eight (by simp [hfresh])
  | cons x rest =>
      have hmem : (⟨x.1, x.2, none, none⟩ : RecoveryCode) ∈ s'.validCodes := by
        refine List.mem_filter.2 ⟨?_, rfl⟩
        rw [hcodes, hfresh]
        exact List.mem_cons_self
      rw [hsame] at hmem
      exact hnew x (hfresh ▸ List.mem_cons_self) _ (List.mem_filter.1 hmem).1 rfl

/-- One operation: only a confirmation replaces the second factor without authenticating the user. -/
theorem guarded_iff {op : MfaOperation} (hnew : DrawsNew s op) :
    Guarded h s op ↔ ∀ p fresh, op = .confirm p fresh → s.mfaEnabled = true → ¬Confirms h s p := by
  unfold Guarded
  cases op with
  | setup ciphertext =>
      refine iff_of_true (fun _ hreplaces => absurd hreplaces ?_) (by simp)
      rintro (hsecret | hcodes)
      · exact hsecret rfl
      · exact hcodes rfl
  | confirm p fresh =>
      constructor
      · rintro hguarded p' fresh' heq henabled hconfirms
        obtain ⟨rfl, rfl⟩ := MfaOperation.confirm.inj heq
        obtain ⟨s', hok, hcodes⟩ := confirm_eq_ok hconfirms
        refine hguarded henabled ?_
        rw [perform, hok]
        exact replaces_of_fresh hcodes hnew
      · intro hnot henabled hreplaces
        obtain ⟨message, herror⟩ := confirm_eq_error fresh (hnot p fresh rfl henabled)
        rw [perform, herror] at hreplaces
        exact absurd hreplaces not_replaces_self
  | regenerate password p fresh =>
      refine iff_of_true (fun _ hreplaces => ?_) (by simp)
      by_contra hpassword
      have herror : regenerateRecoveryCodes h s password p fresh = .error "Password is invalid" := if_pos hpassword
      rw [perform, herror] at hreplaces
      exact not_replaces_self hreplaces
  | challenge p =>
      refine iff_of_true (fun _ hreplaces => ?_) (by simp)
      by_contra hcode
      have hsame := verifyUserCode_eq_of_not hcode
      rw [perform, completeChallenge] at hreplaces
      split at hreplaces
      · exact not_replaces_self hreplaces
      · have hrefused : ¬(verifyUserCode h s p).1 = true := hcode
        rw [if_pos hrefused, hsame] at hreplaces
        exact not_replaces_self hreplaces
  | disable => exact iff_of_true (fun _ hreplaces => absurd hreplaces not_replaces_self) (by simp)

/-- **Replacing the second factor.** In a run, every replacement of an enabled second factor authenticates the user
    again exactly where no setup is confirmed while a second factor is enabled. -/
theorem reauthenticated_iff {ops : List MfaOperation} (hnew : ∀ x ∈ mfaRun h s ops, DrawsNew x.1 x.2) :
    (∀ x ∈ mfaRun h s ops, Guarded h x.1 x.2) ↔
      ∀ x ∈ mfaRun h s ops, ∀ p fresh, x.2 = .confirm p fresh → x.1.mfaEnabled = true → ¬Confirms h x.1 p :=
  forall₂_congr fun x hx => guarded_iff (hnew x hx)

end Replacing

def sampleRecoverySet : RecoverySet :=
  ⟨(List.range 8).map fun n => (n, "hash:A"), rfl⟩

/-- A user whose second factor is off, with a recovery code from before. -/
def withoutFactor : SecondFactor :=
  { sampleFactor [⟨9, "hash:Q", none, none⟩] with mfaEnabled := false }

def enrolment : List MfaOperation :=
  [.setup "T", .confirm ⟨"T++", 60, 60⟩ sampleRecoverySet, .challenge ⟨"T+++", 90, 90⟩]

/-- A second factor is set up, confirmed and used. -/
theorem reauthenticated_enrolment :
    (mfaRun sampleMfaHost withoutFactor enrolment).map (fun x => x.1.mfaEnabled) = [false, false, true] ∧
      ∀ x ∈ mfaRun sampleMfaHost withoutFactor enrolment, Guarded sampleMfaHost x.1 x.2 := by
  refine ⟨by decide +kernel, (reauthenticated_iff fun x hx => ?_).2 fun x hx p fresh hop henabled => ?_⟩
  · rcases List.mem_cons.1 hx with rfl | hx
    · trivial
    rcases List.mem_cons.1 hx with rfl | hx
    · show ∀ y ∈ sampleRecoverySet.codes, ∀ r ∈ withoutFactor.recoveryCodes, r.id ≠ y.1
      decide
    · obtain rfl := List.mem_singleton.1 hx
      trivial
  · rcases List.mem_cons.1 hx with rfl | hx
    · exact absurd hop (by simp)
    rcases List.mem_cons.1 hx with rfl | hx
    · exact absurd henabled (by decide)
    · obtain rfl := List.mem_singleton.1 hx
      exact absurd hop (by simp)

/-- A stolen session sets up a second authenticator, and confirms it with a code of its own. -/
theorem not_reauthenticated :
    ¬∀ (h : MfaHost) (s : SecondFactor) (ops : List MfaOperation), (∀ x ∈ mfaRun h s ops, DrawsNew x.1 x.2) →
      ∀ x ∈ mfaRun h s ops, Guarded h x.1 x.2 := by
  intro h
  have hguarded := h sampleMfaHost (sampleFactor []) [.setup "T", .confirm ⟨"T++", 60, 60⟩ sampleRecoverySet]
    (fun x hx => by
      rcases List.mem_cons.1 hx with rfl | hx
      · trivial
      · obtain rfl := List.mem_singleton.1 hx
        exact fun _ _ r hr => absurd hr List.not_mem_nil)
  have hstep := hguarded (setup (sampleFactor []) "T", .confirm ⟨"T++", 60, 60⟩ sampleRecoverySet)
    (List.mem_cons_of_mem _ (List.mem_singleton_self _)) rfl
  exact hstep (Or.inl (by decide +kernel))

end Rubrica.Mfa
