import Rubrica.Mfa.SecondFactor
import Rubrica.Platform
import Rubrica.Transactions.Knowledge

set_option autoImplicit false

/-! # Recovery codes among transactions

The transactions of `complete_mfa_challenge`, `confirm` and `regenerate_recovery_codes`, of which any number run at
once for one user. The first locks the row of the user and the others do not. A session flushes at its commit only
(`autoflush=False`), codes first, then security events, then the user: the `DELETE` of the codes is sent before any of
this, and takes the code that was accepted for it out of the session, so that no `UPDATE` consumes that one. -/

namespace Rubrica.Recovery

open Transactions Mfa

/-! ## State -/

/-- The second factor of the user, with what results about runs look back to: the identifiers that recovery codes
    have had, which no program depends on. -/
structure MfaState where
  factor : SecondFactor
  issued : List Nat
  deriving DecidableEq, Repr

/-- What is locked. An update of the user's row shuts other updates out, a foreign key refers to the key of the row
    only, and `FOR UPDATE` takes both. -/
inductive MfaKey where
  | user
  | userKey
  | code (id : Nat)
  /-- An identifier that is drawn for a new recovery code. -/
  | name (id : Nat)
  deriving DecidableEq, Repr

/-- Where in a transaction a statement stands. -/
inductive MfaPoint where
  | plain
  /-- Commits a challenge, with the recovery code that it has accepted. -/
  | challenged (accepted : Option Nat)
  /-- Commits a new set of recovery codes, with the recovery code that was accepted for it and the codes that the
      `DELETE` has found. -/
  | replaced (accepted : Option Nat) (found : List Nat)
  deriving DecidableEq, Repr

inductive MfaException where
  | mfaError (message : String)
  /-- An `UPDATE` of a row that is no longer there. -/
  | staleData
  | operational
  deriving DecidableEq, Repr

instance : Faulty MfaException := ⟨.operational⟩

abbrev MfaTx (α : Type) := Code MfaState MfaKey MfaPoint MfaException α

inductive MfaAnswer where
  | challenge (accepted : Bool)
  | recoveryCodes (fresh : RecoverySet)

namespace MfaState

def codes (s : MfaState) : List RecoveryCode :=
  s.factor.recoveryCodes

def setCodes (codes : List RecoveryCode) (s : MfaState) : MfaState :=
  { s with
    factor := { s.factor with recoveryCodes := codes } }

/-- There is a row with the identifier. -/
def hasCode (id : Nat) (s : MfaState) : Bool :=
  s.codes.any fun r => r.id = id

end MfaState

/-! ## Statements -/

/-- `UPDATE mfa_recovery_codes SET consumed_at = .. WHERE id = ..`, of a code that was accepted. -/
def consumed (accepted : Option Nat) (now : Int) (codes : List RecoveryCode) : List RecoveryCode :=
  codes.map fun r => if accepted = some r.id then { r with consumedAt := some now } else r

/-- What an update makes of a user's row, for an object that was loaded and then changed. -/
def flushUser (loaded value row : SecondFactor) : SecondFactor :=
  { row with
    mfaEnabled := written loaded.mfaEnabled value.mfaEnabled row.mfaEnabled,
    mfaSecretCiphertext := written loaded.mfaSecretCiphertext value.mfaSecretCiphertext row.mfaSecretCiphertext,
    mfaPendingSecretCiphertext :=
      written loaded.mfaPendingSecretCiphertext value.mfaPendingSecretCiphertext row.mfaPendingSecretCiphertext,
    mfaLastUsedStep := written loaded.mfaLastUsedStep value.mfaLastUsedStep row.mfaLastUsedStep }

def updateUser (loaded value : SecondFactor) : MfaTx Unit := do
  let _ ← Code.selectLocking .plain .exclusive (fun _ => some MfaKey.user) fun _ => ()
  Code.write .plain fun s => { s with factor := flushUser loaded value s.factor }

/-- The check of a foreign key to the user. -/
def referToUser : MfaTx Unit :=
  Code.selectLocking .plain .shared (fun _ => some MfaKey.userKey) fun _ => ()

/-- `MfaService.audit`. -/
def mfaAudit (action : String) : MfaTx Unit := do
  referToUser
  Code.write .plain fun s => { s with factor := s.factor.record action }

/-- A `DELETE` locks the rows it has found one after another, as far as they are still there. -/
def lockCodes : List Nat → MfaTx Unit
  | [] => pure ()
  | id :: ids => do
    let _ ← Code.selectLocking .plain .exclusive (fun s => if s.hasCode id then some (.code id) else none)
      fun _ => ()
    lockCodes ids

/-- `DELETE FROM mfa_recovery_codes WHERE user_id = ..`; which rows it has found. -/
def deleteCodes : MfaTx (List Nat) := do
  let found ← Code.select .plain fun s : MfaState => s.codes.map RecoveryCode.id
  lockCodes found
  Code.write .plain fun s => s.setCodes (s.codes.filter fun r => r.id ∉ found)
  pure found

/-- The rows of a new set. -/
def newCodes (fresh : RecoverySet) : List RecoveryCode :=
  fresh.codes.map fun x => ⟨x.1, x.2, none, none⟩

def insertCodes (fresh : RecoverySet) : MfaTx Unit := do
  referToUser
  Code.write .plain fun s =>
    { s.setCodes (s.codes ++ newCodes fresh) with issued := s.issued ++ fresh.codes.map Prod.fst }

/-! ## Transactions -/

/-- What `verify_user_code` has found. -/
inductive Verdict where
  | refused
  /-- A code of the authenticator, of a time step. -/
  | step (step : Int)
  | recovery (id : Nat)
  deriving DecidableEq, Repr

/-- The recovery code that was accepted. -/
def Verdict.accepted : Verdict → Option Nat
  | recovery id => some id
  | _ => none

section Transactions

variable (h : MfaHost)

/-- The recovery code that a text is, among those that can be used. -/
def recoveryFor (normalized : String) (rows : List RecoveryCode) : Verdict :=
  match rows.find? fun r => h.verifyPassword normalized r.codeHash with
  | none => .refused
  | some r => .recovery r.id

/-- `verify_user_code`, for a user that was loaded. -/
def verifyCode (user : SecondFactor) (p : Presented) : MfaTx Verdict :=
  if matchesSecret h user.mfaSecretCiphertext (normalizeCode h p.code) p.verifiedAt then
    pure (if user.mfaLastUsedStep.any fun last => timecode p.stampedAt ≤ last then .refused
      else .step (timecode p.stampedAt))
  else do
    let rows ← Code.select .plain fun s : MfaState => s.codes.filter RecoveryCode.isValid
    pure (recoveryFor h (normalizeCode h p.code) rows)

/-- The flush of the code that `verify_user_code` has consumed. -/
def flushCode (now : Int) : Verdict → MfaTx Unit
  | .recovery id => do
    let there ← Code.selectLocking .plain .exclusive
      (fun s : MfaState => if s.hasCode id then some (.code id) else none) (MfaState.hasCode id)
    Code.require (there = true) .staleData
    Code.write .plain fun s => s.setCodes (consumed (some id) now s.codes)
  | _ => pure ()

/-- The flush of the time step that `verify_user_code` has set. -/
def flushStep (user : SecondFactor) : Verdict → MfaTx Unit
  | .step step => updateUser user { user with mfaLastUsedStep := some step }
  | _ => pure ()

/-- The transaction of `complete_mfa_challenge`. Redis next to it is no part of this. -/
def completeMfaChallenge (p : Presented) : MfaTx MfaAnswer :=
  Code.transaction .plain do
    let _ ← Code.selectLocking .plain .exclusive (fun _ => some MfaKey.userKey) fun _ => ()
    let user ← Code.selectLocking .plain .exclusive (fun _ => some MfaKey.user) MfaState.factor
    if ¬user.isActive ∨ ¬user.emailVerified ∨ ¬user.mfaEnabled then pure (.challenge false, .challenged none)
    else do
      let verdict ← verifyCode h user p
      flushCode p.stampedAt verdict
      mfaAudit (if verdict = .refused then "mfa.challenge_failed" else "mfa.challenge_succeeded")
      flushStep user verdict
      pure (.challenge (verdict ≠ .refused), .challenged verdict.accepted)

/-- `confirm`. -/
def confirm (p : Presented) (fresh : RecoverySet) : MfaTx MfaAnswer :=
  Code.transaction .plain do
    let user ← Code.select .plain MfaState.factor
    let ciphertext ← Code.orRaise user.mfaPendingSecretCiphertext (.mfaError "MFA setup has not been started")
    Code.require (verifyTotp h (h.decryptSecret ciphertext) (confirmCode p.code) p.verifiedAt = true)
      (.mfaError "MFA code is invalid")
    let found ← deleteCodes
    insertCodes fresh
    mfaAudit "mfa.enabled"
    updateUser user
      { user with
        mfaSecretCiphertext := some ciphertext,
        mfaPendingSecretCiphertext := none,
        mfaEnabled := true,
        mfaLastUsedStep := some (timecode p.stampedAt) }
    pure (.recoveryCodes fresh, .replaced none found)

/-- `regenerate_recovery_codes`. -/
def regenerateRecoveryCodes (password : String) (p : Presented) (fresh : RecoverySet) : MfaTx MfaAnswer :=
  Code.transaction .plain do
    let user ← Code.select .plain MfaState.factor
    Code.require (h.verifyPassword password user.passwordHash = true) (.mfaError "Password is invalid")
    Code.require (user.mfaEnabled = true) (.mfaError "MFA code is invalid")
    let verdict ← verifyCode h user p
    Code.require (verdict ≠ .refused) (.mfaError "MFA code is invalid")
    -- Nothing is flushed yet, and the code that was accepted leaves the session with the `DELETE`.
    let found ← deleteCodes
    insertCodes fresh
    mfaAudit "mfa.recovery_codes_regenerated"
    flushStep user verdict
    pure (.recoveryCodes fresh, .replaced verdict.accepted found)

end Transactions

/-! ## Runs -/

inductive MfaCall where
  | challenge (p : Presented)
  | confirm (p : Presented) (fresh : RecoverySet)
  | regenerate (password : String) (p : Presented) (fresh : RecoverySet)

/-- The identifiers that are drawn for a call. -/
def MfaCall.names : MfaCall → List Nat
  | challenge _ => []
  | confirm _ fresh => fresh.codes.map Prod.fst
  | regenerate _ _ fresh => fresh.codes.map Prod.fst

def MfaCall.run (h : MfaHost) : MfaCall → MfaTx MfaAnswer
  | challenge p => completeMfaChallenge h p
  | confirm p fresh => Recovery.confirm h p fresh
  | regenerate password p fresh => regenerateRecoveryCodes h password p fresh

/-- What a call holds of the identifiers that are drawn for it. -/
def nameRights (names : List Nat) : Rights MfaKey :=
  names.map fun id => (.name id, .exclusive)

abbrev MfaSystem := System MfaState MfaKey MfaPoint MfaException MfaAnswer
abbrev MfaLabel := Label MfaState MfaKey MfaPoint MfaException MfaAnswer
abbrev MfaStep := MfaSystem × MfaLabel

/-- Any number of calls, with identifiers that were never drawn before. Nobody else changes recovery codes; the row
    of the user changes freely. -/
def mfaRuns (h : MfaHost) : Setting MfaState MfaKey MfaPoint MfaException MfaAnswer where
  starts base code s := ∃ call : MfaCall, (∀ id ∈ call.names, id ∉ s.issued) ∧ base = nameRights call.names ∧
    code = call.run h
  env s s' := s'.codes = s.codes ∧ s'.issued = s.issued
  lossy := True

/-- The recovery code that is accepted in a step: the commit of the transaction that has accepted it. -/
def acceptedIn (x : MfaStep) : Option Nat :=
  match x.1.publishes x.2 with
  | some (.challenged accepted) => accepted
  | some (.replaced accepted _) => accepted
  | _ => none

/-- A new set of recovery codes is committed in a step. -/
def ReplacesIn (x : MfaStep) : Prop :=
  ∃ accepted found, x.1.publishes x.2 = some (.replaced accepted found)

/-- No recovery code is accepted twice, and none that was there when a new set was committed is accepted after. -/
structure WorkOnce (steps : List MfaStep) : Prop where
  once : (steps.filterMap acceptedIn).Nodup
  replaced : ∀ past x future, steps = past ++ x :: future → ReplacesIn x →
    ∀ y ∈ future, ∀ id, acceptedIn y = some id → x.1.shared.hasCode id = false

/-- The recovery codes are those that were found, and the one that was accepted can still be used. -/
def MfaState.asFound (accepted : Option Nat) (found : List Nat) (s : MfaState) : Bool :=
  (s.codes.all fun r => r.id ∈ found) &&
    accepted.all fun id => s.codes.any fun r => r.id = id && r.isValid

/-- A new set of recovery codes is committed only where the codes still are as its transaction has found them. -/
def codesAsFound (x : MfaStep) : Bool :=
  match x.1.executes x.2 with
  | some (.replaced accepted found, _) => x.1.shared.asFound accepted found
  | _ => true

/-! ## The protocol -/

/-- The code can still be used. -/
def MfaState.Usable (s : MfaState) (id : Nat) : Prop :=
  ∃ r ∈ s.codes, r.id = id ∧ r.isValid = true

/-- The code was deleted. -/
def MfaState.Gone (s : MfaState) (id : Nat) : Prop :=
  id ∈ s.issued ∧ s.hasCode id = false

/-- Every code was issued. -/
def MfaState.AllIssued (s : MfaState) : Prop :=
  ∀ id, s.hasCode id = true → id ∈ s.issued

/-- A code is consumed, some are deleted, and new ones are inserted. -/
structure Changes (accepted : Option Nat) (found fresh : List Nat) (s s' : MfaState) : Prop where
  has : ∀ id, s'.hasCode id = true → id ∈ fresh ∨ s.hasCode id = true ∧ id ∉ found
  usable : ∀ id, s'.Usable id → id ∈ fresh ∨ s.Usable id ∧ accepted ≠ some id
  issued : ∀ id, id ∈ s'.issued ↔ id ∈ s.issued ∨ id ∈ fresh
  new : ∀ id ∈ fresh, id ∉ s.issued

/-- Codes that nobody has touched. -/
def SameCodes (s s' : MfaState) : Prop :=
  s'.codes = s.codes ∧ s'.issued = s.issued

def mfaProtocol : Protocol MfaState MfaKey MfaPoint where
  inv := MfaState.AllIssued
  guar point H s s' :=
    match point with
    | .plain => SameCodes s s'
    | .challenged accepted =>
        (MfaKey.user, LockMode.exclusive) ∈ H ∧ (∀ id ∈ accepted, s.Usable id) ∧ Changes accepted [] [] s s'
    | .replaced _ found =>
        (MfaKey.userKey, LockMode.shared) ∈ H ∧ ∃ fresh, nameRights fresh ⊆ H ∧ Changes none found fresh s s'
  env := SameCodes
  cond
    | .replaced accepted found, s => s.asFound accepted found = true
    | _, _ => True
  lossy := True

section Changes

variable {accepted : Option Nat} {found fresh : List Nat} {s s' : MfaState} {id : Nat}

theorem hasCode_iff : s.hasCode id = true ↔ ∃ r ∈ s.codes, r.id = id := by
  simp [MfaState.hasCode]

theorem SameCodes.hasCode (h : SameCodes s s') : s'.hasCode id = s.hasCode id := by
  rw [MfaState.hasCode, h.1, MfaState.hasCode]

theorem SameCodes.changes (h : SameCodes s s') : Changes none [] [] s s' where
  has id hid := Or.inr ⟨h.hasCode ▸ hid, List.not_mem_nil⟩
  usable id hid := Or.inr ⟨by rwa [MfaState.Usable, h.1] at hid, by simp⟩
  issued id := by rw [h.2]; simp
  new _ hid := absurd hid List.not_mem_nil

theorem Changes.allIssued (h : Changes accepted found fresh s s') (hs : s.AllIssued) : s'.AllIssued := by
  intro id hid
  rcases h.has id hid with hfresh | ⟨hold, -⟩
  · exact (h.issued id).2 (Or.inr hfresh)
  · exact (h.issued id).2 (Or.inl (hs id hold))

/-- A deleted code does not come back. -/
theorem Changes.gone (h : Changes accepted found fresh s s') (hid : s.Gone id) : s'.Gone id := by
  refine ⟨(h.issued id).2 (Or.inl hid.1), Bool.eq_false_iff.2 fun hhas => ?_⟩
  rcases h.has id hhas with hfresh | ⟨hold, -⟩
  · exact h.new id hfresh hid.1
  · rw [hid.2] at hold
    exact absurd hold (by simp)

/-- A code that cannot be used cannot be used again. -/
theorem Changes.spent (h : Changes accepted found fresh s s') (hid : id ∈ s.issued) (hspent : ¬s.Usable id) :
    id ∈ s'.issued ∧ ¬s'.Usable id := by
  refine ⟨(h.issued id).2 (Or.inl hid), fun husable => ?_⟩
  rcases h.usable id husable with hfresh | ⟨hold, -⟩
  · exact h.new id hfresh hid
  · exact hspent hold

theorem MfaState.Usable.hasCode (h : s.Usable id) : s.hasCode id = true := by
  obtain ⟨r, hr, hid, -⟩ := h
  exact hasCode_iff.2 ⟨r, hr, hid⟩

/-- Where all codes were found and deleted, the accepted one is among them. -/
theorem Changes.replaces (h : Changes none found fresh s s') (hfound : ∀ id, s.hasCode id = true → id ∈ found) :
    Changes accepted found fresh s s' := by
  refine ⟨h.has, fun id husable => ?_, h.issued, h.new⟩
  rcases h.has id husable.hasCode with hfresh | ⟨hold, hkept⟩
  · exact Or.inl hfresh
  · exact absurd (hfound id hold) hkept

/-- What the writes of a transaction come to. -/
theorem changes_of {now : Int} {rows : List RecoveryCode}
    (hcodes : s'.codes = ((consumed accepted now s.codes).filter fun r => r.id ∉ found) ++ rows)
    (hissued : s'.issued = s.issued ++ rows.map RecoveryCode.id)
    (hnew : ∀ id ∈ rows.map RecoveryCode.id, id ∉ s.issued) :
    Changes accepted found (rows.map RecoveryCode.id) s s' := by
  -- A row is one of the new ones, or was there and was not found.
  have row : ∀ r ∈ s'.codes, r.id ∈ rows.map RecoveryCode.id ∨ ∃ r₀ ∈ s.codes, r₀.id = r.id ∧ r.id ∉ found ∧
      (r.isValid = true → r₀.isValid = true ∧ accepted ≠ some r.id) := by
    intro r hr
    rw [hcodes] at hr
    rcases List.mem_append.1 hr with hr | hr
    · obtain ⟨hr, hfound⟩ := List.mem_filter.1 hr
      obtain ⟨r₀, hr₀, rfl⟩ := List.mem_map.1 hr
      refine Or.inr ⟨r₀, hr₀, ?_⟩
      split at hfound
      · next haccepted =>
        rw [if_pos haccepted]
        exact ⟨rfl, by simpa using hfound, fun hvalid => absurd hvalid (by simp [RecoveryCode.isValid])⟩
      · next haccepted =>
        rw [if_neg haccepted]
        exact ⟨rfl, by simpa using hfound, fun hvalid => ⟨hvalid, haccepted⟩⟩
    · exact Or.inl (List.mem_map_of_mem hr)
  refine ⟨fun id hid => ?_, fun id hid => ?_, fun id => by rw [hissued, List.mem_append], hnew⟩
  · obtain ⟨r, hr, rfl⟩ := hasCode_iff.1 hid
    rcases row r hr with hfresh | ⟨r₀, hr₀, hsame, hfound, -⟩
    · exact Or.inl hfresh
    · exact Or.inr ⟨hasCode_iff.2 ⟨r₀, hr₀, hsame⟩, hfound⟩
  · obtain ⟨r, hr, rfl, hvalid⟩ := hid
    rcases row r hr with hfresh | ⟨r₀, hr₀, hsame, -, hkept⟩
    · exact Or.inl hfresh
    · exact Or.inr ⟨⟨r₀, hr₀, hsame, (hkept hvalid).1⟩, (hkept hvalid).2⟩

end Changes

/-! ## What a session knows -/

section Stable

variable {H : Rights MfaKey} {s s' : MfaState} {id : Nat}

/-- Whatever the others do, it is one of these changes, and new codes have names that were drawn for them. -/
theorem changes_of_interferes (h : mfaProtocol.Interferes H s s') :
    ∃ accepted found fresh, Changes accepted found fresh s s' ∧ ∀ id ∈ fresh, (MfaKey.name id, .exclusive) ∉ H := by
  obtain ⟨-, -, henv | ⟨point, H', hcompat, -, hg⟩⟩ := h
  · exact ⟨none, [], [], SameCodes.changes henv, fun _ hid => absurd hid List.not_mem_nil⟩
  · cases point with
    | plain => exact ⟨none, [], [], SameCodes.changes hg, fun _ hid => absurd hid List.not_mem_nil⟩
    | challenged accepted => exact ⟨accepted, [], [], hg.2.2, fun _ hid => absurd hid List.not_mem_nil⟩
    | replaced accepted found =>
        obtain ⟨-, fresh, hnames, hchanges⟩ := hg
        refine ⟨none, found, fresh, hchanges, fun id hid hheld => ?_⟩
        exact hcompat.ne_of_exclusive hheld (hnames (List.mem_map_of_mem hid)) rfl

theorem stable_unused {names : List Nat} (hH : nameRights names ⊆ H) :
    mfaProtocol.Stable H fun s => ∀ id ∈ names, id ∉ s.issued := by
  intro s s' hi hunused id hid hissued
  obtain ⟨accepted, found, fresh, hchanges, hdrawn⟩ := changes_of_interferes hi
  rcases (hchanges.issued id).1 hissued with hold | hfresh
  · exact hunused id hid hold
  · exact hdrawn id hfresh (hH (List.mem_map_of_mem hid))

/-- Who has locked the user for a challenge finds the codes as they were. -/
theorem stable_usable (huser : (MfaKey.user, LockMode.exclusive) ∈ H)
    (hkey : (MfaKey.userKey, LockMode.exclusive) ∈ H) : mfaProtocol.Stable H fun s => s.Usable id := by
  rintro s s' ⟨-, -, henv | ⟨point, H', hcompat, -, hg⟩⟩ husable
  · have henv : SameCodes s s' := henv
    rwa [MfaState.Usable, henv.1]
  · cases point with
    | plain =>
        have hg : SameCodes s s' := hg
        rwa [MfaState.Usable, hg.1]
    | challenged accepted => exact absurd rfl (hcompat.ne_of_exclusive huser hg.1)
    | replaced accepted found => exact absurd rfl (hcompat.ne_of_exclusive hkey hg.1)

end Stable

/-! ## The transactions keep the protocol -/

section Calls

variable {h : MfaHost} {K : Rights MfaKey} {A : MfaState → Prop} {c : Ctx MfaState MfaKey} {s : MfaState}
  {accepted : Option Nat} {now : Int} {found names : List Nat} {user : SecondFactor} {p : Presented}
  {fresh : RecoverySet}

/-- What is seen of the codes. -/
def MfaState.seen (s : MfaState) : List RecoveryCode × List Nat :=
  (s.codes, s.issued)

abbrev KnowsCodes (K : Rights MfaKey) (A : MfaState → Prop)
    (M : MfaState → List RecoveryCode × List Nat → Prop) (c : Ctx MfaState MfaKey) (s : MfaState) : Prop :=
  mfaProtocol.Knows MfaState.seen (fun _ => True) K A M c s

/-- Nothing is written yet. -/
abbrev Unwritten (v : MfaState) (x : List RecoveryCode × List Nat) : Prop :=
  x = v.seen

/-- The accepted code is consumed. -/
abbrev Consumes (accepted : Option Nat) (now : Int) (v : MfaState) (x : List RecoveryCode × List Nat) : Prop :=
  x = (consumed accepted now v.codes, v.issued)

/-- What was found is deleted. -/
abbrev Deletes (found : List Nat) (v : MfaState) (x : List RecoveryCode × List Nat) : Prop :=
  x = (v.codes.filter fun r => r.id ∉ found, v.issued)

/-- And new codes are inserted. -/
abbrev Inserts (found : List Nat) (rows : List RecoveryCode) (v : MfaState) (x : List RecoveryCode × List Nat) :
    Prop :=
  x = ((v.codes.filter fun r => r.id ∉ found) ++ rows, v.issued ++ rows.map RecoveryCode.id)

theorem consumed_none (now : Int) (codes : List RecoveryCode) : consumed none now codes = codes := by
  simp [consumed]

theorem consumes_of_unwritten (now : Int) (hs : KnowsCodes K A Unwritten c s) :
    KnowsCodes K A (Consumes none now) c s := by
  refine hs.means fun v x _ hx => ?_
  rw [Consumes, consumed_none]
  exact hx

theorem local_updateUser (loaded value : SecondFactor) :
    (updateUser loaded value).Local (Protocol.Unseen MfaState.seen) :=
  Code.local_bind (Code.local_selectLocking _ _ _ _) fun _ => Code.local_write _ fun _ => rfl

theorem local_mfaAudit (action : String) : (mfaAudit action).Local (Protocol.Unseen MfaState.seen) :=
  Code.local_bind (Code.local_selectLocking _ _ _ _) fun _ => Code.local_write _ fun _ => rfl

theorem local_lockCodes (ids : List Nat) : (lockCodes ids).Local (Protocol.Unseen MfaState.seen) := by
  induction ids with
  | nil => exact Code.local_pure _
  | cons id ids ih => exact Code.local_bind (Code.local_selectLocking _ _ _ _) fun _ => ih

theorem local_verifyCode (user : SecondFactor) (p : Presented) :
    (verifyCode h user p).Local (Protocol.Unseen MfaState.seen) :=
  Code.local_ite (Code.local_pure _) (Code.local_bind (Code.local_select _ _) fun _ => Code.local_pure _)

theorem local_flushStep (user : SecondFactor) (verdict : Verdict) :
    (flushStep user verdict).Local (Protocol.Unseen MfaState.seen) := by
  cases verdict with
  | step step => exact local_updateUser _ _
  | _ => exact Code.local_pure _

theorem wp_flushCode {verdict : Verdict} (hs : KnowsCodes K A Unwritten c s)
    {Q : Unit → Ctx MfaState MfaKey → MfaState → Prop}
    (hQ : ∀ c' s', KnowsCodes K A (Consumes verdict.accepted now) c' s' → Q () c' s') :
    mfaProtocol.wp (flushCode now verdict) Q (fun _ _ _ => True) c s := by
  cases verdict with
  | refused => exact hQ c s (consumes_of_unwritten now hs)
  | step step => exact hQ c s (consumes_of_unwritten now hs)
  | recovery id =>
      refine Protocol.wp_seq (Protocol.wp_knowing (Code.local_selectLocking _ _ _ _) hs fun there c1 s1 h1 => ?_)
      refine Protocol.wp_seq (Protocol.wp_knowingRequire h1 fun _ => ?_)
      refine Protocol.wp_knowingWrite h1 (fun v w _ hw => ?_) hQ
      obtain ⟨hcodes, hissued⟩ := Prod.mk.inj hw
      show (consumed (some id) now w.codes, w.issued) = _
      rw [hcodes, hissued]
      rfl

theorem wp_deleteCodes (hs : KnowsCodes K A Unwritten c s)
    {Q : List Nat → Ctx MfaState MfaKey → MfaState → Prop}
    (hQ : ∀ found c' s', KnowsCodes K A (Deletes found) c' s' → Q found c' s') :
    mfaProtocol.wp deleteCodes Q (fun _ _ _ => True) c s := by
  refine Protocol.wp_seq (Protocol.wp_knowing (Code.local_select _ _) hs fun found c1 s1 h1 => ?_)
  refine Protocol.wp_seq (Protocol.wp_knowing (local_lockCodes _) h1 fun _ c2 s2 h2 => ?_)
  refine Protocol.wp_seq (Protocol.wp_knowingWrite (N := Deletes found) h2 (fun v w _ hw => ?_)
    fun c3 s3 h3 => Protocol.wp_pure (hQ found c3 s3 h3))
  obtain ⟨hcodes, hissued⟩ := Prod.mk.inj hw
  show (w.codes.filter _, w.issued) = _
  rw [hcodes, hissued]

theorem wp_insertCodes (hs : KnowsCodes K A (Deletes found) c s)
    {Q : Unit → Ctx MfaState MfaKey → MfaState → Prop}
    (hQ : ∀ c' s', KnowsCodes ((.userKey, .shared) :: K) A (Inserts found (newCodes fresh)) c' s' → Q () c' s') :
    mfaProtocol.wp (insertCodes fresh) Q (fun _ _ _ => True) c s := by
  refine Protocol.wp_seq (Protocol.wp_knowingLock hs (fun s' _ hnone => absurd hnone (by simp))
    fun s' r hs' hrow => ?_)
  obtain rfl := Option.some.inj hrow
  have h1 : KnowsCodes ((.userKey, .shared) :: K) A (Deletes found) (c.take .userKey .shared) s' :=
    ⟨List.cons_subset_cons _ hs'.held, hs'.stable.anti (List.subset_cons_self _ _), hs'.now, hs'.raises, hs'.pending⟩
  refine Protocol.wp_knowingWrite h1 (fun v w _ hw => ?_) hQ
  obtain ⟨hcodes, hissued⟩ := Prod.mk.inj hw
  show (w.codes ++ newCodes fresh, w.issued ++ fresh.codes.map Prod.fst) = _
  rw [hcodes, hissued, newCodes, List.map_map]
  rfl

/-- The end of a transaction that replaces the codes, with what it flushes of the user. -/
theorem wp_replaceCodes {action : String} {answer : MfaAnswer} {flush : MfaTx Unit}
    (hflush : flush.Local (Protocol.Unseen MfaState.seen)) (hnames : names = fresh.codes.map Prod.fst)
    (hs : KnowsCodes (nameRights names) (fun v => ∀ id ∈ names, id ∉ v.issued) Unwritten c s) :
    mfaProtocol.wp
      (deleteCodes >>= fun found => insertCodes fresh >>= fun _ => mfaAudit action >>= fun _ => flush >>= fun _ =>
        pure (answer, .replaced accepted found))
      (fun r c s => mfaProtocol.CommitsAt r.2 (fun _ => True) (fun _ _ => True) c s) (fun _ _ _ => True) c s := by
  refine Protocol.wp_seq (wp_deleteCodes hs fun found c1 s1 h1 => ?_)
  refine Protocol.wp_seq (wp_insertCodes h1 fun c2 s2 h2 => ?_)
  refine Protocol.wp_seq (Protocol.wp_knowing (local_mfaAudit _) h2 fun _ c3 s3 h3 => ?_)
  refine Protocol.wp_seq (Protocol.wp_knowing hflush h3 fun _ c4 s4 h4 => ?_)
  refine Protocol.wp_pure (Protocol.commits_knowing h4 fun v v' hunused hinv _ hinserts => ?_)
  have hids : (newCodes fresh).map RecoveryCode.id = names := by
    rw [hnames, newCodes, List.map_map]
    rfl
  obtain ⟨hcodes, hissued⟩ := Prod.mk.inj hinserts
  rw [← consumed_none 0 v.codes] at hcodes
  have hchanges := changes_of hcodes hissued fun id hid => hunused id (hids ▸ hid)
  rw [hids] at hchanges
  exact ⟨hchanges.allIssued hinv, ⟨h4.held List.mem_cons_self, names,
    fun x hx => h4.held (List.mem_cons_of_mem _ hx), hchanges⟩, trivial, fun _ => trivial⟩

/-- At the start of a call. -/
theorem knowsCodes_start (hnames : ∀ id ∈ names, id ∉ s.issued) :
    KnowsCodes (nameRights names) (fun v => ∀ id ∈ names, id ∉ v.issued) Unwritten (.start (nameRights names)) s :=
  Protocol.Knows.start (c := .start (nameRights names)) (stable_unused fun _ hx => hx) hnames (fun _ _ => trivial) rfl

theorem wp_confirm (hnames : ∀ id ∈ fresh.codes.map Prod.fst, id ∉ s.issued) :
    mfaProtocol.wp (confirm h p fresh) (fun _ _ _ => True) (fun _ _ _ => True)
      (.start (nameRights (fresh.codes.map Prod.fst))) s := by
  refine Protocol.wp_transaction (D := fun _ _ => True) (fun _ hx => hx) (fun _ => Protocol.stable_const _ _)
    (fun _ _ _ _ => trivial) ?_
  refine Protocol.wp_seq (Protocol.wp_knowing (Code.local_select _ _) (knowsCodes_start hnames)
    fun user c1 s1 h1 => ?_)
  refine Protocol.wp_seq (Protocol.wp_knowingOrRaise h1 fun ciphertext _ => ?_)
  exact Protocol.wp_seq (Protocol.wp_knowingRequire h1 fun _ => wp_replaceCodes (local_updateUser _ _) rfl h1)

theorem wp_regenerateRecoveryCodes {password : String} (hnames : ∀ id ∈ fresh.codes.map Prod.fst, id ∉ s.issued) :
    mfaProtocol.wp (regenerateRecoveryCodes h password p fresh) (fun _ _ _ => True) (fun _ _ _ => True)
      (.start (nameRights (fresh.codes.map Prod.fst))) s := by
  refine Protocol.wp_transaction (D := fun _ _ => True) (fun _ hx => hx) (fun _ => Protocol.stable_const _ _)
    (fun _ _ _ _ => trivial) ?_
  refine Protocol.wp_seq (Protocol.wp_knowing (Code.local_select _ _) (knowsCodes_start hnames)
    fun user c1 s1 h1 => ?_)
  refine Protocol.wp_seq (Protocol.wp_knowingRequire h1 fun _ => ?_)
  refine Protocol.wp_seq (Protocol.wp_knowingRequire h1 fun _ => ?_)
  refine Protocol.wp_seq (Protocol.wp_knowing (local_verifyCode _ _) h1 fun verdict c2 s2 h2 => ?_)
  exact Protocol.wp_seq (Protocol.wp_knowingRequire h2 fun _ => wp_replaceCodes (local_flushStep _ _) rfl h2)

/-- A code that a challenge accepts can be used, as long as it holds the user. -/
theorem wp_verifyCode {Q : Verdict → Ctx MfaState MfaKey → MfaState → Prop}
    (huser : (MfaKey.user, LockMode.exclusive) ∈ K) (hkey : (MfaKey.userKey, LockMode.exclusive) ∈ K)
    (hs : KnowsCodes K (fun _ => True) Unwritten c s)
    (hQ : ∀ verdict c' s', KnowsCodes K (fun v => ∀ id ∈ verdict.accepted, v.Usable id) Unwritten c' s' →
      Q verdict c' s') :
    mfaProtocol.wp (verifyCode h user p) Q (fun _ _ _ => True) c s := by
  have known : ∀ (verdict : Verdict) (s' : MfaState), KnowsCodes K (fun _ => True) Unwritten c s' →
      (∀ id ∈ verdict.accepted, s'.Usable id) →
        KnowsCodes K (fun v => ∀ id ∈ verdict.accepted, v.Usable id) Unwritten c s' := by
    intro verdict s' hs' husable
    refine hs'.refine (fun v v' hi hv id hid => ?_) husable fun _ _ => trivial
    exact stable_usable huser hkey v v' hi (hv id hid)
  unfold verifyCode
  split
  · refine hQ _ c s (known _ s hs fun id hid => ?_)
    split at hid
    · exact absurd hid (by simp [Verdict.accepted])
    · exact absurd hid (by simp [Verdict.accepted])
  · refine Protocol.wp_seq (Protocol.wp_knowingSelect hs fun s' hs' => hQ _ c s' (known _ s' hs' fun id hid => ?_))
    have hcodes : (c.pending s').codes = s'.codes := congrArg Prod.fst (hs'.pending s' trivial)
    unfold recoveryFor at hid
    split at hid
    · exact absurd hid (by simp [Verdict.accepted])
    · next r hr =>
      obtain rfl := Option.some.inj hid
      obtain ⟨hmem, hvalid⟩ := List.mem_filter.1 (List.mem_of_find?_eq_some hr)
      exact ⟨r, hcodes ▸ hmem, rfl, hvalid⟩

/-- The commit of a challenge. -/
theorem commits_challenge (huser : (MfaKey.user, LockMode.exclusive) ∈ K)
    (hs : KnowsCodes K (fun v => ∀ id ∈ accepted, v.Usable id) (Consumes accepted now) c s) :
    mfaProtocol.CommitsAt (.challenged accepted) (fun _ => True) (fun _ _ => True) c s := by
  refine Protocol.commits_knowing hs fun v v' husable hinv _ hconsumes => ?_
  obtain ⟨hcodes, hissued⟩ := Prod.mk.inj hconsumes
  have hkept : v'.codes = ((consumed accepted now v.codes).filter fun r => r.id ∉ ([] : List Nat)) ++ [] := by
    rw [hcodes, List.append_nil]
    exact (List.filter_eq_self.2 fun r _ => by simp).symm
  have hchanges := changes_of hkept (by rw [hissued, List.map_nil, List.append_nil]) fun _ hid =>
    absurd hid List.not_mem_nil
  exact ⟨hchanges.allIssued hinv, ⟨hs.held huser, husable, hchanges⟩, trivial, fun _ => trivial⟩

theorem wp_completeMfaChallenge :
    mfaProtocol.wp (completeMfaChallenge h p) (fun _ _ _ => True) (fun _ _ _ => True) (.start []) s := by
  refine Protocol.wp_transaction (D := fun _ _ => True) (fun _ hx => hx) (fun _ => Protocol.stable_const _ _)
    (fun _ _ _ _ => trivial) ?_
  have h0 : KnowsCodes [] (fun _ => True) Unwritten (.start []) s :=
    Protocol.Knows.start (c := .start []) (Protocol.stable_const _ True) trivial (fun _ _ => trivial) rfl
  -- `FOR UPDATE` takes the key of the row and the row.
  have take : ∀ (K : Rights MfaKey) (r : MfaKey) c' s', KnowsCodes K (fun _ => True) Unwritten c' s' →
      KnowsCodes ((r, .exclusive) :: K) (fun _ => True) Unwritten (c'.take r .exclusive) s' :=
    fun K r c' s' h' => ⟨List.cons_subset_cons _ h'.held, Protocol.stable_const _ _, trivial, h'.raises, h'.pending⟩
  refine Protocol.wp_seq (Protocol.wp_knowingLock h0 (fun _ _ hnone => absurd hnone (by simp)) fun s1 r h1 hrow => ?_)
  obtain rfl := Option.some.inj hrow
  have h1 := take _ .userKey _ s1 h1
  refine Protocol.wp_seq (Protocol.wp_knowingLock h1 (fun _ _ hnone => absurd hnone (by simp)) fun s2 r h2 hrow => ?_)
  obtain rfl := Option.some.inj hrow
  have h2 := take _ .user _ s2 h2
  split
  · have hnone : ∀ v : MfaState, ∀ id ∈ (none : Option Nat), v.Usable id := fun _ _ hid => absurd hid (by simp)
    have h3 := (consumes_of_unwritten 0 h2).refine (fun _ v _ _ => hnone v) (hnone s2) fun _ _ => trivial
    exact Protocol.wp_pure (commits_challenge List.mem_cons_self h3)
  · refine Protocol.wp_seq (wp_verifyCode List.mem_cons_self (List.mem_cons_of_mem _ List.mem_cons_self) h2
      fun verdict c3 s3 h3 => ?_)
    refine Protocol.wp_seq (wp_flushCode h3 fun c4 s4 h4 => ?_)
    refine Protocol.wp_seq (Protocol.wp_knowing (local_mfaAudit _) h4 fun _ c5 s5 h5 => ?_)
    refine Protocol.wp_seq (Protocol.wp_knowing (local_flushStep _ _) h5 fun _ c6 s6 h6 => ?_)
    exact Protocol.wp_pure (commits_challenge List.mem_cons_self h6)

end Calls

/-! ## Recovery codes work once -/

section Runs

variable {h : MfaHost} {Y Z : MfaSystem} {steps : List MfaStep}

theorem mfa_governed : mfaProtocol.Governs (fun _ _ _ => True) (fun _ _ _ => True) (mfaRuns h) where
  lasting := Protocol.lasting_true
  lasting_raise := Protocol.lasting_true
  starts := by
    rintro base code s - ⟨call, hnames, rfl, rfl⟩
    cases call with
    | challenge p => exact wp_completeMfaChallenge
    | confirm p fresh => exact wp_confirm hnames
    | regenerate password p fresh => exact wp_regenerateRecoveryCodes hnames
  env := fun _ _ hinv hsame => ⟨hsame, (SameCodes.changes hsame).allIssued hinv⟩
  lossy := fun hl => hl
  fault := fun _ _ _ => trivial

/-- What a step does to the codes. -/
structure StepChanges (x : MfaStep) (s' : MfaState) (found fresh : List Nat) : Prop where
  changes : Changes (acceptedIn x) found fresh x.1.shared s'
  usable : ∀ id ∈ acceptedIn x, x.1.shared.Usable id
  replaces : ReplacesIn x → ∀ id, x.1.shared.hasCode id = true → id ∈ found

theorem stepChanges_of_moves {X : MfaSystem} {l : MfaLabel} {s' : MfaState} (hmeets : mfaProtocol.Meets X l)
    (hmoves : mfaProtocol.Moves X l s') : ∃ found fresh, StepChanges (X, l) s' found fresh := by
  have silent : acceptedIn (X, l) = none → ¬ReplacesIn (X, l) → SameCodes X.shared s' →
      ∃ found fresh, StepChanges (X, l) s' found fresh := by
    intro hnone hkeeps hsame
    refine ⟨[], [], ?_, ?_, fun hreplaces => absurd hreplaces hkeeps⟩
    · rw [hnone]
      exact hsame.changes
    · rw [hnone]
      exact fun _ hid => absurd hid (by simp)
  unfold Protocol.Moves at hmoves
  cases hpub : X.publishes l with
  | none =>
      rw [hpub] at hmoves
      refine silent (by simp [acceptedIn, hpub]) (by simp [ReplacesIn, hpub]) ?_
      rcases hmoves with rfl | henv
      · exact ⟨rfl, rfl⟩
      · exact henv
  | some point =>
      rw [hpub] at hmoves
      obtain ⟨H, hg⟩ := hmoves
      cases point with
      | plain => exact silent (by simp [acceptedIn, hpub]) (by simp [ReplacesIn, hpub]) hg
      | challenged accepted =>
          have haccepted : acceptedIn (X, l) = accepted := by simp [acceptedIn, hpub]
          refine ⟨[], [], ?_, ?_, by simp [ReplacesIn, hpub]⟩
          · rw [haccepted]
            exact hg.2.2
          · rw [haccepted]
            exact hg.2.1
      | replaced accepted found =>
          have haccepted : acceptedIn (X, l) = accepted := by simp [acceptedIn, hpub]
          obtain ⟨-, fresh, -, hchanges⟩ := hg
          have hcond : X.shared.asFound accepted found = true := hmeets.publishes hpub
          obtain ⟨hall, husable⟩ := Bool.and_eq_true_iff.1 hcond
          have hfound : ∀ id, X.shared.hasCode id = true → id ∈ found := by
            intro id hid
            obtain ⟨r, hr, rfl⟩ := hasCode_iff.1 hid
            simpa using List.all_eq_true.1 hall r hr
          refine ⟨found, fresh, hchanges.replaces hfound, ?_, fun _ => hfound⟩
          rw [haccepted]
          intro id hid
          rw [Option.mem_def.1 hid, Option.all_some] at husable
          obtain ⟨r, hr, hcode⟩ := List.any_eq_true.1 husable
          simp only [Bool.and_eq_true, decide_eq_true_eq] at hcode
          exact ⟨r, hr, hcode.1, hcode.2⟩

/-- What is known after some steps: the codes accepted so far cannot be used, and those that were there before a
    new set are gone. -/
structure Retired (steps : List MfaStep) (s : MfaState) : Prop where
  once : WorkOnce steps
  accepted : ∀ id ∈ steps.filterMap acceptedIn, id ∈ s.issued ∧ ¬s.Usable id
  replaced : ∀ x ∈ steps, ReplacesIn x → ∀ id, x.1.shared.hasCode id = true → s.Gone id

theorem Retired.step {X : MfaSystem} {l : MfaLabel} {s' : MfaState} {found fresh : List Nat}
    (hr : Retired steps X.shared) (hinv : X.shared.AllIssued) (hs : StepChanges (X, l) s' found fresh) :
    Retired (steps ++ [(X, l)]) s' := by
  have hlast : [(X, l)].filterMap acceptedIn = (acceptedIn (X, l)).toList := by
    cases hx : acceptedIn (X, l) with
    | none => rw [List.filterMap_cons_none hx, List.filterMap_nil, Option.toList_none]
    | some id => rw [List.filterMap_cons_some hx, List.filterMap_nil, Option.toList_some]
  refine ⟨⟨?_, ?_⟩, fun id hid => ?_, fun x hx hreplaces id hid => ?_⟩
  · rw [List.filterMap_append, hlast]
    refine List.nodup_append.2 ⟨hr.once.once, ?_, ?_⟩
    · cases acceptedIn (X, l) <;> simp
    · intro id hid id' hid' hsame
      subst hsame
      exact (hr.accepted id hid).2 (hs.usable id (Option.mem_toList.1 hid'))
  · intro past x future hsplit hreplaces y hy id hid
    rcases List.eq_nil_or_concat future with rfl | ⟨before, z, rfl⟩
    · exact absurd hy List.not_mem_nil
    · rw [List.concat_eq_append] at hsplit hy
      have hsplit : steps ++ [(X, l)] = (past ++ x :: before) ++ [z] := by rw [hsplit]; simp
      obtain ⟨hsteps, hz⟩ := List.append_inj' hsplit rfl
      obtain rfl : (X, l) = z := by simpa using hz
      rcases List.mem_append.1 hy with hy | hy
      · exact hr.once.replaced past x before hsteps hreplaces y hy id hid
      · obtain rfl := List.mem_singleton.1 hy
        by_contra hthere
        have hgone := hr.replaced x (by rw [hsteps]; simp) hreplaces id (by simpa using hthere)
        have husable := (hs.usable id hid).hasCode
        rw [hgone.2] at husable
        exact absurd husable (by simp)
  · rw [List.filterMap_append, hlast] at hid
    rcases List.mem_append.1 hid with hold | hnew
    · obtain ⟨hissued, hspent⟩ := hr.accepted id hold
      exact hs.changes.spent hissued hspent
    · have haccepted := Option.mem_toList.1 hnew
      have hissued := hinv id (hs.usable id haccepted).hasCode
      refine ⟨(hs.changes.issued id).2 (Or.inl hissued), fun husable => ?_⟩
      rcases hs.changes.usable id husable with hfresh | ⟨-, hother⟩
      · exact hs.changes.new id hfresh hissued
      · exact hother haccepted
  · rcases List.mem_append.1 hx with hx | hx
    · exact hs.changes.gone (hr.replaced x hx hreplaces id hid)
    · obtain rfl := List.mem_singleton.1 hx
      have hissued := hinv id hid
      refine ⟨(hs.changes.issued id).2 (Or.inl hissued), Bool.eq_false_iff.2 fun hhas => ?_⟩
      rcases hs.changes.has id hhas with hfresh | ⟨-, hkept⟩
      · exact hs.changes.new id hfresh hissued
      · exact hkept (hs.replaces hreplaces id hid)

theorem meets_of_asFound {x : MfaStep} (hx : codesAsFound x = true) : mfaProtocol.Meets x.1 x.2 := by
  intro point act hexecutes
  cases point with
  | replaced accepted found =>
      unfold codesAsFound at hx
      rw [hexecutes] at hx
      exact hx
  | _ => trivial

/-- **A recovery code works once**, and no code of an older set works, where a new set is committed only while the
    codes are as its transaction has found them. -/
theorem recovery_codes_work_once (hrun : Run (mfaRuns h) Y steps Z) (hidle : Y.sessions = [])
    (hissued : Y.shared.AllIssued) (hfound : ∀ x ∈ steps, codesAsFound x = true) : WorkOnce steps := by
  have hretired : Retired steps Z.shared := by
    refine mfa_governed.induct (Protocol.good_of_idle _ hissued hidle) hrun
      (fun x hx => meets_of_asFound (hfound x hx)) (motive := Retired) ?_ ?_
    · refine ⟨⟨List.nodup_nil, fun past x future hsplit => ?_⟩, fun _ hid => absurd hid List.not_mem_nil,
        fun _ hx => absurd hx List.not_mem_nil⟩
      exact absurd hsplit (by simp)
    · intro past X l s' hr hinv _ hmeets hmoves
      obtain ⟨found, fresh, hs⟩ := stepChanges_of_moves hmeets hmoves
      exact hr.step hinv hs
  exact hretired.once

end Runs

/-! ### Two codes -/

/-- A user with two recovery codes. -/
def twoCodes : MfaSystem where
  shared := ⟨sampleFactor [⟨0, "hash:R", none, none⟩, ⟨9, "hash:Q", none, none⟩], [0, 9]⟩
  sessions := []

/-- Eight new codes, with identifiers from the first one on. -/
def setFrom (first : Nat) : RecoverySet :=
  ⟨(List.range 8).map fun n => (first + n, "hash:new"), rfl⟩

def startCall (call : MfaCall) : MfaLabel :=
  .start (nameRights call.names) (call.run sampleMfaHost)

/-- The names of a call that begins are new. -/
def namesNew (x : MfaStep) : Bool :=
  match x.2 with
  | .start base _ => base.all fun y => match y.1 with
      | .name id => id ∉ x.1.shared.issued
      | _ => true
  | _ => true

theorem replay_mfa {labels : List MfaLabel} {Y Z : MfaSystem} {steps : List MfaStep}
    (hlabels : ∀ l ∈ labels, (∃ call, l = startCall call) ∨ ∃ i, l = .run i) (hnew : steps.all namesNew = true)
    (h : Y.replay labels = some (steps, Z)) : Run (mfaRuns sampleMfaHost) Y steps Z := by
  refine System.replay_steps_run h fun x hx => ?_
  have hl : x.2 ∈ labels := System.replay_labels h ▸ List.mem_map_of_mem hx
  have hx := List.all_eq_true.1 hnew x hx
  obtain ⟨X, l⟩ := x
  obtain ⟨call, rfl⟩ | ⟨i, rfl⟩ := hlabels l hl
  · refine ⟨call, fun id hid => ?_, rfl, rfl⟩
    have hid := List.all_eq_true.1 hx (.name id, .exclusive) (List.mem_map_of_mem hid)
    simpa using hid
  · trivial

theorem mfa_label_runs {i n : Nat} : ∀ l ∈ (Label.runs i n : List MfaLabel),
    (∃ call, l = startCall call) ∨ ∃ i, l = .run i :=
  fun _ hl => Or.inr ⟨i, List.eq_of_mem_replicate hl⟩

theorem mfa_label_call (call : MfaCall) : (∃ call', startCall call = startCall call') ∨
    ∃ i, startCall call = .run i :=
  Or.inl ⟨call, rfl⟩

theorem allIssued_twoCodes : twoCodes.shared.AllIssued := by
  intro id hid
  obtain ⟨r, hr, rfl⟩ := hasCode_iff.1 hid
  have hall : (twoCodes.shared.codes.all fun r => decide (r.id ∈ twoCodes.shared.issued)) = true := rfl
  exact of_decide_eq_true (List.all_eq_true.1 hall r hr)

/-- A challenge with one code, then a new set with the other. -/
theorem recovery_codes_work_once_in_turn :
    ∃ steps Z, Run (mfaRuns sampleMfaHost) twoCodes steps Z ∧ steps.filterMap acceptedIn = [0, 9] ∧
      WorkOnce steps := by
  obtain ⟨steps, Z, hreplay, hp⟩ := System.exists_replay (Y := twoCodes)
    (startCall (.challenge ⟨"R", 60, 60⟩) :: (Label.runs 0 8 ++
      startCall (.regenerate "password" ⟨"Q", 90, 90⟩ (setFrom 10)) :: Label.runs 1 11))
    (p := fun steps _ => steps.all namesNew && steps.all codesAsFound &&
      decide (steps.filterMap acceptedIn = [0, 9])) (by decide +kernel)
  simp only [Bool.and_eq_true, decide_eq_true_eq] at hp
  have hrun := replay_mfa (List.forall_mem_cons.2 ⟨mfa_label_call _, List.forall_mem_append.2
    ⟨mfa_label_runs, List.forall_mem_cons.2 ⟨mfa_label_call _, mfa_label_runs⟩⟩⟩) hp.1.1 hreplay
  exact ⟨steps, Z, hrun, hp.2,
    recovery_codes_work_once hrun rfl allIssued_twoCodes (List.all_eq_true.1 hp.1.2)⟩

/-- Two new sets are asked for with one code: each call finds it unused, and none of them consumes it. -/
theorem not_recovery_codes_work_once :
    ¬∀ (h : MfaHost) (Y Z : MfaSystem) (steps : List MfaStep), Run (mfaRuns h) Y steps Z → Y.sessions = [] →
      Y.shared.AllIssued → WorkOnce steps := by
  intro h
  obtain ⟨steps, Z, hreplay, hp⟩ := System.exists_replay (Y := twoCodes)
    (startCall (.regenerate "password" ⟨"R", 60, 60⟩ (setFrom 10)) :: (Label.runs 0 2 ++
      startCall (.regenerate "password" ⟨"R", 60, 60⟩ (setFrom 20)) :: (Label.runs 1 2 ++ (Label.runs 0 9 ++
        Label.runs 1 15))))
    (p := fun steps _ => steps.all namesNew && decide (steps.filterMap acceptedIn = [0, 0])) (by decide +kernel)
  simp only [Bool.and_eq_true, decide_eq_true_eq] at hp
  have hrun := replay_mfa (List.forall_mem_cons.2 ⟨mfa_label_call _, List.forall_mem_append.2
    ⟨mfa_label_runs, List.forall_mem_cons.2 ⟨mfa_label_call _, List.forall_mem_append.2
      ⟨mfa_label_runs, List.forall_mem_append.2 ⟨mfa_label_runs, mfa_label_runs⟩⟩⟩⟩⟩) hp.1 hreplay
  have honce := (h sampleMfaHost twoCodes Z steps hrun rfl allIssued_twoCodes).once
  rw [hp.2] at honce
  exact absurd honce (by decide)

end Rubrica.Recovery
