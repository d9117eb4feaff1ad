import Rubrica.Sessions.Invariants
import Rubrica.Sessions.Service
import Rubrica.Transactions.Ownership

set_option autoImplicit false

/-! # Sessions in any interleaving

Calls of any users run at once, with each other and with what else writes the tables. `authProtocol` is
what they promise each other: they only execute commands that keep the invariants of the session store. In
two regimes it adds what holds of runs that meet a condition: the index of sessions, and the passwords
behind them. -/

namespace Rubrica

open Transactions

/-! ## The protocol -/

def authCond : AuthRegime → AuthPoint → AuthWorld → Prop
  | .index, .command (.delete keys), w =>
      ∀ user, .userSessions user ∈ keys → ∀ id ∈ w.redis.userSessions user, w.redis.sessions id = none
  | .password, .completing ticket user, w => w.ticketChecked ticket = w.changes user
  | .password, .passwordChange user loaded, w =>
      ∀ row, w.users.get? user = some row → row.tokenVersion = loaded
  | _, _, _ => True

def authProtocol (R : AuthRegime) : Protocol AuthWorld AuthKey AuthPoint where
  inv w := w.Inv ∧ (R = .index → w.Indexed) ∧ (R = .password → w.Stamped)
  guar point H w w' :=
    match point with
    | .command c => w' = w.execute c ∧ Allowed R H c w
    | .passwordChange user loaded => AuthWorld.PasswordChanged user loaded H w w'
    | _ => w.Elsewhere w'
  env w w' := w.Elsewhere w' ∨ R = .password ∧ ∃ keys, w' = w.lapse keys
  cond := authCond R
  lossy := True

/-! ## What the others may do meanwhile -/

section Interference

variable {R : AuthRegime} {H : Rights AuthKey} {c : Command} {w w' : AuthWorld}

theorem authInv_execute (h : (authProtocol R).inv w) (ha : Allowed R H c w) (hc : authCond R (.command c) w) :
    (authProtocol R).inv (w.execute c) := by
  refine ⟨h.1.execute ha, fun hR => ?_, fun hR => ?_⟩
  · refine (h.2.1 hR).execute h.1 ha fun keys he user hkey => ?_
    subst hR he
    exact hc user hkey
  · subst hR
    exact (h.2.2 rfl).execute ha

/-- What a step of a call does, by its point. -/
theorem authGuar_cases {point : AuthPoint} (h : (authProtocol R).guar point H w w') :
    (∃ c, point = .command c ∧ w' = w.execute c ∧ Allowed R H c w) ∨
    (∃ user loaded, point = .passwordChange user loaded ∧ AuthWorld.PasswordChanged user loaded H w w') ∨
    w.Elsewhere w' := by
  cases point with
  | plain => exact Or.inr (Or.inr h)
  | completing ticket user => exact Or.inr (Or.inr h)
  | command c => exact Or.inl ⟨c, rfl, h⟩
  | passwordChange user loaded => exact Or.inr (Or.inl ⟨user, loaded, rfl, h⟩)

theorem later_of_guar {point : AuthPoint} (h : (authProtocol R).guar point H w w') : w.Later w' := by
  obtain ⟨c, -, rfl, ha⟩ | ⟨user, loaded, -, hp⟩ | he := authGuar_cases h
  · exact AuthWorld.later_execute ha
  · exact hp.later
  · exact he.later

theorem later_of_env (h : (authProtocol R).env w w') : w.Later w' := by
  obtain he | ⟨-, keys, rfl⟩ := h
  · exact he.later
  · exact AuthWorld.later_lapse keys w

theorem later_of_interferes (h : (authProtocol R).Interferes H w w') : w.Later w' := by
  obtain ⟨-, -, he | ⟨point, H', -, -, hg⟩⟩ := h
  · exact later_of_env he
  · exact later_of_guar hg

theorem later_of_rely (h : (authProtocol R).Rely H w w') : w.Later w' := by
  induction h with
  | refl => exact .refl w
  | tail _ hi ih => exact ih.trans (later_of_interferes hi)

/-- What is not forgotten is stable. -/
theorem stable_later {A : AuthWorld → Prop} (hA : ∀ w w', w.Later w' → A w → A w') :
    (authProtocol R).Stable H A :=
  fun w w' hi => hA w w' (later_of_interferes hi)

theorem issued_of_guar {point : AuthPoint} {name : AuthKey} (h : (authProtocol R).guar point H w w')
    (hn : w'.Issued name) : w.Issued name ∨ (name, LockMode.exclusive) ∈ H := by
  obtain ⟨c, -, rfl, ha⟩ | ⟨user, loaded, -, hp⟩ | he := authGuar_cases h
  · rcases AuthWorld.issued_execute_iff.1 hn with hn | hn
    · exact Or.inr (ha.names name hn).1
    · exact Or.inl hn
  · obtain ⟨c, hc, hname⟩ := hn
    exact Or.inl ⟨c, (AuthWorld.ran_passwordChanged hp.history c).1 hc, hname⟩
  · obtain ⟨c, hc, hname⟩ := hn
    exact Or.inl ⟨c, (he.ran_iff c).1 hc, hname⟩

theorem issued_of_env {name : AuthKey} (h : (authProtocol R).env w w') (hn : w'.Issued name) :
    w.Issued name := by
  obtain ⟨c, hc, hname⟩ := hn
  obtain he | ⟨-, keys, rfl⟩ := h
  · exact ⟨c, (he.ran_iff c).1 hc, hname⟩
  · exact ⟨c, hc, hname⟩

/-- A name that was drawn is brought into use by nobody else. -/
theorem stable_unissued {name : AuthKey} (h : (name, LockMode.exclusive) ∈ H) :
    (authProtocol R).Stable H fun w => ¬w.Issued name := by
  rintro w w' ⟨-, -, he | ⟨point, H', hcompat, -, hg⟩⟩ hn hn'
  · exact hn (issued_of_env he hn')
  · rcases issued_of_guar hg hn' with hn' | hheld
    · exact hn hn'
    · exact hcompat.ne_of_exclusive h hheld rfl

theorem stable_inIndex {id : Nat} (h : (.session id, LockMode.exclusive) ∈ H) :
    (authProtocol R).Stable H fun w => w.InIndex id := by
  rintro w w' hi hindex st n hran hid
  have hlater := later_of_interferes hi
  by_cases hold : w.Issued (.session id)
  · -- It was stored before, by the only command that stores it.
    obtain ⟨c, hc, hname⟩ := hold
    cases c with
    | setSession st0 n0 =>
        have hid0 : id = st0.sessionId := by simpa [Command.names] using hname
        obtain ⟨rfl, -⟩ := hi.2.1.1.once st st0 n n0 hran (hlater.ran _ hc) (hid.trans hid0)
        exact hlater.ran _ (hindex st n0 hc hid)
    | _ => exact absurd hname (by simp [Command.names])
  · have hnew := stable_unissued (R := R) h w w' hi hold
    exact absurd (hid ▸ hran.issued) hnew

theorem stable_stamp (user : UUID) (version : Int) (checked : Nat) :
    (authProtocol R).Stable H fun w => R = .password → w.Stamp user version checked := by
  rintro w w' ⟨-, -, he | ⟨point, H', -, hcond, hg⟩⟩ hs rfl
  all_goals replace hs := hs rfl
  · obtain he | ⟨-, keys, rfl⟩ := he
    · exact he.stamp hs
    · exact hs
  · obtain ⟨c, -, rfl, -⟩ | ⟨id, loaded, rfl, hp⟩ | he := authGuar_cases hg
    · exact hs.execute c
    · exact hp.stamp hcond hs
    · exact he.stamp hs

/-- A refresh token that was used stays so, while keys do not lapse. -/
theorem used_execute {token id : Nat} (hi : w.Inv) (ha : Allowed R H c w)
    (h : w.redis.usedRefresh token = some id) : (w.execute c).redis.usedRefresh token = some id := by
  cases c with
  | delete keys =>
      show (w.redis.delete keys).usedRefresh token = some id
      simp [Redis.delete, ha.duty.1 token, h]
  | rotate a =>
      show (w.redis.rotate a).usedRefresh token = some id
      cases hr : w.redis.rotates a with
      | none => rw [Redis.rotate_of_none hr, h]
      | some current =>
          rw [Redis.rotate_of_some hr, Redis.rotated_usedRefresh, if_neg, h]
          rintro rfl
          -- A token that can be rotated was not used.
          have htok := (Redis.rotates_eq_some.1 hr).1
          rw [← ha.duty.1, (hi.used _ _ h).1] at htok
          exact absurd htok (by simp)
  | _ => exact h

theorem stable_used (hR : R ≠ .password) {token id : Nat} :
    (authProtocol R).Stable H fun w => w.redis.usedRefresh token = some id := by
  rintro w w' ⟨hinv, -, he | ⟨point, H', -, -, hg⟩⟩ h
  · obtain he | ⟨hp, -⟩ := he
    · rw [he.redis]
      exact h
    · exact absurd hp hR
  · obtain ⟨c, -, rfl, ha⟩ | ⟨user, loaded, -, hp⟩ | he := authGuar_cases hg
    · exact used_execute hinv.1 ha h
    · rw [hp.redis]
      exact h
    · rw [he.redis]
      exact h

end Interference

end Rubrica
