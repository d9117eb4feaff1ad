import Rubrica.Sessions.Logins
import Rubrica.Sessions.Rotation
import Rubrica.Transactions.Notes

set_option autoImplicit false

/-! # Tickets of the second factor

Any number of `complete_mfa_challenge` calls with one ticket. Each call draws a number from the counter of the
ticket, reads its user and locks the user's row. The numbers bound the codes that are tried; that a ticket is
used once depends on its being there when the row is locked. -/

namespace Rubrica

open Transactions

/-! ## What is claimed of a ticket -/

/-- What others leave of a ticket: it lapses, or stays with a counter that is not reset. -/
def KeepsTicket (ticket : Nat) (r r' : Redis) : Prop :=
  r'.mfa ticket ≠ none → r'.mfa ticket = r.mfa ticket ∧
    r.counters (.mfaAttempts ticket) ≤ r'.counters (.mfaAttempts ticket)

/-- Calls with one ticket. Meanwhile all else may change, and the ticket may lapse. -/
def ticketRuns (host : AuthHost) (ticket : Nat) : Setting AuthWorld AuthKey AuthPoint Failure AuthAnswer where
  starts base code _ := ∃ tried names, base = (AuthCall.completeMfaChallenge ticket tried names).rights ∧
    code = completeMfaChallenge host ticket tried names
  env w w' := KeepsTicket ticket w.redis w'.redis
  lossy := True

/-- The step loads the user of the ticket. -/
def loadsUser (ticket : Nat) (x : AuthStep) : Bool :=
  match x.1.executes x.2 with
  | some (.completing t _, _) => t = ticket
  | _ => false

/-- The step loads the user of the ticket, whose code goes to `verify_user_code`. -/
def verifiesCode (ticket : Nat) (x : AuthStep) : Bool :=
  match x.1.executes x.2 with
  | some (.completing t id, _) =>
      t = ticket && (x.1.shared.users.get? id).any fun user =>
        user.isActive && user.emailVerified && user.mfaEnabled
  | _ => false

/-- The step stores a session. -/
def storesSession (x : AuthStep) : Bool :=
  match x.1.executes x.2 with
  | some (.command (.setSession _ _), _) => true
  | _ => false

/-- Where the user of the ticket is loaded, the ticket is still there. -/
def ticketStored (ticket : Nat) (x : AuthStep) : Bool :=
  !loadsUser ticket x || (x.1.shared.redis.mfa ticket).isSome

/-- One session, and no code after it. -/
structure TicketUsedOnce (ticket : Nat) (steps : List AuthStep) : Prop where
  single : steps.countP storesSession ≤ 1
  final : ∀ x ∈ steps, verifiesCode ticket x = true → ∀ i r, x.1.returned i ≠ some (.loggedIn r)

/-! ## How far the calls have come -/

inductive MfaPhase where
  /-- Is about to draw its number. -/
  | idle
  /-- Has a number. -/
  | counting
  /-- Has read the user of the ticket. -/
  | holding
  /-- Has locked the user's row. -/
  | verifying
  /-- Has deleted the ticket, after a right code. -/
  | won
  | created
  | ended
  deriving DecidableEq

/-- The user's row has not been loaded. -/
def MfaPhase.early : MfaPhase → Bool
  | idle | counting | holding => true
  | _ => false

/-- `number` is the one drawn while the ticket was there. -/
structure MfaNote where
  number : Option Nat
  phase : MfaPhase

inductive MfaEvent where
  | loaded
  | created
  deriving DecidableEq

abbrev MfaScene := Scene AuthWorld AuthKey MfaNote MfaEvent

section Scenes

variable {ticket holder : Nat} {S : MfaScene} {i : Nat}

/-- The numbers of a ticket. -/
structure TicketNumbers (ticket : Nat) (S : MfaScene) : Prop where
  distinct : ∀ i j n, (S.note i).number = some n → (S.note j).number = some n → i = j
  bounded : S.shared.redis.mfa ticket ≠ none →
    ∀ i n, (S.note i).number = some n → n ≤ S.shared.redis.counters (.mfaAttempts ticket)
  late : ∀ i, (S.note i).phase = .counting → (S.note i).number = none → S.shared.redis.mfa ticket = none
  loaded : ∀ i, (i, MfaEvent.loaded) ∈ S.told → ∃ n, (S.note i).number = some n ∧ 1 ≤ n ∧ n ≤ 5
  once : (S.told.filter fun y => y.2 = .loaded).Nodup
  early : ∀ i, (S.note i).phase.early = true → (i, MfaEvent.loaded) ∉ S.told

/-- The sessions of a ticket. -/
structure TicketSessions (ticket : Nat) (holder : UUID) (S : MfaScene) : Prop where
  user : ∀ id, S.shared.redis.mfa ticket = some id → id = holder
  locked : ∀ i, (S.note i).phase = .verifying → (AuthKey.user holder, LockMode.exclusive) ∈ S.held i
  alone : ∀ i j, (S.note i).phase = .verifying → (S.note j).phase = .verifying → i = j
  won : ∀ i, (S.note i).phase = .won →
    S.shared.redis.mfa ticket = none ∧ (∀ y ∈ S.told, y.2 ≠ .created) ∧
      (∀ j, (S.note j).phase ≠ .verifying) ∧ ∀ j, (S.note j).phase = .won → j = i
  created : ∀ y ∈ S.told, y.2 = .created →
    S.shared.redis.mfa ticket = none ∧ ∀ j, (S.note j).phase ≠ .verifying
  once : S.told.countP (fun y => y.2 = .created) ≤ 1
  told : ∀ i, (S.note i).phase = .created → ∃ y ∈ S.told, y.2 = .created

theorem KeepsTicket.refl (r : Redis) : KeepsTicket ticket r r :=
  fun _ => ⟨rfl, Nat.le_refl _⟩

/-! ## The numbers -/

/-- A turn after which the call has its number as before. -/
theorem TicketNumbers.turn (h : TicketNumbers ticket S) {s : AuthWorld} {H : Rights AuthKey} {g : MfaNote}
    {m : Option MfaEvent} (hnumber : g.number = (S.note i).number)
    (hredis : KeepsTicket ticket S.shared.redis s.redis) (hm : m ≠ some .loaded)
    (hearly : g.phase.early = true → (S.note i).phase.early = true)
    (hcounting : g.phase = .counting → (S.note i).phase = .counting) : TicketNumbers ticket (S.turn i m s H g) := by
  have number : ∀ j, ((S.turn i m s H g).note j).number = (S.note j).number := by
    intro j
    rw [Scene.turn_note]
    split
    · next hj => rw [hj, hnumber]
    · rfl
  have told : ∀ j, (j, MfaEvent.loaded) ∈ (S.turn i m s H g).told ↔ (j, MfaEvent.loaded) ∈ S.told := by
    intro j
    cases m with
    | none => simp
    | some e =>
        have he : MfaEvent.loaded ≠ e := fun he => hm (by rw [he])
        simp [he]
  refine ⟨fun a b n ha hb => ?_, fun hmfa j n hj => ?_, fun j hj hn => ?_, fun j hj => ?_, ?_, fun j hj => ?_⟩
  · exact h.distinct a b n (number a ▸ ha) (number b ▸ hb)
  · obtain ⟨hmfa', hle⟩ := hredis hmfa
    exact (h.bounded (hmfa' ▸ hmfa) j n (number j ▸ hj)).trans hle
  · by_contra hmfa
    obtain ⟨hmfa', -⟩ := hredis hmfa
    refine hmfa (hmfa'.trans (h.late j ?_ (number j ▸ hn)))
    rw [Scene.turn_note] at hj
    split at hj
    · next hji => exact hji ▸ hcounting hj
    · exact hj
  · rw [number]
    exact h.loaded j ((told j).1 hj)
  · have hsame : (S.turn i m s H g).told.filter (fun y => y.2 = .loaded) = S.told.filter fun y => y.2 = .loaded := by
      cases m with
      | none => simp
      | some e =>
          have he : e ≠ .loaded := fun he => hm (by rw [he])
          simp [List.filter_append, he]
    rw [hsame]
    exact h.once
  · rw [told]
    refine h.early j ?_
    rw [Scene.turn_note] at hj
    split at hj
    · next hji => exact hji ▸ hearly hj
    · exact hj

/-- `INCR` draws a number. -/
theorem TicketNumbers.draw (h : TicketNumbers ticket S) {H : Rights AuthKey} (hi : S.note i = ⟨none, .idle⟩) :
    TicketNumbers ticket (S.turn i none (S.shared.execute (.incr (.mfaAttempts ticket))) H
      ⟨if S.shared.redis.mfa ticket = none then none
        else some (S.shared.redis.counters (.mfaAttempts ticket) + 1), .counting⟩) := by
  have hcounter : (S.shared.execute (.incr (.mfaAttempts ticket))).redis.counters (.mfaAttempts ticket) =
      S.shared.redis.counters (.mfaAttempts ticket) + 1 := by simp [Command.run, Redis.incr]
  by_cases hmfa : S.shared.redis.mfa ticket = none
  · -- The ticket is gone: no number.
    rw [if_pos hmfa]
    refine ⟨fun a b n ha hb => ?_, fun hmfa' => absurd hmfa hmfa', fun _ _ _ => hmfa, fun j hj => ?_, ?_,
      fun j hj => ?_⟩
    · rw [Scene.turn_note] at ha hb
      split at ha
      · simp at ha
      · split at hb
        · simp at hb
        · exact h.distinct a b n ha hb
    · rw [Scene.turn_told_none] at hj
      obtain ⟨n, hn, hle⟩ := h.loaded j hj
      rw [Scene.turn_note]
      split
      · next hji =>
        rw [hji, hi] at hn
        simp at hn
      · exact ⟨n, hn, hle⟩
    · rw [Scene.turn_told_none]
      exact h.once
    · rw [Scene.turn_told_none]
      rw [Scene.turn_note] at hj
      split at hj
      · next hji => exact h.early j (by rw [hji, hi]; rfl)
      · exact h.early j hj
  · -- The number is above all that have been drawn.
    rw [if_neg hmfa]
    have habove : ∀ j n, (S.note j).number = some n →
        n ≠ S.shared.redis.counters (.mfaAttempts ticket) + 1 := by
      intro j n hj
      have hle := h.bounded hmfa j n hj
      omega
    refine ⟨fun a b n ha hb => ?_, fun _ j n hj => ?_, fun j hj hn => ?_, fun j hj => ?_, ?_, fun j hj => ?_⟩
    · rw [Scene.turn_note] at ha hb
      split at ha
      · next hai =>
        split at hb
        · next hbi => rw [hai, hbi]
        · exact absurd (Option.some.inj ha).symm (habove b n hb)
      · split at hb
        · exact absurd (Option.some.inj hb).symm (habove a n ha)
        · exact h.distinct a b n ha hb
    · rw [Scene.turn_shared, hcounter]
      rw [Scene.turn_note] at hj
      split at hj
      · have hn := Option.some.inj hj
        omega
      · have hle := h.bounded hmfa j n hj
        omega
    · rw [Scene.turn_note] at hj hn
      split at hn
      · simp at hn
      · next hji =>
        rw [if_neg hji] at hj
        exact absurd (h.late j hj hn) hmfa
    · rw [Scene.turn_told_none] at hj
      obtain ⟨n, hn, hle⟩ := h.loaded j hj
      rw [Scene.turn_note]
      split
      · next hji =>
        rw [hji, hi] at hn
        simp at hn
      · exact ⟨n, hn, hle⟩
    · rw [Scene.turn_told_none]
      exact h.once
    · rw [Scene.turn_told_none]
      rw [Scene.turn_note] at hj
      split at hj
      · next hji => exact h.early j (by rw [hji, hi]; rfl)
      · exact h.early j hj

/-- The user's row is loaded, or is missing. -/
theorem TicketNumbers.load (h : TicketNumbers ticket S) {H : Rights AuthKey} {n : Nat} {phase : MfaPhase}
    (hi : S.note i = ⟨some n, .holding⟩) (hpos : 1 ≤ n) (hle : n ≤ 5) (hphase : phase.early = false) :
    TicketNumbers ticket (S.turn i (some .loaded) S.shared H ⟨some n, phase⟩) := by
  have number : ∀ j, ((S.turn i (some .loaded) S.shared H ⟨some n, phase⟩).note j).number =
      (S.note j).number := by
    intro j
    rw [Scene.turn_note]
    split
    · next hj => rw [hj, hi]
    · rfl
  refine ⟨fun a b n ha hb => ?_, fun hmfa j n hj => ?_, fun j hj hn => ?_, fun j hj => ?_, ?_, fun j hj => ?_⟩
  · exact h.distinct a b n (number a ▸ ha) (number b ▸ hb)
  · exact h.bounded hmfa j n (number j ▸ hj)
  · rw [Scene.turn_note] at hj
    split at hj
    · have hj : phase = .counting := hj
      subst hj
      exact absurd hphase (by simp [MfaPhase.early])
    · exact h.late j hj (number j ▸ hn)
  · rw [number]
    rw [Scene.turn_told_some, List.mem_append, List.mem_singleton, Prod.mk.injEq] at hj
    obtain hj | ⟨rfl, -⟩ := hj
    · exact h.loaded j hj
    · exact ⟨n, by rw [hi], hpos, hle⟩
  · have hnew : (i, MfaEvent.loaded) ∉ S.told := h.early i (by rw [hi]; rfl)
    rw [Scene.turn_told_some, List.filter_append]
    refine List.nodup_append.2 ⟨h.once, by simp, fun a ha b hb hab => ?_⟩
    have hb : b = (i, MfaEvent.loaded) := by simpa using hb
    exact hnew (hb ▸ hab ▸ List.mem_of_mem_filter ha)
  · rw [Scene.turn_note] at hj
    split at hj
    · exact absurd hj (by simp [hphase])
    · next hji => simp [hji, h.early j hj]

/-- At most five calls load the user. -/
theorem TicketNumbers.five (h : TicketNumbers ticket S) : S.told.countP (fun y => y.2 = .loaded) ≤ 5 := by
  let number : Nat × MfaEvent → Nat := fun y => (S.note y.1).number.getD 0
  have hmem : ∀ y ∈ S.told.filter (fun y => y.2 = .loaded),
      ∃ n, (S.note y.1).number = some n ∧ 1 ≤ n ∧ n ≤ 5 := by
    rintro ⟨j, e⟩ hy
    obtain ⟨hy, he⟩ := List.mem_filter.1 hy
    have he : e = .loaded := of_decide_eq_true he
    exact h.loaded j (he ▸ hy)
  have hnodup : ((S.told.filter fun y => y.2 = .loaded).map number).Nodup := by
    refine List.Nodup.map_on (fun y hy z hz hyz => ?_) h.once
    obtain ⟨n, hn, -⟩ := hmem y hy
    obtain ⟨m, hm, -⟩ := hmem z hz
    have hnm : n = m := by simpa [number, hn, hm] using hyz
    refine Prod.ext (h.distinct y.1 z.1 n hn (hnm ▸ hm)) ?_
    rw [of_decide_eq_true (List.mem_filter.1 hy).2, of_decide_eq_true (List.mem_filter.1 hz).2]
  have hsub : (S.told.filter fun y => y.2 = .loaded).map number ⊆ [1, 2, 3, 4, 5] := by
    intro n hn
    obtain ⟨y, hy, rfl⟩ := List.mem_map.1 hn
    obtain ⟨n, hn, hpos, hle⟩ := hmem y hy
    simp only [number, hn, Option.getD_some, List.mem_cons, List.not_mem_nil, or_false]
    omega
  have hlen := (List.subperm_of_subset hnodup hsub).length_le
  rw [List.length_map, ← List.countP_eq_length_filter] at hlen
  exact hlen

/-! ## The sessions -/

/-- A turn at which no call gets further than it was. -/
theorem TicketSessions.turn (h : TicketSessions ticket holder S) {s : AuthWorld} {H : Rights AuthKey} {g : MfaNote}
    {m : Option MfaEvent} (hredis : KeepsTicket ticket S.shared.redis s.redis) (hm : m ≠ some .created)
    (hverifying : g.phase = .verifying → (S.note i).phase = .verifying ∧ (AuthKey.user holder, .exclusive) ∈ H)
    (hwon : g.phase = .won → (S.note i).phase = .won)
    (hcreated : g.phase = .created → (S.note i).phase = .created) : TicketSessions ticket holder (S.turn i m s H g) := by
  have gone : S.shared.redis.mfa ticket = none → s.redis.mfa ticket = none := by
    intro hnone
    by_contra hmfa
    exact hmfa ((hredis hmfa).1.trans hnone)
  have told : ∀ y, y.2 = .created → (y ∈ (S.turn i m s H g).told ↔ y ∈ S.told) := by
    rintro ⟨j, e⟩ rfl
    cases m with
    | none => simp
    | some e =>
        have he : MfaEvent.created ≠ e := fun he => hm (by rw [he])
        simp [he]
  have verifying : ∀ j, ((S.turn i m s H g).note j).phase = .verifying → (S.note j).phase = .verifying := by
    intro j hj
    rw [Scene.turn_note] at hj
    split at hj
    · next hji => exact hji ▸ (hverifying hj).1
    · exact hj
  have won : ∀ j, ((S.turn i m s H g).note j).phase = .won → (S.note j).phase = .won := by
    intro j hj
    rw [Scene.turn_note] at hj
    split at hj
    · next hji => exact hji ▸ hwon hj
    · exact hj
  refine ⟨fun id hid => ?_, fun j hj => ?_, fun a b ha hb => ?_, fun j hj => ?_, fun y hy he => ?_, ?_,
    fun j hj => ?_⟩
  · rw [Scene.turn_shared] at hid
    exact h.user id ((hredis (by simp [hid])).1 ▸ hid)
  · rw [Scene.turn_held]
    rw [Scene.turn_note] at hj
    split
    · next hji =>
      rw [if_pos hji] at hj
      exact (hverifying hj).2
    · next hji =>
      rw [if_neg hji] at hj
      exact h.locked j hj
  · exact h.alone a b (verifying a ha) (verifying b hb)
  · obtain ⟨hmfa, hnew, hnobody, honly⟩ := h.won j (won j hj)
    exact ⟨gone hmfa, fun y hy he => hnew y ((told y he).1 hy) he, fun a ha => hnobody a (verifying a ha),
      fun a ha => honly a (won a ha)⟩
  · obtain ⟨hmfa, hnobody⟩ := h.created y ((told y he).1 hy) he
    exact ⟨gone hmfa, fun a ha => hnobody a (verifying a ha)⟩
  · cases m with
    | none => simpa using h.once
    | some e =>
        have he : e ≠ .created := fun he => hm (by rw [he])
        simpa [he] using h.once
  · have hj : (S.note j).phase = .created := by
      rw [Scene.turn_note] at hj
      split at hj
      · next hji => exact hji ▸ hcreated hj
      · exact hj
    obtain ⟨y, hy, he⟩ := h.told j hj
    exact ⟨y, (told y he).2 hy, he⟩

/-- The user's row is locked, while the ticket is there. -/
theorem TicketSessions.load (h : TicketSessions ticket holder S) {H : Rights AuthKey} {n : Option Nat}
    (hmfa : S.shared.redis.mfa ticket ≠ none) (hH : (AuthKey.user holder, .exclusive) ∈ H)
    (hfree : ∀ j, j ≠ i → ∀ y ∈ S.held j, y.1 = AuthKey.user holder → y.2.conflicts .exclusive = false) :
    TicketSessions ticket holder (S.turn i (some .loaded) S.shared H ⟨n, .verifying⟩) := by
  have hnobody : ∀ j, j ≠ i → (S.note j).phase ≠ .verifying := by
    intro j hji hj
    exact absurd (hfree j hji _ (h.locked j hj) rfl) (by simp [LockMode.conflicts])
  have hnotwon : ∀ j, (S.note j).phase ≠ .won := fun j hj => hmfa (h.won j hj).1
  have hnew : ∀ y ∈ S.told, y.2 ≠ .created := fun y hy he => hmfa (h.created y hy he).1
  have only : ∀ j, ((S.turn i (some .loaded) S.shared H ⟨n, .verifying⟩).note j).phase = .verifying →
      j = i := by
    intro j hj
    by_contra hji
    rw [Scene.turn_note, if_neg hji] at hj
    exact hnobody j hji hj
  have told : ∀ y ∈ (S.turn i (some .loaded) S.shared H ⟨n, .verifying⟩).told, y.2 ≠ .created := by
    intro y hy
    rw [Scene.turn_told_some, List.mem_append, List.mem_singleton] at hy
    obtain hy | rfl := hy
    · exact hnew y hy
    · simp
  refine ⟨h.user, fun j hj => ?_, fun a b ha hb => ?_, fun j hj => ?_, fun y hy he => absurd he (told y hy), ?_,
    fun j hj => ?_⟩
  · rw [Scene.turn_held, if_pos (only j hj)]
    exact hH
  · rw [only a ha, only b hb]
  · rw [Scene.turn_note] at hj
    split at hj
    · exact absurd hj (by simp)
    · exact absurd hj (hnotwon j)
  · rw [List.countP_eq_zero.2 fun y hy => by simpa using told y hy]
    exact Nat.zero_le 1
  · rw [Scene.turn_note] at hj
    split at hj
    · exact absurd hj (by simp)
    · obtain ⟨y, hy, he⟩ := h.told j hj
      exact absurd he (hnew y hy)

/-- The ticket is deleted, after a right code. -/
theorem TicketSessions.win (h : TicketSessions ticket holder S) {s : AuthWorld} {H : Rights AuthKey} {n : Option Nat}
    (hi : (S.note i).phase = .verifying) (hs : s.redis.mfa ticket = none) :
    TicketSessions ticket holder (S.turn i none s H ⟨n, .won⟩) := by
  have hnobody : ∀ j, ((S.turn i none s H ⟨n, .won⟩).note j).phase ≠ .verifying := by
    intro j hj
    rw [Scene.turn_note] at hj
    split at hj
    · exact absurd hj (by simp)
    · next hji => exact hji (h.alone j i hj hi)
  have hnew : ∀ y ∈ S.told, y.2 ≠ .created := fun y hy he => (h.created y hy he).2 i hi
  refine ⟨fun id hid => ?_, fun j hj => absurd hj (hnobody j), fun a _ ha => absurd ha (hnobody a), fun j hj => ?_,
    fun y hy he => ?_, by simpa using h.once, fun j hj => ?_⟩
  · rw [Scene.turn_shared, hs] at hid
    exact absurd hid (by simp)
  · rw [Scene.turn_told_none]
    have honly : ∀ a, ((S.turn i none s H ⟨n, .won⟩).note a).phase = .won → a = i := by
      intro a ha
      by_contra hai
      rw [Scene.turn_note, if_neg hai] at ha
      exact (h.won a ha).2.2.1 i hi
    exact ⟨hs, hnew, hnobody, fun a ha => (honly a ha).trans (honly j hj).symm⟩
  · rw [Scene.turn_told_none] at hy
    exact absurd he (hnew y hy)
  · rw [Scene.turn_note] at hj
    split at hj
    · exact absurd hj (by simp)
    · obtain ⟨y, hy, he⟩ := h.told j hj
      exact absurd he (hnew y hy)

/-- The session is stored. -/
theorem TicketSessions.create (h : TicketSessions ticket holder S) {s : AuthWorld} {H : Rights AuthKey} {n : Option Nat}
    (hi : (S.note i).phase = .won) (hredis : KeepsTicket ticket S.shared.redis s.redis) :
    TicketSessions ticket holder (S.turn i (some .created) s H ⟨n, .created⟩) := by
  obtain ⟨hmfa, hnew, hnobody, honly⟩ := h.won i hi
  have hs : s.redis.mfa ticket = none := by
    by_contra hs
    exact hs ((hredis hs).1.trans hmfa)
  have hnobody' : ∀ j, ((S.turn i (some .created) s H ⟨n, .created⟩).note j).phase ≠ .verifying := by
    intro j hj
    rw [Scene.turn_note] at hj
    split at hj
    · exact absurd hj (by simp)
    · exact hnobody j hj
  refine ⟨fun id hid => ?_, fun j hj => absurd hj (hnobody' j), fun a _ ha => absurd ha (hnobody' a),
    fun j hj => ?_, fun _ _ _ => ⟨hs, hnobody'⟩, ?_, fun _ _ => ⟨(i, .created), by simp, rfl⟩⟩
  · rw [Scene.turn_shared, hs] at hid
    exact absurd hid (by simp)
  · rw [Scene.turn_note] at hj
    split at hj
    · exact absurd hj (by simp)
    · next hji => exact absurd (honly j hj) hji
  · rw [Scene.turn_told_some, List.countP_append, List.countP_eq_zero.2 fun y hy => by simpa using hnew y hy]
    simp

/-! ## The story of a ticket -/

/-- Where `strict` is assumed, the ticket is there whenever the user is loaded. -/
def mfaStory (strict : Prop) (ticket : Nat) (holder : UUID) : Story AuthWorld AuthKey AuthPoint MfaNote MfaEvent where
  inv S := TicketNumbers ticket S ∧ (∀ id, S.shared.redis.mfa ticket = some id → id = holder) ∧
    (strict → TicketSessions ticket holder S)
  tell
    | .completing t _, _ => if t = ticket then some .loaded else none
    | .command (.setSession _ _), _ => some .created
    | _, _ => none
  fits _ _ := True
  cond
    | .completing t _, S => strict → t = ticket → S.shared.redis.mfa ticket ≠ none
    | _, _ => True
  fails _ := True
  crashes := True

variable {strict : Prop} {α : Type} {c : Ctx AuthWorld AuthKey} {g : MfaNote} {H : Rights AuthKey}

/-- How a call may stand after a turn at which it gets no further. -/
structure MfaNote.Keeps (holder : UUID) (H : Rights AuthKey) (g g' : MfaNote) : Prop where
  number : g'.number = g.number
  early : g'.phase.early = true → g.phase.early = true
  counting : g'.phase = .counting → g.phase = .counting
  verifying : g'.phase = .verifying → g.phase = .verifying ∧ (AuthKey.user holder, .exclusive) ∈ H
  won : g'.phase = .won → g.phase = .won
  created : g'.phase = .created → g.phase = .created

theorem MfaNote.keeps_ended : MfaNote.Keeps holder H g ⟨g.number, .ended⟩ :=
  ⟨rfl, by simp [MfaPhase.early], by simp, by simp, by simp, by simp⟩

theorem MfaNote.keeps_self (h : g.phase = .verifying → (AuthKey.user holder, .exclusive) ∈ H) :
    MfaNote.Keeps holder H g g :=
  ⟨rfl, fun h => h, fun h => h, fun hg => ⟨hg, h hg⟩, fun h => h, fun h => h⟩

/-- A turn at which the call gets no further. -/
theorem mfaStory_turn (h : (mfaStory strict ticket holder).inv S) {s : AuthWorld} {g' : MfaNote}
    (hi : S.note i = g) (hkeeps : MfaNote.Keeps holder H g g')
    (hredis : KeepsTicket ticket S.shared.redis s.redis) :
    (mfaStory strict ticket holder).inv (S.turn i none s H g') := by
  subst hi
  refine ⟨h.1.turn hkeeps.number hredis (by simp) hkeeps.early hkeeps.counting, fun id hid => ?_,
    fun hstrict => ?_⟩
  · exact h.2.1 id ((hredis (by simp [show s.redis.mfa ticket = some id from hid])).1 ▸ hid)
  · exact (h.2.2 hstrict).turn hredis (by simp) hkeeps.verifying hkeeps.won hkeeps.created

/-- What fails is over. -/
theorem mfaStory_fails {point : AuthPoint} {E : Failure → Ctx AuthWorld AuthKey → MfaNote → Prop}
    (hE : ∀ g, E Faulty.fault c.reset g) : (mfaStory strict ticket holder).Fails i point E c g :=
  fun _ _ hinv _ hg => ⟨_, mfaStory_turn hinv hg MfaNote.keeps_ended (.refl _), hE _⟩

/-! ## Statements -/

theorem follows_plainSelect {query : AuthWorld → α} {Q : α → Ctx AuthWorld AuthKey → MfaNote → Prop}
    (hQ : ∀ S, (mfaStory strict ticket holder).inv S → Q (query (c.pending S.shared)) c g) :
    (mfaStory strict ticket holder).follows i (Code.select .plain query : AuthTx α) Q (fun _ _ _ => True) c g :=
  Story.follows_select trivial (mfaStory_fails fun _ => trivial) fun S hinv hH hg _ =>
    Story.Turns.same hinv hH hg (hQ S hinv)

theorem follows_plainWrite {u : AuthWorld → AuthWorld} {Q : Unit → Ctx AuthWorld AuthKey → MfaNote → Prop}
    (hQ : Q () (c.buffer u) g) :
    (mfaStory strict ticket holder).follows i (Code.write .plain u : AuthTx Unit) Q (fun _ _ _ => True) c g :=
  Story.follows_write trivial (mfaStory_fails fun _ => trivial) fun _ hinv hH hg _ =>
    Story.Turns.same hinv hH hg hQ

/-- A command that leaves the ticket, or deletes it. -/
theorem follows_send {cmd : Command} {answer : Redis → α} {Q : α → Ctx AuthWorld AuthKey → MfaNote → Prop}
    (hcmd : ∀ st n, cmd ≠ .setSession st n) (hredis : ∀ r, KeepsTicket ticket r (cmd.run r))
    (hlock : g.phase = .verifying → (AuthKey.user holder, .exclusive) ∈ c.held) (hQ : ∀ a, Q a c g) :
    (mfaStory strict ticket holder).follows i (sendFor cmd answer) Q (fun _ _ _ => True) c g := by
  refine Story.follows_effect trivial (mfaStory_fails fun _ => trivial) fun S hinv _ hg _ => ⟨g, ?_, hQ _⟩
  have htell : (mfaStory strict ticket holder).tell (.command cmd) S.shared = none := by
    cases cmd with
    | setSession st n => exact absurd rfl (hcmd st n)
    | _ => rfl
  rw [htell]
  exact mfaStory_turn hinv hg (MfaNote.keeps_self hlock) (hredis _)

/-! ## Calls -/

section Calls

variable {host : AuthHost} {names : SessionNames} {user : User} {id : UUID} {code : String} {attempts checked : Nat}
  {E : AuthAnswer → Ctx AuthWorld AuthKey → MfaNote → Prop}

/-- What a transaction has written so far leaves Redis. -/
def Aside (c c' : Ctx AuthWorld AuthKey) : Prop :=
  c'.held = c.held ∧ ∀ w, (c'.pending w).redis = (c.pending w).redis

theorem Aside.buffer {c' : Ctx AuthWorld AuthKey} {u : AuthWorld → AuthWorld} (h : Aside c c')
    (hu : ∀ w, (u w).redis = w.redis) : Aside c (c'.buffer u) :=
  ⟨h.1, fun w => (hu _).trans (h.2 w)⟩

theorem follows_verifyRecoveryCode {Q : Bool → Ctx AuthWorld AuthKey → MfaNote → Prop}
    (hQ : ∀ b c', Aside c c' → Q b c' g) :
    (mfaStory strict ticket holder).follows i (verifyRecoveryCode host id code) Q (fun _ _ _ => True) c g := by
  refine Story.follows_bind.2 (follows_plainSelect fun S _ => ?_)
  split
  · exact hQ _ _ ⟨rfl, fun _ => rfl⟩
  · refine Story.follows_bind.2 (follows_plainSelect fun S _ => Story.follows_bind.2 (follows_plainWrite ?_))
    exact hQ _ _ (Aside.buffer ⟨rfl, fun _ => rfl⟩ fun _ => rfl)

theorem follows_verifyStep {Q : Bool → Ctx AuthWorld AuthKey → MfaNote → Prop}
    (hQ : ∀ b c', Aside c c' → Q b c' g) :
    (mfaStory strict ticket holder).follows i (verifyStep host id user) Q (fun _ _ _ => True) c g := by
  refine Story.follows_bind.2 (follows_plainSelect fun S _ => ?_)
  split
  · exact hQ _ _ ⟨rfl, fun _ => rfl⟩
  · refine Story.follows_bind.2 (follows_plainWrite ?_)
    exact hQ _ _ (Aside.buffer ⟨rfl, fun _ => rfl⟩ fun _ => rfl)

theorem follows_verifyUserCode {Q : Bool → Ctx AuthWorld AuthKey → MfaNote → Prop}
    (hQ : ∀ b c', Aside c c' → Q b c' g) :
    (mfaStory strict ticket holder).follows i (verifyUserCode host id user code) Q (fun _ _ _ => True) c g := by
  unfold verifyUserCode
  split
  · exact follows_verifyRecoveryCode hQ
  · refine Story.follows_bind.2 (Story.follows_orRaise (fun secret _ => ?_) fun _ => trivial)
    refine Story.follows_bind.2 (follows_plainSelect fun S _ => ?_)
    split
    · exact follows_verifyStep hQ
    · exact follows_verifyRecoveryCode hQ

/-- What a call has done when it has an answer: it has a session only if it has told so. -/
def TicketAnswered (c : Ctx AuthWorld AuthKey) (a : AuthAnswer) (c' : Ctx AuthWorld AuthKey) (g : MfaNote) : Prop :=
  Aside c c' ∧ ∀ r, a = .loggedIn r → g.phase = .created

theorem keepsTicket_delete (r : Redis) :
    KeepsTicket ticket r ((Command.delete [.mfa ticket, .mfaAttempts ticket]).run r) := by
  simp [KeepsTicket, Command.run, Redis.delete]

theorem follows_createSession {n : Option Nat} (Q : AuthAnswer → Ctx AuthWorld AuthKey → MfaNote → Prop)
    (hQ : ∀ a, Q a c ⟨n, .created⟩) :
    (mfaStory strict ticket holder).follows i (createSession names id user checked) Q (fun _ _ _ => True) c
      ⟨n, .won⟩ := by
  have hquiet : ∀ {cmd : Command}, (∀ r, KeepsTicket ticket r (cmd.run r)) →
      (∀ st n, cmd ≠ .setSession st n) → ∀ {Q : Unit → Ctx AuthWorld AuthKey → MfaNote → Prop}, Q () c ⟨n, .created⟩ →
      (mfaStory strict ticket holder).follows i (send cmd) Q (fun _ _ _ => True) c ⟨n, .created⟩ :=
    fun hredis hcmd _ hQ => follows_send hcmd hredis (by simp) fun _ => hQ
  refine Story.follows_bind.2 (Story.follows_bind.2 (Story.follows_effect trivial (mfaStory_fails fun _ => trivial)
    fun S hinv _ hg _ => ⟨⟨n, .created⟩, ⟨?_, hinv.2.1, fun hstrict => ?_⟩, ?_⟩))
  · exact hinv.1.turn (by rw [hg]) (.refl _) (by simp [mfaStory]) (by simp [MfaPhase.early]) (by simp)
  · exact (hinv.2.2 hstrict).create (by rw [hg]) (.refl _)
  · refine Story.follows_bind.2 (hquiet (fun r => .refl r) (by simp) ?_)
    refine Story.follows_bind.2 (hquiet (fun r => .refl r) (by simp) ?_)
    refine Story.follows_bind.2 (hquiet (fun r => .refl r) (by simp) ?_)
    exact Story.follows_bind.2 (hquiet (fun r => .refl r) (by simp) (hQ _))

theorem follows_concludeMfa {n : Option Nat} {verified : Bool} (hheld : (AuthKey.user holder, .exclusive) ∈ c.held)
    {Q : AuthAnswer → Ctx AuthWorld AuthKey → MfaNote → Prop}
    (hQ : ∀ a c' g, TicketAnswered c a c' g → Q a c' g) :
    (mfaStory strict ticket holder).follows i (concludeMfa ticket names id user attempts checked verified) Q
      (fun _ _ _ => True) c ⟨n, .verifying⟩ := by
  unfold concludeMfa
  split
  · refine Story.follows_bind.2 (follows_plainWrite ?_)
    have hnothing : ∀ {u : AuthWorld → AuthWorld}, (∀ w, (u w).redis = w.redis) →
        Q .nothing (c.buffer u) ⟨n, .verifying⟩ :=
      fun hu => hQ _ _ _ ⟨Aside.buffer ⟨rfl, fun _ => rfl⟩ hu, by simp⟩
    unfold Code.onlyIf
    split
    · refine Story.follows_bind.2 (follows_send (by simp) keepsTicket_delete (fun _ => hheld) fun _ => ?_)
      exact hnothing fun _ => rfl
    · exact hnothing fun _ => rfl
  · refine Story.follows_bind.2 (follows_plainWrite (Story.follows_bind.2 ?_))
    refine Story.follows_effect trivial (mfaStory_fails fun _ => trivial) fun S hinv _ hg _ =>
      ⟨⟨n, .won⟩, ⟨?_, ?_, fun hstrict => ?_⟩, ?_⟩
    · exact hinv.1.turn (by rw [hg]) (keepsTicket_delete _) (by simp [mfaStory]) (by simp [MfaPhase.early]) (by simp)
    · simp [Command.run, Redis.delete]
    · exact (hinv.2.2 hstrict).win (by rw [hg]) (by simp [Command.run, Redis.delete])
    · refine follows_createSession Q fun a => hQ _ _ _ ⟨?_, fun _ _ => rfl⟩
      exact Aside.buffer ⟨rfl, fun _ => rfl⟩ fun _ => rfl

theorem follows_completeMfaFor {n : Option Nat} {found : Option User × Nat}
    (hheld : (AuthKey.user holder, .exclusive) ∈ c.held)
    {Q : AuthAnswer → Ctx AuthWorld AuthKey → MfaNote → Prop} (hQ : ∀ a c' g, TicketAnswered c a c' g → Q a c' g) :
    (mfaStory strict ticket holder).follows i (completeMfaFor host ticket code names id attempts found) Q
      (fun _ _ _ => True) c ⟨n, .verifying⟩ := by
  have hnothing : Q .nothing c ⟨n, .verifying⟩ := hQ _ _ _ ⟨⟨rfl, fun _ => rfl⟩, by simp⟩
  unfold completeMfaFor
  split
  · exact hnothing
  · split
    · exact hnothing
    · refine Story.follows_bind.2 (follows_verifyUserCode fun b c' hc' => ?_)
      refine follows_concludeMfa (hc'.1 ▸ hheld) fun a c'' g h => hQ a c'' g ⟨⟨?_, fun w => ?_⟩, h.2⟩
      · rw [h.1.1, hc'.1]
      · rw [h.1.2, hc'.2]

/-- A transaction that is rolled back. -/
theorem follows_rolledBack {e : Failure} {Q : AuthAnswer → Ctx AuthWorld AuthKey → MfaNote → Prop} :
    (mfaStory strict ticket holder).follows i (.step .plain .rollback (fun _ => .raise e) (.raise e)) Q
      (fun _ _ _ => True) c g := by
  have hended : ∀ {S H}, (mfaStory strict ticket holder).inv S → S.note i = g →
      (mfaStory strict ticket holder).Turns i S none S.shared H fun _ => True :=
    fun hinv hg => ⟨_, mfaStory_turn hinv hg MfaNote.keeps_ended (.refl _), trivial⟩
  exact ⟨trivial, fun S hinv _ hg => ⟨fun _ => hended hinv hg, fun _ => hended hinv hg⟩⟩

/-- What a call has when it returns. -/
def TicketAnswer (a : AuthAnswer) (_ : Ctx AuthWorld AuthKey) (g : MfaNote) : Prop :=
  ∀ r, a = .loggedIn r → g.phase = .created

/-- The commit of an answer. -/
theorem follows_commit {a : AuthAnswer} (hredis : ∀ w, (c.pending w).redis = w.redis)
    (ha : ∀ r, a = .loggedIn r → g.phase = .created) (hinv : (mfaStory strict ticket holder).inv S)
    (hg : S.note i = g) :
    (mfaStory strict ticket holder).Turns i S none (c.pending S.shared) c.base (TicketAnswer a c.reset) := by
  have hkeeps : KeepsTicket ticket S.shared.redis (c.pending S.shared).redis := by
    rw [hredis]
    exact .refl _
  by_cases hcreated : g.phase = .created
  · exact ⟨g, mfaStory_turn hinv hg (MfaNote.keeps_self (by simp [hcreated])) hkeeps, fun _ _ => hcreated⟩
  · exact ⟨_, mfaStory_turn hinv hg MfaNote.keeps_ended hkeeps, fun r hr => absurd (ha r hr) hcreated⟩

theorem follows_completeMfaOf {base : Rights AuthKey} {found : Option UUID} {n : Nat} (hpos : 1 ≤ n) (hle : n ≤ 5)
    (hfound : ∀ id, found = some id → id = holder) :
    (mfaStory strict ticket holder).follows i (completeMfaOf host ticket code names attempts found) TicketAnswer
      (fun _ _ _ => True) (.start base) ⟨some n, .holding⟩ := by
  unfold completeMfaOf
  split
  · intro r hr
    cases hr
  · next id =>
    obtain rfl := hfound id rfl
    have htell : ∀ w, (mfaStory strict ticket id).tell (.completing ticket id) w = some .loaded := by
      intro w
      simp [mfaStory]
    refine Story.follows_transaction (Story.follows_mono (Q := fun x c g =>
        x.2 = .plain ∧ (∀ w, (c.pending w).redis = w.redis) ∧ ∀ r, x.1 = .loggedIn r → g.phase = .created)
      (E := fun _ _ _ => True)
      (Story.follows_bind.2 (Story.follows_selectLocking trivial (mfaStory_fails fun _ => trivial)
        (fun S hinv _ hg _ hrow => ?_) fun S row hinv _ hg hcond hrow hfree => ?_))
      (fun x c g hx => ?_) fun e c g _ => follows_rolledBack)
    · -- The user is gone: there is nothing to lock.
      rw [htell]
      have hmissing : S.shared.users.get? id = none := by simpa using hrow
      refine ⟨⟨some n, .ended⟩, ⟨hinv.1.load hg hpos hle rfl, hinv.2.1, fun hstrict => ?_⟩, ?_⟩
      · exact (hinv.2.2 hstrict).turn (.refl _) (by simp) (by simp) (by simp) (by simp)
      · simp only [Ctx.start_pending, id_eq, hmissing, completeMfaFor]
        exact ⟨rfl, fun _ => rfl, by simp⟩
    · rw [htell]
      have hrow' : row = .user id := by
        simp only [Option.map_eq_some_iff] at hrow
        obtain ⟨-, -, rfl⟩ := hrow
        rfl
      subst hrow'
      refine ⟨⟨some n, .verifying⟩, ⟨hinv.1.load hg hpos hle rfl, hinv.2.1, fun hstrict => ?_⟩, ?_⟩
      · exact (hinv.2.2 hstrict).load (hcond hstrict rfl) List.mem_cons_self hfree
      · exact Story.follows_bind.2 (follows_completeMfaFor List.mem_cons_self fun a c' g h => ⟨rfl, h.1.2, h.2⟩)
    · obtain ⟨hpoint, hredis, ha⟩ := hx
      rw [hpoint]
      refine ⟨trivial, mfaStory_fails fun _ => follows_rolledBack, fun S hinv _ hg _ => ⟨?_, ?_⟩⟩
      · exact follows_commit hredis ha hinv hg
      · exact (follows_commit hredis ha hinv hg).mono fun _ _ => follows_rolledBack

/-- A call that has its number. -/
theorem follows_counted {base : Rights AuthKey} {n : Option Nat} (hpos : 1 ≤ attempts) (hle : attempts ≤ 5)
    (hn : ∀ m, n = some m → m = attempts) :
    (mfaStory strict ticket holder).follows i (do
        let user ← fetch fun r => r.mfa ticket
        completeMfaOf host ticket code names attempts user) TicketAnswer (fun _ _ _ => True) (.start base)
      ⟨n, .counting⟩ := by
  refine Story.follows_bind.2 (Story.follows_select trivial (mfaStory_fails fun _ => trivial)
    fun S hinv hH hg _ => ?_)
  simp only [Ctx.start_pending, id_eq]
  cases hmfa : S.shared.redis.mfa ticket with
  | none => exact Story.Turns.same hinv hH hg fun r hr => nomatch hr
  | some id =>
      -- The ticket was there as well when the number was drawn.
      cases n with
      | none => exact absurd (hinv.1.late i (by rw [hg]) (by rw [hg])) (by simp [hmfa])
      | some m =>
          obtain rfl := hn m rfl
          have hkeeps : MfaNote.Keeps holder (Ctx.start base : Ctx AuthWorld AuthKey).held ⟨some m, .counting⟩
              ⟨some m, .holding⟩ := ⟨rfl, fun _ => rfl, by simp, by simp, by simp, by simp⟩
          refine ⟨_, mfaStory_turn hinv hg hkeeps (.refl _), follows_completeMfaOf hpos hle fun id' hid => ?_⟩
          exact Option.some.inj hid ▸ hinv.2.1 id hmfa

/-- A call that has drawn the number. -/
theorem follows_attempt {base : Rights AuthKey} {n : Option Nat} (hpos : 1 ≤ attempts)
    (hn : ∀ m, n = some m → m = attempts) :
    (mfaStory strict ticket holder).follows i (do
        Code.onlyIf (attempts = 1) (send (.expire (.mfaAttempts ticket)))
        if 5 < attempts then do
          send (.delete [.mfa ticket, .mfaAttempts ticket])
          pure .nothing
        else do
          let user ← fetch fun r => r.mfa ticket
          completeMfaOf host ticket code names attempts user) TicketAnswer (fun _ _ _ => True) (.start base)
      ⟨n, .counting⟩ := by
  have hrest : (mfaStory strict ticket holder).follows i (if 5 < attempts then do
          send (.delete [.mfa ticket, .mfaAttempts ticket])
          pure .nothing
        else do
          let user ← fetch fun r => r.mfa ticket
          completeMfaOf host ticket code names attempts user) TicketAnswer (fun _ _ _ => True) (.start base)
      ⟨n, .counting⟩ := by
    split
    · exact Story.follows_bind.2 (follows_send (by simp) keepsTicket_delete (by simp) fun _ r hr => nomatch hr)
    · exact follows_counted hpos (by omega) hn
  unfold Code.onlyIf
  split
  · exact Story.follows_bind.2 (follows_send (by simp) (fun r => .refl r) (by simp) fun _ => hrest)
  · exact hrest

theorem follows_completeMfaChallenge {base : Rights AuthKey} :
    (mfaStory strict ticket holder).follows i (completeMfaChallenge host ticket code names) TicketAnswer
      (fun _ _ _ => True) (.start base) ⟨none, .idle⟩ := by
  refine Story.follows_bind.2 (Story.follows_effect trivial (mfaStory_fails fun _ => trivial)
    fun S hinv _ hg _ => ⟨_, ⟨hinv.1.draw hg, hinv.2.1, fun hstrict => ?_⟩, ?_⟩)
  · have hgrown : KeepsTicket ticket S.shared.redis (S.shared.execute (.incr (.mfaAttempts ticket))).redis := by
      refine fun _ => ⟨rfl, ?_⟩
      simp [Command.run, Redis.incr]
    exact (hinv.2.2 hstrict).turn hgrown (by simp [mfaStory]) (by simp) (by simp) (by simp)
  · refine follows_attempt (Nat.le_add_left 1 _) fun m hm => ?_
    split at hm
    · exact absurd hm (by simp)
    · exact (Option.some.inj hm).symm

end Calls

/-! ## Runs -/

theorem mfaStory_told {host : AuthHost} :
    (mfaStory strict ticket holder).Told TicketAnswer ⟨none, .idle⟩ (ticketRuns host ticket) where
  starts S i base code hinv hstart _ hnote _ := by
    obtain ⟨tried, names, rfl, rfl⟩ := hstart
    refine ⟨⟨none, .idle⟩, mfaStory_turn hinv hnote (MfaNote.keeps_self (by simp)) (.refl _), ?_⟩
    exact Story.follows_mono follows_completeMfaChallenge (fun _ _ _ h => ⟨trivial, h⟩) fun _ _ _ h => h
  env S s hinv henv := by
    have hturn : { S with shared := s } = S.turn 0 none s (S.held 0) (S.note 0) := by simp [Scene.turn]
    rw [hturn]
    refine ⟨hinv.1.turn rfl henv (by simp) (fun h => h) fun h => h, fun id hid => ?_, fun hstrict => ?_⟩
    · exact hinv.2.1 id ((henv (by simp [show s.redis.mfa ticket = some id from hid])).1 ▸ hid)
    · have hlocked := (hinv.2.2 hstrict).locked 0
      exact (hinv.2.2 hstrict).turn henv (by simp) (fun h => ⟨h, hlocked h⟩) (fun h => h) fun h => h
  crashes _ S i base _ hinv := ⟨_, mfaStory_turn hinv rfl MfaNote.keeps_ended (.refl _), trivial⟩

theorem mfaStory_meets {x : AuthStep} (h : strict → ticketStored ticket x = true) :
    (mfaStory strict ticket holder).Meets ⟨none, .idle⟩ x where
  cond steps note i pt act _ _ hex := by
    cases pt with
    | completing t id =>
        rintro hstrict rfl
        have hstored := h hstrict
        simp only [ticketStored, loadsUser, hex, decide_true, Bool.not_true, Bool.false_or] at hstored
        exact Option.isSome_iff_ne_none.1 hstored
    | _ => trivial
  fails _ _ _ _ _ := trivial
  crashes _ _ := trivial

theorem countP_loaded (steps : List AuthStep) :
    (toldIn (mfaStory strict ticket holder).tell steps).countP (fun y => y.2 = .loaded) =
      steps.countP (loadsUser ticket) := by
  refine countP_toldIn (p := fun e => e = MfaEvent.loaded) fun x => ?_
  unfold loadsUser
  cases x.1.executes x.2 with
  | none => rfl
  | some y =>
      obtain ⟨pt, act⟩ := y
      cases pt with
      | completing t id => by_cases ht : t = ticket <;> simp [mfaStory, ht]
      | command cmd => cases cmd <;> simp [mfaStory]
      | _ => simp [mfaStory]

theorem countP_created (steps : List AuthStep) :
    (toldIn (mfaStory strict ticket holder).tell steps).countP (fun y => y.2 = .created) =
      steps.countP storesSession := by
  refine countP_toldIn (p := fun e => e = MfaEvent.created) fun x => ?_
  unfold storesSession
  cases x.1.executes x.2 with
  | none => rfl
  | some y =>
      obtain ⟨pt, act⟩ := y
      cases pt with
      | completing t id => by_cases ht : t = ticket <;> simp [mfaStory, ht]
      | command cmd => cases cmd <;> simp [mfaStory]
      | _ => simp [mfaStory]

theorem loadsUser_of_verifiesCode {x : AuthStep} (h : verifiesCode ticket x = true) : loadsUser ticket x = true := by
  unfold verifiesCode at h
  unfold loadsUser
  split at h
  · exact (Bool.and_eq_true_iff.1 h).1
  · exact absurd h (by simp)

/-- **A ticket is bounded, and single-use.** At most five codes are verified for a ticket. If the ticket is there
    whenever its user is loaded, it gives one session, and no code is verified after a call has succeeded. -/
theorem ticket_used {host : AuthHost} {Y Z : AuthSystem} {steps : List AuthStep}
    (hrun : Run (ticketRuns host ticket) Y steps Z) (hidle : Y.sessions = []) :
    steps.countP (verifiesCode ticket) ≤ 5 ∧
      ((∀ x ∈ steps, ticketStored ticket x = true) → TicketUsedOnce ticket steps) := by
  have hinit : ∀ strict, (mfaStory strict ticket ((Y.shared.redis.mfa ticket).getD 0)).inv
      ⟨[], Y.shared, fun _ => [], fun _ => ⟨none, .idle⟩⟩ := by
    refine fun strict => ⟨⟨by simp, by simp, by simp, by simp, by simp, by simp⟩, fun id hid => ?_, fun _ =>
      ⟨fun id hid => ?_, by simp, by simp, by simp, by simp, by simp, by simp⟩⟩
    all_goals
      have hid : Y.shared.redis.mfa ticket = some id := hid
      simp [hid]
  refine ⟨?_, fun hstored => ⟨?_, fun x hx hverifies i r hr => ?_⟩⟩
  · obtain ⟨note, hkeeps, -⟩ := Story.keeps_of_run mfaStory_told hrun hidle (hinit False)
      fun x _ => mfaStory_meets False.elim
    calc steps.countP (verifiesCode ticket)
        ≤ steps.countP (loadsUser ticket) := List.countP_mono_left fun _ _ => loadsUser_of_verifiesCode
      _ ≤ 5 := countP_loaded steps ▸ hkeeps.inv.1.five
  · obtain ⟨note, hkeeps, -⟩ := Story.keeps_of_run mfaStory_told hrun hidle (hinit True)
      fun x hx => mfaStory_meets fun _ => hstored x hx
    exact countP_created steps ▸ (hkeeps.inv.2.2 trivial).once
  · -- Before this step nobody had a session, for the ticket is there.
    obtain ⟨past, future, rfl⟩ := List.append_of_mem hx
    obtain ⟨hbefore, -, -⟩ := hrun.split
    obtain ⟨note, hkeeps, -⟩ := Story.keeps_of_run mfaStory_told hbefore hidle (hinit True)
      fun y hy => mfaStory_meets fun _ => hstored y (List.mem_append_left _ hy)
    have hloads := loadsUser_of_verifiesCode hverifies
    have hthere : x.1.shared.redis.mfa ticket ≠ none := by
      have h := hstored x (by simp)
      simp only [ticketStored, hloads, Bool.not_true, Bool.false_or] at h
      exact Option.isSome_iff_ne_none.1 h
    unfold System.returned at hr
    split at hr
    · next c a hi =>
      cases hr
      obtain ⟨y, hy, he⟩ := (hkeeps.inv.2.2 trivial).told i ((hkeeps.follows i _ hi).2 r rfl)
      exact hthere ((hkeeps.inv.2.2 trivial).created y hy he).1
    · exact absurd hr (by simp)

end Scenes

/-! ### A code for each of two calls -/

def twoCodesHost : AuthHost :=
  { sampleAuthHost with totp := fun _ tried _ => tried = "T" }

/-- A user with a second factor, a recovery code and a ticket. -/
def ticketHolder : AuthSystem :=
  ⟨⟨⟨[(1, ⟨"a", true, true, some "s", none, ⟨0, "p"⟩, 1, true⟩)], List.nodup_singleton _⟩,
    ⟨[(5, ⟨1, ⟨0, "R"⟩, none, none⟩)], List.nodup_singleton _⟩, ∅, [], 0, Redis.empty.setMfa 9 1, []⟩, []⟩

def startCompletion (tried : String) (names : SessionNames) : AuthLabel :=
  AuthCall.start twoCodesHost (.completeMfaChallenge 9 tried names)

theorem allows_startCompletion (tried : String) (names : SessionNames) (Y : AuthSystem) :
    (ticketRuns twoCodesHost 9).Allows Y (startCompletion tried names) :=
  ⟨tried, names, rfl, rfl⟩

/-- The second call finds no ticket. -/
theorem ticket_used_twice :
    ∃ steps Z, Run (ticketRuns twoCodesHost 9) ticketHolder steps Z ∧
      Z.returned 0 = some (.loggedIn ⟨10, 20, 1⟩) ∧ Z.returned 1 = some .nothing ∧ TicketUsedOnce 9 steps := by
  let labels : List AuthLabel :=
    startCompletion "T" ⟨1, 10, 20⟩ :: (Label.runs 0 15 ++ startCompletion "R" ⟨2, 12, 22⟩ :: Label.runs 1 3)
  obtain ⟨steps, Z, hreplay, hp⟩ := System.exists_replay (Y := ticketHolder) labels
    (p := fun steps Z => steps.all (ticketStored 9) && (Z.returned 0 = some (.loggedIn ⟨10, 20, 1⟩) &&
      Z.returned 1 = some .nothing)) (by decide +kernel)
  simp only [Bool.and_eq_true, List.all_eq_true, decide_eq_true_eq] at hp
  have hallow : ∀ l ∈ labels, ∀ Y, (ticketRuns twoCodesHost 9).Allows Y l :=
    List.forall_mem_cons.2 ⟨allows_startCompletion _ _, List.forall_mem_append.2 ⟨Setting.allows_runs,
      List.forall_mem_cons.2 ⟨allows_startCompletion _ _, Setting.allows_runs⟩⟩⟩
  have hrun := System.replay_run hallow hreplay
  exact ⟨steps, Z, hrun, hp.2.1, hp.2.2, (ticket_used hrun rfl).2 hp.1⟩

/-- A call that has read the ticket goes on after another one has used it. -/
theorem not_ticket_used :
    ¬∀ (host : AuthHost) (ticket : Nat) (Y Z : AuthSystem) (steps : List AuthStep),
      Run (ticketRuns host ticket) Y steps Z → Y.sessions = [] →
        steps.countP (verifiesCode ticket) ≤ 5 ∧ TicketUsedOnce ticket steps := by
  intro h
  let labels : List AuthLabel :=
    startCompletion "T" ⟨1, 10, 20⟩ :: startCompletion "R" ⟨2, 12, 22⟩ ::
      (Label.runs 0 3 ++ (Label.runs 1 2 ++ (Label.runs 0 12 ++ Label.runs 1 13)))
  obtain ⟨steps, Z, hreplay, hp⟩ := System.exists_replay (Y := ticketHolder) labels
    (p := fun steps Z => steps.countP storesSession = 2 && (Z.returned 0 = some (.loggedIn ⟨10, 20, 1⟩) &&
      Z.returned 1 = some (.loggedIn ⟨12, 22, 2⟩))) (by decide +kernel)
  simp only [Bool.and_eq_true, decide_eq_true_eq] at hp
  have hallow : ∀ l ∈ labels, ∀ Y, (ticketRuns twoCodesHost 9).Allows Y l :=
    List.forall_mem_cons.2 ⟨allows_startCompletion _ _, List.forall_mem_cons.2 ⟨allows_startCompletion _ _,
      List.forall_mem_append.2 ⟨Setting.allows_runs, List.forall_mem_append.2 ⟨Setting.allows_runs,
        List.forall_mem_append.2 ⟨Setting.allows_runs, Setting.allows_runs⟩⟩⟩⟩⟩
  have hsingle := (h _ _ _ Z steps (System.replay_run hallow hreplay) rfl).2.single
  omega

end Rubrica
