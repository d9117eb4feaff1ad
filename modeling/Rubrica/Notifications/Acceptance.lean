import Rubrica.Platform
import Rubrica.Transactions.Notes

set_option autoImplicit false

/-! # Accepting a notification

`accept_delivery` looks its idempotency key up, calls the provider and stores the record, each in a step of its
own. Records are kept in Redis or in a dictionary of the process. -/

namespace Rubrica

open Transactions

/-! ## What a delivery is about -/

structure NotificationSettings where
  redisEnabled : Bool
  redisKeyPrefix : String
  deliveryDefaultPolicy : String
  deliveryRetentionSeconds : Nat
  emailProvider : String
  slackWebhookUrl : Option String
  whatsappProvider : String

/-- `MediaReference`, as `model_validate` makes it of a dictionary. -/
structure MediaReference where
  reference : String
  deriving DecidableEq, Repr

/-- The entries of the payload that are read. -/
structure DeliveryPayload where
  /-- `delivery_policy.mode`. -/
  policyMode : Option String
  /-- `delivery_policy.retention_seconds`. -/
  retentionSeconds : Option Nat
  idempotencyKey : Option String
  /-- `metadata.tenant_id`. -/
  tenantId : Option String
  subject : Option String
  body : Option String
  content : Option String
  /-- `media`, where it is a dictionary. -/
  media : Option Dict

/-- What `accept_delivery` is called with; the last two are the keys it draws. -/
structure DeliveryCall where
  channel : String
  recipient : String
  payload : DeliveryPayload
  providerName : Option String
  drawnKey : String
  drawnProviderKey : String

structure ProviderDelivery where
  providerMessageId : String
  status : String
  deriving DecidableEq, Repr

/-- The record of a delivery. -/
structure AcceptedDelivery where
  deliveryId : String
  channel : String
  recipient : String
  provider : String
  status : String
  deliveryStore : String
  deliveryPolicy : String
  persisted : Bool
  payloadStored : Bool
  retentionSeconds : Option Nat
  payload : Option String
  deriving DecidableEq, Repr

inductive MessageProvider where
  | fake (name : String)
  | resend (subject idempotencyKey : String)
  | slack
  | metaWhatsapp (tenantId : Option String)
  | twilio
  deriving DecidableEq, Repr

def MessageProvider.name : MessageProvider → String
  | fake name => name
  | resend _ _ => "resend"
  | slack => "slack"
  | metaWhatsapp _ => "meta"
  | twilio => "twilio"

/-- What a provider was asked to deliver. -/
structure SentMessage where
  provider : MessageProvider
  recipient : String
  content : String
  media : Option MediaReference
  deriving DecidableEq, Repr

/-! ## The store and the providers -/

structure NotificationWorld where
  /-- In Redis, or in `_memory_deliveries`. -/
  deliveries : String → Option AcceptedDelivery
  sent : List SentMessage
  /-- What the providers answer to their deliveries, in order. -/
  answers : Nat → ProviderDelivery

/-- `SET .. NX`, and `setdefault`. -/
def NotificationWorld.setDefault (key : String) (value : AcceptedDelivery) (w : NotificationWorld) :
    NotificationWorld :=
  { w with deliveries := Function.update w.deliveries key (some ((w.deliveries key).getD value)) }

def NotificationWorld.send (message : SentMessage) (w : NotificationWorld) : NotificationWorld :=
  { w with sent := w.sent ++ [message] }

/-- Where in a call a statement stands. -/
inductive DeliveryPoint where
  | looking
  | delivering
  | storing
  | rereading
  deriving DecidableEq, Repr

/-- Nothing is locked. -/
abbrev NotificationTx (α : Type) :=
  Code NotificationWorld Unit DeliveryPoint Failure α

/-! ## Programs -/

section Programs

variable (cfg : NotificationSettings) (modelValidate : Dict → Except Failure MediaReference)

/-- Where the record of a channel and an idempotency key is kept. -/
def deliveryKey (channel idempotencyKey : String) : String :=
  cfg.redisKeyPrefix ++ ":delivery:" ++ channel ++ ":" ++ idempotencyKey

namespace DeliveryCall

def policyMode (call : DeliveryCall) : String :=
  (present call.payload.policyMode).getD cfg.deliveryDefaultPolicy

/-- A retention of zero seconds counts as none. -/
def retentionSeconds (call : DeliveryCall) : Nat :=
  (call.payload.retentionSeconds.filter fun n => n ≠ 0).getD cfg.deliveryRetentionSeconds

def idempotencyKey (call : DeliveryCall) : String :=
  (present call.payload.idempotencyKey).getD call.drawnKey

/-- `cache_key`. -/
def cacheKey (call : DeliveryCall) : String :=
  deliveryKey cfg call.channel call.idempotencyKey

/-- `_provider_for`. -/
def provider (call : DeliveryCall) : MessageProvider :=
  if call.channel = "email" ∧ (present call.providerName).getD cfg.emailProvider = "resend" then
    .resend ((present call.payload.subject).getD "NexoDesk")
      ((present call.payload.idempotencyKey).getD call.drawnProviderKey)
  else if call.channel = "slack" ∧ (present cfg.slackWebhookUrl).isSome then .slack
  else if call.channel = "whatsapp" ∧ cfg.whatsappProvider = "meta" then .metaWhatsapp call.payload.tenantId
  else if call.channel = "whatsapp" ∧ cfg.whatsappProvider = "twilio" then .twilio
  else .fake ("fake_" ++ call.channel)

def message (call : DeliveryCall) (media : Option MediaReference) : SentMessage :=
  ⟨call.provider cfg, call.recipient,
    (present call.payload.body).getD ((present call.payload.content).getD ""), media⟩

/-- The record of the call. -/
def accepted (call : DeliveryCall) (delivery : ProviderDelivery) : AcceptedDelivery :=
  let persisted := call.policyMode cfg ≠ "transient" && cfg.redisEnabled
  { deliveryId := delivery.providerMessageId,
    channel := call.channel,
    recipient := call.recipient,
    provider := (call.provider cfg).name,
    status := delivery.status,
    deliveryStore := if cfg.redisEnabled then "redis" else "memory",
    deliveryPolicy := call.policyMode cfg,
    persisted := persisted,
    payloadStored := false,
    retentionSeconds := if persisted then some (call.retentionSeconds cfg) else none,
    payload := none }

end DeliveryCall

/-- `_load_delivery`. -/
def loadDelivery (key : String) : NotificationTx (Option AcceptedDelivery) :=
  Code.select .looking fun w => w.deliveries key

/-- `_store_delivery`. -/
def storeDelivery (key : String) (value : AcceptedDelivery) : NotificationTx AcceptedDelivery :=
  if cfg.redisEnabled then do
    let stored ← Code.effect .storing (NotificationWorld.setDefault key value) fun w => (w.deliveries key).isNone
    if stored then pure value
    else do
      let current ← Code.select .rereading fun w : NotificationWorld => w.deliveries key
      pure (current.getD value)
  else Code.effect .storing (NotificationWorld.setDefault key value) fun w => (w.deliveries key).getD value

/-- The media of a payload. -/
def mediaOf (payload : DeliveryPayload) : Except Failure (Option MediaReference) :=
  match payload.media with
  | none => .ok none
  | some d => (modelValidate d).map some

/-- `accept_delivery`, of a key that was not found. -/
def sendDelivery (call : DeliveryCall) : NotificationTx AcceptedDelivery :=
  match mediaOf modelValidate call.payload with
  | .error e => Code.raise e
  | .ok media => do
    let delivery ← Code.effect .delivering (NotificationWorld.send (call.message cfg media))
      fun w => w.answers w.sent.length
    storeDelivery cfg (call.cacheKey cfg) (call.accepted cfg delivery)

/-- `accept_delivery`. -/
def acceptDelivery (call : DeliveryCall) : NotificationTx AcceptedDelivery := do
  let existing ← loadDelivery (call.cacheKey cfg)
  match existing with
  | some delivery => pure delivery
  | none => sendDelivery cfg modelValidate call

/-! ## Calls with one key -/

/-- Calls of one channel with one idempotency key. Elsewhere other keys are served, and nothing expires. -/
def deliveryRuns (channel key : String) :
    Setting NotificationWorld Unit DeliveryPoint Failure AcceptedDelivery where
  starts base code _ := base = [] ∧ ∃ call : DeliveryCall, call.channel = channel ∧ call.idempotencyKey = key ∧
    code = acceptDelivery cfg modelValidate call
  env w w' := w'.deliveries (deliveryKey cfg channel key) = w.deliveries (deliveryKey cfg channel key)
  lossy := False

abbrev NotificationSystem :=
  System NotificationWorld Unit DeliveryPoint Failure AcceptedDelivery

abbrev NotificationLabel :=
  Label NotificationWorld Unit DeliveryPoint Failure AcceptedDelivery

abbrev NotificationStep := NotificationSystem × NotificationLabel

/-- A step at which the provider delivers. -/
def delivers (x : NotificationStep) : Bool :=
  (x.1.executes x.2).any fun y => y.1 = .delivering

/-- What is stored is stored, and nobody dies; all else may fail. -/
def storeHolds (x : NotificationStep) : Bool :=
  match x.2 with
  | .fail i => x.1.pointOf i ≠ some .storing
  | .crash _ => false
  | _ => true

/-- Where the provider delivers, the key still has no record, and no call has yet to store its own. -/
def stillMissing (key : String) (x : NotificationStep) : Bool :=
  !delivers x || ((x.1.shared.deliveries key).isNone &&
    (List.range x.1.sessions.length).all fun i => x.1.pointOf i ≠ some .storing)

/-- The provider has delivered at most once, and what calls have returned is what is stored. -/
structure DeliveredOnce (key : String) (steps : List NotificationStep)
    (Z : NotificationSystem) : Prop where
  once : (steps.filter delivers).length ≤ 1
  same : ∀ i d, Z.returned i = some d → Z.shared.deliveries key = some d

/-- How far a call has come. -/
inductive DeliveryNote where
  | idle
  | sending
  | sent (d : AcceptedDelivery)
  | got (d : AcceptedDelivery)
  | ended

/-- Where a call with the note stands. -/
inductive DeliveryNote.At : DeliveryNote → Option DeliveryPoint → Prop where
  | idle : At idle (some .looking)
  | sending : At sending (some .delivering)
  | sent (d : AcceptedDelivery) : At (sent d) (some .storing)
  | got (d : AcceptedDelivery) : At (got d) none
  | ended : At ended none

structure DeliveryScene (key : String) (S : Scene NotificationWorld Unit DeliveryNote Unit) : Prop where
  once : S.told.length ≤ 1
  known : S.told ≠ [] → (∃ i d, S.note i = .sent d) ∨ S.shared.deliveries key ≠ none
  single : ∀ i j d d', S.note i = .sent d → S.note j = .sent d' → i = j
  fresh : ∀ i d, S.note i = .sent d → S.shared.deliveries key = none
  got : ∀ i d, S.note i = .got d → S.shared.deliveries key = some d

def deliveryStory (key : String) : Story NotificationWorld Unit DeliveryPoint DeliveryNote Unit where
  inv := DeliveryScene key
  tell pt _ := if pt = .delivering then some () else none
  fits := DeliveryNote.At
  cond pt S := pt = .delivering → S.shared.deliveries key = none ∧ ∀ i d, S.note i ≠ .sent d
  fails pt := pt ≠ .storing
  crashes := False

variable {cfg modelValidate} {key : String} {i : Nat}

/-- A turn at which nothing is told or stored, to a note that says nothing of the record. -/
theorem DeliveryScene.quiet {S : Scene NotificationWorld Unit DeliveryNote Unit} {H : Rights Unit} {g : DeliveryNote}
    (h : DeliveryScene key S) (hold : ∀ d, S.note i ≠ .sent d) (hsent : ∀ d, g ≠ .sent d)
    (hgot : ∀ d, g = .got d → S.shared.deliveries key = some d) :
    DeliveryScene key (S.turn i none S.shared H g) := by
  have sent : ∀ j d, (S.turn i none S.shared H g).note j = .sent d → S.note j = .sent d := by
    intro j d hj
    by_cases hji : j = i
    · subst hji
      exact absurd (by simpa [Scene.turn] using hj) (hsent d)
    · simpa [Scene.turn, Function.update_of_ne hji] using hj
  refine ⟨by simpa [Scene.turn] using h.once, fun htold => ?_, fun a b d d' ha hb => ?_, fun j d hj => ?_,
    fun j d hj => ?_⟩
  · obtain ⟨j, d, hj⟩ | hrecord := h.known (by simpa [Scene.turn] using htold)
    · have hji : j ≠ i := fun hji => hold d (hji ▸ hj)
      exact .inl ⟨j, d, by simpa [Scene.turn, Function.update_of_ne hji] using hj⟩
    · exact .inr hrecord
  · exact h.single a b d d' (sent a d ha) (sent b d' hb)
  · exact h.fresh j d (sent j d hj)
  · by_cases hji : j = i
    · subst hji
      exact hgot d (by simpa [Scene.turn] using hj)
    · exact h.got j d (by simpa [Scene.turn, Function.update_of_ne hji] using hj)

/-- The provider delivers. -/
theorem DeliveryScene.deliver {S : Scene NotificationWorld Unit DeliveryNote Unit} {H : Rights Unit}
    {m : SentMessage} {d : AcceptedDelivery} (h : DeliveryScene key S)
    (hmissing : S.shared.deliveries key = none ∧ ∀ i d, S.note i ≠ .sent d) :
    DeliveryScene key (S.turn i (some ()) (S.shared.send m) H (.sent d)) := by
  have htold : S.told = [] := by
    by_contra htold
    obtain ⟨j, d, hj⟩ | hrecord := h.known htold
    · exact hmissing.2 j d hj
    · exact hrecord hmissing.1
  have only : ∀ j d', (S.turn i (some ()) (S.shared.send m) H (.sent d)).note j = .sent d' → j = i := by
    intro j d' hj
    by_contra hji
    exact hmissing.2 j d' (by simpa [Scene.turn, Function.update_of_ne hji] using hj)
  refine ⟨by simp [Scene.turn, htold], fun _ => .inl ⟨i, d, by simp [Scene.turn]⟩, fun a b d d' ha hb => ?_,
    fun _ _ _ => hmissing.1, fun j d' hj => ?_⟩
  · rw [only a d ha, only b d' hb]
  · by_cases hji : j = i
    · subst hji
      simp [Scene.turn] at hj
    · exact h.got j d' (by simpa [Scene.turn, Function.update_of_ne hji] using hj)

/-- The record is stored. -/
theorem DeliveryScene.store {S : Scene NotificationWorld Unit DeliveryNote Unit} {H : Rights Unit}
    {d : AcceptedDelivery} (h : DeliveryScene key S) (hi : S.note i = .sent d) :
    DeliveryScene key (S.turn i none (S.shared.setDefault key d) H (.got d)) := by
  have hstored : (S.shared.setDefault key d).deliveries key = some d := by
    simp [NotificationWorld.setDefault, h.fresh i d hi]
  have unsent : ∀ j d', (S.turn i none (S.shared.setDefault key d) H (.got d)).note j ≠ .sent d' := by
    intro j d' hj
    by_cases hji : j = i
    · subst hji
      simp [Scene.turn] at hj
    · exact hji (h.single j i d' d (by simpa [Scene.turn, Function.update_of_ne hji] using hj) hi)
  refine ⟨by simpa [Scene.turn] using h.once, fun _ => .inr ?_, fun a b d d' ha hb => absurd ha (unsent a d),
    fun j d' hj => absurd hj (unsent j d'), fun j d' hj => ?_⟩
  · show (S.shared.setDefault key d).deliveries key ≠ none
    rw [hstored]
    exact Option.some_ne_none d
  · by_cases hji : j = i
    · subst hji
      have hd : d = d' := by simpa [Scene.turn] using hj
      exact hd ▸ hstored
    · have hj : S.note j = .got d' := by simpa [Scene.turn, Function.update_of_ne hji] using hj
      exact absurd ((h.got j d' hj).symm.trans (h.fresh i d hi)) (by simp)

/-! ## The calls keep to the story -/

/-- A call returns what it has got. -/
def DeliveryNote.Returned (d : AcceptedDelivery) (_ : Ctx NotificationWorld Unit) (g : DeliveryNote) : Prop :=
  DeliveryNote.At g none ∧ g = .got d

/-- A call that raises has ended. -/
def DeliveryNote.Raised (_ : Failure) (_ : Ctx NotificationWorld Unit) (g : DeliveryNote) : Prop :=
  DeliveryNote.At g none

/-- A statement that fails leaves nothing. -/
theorem deliveryStory_fails {point : DeliveryPoint} {g : DeliveryNote} (hsent : ∀ d, g ≠ .sent d) :
    (deliveryStory key).Fails i point DeliveryNote.Raised (.start []) g := by
  intro _ S hinv _ hg
  exact ⟨.ended, hinv.quiet (fun d => hg ▸ hsent d) (by simp) (by simp), .ended⟩

theorem follows_storeDelivery (d : AcceptedDelivery) :
    (deliveryStory key).follows i (storeDelivery cfg key d) DeliveryNote.Returned DeliveryNote.Raised
      (.start []) (.sent d) := by
  have hfail : (deliveryStory key).Fails i .storing DeliveryNote.Raised (.start []) (.sent d) :=
    fun h => absurd rfl h
  unfold storeDelivery
  split
  · refine Story.follows_bind.2 (Story.follows_effect (.sent d) hfail fun S hinv _ hg _ => ?_)
    have hmissing : S.shared.deliveries key = none := hinv.fresh i d hg
    refine ⟨.got d, hinv.store hg, ?_⟩
    simp only [Ctx.start_pending, id_eq, hmissing, Option.isNone_none, if_true]
    exact ⟨.got d, rfl⟩
  · refine Story.follows_effect (.sent d) hfail fun S hinv _ hg _ => ?_
    have hmissing : S.shared.deliveries key = none := hinv.fresh i d hg
    refine ⟨.got d, hinv.store hg, ?_⟩
    simp only [Ctx.start_pending, id_eq, hmissing, Option.getD_none]
    exact ⟨.got d, rfl⟩

theorem follows_sendDelivery {call : DeliveryCall} (hkey : call.cacheKey cfg = key) {media : Option MediaReference}
    (hmedia : mediaOf modelValidate call.payload = .ok media) :
    (deliveryStory key).follows i (sendDelivery cfg modelValidate call) DeliveryNote.Returned
      DeliveryNote.Raised (.start []) .sending := by
  unfold sendDelivery
  rw [hmedia]
  refine Story.follows_bind.2 (Story.follows_effect .sending (deliveryStory_fails (by simp))
    fun S hinv _ _ hcond => ⟨.sent (call.accepted cfg (S.shared.answers S.shared.sent.length)),
      hinv.deliver (hcond rfl), ?_⟩)
  rw [hkey]
  exact follows_storeDelivery _

theorem follows_acceptDelivery {call : DeliveryCall} (hkey : call.cacheKey cfg = key) :
    (deliveryStory key).follows i (acceptDelivery cfg modelValidate call) DeliveryNote.Returned
      DeliveryNote.Raised (.start []) .idle := by
  refine Story.follows_bind.2 (Story.follows_select .idle (deliveryStory_fails (by simp)) fun S hinv _ hg _ => ?_)
  have hold : ∀ d, S.note i ≠ .sent d := by simp [hg]
  rw [hkey, Ctx.start_pending, id_eq]
  cases hrecord : S.shared.deliveries key with
  | some d =>
      refine ⟨.got d, hinv.quiet hold (by simp) fun d' hd => ?_, .got d, rfl⟩
      cases hd
      exact hrecord
  | none =>
      cases hmedia : mediaOf modelValidate call.payload with
      | ok media => exact ⟨.sending, hinv.quiet hold (by simp) (by simp), follows_sendDelivery hkey hmedia⟩
      | error e =>
          refine ⟨.ended, hinv.quiet hold (by simp) (by simp), ?_⟩
          simp only [sendDelivery, hmedia]
          exact DeliveryNote.At.ended

theorem deliveryStory_told {channel idempotencyKey : String} :
    (deliveryStory (deliveryKey cfg channel idempotencyKey)).Told (fun d _ g => g = .got d) .idle
      (deliveryRuns cfg modelValidate channel idempotencyKey) where
  starts S i base code hinv hstart hheld hnote _ := by
    obtain ⟨rfl, call, rfl, rfl, rfl⟩ := hstart
    exact Story.Turns.same hinv hheld hnote (follows_acceptDelivery rfl)
  env S s hinv henv :=
    ⟨hinv.once, fun htold => (hinv.known htold).imp id fun h => henv ▸ h, hinv.single,
      fun i d hi => henv.trans (hinv.fresh i d hi), fun i d hi => henv.trans (hinv.got i d hi)⟩
  crashes h := h.elim

theorem deliveryStory_meets {x : NotificationStep} (hstore : storeHolds x = true) (hstill : stillMissing key x = true) :
    (deliveryStory key).Meets .idle x where
  cond steps note i pt act hplaced hsession hex hpt := by
    subst hpt
    have hdelivers : delivers x = true := by simp [delivers, hex]
    simp only [stillMissing, hdelivers, Bool.not_true, Bool.false_or, Bool.and_eq_true, Option.isNone_iff_eq_none,
      List.all_eq_true, List.mem_range, decide_eq_true_eq] at hstill
    refine ⟨hstill.1, fun j d hj => ?_⟩
    have hj : note j = .sent d := hj
    by_cases hlt : j < x.1.sessions.length
    · have hat := hplaced.fits j _ (List.getElem?_eq_getElem hlt)
      rw [hj] at hat
      generalize hpoint : x.1.pointOf j = p at hat
      cases hat
      exact hstill.2 j hlt hpoint
    · rw [hplaced.idle j (by omega)] at hj
      exact absurd hj (by simp)
  fails i pt act hl hnext hpt := by
    subst hpt
    simp [storeHolds, hl, System.pointOf, hnext] at hstore
  crashes i hl := by simp [storeHolds, hl] at hstore

/-- It is told when the provider has delivered. -/
theorem length_toldIn (steps : List NotificationStep) :
    (toldIn (deliveryStory key).tell steps).length = (steps.filter delivers).length := by
  have htold : ((toldIn (deliveryStory key).tell steps).countP fun _ => true) = steps.countP delivers := by
    refine countP_toldIn (p := fun _ => true) fun x => ?_
    unfold delivers
    congr 1
    funext y
    by_cases hy : y.1 = .delivering <;> simp [deliveryStory, hy]
  simpa [List.countP_eq_length_filter] using htold

/-- **One delivery a key.** Where every delivery finds its key still without a record and no other call about
    to store its own, a key is delivered once, and its calls return one record. -/
theorem delivered_once {channel idempotencyKey : String} {Y Z : NotificationSystem} {steps : List NotificationStep}
    (hrun : Run (deliveryRuns cfg modelValidate channel idempotencyKey) Y steps Z) (hidle : Y.sessions = [])
    (hstore : ∀ x ∈ steps, storeHolds x = true)
    (hstill : ∀ x ∈ steps, stillMissing (deliveryKey cfg channel idempotencyKey) x = true) :
    DeliveredOnce (deliveryKey cfg channel idempotencyKey) steps Z := by
  obtain ⟨note, hkeeps, -⟩ := Story.keeps_of_run deliveryStory_told hrun hidle
    ⟨by simp, fun h => absurd rfl h, by simp, by simp, by simp⟩
    fun x hx => deliveryStory_meets (hstore x hx) (hstill x hx)
  refine ⟨length_toldIn steps ▸ hkeeps.inv.once, fun i d hd => hkeeps.inv.got i d ?_⟩
  unfold System.returned at hd
  split at hd
  · next c a hi =>
    cases hd
    exact (hkeeps.follows i _ hi).2
  · exact absurd hd (by simp)

/-! ## Runs of calls that overlap -/

def emailSettings : NotificationSettings where
  redisEnabled := true
  redisKeyPrefix := "notification"
  deliveryDefaultPolicy := "transient"
  deliveryRetentionSeconds := 86400
  emailProvider := "fake"
  slackWebhookUrl := none
  whatsappProvider := "fake"

def sampleCall : DeliveryCall where
  channel := "email"
  recipient := "ana@example.com"
  payload := ⟨none, none, some "invite-1", none, none, some "hello", none, none⟩
  providerName := none
  drawnKey := "0"
  drawnProviderKey := "0"

/-- Nothing is stored, and no call begun. -/
def nothingDelivered : NotificationSystem where
  shared := ⟨fun _ => none, [], fun n => ⟨"fake-" ++ toString n, "sent"⟩⟩
  sessions := []

def startDelivery : NotificationLabel :=
  .start [] (acceptDelivery emailSettings (fun _ => .ok ⟨""⟩) sampleCall)

theorem allows_startDelivery (Y : NotificationSystem) :
    (deliveryRuns emailSettings (fun _ => .ok ⟨""⟩) "email" "invite-1").Allows Y startDelivery :=
  ⟨rfl, sampleCall, rfl, rfl, rfl⟩

/-- Of three calls that overlap, two have found no record. The provider fails the one, and the third finds what
the other stores. -/
theorem delivered_once_again :
    ∃ steps Z, Run (deliveryRuns emailSettings (fun _ => .ok ⟨""⟩) "email" "invite-1") nothingDelivered steps Z ∧
      (steps.filter delivers).length = 1 ∧ Z.returned 0 ≠ none ∧ Z.returned 1 = Z.returned 0 ∧ Z.returned 2 = none ∧
      DeliveredOnce (deliveryKey emailSettings "email" "invite-1") steps Z := by
  let labels : List NotificationLabel :=
    startDelivery :: startDelivery :: startDelivery :: (Label.runs 2 1 ++ (Label.runs 0 2 ++
      .fail 2 :: (Label.runs 0 1 ++ Label.runs 1 1)))
  obtain ⟨steps, Z, hreplay, hp⟩ := System.exists_replay (Y := nothingDelivered) labels
    (p := fun steps Z => steps.all storeHolds &&
      steps.all (stillMissing (deliveryKey emailSettings "email" "invite-1")) &&
      (steps.filter delivers).length = 1 && Z.returned 0 ≠ none && Z.returned 1 = Z.returned 0 &&
      Z.returned 2 = none) (by decide +kernel)
  simp only [Bool.and_eq_true, List.all_eq_true, decide_eq_true_eq] at hp
  obtain ⟨⟨⟨⟨⟨hstore, hstill⟩, hdelivers⟩, hfirst⟩, hsecond⟩, hthird⟩ := hp
  have hallow : ∀ l ∈ labels, ∀ Y, (deliveryRuns emailSettings (fun _ => .ok ⟨""⟩) "email" "invite-1").Allows Y l :=
    List.forall_mem_cons.2 ⟨allows_startDelivery, List.forall_mem_cons.2 ⟨allows_startDelivery,
      List.forall_mem_cons.2 ⟨allows_startDelivery, List.forall_mem_append.2 ⟨Setting.allows_runs,
        List.forall_mem_append.2 ⟨Setting.allows_runs, List.forall_mem_cons.2 ⟨fun _ => trivial,
          List.forall_mem_append.2 ⟨Setting.allows_runs, Setting.allows_runs⟩⟩⟩⟩⟩⟩⟩
  have hrun := System.replay_run hallow hreplay
  exact ⟨steps, Z, hrun, hdelivers, hfirst, hsecond, hthird, delivered_once hrun rfl hstore hstill⟩

/-- Two calls that overlap both deliver. -/
theorem not_delivered_once :
    ¬∀ (cfg : NotificationSettings) (modelValidate : Dict → Except Failure MediaReference)
      (channel idempotencyKey : String) (Y Z : NotificationSystem) (steps : List NotificationStep),
      Run (deliveryRuns cfg modelValidate channel idempotencyKey) Y steps Z → Y.sessions = [] →
        (∀ x ∈ steps, storeHolds x = true) →
        DeliveredOnce (deliveryKey cfg channel idempotencyKey) steps Z := by
  intro h
  let labels : List NotificationLabel :=
    startDelivery :: startDelivery :: (Label.runs 0 1 ++ (Label.runs 1 1 ++ (Label.runs 0 2 ++ Label.runs 1 3)))
  obtain ⟨steps, Z, hreplay, hp⟩ := System.exists_replay (Y := nothingDelivered) labels
    (p := fun steps _ => steps.all storeHolds && (steps.filter delivers).length = 2) (by decide +kernel)
  simp only [Bool.and_eq_true, List.all_eq_true, decide_eq_true_eq] at hp
  have hallow : ∀ l ∈ labels, ∀ Y, (deliveryRuns emailSettings (fun _ => .ok ⟨""⟩) "email" "invite-1").Allows Y l :=
    List.forall_mem_cons.2 ⟨allows_startDelivery, List.forall_mem_cons.2 ⟨allows_startDelivery,
      List.forall_mem_append.2 ⟨Setting.allows_runs, List.forall_mem_append.2 ⟨Setting.allows_runs,
        List.forall_mem_append.2 ⟨Setting.allows_runs, Setting.allows_runs⟩⟩⟩⟩⟩
  have honce := (h _ _ _ _ _ Z steps (System.replay_run hallow hreplay) rfl hp.1).once
  omega

end Programs

end Rubrica
